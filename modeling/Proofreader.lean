import Proofreader.Chunk
import Proofreader.CommandLine.Arguments
import Proofreader.CommandLine.Option
import Proofreader.CommandLine.Run
import Proofreader.Disk
import Proofreader.Document.Change
import Proofreader.Document.Node
import Proofreader.Document.Source
import Proofreader.Duration
import Proofreader.Extraction
import Proofreader.Fault
import Proofreader.Finding
import Proofreader.Json.Access
import Proofreader.Json.Reader
import Proofreader.Json.Value
import Proofreader.Json.Writer
import Proofreader.Language.Profile
import Proofreader.Location
import Proofreader.Log
import Proofreader.Main
import Proofreader.Mapping
import Proofreader.Markup.Cursor
import Proofreader.Markup.Lexeme
import Proofreader.Markup.Library
import Proofreader.Markup.Parser
import Proofreader.Number.Parts
import Proofreader.Number.Quantity
import Proofreader.Number.Reading
import Proofreader.Number.Shortest
import Proofreader.Path
import Proofreader.Presentation.Editor
import Proofreader.Presentation.Host
import Proofreader.Presentation.Terminal
import Proofreader.Presentation.Uri
import Proofreader.Problem
import Proofreader.Project.Basic
import Proofreader.Project.Snapshot
import Proofreader.Proofs.Chunk.Cover
import Proofreader.Proofs.Chunk.Cuts
import Proofreader.Proofs.Chunk.Literals
import Proofreader.Proofs.Chunk.Pages
import Proofreader.Proofs.Chunk.Words
import Proofreader.Proofs.Collections
import Proofreader.Proofs.CommandLine.Watching
import Proofreader.Proofs.Document.Changes
import Proofreader.Proofs.Document.Tree
import Proofreader.Proofs.Duration
import Proofreader.Proofs.Extraction.Apart
import Proofreader.Proofs.Extraction.Correspondence
import Proofreader.Proofs.Extraction.Cue
import Proofreader.Proofs.Extraction.Draft
import Proofreader.Proofs.Extraction.Filled
import Proofreader.Proofs.Extraction.Plain
import Proofreader.Proofs.Extraction.Prose
import Proofreader.Proofs.Extraction.Range
import Proofreader.Proofs.Log
import Proofreader.Proofs.Mapping.Answers
import Proofreader.Proofs.Mapping.Located
import Proofreader.Proofs.Mapping.Narrowing
import Proofreader.Proofs.Markup.Closer
import Proofreader.Proofs.Markup.ContentCall
import Proofreader.Proofs.Markup.Cursor
import Proofreader.Proofs.Markup.Included
import Proofreader.Proofs.Markup.Includes
import Proofreader.Proofs.Markup.Layout
import Proofreader.Proofs.Markup.Library
import Proofreader.Proofs.Markup.Paragraphs
import Proofreader.Proofs.Markup.Parser
import Proofreader.Proofs.Markup.Provenance
import Proofreader.Proofs.Markup.Scoping
import Proofreader.Proofs.Markup.UpTo
import Proofreader.Proofs.Path
import Proofreader.Proofs.Presentation.Uri
import Proofreader.Proofs.Project.Editing
import Proofreader.Proofs.Project.Names
import Proofreader.Proofs.Project.Reads
import Proofreader.Proofs.Project.View
import Proofreader.Proofs.Respelling.Fix
import Proofreader.Proofs.Scheduler.Deadline
import Proofreader.Proofs.Scheduler.Debounce
import Proofreader.Proofs.Scheduler.Stopped
import Proofreader.Proofs.Search
import Proofreader.Proofs.Service.Interchange
import Proofreader.Proofs.Service.Processes
import Proofreader.Proofs.Service.Retries
import Proofreader.Proofs.Service.Spans
import Proofreader.Proofs.Session.Allowances
import Proofreader.Proofs.Session.Check
import Proofreader.Proofs.Session.Cleared
import Proofreader.Proofs.Session.Confluent
import Proofreader.Proofs.Session.Dealings
import Proofreader.Proofs.Session.Exchanges
import Proofreader.Proofs.Session.Fresh
import Proofreader.Proofs.Session.Isolated
import Proofreader.Proofs.Session.LastGood
import Proofreader.Proofs.Session.Launches
import Proofreader.Proofs.Session.Memory
import Proofreader.Proofs.Session.Overrides
import Proofreader.Proofs.Session.Pages
import Proofreader.Proofs.Session.Refinement
import Proofreader.Proofs.Session.Rejected
import Proofreader.Proofs.Session.Remembered
import Proofreader.Proofs.Session.Services
import Proofreader.Proofs.Session.Verdict
import Proofreader.Proofs.Session.Viewing
import Proofreader.Proofs.Settings.Dotted
import Proofreader.Proofs.SourceMap.Components
import Proofreader.Proofs.SourceMap.Merge
import Proofreader.Proofs.SourceMap.Projection
import Proofreader.Proofs.SourceMap.Slices
import Proofreader.Proofs.SourceMap.Tiling
import Proofreader.Proofs.Style.Order
import Proofreader.Proofs.Style.Pieces
import Proofreader.Proofs.Style.Stream
import Proofreader.Proofs.Text.Basic
import Proofreader.Proofs.Text.Units
import Proofreader.Rehearsal.Caller
import Proofreader.Rehearsal.Checker
import Proofreader.Rehearsal.Document
import Proofreader.Rehearsal.Measure
import Proofreader.Rehearsal.Script
import Proofreader.Rehearsal.Stage
import Proofreader.Rehearsal.World
import Proofreader.Report
import Proofreader.Scheduler.Basic
import Proofreader.Scheduler.Inline
import Proofreader.Scheduler.Threaded
import Proofreader.Search
import Proofreader.Service.Backend
import Proofreader.Service.Client
import Proofreader.Service.Literal
import Proofreader.Service.Reply
import Proofreader.Service.Selection
import Proofreader.Service.Server
import Proofreader.Service.Tool
import Proofreader.Session.Basic
import Proofreader.Session.Cache
import Proofreader.Settings.Basic
import Proofreader.Settings.Key
import Proofreader.Settings.Load
import Proofreader.SourceMap
import Proofreader.Style.Rule
import Proofreader.Style.Segment
import Proofreader.Text.Basic
import Proofreader.Text.Case
import Proofreader.Text.Caseless
import Proofreader.Text.Digit
import Proofreader.Text.Flips
import Proofreader.Text.Identifier
import Proofreader.Text.Letter
import Proofreader.Text.Printable
import Proofreader.Text.Quoted
import Proofreader.Text.Utf16
import Proofreader.Text.Utf8
import Proofreader.Time
import Proofreader.Warning
