import Proofreader.Json.Access
import Proofreader.Text.Basic

/-! The names of the settings. Editors may write them with capitals in place of underscores. -/

namespace Proofreader

inductive Key where
  | dictionary
  | disabledChecks
  | languages
  | bundled
  | jarLocation
  | host
  | port
  | chunkSize
  | lookback
  | boundaryWindow
  | onChange
  | root
  | main
  | spellcheck
  | rules
  | paginateLevel
  | caseSensitive
  | maxRetries
  | launchAttempts
  | requestTimeout
  | startupTimeout
  | logLevel
  | logFormat
deriving DecidableEq, Inhabited

namespace Key

def all : List Key :=
  [dictionary, disabledChecks, languages, bundled, jarLocation, host, port, chunkSize, lookback,
    boundaryWindow, onChange, root, main, spellcheck, rules, paginateLevel, caseSensitive, maxRetries,
    launchAttempts, requestTimeout, startupTimeout, logLevel, logFormat]

def name : Key → String
  | dictionary => "dictionary"
  | disabledChecks => "disabled_checks"
  | languages => "languages"
  | bundled => "bundled"
  | jarLocation => "jar_location"
  | host => "host"
  | port => "port"
  | chunkSize => "chunk_size"
  | lookback => "lookback"
  | boundaryWindow => "boundary_window"
  | onChange => "on_change"
  | root => "root"
  | main => "main"
  | spellcheck => "spellcheck"
  | rules => "rules"
  | paginateLevel => "paginate_level"
  | caseSensitive => "dictionary_case_sensitive"
  | maxRetries => "max_retries"
  | launchAttempts => "launch_attempts"
  | requestTimeout => "request_timeout"
  | startupTimeout => "startup_timeout"
  | logLevel => "log_level"
  | logFormat => "log_format"

def ofName? (s : String) : Option Key := all.find? (·.name = s)

/-- A name in lower case, with an underscore before each capital but the first character. -/
def plainName (s : String) : String :=
  let mark (c : Char) : Text := if 'A' ≤ c && c ≤ 'Z' then ['_', c] else [c]
  match s.toList with
  | [] => ""
  | c :: r => String.ofList (Text.lower (c :: r.flatMap mark))

theorem mem_all (k : Key) : k ∈ all := by cases k <;> decide

end Key

end Proofreader
