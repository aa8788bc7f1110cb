import Proofreader.Markup.Parser

/-! Reading a main file and all that it includes. Including takes a file off the ones that may still
be entered, so as many levels as there are files are enough. -/

namespace Proofreader.Markup

/-- The files that can be read, and which of them a path means that stands in a file. -/
structure Library where
  files : List (FileId × Text)
  resolve : FileId → Text → FileId

def Library.load (lib : Library) (file : FileId) : Option Text := lib.files.lookup file

structure Outcome where
  document : Option Node
  warnings : List Warning
  asked : List FileId

def cycleWarning (file : FileId) (at? : Option Location) : Warning :=
  ⟨.includeCycle, "Include cycle detected: " ++ file, at?⟩

def missingWarning (file : FileId) (at? : Option Location) : Warning :=
  ⟨.missingInclude, "File not found: " ++ file, at?⟩

/-- The document in `file`, which the files of `chain` are including. -/
def Library.readFile (lib : Library) : (levels : Nat) → (chain : List FileId) → FileId → Option Location →
    Scope → Outcome
  | levels, chain, file, at?, scope =>
    if chain.contains file then ⟨none, [cycleWarning file at?], []⟩
    else
      match levels, lib.load file with
      | levels + 1, some text =>
        let fetch := fun path here scope =>
          let got := lib.readFile levels (file :: chain) (lib.resolve file path) (some here) scope
          (⟨got.document.elim [] (·.children), got.warnings, got.asked⟩ : Inclusion)
        let (nodes, s) := parse ⟨file, fetch⟩ text scope
        ⟨some ⟨.document, ⟨file, 0, text.length⟩, [], .unset, 0, false, nodes⟩, s.warnings, file :: s.asked⟩
      | _, _ => ⟨none, [missingWarning file at?], [file]⟩

def Library.read (lib : Library) (main : FileId) : Outcome :=
  lib.readFile lib.files.length [] main none .unset

end Proofreader.Markup
