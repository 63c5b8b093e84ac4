import DocTokens.Document
import DocTokens.FileSystem
import DocTokens.Glob.Expand
import DocTokens.Search
import DocTokens.Settings.Basic

/-! # Runs over many documents

A run searches documents and tokenizes each of them. A document that fails does not stop the others;
a document with error diagnostics has a result and counts as a failure all the same.
-/

namespace DocTokens

/-- What is wrong with one document. -/
inductive DocumentFailure where
  | unreadable (file : String) (reason : String)
  | untokenized (cause : DocumentError)
  | faulty (file : String) (errors : Nat)
  deriving DecidableEq, Repr

namespace DocumentFailure

def message : DocumentFailure → String
  | unreadable file reason => s!"reading {file}: {reason}"
  | untokenized cause => cause.message
  | faulty file errors => s!"{file}: {errors} error diagnostics"

/-- All failures of a run in one text. -/
def summary (failures : List DocumentFailure) : String :=
  let count := failures.length
  let heading := if count = 1 then "1 error occurred:" else s!"{count} errors occurred:"
  heading ++ "\n\t" ++ "\n\t".intercalate (failures.map fun f => "* " ++ f.message) ++ "\n\n"

end DocumentFailure

/-- What a run over a list of documents gives. -/
structure RunOutcome where
  results : List DocumentTokens
  failures : List DocumentFailure
  deriving DecidableEq, Repr

namespace RunOutcome

def empty : RunOutcome := ⟨[], []⟩

def append (a b : RunOutcome) : RunOutcome := ⟨a.results ++ b.results, a.failures ++ b.failures⟩

instance : Append RunOutcome := ⟨append⟩

/-- The outcome of a document with tokens. -/
def ofTokens (r : DocumentTokens) : RunOutcome :=
  let groups := DiagnosticGroups.ofList r.diagnostics
  ⟨[r], if groups.hasErrors then [.faulty r.file groups.errors.length] else []⟩

variable (parser : Parser) (read : String → Except String Bytes) (interval : Int)

/-- The outcome of one document, and the stop signal afterwards. -/
def ofFile (file : String) (signal : StopSignal) : RunOutcome × StopSignal :=
  match read file with
  | .error reason => (⟨[], [.unreadable file reason]⟩, signal)
  | .ok text =>
    match DocumentTokens.ofText parser file text interval signal with
    | (.error e, signal) => (⟨[], [.untokenized e]⟩, signal)
    | (.ok r, signal) => (ofTokens r, signal)

/-- The outcome of a list of documents, one after the other under one stop signal. -/
def ofFiles : List String → StopSignal → RunOutcome × StopSignal
  | [], signal => (empty, signal)
  | file :: files, signal =>
    let (first, signal) := ofFile parser read interval file signal
    let (rest, signal) := ofFiles files signal
    (first ++ rest, signal)

end RunOutcome

namespace Settings

/-- The patterns of a run: those given, or those of the settings when none are. -/
def patternsOr (s : Settings) (patterns : List String) : List String :=
  if patterns.isEmpty then s.patterns else patterns

/-- Searches documents under the settings and tokenizes them. -/
def run (s : Settings) (parser : Parser) (fs : FileSystem) (patterns : List String)
    (signal : StopSignal) : Except (SearchError Glob.PatternError) RunOutcome :=
  match Search.find (Glob.expand fs) s.excludes (s.patternsOr patterns) signal with
  | (.error e, _) => .error e
  | (.ok files, signal) =>
    .ok (RunOutcome.ofFiles parser fs.read s.checkInterval files signal).1

end Settings

end DocTokens
