import DocTokens.Span
import DocTokens.Text.Bytes

/-! # Diagnostics

Messages of a parser about a document. They travel beside the tokens.
-/

namespace DocTokens

/-- How grave a diagnostic is. Names other than the four below are allowed. -/
structure Severity where
  name : String
  deriving DecidableEq, Repr, Inhabited

namespace Severity

def error : Severity := ⟨"error"⟩
def warning : Severity := ⟨"warning"⟩
def info : Severity := ⟨"info"⟩
def hint : Severity := ⟨"hint"⟩

end Severity

structure Diagnostic where
  message : Bytes
  span : Span
  severity : Severity
  deriving DecidableEq, Repr, Inhabited

namespace Diagnostic

def render (d : Diagnostic) : Bytes :=
  utf8 s!"{d.severity.name} {d.span.render}: " ++ d.message

end Diagnostic

/-- Diagnostics by severity, in their order within each group. -/
structure DiagnosticGroups where
  errors : List Diagnostic
  warnings : List Diagnostic
  hints : List Diagnostic
  deriving DecidableEq, Repr

namespace DiagnosticGroups

/-- Everything that is neither error nor warning is a hint. -/
def ofList (ds : List Diagnostic) : DiagnosticGroups where
  errors := ds.filter (·.severity == .error)
  warnings := ds.filter (·.severity == .warning)
  hints := ds.filter fun d => d.severity != .error && d.severity != .warning

def hasErrors (g : DiagnosticGroups) : Bool := !g.errors.isEmpty

def toList (g : DiagnosticGroups) : List Diagnostic := g.errors ++ g.warnings ++ g.hints

end DiagnosticGroups

end DocTokens
