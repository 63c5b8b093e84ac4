import DocTokens.Document
import DocTokens.Settings.Basic
import DocTokens.Style
import DocTokens.Text.JsonText

/-! # Reports

The results of a run, written as text for people or as JSON for programs.
-/

namespace DocTokens.Report

/-! ## Text -/

/-- The style of a severity; one of another name has no attributes. -/
def severityStyle (s : Severity) : Style :=
  if s = .error then [.red, .bold]
  else if s = .warning then [.yellow]
  else if s = .info then [.blue]
  else if s = .hint then [.faint]
  else []

def tokenLine (colored : Bool) (t : Token) : Bytes :=
  let position := Style.paint [.faint] colored s!"{t.line}:{t.column}+{t.length}"
  utf8 s!"  {position} {Style.paint [.cyan] colored t.category.legend}\n"

def diagnosticLine (colored : Bool) (d : Diagnostic) : Bytes :=
  let severity := Style.paint (severityStyle d.severity) colored d.severity.name
  let place := Style.paint [.faint] colored d.span.render
  utf8 s!"  {severity} {place} " ++ d.message ++ [newline]

/-- The name of the document, its tokens, and its diagnostics by severity. -/
def documentText (colored : Bool) (r : DocumentTokens) : Bytes :=
  utf8 (Style.paint [.bold] colored r.file) ++ [newline] ++ r.tokens.flatMap (tokenLine colored)
    ++ (DiagnosticGroups.ofList r.diagnostics).toList.flatMap (diagnosticLine colored)

def text (colored : Bool) (results : List DocumentTokens) : Bytes :=
  results.flatMap (documentText colored)

/-! ## JSON -/

def tokenValue (t : Token) : JsonValue :=
  .object [("line", .integer t.line), ("column", .integer t.column), ("length", .integer t.length),
    ("category", .integer t.category.id)]

def diagnosticValue (d : Diagnostic) : JsonValue :=
  .object [("message", .string d.message),
    ("span", .object [("start", .integer d.span.start), ("end", .integer d.span.stop)]),
    ("severity", .ofText d.severity.name)]

/-- One result with its id. Diagnostics are left out when there are none. -/
def documentValue (id : String) (r : DocumentTokens) : JsonValue :=
  .object ([("id", .ofText id), ("file", .ofText r.file),
      ("tokens", .array (r.tokens.map tokenValue))]
    ++ if r.diagnostics.isEmpty then []
       else [("diagnostics", .array (r.diagnostics.map diagnosticValue))])

/-- All results as one array; `id` gives the id of the result at each place. -/
def json (id : Nat → String) (results : List DocumentTokens) : Bytes :=
  let values := results.zipIdx.map fun (r, i) => documentValue (id i) r
  utf8 ((JsonValue.array values).indented "" ++ "\n")

/-- The report in a format. A format without a writer of its own is written as text. -/
def write (format : String) (colored : Bool) (id : Nat → String) (results : List DocumentTokens) :
    Bytes :=
  if format = Settings.jsonFormat then json id results else text colored results

end DocTokens.Report
