import DocTokens.Diagnostic
import DocTokens.Diff.EditScript
import DocTokens.Text.Quoted
import DocTokens.Token
import DocTokens.Tree.Forest

/-! # Difference reports

What changes from actual values to expected ones, line by line of their written forms. Equal written
forms give an empty report.
-/

namespace DocTokens

namespace Bytes

/-- The text without the line feeds at its end. -/
def trimNewlines (s : Bytes) : Bytes := (s.reverse.dropWhile (· == newline)).reverse

end Bytes

namespace Edit

/-- A line of a script with its mark. -/
def renderLine : Edit Bytes → Bytes
  | keep line => ascii ' ' :: line ++ [newline]
  | insert line => ascii '+' :: line ++ [newline]
  | delete line => ascii '-' :: line ++ [newline]

end Edit

namespace Diff

/-- The lines of a script from one text to another, each with its mark. -/
def lines (actual expected : Bytes) : Bytes :=
  let script := editScript (Bytes.splitAt newline actual) (Bytes.splitAt newline expected)
  if script.any Edit.isChange then Bytes.trimNewlines (script.flatMap Edit.renderLine) else []

/-- The report on two written forms, `lineDiff` showing their difference. -/
def report (lineDiff : Bytes → Bytes → Bytes) (actual expected : Bytes) : Bytes :=
  let difference := lineDiff actual expected
  if difference.isEmpty then [] else utf8 "\n\nactual -> expected:\n\n" ++ difference

/-- The written form of a list of tokens: their number, then one line for each. -/
def renderTokens (tokens : List Token) : Bytes :=
  utf8 s!"{tokens.length} tokens\n" ++ tokens.flatMap fun t => utf8 t.render ++ [newline]

def tokens (lineDiff : Bytes → Bytes → Bytes) (want got : List Token) : Bytes :=
  report lineDiff (renderTokens got) (renderTokens want)

def trees (lineDiff : Bytes → Bytes → Bytes) (want got : Tree) : Bytes :=
  report lineDiff got.dump want.dump

/-- The written form of a diagnostic, as one item of a list. -/
def renderDiagnostic (d : Diagnostic) : Bytes :=
  utf8 ("\n".intercalate
    ["  diagnostic.Diagnostic\x7b",
     "    Message: " ++ Quoted.encode d.message ++ ",",
     "    Span:    node.Span\x7b",
     "      Start: " ++ toString d.span.start ++ ",",
     "      End:   " ++ toString d.span.stop ++ ",",
     "    \x7d,",
     "    Severity: " ++ Quoted.encodeText d.severity.name ++ ",",
     "  \x7d,\n"])

/-- The written form of a list of diagnostics. -/
def renderDiagnostics (ds : List Diagnostic) : Bytes :=
  if ds.isEmpty then utf8 "[]diagnostic.Diagnostic(nil)"
  else utf8 "[]diagnostic.Diagnostic\x7b\n" ++ ds.flatMap renderDiagnostic ++ utf8 "\x7d"

def diagnostics (lineDiff : Bytes → Bytes → Bytes) (want got : List Diagnostic) : Bytes :=
  report lineDiff (renderDiagnostics got) (renderDiagnostics want)

end Diff

end DocTokens
