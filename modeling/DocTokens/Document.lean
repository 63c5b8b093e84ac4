import DocTokens.Diagnostic
import DocTokens.Markdown.Convert
import DocTokens.Markdown.Parse
import DocTokens.Token

/-! # Tokens of a document

Parsing a document and tokenizing the tree that comes out. A parse asks the stop signal once; the
walk over the tree asks it on its own.
-/

namespace DocTokens

/-- What a parser makes of a document. -/
structure Parsed where
  tree : Option Tree
  diagnostics : List Diagnostic

/-- A parser takes the name and the text of a document, or says why it does not. -/
abbrev Parser := String → Bytes → Except String Parsed

/-- The parser of markdown documents takes every text. -/
def Markdown.parser : Parser := fun _ text =>
  let src := text.toArray
  let (tree, diagnostics) := convert src (parse src)
  .ok ⟨some tree, diagnostics⟩

/-- The tokens and diagnostics of one document. -/
structure DocumentTokens where
  file : String
  tokens : List Token
  diagnostics : List Diagnostic
  deriving DecidableEq, Repr

/-- Why a document has no tokens. -/
inductive DocumentError where
  /-- The stop signal answered before the document was parsed. -/
  | stopped (file : String) (cause : StopCause)
  | rejected (file : String) (reason : String)
  | untokenized (file : String) (cause : TokenizeError)
  deriving DecidableEq, Repr

namespace DocumentError

def message : DocumentError → String
  | stopped file cause => s!"parsing {file}: parsing {file}: {cause.message}"
  | rejected file reason => s!"parsing {file}: {reason}"
  | untokenized file cause => s!"tokenizing {file}: {cause.message}"

end DocumentError

namespace DocumentTokens

/-- The tokens of a document, and the stop signal afterwards. -/
def ofText (parser : Parser) (file : String) (text : Bytes) (interval : Int) (signal : StopSignal) :
    Except DocumentError DocumentTokens × StopSignal :=
  match signal.poll with
  | .error cause => (.error (.stopped file cause), signal)
  | .ok signal =>
    match parser file text with
    | .error reason => (.error (.rejected file reason), signal)
    | .ok parsed =>
      match Tree.tokenize? parsed.tree text interval signal with
      | (.error e, signal) => (.error (.untokenized file e), signal)
      | (.ok tokens, signal) => (.ok ⟨file, tokens, parsed.diagnostics⟩, signal)

end DocumentTokens

end DocTokens
