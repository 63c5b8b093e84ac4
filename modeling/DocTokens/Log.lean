import DocTokens.Style
import DocTokens.Text.Quoted

/-! # Log lines

A log line shows the time, the level, the place in the program that wrote it, a message and fields.
-/

namespace DocTokens

/-! ## Places in a program -/

/-- A function of a program, named by its package path and its name within the package. -/
structure QualifiedName where
  package : String
  function : String
  deriving DecidableEq, Repr

namespace QualifiedName

/-- The package path ends at the first dot after the last slash; without one all is package path. -/
def ofText (name : String) : QualifiedName :=
  let last := name.toList.reverse.takeWhile (· != '/') |>.reverse
  let directory := name.toList.take (name.length - last.length)
  match last.dropWhile (· != '.') with
  | [] => ⟨name, ""⟩
  | _ :: function =>
    ⟨String.ofList (directory ++ last.takeWhile (· != '.')), String.ofList function⟩

end QualifiedName

/-- A line of a source file. -/
structure Caller where
  package : String
  path : String
  line : Int
  deriving DecidableEq, Repr

namespace Caller

/-- What follows the last slash of a path. -/
def fileName (path : String) : String := (path.splitOn "/").getLastD ""

def render (c : Caller) (colored : Bool) : String :=
  let separator := Style.paint [.faint] colored ":"
  c.package ++ separator ++ Style.paint [.bold] colored (fileName c.path) ++ separator
    ++ Style.paint [.brightRed, .bold] colored (toString c.line)

end Caller

/-! ## Events -/

namespace Log

inductive Level where
  | trace
  | debug
  | info
  | warn
  | error
  deriving DecidableEq, Repr

namespace Level

def rank : Level → Nat
  | trace => 0
  | debug => 1
  | info => 2
  | warn => 3
  | error => 4

def label : Level → String
  | trace => "TRC"
  | debug => "DBG"
  | info => "INF"
  | warn => "WRN"
  | error => "ERR"

/-- The color of the label; debug lines have none. -/
def colorCode? : Level → Option Nat
  | trace => some 34
  | debug => none
  | info => some 32
  | warn => some 33
  | error => some 31

end Level

abbrev Fields := List (String × String)

structure Event where
  level : Level
  message : String
  fields : Fields
  deriving DecidableEq, Repr

/-- Where and how events are written. -/
structure Logger where
  /-- The least level that is written; without one nothing is. -/
  threshold : Option Level
  colored : Bool
  /-- The time as it is shown. -/
  clock : String
  caller : Caller
  /-- Fields of every event. -/
  fields : Fields
  deriving DecidableEq, Repr

/-- A text between an escape sequence and a full reset. -/
def highlight (colored : Bool) (code : Nat) (text : String) : String :=
  if colored then Style.sequence [code] ++ text ++ Style.sequence [0] else text

/-- Whether a field value is shown in quotes: it has a blank, a quote, a backslash or a character
that is not printable ASCII. -/
def needsQuotes (value : String) : Bool :=
  value.any fun c => c.toNat ≤ 0x20 || c.toNat > 0x7e || c == '\\' || c == '"'

/-- Field names that stand for other parts of the line. -/
def reservedNames : List String := ["level", "time", "message", "caller"]

/-- Sets a field; the last value given for a name counts. -/
def setField (fields : Fields) (field : String × String) : Fields :=
  fields.filter (·.1 != field.1) ++ [field]

/-- The fields as they are shown: in the order of their names, but the error first. -/
def arrange (fields : Fields) : Fields :=
  let shown := (fields.foldl setField []).filter fun (name, _) => !reservedNames.contains name
  let sorted := shown.mergeSort fun a b => a.1 ≤ b.1
  sorted.filter (·.1 == "error") ++ sorted.filter (·.1 != "error")

def renderField (colored : Bool) (field : String × String) : String :=
  let (name, value) := field
  let value := if needsQuotes value then Quoted.encodeText value else value
  let value :=
    if name = "error" then highlight colored 31 (highlight colored 1 value) else value
  highlight colored 36 (name ++ "=") ++ value

/-- Messages from level info on stand out. -/
def renderMessage (colored : Bool) (e : Event) : String :=
  if e.message = "" then ""
  else if Level.info.rank ≤ e.level.rank then highlight colored 1 e.message
  else e.message

namespace Logger

def writes (l : Logger) (e : Event) : Bool :=
  match l.threshold with
  | none => false
  | some least => least.rank ≤ e.level.rank

/-- The line of an event. Parts without text leave no gap. -/
def line (l : Logger) (e : Event) : String :=
  let label := match e.level.colorCode? with
    | some code => highlight l.colored code e.level.label
    | none => e.level.label
  let caller := highlight l.colored 1 (l.caller.render l.colored) ++ highlight l.colored 36 " >"
  let fields := (arrange (l.fields ++ e.fields)).map (renderField l.colored)
  let parts := [Style.paint [.faint] l.colored l.clock, label, caller, renderMessage l.colored e]
  " ".intercalate (parts.filter (· != "") ++ fields) ++ "\n"

/-- What the logger writes about a list of events. -/
def write (l : Logger) (events : List Event) : String :=
  String.join ((events.filter l.writes).map l.line)

end Logger

end Log

end DocTokens
