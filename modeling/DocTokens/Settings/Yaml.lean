import DocTokens.Settings.Basic
import DocTokens.Text.Decimal
import DocTokens.Text.Integer
import DocTokens.Yaml.Node

/-! # Settings in YAML

A mapping whose keys are the names of the settings. What is missing or null keeps its value, but a
null list is an empty one. Unknown and repeated keys are refused.
-/

namespace DocTokens.Yaml

/-- What a plain scalar stands for. -/
inductive Meaning where
  | null
  | boolean (b : Bool)
  | integer (n : Int)
  | number (d : Decimal)
  | infinity (negative : Bool)
  | notANumber
  | text
  deriving DecidableEq, Repr

namespace Meaning

/-- The tag that goes with a meaning. -/
def tag : Meaning → String
  | null => "!!null"
  | boolean _ => "!!bool"
  | integer _ => "!!int"
  | number _ | infinity _ | notANumber => "!!float"
  | text => "!!str"

/-- Numbers start with a digit, a sign or a point. -/
def ofNumber (s : String) : Meaning :=
  match s.toList with
  | [] => text
  | c :: _ =>
    if c = '.' then ((Decimal.ofText? s).map number).getD text
    else if c.isDigit ∨ c = '+' ∨ c = '-' then
      let plain := String.ofList (s.toList.filter (· != '_'))
      match Integer.read plain with
      | .ok n => integer n
      | .error _ => ((Decimal.ofText? plain).map number).getD text
    else text

def ofPlain (s : String) : Meaning :=
  if ["", "~", "null", "Null", "NULL"].contains s then null
  else if ["true", "True", "TRUE"].contains s then boolean true
  else if ["false", "False", "FALSE"].contains s then boolean false
  else if [".inf", ".Inf", ".INF", "+.inf", "+.Inf", "+.INF"].contains s then infinity false
  else if ["-.inf", "-.Inf", "-.INF"].contains s then infinity true
  else if [".nan", ".NaN", ".NAN"].contains s then notANumber
  else ofNumber s

/-- The meaning of a scalar. A tag must fit what is written, but an integer may be tagged as a
number. -/
def ofScalar (tag : Option String) (plain : Bool) (s : String) : Option Meaning :=
  match tag with
  | none => some (if plain then ofPlain s else text)
  | some "!!str" => some text
  | some t =>
    match ofPlain s with
    | integer n =>
      if t = "!!int" then some (integer n)
      else if t = "!!float" then some (number (.ofInt n))
      else none
    | m => if t = m.tag then some m else none

end Meaning

/-- What reading a value for a setting gives: nothing for null. There is no answer if the value does
not fit. -/
abbrev Found (α : Type) := Option (Option α)

namespace Node

/-- A text; other scalars count as they are written. -/
def text? : Node → Found String
  | scalar tag plain s =>
    (Meaning.ofScalar tag plain s).map fun m => if m = .null then none else some s
  | _ => none

/-- An integer of 64 bits. Other numbers lose their fraction, and those below all integers count as
the least one. -/
def integer? : Node → Found Int
  | scalar tag plain s =>
    match Meaning.ofScalar tag plain s with
    | some .null => some none
    | some (.integer n) => some (some n)
    | some (.number d) =>
      let n := d.truncate
      if n ≤ Integer.greatest then some (some (max Integer.least n)) else none
    | some (.infinity true) => some (some Integer.least)
    | _ => none
  | _ => none

/-- A list of texts, null items left out. -/
def texts? : Node → Found (List String)
  | sequence items =>
    let found : Option (List (Option String)) := items.mapM fun (n : Node) => (n.text? : Option _)
    found.map fun items => some (items.filterMap id)
  | n =>
    match n.text? with
    | some none => some (some [])
    | _ => none

/-- Whether a key stands for the entries of other mappings. -/
def isMerge : Node → Bool
  | scalar none true "<<" => true
  | _ => false

/-- The text by which repeated keys are found. -/
def keyText : Node → String
  | scalar _ _ s => s
  | _ => ""

/-- Whether two keys of a mapping are written the same. -/
def hasRepeatedKey (entries : List (Node × Node)) : Bool :=
  let keys := entries.map fun (k, _) => k.keyText
  keys.eraseDups.length != keys.length

/-- The mappings whose entries are merged in. -/
def merged? : Node → Option (List (List (Node × Node)))
  | mapping entries => some [entries]
  | sequence items => items.mapM fun
    | mapping entries => some entries
    | _ => none
  | _ => none

end Node

end DocTokens.Yaml

namespace DocTokens.Settings

/-- Sets one setting from its value. -/
def setFromYaml (s : Settings) (name : String) (value : Yaml.Node) : Option Settings :=
  match name with
  | "include" => value.texts?.map fun v => { s with patterns := v.getD s.patterns }
  | "exclude" => value.texts?.map fun v => { s with exclusions := v.getD s.exclusions }
  | "format" => value.text?.map fun v => { s with format := v.getD s.format }
  | "check_interval" =>
    value.integer?.map fun v => { s with checkInterval := v.getD s.checkInterval }
  | _ => none

/-- Sets the settings of a mapping that are not `done` yet; the names set are added to `done`. -/
def setEntries (done : List String) :
    List (Yaml.Node × Yaml.Node) → Settings × List String → Option (Settings × List String)
  | [], state => some state
  | (key, value) :: rest, (s, set) =>
    if key.isMerge then setEntries done rest (s, set)
    else match key.text? with
      | none => none
      | some none => setEntries done rest (s, set)
      | some (some name) =>
        if done.contains name then setEntries done rest (s, set)
        else match s.setFromYaml name value with
          | none => none
          | some s => setEntries done rest (s, name :: set)

/-- Applies a mapping, then what it merges in, which does not replace what is set. -/
def setMapping :
    Nat → List (Yaml.Node × Yaml.Node) → Settings × List String → Option (Settings × List String)
  | 0, _, _ => none
  | fuel + 1, entries, (s, done) =>
    if Yaml.Node.hasRepeatedKey entries then none
    else match setEntries done entries (s, done) with
      | none => none
      | some state =>
        match entries.find? (·.1.isMerge) with
        | none => some state
        | some (_, value) =>
          match value.merged? with
          | none => none
          | some mappings => mappings.foldlM (fun state m => setMapping fuel m state) state

/-- Settings written in YAML over the defaults; `none` if the text is malformed or does not fit. -/
def ofYaml? (text : String) : Option Settings :=
  match Yaml.firstDocument? text with
  | none => none
  | some none => some default
  | some (some (.mapping entries)) => (setMapping 16 entries (default, [])).map (·.1)
  | some (some n) =>
    match n.text? with
    | some none => some default
    | _ => none

end DocTokens.Settings
