import DocTokens.Hcl.Syntax
import DocTokens.Settings.Basic
import DocTokens.Text.Integer

/-! # Settings in attribute files

Attributes with the names of the settings. What is missing keeps its value. Blocks and unknown
attributes are refused.
-/

namespace DocTokens.Hcl.Value

/-- A list of texts; null is an empty one. -/
def texts? : Value → Option (List String)
  | null => some []
  | tuple items => items.mapM text?
  | _ => none

/-- An integer of 64 bits. -/
def integer? (v : Value) : Option Int :=
  (v.number?.bind Decimal.toInt?).filter fun n => Integer.least ≤ n && n ≤ Integer.greatest

end DocTokens.Hcl.Value

namespace DocTokens.Settings

/-- Sets one setting from its value. -/
def setFromHcl (s : Settings) (name : String) (v : Hcl.Value) : Option Settings :=
  match name with
  | "include" => v.texts?.map fun v => { s with patterns := v }
  | "exclude" => v.texts?.map fun v => { s with exclusions := v }
  | "format" => v.text?.map fun v => { s with format := v }
  | "check_interval" => v.integer?.map fun v => { s with checkInterval := v }
  | _ => none

/-- Settings over the defaults; `none` if an attribute does not fit. -/
def ofHcl? (body : Hcl.Body) : Option Settings :=
  if body.blocks.isEmpty then
    body.attributes.foldlM (fun s (name, e) => (e.eval []).bind (s.setFromHcl name)) default
  else none

end DocTokens.Settings
