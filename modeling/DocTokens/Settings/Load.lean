import DocTokens.Path
import DocTokens.Settings.Hcl
import DocTokens.Settings.Yaml

/-! # Settings files

The extension of a settings file tells its format: `.yaml` and `.yml` are YAML, everything else is
an attribute file.
-/

namespace DocTokens

/-- Why a settings file cannot be used. -/
inductive SettingsFileError where
  | unreadable (reason : String)
  /-- The file is no YAML, or its values do not fit. -/
  | badYaml
  /-- The file is no list of attributes. -/
  | badSyntax
  /-- An attribute is unknown or its value does not fit. -/
  | badValue
  | invalid (path : String) (cause : SettingsError)
  deriving DecidableEq, Repr

namespace SettingsFileError

def message : SettingsFileError → String
  | unreadable reason => s!"reading config file: {reason}"
  | badYaml => "parsing YAML: malformed document"
  | badSyntax => "parsing HCL: malformed file"
  | badValue => "decoding HCL: unsuitable value"
  | invalid path cause => s!"validating {path}: {cause.message}"

end SettingsFileError

namespace Settings

/-- Whether a settings file is written in YAML. -/
def isYamlPath (path : String) : Bool :=
  let extension := (Path.extension path).map Char.toLower
  extension == ".yaml" || extension == ".yml"

/-- The settings in the content of a file. -/
def parse (path : String) (content : Bytes) : Except SettingsFileError Settings :=
  let text? := if Utf8.isValid content then some (Utf8.toText content) else none
  if isYamlPath path then
    match text?.bind ofYaml? with
    | some s => .ok s
    | none => .error .badYaml
  else match text?.bind Hcl.Body.ofText? with
    | none => .error .badSyntax
    | some body =>
      match ofHcl? body with
      | some s => .ok s
      | none => .error .badValue

/-- The settings in a file, if they can be used. -/
def load (read : String → Except String Bytes) (path : String) :
    Except SettingsFileError Settings :=
  match read path with
  | .error reason => .error (.unreadable reason)
  | .ok content =>
    match parse path content with
    | .error e => .error e
    | .ok s =>
      match s.problem? with
      | some cause => .error (.invalid path cause)
      | none => .ok s

end Settings

end DocTokens
