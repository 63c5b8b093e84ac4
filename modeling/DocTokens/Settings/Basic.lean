import DocTokens.Glob.Pattern
import DocTokens.Text.Quoted

/-! # Settings

Which documents a run reads and how it reports them.
-/

namespace DocTokens

structure Settings where
  /-- The patterns of the documents to read. -/
  patterns : List String
  /-- The patterns of the documents to leave out. -/
  exclusions : List String
  /-- The name of the output format. -/
  format : String
  /-- The number of nodes between two questions to the stop signal. -/
  checkInterval : Int
  deriving DecidableEq, Repr

/-- Why settings cannot be used. -/
inductive SettingsError where
  | unknownFormat (format : String)
  | badInterval (interval : Int)
  | badPattern (pattern : String)
  deriving DecidableEq, Repr

namespace SettingsError

def message (e : SettingsError) : String :=
  "invalid config: " ++ match e with
    | unknownFormat format => s!"unknown format {Quoted.encodeText format}"
    | badInterval interval => s!"check_interval must be positive, got {interval}"
    | badPattern pattern => s!"bad pattern {Quoted.encodeText pattern}"

end SettingsError

namespace Settings

def textFormat : String := "text"

def jsonFormat : String := "json"

def default : Settings := ⟨["**/*.md"], [], textFormat, 1⟩

/-- The first reason why the settings cannot be used. -/
def problem? (s : Settings) : Option SettingsError :=
  if s.format ≠ textFormat ∧ s.format ≠ jsonFormat then some (.unknownFormat s.format)
  else if s.checkInterval < 1 then some (.badInterval s.checkInterval)
  else ((s.patterns ++ s.exclusions).find? (!Glob.isValid ·.toList)).map .badPattern

/-- Whether a path matches an exclude pattern. A malformed pattern matches nothing. -/
def excludes (s : Settings) (path : String) : Bool :=
  s.exclusions.any fun pattern =>
    match Glob.isMatch pattern.toList path.toList with
    | .ok matched => matched
    | .error _ => false

end Settings

end DocTokens
