import DocTokens.CommandLine.Flag
import DocTokens.Report
import DocTokens.Run
import DocTokens.Settings.Load

/-! # Commands

`tokens` reports the tokens of documents, `legend` lists the categories of tokens. A command writes
its output and may fail all the same.
-/

namespace DocTokens.CommandLine

structure Command where
  name : String
  /-- How the arguments are shown after the name; a command without it takes none. -/
  words : Option String
  summary : String
  flags : List Flag
  deriving DecidableEq, Repr

namespace Command

/-- The flags of a command with the one for help, in the order of their names. -/
def allFlags (c : Command) : List Flag :=
  (helpFlag c.name :: c.flags).mergeSort fun a b => a.name ≤ b.name

/-- What the flag for help shows. -/
def help (c : Command) : String :=
  let headings := c.allFlags.map Flag.heading
  let width := headings.foldl (fun n h => max n h.length) 0
  let line (f : Flag) : String :=
    f.heading ++ "".pushn ' ' (width - f.heading.length + 3) ++ f.usage ++ f.default.shown
  let use := c.name ++ (c.words.map (" " ++ ·)).getD ""
  s!"{c.summary}\n\nUsage:\n  {use} [flags]\n\nFlags:\n" ++
    String.join (c.allFlags.map (line · ++ "\n"))

/-- Reads the arguments, or finds that help is wanted. -/
def read (c : Command) (arguments : List String) : Except UsageError (Option Arguments) := do
  let a ← parseArguments c.allFlags (arguments.length + 1) arguments .empty
  if a.switch "help" then return none
  match c.words, a.words with
  | none, word :: _ => throw (.unexpectedArgument word c.name)
  | _, _ => return some a

end Command

/-- Why a command fails. -/
inductive CommandError where
  | usage (cause : UsageError)
  | settingsFile (cause : SettingsFileError)
  | settings (cause : SettingsError)
  | search (cause : SearchError Glob.PatternError)
  | documents (failures : List DocumentFailure)
  deriving DecidableEq, Repr

namespace CommandError

def message : CommandError → String
  | usage cause => cause.message
  | settingsFile cause => s!"loading config: {cause.message}"
  | settings cause => cause.message
  | search cause => cause.message Glob.PatternError.message
  | documents failures => DocumentFailure.summary failures

end CommandError

/-- What a command writes, and why it fails if it does. -/
structure CommandResult where
  output : Bytes
  error : Option CommandError
  deriving DecidableEq, Repr

namespace CommandResult

def ok (output : Bytes) : CommandResult := ⟨output, none⟩

def failed (e : CommandError) : CommandResult := ⟨[], some e⟩

end CommandResult

/-- What commands know of the world. -/
structure Environment where
  /-- The files below a directory given by its path. -/
  files : String → FileSystem
  colored : Bool
  /-- The ids of results. -/
  id : Nat → String

/-- Reads the arguments and goes on with them, unless they are wrong or ask for help. -/
def Command.run (c : Command) (arguments : List String) (main : Arguments → CommandResult) :
    CommandResult :=
  match c.read arguments with
  | .error e => .failed (.usage e)
  | .ok none => .ok (utf8 c.help)
  | .ok (some a) => main a

/-! ## The command `legend` -/

def legendCommand : Command where
  name := "legend"
  words := none
  summary := "print the token category legend in id order"
  flags := [⟨"json", none, .switch false, "print the legend as a json array"⟩]

def padLeft (width : Nat) (s : String) : String := "".pushn ' ' (width - s.length) ++ s

def padRight (width : Nat) (s : String) : String := s ++ "".pushn ' ' (width - s.length)

/-- One category: its id, legend name, name and origin in columns. -/
def legendLine (c : Category) : String :=
  s!"{padLeft 2 (toString c.id)} {padRight 24 c.legend} {padRight 14 c.name} {c.originName}\n"

def legend (arguments : List String) : CommandResult :=
  legendCommand.run arguments fun a =>
    if a.switch "json" then
      .ok (utf8 ((JsonValue.array (Category.legends.map .ofText)).compact ++ "\n"))
    else .ok (utf8 (String.join (Category.all.map legendLine)))

/-! ## The command `tokens` -/

def tokensCommand : Command where
  name := "tokens"
  words := some "[patterns...]"
  summary := "print the semantic tokens of yaxm documents"
  flags :=
    [⟨"config", none, .text "", "path to a .hcl or .yaml config file"⟩,
     ⟨"format", none, .text Settings.textFormat, "output format (text, json)"⟩,
     ⟨"dir", none, .text ".", "directory the patterns are relative to"⟩,
     ⟨"check-interval", none, .integer 1, "nodes visited between cancellation checks"⟩,
     ⟨"debug", none, .switch false, "enable debug logging"⟩]

/-- The settings of a run: those of the file if one is given, changed by the flags. -/
def settingsOf (fs : FileSystem) (a : Arguments) : Except CommandError Settings := do
  let path := (a.text? "config").getD ""
  let s ← if path = "" then pure Settings.default
    else match Settings.load fs.read path with
      | .ok s => pure s
      | .error e => throw (.settingsFile e)
  let s := { s with
    format := (a.text? "format").getD s.format
    checkInterval := (a.integer? "check-interval").getD s.checkInterval }
  match s.problem? with
  | some cause => throw (.settings cause)
  | none => return s

/-- Tokenizes the documents that the patterns find and reports the results. -/
def runTokens (env : Environment) (parser : Parser) (s : Settings) (fs : FileSystem)
    (patterns : List String) (signal : StopSignal) : CommandResult :=
  match s.run parser fs patterns signal with
  | .error e => .failed (.search e)
  | .ok outcome =>
    ⟨Report.write s.format env.colored env.id outcome.results,
      if outcome.failures.isEmpty then none else some (.documents outcome.failures)⟩

def tokens (env : Environment) (arguments : List String) : CommandResult :=
  tokensCommand.run arguments fun a =>
    let fs := env.files ((a.text? "dir").getD ".")
    match settingsOf fs a with
    | .error e => .failed e
    | .ok s => runTokens env Markdown.parser s fs a.words .never

end DocTokens.CommandLine
