import DocTokens.Text.Integer
import DocTokens.Text.Quoted

/-! # Flags

A command takes flags and arguments in any order; after `--` everything is an argument. The last
value given for a flag counts.
-/

namespace DocTokens.CommandLine

inductive FlagKind where
  | text
  | integer
  | switch
  deriving DecidableEq, Repr

inductive FlagValue where
  | text (s : String)
  | integer (n : Int)
  | switch (b : Bool)
  deriving DecidableEq, Repr

structure Flag where
  name : String
  /-- The letter that stands for the flag after a single dash. -/
  letter : Option Char
  default : FlagValue
  usage : String
  deriving DecidableEq, Repr

/-- The flag that every command has. -/
def helpFlag (command : String) : Flag := ⟨"help", some 'h', .switch false, "help for " ++ command⟩

namespace FlagValue

def kind : FlagValue → FlagKind
  | text _ => .text
  | integer _ => .integer
  | switch _ => .switch

/-- The default value as a usage text shows it; empty values are not shown. -/
def shown : FlagValue → String
  | text s => if s = "" then "" else s!" (default {Quoted.encodeText s})"
  | integer n => if n = 0 then "" else s!" (default {n})"
  | switch b => if b then " (default true)" else ""

end FlagValue

/-- Why the value of a flag cannot be read. -/
inductive ValueError where
  | integer (cause : Integer.ReadError)
  | switch
  deriving DecidableEq, Repr

namespace ValueError

def message (value : String) : ValueError → String
  | integer cause => s!"strconv.ParseInt: parsing {Quoted.encodeText value}: {cause.message}"
  | switch => s!"strconv.ParseBool: parsing {Quoted.encodeText value}: invalid syntax"

end ValueError

/-- Why arguments do not fit a command. -/
inductive UsageError where
  | badSyntax (argument : String)
  | unknownFlag (name : String)
  /-- A letter that stands for no flag, among those after one dash. -/
  | unknownLetter (letters : String)
  | missingValue (argument : String)
  | missingLetterValue (letters : String)
  | badValue (flag : Flag) (value : String) (cause : ValueError)
  | unexpectedArgument (argument command : String)
  deriving DecidableEq, Repr

namespace Flag

/-- How a flag is named in messages. -/
def title (f : Flag) : String :=
  match f.letter with
  | some c => s!"-{c}, --{f.name}"
  | none => s!"--{f.name}"

/-- Reads a value for a flag. -/
def read (f : Flag) (value : String) : Except UsageError FlagValue :=
  match f.default.kind with
  | .text => .ok (.text value)
  | .integer =>
    match Integer.read value with
    | .ok n => .ok (.integer n)
    | .error e => .error (.badValue f value (.integer e))
  | .switch =>
    if ["1", "t", "T", "TRUE", "true", "True"].contains value then .ok (.switch true)
    else if ["0", "f", "F", "FALSE", "false", "False"].contains value then .ok (.switch false)
    else .error (.badValue f value .switch)

/-- The left column of the list of flags. -/
def heading (f : Flag) : String :=
  let name := match f.letter with
    | some c => s!"  -{c}, --{f.name}"
    | none => s!"      --{f.name}"
  match f.default.kind with
  | .text => name ++ " string"
  | .integer => name ++ " int"
  | .switch => name

end Flag

namespace UsageError

/-- The first byte of a text as a character between single quotes. -/
def firstByte (letters : String) : String :=
  match utf8 letters with
  | [] => ""
  | b :: _ =>
    let c := Char.ofNat b.toNat
    let body := if c = '\x27' then "\\'" else if c = '"' then "\"" else Quoted.encodeChar c
    "'" ++ body ++ "'"

def message : UsageError → String
  | badSyntax argument => s!"bad flag syntax: {argument}"
  | unknownFlag name => s!"unknown flag: --{name}"
  | unknownLetter letters => s!"unknown shorthand flag: {firstByte letters} in -{letters}"
  | missingValue argument => s!"flag needs an argument: {argument}"
  | missingLetterValue letters => s!"flag needs an argument: {firstByte letters} in -{letters}"
  | badValue flag value cause =>
    s!"invalid argument {Quoted.encodeText value} for {Quoted.encodeText flag.title} flag: "
      ++ cause.message value
  | unexpectedArgument argument command =>
    s!"unknown command {Quoted.encodeText argument} for {Quoted.encodeText command}"

end UsageError

/-- What the arguments of a command say. -/
structure Arguments where
  /-- The flags given, the last one first. -/
  flags : List (String × FlagValue)
  words : List String
  deriving DecidableEq, Repr

namespace Arguments

def empty : Arguments := ⟨[], []⟩

def set (a : Arguments) (f : Flag) (v : FlagValue) : Arguments :=
  { a with flags := (f.name, v) :: a.flags }

def text? (a : Arguments) (name : String) : Option String :=
  match a.flags.lookup name with
  | some (.text s) => some s
  | _ => none

def integer? (a : Arguments) (name : String) : Option Int :=
  match a.flags.lookup name with
  | some (.integer n) => some n
  | _ => none

def switch (a : Arguments) (name : String) : Bool := a.flags.lookup name == some (.switch true)

end Arguments

/-- Reads a value and sets the flag. -/
def Arguments.read (a : Arguments) (f : Flag) (value : String) : Except UsageError Arguments :=
  (f.read value).map (a.set f)

section

variable (flags : List Flag)

/-- A flag given by its name, with the arguments left after it. -/
def longFlag (argument : String) (rest : List String) (a : Arguments) :
    Except UsageError (Arguments × List String) :=
  let body := argument.toList.drop 2
  match body with
  | [] => .error (.badSyntax argument)
  | c :: _ =>
    if c = '-' ∨ c = '=' then .error (.badSyntax argument)
    else
      let name := String.ofList (body.takeWhile (· != '='))
      match flags.find? (·.name == name), body.dropWhile (· != '='), rest with
      | none, _, _ => .error (.unknownFlag name)
      | some f, _ :: value, _ => (a.read f (String.ofList value)).map (·, rest)
      | some f, [], rest =>
        if f.default.kind = .switch then .ok (a.set f (.switch true), rest)
        else match rest with
          | value :: rest => (a.read f value).map (·, rest)
          | [] => .error (.missingValue argument)

/-- Flags given by their letters after one dash, with the arguments left after them. -/
def shortFlags : List Char → List String → Arguments → Except UsageError (Arguments × List String)
  | [], rest, a => .ok (a, rest)
  | c :: letters, rest, a =>
    match flags.find? (·.letter == some c), letters, rest with
    | none, _, _ => .error (.unknownLetter (String.ofList (c :: letters)))
    | some f, '=' :: d :: value, rest => (a.read f (String.ofList (d :: value))).map (·, rest)
    | some f, letters, rest =>
      if f.default.kind = .switch then shortFlags letters rest (a.set f (.switch true))
      else match letters, rest with
        | [], [] => .error (.missingLetterValue (String.ofList [c]))
        | [], value :: rest => (a.read f value).map (·, rest)
        | letters, rest => (a.read f (String.ofList letters)).map (·, rest)

/-- Reads the arguments of a command. -/
def parseArguments : Nat → List String → Arguments → Except UsageError Arguments
  | 0, _, a => .ok a
  | _, [], a => .ok a
  | fuel + 1, argument :: rest, a =>
    match argument.toList with
    | ['-', '-'] => .ok { a with words := a.words ++ rest }
    | '-' :: '-' :: _ => do
      let (a, rest) ← longFlag flags argument rest a
      parseArguments fuel rest a
    | '-' :: c :: letters => do
      let (a, rest) ← shortFlags flags (c :: letters) rest a
      parseArguments fuel rest a
    | _ => parseArguments fuel rest { a with words := a.words ++ [argument] }

end

end DocTokens.CommandLine
