/-! # Reading integers

Integers of 64 bits with a sign. A prefix tells the base: `0x`, `0o` and `0b`, or `0` alone for base
eight. Underscores may stand between digits and after the prefix.
-/

namespace DocTokens.Integer

/-- The least integer of 64 bits with a sign. -/
def least : Int := -0x8000000000000000

/-- The greatest integer of 64 bits with a sign. -/
def greatest : Int := 0x7fffffffffffffff

/-- The greatest integer of 64 bits without a sign. -/
def greatestMagnitude : Nat := 0xffffffffffffffff

inductive ReadError where
  | syntactic
  | outOfRange
  deriving DecidableEq, Repr

def ReadError.message : ReadError → String
  | syntactic => "invalid syntax"
  | outOfRange => "value out of range"

/-- The digits after a prefix, and the base it stands for. -/
def splitBase (digits : List Char) : Nat × List Char :=
  match digits with
  | '0' :: c :: d :: rest =>
    if c.toLower = 'x' then (16, d :: rest)
    else if c.toLower = 'o' then (8, d :: rest)
    else if c.toLower = 'b' then (2, d :: rest)
    else (8, c :: d :: rest)
  | '0' :: rest => (8, rest)
  | digits => (10, digits)

def digit? (base : Nat) (c : Char) : Option Nat :=
  let c := c.toLower
  let n? := if c.isDigit then some (c.toNat - 48)
    else if 'a' ≤ c ∧ c ≤ 'z' then some (c.toNat - 87)
    else none
  n?.filter (· < base)

/-- The magnitude written by digits, underscores aside; the first fault decides. -/
def magnitude (base : Nat) : List Char → Nat → Except ReadError Nat
  | [], n => .ok n
  | c :: rest, n =>
    if c = '_' then magnitude base rest n
    else match digit? base c with
      | none => .error .syntactic
      | some d =>
        if n * base + d ≤ greatestMagnitude then magnitude base rest (n * base + d)
        else .error .outOfRange

/-- Whether every underscore stands between digits; `afterDigit` tells whether one goes before. -/
def underscoresFit (hex : Bool) : Bool → List Char → Bool
  | _, [] => true
  | _, ['_'] => false
  | afterDigit, c :: next :: rest =>
    let isDigit (c : Char) := (digit? (if hex then 16 else 10) c).isSome
    (c != '_' || (afterDigit && isDigit next)) && underscoresFit hex (isDigit c) (next :: rest)
  | _, [_] => true

/-- Reads an integer. -/
def read (text : String) : Except ReadError Int :=
  let (negative, digits) := match text.toList with
    | '-' :: rest => (true, rest)
    | '+' :: rest => (false, rest)
    | digits => (false, digits)
  if digits.isEmpty then .error .syntactic
  else
    let (base, body) := splitBase digits
    let prefixed := base != 10
    match magnitude base body 0 with
    | .error e => .error e
    | .ok n =>
      if !underscoresFit (base == 16) prefixed body then .error .syntactic
      else
        let value : Int := if negative then -(n : Int) else n
        if least ≤ value ∧ value ≤ greatest then .ok value else .error .outOfRange

end DocTokens.Integer
