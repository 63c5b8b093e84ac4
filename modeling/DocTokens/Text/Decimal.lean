/-! # Decimal numbers

Numbers with finitely many decimal places, held exactly.
-/

namespace DocTokens

/-- The number `mantissa * 10 ^ exponent`. -/
structure Decimal where
  mantissa : Int
  exponent : Int
  deriving DecidableEq, Repr

namespace Decimal

def ofInt (n : Int) : Decimal := ⟨n, 0⟩

def powerOfTen (n : Nat) : Int := Int.pow 10 n

/-- The mantissa of the same number with a smaller exponent. -/
def mantissaAt (d : Decimal) (exponent : Int) : Int :=
  d.mantissa * powerOfTen (d.exponent - exponent).toNat

/-- Applies an operation to the mantissas of two numbers at their smaller exponent. -/
def align (f : Int → Int → α) (a b : Decimal) : α :=
  let e := min a.exponent b.exponent
  f (a.mantissaAt e) (b.mantissaAt e)

def add (a b : Decimal) : Decimal := ⟨align (· + ·) a b, min a.exponent b.exponent⟩

def neg (a : Decimal) : Decimal := ⟨-a.mantissa, a.exponent⟩

def sub (a b : Decimal) : Decimal := a.add b.neg

def mul (a b : Decimal) : Decimal := ⟨a.mantissa * b.mantissa, a.exponent + b.exponent⟩

def isZero (a : Decimal) : Bool := a.mantissa == 0

/-- The quotient to `places` decimal places more than the operands have, rounded to zero. -/
def div (a b : Decimal) (places : Nat) : Decimal :=
  ⟨align (fun m n => Int.tdiv (m * powerOfTen places) n) a b, -places⟩

/-- The remainder of the division rounded to zero. -/
def mod (a b : Decimal) : Decimal := ⟨align Int.tmod a b, min a.exponent b.exponent⟩

def lt (a b : Decimal) : Bool := align (fun m n => decide (m < n)) a b

def equal (a b : Decimal) : Bool := align (fun m n => decide (m = n)) a b

/-- The whole part, rounded to zero. -/
def truncate (a : Decimal) : Int :=
  if 0 ≤ a.exponent then a.mantissaAt 0
  else Int.tdiv a.mantissa (powerOfTen (-a.exponent).toNat)

/-- The number as an integer, if it is whole. -/
def toInt? (a : Decimal) : Option Int :=
  if a.equal (ofInt a.truncate) then some a.truncate else none

/-- Positional notation without zeros at the end of the fraction. -/
def render (a : Decimal) : String :=
  if 0 ≤ a.exponent then toString (a.mantissaAt 0)
  else
    let places := (-a.exponent).toNat
    let digits := (toString a.mantissa.natAbs).toList
    let digits := List.replicate (places + 1 - digits.length) '0' ++ digits
    let whole := digits.take (digits.length - places)
    let fraction := ((digits.drop (digits.length - places)).reverse.dropWhile (· == '0')).reverse
    let sign := if a.mantissa < 0 then "-" else ""
    let fraction := if fraction.isEmpty then "" else "." ++ String.ofList fraction
    sign ++ String.ofList whole ++ fraction

/-- The largest power of ten that a written exponent may have. -/
def exponentLimit : Nat := 4096

def digitsValue (digits : List Char) : Nat := digits.foldl (fun n c => n * 10 + (c.toNat - 48)) 0

/-- Reads a number without its sign: digits with at most one point among, before or after them, and
an exponent. -/
def ofUnsigned? (text : List Char) : Option Decimal :=
  let whole := text.takeWhile Char.isDigit
  let rest := text.dropWhile Char.isDigit
  let (fraction, rest) := match rest with
    | '.' :: rest => (rest.takeWhile Char.isDigit, rest.dropWhile Char.isDigit)
    | rest => ([], rest)
  if whole.isEmpty ∧ fraction.isEmpty then none
  else
    let mantissa : Int := digitsValue (whole ++ fraction)
    let scaled (negative : Bool) (digits : List Char) : Option Decimal :=
      let e := digitsValue digits
      if digits.isEmpty ∨ !digits.all Char.isDigit ∨ exponentLimit < e then none
      else some ⟨mantissa, (if negative then -(e : Int) else e) - fraction.length⟩
    match rest with
    | [] => some ⟨mantissa, -fraction.length⟩
    | mark :: rest =>
      if mark = 'e' ∨ mark = 'E' then
        match rest with
        | '-' :: digits => scaled true digits
        | '+' :: digits => scaled false digits
        | digits => scaled false digits
      else none

/-- Reads a number with or without a sign. -/
def ofText? (text : String) : Option Decimal :=
  match text.toList with
  | '-' :: rest => (ofUnsigned? rest).map neg
  | '+' :: rest => ofUnsigned? rest
  | rest => ofUnsigned? rest

end Decimal

end DocTokens
