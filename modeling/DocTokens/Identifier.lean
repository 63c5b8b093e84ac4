/-! # Ids of results

An id is a number of 128 bits, written as 32 hexadecimal digits in five groups. Two of the digits
tell that the others are random.
-/

namespace DocTokens.Identifier

/-- The greatest number of 128 bits. -/
def greatest : Nat := 0xffffffffffffffffffffffffffffffff

/-- The `width` lowest hexadecimal digits of a number. -/
def digits : (width : Nat) → Nat → List Nat
  | 0, _ => []
  | width + 1, n => digits width (n / 16) ++ [n % 16]

/-- Sets the digits that mark an id as random. -/
def mark (digits : List Nat) : List Nat := (digits.set 12 4).modify 16 (8 + · % 4)

/-- The id of a random number. -/
def ofNumber (n : Nat) : String :=
  let text := (mark (digits 32 n)).map Nat.digitChar
  let group (skip width : Nat) : String := String.ofList ((text.drop skip).take width)
  "-".intercalate [group 0 8, group 8 4, group 12 4, group 16 4, group 20 12]

/-- What divides the numbers of neighbours, so that they look unlike each other. -/
def stride : Nat := 0x9e3779b97f4a7c15f39cc0605cedc835

/-- The ids that follow from a random number, one for each place. -/
def ofSeed (seed place : Nat) : String := ofNumber (seed + place * stride)

end DocTokens.Identifier
