/-! # Byte strings

Documents are byte strings: every offset, column and length counts bytes, and a document need not
be valid UTF-8. A `Source` is a document held for random access; `Bytes` is any other byte text.
-/

namespace DocTokens

/-- A byte text. -/
abbrev Bytes := List UInt8

/-- A document, indexed by byte offset. -/
abbrev Source := Array UInt8

/-- The UTF-8 bytes of a text. -/
def utf8 (s : String) : Bytes := s.toUTF8.data.toList

/-- The byte of an ASCII character. -/
abbrev ascii (c : Char) : UInt8 := c.toUInt8

/-- The line feed, the only byte that ends a line. -/
abbrev newline : UInt8 := 10

namespace Bytes

/-- Space, tab, line feed, form feed and carriage return. -/
def isSpace (b : UInt8) : Bool := b == 32 || b == 9 || b == 10 || b == 12 || b == 13

def isDigit (b : UInt8) : Bool := ascii '0' ≤ b && b ≤ ascii '9'

def isUpper (b : UInt8) : Bool := ascii 'A' ≤ b && b ≤ ascii 'Z'

def isLower (b : UInt8) : Bool := ascii 'a' ≤ b && b ≤ ascii 'z'

def isLetter (b : UInt8) : Bool := isUpper b || isLower b

def isAlphanumeric (b : UInt8) : Bool := isLetter b || isDigit b

/-- The printable ASCII bytes that are neither blank, letter nor digit. -/
def isPunctuation (b : UInt8) : Bool := 33 ≤ b && b ≤ 126 && !isAlphanumeric b

/-- Letters `A` to `Z` become lower case, every other byte stays. -/
def lowerByte (b : UInt8) : UInt8 := if isUpper b then b + 32 else b

def isBlank (s : Bytes) : Bool := s.all isSpace

/-- The text without the blanks at its end. -/
def trimRight (s : Bytes) : Bytes := (s.reverse.dropWhile isSpace).reverse

/-- The number of leading bytes that satisfy `p`. -/
def spanLength (p : UInt8 → Bool) (s : Bytes) : Nat := (s.takeWhile p).length

/-- The position of the first occurrence of `pattern` in a text. -/
def find? (pattern : Bytes) : Bytes → Option Nat
  | [] => if pattern.isEmpty then some 0 else none
  | b :: rest =>
    if pattern.isPrefixOf (b :: rest) then some 0 else (find? pattern rest).map (· + 1)

/-- The rest of a line from an offset on, with its line feed. -/
def restOfLine (text : Bytes) (o : Nat) : Bytes :=
  (text.drop o).take (((text.drop o).takeWhile (· != newline)).length + 1)

/-- Splits at every occurrence of `sep`; the result has one piece more than there are separators. -/
def splitAt (sep : UInt8) : Bytes → List Bytes
  | [] => [[]]
  | b :: rest =>
    if b = sep then [] :: splitAt sep rest
    else match splitAt sep rest with
      | [] => [[b]]
      | piece :: pieces => (b :: piece) :: pieces

end Bytes

namespace Source

/-- The bytes of `src` in `[start, stop)`, as far as they exist. -/
def slice (src : Source) (start stop : Nat) : Bytes := (src.extract start stop).toList

/-- The bytes of `src` from `start` on. -/
def suffix (src : Source) (start : Nat) : Bytes := src.slice start src.size

/-- Whether the byte at offset `i` exists and satisfies `p`. -/
def at? (src : Source) (i : Nat) (p : UInt8 → Bool) : Bool :=
  match src[i]? with
  | some b => p b
  | none => false

/-- Whether `pattern` stands at offset `i`. -/
def startsWith (src : Source) (i : Nat) (pattern : Bytes) : Bool :=
  src.slice i (i + pattern.length) == pattern

end Source

end DocTokens
