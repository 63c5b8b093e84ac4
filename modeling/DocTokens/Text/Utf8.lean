import DocTokens.Text.Bytes

/-! # Reading bytes as UTF-8

A byte text is read one rune at a time. A byte that starts no valid encoding is a rune of its own,
so every byte text has exactly one reading and nothing is lost.
-/

namespace DocTokens

/-- A character, or a byte that belongs to no character. -/
inductive Rune where
  | char (c : Char)
  | invalid (b : UInt8)
  deriving DecidableEq, Repr

namespace Rune

/-- The character that stands for an undecodable byte wherever a code point is needed. -/
def replacement : Char := Char.ofNat 0xFFFD

/-- The code point; an undecodable byte counts as the replacement character. -/
def toChar : Rune → Char
  | char c => c
  | invalid _ => replacement

/-- The bytes a rune was read from. -/
def bytes : Rune → Bytes
  | char c => String.utf8EncodeChar c
  | invalid b => [b]

end Rune

namespace Utf8

def isContinuation (b : UInt8) : Bool := 0x80 ≤ b && b ≤ 0xBF

/-- Whether a byte can start a rune. -/
def isStart (b : UInt8) : Bool := !isContinuation b

/-- The range of second bytes allowed after the first byte of a three or four byte encoding;
the narrow ranges keep out overlong forms, surrogates and numbers past the last code point. -/
def secondRange (b : UInt8) : UInt8 × UInt8 :=
  if b = 0xE0 then (0xA0, 0xBF)
  else if b = 0xED then (0x80, 0x9F)
  else if b = 0xF0 then (0x90, 0xBF)
  else if b = 0xF4 then (0x80, 0x8F)
  else (0x80, 0xBF)

def payload (b : UInt8) : Nat := b.toNat % 64

/-- The rune at the front of `b :: rest`, and how many bytes it takes. -/
def first (b : UInt8) (rest : Bytes) : Rune × Nat :=
  if b < 0x80 then (.char (Char.ofNat b.toNat), 1)
  else
    let (lo, hi) := secondRange b
    match rest with
    | b₁ :: rest =>
      if 0xC2 ≤ b && b ≤ 0xDF && isContinuation b₁ then
        (.char (Char.ofNat (b.toNat % 32 * 64 + payload b₁)), 2)
      else match rest with
        | b₂ :: rest =>
          if 0xE0 ≤ b && b ≤ 0xEF && lo ≤ b₁ && b₁ ≤ hi && isContinuation b₂ then
            (.char (Char.ofNat ((b.toNat % 16 * 64 + payload b₁) * 64 + payload b₂)), 3)
          else match rest with
            | b₃ :: _ =>
              if 0xF0 ≤ b && b ≤ 0xF4 && lo ≤ b₁ && b₁ ≤ hi && isContinuation b₂
                  && isContinuation b₃ then
                (.char (Char.ofNat
                  (((b.toNat % 8 * 64 + payload b₁) * 64 + payload b₂) * 64 + payload b₃)), 4)
              else (.invalid b, 1)
            | [] => (.invalid b, 1)
        | [] => (.invalid b, 1)
    | [] => (.invalid b, 1)

/-- Reads the runes of a text after `skip` bytes that belong to the rune before. -/
def runesFrom : Nat → Bytes → List Rune
  | _, [] => []
  | skip + 1, _ :: rest => runesFrom skip rest
  | 0, b :: rest =>
    let (rune, width) := first b rest
    rune :: runesFrom (width - 1) rest

/-- The runes of a byte text. -/
def runes (s : Bytes) : List Rune := runesFrom 0 s

/-- Whether every byte belongs to a character. -/
def isValid (s : Bytes) : Bool := (runes s).all fun
  | .char _ => true
  | .invalid _ => false

/-- The text with every undecodable byte replaced. -/
def toText (s : Bytes) : String := String.ofList ((runes s).map Rune.toChar)

end Utf8

end DocTokens
