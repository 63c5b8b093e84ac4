import DocTokens.Text.CodePoint
import DocTokens.Text.Utf8

/-! # Quoted text

The written form of a byte text between double quotes. Printable characters stand for themselves,
everything else is an escape, so the written form is always printable text on one line.
-/

namespace DocTokens.Quoted

/-- The digits of `n` in base sixteen, padded with zeros to `width`. -/
def hex (width n : Nat) : String :=
  let digits := String.ofList (Nat.toDigits 16 n)
  "".pushn '0' (width - digits.length) ++ digits

/-- Characters with an escape of one letter. -/
def shortEscape? (c : Char) : Option String :=
  match c.toNat with
  | 7 => some "\\a"
  | 8 => some "\\b"
  | 12 => some "\\f"
  | 10 => some "\\n"
  | 13 => some "\\r"
  | 9 => some "\\t"
  | 11 => some "\\v"
  | _ => none

def encodeChar (c : Char) : String :=
  if c = '"' then "\\\""
  else if c = '\\' then "\\\\"
  else if CodePoint.isPrintable c then c.toString
  else match shortEscape? c with
    | some s => s
    | none =>
      let n := c.toNat
      if n < 0x80 then "\\x" ++ hex 2 n
      else if n < 0x10000 then "\\u" ++ hex 4 n
      else "\\U" ++ hex 8 n

def encodeRune : Rune → String
  | .char c => encodeChar c
  | .invalid b => "\\x" ++ hex 2 b.toNat

/-- The quoted form of a byte text. -/
def encode (s : Bytes) : String :=
  "\"" ++ (Utf8.runes s).foldl (fun acc r => acc ++ encodeRune r) "" ++ "\""

/-- The quoted form of a text. -/
def encodeText (s : String) : String := encode (utf8 s)

end DocTokens.Quoted
