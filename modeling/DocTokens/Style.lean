/-! # Terminal styles

A style is a list of attributes, written as an escape sequence before a text and taken back by
another one after it.
-/

namespace DocTokens

inductive Attribute where
  | bold
  | faint
  | red
  | yellow
  | blue
  | cyan
  | brightRed
  deriving DecidableEq, Repr

namespace Attribute

def code : Attribute → Nat
  | bold => 1
  | faint => 2
  | red => 31
  | yellow => 33
  | blue => 34
  | cyan => 36
  | brightRed => 91

/-- The code that takes an attribute back: weights have their own, colors share one. -/
def resetCode : Attribute → Nat
  | bold => 22
  | faint => 22
  | _ => 0

end Attribute

/-- The attributes of a piece of text, in the order in which they are written. -/
abbrev Style := List Attribute

namespace Style

def sequence (codes : List Nat) : String :=
  "\x1b[" ++ ";".intercalate (codes.map toString) ++ "m"

/-- A text in a style, or the text itself where colors are off. -/
def paint (style : Style) (colored : Bool) (text : String) : String :=
  if colored then
    sequence (style.map Attribute.code) ++ text ++ sequence (style.map Attribute.resetCode)
  else text

end Style

end DocTokens
