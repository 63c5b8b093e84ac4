/-! # Spans

A `Span` is a half-open range of offsets as callers hand it in: nothing is promised about its ends.
A `Segment` is a range of offsets into a document.
-/

namespace DocTokens

/-- A half-open range `[start, stop)` of offsets. -/
structure Span where
  start : Int
  stop : Int
  deriving DecidableEq, Repr, Inhabited

namespace Span

def length (s : Span) : Int := s.stop - s.start

def move (s : Span) (d : Int) : Span := ⟨s.start + d, s.stop + d⟩

/-- Written `[start,stop)`. -/
def render (s : Span) : String := s!"[{s.start},{s.stop})"

end Span

/-- A half-open range of bytes of a document. -/
structure Segment where
  start : Nat
  stop : Nat
  deriving DecidableEq, Repr, Inhabited

namespace Segment

def length (s : Segment) : Nat := s.stop - s.start

def isEmpty (s : Segment) : Bool := s.stop ≤ s.start

def toSpan (s : Segment) : Span := ⟨s.start, s.stop⟩

/-- The segment of length zero at an offset. -/
def point (p : Nat) : Segment := ⟨p, p⟩

/-- The smallest segment that contains both. -/
def hull (a b : Segment) : Segment := ⟨min a.start b.start, max a.stop b.stop⟩

end Segment

end DocTokens
