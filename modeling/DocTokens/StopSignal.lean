/-! # Stop signals

Long work asks now and then whether it should go on. A `StopSignal` answers "yes" a given number of
times, or always, and from then on names the reason to stop.
-/

namespace DocTokens

/-- Why work is to stop. -/
inductive StopCause where
  | canceled
  | deadlineExceeded
  deriving DecidableEq, Repr, Inhabited

namespace StopCause

def message : StopCause → String
  | canceled => "context canceled"
  | deadlineExceeded => "context deadline exceeded"

end StopCause

/-- How many more times the answer is to go on (`none`: always), and the reason given afterwards. -/
structure StopSignal where
  remaining : Option Nat
  cause : StopCause
  deriving DecidableEq, Repr

namespace StopSignal

/-- The signal that never stops anything. -/
def never : StopSignal := ⟨none, .canceled⟩

/-- Asks once: the signal afterwards, or the reason to stop. -/
def poll (s : StopSignal) : Except StopCause StopSignal :=
  match s.remaining with
  | none => .ok s
  | some 0 => .error s.cause
  | some (n + 1) => .ok { s with remaining := some n }

end StopSignal

end DocTokens
