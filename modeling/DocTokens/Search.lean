import DocTokens.StopSignal
import DocTokens.Text.Quoted

/-! # Searching documents

Patterns are expanded one after the other. A path found again is not repeated, and excluded paths
are left out, so the result lists each path where it was first found.
-/

namespace DocTokens

/-- Why a search has no result. `ε` says why a pattern cannot be expanded. -/
inductive SearchError (ε : Type) where
  | stopped (cause : StopCause)
  | badPattern (pattern : String) (cause : ε)
  deriving DecidableEq, Repr

namespace SearchError

def message (describe : ε → String) : SearchError ε → String
  | stopped cause => s!"finding documents: {cause.message}"
  | badPattern pattern cause => s!"expanding {Quoted.encodeText pattern}: {describe cause}"

end SearchError

namespace Search

/-- A pattern without one leading reference to the current directory. -/
def withoutCurrent (pattern : String) : String :=
  match pattern.toList with
  | '.' :: '/' :: rest => String.ofList rest
  | _ => pattern

/-- The paths that are not in `seen`, each once. -/
def unseen (seen : List String) : List String → List String
  | [] => []
  | path :: rest =>
    if path ∈ seen then unseen seen rest else path :: unseen (path :: seen) rest

variable (glob : String → Except ε (List String)) (excluded : String → Bool)

/-- The paths that the patterns find beyond those in `seen`, and the stop signal afterwards, which
is asked once for each pattern. -/
def findBeyond : List String → List String → StopSignal →
    Except (SearchError ε) (List String) × StopSignal
  | _, [], signal => (.ok [], signal)
  | seen, pattern :: patterns, signal =>
    match signal.poll with
    | .error cause => (.error (.stopped cause), signal)
    | .ok signal =>
      match glob (withoutCurrent pattern) with
      | .error e => (.error (.badPattern (withoutCurrent pattern) e), signal)
      | .ok found =>
        let fresh := unseen seen found
        let (rest, signal) := findBeyond (fresh ++ seen) patterns signal
        (rest.map (fresh.filter (!excluded ·) ++ ·), signal)

/-- The documents that the patterns find, in the order of their first match. -/
def find (patterns : List String) (signal : StopSignal) :
    Except (SearchError ε) (List String) × StopSignal :=
  findBeyond glob excluded [] patterns signal

end Search

end DocTokens
