/-! # Slash separated paths

Paths are texts whose elements are separated by slashes. Cleaning a path resolves `.` and `..` by
the text alone, without a look at any directory.
-/

namespace DocTokens.Path

/-- The elements of a cleaned path, last first, after one more element. Above the root there is
only the root; above a relative path the parent elements pile up. -/
def pushElement (rooted : Bool) (elements : List String) (e : String) : List String :=
  if e = "" ∨ e = "." then elements
  else if e = ".." then
    match elements with
    | [] => if rooted then [] else [".."]
    | last :: rest => if last = ".." then e :: elements else rest
  else e :: elements

/-- The shortest path equal to `path` by the text alone; `.` when nothing is left. -/
def clean (path : String) : String :=
  let rooted := path.startsWith "/"
  let elements := (path.splitOn "/").foldl (pushElement rooted) []
  let joined := "/".intercalate elements.reverse
  if rooted then "/" ++ joined else if joined = "" then "." else joined

/-- One path below another, cleaned. -/
def join (base path : String) : String :=
  let parts := [base, path].filter (· != "")
  if parts.isEmpty then "" else clean ("/".intercalate parts)

/-- A path as seen from the directory `home`, cleaned. -/
def absolute (home path : String) : String :=
  if path.startsWith "/" then clean path else join home path

/-- The last element. -/
def name (path : String) : String := (path.splitOn "/").getLastD ""

/-- All but the last element, without the slash that divides them. -/
def parent (path : String) : String := "/".intercalate (path.splitOn "/").dropLast

/-- The last element from its last dot on; empty without a dot. -/
def extension (path : String) : String :=
  match (name path).splitOn "." with
  | [_] => ""
  | parts => "." ++ parts.getLastD ""

end DocTokens.Path
