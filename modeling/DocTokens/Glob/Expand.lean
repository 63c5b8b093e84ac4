import DocTokens.FileSystem
import DocTokens.Glob.Pattern

/-! # Expanding patterns

The files of a file system that a pattern matches. The pattern is taken apart from its end: the last
segment is looked up in every directory that the segments before it lead to. A group of alternatives
is replaced by each of them in turn, and what the alternatives find is merged in the order of paths.
-/

namespace DocTokens.Glob

/-! ## Taking patterns apart -/

/-- Whether a pattern has a character that does not stand for itself. -/
def hasMeta : Pattern → Bool
  | [] => false
  | '\\' :: _ :: rest => hasMeta rest
  | c :: rest => c == '*' || c == '?' || c == '[' || c == '{' || hasMeta rest

/-- The path that a pattern without meta characters stands for: a backslash before a meta character
is dropped. -/
def unescape : Pattern → List Char
  | [] => []
  | c :: rest =>
    if c = '\\' ∧ rest.head?.any ("*?[]{}".toList.contains ·) then unescape rest
    else c :: unescape rest

/-- Whether `**` stands in a pattern with at least two characters after it. -/
def hasInnerDeepStar : Pattern → Bool
  | '\\' :: _ :: rest => hasInnerDeepStar rest
  | c :: rest =>
    (c == '*' && rest.head? == some '*' && 3 ≤ rest.length) || hasInnerDeepStar rest
  | [] => false

/-- A pattern cut at a character: what stands before it, the character, what follows. -/
structure Cut where
  before : Pattern
  mark : Char
  after : Pattern
  deriving DecidableEq, Repr

/-- Cuts a pattern at its last character that satisfies `p` and follows no backslash. -/
def cutLast? (p : Char → Bool) (pattern : Pattern) : Option Cut :=
  let rec search : List Char → Pattern → Option Cut
    | [], _ => none
    | c :: before, after =>
      if p c && before.head? != some '\\' then some ⟨before.reverse, c, after⟩
      else search before (c :: after)
  search pattern.reverse []

/-- Cuts what stands before a closing brace at the brace that opens the group. -/
def cutGroup? (pattern : Pattern) : Option Cut :=
  let rec search : Nat → List Char → Pattern → Option Cut
    | _, [], _ => none
    | depth, c :: before, after =>
      let plain := before.head? != some '\\'
      if c = '}' ∧ plain then search (depth + 1) before (c :: after)
      else if c = '{' ∧ plain then
        if depth = 0 then some ⟨before.reverse, c, after⟩
        else search (depth - 1) before (c :: after)
      else search depth before (c :: after)
  search 0 pattern.reverse []

/-- How a pattern is taken apart. -/
inductive Division where
  /-- A single segment. -/
  | segment (last : Pattern)
  /-- The segments before the last slash, and the last segment. -/
  | below (directory last : Pattern)
  /-- The directory part before the group, the rest before the group, what stands between the
  braces, and what follows the group. -/
  | group (directory : Option Pattern) (before body after : Pattern)
  deriving DecidableEq, Repr

/-- Takes a pattern apart at its last slash or closing brace. -/
def divide (pattern : Pattern) : Division :=
  let atSlash (p : Pattern) (after : Pattern) : Division :=
    match cutLast? (· == '/') p with
    | some cut => .below cut.before (cut.after ++ after)
    | none => .segment pattern
  match cutLast? (fun c => c == '/' || c == '}') pattern with
  | none => .segment pattern
  | some ⟨before, '/', after⟩ => .below before after
  | some ⟨before, mark, after⟩ =>
    match cutGroup? before with
    | none => atSlash before (mark :: after)
    | some group =>
      match cutLast? (fun c => c == '/' || c == '}') group.before with
      | some ⟨directory, '/', rest⟩ => .group (some directory) rest group.after after
      | _ => .group none group.before group.after after

/-- The alternatives between two braces. One that is last and empty does not count. -/
def options (body : Pattern) : List Pattern :=
  match alternatives? (body ++ ['}']) with
  | none => []
  | some (all, _) => if all.getLast? = some [] then all.dropLast else all

/-! ## Merging -/

/-- Puts a path before the first one that is not smaller. -/
def insertBefore (path : String) : List String → List String
  | [] => [path]
  | p :: rest => if p < path then p :: insertBefore path rest else path :: p :: rest

/-- Merges two lists of paths; for sorted lists, the sorted union. -/
def mergePaths : List String → List String → List String
  | [], more => more
  | found, [] => found
  | p :: found, q :: more =>
    if p < q then p :: mergePaths found (q :: more)
    else if q < p then q :: mergePaths found (insertBefore p more)
    else p :: mergePaths found more

/-- Adds a path to a sorted list unless it is there. -/
def insertSorted (path : String) (paths : List String) : List String :=
  if paths.contains path then paths else insertBefore path paths

/-! ## Looking up segments -/

section

variable (fs : FileSystem) (kind : EntryKind)

/-- Everything of the wanted kind below a directory, depth first in the order of names. A directory
comes before what it holds. -/
def descend : Nat → String → List String
  | 0, _ => []
  | fuel + 1, directory =>
    match fs.entries? directory with
    | none => []
    | some entries =>
      (if kind = .directory then [directory] else []) ++ entries.flatMap fun e =>
        let path := Path.join directory e.name
        match e.kind with
        | .directory => descend fuel path
        | .file => if kind = .file then [path] else []

/-- What the last segment of a pattern finds in a directory. -/
def lookUp (directory : String) (last : Pattern) : Except PatternError (List String) :=
  if last.isEmpty then
    .ok (if kind = .directory ∧ fs.kind? directory = some .directory then [directory] else [])
  else if last = ['*', '*'] then .ok (descend fs kind (fs.bound + 1) directory)
  else
    let found (e : DirectoryEntry) : Except PatternError (Option String) :=
      (isMatch last e.name.toList).map fun matched =>
        if matched && e.kind == kind then some (Path.join directory e.name) else none
    (((fs.entries? directory).getD []).mapM found).map (List.filterMap id)

end

/-! ## Expanding -/

/-- What a path given without meta characters finds: itself, if it leads anywhere. As the last
segment it must not be a directory. -/
def lookUpPath (fs : FileSystem) (kind : EntryKind) (path : String) : List String :=
  let place := if path.length > 1 ∧ path.endsWith "/" then (path.dropEnd 1).toString else path
  match fs.kind? place with
  | none => []
  | some found => if kind = .file ∧ found = .directory then [] else [path]

/-- The paths of the wanted kind that a pattern finds. With `sorted`, all that a group of
alternatives finds is sorted as a whole; otherwise directory by directory. -/
def expandFrom (fs : FileSystem) (sorted : Bool) :
    Nat → EntryKind → Pattern → Except PatternError (List String)
  | 0, _, _ => .ok []
  | fuel + 1, kind, pattern =>
    if !hasMeta pattern then .ok (lookUpPath fs kind (String.ofList (unescape pattern)))
    else match divide pattern with
      | .segment last => lookUp fs kind "." last
      | .below directory last =>
        if !hasMeta directory then lookUp fs kind (String.ofList directory) last
        else do
          let directories ← expandFrom fs sorted fuel .directory directory
          return (← directories.mapM fun d => lookUp fs kind d last).flatten
      | .group directory before body after => do
        let directories ← match directory with
          | none => pure [""]
          | some d => expandFrom fs sorted fuel .directory d
        let inDirectory (d : String) (option : Pattern) : Except PatternError (List String) :=
          let base := if d = "" ∨ d = "." then [] else d.toList ++ ['/']
          expandFrom fs sorted fuel kind (base ++ before ++ option ++ after)
        let found ← directories.mapM fun d => (options body).mapM (inDirectory d)
        if sorted then return found.flatten.flatten.foldl (fun all p => insertSorted p all) []
        else return (found.map fun each => each.foldl mergePaths []).flatten

/-- The files that a pattern matches. -/
def expand (fs : FileSystem) (pattern : String) : Except PatternError (List String) :=
  let p := pattern.toList
  if !isValid p then .error .malformed
  else expandFrom fs (hasInnerDeepStar p) ((p.length + 1) * (fs.bound + 1)) .file p

end DocTokens.Glob
