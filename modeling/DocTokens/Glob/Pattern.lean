/-! # Glob patterns

A pattern matches slash separated paths. `?` is one character and `*` any number of characters of
one path segment, `**` alone in a segment is any number of segments, `[a-z]` and `[^a-z]` are one
character of a class, `{a,b}` is either alternative, and a backslash makes the next character stand
for itself.
-/

namespace DocTokens.Glob

/-- The text of a pattern. -/
abbrev Pattern := List Char

/-- Why a pattern has no meaning. -/
inductive PatternError where
  /-- A class or a group of alternatives is not closed, a class is empty, or a backslash is last. -/
  | malformed
  deriving DecidableEq, Repr

def PatternError.message : PatternError → String
  | malformed => "syntax error in pattern"

/-! ## Well-formed patterns -/

/-- Where a scan of a pattern stands. -/
inductive Place where
  | outside
  /-- Right after the bracket that opens a class. -/
  | opened
  /-- Before the first member of a class. -/
  | firstMember
  | inside
  deriving DecidableEq, Repr

/-- Whether the rest of a pattern is well formed, `depth` groups of alternatives being open. -/
def isValidFrom : Place → Nat → Pattern → Bool
  | .outside, depth, [] => depth == 0
  | _, _, [] => false
  | .outside, depth, '\\' :: _ :: rest => isValidFrom .outside depth rest
  | .outside, depth, c :: rest =>
    if c = '\\' then false
    else if c = '[' then isValidFrom .opened depth rest
    else if c = '{' then isValidFrom .outside (depth + 1) rest
    else if c = '}' then depth != 0 && isValidFrom .outside (depth - 1) rest
    else isValidFrom .outside depth rest
  | _, depth, '\\' :: _ :: rest => isValidFrom .inside depth rest
  | place, depth, c :: rest =>
    if c = ']' then place == .inside && isValidFrom .outside depth rest
    else if place = .opened ∧ (c = '^' ∨ c = '!') then isValidFrom .firstMember depth rest
    else isValidFrom .inside depth rest

def isValid (p : Pattern) : Bool := isValidFrom .outside 0 p

/-! ## Parts of a pattern -/

/-- What stands between an opening brace and the brace that closes it, cut at its own commas, and
what follows. `depth` braces have been opened since, and `current` is the alternative so far, last
character first. -/
def alternativesFrom : Nat → Pattern → Pattern → Option (List Pattern × Pattern)
  | _, _, [] => none
  | depth, current, '\\' :: c :: rest => alternativesFrom depth (c :: '\\' :: current) rest
  | depth, current, c :: rest =>
    if c = '}' ∧ depth = 0 then some ([current.reverse], rest)
    else if c = ',' ∧ depth = 0 then
      (alternativesFrom 0 [] rest).map fun (more, after) => (current.reverse :: more, after)
    else
      let depth := if c = '{' then depth + 1 else if c = '}' then depth - 1 else depth
      alternativesFrom depth (c :: current) rest

/-- The alternatives of a group whose brace has been read, and the pattern after the group. -/
def alternatives? (p : Pattern) : Option (List Pattern × Pattern) := alternativesFrom 0 [] p

/-- Looks for `c` among the members of a class: whether one takes it, and the pattern where the
search ended. `low` is the member before, with which a dash makes a range. -/
def findMember (c : Char) : Option Char → Pattern → Bool × Pattern
  | _, [] => (false, [])
  | some _, '-' :: ']' :: rest => (c == '-', ']' :: rest)
  | some low, '-' :: '\\' :: high :: rest =>
    if low ≤ c ∧ c ≤ high then (true, rest) else findMember c none rest
  | some low, '-' :: high :: rest =>
    if low ≤ c ∧ c ≤ high then (true, rest) else findMember c none rest
  | _, '\\' :: member :: rest =>
    if member = c then (true, rest) else findMember c (some member) rest
  | _, member :: rest =>
    if member = ']' then (false, member :: rest)
    else if member = c then (true, rest)
    else findMember c (some member) rest

/-- The pattern after the bracket that closes a class. -/
def afterClass? : Pattern → Option Pattern
  | [] => none
  | '\\' :: _ :: rest => afterClass? rest
  | c :: rest => if c = ']' then some rest else afterClass? rest

/-! ## Matching -/

/-- The first answer that is not "no". -/
def firstYes (f : α → Except ε Bool) : List α → Except ε Bool
  | [] => .ok false
  | a :: rest =>
    match f a with
    | .ok false => firstYes f rest
    | answer => answer

/-- Whether a pattern matches the empty rest of a path. A final `**` may stand for nothing, also
with the slashes around it. -/
def matchesNothing : Nat → Pattern → Except PatternError Bool
  | fuel, p =>
    if ["", "*", "**", "/**", "**/", "/**/"].contains (String.ofList p) then .ok true
    else match fuel, p with
      | fuel + 1, '{' :: body =>
        match alternatives? body with
        | none => .error .malformed
        | some (options, after) => firstYes (fun o => matchesNothing fuel (o ++ after)) options
      | _, _ => if isValid p then .ok false else .error .malformed

/-- Where matching goes on after a mismatch: the pattern after a star, and the path from where the
star ends so far. -/
structure Resume where
  pattern : Pattern
  path : List Char
  deriving DecidableEq, Repr

/-- A match in progress. -/
structure State where
  /-- Whether a path segment starts here. -/
  atStart : Bool
  /-- The last `*`. -/
  star : Option Resume
  /-- The last `**`. -/
  deep : Option Resume
  pattern : Pattern
  path : List Char
  deriving DecidableEq, Repr

namespace State

/-- The next attempt after a mismatch: the last star takes one character more, but no slash; else
the last double star takes one segment more. -/
def retry? (s : State) : Option State :=
  let deeper : Option State :=
    match s.deep with
    | none => none
    | some r =>
      match r.path.dropWhile (· != '/') with
      | _ :: path => some { s with
          atStart := true, deep := some ⟨r.pattern, path⟩, pattern := r.pattern, path }
      | [] => none
  match s.star with
  | some ⟨pattern, c :: path⟩ =>
    if c = '/' then deeper
    else some { s with atStart := false, star := some ⟨pattern, path⟩, pattern, path }
  | _ => deeper

/-- The state with `p` in place of the rest of the pattern, here and where matching may resume. -/
def withRest (s : State) (p : Pattern) : State :=
  let graft (r : Resume) : Resume :=
    { r with pattern := r.pattern.take (r.pattern.length - s.pattern.length) ++ p }
  { s with atStart := true, star := s.star.map graft, deep := s.deep.map graft, pattern := p }

/-- The state after `*`, which takes nothing yet. -/
def afterStar (s : State) (p : Pattern) : State :=
  { s with atStart := false, star := some ⟨p, s.path⟩, pattern := p }

/-- The state after one character of the path. -/
def step (s : State) (atStart : Bool) (p : Pattern) : State :=
  { s with atStart, pattern := p, path := s.path.tail }

end State

/-- Goes on with a match for at most `fuel` steps. -/
def run : Nat → State → Except PatternError Bool
  | 0, _ => .ok false
  | fuel + 1, s =>
    let mismatch (rest : Pattern) : Except PatternError Bool :=
      match s.retry? with
      | some s => run fuel s
      | none => if isValid rest then .ok false else .error .malformed
    match s.path with
    | [] => matchesNothing s.pattern.length s.pattern
    | c :: _ =>
      match s.pattern with
      | [] => mismatch []
      | '*' :: '*' :: p =>
        match s.atStart, p with
        | true, [] => .ok true
        | true, '/' :: p => run fuel { s with star := none, deep := some ⟨p, s.path⟩, pattern := p }
        | _, _ => run fuel (s.afterStar p)
      | '*' :: p => run fuel (s.afterStar p)
      | '?' :: p => if c = '/' then mismatch s.pattern else run fuel (s.step false p)
      | '[' :: p =>
        let (negated, members) := match p with
          | '!' :: members => (true, members)
          | '^' :: members => (true, members)
          | members => (false, members)
        if members.isEmpty || members.head? == some ']' then .error .malformed
        else
          let (found, rest) := findMember c none members
          if found = negated then
            if rest.isEmpty then .error .malformed else mismatch rest
          else match afterClass? rest with
            | none => .error .malformed
            | some p => run fuel (s.step false p)
      | '{' :: p =>
        match alternatives? p with
        | none => .error .malformed
        | some (options, after) => firstYes (fun o => run fuel (s.withRest (o ++ after))) options
      | '\\' :: p =>
        match p with
        | [] => .error .malformed
        | d :: p => if d = c then run fuel (s.step (c == '/') p) else mismatch s.pattern
      | d :: p => if d = c then run fuel (s.step (c == '/') p) else mismatch s.pattern

/-- Enough steps for every match: between two tries of the stars the pattern is read once. -/
def stepBound (p : Pattern) (path : List Char) : Nat :=
  (p.length + 2) * (path.length + 2) * (path.length + 2) * (p.count '{' + 1)

/-- Whether a pattern matches a whole path. -/
def isMatch (p : Pattern) (path : List Char) : Except PatternError Bool :=
  run (stepBound p path) ⟨true, none, none, p, path⟩

end DocTokens.Glob
