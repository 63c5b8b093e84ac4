import DocTokens.Yaml.Token

/-! # YAML documents

The value of the first document of a text. Aliases are replaced by what they stand for.
-/

namespace DocTokens.Yaml

inductive Node where
  /-- A scalar, with its tag if it has one, and whether it is written without quotes. -/
  | scalar (tag : Option String) (plain : Bool) (text : String)
  | sequence (items : List Node)
  | mapping (entries : List (Node × Node))
  deriving Repr

/-- A node left out. -/
def Node.absent : Node := .scalar none true ""

/-- What is left to read, and what has been given a name. -/
structure Reader where
  tokens : List Token
  anchors : List (String × Node)
  handles : List (String × String)
  deriving Repr

/-- Reads part of a document; there is no result where the tokens do not fit. -/
abbrev Read := StateT Reader Option

namespace Read

/-- The next token. -/
def peek : Read Token := do return (← get).tokens.headD .broken

def skip : Read Unit := modify fun r => { r with tokens := r.tokens.tail }

/-- Skips the next token if it is `t`. -/
def accept (t : Token) : Read Bool := do
  if (← peek) = t then skip; return true else return false

def fail : Read α := fun _ => none

end Read

/-- An anchor and a tag before a node. -/
structure Properties where
  anchor : Option String
  tag : Option String
  deriving DecidableEq, Repr

/-- The start of the tags that every document knows. -/
def standardTags : String := "tag:yaml.org,2002:"

/-- The short form of a tag. -/
def shortTag (tag : String) : String :=
  if tag.startsWith standardTags then "!!" ++ (tag.drop standardTags.length).toString else tag

/-- The tag that a handle and a suffix stand for. -/
def resolveTag (handles : List (String × String)) (handle suffix : String) : Option String :=
  if handle = "" then some (shortTag suffix)
  else match handles.lookup handle with
    | some start => some (shortTag (start ++ suffix))
    | none =>
      if handle = "!!" then some (shortTag (standardTags ++ suffix))
      else if handle = "!" then some (shortTag ("!" ++ suffix))
      else none

namespace Read

/-- Reads at most one anchor and one tag, in either order. -/
def properties : Nat → Properties → Read Properties
  | 0, p => return p
  | fuel + 1, p => do
    match ← peek with
    | .anchor name =>
      if p.anchor.isSome then return p
      skip
      properties fuel { p with anchor := some name }
    | .tag handle suffix =>
      if p.tag.isSome then return p
      match resolveTag (← get).handles handle suffix with
      | none => fail
      | some tag =>
        skip
        properties fuel { p with tag := some tag }
    | _ => return p

/-- Gives a node its name. -/
def named (p : Properties) (n : Node) : Read Node := do
  match p.anchor with
  | some name => modify fun r => { r with anchors := (name, n) :: r.anchors }
  | none => pure ()
  return n

mutual

/-- A node. In a block it may be a block collection, and after a key also a sequence at the
indentation of the key. -/
def node (block indentless : Bool) : Nat → Read Node
  | 0 => fail
  | fuel + 1 => do
    match ← peek with
    | .alias name =>
      skip
      match (← get).anchors.lookup name with
      | some n => return n
      | none => fail
    | _ =>
      let p ← properties 2 ⟨none, none⟩
      let tag := p.tag.filter (· != "!")
      match ← peek with
      | .scalar plain text => skip; named p (.scalar tag plain text)
      | .flowSequenceStart => skip; named p (.sequence (← flowItems true fuel))
      | .flowMappingStart => skip; named p (.mapping (← flowEntries true fuel))
      | .blockItem =>
        if indentless then named p (.sequence (← indentlessItems fuel))
        else if p.anchor.isSome || p.tag.isSome then named p (.scalar tag true "")
        else fail
      | .sequenceStart =>
        if block then skip; named p (.sequence (← blockItems fuel)) else fail
      | .mappingStart =>
        if block then skip; named p (.mapping (← blockEntries fuel)) else fail
      | _ =>
        if p.anchor.isSome || p.tag.isSome then named p (.scalar tag true "") else fail

/-- The items of a block sequence. -/
def blockItems : Nat → Read (List Node)
  | 0 => fail
  | fuel + 1 => do
    if ← accept .blockItem then
      let item ← match ← peek with
        | .blockItem => pure .absent
        | .blockEnd => pure .absent
        | _ => node true false fuel
      return item :: (← blockItems fuel)
    else if ← accept .blockEnd then return []
    else fail

/-- The items of a sequence at the indentation of the key before it. -/
def indentlessItems : Nat → Read (List Node)
  | 0 => fail
  | fuel + 1 => do
    if ← accept .blockItem then
      let item ← match ← peek with
        | .blockItem => pure .absent
        | .key => pure .absent
        | .value => pure .absent
        | .blockEnd => pure .absent
        | _ => node true false fuel
      return item :: (← indentlessItems fuel)
    else return []

/-- The entries of a block mapping. -/
def blockEntries : Nat → Read (List (Node × Node))
  | 0 => fail
  | fuel + 1 => do
    if ← accept .key then
      let key ← blockPart fuel
      let value ← if ← accept .value then blockPart fuel else pure .absent
      return (key, value) :: (← blockEntries fuel)
    else if ← accept .blockEnd then return []
    else fail

/-- A key or a value in a block mapping, which may be left out. -/
def blockPart : Nat → Read Node
  | 0 => fail
  | fuel + 1 => do
    match ← peek with
    | .key => return .absent
    | .value => return .absent
    | .blockEnd => return .absent
    | _ => node true true fuel

/-- The items of a flow sequence. An item may be a mapping of one entry without braces. -/
def flowItems (first : Bool) : Nat → Read (List Node)
  | 0 => fail
  | fuel + 1 => do
    if ← accept .flowSequenceEnd then return []
    if !first then
      if !(← accept .flowItem) then fail
    if ← accept .flowSequenceEnd then return []
    let item ←
      if ← accept .key then
        let key ← flowPart fuel
        let value ← if ← accept .value then flowPart fuel else pure .absent
        pure (.mapping [(key, value)])
      else node false false fuel
    return item :: (← flowItems false fuel)

/-- The entries of a flow mapping. A key may stand alone. -/
def flowEntries (first : Bool) : Nat → Read (List (Node × Node))
  | 0 => fail
  | fuel + 1 => do
    if ← accept .flowMappingEnd then return []
    if !first then
      if !(← accept .flowItem) then fail
    if ← accept .flowMappingEnd then return []
    let item ←
      if ← accept .key then
        let key ← flowPart fuel
        let value ← if ← accept .value then flowPart fuel else pure .absent
        pure (key, value)
      else
        let key ← node false false fuel
        pure (key, .absent)
    return item :: (← flowEntries false fuel)

/-- A key or a value in a flow collection, which may be left out. -/
def flowPart : Nat → Read Node
  | 0 => fail
  | fuel + 1 => do
    match ← peek with
    | .value => return .absent
    | .flowItem => return .absent
    | .flowSequenceEnd => return .absent
    | .flowMappingEnd => return .absent
    | _ => node false false fuel

end

/-- The directives before a document: at most one version, which must be 1.1. -/
def directives : Nat → Bool → Read Bool
  | 0, seen => return seen
  | fuel + 1, seen => do
    match ← peek with
    | .version major minor =>
      if seen ∨ major ≠ 1 ∨ minor ≠ 1 then fail
      skip
      let _ ← directives fuel true
      return true
    | .tagHandle handle start =>
      if ((← get).handles.lookup handle).isSome then fail
      modify fun r => { r with handles := (handle, start) :: r.handles }
      skip
      let _ ← directives fuel seen
      return true
    | _ => return seen

/-- The value of the first document; `none` when there is no document. The tokens right after a
document are looked at together with its last one. -/
def firstDocument (fuel : Nat) : Read (Option Node) := do
  if (← peek) = .finish then return none
  let directed ← directives fuel false
  let marked ← accept .documentStart
  if directed && !marked then fail
  let value ← match marked, ← peek with
    | true, .documentStart => pure .absent
    | true, .documentEnd => pure .absent
    | true, .finish => pure .absent
    | true, .version .. => pure .absent
    | true, .tagHandle .. => pure .absent
    | _, _ => node true false fuel
  if ((← get).tokens.take 3).contains .broken then fail
  return some value

end Read

/-- Reads the first document of a text: `none` when the text is malformed, and `some none` when it
has no document. -/
def firstDocument? (text : String) : Option (Option Node) :=
  let tokens := tokens text
  (Read.firstDocument (4 * tokens.length + 4) ⟨tokens, [], []⟩).map (·.1)

end DocTokens.Yaml
