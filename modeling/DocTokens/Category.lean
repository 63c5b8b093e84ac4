import DocTokens.Tree.Basic

/-! # Categories

A category is the semantic class of a node. Its id is its position in the registry, so the order of
the registry is part of the contract with whoever registers the legend.
-/

namespace DocTokens

/-- How a category is found: from the type of a node alone, or from the slot that holds it. -/
inductive Origin where
  | structural (type : NodeType)
  | contextual
  deriving DecidableEq, Repr

namespace Origin

def name : Origin → String
  | structural _ => "structural"
  | contextual => "contextual"

end Origin

/-- The id of a semantic class. Numbers past the registry name no class. -/
structure Category where
  id : Nat
  deriving DecidableEq, Repr, Inhabited

namespace Category

/-- What the registry says about a category. Legend names may repeat; names do not. -/
structure Info where
  name : String
  legend : String
  origin : Origin
  deriving DecidableEq, Repr

/-- All categories in the order of their ids. -/
def registry : List Info :=
  [⟨"quote", "quote", .structural .blockquote⟩,
   ⟨"inline-code", "enumMember", .structural .codeSpan⟩,
   ⟨"comment", "comment", .structural .comment⟩,
   ⟨"strikethrough", "strikethrough", .structural .del⟩,
   ⟨"emphasis", "emphasis", .structural .em⟩,
   ⟨"formula-span", "struct", .structural .formulaSpan⟩,
   ⟨"heading", "heading", .structural .heading⟩,
   ⟨"rule", "hr", .structural .hr⟩,
   ⟨"latex-span", "latex", .structural .latexSpan⟩,
   ⟨"table-control", "regexp", .structural .tableControlCell⟩,
   ⟨"bold", "bold", .structural .strong⟩,
   ⟨"underline", "underline", .structural .underline⟩,
   ⟨"non-breaking-space", "variable", .structural .nonBreakingSpace⟩,
   ⟨"thin-non-breaking-space", "regexp", .structural .thinNonBreakingSpace⟩,
   ⟨"macro-name", "macro", .contextual⟩,
   ⟨"label", "variable", .contextual⟩,
   ⟨"link-target", "string", .contextual⟩,
   ⟨"map-key", "keyword", .contextual⟩,
   ⟨"raw-text", "latex", .contextual⟩,
   ⟨"formula-text", "struct", .contextual⟩,
   ⟨"code-text", "code", .contextual⟩,
   ⟨"code-lang", "macro", .contextual⟩,
   ⟨"list-bullet", "string", .contextual⟩]

def count : Nat := registry.length

def opcodeName : Category := ⟨14⟩
def label : Category := ⟨15⟩
def linkTarget : Category := ⟨16⟩
def mapKey : Category := ⟨17⟩
def rawText : Category := ⟨18⟩
def formulaText : Category := ⟨19⟩
def codeText : Category := ⟨20⟩
def codeLang : Category := ⟨21⟩
def listBullet : Category := ⟨22⟩

def info? (c : Category) : Option Info := registry[c.id]?

def valid (c : Category) : Bool := c.id < count

def name (c : Category) : String := (c.info?.map Info.name).getD "unknown"

def legend (c : Category) : String := (c.info?.map Info.legend).getD "unknown"

def originName (c : Category) : String := (c.info?.map (·.origin.name)).getD "unknown"

def all : List Category := (List.range count).map Category.mk

/-- The host-facing names in id order. -/
def legends : List String := registry.map Info.legend

/-- The structural category of a node type. -/
def ofType? (type : NodeType) : Option Category :=
  (registry.findIdx? (·.origin == .structural type)).map Category.mk

/-- A slot that gives its children a category, below any parent or below one type only. -/
structure SlotRule where
  slot : Slot
  parentType : Option NodeType
  category : Category
  deriving DecidableEq, Repr

/-- The slot rules; the first that applies wins. -/
def slotRules : List SlotRule :=
  [⟨.opcode, none, opcodeName⟩,
   ⟨.label, none, label⟩,
   ⟨.href, none, linkTarget⟩,
   ⟨.keys, none, mapKey⟩,
   ⟨.code, none, codeText⟩,
   ⟨.text, some .formula, formulaText⟩,
   ⟨.text, some .latex, rawText⟩,
   ⟨.bullet, none, listBullet⟩,
   ⟨.lang, none, codeLang⟩]

end Category

namespace Tree

/-- The category of a node. Its own type decides first; otherwise the first slot rule that fits its
recorded parent and a slot in which that parent holds it. -/
def classify (t : Tree) (id : NodeId) : Option Category :=
  match t.node? id with
  | none => none
  | some n =>
    match Category.ofType? n.type with
    | some c => some c
    | none =>
      match t.node? n.parent with
      | none => none
      | some parent =>
        let applies (rule : Category.SlotRule) : Bool :=
          (rule.parentType.isNone || rule.parentType == some parent.type) &&
            t.references n.parent rule.slot id
        (Category.slotRules.find? applies).map (·.category)

end Tree

end DocTokens
