import DocTokens.Proofs.Markdown.Reads
import DocTokens.Proofs.Markdown.Spans

/-! # Checked conversion

The conversion once more, over checked reads. It looks at the source wherever the conversion does,
also for children whose outcome a kind does not use. A placed document is converted without a read
outside of its source, to what the plain conversion makes of it.
-/

namespace DocTokens.Markdown.Checked

/-! ## One kind after another -/

def paragraph (src : Source) (extent : Option Segment) (cursor : Nat) (inner : Conversion) :
    Option Outcome := do
  let s := extent.getD (.point cursor)
  let stop ← trimNewline src s.start s.stop
  pure (containerAt src .paragraph ⟨s.start, stop⟩ inner)

def isAtxLine (src : Source) (lineStart : Nat) : Option Bool := do
  let p ← forward src isSpaceByte 3 lineStart
  guarded (p < src.size) src[p]? (· == ascii '#')

def heading (src : Source) (lines : List Segment) (extent : Option Segment) (cursor : Nat)
    (inner : Conversion) : Option Outcome :=
  match firstToLast? lines with
  | none => some (container src .heading extent cursor inner)
  | some s => do
    let start ← lineStart src s.start
    let stop ← trimNewline src start s.stop
    let stop ← lineEnd src stop
    let atx ← isAtxLine src start
    let stop ← (if !atx && stop < src.size then lineEnd src (stop + 1) else some stop)
    pure (containerAt src .heading ⟨start, stop⟩ inner)

def blockquote (src : Source) (extent : Option Segment) (cursor : Nat) (inner : Conversion) :
    Option Outcome :=
  match extent with
  | none => some (container src .blockquote none cursor inner)
  | some s => do
    let start ← lineStart src s.start
    let stop ← trimNewline src start s.stop
    let stop ← lineEnd src stop
    pure (containerAt src .blockquote ⟨start, stop⟩ inner)

def closingFence (src : Source) (stop : Nat) : Option Nat := do
  let stop' ← lineEnd src stop
  let next := stop' + 1
  if next ≤ src.size then do
    let p ← forward src isSpaceByte 3 next
    let found ← guarded (p < src.size) src[p]? isFenceByte
    if found then do
      let stop ← lineEnd src p
      trimReturn src next stop
    else some stop
  else some stop

def fenceLanguage (src : Source) (info : Segment) : Option Bytes :=
  (src.cut? info.start info.stop).map (·.takeWhile (· != ascii ' '))

def fenceStart? (src : Source) (info : Option Segment) (lines : List Segment) :
    Option (Option Nat) :=
  match info, lines.head? with
  | some i, _ => (lineStart src i.start).map some
  | none, some line =>
    if 0 < line.start then (lineStart src (line.start - 1)).map some else some none
  | none, none => some none

/-- The node for the text of a fenced block. -/
def fenceBody (src : Source) (type : NodeType) (body : Option Segment) : Option (Forest Shape) :=
  match body with
  | some b => do
    let stop ← trimNewline src b.start b.stop
    pure (.leaf (if type = .code then .code else .text) .text (Segment.toSpan ⟨b.start, stop⟩) .nil)
  | none => some .nil

/-- The nodes below a fenced block: its language, where it is written at the start of the info text,
and its text. -/
def fenceParts (src : Source) (type : NodeType) (language : Bytes) (info : Option Segment)
    (code : Forest Shape) : Option (Forest Shape) :=
  match info with
  | some i => do
    let found ← (if type = .code && !language.isEmpty then
        (src.cut? i.start src.size).map language.isPrefixOf
      else some false)
    pure (if found then
        .leaf .lang .text (Segment.toSpan ⟨i.start, i.start + language.length⟩) code
      else code)
  | none => some code

def fencedCode (src : Source) (info : Option Segment) (lines : List Segment)
    (extent : Option Segment) (cursor : Nat) (inner : Conversion) : Option Outcome := do
  match ← fenceStart? src info lines with
  | none => some (container src .code extent cursor inner)
  | some start =>
    let stop ← (match firstToLast? lines with
      | some b => trimNewline src start b.stop
      | none => lineEnd src start)
    let stop ← closingFence src stop
    let language ← (match info with
      | some i => fenceLanguage src i
      | none => some [])
    let code ← fenceBody src (fenceType language) (firstToLast? lines)
    let below ← fenceParts src (fenceType language) language info code
    pure (leafAt src cursor (fenceType language) ⟨start, stop⟩ below)

def indentedCode (src : Source) (lines : List Segment) (extent : Option Segment) (cursor : Nat)
    (inner : Conversion) : Option Outcome :=
  match firstToLast? lines with
  | none => some (container src .code extent cursor inner)
  | some s => do
    let stop ← trimNewline src s.start s.stop
    let start ← lineStart src s.start
    pure (leafAt src cursor .code ⟨start, stop⟩
      (.leaf .code .text (Segment.toSpan ⟨s.start, stop⟩) .nil))

def breakLine? (src : Source) : (fuel : Nat) → Nat → Option (Option Segment)
  | 0, _ => some none
  | fuel + 1, p =>
    if p ≤ src.size then do
      let stop ← lineEnd src p
      let line ← src.cut? p stop
      if isThematicBreak line then do
        let stop ← trimReturn src p stop
        pure (some ⟨p, stop⟩)
      else breakLine? src fuel (stop + 1)
    else some none

def thematicBreak (src : Source) (cursor : Nat) : Option Outcome := do
  let inside ← guarded (0 < cursor) (src.before? cursor) (· != newline)
  let p ← (if inside then (lineEnd src cursor).map (· + 1) else some cursor)
  let line ← breakLine? src (src.size + 1 - p) p
  pure (leafAt src cursor .hr (line.getD (.point cursor)) .nil)

def htmlBlock (src : Source) (type : Nat) (closure : Option Segment) (lines : List Segment)
    (cursor : Nat) : Option Outcome :=
  let nodeType := if type = 2 then NodeType.comment else .unknown
  let place := match firstToLast? lines, closure with
    | none, none => none
    | some s, none => some s
    | none, some c => some ⟨c.start, c.stop⟩
    | some s, some c => some ⟨s.start, max s.stop c.stop⟩
  match place with
  | none => some (leafAt src cursor nodeType (.point cursor) .nil)
  | some s => do
    let stop ← trimNewline src s.start s.stop
    pure (leafAt src cursor nodeType ⟨s.start, stop⟩ .nil)

def rawHtml (src : Source) (segments : List Segment) (cursor : Nat) : Option Outcome :=
  match firstToLast? segments with
  | none => some ⟨none, cursor, []⟩
  | some s => do
    let rest ← src.cut? s.start src.size
    let type := if (utf8 "<!--").isPrefixOf rest then NodeType.comment else .unknown
    pure (leafAt src cursor type s .nil)

def listMarker? (src : Source) (marker : UInt8) (lineStart : Nat) : Option (Option Segment) := do
  let p ← forward src isSpaceOrTab 16 lineStart
  let q ← (if isOrderedMarker marker then forward src Bytes.isDigit (src.size - p) p else some p)
  let found ← guarded (q < src.size) src[q]? (· == marker)
  pure (if found then some ⟨p, q + 1⟩ else none)

def listItem (src : Source) (marker : Option UInt8) (extent : Option Segment) (cursor : Nat)
    (inner : Conversion) : Option Outcome := do
  let bullet? : Option Segment ← (match extent, marker with
    | some s, some m => do
      let start ← lineStart src s.start
      let bullet? ← listMarker? src m start
      pure (bullet?.filter fun b => b.stop ≤ s.start)
    | _, _ => some none)
  match extent, bullet? with
  | some s, some bullet => do
    let stop ← trimNewline src bullet.start s.stop
    let inner := { inner with entries := .leaf .bullet .text bullet.toSpan inner.entries }
    pure (containerAt src .listItem ⟨bullet.start, stop⟩ inner)
  | _, _ => some (container src .listItem extent cursor inner)

def link (src : Source) (type : NodeType) (destination : Bytes) (content : Option Segment)
    (cursor : Nat) (inner : Conversion) : Option Outcome := do
  let parts ← (match content with
    | some s => linkParts src destination (type == .image) s
    | none => some ⟨.point cursor, none⟩)
  let target : Forest Shape :=
    if destination.isEmpty then .nil
    else match parts.href with
      | some h => .leaf .href .text h.toSpan .nil
      | none => .value ⟨.href, []⟩ (.literal destination) .nil
  let warnings : List Diagnostic :=
    if destination.isEmpty then [⟨emptyDestination, parts.extent.toSpan, .warning⟩] else []
  pure (containerAt src type parts.extent
    { inner with
      entries := inner.entries ++ target
      diagnostics := inner.diagnostics ++ warnings })

/-- An automatic link is put between angle brackets if they are there. -/
def angleBrackets (src : Source) (href : Segment) : Option Segment := do
  let opened ← guarded (0 < href.start) (src.before? href.start) (· == ascii '<')
  let closed ← guarded (opened && href.stop < src.size) src[href.stop]? (· == ascii '>')
  pure (if closed then ⟨href.start - 1, href.stop + 1⟩ else href)

def autoLink (src : Source) (label : Segment) (protocol : Option Bytes) (cursor : Nat) :
    Option Outcome := do
  let text ← src.cut? label.start label.stop
  let found? ← (if !text.isEmpty && cursor ≤ src.size then
      (src.cut? cursor src.size).map (Bytes.find? text)
    else some none)
  match found? with
  | none => do
    let text ← src.cut? label.start label.stop
    let url := match protocol with
      | some p => p ++ utf8 "://" ++ text
      | none => text
    pure (leafAt src cursor .link (.point cursor) (.value ⟨.href, []⟩ (.literal url) .nil))
  | some n => do
    let href : Segment := ⟨cursor + n, cursor + n + text.length⟩
    let s ← angleBrackets src href
    pure (leafAt src cursor .link s (.leaf .href .text href.toSpan .nil))

def keyEntries (src : Source) : List KeyEntry → Option (Forest Shape)
  | [] => some .nil
  | entry :: rest => do
    let key ← src.cut? entry.key.start entry.key.stop
    let more ← keyEntries src rest
    pure (.node ⟨.keys, key⟩ ⟨.text, entry.key.toSpan⟩ .nil
      (if entry.value.isEmpty then more
        else .leaf .children .text entry.value.toSpan more))

def directive (src : Source) (d : Directive) (cursor : Nat) : Option Outcome := do
  let keys ← keyEntries src d.keys
  let labelled := match d.label with
    | some l => .leaf .label .text l.toSpan keys
    | none => keys
  let errors : List Diagnostic ← (match d.unclosed.filter fun u => !u.isEmpty with
    | some u => do
      let name ← src.cut? d.name.start d.name.stop
      let unclosed ← src.cut? u.start u.stop
      pure [⟨utf8 "macro " ++ name ++ utf8 " has an unclosed " ++ unclosed, u.toSpan, .error⟩]
    | none => some [])
  pure { leafAt src cursor .opCode d.segment (.leaf .opcode .text d.name.toSpan labelled) with
    diagnostics := errors }

/-- Kinds whose nodes stand at their extent or at a segment of their own read nothing else. -/
def convertKind (src : Source) (marker : Option UInt8) (n : Node) (cursor : Nat)
    (inner : Conversion) : Option Outcome := do
  let extent ← extent src n
  match n.kind with
  | .paragraph | .textBlock => paragraph src extent cursor inner
  | .heading _ => heading src n.lines extent cursor inner
  | .blockquote => blockquote src extent cursor inner
  | .fencedCode info => fencedCode src info n.lines extent cursor inner
  | .codeBlock => indentedCode src n.lines extent cursor inner
  | .thematicBreak => thematicBreak src cursor
  | .htmlBlock type closure => htmlBlock src type closure n.lines cursor
  | .rawHtml segments => rawHtml src segments cursor
  | .listItem => listItem src marker extent cursor inner
  | .link destination => do
    let content ← content src n
    link src .link destination content cursor inner
  | .image destination => do
    let content ← content src n
    link src .image destination content cursor inner
  | .autoLink label protocol => autoLink src label protocol cursor
  | .directive d => directive src d cursor
  | _ => some (Markdown.convertKind src marker n cursor inner)

def controlRow (src : Source) (o : Outcome) : Option Outcome :=
  match o.piece with
  | none => some ⟨none, o.cursor, []⟩
  | some row => do
    let stop ← lineEnd src row.segment.stop
    let next := stop + 1
    if next ≤ src.size then do
      let stop ← lineEnd src next
      let stop ← trimReturn src next stop
      pure (leafAt src o.cursor .tableControlCell ⟨next, stop⟩ .nil)
    else some ⟨none, o.cursor, []⟩

def table (src : Source) (cursor : Nat) (rows : Conversion) : Option Outcome :=
  match firstToLast? rows.segments with
  | none => some ⟨some ⟨.table, .point cursor, rows.entries⟩, rows.cursor, rows.diagnostics⟩
  | some s => do
    let start ← lineStart src s.start
    let stop ← lineEnd src s.stop
    let stop ← trimReturn src start stop
    pure (containerAt src .table ⟨start, stop⟩ rows)

mutual

def convertNode (src : Source) (marker : Option UInt8) : Node → Nat → Option Outcome
  | .mk .table _ children, cursor => do
    let rows ← convertRows src children cursor
    table src cursor rows
  | .mk kind lines children, cursor => do
    let inner ← convertAll src kind.marker? children cursor
    convertKind src marker (.mk kind lines children) cursor inner

def convertAll (src : Source) (marker : Option UInt8) : List Node → Nat → Option Conversion
  | [], cursor => some (.empty cursor)
  | n :: rest, cursor => do
    let o ← convertNode src marker n cursor
    let others ← convertAll src marker rest o.cursor
    pure (.cons o others)

def convertRows (src : Source) : List Node → Nat → Option Conversion
  | [], cursor => some (.empty cursor)
  | n :: rest, cursor => do
    let o ← convertNode src none n cursor
    if n.kind = .tableHeader then do
      let control ← controlRow src o
      let others ← convertRows src rest control.cursor
      pure (.cons o (.cons control others))
    else do
      let others ← convertRows src rest o.cursor
      pure (.cons o others)

end

/-- The tree and the diagnostics of a document, unless a read outside of the source is tried. -/
def convert (src : Source) (document : Node) : Option (Tree × List Diagnostic) := do
  let all ← convertAll src none document.children 0
  pure (all.entries.toTree ⟨.file, ⟨0, src.size⟩⟩, all.diagnostics)

section Kinds

variable {src : Source} {s : Segment} {cursor : Nat}

theorem paragraph_eq (extent : Option Segment) (cursor : Nat) (inner : Conversion) :
    paragraph src extent cursor inner = some (Markdown.paragraph src extent cursor inner) := by
  simp only [paragraph, trimNewline_eq, Option.bind_eq_bind, Option.bind_some, Option.pure_def,
    Markdown.paragraph]

theorem heading_eq (lines : List Segment) (extent : Option Segment) (cursor : Nat)
    (inner : Conversion) :
    heading src lines extent cursor inner =
      some (Markdown.heading src lines extent cursor inner) := by
  cases h : firstToLast? lines with
  | none => simp only [heading, h, Markdown.heading]
  | some s =>
    simp only [heading, h, lineStart_eq, trimNewline_eq, lineEnd_eq, isAtxLine, forward_eq,
      guarded_at, ← apply_ite some, Option.bind_eq_bind, Option.bind_some, Option.pure_def,
      Markdown.heading, Markdown.isAtxLine]
    rfl

theorem blockquote_eq (extent : Option Segment) (cursor : Nat) (inner : Conversion) :
    blockquote src extent cursor inner = some (Markdown.blockquote src extent cursor inner) := by
  cases extent with
  | none => rfl
  | some s =>
    simp only [blockquote, lineStart_eq, trimNewline_eq, lineEnd_eq, Option.bind_eq_bind,
      Option.bind_some, Option.pure_def, Markdown.blockquote]

theorem closingFence_eq (src : Source) (stop : Nat) :
    closingFence src stop = some (Markdown.closingFence src stop) := by
  simp only [closingFence, lineEnd_eq, forward_eq, guarded_at,
    trimReturn_eq (src.lineEnd_le_size _),
    ← apply_ite some, Option.bind_eq_bind, Option.bind_some, Markdown.closingFence]
  by_cases h : src.lineEnd stop + 1 ≤ src.size <;> simp [h]

theorem fenceStart?_eq (info : Option Segment) (lines : List Segment) :
    fenceStart? src info lines = some (Markdown.fenceStart? src info lines) := by
  cases info with
  | some i => simp only [fenceStart?, lineStart_eq, Option.map_some, Markdown.fenceStart?]
  | none =>
    cases h : lines.head? with
    | none => simp only [fenceStart?, h, Markdown.fenceStart?]
    | some line => simp only [fenceStart?, h, lineStart_eq, Option.map_some, ← apply_ite some,
        Markdown.fenceStart?]

theorem fenceBody_eq (type : NodeType) (body : Option Segment) :
    fenceBody src type body = some (match body with
      | some b => .leaf (if type = .code then .code else .text) .text
          (Segment.toSpan ⟨b.start, src.trimNewline b.start b.stop⟩) .nil
      | none => .nil) := by
  cases body with
  | none => rfl
  | some b => simp only [fenceBody, trimNewline_eq, Option.bind_eq_bind, Option.bind_some,
      Option.pure_def]

/-- The language of a fenced block always stands at the start of its info text. -/
theorem isPrefixOf_fenceLanguage (src : Source) (info : Segment) :
    (Markdown.fenceLanguage src info).isPrefixOf (src.suffix info.start) = true := by
  have hslice : src.slice info.start info.stop =
      (src.suffix info.start).take (info.stop - info.start) := by
    rw [Source.suffix_eq_drop, Source.slice, Array.toList_extract, List.extract_eq_take_drop]
  rw [List.isPrefixOf_iff_prefix, Markdown.fenceLanguage, hslice]
  exact (List.takeWhile_prefix _).trans (List.take_prefix _ _)

theorem fenceParts_eq {info : Segment} (h : info.start ≤ src.size) (type : NodeType)
    (code : Forest Shape) :
    fenceParts src type (Markdown.fenceLanguage src info) (some info) code =
      some (if type = .code && !(Markdown.fenceLanguage src info).isEmpty then
          .leaf .lang .text (Segment.toSpan
            ⟨info.start, info.start + (Markdown.fenceLanguage src info).length⟩) code
        else code) := by
  simp only [fenceParts, Source.cut?_suffix h, Option.map_some, isPrefixOf_fenceLanguage,
    ← apply_ite some, Option.bind_eq_bind, Option.bind_some, Option.pure_def]
  split <;> rfl

theorem fencedCode_eq {info : Option Segment} (lines : List Segment) (extent : Option Segment)
    (cursor : Nat) (inner : Conversion) (hinfo : ∀ i ∈ info, i.Within src.size) :
    fencedCode src info lines extent cursor inner =
      some (Markdown.fencedCode src info lines extent cursor inner) := by
  cases hstart : Markdown.fenceStart? src info lines with
  | none => simp only [fencedCode, fenceStart?_eq, hstart, Option.bind_eq_bind, Option.bind_some,
      Markdown.fencedCode]
  | some start =>
    -- the body and the info text decide which reads are made
    cases hb : firstToLast? lines <;> cases info with
    | none => simp only [fencedCode, fenceStart?_eq, hstart, hb, trimNewline_eq, lineEnd_eq,
        closingFence_eq, fenceBody_eq, fenceParts, Option.bind_eq_bind, Option.bind_some,
        Option.pure_def, Markdown.fencedCode]
    | some i =>
      have hi := hinfo i rfl
      have hlang : fenceLanguage src i = some (Markdown.fenceLanguage src i) := by
        rw [fenceLanguage, Source.cut?_of_within hi]
        rfl
      simp only [fencedCode, fenceStart?_eq, hstart, hb, trimNewline_eq, lineEnd_eq,
        closingFence_eq, hlang, fenceBody_eq, fenceParts_eq hi.start_le, Option.bind_eq_bind,
        Option.bind_some, Option.pure_def, Markdown.fencedCode]

theorem indentedCode_eq (lines : List Segment) (extent : Option Segment) (cursor : Nat)
    (inner : Conversion) :
    indentedCode src lines extent cursor inner =
      some (Markdown.indentedCode src lines extent cursor inner) := by
  cases h : firstToLast? lines with
  | none => simp only [indentedCode, h, Markdown.indentedCode]
  | some s => simp only [indentedCode, h, lineStart_eq, trimNewline_eq, Option.bind_eq_bind,
      Option.bind_some, Option.pure_def, Markdown.indentedCode]

theorem breakLine?_eq (src : Source) (fuel p : Nat) :
    breakLine? src fuel p = some (Markdown.breakLine? src fuel p) := by
  induction fuel generalizing p with
  | zero => rfl
  | succ fuel ih =>
    by_cases hp : p ≤ src.size
    · have hcut : src.cut? p (src.lineEnd p) = some (src.slice p (src.lineEnd p)) :=
        Source.cut?_of_within ⟨Source.le_lineEnd hp, src.lineEnd_le_size p⟩
      simp only [breakLine?, hp, if_true, lineEnd_eq, hcut, trimReturn_eq (src.lineEnd_le_size p),
        ih, ← apply_ite some, Option.bind_eq_bind, Option.bind_some, Option.pure_def,
        Markdown.breakLine?]
    · simp only [breakLine?, hp, if_false, Markdown.breakLine?]

theorem thematicBreak_eq (hc : cursor ≤ src.size) :
    thematicBreak src cursor = some (Markdown.thematicBreak src cursor) := by
  have hguard : decide (0 < cursor) = true → 0 < cursor ∧ cursor ≤ src.size :=
    fun h => ⟨of_decide_eq_true h, hc⟩
  have hinside : (decide (0 < cursor) && src.at? (cursor - 1) (· != newline)) =
      (decide (0 < cursor) && !src.at? (cursor - 1) (· == newline)) := by
    by_cases hpos : 0 < cursor
    · have hlt : cursor - 1 < src.size := by omega
      simp [Source.at?, hlt]
      rfl
    · simp [hpos]
  simp only [thematicBreak, guarded_before _ hguard, hinside, lineEnd_eq, Option.map_some,
    ← apply_ite some, breakLine?_eq, Option.bind_eq_bind, Option.bind_some, Option.pure_def,
    Markdown.thematicBreak]

theorem htmlBlock_eq (type : Nat) (closure : Option Segment) (lines : List Segment) (cursor : Nat) :
    htmlBlock src type closure lines cursor =
      some (Markdown.htmlBlock src type closure lines cursor) := by
  simp only [htmlBlock, trimNewline_eq, Option.bind_eq_bind, Option.bind_some, Option.pure_def,
    Markdown.htmlBlock]
  cases firstToLast? lines <;> cases closure <;> rfl

theorem rawHtml_eq {segments : List Segment} (h : ∀ s ∈ firstToLast? segments, s.Within src.size) :
    rawHtml src segments cursor = some (Markdown.rawHtml src segments cursor) := by
  cases hs : firstToLast? segments with
  | none => simp only [rawHtml, hs, Markdown.rawHtml]
  | some s =>
    simp only [rawHtml, hs, Source.cut?_suffix (h s hs).start_le, Source.startsWith_eq_isPrefixOf,
      Option.bind_eq_bind, Option.bind_some, Option.pure_def, Markdown.rawHtml]

theorem listMarker?_eq (src : Source) (marker : UInt8) (lineStart : Nat) :
    listMarker? src marker lineStart = some (Markdown.listMarker? src marker lineStart) := by
  simp only [listMarker?, forward_eq, ← apply_ite some, guarded_at, Option.bind_eq_bind,
    Option.bind_some, Option.pure_def, Markdown.listMarker?]

theorem listItem_eq (marker : Option UInt8) (extent : Option Segment) (cursor : Nat)
    (inner : Conversion) :
    listItem src marker extent cursor inner =
      some (Markdown.listItem src marker extent cursor inner) := by
  cases extent with
  | none => rfl
  | some s =>
    cases marker with
    | none => rfl
    | some m =>
      simp only [listItem, lineStart_eq, listMarker?_eq, trimNewline_eq, Option.bind_eq_bind,
        Option.bind_some, Option.pure_def, Markdown.listItem]
      cases (Markdown.listMarker? src m (src.lineStart s.start)).filter _ <;> rfl

theorem link_eq (type : NodeType) (destination : Bytes) {content : Option Segment} (cursor : Nat)
    (inner : Conversion) (h : ∀ s ∈ content, s.Within src.size) :
    link src type destination content cursor inner =
      some (Markdown.link src type destination content cursor inner) := by
  cases content with
  | none => rfl
  | some s =>
    cases hh : (Markdown.linkParts src destination (type == .image) s).href <;>
      simp only [link, linkParts_eq destination _ (h s rfl), hh, Option.bind_eq_bind,
        Option.bind_some, Option.pure_def, Markdown.link, Option.map_some, Option.getD_some]

theorem angleBrackets_eq (href : Segment) (h : href.start ≤ src.size) :
    angleBrackets src href =
      some (if 0 < href.start && src.at? (href.start - 1) (· == ascii '<')
          && src.at? href.stop (· == ascii '>') then ⟨href.start - 1, href.stop + 1⟩
        else href) := by
  have hguard : decide (0 < href.start) = true → 0 < href.start ∧ href.start ≤ src.size :=
    fun hpos => ⟨of_decide_eq_true hpos, h⟩
  have hclosed : (decide (0 < href.start) && src.at? (href.start - 1) (· == ascii '<') &&
      decide (href.stop < src.size)) = true → href.stop < src.size := by
    simp only [Bool.and_eq_true, decide_eq_true_eq]
    exact And.right
  have hboth : ∀ opened : Bool, (opened && decide (href.stop < src.size) &&
      src.at? href.stop (· == ascii '>')) = (opened && src.at? href.stop (· == ascii '>')) := by
    intro opened
    rw [Bool.eq_iff_iff]
    simp only [Bool.and_eq_true, decide_eq_true_eq]
    exact ⟨fun h => ⟨h.1.1, h.2⟩, fun h => ⟨⟨h.1, Source.lt_of_at? h.2⟩, h.2⟩⟩
  simp only [angleBrackets, guarded_before _ hguard, guarded_eq _ hclosed, hboth,
    Option.bind_eq_bind, Option.bind_some, Option.pure_def]

theorem autoLink_eq {label : Segment} (protocol : Option Bytes) (hl : label.Within src.size)
    (hc : cursor ≤ src.size) :
    autoLink src label protocol cursor = some (Markdown.autoLink src label protocol cursor) := by
  have hcut := Source.cut?_of_within hl
  generalize htext : src.slice label.start label.stop = text at hcut
  have hfound : (if !text.isEmpty && decide (cursor ≤ src.size) then
      (src.cut? cursor src.size).map (Bytes.find? text) else some none) =
      some (if text.isEmpty then none else Bytes.find? text (src.suffix cursor)) := by
    cases text with
    | nil => rfl
    | cons b text => simp [hc, Source.cut?_suffix hc]
  simp only [autoLink, hcut, hfound, Option.bind_eq_bind, Option.bind_some, Option.pure_def,
    Markdown.autoLink, htext]
  cases hn : if text.isEmpty then none else Bytes.find? text (src.suffix cursor) with
  | none => rfl
  | some n =>
    have hstart : cursor + n ≤ src.size := by
      split at hn
      · cases hn
      · exact Nat.le_trans (Nat.le_add_right _ _) (Source.find?_suffix_le hn hc)
    simp only [angleBrackets_eq ⟨cursor + n, cursor + n + text.length⟩ hstart, Option.bind_some]

theorem keyEntries_eq {entries : List KeyEntry}
    (h : ∀ entry ∈ entries, entry.key.Within src.size) :
    keyEntries src entries = some (Markdown.keyEntries src entries) := by
  induction entries with
  | nil => rfl
  | cons entry rest ih =>
    simp only [keyEntries, Source.cut?_of_within (h entry List.mem_cons_self),
      ih fun e he => h e (List.mem_cons_of_mem _ he), Option.bind_eq_bind, Option.bind_some,
      Option.pure_def, Markdown.keyEntries]

theorem directive_eq {d : Directive} (h : ∀ s ∈ d.segments, s.Within src.size) :
    directive src d cursor = some (Markdown.directive src d cursor) := by
  have hkeys : ∀ entry ∈ d.keys, entry.key.Within src.size :=
    fun entry hentry => (Directive.within_keys h entry hentry).1
  cases hu : d.unclosed.filter fun u => !u.isEmpty with
  | none => cases hl : d.label <;>
      simp only [directive, keyEntries_eq hkeys, hu, hl, Option.bind_eq_bind, Option.bind_some,
        Option.pure_def, Markdown.directive]
  | some u =>
    have hname := h d.name (by simp [Directive.segments])
    have hunclosed := h u (by simp [Directive.segments, (Option.filter_eq_some_iff.mp hu).1])
    cases hl : d.label <;>
      simp only [directive, keyEntries_eq hkeys, hu, hl, Source.cut?_of_within hname,
        Source.cut?_of_within hunclosed, Option.bind_eq_bind, Option.bind_some, Option.pure_def,
        Markdown.directive]

end Kinds

/-! ## Whole documents -/

section Documents

variable {src : Source} {cursor : Nat}

theorem convertKind_eq {n : Node} (hn : n.Everywhere (Node.Placed src.size))
    (marker : Option UInt8) (inner : Conversion) (hc : cursor ≤ src.size) :
    convertKind src marker n cursor inner =
      some (Markdown.convertKind src marker n cursor inner) := by
  have hs := hn.here.segments
  simp only [convertKind, Markdown.convertKind, extent_eq hn, content_eq hn, Option.bind_eq_bind,
    Option.bind_some]
  cases hk : n.kind with
  | paragraph | textBlock => exact paragraph_eq _ cursor inner
  | heading level => exact heading_eq n.lines _ cursor inner
  | blockquote => exact blockquote_eq _ cursor inner
  | fencedCode info =>
    refine fencedCode_eq n.lines _ cursor inner fun i hi => hs i ?_
    simpa [hk, Kind.segments] using hi
  | codeBlock => exact indentedCode_eq n.lines _ cursor inner
  | thematicBreak => exact thematicBreak_eq hc
  | htmlBlock type closure => exact htmlBlock_eq type closure n.lines cursor
  | rawHtml segments =>
    refine rawHtml_eq (within_firstToLast? ?_ (hn.here.rawHtml_ordered segments hk))
    simpa [hk, Kind.segments] using hs
  | listItem => exact listItem_eq marker _ cursor inner
  | link destination | image destination =>
    exact link_eq _ destination cursor inner hn.within_content
  | autoLink label protocol =>
    exact autoLink_eq protocol (hs label (by simp [hk, Kind.segments])) hc
  | directive d => exact directive_eq (by simpa [hk, Kind.segments] using hs)
  | _ => rfl

theorem controlRow_eq (o : Outcome) : controlRow src o = some (Markdown.controlRow src o) := by
  cases h : o.piece with
  | none => simp only [controlRow, h, Markdown.controlRow]
  | some row => simp only [controlRow, h, lineEnd_eq, trimReturn_eq (src.lineEnd_le_size _),
      ← apply_ite some, Option.bind_eq_bind, Option.bind_some, Option.pure_def, Markdown.controlRow]

theorem table_eq (cursor : Nat) (rows : Conversion) :
    table src cursor rows = some (Markdown.table src cursor rows) := by
  cases h : firstToLast? rows.segments with
  | none => simp only [table, h, Markdown.table]
  | some s => simp only [table, h, lineStart_eq, lineEnd_eq, trimReturn_eq (src.lineEnd_le_size _),
      Option.bind_eq_bind, Option.bind_some, Option.pure_def, Markdown.table]

section Sequences

variable {nodes : List Node} (hn : ∀ n ∈ nodes, n.Everywhere (Node.Placed src.size))
  (h : ∀ n ∈ nodes, ∀ (marker : Option UInt8) (cursor : Nat), cursor ≤ src.size →
    convertNode src marker n cursor = some (Markdown.convertNode src marker n cursor))
include hn h

theorem convertAll_eq (marker : Option UInt8) (hc : cursor ≤ src.size) :
    convertAll src marker nodes cursor = some (Markdown.convertAll src marker nodes cursor) := by
  induction nodes generalizing cursor with
  | nil => rfl
  | cons n rest ih =>
    have ho := placed_convertNode (hn n List.mem_cons_self) marker cursor hc
    have hrest := ih (fun m hm => hn m (List.mem_cons_of_mem _ hm))
      (fun m hm => h m (List.mem_cons_of_mem _ hm)) ho.cursor_le
    simp only [convertAll, h n List.mem_cons_self marker cursor hc, hrest, Option.bind_eq_bind,
      Option.bind_some, Option.pure_def, Markdown.convertAll]

theorem convertRows_eq (hc : cursor ≤ src.size) :
    convertRows src nodes cursor = some (Markdown.convertRows src nodes cursor) := by
  induction nodes generalizing cursor with
  | nil => rfl
  | cons n rest ih =>
    have ho := placed_convertNode (hn n List.mem_cons_self) none cursor hc
    have hrest : ∀ c ≤ src.size,
        convertRows src rest c = some (Markdown.convertRows src rest c) :=
      fun c hc => ih (fun m hm => hn m (List.mem_cons_of_mem _ hm))
        (fun m hm => h m (List.mem_cons_of_mem _ hm)) hc
    simp only [convertRows, h n List.mem_cons_self none cursor hc, controlRow_eq,
      hrest _ ho.cursor_le, hrest _ (placed_controlRow ho).cursor_le, ← apply_ite some,
      Option.bind_eq_bind, Option.bind_some, Option.pure_def, Markdown.convertRows]

end Sequences

theorem convertNode_eq {n : Node} (hn : n.Everywhere (Node.Placed src.size))
    (marker : Option UInt8) (cursor : Nat) (hc : cursor ≤ src.size) :
    convertNode src marker n cursor = some (Markdown.convertNode src marker n cursor) := by
  induction hn generalizing marker cursor with
  | @mk kind lines children hp hchildren ih =>
    by_cases hk : kind = .table
    · subst hk
      simp only [convertNode, convertRows_eq hchildren ih hc, table_eq, Option.bind_eq_bind,
        Option.bind_some, convertNode_table]
    · rw [convertNode_of_ne hk, convertNode]
      · simp only [convertAll_eq hchildren ih _ hc, Option.bind_eq_bind, Option.bind_some]
        exact convertKind_eq (.mk hp hchildren) marker _ hc
      · exact hk

/-- A placed document is converted without a read outside of its source. -/
theorem convert_eq {document : Node} (h : document.Everywhere (Node.Placed src.size)) :
    convert src document = some (Markdown.convert src document) := by
  have hall := convertAll_eq h.children (fun m hm => convertNode_eq (h.children m hm)) none
    (Nat.zero_le src.size)
  simp only [convert, hall, Option.bind_eq_bind, Option.bind_some, Option.pure_def,
    Markdown.convert]

/-- A segment past the end of the source makes the conversion read there. -/
example : convert #[] (.mk .document [] [.leaf (.rawHtml [⟨1, 1⟩])]) = none := by decide

end Documents

end DocTokens.Markdown.Checked
