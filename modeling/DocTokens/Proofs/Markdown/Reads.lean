import DocTokens.Proofs.Markdown.Placement

/-! # Checked reads

Moves along a source and extents once more, with every look at the source made through a reader that
fails outside of it. A test behind a guard reads only if the guard holds. At the positions of placed
documents no read fails, and the answers are those of the plain functions.
-/

namespace DocTokens

namespace Source

/-- The byte before an offset. -/
def before? (src : Source) (i : Nat) : Option UInt8 := if i = 0 then none else src[i - 1]?

/-- The bytes in `[start, stop)`, if that is a range of the source. -/
def cut? (src : Source) (start stop : Nat) : Option Bytes :=
  if start ≤ stop ∧ stop ≤ src.size then some (src.slice start stop) else none

theorem cut?_of_within {src : Source} {start stop : Nat}
    (h : Segment.Within src.size ⟨start, stop⟩) :
    src.cut? start stop = some (src.slice start stop) :=
  if_pos ⟨h.ordered, h.stop_le⟩

theorem cut?_suffix {src : Source} {start : Nat} (h : start ≤ src.size) :
    src.cut? start src.size = some (src.suffix start) :=
  cut?_of_within ⟨h, Nat.le_refl _⟩

end Source

namespace Markdown.Checked

/-- Whether a guard holds and a byte satisfies `p`. The byte has to exist only if the guard
holds. -/
def guarded (guard : Bool) (byte : Option UInt8) (p : UInt8 → Bool) : Option Bool :=
  if guard then byte.map p else some false

section Reads

variable {src : Source} {guard : Bool} {i : Nat}

theorem guarded_eq (p : UInt8 → Bool) (h : guard = true → i < src.size) :
    guarded guard src[i]? p = some (guard && src.at? i p) := by
  cases guard with
  | false => rfl
  | true => simp [guarded, Source.at?, h rfl]

theorem guarded_before (p : UInt8 → Bool) (h : guard = true → 0 < i ∧ i ≤ src.size) :
    guarded guard (src.before? i) p = some (guard && src.at? (i - 1) p) := by
  cases guard with
  | false => rfl
  | true =>
    obtain ⟨hpos, hle⟩ := h rfl
    have hlt : i - 1 < src.size := by omega
    simp [guarded, Source.before?, Source.at?, hlt, Nat.ne_of_gt hpos]

theorem guarded_at (src : Source) (i : Nat) (p : UInt8 → Bool) :
    guarded (i < src.size) src[i]? p = some (src.at? i p) := by
  rw [guarded_eq p (by simp)]
  by_cases h : i < src.size
  · simp [h]
  · simp [h, Source.at?]

end Reads

/-! ## Moving along a source -/

def lineStartFrom (src : Source) : Nat → Option Nat
  | 0 => some 0
  | p + 1 => do
    let b ← src[p]?
    if b = newline then some (p + 1) else lineStartFrom src p

def lineStart (src : Source) (pos : Nat) : Option Nat := lineStartFrom src (min pos src.size)

def lineEndFrom (src : Source) : (fuel : Nat) → Nat → Option Nat
  | 0, p => some p
  | fuel + 1, p => do
    let b ← src[p]?
    if b = newline then some p else lineEndFrom src fuel (p + 1)

def lineEnd (src : Source) (pos : Nat) : Option Nat :=
  if pos < src.size then lineEndFrom src (src.size - pos) pos else some src.size

def back (src : Source) (p : UInt8 → Bool) : (limit : Nat) → Nat → Option Nat
  | 0, pos => some pos
  | limit + 1, pos => do
    let more ← guarded (0 < pos) (src.before? pos) p
    if more then back src p limit (pos - 1) else some pos

def forward (src : Source) (p : UInt8 → Bool) : (limit : Nat) → Nat → Option Nat
  | 0, pos => some pos
  | limit + 1, pos => do
    let more ← guarded (pos < src.size) src[pos]? p
    if more then forward src p limit (pos + 1) else some pos

def trimReturn (src : Source) (start stop : Nat) : Option Nat := do
  let found ← guarded (start < stop) (src.before? stop) (· == ascii '\r')
  pure (if found then stop - 1 else stop)

def trimNewline (src : Source) (start stop : Nat) : Option Nat := do
  let stop := min stop src.size
  let found ← guarded (start < stop) (src.before? stop) (· == newline)
  trimReturn src start (if found then stop - 1 else stop)

section Moves

variable {src : Source}

theorem lineStartFrom_eq {p : Nat} (h : p ≤ src.size) :
    lineStartFrom src p = some (src.lineStartFrom p) := by
  induction p with
  | zero => rfl
  | succ p ih =>
    have hlt : p < src.size := h
    simp only [lineStartFrom, Source.lineStartFrom, Array.getElem?_eq_getElem hlt,
      Option.some.injEq, Option.bind_eq_bind, Option.bind_some, ih (Nat.le_of_lt h)]
    split <;> rfl

@[simp] theorem lineStart_eq (src : Source) (pos : Nat) :
    lineStart src pos = some (src.lineStart pos) :=
  lineStartFrom_eq (Nat.min_le_right _ _)

theorem lineEndFrom_eq {fuel p : Nat} (h : p + fuel ≤ src.size) :
    lineEndFrom src fuel p = some (src.lineEndFrom fuel p) := by
  induction fuel generalizing p with
  | zero => rfl
  | succ fuel ih =>
    have hlt : p < src.size := by omega
    simp only [lineEndFrom, Source.lineEndFrom, Array.getElem?_eq_getElem hlt, Option.some.injEq,
      Option.bind_eq_bind, Option.bind_some, ih (show p + 1 + fuel ≤ src.size by omega)]
    split <;> rfl

@[simp] theorem lineEnd_eq (src : Source) (pos : Nat) :
    lineEnd src pos = some (src.lineEnd pos) := by
  unfold lineEnd Source.lineEnd
  split
  · exact lineEndFrom_eq (by omega)
  · rfl

theorem back_eq (p : UInt8 → Bool) (limit : Nat) {pos : Nat} (h : pos ≤ src.size) :
    back src p limit pos = some (src.back p limit pos) := by
  induction limit generalizing pos with
  | zero => rfl
  | succ limit ih =>
    simp only [back, Source.back, ih (show pos - 1 ≤ src.size by omega), Option.bind_eq_bind,
      Option.bind_some, guarded_before p fun hpos => ⟨of_decide_eq_true hpos, h⟩]
    split <;> rfl

@[simp] theorem forward_eq (src : Source) (p : UInt8 → Bool) (limit pos : Nat) :
    forward src p limit pos = some (src.forward p limit pos) := by
  induction limit generalizing pos with
  | zero => rfl
  | succ limit ih =>
    simp only [forward, Source.forward, ih, Option.bind_eq_bind, Option.bind_some, guarded_at]
    split <;> rfl

theorem trimReturn_eq {start stop : Nat} (h : stop ≤ src.size) :
    trimReturn src start stop = some (src.trimReturn start stop) := by
  have hguard : decide (start < stop) = true → 0 < stop ∧ stop ≤ src.size :=
    fun hlt => ⟨Nat.lt_of_le_of_lt (Nat.zero_le _) (of_decide_eq_true hlt), h⟩
  simp only [trimReturn, guarded_before _ hguard, Option.bind_eq_bind, Option.bind_some,
    Option.pure_def, Source.trimReturn]

@[simp] theorem trimNewline_eq (src : Source) (start stop : Nat) :
    trimNewline src start stop = some (src.trimNewline start stop) := by
  have hsize := Nat.min_le_right stop src.size
  have hguard : decide (start < min stop src.size) = true →
      0 < min stop src.size ∧ min stop src.size ≤ src.size :=
    fun hlt => ⟨Nat.lt_of_le_of_lt (Nat.zero_le _) (of_decide_eq_true hlt), hsize⟩
  simp only [trimNewline, guarded_before _ hguard, Option.bind_eq_bind, Option.bind_some]
  refine trimReturn_eq ?_
  split <;> omega

end Moves

/-! ## Extents -/

def widen (src : Source) (p : UInt8 → Bool) (limit : Nat) (s : Segment) : Option Segment := do
  let start ← back src p limit s.start
  let stop ← forward src p limit s.stop
  pure ⟨start, stop⟩

def widenCodeSpan (src : Source) (s : Segment) : Option Segment := do
  let padded ← guarded (1 < s.start) (src.before? s.start) isSpaceByte
  let quoted ← guarded padded (src.before? (s.start - 1)) isBackquote
  let start := if quoted then s.start - 1 else s.start
  let padded ← guarded (s.stop + 1 < src.size) src[s.stop]? isSpaceByte
  let quoted ← guarded padded src[s.stop + 1]? isBackquote
  let stop := if quoted then s.stop + 1 else s.stop
  widen src isBackquote 32 ⟨start, stop⟩

def widenBrackets (src : Source) (isImage : Bool) (s : Segment) : Option Segment := do
  let opened ← guarded (0 < s.start) (src.before? s.start) (· == ascii '[')
  let start := if opened then s.start - 1 else s.start
  let marked ← guarded (isImage && 0 < start) (src.before? start) (· == ascii '!')
  let start := if marked then start - 1 else start
  let closed ← guarded (s.stop < src.size) src[s.stop]? (· == ascii ']')
  pure ⟨start, if closed then s.stop + 1 else s.stop⟩

/-- Whether a destination that is not empty stands at an offset. -/
def startsWith (src : Source) (p : Nat) (destination : Bytes) : Option Bool :=
  if destination.isEmpty then some false
  else (src.cut? p src.size).map destination.isPrefixOf

def linkParts (src : Source) (destination : Bytes) (isImage : Bool) (content : Segment) :
    Option LinkParts := do
  let outer ← widenBrackets src isImage content
  let opened ← guarded (outer.stop < src.size) src[outer.stop]? (· == ascii '(')
  if opened then do
    let p ← forward src isSpaceOrTab 16 (outer.stop + 1)
    let p ← forward src (· == ascii '<') 1 p
    let found ← startsWith src p destination
    let href : Option Segment := if found then some ⟨p, p + destination.length⟩ else none
    let p := match href with
      | some h => h.stop
      | none => p
    let stop ← lineEnd src p
    let rest ← src.cut? p stop
    pure (match rest.idxOf? (ascii ')') with
      | some n => ⟨⟨outer.start, p + n + 1⟩, href⟩
      | none => ⟨outer, href⟩)
  else pure ⟨outer, none⟩

/-- Kinds whose extent is their content, or a segment of their own, read nothing. -/
def kindExtent (src : Source) (content : Option Segment) : Kind → Option (Option Segment)
  | .emphasis level => content.mapM (widen src isEmphasisMark level)
  | .strikethrough => content.mapM (widen src isTilde 2)
  | .codeSpan => content.mapM (widenCodeSpan src)
  | .link destination => content.mapM fun s => (linkParts src destination false s).map (·.extent)
  | .image destination => content.mapM fun s => (linkParts src destination true s).map (·.extent)
  | kind => some (kind.extent src content)

mutual

def extent (src : Source) : Node → Option (Option Segment)
  | .mk kind lines children => do
    let below ← extents src children
    kindExtent src (hull? (if kind.isBlock then firstToLast? lines else none) below) kind

def extents (src : Source) : List Node → Option (Option Segment)
  | [] => some none
  | n :: rest => do
    let first ← extent src n
    let others ← extents src rest
    pure (hull? first others)

end

def content (src : Source) (n : Node) : Option (Option Segment) := do
  let below ← extents src n.children
  pure (hull? (if n.kind.isBlock then firstToLast? n.lines else none) below)

section Extents

variable {src : Source} {s : Segment}

theorem widen_eq (p : UInt8 → Bool) (limit : Nat) (h : s.start ≤ src.size) :
    widen src p limit s = some (Markdown.widen src p limit s) := by
  simp only [widen, back_eq p limit h, forward_eq, Option.bind_eq_bind, Option.bind_some,
    Option.pure_def, Markdown.widen]

theorem widenCodeSpan_eq (h : s.start ≤ src.size) :
    widenCodeSpan src s = some (Markdown.widenCodeSpan src s) := by
  have hleft : decide (1 < s.start) = true → 0 < s.start ∧ s.start ≤ src.size := by
    simp only [decide_eq_true_eq]
    omega
  have hleft' : (decide (1 < s.start) && src.at? (s.start - 1) isSpaceByte) = true →
      0 < s.start - 1 ∧ s.start - 1 ≤ src.size := by
    simp only [Bool.and_eq_true, decide_eq_true_eq]
    omega
  have hright : decide (s.stop + 1 < src.size) = true → s.stop < src.size := by
    simp only [decide_eq_true_eq]
    omega
  have hright' : (decide (s.stop + 1 < src.size) && src.at? s.stop isSpaceByte) = true →
      s.stop + 1 < src.size := by
    simp only [Bool.and_eq_true, decide_eq_true_eq]
    exact And.left
  -- the second test on the right fails by itself at the end of the source
  have hstop : (decide (s.stop + 1 < src.size) && src.at? s.stop isSpaceByte &&
      src.at? (s.stop + 1) isBackquote) =
      (src.at? s.stop isSpaceByte && src.at? (s.stop + 1) isBackquote) := by
    rw [Bool.eq_iff_iff]
    simp only [Bool.and_eq_true, decide_eq_true_eq]
    exact ⟨fun h => ⟨h.1.2, h.2⟩, fun h => ⟨⟨Source.lt_of_at? h.2, h.1⟩, h.2⟩⟩
  simp only [widenCodeSpan, guarded_before _ hleft, guarded_before _ hleft', guarded_eq _ hright,
    guarded_eq _ hright', hstop, Nat.sub_sub, Option.bind_eq_bind, Option.bind_some]
  refine widen_eq _ _ ?_
  dsimp only
  split <;> omega

theorem widenBrackets_eq (isImage : Bool) (h : s.start ≤ src.size) :
    widenBrackets src isImage s = some (Markdown.widenBrackets src isImage s) := by
  have hopened : decide (0 < s.start) = true → 0 < s.start ∧ s.start ≤ src.size := by
    simp only [decide_eq_true_eq]
    omega
  have hmarked : ∀ start ≤ s.start, (isImage && decide (0 < start)) = true →
      0 < start ∧ start ≤ src.size := by
    intro start hle
    simp only [Bool.and_eq_true, decide_eq_true_eq]
    omega
  simp only [widenBrackets, guarded_before _ hopened, guarded_at, Option.bind_eq_bind,
    Option.bind_some, Option.pure_def]
  rw [guarded_before _ (hmarked _ (by split <;> omega))]
  rfl

theorem startsWith_eq {p : Nat} (destination : Bytes) (h : p ≤ src.size) :
    startsWith src p destination = some (!destination.isEmpty && src.startsWith p destination) := by
  unfold startsWith
  split
  · simp [*]
  · simp [*, Source.cut?_suffix h, Source.startsWith_eq_isPrefixOf]

theorem linkParts_eq (destination : Bytes) (isImage : Bool) (h : s.Within src.size) :
    linkParts src destination isImage s = some (Markdown.linkParts src destination isImage s) := by
  simp only [linkParts, widenBrackets_eq isImage h.start_le, guarded_at, forward_eq, lineEnd_eq,
    Option.bind_eq_bind, Option.bind_some, Option.pure_def, Markdown.linkParts]
  split
  · rename_i hopen
    have hq : src.forward (· == ascii '<') 1
        (src.forward isSpaceOrTab 16 ((Markdown.widenBrackets src isImage s).stop + 1)) ≤
          src.size :=
      Source.forward_le_size 1 (Source.forward_le_size 16 (Source.lt_of_at? hopen))
    generalize src.forward (· == ascii '<') 1 (src.forward isSpaceOrTab 16 _) = q at hq ⊢
    have hhref := within_href destination hq
    simp only [startsWith_eq destination hq, Option.bind_some]
    generalize (if (!destination.isEmpty && src.startsWith q destination) = true then
      some (Segment.mk q (q + destination.length)) else none) = href at hhref ⊢
    have hcut : ∀ p ≤ src.size, src.cut? p (src.lineEnd p) = some (src.slice p (src.lineEnd p)) :=
      fun p hp => Source.cut?_of_within ⟨Source.le_lineEnd hp, src.lineEnd_le_size p⟩
    cases href with
    | none =>
      cases hn : (src.slice q (src.lineEnd q)).idxOf? (ascii ')') <;>
        simp only [hcut q hq, hn, Option.bind_some]
    | some h =>
      cases hn : (src.slice h.stop (src.lineEnd h.stop)).idxOf? (ascii ')') <;>
        simp only [hcut h.stop (hhref h rfl).1.stop_le, hn, Option.bind_some]
  · rfl

theorem mapM_eq {content : Option Segment} {f : Segment → Option Segment} {g : Segment → Segment}
    (hc : ∀ s ∈ content, s.Within src.size) (h : ∀ s, s.Within src.size → f s = some (g s)) :
    content.mapM f = some (content.map g) := by
  cases content with
  | none => rfl
  | some s => simp [h s (hc s rfl)]

theorem kindExtent_eq (kind : Kind) {content : Option Segment}
    (hc : ∀ s ∈ content, s.Within src.size) :
    kindExtent src content kind = some (kind.extent src content) := by
  cases kind with
  | emphasis level => exact mapM_eq hc fun s hs => widen_eq _ level hs.start_le
  | strikethrough => exact mapM_eq hc fun s hs => widen_eq _ 2 hs.start_le
  | codeSpan => exact mapM_eq hc fun s hs => widenCodeSpan_eq hs.start_le
  | link d | image d =>
    exact mapM_eq hc fun s hs => by rw [linkParts_eq d _ hs, Option.map_some]
  | _ => rfl

theorem extents_eq {ns : List Node} (h : ∀ n ∈ ns, extent src n = some (n.extent src)) :
    extents src ns = some (Node.extents src ns) := by
  induction ns with
  | nil => rfl
  | cons n ns ih =>
    have hrest := ih fun m hm => h m (List.mem_cons_of_mem _ hm)
    simp only [extents, h n List.mem_cons_self, hrest, Option.bind_eq_bind, Option.bind_some,
      Option.pure_def, Node.extents]

theorem extent_eq {n : Node} (h : n.Everywhere (Node.Placed src.size)) :
    extent src n = some (n.extent src) := by
  induction h with
  | @mk kind lines children hn hchildren ih =>
    have hcontent := (Node.Everywhere.mk hn hchildren).within_content
    simp only [extent, extents_eq ih, Option.bind_eq_bind, Option.bind_some]
    exact kindExtent_eq kind hcontent

theorem content_eq {n : Node} (h : n.Everywhere (Node.Placed src.size)) :
    content src n = some (n.content src) := by
  simp only [content, extents_eq fun m hm => extent_eq (h.children m hm), Option.bind_eq_bind,
    Option.bind_some, Option.pure_def, Node.content]

end Extents

end Markdown.Checked

end DocTokens
