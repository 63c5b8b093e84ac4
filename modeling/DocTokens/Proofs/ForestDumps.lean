import DocTokens.Proofs.Numbering
import DocTokens.Proofs.WrittenForms

/-! # Reading dumps of forests

The dump of a tree has one line for each entry, and indentation is all that shows which entries are
below which. Keys are written as they are, so a key may look like the rest of its line. It is still
read back: the slot before it is a word, and behind the last space of the line stands the node,
whose type and numbers have none.
-/

namespace DocTokens

namespace Bytes

/-- One letter at least, and nothing but letters. -/
def isWord (s : Bytes) : Bool := !s.isEmpty && s.all isLetter

variable {s : Bytes} {b : UInt8}

theorem isLetter_of_mem_word (h : isWord s = true) (hb : b ∈ s) : isLetter b = true := by
  rw [isWord, Bool.and_eq_true] at h
  exact List.all_eq_true.mp h.2 b hb

theorem not_mem_word (h : isWord s = true) (hb : isLetter b = false) : b ∉ s := by
  intro hmem
  rw [isLetter_of_mem_word h hmem] at hb
  cases hb

theorem exists_cons_of_word (h : isWord s = true) :
    ∃ b rest, s = b :: rest ∧ isLetter b = true := by
  cases s with
  | nil => cases h
  | cons b rest => exact ⟨b, rest, rfl, isLetter_of_mem_word h List.mem_cons_self⟩

end Bytes

/-! ## The parts of a line -/

section Lines

theorem Value.render_literal_ne (text : Bytes) : (literal text).render ≠ absent.render := by
  intro h
  have hfront := congrArg (fun s => s.toList.head?) h
  simp only [render, String.toList_append] at hfront
  exact absurd (Option.some.inj hfront) (by decide : 'l' ≠ 'a')

theorem Value.render_inj {v v' : Value} (h : ∀ id, v ≠ .child id) (h' : ∀ id, v' ≠ .child id)
    (heq : v.render = v'.render) : v = v' := by
  cases v with
  | child id => exact absurd rfl (h id)
  | absent =>
    cases v' with
    | child id => exact absurd rfl (h' id)
    | absent => rfl
    | literal text' => exact absurd heq.symm (render_literal_ne text')
  | literal text =>
    cases v' with
    | child id => exact absurd rfl (h' id)
    | absent => exact absurd heq (render_literal_ne text)
    | literal text' =>
      have htext := congrArg utf8 heq
      simp only [render, utf8_append] at htext
      rw [Quoted.encode_inj.mp (utf8_inj.mp (List.append_cancel_left htext))]

theorem Value.newline_not_mem_render {v : Value} (h : ∀ id, v ≠ .child id) :
    newline ∉ utf8 v.render := by
  cases v with
  | child id => exact absurd rfl (h id)
  | absent => decide
  | literal text =>
    rw [render, utf8_append, List.mem_append, not_or]
    exact ⟨by decide, Quoted.newline_not_mem_encode text⟩

namespace Node

variable {n m : Node}

theorem utf8_render (n : Node) : utf8 n.render =
    utf8 n.type.name ++ ascii '#' :: (utf8 (toString (n.id : Int)) ++
      ascii '[' :: (utf8 (toString n.span.start) ++
        ascii ',' :: (utf8 (toString n.span.stop) ++ [ascii ')']))) := by
  have hspan : utf8 n.span.render = ascii '[' :: (utf8 (toString n.span.start) ++
      ascii ',' :: (utf8 (toString n.span.stop) ++ [ascii ')'])) := by
    unfold Span.render
    simp only [utf8_append, List.append_assoc]
    rfl
  rw [← hspan]
  unfold render
  simp only [utf8_append, List.append_assoc]
  rfl

/-- The type, number and span of a node are read back. -/
theorem render_inj (hn : Bytes.isWord (utf8 n.type.name) = true)
    (hm : Bytes.isWord (utf8 m.type.name) = true) (h : utf8 n.render = utf8 m.render) :
    n.type = m.type ∧ n.id = m.id ∧ n.span = m.span := by
  rw [utf8_render, utf8_render] at h
  obtain ⟨htype, h⟩ := cut_at_first (Bytes.not_mem_word hn (by decide))
    (Bytes.not_mem_word hm (by decide)) h
  obtain ⟨hid, -, h⟩ := toString_unique (by decide) (by decide) h
  obtain ⟨hstart, -, h⟩ := toString_unique (by decide) (by decide) h
  obtain ⟨hstop, -, -⟩ := toString_unique (by decide) (by decide) h
  refine ⟨?_, Int.ofNat_inj.mp hid, ?_⟩
  · exact congrArg NodeType.mk (utf8_inj.mp htype)
  · exact Span.mk.injEq .. ▸ ⟨hstart, hstop⟩

/-- Spaces and line feeds do not occur in a written node. -/
theorem not_mem_render (hn : Bytes.isWord (utf8 n.type.name) = true) {b : UInt8}
    (hb : b = ascii ' ' ∨ b = newline) : b ∉ utf8 n.render := by
  have hnumber : ∀ i : Int, b ∉ utf8 (toString i) :=
    not_mem_toString (by rcases hb with rfl | rfl <;> decide)
  have htype : b ∉ utf8 n.type.name :=
    Bytes.not_mem_word hn (by rcases hb with rfl | rfl <;> decide)
  simp only [utf8_render, List.mem_append, List.mem_cons, List.not_mem_nil, not_or]
  refine ⟨htype, ?_, hnumber _, ?_, hnumber _, ?_, hnumber _, ?_, not_false⟩
  all_goals rcases hb with rfl | rfl <;> decide

end Node

namespace Label

variable {l l' : Label}

/-- What stands behind the slot. -/
def suffix (l : Label) : Bytes := if l.key.isEmpty then [] else ascii '[' :: (l.key ++ [ascii ']'])

theorem render_eq (l : Label) : l.render = utf8 l.slot.name ++ l.suffix := by
  unfold render suffix
  split <;> simp

theorem suffix_inj (h : l.suffix = l'.suffix) : l.key = l'.key := by
  unfold suffix at h
  split at h <;> split at h
  · simp_all
  · cases h
  · cases h
  · exact List.append_cancel_right (List.cons.inj h).2

/-- A line goes on behind the slot with a bracket or a colon. -/
theorem exists_suffix_cons (l : Label) (rest : Bytes) :
    ∃ b more, l.suffix ++ ascii ':' :: rest = b :: more ∧ Bytes.isLetter b = false ∧
      b ≠ ascii ' ' := by
  unfold suffix
  split
  · exact ⟨_, _, rfl, by decide, by decide⟩
  · exact ⟨_, _, rfl, by decide, by decide⟩

/-- The line of a value. -/
def valueLine (l : Label) (v : Value) : Bytes := l.render ++ (utf8 " = " ++ utf8 v.render)

/-- The line of a node. -/
def nodeLine (l : Label) (n : Node) : Bytes := l.render ++ (utf8 ": " ++ utf8 n.render)

theorem valueLine_eq (hkey : l.key = []) (v : Value) :
    l.valueLine v = utf8 l.slot.name ++ ascii ' ' :: (utf8 "= " ++ utf8 v.render) := by
  rw [valueLine, render, hkey]
  rfl

theorem nodeLine_eq (l : Label) (n : Node) :
    l.nodeLine n = utf8 l.slot.name ++ (l.suffix ++ ascii ':' :: ascii ' ' :: utf8 n.render) := by
  rw [nodeLine, render_eq, List.append_assoc]
  rfl

theorem newline_not_mem_valueLine (h : Bytes.isWord (utf8 l.slot.name) = true) (hkey : l.key = [])
    {v : Value} (hv : ∀ id, v ≠ .child id) : newline ∉ l.valueLine v := by
  rw [valueLine_eq hkey]
  simp only [List.mem_append, List.mem_cons, not_or]
  exact ⟨Bytes.not_mem_word h (by decide), by decide, by decide, Value.newline_not_mem_render hv⟩

theorem newline_not_mem_nodeLine (h : Bytes.isWord (utf8 l.slot.name) = true)
    (hkey : newline ∉ l.key) {n : Node} (hn : Bytes.isWord (utf8 n.type.name) = true) :
    newline ∉ l.nodeLine n := by
  have hsuffix : newline ∉ l.suffix := by
    unfold suffix
    split
    · exact List.not_mem_nil
    · simp only [List.mem_cons, List.mem_append, List.not_mem_nil, or_false, not_or]
      exact ⟨by decide, hkey, by decide⟩
  rw [nodeLine_eq]
  simp only [List.mem_append, List.mem_cons, not_or]
  exact ⟨Bytes.not_mem_word h (by decide), hsuffix, by decide, by decide,
    Node.not_mem_render hn (.inr rfl)⟩

section Words

variable (h : Bytes.isWord (utf8 l.slot.name) = true) (h' : Bytes.isWord (utf8 l'.slot.name) = true)
include h h'

/-- The slot ends where its letters do. -/
theorem slot_unique {b b' : UInt8} {rest rest' : Bytes} (hb : Bytes.isLetter b = false)
    (hb' : Bytes.isLetter b' = false)
    (heq : utf8 l.slot.name ++ b :: rest = utf8 l'.slot.name ++ b' :: rest') :
    l.slot = l'.slot ∧ b = b' ∧ rest = rest' := by
  obtain ⟨hslot, htail⟩ := cut_unique (p := (Bytes.isLetter · = true))
    (fun _ => Bytes.isLetter_of_mem_word h) (fun _ => Bytes.isLetter_of_mem_word h')
    (by simpa using hb) (by simpa using hb') heq
  obtain ⟨rfl, rfl⟩ := List.cons.inj htail
  exact ⟨congrArg Slot.mk (utf8_inj.mp hslot), rfl, rfl⟩

theorem valueLine_inj (hkey : l.key = []) (hkey' : l'.key = []) {v v' : Value}
    (hv : ∀ id, v ≠ .child id) (hv' : ∀ id, v' ≠ .child id)
    (heq : l.valueLine v = l'.valueLine v') : l = l' ∧ v = v' := by
  rw [valueLine_eq hkey, valueLine_eq hkey'] at heq
  obtain ⟨hslot, -, heq⟩ := slot_unique h h' (by decide) (by decide) heq
  refine ⟨?_, Value.render_inj hv hv' (utf8_inj.mp (List.append_cancel_left heq))⟩
  rw [mk.injEq, hkey, hkey']
  exact ⟨hslot, rfl⟩

/-- The node of a line stands behind its last space, whatever the key is. -/
theorem nodeLine_inj {n m : Node} (hn : Bytes.isWord (utf8 n.type.name) = true)
    (hm : Bytes.isWord (utf8 m.type.name) = true) (heq : l.nodeLine n = l'.nodeLine m) :
    l = l' ∧ n.type = m.type ∧ n.id = m.id ∧ n.span = m.span := by
  have hcut : ∀ (l : Label) (n : Node), l.nodeLine n =
      (utf8 l.slot.name ++ (l.suffix ++ [ascii ':'])) ++ ascii ' ' :: utf8 n.render := by
    intro l n
    simp [nodeLine_eq]
  rw [hcut, hcut] at heq
  obtain ⟨hlabel, hnode⟩ := cut_at_last (Node.not_mem_render hn (.inl rfl))
    (Node.not_mem_render hm (.inl rfl)) heq
  obtain ⟨b, more, hsuffix, hb, -⟩ := l.exists_suffix_cons []
  obtain ⟨b', more', hsuffix', hb', -⟩ := l'.exists_suffix_cons []
  rw [hsuffix, hsuffix'] at hlabel
  obtain ⟨hslot, rfl, rfl⟩ := slot_unique h h' hb hb' hlabel
  refine ⟨?_, Node.render_inj hn hm hnode⟩
  rw [mk.injEq]
  exact ⟨hslot, suffix_inj (List.append_cancel_right (hsuffix.trans hsuffix'.symm))⟩

/-- The line of a node is never that of a value. -/
theorem nodeLine_ne_valueLine (hkey' : l'.key = []) (n : Node) (v : Value) :
    l.nodeLine n ≠ l'.valueLine v := by
  intro heq
  obtain ⟨b, more, hsuffix, hb, hspace⟩ := l.exists_suffix_cons (ascii ' ' :: utf8 n.render)
  rw [nodeLine_eq, valueLine_eq hkey', hsuffix] at heq
  exact hspace (slot_unique h h' hb (by decide) heq).2.1

end Words

end Label

end Lines

/-! ## Legible forests -/

namespace Forest

/-- Slots and types are words, keys stand on one line, and values have no key and are no
references. -/
def Legible : Forest Shape → Prop
  | nil => True
  | value label v rest =>
    Bytes.isWord (utf8 label.slot.name) = true ∧ label.key = [] ∧ (∀ id, v ≠ .child id) ∧
      rest.Legible
  | node label head below rest =>
    Bytes.isWord (utf8 label.slot.name) = true ∧ newline ∉ label.key ∧
      Bytes.isWord (utf8 head.type.name) = true ∧ below.Legible ∧ rest.Legible

section Legible

variable {f g : Forest Shape} {parent : NodeId} {base depth : Nat} {after after' : Bytes}

theorem Legible.plain (h : f.Legible) : f.Plain := by
  induction f with
  | nil => trivial
  | value label v rest ih => exact ⟨h.2.2.1, ih h.2.2.2⟩
  | node label head below rest ihb ihr => exact ⟨ihb h.2.2.2.1, ihr h.2.2.2.2⟩

theorem legible_append (hf : f.Legible) (hg : g.Legible) : (f ++ g).Legible := by
  induction f with
  | nil => exact hg
  | value label v rest ih => exact ⟨hf.1, hf.2.1, hf.2.2.1, ih hf.2.2.2⟩
  | node label head below rest _ ih =>
    exact ⟨hf.1, hf.2.1, hf.2.2.1, hf.2.2.2.1, ih hf.2.2.2.2⟩

/-- The number of spaces at the front. -/
def indentation (s : Bytes) : Nat := Bytes.spanLength (· == ascii ' ') s

theorem indentation_line {line : Bytes}
    (hline : ∃ b rest, line = b :: rest ∧ Bytes.isLetter b = true)
    (depth : Nat) (more : Bytes) : indentation (indent depth ++ (line ++ more)) = 2 * depth := by
  obtain ⟨b, rest, rfl, hb⟩ := hline
  have hspace : ¬ (b == ascii ' ') = true := by
    rw [beq_iff_eq]
    rintro rfl
    exact absurd hb (by decide)
  rw [indentation, Bytes.spanLength, indent, List.takeWhile_append_of_pos (by simp),
    List.cons_append, List.takeWhile_cons_of_neg (p := (· == ascii ' ')) hspace, List.append_nil,
    List.length_replicate]

theorem render_value (label : Label) (v : Value) (rest : Forest Node) (depth : Nat)
    (after : Bytes) :
    (value label v rest).render depth ++ after =
      indent depth ++ (label.valueLine v ++ newline :: (rest.render depth ++ after)) := by
  simp [render, Label.valueLine]

theorem render_node (label : Label) (head : Node) (below rest : Forest Node) (depth : Nat)
    (after : Bytes) : (node label head below rest).render depth ++ after =
      indent depth ++ (label.nodeLine head ++
        newline :: (below.render (depth + 1) ++ (rest.render depth ++ after))) := by
  simp [render, Label.nodeLine]

/-- A forest that is not empty starts with a line of its depth. -/
theorem indentation_render (hf : f.Legible) (hne : f ≠ nil) :
    indentation ((f.number parent base).render depth ++ after) = 2 * depth := by
  have hline : ∀ {slot more : Bytes}, Bytes.isWord slot = true →
      ∃ b rest, slot ++ more = b :: rest ∧ Bytes.isLetter b = true := by
    intro slot more hword
    obtain ⟨b, rest, rfl, hb⟩ := Bytes.exists_cons_of_word hword
    exact ⟨b, rest ++ more, rfl, hb⟩
  cases f with
  | nil => exact absurd rfl hne
  | value label v rest =>
    rw [number, render_value, Label.valueLine_eq hf.2.1]
    exact indentation_line (hline hf.1) _ _
  | node label head below rest =>
    rw [number, render_node, Label.nodeLine_eq]
    exact indentation_line (hline hf.1) _ _

/-- What stands behind a forest is not indented like an entry of it. -/
theorem indentation_render_lt (hf : f.Legible) (hafter : indentation after < 2 * depth) :
    indentation ((f.number parent base).render depth ++ after) < 2 * (depth + 1) := by
  cases f with
  | nil => exact Nat.lt_trans hafter (by omega)
  | value label v rest =>
    rw [indentation_render hf (by simp)]
    omega
  | node label head below rest =>
    rw [indentation_render hf (by simp)]
    omega

theorem render_append_ne (hf : f.Legible) (hne : f ≠ nil)
    (hafter' : indentation after' < 2 * depth) :
    (f.number parent base).render depth ++ after ≠ after' := by
  rintro rfl
  rw [indentation_render hf hne] at hafter'
  exact Nat.lt_irrefl _ hafter'

/-- A forest is read back from its lines, up to a line that is less indented. -/
theorem render_unique (hf : f.Legible) (hg : g.Legible) (hafter : indentation after < 2 * depth)
    (hafter' : indentation after' < 2 * depth)
    (h : (f.number parent base).render depth ++ after =
      (g.number parent base).render depth ++ after') : f = g ∧ after = after' := by
  -- by induction on the first forest; the entries of the second are known from the lines
  induction f generalizing g parent base depth after after' with
  | nil =>
    cases g with
    | nil => exact ⟨rfl, h⟩
    | value label v rest => exact absurd h.symm (render_append_ne hg (by simp) hafter)
    | node label head below rest => exact absurd h.symm (render_append_ne hg (by simp) hafter)
  | value label v rest ih =>
    obtain ⟨hslot, hkey, hv, hrest⟩ := hf
    have hline := Label.newline_not_mem_valueLine hslot hkey hv
    cases g with
    | nil => exact absurd h (render_append_ne ⟨hslot, hkey, hv, hrest⟩ (by simp) hafter')
    | value label' v' rest' =>
      obtain ⟨hslot', hkey', hv', hrest'⟩ := hg
      rw [number, number, render_value, render_value] at h
      obtain ⟨heq, hmore⟩ := cut_at_first hline
        (Label.newline_not_mem_valueLine hslot' hkey' hv') (List.append_cancel_left h)
      obtain ⟨rfl, rfl⟩ := Label.valueLine_inj hslot hslot' hkey hkey' hv hv' heq
      obtain ⟨rfl, rfl⟩ := ih hrest hrest' hafter hafter' hmore
      exact ⟨rfl, rfl⟩
    | node label' head' below' rest' =>
      obtain ⟨hslot', hkey', htype', -, -⟩ := hg
      rw [number, number, render_value, render_node] at h
      obtain ⟨heq, -⟩ := cut_at_first hline
        (Label.newline_not_mem_nodeLine hslot' hkey' htype') (List.append_cancel_left h)
      exact absurd heq.symm (Label.nodeLine_ne_valueLine hslot' hslot hkey _ v)
  | node label head below rest ihb ihr =>
    obtain ⟨hslot, hkey, htype, hbelow, hrest⟩ := hf
    cases g with
    | nil =>
      exact absurd h (render_append_ne ⟨hslot, hkey, htype, hbelow, hrest⟩ (by simp) hafter')
    | value label' v' rest' =>
      obtain ⟨hslot', hkey', hv', -⟩ := hg
      rw [number, number, render_value, render_node] at h
      obtain ⟨heq, -⟩ := cut_at_first (Label.newline_not_mem_nodeLine hslot hkey htype)
        (Label.newline_not_mem_valueLine hslot' hkey' hv') (List.append_cancel_left h)
      exact absurd heq (Label.nodeLine_ne_valueLine hslot hslot' hkey' _ v')
    | node label' head' below' rest' =>
      obtain ⟨hslot', hkey', htype', hbelow', hrest'⟩ := hg
      rw [number, number, render_node, render_node] at h
      obtain ⟨heq, hmore⟩ := cut_at_first (Label.newline_not_mem_nodeLine hslot hkey htype)
        (Label.newline_not_mem_nodeLine hslot' hkey' htype') (List.append_cancel_left h)
      obtain ⟨rfl, htypes, -, hspans⟩ := Label.nodeLine_inj hslot hslot' htype htype' heq
      obtain ⟨rfl, hmore⟩ := ihb hbelow hbelow' (indentation_render_lt hrest hafter)
        (indentation_render_lt hrest' hafter') hmore
      obtain ⟨rfl, rfl⟩ := ihr hrest hrest' hafter hafter' hmore
      obtain rfl : head = head' := Shape.mk.injEq .. ▸ ⟨htypes, hspans⟩
      exact ⟨rfl, rfl⟩

/-- The tree of a legible forest is read back from its dump. -/
theorem dump_toTree_inj {root root' : Shape} (hf : f.Legible) (hg : g.Legible)
    (hroot : Bytes.isWord (utf8 root.type.name) = true)
    (hroot' : Bytes.isWord (utf8 root'.type.name) = true) :
    (f.toTree root).dump = (g.toTree root').dump ↔ f.toTree root = g.toTree root' := by
  refine ⟨fun h => ?_, fun h => h ▸ rfl⟩
  rw [Tree.dump, Tree.dump, unfold_toTree hf.plain, unfold_toTree hg.plain] at h
  obtain ⟨hline, hmore⟩ := cut_at_first (Node.not_mem_render hroot (.inr rfl))
    (Node.not_mem_render hroot' (.inr rfl)) h
  obtain ⟨htype, -, hspan⟩ := Node.render_inj hroot hroot' hline
  obtain rfl : root = root' := Shape.mk.injEq .. ▸ ⟨htype, hspan⟩
  have hnone : indentation [] < 2 * 1 := by decide
  obtain ⟨rfl, -⟩ := render_unique hf hg hnone hnone (by rwa [List.append_nil, List.append_nil])
  rfl

end Legible

end Forest

end DocTokens
