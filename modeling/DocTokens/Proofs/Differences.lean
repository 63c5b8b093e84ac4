import DocTokens.Proofs.EditScripts
import DocTokens.Proofs.WrittenForms

/-! # Differences of tokens

A report on two values is empty exactly when their written forms are equal, as far as that is so of
the difference between two texts. Tokens are written one to a line, with numbers that end where
their digits do and with names that no two categories share. So their written form can be read back.
-/

namespace DocTokens

namespace Category

variable {c c' : Category}

/-- Legend names repeat, names do not. -/
theorem nodup_names : (registry.map Info.name).Nodup := by decide +kernel

theorem getElem?_names (h : c.valid = true) : (registry.map Info.name)[c.id]? = some c.name := by
  obtain ⟨info, hinfo⟩ : ∃ info, registry[c.id]? = some info := by
    refine ⟨_, List.getElem?_eq_getElem (i := c.id) ?_⟩
    exact of_decide_eq_true h
  rw [List.getElem?_map, name, info?, hinfo]
  rfl

theorem name_inj (h : c.valid = true) (h' : c'.valid = true) (heq : c.name = c'.name) : c = c' := by
  have hsame : (registry.map Info.name)[c.id]? = (registry.map Info.name)[c'.id]? := by
    rw [getElem?_names h, getElem?_names h', heq]
  have hlt : c.id < (registry.map Info.name).length :=
    (List.getElem?_eq_some_iff.mp (getElem?_names h)).1
  cases c
  cases c'
  exact congrArg mk ((List.getElem?_inj hlt nodup_names).mp hsame)

theorem newline_not_mem_name (h : c.valid = true) : newline ∉ utf8 c.name := by
  have hall : ∀ name ∈ registry.map Info.name, newline ∉ utf8 name := by decide +kernel
  exact hall c.name (List.mem_of_getElem? (getElem?_names h))

end Category

namespace Token

variable {t t' : Token}

theorem utf8_render (t : Token) : utf8 t.render =
    utf8 (toString t.line) ++ ascii ':' :: (utf8 (toString t.column) ++
      ascii '+' :: (utf8 (toString t.length) ++ ascii ' ' :: utf8 t.category.name)) := by
  unfold render
  simp only [utf8_append, List.append_assoc]
  rfl

/-- A token is read back from its line. -/
theorem render_inj (h : t.category.valid = true) (h' : t'.category.valid = true)
    (heq : utf8 t.render = utf8 t'.render) : t = t' := by
  rw [utf8_render, utf8_render] at heq
  obtain ⟨hline, -, heq⟩ := toString_unique (by decide) (by decide) heq
  obtain ⟨hcolumn, -, heq⟩ := toString_unique (by decide) (by decide) heq
  obtain ⟨hlength, -, heq⟩ := toString_unique (by decide) (by decide) heq
  have hcategory := Category.name_inj h h' (utf8_inj.mp heq)
  cases t
  cases t'
  simp_all

theorem newline_not_mem_render (h : t.category.valid = true) : newline ∉ utf8 t.render := by
  have hnumber := not_mem_toString (b := newline) (by decide)
  simp only [utf8_render, List.mem_append, List.mem_cons, not_or]
  exact ⟨hnumber _, by decide, hnumber _, by decide, hnumber _, by decide,
    Category.newline_not_mem_name h⟩

end Token

namespace Diff

section Tokens

variable {want got : List Token} (hw : ∀ t ∈ want, t.category.valid = true)
  (hg : ∀ t ∈ got, t.category.valid = true)
include hw hg

/-- One line after another is read back. -/
theorem tokenLines_inj (h : (want.flatMap fun t => utf8 t.render ++ [newline]) =
    got.flatMap fun t => utf8 t.render ++ [newline]) : want = got := by
  induction want generalizing got with
  | nil =>
    cases got with
    | nil => rfl
    | cons t got => simp at h
  | cons t want ih =>
    cases got with
    | nil => simp at h
    | cons t' got =>
      obtain ⟨ht, hwant⟩ := List.forall_mem_cons.mp hw
      obtain ⟨ht', hgot⟩ := List.forall_mem_cons.mp hg
      simp only [List.flatMap_cons, List.append_assoc, List.singleton_append] at h
      obtain ⟨hline, hrest⟩ := cut_at_first (Token.newline_not_mem_render ht)
        (Token.newline_not_mem_render ht') h
      rw [Token.render_inj ht ht' hline, ih hwant hgot hrest]

theorem renderTokens_inj (h : renderTokens want = renderTokens got) : want = got := by
  have hcount : ∀ n : Nat, utf8 s!"{n} tokens\n" =
      (utf8 (toString (n : Int)) ++ utf8 " tokens") ++ [newline] := by
    intro n
    simp only [utf8_append, List.append_assoc]
    rfl
  have hline : ∀ n : Nat, newline ∉ utf8 (toString (n : Int)) ++ utf8 " tokens" := by
    intro n
    simp only [List.mem_append, not_or]
    exact ⟨not_mem_toString (by decide) _, by decide⟩
  simp only [renderTokens, hcount, List.append_assoc, List.singleton_append] at h
  rw [← List.append_assoc, ← List.append_assoc] at h
  exact tokenLines_inj hw hg (cut_at_first (hline _) (hline _) h).2

end Tokens

/-- A report is empty exactly when the written forms are equal. -/
theorem report_eq_nil_iff {lineDiff : Bytes → Bytes → Bytes} {actual expected : Bytes}
    (h : lineDiff actual expected = [] ↔ actual = expected) :
    report lineDiff actual expected = [] ↔ actual = expected := by
  rw [← h]
  unfold report
  dsimp only
  split
  · rename_i hempty
    simpa using hempty
  · rename_i hdifference
    have hheader : utf8 "\n\nactual -> expected:\n\n" ≠ [] := by decide
    simp only [List.append_eq_nil_iff, hheader, false_and, false_iff]
    simpa using hdifference

/-- Where the difference of two texts is empty exactly when they are equal, so is the report on two
lists of tokens. -/
theorem tokens_eq_nil_iff (lineDiff : Bytes → Bytes → Bytes)
    (h : ∀ actual expected, lineDiff actual expected = [] ↔ actual = expected)
    (want got : List Token) (hw : ∀ t ∈ want, t.category.valid = true)
    (hg : ∀ t ∈ got, t.category.valid = true) : tokens lineDiff want got = [] ↔ want = got := by
  rw [tokens, report_eq_nil_iff (h _ _)]
  exact ⟨fun heq => (renderTokens_inj hg hw heq).symm, fun heq => heq ▸ rfl⟩

/-- Tokens of a non-breaking space and of a link target. -/
def spaceTokens : List Token := [⟨0, 0, 3, ⟨12⟩⟩, ⟨-1, 2, 5, ⟨16⟩⟩]

/-- Tokens at the same places, of a label and of a bullet. -/
def labelTokens : List Token := [⟨0, 0, 3, ⟨15⟩⟩, ⟨-1, 2, 5, ⟨22⟩⟩]

/-- The legend does not tell the two lists apart, the report does. -/
theorem tokens_eq_nil_iff_same_legends :
    spaceTokens.map (fun t => t.category.legend) = labelTokens.map (fun t => t.category.legend) ∧
    (tokens lines spaceTokens labelTokens = [] ↔ spaceTokens = labelTokens) ∧
    tokens lines spaceTokens labelTokens ≠ [] := by
  have hreport := tokens_eq_nil_iff lines lines_eq_nil_iff spaceTokens labelTokens
    (by decide) (by decide)
  exact ⟨by decide, hreport, fun hempty => absurd (hreport.mp hempty) (by decide)⟩

end Diff

end DocTokens
