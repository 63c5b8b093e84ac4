import DocTokens.Markdown.Inline
import DocTokens.Proofs.Markdown.DirectiveGrammar

/-! # The languages of the forms on one line

Formulas, underlined texts and the two backslash forms are each a small language. Their readers
accept the fronts of a line that belong to it; of the fronts that are commands, the longest.
-/

namespace DocTokens

namespace Bytes

theorem isLetter_iff {b : UInt8} : isLetter b = true ↔
    ascii 'A' ≤ b ∧ b ≤ ascii 'Z' ∨ ascii 'a' ≤ b ∧ b ≤ ascii 'z' := by
  simp [isLetter, isUpper, isLower]

/-- Only one way leads to the first occurrence of a byte. -/
theorem append_cons_inj {b : UInt8} {front back front' back' : Bytes} (h : b ∉ front)
    (h' : b ∉ front') (heq : front ++ b :: back = front' ++ b :: back') :
    front = front' ∧ back = back' := by
  have hidx : (front ++ b :: back).idxOf? b = some front.length := idxOf?_append h
  rw [heq, idxOf?_append h'] at hidx
  obtain ⟨rfl, htail⟩ := List.append_inj heq (Option.some.inj hidx).symm
  exact ⟨rfl, (List.cons.inj htail).2⟩

/-- A search for two bytes in a row answers what stands before the first place where they do. -/
theorem find?_pair_eq_some_iff {a b : UInt8} {s : Bytes} {n : Nat} :
    find? [a, b] s = some n ↔
      ∃ front back, s = front ++ a :: b :: back ∧ ¬ [a, b] <:+: front ++ [a] ∧
        n = front.length := by
  induction s generalizing n with
  | nil => simp [find?]
  | cons c s ih =>
    have hpair : ∀ {front back : Bytes}, s = front ++ a :: b :: back →
        ([a, b] <+: c :: s ↔ [a, b] <+: c :: (front ++ [a])) := by
      rintro front back rfl
      have hcut : c :: (front ++ [a]) <+: c :: (front ++ a :: b :: back) :=
        ⟨b :: back, by simp⟩
      exact ⟨fun h => List.prefix_of_prefix_length_le h hcut (by simp), fun h => h.trans hcut⟩
    rw [find?]
    by_cases hfirst : [a, b] <+: c :: s
    · rw [if_pos (List.isPrefixOf_iff_prefix.mpr hfirst)]
      constructor
      · rintro ⟨⟩
        obtain ⟨back, hback⟩ := hfirst
        refine ⟨[], back, hback.symm, fun h => ?_, rfl⟩
        simpa using h.length_le
      · rintro ⟨front, back, hs, hno, rfl⟩
        cases front with
        | nil => rfl
        | cons d front =>
          rw [List.cons_append, List.cons.injEq] at hs
          obtain ⟨rfl, hs⟩ := hs
          exact absurd ((hpair hs).mp hfirst).isInfix hno
    · rw [if_neg (mt List.isPrefixOf_iff_prefix.mp hfirst), Option.map_eq_some_iff]
      constructor
      · rintro ⟨m, hm, rfl⟩
        obtain ⟨front, back, hs, hno, rfl⟩ := ih.mp hm
        refine ⟨c :: front, back, congrArg (c :: ·) hs, fun h => ?_, rfl⟩
        rcases List.infix_cons_iff.mp h with h | h
        · exact hfirst ((hpair hs).mpr h)
        · exact hno h
      · rintro ⟨front, back, hs, hno, rfl⟩
        cases front with
        | nil => exact absurd ⟨back, hs.symm⟩ hfirst
        | cons d front =>
          rw [List.cons_append, List.cons.injEq] at hs
          obtain ⟨rfl, hs⟩ := hs
          refine ⟨front.length, ih.mpr ⟨front, back, hs, fun h => hno ?_, rfl⟩, rfl⟩
          exact List.infix_cons_iff.mpr (.inr h)

end Bytes

namespace Markdown.Inline

open Bytes

variable {line : Bytes} {n : Nat}

/-! ## Formulas -/

/-- What stands between the dollar signs of a formula. -/
structure IsFormula (inside : Bytes) : Prop where
  ne_nil : inside ≠ []
  no_dollar : ascii '$' ∉ inside
  head : inside.head? ≠ some (ascii ' ')
  last : inside.getLast? ≠ some (ascii ' ')

theorem formulaLength?_eq_some_iff : formulaLength? line = some n ↔
    ∃ inside rest, line.tail = inside ++ ascii '$' :: rest ∧ IsFormula inside ∧
      n = inside.length + 2 := by
  constructor
  · intro h
    unfold formulaLength? at h
    rcases idxOf?_cases (ascii '$') line.tail with ⟨-, hidx⟩ | ⟨inside, rest, hline, hno, hidx⟩
    · simp [hidx] at h
    · simp only [hline, idxOf?_append hno, List.take_left] at h
      split at h
      · cases h
      · rename_i hends
        simp only [Bool.or_eq_true, beq_iff_eq, not_or, List.head?_eq_none_iff] at hends
        obtain ⟨⟨hne, hhead⟩, hlast⟩ := hends
        exact ⟨inside, rest, hline, ⟨hne, hno, hhead, hlast⟩, (Option.some.inj h).symm⟩
  · rintro ⟨inside, rest, hline, ⟨hne, hno, hhead, hlast⟩, rfl⟩
    simp [formulaLength?, hline, idxOf?_append hno, hne, hhead, hlast]

/-! ## Underlined texts -/

/-- What stands between the pairs of plus signs of an underlined text. No further pair starts in
it. -/
structure IsUnderlined (inside : Bytes) : Prop where
  ne_nil : inside ≠ []
  no_pair : ¬ [ascii '+', ascii '+'] <:+: inside ++ [ascii '+']
  head_not_space : inside.head? ≠ some (ascii ' ')
  head_not_plus : inside.head? ≠ some (ascii '+')
  last : inside.getLast? ≠ some (ascii ' ')

theorem underlineLength?_eq_some_iff : underlineLength? line = some n ↔
    ∃ inside rest, line.tail = ascii '+' :: (inside ++ ascii '+' :: ascii '+' :: rest) ∧
      IsUnderlined inside ∧ n = inside.length + 4 := by
  cases htail : line.tail with
  | nil => simp [underlineLength?, htail]
  | cons b more =>
    by_cases hb : b = ascii '+'
    · subst hb
      constructor
      · intro h
        simp only [underlineLength?, htail, bne_self_eq_false, Bool.false_eq_true, if_false] at h
        split at h
        · cases h
        · rename_i m hm
          obtain ⟨inside, rest, rfl, hno, rfl⟩ := find?_pair_eq_some_iff.mp hm
          simp only [List.take_left] at h
          split at h
          · cases h
          · rename_i hends
            simp only [Bool.or_eq_true, beq_iff_eq, not_or, List.head?_eq_none_iff] at hends
            obtain ⟨⟨⟨hne, hspace⟩, hplus⟩, hlast⟩ := hends
            exact ⟨inside, rest, rfl, ⟨hne, hno, hspace, hplus, hlast⟩, (Option.some.inj h).symm⟩
      · rintro ⟨inside, rest, hmore, ⟨hne, hno, hspace, hplus, hlast⟩, rfl⟩
        obtain rfl := (List.cons.inj hmore).2
        have hfind := find?_pair_eq_some_iff.mpr ⟨inside, rest, rfl, hno, rfl⟩
        simp [underlineLength?, htail, hfind, hne, hspace, hplus, hlast]
    · simp [underlineLength?, htail, hb]

/-! ## Commands -/

/-- Groups in braces one after another, each up to its first closing brace. -/
inductive Groups : Bytes → Prop where
  | nil : Groups []
  | cons {inside rest : Bytes} : ascii '\x7d' ∉ inside → Groups rest →
      Groups (ascii '\x7b' :: (inside ++ ascii '\x7d' :: rest))

/-- A command is any first byte, letters, and groups right after them. -/
inductive IsCommand : Bytes → Prop where
  | mk (first : UInt8) {letters groups : Bytes} : letters ≠ [] →
      (∀ b ∈ letters, isLetter b = true) → Groups groups → IsCommand (first :: (letters ++ groups))

/-- The longest front of a line in a language. -/
structure LongestFront (P : Bytes → Prop) (line front : Bytes) : Prop where
  isFront : front <+: line
  holds : P front
  longest : ∀ other, other <+: line → P other → other.length ≤ front.length

theorem Groups.head?_eq_none_or {groups : Bytes} (h : Groups groups) :
    groups = [] ∨ ∃ more, groups = ascii '\x7b' :: more := by
  cases h with
  | nil => exact .inl rfl
  | cons _ _ => exact .inr ⟨_, rfl⟩

theorem exists_group (b : UInt8) (rest : Bytes) :
    (∃ inside more, b :: rest = ascii '\x7b' :: (inside ++ ascii '\x7d' :: more) ∧
        ascii '\x7d' ∉ inside ∧ ∀ fuel, BackslashForm.groupsLength (fuel + 1) (b :: rest) =
          inside.length + 2 + BackslashForm.groupsLength fuel more) ∨
      (b = ascii '\x7b' → ascii '\x7d' ∉ rest) ∧
        ∀ fuel, BackslashForm.groupsLength (fuel + 1) (b :: rest) = 0 := by
  by_cases hb : b = ascii '\x7b'
  · subst hb
    rcases idxOf?_cases (ascii '\x7d') rest with ⟨hno, hidx⟩ | ⟨inside, more, rfl, hno, hidx⟩
    · exact .inr ⟨fun _ => hno, fun fuel => by simp [BackslashForm.groupsLength, hidx]⟩
    · exact .inl ⟨inside, more, rfl, hno, fun fuel => by simp [BackslashForm.groupsLength, hidx]⟩
  · exact .inr ⟨fun h => absurd h hb, fun fuel => by simp [BackslashForm.groupsLength, hb]⟩

/-- The groups at the front of a text are read, and all of them. -/
theorem longestFront_groups (fuel : Nat) (s : Bytes) (hfuel : s.length ≤ fuel) :
    ∃ front, LongestFront Groups s front ∧ BackslashForm.groupsLength fuel s = front.length := by
  induction fuel generalizing s with
  | zero =>
    obtain rfl := List.length_eq_zero_iff.mp (Nat.le_zero.mp hfuel)
    exact ⟨[], ⟨List.prefix_rfl, .nil, fun _ h _ => h.length_le⟩, rfl⟩
  | succ fuel ih =>
    cases s with
    | nil => exact ⟨[], ⟨List.prefix_rfl, .nil, fun _ h _ => h.length_le⟩, rfl⟩
    | cons b rest =>
      rcases exists_group b rest with ⟨inside, more, hs, hno, hlength⟩ | ⟨hnone, hlength⟩
      · rw [hs] at hfuel ⊢
        simp only [List.length_cons, List.length_append] at hfuel
        obtain ⟨front, hfront, heq⟩ := ih more (by omega)
        refine ⟨ascii '\x7b' :: (inside ++ ascii '\x7d' :: front),
          ⟨?_, .cons hno hfront.holds, ?_⟩, ?_⟩
        · simpa using hfront.isFront
        · intro other hother hgroups
          cases hgroups with
          | nil => exact Nat.zero_le _
          | @cons inside' rest' hno' hrest' =>
            obtain ⟨tail, htail⟩ := hother
            rw [List.cons_append, List.append_assoc, List.cons_append] at htail
            obtain ⟨rfl, hmore⟩ := append_cons_inj hno' hno (List.cons.inj htail).2
            have hle := hfront.longest rest' ⟨tail, hmore⟩ hrest'
            simpa using hle
        · rw [← hs, hlength, heq]
          simp only [List.length_cons, List.length_append]
          omega
      · refine ⟨[], ⟨List.nil_prefix, .nil, ?_⟩, hlength fuel⟩
        intro other hother hgroups
        cases hgroups with
        | nil => exact Nat.le_refl _
        | cons _ _ =>
          obtain ⟨tail, htail⟩ := hother
          obtain ⟨hb, hrest⟩ := List.cons.inj htail
          exact absurd (hrest ▸ by simp) (hnone hb.symm)

/-- After all of its letters a command goes on with all of its groups. -/
theorem longestFront_command (first : UInt8) {letters after front : Bytes}
    (hne : letters ≠ []) (hletters : ∀ b ∈ letters, isLetter b = true)
    (hafter : ∀ b, after.head? = some b → isLetter b = false)
    (hfront : LongestFront Groups after front) :
    LongestFront IsCommand (first :: (letters ++ after)) (first :: (letters ++ front)) := by
  refine ⟨?_, .mk first hne hletters hfront.holds, ?_⟩
  · simpa using hfront.isFront
  · intro other hother hcommand
    obtain ⟨first', hne', hletters', hgroups⟩ := hcommand
    rename_i letters' groups
    obtain ⟨tail, htail⟩ := hother
    simp only [List.cons_append, List.append_assoc, List.cons.injEq] at htail
    simp only [List.length_cons, List.length_append, Nat.add_le_add_iff_right]
    rcases List.append_eq_append_iff.mp htail.2 with ⟨extra, rfl, hrest⟩ | ⟨extra, rfl, hrest⟩
    · -- the other command has no more letters, so groups can only follow the last one
      cases extra with
      | nil =>
        rw [List.append_nil]
        exact Nat.add_le_add_left (hfront.longest groups ⟨tail, by simpa using hrest⟩ hgroups) _
      | cons b extra =>
        rcases hgroups.head?_eq_none_or with rfl | ⟨more, rfl⟩
        · simp only [List.length_append, List.length_nil]
          omega
        · obtain ⟨rfl, -⟩ := List.cons.inj hrest
          exact absurd (hletters _ (List.mem_append_right _ List.mem_cons_self)) (by decide)
    · cases extra with
      | nil =>
        rw [List.append_nil]
        exact Nat.add_le_add_left
          (hfront.longest groups ⟨tail, by simpa using hrest.symm⟩ hgroups) _
      | cons b extra =>
        have hb := hletters' b (List.mem_append_right _ List.mem_cons_self)
        rw [hafter b (by rw [hrest]; rfl)] at hb
        cases hb

/-- A line whose second byte is a letter has a command, and its length is read. -/
theorem exists_command (first : UInt8) {b : UInt8} (more : Bytes) (hb : isLetter b = true) :
    ∃ front, LongestFront IsCommand (first :: b :: more) front ∧
      BackslashForm.read? (first :: b :: more) = some (.command front.length) := by
  have hletters : ∀ c ∈ b :: more.takeWhile isLetter, isLetter c = true := by
    rw [← List.takeWhile_cons_of_pos hb]
    exact fun c hc => List.mem_takeWhile_imp hc
  have hafter : ∀ c, (more.dropWhile isLetter).head? = some c → isLetter c = false := by
    intro c hc
    have hnot := List.head?_dropWhile_not isLetter more
    rwa [hc] at hnot
  obtain ⟨groups, hgroups, hlength⟩ :=
    longestFront_groups (more.dropWhile isLetter).length _ (Nat.le_refl _)
  refine ⟨first :: ((b :: more.takeWhile isLetter) ++ groups), ?_, ?_⟩
  · have hfront := longestFront_command first (List.cons_ne_nil _ _) hletters hafter hgroups
    rwa [List.cons_append (a := b), List.takeWhile_append_dropWhile] at hfront
  · have hspace : b ≠ ascii ' ' := by
      rintro rfl
      exact absurd hb (by decide)
    have hcomma : b ≠ ascii ',' := by
      rintro rfl
      exact absurd hb (by decide)
    simp only [BackslashForm.read?, List.tail_cons, hspace, hcomma, hb, if_true, if_false,
      Nat.add_sub_cancel_left, drop_spanLength, hlength]
    simp only [spanLength, List.length_cons, List.length_append, Option.some.injEq,
      BackslashForm.command.injEq]
    omega

/-- What a backslash form is at the front of a line. -/
theorem backslash?_eq_some_iff {form : BackslashForm} : BackslashForm.read? line = some form ↔
    ∃ b, (line)[1]? = some b ∧
      ((b = ascii ' ' ∨ b = ascii ',') ∧ form = .spacing (b == ascii ',') ∨
        isLetter b = true ∧ ∃ front, LongestFront IsCommand line front ∧
          form = .command front.length) := by
  match line with
  | [] => simp [BackslashForm.read?]
  | [first] => simp [BackslashForm.read?]
  | first :: b :: more =>
    simp only [List.getElem?_cons_succ, List.getElem?_cons_zero, Option.some.injEq, exists_eq_left']
    by_cases hspace : b = ascii ' '
    · subst hspace
      have hread : BackslashForm.read? (first :: ascii ' ' :: more) = some (.spacing false) := rfl
      have hletter : isLetter (ascii ' ') = false := by decide
      have hcomma : (ascii ' ' == ascii ',') = false := by decide
      simp [hread, hletter, hcomma, eq_comm]
    by_cases hcomma : b = ascii ','
    · subst hcomma
      have hread : BackslashForm.read? (first :: ascii ',' :: more) = some (.spacing true) := rfl
      have hletter : isLetter (ascii ',') = false := by decide
      simp [hread, hletter, eq_comm]
    cases hb : isLetter b with
    | false => simp [BackslashForm.read?, hspace, hcomma, hb]
    | true =>
      obtain ⟨front, hfront, hread⟩ := exists_command first more hb
      rw [hread]
      simp only [hspace, hcomma, or_self, false_and, false_or, true_and, Option.some.injEq]
      constructor
      · rintro rfl
        exact ⟨front, hfront, rfl⟩
      · rintro ⟨front', hfront', rfl⟩
        -- two longest fronts are equally long
        have hle := hfront.longest front' hfront'.isFront hfront'.holds
        have hge := hfront'.longest front hfront.isFront hfront.holds
        rw [Nat.le_antisymm hle hge]

theorem backslash?_eq_none_iff : BackslashForm.read? line = none ↔
    ∀ b, (line)[1]? = some b → b ≠ ascii ' ' ∧ b ≠ ascii ',' ∧ isLetter b = false := by
  rw [Option.eq_none_iff_forall_ne_some]
  constructor
  · intro h b hb
    refine ⟨?_, ?_, ?_⟩
    · rintro rfl
      exact h _ (backslash?_eq_some_iff.mpr ⟨_, hb, .inl ⟨.inl rfl, rfl⟩⟩)
    · rintro rfl
      exact h _ (backslash?_eq_some_iff.mpr ⟨_, hb, .inl ⟨.inr rfl, rfl⟩⟩)
    · by_contra hletter
      rw [Bool.not_eq_false] at hletter
      match line, hb with
      | first :: b' :: more, hb =>
        obtain rfl : b' = b := by simpa using hb
        obtain ⟨front, -, hread⟩ := exists_command first more hletter
        exact h _ hread
  · intro h form hform
    obtain ⟨b, hb, hcase⟩ := backslash?_eq_some_iff.mp hform
    obtain ⟨hspace, hcomma, hletter⟩ := h b hb
    rcases hcase with ⟨rfl | rfl, -⟩ | ⟨hcase, -⟩
    · exact hspace rfl
    · exact hcomma rfl
    · rw [hletter] at hcase
      cases hcase

/-! ## Reading in a text -/

/-- The bytes of a form are two or more at the front of the line, and the last is no line feed. -/
def FitsOn (line : Bytes) (length : Nat) : Prop :=
  ∃ front, front <+: line ∧ front.length = length ∧ 2 ≤ length ∧ front.getLast? ≠ some newline

theorem fitsOn_of_tail (middle : Bytes) {rest : Bytes} {last : UInt8}
    (h : line.tail = middle ++ last :: rest) (hlast : last ≠ newline) :
    FitsOn line (middle.length + 2) := by
  cases line with
  | nil => simp at h
  | cons first tail =>
    rw [List.tail_cons] at h
    subst h
    refine ⟨(first :: middle) ++ [last], ⟨rest, by simp⟩, by simp, by omega, ?_⟩
    rw [List.getLast?_concat]
    exact fun heq => hlast (Option.some.inj heq)

theorem Groups.getLast? {groups : Bytes} (h : Groups groups) (hne : groups ≠ []) :
    groups.getLast? = some (ascii '\x7d') := by
  induction h with
  | nil => exact absurd rfl hne
  | @cons inside rest _ _ ih =>
    rw [List.getLast?_cons, List.getLast?_append, List.getLast?_cons]
    cases rest with
    | nil => rfl
    | cons b rest => rw [ih (List.cons_ne_nil b rest)]; rfl

theorem IsCommand.getLast?_ne {front : Bytes} (h : IsCommand front) :
    front.getLast? ≠ some newline := by
  obtain ⟨first, hne, hletters, hgroups⟩ := h
  rename_i letters groups
  rw [List.getLast?_cons, List.getLast?_append]
  by_cases hnil : groups = []
  · subst hnil
    rw [List.getLast?_eq_some_getLast hne]
    intro heq
    have hletter := hletters _ (List.getLast_mem hne)
    simp only [List.getLast?_nil, Option.none_or, Option.getD_some, Option.some.injEq] at heq
    rw [heq] at hletter
    exact absurd hletter (by decide)
  · rw [hgroups.getLast? hnil, Option.some_or, Option.getD_some]
    decide

theorem IsCommand.two_le {front : Bytes} (h : IsCommand front) : 2 ≤ front.length := by
  obtain ⟨first, hne, -, -⟩ := h
  have := List.length_pos_iff.mpr hne
  simp only [List.length_cons, List.length_append]
  omega

namespace Form

variable {f : Form} {read? : Bytes → Option Form} {text : Bytes} {o next : Nat} {k : Kind}

theorem formula?_eq_some_iff : formula? line = some f ↔
    ∃ inside rest, line.tail = inside ++ ascii '$' :: rest ∧ IsFormula inside ∧
      f = ⟨inside.length + 2, .formula⟩ := by
  simp only [formula?, Option.map_eq_some_iff, formulaLength?_eq_some_iff]
  constructor
  · rintro ⟨n, ⟨inside, rest, hline, hinside, rfl⟩, rfl⟩
    exact ⟨inside, rest, hline, hinside, rfl⟩
  · rintro ⟨inside, rest, hline, hinside, rfl⟩
    exact ⟨_, ⟨inside, rest, hline, hinside, rfl⟩, rfl⟩

theorem underline?_eq_some_iff : underline? line = some f ↔
    ∃ inside rest, line.tail = ascii '+' :: (inside ++ ascii '+' :: ascii '+' :: rest) ∧
      IsUnderlined inside ∧ f = ⟨inside.length + 4, .underline⟩ := by
  simp only [underline?, Option.map_eq_some_iff, underlineLength?_eq_some_iff]
  constructor
  · rintro ⟨n, ⟨inside, rest, hline, hinside, rfl⟩, rfl⟩
    exact ⟨inside, rest, hline, hinside, rfl⟩
  · rintro ⟨inside, rest, hline, hinside, rfl⟩
    exact ⟨_, ⟨inside, rest, hline, hinside, rfl⟩, rfl⟩

theorem backslash?_eq_some_iff : backslash? line = some f ↔
    (∃ b, (line)[1]? = some b ∧ (b = ascii ' ' ∨ b = ascii ',') ∧
        f = ⟨2, (.spacing · (b == ascii ','))⟩) ∨
      ∃ b, (line)[1]? = some b ∧ isLetter b = true ∧ ∃ front, LongestFront IsCommand line front ∧
        f = ⟨front.length, .latex⟩ := by
  simp only [backslash?, Option.map_eq_some_iff, Inline.backslash?_eq_some_iff]
  constructor
  · rintro ⟨form, ⟨b, hb, ⟨hspacing, rfl⟩ | ⟨hletter, front, hfront, rfl⟩⟩, rfl⟩
    · exact .inl ⟨b, hb, hspacing, rfl⟩
    · exact .inr ⟨b, hb, hletter, front, hfront, rfl⟩
  · rintro (⟨b, hb, hspacing, rfl⟩ | ⟨b, hb, hletter, front, hfront, rfl⟩)
    · exact ⟨_, ⟨b, hb, .inl ⟨hspacing, rfl⟩⟩, rfl⟩
    · exact ⟨_, ⟨b, hb, .inr ⟨hletter, front, hfront, rfl⟩⟩, rfl⟩

theorem fitsOn_formula (h : formula? line = some f) : FitsOn line f.length := by
  obtain ⟨inside, rest, hline, -, rfl⟩ := formula?_eq_some_iff.mp h
  exact fitsOn_of_tail _ hline (by decide)

theorem fitsOn_underline (h : underline? line = some f) : FitsOn line f.length := by
  obtain ⟨inside, rest, hline, -, rfl⟩ := underline?_eq_some_iff.mp h
  have hmiddle : line.tail = (ascii '+' :: (inside ++ [ascii '+'])) ++ ascii '+' :: rest := by
    simp [hline]
  simpa using fitsOn_of_tail _ hmiddle (by decide)

theorem fitsOn_backslash (h : backslash? line = some f) : FitsOn line f.length := by
  rcases backslash?_eq_some_iff.mp h with ⟨b, hb, hspacing, rfl⟩ | ⟨b, -, -, front, hfront, rfl⟩
  · match line, hb with
    | first :: b' :: rest, hb =>
      obtain rfl : b' = b := by simpa using hb
      refine fitsOn_of_tail [] rfl ?_
      rcases hspacing with rfl | rfl <;> decide
  · exact ⟨front, hfront.isFront, rfl, hfront.holds.two_le, hfront.holds.getLast?_ne⟩

theorem readAt_eq_some_iff : readAt read? text o = (some k, next) ↔
    ∃ f, read? (text.restOfLine o) = some f ∧ next = o + f.length ∧ k = f.kind ⟨o, next⟩ := by
  cases hread : read? (text.restOfLine o) with
  | none => simp [readAt, hread]
  | some f =>
    simp only [readAt, hread, Prod.mk.injEq, Option.some.injEq, exists_eq_left', kindAt]
    constructor
    · rintro ⟨rfl, rfl⟩
      exact ⟨rfl, rfl⟩
    · rintro ⟨rfl, rfl⟩
      exact ⟨rfl, rfl⟩

theorem readAt_eq_none_iff : (readAt read? text o).1 = none ↔ read? (text.restOfLine o) = none := by
  cases hread : read? (text.restOfLine o) <;> simp [readAt, hread]

/-- Where nothing is read, reading goes on where it was. -/
theorem readAt_of_none (h : (readAt read? text o).1 = none) : readAt read? text o = (none, o) := by
  rw [readAt, readAt_eq_none_iff.mp h]

/-- What is read stands on one line. -/
theorem bounds_readAt (hfits : ∀ line f, read? line = some f → FitsOn line f.length)
    (h : readAt read? text o = (some k, next)) :
    o + 2 ≤ next ∧ next ≤ text.length ∧ newline ∉ text.extract o next := by
  obtain ⟨f, hread, rfl, -⟩ := readAt_eq_some_iff.mp h
  obtain ⟨front, hfront, hlength, htwo, hlast⟩ := hfits _ f hread
  have hstands : Stands text o front := hfront.trans (stands_restOfLine text o)
  have hle := hstands.length_le
  rw [List.length_drop] at hle
  refine ⟨by omega, by omega, ?_⟩
  rw [← hlength, hstands.extract_eq]
  exact newline_not_mem_of_prefix hfront hlast

/-- Formulas, underlined texts and backslash forms are read where the rest of a line begins with a
text of their language, and reading goes on right after it; nowhere else is anything read. -/
theorem readAt_languages :
    (∀ b, isLetter b = true ↔
      ascii 'A' ≤ b ∧ b ≤ ascii 'Z' ∨ ascii 'a' ≤ b ∧ b ≤ ascii 'z') ∧
    ∀ (text : Bytes) (o : Nat),
      (∀ k next, readAt formula? text o = (some k, next) ↔
        ∃ inside rest, (text.restOfLine o).tail = inside ++ ascii '$' :: rest ∧ IsFormula inside ∧
          next = o + (2 + inside.length) ∧ k = .formula ⟨o, next⟩) ∧
      (∀ k next, readAt underline? text o = (some k, next) ↔
        ∃ inside rest, (text.restOfLine o).tail =
            ascii '+' :: (inside ++ ascii '+' :: ascii '+' :: rest) ∧ IsUnderlined inside ∧
          next = o + (4 + inside.length) ∧ k = .underline ⟨o, next⟩) ∧
      (∀ k next, readAt backslash? text o = (some k, next) ↔
        (∃ b, (text.restOfLine o)[1]? = some b ∧ (b = ascii ' ' ∨ b = ascii ',') ∧
          next = o + 2 ∧ k = .spacing ⟨o, next⟩ (b == ascii ',')) ∨
        ∃ b, (text.restOfLine o)[1]? = some b ∧ isLetter b = true ∧
          ∃ front, LongestFront IsCommand (text.restOfLine o) front ∧
            next = o + front.length ∧ k = .latex ⟨o, next⟩) ∧
      ((readAt backslash? text o).1 = none ↔ ∀ b, (text.restOfLine o)[1]? = some b →
        b ≠ ascii ' ' ∧ b ≠ ascii ',' ∧ isLetter b = false) ∧
      ∀ read? ∈ [formula?, underline?, backslash?],
        ((readAt read? text o).1 = none → readAt read? text o = (none, o)) ∧
        ∀ k next, readAt read? text o = (some k, next) →
          o + 2 ≤ next ∧ next ≤ text.length ∧ newline ∉ text.extract o next := by
  refine ⟨fun b => isLetter_iff, fun text o => ⟨?formula, ?underline, ?backslash, ?none, ?bounds⟩⟩
  case formula =>
    intro k next
    simp only [readAt_eq_some_iff, formula?_eq_some_iff]
    constructor
    · rintro ⟨f, ⟨inside, rest, hline, hinside, rfl⟩, rfl, rfl⟩
      exact ⟨inside, rest, hline, hinside, by simp only [Nat.add_comm 2], rfl⟩
    · rintro ⟨inside, rest, hline, hinside, rfl, rfl⟩
      exact ⟨_, ⟨inside, rest, hline, hinside, rfl⟩, by simp only [Nat.add_comm 2], rfl⟩
  case underline =>
    intro k next
    simp only [readAt_eq_some_iff, underline?_eq_some_iff]
    constructor
    · rintro ⟨f, ⟨inside, rest, hline, hinside, rfl⟩, rfl, rfl⟩
      exact ⟨inside, rest, hline, hinside, by simp only [Nat.add_comm 4], rfl⟩
    · rintro ⟨inside, rest, hline, hinside, rfl, rfl⟩
      exact ⟨_, ⟨inside, rest, hline, hinside, rfl⟩, by simp only [Nat.add_comm 4], rfl⟩
  case backslash =>
    intro k next
    simp only [readAt_eq_some_iff, backslash?_eq_some_iff]
    constructor
    · rintro ⟨f, ⟨b, hb, hspacing, rfl⟩ | ⟨b, hb, hletter, front, hfront, rfl⟩, rfl, rfl⟩
      · exact .inl ⟨b, hb, hspacing, rfl, rfl⟩
      · exact .inr ⟨b, hb, hletter, front, hfront, rfl, rfl⟩
    · rintro (⟨b, hb, hspacing, rfl, rfl⟩ | ⟨b, hb, hletter, front, hfront, rfl, rfl⟩)
      · exact ⟨_, .inl ⟨b, hb, hspacing, rfl⟩, rfl, rfl⟩
      · exact ⟨_, .inr ⟨b, hb, hletter, front, hfront, rfl⟩, rfl, rfl⟩
  case none =>
    rw [readAt_eq_none_iff, backslash?, Option.map_eq_none_iff, Inline.backslash?_eq_none_iff]
  case bounds =>
    intro read? hmem
    have hfits : ∀ line f, read? line = some f → FitsOn line f.length := by
      simp only [List.mem_cons, List.not_mem_nil, or_false] at hmem
      rcases hmem with rfl | rfl | rfl
      · exact fun line f h => fitsOn_formula h
      · exact fun line f h => fitsOn_underline h
      · exact fun line f h => fitsOn_backslash h
    exact ⟨readAt_of_none, fun k next h => bounds_readAt hfits h⟩

end Form

-- the second group is not closed on its line, so the command ends with the first
example : Form.readAt Form.backslash? (utf8 "a \\x\x7b1\x7d\x7b2\n\x7d") 2 =
    (some (.latex ⟨2, 7⟩), 7) := by
  decide

end Markdown.Inline

end DocTokens
