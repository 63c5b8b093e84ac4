import DocTokens.Text.Quoted
import Mathlib

/-! # Written forms

Numbers and byte texts are written so that they can be read back. A number ends where its digits do.
A byte text is read as runes without loss, and each rune is quoted in a way that shows where it
ends, so that a quoted text has one reading, also where the bytes are not UTF-8.
-/

namespace DocTokens

/-! ## Cuts -/

section Cuts

variable {α : Type} {p : α → Prop} {front front' back back' : List α}

/-- A text is cut in one way where the elements of a class end. -/
theorem cut_unique (h : ∀ a ∈ front, p a) (h' : ∀ a ∈ front', p a) (hb : ∀ a ∈ back.head?, ¬ p a)
    (hb' : ∀ a ∈ back'.head?, ¬ p a) (heq : front ++ back = front' ++ back') :
    front = front' ∧ back = back' := by
  induction front generalizing front' with
  | nil =>
    cases front' with
    | nil => exact ⟨rfl, heq⟩
    | cons a front' =>
      rw [List.nil_append] at heq
      exact absurd (h' a List.mem_cons_self) (hb a (by rw [heq]; rfl))
  | cons a front ih =>
    cases front' with
    | nil =>
      rw [List.nil_append] at heq
      exact absurd (h a List.mem_cons_self) (hb' a (by rw [← heq]; rfl))
    | cons a' front' =>
      obtain ⟨rfl, htail⟩ := List.cons.inj heq
      obtain ⟨rfl, rfl⟩ := ih (fun c hc => h c (List.mem_cons_of_mem _ hc))
        (fun c hc => h' c (List.mem_cons_of_mem _ hc)) htail
      exact ⟨rfl, rfl⟩

/-- A text is cut in one way at the first place of an element. -/
theorem cut_at_first {a : α} (h : a ∉ front) (h' : a ∉ front')
    (heq : front ++ a :: back = front' ++ a :: back') : front = front' ∧ back = back' := by
  obtain ⟨rfl, hback⟩ := cut_unique (p := (· ≠ a)) (fun c hc hca => h (hca ▸ hc))
    (fun c hc hca => h' (hca ▸ hc)) (by simp) (by simp) heq
  exact ⟨rfl, (List.cons.inj hback).2⟩

/-- A text is cut in one way at the last place of an element. -/
theorem cut_at_last {a : α} (h : a ∉ back) (h' : a ∉ back')
    (heq : front ++ a :: back = front' ++ a :: back') : front = front' ∧ back = back' := by
  have hreverse := congrArg List.reverse heq
  simp only [List.reverse_append, List.reverse_cons, List.append_assoc, List.singleton_append]
    at hreverse
  obtain ⟨hback, hfront⟩ := cut_at_first (by simpa using h) (by simpa using h') hreverse
  exact ⟨List.reverse_inj.mp hfront, List.reverse_inj.mp hback⟩

end Cuts

/-! ## Texts -/

section Texts

variable {s t : String} {c : Char} {b : UInt8}

theorem utf8_append (s t : String) : utf8 (s ++ t) = utf8 s ++ utf8 t := by
  simp [utf8, String.toByteArray_append]

theorem utf8_inj : utf8 s = utf8 t ↔ s = t := by
  refine ⟨fun h => String.toByteArray_inj.mp (ByteArray.ext (Array.toList_inj.mp h)),
    fun h => h ▸ rfl⟩

theorem utf8_eq_flatMap (s : String) : utf8 s = s.toList.flatMap String.utf8EncodeChar := by
  rw [utf8, String.toUTF8_eq_toByteArray, ← String.utf8Encode_toList, List.utf8Encode,
    List.toList_data_toByteArray]

theorem utf8EncodeChar_of_lt (h : c.toNat < 128) : String.utf8EncodeChar c = [ascii c] := by
  have hle : c.val.toNat ≤ 127 := Nat.le_of_lt_succ h
  rw [String.utf8EncodeChar, if_pos hle]
  rfl

/-- Only a character of ASCII has a byte of ASCII. -/
theorem lt_of_mem_utf8EncodeChar (hb : b < 128) (h : b ∈ String.utf8EncodeChar c) :
    c.toNat < 128 := by
  have hlt : b.toNat < 128 := UInt8.lt_iff_toNat_lt.mp hb
  rw [String.utf8EncodeChar] at h
  split at h
  · rename_i hle
    exact Nat.lt_succ_of_le hle
  · exfalso
    split at h
    · simp only [List.mem_cons, List.not_mem_nil, or_false] at h
      rcases h with rfl | rfl <;> simp at hlt <;> omega
    · split at h
      · simp only [List.mem_cons, List.not_mem_nil, or_false] at h
        rcases h with rfl | rfl | rfl <;> simp at hlt <;> omega
      · simp only [List.mem_cons, List.not_mem_nil, or_false] at h
        rcases h with rfl | rfl | rfl | rfl <;> simp at hlt <;> omega

theorem toNat_ascii (h : c.toNat < 128) : (ascii c).toNat = c.toNat :=
  Nat.mod_eq_of_lt (Nat.lt_trans h (by decide))

/-- A byte of ASCII in a text is a character of it. -/
theorem mem_toList_of_mem_utf8 (hc : c.toNat < 128) (h : ascii c ∈ utf8 s) : c ∈ s.toList := by
  rw [utf8_eq_flatMap, List.mem_flatMap] at h
  obtain ⟨d, hd, hmem⟩ := h
  have hlt : ascii c < 128 := UInt8.lt_iff_toNat_lt.mpr (by rwa [toNat_ascii hc])
  have hd' := lt_of_mem_utf8EncodeChar hlt hmem
  rw [utf8EncodeChar_of_lt hd', List.mem_singleton, ← UInt8.toNat_inj, toNat_ascii hc,
    toNat_ascii hd'] at hmem
  rwa [Char.toNat_inj.mp hmem]

end Texts

/-! ## Numbers -/

/-- Digits and the sign of a negative number. -/
def Bytes.isNumeral (b : UInt8) : Bool := isDigit b || b == ascii '-'

section Numbers

theorem isNumeral_of_mem_repr {n : Nat} {b : UInt8} (h : b ∈ utf8 n.repr) :
    Bytes.isNumeral b = true := by
  rw [utf8_eq_flatMap, Nat.repr_eq_ofList_toDigits, String.toList_ofList, List.mem_flatMap] at h
  obtain ⟨c, hc, hmem⟩ := h
  have hdigit := Nat.isDigit_of_mem_toDigits (by decide) (by decide) hc
  simp only [Char.isDigit, Bool.and_eq_true, decide_eq_true_eq, ge_iff_le,
    UInt32.le_iff_toNat_le] at hdigit
  obtain ⟨hlo, hhi⟩ : 48 ≤ c.toNat ∧ c.toNat ≤ 57 := hdigit
  rw [utf8EncodeChar_of_lt (by omega), List.mem_singleton] at hmem
  subst hmem
  have hdigit : Bytes.isDigit (ascii c) = true := by
    simp only [Bytes.isDigit, Bool.and_eq_true, decide_eq_true_eq, UInt8.le_iff_toNat_le,
      toNat_ascii (Nat.lt_of_le_of_lt hhi (by decide))]
    exact ⟨hlo, hhi⟩
  rw [Bytes.isNumeral, hdigit, Bool.true_or]

/-- The bytes of a written number. -/
theorem isNumeral_of_mem_toString {i : Int} {b : UInt8} (h : b ∈ utf8 (toString i)) :
    Bytes.isNumeral b = true := by
  cases i with
  | ofNat n => exact isNumeral_of_mem_repr h
  | negSucc n =>
    have hwritten : toString (Int.negSucc n) = "-" ++ (n + 1).repr := rfl
    rw [hwritten, utf8_append, List.mem_append] at h
    rcases h with hsign | h
    · obtain rfl : b = ascii '-' := List.mem_singleton.mp hsign
      decide
    · exact isNumeral_of_mem_repr h

theorem not_mem_toString {b : UInt8} (hb : Bytes.isNumeral b = false) (i : Int) :
    b ∉ utf8 (toString i) := by
  intro h
  rw [isNumeral_of_mem_toString h] at hb
  cases hb

/-- A number is read back up to a byte that belongs to no number. -/
theorem toString_unique {i j : Int} {b b' : UInt8} {rest rest' : Bytes}
    (hb : Bytes.isNumeral b = false) (hb' : Bytes.isNumeral b' = false)
    (h : utf8 (toString i) ++ b :: rest = utf8 (toString j) ++ b' :: rest') :
    i = j ∧ b = b' ∧ rest = rest' := by
  obtain ⟨hwritten, htail⟩ := cut_unique (p := (Bytes.isNumeral · = true))
    (fun _ => isNumeral_of_mem_toString) (fun _ => isNumeral_of_mem_toString)
    (by simpa using hb) (by simpa using hb') h
  obtain ⟨rfl, rfl⟩ := List.cons.inj htail
  exact ⟨Int.repr_inj.mp (utf8_inj.mp hwritten), rfl, rfl⟩

end Numbers

/-! ## Runes -/

namespace Utf8

section First

variable {b b₁ b₂ b₃ : UInt8}

theorem payload_spec (h : isContinuation b = true) :
    b.toNat = 128 + payload b ∧ payload b < 64 := by
  simp only [isContinuation, Bool.and_eq_true, decide_eq_true_eq, UInt8.le_iff_toNat_le,
    UInt8.reduceToNat] at h
  unfold payload
  omega

theorem encode_one (h : b.toNat < 128) :
    String.utf8EncodeChar (Char.ofNat b.toNat) = [b] := by
  have hval : (Char.ofNat b.toNat).toNat = b.toNat := by
    refine (Char.toNat_ofNat _).trans (if_pos (.inl ?_))
    omega
  rw [utf8EncodeChar_of_lt (by omega), ascii, List.singleton_inj, ← UInt8.toNat_inj]
  exact (congrArg (· % 256) hval).trans (Nat.mod_eq_of_lt (by omega))

theorem encode_two (h : 0xC2 ≤ b) (h' : b ≤ 0xDF) (h₁ : isContinuation b₁ = true) :
    String.utf8EncodeChar (Char.ofNat (b.toNat % 32 * 64 + payload b₁)) = [b, b₁] := by
  obtain ⟨hb₁, hpayload⟩ := payload_spec h₁
  simp only [UInt8.le_iff_toNat_le, UInt8.reduceToNat] at h h'
  have hval : (Char.ofNat (b.toNat % 32 * 64 + payload b₁)).val.toNat =
      b.toNat % 32 * 64 + payload b₁ := by
    refine (Char.toNat_ofNat _).trans (if_pos (.inl ?_))
    omega
  rw [String.utf8EncodeChar, hval, if_neg (by omega), if_pos (by omega)]
  simp only [List.cons.injEq, ← UInt8.toNat_inj, UInt8.toNat_ofNat', and_true]
  omega

/-- The narrow ranges of second bytes, as numbers. -/
theorem second_spec (hlo : (secondRange b).1 ≤ b₁) (hhi : b₁ ≤ (secondRange b).2) :
    isContinuation b₁ = true ∧ (b.toNat = 0xE0 → 0xA0 ≤ b₁.toNat) ∧
      (b.toNat = 0xED → b₁.toNat ≤ 0x9F) ∧ (b.toNat = 0xF0 → 0x90 ≤ b₁.toNat) ∧
      (b.toNat = 0xF4 → b₁.toNat ≤ 0x8F) := by
  simp only [isContinuation, Bool.and_eq_true, decide_eq_true_eq]
  unfold secondRange at hlo hhi
  split_ifs at hlo hhi
  all_goals
    simp only [← UInt8.toNat_inj, UInt8.le_iff_toNat_le, UInt8.reduceToNat] at *
    omega

theorem encode_three (h : 0xE0 ≤ b) (h' : b ≤ 0xEF) (hlo : (secondRange b).1 ≤ b₁)
    (hhi : b₁ ≤ (secondRange b).2) (h₂ : isContinuation b₂ = true) :
    String.utf8EncodeChar (Char.ofNat ((b.toNat % 16 * 64 + payload b₁) * 64 + payload b₂)) =
      [b, b₁, b₂] := by
  obtain ⟨h₁, hoverlong, hsurrogate, -⟩ := second_spec hlo hhi
  obtain ⟨hb₁, hpayload₁⟩ := payload_spec h₁
  obtain ⟨hb₂, hpayload₂⟩ := payload_spec h₂
  simp only [UInt8.le_iff_toNat_le, UInt8.reduceToNat] at h h'
  have hval : (Char.ofNat ((b.toNat % 16 * 64 + payload b₁) * 64 + payload b₂)).val.toNat =
      (b.toNat % 16 * 64 + payload b₁) * 64 + payload b₂ := by
    refine (Char.toNat_ofNat _).trans (if_pos ?_)
    unfold Nat.isValidChar
    omega
  rw [String.utf8EncodeChar, hval, if_neg (by omega), if_neg (by omega), if_pos (by omega)]
  simp only [List.cons.injEq, ← UInt8.toNat_inj, UInt8.toNat_ofNat', and_true]
  omega

theorem encode_four (h : 0xF0 ≤ b) (h' : b ≤ 0xF4) (hlo : (secondRange b).1 ≤ b₁)
    (hhi : b₁ ≤ (secondRange b).2) (h₂ : isContinuation b₂ = true) (h₃ : isContinuation b₃ = true) :
    String.utf8EncodeChar (Char.ofNat
      (((b.toNat % 8 * 64 + payload b₁) * 64 + payload b₂) * 64 + payload b₃)) =
      [b, b₁, b₂, b₃] := by
  obtain ⟨h₁, -, -, hoverlong, hlast⟩ := second_spec hlo hhi
  obtain ⟨hb₁, hpayload₁⟩ := payload_spec h₁
  obtain ⟨hb₂, hpayload₂⟩ := payload_spec h₂
  obtain ⟨hb₃, hpayload₃⟩ := payload_spec h₃
  simp only [UInt8.le_iff_toNat_le, UInt8.reduceToNat] at h h'
  have hval : (Char.ofNat
      (((b.toNat % 8 * 64 + payload b₁) * 64 + payload b₂) * 64 + payload b₃)).val.toNat =
      ((b.toNat % 8 * 64 + payload b₁) * 64 + payload b₂) * 64 + payload b₃ := by
    refine (Char.toNat_ofNat _).trans (if_pos ?_)
    unfold Nat.isValidChar
    omega
  rw [String.utf8EncodeChar, hval, if_neg (by omega), if_neg (by omega), if_neg (by omega)]
  simp only [List.cons.injEq, ← UInt8.toNat_inj, UInt8.toNat_ofNat', and_true]
  omega

/-- The bytes of the first rune stand at the front, and there is one at least. A byte of ASCII is
always a character. -/
theorem first_spec (b : UInt8) (rest : Bytes) :
    (first b rest).1.bytes = (b :: rest).take (first b rest).2 ∧ 0 < (first b rest).2 ∧
      ∀ x, (first b rest).1 = .invalid x → 128 ≤ x := by
  unfold first
  split
  · rename_i hascii
    have hlt : b.toNat < 128 := UInt8.lt_iff_toNat_lt.mp hascii
    refine ⟨?_, Nat.one_pos, by rintro x ⟨⟩⟩
    exact encode_one hlt
  · rename_i hascii
    have hinvalid : (Rune.invalid b).bytes = (b :: rest).take 1 ∧ 0 < 1 ∧
        ∀ x, Rune.invalid b = .invalid x → 128 ≤ x :=
      ⟨rfl, Nat.one_pos, by rintro x ⟨⟩; exact UInt8.not_lt.mp hascii⟩
    -- a longer reading is taken where each further byte is in its range
    dsimp only
    cases rest with
    | nil => exact hinvalid
    | cons b₁ rest =>
      dsimp only
      split
      · rename_i h
        simp only [Bool.and_eq_true, decide_eq_true_eq] at h
        exact ⟨encode_two h.1.1 h.1.2 h.2, Nat.succ_pos _, by rintro x ⟨⟩⟩
      · cases rest with
        | nil => exact hinvalid
        | cons b₂ rest =>
          dsimp only
          split
          · rename_i h
            simp only [Bool.and_eq_true, decide_eq_true_eq] at h
            obtain ⟨⟨⟨⟨hlo, hhi⟩, hlo₁⟩, hhi₁⟩, h₂⟩ := h
            exact ⟨encode_three hlo hhi hlo₁ hhi₁ h₂, Nat.succ_pos _, by rintro x ⟨⟩⟩
          · cases rest with
            | nil => exact hinvalid
            | cons b₃ rest =>
              dsimp only
              split
              · rename_i h
                simp only [Bool.and_eq_true, decide_eq_true_eq] at h
                obtain ⟨⟨⟨⟨⟨hlo, hhi⟩, hlo₁⟩, hhi₁⟩, h₂⟩, h₃⟩ := h
                exact ⟨encode_four hlo hhi hlo₁ hhi₁ h₂ h₃, Nat.succ_pos _, by rintro x ⟨⟩⟩
              · exact hinvalid

end First

theorem flatMap_bytes_runesFrom (skip : Nat) (s : Bytes) :
    (runesFrom skip s).flatMap Rune.bytes = s.drop skip := by
  induction s generalizing skip with
  | nil => cases skip <;> rfl
  | cons b rest ih =>
    cases skip with
    | succ skip => exact ih skip
    | zero =>
      obtain ⟨hbytes, hpos, -⟩ := first_spec b rest
      obtain ⟨width, hwidth⟩ := Nat.exists_eq_add_of_lt hpos
      rw [Nat.zero_add] at hwidth
      rw [runesFrom]
      simp only [List.flatMap_cons, hbytes, ih, hwidth, Nat.add_sub_cancel]
      exact List.take_append_drop (width + 1) (b :: rest)

/-- Nothing is lost by reading runes. -/
theorem flatMap_bytes_runes (s : Bytes) : (runes s).flatMap Rune.bytes = s :=
  flatMap_bytes_runesFrom 0 s

theorem le_of_invalid_mem_runes {s : Bytes} {x : UInt8} (h : .invalid x ∈ runes s) : 128 ≤ x := by
  have hfrom : ∀ (s : Bytes) (skip : Nat), .invalid x ∈ runesFrom skip s → 128 ≤ x := by
    intro s
    induction s with
    | nil =>
      intro skip h
      cases skip <;> cases h
    | cons b rest ih =>
      intro skip h
      cases skip with
      | succ skip => exact ih skip h
      | zero =>
        rw [runesFrom] at h
        rcases List.mem_cons.mp h with hfirst | h
        · exact (first_spec b rest).2.2 x hfirst.symm
        · exact ih _ h
  exact hfrom s 0 h

end Utf8

/-! ## Quoted texts -/

namespace Quoted

section Hex

variable {width n : Nat}

def digitValue (c : Char) : Nat := if c.toNat < 58 then c.toNat - 48 else c.toNat - 87

/-- The number that is written in base sixteen. -/
def hexValue (digits : List Char) : Nat := digits.foldl (fun n c => 16 * n + digitValue c) 0

theorem digitValue_digitChar {d : Nat} (h : d < 16) : digitValue d.digitChar = d := by
  revert d
  decide

theorem hexValue_toDigits (n : Nat) : hexValue (Nat.toDigits 16 n) = n := by
  induction n using Nat.strongRecOn with
  | ind n ih =>
    rcases Nat.lt_or_ge n 16 with h | h
    · rw [Nat.toDigits_of_lt_base h]
      simp [hexValue, digitValue_digitChar h]
    · have hdigit := digitValue_digitChar (Nat.mod_lt n (by decide : 0 < 16))
      have hfront := ih (n / 16) (Nat.div_lt_self (by omega) (by decide))
      unfold hexValue at hfront ⊢
      rw [Nat.toDigits_of_base_le (by decide) h, List.foldl_append, hfront, List.foldl_cons,
        List.foldl_nil, hdigit, Nat.div_add_mod]

theorem toList_hex (width n : Nat) : (hex width n).toList =
    List.replicate (width - (Nat.toDigits 16 n).length) '0' ++ Nat.toDigits 16 n := by
  have hzeros : ∀ k, ("".pushn '0' k).toList = List.replicate k '0' := by
    intro k
    induction k with
    | zero => rfl
    | succ k ih =>
      rw [String.pushn_eq_repeat_push] at ih ⊢
      rw [Nat.repeat, String.toList_push, ih, List.replicate_succ']
  rw [hex]
  simp only [String.toList_append, hzeros, String.toList_ofList, String.length_ofList]

theorem hexValue_hex (width n : Nat) : hexValue (hex width n).toList = n := by
  have hzeros : ∀ k, (List.replicate k '0').foldl (fun n c => 16 * n + digitValue c) 0 = 0 := by
    intro k
    induction k with
    | zero => rfl
    | succ k ih => exact ih
  have hvalue := hexValue_toDigits n
  unfold hexValue at hvalue ⊢
  rw [toList_hex, List.foldl_append, hzeros, hvalue]

theorem length_hex (hw : 0 < width) (h : n < 16 ^ width) : (hex width n).toList.length = width := by
  have hle := (Nat.length_toDigits_le_iff (by decide) hw).mpr h
  rw [toList_hex, List.length_append, List.length_replicate]
  omega

end Hex

/-- The character that a letter after a backslash stands for. -/
def unescape : Char → Char
  | 'a' => Char.ofNat 7
  | 'b' => Char.ofNat 8
  | 'f' => Char.ofNat 12
  | 'n' => Char.ofNat 10
  | 'r' => Char.ofNat 13
  | 't' => Char.ofNat 9
  | 'v' => Char.ofNat 11
  | c => c

/-- The rune that is written after a backslash, and the text behind it. -/
def readEscape : List Char → Option (Rune × List Char)
  | [] => none
  | 'x' :: rest =>
    let n := hexValue (rest.take 2)
    some (if n < 128 then .char (Char.ofNat n) else .invalid (UInt8.ofNat n), rest.drop 2)
  | 'u' :: rest => some (.char (Char.ofNat (hexValue (rest.take 4))), rest.drop 4)
  | 'U' :: rest => some (.char (Char.ofNat (hexValue (rest.take 8))), rest.drop 8)
  | c :: rest => some (.char (unescape c), rest)

/-- The rune at the front of a quoted text, and the text behind it. -/
def readRune : List Char → Option (Rune × List Char)
  | [] => none
  | c :: rest => if c = '\\' then readEscape rest else some (.char c, rest)

section Runes

variable {rest : List Char}

/-- A number of a fixed width is read back, and so is the text behind it. -/
theorem read_hex {width n : Nat} (hw : 0 < width) (h : n < 16 ^ width) (rest : List Char) :
    hexValue (((hex width n).toList ++ rest).take width) = n ∧
      ((hex width n).toList ++ rest).drop width = rest := by
  have hlength := length_hex hw h
  rw [List.take_left' hlength, List.drop_left' hlength, hexValue_hex]
  exact ⟨rfl, rfl⟩

theorem readRune_shortEscape {c : Char} {s : String} (h : shortEscape? c = some s) :
    readRune (s.toList ++ rest) = some (.char c, rest) := by
  have hc : ∀ n, c.toNat = n → c = Char.ofNat n := by
    rintro n rfl
    exact (Char.ofNat_toNat c).symm
  unfold shortEscape? at h
  split at h
  all_goals cases h
  all_goals
    rename_i heq
    rw [hc _ heq]
    rfl

theorem readRune_encodeChar (c : Char) :
    readRune ((encodeChar c).toList ++ rest) = some (.char c, rest) := by
  have hnat : Char.ofNat c.toNat = c := Char.ofNat_toNat c
  have hlt : c.toNat < 0x110000 := by
    rcases c.valid with h | h
    · exact Nat.lt_trans h (by decide)
    · exact h.2
  unfold encodeChar
  split
  · rename_i hquote
    subst hquote
    rfl
  split
  · rename_i hbackslash
    subst hbackslash
    rfl
  rename_i hbackslash
  split
  · have hself : c.toString.toList = [c] := by simp
    rw [hself, List.singleton_append, readRune, if_neg hbackslash]
  split
  · rename_i s hs
    exact readRune_shortEscape hs
  dsimp only
  -- what is left is written as a number, of the width that its size calls for
  split
  · rename_i hn
    obtain ⟨hvalue, hrest⟩ := read_hex (by decide : 0 < 2) (Nat.lt_trans hn (by decide)) rest
    rw [String.toList_append]
    change readEscape ('x' :: ((hex 2 c.toNat).toList ++ rest)) = _
    simp only [readEscape, hvalue, hrest, if_pos hn, hnat]
  split
  · rename_i hn
    obtain ⟨hvalue, hrest⟩ := read_hex (by decide : 0 < 4) hn rest
    rw [String.toList_append]
    change readEscape ('u' :: ((hex 4 c.toNat).toList ++ rest)) = _
    rw [readEscape, hvalue, hrest, hnat]
  · obtain ⟨hvalue, hrest⟩ := read_hex (by decide : 0 < 8) (Nat.lt_trans hlt (by decide)) rest
    rw [String.toList_append]
    change readEscape ('U' :: ((hex 8 c.toNat).toList ++ rest)) = _
    rw [readEscape, hvalue, hrest, hnat]

/-- A rune that may be read from a text is read back from its quoted form. -/
theorem readRune_encodeRune {r : Rune} (h : ∀ x, r = .invalid x → 128 ≤ x) :
    readRune ((encodeRune r).toList ++ rest) = some (r, rest) := by
  cases r with
  | char c => exact readRune_encodeChar c
  | invalid x =>
    obtain ⟨hvalue, hrest⟩ := read_hex (by decide : 0 < 2) x.toNat_lt rest
    have hge : ¬ x.toNat < 128 := Nat.not_lt.mpr (UInt8.le_iff_toNat_le.mp (h x rfl))
    rw [encodeRune, String.toList_append]
    change readEscape ('x' :: ((hex 2 x.toNat).toList ++ rest)) = _
    simp only [readEscape, hvalue, hrest, if_neg hge, UInt8.ofNat_toNat]

theorem flatMap_encodeRune_inj {rs rs' : List Rune} (h : ∀ x, .invalid x ∈ rs → 128 ≤ x)
    (h' : ∀ x, .invalid x ∈ rs' → 128 ≤ x)
    (heq : (rs.flatMap fun r => (encodeRune r).toList) =
      rs'.flatMap fun r => (encodeRune r).toList) :
    rs = rs' := by
  induction rs generalizing rs' with
  | nil =>
    cases rs' with
    | nil => rfl
    | cons r' rs' =>
      have hread := congrArg readRune heq
      rw [List.flatMap_cons,
        readRune_encodeRune fun x hx => h' x (hx ▸ List.mem_cons_self)] at hread
      cases hread
  | cons r rs ih =>
    have hr : ∀ x, r = .invalid x → 128 ≤ x := fun x hx => h x (hx ▸ List.mem_cons_self)
    have hread := congrArg readRune heq
    rw [List.flatMap_cons, readRune_encodeRune hr] at hread
    cases rs' with
    | nil => cases hread
    | cons r' rs' =>
      rw [List.flatMap_cons, readRune_encodeRune fun x hx => h' x (hx ▸ List.mem_cons_self),
        Option.some_inj, Prod.mk.injEq] at hread
      rw [hread.1, ih (fun x hx => h x (List.mem_cons_of_mem _ hx))
        (fun x hx => h' x (List.mem_cons_of_mem _ hx)) hread.2]

end Runes

section Texts

variable {s s' : Bytes}

theorem toList_encode (s : Bytes) : (encode s).toList =
    '"' :: ((Utf8.runes s).flatMap fun r => (encodeRune r).toList) ++ ['"'] := by
  have hfold : ∀ (rs : List Rune) (front : String),
      (rs.foldl (fun acc r => acc ++ encodeRune r) front).toList =
        front.toList ++ rs.flatMap fun r => (encodeRune r).toList := by
    intro rs
    induction rs with
    | nil => simp
    | cons r rs ih =>
      intro front
      rw [List.foldl_cons, ih, String.toList_append, List.flatMap_cons, List.append_assoc]
  rw [encode, String.toList_append, String.toList_append, hfold]
  rfl

/-- A byte text is known from its quoted form. -/
theorem encode_inj : encode s = encode s' ↔ s = s' := by
  refine ⟨fun h => ?_, fun h => h ▸ rfl⟩
  have hlist := congrArg String.toList h
  rw [toList_encode, toList_encode] at hlist
  have hrunes := flatMap_encodeRune_inj (fun _ => Utf8.le_of_invalid_mem_runes)
    (fun _ => Utf8.le_of_invalid_mem_runes)
    (List.append_cancel_right (List.cons.inj hlist).2)
  rw [← Utf8.flatMap_bytes_runes s, hrunes, Utf8.flatMap_bytes_runes]

theorem not_mem_toDigits (n : Nat) : '\n' ∉ Nat.toDigits 16 n := by
  have hdigit : ∀ d < 16, '\n' ∉ [Nat.digitChar d] := by decide
  induction n using Nat.strongRecOn with
  | ind n ih =>
    rcases Nat.lt_or_ge n 16 with h | h
    · rw [Nat.toDigits_of_lt_base h]
      exact hdigit n h
    · rw [Nat.toDigits_of_base_le (by decide) h, List.mem_append, not_or]
      exact ⟨ih (n / 16) (Nat.div_lt_self (by omega) (by decide)),
        hdigit _ (Nat.mod_lt n (by decide))⟩

theorem not_mem_hex (width n : Nat) : '\n' ∉ (hex width n).toList := by
  rw [toList_hex, List.mem_append, not_or]
  refine ⟨fun h => ?_, not_mem_toDigits n⟩
  cases List.eq_of_mem_replicate h

theorem not_mem_encodeRune (r : Rune) : '\n' ∉ (encodeRune r).toList := by
  have hescape : ∀ width n, ∀ front ∈ ["\\x", "\\u", "\\U"],
      '\n' ∉ (front ++ hex width n).toList := by
    intro width n front hfront
    rw [String.toList_append, List.mem_append, not_or]
    refine ⟨?_, not_mem_hex width n⟩
    revert front
    decide
  cases r with
  | invalid x => exact hescape 2 x.toNat _ (by simp)
  | char c =>
    rw [encodeRune, encodeChar]
    split
    · decide
    split
    · decide
    split
    · rename_i hprint
      have hself : c.toString.toList = [c] := by simp
      rw [hself, List.mem_singleton]
      rintro rfl
      exact absurd hprint (by decide)
    split
    · rename_i s hs
      unfold shortEscape? at hs
      split at hs
      all_goals cases hs
      all_goals decide
    dsimp only
    split
    · exact hescape 2 c.toNat _ (by simp)
    split
    · exact hescape 4 c.toNat _ (by simp)
    · exact hescape 8 c.toNat _ (by simp)

/-- A quoted text stands on one line. -/
theorem newline_not_mem_encode (s : Bytes) : newline ∉ utf8 (encode s) := by
  intro h
  have hmem := mem_toList_of_mem_utf8 (c := '\n') (by decide) h
  rw [toList_encode] at hmem
  simp [not_mem_encodeRune] at hmem

end Texts

end Quoted

end DocTokens
