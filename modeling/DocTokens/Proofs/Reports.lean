import DocTokens.Proofs.WrittenForms
import DocTokens.Report
import Mathlib.Data.List.Forall2

/-! # What a report says

A report tells every result in order. As text it has one block of lines for each: the name of the
document, its tokens and its diagnostics. As JSON it is one array with one value for each, whose
fields hold the same. The grammar of JSON is stated apart from how values are laid out here.
-/

namespace DocTokens

/-! ## The grammar of JSON -/

namespace JsonValue

/-- Blanks may stand around every value. -/
def IsBlank (text : List Char) : Prop := ∀ c ∈ text, c = ' ' ∨ c = '\n' ∨ c = '\t' ∨ c = '\r'

/-- The letters that may follow a backslash, and the characters they stand for. -/
def letters : List (Char × Char) :=
  [('"', '"'), ('\\', '\\'), ('/', '/'), ('b', Char.ofNat 8), ('f', Char.ofNat 12), ('n', '\n'),
    ('r', '\r'), ('t', '\t')]

/-- The ways to write a character of a string. -/
inductive Spells : List Char → Char → Prop where
  | itself {c : Char} : 0x20 ≤ c.toNat → c ≠ '"' → c ≠ '\\' → Spells [c] c
  | letter {l c : Char} : (l, c) ∈ letters → Spells ['\\', l] c
  | number {digits : List Char} {c : Char} : digits.length = 4 →
      (∀ d ∈ digits, ∃ n, n < 16 ∧ d = n.digitChar) → Quoted.hexValue digits = c.toNat →
      Spells ('\\' :: 'u' :: digits) c

/-- A sequence divided by commas. -/
inductive Listed {α : Type} (P : List Char → α → Prop) : List Char → List α → Prop where
  | nil {text : List Char} : IsBlank text → Listed P text []
  | one {text : List Char} {a : α} : P text a → Listed P text [a]
  | cons {text rest : List Char} {a b : α} {more : List α} : P text a → Listed P rest (b :: more) →
      Listed P (text ++ ',' :: rest) (a :: b :: more)

mutual

/-- The text is a value written as JSON. Bytes that belong to no character are replaced. -/
inductive Written : List Char → JsonValue → Prop where
  | padded {before text after : List Char} {v : JsonValue} : IsBlank before → IsBlank after →
      Written text v → Written (before ++ text ++ after) v
  | integer (n : Int) : Written (toString n).toList (integer n)
  | string {pieces : List (List Char)} {s : Bytes} :
      List.Forall₂ Spells pieces ((Utf8.runes s).map Rune.toChar) →
      Written ('"' :: pieces.flatten ++ ['"']) (string s)
  | array {text : List Char} {items : List JsonValue} : Listed Written text items →
      Written ('[' :: text ++ [']']) (array items)
  | object {text : List Char} {fields : List (String × JsonValue)} :
      Listed WrittenField text fields → Written ('\x7b' :: text ++ ['\x7d']) (object fields)

/-- The text is a field of an object. -/
inductive WrittenField : List Char → String × JsonValue → Prop where
  | mk {key text : List Char} {name : String} {v : JsonValue} : Written key (ofText name) →
      Written text v → WrittenField (key ++ ':' :: text) (name, v)

end

/-! ## Strings -/

theorem exists_digitChar {n : Nat} {d : Char} (h : d ∈ Nat.toDigits 16 n) :
    ∃ k, k < 16 ∧ d = k.digitChar := by
  induction n using Nat.strongRecOn with
  | ind n ih =>
    rcases Nat.lt_or_ge n 16 with hlt | hge
    · rw [Nat.toDigits_of_lt_base hlt, List.mem_singleton] at h
      exact ⟨n, hlt, h⟩
    · rw [Nat.toDigits_of_base_le (by decide) hge, List.mem_append, List.mem_singleton] at h
      rcases h with h | rfl
      · exact ih (n / 16) (Nat.div_lt_self (by omega) (by decide)) h
      · exact ⟨n % 16, Nat.mod_lt n (by decide), rfl⟩

theorem spells_hex {c : Char} (h : c.toNat < 16 ^ 4) :
    Spells ("\\u" ++ Quoted.hex 4 c.toNat).toList c := by
  have htext : ("\\u" ++ Quoted.hex 4 c.toNat).toList =
      '\\' :: 'u' :: (Quoted.hex 4 c.toNat).toList := String.toList_append
  rw [htext]
  refine .number (Quoted.length_hex (by decide) h) ?_ (Quoted.hexValue_hex 4 c.toNat)
  intro d hd
  rw [Quoted.toList_hex, List.mem_append] at hd
  rcases hd with hd | hd
  · exact ⟨0, by decide, List.eq_of_mem_replicate hd⟩
  · exact exists_digitChar hd

theorem spells_shortEscape {c : Char} {s : String} (h : shortEscape? c = some s) :
    Spells s.toList c := by
  have hc : ∀ n, c.toNat = n → c = Char.ofNat n := by
    rintro n rfl
    exact (Char.ofNat_toNat c).symm
  unfold shortEscape? at h
  split at h
  all_goals cases h
  all_goals
    rename_i hn
    rw [hc _ hn]
    exact .letter (by decide)

theorem ne_of_shortEscape {c : Char} (h : shortEscape? c = none) : c ≠ '"' ∧ c ≠ '\\' := by
  constructor
  · rintro rfl
    cases h
  · rintro rfl
    cases h

theorem spells_escapeChar (c : Char) : Spells (escapeChar c).toList c := by
  unfold escapeChar
  split
  · rename_i s hs
    exact spells_shortEscape hs
  · rename_i hnone
    dsimp only
    split
    · rename_i hnumber
      refine spells_hex ?_
      rcases hnumber with h | rfl | rfl | rfl | h | h
      · omega
      · decide
      · decide
      · decide
      · omega
      · omega
    · rename_i hself
      rw [Char.toString_eq_singleton, String.toList_singleton]
      exact .itself (Nat.le_of_not_lt fun h => hself (.inl h)) (ne_of_shortEscape hnone).1
        (ne_of_shortEscape hnone).2

theorem spells_escapeRune (r : Rune) : Spells (escapeRune r).toList r.toChar := by
  cases r with
  | char c => exact spells_escapeChar c
  | invalid b => exact spells_hex (c := Rune.replacement) (by decide)

theorem written_writeString (s : Bytes) : Written (writeString s).toList (string s) := by
  have hpieces : List.Forall₂ Spells ((Utf8.runes s).map fun r => (escapeRune r).toList)
      ((Utf8.runes s).map Rune.toChar) := by
    rw [List.forall₂_map_left_iff, List.forall₂_map_right_iff, List.forall₂_same]
    exact fun r _ => spells_escapeRune r
  have htext : (writeString s).toList =
      '"' :: ((Utf8.runes s).map fun r => (escapeRune r).toList).flatten ++ ['"'] := by
    simp [writeString, String.toList_append, String.toList_join, List.flatMap_def,
      Function.comp_def]
  rw [htext]
  exact .string hpieces

/-! ## Values over several lines -/

theorem IsBlank.append {a b : List Char} (ha : IsBlank a) (hb : IsBlank b) : IsBlank (a ++ b) :=
  List.forall_mem_append.mpr ⟨ha, hb⟩

theorem WrittenField.padded {before text after : List Char} {f : String × JsonValue}
    (hb : IsBlank before) (ha : IsBlank after) (h : WrittenField text f) :
    WrittenField (before ++ text ++ after) f := by
  obtain ⟨hkey, hvalue⟩ := h
  have hnil : IsBlank [] := by simp [IsBlank]
  have hfield := WrittenField.mk (.padded hb hnil hkey) (.padded hnil ha hvalue)
  simpa using hfield

/-- Lines of their own for the items of a sequence, with the commas at the ends of lines. -/
def itemLines (margin : List Char) (texts : List (List Char)) : List Char :=
  '\n' :: ([',', '\n'].intercalate (texts.map (margin ++ [' ', ' '] ++ ·)) ++ '\n' :: margin)

theorem toList_block (opening closing margin : String) (items : List String) :
    (block opening closing margin items).toList = opening.toList ++
      (if items = [] then [] else itemLines margin.toList (items.map String.toList)) ++
        closing.toList := by
  unfold block
  by_cases hnil : items = []
  · simp [hnil]
  · have hempty : ¬ items.isEmpty = true := by simpa using hnil
    have hcomma : ",\n".toList = [',', '\n'] := rfl
    have hindent : "  ".toList = [' ', ' '] := rfl
    have hnewline : "\n".toList = ['\n'] := rfl
    rw [if_neg hempty, if_neg hnil]
    simp only [itemLines, String.toList_append, String.toList_intercalate, List.map_map,
      Function.comp_def, hcomma, hindent, hnewline, List.append_assoc, List.nil_append,
      List.cons_append]

theorem listed_itemLines {α : Type} {P : List Char → α → Prop}
    (hpad : ∀ {before text after a}, IsBlank before → IsBlank after → P text a →
      P (before ++ text ++ after) a)
    {margin : List Char} (hm : IsBlank margin) {texts : List (List Char)} {as : List α}
    (h : List.Forall₂ P texts as) (hne : texts ≠ []) : Listed P (itemLines margin texts) as := by
  have hbefore : IsBlank ('\n' :: (margin ++ [' ', ' '])) :=
    IsBlank.append (a := ['\n']) (by simp [IsBlank]) (hm.append (by simp [IsBlank]))
  have hafter : IsBlank ('\n' :: margin) :=
    IsBlank.append (a := ['\n']) (by simp [IsBlank]) hm
  have hnil : IsBlank [] := by simp [IsBlank]
  induction h with
  | nil => exact absurd rfl hne
  | @cons text a texts as hhead htail ih =>
    cases htail with
    | nil =>
      have hone := Listed.one (hpad hbefore hafter hhead)
      simpa [itemLines] using hone
    | @cons text' b texts as hnext htail =>
      have hcons := Listed.cons (hpad hbefore hnil hhead) (ih (List.cons_ne_nil _ _))
      simpa [itemLines] using hcons

theorem listed_block {α : Type} {P : List Char → α → Prop}
    (hpad : ∀ {before text after a}, IsBlank before → IsBlank after → P text a →
      P (before ++ text ++ after) a)
    {margin : List Char} (hm : IsBlank margin) {texts : List String} {as : List α}
    (h : List.Forall₂ P (texts.map String.toList) as) :
    Listed P (if texts = [] then [] else itemLines margin (texts.map String.toList)) as := by
  split
  · rename_i hnil
    subst hnil
    cases h
    exact .nil (by simp [IsBlank])
  · rename_i hne
    exact listed_itemLines hpad hm h (by simpa using hne)

theorem isBlank_indent {margin : String} (hm : IsBlank margin.toList) :
    IsBlank (margin ++ "  ").toList := by
  rw [String.toList_append]
  exact hm.append (by simp [IsBlank])

mutual

/-- Values laid out over several lines are JSON. -/
theorem written_indented {margin : String} (hm : IsBlank margin.toList) :
    ∀ v, Written (indented margin v).toList v
  | .integer n => by
    rw [indented]
    exact .integer n
  | .string s => by
    rw [indented]
    exact written_writeString s
  | .array items => by
    rw [indented, toList_block]
    exact .array (listed_block .padded hm (written_indentedItems (isBlank_indent hm) items))
  | .object fields => by
    rw [indented, toList_block]
    exact .object (listed_block .padded hm (written_indentedFields (isBlank_indent hm) fields))

theorem written_indentedItems {margin : String} (hm : IsBlank margin.toList) :
    ∀ items, List.Forall₂ Written ((indentedItems margin items).map String.toList) items
  | [] => by
    rw [indentedItems]
    exact .nil
  | v :: rest => by
    rw [indentedItems]
    exact .cons (written_indented hm v) (written_indentedItems hm rest)

theorem written_indentedFields {margin : String} (hm : IsBlank margin.toList) :
    ∀ fields, List.Forall₂ WrittenField ((indentedFields margin fields).map String.toList) fields
  | [] => by
    rw [indentedFields]
    exact .nil
  | (name, v) :: rest => by
    have hvalue : Written ([' '] ++ (indented margin v).toList ++ []) v :=
      .padded (by simp [IsBlank]) (by simp [IsBlank]) (written_indented hm v)
    have hfield := WrittenField.mk (written_writeString (utf8 name)) hvalue
    rw [indentedFields]
    refine .cons ?_ (written_indentedFields hm rest)
    simpa [String.toList_append] using hfield

end

end JsonValue

namespace Report

variable {colored : Bool}

/-! ## Text -/

/-- A text as it is shown: alone, or between two sequences for the terminal where colors are on. -/
def Shows (colored : Bool) (text shown : String) : Prop :=
  if colored then ∃ codes codes' : List Nat,
    shown = "\x1b[" ++ ";".intercalate (codes.map toString) ++ "m" ++ text ++
      ("\x1b[" ++ ";".intercalate (codes'.map toString) ++ "m")
  else shown = text

/-- The line of a token: its place and the legend name of its category. -/
def TokenLine (colored : Bool) (t : Token) (line : Bytes) : Prop :=
  ∃ place legend,
    Shows colored (toString t.line ++ ":" ++ toString t.column ++ "+" ++ toString t.length) place ∧
    Shows colored t.category.legend legend ∧ line = utf8 ("  " ++ place ++ " " ++ legend)

/-- The line of a diagnostic: its severity, its span and its message. -/
def DiagnosticLine (colored : Bool) (d : Diagnostic) (line : Bytes) : Prop :=
  ∃ severity place, Shows colored d.severity.name severity ∧
    Shows colored ("[" ++ toString d.span.start ++ "," ++ toString d.span.stop ++ ")") place ∧
    line = utf8 ("  " ++ severity ++ " " ++ place ++ " ") ++ d.message

/-- The lines of a result: the name of the document, a line for each token, and a line for each
diagnostic, with the errors before the warnings and these before all others. -/
structure Block (colored : Bool) (r : DocumentTokens) (name : Bytes)
    (tokens diagnostics : List Bytes) : Prop where
  name : ∃ shown, Shows colored r.file shown ∧ name = utf8 shown
  tokens : List.Forall₂ (TokenLine colored) r.tokens tokens
  diagnostics : List.Forall₂ (DiagnosticLine colored)
    (r.diagnostics.filter (·.severity = .error) ++ r.diagnostics.filter (·.severity = .warning) ++
      r.diagnostics.filter fun d => d.severity ≠ .error ∧ d.severity ≠ .warning) diagnostics

/-- The text is the block of a result, every line ended by a line feed. -/
def IsBlock (colored : Bool) (r : DocumentTokens) (text : Bytes) : Prop :=
  ∃ name tokens diagnostics, Block colored r name tokens diagnostics ∧
    text = (name :: tokens ++ diagnostics).flatMap (· ++ [newline])

theorem shows_paint (style : Style) (colored : Bool) (text : String) :
    Shows colored text (style.paint colored text) := by
  unfold Shows Style.paint
  split
  · exact ⟨_, _, rfl⟩
  · rfl

theorem exists_tokenLine (colored : Bool) (t : Token) :
    ∃ line, TokenLine colored t line ∧ tokenLine colored t = line ++ [newline] := by
  refine ⟨_, ⟨_, _, shows_paint [.faint] colored _, shows_paint [.cyan] colored _, rfl⟩, ?_⟩
  have hend : [newline] = utf8 "\n" := by decide
  rw [hend, ← utf8_append]
  rfl

theorem exists_diagnosticLine (colored : Bool) (d : Diagnostic) :
    ∃ line, DiagnosticLine colored d line ∧ diagnosticLine colored d = line ++ [newline] := by
  refine ⟨_, ⟨_, _, shows_paint (severityStyle d.severity) colored _,
    shows_paint [.faint] colored _, rfl⟩, ?_⟩
  rfl

/-- Lines that are made one by one. -/
theorem exists_lines {α : Type} {P : α → Bytes → Prop} {f : α → Bytes}
    (h : ∀ a, ∃ line, P a line ∧ f a = line ++ [newline]) (as : List α) :
    ∃ lines, List.Forall₂ P as lines ∧ as.flatMap f = lines.flatMap (· ++ [newline]) := by
  induction as with
  | nil => exact ⟨[], .nil, rfl⟩
  | cons a as ih =>
    obtain ⟨line, hline, hf⟩ := h a
    obtain ⟨lines, hlines, hrest⟩ := ih
    exact ⟨line :: lines, .cons hline hlines, by rw [List.flatMap_cons, hf, hrest]; rfl⟩

theorem isBlock_documentText (colored : Bool) (r : DocumentTokens) :
    IsBlock colored r (documentText colored r) := by
  obtain ⟨tokens, htokens, htext⟩ := exists_lines (exists_tokenLine colored) r.tokens
  obtain ⟨diagnostics, hdiagnostics, htext'⟩ := exists_lines (exists_diagnosticLine colored)
    (DiagnosticGroups.ofList r.diagnostics).toList
  refine ⟨_, tokens, diagnostics, ⟨⟨_, shows_paint [.bold] colored r.file, rfl⟩, htokens, ?_⟩, ?_⟩
  · simpa only [DiagnosticGroups.toList, DiagnosticGroups.ofList, bne, beq_eq_decide,
      Bool.decide_and, ne_eq, decide_not] using hdiagnostics
  · rw [documentText, htext, htext']
    simp

/-! ## JSON -/

/-- A field of an object. -/
def field? (v : JsonValue) (name : String) : Option JsonValue :=
  match v with
  | .object fields => fields.lookup name
  | _ => none

/-- The value of a token. -/
structure TokenValue (t : Token) (v : JsonValue) : Prop where
  line : field? v "line" = some (.integer t.line)
  column : field? v "column" = some (.integer t.column)
  length : field? v "length" = some (.integer t.length)
  category : field? v "category" = some (.integer t.category.id)

/-- The value of a diagnostic. -/
structure DiagnosticValue (d : Diagnostic) (v : JsonValue) : Prop where
  message : field? v "message" = some (.string d.message)
  span : ∃ span, field? v "span" = some span ∧ field? span "start" = some (.integer d.span.start) ∧
    field? span "end" = some (.integer d.span.stop)
  severity : field? v "severity" = some (.ofText d.severity.name)

/-- The value of a result with an id. Diagnostics are a field only if there are any. -/
structure ResultValue (id : String) (r : DocumentTokens) (v : JsonValue) : Prop where
  id : field? v "id" = some (.ofText id)
  file : field? v "file" = some (.ofText r.file)
  tokens : ∃ values, field? v "tokens" = some (.array values) ∧
    List.Forall₂ TokenValue r.tokens values
  no_diagnostics : r.diagnostics = [] → field? v "diagnostics" = none
  diagnostics : r.diagnostics ≠ [] → ∃ values, field? v "diagnostics" = some (.array values) ∧
    List.Forall₂ DiagnosticValue r.diagnostics values

theorem tokenValue_spec (t : Token) : TokenValue t (tokenValue t) := ⟨rfl, rfl, rfl, rfl⟩

theorem diagnosticValue_spec (d : Diagnostic) : DiagnosticValue d (diagnosticValue d) :=
  ⟨rfl, ⟨_, rfl, rfl, rfl⟩, rfl⟩

/-- Values that are made one by one. -/
theorem forall₂_map {α : Type} {P : α → JsonValue → Prop} {f : α → JsonValue}
    (h : ∀ a, P a (f a)) (as : List α) : List.Forall₂ P as (as.map f) := by
  rw [List.forall₂_map_right_iff, List.forall₂_same]
  exact fun a _ => h a

theorem documentValue_spec (id : String) (r : DocumentTokens) :
    ResultValue id r (documentValue id r) := by
  refine ⟨rfl, rfl, ⟨_, rfl, forall₂_map tokenValue_spec _⟩, ?_, ?_⟩
  · intro hnil
    simp only [documentValue, hnil, List.isEmpty_nil]
    rfl
  · intro hne
    have hsome : ¬ r.diagnostics.isEmpty = true := by simpa using hne
    refine ⟨_, ?_, forall₂_map diagnosticValue_spec _⟩
    simp only [documentValue, if_neg hsome]
    rfl

/-! ## Reports -/

/-- The output tells all results in order: one block of lines for each, or one value of a JSON array
with the id of its place. -/
def Tells (format : String) (colored : Bool) (id : Nat → String) (results : List DocumentTokens)
    (output : Bytes) : Prop :=
  if format = Settings.jsonFormat then
    ∃ text values, output = utf8 text ∧ JsonValue.Written text.toList (.array values) ∧
      List.Forall₂ (fun entry v => ResultValue (id entry.2) entry.1 v) results.zipIdx values
  else ∃ blocks, output = blocks.flatten ∧ List.Forall₂ (IsBlock colored) results blocks

theorem tells_write (format : String) (colored : Bool) (id : Nat → String)
    (results : List DocumentTokens) :
    Tells format colored id results (write format colored id results) := by
  unfold Tells write
  split
  · refine ⟨_, _, rfl, ?_, forall₂_map (fun entry => documentValue_spec _ _) _⟩
    have hnil : JsonValue.IsBlank [] := by simp [JsonValue.IsBlank]
    have hmargin : JsonValue.IsBlank "".toList := hnil
    have hend : JsonValue.IsBlank ['\n'] := by simp [JsonValue.IsBlank]
    have hwritten : ∀ v, JsonValue.Written ([] ++ (JsonValue.indented "" v).toList ++ ['\n']) v :=
      fun v => .padded hnil hend (JsonValue.written_indented hmargin v)
    simpa [String.toList_append] using hwritten _
  · refine ⟨results.map (documentText colored), ?_, ?_⟩
    · rw [text, List.flatMap_def]
    · rw [List.forall₂_map_right_iff, List.forall₂_same]
      exact fun r _ => isBlock_documentText colored r

end Report

end DocTokens
