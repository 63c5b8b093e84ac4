import DocTokens.Proofs.LineRanges
import DocTokens.Proofs.Walk
import DocTokens.Token

/-! # Tokens of a tree

A tree has tokens exactly when the span of every classified node that a walk meets fits the text.
The tokens are then the ranges of these spans, node after node; otherwise the first span that does
not fit is the reason given.
-/

namespace DocTokens

/-- The ranges of a span, if it has any. -/
def LineIndex.pieces (idx : LineIndex) (span : Span) : List LineRange :=
  match idx.ranges span with
  | .ok (_, _, rs) => rs
  | .error _ => []

theorem LineIndex.ranges_eq_pieces {text : Bytes} {span : Span} (h : span.Fits text.length) :
    ∃ start stop, (ofBytes text).ranges span = .ok (start, stop, (ofBytes text).pieces span) := by
  obtain ⟨_, start, stop, rs, hrs, _⟩ := exists_ranges_of_fits h
  exact ⟨start, stop, by simp only [pieces, hrs]⟩

/-- A token has a category of the registry and stands inside one line of the text. -/
structure Token.Placed (idx : LineIndex) (token : Token) : Prop where
  category : token.category.valid = true
  line_nonneg : 0 ≤ token.line
  line_lt : token.line < idx.count
  column_nonneg : 0 ≤ token.column
  length_nonneg : 0 ≤ token.length
  within : ∃ n, idx.lengths[token.line.toNat]? = some n ∧ token.column + token.length ≤ n

theorem message_badSpan (n : Node) (cause : RangeError) :
    (TokenizeError.badSpan n cause).message =
      "locating " ++ n.render ++ ": " ++ cause.message := by
  with_reducible_and_instances unfold TokenizeError.message
  with_reducible_and_instances rfl

namespace Category

theorem valid_of_ofType? {type : NodeType} {c : Category} (h : ofType? type = some c) :
    c.valid = true := by
  obtain ⟨i, hi, rfl⟩ := Option.map_eq_some_iff.mp h
  obtain ⟨hlt, _⟩ := List.findIdx?_eq_some_iff_getElem.mp hi
  simp only [valid, decide_eq_true_eq]
  exact hlt

theorem valid_of_mem_slotRules {rule : SlotRule} (h : rule ∈ slotRules) :
    rule.category.valid = true := by
  revert rule
  decide

end Category

namespace Tree

variable {t : Tree} {text : Bytes} {id : NodeId} {n : Node} {c : Category}

theorem valid_of_classify (h : t.classify id = some c) : c.valid = true := by
  unfold classify at h
  split at h
  · cases h
  · split at h
    · rename_i hc
      cases h
      exact Category.valid_of_ofType? hc
    · split at h
      · cases h
      · obtain ⟨rule, hr, rfl⟩ := Option.map_eq_some_iff.mp h
        exact Category.valid_of_mem_slotRules (List.mem_of_find?_eq_some hr)

/-- The node has a category, but its span does not fit the text. -/
def Offends (t : Tree) (text : Bytes) (n : Node) : Prop :=
  (t.classify n.id).isSome ∧ ¬ n.span.Fits text.length

instance (t : Tree) (text : Bytes) (n : Node) : Decidable (t.Offends text n) :=
  inferInstanceAs (Decidable (_ ∧ _))

/-- The ranges of the span of a node with its category; none without a category. -/
def tokensOf (t : Tree) (text : Bytes) (n : Node) : List Token :=
  match t.classify n.id with
  | none => []
  | some c => ((LineIndex.ofBytes text).pieces n.span).map (Token.ofRange c)

theorem tokensAt_of_not_offends (hn : t.node? n.id = some n) (h : ¬ t.Offends text n) :
    t.tokensAt (.ofBytes text) n.id = .ok (t.tokensOf text n) := by
  unfold tokensAt tokensOf
  cases hc : t.classify n.id with
  | none => rfl
  | some c =>
    have hfits : n.span.Fits text.length := by
      by_cases hf : n.span.Fits text.length
      · exact hf
      · exact absurd ⟨by simp [hc], hf⟩ h
    obtain ⟨start, stop, hrs⟩ := LineIndex.ranges_eq_pieces hfits
    obtain ⟨hspan, hd⟩ := LineIndex.ranges_eq_ok_iff.mp hrs
    simp only [hn, hspan, hd]

/-- The span of an offending node is already refused when it is located. -/
theorem tokensAt_of_offends (hn : t.node? n.id = some n) (h : t.Offends text n) :
    ∃ cause, (LineIndex.ofBytes text).locateSpan n.span = .error cause ∧
      t.tokensAt (.ofBytes text) n.id = .error (.badSpan n cause) := by
  obtain ⟨c, hc⟩ := Option.isSome_iff_exists.mp h.1
  cases hspan : (LineIndex.ofBytes text).locateSpan n.span with
  | ok ends => exact absurd (LineIndex.fits_of_locateSpan hspan) h.2
  | error cause =>
    refine ⟨cause, rfl, ?_⟩
    simp only [tokensAt, hc, hn, hspan]

section Collect

variable {nodes : List Node} (hn : ∀ n ∈ nodes, t.node? n.id = some n)
include hn

theorem foldlM_emit_of_fits (h : ∀ n ∈ nodes, ¬ t.Offends text n) (tokens : Array Token) :
    (nodes.map fun n => (n.id : NodeId)).foldlM
        (fun acc id => t.emit (.ofBytes text) id acc) tokens =
      .ok (tokens ++ nodes.flatMap (t.tokensOf text)) := by
  induction nodes generalizing tokens with
  | nil => simp [pure, Except.pure]
  | cons n nodes ih =>
    have hat := tokensAt_of_not_offends (hn n List.mem_cons_self) (h n List.mem_cons_self)
    have hemit : t.emit (.ofBytes text) n.id tokens = .ok (tokens ++ t.tokensOf text n) := by
      rw [emit, hat]
      rfl
    have hrest := ih (fun m hm => hn m (List.mem_cons_of_mem _ hm))
      (fun m hm => h m (List.mem_cons_of_mem _ hm)) (tokens ++ t.tokensOf text n)
    rw [List.map_cons, List.foldlM_cons, hemit, List.flatMap_cons]
    simp only [bind, Except.bind, hrest, Except.ok.injEq]
    apply Array.ext'
    simp

/-- Tokens are collected up to the first offending node. -/
theorem foldlM_emit_of_offends (h : nodes.find? (fun n => decide (t.Offends text n)) = some n)
    (tokens : Array Token) :
    ∃ cause, (LineIndex.ofBytes text).locateSpan n.span = .error cause ∧
      (nodes.map fun n => (n.id : NodeId)).foldlM
        (fun acc id => t.emit (.ofBytes text) id acc) tokens = .error (.badSpan n cause) := by
  induction nodes generalizing tokens with
  | nil => cases h
  | cons m nodes ih =>
    rw [List.map_cons, List.foldlM_cons]
    by_cases hoff : t.Offends text m
    · rw [List.find?_cons_of_pos (by simpa using hoff)] at h
      obtain rfl := Option.some.inj h
      obtain ⟨cause, hspan, hat⟩ := tokensAt_of_offends (hn m List.mem_cons_self) hoff
      refine ⟨cause, hspan, ?_⟩
      rw [emit, hat]
      rfl
    · rw [List.find?_cons_of_neg (by simpa using hoff)] at h
      have hat := tokensAt_of_not_offends (hn m List.mem_cons_self) hoff
      rw [emit, hat]
      exact ih (fun k hk => hn k (List.mem_cons_of_mem _ hk)) h _

end Collect

/-- Without a stop, tokenizing a tree is collecting the tokens of its nodes in pre-order. -/
theorem tokenize_never (hnum : Numbered t.nodes) (text : Bytes) (interval : Int) :
    t.tokenize text interval .never =
      match t.preorderIds.foldlM (fun acc id => t.emit (.ofBytes text) id acc) #[] with
      | .ok tokens => (.ok tokens.toList, .never)
      | .error e => (.error e, .never) := by
  have hout := visitAll_never_outcome (pollInterval interval) (t.emit (.ofBytes text))
    t.preorderIds 0 #[]
  have hsig := visitAll_never_signal (pollInterval interval) (t.emit (.ofBytes text))
    t.preorderIds 0 #[]
  simp only [tokenize, walk, walkFrom_eq_visitAll, orderFrom_root hnum, hsig, hout]
  cases t.preorderIds.foldlM (fun acc id => t.emit (.ofBytes text) id acc) #[] <;> rfl

theorem tokenize_of_fits (hnum : Numbered t.nodes) (h : ∀ n ∈ t.preorder, ¬ t.Offends text n)
    (interval : Int) :
    t.tokenize text interval .never = (.ok (t.preorder.flatMap (t.tokensOf text)), .never) := by
  rw [tokenize_never hnum, preorderIds,
    foldlM_emit_of_fits (fun n hn => node?_of_mem_preorder hnum hn) h]
  simp

theorem tokenize_of_offends (hnum : Numbered t.nodes)
    (h : t.preorder.find? (fun n => decide (t.Offends text n)) = some n) (interval : Int) :
    ∃ cause, (LineIndex.ofBytes text).locateSpan n.span = .error cause ∧
      t.tokenize text interval .never = (.error (.badSpan n cause), .never) := by
  obtain ⟨cause, hspan, herr⟩ :=
    foldlM_emit_of_offends (fun n hn => node?_of_mem_preorder hnum hn) h #[]
  refine ⟨cause, hspan, ?_⟩
  rw [tokenize_never hnum, preorderIds, herr]

theorem placed_of_mem_tokensOf {token : Token} (h : ¬ t.Offends text n)
    (htok : token ∈ t.tokensOf text n) : token.Placed (.ofBytes text) := by
  unfold tokensOf at htok
  cases hc : t.classify n.id with
  | none => simp [hc] at htok
  | some c =>
    simp only [hc] at htok
    obtain ⟨r, hr, rfl⟩ := List.mem_map.mp htok
    have hfits : n.span.Fits text.length := by
      by_cases hf : n.span.Fits text.length
      · exact hf
      · exact absurd ⟨by simp [hc], hf⟩ h
    obtain ⟨line, start, stop, rs, hrs, _, _, ht⟩ := LineIndex.exists_ranges_of_fits hfits
    simp only [LineIndex.pieces, hrs] at hr
    obtain ⟨k, hk⟩ := List.mem_iff_getElem?.mp hr
    have hline := ht.line_eq k r hk
    obtain ⟨hcol, hlen, m, hm, hle⟩ := ht.within r hr
    obtain ⟨hlt, _⟩ := List.getElem?_eq_some_iff.mp hm
    refine ⟨valid_of_classify hc, ?_, ?_, hcol, hlen, m, hm, hle⟩
    · simp only [Token.ofRange]
      omega
    · simp only [Token.ofRange, LineIndex.count, LineIndex.ofBytes_lines]
      simp only [LineIndex.ofBytes_lengths, List.length_map] at hlt
      omega

/-- A tree has tokens exactly when no classified node that the walk meets has a span outside of the
text. They are the tokens of these nodes in the order of the walk. Failing that, the first such node
is named. How often the stop signal is asked does not matter. -/
theorem tokenize_exact {t : Tree} (ht : t.Built) (text : Bytes) (interval : Int) :
    ((∃ tokens, (t.tokenize text interval .never).1 = .ok tokens) ↔
      ∀ n ∈ t.preorder, (t.classify n.id).isSome → n.span.Fits text.length) ∧
    (∀ tokens, (t.tokenize text interval .never).1 = .ok tokens →
      (∀ n ∈ t.preorder, (t.classify n.id).isSome → ∃ start stop,
        (LineIndex.ofBytes text).ranges n.span =
          .ok (start, stop, (LineIndex.ofBytes text).pieces n.span)) ∧
      tokens = t.preorder.flatMap (t.tokensOf text) ∧
      ∀ token ∈ tokens, token.Placed (.ofBytes text)) ∧
    (∀ e, (t.tokenize text interval .never).1 = .error e → ∃ n cause,
      t.preorder.find? (fun n => decide (t.Offends text n)) = some n ∧
      (LineIndex.ofBytes text).locateSpan n.span = .error cause ∧ e = .badSpan n cause ∧
      e.message = "locating " ++ n.render ++ ": " ++ cause.message ∧
      cause.message = cause.detail ++ ": offset out of range") ∧
    ∀ interval', t.tokenize text interval' .never = t.tokenize text interval .never := by
  have hnum := ht.numbered
  have hfits : (∀ n ∈ t.preorder, ¬ t.Offends text n) ↔
      ∀ n ∈ t.preorder, (t.classify n.id).isSome → n.span.Fits text.length := by
    simp only [Offends, not_and, Decidable.not_not]
  cases hfind : t.preorder.find? (fun n => decide (t.Offends text n)) with
  | none =>
    have hall : ∀ n ∈ t.preorder, ¬ t.Offends text n := by simpa using hfind
    have hok := tokenize_of_fits hnum hall
    refine ⟨⟨fun _ => hfits.mp hall, fun _ => ⟨_, by rw [hok]⟩⟩, ?_, ?_, by simp [hok]⟩
    · intro tokens htokens
      obtain rfl : t.preorder.flatMap (t.tokensOf text) = tokens := by simpa [hok] using htokens
      refine ⟨fun n hn hc => LineIndex.ranges_eq_pieces (hfits.mp hall n hn hc), rfl, ?_⟩
      intro token htok
      obtain ⟨n, hn, htok⟩ := List.mem_flatMap.mp htok
      exact placed_of_mem_tokensOf (hall n hn) htok
    · intro e he
      simp [hok] at he
  | some n =>
    obtain ⟨cause, hspan, _⟩ := tokenize_of_offends hnum hfind interval
    have herr : ∀ k, t.tokenize text k .never = (.error (.badSpan n cause), .never) := by
      intro k
      obtain ⟨cause', hspan', herr⟩ := tokenize_of_offends hnum hfind k
      obtain rfl : cause = cause' := by simpa [hspan] using hspan'
      exact herr
    have hmem := List.mem_of_find?_eq_some hfind
    have hoff : t.Offends text n := by simpa using List.find?_some hfind
    refine ⟨⟨?_, ?_⟩, ?_, ?_, by simp [herr]⟩
    · rintro ⟨tokens, htokens⟩
      simp [herr] at htokens
    · intro h
      exact absurd hoff (hfits.mpr h n hmem)
    · intro tokens htokens
      simp [herr] at htokens
    · intro e he
      obtain rfl : .badSpan n cause = e := by simpa [herr] using he
      exact ⟨n, cause, rfl, hspan, rfl, message_badSpan n cause, rfl⟩

/-- Calls for a tree whose root has no category and a span past every text, and whose only other
node refers back to the root. -/
def strayCalls : List Builder.Call :=
  [.add (-1) .file ⟨-3, 99⟩, .addSlot 0 .children .em ⟨1, 4⟩, .attach 1 .children 0]

theorem tokenize_exact_stray :
    (Builder.run strayCalls .empty).build.1.Built ∧
    ((Builder.run strayCalls .empty).build.1.tokenize [97, 98, 10, 99, 100] 0 .never).1 =
      .ok [⟨0, 1, 1, ⟨4⟩⟩, ⟨1, 0, 1, ⟨4⟩⟩] := by
  have ht := Built.run strayCalls
  have hfits : ∀ n ∈ (Builder.run strayCalls .empty).build.1.preorder,
      ((Builder.run strayCalls .empty).build.1.classify n.id).isSome → n.span.Fits 5 := by decide
  have htokens : (Builder.run strayCalls .empty).build.1.preorder.flatMap
      ((Builder.run strayCalls .empty).build.1.tokensOf [97, 98, 10, 99, 100]) =
      [⟨0, 1, 1, ⟨4⟩⟩, ⟨1, 0, 1, ⟨4⟩⟩] := by decide
  obtain ⟨hiff, hok, _⟩ := tokenize_exact ht [97, 98, 10, 99, 100] 0
  obtain ⟨tokens, hrun⟩ := hiff.mpr hfits
  refine ⟨ht, ?_⟩
  rw [hrun, (hok tokens hrun).2.1, htokens]

end Tree

end DocTokens
