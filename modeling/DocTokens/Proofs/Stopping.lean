import DocTokens.Proofs.Tokens

/-! # Stopped walks

A walk asks its stop signal before the nodes of index `0`, `interval`, `2 * interval` and so on. A
signal that answers `n` times therefore ends it before the node of index `n * interval`, unless the
walk has come to its end or a visit has failed by then. A walk that is not stopped does what it does
without the signal.
-/

namespace DocTokens

/-- Whether it was the stop signal that ended the walk. -/
def WalkResult.isStopped {ε σ : Type} (r : WalkResult ε σ) : Bool :=
  match r.outcome with
  | .error (.stopped _ _) => true
  | _ => false

namespace Tree

/-- What a walk does from one moment to the next. -/
inductive Move where
  | ask
  | visit (id : NodeId)
  deriving DecidableEq, Repr

/-! ## Logged walks -/

/-- `pollAt` with a note of the question, if it is put. -/
def pollLog (interval visited : Nat) (signal : StopSignal) :
    List Move × Except StopCause StopSignal :=
  if visited % interval = 0 then ([.ask], signal.poll) else ([], .ok signal)

section Log

variable {ε σ : Type} (t : Tree) (interval : Nat) (visit : NodeId → σ → Except ε σ)

/-- `walkFrom` with a log of its moves. -/
def walkLogFrom (seen : Seen) (stack : List NodeId) (visited : Nat) (signal : StopSignal)
    (acc : σ) : List Move × WalkResult ε σ :=
  match stack with
  | [] => ([], ⟨visited, .ok acc, signal⟩)
  | id :: stack =>
    match _fresh : t.fresh? seen id with
    | none => walkLogFrom seen stack visited signal acc
    | some n =>
      match pollLog interval visited signal with
      | (asked, .error cause) => (asked, ⟨visited, .error (.stopped visited cause), signal⟩)
      | (asked, .ok signal) =>
        match visit id acc with
        | .error e => (asked ++ [.visit id], ⟨visited + 1, .error (.failed e), signal⟩)
        | .ok acc =>
          let log := walkLogFrom (seen.setIfInBounds id.toNat true) (n.childIds ++ stack)
            (visited + 1) signal acc
          (asked ++ .visit id :: log.1, log.2)
  termination_by (seen.unvisited, stack.length)
  decreasing_by
    · exact Prod.Lex.right _ (by simp)
    · exact Prod.Lex.left _ _ (Seen.unvisited_set_lt (fresh?_eq_some _fresh).2)

theorem pollAt_eq_pollLog (interval visited : Nat) (signal : StopSignal) :
    pollAt interval visited signal = (pollLog interval visited signal).2 := by
  unfold pollAt pollLog
  split <;> rfl

/-- The log does not change the walk. -/
theorem walkLogFrom_snd (seen : Seen) (stack : List NodeId) (visited : Nat) (signal : StopSignal)
    (acc : σ) :
    (t.walkLogFrom interval visit seen stack visited signal acc).2 =
      t.walkFrom interval visit seen stack visited signal acc := by
  rw [walkFrom_eq_visitAll]
  fun_induction walkLogFrom t interval visit seen stack visited signal acc with
  | case1 => rw [orderFrom_nil, visitAll]
  | case2 seen visited signal acc id stack hn ih => rw [orderFrom_cons_of_none hn, ih]
  | case3 seen visited signal acc id stack n hn asked cause hp =>
    rw [orderFrom_cons_of_some hn, visitAll, pollAt_eq_pollLog, hp]
  | case4 seen visited signal acc id stack n hn asked signal' hp e hv =>
    rw [orderFrom_cons_of_some hn, visitAll, pollAt_eq_pollLog, hp]
    simp only [hv]
  | case5 seen visited signal acc id stack n hn asked signal' hp acc' hv log ih =>
    rw [orderFrom_cons_of_some hn, visitAll, pollAt_eq_pollLog, hp]
    simp only [hv, log, ih]

/-- The moves of a walk over the given nodes, the first of them being visited after `visited`
others: a question stands before every node whose index is a multiple of the interval. -/
def schedule (interval visited : Nat) (ids : List NodeId) : List Move :=
  (ids.zipIdx visited).flatMap fun p =>
    if p.2 % interval = 0 then [.ask, .visit p.1] else [.visit p.1]

theorem schedule_nil (visited : Nat) : schedule interval visited [] = [] := rfl

theorem schedule_cons (visited : Nat) (id : NodeId) (ids : List NodeId) (signal : StopSignal) :
    schedule interval visited (id :: ids) =
      (pollLog interval visited signal).1 ++ .visit id :: schedule interval (visited + 1) ids := by
  unfold schedule pollLog
  rw [List.zipIdx_cons, List.flatMap_cons]
  split <;> rfl

theorem pollLog_of_error {visited : Nat} {signal : StopSignal} {asked : List Move}
    {cause : StopCause} (h : pollLog interval visited signal = (asked, .error cause)) :
    asked = [.ask] := by
  unfold pollLog at h
  split at h
  · exact (Prod.mk.inj h).1.symm
  · cases h

theorem le_visited (ids : List NodeId) (visited : Nat) (signal : StopSignal) (acc : σ) :
    visited ≤ (visitAll interval visit ids visited signal acc).visited := by
  induction ids generalizing visited signal acc with
  | nil => exact Nat.le_refl _
  | cons id ids ih =>
    rw [visitAll]
    split
    · exact Nat.le_refl _
    · split
      · exact Nat.le_succ _
      · exact Nat.le_of_succ_le (ih _ _ _)

/-- A walk makes the moves of the nodes it visits and, if it is stopped, puts one more question. -/
theorem walkLogFrom_fst (seen : Seen) (stack : List NodeId) (visited : Nat) (signal : StopSignal)
    (acc : σ) :
    (t.walkLogFrom interval visit seen stack visited signal acc).1 =
      schedule interval visited ((t.orderFrom seen stack).take
        ((t.walkFrom interval visit seen stack visited signal acc).visited - visited)) ++
      if (t.walkFrom interval visit seen stack visited signal acc).isStopped then [.ask]
      else [] := by
  rw [← walkLogFrom_snd]
  fun_induction walkLogFrom t interval visit seen stack visited signal acc with
  | case1 => simp [schedule_nil, WalkResult.isStopped]
  | case2 seen visited signal acc id stack hn ih =>
    rw [orderFrom_cons_of_none hn]
    exact ih
  | case3 seen visited signal acc id stack n hn asked cause hp =>
    simp [schedule_nil, WalkResult.isStopped, pollLog_of_error _ hp]
  | case4 seen visited signal acc id stack n hn asked signal' hp e hv =>
    rw [orderFrom_cons_of_some hn, Nat.add_sub_cancel_left, List.take_succ_cons,
      schedule_cons _ _ _ _ signal, hp]
    simp [schedule_nil, WalkResult.isStopped]
  | case5 seen visited signal acc id stack n hn asked signal' hp acc' hv log ih =>
    have hle : visited + 1 ≤ log.2.visited := by
      simp only [log, walkLogFrom_snd, walkFrom_eq_visitAll]
      exact le_visited _ _ _ _ _ _
    have hsub : log.2.visited - visited = log.2.visited - (visited + 1) + 1 := by omega
    rw [orderFrom_cons_of_some hn, hsub, List.take_succ_cons, schedule_cons _ _ _ _ signal, hp]
    simp only [log, ih, List.append_assoc, List.cons_append]

end Log

/-! ## Counting the questions -/

/-- The number of questions put before the node of the given index: one for every multiple of the
interval below it. -/
def asked (interval visited : Nat) : Nat := (visited + interval - 1) / interval

section Asked

variable {interval visited : Nat} (hi : 0 < interval)
include hi

theorem asked_zero : asked interval 0 = 0 := by
  rw [asked, Nat.zero_add]
  exact Nat.div_eq_of_lt (Nat.sub_one_lt_of_lt hi)

theorem asked_succ (visited : Nat) :
    asked interval (visited + 1) =
      asked interval visited + if visited % interval = 0 then 1 else 0 := by
  have hsucc : visited + 1 + interval - 1 = visited + interval - 1 + 1 := by omega
  have hdvd : interval ∣ visited + interval - 1 + 1 ↔ visited % interval = 0 := by
    rw [Nat.sub_add_cancel (by omega), Nat.dvd_iff_mod_eq_zero, Nat.add_mod_right]
  rw [asked, hsucc, Nat.succ_div]
  simp only [hdvd, asked]

/-- With enough answers left for the questions so far, the end is not behind. -/
theorem le_mul_of_asked_le {n : Nat} (h : asked interval visited ≤ n) : visited ≤ n * interval := by
  have hlt := Nat.lt_div_mul_add (a := visited + interval - 1) hi
  have hmul := Nat.mul_le_mul_right interval h
  rw [asked] at hmul
  omega

theorem asked_mul_of_mod (h : visited % interval = 0) :
    asked interval visited * interval = visited := by
  obtain ⟨k, rfl⟩ := Nat.dvd_of_mod_eq_zero h
  have hdiv : (interval * k + interval - 1) / interval = k := by
    rw [Nat.add_sub_assoc hi, Nat.mul_add_div hi, Nat.div_eq_of_lt (Nat.sub_one_lt_of_lt hi),
      Nat.add_zero]
  rw [asked, hdiv, Nat.mul_comm]

/-- A signal that lets the walk go on has one answer less for every question. -/
theorem pollAt_eq_ok {k : Nat} {cause : StopCause} {signal : StopSignal}
    (h : pollAt interval visited ⟨some k, cause⟩ = .ok signal) :
    ∃ m, signal = ⟨some m, cause⟩ ∧
      m + asked interval (visited + 1) = k + asked interval visited := by
  unfold pollAt at h
  split at h
  · rename_i hmod
    cases k with
    | zero => cases h
    | succ k =>
      cases h
      refine ⟨k, rfl, ?_⟩
      rw [asked_succ hi, if_pos hmod]
      omega
  · rename_i hmod
    cases h
    exact ⟨k, rfl, by rw [asked_succ hi, if_neg hmod, Nat.add_zero]⟩

/-- A signal that stops the walk has no answer left, and the walk stands at a multiple of the
interval. -/
theorem pollAt_eq_error {k : Nat} {cause c : StopCause}
    (h : pollAt interval visited ⟨some k, cause⟩ = .error c) :
    c = cause ∧ k = 0 ∧ asked interval visited * interval = visited := by
  unfold pollAt at h
  split at h
  · rename_i hmod
    cases k with
    | zero =>
      cases h
      exact ⟨rfl, rfl, asked_mul_of_mod hi hmod⟩
    | succ k => cases h
  · cases h

end Asked

section Stop

variable {ε σ : Type} {interval : Nat} (hi : 0 < interval) (visit : NodeId → σ → Except ε σ)
include hi

/-- Under a signal with `n` answers in all the visits go on as without a signal, unless that would
take them to the node of index `n * interval`: then they end just before it. -/
theorem visitAll_stop (ids : List NodeId) (visited k n : Nat) (cause : StopCause) (acc : σ)
    (hk : k + asked interval visited = n) :
    visitAll interval visit ids visited ⟨some k, cause⟩ acc =
      let free := visitAll interval visit ids visited .never acc
      if n * interval < free.visited then
        ⟨n * interval, .error (.stopped (n * interval) cause), ⟨some 0, cause⟩⟩
      else ⟨free.visited, free.outcome, ⟨some (n - asked interval free.visited), cause⟩⟩ := by
  -- along the nodes: the answers left and the questions put always add up to `n`
  induction ids generalizing visited k acc with
  | nil =>
    have hend : visited ≤ n * interval := le_mul_of_asked_le hi (by omega)
    simp only [visitAll, Nat.not_lt.mpr hend, if_false]
    rw [← hk, Nat.add_sub_cancel]
  | cons id ids ih =>
    rw [visitAll]
    cases hp : pollAt interval visited ⟨some k, cause⟩ with
    | error c =>
      obtain ⟨rfl, rfl, hmul⟩ := pollAt_eq_error hi hp
      obtain rfl : asked interval visited = n := by omega
      have hlt : visited < (visitAll interval visit (id :: ids) visited .never acc).visited := by
        rw [visitAll, pollAt_never]
        cases visit id acc with
        | error e => exact Nat.lt_succ_self _
        | ok acc => exact le_visited _ _ _ _ _ _
      simp only [hmul, hlt, if_true]
    | ok signal =>
      obtain ⟨m, rfl, hm⟩ := pollAt_eq_ok hi hp
      have hrest : m + asked interval (visited + 1) = n := hm.trans hk
      rw [visitAll, pollAt_never]
      cases hv : visit id acc with
      | error e =>
        have hend : visited + 1 ≤ n * interval := le_mul_of_asked_le hi (by omega)
        simp only [Nat.not_lt.mpr hend, if_false]
        rw [← hrest, Nat.add_sub_cancel]
      | ok acc => exact ih (visited + 1) m acc hrest

end Stop

/-! ## Tokens under a stop signal -/

theorem pollInterval_pos (interval : Int) : 0 < pollInterval interval :=
  Nat.lt_of_lt_of_le Nat.zero_lt_one (Nat.le_max_left _ _)

theorem pollInterval_eq_max (interval : Int) : (pollInterval interval : Int) = max 1 interval := by
  unfold pollInterval
  omega

theorem count_ask_schedule {interval : Nat} (hi : 0 < interval) (visited : Nat)
    (ids : List NodeId) :
    (schedule interval visited ids).count .ask + asked interval visited =
      asked interval (visited + ids.length) := by
  induction ids generalizing visited with
  | nil => simp [schedule_nil]
  | cons id ids ih =>
    have hask : (pollLog interval visited .never).1.count .ask =
        if visited % interval = 0 then 1 else 0 := by
      unfold pollLog
      split <;> rfl
    have hsucc := asked_succ hi visited
    have hrest := ih (visited + 1)
    rw [schedule_cons _ _ _ _ .never, List.count_append, hask, List.count_cons_of_ne (by simp),
      List.length_cons, Nat.add_comm ids.length, ← Nat.add_assoc]
    omega

/-- The nodes that a walk meets, in order. -/
def visitOrder (t : Tree) : List NodeId := t.orderFrom t.unseen [t.root]

/-- Whether a number names a node with a category whose span does not fit the text. -/
def straysAt (t : Tree) (text : Bytes) (id : NodeId) : Bool :=
  match t.node? id with
  | some n => (t.classify id).isSome && !decide (n.span.Fits text.length)
  | none => false

/-- The index of the first node on the walk whose span does not fit the text. -/
def firstStray? (t : Tree) (text : Bytes) : Option Nat := t.visitOrder.findIdx? (t.straysAt text)

/-- What tokenizing makes of the result of its walk. -/
def answer (run : WalkResult TokenizeError (Array Token)) :
    Except TokenizeError (List Token) × StopSignal :=
  match run.outcome with
  | .ok tokens => (.ok tokens.toList, run.signal)
  | .error e => (.error (.ofWalk e), run.signal)

theorem answer_fst_eq (run : WalkResult TokenizeError (Array Token)) (visited : Nat)
    (signal : StopSignal) : (answer ⟨visited, run.outcome, signal⟩).1 = (answer run).1 := by
  simp only [answer]
  cases run.outcome <;> rfl

/-- `tokenize` with a log of the moves of its walk. -/
def tokenizeLog (t : Tree) (text : Bytes) (interval : Int) (signal : StopSignal) :
    List Move × Except TokenizeError (List Token) × StopSignal :=
  let log := t.walkLogFrom (pollInterval interval) (t.emit (.ofBytes text)) t.unseen [t.root] 0
    signal #[]
  (log.1, answer log.2)

section Tokens

variable {t : Tree} {text : Bytes}

/-- A node has no tokens only if its span does not fit. -/
theorem tokensAt_eq_error_iff {id : NodeId} :
    (∃ e, t.tokensAt (.ofBytes text) id = .error e) ↔ t.straysAt text id = true := by
  unfold tokensAt straysAt
  cases hc : t.classify id with
  | none => cases t.node? id <;> simp
  | some c =>
    cases hn : t.node? id with
    | none => simp
    | some n =>
      by_cases hf : n.span.Fits text.length
      · obtain ⟨start, stop, hrs⟩ := LineIndex.ranges_eq_pieces hf
        obtain ⟨hspan, hd⟩ := LineIndex.ranges_eq_ok_iff.mp hrs
        simp only [hspan, hd]
        simp [hf]
      · cases hspan : (LineIndex.ofBytes text).locateSpan n.span with
        | ok ends => exact absurd (LineIndex.fits_of_locateSpan hspan) hf
        | error cause => simp [hspan, hf]

theorem ne_stopped_of_tokensAt {idx : LineIndex} {id : NodeId} {e : TokenizeError}
    (h : t.tokensAt idx id = .error e) (visited : Nat) (cause : StopCause) :
    e ≠ .stopped visited cause := by
  unfold tokensAt at h
  split at h
  · split at h
    · cases h
      simp
    · split at h
      · cases h
        simp
      · cases h
  · cases h

theorem emit_eq_ok {id : NodeId} (h : t.straysAt text id = false) (tokens : Array Token) :
    ∃ tokens', t.emit (.ofBytes text) id tokens = .ok tokens' := by
  cases ht : t.tokensAt (.ofBytes text) id with
  | ok added => exact ⟨_, by rw [emit, ht]; rfl⟩
  | error e => simp [tokensAt_eq_error_iff.mp ⟨e, ht⟩] at h

theorem emit_eq_error {id : NodeId} (h : t.straysAt text id = true) (tokens : Array Token) :
    ∃ e, t.emit (.ofBytes text) id tokens = .error e ∧
      ∀ visited cause, e ≠ .stopped visited cause := by
  obtain ⟨e, he⟩ := tokensAt_eq_error_iff.mpr h
  exact ⟨e, by rw [emit, he]; rfl, ne_stopped_of_tokensAt he⟩

/-- Without a stop all nodes are visited, or those up to the first whose span does not fit. -/
theorem visitAll_emit_never (t : Tree) (text : Bytes) (interval : Nat) (ids : List NodeId)
    (visited : Nat) (tokens : Array Token) :
    let free := visitAll interval (t.emit (.ofBytes text)) ids visited .never tokens
    match ids.findIdx? (t.straysAt text) with
    | none => free.visited = visited + ids.length ∧ ∃ tokens', free.outcome = .ok tokens'
    | some f => free.visited = visited + f + 1 ∧ ∃ e, free.outcome = .error (.failed e) ∧
        ∀ visited cause, e ≠ .stopped visited cause := by
  induction ids generalizing visited tokens with
  | nil => exact ⟨rfl, tokens, rfl⟩
  | cons id ids ih =>
    rw [visitAll, pollAt_never, List.findIdx?_cons]
    cases hs : t.straysAt text id with
    | true =>
      obtain ⟨e, he, hne⟩ := emit_eq_error hs tokens
      simp only [he, if_true]
      exact ⟨trivial, e, rfl, hne⟩
    | false =>
      obtain ⟨tokens', ht⟩ := emit_eq_ok hs tokens
      have hrest := ih (visited + 1) tokens'
      simp only [ht]
      cases hf : ids.findIdx? (t.straysAt text) with
      | none =>
        simp only [hf] at hrest
        exact ⟨by rw [hrest.1, List.length_cons]; omega, hrest.2⟩
      | some f =>
        simp only [hf] at hrest
        exact ⟨by rw [hrest.1]; simp only; omega, hrest.2⟩

/-- The visits behind the tokens of a tree. -/
def tokenVisits (t : Tree) (text : Bytes) (interval : Int) (signal : StopSignal) :
    WalkResult TokenizeError (Array Token) :=
  visitAll (pollInterval interval) (t.emit (.ofBytes text)) t.visitOrder 0 signal #[]

theorem tokenize_eq_answer (t : Tree) (text : Bytes) (interval : Int) (signal : StopSignal) :
    t.tokenize text interval signal = answer (t.tokenVisits text interval signal) := by
  change answer (t.walk interval (t.emit (.ofBytes text)) signal #[]) = _
  rw [walk, walkFrom_eq_visitAll, tokenVisits, visitOrder]

theorem tokenizeLog_snd (t : Tree) (text : Bytes) (interval : Int) (signal : StopSignal) :
    (t.tokenizeLog text interval signal).2 = t.tokenize text interval signal := by
  rw [tokenize_eq_answer, tokenizeLog, walkLogFrom_snd, walkFrom_eq_visitAll]
  rfl

theorem tokenizeLog_fst (t : Tree) (text : Bytes) (interval : Int) (signal : StopSignal) :
    (t.tokenizeLog text interval signal).1 =
      schedule (pollInterval interval) 0
          (t.visitOrder.take (t.tokenVisits text interval signal).visited) ++
        if (t.tokenVisits text interval signal).isStopped then [.ask] else [] := by
  rw [tokenizeLog, walkLogFrom_fst, walkFrom_eq_visitAll, Nat.sub_zero]
  rfl

/-- Without a stop all nodes are visited, or those up to the first whose span does not fit. -/
theorem tokenVisits_never (t : Tree) (text : Bytes) (interval : Int) :
    (t.tokenVisits text interval .never).visited =
        ((t.firstStray? text).map (· + 1)).getD t.visitOrder.length ∧
      (t.tokenVisits text interval .never).isStopped = false ∧
      ((∃ tokens, (answer (t.tokenVisits text interval .never)).1 = .ok tokens) →
        t.firstStray? text = none) ∧
      ∀ visited cause, (answer (t.tokenVisits text interval .never)).1 ≠
        .error (.stopped visited cause) := by
  have hfree := visitAll_emit_never t text (pollInterval interval) t.visitOrder 0 #[]
  unfold firstStray?
  cases hf : t.visitOrder.findIdx? (t.straysAt text) with
  | none =>
    simp only [hf, Nat.zero_add] at hfree
    obtain ⟨hvisited, tokens, hok⟩ := hfree
    refine ⟨hvisited, ?_, fun _ => rfl, ?_⟩
    · simp only [tokenVisits, WalkResult.isStopped, hok]
    · simp [answer, tokenVisits, hok]
  | some f =>
    simp only [hf, Nat.zero_add] at hfree
    obtain ⟨hvisited, e, herror, hne⟩ := hfree
    refine ⟨hvisited, ?_, ?_, ?_⟩
    · simp only [tokenVisits, WalkResult.isStopped, herror]
    · simp [answer, tokenVisits, herror]
    · simpa [answer, tokenVisits, herror, TokenizeError.ofWalk] using hne

section Signal

variable (t : Tree) (text : Bytes) (interval : Int) {n : Nat} (cause : StopCause)

theorem tokenVisits_of_lt
    (h : n * pollInterval interval < (t.tokenVisits text interval .never).visited) :
    t.tokenVisits text interval ⟨some n, cause⟩ =
      ⟨n * pollInterval interval, .error (.stopped (n * pollInterval interval) cause),
        ⟨some 0, cause⟩⟩ := by
  have hi := pollInterval_pos interval
  have hrun := visitAll_stop hi (t.emit (.ofBytes text)) t.visitOrder 0 n n cause #[]
    (by rw [asked_zero hi, Nat.add_zero])
  exact hrun.trans (if_pos h)

theorem tokenVisits_of_not_lt
    (h : ¬ n * pollInterval interval < (t.tokenVisits text interval .never).visited) :
    ∃ signal, t.tokenVisits text interval ⟨some n, cause⟩ =
      ⟨(t.tokenVisits text interval .never).visited, (t.tokenVisits text interval .never).outcome,
        signal⟩ := by
  have hi := pollInterval_pos interval
  have hrun := visitAll_stop hi (t.emit (.ofBytes text)) t.visitOrder 0 n n cause #[]
    (by rw [asked_zero hi, Nat.add_zero])
  exact ⟨_, hrun.trans (if_neg h)⟩

end Signal

/-- The walk comes to the node of index `k` if there is one and no node before it strays. -/
theorem lt_visited_iff (t : Tree) (text : Bytes) (interval : Int) (k : Nat) :
    k < (t.tokenVisits text interval .never).visited ↔
      k < t.visitOrder.length ∧ ∀ f ∈ t.firstStray? text, k ≤ f := by
  rw [(tokenVisits_never t text interval).1]
  cases hf : t.firstStray? text with
  | none => simp
  | some f =>
    obtain ⟨hlt, _⟩ := List.findIdx?_eq_some_iff_getElem.mp hf
    simp only [Option.map_some, Option.getD_some, Option.mem_def, Option.some.injEq, forall_eq']
    omega

theorem message_stopped (visited : Nat) (cause : StopCause) :
    (TokenizeError.stopped visited cause).message =
      "token generation cancelled after " ++ toString visited ++ " nodes: " ++ cause.message := by
  with_reducible_and_instances unfold TokenizeError.message
  with_reducible_and_instances rfl

/-- Recording the visits of a walk that nothing stops gives the order of the nodes. -/
theorem walk_record (t : Tree) (interval : Int) :
    t.walk interval (fun id ids => (.ok (ids ++ [id]) : Except Empty (List NodeId))) .never [] =
      ⟨t.visitOrder.length, .ok t.visitOrder, .never⟩ := by
  rw [walk, walkFrom_eq_visitAll, visitAll_never_ok, Nat.zero_add]
  rw [List.foldl_append_eq_append, List.nil_append, ← List.flatMap_def, List.flatMap_singleton']
  rfl

end Tokens

/-- A stop signal with `n` answers ends tokenizing exactly when the walk would come to the node of
index `n * step` and no span before it is refused: nothing but the nodes before it has been visited
by then. Otherwise the signal changes nothing. Questions stand before the nodes of index `0`,
`step`, `2 * step` and so on, as far as the walk comes. -/
theorem tokenize_stopped_exact (t : Tree) (text : Bytes) (interval : Int) (n : Nat)
    (cause : StopCause) :
    let step := pollInterval interval
    let order := t.visitOrder
    let log := t.tokenizeLog text interval ⟨some n, cause⟩
    let outcome := (t.tokenize text interval ⟨some n, cause⟩).1
    let Stops := n * step < order.length ∧ ∀ f ∈ t.firstStray? text, n * step ≤ f
    (step : Int) = max 1 interval ∧
    t.walk interval (fun id ids => (.ok (ids ++ [id]) : Except Empty (List NodeId))) .never [] =
      ⟨order.length, .ok order, .never⟩ ∧
    log.2 = t.tokenize text interval ⟨some n, cause⟩ ∧
    ((∃ visited c, outcome = .error (.stopped visited c)) ↔ Stops) ∧
    (Stops → outcome = .error (.stopped (n * step) cause) ∧
      log.1 = schedule step 0 (order.take (n * step)) ++ [.ask]) ∧
    (¬ Stops → outcome = (t.tokenize text interval .never).1 ∧
      log.1 = schedule step 0 (order.take (((t.firstStray? text).map (· + 1)).getD order.length))) ∧
    (∀ tokens, outcome = .ok tokens → log.1.count .ask = (order.length + step - 1) / step) ∧
    (TokenizeError.stopped (n * step) cause).message =
      "token generation cancelled after " ++ toString (n * step) ++ " nodes: " ++
        cause.message := by
  intro step order log outcome Stops
  have hiff : n * step < (t.tokenVisits text interval .never).visited ↔ Stops :=
    lt_visited_iff t text interval _
  obtain ⟨hvisited, hfree, hclean, hne⟩ := tokenVisits_never t text interval
  have hmoves : log.1 = _ := tokenizeLog_fst t text interval ⟨some n, cause⟩
  have houtcome : outcome = _ :=
    congrArg Prod.fst (tokenize_eq_answer t text interval ⟨some n, cause⟩)
  refine ⟨pollInterval_eq_max interval, walk_record t interval, tokenizeLog_snd _ _ _ _, ?_⟩
  by_cases hstops : Stops
  · have hrun := tokenVisits_of_lt t text interval cause (hiff.mpr hstops)
    rw [hrun] at hmoves houtcome
    have hstopped : outcome = .error (.stopped (n * step) cause) := houtcome
    refine ⟨⟨fun _ => hstops, fun _ => ⟨_, _, hstopped⟩⟩, fun _ => ⟨hstopped, hmoves⟩,
      fun h => absurd hstops h, fun tokens h => ?_, message_stopped _ _⟩
    rw [hstopped] at h
    cases h
  · obtain ⟨signal, hrun⟩ := tokenVisits_of_not_lt t text interval cause (mt hiff.mp hstops)
    rw [hrun] at hmoves houtcome
    rw [answer_fst_eq] at houtcome
    have hmoves : log.1 = schedule step 0
        (order.take (((t.firstStray? text).map (· + 1)).getD order.length)) := by
      rw [hmoves, hvisited, show WalkResult.isStopped ⟨_, _, signal⟩ = _ from hfree]
      exact List.append_nil _
    refine ⟨⟨?_, fun h => absurd h hstops⟩, fun h => absurd h hstops, fun _ => ⟨?_, hmoves⟩, ?_,
      message_stopped _ _⟩
    · rintro ⟨visited, c, h⟩
      exact absurd (houtcome.symm.trans h) (hne visited c)
    · rw [houtcome, tokenize_eq_answer]
    · intro tokens h
      have hnone := hclean ⟨tokens, houtcome.symm.trans h⟩
      have hcount := count_ask_schedule (pollInterval_pos interval) 0 order
      rw [hnone, Option.map_none, Option.getD_none, List.take_length] at hmoves
      rw [asked_zero (pollInterval_pos interval), Nat.add_zero, Nat.zero_add] at hcount
      rw [hmoves, hcount]
      rfl

end Tree

end DocTokens
