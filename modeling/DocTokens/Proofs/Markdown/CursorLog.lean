import DocTokens.Proofs.Markdown.ControlCells
import DocTokens.Proofs.Markdown.LostNodes

/-! # The cursor at every moment

A conversion that keeps a log notes each node when it is entered and when it is left, and each line
of delimiters. Between two notes the cursor moves over what was left last and nothing else, so that
it is at all times the furthest end of what conversion is done with. A node whose place cannot be
told is put there.
-/

namespace DocTokens.Markdown

/-! ## Logged conversions -/

/-- A note in the log of a conversion. -/
inductive Event where
  /-- A node is entered while the cursor is at an offset. -/
  | enter (n : Node) (cursor : Nat)
  /-- A node is left with the cursor at an offset. Nodes without a place make no step. -/
  | leave (n : Node) (cursor : Nat) (step? : Option Step)
  /-- A header row is behind, and with it the line of delimiters if there is one. -/
  | control (cursor : Nat) (step? : Option Step)

namespace Event

def cursor : Event → Nat
  | enter _ cursor | leave _ cursor _ | control cursor _ => cursor

/-- What conversion is done with at this moment. -/
def step? : Event → Option Step
  | enter _ _ => none
  | leave _ _ step? | control _ step? => step?

end Event

/-- The steps that are taken in a part of a log. -/
def stepsIn (log : List Event) : List Step := log.filterMap Event.step?

/-- Puts a node together with what is converted below it. -/
def assemble (src : Source) (marker : Option UInt8) (n : Node) (cursor : Nat) (inner : Conversion) :
    Outcome :=
  if n.kind = .table then table src cursor inner else convertKind src marker n cursor inner

mutual

/-- `convertNode` with a log. What is below a closed node is not entered. -/
def logNode (src : Source) (marker : Option UInt8) : Node → Nat → List Event × Outcome
  | .mk kind lines children, cursor =>
    let below : List Event × Conversion :=
      if (Node.mk kind lines children).convertsBelow src then
        if kind = .table then logRows src children cursor
        else logAll src kind.marker? children cursor
      else ([], .empty cursor)
    let o := assemble src marker (.mk kind lines children) cursor below.2
    let step? := o.piece.map fun p =>
      ⟨some (.mk kind lines children), marker, cursor, (stepsIn below.1).length, p⟩
    (.enter (.mk kind lines children) cursor ::
      (below.1 ++ [.leave (.mk kind lines children) o.cursor step?]), o)

/-- `convertAll` with a log. -/
def logAll (src : Source) (marker : Option UInt8) : List Node → Nat → List Event × Conversion
  | [], cursor => ([], .empty cursor)
  | n :: rest, cursor =>
    let first := logNode src marker n cursor
    let more := logAll src marker rest first.2.cursor
    (first.1 ++ more.1, .cons first.2 more.2)

/-- `convertRows` with a log. -/
def logRows (src : Source) : List Node → Nat → List Event × Conversion
  | [], cursor => ([], .empty cursor)
  | n :: rest, cursor =>
    let first := logNode src none n cursor
    if n.kind = .tableHeader then
      let control := controlRow src first.2
      let step? := control.piece.map fun p => ⟨none, none, first.2.cursor, 0, p⟩
      let more := logRows src rest control.cursor
      (first.1 ++ .control control.cursor step? :: more.1, .cons first.2 (.cons control more.2))
    else
      let more := logRows src rest first.2.cursor
      (first.1 ++ more.1, .cons first.2 more.2)

end

/-- What is converted with a node, with a log. -/
def logBelow (src : Source) (n : Node) (cursor : Nat) : List Event × Conversion :=
  if n.convertsBelow src then
    if n.kind = .table then logRows src n.children cursor
    else logAll src n.kind.marker? n.children cursor
  else ([], .empty cursor)

/-- `convert` with a log. -/
def convertLog (src : Source) (document : Node) : List Event × (Tree × List Diagnostic) :=
  let all := logAll src none document.children 0
  (all.1, (all.2.entries.toTree ⟨.file, ⟨0, src.size⟩⟩, all.2.diagnostics))

section Results

variable {src : Source} {n : Node} {cursor : Nat}

/-- What is below a closed node does not matter. -/
theorem convertKind_of_closed (h : n.convertsBelow src = false) (marker : Option UInt8)
    (inner inner' : Conversion) :
    convertKind src marker n cursor inner = convertKind src marker n cursor inner' := by
  unfold Node.convertsBelow at h
  unfold convertKind
  extract_lets extent
  cases hk : n.kind with
  | fencedCode info =>
    simp only [hk] at h ⊢
    unfold fencedCode
    cases hstart : fenceStart? src info n.lines with
    | none => simp [hstart] at h
    | some start => rfl
  | codeBlock =>
    simp only [hk] at h ⊢
    unfold indentedCode
    cases hlines : n.lines with
    | nil => simp [hlines] at h
    | cons line lines => rfl
  | text | string | thematicBreak | htmlBlock | rawHtml | autoLink | directive | formula | underline
  | spacing | latex => rfl
  | _ => simp [hk, Kind.isLeaf] at h

theorem assemble_convertedBelow (src : Source) (marker : Option UInt8) (n : Node) (cursor : Nat) :
    assemble src marker n cursor (convertedBelow src n cursor) =
      convertNode src marker n cursor := by
  obtain ⟨kind, lines, children⟩ := n
  by_cases hk : kind = .table
  · subst hk
    rw [convertNode_table]
    rfl
  · have hbelow : convertBelow src (.mk kind lines children) cursor =
        convertAll src kind.marker? children cursor := if_neg hk
    have hassemble : ∀ inner, assemble src marker (.mk kind lines children) cursor inner =
        convertKind src marker (.mk kind lines children) cursor inner := fun _ => if_neg hk
    rw [convertNode_of_ne hk, hassemble, convertedBelow, hbelow]
    cases hopen : (Node.mk kind lines children).convertsBelow src with
    | true => rfl
    | false => exact convertKind_of_closed hopen marker _ _

section Sequences

variable {nodes : List Node} (h : ∀ n ∈ nodes, ∀ marker cursor,
  (logNode src marker n cursor).2 = convertNode src marker n cursor)
include h

theorem logAll_snd (marker : Option UInt8) (cursor : Nat) :
    (logAll src marker nodes cursor).2 = convertAll src marker nodes cursor := by
  induction nodes generalizing cursor with
  | nil => rfl
  | cons n rest ih =>
    rw [logAll, convertAll]
    simp only [h n List.mem_cons_self, ih fun m hm => h m (List.mem_cons_of_mem _ hm)]

theorem logRows_snd (cursor : Nat) :
    (logRows src nodes cursor).2 = convertRows src nodes cursor := by
  induction nodes generalizing cursor with
  | nil => rfl
  | cons n rest ih =>
    rw [logRows, convertRows]
    simp only [h n List.mem_cons_self]
    split
    · simp only [ih fun m hm => h m (List.mem_cons_of_mem _ hm)]
    · simp only [ih fun m hm => h m (List.mem_cons_of_mem _ hm)]

end Sequences

theorem logBelow_snd (h : ∀ m ∈ n.children, ∀ marker cursor,
    (logNode src marker m cursor).2 = convertNode src marker m cursor) (cursor : Nat) :
    (logBelow src n cursor).2 = convertedBelow src n cursor := by
  unfold logBelow convertedBelow convertBelow
  split
  · split
    · exact logRows_snd h cursor
    · exact logAll_snd h _ cursor
  · rfl

/-- The log does not change the outcome. -/
theorem logNode_snd (src : Source) (n : Node) (marker : Option UInt8) (cursor : Nat) :
    (logNode src marker n cursor).2 = convertNode src marker n cursor := by
  induction n using Node.of_children generalizing marker cursor with
  | h n ih =>
    rw [← assemble_convertedBelow, ← logBelow_snd ih]
    cases n
    rfl

theorem convertLog_snd (src : Source) (document : Node) :
    (convertLog src document).2 = convert src document := by
  simp only [convertLog, convert, logAll_snd fun n _ => logNode_snd src n]

end Results

/-! ## The cursor between two notes -/

section Notes

variable {src : Source} {start : Nat} {log log' before after : List Event} {e : Event}

theorem stepsIn_append (log log' : List Event) :
    stepsIn (log ++ log') = stepsIn log ++ stepsIn log' :=
  List.filterMap_append

theorem stepsIn_singleton (e : Event) : stepsIn [e] = e.step?.toList := by
  unfold stepsIn
  cases h : e.step? <;> simp [h]

/-- A note with the part of the log before it and the part after it. The cursor is where the steps
so far lead from `start`. The log of a node goes on from where it is entered, and reaches back from
where it is left. -/
structure Event.Fits (src : Source) (start : Nat) (before : List Event) (e : Event)
    (after : List Event) : Prop where
  cursor_eq : e.cursor = reach src start (stepsIn (before ++ [e]))
  entered : ∀ n cursor, e = .enter n cursor →
    ∃ marker, (logNode src marker n cursor).1 <+: e :: after
  left : ∀ n stop step?, e = .leave n stop step? →
    ∃ marker cursor, (logNode src marker n cursor).1 <:+ before ++ [e]

/-- More of the log on both sides. -/
theorem Event.Fits.extend {front : List Event}
    (h : e.Fits src (reach src start (stepsIn front)) before after) (back : List Event) :
    e.Fits src start (front ++ before) (after ++ back) where
  cursor_eq := by
    rw [List.append_assoc, stepsIn_append, reach_append]
    exact h.cursor_eq
  entered n cursor he := by
    obtain ⟨marker, hlog⟩ := h.entered n cursor he
    exact ⟨marker, hlog.trans (List.prefix_append (e :: after) back)⟩
  left n stop step? he := by
    obtain ⟨marker, cursor, hlog⟩ := h.left n stop step? he
    rw [List.append_assoc]
    exact ⟨marker, cursor, hlog.trans (List.suffix_append front (before ++ [e]))⟩

/-- A note in one log after another is in the first or in the second. -/
theorem log_split_cases (h : log ++ log' = before ++ e :: after) :
    (∃ mid, log = before ++ e :: mid ∧ after = mid ++ log') ∨
      ∃ mid, before = log ++ mid ∧ log' = mid ++ e :: after := by
  rcases List.append_eq_append_iff.mp h with ⟨mid, hbefore, hlog⟩ | ⟨mid, hlog, hafter⟩
  · exact .inr ⟨mid, hbefore, hlog⟩
  · cases mid with
    | nil => exact .inr ⟨[], by simpa using hlog.symm, by simpa using hafter.symm⟩
    | cons e' mid =>
      obtain ⟨rfl, rfl⟩ := List.cons.inj hafter
      exact .inl ⟨mid, hlog, rfl⟩

theorem log_split_singleton {e' : Event} (h : [e'] = before ++ e :: after) :
    before = [] ∧ e = e' ∧ after = [] := by
  cases before with
  | nil => simpa [eq_comm] using h
  | cons _ before => simp at h

/-- The log of a run from `start` on in which the steps are taken. All of its notes fit. -/
structure Logs (src : Source) (start : Nat) (log : List Event) (steps : List Step) : Prop where
  steps_eq : stepsIn log = steps
  fits : ∀ before e after, log = before ++ e :: after → e.Fits src start before after

namespace Logs

variable {steps steps' : List Step}

theorem nil : Logs src start [] [] := ⟨rfl, by simp⟩

theorem append (h : Logs src start log steps) (h' : Logs src (reach src start steps) log' steps') :
    Logs src start (log ++ log') (steps ++ steps') where
  steps_eq := by rw [stepsIn_append, h.steps_eq, h'.steps_eq]
  fits before e after hlog := by
    rcases log_split_cases hlog with ⟨mid, hleft, rfl⟩ | ⟨mid, rfl, hright⟩
    · have hfits : e.Fits src (reach src start (stepsIn [])) before mid := h.fits before e mid hleft
      exact hfits.extend log'
    · have hfits := h'.fits mid e after hright
      rw [← h.steps_eq] at hfits
      simpa using hfits.extend []

/-- A header row is followed by the step for its line of delimiters. -/
theorem control (row : Outcome) :
    Logs src row.cursor [.control (controlRow src row).cursor ((controlRow src row).piece.map
      fun p => ⟨none, none, row.cursor, 0, p⟩)] (controlSteps src row) := by
  have hsteps : ((controlRow src row).piece.map fun p => ⟨none, none, row.cursor, 0, p⟩).toList =
      controlSteps src row := by
    unfold controlSteps
    cases (controlRow src row).piece <;> rfl
  refine ⟨(stepsIn_singleton _).trans hsteps, fun before e after hlog => ?_⟩
  obtain ⟨rfl, rfl, rfl⟩ := log_split_singleton hlog
  refine ⟨?_, by simp, by simp⟩
  rw [List.nil_append, stepsIn_singleton]
  exact (cursor_controlRow row).trans (congrArg (reach src row.cursor) hsteps.symm)

end Logs

end Notes

section Runs

variable {src : Source} {n : Node} {cursor : Nat}

/-- Nodes without a place are closed. -/
theorem Node.not_convertsBelow_of_placeless (h : n.kind.isPlaceless = true) (src : Source) :
    n.convertsBelow src = false := by
  unfold convertsBelow
  cases hk : n.kind with
  | string | rawHtml => rfl
  | _ => simp [hk, Kind.isPlaceless] at h

/-- A node takes the steps below it and its own, if it has a place. -/
theorem Node.steps_eq (src : Source) (n : Node) (marker : Option UInt8) (cursor : Nat) :
    n.steps src marker cursor = n.stepsBelow src cursor ++
      ((convertNode src marker n cursor).piece.map
        fun p => ⟨some n, marker, cursor, (n.stepsBelow src cursor).length, p⟩).toList := by
  cases hplace : n.kind.isPlaceless with
  | true =>
    have hnone : (convertNode src marker n cursor).piece = none := piece_convertNode hplace marker
    rw [steps_of_none hnone, hnone, stepsBelow, not_convertsBelow_of_placeless hplace]
    rfl
  | false =>
    obtain ⟨p, hpiece, -⟩ := exists_piece hplace src marker cursor
    rw [steps_of_some hpiece, hpiece]
    rfl

theorem reach_steps (src : Source) (n : Node) (marker : Option UInt8) (cursor : Nat) :
    reach src cursor (n.steps src marker cursor) = (convertNode src marker n cursor).cursor :=
  (course_convertNode src n marker cursor).stop_eq

section Sequences

variable {nodes : List Node} (h : ∀ n ∈ nodes, ∀ marker cursor,
  Logs src cursor (logNode src marker n cursor).1 (n.steps src marker cursor))
include h

theorem logs_logAll (marker : Option UInt8) (cursor : Nat) :
    Logs src cursor (logAll src marker nodes cursor).1 (allSteps src marker nodes cursor) := by
  induction nodes generalizing cursor with
  | nil => exact .nil
  | cons n rest ih =>
    rw [logAll, allSteps]
    refine (h n List.mem_cons_self marker cursor).append ?_
    rw [reach_steps, logNode_snd]
    exact ih (fun m hm => h m (List.mem_cons_of_mem _ hm)) _

theorem logs_logRows (cursor : Nat) :
    Logs src cursor (logRows src nodes cursor).1 (rowSteps src nodes cursor) := by
  induction nodes generalizing cursor with
  | nil => exact .nil
  | cons n rest ih =>
    have hn := h n List.mem_cons_self none cursor
    have hrest := fun cursor => ih (fun m hm => h m (List.mem_cons_of_mem _ hm)) cursor
    rw [logRows, rowSteps]
    simp only [logNode_snd]
    split
    · refine hn.append ?_
      rw [reach_steps]
      refine (Logs.control _).append ?_
      rw [← cursor_controlRow]
      exact hrest _
    · refine hn.append ?_
      rw [reach_steps]
      exact hrest _

end Sequences

theorem logs_logBelow (h : ∀ m ∈ n.children, ∀ marker cursor,
    Logs src cursor (logNode src marker m cursor).1 (m.steps src marker cursor)) (cursor : Nat) :
    Logs src cursor (logBelow src n cursor).1 (n.stepsBelow src cursor) := by
  unfold logBelow Node.stepsBelow
  split
  · split
    · exact logs_logRows h cursor
    · exact logs_logAll h _ cursor
  · exact .nil

/-- The note with which a node is left that was entered at the cursor. -/
def Node.leaving (src : Source) (n : Node) (marker : Option UInt8) (cursor : Nat) : Event :=
  .leave n (convertNode src marker n cursor).cursor ((convertNode src marker n cursor).piece.map
    fun p => ⟨some n, marker, cursor, (n.stepsBelow src cursor).length, p⟩)

theorem logNode_fst (h : stepsIn (logBelow src n cursor).1 = n.stepsBelow src cursor)
    (marker : Option UInt8) : (logNode src marker n cursor).1 =
      .enter n cursor :: ((logBelow src n cursor).1 ++ [n.leaving src marker cursor]) := by
  rw [Node.leaving, ← logNode_snd, ← h]
  cases n
  rfl

/-- The cursor when a node is left. -/
theorem cursor_leaving (src : Source) (n : Node) (marker : Option UInt8) (cursor : Nat) :
    (n.leaving src marker cursor).cursor = reach src cursor
      (n.stepsBelow src cursor ++ (n.leaving src marker cursor).step?.toList) := by
  have hsteps : n.stepsBelow src cursor ++ (n.leaving src marker cursor).step?.toList =
      n.steps src marker cursor := (n.steps_eq src marker cursor).symm
  rw [hsteps, reach_steps]
  rfl

/-- One induction on the document: a node is entered, what is below it is logged, and it is left. -/
theorem logs_logNode (src : Source) (n : Node) (marker : Option UInt8) (cursor : Nat) :
    Logs src cursor (logNode src marker n cursor).1 (n.steps src marker cursor) := by
  induction n using Node.of_children generalizing marker cursor with
  | h n ih =>
    have hbelow := logs_logBelow ih cursor
    have hlog := logNode_fst hbelow.steps_eq marker
    have hsteps : stepsIn ((logBelow src n cursor).1 ++ [n.leaving src marker cursor]) =
        n.stepsBelow src cursor ++ (n.leaving src marker cursor).step?.toList := by
      rw [stepsIn_append, hbelow.steps_eq, stepsIn_singleton]
    refine ⟨?_, fun before e after hsplit => ?_⟩
    · rw [hlog, n.steps_eq]
      exact hsteps
    · have hinner := hlog.symm.trans hsplit
      -- the note is the first of the node, one of what is below it, or the last
      cases before with
      | nil =>
        obtain ⟨rfl, rfl⟩ := List.cons.inj hinner
        refine ⟨rfl, ?_, by simp⟩
        rintro _ _ ⟨⟩
        exact ⟨marker, hsplit ▸ List.prefix_refl _⟩
      | cons first before =>
        obtain ⟨rfl, hrest⟩ := List.cons.inj hinner
        rcases log_split_cases hrest with ⟨mid, hmid, rfl⟩ | ⟨mid, rfl, hlast⟩
        · have hfits : e.Fits src (reach src cursor (stepsIn [.enter n cursor])) before mid :=
            hbelow.fits before e mid hmid
          exact hfits.extend [n.leaving src marker cursor]
        · obtain ⟨rfl, rfl, rfl⟩ := log_split_singleton hlast
          refine ⟨?_, by simp [Node.leaving], ?_⟩
          · rw [cursor_leaving, ← hsteps, List.append_nil]
            rfl
          · intro m stop step? he
            obtain ⟨rfl, -, -⟩ := Event.leave.inj he
            exact ⟨marker, cursor, hsplit ▸ List.suffix_refl _⟩

end Runs

/-! ## Documents -/

section Documents

variable {src : Source} {document n : Node} {cursor : Nat} {before after : List Event} {e : Event}

theorem logs_convertLog (src : Source) (document : Node) :
    Logs src 0 (convertLog src document).1 (courseOf src document) :=
  logs_logAll (fun n _ => logs_logNode src n) none 0

/-- The part of a log in which a node is converted: it is entered, what is below it is logged, and
it is left. All that conversion was done with before ends at the cursor or before it. -/
structure Call (src : Source) (log before : List Event) (n : Node) (marker : Option UInt8)
    (cursor : Nat) (after : List Event) : Prop where
  log_eq : log = before ++ (.enter n cursor :: (logBelow src n cursor).1) ++
    n.leaving src marker cursor :: after
  stop_le : ∀ w ∈ stepsIn before, w.stop ≤ cursor
  /-- A node whose place cannot be told is put at the cursor. -/
  lost : n.IsLost src cursor →
    ∀ v ∈ (n.leaving src marker cursor).step?, v.piece.segment = .point cursor

section Moments

variable (h : document.Everywhere (Node.InRange src.size))
  (hlog : (convertLog src document).1 = before ++ e :: after)
include h hlog

theorem stop_stepsIn_le : ∀ w ∈ stepsIn (before ++ [e]), w.stop ≤ src.size := by
  intro w hw
  refine stop_courseOf_le h w ?_
  rw [← (logs_convertLog src document).steps_eq, hlog, List.append_cons, stepsIn_append]
  exact List.mem_append_left _ hw

theorem cursor_eq_furthest : e.cursor = furthest (stepsIn (before ++ [e])) := by
  rw [((logs_convertLog src document).fits before e after hlog).cursor_eq]
  exact reach_eq_furthest (stop_stepsIn_le h hlog)

end Moments

theorem cursor_le_size (hlog : (convertLog src document).1 = before ++ e :: after) :
    e.cursor ≤ src.size := by
  rw [((logs_convertLog src document).fits before e after hlog).cursor_eq]
  exact reach_le_size (Nat.zero_le _)

theorem cursor_le_of_mem_after (hlog : (convertLog src document).1 = before ++ e :: after) :
    ∀ e' ∈ after, e.cursor ≤ e'.cursor := by
  intro e' he'
  have hfits := (logs_convertLog src document).fits
  obtain ⟨mid, rest, rfl⟩ := List.append_of_mem he'
  have hlater := (hfits (before ++ e :: mid) e' rest (by simp [hlog])).cursor_eq
  have hsplit : before ++ e :: mid ++ [e'] = before ++ [e] ++ (mid ++ [e']) := by simp
  rw [(hfits before e _ hlog).cursor_eq, hlater, hsplit, stepsIn_append _ (mid ++ [e']),
    reach_append]
  exact le_reach src _ _

theorem call_of_log (h : document.Everywhere (Node.InRange src.size)) {marker : Option UInt8}
    (hlog : (convertLog src document).1 = before ++ (logNode src marker n cursor).1 ++ after) :
    Call src (convertLog src document).1 before n marker cursor after := by
  rw [logNode_fst (logs_logBelow (fun m _ => logs_logNode src m) cursor).steps_eq] at hlog
  have henter : (convertLog src document).1 = before ++ .enter n cursor ::
      ((logBelow src n cursor).1 ++ n.leaving src marker cursor :: after) := by simp [hlog]
  refine ⟨by simp [hlog], fun w hw => ?_, fun hlost v hv => ?_⟩
  · have hcursor : cursor = reach src 0 (stepsIn (before ++ [.enter n cursor])) :=
      ((logs_convertLog src document).fits before _ _ henter).cursor_eq
    have hmem : w ∈ stepsIn (before ++ [.enter n cursor]) := by
      rw [stepsIn_append]
      exact List.mem_append_left _ hw
    rw [hcursor]
    exact stop_le_reach hmem (stop_stepsIn_le h henter w hmem)
  · obtain ⟨p, hp, rfl⟩ := Option.map_eq_some_iff.mp hv
    exact atCursor_convertNode hlost (cursor_le_size henter) marker p hp

theorem exists_call_of_enter (h : document.Everywhere (Node.InRange src.size))
    (hlog : (convertLog src document).1 = before ++ .enter n cursor :: after) :
    ∃ marker rest, Call src (convertLog src document).1 before n marker cursor rest := by
  obtain ⟨marker, rest, hrest⟩ :=
    ((logs_convertLog src document).fits before _ after hlog).entered n cursor rfl
  exact ⟨marker, rest, call_of_log h (by rw [hlog, ← hrest, List.append_assoc])⟩

theorem exists_call_of_leave (h : document.Everywhere (Node.InRange src.size)) {stop : Nat}
    {step? : Option Step}
    (hlog : (convertLog src document).1 = before ++ .leave n stop step? :: after) :
    ∃ marker cursor earlier,
      Call src (convertLog src document).1 earlier n marker cursor after := by
  obtain ⟨marker, cursor, earlier, hearlier⟩ :=
    ((logs_convertLog src document).fits before _ after hlog).left n stop step? rfl
  exact ⟨marker, cursor, earlier, call_of_log h (by rw [hlog, hearlier, ← List.append_cons])⟩

end Documents

/-- The log of a conversion, which changes nothing of its result. Its steps deal with the nodes that
are converted and with the lines of delimiters, and the tree holds what they leave. Whenever a node
is entered or left, the cursor is inside of the source and the furthest end of all that conversion
is done with, so it never goes back. A node whose place cannot be told is put, as a point, behind
all that conversion was done with when the node was entered. -/
theorem convert_cursor (src : Source) (document : Node)
    (h : document.Everywhere (Node.InRange src.size)) :
    let t := (convert src document).1
    let log := (convertLog src document).1
    (convertLog src document).2 = convert src document ∧
    stepsIn log = courseOf src document ∧
    (nodeSteps src document).map Step.node? =
      (finishedAll (Node.convertsBelow src) document.children).map some ∧
    List.Forall₂ (fun v c => t.node? c.1.id = some c.1 ∧ c.1.span = v.piece.segment.toSpan)
      (nodeSteps src document) t.branches ∧
    t.controlSpans = delimiterSpans (courseOf src document) ∧
    (∀ before e after, log = before ++ e :: after → e.cursor ≤ src.size ∧
      e.cursor = furthest (stepsIn (before ++ [e])) ∧ ∀ e' ∈ after, e.cursor ≤ e'.cursor) ∧
    (∀ before n cursor after, log = before ++ .enter n cursor :: after →
      ∃ marker rest, Call src log before n marker cursor rest) ∧
    ∀ before n stop step? after, log = before ++ .leave n stop step? :: after →
      ∃ marker cursor earlier, Call src log earlier n marker cursor after := by
  intro t log
  refine ⟨convertLog_snd src document, (logs_convertLog src document).steps_eq,
    node?_nodeSteps src document, ?_, controlSpans_convert src document, ?_, ?_, ?_⟩
  · exact (convert_steps src document).2.imp fun v c hv => ⟨hv.held.2.1, hv.held.span_eq.symm⟩
  · intro before e after hlog
    exact ⟨cursor_le_size hlog, cursor_eq_furthest h hlog, cursor_le_of_mem_after hlog⟩
  · intro before n cursor after
    exact exists_call_of_enter h
  · intro before n stop step? after
    exact exists_call_of_leave h

def lostSource : Source := (utf8 "a\n\n|b|\n|-|\n").toArray

/-- An emphasis of nothing, the header of a table, and a break for which there is no line. -/
def lostDocument : Node :=
  .mk .document []
    [.mk .paragraph [⟨0, 2⟩] [.text ⟨0, 1⟩, .leaf .string, .leaf (.emphasis 1)],
      .mk .table [] [.mk .tableHeader [] [.mk .tableCell [] [.text ⟨4, 5⟩]]],
      .leaf .thematicBreak]

/-- The emphasis is put at the end of the text before it, the break at the end of the line of
delimiters. -/
theorem convert_cursor_lost_break :
    lostDocument.Everywhere (Node.InRange lostSource.size) ∧
    (Node.leaf (.emphasis 1)).IsLost lostSource 1 ∧
    (let t := (convert lostSource lostDocument).1
     let log := (convertLog lostSource lostDocument).1
     List.Forall₂ (fun v c => t.node? c.1.id = some c.1 ∧ c.1.span = v.piece.segment.toSpan)
      (nodeSteps lostSource lostDocument) t.branches ∧
     (∀ before e after, log = before ++ e :: after → e.cursor ≤ lostSource.size ∧
      e.cursor = furthest (stepsIn (before ++ [e])) ∧ ∀ e' ∈ after, e.cursor ≤ e'.cursor) ∧
     (∃ before marker rest, Call lostSource log before (.leaf (.emphasis 1)) marker 1 rest) ∧
     log.map Event.cursor = [0, 0, 1, 1, 1, 1, 1, 1, 1, 1, 1, 1, 5, 5, 5, 10, 10, 10, 10] ∧
     (stepsIn log).map (fun v => (v.cursor, v.piece.segment)) =
      [(0, ⟨0, 1⟩), (1, ⟨1, 1⟩), (0, ⟨0, 1⟩), (1, ⟨4, 5⟩), (1, ⟨4, 5⟩), (1, ⟨4, 5⟩), (5, ⟨7, 10⟩),
        (1, ⟨3, 10⟩), (10, ⟨10, 10⟩)]) := by
  have hrange : lostDocument.Everywhere (Node.InRange lostSource.size) := by
    simp only [lostDocument, Node.text, Node.leaf, Node.everywhere_mk_iff, List.forall_mem_cons,
      List.not_mem_nil, IsEmpty.forall_iff, implies_true, and_true]
    and_intros
    all_goals
      constructor <;> simp +decide
  have henter : .enter (.leaf (.emphasis 1)) 1 ∈ (convertLog lostSource lostDocument).1 := by
    have hnote : (convertLog lostSource lostDocument).1[5]? =
        some (.enter (.leaf (.emphasis 1)) 1) :=
      rfl
    exact List.mem_of_getElem? hnote
  obtain ⟨-, -, -, hplaces, -, hcursor, hcalls, -⟩ := convert_cursor lostSource lostDocument hrange
  obtain ⟨before, after, hlog⟩ := List.append_of_mem henter
  exact ⟨hrange, rfl, hplaces, hcursor, ⟨before, hcalls before _ 1 after hlog⟩, by decide +kernel,
    by decide +kernel⟩

end DocTokens.Markdown
