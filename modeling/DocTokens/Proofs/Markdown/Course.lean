import DocTokens.Proofs.Markdown.Coverage

/-! # The course of a conversion

Conversion is done with the nodes of a document one after another, from the leaves up. `Step` notes
for each of them the cursor at which it was begun and what it became. The cursor is never anything
but the furthest end inside of the source so far, so it is known from the steps taken before.
-/

namespace DocTokens.Markdown

/-! ## Steps -/

mutual

/-- The nodes of `finished`, each with the marker of the list that holds it. -/
def Node.marked (opens : Node → Bool) (marker : Option UInt8) : Node → List (Option UInt8 × Node)
  | .mk kind lines children =>
    if kind.isPlaceless then []
    else
      (if opens (.mk kind lines children) then markedAll opens kind.marker? children else []) ++
        [(marker, .mk kind lines children)]

/-- The nodes of `finishedAll`, each with the marker of the list that holds it. -/
def markedAll (opens : Node → Bool) (marker : Option UInt8) :
    List Node → List (Option UInt8 × Node)
  | [] => []
  | n :: rest => n.marked opens marker ++ markedAll opens marker rest

end

section Marked

variable {opens : Node → Bool} {n : Node}

theorem Node.marked_of_placeless (h : n.kind.isPlaceless = true) (marker : Option UInt8) :
    n.marked opens marker = [] := by
  cases n
  exact if_pos h

theorem Node.marked_of_placed (h : n.kind.isPlaceless = false) (marker : Option UInt8) :
    n.marked opens marker =
      (if opens n then markedAll opens n.kind.marker? n.children else []) ++ [(marker, n)] := by
  cases n with
  | mk kind lines children =>
    change kind.isPlaceless = false at h
    rw [marked, h]
    rfl

theorem map_snd_markedAll {nodes : List Node} (marker : Option UInt8)
    (h : ∀ n ∈ nodes, (n.marked opens marker).map Prod.snd = n.finished opens) :
    (markedAll opens marker nodes).map Prod.snd = finishedAll opens nodes := by
  induction nodes with
  | nil => rfl
  | cons n rest ih =>
    rw [markedAll, finishedAll, List.map_append, h n List.mem_cons_self,
      ih fun m hm => h m (List.mem_cons_of_mem _ hm)]

theorem Node.map_snd_marked (opens : Node → Bool) (n : Node) (marker : Option UInt8) :
    (n.marked opens marker).map Prod.snd = n.finished opens := by
  induction n using Node.of_children generalizing marker with
  | h n ih =>
    cases hplace : n.kind.isPlaceless with
    | true =>
      rw [marked_of_placeless hplace, finished_of_placeless hplace]
      rfl
    | false =>
      rw [marked_of_placed hplace, finished_of_placed hplace, List.map_append]
      split
      · rw [map_snd_markedAll _ fun m hm => ih m hm _]
        rfl
      · rfl

end Marked

/-- A node that conversion is done with. -/
structure Step where
  /-- The markdown node. The line of delimiters in a table is not one. -/
  node? : Option Node
  marker : Option UInt8
  /-- Where the cursor stood when the node was begun. -/
  cursor : Nat
  /-- How many steps were taken since then. -/
  inner : Nat
  piece : Piece

namespace Step

def start (v : Step) : Nat := v.piece.segment.start

/-- Where the node ends. -/
def stop (v : Step) : Nat := v.piece.segment.stop

/-- The markdown node with the marker of the list that holds it. -/
def marked? (v : Step) : Option (Option UInt8 × Node) := v.node?.map fun n => (v.marker, n)

/-- The node and what is below it. -/
def branch (v : Step) : Shape × Forest Shape :=
  (⟨v.piece.type, v.piece.segment.toSpan⟩, v.piece.below)

end Step

/-- The step for the line of delimiters after a row, if there is one. -/
def controlSteps (src : Source) (row : Outcome) : List Step :=
  (controlRow src row).piece.toList.map fun p => ⟨none, none, row.cursor, 0, p⟩

mutual

/-- The steps taken to convert a node, its own last. -/
def Node.steps (src : Source) (marker : Option UInt8) : Node → Nat → List Step
  | .mk kind lines children, cursor =>
    match (convertNode src marker (.mk kind lines children) cursor).piece with
    | none => []
    | some p =>
      let below :=
        if (Node.mk kind lines children).convertsBelow src then
          if kind = .table then rowSteps src children cursor
          else allSteps src kind.marker? children cursor
        else []
      below ++ [⟨some (.mk kind lines children), marker, cursor, below.length, p⟩]

/-- The steps taken to convert nodes one after another. -/
def allSteps (src : Source) (marker : Option UInt8) : List Node → Nat → List Step
  | [], _ => []
  | n :: rest, cursor =>
    n.steps src marker cursor ++ allSteps src marker rest (convertNode src marker n cursor).cursor

/-- The steps taken to convert the rows of a table. -/
def rowSteps (src : Source) : List Node → Nat → List Step
  | [], _ => []
  | n :: rest, cursor =>
    let o := convertNode src none n cursor
    if n.kind = .tableHeader then
      n.steps src none cursor ++ (controlSteps src o ++ rowSteps src rest (controlRow src o).cursor)
    else n.steps src none cursor ++ rowSteps src rest o.cursor

end

/-- The steps taken to convert what is converted with a node. -/
def Node.stepsBelow (src : Source) (n : Node) (cursor : Nat) : List Step :=
  if n.convertsBelow src then
    if n.kind = .table then rowSteps src n.children cursor
    else allSteps src n.kind.marker? n.children cursor
  else []

section Steps

variable {src : Source} {n : Node} {marker : Option UInt8} {cursor : Nat}

theorem Node.steps_of_none (h : (convertNode src marker n cursor).piece = none) :
    n.steps src marker cursor = [] := by
  cases n
  rw [steps, h]

theorem Node.steps_of_some {p : Piece} (h : (convertNode src marker n cursor).piece = some p) :
    n.steps src marker cursor = n.stepsBelow src cursor ++
      [⟨some n, marker, cursor, (n.stepsBelow src cursor).length, p⟩] := by
  cases n
  rw [steps, h]
  rfl

/-- The segments of converted nodes are those of their steps. -/
theorem exists_step_of_mem_segments {nodes : List Node} {s : Segment}
    (h : s ∈ (convertAll src marker nodes cursor).segments) :
    ∃ v ∈ allSteps src marker nodes cursor, v.piece.segment = s := by
  induction nodes generalizing cursor with
  | nil => cases h
  | cons n rest ih =>
    rw [convertAll, Conversion.cons] at h
    simp only [allSteps, List.mem_append]
    split at h
    · obtain ⟨v, hv, hs⟩ := ih h
      exact ⟨v, .inr hv, hs⟩
    · rename_i p hp
      rcases List.mem_cons.mp h with rfl | h
      · refine ⟨⟨some n, marker, cursor, (n.stepsBelow src cursor).length, p⟩, .inl ?_, rfl⟩
        simp [Node.steps_of_some hp]
      · obtain ⟨v, hv, hs⟩ := ih h
        exact ⟨v, .inr hv, hs⟩

end Steps

/-! ## The furthest end -/

/-- Where the cursor gets to along steps: to the furthest of their ends inside of the source. -/
def reach (src : Source) (cursor : Nat) (steps : List Step) : Nat :=
  steps.foldl (fun c v => advance src c v.stop) cursor

section Reach

variable {src : Source} {cursor pos : Nat} {steps : List Step} {v : Step}

theorem le_advance (src : Source) (cursor pos : Nat) : cursor ≤ advance src cursor pos := by
  unfold advance
  split
  · simp only [Bool.and_eq_true, decide_eq_true_eq] at *
    omega
  · exact Nat.le_refl cursor

theorem advance_eq_max (cursor : Nat) (h : pos ≤ src.size) :
    advance src cursor pos = max cursor pos := by
  unfold advance
  split
  · simp only [Bool.and_eq_true, decide_eq_true_eq] at *
    omega
  · simp only [Bool.and_eq_true, decide_eq_true_eq] at *
    omega

/-- An end that the cursor has passed, or that it cannot reach, does not move it. -/
theorem advance_eq_self (h : pos ≤ cursor ∨ src.size < pos) : advance src cursor pos = cursor := by
  unfold advance
  rw [if_neg]
  simp only [Bool.and_eq_true, decide_eq_true_eq]
  omega

theorem reach_append (src : Source) (cursor : Nat) (steps steps' : List Step) :
    reach src cursor (steps ++ steps') = reach src (reach src cursor steps) steps' :=
  List.foldl_append

theorem reach_concat (src : Source) (cursor : Nat) (steps : List Step) (v : Step) :
    reach src cursor (steps ++ [v]) = advance src (reach src cursor steps) v.stop :=
  reach_append src cursor steps [v]

theorem le_reach (src : Source) (cursor : Nat) (steps : List Step) :
    cursor ≤ reach src cursor steps := by
  induction steps generalizing cursor with
  | nil => exact Nat.le_refl cursor
  | cons v rest ih => exact Nat.le_trans (le_advance src cursor v.stop) (ih _)

theorem reach_le_size (h : cursor ≤ src.size) : reach src cursor steps ≤ src.size := by
  induction steps generalizing cursor with
  | nil => exact h
  | cons v rest ih => exact ih (advance_le h v.stop)

theorem stop_le_reach (hv : v ∈ steps) (h : v.stop ≤ src.size) :
    v.stop ≤ reach src cursor steps := by
  obtain ⟨before, after, rfl⟩ := List.append_of_mem hv
  have hadvance := advance_eq_max (reach src cursor before) h
  rw [reach_append]
  exact Nat.le_trans (by omega) (le_reach src (advance src (reach src cursor before) v.stop) after)

/-- The furthest end of steps. -/
def furthest (steps : List Step) : Nat := (steps.map Step.stop).foldl max 0

/-- Where all ends lie inside of the source, the cursor gets to the furthest. -/
theorem reach_eq_furthest (h : ∀ v ∈ steps, v.stop ≤ src.size) :
    reach src 0 steps = furthest steps := by
  unfold reach furthest
  generalize 0 = cursor
  induction steps generalizing cursor with
  | nil => rfl
  | cons v rest ih =>
    rw [List.foldl_cons, List.map_cons, List.foldl_cons, advance_eq_max _ (h v List.mem_cons_self)]
    exact ih (fun w hw => h w (List.mem_cons_of_mem _ hw)) _

/-- No step is ahead of where its own run gets to. -/
theorem advance_reach (hv : v ∈ steps) :
    advance src (reach src cursor steps) v.stop = reach src cursor steps := by
  refine advance_eq_self ?_
  rcases Nat.lt_or_ge src.size v.stop with hpast | hle
  · exact .inr hpast
  · exact .inl (stop_le_reach hv hle)

end Reach

/-! ## Where one node leaves the cursor -/

/-- A piece is left with the cursor advanced over it. -/
def Outcome.Moves (src : Source) (cursor : Nat) (o : Outcome) : Prop :=
  ∀ p ∈ o.piece, o.cursor = advance src cursor p.segment.stop

section Kinds

variable {src : Source} {cursor : Nat} {n : Node} {inner : Conversion} {s : Segment}
  {type : NodeType}

theorem moves_leafAt (type : NodeType) (s : Segment) (below : Forest Shape) :
    (leafAt src cursor type s below).Moves src cursor := by
  rintro p ⟨⟩
  rfl

theorem moves_containerAt (type : NodeType) (s : Segment) :
    (containerAt src type s inner).Moves src inner.cursor := by
  rintro p ⟨⟩
  rfl

theorem moves_heading (lines : List Segment) (extent : Option Segment) :
    (heading src lines extent cursor inner).Moves src inner.cursor := by
  unfold heading
  split
  · exact moves_containerAt _ _
  · exact moves_containerAt _ _

theorem moves_blockquote (extent : Option Segment) :
    (blockquote src extent cursor inner).Moves src inner.cursor := by
  unfold blockquote
  split
  · exact moves_containerAt _ _
  · exact moves_containerAt _ _

theorem moves_listItem (marker : Option UInt8) (extent : Option Segment) :
    (listItem src marker extent cursor inner).Moves src inner.cursor := by
  unfold listItem
  extract_lets bullet?
  clear_value bullet?
  split
  · rintro p ⟨⟩
    rfl
  · exact moves_containerAt _ _

theorem moves_fencedCode (info : Option Segment) (lines : List Segment) (extent : Option Segment) :
    (fencedCode src info lines extent cursor inner).Moves src
      (if (fenceStart? src info lines).isNone then inner.cursor else cursor) := by
  unfold fencedCode
  cases fenceStart? src info lines with
  | none => exact moves_containerAt _ _
  | some start => exact moves_leafAt _ _ _

theorem moves_indentedCode (lines : List Segment) (extent : Option Segment) :
    (indentedCode src lines extent cursor inner).Moves src
      (if lines.isEmpty then inner.cursor else cursor) := by
  cases lines with
  | nil => exact moves_containerAt _ _
  | cons line lines =>
    obtain ⟨stop, hplace⟩ := firstToLast?_cons line lines
    rw [indentedCode, hplace]
    exact moves_leafAt _ _ _

theorem moves_htmlBlock (type : Nat) (closure : Option Segment) (lines : List Segment) :
    (htmlBlock src type closure lines cursor).Moves src cursor := by
  unfold htmlBlock
  extract_lets nodeType place
  clear_value place
  split
  · exact moves_leafAt _ _ _
  · exact moves_leafAt _ _ _

theorem moves_rawHtml (segments : List Segment) :
    (rawHtml src segments cursor).Moves src cursor := by
  unfold rawHtml
  split
  · rintro p ⟨⟩
  · exact moves_leafAt _ _ _

theorem moves_autoLink (label : Segment) (protocol : Option Bytes) :
    (autoLink src label protocol cursor).Moves src cursor := by
  unfold autoLink
  extract_lets text found? url
  cases found? with
  | none => exact moves_leafAt _ _ _
  | some k => exact moves_leafAt _ _ _

theorem firstToLast?_stop {segments : List Segment} (h : firstToLast? segments = some s) :
    ∃ last ∈ segments, last.stop = s.stop := by
  unfold firstToLast? at h
  split at h
  · rename_i last _ hlast
    cases h
    exact ⟨_, List.mem_of_getLast? hlast, rfl⟩
  · cases h

/-- A list does not advance the cursor over itself: its last item has done so. -/
theorem moves_list (hle : cursor ≤ inner.cursor)
    (hsegments : ∀ s ∈ inner.segments, advance src inner.cursor s.stop = inner.cursor) :
    (list cursor inner).Moves src inner.cursor := by
  rintro p ⟨⟩
  dsimp only [list]
  cases hs : firstToLast? inner.segments with
  | none => exact (advance_eq_self (.inl hle)).symm
  | some s =>
    obtain ⟨last, hlast, hstop⟩ := firstToLast?_stop hs
    exact (hstop ▸ hsegments last hlast).symm

theorem moves_table {rows : Conversion} (hle : cursor ≤ rows.cursor) :
    (table src cursor rows).Moves src rows.cursor := by
  unfold table
  split
  · rintro p ⟨⟩
    exact (advance_eq_self (.inl hle)).symm
  · exact moves_containerAt _ _

/-- One case for each kind of node. -/
theorem moves_convertKind (ht : n.kind ≠ .table) (hle : cursor ≤ inner.cursor)
    (hsegments : ∀ s ∈ inner.segments, advance src inner.cursor s.stop = inner.cursor)
    (marker : Option UInt8) : (convertKind src marker n cursor inner).Moves src
      (if n.convertsBelow src then inner.cursor else cursor) := by
  unfold convertKind Node.convertsBelow
  extract_lets extent
  cases hk : n.kind with
  | text | spacing | latex | thematicBreak | formula | underline => exact moves_leafAt _ _ _
  | directive d =>
    rintro p ⟨⟩
    rfl
  | string => rintro p ⟨⟩
  | fencedCode info => exact moves_fencedCode info n.lines extent
  | codeBlock => exact moves_indentedCode n.lines extent
  | htmlBlock type closure => exact moves_htmlBlock type closure n.lines
  | rawHtml segments => exact moves_rawHtml segments
  | autoLink label protocol => exact moves_autoLink label protocol
  | heading level => exact moves_heading n.lines extent
  | blockquote => exact moves_blockquote extent
  | list => exact moves_list hle hsegments
  | listItem => exact moves_listItem marker extent
  | link | image =>
    rintro p ⟨⟩
    rfl
  | paragraph | textBlock | document | emphasis | strikethrough | codeSpan | tableHeader
  | tableRow | tableCell | otherBlock | otherInline => exact moves_containerAt _ _
  | table => exact absurd hk ht

theorem cursor_convertedBelow (src : Source) (n : Node) (cursor : Nat) :
    (convertedBelow src n cursor).cursor =
      if n.convertsBelow src then (convertBelow src n cursor).cursor else cursor := by
  unfold convertedBelow
  split <;> rfl

theorem moves_convertNode (hle : cursor ≤ (convertBelow src n cursor).cursor)
    (hsegments : n.kind ≠ .table → ∀ s ∈ (convertBelow src n cursor).segments,
      advance src (convertBelow src n cursor).cursor s.stop = (convertBelow src n cursor).cursor)
    (marker : Option UInt8) :
    (convertNode src marker n cursor).Moves src (convertedBelow src n cursor).cursor := by
  rw [cursor_convertedBelow]
  cases n with
  | mk kind lines children =>
    by_cases hk : kind = .table
    · subst hk
      rw [convertNode_table]
      exact moves_table hle
    · have hbelow : convertBelow src (.mk kind lines children) cursor =
          convertAll src kind.marker? children cursor := if_neg hk
      rw [hbelow] at hle hsegments ⊢
      rw [convertNode_of_ne hk]
      exact moves_convertKind (n := .mk kind lines children) hk hle (hsegments hk) marker

/-- Without a piece the cursor stays. -/
theorem cursor_of_placeless (h : n.kind.isPlaceless = true) (marker : Option UInt8) :
    (convertNode src marker n cursor).cursor = cursor := by
  cases n with
  | mk kind lines children =>
    rw [convertNode_of_ne (by rintro rfl; cases h)]
    cases kind with
    | string => rfl
    | rawHtml segments =>
      obtain rfl : segments = [] := List.isEmpty_iff.mp h
      rfl
    | _ => cases h

theorem cursor_controlRow (o : Outcome) : (controlRow src o).cursor =
    reach src o.cursor (controlSteps src o) := by
  unfold controlSteps controlRow
  split
  · rfl
  · dsimp only
    split <;> rfl

end Kinds

/-! ## Whole runs -/

/-- The step says what became of its node. -/
structure Step.Sound (src : Source) (v : Step) : Prop where
  converted : ∀ n ∈ v.node?, (convertNode src v.marker n v.cursor).piece = some v.piece
  closed : ∀ n ∈ v.node?, n.convertsBelow src = false → v.inner = 0
  control : v.node? = none → ∃ row, (controlRow src row).piece = some v.piece

/-- The steps deal with the nodes in order and leave the branches. Each was begun where the steps
before it had got to. -/
structure Course (src : Source) (start : Nat) (steps : List Step)
    (nodes : List (Option UInt8 × Node)) (branches : List (Shape × Forest Shape)) (stop : Nat) :
    Prop where
  nodes_eq : steps.filterMap Step.marked? = nodes
  branches_eq : (steps.filter fun v => v.node?.isSome).map Step.branch = branches
  sound : ∀ v ∈ steps, v.Sound src
  timely : ∀ i v, steps[i]? = some v →
    v.inner ≤ i ∧ v.cursor = reach src start (steps.take (i - v.inner))
  stop_eq : reach src start steps = stop

namespace Course

variable {src : Source} {start mid stop : Nat} {steps steps' : List Step}
  {nodes nodes' : List (Option UInt8 × Node)} {branches branches' : List (Shape × Forest Shape)}
  {v : Step} {n : Node}

theorem nil : Course src start [] [] [] start := by
  refine ⟨rfl, rfl, ?_, ?_, rfl⟩
  · simp
  · simp

theorem timely_left (h : Course src start steps nodes branches mid) {i : Nat}
    (hlt : i < steps.length) (hi : (steps ++ steps')[i]? = some v) :
    v.inner ≤ i ∧ v.cursor = reach src start ((steps ++ steps').take (i - v.inner)) := by
  rw [List.getElem?_append_left hlt] at hi
  rw [List.take_append_of_le_length (by omega)]
  exact h.timely i v hi

theorem append (h : Course src start steps nodes branches mid)
    (h' : Course src mid steps' nodes' branches' stop) :
    Course src start (steps ++ steps') (nodes ++ nodes') (branches ++ branches') stop where
  nodes_eq := by rw [List.filterMap_append, h.nodes_eq, h'.nodes_eq]
  branches_eq := by rw [List.filter_append, List.map_append, h.branches_eq, h'.branches_eq]
  sound v hv := (List.mem_append.mp hv).elim (h.sound v) (h'.sound v)
  timely i v hi := by
    rcases Nat.lt_or_ge i steps.length with hlt | hge
    · exact h.timely_left hlt hi
    · rw [List.getElem?_append_right hge] at hi
      obtain ⟨hinner, hcursor⟩ := h'.timely (i - steps.length) v hi
      have hcount : i - v.inner = steps.length + (i - steps.length - v.inner) := by omega
      rw [hcount, List.take_length_add_append, reach_append, h.stop_eq]
      exact ⟨by omega, hcursor⟩
  stop_eq := by rw [reach_append, h.stop_eq, h'.stop_eq]

/-- A node is done with after what is below it. -/
theorem finish (h : Course src start steps nodes branches mid) (hv : v.Sound src)
    (hnode : v.node? = some n) (hcursor : v.cursor = start) (hinner : v.inner = steps.length) :
    Course src start (steps ++ [v]) (nodes ++ [(v.marker, n)]) (branches ++ [v.branch])
      (advance src mid v.stop) where
  nodes_eq := by rw [List.filterMap_append, h.nodes_eq]; simp [Step.marked?, hnode]
  branches_eq := by rw [List.filter_append, List.map_append, h.branches_eq]; simp [hnode]
  sound w hw := by
    rcases List.mem_append.mp hw with hw | hw
    · exact h.sound w hw
    · exact List.mem_singleton.mp hw ▸ hv
  timely i w hi := by
    rcases Nat.lt_or_ge i steps.length with hlt | hge
    · exact h.timely_left hlt hi
    · rw [List.getElem?_append_right hge, List.getElem?_singleton] at hi
      split at hi
      · cases hi
        have hcount : i - v.inner = 0 := by omega
        rw [hcount, List.take_zero]
        exact ⟨by omega, hcursor⟩
      · cases hi
  stop_eq := by rw [reach_concat, h.stop_eq]

theorem control (row : Outcome) :
    Course src row.cursor (controlSteps src row) [] [] (controlRow src row).cursor := by
  rw [cursor_controlRow]
  unfold controlSteps
  cases hp : (controlRow src row).piece with
  | none => exact nil
  | some p =>
    refine ⟨rfl, rfl, ?_, ?_, rfl⟩
    · intro v hv
      obtain rfl := List.mem_singleton.mp hv
      exact ⟨by simp, by simp, fun _ => ⟨row, hp⟩⟩
    · intro i v hi
      obtain ⟨hzero, rfl⟩ : i = 0 ∧ _ = v := by
        simpa [List.getElem?_singleton, Option.toList] using hi
      subst hzero
      exact ⟨Nat.le_refl 0, rfl⟩

/-- Right before a step without steps of its own, the cursor is where that step was begun. -/
theorem cursor_eq {before after : List Step} (h : Course src start steps nodes branches stop)
    (hsteps : steps = before ++ v :: after) (hv : v.inner = 0) :
    v.cursor = reach src start before := by
  have htimely := (h.timely before.length v (by simp [hsteps])).2
  rwa [hv, Nat.sub_zero, hsteps, List.take_left] at htimely

end Course

section Runs

variable {src : Source} {cursor : Nat} {parent : NodeType}

theorem cursor_cons (o : Outcome) (rest : Conversion) :
    (Conversion.cons o rest).cursor = rest.cursor := by
  unfold Conversion.cons
  split <;> rfl

section Sequences

variable {nodes : List Node} (h : ∀ n ∈ nodes, ∀ marker cursor,
  Course src cursor (n.steps src marker cursor) (n.marked (Node.convertsBelow src) marker)
    (convertNode src marker n cursor).branches (convertNode src marker n cursor).cursor)
include h

theorem course_convertAll (hp : parent.holdsText = false) (marker : Option UInt8) :
    Course src cursor (allSteps src marker nodes cursor)
      (markedAll (Node.convertsBelow src) marker nodes)
      ((convertAll src marker nodes cursor).entries.branches Shape.type parent)
      (convertAll src marker nodes cursor).cursor := by
  induction nodes generalizing cursor with
  | nil => exact .nil
  | cons n rest ih =>
    have hshown := isSynthesized_convertNode hp src n marker cursor
    rw [convertAll, markedAll, allSteps, branches_cons hshown, cursor_cons]
    exact (h n List.mem_cons_self marker cursor).append
      (ih fun m hm => h m (List.mem_cons_of_mem _ hm))

theorem course_convertRows (hp : parent.holdsText = false) :
    Course src cursor (rowSteps src nodes cursor) (markedAll (Node.convertsBelow src) none nodes)
      ((convertRows src nodes cursor).entries.branches Shape.type parent)
      (convertRows src nodes cursor).cursor := by
  induction nodes generalizing cursor with
  | nil => exact .nil
  | cons n rest ih =>
    have ho := h n List.mem_cons_self none cursor
    have hrest := fun cursor => @ih cursor fun m hm => h m (List.mem_cons_of_mem _ hm)
    have hshown := isSynthesized_convertNode hp src n none cursor
    rw [convertRows, markedAll, rowSteps]
    dsimp only
    split
    · rw [branches_cons hshown, branches_cons_controlRow, cursor_cons, cursor_cons]
      exact ho.append ((Course.control _).append (hrest _))
    · rw [branches_cons hshown, cursor_cons]
      exact ho.append (hrest _)

end Sequences

theorem course_stepsBelow {n : Node} (h : ∀ m ∈ n.children, ∀ marker cursor,
    Course src cursor (m.steps src marker cursor) (m.marked (Node.convertsBelow src) marker)
      (convertNode src marker m cursor).branches (convertNode src marker m cursor).cursor)
    (cursor : Nat) :
    Course src cursor (n.stepsBelow src cursor)
      (if n.convertsBelow src then markedAll (Node.convertsBelow src) n.kind.marker? n.children
        else [])
      ((convertedBelow src n cursor).entries.branches Shape.type (n.kind.nodeType src))
      (convertedBelow src n cursor).cursor := by
  unfold Node.stepsBelow convertedBelow
  cases hopen : n.convertsBelow src with
  | false => exact .nil
  | true =>
    have htext := Node.holdsText_of_convertsBelow hopen
    rw [if_pos rfl, if_pos rfl, if_pos rfl]
    unfold convertBelow
    split
    · rename_i hk
      rw [hk] at htext ⊢
      exact course_convertRows h htext
    · exact course_convertAll h htext _

/-- One induction on the document: what is below a node is done with first, then the node. -/
theorem course_convertNode (src : Source) (n : Node) (marker : Option UInt8) (cursor : Nat) :
    Course src cursor (n.steps src marker cursor) (n.marked (Node.convertsBelow src) marker)
      (convertNode src marker n cursor).branches (convertNode src marker n cursor).cursor := by
  induction n using Node.of_children generalizing marker cursor with
  | h n ih =>
    cases hplace : n.kind.isPlaceless with
    | true =>
      have hnone : (convertNode src marker n cursor).piece = none := piece_convertNode hplace marker
      rw [Node.steps_of_none hnone, Node.marked_of_placeless hplace, Outcome.branches, hnone,
        cursor_of_placeless hplace]
      exact .nil
    | false =>
      obtain ⟨p, hpiece, -⟩ := exists_piece hplace src marker cursor
      have hfile : NodeType.file.holdsText = false := rfl
      have hmoves : (convertNode src marker n cursor).Moves src
          (convertedBelow src n cursor).cursor := by
        refine moves_convertNode ?_ (fun hk s hs => ?_) marker
        · unfold convertBelow
          split
          · exact (course_convertRows ih hfile).stop_eq ▸ le_reach src cursor _
          · exact (course_convertAll ih hfile _).stop_eq ▸ le_reach src cursor _
        · rw [convertBelow, if_neg hk] at hs ⊢
          obtain ⟨v, hv, rfl⟩ := exists_step_of_mem_segments hs
          rw [← (course_convertAll ih hfile _).stop_eq]
          exact advance_reach hv
      rw [Node.steps_of_some hpiece, Node.marked_of_placed hplace, Outcome.branches, hpiece,
        hmoves p hpiece]
      dsimp only
      rw [branches_convertNode hpiece]
      refine (course_stepsBelow ih cursor).finish ⟨?_, ?_, ?_⟩ rfl rfl rfl
      · rintro m ⟨⟩
        exact hpiece
      · rintro m ⟨⟩ hclosed
        simp [Node.stepsBelow, hclosed]
      · rintro ⟨⟩

end Runs

/-! ## Documents -/

/-- The steps taken to convert a document. -/
def courseOf (src : Source) (document : Node) : List Step := allSteps src none document.children 0

/-- The steps that deal with nodes of the document, without the lines of delimiters. -/
def nodeSteps (src : Source) (document : Node) : List Step :=
  (courseOf src document).filter fun v => v.node?.isSome

section Documents

variable {src : Source} {document : Node}

theorem course_convert (src : Source) (document : Node) : Course src 0 (courseOf src document)
    (markedAll (Node.convertsBelow src) none document.children)
    ((convertAll src none document.children 0).entries.branches Shape.type .file)
    (convertAll src none document.children 0).cursor :=
  course_convertAll (fun n _ => course_convertNode src n) rfl none

theorem Node.Everywhere.of_mem_finishedAll {P : Node → Prop} {m : Node} (h : document.Everywhere P)
    (hm : m ∈ finishedAll (Node.convertsBelow src) document.children) : m.Everywhere P := by
  obtain ⟨n, hn, hm⟩ := mem_finishedAll_iff.mp hm
  have hchild := h.children n hn
  cases hplace : n.kind.isPlaceless with
  | true =>
    rw [Node.finished_of_placeless hplace] at hm
    cases hm
  | false =>
    rw [Node.finished_of_placed hplace, List.mem_append, List.mem_singleton] at hm
    rcases hm with hm | rfl
    · exact (hchild.of_mem_finishedBelow hm).1
    · exact hchild

theorem cursor_courseOf_le : ∀ v ∈ courseOf src document, v.cursor ≤ src.size := by
  intro v hv
  obtain ⟨i, hi⟩ := List.getElem?_of_mem hv
  rw [((course_convert src document).timely i v hi).2]
  exact reach_le_size (Nat.zero_le _)

/-- A step that deals with a node of the document, and what it leaves in the tree. -/
structure Step.Leaves (src : Source) (document : Node) (v : Step)
    (c : DocTokens.Node × Forest DocTokens.Node) : Prop where
  mem : v ∈ courseOf src document
  mem_nodes : ∀ n ∈ v.node?, n ∈ finishedAll (Node.convertsBelow src) document.children
  converted : ∀ n ∈ v.node?, (convertNode src v.marker n v.cursor).piece = some v.piece
  held : (convert src document).1.Holds v.branch c

/-- The steps deal with the nodes that are converted, and the tree holds what they leave. -/
theorem convert_steps (src : Source) (document : Node) :
    (nodeSteps src document).map Step.marked? =
      (markedAll (Node.convertsBelow src) none document.children).map some ∧
    List.Forall₂ (Step.Leaves src document) (nodeSteps src document)
      (convert src document).1.branches := by
  have hcourse := course_convert src document
  constructor
  · rw [← hcourse.nodes_eq, nodeSteps]
    generalize courseOf src document = steps
    induction steps with
    | nil => rfl
    | cons v rest ih => cases hv : v.node? <;> simp [Step.marked?, hv, ih]
  · have hbranches := Forest.forall₂_branches_toTree (plain_convert src document)
      ⟨.file, ⟨0, src.size⟩⟩
    rw [← hcourse.branches_eq, List.forall₂_map_left_iff] at hbranches
    refine ((List.forall₂_and_left _ _).mpr ⟨fun v hv => hv, hbranches⟩).imp ?_
    rintro v c ⟨hv, hheld⟩
    have hmem := List.mem_of_mem_filter hv
    refine ⟨hmem, fun n hn => ?_, (hcourse.sound v hmem).converted, hheld⟩
    have hmarked : (v.marker, n) ∈ markedAll (Node.convertsBelow src) none document.children := by
      rw [← hcourse.nodes_eq]
      exact List.mem_filterMap.mpr ⟨v, hmem, by rw [Step.marked?, hn, Option.map_some]⟩
    rw [← map_snd_markedAll none fun n _ => n.map_snd_marked _ _]
    exact List.mem_map_of_mem hmarked

/-- The steps deal with the nodes that are converted, one after another. -/
theorem node?_nodeSteps (src : Source) (document : Node) :
    (nodeSteps src document).map Step.node? =
      (finishedAll (Node.convertsBelow src) document.children).map some := by
  have hmarked := congrArg (List.map (Option.map Prod.snd)) (convert_steps src document).1
  rw [List.map_map, List.map_map] at hmarked
  rw [← map_snd_markedAll none fun n _ => n.map_snd_marked _ _, List.map_map]
  refine Eq.trans (List.map_congr_left fun v _ => ?_) hmarked
  cases hv : v.node? <;> simp [Step.marked?, hv]

end Documents

end DocTokens.Markdown
