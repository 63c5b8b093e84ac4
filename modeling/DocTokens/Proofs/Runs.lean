import DocTokens.CommandLine.Command
import DocTokens.Proofs.Reports
import DocTokens.Proofs.Searches
import DocTokens.Proofs.Tokens

/-! # Runs

Under a signal that never stops, a run treats every document on its own: its results and its
failures are those of the documents found, one by one and in order. Every document has a result or a
failure, and neither depends on any other document.
-/

namespace DocTokens

/-! ## Signals that never stop -/

theorem Tree.tokenize?_never (t : Option Tree) (text : Bytes) (interval : Int) :
    (tokenize? t text interval .never).2 = .never := by
  cases t with
  | none => rfl
  | some t =>
    have hsignal := visitAll_never_signal (pollInterval interval) (t.emit (.ofBytes text))
      (t.orderFrom t.unseen [t.root]) 0 #[]
    simp only [tokenize?, tokenize, walk, walkFrom_eq_visitAll]
    split <;> exact hsignal

theorem DocumentTokens.ofText_never (parser : Parser) (file : String) (text : Bytes)
    (interval : Int) : (ofText parser file text interval .never).2 = .never := by
  rw [ofText, StopSignal.poll_never]
  cases hparsed : parser file text with
  | error reason => rfl
  | ok parsed =>
    have hsignal := Tree.tokenize?_never parsed.tree text interval
    dsimp only
    split
    · rename_i e signal htokens
      rw [htokens] at hsignal
      exact hsignal
    · rename_i tokens signal htokens
      rw [htokens] at hsignal
      exact hsignal

/-! ## One document on its own -/

/-- The document that an error is about. -/
def DocumentError.file : DocumentError → String
  | stopped file _ | rejected file _ | untokenized file _ => file

/-- The document that a failure is about. -/
def DocumentFailure.file : DocumentFailure → String
  | unreadable file _ | faulty file _ => file
  | untokenized cause => cause.file

section Alone

variable (parser : Parser) (read : String → Except String Bytes) (interval : Int)

/-- The result of a document on its own, if it can be read and tokenized. -/
def DocumentTokens.alone? (file : String) : Option DocumentTokens :=
  match read file with
  | .error _ => none
  | .ok text => (ofText parser file text interval .never).1.toOption

/-- What is wrong with a document on its own: it cannot be read, it cannot be tokenized, or it has
error diagnostics. -/
def DocumentFailure.alone? (file : String) : Option DocumentFailure :=
  match read file with
  | .error reason => some (.unreadable file reason)
  | .ok text =>
    match (DocumentTokens.ofText parser file text interval .never).1 with
    | .error e => some (.untokenized e)
    | .ok r =>
      let errors := r.diagnostics.countP (·.severity = .error)
      if 0 < errors then some (.faulty file errors) else none

end Alone

section Facts

variable {parser : Parser} {read : String → Except String Bytes} {interval : Int} {file : String}

/-- Results and errors bear the name of their document. -/
theorem DocumentTokens.ofText_file (parser : Parser) (file : String) (text : Bytes) (interval : Int)
    (signal : StopSignal) :
    (∀ r, (ofText parser file text interval signal).1 = .ok r → r.file = file) ∧
      ∀ e, (ofText parser file text interval signal).1 = .error e → e.file = file := by
  unfold ofText
  split
  · exact ⟨by simp, by rintro e ⟨⟩; rfl⟩
  · split
    · exact ⟨by simp, by rintro e ⟨⟩; rfl⟩
    · split
      · exact ⟨by simp, by rintro e ⟨⟩; rfl⟩
      · exact ⟨by rintro r ⟨⟩; rfl, by simp⟩

/-- A document cannot be read, cannot be tokenized, or has a result. -/
theorem alone_cases (parser : Parser) (read : String → Except String Bytes) (interval : Int)
    (file : String) :
    (∃ reason, read file = .error reason ∧
      DocumentTokens.alone? parser read interval file = none ∧
      DocumentFailure.alone? parser read interval file = some (.unreadable file reason)) ∨
    (∃ text e, read file = .ok text ∧ e.file = file ∧
      DocumentTokens.ofText parser file text interval .never = (.error e, .never) ∧
      DocumentTokens.alone? parser read interval file = none ∧
      DocumentFailure.alone? parser read interval file = some (.untokenized e)) ∨
    ∃ text r, read file = .ok text ∧ r.file = file ∧
      DocumentTokens.ofText parser file text interval .never = (.ok r, .never) ∧
      DocumentTokens.alone? parser read interval file = some r ∧
      DocumentFailure.alone? parser read interval file =
        if 0 < r.diagnostics.countP (·.severity = .error)
        then some (.faulty file (r.diagnostics.countP (·.severity = .error))) else none := by
  cases hread : read file with
  | error reason =>
    refine .inl ⟨reason, rfl, ?_, ?_⟩
    · rw [DocumentTokens.alone?, hread]
    · rw [DocumentFailure.alone?, hread]
  | ok text =>
    have hsignal := DocumentTokens.ofText_never parser file text interval
    obtain ⟨hresult, herror⟩ := DocumentTokens.ofText_file parser file text interval .never
    rw [DocumentTokens.alone?, DocumentFailure.alone?, hread]
    cases hrun : DocumentTokens.ofText parser file text interval .never with
    | mk outcome signal =>
      simp only [hrun] at hsignal hresult herror ⊢
      subst hsignal
      cases outcome with
      | error e => exact .inr (.inl ⟨text, e, rfl, herror e rfl, hrun, rfl, rfl⟩)
      | ok r => exact .inr (.inr ⟨text, r, rfl, hresult r rfl, hrun, rfl, rfl⟩)

theorem DocumentTokens.file_of_alone? {r : DocumentTokens}
    (h : alone? parser read interval file = some r) : r.file = file := by
  rcases alone_cases parser read interval file with
    ⟨_, _, hnone, _⟩ | ⟨_, _, _, _, _, hnone, _⟩ | ⟨_, r', _, hfile, _, hsome, _⟩
  · simp [hnone] at h
  · simp [hnone] at h
  · obtain rfl : r' = r := by simpa [hsome] using h
    exact hfile

theorem DocumentFailure.file_of_alone? {e : DocumentFailure}
    (h : alone? parser read interval file = some e) : e.file = file := by
  rcases alone_cases parser read interval file with
    ⟨_, _, _, hsome⟩ | ⟨_, _, _, hfile, _, _, hsome⟩ | ⟨_, _, _, _, _, _, hsome⟩
  · rw [hsome] at h
    cases h
    rfl
  · rw [hsome] at h
    cases h
    exact hfile
  · rw [hsome] at h
    split at h
    · cases h
      rfl
    · cases h

/-- A document without a result has a failure. -/
theorem DocumentFailure.exists_of_no_result
    (h : DocumentTokens.alone? parser read interval file = none) :
    ∃ e, alone? parser read interval file = some e := by
  rcases alone_cases parser read interval file with
    ⟨_, _, _, hsome⟩ | ⟨_, _, _, _, _, _, hsome⟩ | ⟨_, _, _, _, _, hresult, _⟩
  · exact ⟨_, hsome⟩
  · exact ⟨_, hsome⟩
  · simp [hresult] at h

/-- Nothing but the content of a document, or why it cannot be read, matters for it. -/
theorem alone_congr {read' : String → Except String Bytes} (h : read' file = read file) :
    DocumentTokens.alone? parser read' interval file =
        DocumentTokens.alone? parser read interval file ∧
      DocumentFailure.alone? parser read' interval file =
        DocumentFailure.alone? parser read interval file := by
  simp only [DocumentTokens.alone?, DocumentFailure.alone?, h, and_self]

end Facts

/-! ## Documents one by one -/

namespace RunOutcome

theorem ofTokens_eq (r : DocumentTokens) :
    ofTokens r = ⟨[r], if 0 < r.diagnostics.countP (·.severity = .error)
      then [.faulty r.file (r.diagnostics.countP (·.severity = .error))] else []⟩ := by
  have hcount : (DiagnosticGroups.ofList r.diagnostics).errors.length =
      r.diagnostics.countP (·.severity = .error) := by
    rw [List.countP_eq_length_filter]
    rfl
  have hsome : (DiagnosticGroups.ofList r.diagnostics).hasErrors = true ↔
      0 < (DiagnosticGroups.ofList r.diagnostics).errors.length := by
    simp [DiagnosticGroups.hasErrors, List.length_pos_iff]
  simp only [ofTokens, hsome, hcount]

variable (parser : Parser) (read : String → Except String Bytes) (interval : Int)

theorem ofFile_never (file : String) :
    ofFile parser read interval file .never =
      (⟨(DocumentTokens.alone? parser read interval file).toList,
        (DocumentFailure.alone? parser read interval file).toList⟩, .never) := by
  rcases alone_cases parser read interval file with
    ⟨reason, hread, hnone, hfailure⟩ | ⟨text, e, hread, _, hrun, hnone, hfailure⟩ |
      ⟨text, r, hread, hfile, hrun, hresult, hfailure⟩
  · simp only [ofFile, hread, hnone, hfailure, Option.toList]
  · simp only [ofFile, hread, hrun, hnone, hfailure, Option.toList]
  · simp only [ofFile, hread, hrun, hresult, hfailure, ofTokens_eq, hfile]
    split <;> rfl

theorem ofFiles_never (files : List String) :
    ofFiles parser read interval files .never =
      (⟨files.filterMap (DocumentTokens.alone? parser read interval),
        files.filterMap (DocumentFailure.alone? parser read interval)⟩, .never) := by
  induction files with
  | nil => rfl
  | cons file files ih =>
    simp only [ofFiles, ofFile_never, ih, List.filterMap_eq_flatMap_toList, List.flatMap_cons]
    rfl

/-- Where answers bear the name they are about, names can be picked before or after. -/
theorem filter_filterMap_named {β : Type} {f : String → Option β} {name : β → String}
    (hname : ∀ file b, f file = some b → name b = file) (kept : String → Bool)
    (files : List String) :
    (files.filterMap f).filter (fun b => kept (name b)) = (files.filter kept).filterMap f := by
  rw [List.filter_filterMap, List.filterMap_filter]
  refine List.filterMap_congr fun file _ => ?_
  cases hb : f file with
  | none => simp
  | some b => simp [hname file b hb, Option.filter]

/-- Documents whose content stays the same keep their results and failures. -/
theorem filter_alone {read' : String → Except String Bytes} {files : List String}
    {kept : String → Bool} (h : ∀ file ∈ files, kept file = true → read' file = read file) :
    (files.filterMap (DocumentTokens.alone? parser read' interval)).filter (kept ·.file) =
        (files.filterMap (DocumentTokens.alone? parser read interval)).filter (kept ·.file) ∧
      (files.filterMap (DocumentFailure.alone? parser read' interval)).filter (kept ·.file) =
        (files.filterMap (DocumentFailure.alone? parser read interval)).filter (kept ·.file) := by
  have hsame : ∀ file ∈ files.filter kept, read' file = read file := by
    intro file hfile
    obtain ⟨hmem, hkept⟩ := List.mem_filter.mp hfile
    exact h file hmem hkept
  simp only [filter_filterMap_named fun _ _ => DocumentTokens.file_of_alone?,
    filter_filterMap_named fun _ _ => DocumentFailure.file_of_alone?]
  exact ⟨List.filterMap_congr fun file hfile => (alone_congr (hsame file hfile)).1,
    List.filterMap_congr fun file hfile => (alone_congr (hsame file hfile)).2⟩

end RunOutcome

/-- The run over the documents found. -/
theorem Settings.run_never {s : Settings} {parser : Parser} {fs : FileSystem}
    {patterns files : List String}
    (h : (Search.find (Glob.expand fs) s.excludes (s.patternsOr patterns) .never).1 = .ok files) :
    s.run parser fs patterns .never =
      .ok ⟨files.filterMap (DocumentTokens.alone? parser fs.read s.checkInterval),
        files.filterMap (DocumentFailure.alone? parser fs.read s.checkInterval)⟩ := by
  have hsignal : (Search.find (Glob.expand fs) s.excludes (s.patternsOr patterns) .never).2 =
      .never := Search.findBeyond_never _ _
  unfold run
  cases hfind : Search.find (Glob.expand fs) s.excludes (s.patternsOr patterns) .never with
  | mk found signal =>
    rw [hfind] at h hsignal
    cases h
    obtain rfl : signal = .never := hsignal
    simp only [RunOutcome.ofFiles_never]

theorem DocumentFailure.message_faulty (file : String) (errors : Nat) :
    (faulty file errors).message = file ++ ": " ++ toString errors ++ " error diagnostics" := by
  with_reducible_and_instances unfold DocumentFailure.message
  with_reducible_and_instances rfl

/-- A run writes the results of the documents found, each as it is on its own, and fails exactly
when one of them has a failure. What it writes tells these results one by one and nothing else.
Every document has a result or a failure; and as long as the same documents are found, those whose
content stays the same keep what they have. -/
theorem CommandLine.runTokens_isolated (env : Environment) (parser : Parser) (s : Settings)
    (fs : FileSystem) (patterns files : List String)
    (h : (Search.find (Glob.expand fs) s.excludes (s.patternsOr patterns) .never).1 = .ok files) :
    let results := files.filterMap (DocumentTokens.alone? parser fs.read s.checkInterval)
    let failures := files.filterMap (DocumentFailure.alone? parser fs.read s.checkInterval)
    s.run parser fs patterns .never = .ok ⟨results, failures⟩ ∧
    runTokens env parser s fs patterns .never =
      ⟨Report.write s.format env.colored env.id results,
        if failures = [] then none else some (.documents failures)⟩ ∧
    Report.Tells s.format env.colored env.id results
      (runTokens env parser s fs patterns .never).output ∧
    files.Nodup ∧
    (∀ file ∈ files, (∃ r ∈ results, r.file = file) ∨ ∃ e ∈ failures, e.file = file) ∧
    (∀ file errors, (DocumentFailure.faulty file errors).message =
      file ++ ": " ++ toString errors ++ " error diagnostics") ∧
    ∀ (fs' : FileSystem) (kept : String → Bool),
      (Search.find (Glob.expand fs') s.excludes (s.patternsOr patterns) .never).1 = .ok files →
      (∀ file ∈ files, kept file = true → fs'.read file = fs.read file) →
      ∃ run', s.run parser fs' patterns .never = .ok run' ∧
        run'.results.filter (kept ·.file) = results.filter (kept ·.file) ∧
        run'.failures.filter (kept ·.file) = failures.filter (kept ·.file) := by
  intro results failures
  have hrun : s.run parser fs patterns .never = .ok ⟨results, failures⟩ := Settings.run_never h
  have hresult : runTokens env parser s fs patterns .never =
      ⟨Report.write s.format env.colored env.id results,
        if failures = [] then none else some (.documents failures)⟩ := by
    simp only [runTokens, hrun, List.isEmpty_iff]
  refine ⟨hrun, hresult, ?_, Search.nodup_of_find h, ?_, DocumentFailure.message_faulty, ?_⟩
  · rw [hresult]
    exact Report.tells_write _ _ _ _
  · intro file hfile
    cases hr : DocumentTokens.alone? parser fs.read s.checkInterval file with
    | some r =>
      exact .inl ⟨r, List.mem_filterMap.mpr ⟨file, hfile, hr⟩, DocumentTokens.file_of_alone? hr⟩
    | none =>
      obtain ⟨e, he⟩ := DocumentFailure.exists_of_no_result hr
      exact .inr ⟨e, List.mem_filterMap.mpr ⟨file, hfile, he⟩, DocumentFailure.file_of_alone? he⟩
  · intro fs' kept h' hread
    exact ⟨_, Settings.run_never h', RunOutcome.filter_alone _ _ _ hread⟩

/-- A directory with four documents, where the third is as given. -/
def fourFiles (third : Except String Bytes) : FileSystem where
  kind? path :=
    if path = "." then some .directory
    else if path ∈ ["a", "b", "c", "d"] then some .file else none
  entries? path :=
    if path = "." then some [⟨"a", .file⟩, ⟨"b", .file⟩, ⟨"c", .file⟩, ⟨"d", .file⟩] else none
  read path :=
    if path = "a" then .ok (utf8 "x") else if path = "b" then .ok (utf8 "!!")
    else if path = "c" then third else if path = "d" then .ok []
    else .error "no such file"
  bound := 2

/-- The tree of one emphasized letter. -/
def letterTree : Tree :=
  (Builder.run [.add (-1) .file ⟨0, 1⟩, .addSlot 0 .children .em ⟨0, 1⟩] .empty).build.1

/-- The result of a document with one emphasized letter and errors. -/
def letterTokens (file : String) (errors : Nat) : DocumentTokens :=
  ⟨file, [⟨0, 0, 1, ⟨4⟩⟩], List.replicate errors ⟨[], ⟨0, 1⟩, .error⟩⟩

/-- Refuses empty documents and reports every exclamation mark. -/
def strictParser : Parser := fun _ text =>
  if text.isEmpty then .error "empty document"
  else .ok ⟨some letterTree, List.replicate (text.count (ascii '!')) ⟨[], ⟨0, 1⟩, .error⟩⟩

theorem tokenize_letterTree {text : Bytes} (h : text ∈ [utf8 "x", utf8 "!!"]) :
    letterTree.tokenize text 1 .never = (.ok [⟨0, 0, 1, ⟨4⟩⟩], .never) := by
  have hfits : ∀ text ∈ [utf8 "x", utf8 "!!"], ∀ n ∈ letterTree.preorder,
      ¬ letterTree.Offends text n := by decide
  have htokens : ∀ text ∈ [utf8 "x", utf8 "!!"],
      letterTree.preorder.flatMap (letterTree.tokensOf text) = [⟨0, 0, 1, ⟨4⟩⟩] := by decide
  have hnum : Numbered letterTree.nodes := (Tree.Built.run _).numbered
  rw [Tree.tokenize_of_fits hnum (hfits text h), htokens text h]

theorem alone_strictParser (read : String → Except String Bytes) (file : String) (text : Bytes)
    (hread : read file = .ok text) (h : text ∈ [utf8 "x", utf8 "!!"]) :
    DocumentTokens.alone? strictParser read 1 file =
        some (letterTokens file (text.count (ascii '!'))) ∧
      DocumentFailure.alone? strictParser read 1 file =
        if 0 < text.count (ascii '!') then some (.faulty file (text.count (ascii '!')))
        else none := by
  have hsome : ∀ text ∈ [utf8 "x", utf8 "!!"], ¬ text.isEmpty = true := by decide
  have hparsed : strictParser file text = .ok ⟨some letterTree,
      List.replicate (text.count (ascii '!')) ⟨[], ⟨0, 1⟩, .error⟩⟩ := if_neg (hsome text h)
  have hrun : DocumentTokens.ofText strictParser file text 1 .never =
      (.ok (letterTokens file (text.count (ascii '!'))), .never) := by
    simp only [DocumentTokens.ofText, StopSignal.poll_never, hparsed, Tree.tokenize?,
      tokenize_letterTree h]
    rfl
  simp only [DocumentTokens.alone?, DocumentFailure.alone?, hread, hrun]
  exact ⟨rfl, by simp [letterTokens, List.countP_replicate]⟩

/-- What is written for two documents with one emphasized letter each. -/
def lettersReport : Bytes :=
  utf8 "b\n  0:0+1 emphasis\n  error [0,1) \n  error [0,1) \na\n  0:0+1 emphasis\n"

/-- The first document is refused, the second cannot be read and the third has errors. Making the
second readable changes nothing for the others. -/
theorem CommandLine.runTokens_isolated_mixed :
    let s := Settings.default
    let env : Environment := ⟨fun _ => fourFiles (.error "denied"), false, fun i => toString i⟩
    let patterns := ["d", "c", "b", "a"]
    let refused : DocumentFailure := .untokenized (.rejected "d" "empty document")
    (∀ third, (Search.find (Glob.expand (fourFiles third)) s.excludes (s.patternsOr patterns)
      .never).1 = .ok patterns) ∧
    s.run strictParser (fourFiles (.error "denied")) patterns .never =
      .ok ⟨[letterTokens "b" 2, letterTokens "a" 0],
        [refused, .unreadable "c" "denied", .faulty "b" 2]⟩ ∧
    runTokens env strictParser s (fourFiles (.error "denied")) patterns .never =
      ⟨lettersReport, some (.documents [refused, .unreadable "c" "denied", .faulty "b" 2])⟩ ∧
    Report.Tells s.format false env.id [letterTokens "b" 2, letterTokens "a" 0] lettersReport ∧
    ∃ run', s.run strictParser (fourFiles (.ok (utf8 "x"))) patterns .never = .ok run' ∧
      run'.results.filter (·.file != "c") = [letterTokens "b" 2, letterTokens "a" 0] ∧
      run'.failures.filter (·.file != "c") = [refused, .faulty "b" 2] := by
  intro s env patterns refused
  have hfind : ∀ third, (Search.find (Glob.expand (fourFiles third)) s.excludes
      (s.patternsOr patterns) .never).1 = .ok patterns := fun _ => rfl
  have hsame : ∀ file ∈ patterns, (file != "c") = true →
      (fourFiles (.ok (utf8 "x"))).read file = (fourFiles (.error "denied")).read file := by
    intro file _ hne
    have hne' : ¬ file = "c" := by simpa using hne
    simp only [fourFiles, if_neg hne']
  obtain ⟨hrun, hwritten, htells, _, _, _, hkept⟩ := runTokens_isolated env strictParser s
    (fourFiles (.error "denied")) patterns patterns (hfind _)
  obtain ⟨run', hrun', hresults, hfailures⟩ := hkept _ (· != "c") (hfind _) hsame
  have ha := alone_strictParser (fourFiles (.error "denied")).read "a" (utf8 "x") rfl (by decide)
  have hb := alone_strictParser (fourFiles (.error "denied")).read "b" (utf8 "!!") rfl (by decide)
  have hnow : patterns.filterMap (DocumentTokens.alone? strictParser
        (fourFiles (.error "denied")).read s.checkInterval) =
        [letterTokens "b" 2, letterTokens "a" 0] ∧
      patterns.filterMap (DocumentFailure.alone? strictParser
        (fourFiles (.error "denied")).read s.checkInterval) =
        [refused, .unreadable "c" "denied", .faulty "b" 2] := by
    have hinterval : s.checkInterval = 1 := rfl
    simp only [patterns, hinterval, List.filterMap_cons, ha, hb]
    exact ⟨rfl, rfl⟩
  have hreport : Report.write s.format env.colored env.id
      [letterTokens "b" 2, letterTokens "a" 0] = lettersReport := by decide
  rw [hnow.1, hnow.2, hreport, if_neg (List.cons_ne_nil _ _)] at hwritten
  rw [hwritten, hnow.1] at htells
  rw [hnow.1] at hrun hresults
  rw [hnow.2] at hrun hfailures
  exact ⟨hfind, hrun, hwritten, htells, run', hrun', hresults, hfailures⟩

end DocTokens
