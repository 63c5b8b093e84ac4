import DocTokens.Proofs.Runs
import DocTokens.Proofs.Stopping

/-! # Stopped runs

A run asks one stop signal all along: once for every pattern, once before a document is parsed, and
then on the walk over its tree. A signal with `n` answers changes nothing up to the document that
asks it for the next one. That document fails, and so does every document after it.
-/

namespace DocTokens

/-- A computation asks its signal `q` times. With `q` answers or more it does what it does without a
stop, and the other answers are left. With fewer it is stopped and no answer is left. -/
structure StopSignal.Asks {α : Type} (run : StopSignal → α × StopSignal) (q : Nat)
    (Stopped : StopCause → α → Prop) : Prop where
  answered : ∀ {n} cause, q ≤ n → run ⟨some n, cause⟩ = ((run .never).1, ⟨some (n - q), cause⟩)
  refused : ∀ {n} cause, n < q →
    Stopped cause (run ⟨some n, cause⟩).1 ∧ (run ⟨some n, cause⟩).2 = ⟨some 0, cause⟩

namespace StopSignal

variable {α β : Type} {run run' : StopSignal → α × StopSignal} {q : Nat}
  {Stopped : StopCause → α → Prop}

theorem asks_pure (a : α) : Asks (fun signal => (a, signal)) 0 Stopped :=
  ⟨fun _ _ => rfl, fun _ h => absurd h (Nat.not_lt_zero _)⟩

/-- One question more, before everything else. -/
theorem Asks.poll (h : Asks run q Stopped) {stop : StopCause → α}
    (herror : ∀ signal cause, signal.poll = .error cause → run' signal = (stop cause, signal))
    (hstop : ∀ cause, Stopped cause (stop cause))
    (hok : ∀ signal signal', signal.poll = .ok signal' → run' signal = run signal') :
    Asks run' (q + 1) Stopped := by
  have hnever : run' .never = run .never := hok _ _ rfl
  constructor
  · rintro (_ | n) cause hle
    · omega
    · have hnext : run' ⟨some (n + 1), cause⟩ = run ⟨some n, cause⟩ := hok _ _ rfl
      rw [hnext, hnever, h.answered cause (Nat.le_of_succ_le_succ hle), Nat.add_sub_add_right]
  · rintro (_ | n) cause hlt
    · rw [herror _ cause rfl]
      exact ⟨hstop cause, rfl⟩
    · have hnext : run' ⟨some (n + 1), cause⟩ = run ⟨some n, cause⟩ := hok _ _ rfl
      rw [hnext]
      exact h.refused cause (Nat.lt_of_succ_lt_succ hlt)

/-- What is made of the outcome does not matter. -/
theorem Asks.map (h : Asks run q Stopped) {f : α → β} {Stopped' : StopCause → β → Prop}
    {run' : StopSignal → β × StopSignal} (hf : ∀ cause a, Stopped cause a → Stopped' cause (f a))
    (hrun : ∀ signal, run' signal = (f (run signal).1, (run signal).2)) : Asks run' q Stopped' := by
  constructor
  · intro n cause hle
    rw [hrun, hrun, h.answered cause hle]
  · intro n cause hlt
    obtain ⟨hstopped, hsignal⟩ := h.refused cause hlt
    rw [hrun]
    exact ⟨hf cause _ hstopped, hsignal⟩

end StopSignal

/-! ## Walks -/

namespace Tree

theorem asked_le_iff {interval visited n : Nat} (hi : 0 < interval) :
    asked interval visited ≤ n ↔ visited ≤ n * interval := by
  refine ⟨le_mul_of_asked_le hi, fun h => ?_⟩
  have hlt : visited + interval - 1 < (n + 1) * interval := by
    rw [Nat.add_mul, Nat.one_mul]
    omega
  exact Nat.le_of_lt_succ ((Nat.div_lt_iff_lt_mul hi).mpr hlt)

/-- How often tokenizing a tree asks a signal that never stops. -/
def questions (t : Tree) (text : Bytes) (interval : Int) : Nat :=
  (t.tokenizeLog text interval .never).1.count .ask

theorem questions_eq (t : Tree) (text : Bytes) (interval : Int) :
    t.questions text interval =
      asked (pollInterval interval) (t.tokenVisits text interval .never).visited := by
  have hi := pollInterval_pos interval
  have hle : (t.tokenVisits text interval .never).visited ≤ t.visitOrder.length := by
    by_contra hlt
    exact Nat.lt_irrefl _ ((lt_visited_iff t text interval _).mp (Nat.lt_of_not_le hlt)).1
  have hcount := count_ask_schedule hi 0
    (t.visitOrder.take (t.tokenVisits text interval .never).visited)
  rw [asked_zero hi, List.length_take_of_le hle, Nat.zero_add, Nat.add_zero] at hcount
  rw [questions, tokenizeLog_fst, (tokenVisits_never t text interval).2.1,
    if_neg Bool.false_ne_true, List.append_nil, hcount]

/-- With an answer for every question the walk goes on to its end, and the other answers are
left. -/
theorem tokenVisits_of_asked_le (t : Tree) (text : Bytes) (interval : Int) {n : Nat}
    (cause : StopCause) (h : t.questions text interval ≤ n) :
    t.tokenVisits text interval ⟨some n, cause⟩ =
      { t.tokenVisits text interval .never with
        signal := ⟨some (n - t.questions text interval), cause⟩ } := by
  have hi := pollInterval_pos interval
  rw [questions_eq] at h ⊢
  have hrun := visitAll_stop hi (t.emit (.ofBytes text)) t.visitOrder 0 n n cause #[]
    (by rw [asked_zero hi, Nat.add_zero])
  exact hrun.trans (if_neg (Nat.not_lt.mpr ((asked_le_iff hi).mp h)))

theorem asks_tokenize (t : Tree) (text : Bytes) (interval : Int) :
    StopSignal.Asks (t.tokenize text interval) (t.questions text interval)
      fun cause outcome => ∃ visited, outcome = .error (.stopped visited cause) := by
  constructor
  · intro n cause hle
    rw [tokenize_eq_answer, tokenize_eq_answer, tokenVisits_of_asked_le t text interval cause hle,
      answer, answer]
    cases (t.tokenVisits text interval .never).outcome <;> rfl
  · intro n cause hlt
    have hi := pollInterval_pos interval
    rw [questions_eq] at hlt
    have hstop : n * pollInterval interval < (t.tokenVisits text interval .never).visited :=
      Nat.lt_of_not_le fun hle => Nat.not_le_of_lt hlt ((asked_le_iff hi).mpr hle)
    rw [tokenize_eq_answer, tokenVisits_of_lt t text interval cause hstop]
    exact ⟨⟨_, rfl⟩, rfl⟩

end Tree

/-! ## Documents -/

/-- The error says that a stop signal answered, for the given reason. -/
def DocumentError.IsStop (cause : StopCause) : DocumentError → Prop
  | stopped _ c => c = cause
  | untokenized _ (.stopped _ c) => c = cause
  | _ => False

/-- How often a document asks a signal that never stops: once to be parsed, and on the walk. -/
def DocumentTokens.questions (parser : Parser) (file : String) (text : Bytes) (interval : Int) :
    Nat :=
  match parser file text with
  | .ok ⟨some t, _⟩ => t.questions text interval + 1
  | _ => 1

theorem DocumentTokens.questions_pos (parser : Parser) (file : String) (text : Bytes)
    (interval : Int) : 0 < questions parser file text interval := by
  unfold questions
  split <;> omega

theorem DocumentTokens.asks_ofText (parser : Parser) (file : String) (text : Bytes)
    (interval : Int) :
    StopSignal.Asks (ofText parser file text interval) (questions parser file text interval)
      fun cause outcome => ∃ e, outcome = .error e ∧ e.file = file ∧ e.IsStop cause := by
  have herror : ∀ (signal : StopSignal) cause, signal.poll = .error cause →
      ofText parser file text interval signal = (.error (.stopped file cause), signal) := by
    intro signal cause hpoll
    simp only [ofText, hpoll]
  cases hparsed : parser file text with
  | error reason =>
    rw [questions, hparsed]
    refine (StopSignal.asks_pure (.error (.rejected file reason))).poll herror
      (fun _ => ⟨_, rfl, rfl, rfl⟩) fun signal signal' hpoll => ?_
    simp only [ofText, hpoll, hparsed]
  | ok parsed =>
    obtain ⟨_ | t, diagnostics⟩ := parsed
    · rw [questions, hparsed]
      refine (StopSignal.asks_pure (.error (.untokenized file .noTree))).poll herror
        (fun _ => ⟨_, rfl, rfl, rfl⟩) fun signal signal' hpoll => ?_
      simp only [ofText, hpoll, hparsed, Tree.tokenize?]
    · rw [questions, hparsed]
      refine ((t.asks_tokenize text interval).map (f := fun outcome =>
        (outcome.mapError (.untokenized file)).map (⟨file, ·, diagnostics⟩)) ?_ fun _ => rfl).poll
        herror (fun _ => ⟨_, rfl, rfl, rfl⟩) fun signal signal' hpoll => ?_
      · rintro cause _ ⟨visited, rfl⟩
        exact ⟨_, rfl, rfl, rfl⟩
      · simp only [ofText, hpoll, hparsed, Tree.tokenize?]
        cases t.tokenize text interval signal' with
        | mk outcome signal' => cases outcome <;> rfl

/-! ## Searches -/

namespace Search

variable {ε : Type} (glob : String → Except ε (List String)) (excluded : String → Bool)

/-- The number of patterns that a search without a stop comes to. -/
def tried : List String → Nat
  | [] => 0
  | pattern :: patterns =>
    match glob (withoutCurrent pattern) with
    | .error _ => 1
    | .ok _ => tried patterns + 1

theorem asks_findBeyond (seen patterns : List String) :
    StopSignal.Asks (findBeyond glob excluded seen patterns) (tried glob patterns)
      fun cause outcome => outcome = .error (.stopped cause) := by
  induction patterns generalizing seen with
  | nil => exact StopSignal.asks_pure (Except.ok [])
  | cons pattern patterns ih =>
    have herror : ∀ (signal : StopSignal) cause, signal.poll = .error cause →
        findBeyond glob excluded seen (pattern :: patterns) signal =
          (.error (.stopped cause), signal) := by
      intro signal cause hpoll
      simp only [findBeyond, hpoll]
    cases hfound : glob (withoutCurrent pattern) with
    | error e =>
      rw [tried, hfound]
      refine (StopSignal.asks_pure (.error (.badPattern (withoutCurrent pattern) e))).poll herror
        (fun _ => rfl) fun signal signal' hpoll => ?_
      simp only [findBeyond, hpoll, hfound]
    | ok found =>
      rw [tried, hfound]
      refine ((ih (unseen seen found ++ seen)).map
        (f := Except.map ((unseen seen found).filter (!excluded ·) ++ ·)) ?_ fun _ => rfl).poll
        herror (fun _ => rfl) fun signal signal' hpoll => ?_
      · rintro cause _ rfl
        rfl
      · simp only [findBeyond, hpoll, hfound]

theorem tried_of_ok {seen patterns files : List String}
    (h : (findBeyond glob excluded seen patterns .never).1 = .ok files) :
    tried glob patterns = patterns.length := by
  induction patterns generalizing seen files with
  | nil => rfl
  | cons pattern patterns ih =>
    rw [findBeyond, StopSignal.poll_never] at h
    cases hfound : glob (withoutCurrent pattern) with
    | error e => simp [hfound] at h
    | ok found =>
      simp only [hfound] at h
      cases hrest : (findBeyond glob excluded (unseen seen found ++ seen) patterns .never).1 with
      | error e => simp [hrest, Except.map] at h
      | ok rest => rw [tried, hfound, List.length_cons, ih hrest]

/-- A search that a signal does not stop finds what it finds without the signal. -/
theorem find_of_ok {patterns files : List String} {n : Nat} {cause : StopCause}
    (h : (find glob excluded patterns ⟨some n, cause⟩).1 = .ok files) :
    (find glob excluded patterns .never).1 = .ok files ∧ patterns.length ≤ n ∧
      find glob excluded patterns ⟨some n, cause⟩ =
        (.ok files, ⟨some (n - patterns.length), cause⟩) := by
  have hasks := asks_findBeyond glob excluded [] patterns
  rcases Nat.lt_or_ge n (tried glob patterns) with hlt | hle
  · exact absurd (h.symm.trans (hasks.refused cause hlt).1) (by simp)
  · have hrun : find glob excluded patterns ⟨some n, cause⟩ = _ := hasks.answered cause hle
    rw [hrun] at h
    have htried := tried_of_ok glob excluded h
    rw [htried] at hle hrun
    exact ⟨h, hle, hrun.trans (by rw [h])⟩

/-- A search fails because the signal stops it, or as it does without the signal. -/
theorem find_of_error {patterns : List String} {n : Nat} {cause : StopCause} {e : SearchError ε}
    (h : (find glob excluded patterns ⟨some n, cause⟩).1 = .error e) :
    e = .stopped cause ∨ (find glob excluded patterns .never).1 = .error e := by
  have hasks := asks_findBeyond glob excluded [] patterns
  rcases Nat.lt_or_ge n (tried glob patterns) with hlt | hle
  · exact .inl (Except.error.inj (h.symm.trans (hasks.refused cause hlt).1))
  · have hrun : find glob excluded patterns ⟨some n, cause⟩ = _ := hasks.answered cause hle
    rw [hrun] at h
    exact .inr h

end Search

/-! ## Runs -/

/-- The failure of a document for which the signal has no answer left. -/
def DocumentFailure.IsCut (read : String → Except String Bytes) (cause : StopCause) (file : String)
    (failure : DocumentFailure) : Prop :=
  match read file with
  | .error reason => failure = .unreadable file reason
  | .ok _ => ∃ e, failure = .untokenized e ∧ e.file = file ∧ e.IsStop cause

namespace RunOutcome

variable (parser : Parser) (read : String → Except String Bytes) (interval : Int)

/-- The outcome of a document that can be read. -/
def ofResult : Except DocumentError DocumentTokens → RunOutcome
  | .error e => ⟨[], [.untokenized e]⟩
  | .ok r => ofTokens r

/-- How often a document of a run asks a signal that never stops; not at all if it cannot be
read. -/
def questions (file : String) : Nat :=
  match read file with
  | .error _ => 0
  | .ok text => DocumentTokens.questions parser file text interval

/-- How often the documents of a list ask such a signal. -/
def allQuestions : List String → Nat
  | [] => 0
  | file :: files => questions parser read interval file + allQuestions files

theorem asks_ofFile (file : String) :
    StopSignal.Asks (ofFile parser read interval file) (questions parser read interval file)
      fun cause outcome => ∃ failure, outcome = ⟨[], [failure]⟩ ∧
        failure.IsCut read cause file := by
  cases hread : read file with
  | error reason =>
    rw [questions, hread]
    have hrun : ofFile parser read interval file =
        fun signal => (⟨[], [.unreadable file reason]⟩, signal) := by
      funext signal
      simp only [ofFile, hread]
    rw [hrun]
    exact StopSignal.asks_pure _
  | ok text =>
    rw [questions, hread]
    refine (DocumentTokens.asks_ofText parser file text interval).map (f := ofResult) ?_
      fun signal => ?_
    · rintro cause _ ⟨e, rfl, hfile, hstop⟩
      refine ⟨_, rfl, ?_⟩
      rw [DocumentFailure.IsCut, hread]
      exact ⟨e, rfl, hfile, hstop⟩
    · simp only [ofFile, hread]
      cases DocumentTokens.ofText parser file text interval signal with
      | mk outcome signal => cases outcome <;> rfl

theorem append_eq (a b : RunOutcome) :
    a ++ b = ⟨a.results ++ b.results, a.failures ++ b.failures⟩ := rfl

theorem append_assoc (a b c : RunOutcome) : a ++ b ++ c = a ++ (b ++ c) := by
  simp only [append_eq, List.append_assoc]

/-- With no answer left every document fails. -/
theorem ofFiles_zero (cause : StopCause) (files : List String) :
    ∃ failures,
      List.Forall₂ (fun file e => DocumentFailure.IsCut read cause file e) files failures ∧
      ofFiles parser read interval files ⟨some 0, cause⟩ =
        (⟨[], failures⟩, ⟨some 0, cause⟩) := by
  induction files with
  | nil => exact ⟨[], .nil, rfl⟩
  | cons file files ih =>
    obtain ⟨failures, hcut, hrest⟩ := ih
    obtain ⟨failure, hfirst, hrun⟩ : ∃ failure, failure.IsCut read cause file ∧
        ofFile parser read interval file ⟨some 0, cause⟩ =
          (⟨[], [failure]⟩, ⟨some 0, cause⟩) := by
      cases hread : read file with
      | error reason =>
        refine ⟨.unreadable file reason, ?_, by simp only [ofFile, hread]⟩
        rw [DocumentFailure.IsCut, hread]
      | ok text =>
        have hpos : 0 < questions parser read interval file := by
          rw [questions, hread]
          exact DocumentTokens.questions_pos parser file text interval
        obtain ⟨⟨failure, hfailure, hcut⟩, hsignal⟩ :=
          (asks_ofFile parser read interval file).refused cause hpos
        exact ⟨failure, hcut, Prod.ext hfailure hsignal⟩
    refine ⟨failure :: failures, .cons hfirst hcut, ?_⟩
    simp only [ofFiles, hrun, hrest]
    rfl

/-- A signal with `n` answers cuts the documents in two: those before the question that it does not
answer are treated as without a signal, the others fail. -/
theorem ofFiles_cut (n : Nat) (cause : StopCause) (files : List String) :
    ∃ before after failures, files = before ++ after ∧
      allQuestions parser read interval before ≤ n ∧
      (∀ file ∈ after.head?,
        n < allQuestions parser read interval before + questions parser read interval file) ∧
      List.Forall₂ (fun file e => DocumentFailure.IsCut read cause file e) after failures ∧
      (ofFiles parser read interval files ⟨some n, cause⟩).1 =
        (ofFiles parser read interval before .never).1 ++ ⟨[], failures⟩ := by
  induction files generalizing n with
  | nil => exact ⟨[], [], [], rfl, Nat.zero_le _, by simp, .nil, rfl⟩
  | cons file files ih =>
    have hasks := asks_ofFile parser read interval file
    rcases Nat.lt_or_ge n (questions parser read interval file) with hlt | hle
    · obtain ⟨⟨failure, hfirst, hcut⟩, hsignal⟩ := hasks.refused cause hlt
      obtain ⟨failures, hcuts, hrest⟩ := ofFiles_zero parser read interval cause files
      refine ⟨[], file :: files, failure :: failures, rfl, Nat.zero_le _, ?_, .cons hcut hcuts, ?_⟩
      · rintro _ ⟨⟩
        rwa [allQuestions, Nat.zero_add]
      · simp only [ofFiles, hfirst, hsignal, hrest]
        rfl
    · obtain ⟨before, after, failures, rfl, hbefore, hafter, hcuts, hrest⟩ :=
        ih (n - questions parser read interval file)
      refine ⟨file :: before, after, failures, rfl, ?_, ?_, hcuts, ?_⟩
      · rw [allQuestions]
        omega
      · intro next hnext
        have := hafter next hnext
        rw [allQuestions]
        omega
      · have hnever : (ofFile parser read interval file .never).2 = .never := by
          rw [ofFile_never]
        simp only [ofFiles, hasks.answered cause hle, hrest, hnever, append_assoc]

end RunOutcome

theorem Settings.run_of_find {s : Settings} (parser : Parser) {fs : FileSystem}
    {patterns files : List String} {signal signal' : StopSignal}
    (h : Search.find (Glob.expand fs) s.excludes (s.patternsOr patterns) signal =
      (.ok files, signal')) :
    s.run parser fs patterns signal =
      .ok (RunOutcome.ofFiles parser fs.read s.checkInterval files signal').1 := by
  rw [run, h]

theorem Settings.run_of_error {s : Settings} (parser : Parser) {fs : FileSystem}
    {patterns : List String} {signal : StopSignal} {e : SearchError Glob.PatternError}
    (h : (Search.find (Glob.expand fs) s.excludes (s.patternsOr patterns) signal).1 = .error e) :
    s.run parser fs patterns signal = .error e := by
  unfold run
  split
  · rename_i hfind
    rw [hfind] at h
    exact congrArg Except.error (Except.error.inj h)
  · rename_i hfind
    rw [hfind] at h
    cases h

theorem CommandLine.runTokens_of_run (env : Environment) {parser : Parser} {s : Settings}
    {fs : FileSystem} {patterns : List String} {signal : StopSignal}
    {results : List DocumentTokens} {failures : List DocumentFailure}
    (h : s.run parser fs patterns signal = .ok ⟨results, failures⟩) :
    runTokens env parser s fs patterns signal =
      ⟨Report.write s.format env.colored env.id results,
        if failures = [] then none else some (.documents failures)⟩ := by
  simp only [runTokens, h, List.isEmpty_iff]

theorem Report.write_prefix {format : String} (hformat : format ≠ Settings.jsonFormat)
    (colored : Bool) (id : Nat → String) {results more : List DocumentTokens}
    (h : results <+: more) : write format colored id results <+: write format colored id more := by
  obtain ⟨rest, rfl⟩ := h
  rw [write, write, if_neg hformat, if_neg hformat, text, text, List.flatMap_append]
  exact List.prefix_append _ _

/-- A run whose search fails writes nothing. Otherwise a signal with `n` answers cuts the documents
found in two. Those before the document that asks for one answer more have the results and failures
that they have without the signal. That document and all after it have one failure each, since they
cannot be read or are stopped, and no result. What is written is the beginning of what is written
without the signal. -/
theorem CommandLine.runTokens_cut (env : Environment) (parser : Parser) (s : Settings)
    (fs : FileSystem) (patterns : List String) (n : Nat) (cause : StopCause) :
    let find := Search.find (Glob.expand fs) s.excludes (s.patternsOr patterns)
    let signal : StopSignal := ⟨some n, cause⟩
    let result := DocumentTokens.alone? parser fs.read s.checkInterval
    let failure := DocumentFailure.alone? parser fs.read s.checkInterval
    let questions := RunOutcome.questions parser fs.read s.checkInterval
    let allQuestions := RunOutcome.allQuestions parser fs.read s.checkInterval
    (∀ e, (find signal).1 = .error e →
      runTokens env parser s fs patterns signal = ⟨[], some (.search e)⟩ ∧
      (e = .stopped cause ∨ (find .never).1 = .error e)) ∧
    ∀ files, (find signal).1 = .ok files →
      (find .never).1 = .ok files ∧
      ∃ (before after : List String) (cut : List DocumentFailure),
        files = before ++ after ∧
        (s.patternsOr patterns).length + allQuestions before ≤ n ∧
        (∀ file ∈ after.head?,
          n < (s.patternsOr patterns).length + allQuestions before + questions file) ∧
        s.run parser fs patterns .never =
          .ok ⟨before.filterMap result ++ after.filterMap result,
            before.filterMap failure ++ after.filterMap failure⟩ ∧
        s.run parser fs patterns signal =
          .ok ⟨before.filterMap result, before.filterMap failure ++ cut⟩ ∧
        List.Forall₂ (fun file e => DocumentFailure.IsCut fs.read cause file e) after cut ∧
        runTokens env parser s fs patterns signal =
          ⟨Report.write s.format env.colored env.id (before.filterMap result),
            if before.filterMap failure ++ cut = [] then none
            else some (.documents (before.filterMap failure ++ cut))⟩ ∧
        (s.format ≠ Settings.jsonFormat → (runTokens env parser s fs patterns signal).output <+:
          (runTokens env parser s fs patterns .never).output) := by
  intro find signal result failure questions allQuestions
  refine ⟨fun e h => ⟨?_, Search.find_of_error _ _ h⟩, fun files h => ?_⟩
  · rw [runTokens, Settings.run_of_error parser h]
    rfl
  · obtain ⟨hfree, hle, hfind⟩ := Search.find_of_ok _ _ h
    obtain ⟨before, after, cut, rfl, hbefore, hafter, hcut, hfiles⟩ := RunOutcome.ofFiles_cut parser
      fs.read s.checkInterval (n - (s.patternsOr patterns).length) cause files
    have hnever : s.run parser fs patterns .never =
        .ok ⟨before.filterMap result ++ after.filterMap result,
          before.filterMap failure ++ after.filterMap failure⟩ := by
      rw [Settings.run_never hfree, List.filterMap_append, List.filterMap_append]
    have hrun : s.run parser fs patterns signal =
        .ok ⟨before.filterMap result, before.filterMap failure ++ cut⟩ := by
      rw [Settings.run_of_find parser hfind, hfiles, RunOutcome.ofFiles_never, RunOutcome.append_eq,
        List.append_nil]
    refine ⟨hfree, before, after, cut, rfl, Nat.add_le_of_le_sub' hle hbefore, ?_, hnever, hrun,
      hcut, runTokens_of_run env hrun, fun hformat => ?_⟩
    · intro file hfile
      rw [Nat.add_assoc]
      exact (Nat.sub_lt_iff_lt_add' hle).mp (hafter file hfile)
    · rw [runTokens_of_run env hrun, runTokens_of_run env hnever]
      exact Report.write_prefix hformat _ _ (List.prefix_append _ _)

end DocTokens
