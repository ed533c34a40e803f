import AnnotationReport.Proofs.Report.Playing
import AnnotationReport.Report.FanOut
import Mathlib.Algebra.Ring.Nat

/-! # Every interleaving of the calls gives the same report

The invariant of the moves is what a report will have shown when it ends: what it has shown so far,
followed by the jobs still to be written, one after the other. No move changes it, whichever calls
are under way and whichever end first. Moves cannot go on for ever, and stop only at a result.
-/
namespace AnnotationReport.Report.FanOut

variable {limit : Nat} {answers : Answers} {s t u : State}

/-- What a report shows at its end, read off at any time. The jobs in the window come first, whether
their calls have ended or not. -/
def State.future (answers : Answers) (t : State) : Shown :=
  match t.result with
  | some r => ⟨t.sink, trace t.done, r⟩
  | none =>
    ((jobsScript answers t.summary (t.window.map Prod.fst ++ t.waiting) []).shown t.sink).after
      (trace t.done)

theorem State.future_of_result {r : Except String Summary} (h : t.result = some r) :
    t.future answers = ⟨t.sink, trace t.done, r⟩ := by
  simp [State.future, h]

theorem State.future_carryOut (t : State) (steps : List Step) (summary : Summary)
    (window : List (Job × Bool)) (waiting : List Job) :
    ({ t.carryOut steps with summary := summary, window := window, waiting := waiting } : State).future answers =
      ((⟨steps ++ (jobsScript answers summary (window.map Prod.fst ++ waiting) []).steps,
        (jobsScript answers summary (window.map Prod.fst ++ waiting) []).ending⟩ : Script).shown t.sink).after
          (trace t.done) := by
  rw [Script.shown_append]
  cases h : (play t.sink steps).stopped with
  | none => simp [State.future, State.carryOut, h]
  | some e => simp [State.future, State.carryOut, h, Shown.after]

theorem State.future_emit {job : Job} {after : List (Job × Bool)} (hr : t.result = none)
    (hw : t.window = (job, true) :: after) :
    (t.emit answers job after).future answers = t.future answers := by
  cases h : answers.annotations job.id with
  | error cause =>
    simp [State.emit, State.future, h, hr, hw, jobsScript, Script.shown, Script.outcome,
      Outcome.shown, Shown.after, trace]
  | ok found =>
    simp only [State.emit, h]
    refine (t.future_carryOut (jobSteps job (found.getD [])) (t.summary.add (found.getD [])) after
      t.waiting).trans ?_
    simp [State.future, hr, hw, jobsScript, h]

theorem State.future_finish (hr : t.result = none) (hw : t.waiting = []) (hn : t.window = []) :
    t.finish.future answers = t.future answers := by
  simp only [State.future, hr, hw, hn, List.map_nil, List.append_nil, jobsScript, Script.shown,
    Script.outcome, Outcome.shown, State.finish, State.carryOut]
  cases h : (play t.sink [.flush, .note (summaryNote t.summary)]).stopped with
  | none => simp [Shown.after]
  | some e => simp [Shown.after]

/-- No move changes what the report will have shown. -/
theorem Move.future (h : Move limit answers t u) : u.future answers = t.future answers := by
  cases h with
  | @begin job r hr hw _ =>
    have ht : trace [.askAnnotations job.id] = [] := rfl
    simp [State.future, hr, hw, ht]
  | complete hr hw => simp [State.future, hr, hw]
  | emit hr hw => exact State.future_emit hr hw
  | finish hr hw hn => exact State.future_finish hr hw hn

theorem Reaches.future (h : Reaches limit answers s t) : t.future answers = s.future answers := by
  induction h with
  | refl => rfl
  | step _ hm ih => exact hm.future.trans ih

theorem start_future (c : RunConfig) (answers : Answers) (s : Sink) :
    (start c answers s).future answers = (run c answers s).shown := by
  have hl : ∀ (jobs : List Job) (notes : List Step),
      (listed c jobs notes s).future answers =
        (⟨([.note (listingNote c), .askJobs] ++ notes) ++ (listedScript c answers jobs).steps,
          (listedScript c answers jobs).ending⟩ : Script).shown s := by
    intro jobs notes
    rw [listedScript_shown]
    exact State.future_carryOut ⟨jobs, [], ⟨jobs.length, 0, 0⟩, [], s, none⟩ _ _ _ _
  rw [run_eq_outcome]
  change _ = (script c answers).shown s
  unfold start script
  cases answers.jobs with
  | error cause => rfl
  | ok found =>
    cases found with
    | none => exact hl [] [.note (noJobsNote c)]
    | some jobs => exact hl jobs []

section Ending

def State.left (t : State) : Nat :=
  3 * t.waiting.length + (t.window.map fun w => if w.2 then 1 else 2).sum +
    if t.result.isNone then 1 else 0

theorem Move.left_lt (h : Move limit answers t u) : u.left < t.left := by
  cases h with
  | begin hr hw _ =>
    simp only [State.left, hw, List.map_append, List.sum_append, List.length_cons]
    simp
    omega
  | complete hr hw =>
    simp only [State.left, hw, List.map_append, List.sum_append, List.map_cons, List.sum_cons]
    simp
  | @emit job after hr hw =>
    cases h : answers.annotations job.id with
    | error cause => simp [State.left, State.emit, h, hr]
    | ok found =>
      simp only [State.left, State.emit, State.carryOut, h, hr, hw, List.map_cons, List.sum_cons]
      cases (play t.sink (jobSteps job (found.getD []))).stopped with
      | none =>
        simp only [Option.map_none, Option.isNone_none, ↓reduceIte]
        omega
      | some e =>
        simp only [Option.map_some, Option.isNone_some, Option.isNone_none, Bool.false_eq_true, ↓reduceIte]
        omega
  | finish hr hw hn =>
    simp only [State.left, State.finish, State.carryOut, hr, hw, hn]
    cases (play t.sink [.flush, .note (summaryNote t.summary)]).stopped <;> simp

/-- No interleaving goes on for ever. -/
theorem move_wellFounded (limit : Nat) (answers : Answers) :
    WellFounded fun u t : State => Move limit answers t u :=
  Subrelation.wf (fun h => Move.left_lt h) (InvImage.wf State.left Nat.lt_wfRel.wf)

theorem Move.complete_first {job : Job} {after : List (Job × Bool)} (hr : t.result = none)
    (hn : t.window = (job, false) :: after) :
    Move limit answers t { t with window := (job, true) :: after } :=
  @Move.complete limit answers t [] after job hr hn

theorem exists_move (hlimit : 0 < limit) (hr : t.result = none) : ∃ u, Move limit answers t u := by
  cases hn : t.window with
  | nil =>
    cases hw : t.waiting with
    | nil => exact ⟨_, .finish hr hw hn⟩
    | cons job r => exact ⟨_, .begin hr hw (by simpa [hn] using hlimit)⟩
  | cons first after =>
    obtain ⟨job, ended⟩ := first
    cases ended with
    | false => exact ⟨_, .complete_first hr hn⟩
    | true => exact ⟨_, .emit hr hn⟩

end Ending

section Eager

theorem Reaches.trans (h : Reaches limit answers s t) (k : Reaches limit answers t u) :
    Reaches limit answers s u := by
  induction k with
  | refl => exact h
  | step _ hm ih => exact .step ih hm

theorem reaches_begin (jobs waiting : List Job) (hr : t.result = none)
    (hw : t.waiting = jobs ++ waiting) (hroom : t.window.length + jobs.length ≤ limit) :
    Reaches limit answers t
      { t with
        waiting := waiting
        window := t.window ++ jobs.map (·, false)
        done := t.done ++ jobs.map (.askAnnotations ·.id) } := by
  induction jobs generalizing t with
  | nil =>
    have he : t.waiting = waiting := hw
    simpa [← he] using Reaches.refl t
  | cons job r ih =>
    simp only [List.length_cons] at hroom
    have hm : Move limit answers t _ := .begin hr hw (by omega)
    have hrest := ih (t := { t with
      waiting := r ++ waiting
      window := t.window ++ [(job, false)]
      done := t.done ++ [.askAnnotations job.id] }) hr rfl (by simp; omega)
    simpa using (Reaches.step (.refl t) hm).trans hrest

/-- The state after a job is written and the next call has started, when no call has ended yet. -/
def State.next (t : State) (job : Job) (annotations : List Annotation) (window waiting : List Job) :
    State :=
  { t.carryOut (jobSteps job annotations) with
    waiting := waiting.drop 1
    window := (window ++ waiting.take 1).map (·, false)
    summary := t.summary.add annotations
    done := t.done ++ (play t.sink (jobSteps job annotations)).done ++
      (waiting.take 1).map (.askAnnotations ·.id) }

theorem reaches_next {first : Job} {window waiting : List Job} {found : Option (List Annotation)}
    (hr : t.result = none) (hn : t.window = (first :: window).map (·, false))
    (hw : t.waiting = waiting) (hroom : window.length + 1 ≤ limit)
    (hf : answers.annotations first.id = .ok found)
    (hs : (play t.sink (jobSteps first (found.getD []))).stopped = none) :
    Reaches limit answers t (t.next first (found.getD []) window waiting) := by
  have hc : Move limit answers t _ := .complete_first hr hn
  have he := Reaches.step (.step (.refl t) hc) (.emit hr rfl)
  simp only [State.emit, hf] at he
  refine he.trans ?_
  have hb : Reaches limit answers
      { t.carryOut (jobSteps first (found.getD [])) with
        window := window.map (·, false)
        summary := t.summary.add (found.getD []) } _ :=
    reaches_begin (waiting.take 1) (waiting.drop 1)
      (by simp [State.carryOut, hs]) (by rw [List.take_append_drop]; exact hw)
      (by simp only [List.length_map, List.length_take]; omega)
  simpa [State.next, State.carryOut] using hb

/-- One interleaving lets the first call end first and starts the next call as soon as there is
room. It takes the steps of the script. -/
theorem exists_reaches_jobsScript (answers : Answers) (window waiting : List Job)
    (hr : t.result = none) (hn : t.window = window.map (·, false))
    (hw : t.waiting = waiting) (hroom : window.length ≤ limit) (hfull : window = [] → waiting = []) :
    ∃ u, Reaches limit answers t u ∧
      u.done = t.done ++ ((jobsScript answers t.summary (window ++ waiting) waiting).outcome t.sink).done ∧
      u.sink = ((jobsScript answers t.summary (window ++ waiting) waiting).outcome t.sink).sink ∧
      u.result = some ((jobsScript answers t.summary (window ++ waiting) waiting).outcome t.sink).result := by
  obtain ⟨pending, hp⟩ : ∃ pending, window ++ waiting = pending := ⟨_, rfl⟩
  rw [hp]
  induction pending generalizing t window waiting with
  | nil =>
    obtain ⟨rfl, rfl⟩ := List.append_eq_nil_iff.mp hp
    refine ⟨_, .step (.refl t) (.finish hr hw hn), ?_⟩
    simp only [State.finish, State.carryOut, jobsScript, Script.outcome]
    cases (play t.sink [.flush, .note (summaryNote t.summary)]).stopped <;> simp
  | cons job r ih =>
    cases window with
    | nil =>
      have he := hfull rfl
      simp [he] at hp
    | cons first window =>
      obtain ⟨rfl, hrest⟩ := List.cons.inj hp
      have hc : Move limit answers t _ := .complete_first hr hn
      have he := Reaches.step (.step (.refl t) hc) (.emit hr rfl)
      cases h : answers.annotations first.id with
      | error cause =>
        refine ⟨_, he, ?_⟩
        simp [State.emit, h, jobsScript, Script.outcome]
      | ok found =>
        cases hs : (play t.sink (jobSteps first (found.getD []))).stopped with
        | some e =>
          refine ⟨_, he, ?_⟩
          simp [State.emit, State.carryOut, hs, jobsScript, h, Script.outcome, play_append]
        | none =>
          have hnext := reaches_next hr hn hw hroom h hs
          obtain ⟨u, hu, hd, hk, hres⟩ := ih (t := t.next first (found.getD []) window waiting)
            (window ++ waiting.take 1) (waiting.drop 1)
            (by simp [State.next, State.carryOut, hs]) rfl rfl
            (by simp only [List.length_append, List.length_take, List.length_cons] at hroom ⊢; omega)
            (by cases waiting <;> simp)
            (by rw [List.append_assoc, List.take_append_drop]; exact hrest)
          refine ⟨u, hnext.trans hu, ?_⟩
          have hplay : (play t.sink (jobSteps first (found.getD []))).sink =
              (t.next first (found.getD []) window waiting).sink := rfl
          simp only [jobsScript, h, Script.outcome, play_append, hs, play_calls isCall_of_mem_asks]
          simp [hd, hk, hres, hplay, State.next, Script.outcome]

theorem exists_reaches_opening (hlimit : 0 < limit) (hn : t.window = [])
    (opening : List Step) :
    let rest := jobsScript answers t.summary t.waiting (t.waiting.drop limit)
    let o := (⟨opening ++ ((t.waiting.take limit).map (.askAnnotations ·.id) ++ rest.steps),
      rest.ending⟩ : Script).outcome t.sink
    ∃ u, Reaches limit answers (t.carryOut opening) u ∧
      u.done = t.done ++ o.done ∧ u.sink = o.sink ∧ u.result = some o.result := by
  intro rest o
  cases hs : (play t.sink opening).stopped with
  | some e =>
    refine ⟨_, .refl _, ?_⟩
    simp [o, State.carryOut, Script.outcome, play_append, hs]
  | none =>
    have hb : Reaches limit answers (t.carryOut opening) _ :=
      reaches_begin (t.waiting.take limit) (t.waiting.drop limit)
        (by simp [State.carryOut, hs]) (List.take_append_drop _ _).symm
        (by simp only [State.carryOut, hn, List.length_nil, List.length_take]; omega)
    have hfull : t.waiting.take limit = [] → t.waiting.drop limit = [] := by
      intro h
      rcases List.take_eq_nil_iff.mp h with h | h
      · omega
      · simp [h]
    have hroom : (t.waiting.take limit).length ≤ limit := List.length_take_le _ _
    obtain ⟨u, hu, hd, hk, hres⟩ := exists_reaches_jobsScript (t := { t.carryOut opening with
        waiting := t.waiting.drop limit
        window := (t.carryOut opening).window ++ (t.waiting.take limit).map (·, false)
        done := (t.carryOut opening).done ++ (t.waiting.take limit).map (.askAnnotations ·.id) })
      answers (t.waiting.take limit) (t.waiting.drop limit) (by simp [State.carryOut, hs])
      (by simp [State.carryOut, hn]) rfl hroom hfull
    rw [List.take_append_drop] at hd hk hres
    have hcalls := play_calls (@isCall_of_mem_asks (t.waiting.take limit)) (play t.sink opening).sink
    have ho : o = { rest.outcome (play t.sink opening).sink with
        done := (play t.sink opening).done ++ ((t.waiting.take limit).map (.askAnnotations ·.id) ++
          (rest.outcome (play t.sink opening).sink).done) } := by
      have hrest := Script.outcome_append (congrArg Played.stopped hcalls) rest
      rw [hcalls] at hrest
      exact (Script.outcome_append hs ⟨_, rest.ending⟩).trans (by rw [hrest])
    refine ⟨u, hb.trans hu, hd.trans ?_, hk.trans ?_, hres.trans ?_⟩ <;>
      simp [ho, rest, State.carryOut]

/-- The report itself is one of the interleavings, step by step. -/
theorem exists_reaches_run (c : RunConfig) (answers : Answers) (s : Sink) :
    ∃ u, Reaches c.concurrency.limit answers (start c answers s) u ∧
      u.done = (run c answers s).done ∧ u.sink = (run c answers s).sink ∧
      u.result = some (run c answers s).result := by
  have hl := fun (jobs : List Job) (opening : List Step) =>
    @exists_reaches_opening _ answers ⟨jobs, [], ⟨jobs.length, 0, 0⟩, [], s, none⟩ c.concurrency.pos
      rfl opening
  rw [run_eq_outcome]
  unfold start script
  cases answers.jobs with
  | error cause => exact ⟨_, .refl _, rfl, rfl, rfl⟩
  | ok found =>
    cases found with
    | none => exact hl [] [.note (listingNote c), .askJobs, .note (noJobsNote c), .writeLine (idsLine [])]
    | some jobs => exact hl jobs [.note (listingNote c), .askJobs, .writeLine (idsLine jobs)]

end Eager

section Failures

theorem play_stopped_of_flush_notMem {steps : List Step} (h : .flush ∉ steps) (s : Sink) :
    (play s steps).stopped = none ∨ s.limit ≠ none ∧ (play s steps).stopped = some .full := by
  induction steps generalizing s with
  | nil => exact .inl rfl
  | cons step r ih =>
    simp only [List.mem_cons, not_or] at h
    obtain ⟨hstep, hr⟩ := h
    cases step with
    | flush => exact absurd rfl hstep
    | note _ => exact ih hr s
    | askJobs => exact ih hr s
    | askAnnotations _ => exact ih hr s
    | writeLine line =>
      simp only [play, Step.apply, Sink.write]
      split
      · rename_i ha
        obtain ⟨rfl, -⟩ := Prod.mk.inj ha
        exact ih hr _
      · rename_i ha
        obtain ⟨-, ha⟩ := Prod.mk.inj ha
        refine .inr ⟨?_, ?_⟩
        · intro hl
          simp [Sink.room, hl] at ha
        · split at ha
          · cases ha
          · cases ha
            rfl

theorem flush_notMem_jobSteps (job : Job) (annotations : List Annotation) :
    .flush ∉ jobSteps job annotations := by
  unfold jobSteps
  split <;> simp

theorem flush_notMem_asks (jobs : List Job) : .flush ∉ jobs.map (Step.askAnnotations ·.id) := by
  simp

theorem jobsScript_first_failure (answers : Answers) (summary : Summary) {before : List Job}
    {job : Job} (after waiting : List Job) {cause : String}
    (hb : ∀ j ∈ before, (answers.annotations j.id).isOk)
    (hj : answers.annotations job.id = .error cause) :
    (jobsScript answers summary (before ++ job :: after) waiting).ending = .error (jobFailure job cause) ∧
      .flush ∉ (jobsScript answers summary (before ++ job :: after) waiting).steps := by
  induction before generalizing summary waiting with
  | nil => simp [jobsScript, hj]
  | cons first r ih =>
    obtain ⟨hfirst, hr⟩ := List.forall_mem_cons.mp hb
    cases hf : answers.annotations first.id with
    | error cause => simp [hf, Except.isOk, Except.toBool] at hfirst
    | ok found =>
      obtain ⟨he, hs⟩ := ih (summary.add (found.getD [])) (waiting.drop 1) hr
      simp only [List.cons_append, jobsScript, hf, List.mem_append, not_or]
      exact ⟨he, ⟨flush_notMem_jobSteps first _, flush_notMem_asks _⟩, hs⟩

/-- The first failure in the order of the jobs is the one that is told, unless the sink is full
before. -/
theorem run_first_failure (c : RunConfig) (answers : Answers) (s : Sink) {before : List Job}
    {job : Job} {after : List Job} {cause : String}
    (hjobs : answers.jobs = .ok (some (before ++ job :: after)))
    (hb : ∀ j ∈ before, (answers.annotations j.id).isOk)
    (hj : answers.annotations job.id = .error cause) :
    (run c answers s).result = .error (jobFailure job cause) ∨
      s.limit ≠ none ∧ (run c answers s).result = .error Sink.Error.full.message := by
  have hscript := jobsScript_first_failure answers ⟨(before ++ job :: after).length, 0, 0⟩ after
    ((before ++ job :: after).drop c.concurrency.limit) hb hj
  have hending : (script c answers).ending = .error (jobFailure job cause) := by
    simp only [script, hjobs, listedScript, hscript]
  have hsteps : .flush ∉ (script c answers).steps := by
    simp only [script, hjobs, listedScript, List.mem_append, List.mem_cons, not_or]
    exact ⟨by simp, ⟨by simp, flush_notMem_asks _⟩, hscript.2⟩
  rw [run_eq_outcome]
  rcases play_stopped_of_flush_notMem hsteps s with h | ⟨hl, h⟩
  · exact .inl (by simp [Script.outcome, h, hending])
  · exact .inr ⟨hl, by simp [Script.outcome, h]⟩

end Failures

/-- Calls may start, end and be written in any order that the window allows: every interleaving comes
to an end, and there it has written, noted and resulted in what the report with one call at a time
does. When calls fail, the first of their jobs is told, whichever call failed first. -/
theorem interleaving_agrees_sequential (c : RunConfig) (answers : Answers) (s : Sink) :
    let sequential := run { c with concurrency := .one } answers s
    WellFounded (fun u t => Move c.concurrency.limit answers t u) ∧
    ∀ t, Reaches c.concurrency.limit answers (start c answers s) t →
      (t.result = none → ∃ u, Move c.concurrency.limit answers t u) ∧
      ∀ r, t.result = some r →
        t.sink = sequential.sink ∧
        (∀ level, (trace t.done).messagesAt level = (trace sequential.done).messagesAt level) ∧
        r = sequential.result ∧
        ∀ before job after cause, answers.jobs = .ok (some (before ++ job :: after)) →
          (∀ j ∈ before, (answers.annotations j.id).isOk) →
          answers.annotations job.id = .error cause →
          r = .error ("Failed to get annotations for job " ++ toString job.id ++ ": " ++ cause) ∨
            s.limit ≠ none ∧ r = .error "sink is full" := by
  intro sequential
  refine ⟨move_wellFounded _ _, fun t ht => ⟨exists_move c.concurrency.pos, fun r hr => ?_⟩⟩
  have hfuture : (⟨t.sink, trace t.done, r⟩ : Shown) = sequential.shown :=
    calc (⟨t.sink, trace t.done, r⟩ : Shown)
      _ = t.future answers := (State.future_of_result hr).symm
      _ = (start c answers s).future answers := ht.future
      _ = (run c answers s).shown := start_future c answers s
      _ = sequential.shown := (run_shown_concurrency c .one answers s).symm
  obtain ⟨hsink, hnotes, hresult⟩ := Shown.mk.inj hfuture
  refine ⟨hsink, fun level => congrArg (·.messagesAt level) hnotes, hresult, ?_⟩
  intro before job after cause hjobs hb hj
  rw [hresult]
  exact run_first_failure { c with concurrency := .one } answers s hjobs hb hj

def twoAtOnce : RunConfig :=
  ⟨"token", "7", ⟨"octo", "hello"⟩, ⟨"http".toList, none, false, .segments [[]], none, none⟩,
    ⟨2, by decide, by decide⟩⟩

def bothFail : Answers :=
  ⟨.ok (some [⟨1, none⟩, ⟨2, none⟩]), fun job => .error (if job = 1 then "slow" else "fast")⟩

/-- The call for the second job fails while the one for the first is under way, and the first job is
told. -/
theorem second_call_fails_first :
    ∃ u t, Reaches twoAtOnce.concurrency.limit bothFail (start twoAtOnce bothFail .unlimited) u ∧
      u.window = [(⟨1, none⟩, false), (⟨2, none⟩, true)] ∧
      Reaches twoAtOnce.concurrency.limit bothFail u t ∧
      t.result = some (.error "Failed to get annotations for job 1: slow") ∧
      t.sink = (run { twoAtOnce with concurrency := .one } bothFail .unlimited).sink := by
  let first : Job := ⟨1, none⟩
  let second : Job := ⟨2, none⟩
  let s := start twoAtOnce bothFail .unlimited
  let u : State := { s with
    waiting := []
    window := [(first, false), (second, true)]
    done := s.done ++ [.askAnnotations 1, .askAnnotations 2] }
  let t := { u with window := [(first, true), (second, true)] }.emit bothFail first [(second, true)]
  have hu : Reaches twoAtOnce.concurrency.limit bothFail s u :=
    .step (reaches_begin [first, second] [] rfl rfl (by decide))
      (@Move.complete _ _ _ [(first, false)] [] second rfl rfl)
  have ht : Reaches twoAtOnce.concurrency.limit bothFail u t :=
    .step (.step (.refl u) (.complete_first rfl rfl)) (.emit rfl rfl)
  have hfailure : jobFailure first "slow" = "Failed to get annotations for job 1: slow" := by decide
  obtain ⟨-, hends⟩ := interleaving_agrees_sequential twoAtOnce bothFail .unlimited
  obtain ⟨hsink, -⟩ := (hends t (hu.trans ht)).2 _ rfl
  exact ⟨u, t, hu, rfl, ht, congrArg (some ∘ Except.error) hfailure, hsink⟩

end AnnotationReport.Report.FanOut
