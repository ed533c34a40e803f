import AnnotationReport.Proofs.Report.Interleaving
import AnnotationReport.Proofs.Report.Sequential

/-! # Calls in the window

How many calls a report has under way, and which. In every state that it can come to, the jobs fall
into those that are written, those whose calls have started, at most as many as the concurrency allows,
and those that wait; the calls that were made are the ones for the jobs of the first two kinds, in the
order of the jobs. The accounts are kept by every move, whichever calls end first, and hold at the end
too, also when a job breaks the report off.
-/
namespace AnnotationReport.Report

def Step.job? : Step → Option Nat
  | askAnnotations job => some job
  | _ => none

/-- The jobs whose annotations were asked for, by their ids and in the order of the calls. -/
def asked (steps : List Step) : List Nat := steps.filterMap Step.job?

theorem asked_eq (steps : List Step) : asked steps = (calls steps).filterMap Step.job? := by
  rw [asked, calls, List.filterMap_filter]
  congr 1
  funext step
  cases step <;> rfl

theorem asked_of_calls {steps : List Step} {jobs : List Job}
    (h : calls steps = .askJobs :: jobs.map (.askAnnotations ·.id)) : asked steps = jobs.map Job.id := by
  have hjob : Step.job? ∘ (fun j : Job => Step.askAnnotations j.id) = some ∘ Job.id := rfl
  rw [asked_eq, h, List.filterMap_cons, List.filterMap_map, hjob, ← List.filterMap_map,
    List.filterMap_some]
  rfl

section Play

theorem prefix_play_done (s : Sink) (steps : List Step) : (play s steps).done <+: steps := by
  induction steps generalizing s with
  | nil => exact List.prefix_refl []
  | cons step r ih =>
    simp only [play]
    split
    · exact List.cons_prefix_cons.mpr ⟨rfl, ih _⟩
    · exact List.nil_prefix

theorem calls_of_prefix {first steps : List Step} (h : first <+: steps) (hn : calls steps = []) :
    calls first = [] :=
  List.eq_nil_of_prefix_nil (hn ▸ h.filter Step.isCall)

theorem bytes_prefix_play (s : Sink) (steps : List Step) : s.bytes <+: (play s steps).sink.bytes := by
  induction steps generalizing s with
  | nil => exact List.prefix_refl s.bytes
  | cons step r ih =>
    have hstep : s.bytes <+: (step.apply s).1.bytes := by
      cases step with
      | writeLine line => exact List.prefix_append _ _
      | _ => exact List.prefix_refl _
    simp only [play]
    split
    · rename_i ha
      rw [ha] at hstep
      exact hstep.trans (ih _)
    · rename_i ha
      rwa [ha] at hstep

end Play

namespace FanOut

variable (c : RunConfig) (answers : Answers) (s : Sink)

def listing : List Step :=
  [.note (listingNote c), .askJobs] ++
    match answers.jobs with
    | .ok none => [.note (noJobsNote c)]
    | _ => []

/-- What comes before the first call for annotations, the line of the jobs last. -/
def opening : List Step := listing c answers ++ [.writeLine (idsLine answers.listed)]

/-- What is written and noted for jobs, one after the other. -/
def blocks (jobs : List Job) : List Step := jobs.flatMap fun job => jobSteps job (answers.found job)

/-- A job that breaks a report off: the jobs before it are answered and written, and it is not answered
or the sink refuses one of its lines. -/
def BreaksAt (before : List Job) (job : Job) (e : String) : Prop :=
  let played := play s (opening c answers ++ blocks answers before)
  (∀ j ∈ before, answers.answered j) ∧ played.stopped = none ∧
    ((∃ cause, answers.annotations job.id = .error cause ∧ e = jobFailure job cause) ∨
      answers.answered job ∧ ∃ refusal : Sink.Error,
        (play played.sink (jobSteps job (answers.found job))).stopped = some refusal ∧
          e = refusal.message)

/-- How a report stands once the line of the jobs is written. -/
structure Account (limit : Nat) (t : State) (written outstanding : List Job) : Prop where
  order : answers.listed = written ++ outstanding ++ t.waiting
  room : outstanding.length ≤ limit
  calls : calls t.done = .askJobs :: (written ++ outstanding).map (.askAnnotations ·.id)
  opened : opening c answers <+: t.done
  kept : s.bytes ++ Text.Utf8.encode (idsLine answers.listed ++ ['\n']) <+: t.sink.bytes
  answered : ∀ job ∈ written, answers.answered job
  played : (play s (opening c answers ++ blocks answers written)).stopped = none
  window : t.window.length ≤ outstanding.length
  running : t.result = none → t.window.map Prod.fst = outstanding ∧
    t.sink = (play s (opening c answers ++ blocks answers written)).sink
  complete : ∀ summary, t.result = some (.ok summary) → outstanding = [] ∧ t.waiting = []
  broken : ∀ e, t.result = some (.error e) →
    (∃ job rest, outstanding = job :: rest ∧ BreaksAt c answers s written job e) ∨
      e = Sink.Error.noFlush.message ∧ outstanding = [] ∧ t.waiting = []

variable {c answers s} {limit : Nat} {t u : State} {written outstanding : List Job}

theorem calls_listing : Report.calls (listing c answers) = [.askJobs] := by
  unfold listing
  split <;> rfl

theorem calls_opening : Report.calls (opening c answers) = [.askJobs] := by
  rw [opening, calls_append, calls_listing]
  rfl

theorem Account.begin (h : Account c answers s limit t written outstanding) {job : Job} {r : List Job}
    (hr : t.result = none) (hw : t.waiting = job :: r) (hroom : t.window.length < limit) :
    Account c answers s limit
      { t with
        waiting := r
        window := t.window ++ [(job, false)]
        done := t.done ++ [.askAnnotations job.id] } written (outstanding ++ [job]) := by
  obtain ⟨hwindow, hsink⟩ := h.running hr
  have hlength : outstanding.length = t.window.length := by rw [← hwindow, List.length_map]
  exact
    { order := by rw [h.order, hw]; simp
      room := by rw [List.length_append, hlength]; exact hroom
      calls := by
        have hask : Report.calls [.askAnnotations job.id] = [.askAnnotations job.id] := rfl
        rw [calls_append, h.calls, hask]
        simp
      opened := h.opened.trans (List.prefix_append _ _)
      kept := h.kept
      answered := h.answered
      played := h.played
      window := by simp [hlength]
      running := fun _ => ⟨by simp [hwindow], hsink⟩
      complete := fun summary hs => by rw [hr] at hs; cases hs
      broken := fun e he => by rw [hr] at he; cases he }

theorem Account.complete_call (h : Account c answers s limit t written outstanding)
    {before after : List (Job × Bool)} {job : Job} (hr : t.result = none)
    (hw : t.window = before ++ (job, false) :: after) :
    Account c answers s limit { t with window := before ++ (job, true) :: after } written outstanding := by
  obtain ⟨hwindow, hsink⟩ := h.running hr
  have hjobs : (before ++ (job, true) :: after).map Prod.fst = outstanding := by
    rw [← hwindow, hw]
    simp
  exact { h with
    window := by rw [← hjobs, List.length_map]
    running := fun _ => ⟨hjobs, hsink⟩ }

theorem blocks_concat (jobs : List Job) (job : Job) :
    opening c answers ++ blocks answers (jobs ++ [job]) =
      (opening c answers ++ blocks answers jobs) ++ jobSteps job (answers.found job) := by
  simp [blocks]

theorem Account.emit_failed (h : Account c answers s limit t written outstanding) {job : Job}
    {after : List (Job × Bool)} {cause : String} (hr : t.result = none)
    (hw : t.window = (job, true) :: after) (hc : answers.annotations job.id = .error cause) :
    Account c answers s limit (t.emit answers job after) written outstanding := by
  obtain ⟨hwindow, -⟩ := h.running hr
  have houtstanding : outstanding = job :: after.map Prod.fst := by rw [← hwindow, hw]; rfl
  simp only [State.emit, hc]
  exact { h with
    running := fun hn => by cases hn
    complete := fun summary hs => by cases hs
    broken := fun e he => by
      obtain rfl := Except.error.inj (Option.some.inj he)
      exact .inl ⟨job, _, houtstanding, h.answered, h.played, .inl ⟨cause, hc, rfl⟩⟩ }

theorem Account.emit_answered (h : Account c answers s limit t written outstanding) {job : Job}
    {after : List (Job × Bool)} {found : Option (List Annotation)} (hr : t.result = none)
    (hw : t.window = (job, true) :: after) (hf : answers.annotations job.id = .ok found) :
    ∃ written outstanding,
      Account c answers s limit (t.emit answers job after) written outstanding := by
  obtain ⟨hwindow, hsink⟩ := h.running hr
  obtain rfl : outstanding = job :: after.map Prod.fst := by rw [← hwindow, hw]; rfl
  have hanswered : answers.answered job = true := answered_of_ok hf
  have hplay := play_append s (opening c answers ++ blocks answers written)
    (jobSteps job (answers.found job))
  have hcalls := calls_of_prefix (prefix_play_done t.sink (jobSteps job (answers.found job)))
    (calls_jobSteps job (answers.found job))
  have hkept := h.kept.trans (bytes_prefix_play t.sink (jobSteps job (answers.found job)))
  have hopened : opening c answers <+: t.done ++ (play t.sink (jobSteps job (answers.found job))).done :=
    h.opened.trans (List.prefix_append _ _)
  have hdone : Report.calls (t.done ++ (play t.sink (jobSteps job (answers.found job))).done) =
      .askJobs :: (written ++ job :: after.map Prod.fst).map (.askAnnotations ·.id) := by
    rw [calls_append, hcalls, List.append_nil, h.calls]
  simp only [State.emit, hf, found_getD hf]
  simp only [h.played, ← hsink, ← blocks_concat] at hplay
  cases hs : (play t.sink (jobSteps job (answers.found job))).stopped with
  | none =>
    refine ⟨written ++ [job], after.map Prod.fst, ?_⟩
    exact
      { order := by rw [h.order]; simp [State.carryOut]
        room := Nat.le_of_succ_le h.room
        calls := by simpa [State.carryOut] using hdone
        opened := hopened
        kept := hkept
        answered := by
          intro j hj
          rcases List.mem_append.mp hj with hj | hj
          · exact h.answered j hj
          · rw [List.mem_singleton.mp hj]
            exact hanswered
        played := by rw [hplay]; exact hs
        window := by simp
        running := fun _ => ⟨rfl, by rw [hplay]; rfl⟩
        complete := fun summary he => by simp [State.carryOut, hs] at he
        broken := fun e he => by simp [State.carryOut, hs] at he }
  | some refusal =>
    refine ⟨written, job :: after.map Prod.fst, ?_⟩
    exact
      { order := h.order
        room := h.room
        calls := hdone
        opened := hopened
        kept := hkept
        answered := h.answered
        played := h.played
        window := by simp
        running := fun hn => by simp [State.carryOut, hs] at hn
        complete := fun summary he => by simp [State.carryOut, hs] at he
        broken := fun e he => by
          simp only [State.carryOut, hs, Option.map_some, Option.some.injEq, Except.error.injEq] at he
          refine .inl ⟨job, _, rfl, h.answered, h.played, .inr ⟨hanswered, refusal, ?_, he.symm⟩⟩
          rw [← hsink]
          exact hs }

theorem State.finish_result (t : State) :
    t.finish.result =
      some (if t.sink.canFlush then .ok t.summary else .error Sink.Error.noFlush.message) := by
  cases hf : t.sink.canFlush <;>
    simp [State.finish, State.carryOut, play, Step.apply, Sink.flush, hf]

theorem Account.finish (h : Account c answers s limit t written outstanding) (hr : t.result = none)
    (hw : t.waiting = []) (hn : t.window = []) :
    Account c answers s limit t.finish written outstanding := by
  obtain ⟨hwindow, hsink⟩ := h.running hr
  have houtstanding : outstanding = [] := by rw [← hwindow, hn]; rfl
  let ending := [Step.flush, .note (summaryNote t.summary)]
  have hcalls : Report.calls (play t.sink ending).done = [] :=
    calls_of_prefix (prefix_play_done t.sink ending) rfl
  exact
    { order := h.order
      room := h.room
      calls := by
        change Report.calls (t.done ++ (play t.sink ending).done) = _
        rw [calls_append, hcalls, List.append_nil, h.calls]
      opened := h.opened.trans (List.prefix_append _ _)
      kept := h.kept.trans (bytes_prefix_play t.sink ending)
      answered := h.answered
      played := h.played
      window := h.window
      running := fun hnone => by simp [State.finish_result] at hnone
      complete := fun _ _ => ⟨houtstanding, hw⟩
      broken := fun e he => by
        rw [State.finish_result, Option.some.injEq] at he
        split at he
        · cases he
        · exact .inr ⟨(Except.error.inj he).symm, houtstanding, hw⟩ }

/-- Every move keeps the accounts. -/
theorem Move.account (hm : Move limit answers t u) (h : Account c answers s limit t written outstanding) :
    ∃ written outstanding, Account c answers s limit u written outstanding := by
  cases hm with
  | begin hr hw hroom => exact ⟨_, _, h.begin hr hw hroom⟩
  | complete hr hw => exact ⟨_, _, h.complete_call hr hw⟩
  | @emit job after hr hw =>
    cases ha : answers.annotations job.id with
    | error cause => exact ⟨_, _, h.emit_failed hr hw ha⟩
    | ok found => exact h.emit_answered hr hw ha
  | finish hr hw hn => exact ⟨_, _, h.finish hr hw hn⟩

theorem play_listing : play s (listing c answers) = ⟨listing c answers, s, none⟩ := by
  unfold listing
  split <;> rfl

theorem bytes_of_write_ok {bytes : List UInt8} (h : (s.write bytes).2 = .ok ()) :
    (s.write bytes).1.bytes = s.bytes ++ bytes := by
  simp only [Sink.write] at h ⊢
  split at h
  · rw [List.take_of_length_le ‹_›]
  · cases h

/-- The line of the jobs is all that can stop the opening. -/
theorem play_opening :
    play s (opening c answers) =
      match s.write (Text.Utf8.encode (idsLine answers.listed ++ ['\n'])) with
      | (t, .ok ()) => ⟨opening c answers, t, none⟩
      | (t, .error e) => ⟨listing c answers, t, some e⟩ := by
  rw [opening, play_append, play_listing]
  simp only [play, Step.apply]
  cases s.write (Text.Utf8.encode (idsLine answers.listed ++ ['\n'])) with
  | mk t written => cases written <;> simp

theorem start_eq (h : answers.jobs.isOk) :
    start c answers s =
      (⟨answers.listed, [], ⟨answers.listed.length, 0, 0⟩, [], s, none⟩ : State).carryOut
        (opening c answers) := by
  unfold start opening listing Answers.listed
  cases hj : answers.jobs with
  | error cause => simp [hj, Except.isOk, Except.toBool] at h
  | ok listing => cases listing <;> rfl

/-- A report that cannot list the jobs or write their line is at its end before the first call for
annotations; else it stands where the accounts begin. -/
theorem start_cases (c : RunConfig) (answers : Answers) (s : Sink) (limit : Nat) :
    let line := s.write (Text.Utf8.encode (idsLine answers.listed ++ ['\n']))
    (¬(answers.jobs.isOk ∧ line.2 = .ok ()) ∧ (∃ e, (start c answers s).result = some (.error e)) ∧
        Report.calls (start c answers s).done = [.askJobs] ∧ (start c answers s).window = []) ∨
      (answers.jobs.isOk ∧ line.2 = .ok ()) ∧ Account c answers s limit (start c answers s) [] [] := by
  intro line
  cases hj : answers.jobs with
  | error cause =>
    have hstart : start c answers s = ⟨[], [], ⟨0, 0, 0⟩, [.note (listingNote c), .askJobs], s,
        some (.error (jobsFailure c cause))⟩ := by
      unfold start
      simp only [hj]
    exact .inl (by rw [hstart]; exact ⟨by simp [Except.isOk, Except.toBool], ⟨_, rfl⟩, rfl, rfl⟩)
  | ok found =>
    have hok : answers.jobs.isOk := by rw [hj]; rfl
    have hplay := @play_opening c answers s
    rw [start_eq hok]
    obtain ⟨⟨after, written⟩, hline⟩ : ∃ w, line = w := ⟨_, rfl⟩
    simp only [line] at hline ⊢
    rw [hline] at hplay ⊢
    cases written with
    | error e =>
      refine .inl ?_
      simp only [State.carryOut, hplay]
      exact ⟨by simp, ⟨_, rfl⟩, calls_listing, trivial⟩
    | ok _ =>
      have hkept := bytes_of_write_ok (congrArg Prod.snd hline)
      have hopening : opening c answers ++ blocks answers [] = opening c answers := List.append_nil _
      rw [hline] at hkept
      refine .inr ⟨⟨rfl, rfl⟩, ?_⟩
      exact
        { order := rfl
          room := Nat.zero_le limit
          calls := by simp [State.carryOut, hplay, calls_opening]
          opened := by simp [State.carryOut, hplay]
          kept := by
            simp only [State.carryOut, hplay]
            exact hkept ▸ List.prefix_refl _
          answered := fun job hj => by cases hj
          played := by rw [hopening, hplay]
          window := Nat.le_refl 0
          running := fun _ => ⟨rfl, by rw [hopening]; rfl⟩
          complete := fun summary he => by simp [State.carryOut, hplay] at he
          broken := fun e he => by simp [State.carryOut, hplay] at he }

theorem Move.running (h : Move limit answers t u) : t.result = none := by
  cases h <;> assumption

/-- The accounts hold in every state, once the line of the jobs is written. -/
theorem Reaches.account (h : Reaches limit answers (start c answers s) t) :
    let line := s.write (Text.Utf8.encode (idsLine answers.listed ++ ['\n']))
    (¬(answers.jobs.isOk ∧ line.2 = .ok ()) ∧ (∃ e, t.result = some (.error e)) ∧
        Report.calls t.done = [.askJobs] ∧ t.window = []) ∨
      (answers.jobs.isOk ∧ line.2 = .ok ()) ∧
        ∃ written outstanding, Account c answers s limit t written outstanding := by
  generalize hs : start c answers s = first at h
  induction h with
  | refl =>
    subst hs
    rcases start_cases c answers s limit with h | ⟨hline, ha⟩
    · exact .inl h
    · exact .inr ⟨hline, [], [], ha⟩
  | step _ hm ih =>
    rcases ih with ⟨-, ⟨e, he⟩, -⟩ | ⟨hline, written, outstanding, ha⟩
    · rw [hm.running] at he
      cases he
    · exact .inr ⟨hline, hm.account ha⟩

theorem opening_prefix_of_ask {before after : List Step} {job : Nat}
    (h : opening c answers <+: before ++ .askAnnotations job :: after) : opening c answers <+: before := by
  obtain ⟨rest, h⟩ := h
  rcases List.append_eq_append_iff.mp h with ⟨more, hbefore, -⟩ | ⟨more, hopening, hask⟩
  · exact ⟨more, hbefore.symm⟩
  · cases more with
    | nil => exact ⟨[], by simpa using hopening⟩
    | cons step more =>
      obtain ⟨rfl, -⟩ := List.cons.inj hask
      have hcalls := @calls_opening c answers
      rw [hopening, calls_append] at hcalls
      have hmem : Step.askAnnotations job ∈ [Step.askJobs] := by
        rw [← hcalls]
        simp [Report.calls, Step.isCall]
      simp at hmem

/-- What the concurrency bounds. In every state of every interleaving at most `limit` calls for
annotations are outstanding; the calls are those for the jobs in their order, each made once, and none
comes before the line of the jobs. A complete report has asked for every job; one that breaks off at a
job has asked for the jobs before it and at most `limit` more. -/
theorem calls_within_window (c : RunConfig) (answers : Answers) (s : Sink) :
    let jobs := answers.listed
    let limit := c.concurrency.limit
    let line := Text.Utf8.encode (idsLine jobs ++ ['\n'])
    ∀ t, Reaches limit answers (start c answers s) t →
      (∃ written outstanding, written ++ outstanding <+: jobs ∧
        Report.calls t.done = .askJobs :: (written ++ outstanding).map (.askAnnotations ·.id) ∧
        outstanding.length ≤ limit ∧
        (t.result = none → t.window.map Prod.fst = outstanding ∧
          (play s (opening c answers ++ blocks answers written)).stopped = none ∧
          (play s (opening c answers ++ blocks answers written)).sink = t.sink)) ∧
      t.window.length ≤ limit ∧
      (∀ before job after, t.done = before ++ .askAnnotations job :: after →
        .writeLine (idsLine jobs) ∈ before ∧ s.bytes ++ line <+: t.sink.bytes) ∧
      ((s.write line).2 ≠ .ok () → asked t.done = []) ∧
      (∀ summary, t.result = some (.ok summary) →
        Report.calls t.done = .askJobs :: jobs.map (.askAnnotations ·.id)) ∧
      ∀ e, t.result = some (.error e) →
        (¬(answers.jobs.isOk ∧ (s.write line).2 = .ok ()) ∧ asked t.done = []) ∨
          (∃ before job after, jobs = before ++ job :: after ∧ BreaksAt c answers s before job e ∧
            (asked t.done).length ≤ before.length + limit) ∨
          e = "sink cannot flush" ∧ asked t.done = jobs.map Job.id := by
  intro jobs limit line t ht
  rcases ht.account with ⟨hnot, ⟨e, he⟩, hcalls, hwindow⟩ | ⟨⟨hjobs, hline⟩, written, outstanding, ha⟩
  · have hasked : asked t.done = [] := @asked_of_calls t.done [] hcalls
    refine ⟨⟨[], [], List.nil_prefix, hcalls, Nat.zero_le _, ?_⟩, ?_, ?_, fun _ => hasked, ?_, ?_⟩
    · intro hn
      rw [he] at hn
      cases hn
    · simp [hwindow]
    · intro before job after hdone
      rw [hdone, asked, List.filterMap_append] at hasked
      simp [Step.job?] at hasked
    · intro summary hsummary
      rw [he] at hsummary
      cases hsummary
    · exact fun _ _ => .inl ⟨hnot, hasked⟩
  · have hasked : asked t.done = (written ++ outstanding).map Job.id := asked_of_calls ha.calls
    refine ⟨⟨written, outstanding, ⟨t.waiting, ha.order.symm⟩, ha.calls, ha.room, ?_⟩,
      Nat.le_trans ha.window ha.room, ?_, fun hn => absurd hline hn, ?_, ?_⟩
    · intro hn
      obtain ⟨hwindow, hsink⟩ := ha.running hn
      exact ⟨hwindow, ha.played, hsink.symm⟩
    · intro before job after hdone
      have hopening := opening_prefix_of_ask (hdone ▸ ha.opened)
      exact ⟨hopening.subset (by simp [opening, jobs]), ha.kept⟩
    · intro summary hsummary
      obtain ⟨rfl, hwaiting⟩ := ha.complete summary hsummary
      have horder := ha.order
      rw [hwaiting, List.append_nil] at horder
      rw [ha.calls, ← horder]
    · intro e he
      rcases ha.broken e he with ⟨job, rest, rfl, hbreaks⟩ | ⟨hflush, rfl, hwaiting⟩
      · refine .inr (.inl ⟨written, job, rest ++ t.waiting, ?_, hbreaks, ?_⟩)
        · simpa using ha.order
        · have hroom := ha.room
          rw [hasked, List.length_map, List.length_append]
          omega
      · have horder := ha.order
        rw [hwaiting, List.append_nil] at horder
        exact .inr (.inr ⟨hflush, by rw [hasked, ← horder]⟩)

def secondFails : Answers :=
  ⟨.ok (some [⟨1, none⟩, ⟨2, none⟩, ⟨3, none⟩]), fun job => if job = 2 then .error "lost" else .ok none⟩

/-- Two calls at once, and the second of three jobs is not answered: by then the call for the third has
started, which is as far ahead as it may be. -/
theorem third_job_asked_ahead :
    ∃ t, Reaches twoAtOnce.concurrency.limit secondFails (start twoAtOnce secondFails .unlimited) t ∧
      t.result = some (.error "Failed to get annotations for job 2: lost") ∧ asked t.done = [1, 2, 3] ∧
      ∃ before job after, secondFails.listed = before ++ job :: after ∧
        BreaksAt twoAtOnce secondFails .unlimited before job
          "Failed to get annotations for job 2: lost" ∧
        (asked t.done).length ≤ before.length + 2 := by
  obtain ⟨t, ht, hdone, -, hresult⟩ := exists_reaches_run twoAtOnce secondFails .unlimited
  have hasked : asked t.done = [1, 2, 3] := by
    rw [hdone]
    decide
  have hend : t.result = some (.error "Failed to get annotations for job 2: lost") := by
    rw [hresult]
    rfl
  obtain ⟨-, -, -, -, -, hbroken⟩ := calls_within_window twoAtOnce secondFails .unlimited t ht
  rcases hbroken _ hend with ⟨-, hnone⟩ | hbreaks | ⟨hflush, -⟩
  · simp [hasked] at hnone
  · exact ⟨t, ht, hend, hasked, hbreaks⟩
  · exact absurd hflush (by decide)

end FanOut

end AnnotationReport.Report
