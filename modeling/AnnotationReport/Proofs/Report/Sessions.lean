import AnnotationReport.Proofs.Report.Replies

/-! # Runs of one reporter

What is recorded of the runs of one reporter, one after the other. The API may answer differently each time,
and the calls may overlap in any way that the concurrency allows. The invariant is how a run stands when the
next job is to be written: what the sink holds, what is counted and what is told are those of the jobs
before. Every move keeps it or ends the run, and what was told before a run stays as it was.
-/
namespace AnnotationReport.Report

namespace FanOut

/-- The jobs that are not written yet. -/
def State.queue (t : State) : List Job := t.window.map Prod.fst ++ t.waiting

/-- The states that a run may come to. Each move finds the answers for the first job that is not written. -/
inductive Proceeds (limit : Nat) (r : Replies) (s : State) : State → Prop
  | refl : Proceeds limit r s s
  | step {t u : State} :
      Proceeds limit r s t → Move limit (r.answersAt (r.listed.length - t.queue.length)) t u →
      Proceeds limit r s u

end FanOut

/-- A reporter between two runs: its sink, and what it has told. -/
structure Reporter where
  sink : Sink
  trace : Trace

def Reporter.after (p : Reporter) (t : FanOut.State) : Reporter :=
  ⟨t.sink, (Report.trace t.done).foldl (fun told n => told.record n.level n.message) p.trace⟩

/-- Runs of one reporter, one after the other. Between two runs the sink keeps what it holds; how much it
takes from then on and whether it can flush may be different in each run, as with a disk that fills up or a
pipe that is closed. -/
inductive Session (c : RunConfig) : Reporter → List Episode → Reporter → Prop
  | nil (p : Reporter) : Session c p [] p
  | run {p q : Reporter} {r : Replies} {s : Sink} {t : FanOut.State} {result : Except String Summary}
      {rest : List Episode} :
      s.bytes = p.sink.bytes → FanOut.Proceeds c.concurrency.limit r (FanOut.start c (r.answersAt 0) s) t →
      t.result = some result → Session c (p.after t) rest q →
      Session c p (⟨r, s, result⟩ :: rest) q

namespace FanOut

/-- How a run stands when the job at a place is the next to be written. -/
structure Stands (c : RunConfig) (r : Replies) (s : Sink) (t : State) (place : Nat) : Prop where
  running : t.result = none
  jobs : r.jobs.isOk
  within : place ≤ r.listed.length
  queue : t.queue = r.listed.drop place
  answered : ∀ k < place, r.answered k
  takes : s.Takes (r.writtenBefore place)
  sink : t.sink = s.append (r.writtenBefore place)
  summary : t.summary = r.countsBefore place
  notes : trace t.done = trace (listing c (r.answersAt 0)) ++ r.toldBefore place

/-- How a run has ended. -/
structure Ended (c : RunConfig) (e : Episode) (t : State) : Prop where
  result : t.result = some e.result
  notes : trace t.done = e.told c
  success : ∀ summary, e.result = .ok summary ↔
    e.Succeeds ∧ summary = e.replies.countsBefore e.replies.listed.length

variable {c : RunConfig} {r : Replies} {s : Sink} {limit place : Nat} {t u : State}

theorem ended_of_error {cause : String} (hresult : t.result = some (.error cause))
    (hfails : ¬Episode.Succeeds ⟨r, s, .error cause⟩)
    (hreached : ∀ k < place, r.Reached s k)
    (hrest : ∀ k, place ≤ k → k < r.listed.length → ¬r.Reached s k)
    (hnotes : trace t.done = trace (listing c (r.answersAt 0)) ++ r.toldBefore place) :
    Ended c ⟨r, s, .error cause⟩ t where
  result := hresult
  notes := by rw [Episode.told_eq hreached hrest, hnotes, List.append_nil]
  success := by
    intro summary
    exact iff_of_false (fun h => by cases h) fun h => hfails h.1

/-- A line that is refused ends the run, and no job after it is reached. -/
theorem ended_of_refused (hresult : t.result = some (.error Sink.Error.full.message))
    (hrefused : ¬s.Takes (r.writtenBefore place)) (hwithin : place ≤ r.listed.length)
    (hreached : ∀ k < place, r.Reached s k)
    (hnotes : trace t.done = trace (listing c (r.answersAt 0)) ++ r.toldBefore place) :
    Ended c ⟨r, s, .error Sink.Error.full.message⟩ t := by
  have hlater : ∀ k, place ≤ k → ¬s.Takes (r.writtenBefore k) := fun k hk htakes =>
    hrefused (Replies.takes_of_le hk htakes)
  apply ended_of_error hresult _ hreached _ hnotes
  · exact fun hsucceeds => hlater _ hwithin hsucceeds.2.2.1
  · exact fun k hk _ hk' => hlater k hk hk'.2

theorem Stands.reached (h : Stands c r s t place) : ∀ k < place, r.Reached s k := by
  intro k hk
  exact ⟨fun j hj => h.answered j (Nat.lt_of_le_of_lt hj hk), Replies.takes_of_le (Nat.le_of_lt hk) h.takes⟩

theorem Stands.place_eq (h : Stands c r s t place) : r.listed.length - t.queue.length = place := by
  rw [h.queue, List.length_drop]
  have := h.within
  omega

theorem Stands.begin (h : Stands c r s t place) {job : Job} {rest : List Job}
    (hw : t.waiting = job :: rest) :
    Stands c r s
      { t with
        waiting := rest
        window := t.window ++ [(job, false)]
        done := t.done ++ [.askAnnotations job.id] } place :=
  { h with
    queue := by rw [← h.queue, State.queue, State.queue, hw]; simp
    notes := by
      have hcall : trace [.askAnnotations job.id] = [] := rfl
      rw [trace_append, hcall, List.append_nil, h.notes] }

theorem Stands.complete_call (h : Stands c r s t place) {before after : List (Job × Bool)} {job : Job}
    (hw : t.window = before ++ (job, false) :: after) :
    Stands c r s { t with window := before ++ (job, true) :: after } place :=
  { h with queue := by rw [← h.queue, State.queue, State.queue, hw]; simp }

theorem Stands.next_job (h : Stands c r s t place) {job : Job} {after : List (Job × Bool)}
    (hw : t.window = (job, true) :: after) :
    r.listed[place]? = some job ∧ r.listed.drop (place + 1) = after.map Prod.fst ++ t.waiting := by
  have hqueue : r.listed.drop place = job :: (after.map Prod.fst ++ t.waiting) := by
    rw [← h.queue, State.queue, hw]
    rfl
  refine ⟨?_, ?_⟩
  · rw [← List.head?_drop, hqueue, List.head?_cons]
  · rw [← List.tail_drop, hqueue, List.tail_cons]

theorem Stands.emit_failed (h : Stands c r s t place) {job : Job} {after : List (Job × Bool)} {cause : String}
    (hw : t.window = (job, true) :: after) (hc : r.annotations place = .error cause) :
    Ended c ⟨r, s, .error (jobFailure job cause)⟩ (t.emit (r.answersAt place) job after) := by
  obtain ⟨hjob, -⟩ := h.next_job hw
  have hlt : place < r.listed.length := (List.getElem?_eq_some_iff.mp hjob).1
  have hanswered : r.answered place = false := @answered_of_error (r.answersAt place) job cause hc
  have hfailed : ¬r.answered place := by rw [hanswered]; decide
  have hemit : t.emit (r.answersAt place) job after =
      { t with result := some (.error (jobFailure job cause)) } := by
    simp only [State.emit, Replies.answersAt, hc]
  rw [hemit]
  refine ended_of_error rfl ?_ h.reached ?_ h.notes
  · exact fun hsucceeds => hfailed (hsucceeds.2.1 place hlt)
  · exact fun k hk _ hreached => hfailed (hreached.1 place hk)

section Answered

variable {job : Job} {after : List (Job × Bool)} {found : Option (List Annotation)}

theorem emit_eq (hf : r.annotations place = .ok found) :
    t.emit (r.answersAt place) job after =
      { t.carryOut (jobSteps job (r.found place)) with
        window := after
        summary := t.summary.add (r.found place) } := by
  have hfound : found.getD [] = r.found place := @found_getD (r.answersAt place) job found hf
  simp only [State.emit, Replies.answersAt, hf, hfound]

theorem Stands.answered_succ (h : Stands c r s t place) (hf : r.annotations place = .ok found) :
    ∀ k < place + 1, r.answered k := by
  intro k hk
  rcases Nat.lt_succ_iff_lt_or_eq.mp hk with hk | rfl
  · exact h.answered k hk
  · exact @answered_of_ok (r.answersAt k) ⟨0, none⟩ found hf

/-- A job is told of whether or not all of its lines are written. -/
theorem Stands.notes_emit (h : Stands c r s t place) (hw : t.window = (job, true) :: after)
    (hf : r.annotations place = .ok found) :
    trace (t.emit (r.answersAt place) job after).done =
      trace (listing c (r.answersAt 0)) ++ r.toldBefore (place + 1) := by
  obtain ⟨hjob, -⟩ := h.next_job hw
  rw [emit_eq hf, Replies.toldBefore_succ hjob, ← List.append_assoc, ← h.notes,
    ← trace_play_jobSteps t.sink, ← trace_append]
  rfl

theorem Stands.takes_succ_iff (h : Stands c r s t place) (hw : t.window = (job, true) :: after) :
    s.Takes (r.writtenBefore (place + 1)) ↔
      t.sink.Takes ((jobSteps job (r.found place)).flatMap Step.output) := by
  obtain ⟨hjob, -⟩ := h.next_job hw
  rw [Replies.writtenBefore_succ hjob, Sink.takes_append, ← h.sink, output_jobSteps]
  exact and_iff_right h.takes

theorem Stands.emit_written (h : Stands c r s t place) (hw : t.window = (job, true) :: after)
    (hf : r.annotations place = .ok found) (hfits : s.Takes (r.writtenBefore (place + 1))) :
    Stands c r s (t.emit (r.answersAt place) job after) (place + 1) := by
  obtain ⟨hjob, hqueue⟩ := h.next_job hw
  have hplay := play_of_takes (flush_notMem_jobSteps job (r.found place)) ((h.takes_succ_iff hw).mp hfits)
  have hnotes := h.notes_emit hw hf
  rw [emit_eq hf] at hnotes ⊢
  exact
    { running := by simp [State.carryOut, hplay]
      jobs := h.jobs
      within := (List.getElem?_eq_some_iff.mp hjob).1
      queue := hqueue.symm
      answered := h.answered_succ hf
      takes := hfits
      sink := by
        rw [Replies.writtenBefore_succ hjob, ← Sink.append_append, ← h.sink, ← output_jobSteps]
        exact congrArg Played.sink hplay
      summary := by rw [Replies.countsBefore_succ, ← h.summary]
      notes := hnotes }

theorem Stands.emit_refused (h : Stands c r s t place) (hw : t.window = (job, true) :: after)
    (hf : r.annotations place = .ok found) (hrefused : ¬s.Takes (r.writtenBefore (place + 1))) :
    Ended c ⟨r, s, .error Sink.Error.full.message⟩ (t.emit (r.answersAt place) job after) := by
  obtain ⟨hjob, -⟩ := h.next_job hw
  have hlt : place < r.listed.length := (List.getElem?_eq_some_iff.mp hjob).1
  have hstopped := play_of_not_takes (flush_notMem_jobSteps job (r.found place))
    (mt (h.takes_succ_iff hw).mpr hrefused)
  apply ended_of_refused _ hrefused hlt _ (h.notes_emit hw hf)
  · rw [emit_eq hf]
    simp [State.carryOut, hstopped]
  · intro k hk
    exact ⟨fun j hj => h.answered_succ hf j (Nat.lt_of_le_of_lt hj hk),
      Replies.takes_of_le (Nat.le_of_lt_succ hk) h.takes⟩

end Answered

theorem Stands.finish (h : Stands c r s t place) (hw : t.waiting = []) (hn : t.window = []) :
    ∃ result, Ended c ⟨r, s, result⟩ t.finish := by
  have hqueue := h.queue
  rw [State.queue, hw, hn, List.map_nil, List.append_nil] at hqueue
  obtain rfl : place = r.listed.length := Nat.le_antisymm h.within (List.drop_eq_nil_iff.mp hqueue.symm)
  have hresult := State.finish_result t
  rw [h.sink, Sink.append_canFlush, h.summary] at hresult
  have hrest : ∀ k, r.listed.length ≤ k → k < r.listed.length → ¬r.Reached s k := fun k hle hlt =>
    absurd hlt (Nat.not_lt_of_le hle)
  cases hf : s.canFlush with
  | false =>
    rw [hf] at hresult
    refine ⟨_, ended_of_error hresult ?_ h.reached hrest ?_⟩
    · intro hsucceeds
      have hflush : s.canFlush = true := hsucceeds.2.2.2
      rw [hf] at hflush
      cases hflush
    · rw [← h.notes]
      simp [State.finish, State.carryOut, play, Step.apply, Sink.flush, h.sink, hf]
  | true =>
    rw [hf] at hresult
    refine ⟨_, hresult, ?_, ?_⟩
    · rw [Episode.told_eq h.reached hrest, ← h.notes, ← h.summary]
      simp [State.finish, State.carryOut, play, Step.apply, Sink.flush, h.sink, hf]
      rfl
    · intro summary
      refine ⟨fun hok => ⟨⟨h.jobs, h.answered, h.takes, hf⟩, ?_⟩, fun hsucceeds => ?_⟩
      · exact (Except.ok.inj hok).symm
      · exact congrArg Except.ok hsucceeds.2.symm

/-- Every move keeps how a run stands, comes to the next place or ends the run. -/
theorem Move.stands (hm : Move limit (r.answersAt place) t u) (h : Stands c r s t place) :
    (∃ next, Stands c r s u next) ∨ ∃ result, Ended c ⟨r, s, result⟩ u := by
  cases hm with
  | begin _ hw _ => exact .inl ⟨place, h.begin hw⟩
  | complete _ hw => exact .inl ⟨place, h.complete_call hw⟩
  | emit _ hw =>
    cases ha : r.annotations place with
    | error cause => exact .inr ⟨_, h.emit_failed hw ha⟩
    | ok found =>
      by_cases hfits : s.Takes (r.writtenBefore (place + 1))
      · exact .inl ⟨_, h.emit_written hw ha hfits⟩
      · exact .inr ⟨_, h.emit_refused hw ha hfits⟩
  | finish _ hw hn => exact .inr (h.finish hw hn)

theorem output_opening (c : RunConfig) (r : Replies) :
    (opening c (r.answersAt 0)).flatMap Step.output = r.writtenBefore 0 := by
  have hlisting : (listing c (r.answersAt 0)).flatMap Step.output = [] := by
    unfold listing
    cases (r.answersAt 0).jobs with
    | error _ => rfl
    | ok found => cases found <;> rfl
  rw [opening, List.flatMap_append, hlisting, List.nil_append, List.flatMap_singleton, output_writeLine,
    ofList_idsLine]
  rfl

theorem flush_notMem_opening (c : RunConfig) (answers : Answers) : .flush ∉ opening c answers := by
  unfold opening listing
  split <;> simp

theorem trace_play_opening (c : RunConfig) (answers : Answers) (s : Sink) :
    trace (play s (opening c answers)).done = trace (listing c answers) := by
  have hnone : trace (play s [.writeLine (idsLine answers.listed)]).done = [] :=
    trace_of_prefix (prefix_play_done s _) rfl
  rw [opening, play_append, play_listing]
  simp only [trace_append, hnone, List.append_nil]

theorem not_reached_before (k : Nat) (hk : k < 0) : r.Reached s k := absurd hk (Nat.not_lt_zero k)

theorem start_unlisted {cause : String} (h : r.jobs = .error cause) :
    Ended c ⟨r, s, .error (jobsFailure c cause)⟩ (start c (r.answersAt 0) s) := by
  have hstart : start c (r.answersAt 0) s = ⟨[], [], ⟨0, 0, 0⟩, [.note (listingNote c), .askJobs], s,
      some (.error (jobsFailure c cause))⟩ := by
    simp only [start, Replies.answersAt, h]
  have hlisted : r.listed = [] := by simp [Replies.listed, Answers.listed, Replies.answersAt, h]
  have hnotes : trace (listing c (r.answersAt 0)) = [listingNote c] := by
    simp [trace_listing, Replies.answersAt, h]
  rw [hstart]
  apply ended_of_error rfl _ not_reached_before
  · simp [hlisted]
  · rw [hnotes]
    rfl
  · intro hsucceeds
    have hok : r.jobs.isOk := hsucceeds.1
    simp [h, Except.isOk, Except.toBool] at hok

theorem start_written (h : r.jobs.isOk) (hfits : s.Takes (r.writtenBefore 0)) :
    Stands c r s (start c (r.answersAt 0) s) 0 := by
  have hplay := play_of_takes (flush_notMem_opening c (r.answersAt 0)) (output_opening c r ▸ hfits)
  have hnotes := trace_play_opening c (r.answersAt 0) s
  rw [@start_eq c (r.answersAt 0) s h]
  exact
    { running := by simp [State.carryOut, hplay]
      jobs := h
      within := Nat.zero_le _
      queue := rfl
      answered := fun k hk => absurd hk (Nat.not_lt_zero k)
      takes := hfits
      sink := by
        rw [← output_opening c r]
        exact congrArg Played.sink hplay
      summary := rfl
      notes := hnotes.trans (List.append_nil _).symm }

theorem start_refused (h : r.jobs.isOk) (hrefused : ¬s.Takes (r.writtenBefore 0)) :
    Ended c ⟨r, s, .error Sink.Error.full.message⟩ (start c (r.answersAt 0) s) := by
  have hstopped := play_of_not_takes (flush_notMem_opening c (r.answersAt 0)) (output_opening c r ▸ hrefused)
  have hnotes := trace_play_opening c (r.answersAt 0) s
  rw [@start_eq c (r.answersAt 0) s h]
  apply ended_of_refused _ hrefused (Nat.zero_le _) not_reached_before (hnotes.trans (List.append_nil _).symm)
  simp [State.carryOut, hstopped]

theorem start_stands (c : RunConfig) (r : Replies) (s : Sink) :
    Stands c r s (start c (r.answersAt 0) s) 0 ∨
      ∃ result, Ended c ⟨r, s, result⟩ (start c (r.answersAt 0) s) := by
  cases hj : r.jobs with
  | error cause => exact .inr ⟨_, start_unlisted hj⟩
  | ok found =>
    have hok : r.jobs.isOk := by rw [hj]; rfl
    by_cases hfits : s.Takes (r.writtenBefore 0)
    · exact .inl (start_written hok hfits)
    · exact .inr ⟨_, start_refused hok hfits⟩

theorem Proceeds.stands (h : Proceeds limit r (start c (r.answersAt 0) s) t) :
    (∃ place, Stands c r s t place) ∨ ∃ result, Ended c ⟨r, s, result⟩ t := by
  induction h with
  | refl =>
    rcases start_stands c r s with hstands | hended
    · exact .inl ⟨0, hstands⟩
    · exact .inr hended
  | step _ hm ih =>
    rcases ih with ⟨place, hstands⟩ | ⟨result, hended⟩
    · rw [hstands.place_eq] at hm
      exact hm.stands hstands
    · have hresult := hended.result
      rw [hm.running] at hresult
      cases hresult

theorem Proceeds.ended {result : Except String Summary}
    (h : Proceeds limit r (start c (r.answersAt 0) s) t) (hr : t.result = some result) :
    Ended c ⟨r, s, result⟩ t := by
  rcases h.stands with ⟨place, hstands⟩ | ⟨other, hended⟩
  · rw [hstands.running] at hr
    cases hr
  · have hsame := hended.result
    rw [hr] at hsame
    obtain rfl := Option.some.inj hsame
    exact hended

end FanOut

section ById

/-- The replies of an API that answers by the id of the job, whenever it is asked. -/
def Replies.ofAnswers (answers : Answers) : Replies where
  jobs := answers.jobs
  annotations place :=
    match answers.listed[place]? with
    | some job => answers.annotations job.id
    | none => .ok none

namespace FanOut

variable {c : RunConfig} {answers other : Answers} {s : Sink} {limit : Nat} {t u : State}

theorem State.emit_congr {job : Job} (h : answers.annotations job.id = other.annotations job.id)
    (after : List (Job × Bool)) : t.emit answers job after = t.emit other job after := by
  simp only [State.emit, h]

theorem Reaches.proceeds (h : Reaches limit answers (start c answers s) t) :
    Proceeds limit (.ofAnswers answers) (start c ((Replies.ofAnswers answers).answersAt 0) s) t := by
  induction h with
  | refl => exact .refl
  | @step t u _ hm ih =>
    refine .step ih ?_
    rcases ih.stands with ⟨place, hstands⟩ | ⟨result, hended⟩
    · rw [hstands.place_eq]
      cases hm with
      | begin hr hw hroom => exact .begin hr hw hroom
      | complete hr hw => exact .complete hr hw
      | @emit job after hr hw =>
        have hlisted : answers.listed[place]? = some job := (hstands.next_job hw).1
        have hanswer : answers.annotations job.id =
            ((Replies.ofAnswers answers).answersAt place).annotations job.id := by
          simp only [Replies.answersAt, Replies.ofAnswers, hlisted]
        rw [State.emit_congr hanswer after]
        exact .emit hr hw
      | finish hr hw hn => exact .finish hr hw hn
    · have hresult := hended.result
      rw [hm.running] at hresult
      cases hresult

end FanOut

end ById

section Sessions

variable {c : RunConfig} {p q : Reporter} {episodes : List Episode}

theorem foldl_record (told : Trace) (notes : List Trace.Note) :
    notes.foldl (fun told n => told.record n.level n.message) told = told ++ notes := by
  induction notes generalizing told with
  | nil => simp
  | cons n rest ih =>
    rw [List.foldl_cons, ih, Trace.record, List.append_assoc]
    rfl

/-- Whatever the API answers, however the calls overlap and whatever the sink refuses, the runs of one
reporter tell one after the other what each of them has to tell, and what was told before them stays, in its
order and at every level. A run succeeds exactly when no call, no write and no flush fails, and then with the
counts of its own jobs. -/
theorem session_told (h : Session c p episodes q) :
    q.trace = p.trace ++ episodes.flatMap (·.told c) ∧
      (∀ level, q.trace.messagesAt level =
        p.trace.messagesAt level ++ episodes.flatMap fun e => (e.told c).messagesAt level) ∧
      ∀ e ∈ episodes, ∀ summary, e.result = .ok summary ↔
        e.Succeeds ∧ summary = e.replies.countsBefore e.replies.listed.length := by
  induction h with
  | nil p => simp
  | @run p q r s t result rest _ hproceeds hresult _ ih =>
    have hended := hproceeds.ended hresult
    have hafter : (p.after t).trace = p.trace ++ Episode.told c ⟨r, s, result⟩ := by
      rw [← hended.notes]
      exact foldl_record p.trace (trace t.done)
    obtain ⟨htrace, hlevels, hresults⟩ := ih
    rw [hafter] at htrace hlevels
    refine ⟨?_, ?_, ?_⟩
    · rw [htrace, List.flatMap_cons, List.append_assoc]
    · intro level
      rw [hlevels, Trace.messagesAt_append, List.flatMap_cons, List.append_assoc]
    · exact List.forall_mem_cons.mpr ⟨hended.success, hresults⟩

/-- What is carried out of a report is one of the ways in which a run may go. -/
theorem session_run {s : Sink} (answers : Answers) (hs : s.bytes = p.sink.bytes)
    (h : Session c ⟨(run c answers s).sink, p.trace ++ trace (run c answers s).done⟩ episodes q) :
    Session c p (⟨.ofAnswers answers, s, (run c answers s).result⟩ :: episodes) q := by
  obtain ⟨t, ht, hdone, hsink, hresult⟩ := FanOut.exists_reaches_run c answers s
  refine .run hs ht.proceeds hresult ?_
  rw [Reporter.after, foldl_record, hdone, hsink]
  exact h

def noCollection : Answers := ⟨.ok none, fun _ => .ok none⟩

def oneError : Answers :=
  ⟨.ok (some [⟨1, none⟩, ⟨2, some "lint"⟩, ⟨3, none⟩]), fun job =>
    if job = 2 then .ok (some [⟨[("annotation_level", .string "error")]⟩])
    else if job = 3 then .error "lost" else .ok none⟩

/-- Room for three lines, and not for the error after them. -/
def narrow : Sink := ⟨some 80, true, []⟩

theorem session_told_narrow :
    let first := run FanOut.twoAtOnce noCollection narrow
    let second := run FanOut.twoAtOnce oneError first.sink
    ∃ q, Session FanOut.twoAtOnce ⟨narrow, []⟩
        [⟨.ofAnswers noCollection, narrow, first.result⟩, ⟨.ofAnswers oneError, first.sink, second.result⟩] q ∧
      first.result = .ok ⟨0, 0, 0⟩ ∧ second.result = .error "sink is full" ∧
      q.trace.messagesAt .verbose = ["Listing jobs of run 7 in octo/hello",
        "Listing jobs of run 7 in octo/hello", "Job 2 (lint) has 1 annotation(s)"] ∧
      q.trace.messagesAt .error = ["Error: could not get jobs for repository octo/hello"] ∧
      q.trace.messagesAt .info = ["Inspected 0 job(s): 0 annotation(s) fetched, 0 reported"] := by
  intro first second
  have h : Session FanOut.twoAtOnce ⟨narrow, []⟩
      [⟨.ofAnswers noCollection, narrow, first.result⟩, ⟨.ofAnswers oneError, first.sink, second.result⟩]
      ⟨second.sink, trace first.done ++ trace second.done⟩ :=
    session_run noCollection rfl (session_run oneError rfl (.nil _))
  obtain ⟨-, hlevels, -⟩ := session_told h
  refine ⟨_, h, rfl, rfl, (hlevels .verbose).trans ?_, (hlevels .error).trans ?_, (hlevels .info).trans ?_⟩
  all_goals decide +kernel

end Sessions

end AnnotationReport.Report
