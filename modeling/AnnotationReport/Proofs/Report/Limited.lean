import AnnotationReport.Proofs.Report.Playing

/-! # Sinks with a limit

A sink with a limit keeps as much of what a report writes as fits, in the same order, and the report
ends as it would without the limit exactly when all of it fits. Runs one after the other on the same
sink write the same bytes again and again, up to the limit.
-/
namespace AnnotationReport.Report

section Write

variable {canFlush : Bool} {limit : Nat} {before bytes : List UInt8}

theorem write_fits (h : before.length + bytes.length ≤ limit) :
    (⟨some limit, canFlush, before⟩ : Sink).write bytes =
      (⟨some limit, canFlush, before ++ bytes⟩, .ok ()) := by
  have hroom : (⟨some limit, canFlush, before⟩ : Sink).room bytes.length = bytes.length :=
    Nat.min_eq_left (by dsimp only; omega)
  simp [Sink.write, hroom]

theorem write_overflows (hb : before.length ≤ limit) (h : limit < before.length + bytes.length) :
    (⟨some limit, canFlush, before⟩ : Sink).write bytes =
      (⟨some limit, canFlush, before ++ bytes.take (limit - before.length)⟩, .error .full) := by
  have hroom : (⟨some limit, canFlush, before⟩ : Sink).room bytes.length = limit - before.length :=
    Nat.min_eq_right (by dsimp only; omega)
  simp only [Sink.write, hroom]
  rw [if_neg (by omega)]

end Write

section Play

theorem play_shift (canFlush : Bool) (before : List UInt8) (steps : List Step) :
    play ⟨none, canFlush, before⟩ steps =
      { play ⟨none, canFlush, []⟩ steps with
        sink := ⟨none, canFlush, before ++ (play ⟨none, canFlush, []⟩ steps).sink.bytes⟩ } := by
  induction steps generalizing before with
  | nil => simp
  | cons step r ih =>
    cases step with
    | writeLine line =>
      simp only [play, Step.apply, write_unlimited, List.nil_append]
      rw [ih (before ++ _), ih (Text.Utf8.encode (line ++ ['\n']))]
      simp
    | flush =>
      cases canFlush with
      | false => simp [play, Step.apply, Sink.flush]
      | true => simp [play, Step.apply, Sink.flush, ih before]
    | note _ => simp [play, Step.apply, ih before]
    | askJobs => simp [play, Step.apply, ih before]
    | askAnnotations _ => simp [play, Step.apply, ih before]

/-- A limit cuts off what does not fit, and stops the steps only there. -/
theorem play_limited (canFlush : Bool) {limit : Nat} {before : List UInt8}
    (hb : before.length ≤ limit) (steps : List Step) :
    let whole := play ⟨none, canFlush, []⟩ steps
    (play ⟨some limit, canFlush, before⟩ steps).sink =
        ⟨some limit, canFlush, before ++ whole.sink.bytes.take (limit - before.length)⟩ ∧
      (play ⟨some limit, canFlush, before⟩ steps).stopped =
        if before.length + whole.sink.bytes.length ≤ limit then whole.stopped else some .full := by
  induction steps generalizing before with
  | nil => simp [hb]
  | cons step r ih =>
    cases step with
    | writeLine line =>
      simp only [play, Step.apply, write_unlimited, List.nil_append]
      rw [play_shift canFlush (Text.Utf8.encode (line ++ ['\n'])) r]
      generalize Text.Utf8.encode (line ++ ['\n']) = bytes
      by_cases hf : before.length + bytes.length ≤ limit
      · have hlength : (before ++ bytes).length ≤ limit := by simpa using hf
        obtain ⟨hsink, hstopped⟩ := ih hlength
        rw [write_fits hf]
        simp only [hsink, hstopped, List.length_append, Nat.add_assoc]
        refine ⟨?_, trivial⟩
        rw [List.append_assoc, List.take_append, List.take_of_length_le (by omega : bytes.length ≤ _),
          Nat.sub_sub]
      · rw [write_overflows hb (by omega)]
        refine ⟨?_, ?_⟩
        · rw [List.take_append_of_le_length (by omega)]
        · rw [if_neg (by simp only [List.length_append]; omega)]
    | flush =>
      cases canFlush with
      | false => simp [play, Step.apply, Sink.flush, hb]
      | true => exact ih hb
    | note _ => exact ih hb
    | askJobs => exact ih hb
    | askAnnotations _ => exact ih hb

end Play

section Copies

def copies (n : Nat) (bytes : List UInt8) : List UInt8 := (List.replicate n bytes).flatten

@[simp] theorem length_copies (n : Nat) (bytes : List UInt8) :
    (copies n bytes).length = n * bytes.length := by
  simp [copies]

theorem copies_succ (n : Nat) (bytes : List UInt8) :
    copies (n + 1) bytes = copies n bytes ++ bytes := by
  simp [copies, List.replicate_succ', List.flatten_append]

/-- What still fits after some copies is how one more copy goes on. -/
theorem take_copies_succ (n limit : Nat) (bytes : List UInt8) :
    (copies (n + 1) bytes).take limit =
      (copies n bytes).take limit ++ bytes.take (limit - ((copies n bytes).take limit).length) := by
  have hroom : limit - ((copies n bytes).take limit).length = limit - (copies n bytes).length := by
    rw [List.length_take]
    omega
  rw [copies_succ, List.take_append, hroom]

theorem take_copies_fits (n limit : Nat) (bytes : List UInt8) :
    ((copies n bytes).take limit).length + bytes.length ≤ limit ↔ (n + 1) * bytes.length ≤ limit := by
  rw [List.length_take, length_copies, Nat.succ_mul]
  rcases Nat.eq_zero_or_pos bytes.length with h | h
  · simp [h]
  · generalize n * bytes.length = taken
    omega

end Copies

section Runs

variable (c : RunConfig) (answers : Answers) (k : Concurrency) (canFlush : Bool) {limit : Nat}

/-- One run on a sink that has room for some of it, against a run without a limit. -/
theorem run_limited {before : List UInt8} (hb : before.length ≤ limit) :
    let whole := run { c with concurrency := k } answers ⟨none, canFlush, []⟩
    let o := run c answers ⟨some limit, canFlush, before⟩
    o.sink = ⟨some limit, canFlush, before ++ whole.sink.bytes.take (limit - before.length)⟩ ∧
      o.result =
        if before.length + whole.sink.bytes.length ≤ limit then whole.result
        else .error "sink is full" := by
  intro whole o
  obtain ⟨hsink, -, hresult⟩ := Shown.mk.inj (run_shown_concurrency c k answers ⟨none, canFlush, []⟩)
  obtain ⟨hs, hstopped⟩ := play_limited canFlush hb (script c answers).steps
  refine ⟨?_, ?_⟩
  · rw [hsink]
    exact hs
  · rw [hsink, hresult]
    by_cases hf : before.length + (run c answers ⟨none, canFlush, []⟩).sink.bytes.length ≤ limit
    · have hn := hstopped.trans (if_pos hf)
      rw [if_pos hf]
      simp only [o, run, hn]
    · have hn := hstopped.trans (if_neg hf)
      rw [if_neg hf]
      simp only [o, run, hn]
      rfl

theorem runs_limited (n m : Nat) :
    let whole := run { c with concurrency := k } answers ⟨none, canFlush, []⟩
    let outcomes := runs c answers n ⟨some limit, canFlush, (copies m whole.sink.bytes).take limit⟩
    ∀ i o, outcomes[i]? = some o →
      o.sink.bytes = (copies (m + i + 1) whole.sink.bytes).take limit ∧
        o.result =
          if (m + i + 1) * whole.sink.bytes.length ≤ limit then whole.result
          else .error "sink is full" := by
  intro whole outcomes
  induction n generalizing m with
  | zero => simp [outcomes, runs]
  | succ n ih =>
    let first := run c answers ⟨some limit, canFlush, (copies m whole.sink.bytes).take limit⟩
    have hroom : ((copies m whole.sink.bytes).take limit).length ≤ limit := List.length_take_le _ _
    obtain ⟨hs, hr⟩ := run_limited c answers k canFlush hroom
    have hsink : first.sink = ⟨some limit, canFlush, (copies (m + 1) whole.sink.bytes).take limit⟩ := by
      rw [take_copies_succ]
      exact hs
    have hresult : first.result = if (m + 1) * whole.sink.bytes.length ≤ limit then whole.result
        else .error "sink is full" := by
      simp only [← take_copies_fits m limit whole.sink.bytes]
      exact hr
    intro i o ho
    cases i with
    | zero =>
      obtain rfl := Option.some.inj ho
      exact ⟨congrArg Sink.bytes hsink, hresult⟩
    | succ i =>
      have hrest : (runs c answers n first.sink)[i]? = some o := ho
      have hcount : m + (i + 1) = m + 1 + i := by omega
      rw [hsink] at hrest
      rw [hcount]
      exact ih (m + 1) i o hrest

theorem length_runs (n : Nat) (s : Sink) : (runs c answers n s).length = n := by
  induction n generalizing s with
  | zero => rfl
  | succ n ih => simp [runs, ih]

/-- Any number of runs on an empty sink that takes `limit` bytes in all. What one run writes without a
limit is there again and again, up to the limit; runs that fit end as that one does, and the others
tell that the sink is full, also when the report fails by itself. -/
theorem runs_fill_sink (limit n : Nat) :
    let whole := run { c with concurrency := k } answers ⟨none, canFlush, []⟩
    let written := whole.sink.bytes
    let outcomes := runs c answers n ⟨some limit, canFlush, []⟩
    outcomes.length = n ∧
      (outcomes.getLast?.map (·.sink.bytes)).getD [] =
        (copies n written).take (min limit (n * written.length)) ∧
      ∀ i o, outcomes[i]? = some o →
        o.sink.bytes = (copies (i + 1) written).take (min limit ((i + 1) * written.length)) ∧
          o.result =
            if (i + 1) * written.length ≤ limit then whole.result else .error "sink is full" := by
  intro whole written outcomes
  have hlength : outcomes.length = n := length_runs c answers n _
  have hcut : ∀ m, (copies m written).take (min limit (m * written.length)) =
      (copies m written).take limit := by
    intro m
    rw [← length_copies, ← List.take_eq_take_min]
  have hempty : (copies 0 written).take limit = [] := List.take_nil
  have hruns : ∀ i o, outcomes[i]? = some o →
      o.sink.bytes = (copies (i + 1) written).take limit ∧
        o.result =
          if (i + 1) * written.length ≤ limit then whole.result else .error "sink is full" := by
    have hstart : outcomes = runs c answers n ⟨some limit, canFlush, (copies 0 written).take limit⟩ := by
      rw [hempty]
    intro i o ho
    rw [hstart] at ho
    have hi := runs_limited c answers k canFlush n 0 i o ho
    rwa [Nat.zero_add] at hi
  simp only [hcut]
  refine ⟨hlength, ?_, hruns⟩
  cases n with
  | zero => exact hempty.symm
  | succ n =>
    obtain ⟨last, hlast⟩ : ∃ last, outcomes[n]? = some last :=
      ⟨outcomes[n], List.getElem?_eq_getElem (by omega)⟩
    have hend : outcomes.getLast? = some last := by
      rw [List.getLast?_eq_getElem?, hlength]
      exact hlast
    rw [hend]
    exact (hruns n last hlast).1

end Runs

end AnnotationReport.Report
