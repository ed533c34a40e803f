import AnnotationReport.Proofs.Report.Sequential

/-! # Room in a sink

Steps that write do to a sink what a single write of all their bytes would do: either the bytes fit and are
appended, or one of the steps is refused.
-/
namespace AnnotationReport

namespace Sink

variable {s : Sink} {bytes first second : List UInt8}

/-- Whether all of the bytes fit into a sink. -/
def Takes (s : Sink) (bytes : List UInt8) : Prop := bytes.length ≤ s.room bytes.length

instance (s : Sink) (bytes : List UInt8) : Decidable (s.Takes bytes) :=
  inferInstanceAs (Decidable (bytes.length ≤ s.room bytes.length))

def append (s : Sink) (bytes : List UInt8) : Sink := { s with bytes := s.bytes ++ bytes }

@[simp] theorem append_nil (s : Sink) : s.append [] = s := by
  simp [append]

@[simp] theorem append_append (s : Sink) (first second : List UInt8) :
    (s.append first).append second = s.append (first ++ second) := by
  simp [append]

@[simp] theorem append_canFlush (s : Sink) (bytes : List UInt8) :
    (s.append bytes).canFlush = s.canFlush := rfl

theorem takes_nil (s : Sink) : s.Takes [] := Nat.zero_le _

theorem takes_append :
    s.Takes (first ++ second) ↔ s.Takes first ∧ (s.append first).Takes second := by
  cases h : s.limit with
  | none => simp [Takes, room, append, h]
  | some limit =>
    simp only [Takes, room, append, h, List.length_append]
    omega

theorem write_of_takes (h : s.Takes bytes) : s.write bytes = (s.append bytes, .ok ()) := by
  have hfits : bytes.length ≤ s.room bytes.length := h
  rw [write, append, if_pos hfits, List.take_of_length_le hfits]

theorem write_of_not_takes (h : ¬s.Takes bytes) : (s.write bytes).2 = .error .full := if_neg h

end Sink

namespace Report

variable {s : Sink} {step : Step} {steps : List Step}

theorem apply_of_takes (hstep : .flush ≠ step) (h : s.Takes step.output) :
    step.apply s = (s.append step.output, .ok ()) := by
  cases step with
  | flush => exact absurd rfl hstep
  | writeLine line => exact Sink.write_of_takes h
  | _ => simp [Step.apply, Step.output]

theorem apply_of_not_takes (h : ¬s.Takes step.output) : (step.apply s).2 = .error .full := by
  cases step with
  | writeLine line => exact Sink.write_of_not_takes h
  | _ => exact absurd (Sink.takes_nil s) h

theorem play_of_takes (hflush : .flush ∉ steps) (h : s.Takes (steps.flatMap Step.output)) :
    play s steps = ⟨steps, s.append (steps.flatMap Step.output), none⟩ := by
  induction steps generalizing s with
  | nil => simp
  | cons step r ih =>
    obtain ⟨hstep, hr⟩ := not_or.mp (mt List.mem_cons.mpr hflush)
    rw [List.flatMap_cons] at h ⊢
    obtain ⟨hfirst, hrest⟩ := Sink.takes_append.mp h
    simp only [play, apply_of_takes hstep hfirst, ih hr hrest, Sink.append_append]

theorem play_of_not_takes (hflush : .flush ∉ steps) (h : ¬s.Takes (steps.flatMap Step.output)) :
    (play s steps).stopped = some .full := by
  induction steps generalizing s with
  | nil => exact absurd (Sink.takes_nil s) h
  | cons step r ih =>
    obtain ⟨hstep, hr⟩ := not_or.mp (mt List.mem_cons.mpr hflush)
    rw [List.flatMap_cons, Sink.takes_append] at h
    by_cases hfirst : s.Takes step.output
    · simp only [play, apply_of_takes hstep hfirst]
      exact ih hr fun hrest => h ⟨hfirst, hrest⟩
    · obtain ⟨t, ht⟩ : ∃ t, step.apply s = (t, .error .full) := ⟨_, Prod.ext rfl (apply_of_not_takes hfirst)⟩
      simp only [play, ht]

end Report
end AnnotationReport
