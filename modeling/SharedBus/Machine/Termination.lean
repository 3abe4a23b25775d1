import SharedBus.Machine.Potential.Outcome

/-! # Every action ends

Each step of a machine that has not finished lowers its potential. So as many steps as the
potential says reach the reply of the first call, whatever the callbacks, tasks and races do.
-/
namespace SharedBus

namespace Machine

variable {m : Machine}

theorem potential_follow (outcome : Outcome) (stack : List Activation) (trace : List Event) :
    (follow outcome stack trace).potential =
      outcome.potential + total Activation.potential stack := by
  obtain ⟨w, next, events⟩ := outcome
  cases next with
  | reply reply => rfl
  | call call waiting =>
    simp only [follow, potential, Control.potential, total, Outcome.potential, Next.potential]
    omega

/-- Each step uses up some of the potential. -/
theorem potential_step_lt (h : m.isFinished = false) : m.step.potential < m.potential := by
  obtain ⟨w, control, stack, trace⟩ := m
  cases control with
  | call call =>
    have := w.begin_lt call
    rw [step, potential_follow]
    simp only [potential, Control.potential]
    omega
  | back reply =>
    cases stack with
    | nil => simp [isFinished, reply?] at h
    | cons waiting stack =>
      have := w.resume_lt reply waiting
      rw [step, potential_follow]
      simp only [potential, Control.potential, total]
      omega

/-- A machine finishes within as many steps as its potential says. -/
theorem isFinished_after {n : Nat} (h : m.potential ≤ n) : (m.after n).isFinished := by
  induction n generalizing m with
  | zero =>
    cases hm : m.isFinished with
    | true => exact hm
    | false =>
      have := potential_step_lt hm
      omega
  | succ n ih =>
    rw [after_succ]
    cases hm : m.isFinished with
    | true =>
      rw [step_of_isFinished hm, after_of_isFinished hm]
      exact hm
    | false =>
      have := potential_step_lt hm
      exact ih (by omega)

end Machine

end SharedBus
