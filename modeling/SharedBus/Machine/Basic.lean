import SharedBus.Machine.Step

/-! # The machine

A machine is a world in which one action is under way: what happens next, what waits for it, and
what has happened so far. It steps until the first call has replied.
-/
namespace SharedBus

inductive Control
  | call (call : Call)
  | back (reply : Reply)

structure Machine where
  world : World
  control : Control
  /-- The activations that wait, the innermost first. -/
  stack : List Activation
  /-- All events so far, the latest first. -/
  trace : List Event

namespace Machine

/-- An action performed from the outside, with nothing else under way. -/
def start (w : World) (action : Action) : Machine := ⟨w, .call (.perform action), [], []⟩

/-- Goes over to what one step brings about; `stack` waits for it. -/
def follow (outcome : Outcome) (stack : List Activation) (trace : List Event) : Machine :=
  match outcome.next with
  | .reply reply => ⟨outcome.world, .back reply, stack, outcome.events.reverse ++ trace⟩
  | .call call waiting =>
    ⟨outcome.world, .call call, waiting :: stack, outcome.events.reverse ++ trace⟩

/-- One step. A machine whose first call has replied stays as it is. -/
def step (m : Machine) : Machine :=
  match m.control, m.stack with
  | .call call, stack => follow (m.world.begin call) stack m.trace
  | .back reply, waiting :: stack => follow (m.world.resume reply waiting) stack m.trace
  | .back _, [] => m

/-- The reply of the first call, once there is one. -/
def reply? (m : Machine) : Option Reply :=
  match m.control, m.stack with
  | .back reply, [] => some reply
  | _, _ => none

def isFinished (m : Machine) : Bool := m.reply?.isSome

theorem step_of_isFinished {m : Machine} (h : m.isFinished) : m.step = m := by
  obtain ⟨w, control, stack, trace⟩ := m
  cases control <;> cases stack <;> simp [isFinished, reply?] at h ⊢
  rfl

/-- The machine after this many steps. -/
def after : Nat → Machine → Machine
  | 0, m => m
  | n + 1, m => if m.isFinished then m else after n m.step

theorem after_of_isFinished {m : Machine} (h : m.isFinished) (n : Nat) : m.after n = m := by
  cases n <;> simp [after, h]

@[simp] theorem after_zero (m : Machine) : m.after 0 = m := rfl

theorem after_succ (n : Nat) (m : Machine) : m.after (n + 1) = m.step.after n := by
  by_cases h : m.isFinished
  · rw [step_of_isFinished h, after_of_isFinished h, after_of_isFinished h]
  · simp [after, h]

end Machine

end SharedBus
