import SharedBus.Machine.Termination

/-! # Whole actions

An action performed from the outside runs until it has replied. The potential of the machine at
the start bounds the number of its steps, so no other limit is needed and there always is a reply.
-/
namespace SharedBus

namespace Machine

/-- The machine when its first call has replied. -/
def run (m : Machine) : Machine := m.after m.potential

theorem isFinished_run (m : Machine) : m.run.isFinished := isFinished_after (Nat.le_refl _)

end Machine

/-- What an action has brought about. -/
structure Effect where
  world : World
  reply : Reply
  /-- What happened during the action, the first first. -/
  events : List Event

namespace World

/-- Performs an action to its end. -/
def act (w : World) (action : Action) : Effect :=
  let final := (Machine.start w action).run
  ⟨final.world, final.reply?.get (Machine.isFinished_run _), final.trace.reverse⟩

end World

end SharedBus
