import SharedBus.Machine.Run

/-! # Scenarios

A scenario performs actions one after another on a world and keeps what can be seen of each: its
reply, what the parties outside the arbiters noticed meanwhile, and the books and the lengths of
the queues after it.
-/
namespace SharedBus

structure Scene where
  reply : Reply
  notices : List Notice
  snapshots : List Snapshot
  queueSizes : List Nat
deriving DecidableEq, Repr

def Effect.scene (effect : Effect) : Scene where
  reply := effect.reply
  notices := effect.events.filterMap Event.notice?
  snapshots := effect.world.arbiters.map (·.snapshot)
  queueSizes := effect.world.queues.map (·.size)

/-- The scenes of the actions in order. -/
def World.play (w : World) : List Action → List Scene
  | [] => []
  | action :: rest =>
    let effect := w.act action
    effect.scene :: effect.world.play rest

end SharedBus
