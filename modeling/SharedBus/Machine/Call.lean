import SharedBus.World.Basic

/-! # Calls and activations

Everything may call back into everything, and a call made from inside another one runs to its end
before the outer one goes on. So what runs is described by a call, or the reply of one that has
ended, together with the activations that wait for it. An activation holds what its call still
has to do and no copy of any shared state: it reads the books afresh when its callee is back.
-/
namespace SharedBus

inductive Call
  | perform (action : Action)
  | script (actions : List Action)
  | race (point : RacePoint) (race : Race)
  | install (client : ClientId) (kind : HandleKind) (handle : Option Handle)
  /-- Gives a slot its turn on the bus. -/
  | turn (arbiter : ArbiterId) (slot : SlotId)
  /-- One pass: the owner goes on, then the pending slots are served, then detached slots are
  given back. Its race takes place at the first slot that it gives back, and at no later one. Only
  a pass that is dispatched directly has one; those of a queue and of `Action.runJob` have none. -/
  | pass (arbiter : ArbiterId) (reclaim : Race)
  | report (arbiter : ArbiterId) (report : Report)
  | job (job : Job)

inductive Activation
  /-- A script waits for one of its actions. -/
  | script (action : String) (rest : List Action)
  /-- Replies this, whatever the callee has replied. -/
  | answer (reply : Reply)
  /-- A turn waits for the actions that its client performs in it. -/
  | turn (arbiter : ArbiterId) (slot : SlotId) (client : ClientId) (answer : Answer)
  /-- Attach waits for the race before it claims a slot. -/
  | claim (arbiter : ArbiterId) (client : ClientId) (tag : Tag) (bind : Race)
  /-- Attach waits for the race between claiming the slot and binding it. -/
  | bind (arbiter : ArbiterId) (client : ClientId) (tag : Tag) (slot : SlotId)
  /-- Attach waits for its client to take the handle of this kind. -/
  | install (arbiter : ArbiterId) (client : ClientId) (slot : SlotId) (kind : HandleKind)
  /-- Detach waits for its client to return the handle of this kind. -/
  | uninstall (arbiter : ArbiterId) (client : ClientId) (slot : SlotId) (kind : HandleKind)
  /-- Detaching all waits for one detach; the slots after it are still to be done. -/
  | detachAll (arbiter : ArbiterId) (rest : List SlotId) (count : Nat)
  /-- A pass waits for the turn of the slot that owned the bus when it began. -/
  | owner (arbiter : ArbiterId) (reclaim : Race)
  /-- A pass waits for the turn of a slot whose request it took. -/
  | serve (arbiter : ArbiterId) (slot : SlotId) (reclaim : Race)
  /-- A pass waits for the race between withdrawing the slot and freeing it. -/
  | reclaim (arbiter : ArbiterId) (slot : SlotId)
  /-- A pass waits for its consumer to take note of the idle bus. -/
  | idle (arbiter : ArbiterId)
  /-- A queue is being emptied and waits for one of its jobs. -/
  | drain (queue : QueueId) (ran : Nat) (silent : Bool)

/-- What comes next: a reply to whoever waits, or a call and the activation that waits for it. -/
inductive Next
  | reply (reply : Reply)
  | call (call : Call) (waiting : Activation)

/-- What one step brings about, with the events in the order in which they happened. -/
structure Outcome where
  world : World
  next : Next
  events : List Event

namespace World

/-- The step ends the call. -/
def reply (w : World) (reply : Reply) (events : List Event := []) : Outcome :=
  ⟨w, .reply reply, events⟩

/-- The step calls somebody else and waits. -/
def call (w : World) (call : Call) (waiting : Activation) (events : List Event := []) : Outcome :=
  ⟨w, .call call waiting, events⟩

end World

end SharedBus
