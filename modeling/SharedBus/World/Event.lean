import SharedBus.Arbiter.Snapshot
import SharedBus.World.Action

/-! # Replies and events

Every action and every callback ends with a `Reply`. While it runs, things happen: each is an
`Event`. Some of them can be noticed by the parties outside the arbiters, and `Event.notice?`
gives those; the others are moves on the books, kept so that the history of a slot can be read
off the events alone.
-/
namespace SharedBus

inductive Reply
  | nothing
  /-- The action named something that is not there. -/
  | skipped
  | flag (value : Bool)
  | count (value : Nat)
  | built (arbiter : ArbiterId)
  | slot (slot : SlotId)
  | released
  | refused (refusal : Refusal)
  | tag (tag : Option Tag)
  | info (info : Info)
  | shown (shown : Shown)
  /-- The end of a turn. -/
  | turn (answer : Answer)
deriving DecidableEq, Repr

namespace Reply

/-- The reply of a detach that took effect. -/
def isSlot : Reply → Bool
  | .slot _ => true
  | _ => false

/-- The answer of a turn; nothing else is ever returned by one. -/
def answer : Reply → Answer
  | .turn answer => answer
  | _ => .done

end Reply

/-- What the parties outside the arbiters can notice. -/
inductive Notice
  | installed (client : ClientId) (kind : HandleKind) (slot : Option SlotId)
  | advanced (client : ClientId)
  | returned (client : ClientId) (answer : Answer)
  | reported (consumer : ConsumerId) (report : Report)
  | task (task : TaskId)
  | did (action : String) (reply : Reply)
  | race (point : RacePoint)
deriving DecidableEq, Repr

inductive Event
  | built (arbiter : ArbiterId) (queue : QueueId)
  | reserved (queue : QueueId)
  /-- A job was handed to a queue, which took it or dropped it. -/
  | queued (queue : QueueId) (job : Job) (accepted : Bool)
  /-- A job was taken from its queue to be run. -/
  | started (queue : QueueId) (job : Job)
  | claimed (arbiter : ArbiterId) (slot : SlotId)
  | givenBack (arbiter : ArbiterId) (slot : SlotId)
  | bound (arbiter : ArbiterId) (slot : SlotId) (binding : Binding)
  /-- Detach has found the slot of its client. -/
  | detaching (arbiter : ArbiterId) (slot : SlotId) (client : ClientId)
  | marked (arbiter : ArbiterId) (slot : SlotId) (client : ClientId)
  | released (arbiter : ArbiterId)
  /-- A request that the arbiter accepted. -/
  | requested (arbiter : ArbiterId) (slot : SlotId)
  | passBegun (arbiter : ArbiterId)
  | passEnded (arbiter : ArbiterId)
  /-- A pass goes on with the owner; a request of the owner is answered by that. -/
  | continued (arbiter : ArbiterId) (slot : SlotId)
  /-- A pass took the request of the highest pending slot, to give it a turn. -/
  | served (arbiter : ArbiterId) (slot : SlotId)
  /-- The slot has its turn; nobody is called if it is not bound. -/
  | turnBegun (arbiter : ArbiterId) (slot : SlotId) (client : Option ClientId)
  | turnEnded (arbiter : ArbiterId) (slot : SlotId) (client : Option ClientId) (answer : Answer)
  /-- A pass set out to free the slot; a request of the slot is dropped by that. -/
  | withdrawn (arbiter : ArbiterId) (slot : SlotId)
  /-- The slot was unbound and is free again. -/
  | freed (arbiter : ArbiterId) (slot : SlotId)
  | installed (client : ClientId) (kind : HandleKind) (handle : Option Handle)
  | reported (arbiter : ArbiterId) (consumer : ConsumerId) (report : Report)
  | task (task : TaskId)
  | did (action : String) (reply : Reply)
  | race (point : RacePoint)
deriving DecidableEq, Repr

def Event.notice? : Event → Option Notice
  | .installed client kind handle => some (.installed client kind (handle.map (·.slot)))
  | .turnBegun _ _ (some client) => some (.advanced client)
  | .turnEnded _ _ (some client) answer => some (.returned client answer)
  | .reported _ consumer report => some (.reported consumer report)
  | .task which => some (.task which)
  | .did action reply => some (.did action reply)
  | .race point => some (.race point)
  | _ => none

end SharedBus
