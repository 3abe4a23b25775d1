import SharedBus.Slot.Set

/-! # Refusals

The reasons for which a call on an arbiter fails. Failures of a client's own traffic are no
refusals; they are faults and travel to the consumer.
-/
namespace SharedBus

inductive Refusal
  /-- More slots were asked for than fit one word. -/
  | capacityExceeded (capacity : Nat)
  | poolExhausted
  | notAttached
  | alreadyAttached (slot : SlotId)
  | inUse (slots : Nat)
  | closed
  /-- The work queue has no entry left to reserve. -/
  | queueExhausted
deriving DecidableEq, Repr

namespace Refusal

def kind : Refusal → String
  | .capacityExceeded _ => "CapacityExceeded"
  | .poolExhausted => "PoolExhausted"
  | .notAttached => "NotAttached"
  | .alreadyAttached _ => "AlreadyAttached"
  | .inUse _ => "InUse"
  | .closed => "Closed"
  | .queueExhausted => "QueueExhausted"

def message : Refusal → String
  | .capacityExceeded capacity =>
    "capacity " ++ capacity.repr ++ " exceeds " ++ maxSlots.repr ++ " slots"
  | .poolExhausted => "no free slot"
  | .notAttached => "client is not attached"
  | .alreadyAttached slot => "client already attached at slot " ++ slot.val.repr
  | .inUse slots => slots.repr ++ " slots still in use"
  | .closed => "arbiter is closed"
  | .queueExhausted => "work queue is full"

def form (refusal : Refusal) : Form :=
  match refusal with
  | .capacityExceeded capacity => .tuple refusal.kind [.number capacity]
  | .alreadyAttached slot => .tuple refusal.kind [slot.form]
  | .inUse slots => .tuple refusal.kind [.number slots]
  | .poolExhausted | .notAttached | .closed | .queueExhausted => .word refusal.kind

end Refusal

end SharedBus
