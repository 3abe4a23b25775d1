import SharedBus.WorkQueue

/-! # Actions

What anybody may do to a world: build arbiters, attach and detach clients, use handles, run
queues, ask questions. The same actions are performed from the outside and from within callbacks,
tasks and races. A race is a list of actions performed at a named point inside another action, as
an interrupt at that point would.

All things are named by their index. A slot is a plain number here, and an action that names
something that is not there is skipped.
-/
namespace SharedBus

inductive Action
  | build (queue : QueueId) (consumer : ConsumerId) (capacity : Option Nat)
  | attach (arbiter : ArbiterId) (client : ClientId) (tag : Tag)
      (lock bind : Option (List Action))
  | detach (arbiter : ArbiterId) (client : ClientId)
  | detachAll (arbiter : ArbiterId)
  | tryRelease (arbiter : ArbiterId)
  | request (arbiter : ArbiterId) (slot : Nat)
  /-- Starts a pass on the spot, without the queue. The race takes place at the first slot that it
  gives back. -/
  | dispatch (arbiter : ArbiterId) (reclaim : Option (List Action))
  /-- Runs the arbiter's job on the spot, as its queue would. -/
  | runJob (arbiter : ArbiterId)
  | tag (arbiter : ArbiterId) (slot : Nat)
  | info (arbiter : ArbiterId)
  /-- The client uses the handle it holds. -/
  | notify (client : ClientId)
  | complete (client : ClientId) (payload : List UInt8)
  | fail (client : ClientId) (fault : Fault)
  /-- Uses a handle from the list of all handles ever installed. -/
  | handleNotify (handle : Nat)
  | handleComplete (handle : Nat) (payload : List UInt8)
  | handleFail (handle : Nat) (fault : Fault)
  | showNotifier (handle : Nat)
  | showDelivery (handle : Nat)
  | reserve (queue : QueueId)
  | reserved (queue : QueueId)
  | enqueue (queue : QueueId) (task : TaskId)
  | enqueueArbiter (queue : QueueId) (arbiter : ArbiterId)
  | runNext (queue : QueueId)
  | runPending (queue : QueueId)
  /-- Runs all waiting jobs like `runPending`, but does not say how many. -/
  | drain (queue : QueueId)
  | length (queue : QueueId)
  | isEmpty (queue : QueueId)
  | unknown (name : String)

namespace Action

def name : Action → String
  | .build .. => "new"
  | .attach .. => "attach"
  | .detach .. => "detach"
  | .detachAll _ => "detach_all"
  | .tryRelease _ => "try_release"
  | .request .. => "request"
  | .dispatch .. => "dispatch"
  | .runJob _ => "run_job"
  | .tag .. => "tag"
  | .info _ => "info"
  | .notify _ => "notify"
  | .complete .. => "complete"
  | .fail .. => "fail"
  | .handleNotify _ => "handle_notify"
  | .handleComplete .. => "handle_complete"
  | .handleFail .. => "handle_fail"
  | .showNotifier _ => "notifier_debug"
  | .showDelivery _ => "delivery_debug"
  | .reserve _ => "reserve"
  | .reserved _ => "reserved"
  | .enqueue .. => "enqueue"
  | .enqueueArbiter .. => "enqueue_arb"
  | .runNext _ => "run_next"
  | .runPending _ => "run_pending"
  | .drain _ => "poll_run"
  | .length _ => "len"
  | .isEmpty _ => "is_empty"
  | .unknown name => name

end Action

/-- Actions at a point inside another action; `none` if nothing happens there. -/
abbrev Race := Option (List Action)

/-- The points inside an action at which a race can happen. -/
inductive RacePoint
  /-- Attach has found the arbiter open and has not looked for the client yet. -/
  | lock
  /-- Attach has claimed a slot and has not bound it yet. -/
  | bind
  /-- A pass that was dispatched directly has withdrawn the first slot it gives back and has not
  unbound it yet. -/
  | reclaim
deriving DecidableEq, Repr

def RacePoint.number : RacePoint → Nat
  | .lock => 1
  | .bind => 2
  | .reclaim => 3

end SharedBus
