import SharedBus.World.Actor
import SharedBus.World.Event

/-! # Worlds

All arbiters, queues, consumers, clients and tasks that act on one another, with every handle ever
installed. A part that does not exist reads as an inert one, and a write to it changes nothing.
-/
namespace SharedBus

structure World where
  arbiters : List Arbiter := []
  queues : List WorkQueue := []
  consumers : List Consumer := []
  clients : List Client := []
  /-- What each task does in its runs to come. -/
  tasks : List Hook := []
  /-- Every notifier ever installed, oldest first. -/
  notifiers : List Handle := []
  /-- Every completion and error handle ever installed, oldest first. -/
  deliveries : List Handle := []

namespace World

def arbiter (w : World) (a : ArbiterId) : Arbiter := w.arbiters.getD a default

def queue (w : World) (q : QueueId) : WorkQueue := w.queues.getD q default

def consumer (w : World) (s : ConsumerId) : Consumer := w.consumers.getD s default

def client (w : World) (c : ClientId) : Client := w.clients.getD c default

def task (w : World) (j : TaskId) : Hook := w.tasks.getD j []

def hasArbiter (w : World) (a : ArbiterId) : Bool := decide (a < w.arbiters.length)

def hasQueue (w : World) (q : QueueId) : Bool := decide (q < w.queues.length)

def hasConsumer (w : World) (s : ConsumerId) : Bool := decide (s < w.consumers.length)

def hasClient (w : World) (c : ClientId) : Bool := decide (c < w.clients.length)

def hasTask (w : World) (j : TaskId) : Bool := decide (j < w.tasks.length)

def setArbiter (w : World) (a : ArbiterId) (arbiter : Arbiter) : World :=
  { w with arbiters := w.arbiters.set a arbiter }

def setQueue (w : World) (q : QueueId) (queue : WorkQueue) : World :=
  { w with queues := w.queues.set q queue }

def setConsumer (w : World) (s : ConsumerId) (consumer : Consumer) : World :=
  { w with consumers := w.consumers.set s consumer }

def setClient (w : World) (c : ClientId) (client : Client) : World :=
  { w with clients := w.clients.set c client }

def setTask (w : World) (j : TaskId) (task : Hook) : World :=
  { w with tasks := w.tasks.set j task }

/-- Makes one move on the books of an arbiter. -/
def move (w : World) (a : ArbiterId) (f : Arbiter → Arbiter) : World :=
  w.setArbiter a (f (w.arbiter a))

/-- Adds a handle to the list of those ever installed. -/
def record (w : World) (kind : HandleKind) (handle : Handle) : World :=
  match kind with
  | .notifier => { w with notifiers := w.notifiers ++ [handle] }
  | .completion | .error => { w with deliveries := w.deliveries ++ [handle] }

/-- Hands a job to a queue. -/
def enqueue (w : World) (q : QueueId) (job : Job) : World × List Event :=
  (w.setQueue q ((w.queue q).push job), [.queued q job (w.queue q).hasRoom])

/-- Queues a pass of the arbiter unless one is waiting already. -/
def schedule (w : World) (a : ArbiterId) : World × List Event :=
  if (w.arbiter a).queued then (w, [])
  else (w.move a ({ · with queued := true })).enqueue (w.arbiter a).queue (.pass a)

/-- A request of a slot: it becomes pending, and a pass is queued where it needs one. -/
def request (w : World) (a : ArbiterId) (slot : SlotId) : World × List Event :=
  if (w.arbiter a).accepts slot then
    let asked := w.move a (·.setPending slot)
    if (w.arbiter a).wantsPass slot then
      let (scheduled, events) := asked.schedule a
      (scheduled, .requested a slot :: events)
    else (asked, [.requested a slot])
  else (w, [])

end World

end SharedBus
