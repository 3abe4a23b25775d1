import SharedBus.Handle
import SharedBus.Refusal
import SharedBus.Traffic

/-! # Arbiters

The books of one arbiter: which slots are free, which ask for the bus, which wait to be given
back, who owns the bus, and what each slot is bound to. All operations here are single moves on
the books; attach, detach and passes call clients in between and are put together from them in
`SharedBus.Machine.Attach` and `SharedBus.Machine.Pass`.
-/
namespace SharedBus

abbrev QueueId := Nat
abbrev ConsumerId := Nat
abbrev ClientId := Nat

/-- What an arbiter is built from. -/
structure Config where
  capacity : Nat := maxSlots
deriving DecidableEq, Repr

namespace Config

/-- More slots than one word has are refused. -/
def refusal? (config : Config) : Option Refusal :=
  if config.capacity > maxSlots then some (.capacityExceeded config.capacity) else none

def form (config : Config) : Form :=
  .record "ArbiterConfig" [.field "capacity" (.number config.capacity)]

end Config

structure Binding where
  client : ClientId
  tag : Tag
deriving DecidableEq, Repr

structure Arbiter where
  capacity : Nat
  queue : QueueId
  consumer : ConsumerId
  free : SlotSet
  /-- Slots with a request that no turn has answered yet. -/
  pending : SlotSet
  /-- Slots that a pass gives back once the bus is idle. -/
  detaching : SlotSet
  owner : Option SlotId
  closed : Bool
  /-- A pass of this arbiter has been put on its queue and has not started. -/
  queued : Bool
  bindings : Vector (Option Binding) maxSlots
deriving DecidableEq, Repr

namespace Arbiter

/-- A new arbiter: all slots free, the bus idle. -/
def create (config : Config) (queue : QueueId) (consumer : ConsumerId) : Arbiter where
  capacity := config.capacity
  queue := queue
  consumer := consumer
  free := .first config.capacity
  pending := ∅
  detaching := ∅
  owner := none
  closed := false
  queued := false
  bindings := .replicate maxSlots none

instance : Inhabited Arbiter := ⟨create ⟨0⟩ 0 0⟩

def isIdle (a : Arbiter) : Bool := a.owner.isNone

/-- All slots that are not free, those on their way out included. -/
def occupied (a : Arbiter) : SlotSet := .first a.capacity \ a.free

def attachedCount (a : Arbiter) : Nat := a.occupied.size

/-- The occupied slots whose detach has not been marked. -/
def settled (a : Arbiter) : SlotSet := a.occupied \ a.detaching

def binding (a : Arbiter) (slot : SlotId) : Option Binding := a.bindings[slot]

def client? (a : Arbiter) (slot : SlotId) : Option ClientId := (a.binding slot).map (·.client)

def tag? (a : Arbiter) (slot : SlotId) : Option Tag := (a.binding slot).map (·.tag)

/-- The highest occupied slot bound to this client. -/
def find? (a : Arbiter) (client : ClientId) : Option SlotId :=
  a.occupied.toList.find? fun slot => a.client? slot == some client

/-- Takes the highest free slot. -/
def claim? (a : Arbiter) : Option (SlotId × Arbiter) :=
  a.free.popHighest?.map fun (slot, rest) => (slot, { a with free := rest })

def giveBack (a : Arbiter) (slot : SlotId) : Arbiter := { a with free := a.free.insert slot }

def bind (a : Arbiter) (slot : SlotId) (binding : Binding) : Arbiter :=
  { a with bindings := a.bindings.set slot (some binding) }

def unbind (a : Arbiter) (slot : SlotId) : Arbiter :=
  { a with bindings := a.bindings.set slot none }

/-- The slot is to be given back by a later pass. -/
def mark (a : Arbiter) (slot : SlotId) : Arbiter := { a with detaching := a.detaching.insert slot }

/-- Forgets that the slot was to be given back, and its request with it. -/
def withdraw (a : Arbiter) (slot : SlotId) : Arbiter :=
  { a with detaching := a.detaching.erase slot, pending := a.pending.erase slot }

/-- A request counts only for a slot that is within the capacity and not free. -/
def accepts (a : Arbiter) (slot : SlotId) : Bool :=
  decide (slot.val < a.capacity) && !a.free.contains slot

/-- Whether a request of this slot needs a pass of its own. Slots other than the owner's are
served when the owner lets go; with the bus idle, the first request has already asked for the
pass that serves all. -/
def wantsPass (a : Arbiter) (slot : SlotId) : Bool :=
  match a.owner with
  | some owner => owner == slot
  | none => a.pending.isEmpty

def setPending (a : Arbiter) (slot : SlotId) : Arbiter :=
  { a with pending := a.pending.insert slot }

def clearPending (a : Arbiter) (slot : SlotId) : Arbiter :=
  { a with pending := a.pending.erase slot }

/-- Takes the request of the highest pending slot. -/
def nextTurn? (a : Arbiter) : Option (SlotId × Arbiter) :=
  a.pending.popHighest?.map fun (slot, rest) => (slot, { a with pending := rest })

/-- Raises the closed flag and tells whether it was up before. -/
def close (a : Arbiter) : Bool × Arbiter := (a.closed, { a with closed := true })

/-- Takes the closed flag down again, unless it was up before. -/
def reopen (a : Arbiter) (wasClosed : Bool) : Arbiter :=
  if wasClosed then a else { a with closed := false }

/-- Closes the arbiter for good if no slot is occupied. The slots are counted again with the flag
up: an attach that claims one later sees the flag, and one that claimed it before is found. -/
def release (a : Arbiter) : Except Refusal Unit × Arbiter :=
  if a.attachedCount > 0 then (.error (.inUse a.attachedCount), a)
  else
    let (wasClosed, raised) := a.close
    if raised.attachedCount > 0 then
      (.error (.inUse raised.attachedCount), raised.reopen wasClosed)
    else (.ok (), raised)

/-- The flag does not decide which slots are occupied. So the second count is the first one, and
the flag stays up once it is raised. -/
theorem release_eq (a : Arbiter) : a.release =
    if a.attachedCount > 0 then (.error (.inUse a.attachedCount), a)
    else (.ok (), { a with closed := true }) := by
  have hcount : a.close.2.attachedCount = a.attachedCount := rfl
  unfold release
  split
  · rfl
  · rename_i hnone
    rw [← hcount] at hnone
    exact if_neg hnone

end Arbiter

end SharedBus
