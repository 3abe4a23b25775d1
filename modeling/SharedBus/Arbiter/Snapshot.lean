import SharedBus.Arbiter.Basic

/-! # Snapshots of an arbiter -/
namespace SharedBus

/-- The books of an arbiter at one instant, without the bindings. -/
structure Snapshot where
  free : SlotSet
  pending : SlotSet
  detaching : SlotSet
  occupied : SlotSet
  current : Option SlotId
deriving DecidableEq, Repr

def Snapshot.form (s : Snapshot) : Form :=
  .record "ArbiterStatus" [
    .field "free" s.free.form,
    .field "pending" s.pending.form,
    .field "detaching" s.detaching.form,
    .field "occupied" s.occupied.form,
    .field "current" (.ofOption SlotId.form s.current)]

def Arbiter.snapshot (a : Arbiter) : Snapshot where
  free := a.free
  pending := a.pending
  detaching := a.detaching
  occupied := a.occupied
  current := a.owner

/-- What an arbiter tells about itself. -/
structure Info where
  capacity : Nat
  isBusy : Bool
  attached : Nat
  snapshot : Snapshot
  /-- Two snapshots taken one after the other agree. -/
  steady : Bool
deriving DecidableEq, Repr

def Arbiter.info (a : Arbiter) : Info where
  capacity := a.capacity
  isBusy := !a.isIdle
  attached := a.attachedCount
  snapshot := a.snapshot
  steady := a.snapshot == a.snapshot

end SharedBus
