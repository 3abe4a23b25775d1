import SharedBus.Machine.Call

/-! # Passes

A pass lets the owner go on, then serves pending slots from the highest down until one keeps the
bus. If the bus ends up idle, it gives detached slots back and tells the consumer when nobody is
left waiting. Whether the bus is idle is looked up before every turn and every slot, since a
callback may have run another pass.
-/
namespace SharedBus.World

/-- Ends a pass. The consumer hears of it if nobody is pending. -/
def endPass (w : World) (a : ArbiterId) (events : List Event := []) : Outcome :=
  if (w.arbiter a).pending.isEmpty then w.call (.report a .idle) (.idle a) events
  else w.reply .nothing (events ++ [.passEnded a])

/-- Gives back the highest detached slot, as long as the bus is idle. -/
def reclaim (w : World) (a : ArbiterId) (race : Race) (events : List Event := []) : Outcome :=
  match (w.arbiter a).owner, (w.arbiter a).detaching.highest? with
  | none, some slot =>
    (w.move a (·.withdraw slot)).call (.race .reclaim race) (.reclaim a slot)
      (events ++ [.withdrawn a slot])
  | _, _ => w.endPass a events

/-- Serves the highest pending slot, as long as the bus is idle. -/
def serve (w : World) (a : ArbiterId) (race : Race) (events : List Event := []) : Outcome :=
  match (w.arbiter a).owner with
  | some _ => w.reply .nothing (events ++ [.passEnded a])
  | none =>
    match (w.arbiter a).nextTurn? with
    | some (slot, rest) =>
      (w.setArbiter a rest).call (.turn a slot) (.serve a slot race)
        (events ++ [.served a slot])
    | none => w.reclaim a race events

def beginPass (w : World) (a : ArbiterId) (race : Race) : Outcome :=
  match (w.arbiter a).owner with
  | some slot =>
    (w.move a (·.clearPending slot)).call (.turn a slot) (.owner a race)
      [.passBegun a, .continued a slot]
  | none => w.serve a race [.passBegun a]

/-- The owner's turn is over. -/
def afterOwner (w : World) (a : ArbiterId) (race : Race) : Answer → Outcome
  | .busy => w.serve a race
  | .done => (w.move a ({ · with owner := none })).serve a race

/-- The turn of a served slot is over. If it keeps the bus and has asked again during its turn,
nobody has queued a pass for that request, because the slot did not own the bus yet. -/
def afterServe (w : World) (a : ArbiterId) (slot : SlotId) (race : Race) : Answer → Outcome
  | .busy =>
    let owned := w.move a ({ · with owner := some slot })
    if (w.arbiter a).pending.contains slot then
      let (scheduled, events) := owned.schedule a
      scheduled.serve a race events
    else owned.serve a race
  | .done => w.serve a race

/-- The slot is unbound before it is free again. The race of the pass is over with this slot, so
those given back after it have none. -/
def afterReclaim (w : World) (a : ArbiterId) (slot : SlotId) : Outcome :=
  (w.move a fun arbiter => (arbiter.unbind slot).giveBack slot).reclaim a none [.freed a slot]

end SharedBus.World
