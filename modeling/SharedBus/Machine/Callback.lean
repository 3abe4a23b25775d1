import SharedBus.Machine.Call

/-! # Scripts, callbacks and jobs

The calls that leave the arbiters: lists of actions, the hooks of clients and consumers, turns on
the bus, and the jobs of a queue. Each hook call spends one of the lists that its party has
prepared.
-/
namespace SharedBus.World

/-- Goes on with a script. The events are those of the same step. -/
def continueScript (w : World) (actions : List Action) (events : List Event := []) : Outcome :=
  match actions with
  | [] => w.reply .nothing events
  | action :: rest => w.call (.perform action) (.script action.name rest) events

/-- Performs the actions of a race, if there is one. -/
def beginRace (w : World) (point : RacePoint) : Race → Outcome
  | none => w.reply .nothing
  | some actions => w.call (.script actions) (.answer .nothing) [.race point]

/-- Gives a client a handle or takes it back. -/
def beginInstall (w : World) (c : ClientId) (kind : HandleKind) (handle : Option Handle) :
    Outcome :=
  let client := w.client c
  if client.takes kind then
    let stored := w.setClient c (client.install kind handle)
    let listed := match handle with
      | none => stored
      | some handle => stored.record kind handle
    listed.call (.script (client.hook kind).now) (.answer .nothing)
      [.installed c kind handle]
  else w.reply .nothing

/-- Calls the client bound to the slot. A slot that is not bound is done at once. -/
def beginTurn (w : World) (a : ArbiterId) (slot : SlotId) : Outcome :=
  match (w.arbiter a).client? slot with
  | none => w.reply (.turn .done) [.turnBegun a slot none, .turnEnded a slot none .done]
  | some c =>
    let (turn, client) := (w.client c).nextTurn
    (w.setClient c client).call (.script turn.actions) (.turn a slot c turn.answer)
      [.turnBegun a slot (some c)]

/-- Tells the arbiter's consumer. -/
def beginReport (w : World) (a : ArbiterId) (report : Report) : Outcome :=
  let s := (w.arbiter a).consumer
  let consumer := w.consumer s
  if consumer.hears report then
    (w.setConsumer s (consumer.spend report)).call (.script (consumer.hook report).now)
      (.answer .nothing) [.reported a s report]
  else w.reply .nothing

/-- Runs a job. A pass counts as started from here on, so that requests made during it queue
another one. Nothing happens between withdrawing and freeing the slots that it gives back: only
a pass that is dispatched directly has a race there. -/
def beginJob (w : World) : Job → Outcome
  | .pass a => (w.move a ({ · with queued := false })).call (.pass a none) (.answer .nothing)
  | .task j =>
    (w.setTask j (w.task j).tail).call (.script (w.task j).now) (.answer .nothing) [.task j]

/-- Runs the next job of a queue that is being emptied. -/
def drain (w : World) (q : QueueId) (ran : Nat) (silent : Bool) : Outcome :=
  match (w.queue q).pop? with
  | none => w.reply (if silent then .nothing else .count ran)
  | some (job, rest) =>
    (w.setQueue q rest).call (.job job) (.drain q (ran + 1) silent) [.started q job]

def runNext (w : World) (q : QueueId) : Outcome :=
  match (w.queue q).pop? with
  | none => w.reply (.flag false)
  | some (job, rest) =>
    (w.setQueue q rest).call (.job job) (.answer (.flag true)) [.started q job]

end SharedBus.World
