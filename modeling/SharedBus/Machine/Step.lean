import SharedBus.Machine.Attach
import SharedBus.Machine.Callback
import SharedBus.Machine.Pass

/-! # The steps of every call

`World.begin` makes the first step of a call, `World.resume` the next step of an activation whose
callee has replied. Between two steps of one call anything may happen; within a step nothing does.
-/
namespace SharedBus.World

/-! ## Handles -/

def useNotifier (w : World) (handle : Handle) (reply : Reply) : Outcome :=
  let (requested, events) := w.request handle.arbiter handle.slot
  requested.reply reply events

/-- Forwards what `report` makes of the tag. A handle of a slot that is not bound forwards
nothing. -/
def useDelivery (w : World) (handle : Handle) (report : Tag → Report) (reply : Reply) : Outcome :=
  match (w.arbiter handle.arbiter).tag? handle.slot with
  | none => w.reply reply
  | some tag => w.call (.report handle.arbiter (report tag)) (.answer reply)

/-- Uses the handle that a client holds, and tells whether it holds one. -/
def useHeld (w : World) (c : ClientId) (kind : HandleKind) (use : Handle → Reply → Outcome) :
    Outcome :=
  if w.hasClient c then
    match (w.client c).handles.get kind with
    | none => w.reply (.flag false)
    | some handle => use handle (.flag true)
  else w.reply .skipped

/-- Uses an entry of a list of handles. -/
def useListed (w : World) (handle : Option Handle) (use : Handle → Reply → Outcome) : Outcome :=
  match handle with
  | none => w.reply .skipped
  | some handle => use handle .nothing

/-! ## All calls -/

/-- Skips the action unless all that it names is there. -/
def whenThere (w : World) (there : Bool) (outcome : Outcome) : Outcome :=
  if there then outcome else w.reply .skipped

/-- The first step of an action. -/
def perform (w : World) : Action → Outcome
  | .build q s capacity =>
    w.whenThere (w.hasQueue q && w.hasConsumer s) <|
      w.build q s (capacity.elim {} Config.mk)
  | .attach a c tag lock bind =>
    w.whenThere (w.hasArbiter a && w.hasClient c) (w.attach a c tag lock bind)
  | .detach a c => w.whenThere (w.hasArbiter a && w.hasClient c) (w.detach a c)
  | .detachAll a => w.whenThere (w.hasArbiter a) (w.detachSlots a 0 (w.arbiter a).settled.toList)
  | .tryRelease a => w.whenThere (w.hasArbiter a) (w.tryRelease a)
  | .request a index =>
    match SlotId.ofIndex? index with
    | none => w.reply .skipped
    | some slot => w.whenThere (w.hasArbiter a) (w.useNotifier ⟨a, slot⟩ .nothing)
  | .dispatch a race => w.whenThere (w.hasArbiter a) (w.call (.pass a race) (.answer .nothing))
  | .runJob a => w.whenThere (w.hasArbiter a) (w.call (.job (.pass a)) (.answer .nothing))
  | .tag a index =>
    match SlotId.ofIndex? index with
    | none => w.reply .skipped
    | some slot => w.whenThere (w.hasArbiter a) (w.reply (.tag ((w.arbiter a).tag? slot)))
  | .info a => w.whenThere (w.hasArbiter a) (w.reply (.info (w.arbiter a).info))
  | .notify c => w.useHeld c .notifier w.useNotifier
  | .complete c payload => w.useHeld c .completion (w.useDelivery · (.result · payload))
  | .fail c fault => w.useHeld c .error (w.useDelivery · (.failure · fault))
  | .handleNotify h => w.useListed w.notifiers[h]? w.useNotifier
  | .handleComplete h payload =>
    w.useListed w.deliveries[h]? (w.useDelivery · (.result · payload))
  | .handleFail h fault => w.useListed w.deliveries[h]? (w.useDelivery · (.failure · fault))
  | .showNotifier h =>
    w.useListed w.notifiers[h]? fun handle _ => w.reply (.shown (handle.form .notifier).shown)
  | .showDelivery h =>
    w.useListed w.deliveries[h]? fun handle _ => w.reply (.shown (handle.form .completion).shown)
  | .reserve q =>
    w.whenThere (w.hasQueue q) <|
      match (w.queue q).reserve? with
      | none => w.reply (.flag false)
      | some queue => (w.setQueue q queue).reply (.flag true) [.reserved q]
  | .reserved q =>
    w.whenThere (w.hasQueue q) (w.reply ((w.queue q).reserved?.elim .nothing .count))
  | .enqueue q j =>
    w.whenThere (w.hasQueue q && w.hasTask j) <|
      let (queued, events) := w.enqueue q (.task j)
      queued.reply .nothing events
  | .enqueueArbiter q a =>
    w.whenThere (w.hasQueue q && w.hasArbiter a) <|
      let (queued, events) := w.enqueue q (.pass a)
      queued.reply .nothing events
  | .runNext q => w.whenThere (w.hasQueue q) (w.runNext q)
  | .runPending q => w.whenThere (w.hasQueue q) (w.drain q 0 false)
  | .drain q => w.whenThere (w.hasQueue q) (w.drain q 0 true)
  | .length q => w.whenThere (w.hasQueue q) (w.reply (.count (w.queue q).size))
  | .isEmpty q => w.whenThere (w.hasQueue q) (w.reply (.flag (w.queue q).isEmpty))
  | .unknown _ => w.reply .skipped

/-- The first step of a call. -/
def begin (w : World) : Call → Outcome
  | .perform action => w.perform action
  | .script actions => w.continueScript actions
  | .race point race => w.beginRace point race
  | .install c kind handle => w.beginInstall c kind handle
  | .turn a slot => w.beginTurn a slot
  | .pass a race => w.beginPass a race
  | .report a report => w.beginReport a report
  | .job job => w.beginJob job

/-- The next step of an activation whose callee has replied. -/
def resume (w : World) (back : Reply) : Activation → Outcome
  | .script action rest => w.continueScript rest [.did action back]
  | .answer reply => w.reply reply
  | .turn a slot c answer => w.reply (.turn answer) [.turnEnded a slot (some c) answer]
  | .claim a c tag bind => w.claim a c tag bind
  | .bind a c tag slot => w.bind a c tag slot
  | .install a c slot kind => w.installNext a c slot kind
  | .uninstall a c slot kind => w.uninstallNext a c slot kind
  | .detachAll a rest count => w.detachSlots a (if back.isSlot then count + 1 else count) rest
  | .owner a race => w.afterOwner a race back.answer
  | .serve a slot race => w.afterServe a slot race back.answer
  | .reclaim a slot => w.afterReclaim a slot
  | .idle a => w.reply .nothing [.passEnded a]
  | .drain q ran silent => w.drain q ran silent

end SharedBus.World
