import SharedBus.Machine.Potential.World

/-! # Potentials of outcomes

The first step of a call and every later step of an activation leave less than the call or the
activation counted for.
-/
namespace SharedBus

def Next.potential : Next → Nat
  | .reply _ => 0
  | .call next waiting => next.potential + waiting.potential

def Outcome.potential (outcome : Outcome) : Nat :=
  outcome.world.potential + outcome.next.potential

namespace World

variable (w : World)

@[simp] theorem potential_reply (reply : Reply) (events : List Event) :
    (w.reply reply events).potential = w.potential := rfl

@[simp] theorem potential_call (call : Call) (waiting : Activation) (events : List Event) :
    (w.call call waiting events).potential =
      w.potential + (call.potential + waiting.potential) := rfl

theorem continueScript_lt (actions : List Action) (events : List Event) :
    (w.continueScript actions events).potential <
      w.potential + (rate * scriptWeight actions + 1) := by
  cases actions with
  | nil => simp [continueScript]
  | cons action rest =>
    simp [continueScript, Call.potential, Activation.potential, scriptWeight, rate, price]
    omega

theorem beginRace_lt (point : RacePoint) (race : Race) :
    (w.beginRace point race).potential < w.potential + (rate * raceWeight race + 3) := by
  cases race with
  | none => simp [beginRace]
  | some actions =>
    simp [beginRace, Call.potential, Activation.potential, raceWeight, rate, price]

theorem beginInstall_lt (c : ClientId) (kind : HandleKind) (handle : Option Handle) :
    (w.beginInstall c kind handle).potential < w.potential + 3 := by
  have hstored := w.potential_setClient_le c ((w.client c).install kind handle)
  have := (w.client c).weight_install kind handle
  simp only [beginInstall]
  split
  · cases handle <;>
      simp [Call.potential, Activation.potential, rate, price] at hstored ⊢ <;> omega
  · simp

theorem beginTurn_lt (a : ArbiterId) (slot : SlotId) :
    (w.beginTurn a slot).potential < w.potential + 3 := by
  simp only [beginTurn]
  split
  · simp
  · rename_i c _
    have := w.potential_setClient_le c (w.client c).nextTurn.2
    have := (w.client c).weight_nextTurn
    simp [Call.potential, Activation.potential, rate, price] at *
    omega

theorem beginReport_lt (a : ArbiterId) (report : Report) :
    (w.beginReport a report).potential < w.potential + 3 := by
  have := w.potential_setConsumer_le (w.arbiter a).consumer
    ((w.consumer (w.arbiter a).consumer).spend report)
  have := (w.consumer (w.arbiter a).consumer).weight_spend report
  simp only [beginReport]
  split
  · simp [Call.potential, Activation.potential, rate, price] at *
    omega
  · simp

theorem beginJob_lt (job : Job) : (w.beginJob job).potential < w.potential + 11 := by
  cases job with
  | pass a =>
    have := w.potential_move_le a ({ · with queued := false })
    simp [beginJob, Call.potential, Activation.potential, raceWeight, Arbiter.potential] at *
    omega
  | task j =>
    have := w.potential_setTask_le j (w.task j).tail
    have := Hook.weight_tail (w.task j)
    simp [beginJob, Call.potential, Activation.potential, rate, price] at *
    omega

theorem drain_le (q : QueueId) (ran : Nat) (silent : Bool) :
    (w.drain q ran silent).potential ≤ w.potential := by
  simp only [drain]
  split
  · simp
  · rename_i job rest hpop
    have := w.potential_setQueue_le q rest
    have := WorkQueue.potential_of_pop? hpop
    simp [Call.potential, Activation.potential] at *
    omega

theorem runNext_le (q : QueueId) : (w.runNext q).potential ≤ w.potential := by
  simp only [runNext]
  split
  · simp
  · rename_i job rest hpop
    have := w.potential_setQueue_le q rest
    have := WorkQueue.potential_of_pop? hpop
    simp [Call.potential, Activation.potential] at *
    omega

/-! ### Building, attaching and detaching -/

theorem build_le (q : QueueId) (s : ConsumerId) (config : Config) :
    (w.build q s config).potential ≤ w.potential := by
  simp only [build]
  split
  · simp
  · split
    · simp
    · rename_i queue hqueue
      have hsame := WorkQueue.potential_of_reserve? hqueue
      have := w.potential_setQueue_le q queue
      have hnew : (Arbiter.create config q s).potential = 0 := by
        simp [Arbiter.potential, Arbiter.create]
      simp [potential, setQueue, total_append, total, hnew] at this ⊢
      omega

theorem attach_lt (a : ArbiterId) (c : ClientId) (tag : Tag) (lock bind : Race) :
    (w.attach a c tag lock bind).potential <
      w.potential + (rate * raceWeight lock + rate * raceWeight bind + 21) := by
  simp only [attach]
  split
  · simp
  · simp [Call.potential, Activation.potential]
    omega

theorem claim_lt (a : ArbiterId) (c : ClientId) (tag : Tag) (bind : Race) :
    (w.claim a c tag bind).potential < w.potential + (rate * raceWeight bind + 17) := by
  simp only [claim]
  split
  · simp
  · split
    · simp
    · rename_i slot claimed hclaim
      have hsame : claimed.potential = (w.arbiter a).potential := by
        simp only [Arbiter.claim?, Option.map_eq_some_iff] at hclaim
        obtain ⟨_, _, h⟩ := hclaim
        rw [← (Prod.mk.inj h).2]
        rfl
      split
      · have := w.potential_setArbiter_le a (claimed.giveBack slot)
        simp [Arbiter.potential, Arbiter.giveBack] at *
        omega
      · have := w.potential_setArbiter_le a claimed
        simp [Call.potential, Activation.potential] at *
        omega

theorem bind_lt (a : ArbiterId) (c : ClientId) (tag : Tag) (slot : SlotId) :
    (w.bind a c tag slot).potential < w.potential + 13 := by
  have := w.potential_move_le a (·.bind slot ⟨c, tag⟩)
  simp [bind, Arbiter.potential, Arbiter.bind, Call.potential, Activation.potential,
    HandleKind.left] at *
  omega

theorem installNext_lt (a : ArbiterId) (c : ClientId) (slot : SlotId) (kind : HandleKind) :
    (w.installNext a c slot kind).potential < w.potential + (1 + 4 * kind.left) := by
  cases kind <;>
    simp [installNext, HandleKind.next?, HandleKind.left, Call.potential, Activation.potential]

theorem detach_lt (a : ArbiterId) (c : ClientId) :
    (w.detach a c).potential < w.potential + price := by
  simp only [detach]
  split <;> simp [Call.potential, Activation.potential, HandleKind.left, price]

theorem uninstallNext_lt (a : ArbiterId) (c : ClientId) (slot : SlotId) (kind : HandleKind) :
    (w.uninstallNext a c slot kind).potential < w.potential + (17 + 4 * kind.left) := by
  have hmarked : (w.move a (·.mark slot)).potential ≤ w.potential + 4 := by
    have := w.potential_move_le a (·.mark slot)
    have := (w.arbiter a).detaching.size_insert_le slot
    simp only [Arbiter.potential, Arbiter.mark] at *
    omega
  have := (w.move a (·.mark slot)).potential_schedule_le a
  cases kind <;>
    simp [uninstallNext, HandleKind.next?, HandleKind.left, Call.potential, Activation.potential]
  omega

theorem detachSlots_le (a : ArbiterId) (count : Nat) (slots : List SlotId) :
    (w.detachSlots a count slots).potential ≤ w.potential + rate * slots.length := by
  induction slots with
  | nil => simp [detachSlots]
  | cons slot rest ih =>
    simp only [detachSlots]
    split
    · simp only [List.length_cons, rate, price] at *
      omega
    · simp [Call.potential, Activation.potential, Action.weight, rate, price]
      omega

theorem tryRelease_le (a : ArbiterId) : (w.tryRelease a).potential ≤ w.potential := by
  have hbooks := w.potential_setArbiter_le a (w.arbiter a).release.2
  have hrelease : (w.arbiter a).release.2.potential = (w.arbiter a).potential := by
    rw [Arbiter.release_eq]
    split <;> rfl
  simp only [tryRelease]
  split <;> (rw [potential_reply]; omega)

/-! ### Passes -/

theorem endPass_le (a : ArbiterId) (events : List Event) :
    (w.endPass a events).potential ≤ w.potential + 4 := by
  simp only [endPass]
  split <;> simp [Call.potential, Activation.potential]

theorem reclaim_le (a : ArbiterId) (race : Race) (events : List Event) :
    (w.reclaim a race events).potential ≤ w.potential + (rate * raceWeight race + 4) := by
  have hend := w.endPass_le a events
  simp only [reclaim]
  split
  · rename_i slot _ hslot
    have := w.potential_move_le a (·.withdraw slot)
    have := SlotSet.size_erase (SlotSet.mem_of_highest? hslot)
    have := (w.arbiter a).pending.size_erase_le slot
    simp only [Arbiter.potential, Arbiter.withdraw, potential_call, Call.potential,
      Activation.potential] at *
    omega
  · omega

theorem serve_le (a : ArbiterId) (race : Race) (events : List Event) :
    (w.serve a race events).potential ≤ w.potential + (rate * raceWeight race + 4) := by
  have hreclaim := w.reclaim_le a race events
  simp only [serve]
  split
  · simp
  · split
    · rename_i slot rest hnext
      have hrest : rest.potential + 16 = (w.arbiter a).potential := by
        simp only [Arbiter.nextTurn?, Option.map_eq_some_iff] at hnext
        obtain ⟨⟨_, others⟩, hpop, h⟩ := hnext
        obtain ⟨rfl, rfl⟩ := Prod.mk.inj h
        obtain ⟨hslot, rfl⟩ := SlotSet.popHighest?_eq_some.1 hpop
        have := SlotSet.size_erase (SlotSet.mem_of_highest? hslot)
        simp only [Arbiter.potential]
        omega
      have := w.potential_setArbiter_le a rest
      simp only [potential_call, Call.potential, Activation.potential]
      omega
    · exact hreclaim

theorem beginPass_lt (a : ArbiterId) (race : Race) :
    (w.beginPass a race).potential < w.potential + (rate * raceWeight race + 9) := by
  simp only [beginPass]
  split
  · rename_i slot _
    have := w.potential_move_le a (·.clearPending slot)
    have := (w.arbiter a).pending.size_erase_le slot
    simp only [Arbiter.potential, Arbiter.clearPending, potential_call, Call.potential,
      Activation.potential] at *
    omega
  · have := w.serve_le a race [.passBegun a]
    omega

theorem potential_setOwner_le (a : ArbiterId) (owner : Option SlotId) :
    (w.move a ({ · with owner := owner })).potential ≤ w.potential := by
  have := w.potential_move_le a ({ · with owner := owner })
  simp only [Arbiter.potential] at *
  omega

theorem afterOwner_lt (a : ArbiterId) (race : Race) (answer : Answer) :
    (w.afterOwner a race answer).potential < w.potential + (rate * raceWeight race + 5) := by
  cases answer with
  | busy =>
    have := w.serve_le a race []
    simp only [afterOwner]
    omega
  | done =>
    have := w.potential_setOwner_le a none
    have := (w.move a ({ · with owner := none })).serve_le a race []
    simp only [afterOwner]
    omega

theorem afterServe_lt (a : ArbiterId) (slot : SlotId) (race : Race) (answer : Answer) :
    (w.afterServe a slot race answer).potential <
      w.potential + (rate * raceWeight race + 17) := by
  cases answer with
  | busy =>
    have howned := w.potential_setOwner_le a (some slot)
    have hscheduled := (w.move a ({ · with owner := some slot })).potential_schedule_le a
    simp only [afterServe]
    split
    · have := ((w.move a ({ · with owner := some slot })).schedule a).1.serve_le a race
        ((w.move a ({ · with owner := some slot })).schedule a).2
      omega
    · have := (w.move a ({ · with owner := some slot })).serve_le a race []
      omega
  | done =>
    have := w.serve_le a race []
    simp only [afterServe]
    omega

theorem afterReclaim_lt (a : ArbiterId) (slot : SlotId) :
    (w.afterReclaim a slot).potential < w.potential + 5 := by
  have hfreed := w.potential_move_le a fun arbiter => (arbiter.unbind slot).giveBack slot
  have := (w.move a fun arbiter => (arbiter.unbind slot).giveBack slot).reclaim_le a none
    [.freed a slot]
  simp only [afterReclaim, Arbiter.potential, Arbiter.unbind, Arbiter.giveBack, raceWeight] at *
  omega

/-! ### Handles -/

theorem useNotifier_lt (handle : Handle) (reply : Reply) :
    (w.useNotifier handle reply).potential < w.potential + price := by
  have := w.potential_request_le handle.arbiter handle.slot
  simp only [useNotifier, potential_reply, price]
  omega

theorem useDelivery_lt (handle : Handle) (report : Tag → Report) (reply : Reply) :
    (w.useDelivery handle report reply).potential < w.potential + price := by
  simp only [useDelivery]
  split <;> simp [Call.potential, Activation.potential, price]

variable {w}

theorem useHeld_lt {c : ClientId} {kind : HandleKind} {use : Handle → Reply → Outcome}
    (h : ∀ handle reply, (use handle reply).potential < w.potential + price) :
    (w.useHeld c kind use).potential < w.potential + price := by
  simp only [useHeld]
  split
  · split
    · simp [price]
    · exact h ..
  · simp [price]

theorem useListed_lt {handle : Option Handle} {use : Handle → Reply → Outcome}
    (h : ∀ handle reply, (use handle reply).potential < w.potential + price) :
    (w.useListed handle use).potential < w.potential + price := by
  cases handle with
  | none => simp [useListed, price]
  | some handle => exact h ..

/-! ### All calls -/

theorem whenThere_lt {there : Bool} {outcome : Outcome} {inner : Nat}
    (h : outcome.potential < w.potential + (inner + price)) :
    (w.whenThere there outcome).potential < w.potential + (inner + price) := by
  cases there with
  | false => simp [whenThere, price]
  | true => exact h

variable (w)

/-- An action that holds no others and does not detach all sets off no more than the price. -/
theorem perform_lt_price {action : Action} (h : action.weight = 0) :
    (w.perform action).potential < w.potential + (0 + price) := by
  have hnotify := w.useNotifier_lt
  have hdeliver := w.useDelivery_lt
  cases action with
  | attach a c tag lock bind =>
    have := w.attach_lt a c tag lock bind
    simp only [Action.weight, Nat.add_eq_zero_iff] at h
    refine whenThere_lt ?_
    simp only [h, price] at *
    omega
  | dispatch a race =>
    simp only [Action.weight] at h
    exact whenThere_lt (by simp [Call.potential, Activation.potential, h, price])
  | detachAll a => simp [Action.weight] at h
  | build q s capacity =>
    exact whenThere_lt (by have := w.build_le q s (capacity.elim {} Config.mk); simp only [price]; omega)
  | detach a c => exact whenThere_lt (by have := w.detach_lt a c; omega)
  | tryRelease a => exact whenThere_lt (by have := w.tryRelease_le a; simp only [price]; omega)
  | request a index =>
    simp only [perform]
    split
    · simp [price]
    · exact whenThere_lt (by simpa using hnotify ..)
  | runJob a => exact whenThere_lt (by simp [Call.potential, Activation.potential, price])
  | tag a index =>
    simp only [perform]
    split
    · simp [price]
    · exact whenThere_lt (by simp [price])
  | info a => exact whenThere_lt (by simp [price])
  | notify c => simpa [perform] using useHeld_lt hnotify
  | complete c payload => simpa [perform] using useHeld_lt fun handle => hdeliver handle _
  | fail c fault => simpa [perform] using useHeld_lt fun handle => hdeliver handle _
  | handleNotify h => simpa [perform] using useListed_lt hnotify
  | handleComplete h payload => simpa [perform] using useListed_lt fun handle => hdeliver handle _
  | handleFail h fault => simpa [perform] using useListed_lt fun handle => hdeliver handle _
  | showNotifier h => simpa [perform] using useListed_lt fun _ _ => by simp [price]
  | showDelivery h => simpa [perform] using useListed_lt fun _ _ => by simp [price]
  | reserve q =>
    refine whenThere_lt ?_
    split
    · simp [price]
    · rename_i queue hqueue
      have := w.potential_setQueue_le q queue
      have := WorkQueue.potential_of_reserve? hqueue
      simp only [potential_reply, price]
      omega
  | reserved q => exact whenThere_lt (by simp [price])
  | enqueue q j =>
    have := w.potential_enqueue_le q (.task j)
    exact whenThere_lt (by simp only [potential_reply, price]; omega)
  | enqueueArbiter q a =>
    have := w.potential_enqueue_le q (.pass a)
    exact whenThere_lt (by simp only [potential_reply, price]; omega)
  | runNext q => exact whenThere_lt (by have := w.runNext_le q; simp only [price]; omega)
  | runPending q => exact whenThere_lt (by have := w.drain_le q 0 false; simp only [price]; omega)
  | drain q => exact whenThere_lt (by have := w.drain_le q 0 true; simp only [price]; omega)
  | length q => exact whenThere_lt (by simp [price])
  | isEmpty q => exact whenThere_lt (by simp [price])
  | unknown name => simp [perform, price]

theorem perform_lt (action : Action) :
    (w.perform action).potential < w.potential + (rate * action.weight + price) := by
  by_cases h : action.weight = 0
  · simpa [h] using w.perform_lt_price h
  · cases action with
    | attach a c tag lock bind =>
      have := w.attach_lt a c tag lock bind
      refine whenThere_lt ?_
      simp only [Action.weight, rate, price] at *
      omega
    | dispatch a race =>
      refine whenThere_lt ?_
      simp only [Action.weight, Call.potential, Activation.potential, potential_call, price]
      omega
    | detachAll a =>
      have := w.detachSlots_le a 0 (w.arbiter a).settled.toList
      have := (w.arbiter a).settled.length_toList_le
      refine whenThere_lt ?_
      simp only [Action.weight, rate, price, maxSlots] at *
      omega
    | _ => exact absurd rfl h

theorem begin_lt (call : Call) : (w.begin call).potential < w.potential + call.potential := by
  cases call with
  | perform action => exact w.perform_lt action
  | script actions => exact w.continueScript_lt actions []
  | race point race => exact w.beginRace_lt point race
  | install c kind handle => exact w.beginInstall_lt c kind handle
  | turn a slot => exact w.beginTurn_lt a slot
  | pass a race => exact w.beginPass_lt a race
  | report a report => exact w.beginReport_lt a report
  | job job => exact w.beginJob_lt job

theorem resume_lt (back : Reply) (waiting : Activation) :
    (w.resume back waiting).potential < w.potential + waiting.potential := by
  cases waiting with
  | script action rest => exact w.continueScript_lt rest _
  | answer reply => simp [resume, Activation.potential]
  | turn a slot c answer => simp [resume, Activation.potential]
  | claim a c tag bind => exact w.claim_lt a c tag bind
  | bind a c tag slot => exact w.bind_lt a c tag slot
  | install a c slot kind => exact w.installNext_lt a c slot kind
  | uninstall a c slot kind => exact w.uninstallNext_lt a c slot kind
  | detachAll a rest count =>
    have := w.detachSlots_le a (if back.isSlot then count + 1 else count) rest
    simp only [resume, Activation.potential]
    omega
  | owner a race => exact w.afterOwner_lt a race _
  | serve a slot race => exact w.afterServe_lt a slot race _
  | reclaim a slot => exact w.afterReclaim_lt a slot
  | idle a => simp [resume, Activation.potential]
  | drain q ran silent =>
    have := w.drain_le q ran silent
    simp only [resume, Activation.potential]
    omega

end World

end SharedBus
