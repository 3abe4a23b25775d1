import SharedBus.Proofs.Deed.Basic

/-! # Steps that are none of an arbiter's business

Scripts, hooks, queues and deliveries leave all books alone, and what is done to one arbiter leaves
the books of the others alone.
-/
namespace SharedBus

/-- What an outcome leaves alone if it is none of the arbiter's business. -/
structure Outcome.Quiet (a : ArbiterId) (w : World) (outcome : Outcome) : Prop where
  books : outcome.world.arbiter a = w.arbiter a
  next : ∀ call waiting, outcome.next = .call call waiting → waiting.isOf a = false
  events : ∀ e ∈ outcome.events, e.isOf a = false

namespace World

variable {a b : ArbiterId} (w : World)

section
variable {w} {w' : World}

theorem quiet_reply {reply : Reply} {events : List Event} (hx : w'.arbiter a = w.arbiter a)
    (hevents : ∀ e ∈ events, e.isOf a = false) : (w'.reply reply events).Quiet a w where
  books := hx
  next := by simp
  events := hevents

theorem quiet_call {call : Call} {waiting : Activation} {events : List Event}
    (hx : w'.arbiter a = w.arbiter a) (hwaiting : waiting.isOf a = false)
    (hevents : ∀ e ∈ events, e.isOf a = false) : (w'.call call waiting events).Quiet a w where
  books := hx
  next := by
    intro _ _ h
    obtain ⟨rfl, rfl⟩ := Next.call.inj h
    exact hwaiting
  events := hevents

theorem quiet_whenThere {there : Bool} {outcome : Outcome} (h : outcome.Quiet a w) :
    (w.whenThere there outcome).Quiet a w := by
  cases there with
  | false => exact quiet_reply rfl (by simp)
  | true => exact h

end

/-! ## Callbacks, queues and deliveries -/

theorem quiet_continueScript (actions : List Action) {events : List Event}
    (hevents : ∀ e ∈ events, e.isOf a = false) : (w.continueScript actions events).Quiet a w := by
  cases actions with
  | nil => exact quiet_reply rfl hevents
  | cons action rest => exact quiet_call rfl rfl hevents

theorem quiet_beginRace (point : RacePoint) (race : Race) : (w.beginRace point race).Quiet a w := by
  cases race with
  | none => exact quiet_reply rfl (by simp)
  | some actions => exact quiet_call rfl rfl (by simp [Event.isOf])

theorem quiet_beginInstall (c : ClientId) (kind : HandleKind) (handle : Option Handle) :
    (w.beginInstall c kind handle).Quiet a w := by
  simp only [beginInstall]
  split
  · refine quiet_call ?_ rfl (by simp [Event.isOf])
    cases handle <;> simp
  · exact quiet_reply rfl (by simp)

theorem quiet_beginReport (report : Report) : (w.beginReport b report).Quiet a w := by
  simp only [beginReport]
  split
  · exact quiet_call rfl rfl (by simp [Event.isOf])
  · exact quiet_reply rfl (by simp)

theorem quiet_drain (q : QueueId) (ran : Nat) (silent : Bool) :
    (w.drain q ran silent).Quiet a w := by
  unfold drain
  split
  · exact quiet_reply rfl (by simp)
  · exact quiet_call rfl rfl (by simp [Event.isOf])

theorem quiet_runNext (q : QueueId) : (w.runNext q).Quiet a w := by
  unfold runNext
  split
  · exact quiet_reply rfl (by simp)
  · exact quiet_call rfl rfl (by simp [Event.isOf])

theorem quiet_detachSlots (count : Nat) (slots : List SlotId) :
    (w.detachSlots b count slots).Quiet a w := by
  induction slots with
  | nil => exact quiet_reply rfl (by simp)
  | cons slot rest ih =>
    unfold detachSlots
    split
    · exact ih
    · exact quiet_call rfl rfl (by simp)

theorem quiet_useDelivery (handle : Handle) (report : Tag → Report) (reply : Reply) :
    (w.useDelivery handle report reply).Quiet a w := by
  unfold useDelivery
  split
  · exact quiet_reply rfl (by simp)
  · exact quiet_call rfl rfl (by simp)

theorem quiet_useHeld_delivery (c : ClientId) (kind : HandleKind) (report : Tag → Report) :
    (w.useHeld c kind (w.useDelivery · report ·)).Quiet a w := by
  unfold useHeld
  split
  · split
    · exact quiet_reply rfl (by simp)
    · exact w.quiet_useDelivery ..
  · exact quiet_reply rfl (by simp)

theorem quiet_useListed {handle : Option Handle} {use : Handle → Reply → Outcome}
    (h : ∀ handle reply, (use handle reply).Quiet a w) : (w.useListed handle use).Quiet a w := by
  cases handle with
  | none => exact quiet_reply rfl (by simp)
  | some handle => exact h ..

theorem quiet_installNext (c : ClientId) (slot : SlotId) (kind : HandleKind) :
    (w.installNext b c slot kind).Quiet a w := by
  cases kind with
  | notifier | completion => exact quiet_call rfl rfl (by simp)
  | error => exact quiet_reply rfl (by simp)

theorem schedule_not_isOf : ∀ e ∈ (w.schedule b).2, e.isOf a = false := by
  rw [schedule_events]
  split <;> simp [Event.isOf]

/-! ## Other arbiters -/

section
variable (h : b ≠ a)
include h

theorem quiet_beginTurn_ne (slot : SlotId) : (w.beginTurn b slot).Quiet a w := by
  simp only [beginTurn]
  split
  · exact quiet_reply rfl (by simp [Event.isOf, h])
  · exact quiet_call rfl (by simp [Activation.isOf, h]) (by simp [Event.isOf, h])

theorem quiet_attach_ne (c : ClientId) (tag : Tag) (lock bind : Race) :
    (w.attach b c tag lock bind).Quiet a w := by
  unfold attach
  split
  · exact quiet_reply rfl (by simp)
  · exact quiet_call rfl (by simp [Activation.isOf, h]) (by simp)

theorem quiet_claim_ne (c : ClientId) (tag : Tag) (bind : Race) :
    (w.claim b c tag bind).Quiet a w := by
  unfold claim
  split
  · exact quiet_reply rfl (by simp)
  · split
    · exact quiet_reply rfl (by simp)
    · split
      · exact quiet_reply (w.arbiter_setArbiter_ne h _) (by simp [Event.isOf, h])
      · exact quiet_call (w.arbiter_setArbiter_ne h _) (by simp [Activation.isOf, h])
          (by simp [Event.isOf, h])

theorem quiet_bind_ne (c : ClientId) (tag : Tag) (slot : SlotId) :
    (w.bind b c tag slot).Quiet a w :=
  quiet_call (w.arbiter_move_ne h _) rfl (by simp [Event.isOf, h])

theorem quiet_detach_ne (c : ClientId) : (w.detach b c).Quiet a w := by
  unfold detach
  split
  · exact quiet_reply rfl (by simp)
  · exact quiet_call rfl (by simp [Activation.isOf, h]) (by simp [Event.isOf, h])

theorem quiet_uninstallNext_ne (c : ClientId) (slot : SlotId) (kind : HandleKind) :
    (w.uninstallNext b c slot kind).Quiet a w := by
  cases kind with
  | notifier | completion => exact quiet_call rfl (by simp [Activation.isOf, h]) (by simp)
  | error =>
    simp only [uninstallNext, HandleKind.next?]
    apply quiet_reply
    · rw [arbiter_schedule_ne _ h, arbiter_move_ne _ h]
    · exact List.forall_mem_cons.2 ⟨by simp [Event.isOf, h], schedule_not_isOf _⟩

theorem quiet_tryRelease_ne : (w.tryRelease b).Quiet a w := by
  rw [tryRelease_eq]
  split
  · exact quiet_reply rfl (by simp)
  · exact quiet_reply (w.arbiter_setArbiter_ne h _) (by simp [Event.isOf, h])

theorem quiet_serve_ne {w' : World} (hx : w'.arbiter a = w.arbiter a) (race : Race)
    {events : List Event} (hevents : ∀ e ∈ events, e.isOf a = false) :
    (w'.serve b race events).Quiet a w where
  books := by rw [serve_eq, arbiter_setArbiter_ne _ h, hx]
  next := by
    rw [serve_eq]
    intro call waiting
    cases (w'.arbiter b).serveOn.2 <;> (rintro ⟨_, _⟩; try simp [Activation.isOf, h])
  events := by
    rw [serve_eq]
    simp only [List.forall_mem_append]
    refine ⟨hevents, ?_⟩
    cases (w'.arbiter b).serveOn.2 <;> simp [Stage.events, Event.isOf, h]

theorem quiet_beginPass_ne (race : Race) : (w.beginPass b race).Quiet a w := by
  unfold beginPass
  split
  · exact quiet_call (w.arbiter_move_ne h _) (by simp [Activation.isOf, h]) (by simp [Event.isOf, h])
  · exact w.quiet_serve_ne h rfl race (by simp [Event.isOf, h])

theorem quiet_afterOwner_ne (race : Race) (answer : Answer) :
    (w.afterOwner b race answer).Quiet a w := by
  cases answer with
  | busy => exact w.quiet_serve_ne h rfl race (by simp)
  | done => exact w.quiet_serve_ne h (w.arbiter_move_ne h _) race (by simp)

theorem quiet_afterServe_ne (slot : SlotId) (race : Race) (answer : Answer) :
    (w.afterServe b slot race answer).Quiet a w := by
  cases answer with
  | busy =>
    simp only [afterServe]
    split
    · refine w.quiet_serve_ne h ?_ race (schedule_not_isOf _)
      rw [arbiter_schedule_ne _ h, arbiter_move_ne _ h]
    · exact w.quiet_serve_ne h (w.arbiter_move_ne h _) race (by simp)
  | done => exact w.quiet_serve_ne h rfl race (by simp)

theorem quiet_afterReclaim_ne (slot : SlotId) : (w.afterReclaim b slot).Quiet a w where
  books := by rw [afterReclaim, reclaim_eq, arbiter_setArbiter_ne _ h, arbiter_move_ne _ h]
  next := by
    rw [afterReclaim, reclaim_eq]
    intro call waiting
    cases ((w.move b _).arbiter b).reclaimOn.2 <;> (rintro ⟨_, _⟩; try simp [Activation.isOf, h])
  events := by
    rw [afterReclaim, reclaim_eq]
    simp only [List.forall_mem_append]
    refine ⟨by simp [Event.isOf, h], ?_⟩
    cases ((w.move b _).arbiter b).reclaimOn.2 <;> simp [Stage.events, Event.isOf, h]

theorem quiet_request_ne (slot : SlotId) (reply : Reply) :
    (w.useNotifier ⟨b, slot⟩ reply).Quiet a w := by
  simp only [useNotifier, request]
  split
  · split
    · apply quiet_reply
      · rw [arbiter_schedule_ne _ h, arbiter_move_ne _ h]
      · exact List.forall_mem_cons.2 ⟨by simp [Event.isOf, h], schedule_not_isOf _⟩
    · exact quiet_reply (w.arbiter_move_ne h _) (by simp [Event.isOf, h])
  · exact quiet_reply rfl (by simp)

end

end World

end SharedBus
