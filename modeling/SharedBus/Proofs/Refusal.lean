import SharedBus.Proofs.Discipline
import SharedBus.Proofs.Evaluation
import SharedBus.Proofs.Stage

/-! # Failing actions

An action that is refused, and a request that is ignored, changes nothing and calls nobody. An
attach may fail only after it has given others the time to act and has claimed a slot; then what is
left is what the others have done.
-/
namespace SharedBus

/-! ## Who refuses -/

def Reply.isRefused : Reply → Bool
  | .refused _ => true
  | _ => false

/-- An activation in the middle of an attach or a detach, with the slot that it is for. -/
def Activation.slot? : Activation → Option SlotId
  | .bind _ _ _ slot | .install _ _ slot _ | .uninstall _ _ slot _ => some slot
  | _ => none

/-- The activations that are not part of an attach or a detach. -/
def Activation.cannotFail : Activation → Bool
  | .claim .. | .bind .. | .install .. | .uninstall .. => false
  | .answer reply => !reply.isRefused
  | _ => true

/-- Whatever comes of this, it is not refused. -/
abbrev Next.NotRefused : Next → Prop := Next.Within (·.isRefused = false) (·.cannotFail = true)

/-- Whatever comes of this, it replies the slot. -/
abbrev Next.Grants (slot : SlotId) : Next → Prop :=
  Next.Within (· = .slot slot) (·.slot? = some slot)

namespace World

variable (w : World) {a : ArbiterId}

private theorem notRefused_stage (stage : Stage) (race : Race) :
    (stage.next a race).NotRefused := by
  cases stage <;> rfl

private theorem notRefused_serve (race : Race) (events : List Event) :
    (w.serve a race events).next.NotRefused := by
  rw [serve_eq]
  exact notRefused_stage ..

private theorem notRefused_drain (q : QueueId) (ran : Nat) (silent : Bool) :
    (w.drain q ran silent).next.NotRefused := by
  unfold drain
  split
  · cases silent <;> rfl
  · rfl

private theorem notRefused_detachSlots (count : Nat) (slots : List SlotId) :
    (w.detachSlots a count slots).next.NotRefused := by
  induction slots with
  | nil => rfl
  | cons slot rest ih =>
    unfold detachSlots
    split
    · exact ih
    · rfl

private theorem notRefused_continueScript (actions : List Action) (events : List Event) :
    (w.continueScript actions events).next.NotRefused := by
  cases actions <;> rfl

private theorem notRefused_useDelivery (handle : Handle) (report : Tag → Report) {reply : Reply}
    (h : reply.isRefused = false) : (w.useDelivery handle report reply).next.NotRefused := by
  unfold useDelivery
  split
  · exact h
  · show (!reply.isRefused) = true
    rw [h]
    rfl

private theorem notRefused_useHeld {c : ClientId} {kind : HandleKind}
    {use : Handle → Reply → Outcome} (h : ∀ handle, (use handle (.flag true)).next.NotRefused) :
    (w.useHeld c kind use).next.NotRefused := by
  unfold useHeld
  split
  · split
    · rfl
    · exact h _
  · rfl

private theorem notRefused_useListed {handle : Option Handle} {use : Handle → Reply → Outcome}
    (h : ∀ handle, (use handle .nothing).next.NotRefused) :
    (w.useListed handle use).next.NotRefused := by
  cases handle with
  | none => rfl
  | some handle => exact h _

theorem notRefused_resume (back : Reply) (waiting : Activation) (h : waiting.cannotFail = true) :
    (w.resume back waiting).next.NotRefused := by
  cases waiting with
  | script action rest => exact w.notRefused_continueScript ..
  | answer reply =>
    show reply.isRefused = false
    simpa [Activation.cannotFail] using h
  | turn | idle => rfl
  | claim | bind | install | uninstall => cases h
  | detachAll a rest count => exact w.notRefused_detachSlots ..
  | owner a race =>
    simp only [resume]
    cases back.answer <;> exact notRefused_serve ..
  | serve a slot race =>
    simp only [resume]
    cases back.answer with
    | done => exact notRefused_serve ..
    | busy =>
      simp only [afterServe]
      split <;> exact notRefused_serve ..
  | reclaim a slot =>
    simp only [resume, afterReclaim, reclaim_eq]
    exact notRefused_stage ..
  | drain q ran silent => exact w.notRefused_drain ..

theorem grants_resume (slot : SlotId) (back : Reply) (waiting : Activation)
    (h : waiting.slot? = some slot) : (w.resume back waiting).next.Grants slot := by
  cases waiting with
  | bind a c tag other => exact h
  | install a c other kind =>
    obtain rfl := Option.some.inj h
    cases kind <;> rfl
  | uninstall a c other kind =>
    obtain rfl := Option.some.inj h
    cases kind <;> rfl
  | _ => cases h

/-! ## What a failing action leaves behind -/

/-- What the race at the start of an attach does on its own. -/
def lockRace (w : World) : Action → World × List Event
  | .attach a _ _ lock _ => if (w.arbiter a).closed then (w, []) else w.actRace .lock lock
  | _ => (w, [])

end World

/-- Nothing is left but this, and nobody has noticed more. -/
def Effect.NoMoreThan (effect : Effect) (left : World × List Event) : Prop :=
  effect.world = left.1 ∧
    ∃ quiet, effect.events = left.2 ++ quiet ∧ ∀ e ∈ quiet, Event.notice? e = none

/-- Where it comes to a refusal, no more is left than this. -/
def Outcome.FailsAs (outcome : Outcome) (left : World × List Event) : Prop :=
  ∀ effect, outcome.Ends effect → effect.reply.isRefused = true → effect.NoMoreThan left

namespace Outcome

variable {outcome : Outcome} {left : World × List Event}

theorem FailsAs.of_notRefused (h : outcome.next.NotRefused) : outcome.FailsAs left := by
  intro effect hends hrefused
  cases (hends.reply_of World.notRefused_resume h).symm.trans hrefused

theorem FailsAs.of_grants {slot : SlotId} (h : outcome.next.Grants slot) :
    outcome.FailsAs left := by
  intro effect hends hrefused
  rw [hends.reply_of (World.grants_resume · slot) h] at hrefused
  cases hrefused

theorem FailsAs.of_reply {w : World} {reply : Reply} {events : List Event}
    (h : ∀ e ∈ events, Event.notice? e = none) : (w.reply reply events).FailsAs (w, []) := by
  rintro effect ⟨⟩ _
  exact ⟨rfl, events, rfl, h⟩

end Outcome

open Outcome

namespace World

variable (w : World) {a : ArbiterId} {c : ClientId} {left : World × List Event}

theorem failsAs_whenThere {there : Bool} {outcome : Outcome} (h : outcome.FailsAs left) :
    (w.whenThere there outcome).FailsAs left := by
  cases there with
  | false => exact .of_notRefused rfl
  | true => exact h

theorem failsAs_build (q : QueueId) (s : ConsumerId) (config : Config) :
    (w.build q s config).FailsAs (w, []) := by
  unfold build
  split
  · exact .of_reply (List.forall_mem_nil _)
  · split
    · exact .of_reply (List.forall_mem_nil _)
    · exact .of_notRefused rfl

theorem failsAs_detach : (w.detach a c).FailsAs (w, []) := by
  unfold detach
  split
  · exact .of_reply (List.forall_mem_nil _)
  · exact .of_grants rfl

theorem failsAs_tryRelease : (w.tryRelease a).FailsAs (w, []) := by
  rw [tryRelease_eq]
  split
  · exact .of_reply (List.forall_mem_nil _)
  · exact .of_notRefused rfl

/-- An attach that finds the arbiter closed after it has claimed a slot gives the slot back. -/
theorem failsAs_claim (tag : Tag) (bind : Race) : (w.claim a c tag bind).FailsAs (w, []) := by
  unfold claim
  split
  · exact .of_reply (List.forall_mem_nil _)
  · split
    · exact .of_reply (List.forall_mem_nil _)
    · rename_i slot claimed hclaim
      split
      · rw [Arbiter.giveBack_of_claim? hclaim, setArbiter_arbiter]
        exact .of_reply (by simp [Event.notice?])
      · exact .of_grants rfl

theorem failsAs_attach (tag : Tag) (lock bind : Race) :
    (w.attach a c tag lock bind).FailsAs (w.lockRace (.attach a c tag lock bind)) := by
  unfold attach
  simp only [lockRace]
  split
  · exact .of_reply (List.forall_mem_nil _)
  · rintro effect ⟨⟩ hrefused
    rename_i callee rest hcallee hrest
    obtain rfl := hcallee.unique (w.ends_beginRace .lock lock)
    obtain ⟨hworld, quiet, hevents, hquiet⟩ := failsAs_claim _ tag bind rest hrest hrefused
    exact ⟨hworld, quiet, by simp [hevents], hquiet⟩

/-- An action that is refused leaves behind what its lock race does, if it has one. -/
theorem failsAs_perform (action : Action) : (w.perform action).FailsAs (w.lockRace action) := by
  cases action with
  | build q s capacity => exact w.failsAs_whenThere (w.failsAs_build _ _ _)
  | attach a c tag lock bind => exact w.failsAs_whenThere (w.failsAs_attach _ _ _)
  | detach a c => exact w.failsAs_whenThere w.failsAs_detach
  | tryRelease a => exact w.failsAs_whenThere w.failsAs_tryRelease
  | detachAll a => exact w.failsAs_whenThere (.of_notRefused (w.notRefused_detachSlots ..))
  | request a index =>
    simp only [perform]
    split
    · exact .of_notRefused rfl
    · exact w.failsAs_whenThere (.of_notRefused rfl)
  | dispatch | runJob | enqueue | enqueueArbiter | info | length | isEmpty =>
    exact w.failsAs_whenThere (.of_notRefused rfl)
  | tag a index =>
    simp only [perform]
    split
    · exact .of_notRefused rfl
    · exact w.failsAs_whenThere (.of_notRefused rfl)
  | notify c => exact .of_notRefused (w.notRefused_useHeld fun _ => rfl)
  | complete c payload | fail c fault =>
    exact .of_notRefused (w.notRefused_useHeld fun _ => w.notRefused_useDelivery _ _ rfl)
  | handleNotify h => exact .of_notRefused (w.notRefused_useListed fun _ => rfl)
  | handleComplete h payload | handleFail h fault =>
    exact .of_notRefused (w.notRefused_useListed fun _ => w.notRefused_useDelivery _ _ rfl)
  | showNotifier h | showDelivery h => exact .of_notRefused (w.notRefused_useListed fun _ => rfl)
  | reserve q =>
    apply w.failsAs_whenThere
    split <;> exact .of_notRefused rfl
  | reserved q =>
    apply w.failsAs_whenThere
    cases (w.queue q).reserved? <;> exact .of_notRefused rfl
  | runNext q =>
    apply w.failsAs_whenThere
    unfold runNext
    split <;> exact .of_notRefused rfl
  | runPending q | drain q => exact w.failsAs_whenThere (.of_notRefused (w.notRefused_drain ..))
  | unknown name => exact .of_notRefused rfl

end World

/-! ## Main result -/

/-- The actions that ask for service. -/
def Action.isRequest : Action → Bool
  | .request .. | .notify _ | .handleNotify _ => true
  | _ => false

/-- The action is refused, or is a request of a slot that is beyond the capacity or free. -/
inductive World.Fails (w : World) (action : Action) : Prop
  | refused {refusal : Refusal} (h : (w.act action).reply = .refused refusal)
  | ignored (hrequest : action.isRequest = true) (hnot : ∀ handle ∈ w.asked? action,
      (w.arbiter handle.arbiter).accepts handle.slot = false)

namespace World

variable {w : World} {action : Action}

/-- A request that its arbiter does not accept does nothing but reply. -/
theorem perform_ignored (hrequest : action.isRequest = true) (hnot : ∀ handle ∈ w.asked? action,
    (w.arbiter handle.arbiter).accepts handle.slot = false) :
    ∃ reply, w.perform action = w.reply reply := by
  have hignored : ∀ handle ∈ w.asked? action, ∀ reply,
      w.useNotifier handle reply = w.reply reply := by
    intro handle hasked reply
    simp [useNotifier, World.request, hnot handle hasked]
  cases action with
  | request a index =>
    simp only [perform]
    split
    · exact ⟨_, rfl⟩
    · rename_i slot hslot
      rw [hignored ⟨a, slot⟩ (by simp [asked?, hslot])]
      cases w.hasArbiter a <;> exact ⟨_, rfl⟩
  | notify c =>
    simp only [perform, useHeld]
    split
    · split
      · exact ⟨_, rfl⟩
      · rename_i handle hheld
        exact ⟨_, hignored handle hheld _⟩
    · exact ⟨_, rfl⟩
  | handleNotify h =>
    cases hlisted : w.notifiers[h]? with
    | none => exact ⟨.skipped, by simp [perform, useListed, hlisted]⟩
    | some handle =>
      refine ⟨.nothing, ?_⟩
      simpa [perform, useListed, hlisted] using hignored handle (by simp [asked?, hlisted]) .nothing
  | _ => cases hrequest

theorem lockRace_of_isRequest (hrequest : action.isRequest = true) :
    w.lockRace action = (w, []) := by
  cases action with
  | request | notify | handleNotify => rfl
  | _ => cases hrequest

theorem Fails.noMoreThan (h : w.Fails action) : (w.act action).NoMoreThan (w.lockRace action) := by
  cases h with
  | refused h => exact w.failsAs_perform action _ (w.ends_act action) (by rw [h]; rfl)
  | ignored hrequest hnot =>
    obtain ⟨reply, hperform⟩ := perform_ignored hrequest hnot
    have hends : (w.perform action).Ends ⟨w, reply, []⟩ := hperform ▸ .reply ..
    rw [act_of_ends hends, lockRace_of_isRequest hrequest]
    exact ⟨rfl, [], rfl, List.forall_mem_nil _⟩

end World

namespace Machine

/-- An action that fails, wherever it is performed, leaves the world as it was and calls nobody. If
it is an attach that others have overtaken in its race, it leaves the world as they alone do, and
only what they do can be noticed. -/
theorem failing_action_changes_nothing {m : Machine} {action : Action}
    (hcall : m.control = .call (.perform action)) (hfails : m.world.Fails action) :
    ∃ n quiet, (∀ e ∈ quiet, Event.notice? e = none) ∧
      m.after n = ⟨(m.world.lockRace action).1, .back (m.world.act action).reply, m.stack,
        quiet ++ (m.world.lockRace action).2.reverse ++ m.trace⟩ := by
  obtain ⟨hworld, quiet, hevents, hquiet⟩ := hfails.noMoreThan
  obtain ⟨n, hn⟩ := after_perform hcall
  refine ⟨n, quiet.reverse, fun e he => hquiet e (List.mem_reverse.1 he), ?_⟩
  rw [hn, hworld, hevents, List.reverse_append]

/-- The arbiter is released in the race of an attach, which has to give its slot back. -/
theorem failing_action_changes_nothing_released :
    let built := (World.playground.act (.build 0 0 none)).world
    let m := start built (.attach 0 0 ⟨7⟩ (some [.tryRelease 0]) none)
    ((built.act (.tryRelease 0)).world.arbiter 0).closed = true ∧
      ∃ n quiet, (∀ e ∈ quiet, Event.notice? e = none) ∧
        m.after n = ⟨(built.act (.tryRelease 0)).world, .back (.refused .closed), [],
          quiet ++ [.did "try_release" .released, .released 0, .race .lock]⟩ := by
  intro built m
  have hcall : m.control = .call (.perform (.attach 0 0 ⟨7⟩ (some [.tryRelease 0]) none)) := rfl
  have hreply : (built.act (.attach 0 0 ⟨7⟩ (some [.tryRelease 0]) none)).reply =
      .refused .closed := by decide +kernel
  have hrace : built.lockRace (.attach 0 0 ⟨7⟩ (some [.tryRelease 0]) none) =
      ((built.act (.tryRelease 0)).world,
        [.race .lock, .released 0, .did "try_release" .released]) := by
    have hopen : (built.arbiter 0).closed = false := by decide +kernel
    have hevents : (built.act (.tryRelease 0)).events = [.released 0] := by decide +kernel
    have hreleased : (built.act (.tryRelease 0)).reply = .released := by decide +kernel
    simp [World.lockRace, World.actRace, World.actAll, hopen, hevents, hreleased, Action.name]
  obtain ⟨n, quiet, hquiet, hn⟩ := failing_action_changes_nothing hcall (.refused hreply)
  refine ⟨by decide +kernel, n, quiet, hquiet, hn.trans ?_⟩
  have hworld : m.world = built := rfl
  rw [hworld, hreply, hrace]
  simp [m, start]

end Machine

end SharedBus
