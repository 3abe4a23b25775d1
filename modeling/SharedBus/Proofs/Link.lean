import SharedBus.Proofs.Run
import SharedBus.Proofs.World

/-! # Turns and those who wait for them

A pass gives a turn and waits for it, and nothing else does. So the activation right below a turn is
the pass that gave it, and what a pass waiting for a turn gets back is the answer of that turn.
-/
namespace SharedBus

/-- The turn that a call is. -/
@[simp] def Call.turn? : Call → Option (ArbiterId × SlotId)
  | .turn a slot => some (a, slot)
  | _ => none

namespace Activation

/-- The turn that an activation belongs to. -/
@[simp] def turn? : Activation → Option (ArbiterId × SlotId)
  | .turn a slot _ _ => some (a, slot)
  | _ => none

/-- Whether the activation can wait for this turn, or for something that is no turn. The owner's
slot is not written down, so the slot of its turn is left open. -/
@[simp] def Awaits (turn : Option (ArbiterId × SlotId)) : Activation → Prop
  | .owner a _ => ∃ slot, turn = some (a, slot)
  | .serve a slot _ => turn = some (a, slot)
  | _ => turn = none

end Activation

/-- Each activation waits for the one above it; `turn` is what the topmost one waits for. -/
def LinkedStack (turn : Option (ArbiterId × SlotId)) : List Activation → Prop
  | [] => turn = none
  | f :: rest => f.Awaits turn ∧ LinkedStack f.turn? rest

/-- What comes next of a callee that is, or is not, a turn. -/
@[simp] def Next.Links (turn : Option (ArbiterId × SlotId)) : Next → Prop
  | .reply back => turn ≠ none → ∃ answer, back = .turn answer
  | .call callee waiting => waiting.Awaits callee.turn? ∧ waiting.turn? = turn

namespace World

variable (w : World)

private theorem links_whenThere {there : Bool} {outcome : Outcome} (h : outcome.next.Links none) :
    (w.whenThere there outcome).next.Links none := by
  cases there with
  | false => simp [whenThere]
  | true => exact h

private theorem links_detachSlots (a : ArbiterId) (count : Nat) (slots : List SlotId) :
    (w.detachSlots a count slots).next.Links none := by
  induction slots with
  | nil => simp [detachSlots]
  | cons slot rest ih =>
    unfold detachSlots
    split
    · exact ih
    · simp

private theorem links_useDelivery (handle : Handle) (report : Tag → Report) (reply : Reply) :
    (w.useDelivery handle report reply).next.Links none := by
  unfold useDelivery
  split <;> simp

private theorem links_useHeld {c : ClientId} {kind : HandleKind} {use : Handle → Reply → Outcome}
    (h : ∀ handle reply, (use handle reply).next.Links none) :
    (w.useHeld c kind use).next.Links none := by
  unfold useHeld
  split
  · split
    · simp
    · exact h ..
  · simp

private theorem links_useListed {handle : Option Handle} {use : Handle → Reply → Outcome}
    (h : ∀ handle reply, (use handle reply).next.Links none) :
    (w.useListed handle use).next.Links none := by
  cases handle with
  | none => simp [useListed]
  | some handle => exact h ..

private theorem links_serve (a : ArbiterId) (race : Race) (events : List Event) :
    (w.serve a race events).next.Links none := by
  unfold serve
  split
  · simp
  · split
    · simp
    · unfold reclaim endPass
      split
      · simp
      · split <;> simp

private theorem links_drain (q : QueueId) (ran : Nat) (silent : Bool) :
    (w.drain q ran silent).next.Links none := by
  unfold drain
  split <;> simp

private theorem links_continueScript (actions : List Action) (events : List Event) :
    (w.continueScript actions events).next.Links none := by
  cases actions <;>
    simp [continueScript]

theorem links_perform (action : Action) : (w.perform action).next.Links none := by
  have hnotify : ∀ handle reply, (w.useNotifier handle reply).next.Links none := by
    simp [useNotifier]
  cases action with
  | build q s capacity =>
    apply w.links_whenThere
    unfold build
    split
    · simp
    · split <;> simp
  | attach a c tag lock bind =>
    apply w.links_whenThere
    unfold attach
    split <;> simp
  | detach a c =>
    apply w.links_whenThere
    unfold detach
    split <;> simp
  | detachAll a => exact w.links_whenThere (w.links_detachSlots ..)
  | tryRelease a =>
    apply w.links_whenThere
    rw [tryRelease_eq]
    split <;> simp
  | request a index =>
    simp only [perform]
    split
    · simp
    · exact w.links_whenThere (hnotify _ _)
  | tag a index =>
    simp only [perform]
    split
    · simp
    · exact w.links_whenThere (by simp)
  | notify c => exact w.links_useHeld hnotify
  | complete c payload => exact w.links_useHeld fun handle => w.links_useDelivery handle _
  | fail c fault => exact w.links_useHeld fun handle => w.links_useDelivery handle _
  | handleNotify h => exact w.links_useListed hnotify
  | handleComplete h payload => exact w.links_useListed fun handle => w.links_useDelivery handle _
  | handleFail h fault => exact w.links_useListed fun handle => w.links_useDelivery handle _
  | showNotifier h => exact w.links_useListed fun _ _ => by simp
  | showDelivery h => exact w.links_useListed fun _ _ => by simp
  | reserve q =>
    apply w.links_whenThere
    split <;> simp
  | runNext q =>
    apply w.links_whenThere
    unfold runNext
    split <;> simp
  | runPending q => exact w.links_whenThere (w.links_drain ..)
  | drain q => exact w.links_whenThere (w.links_drain ..)
  | unknown name => simp [perform]
  | _ => exact w.links_whenThere (by simp)

theorem links_begin (call : Call) : (w.begin call).next.Links call.turn? := by
  cases call with
  | perform action => exact w.links_perform action
  | script actions => exact w.links_continueScript actions []
  | race point race =>
    cases race <;> simp [begin, beginRace]
  | install c kind handle =>
    simp only [begin, beginInstall]
    split <;> simp
  | turn a slot =>
    simp only [begin, beginTurn]
    split <;> simp
  | pass a race =>
    simp only [begin, beginPass]
    split
    · simp
    · exact w.links_serve ..
  | report a report =>
    simp only [begin, beginReport]
    split <;> simp
  | job job =>
    cases job <;> simp [begin, beginJob]

theorem links_resume (back : Reply) (waiting : Activation) :
    (w.resume back waiting).next.Links waiting.turn? := by
  cases waiting with
  | script action rest => exact w.links_continueScript rest _
  | claim a c tag bind =>
    simp only [resume, claim]
    split
    · simp
    · split
      · simp
      · split <;> simp
  | install a c slot kind =>
    cases kind <;>
      simp [resume, installNext, HandleKind.next?]
  | uninstall a c slot kind =>
    cases kind <;>
      simp [resume, uninstallNext, HandleKind.next?]
  | detachAll a rest count => exact w.links_detachSlots ..
  | owner a race =>
    simp only [resume]
    cases back.answer <;> exact links_serve ..
  | serve a slot race =>
    simp only [resume]
    cases back.answer with
    | done => exact links_serve ..
    | busy =>
      simp only [afterServe]
      split <;> exact links_serve ..
  | reclaim a slot =>
    simp only [resume, afterReclaim, reclaim, endPass]
    split
    · simp
    · split <;> simp
  | drain q ran silent => exact w.links_drain ..
  | _ => simp [resume, bind]

end World

namespace Machine

variable {m m' : Machine}

def Linked (m : Machine) : Prop :=
  match m.control with
  | .call call => LinkedStack call.turn? m.stack
  | .back reply => ∃ turn, LinkedStack turn m.stack ∧ (turn ≠ none → ∃ answer, reply = .turn answer)

theorem linked_follow {outcome : Outcome} {turn : Option (ArbiterId × SlotId)}
    {stack : List Activation} (trace : List Event) (hnext : outcome.next.Links turn)
    (hstack : LinkedStack turn stack) : (follow outcome stack trace).Linked := by
  unfold follow
  split
  · rename_i reply h
    rw [h] at hnext
    exact ⟨turn, hstack, hnext⟩
  · rename_i call waiting h
    rw [h] at hnext
    exact ⟨hnext.1, hnext.2 ▸ hstack⟩

theorem Linked.goes (hm : m.Linked) (h : Goes m m') : m'.Linked := by
  cases h with
  | act => rfl
  | step hfin =>
    obtain ⟨w, control, stack, trace⟩ := m
    cases control with
    | call call => exact linked_follow _ (w.links_begin call) hm
    | back reply =>
      cases stack with
      | nil => simp [isFinished, reply?] at hfin
      | cons f rest =>
        obtain ⟨_, ⟨_, hrest⟩, _⟩ := hm
        exact linked_follow _ (w.links_resume reply f) hrest

theorem Reachable.linked {P : Machine → Prop} (h : Reachable P m) : m.Linked :=
  h.induction (fun _ _ => ⟨none, rfl, fun h => absurd rfl h⟩) fun _ _ _ _ hgoes ih => ih.goes hgoes

end Machine

end SharedBus
