import SharedBus.Proofs.Run
import SharedBus.Proofs.World

/-! # Disciplines

The rules that users of an arbiter may be asked to keep. Each is checked where something starts: a
pass, an attach or a request, against the activations that wait for it.
-/
namespace SharedBus

namespace Activation

/-- A pass of the arbiter in progress. -/
def isPass (a : ArbiterId) : Activation → Bool
  | .owner b _ | .serve b _ _ | .reclaim b _ | .idle b => b == a
  | _ => false

/-- A detach on the arbiter that has found its slot and has not marked it. -/
def isUninstall (a : ArbiterId) : Activation → Bool
  | .uninstall b _ _ _ => b == a
  | _ => false

/-- An attach on the arbiter that has claimed a slot and has not bound it. -/
def isBind (a : ArbiterId) : Activation → Bool
  | .bind b _ _ _ => b == a
  | _ => false

/-- An attach of the client to the arbiter that has bound it and is giving out handles. -/
def isInstall (a : ArbiterId) (c : ClientId) : Activation → Bool
  | .install b d _ _ => b == a && d == c
  | _ => false

/-- A pass of the arbiter that has withdrawn the slot and has not freed it. -/
def isReclaim (a : ArbiterId) (slot : SlotId) : Activation → Bool
  | .reclaim b s => b == a && s == slot
  | _ => false

end Activation

/-- The handle with which an action asks for service. -/
def World.asked? (w : World) : Action → Option Handle
  | .request a index => (SlotId.ofIndex? index).map (⟨a, ·⟩)
  | .notify c => (w.client c).handles.notifier
  | .handleNotify h => w.notifiers[h]?
  | _ => none

namespace Machine

/-- The action that is about to be performed. -/
def action? (m : Machine) : Option Action :=
  match m.control with
  | .call (.perform action) => some action
  | _ => none

/-- The arbiter of which a pass is about to start. -/
def pass? (m : Machine) : Option ArbiterId :=
  match m.control with
  | .call (.pass a _) => some a
  | _ => none

/-- The arbiter on which an attach is about to start. -/
def attach? (m : Machine) : Option ArbiterId :=
  match m.control with
  | .call (.perform (.attach a c _ _ _)) =>
    if m.world.hasArbiter a && m.world.hasClient c then some a else none
  | _ => none

/-- The client that an arbiter is about to be asked to detach. -/
def detach? (m : Machine) : Option (ArbiterId × ClientId) :=
  match m.control with
  | .call (.perform (.detach a c)) =>
    if m.world.hasArbiter a && m.world.hasClient c then some (a, c) else none
  | _ => none

/-- The slot of which a request is about to be made that its arbiter accepts. -/
def request? (m : Machine) : Option Handle :=
  match m.control with
  | .call (.perform action) =>
    (m.world.asked? action).filter fun handle =>
      (m.world.arbiter handle.arbiter).accepts handle.slot
  | _ => none

/-- No pass of an arbiter starts while another one is in progress. -/
def PassesApart (m : Machine) : Prop := ∀ a ∈ m.pass?, ∀ f ∈ m.stack, f.isPass a = false

/-- No pass of an arbiter starts while clients give their handles back in one of its detaches. -/
def DetachesApart (m : Machine) : Prop := ∀ a ∈ m.pass?, ∀ f ∈ m.stack, f.isUninstall a = false

/-- No attach starts between the claim and the bind of another one on the same arbiter. -/
def AttachesApart (m : Machine) : Prop := ∀ a ∈ m.attach?, ∀ f ∈ m.stack, f.isBind a = false

/-- No client is detached while an attach of it to the same arbiter is giving out handles. -/
def GrantsApart (m : Machine) : Prop :=
  ∀ p ∈ m.detach?, ∀ f ∈ m.stack, f.isInstall p.1 p.2 = false

/-- Nobody requests service for a slot between its withdrawal and its release by a pass. -/
def ReclaimsApart (m : Machine) : Prop :=
  ∀ handle ∈ m.request?, ∀ f ∈ m.stack, f.isReclaim handle.arbiter handle.slot = false

instance : DecidablePred PassesApart := fun m =>
  inferInstanceAs (Decidable (∀ a ∈ m.pass?, ∀ f ∈ m.stack, f.isPass a = false))

instance : DecidablePred DetachesApart := fun m =>
  inferInstanceAs (Decidable (∀ a ∈ m.pass?, ∀ f ∈ m.stack, f.isUninstall a = false))

instance : DecidablePred AttachesApart := fun m =>
  inferInstanceAs (Decidable (∀ a ∈ m.attach?, ∀ f ∈ m.stack, f.isBind a = false))

instance : DecidablePred GrantsApart := fun m =>
  inferInstanceAs (Decidable (∀ p ∈ m.detach?, ∀ f ∈ m.stack, f.isInstall p.1 p.2 = false))

instance : DecidablePred ReclaimsApart := fun m =>
  inferInstanceAs (Decidable (∀ handle ∈ m.request?, ∀ f ∈ m.stack,
    f.isReclaim handle.arbiter handle.slot = false))

theorem pass?_of_control {m : Machine} {a : ArbiterId} {race : Race}
    (h : m.control = .call (.pass a race)) : m.pass? = some a := by
  simp [pass?, h]

/-- An attach that is about to start is not skipped. -/
theorem perform_of_attach? {m : Machine} {a : ArbiterId} (h : m.attach? = some a) :
    ∃ c tag lock bind, m.control = .call (.perform (.attach a c tag lock bind)) ∧
      m.world.perform (.attach a c tag lock bind) = m.world.attach a c tag lock bind := by
  unfold attach? at h
  split at h
  · rename_i hcall
    split at h
    · rename_i hthere
      cases h
      exact ⟨_, _, _, _, hcall, if_pos hthere⟩
    · cases h
  · cases h

/-- A detach that is about to start is not skipped. -/
theorem perform_of_detach? {m : Machine} {a : ArbiterId} {c : ClientId}
    (h : m.detach? = some (a, c)) : m.control = .call (.perform (.detach a c)) ∧
      m.world.perform (.detach a c) = m.world.detach a c := by
  unfold detach? at h
  split at h
  · rename_i hcall
    split at h
    · rename_i hthere
      cases h
      exact ⟨hcall, if_pos hthere⟩
    · cases h
  · cases h

/-- Whichever action asks for service, the request is accepted at once. -/
theorem perform_of_request? {m : Machine} {handle : Handle} (h : m.request? = some handle) :
    (m.world.arbiter handle.arbiter).accepts handle.slot = true ∧ ∃ action reply,
      m.control = .call (.perform action) ∧
        m.world.perform action = m.world.useNotifier handle reply := by
  unfold request? at h
  split at h
  · rename_i action hcall
    obtain ⟨hasked, haccepts⟩ := Option.filter_eq_some_iff.1 h
    refine ⟨haccepts, action, ?_⟩
    cases action with
    | request b index =>
      obtain ⟨slot, hslot, rfl⟩ := Option.map_eq_some_iff.1 hasked
      have hthere : m.world.hasArbiter b = true := by
        simpa [World.hasArbiter] using World.lt_length_of_accepts haccepts
      exact ⟨.nothing, hcall, by simp [World.perform, hslot, World.whenThere, hthere]⟩
    | notify c =>
      have hthere : m.world.hasClient c = true := by
        rcases Nat.lt_or_ge c m.world.clients.length with hlt | hge
        · simpa [World.hasClient] using hlt
        · have hnone : m.world.client c = default := by
            simp [World.client, List.getElem?_eq_none hge]
          simp [World.asked?, hnone, default, PerKind.all] at hasked
      have hheld : (m.world.client c).handles.get .notifier = some handle := hasked
      exact ⟨.flag true, hcall, by simp [World.perform, World.useHeld, hthere, hheld]⟩
    | handleNotify index =>
      have hlisted : m.world.notifiers[index]? = some handle := hasked
      exact ⟨.nothing, hcall, by simp [World.perform, World.useListed, hlisted]⟩
    | _ => cases hasked
  · cases h

end Machine

end SharedBus
