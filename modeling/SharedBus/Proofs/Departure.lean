import SharedBus.Proofs.Deed.Origin
import SharedBus.Proofs.Sound.Step

/-! # No client loses its slot but by its own detach

A slot is marked for the client that a detach has found in it, and only marked slots are given back.
Both is true as long as no pass runs while that client returns its handles: a pass might give the
slot back in the meantime, and the detach would go on to mark it for whoever came next.
-/
namespace SharedBus

/-- Detach was called for the client and has found it in the slot, and the slot has not been bound
since. -/
def Dismissed (a : ArbiterId) (slot : SlotId) (c : ClientId) (trace : List Event) : Prop :=
  ∃ newer older, trace = newer ++ .detaching a slot c :: older ∧ ∀ b, .bound a slot b ∉ newer

theorem Dismissed.append {a : ArbiterId} {slot : SlotId} {c : ClientId} {trace new : List Event}
    (h : Dismissed a slot c trace) (hnew : ∀ b, .bound a slot b ∉ new) :
    Dismissed a slot c (new ++ trace) := by
  obtain ⟨newer, older, rfl, hnewer⟩ := h
  refine ⟨new ++ newer, older, by rw [List.append_assoc], fun b hmem => ?_⟩
  exact (List.mem_append.1 hmem).elim (hnew b) (hnewer b)

namespace Machine

variable {a : ArbiterId} {m m' : Machine} {slot : SlotId} {c : ClientId} {new : List Event}
  {P : Machine → Prop}

/-- The slot is on its way out: it is marked, or withdrawn and not free yet. -/
def Leaving (a : ArbiterId) (slot : SlotId) (m : Machine) : Prop :=
  slot ∈ (m.books a).detaching ∨ .reclaim a slot ∈ m.stack

theorem Leaving.of_deed (h : m'.Leaving a slot) (hdeed : Deed a m m' new) :
    m.Leaving a slot ∨ ∃ c, .marked a slot c ∈ new := by
  rcases h with hmarked | hreclaim
  · exact (hdeed.detaching hmarked).imp_left .inl
  · rcases hdeed.pushed hreclaim (by simp [Activation.isOf]) with hold | hnew
    · exact .inl (.inr hold)
    · have horigin := hdeed.origin hnew (by simp [Event.isOf])
      exact .inl (.inl horigin.1)

theorem Sound.binding_of_leaving (hm : m.Sound a) (hsweeping : ¬ m.Sweeping a)
    (h : m.Leaving a slot) : (m.books a).binding slot ≠ none := by
  have hstrict := hm.strict hsweeping
  rcases h with hmarked | hreclaim
  · exact (hstrict.detaching slot hmarked).resolve_right fun h => h.1
  · have hframe : .reclaim a slot ∈ m.frames a := mem_frames.2 ⟨hreclaim, by simp [Activation.isOf]⟩
    exact (hstrict.reclaim slot hframe).resolve_right fun h => h.1

theorem Sound.client?_of_uninstall (hm : m.Sound a) {kind : HandleKind}
    (h : .uninstall a c slot kind ∈ m.stack) : (m.books a).client? slot = some c :=
  hm.books.held _ (mem_frames.2 ⟨h, by simp [Activation.isOf]⟩) (slot, c) rfl

/-- A detach marks the slot of its own client. -/
theorem Sound.client?_of_marked (hm : m.Sound a) (hdeed : Deed a m m' new)
    (h : .marked a slot c ∈ new) : (m.books a).client? slot = some c := by
  obtain ⟨_, _, _, _, hstack, _⟩ := hdeed.origin h (by simp [Event.isOf])
  exact hm.client?_of_uninstall (hstack ▸ List.mem_cons_self)

/-- Only unbound slots are bound. -/
theorem Sound.binding_of_bound (hm : m.Sound a) (hdeed : Deed a m m' new) {b : Binding}
    (h : .bound a slot b ∈ new) : ¬ m.Sweeping a ∧ (m.books a).binding slot = none := by
  obtain ⟨_, _, _, hstack⟩ := hdeed.origin h (by simp [Event.isOf])
  have hframe := mem_frames_of_stack (a := a) hstack (by simp [Activation.isOf])
  exact ⟨not_sweeping_of_stack hstack (by simp), (hm.books.claimed _ hframe slot rfl).2⟩

theorem Sound.not_bound (hm : m.Sound a) (hdeed : Deed a m m' new)
    (h : (m.books a).client? slot = some c) (b : Binding) : .bound a slot b ∉ new :=
  fun hmem => Arbiter.binding_ne_none_of_client? h (hm.binding_of_bound hdeed hmem).2

/-- Whoever is on its way out was dismissed. -/
structure Accounted (a : ArbiterId) (m : Machine) : Prop where
  leaving : ∀ slot c, m.Leaving a slot → (m.books a).client? slot = some c →
    Dismissed a slot c m.trace
  uninstall : ∀ slot c kind, .uninstall a c slot kind ∈ m.stack → Dismissed a slot c m.trace

end Machine

open Machine

theorem Deed.accounted {a : ArbiterId} {m m' : Machine} {new : List Event} (h : Deed a m m' new)
    (htrace : m'.trace = new ++ m.trace) (hsound : m.Sound a) (hm : m.Accounted a) :
    m'.Accounted a := by
  constructor
  · intro slot c hleaving hclient
    rw [htrace]
    rcases h.binding slot with hsame | ⟨b, hbound, _⟩ | ⟨_, hnone⟩
    · rw [Arbiter.client?, hsame] at hclient
      have hbound := hsound.not_bound h hclient
      rcases hleaving.of_deed h with hold | ⟨c', hmarked⟩
      · exact (hm.leaving slot c hold hclient).append hbound
      · -- the detach that marks the slot has found the client in it
        obtain rfl : c' = c :=
          Option.some.inj ((hsound.client?_of_marked h hmarked).symm.trans hclient)
        obtain ⟨_, _, _, _, hstack, _⟩ := h.origin hmarked (by simp [Event.isOf])
        exact (hm.uninstall slot c' _ (hstack ▸ List.mem_cons_self)).append hbound
    · obtain ⟨hsweeping, hunbound⟩ := hsound.binding_of_bound h hbound
      rcases hleaving.of_deed h with hold | ⟨c', hmarked⟩
      · exact absurd hunbound (hsound.binding_of_leaving hsweeping hold)
      · have hold := hsound.client?_of_marked h hmarked
        exact absurd hunbound (Arbiter.binding_ne_none_of_client? hold)
    · simp [Arbiter.client?, hnone] at hclient
  · intro slot c kind hmem
    rw [htrace]
    have hkeep : ∀ {kind}, .uninstall a c slot kind ∈ m.stack →
        Dismissed a slot c (new ++ m.trace) := fun hold =>
      (hm.uninstall slot c _ hold).append (hsound.not_bound h (hsound.client?_of_uninstall hold))
    rcases h.pushed hmem (by simp [Activation.isOf]) with hold | rfl | ⟨_, hold⟩
    · exact hkeep hold
    · exact ⟨[], m.trace, rfl, by simp⟩
    · exact hkeep hold

namespace Machine

variable {a : ArbiterId} {m m' : Machine} {slot : SlotId} {c : ClientId} {new : List Event}
  {P : Machine → Prop}

theorem Reachable.accounted (hP : ∀ m, P m → m.PassesAlone) (h : Reachable P m) :
    m.Accounted a := by
  refine h.deed_induction (fun w hw => ⟨fun slot c _ hclient => ?_, fun _ _ _ hmem => ?_⟩)
    fun m m' _ hm _ hdeed htrace ih => hdeed.accounted htrace (hm.sound hP) ih
  · simp [books_rest hw, default, Arbiter.client?] at hclient
  · cases hmem

/-! ## Main result -/

/-- A client loses its slot only when a pass frees it, and that only after a detach of the client
has found it there since it was bound. A detach marks no slot but an occupied one that is bound to
its client. -/
theorem slot_lost_only_by_own_detach (hm : Reachable PassesAlone m) (hgoes : Goes m m')
    (htrace : m'.trace = new ++ m.trace) (a : ArbiterId) (slot : SlotId) (c : ClientId) :
    ((m.books a).client? slot = some c → (m'.books a).client? slot ≠ some c →
      .freed a slot ∈ new ∧ Dismissed a slot c m.trace) ∧
    (.marked a slot c ∈ new →
      slot ∈ (m.books a).occupied ∧ (m.books a).client? slot = some c) := by
  obtain ⟨_, hdeed, hnew⟩ := hgoes.deed (a := a) hm.placed
  obtain rfl := List.append_cancel_right (htrace.symm.trans hnew)
  have hsound : m.Sound a := hm.sound fun _ h => h
  constructor
  · intro hclient hlost
    rcases hdeed.binding slot with hsame | ⟨b, hbound, _⟩ | ⟨hfreed, _⟩
    · rw [Arbiter.client?, hsame] at hlost
      exact absurd hclient hlost
    · exact absurd hbound (hsound.not_bound hdeed hclient b)
    · obtain ⟨_, _, hstack, _⟩ := hdeed.origin hfreed (by simp [Event.isOf])
      have hleaving : m.Leaving a slot := .inr (hstack ▸ List.mem_cons_self)
      exact ⟨hfreed, (hm.accounted fun _ h => h).leaving slot c hleaving hclient⟩
  · intro hmarked
    have hclient := hsound.client?_of_marked hdeed hmarked
    exact ⟨hsound.books.occupied slot (Arbiter.binding_ne_none_of_client? hclient), hclient⟩

/-- The pass that frees the slot of a detached client. -/
theorem slot_lost_only_by_own_detach_freed :
    let m := play 39 [.build 0 0 (some 1), .attach 0 0 ⟨7⟩ none none, .detach 0 0, .runPending 0]
      (rest .playground)
    (m.books 0).client? 0 = some 0 ∧ (m.step.books 0).client? 0 = none ∧
      Dismissed 0 0 0 m.trace := by
  intro m
  have hm : Reachable PassesAlone m := .of_plays World.isInitial_playground 39 _ (by decide +kernel)
  have hgoes : Goes m m.step := .step (by decide +kernel)
  have hclient : (m.books 0).client? 0 = some 0 := by decide +kernel
  have hnone : (m.step.books 0).client? 0 = none := by decide +kernel
  obtain ⟨new, htrace⟩ := hgoes.trace
  obtain ⟨hlost, _⟩ := slot_lost_only_by_own_detach hm hgoes htrace 0 0 0
  exact ⟨hclient, hnone, (hlost hclient (by simp [hnone])).2⟩

end Machine

/-- A world whose first client, while it returns the notifier for the second time, is detached once
more, has its slot freed and lets the other client have it. -/
def World.overtaking : World where
  queues := [{ bound := some 2 }]
  consumers := [{}]
  clients := [{ hooks := {
    notifier := [[], [.detach 0 0, .dispatch 0 none, .attach 0 1 ⟨8⟩ none none]]
    completion := []
    error := [] } }, {}]

theorem World.isInitial_overtaking : World.overtaking.IsInitial where
  arbiters := rfl
  queues := by simp [overtaking]
  clients := by simp [overtaking]
  notifiers := rfl
  deliveries := rfl

namespace Machine

/-- It is not enough that passes and attaches keep apart among themselves. A pass and an attach can
overtake a detach; that then marks the slot of another client, who loses it undetached. -/
theorem overtaken_detach_takes_slot_of_other :
    let actions : List Action :=
      [.build 0 0 (some 1), .attach 0 0 ⟨7⟩ none none, .detach 0 0, .runPending 0]
    let marking := play 75 actions (rest .overtaking)
    let freeing := play 81 actions (rest .overtaking)
    Reachable (fun m => m.PassesApart ∧ m.AttachesApart) freeing.step ∧
      (marking.books 0).client? 0 = some 1 ∧
      marking.step.trace = .marked 0 0 0 :: marking.trace ∧
      (freeing.books 0).client? 0 = some 1 ∧ (freeing.step.books 0).client? 0 = none ∧
      ∀ slot, .detaching 0 slot 1 ∉ freeing.trace := by
  intro actions marking freeing
  have hfreeing : Reachable (fun m => m.PassesApart ∧ m.AttachesApart) freeing.step :=
    .of_plays World.isInitial_overtaking 82 actions (by decide +kernel)
  refine ⟨hfreeing, ?_, ?_, ?_, ?_, ?_⟩ <;> decide +kernel

end Machine

end SharedBus
