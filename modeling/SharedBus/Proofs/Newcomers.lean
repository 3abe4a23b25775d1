import SharedBus.Proofs.Deed.Origin
import SharedBus.Proofs.Errand.Holding

/-! # Who gets onto an arbiter

A client gets onto an arbiter by an attach that names it, and by nothing else. The attach was not
skipped, so the client is there; and where no attach starts, nobody comes.
-/
namespace SharedBus

/-- The client that an attach on the arbiter is about to bind. -/
def Activation.joining? (a : ArbiterId) : Activation → Option ClientId
  | .claim b c _ _ | .bind b c _ _ => if b = a then some c else none
  | _ => none

open Machine

section
variable {a : ArbiterId} {m m' : Machine} {new : List Event} {f : Activation} {c : ClientId}

theorem Activation.isOf_of_joining? (h : f.joining? a = some c) : f.isOf a = true := by
  cases f <;> simp_all [joining?, isOf]

/-- Whoever is about to be bound was so before, or an attach of it starts. -/
theorem Deed.joining (h : Deed a m m' new) (hf : f ∈ m'.stack) (hc : f.joining? a = some c) :
    (∃ g ∈ m.stack, g.joining? a = some c) ∨ m.attach? = some a ∧ m.world.hasClient c := by
  have hfollows : ∀ {next : Next} {stack : List Activation}, (∀ g ∈ stack, g ∈ m.stack) →
      (∀ g ∈ next.waiting?, g.joining? a = none) → m'.Follows next stack →
        ∃ g ∈ m.stack, g.joining? a = some c := by
    intro next stack hstack hwaiting hnext
    rcases hnext.mem_stack hf with hold | hnew
    · exact ⟨f, hstack f hold, hc⟩
    · cases (hwaiting f hnew).symm.trans hc
  have hrest : ∀ {g : Activation} {rest : List Activation}, m.stack = g :: rest →
      ∀ f ∈ rest, f ∈ m.stack := fun hstack f hmem => hstack ▸ List.mem_cons_of_mem _ hmem
  cases h with
  | quiet h => exact .inl ⟨f, h.mem_stack (Activation.isOf_of_joining? hc) hf, hc⟩
  | attach hcall hthere _ _ hnext =>
    rcases hnext.mem_stack hf with hold | hnew
    · exact .inl ⟨f, hold, hc⟩
    · obtain rfl := Option.some.inj hnew
      simp only [Activation.joining?, if_true, Option.some.injEq] at hc
      subst hc
      refine .inr ⟨hthere, ?_⟩
      simp only [attach?, hcall] at hthere
      split at hthere
      · rename_i hboth
        exact (Bool.and_eq_true_iff.1 hboth).2
      · cases hthere
  | claim _ hstack _ _ _ _ hnext =>
    -- the attach has claimed a slot and goes on for the same client
    rcases hnext.mem_stack hf with hold | hnew
    · exact .inl ⟨f, hrest hstack f hold, hc⟩
    · obtain rfl := Option.some.inj hnew
      exact .inl ⟨.claim a _ _ _, hstack ▸ List.mem_cons_self, hc⟩
  | build _ _ _ _ hnext | release _ _ _ hnext | request _ _ _ _ hnext | job _ _ hnext
  | owner _ _ _ hnext | skipTurn _ _ _ hnext | detach _ _ _ hnext | beginTurn _ _ _ hnext =>
    exact .inl (hfollows (fun _ h => h) (by simp [Activation.joining?]) hnext)
  | refuse _ hstack _ _ hnext | bind _ hstack _ hnext | uninstall _ hstack _ _ hnext
  | mark _ hstack _ _ hnext | endPass _ hstack _ hnext | endTurn _ hstack _ hnext =>
    exact .inl (hfollows (hrest hstack) (by simp [Activation.joining?]) hnext)
  | @serve _ _ _ _ stage hserves _ hnext =>
    refine .inl (hfollows (fun _ h => hserves.suffix.mem h) ?_ hnext)
    cases stage <;> simp [Stage.next, Activation.joining?]
  | @reclaim _ _ _ stage _ hstack _ hnext =>
    refine .inl (hfollows (hrest hstack) ?_ hnext)
    cases stage <;> simp [Stage.next, Activation.joining?]

end

namespace Machine

variable {a : ArbiterId} {m m' : Machine} {new : List Event} {P : Machine → Prop}

/-- Nobody is about to be bound. -/
def Shut (a : ArbiterId) (m : Machine) : Prop := ∀ f ∈ m.stack, f.joining? a = none

theorem Shut.deed (hm : m.Shut a) (hdeed : Deed a m m' new) (hattach : m.attach? ≠ some a) :
    m'.Shut a := by
  intro f hf
  refine Option.eq_none_iff_forall_ne_some.2 fun c hc => ?_
  obtain ⟨g, hg, hjoining⟩ := (hdeed.joining hf hc).resolve_right fun h => hattach h.1
  cases (hm g hg).symm.trans hjoining

theorem Shut.not_bound (hm : m.Shut a) (hdeed : Deed a m m' new) (slot : SlotId) (b : Binding) :
    .bound a slot b ∉ new := by
  intro hmem
  obtain ⟨_, _, _, hstack⟩ := hdeed.origin hmem (by simp [Event.isOf])
  have hnone : (Activation.bind a b.client b.tag slot).joining? a = none :=
    hm _ (hstack ▸ List.mem_cons_self)
  simp [Activation.joining?] at hnone

/-- Whoever is bound to a slot, or is about to be, is there. -/
structure Peopled (a : ArbiterId) (m : Machine) : Prop where
  client : ∀ slot c, (m.books a).client? slot = some c → m.world.hasClient c
  joining : ∀ f ∈ m.stack, ∀ c, f.joining? a = some c → m.world.hasClient c

theorem Goes.hasClient (h : Goes m m') (c : ClientId) :
    m'.world.hasClient c = m.world.hasClient c := by
  -- everybody takes notifiers
  have hreceives : ∀ w : World, w.receives c .notifier = w.hasClient c := fun w => Bool.and_true _
  obtain ⟨_, herrand, _⟩ := h.errand
  rw [← hreceives, herrand.handover.receives, hreceives]

theorem Reachable.peopled (h : Reachable P m) : m.Peopled a := by
  refine h.induction (fun w hw => ⟨fun slot c hclient => ?_, fun _ hmem => ?_⟩)
    fun m m' hm _ hgoes ih => ?_
  · simp [books_rest hw, default, Arbiter.client?] at hclient
  · cases hmem
  · obtain ⟨new, hdeed, _⟩ := hgoes.deed (a := a) hm.placed
    constructor
    · intro slot c hclient
      rw [hgoes.hasClient]
      rcases hdeed.binding slot with hsame | ⟨b, hbound, hwritten⟩ | ⟨_, hnone⟩
      · exact ih.client slot c (by rwa [Arbiter.client?, ← hsame])
      · obtain ⟨_, _, _, hstack⟩ := hdeed.origin hbound (by simp [Event.isOf])
        have hc : b.client = c := by simpa [Arbiter.client?, hwritten] using hclient
        exact ih.joining _ (hstack ▸ List.mem_cons_self) c (by simp [Activation.joining?, hc])
      · simp [Arbiter.client?, hnone] at hclient
    · intro f hf c hc
      rw [hgoes.hasClient]
      rcases hdeed.joining hf hc with ⟨g, hg, hjoining⟩ | ⟨_, hthere⟩
      · exact ih.joining g hg c hjoining
      · exact hthere

end Machine

end SharedBus
