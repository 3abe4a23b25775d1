import SharedBus.Proofs.Sound.Step

/-! # The sets and the bindings of an arbiter agree

Wherever an action starts or ends, each slot is free, or attached and bound to a client of its own,
or claimed by the one attach that is about to bind it; only attached slots ask for the bus, leave or
own it. Users have to keep passes, detaches, attaches and reclaimed slots apart for this.
-/
namespace SharedBus

namespace Activation

/-- An attach on the arbiter that has not bound its slot yet. -/
def isAttach (a : ArbiterId) : Activation → Bool
  | .claim b .. | .bind b .. => b == a
  | _ => false

/-- Waits for an action that it performs itself. -/
def performs : Activation → Bool
  | .script .. | .detachAll .. => true
  | _ => false

end Activation

namespace Machine

variable {a : ArbiterId} {m m' : Machine} {new : List Event}

/-- An action starts or ends. -/
def AtAction (m : Machine) : Prop :=
  (∃ action, m.control = .call (.perform action)) ∨
    ∃ reply, m.control = .back reply ∧
      (m.stack = [] ∨ ∃ f rest, m.stack = f :: rest ∧ f.performs = true)

/-- All that users are asked to keep apart. -/
def Disciplined (m : Machine) : Prop := m.PassesAlone ∧ m.AttachesApart ∧ m.ReclaimsApart

instance : DecidablePred Disciplined := fun m =>
  inferInstanceAs (Decidable (m.PassesAlone ∧ m.AttachesApart ∧ m.ReclaimsApart))

theorem AtAction.not_sweeping (h : m.AtAction) : ¬ m.Sweeping a := by
  rintro ⟨⟨slot, rest, hstack⟩, hcontrol⟩
  rcases h with ⟨action, hcall⟩ | ⟨reply, hback, hnil | ⟨f, rest', hcons, hf⟩⟩
  · rcases hcontrol with hrace | ⟨reply, hback⟩
    · cases hcall.symm.trans hrace
    · cases hcall.symm.trans hback
  · cases hnil.symm.trans hstack
  · obtain ⟨rfl, _⟩ := List.cons.inj (hcons.symm.trans hstack)
    cases hf

/-! ## Requests -/

/-- Only occupied slots are pending, and not those that are about to be free. -/
structure Wanted (a : ArbiterId) (m : Machine) : Prop where
  occupied : ∀ slot ∈ (m.books a).pending, slot ∈ (m.books a).occupied
  not_reclaimed : ∀ slot, .reclaim a slot ∈ m.stack → slot ∉ (m.books a).pending

private theorem Wanted.of_follows {x : Arbiter} {next : Next} {stack : List Activation}
    (hx : ∀ slot ∈ x.pending, slot ∈ x.occupied)
    (hreclaim : ∀ slot, .reclaim a slot ∈ stack → slot ∉ x.pending)
    (hpending : ∀ slot ∈ (m'.books a).pending, slot ∈ x.pending)
    (hoccupied : ∀ slot ∈ x.occupied, slot ∈ (m'.books a).occupied)
    (hwaiting : ∀ slot, .reclaim a slot ∈ next.waiting? → slot ∉ (m'.books a).pending)
    (hnext : m'.Follows next stack) : m'.Wanted a where
  occupied slot hslot := hoccupied slot (hx slot (hpending slot hslot))
  not_reclaimed slot hmem hslot := by
    rcases hnext.mem_stack hmem with hold | hnew
    · exact hreclaim slot hold (hpending slot hslot)
    · exact hwaiting slot hnew hslot

private theorem Wanted.of_stage {x y : Arbiter} {race : Race} {stage : Stage}
    {stack : List Activation} (hx : ∀ slot ∈ x.pending, slot ∈ x.occupied)
    (hreclaim : ∀ slot, .reclaim a slot ∈ stack → slot ∉ x.pending) (hto : x.ReclaimsTo y stage)
    (hy : m'.books a = y) (hnext : m'.Follows (stage.next a race) stack) : m'.Wanted a := by
  cases hto with
  | @reclaim slot _ _ =>
    refine .of_follows hx hreclaim ?_ ?_ ?_ hnext
    · rw [hy]
      exact fun other hother => (SlotSet.mem_erase.1 hother).1
    · rw [hy]
      exact fun _ h => h
    · intro other hother
      obtain ⟨_, rfl⟩ := Activation.reclaim.inj (Option.some.inj hother)
      rw [hy]
      simp [Arbiter.withdraw]
  | idle => exact .of_follows hx hreclaim (by simp [hy]) (by simp [hy]) (by simp [Stage.next]) hnext
  | ended =>
    exact .of_follows hx hreclaim (by simp [hy]) (by simp [hy]) (by simp [Stage.next]) hnext

end Machine

open Machine

theorem Deed.wanted {a : ArbiterId} {m m' : Machine} {new : List Event} (h : Deed a m m' new)
    (hapart : m.ReclaimsApart) (hm : m.Wanted a) : m'.Wanted a := by
  obtain ⟨hoccupied, hreclaimed⟩ := id hm
  have hrest : ∀ {f : Activation} {rest : List Activation}, m.stack = f :: rest →
      ∀ slot, .reclaim a slot ∈ rest → slot ∉ (m.books a).pending :=
    fun hstack slot hmem => hreclaimed slot (hstack ▸ List.mem_cons_of_mem _ hmem)
  cases h with
  | quiet h =>
    refine ⟨by rwa [h.books], fun slot hmem => ?_⟩
    rw [h.books]
    exact hreclaimed slot (h.mem_stack (by simp [Activation.isOf]) hmem)
  | build _ hx' _ _ hnext =>
    refine ⟨fun slot hslot => ?_, fun slot _ hslot => ?_⟩
    · rw [hx'] at hslot
      exact absurd hslot SlotSet.notMem_empty
    · rw [hx'] at hslot
      exact absurd hslot SlotSet.notMem_empty
  | attach _ _ _ hx' hnext | detach _ _ hx' hnext | skipTurn _ _ hx' hnext
  | beginTurn _ _ hx' hnext | release _ _ hx' hnext | job _ hx' hnext =>
    refine .of_follows hoccupied hreclaimed ?_ ?_ (by simp) hnext
    · rw [hx']
      exact fun _ h => h
    · rw [hx']
      exact fun _ h => h
  | refuse _ hstack hx' _ hnext | bind _ hstack hx' hnext | uninstall _ hstack _ hx' hnext
  | mark _ hstack _ hx' hnext | endPass _ hstack hx' hnext | endTurn _ hstack hx' hnext =>
    refine .of_follows hoccupied (hrest hstack) ?_ ?_ (by simp) hnext
    · rw [hx']
      exact fun _ h => h
    · rw [hx']
      exact fun _ h => h
  | claim _ hstack _ _ _ hx' hnext =>
    refine .of_follows hoccupied (hrest hstack) ?_ ?_ (by simp) hnext
    · rw [hx']
      exact fun _ h => h
    · rw [hx']
      intro slot hslot
      obtain ⟨hlt, hfree⟩ := Arbiter.mem_occupied.1 hslot
      exact Arbiter.mem_occupied.2 ⟨hlt, fun hmem => hfree (SlotSet.mem_erase.1 hmem).1⟩
  | owner _ _ hx' hnext =>
    refine .of_follows hoccupied hreclaimed ?_ ?_ (by simp) hnext
    · rw [hx']
      exact fun slot hslot => (SlotSet.mem_erase.1 hslot).1
    · rw [hx']
      exact fun _ h => h
  | @request slot _ _ haction hx' _ _ hnext =>
    have haccepted := Arbiter.accepts_iff.1 (perform_of_request? haction).1
    refine ⟨fun other hother => ?_, fun other hmem hother => ?_⟩
    · rw [hx'] at hother ⊢
      rcases SlotSet.mem_insert.1 hother with hother | rfl
      · exact hoccupied other hother
      · exact haccepted
    · rw [hnext.2] at hmem
      rw [hx'] at hother
      rcases SlotSet.mem_insert.1 hother with hother | rfl
      · exact hreclaimed other hmem hother
      · have hnot := hapart _ haction _ hmem
        simp [Activation.isReclaim] at hnot
  | @serve race x rest before stage hserves hto hnext =>
    obtain ⟨hpending, hfree, hcapacity, _⟩ := hserves.books
    have hoccupied' : ∀ slot ∈ x.pending, slot ∈ x.occupied := by
      intro slot hslot
      rw [Arbiter.occupied, hfree, hcapacity]
      exact hoccupied slot (hpending ▸ hslot)
    have hreclaimed' : ∀ slot, .reclaim a slot ∈ rest → slot ∉ x.pending := by
      intro slot hmem
      rw [hpending]
      exact hreclaimed slot (hserves.suffix.mem hmem)
    generalize hy : m'.books a = y at hto
    cases hto with
    | ended =>
      exact .of_follows hoccupied' hreclaimed' (by simp [hy]) (by simp [hy]) (by simp [Stage.next])
        hnext
    | @turn slot _ _ =>
      refine .of_follows hoccupied' hreclaimed' ?_ ?_ (by simp [Stage.next]) hnext
      · rw [hy]
        exact fun other hother => (SlotSet.mem_erase.1 hother).1
      · rw [hy]
        exact fun _ h => h
    | reclaim _ _ hto => exact .of_stage hoccupied' hreclaimed' hto hy hnext
  | @reclaim reply slot rest stage hback hstack hto hnext =>
    have hslot : slot ∉ (m.books a).pending := hreclaimed slot (hstack ▸ List.mem_cons_self)
    have hfreed : ∀ other ∈ (m.books a).pending,
        other ∈ (((m.books a).unbind slot).giveBack slot).occupied := by
      intro other hother
      obtain ⟨hlt, hfree⟩ := Arbiter.mem_occupied.1 (hoccupied other hother)
      have hne : other ≠ slot := by
        rintro rfl
        exact hslot hother
      refine Arbiter.mem_occupied.2 ⟨hlt, ?_⟩
      simp [Arbiter.giveBack, Arbiter.unbind, hfree, hne]
    exact .of_stage (x := ((m.books a).unbind slot).giveBack slot) hfreed (hrest hstack) hto rfl
      hnext

/-! ## Clients -/

namespace Machine

variable {a : ArbiterId} {m m' : Machine}

/-- No client has two slots, and none gets a second one: at most one attach has a claimed slot. -/
structure Single (a : ArbiterId) (m : Machine) : Prop where
  client : ∀ slot other c, (m.books a).client? slot = some c → (m.books a).client? other = some c →
    slot = other
  unbound : ∀ c tag slot, .bind a c tag slot ∈ m.stack → ∀ other, (m.books a).client? other ≠ some c
  alone : (m.frames a).Pairwise fun f g => f.isAttach a = true → g.isBind a = false

/-- Most deeds bind nothing and leave no attach behind. -/
private theorem Single.of_follows (hm : m.Single a)
    (hclient : ∀ slot c, (m'.books a).client? slot = some c → (m.books a).client? slot = some c)
    {next : Next} {stack : List Activation} (hstack : stack <:+ m.stack)
    (hwaiting : ∀ f ∈ next.waiting?, f.isAttach a = false) (hnext : m'.Follows next stack) :
    m'.Single a where
  client slot other c hslot hother :=
    hm.client slot other c (hclient slot c hslot) (hclient other c hother)
  unbound c tag slot hmem other hother := by
    rcases hnext.mem_stack hmem with hold | hnew
    · exact hm.unbound c tag slot (hstack.mem hold) other (hclient other c hother)
    · simpa [Activation.isAttach] using hwaiting _ hnew
  alone := by
    rw [hnext.frames]
    refine List.pairwise_append.2 ⟨?_, hm.alone.sublist (hstack.sublist.filter _), ?_⟩
    · apply List.Pairwise.sublist List.filter_sublist
      cases next.waiting? <;> simp
    · intro f hf _ _ hattach
      have hnew := hwaiting f (by simpa using (List.mem_filter.1 hf).1)
      simp [hnew] at hattach

theorem Sound.occupied_of_client? (hm : m.Sound a) {slot : SlotId} {c : ClientId}
    (h : (m.books a).client? slot = some c) : slot ∈ (m.books a).occupied :=
  hm.books.occupied slot (Arbiter.binding_ne_none_of_client? h)

end Machine

open Machine

theorem Deed.single {a : ArbiterId} {m m' : Machine} {new : List Event} (h : Deed a m m' new)
    (hsound : m.Sound a) (hapart : m.AttachesApart) (hm : m.Single a) : m'.Single a := by
  cases h with
  | quiet h =>
    refine ⟨by simpa only [h.books] using hm.client, fun c tag slot hmem => ?_, ?_⟩
    · rw [h.books]
      exact hm.unbound c tag slot (h.mem_stack (by simp [Activation.isOf]) hmem)
    · rw [h.frames]
      exact hm.alone
  | build _ hx' _ _ hnext =>
    refine hm.of_follows (fun slot c hc => ?_) (List.suffix_refl _) (by simp) hnext
    simp [hx', Arbiter.client?] at hc
  | @attach c tag lock bind _ hthere _ hx' hnext =>
    refine ⟨by simpa only [hx'] using hm.client, fun c' tag' slot hmem => ?_, ?_⟩
    · rw [hnext.2] at hmem
      rw [hx']
      rcases List.mem_cons.1 hmem with heq | hmem
      · cases heq
      · exact hm.unbound c' tag' slot hmem
    · rw [frames_of_stack hnext.2 (by simp [Activation.isOf])]
      refine List.pairwise_cons.2 ⟨fun g hg _ => ?_, hm.alone⟩
      exact hapart a hthere g (mem_frames.1 hg).1
  | detach _ _ hx' hnext | skipTurn _ _ hx' hnext | beginTurn _ _ hx' hnext
  | release _ _ hx' hnext | job _ hx' hnext | request _ hx' _ _ hnext | owner _ _ hx' hnext =>
    refine hm.of_follows (fun slot c hc => ?_) (List.suffix_refl _)
      (by simp [Activation.isAttach]) hnext
    rw [hx'] at hc
    exact hc
  | refuse _ hstack hx' _ hnext | uninstall _ hstack _ hx' hnext | mark _ hstack _ hx' hnext
  | endPass _ hstack hx' hnext | endTurn _ hstack hx' hnext =>
    refine hm.of_follows (fun slot c hc => ?_) (suffix_of_stack hstack)
      (by simp [Activation.isAttach]) hnext
    rw [hx'] at hc
    exact hc
  | @claim c tag bind reply slot rest _ hstack hfind _ _ hx' hnext =>
    have halone := hm.alone
    rw [frames_of_stack hstack (by simp [Activation.isOf]), List.pairwise_cons] at halone
    have hnone : ∀ g ∈ rest.filter (·.isOf a), g.isBind a = false :=
      fun g hg => halone.1 g hg (by simp [Activation.isAttach])
    refine ⟨fun slot other c' hslot hother => ?_, fun c' tag' slot' hmem other hother => ?_, ?_⟩
    · rw [hx'] at hslot hother
      exact hm.client slot other c' hslot hother
    · rw [hx'] at hother
      have hold : (m.books a).client? other = some c' := hother
      rw [hnext.2] at hmem
      rcases List.mem_cons.1 hmem with heq | hmem
      · obtain ⟨_, rfl, _⟩ := Activation.bind.inj heq
        exact Arbiter.client?_ne_of_find? hfind (hsound.occupied_of_client? hold) hold
      · exact hm.unbound c' tag' slot' ((suffix_of_stack hstack).mem hmem) other hold
    · rw [frames_of_stack hnext.2 (by simp [Activation.isOf])]
      exact List.pairwise_cons.2 ⟨fun g hg _ => hnone g hg, halone.2⟩
  | @bind c tag reply slot rest _ hstack hx' hnext =>
    have halone := hm.alone
    rw [frames_of_stack hstack (by simp [Activation.isOf]), List.pairwise_cons] at halone
    have hfresh : ∀ other, (m.books a).client? other ≠ some c :=
      hm.unbound c tag slot (hstack ▸ List.mem_cons_self)
    have hclient : ∀ other c', (m'.books a).client? other = some c' →
        other = slot ∧ c' = c ∨ other ≠ slot ∧ (m.books a).client? other = some c' := by
      intro other c' hc
      rw [hx', Arbiter.client?, Arbiter.binding_bind] at hc
      by_cases he : other = slot
      · rw [if_pos he] at hc
        exact .inl ⟨he, (Option.some.inj hc).symm⟩
      · rw [if_neg he] at hc
        exact .inr ⟨he, hc⟩
    refine ⟨fun one other c' hone hother => ?_, fun c' tag' slot' hmem => ?_, ?_⟩
    · rcases hclient one c' hone with ⟨rfl, rfl⟩ | ⟨_, hone⟩
      · rcases hclient other c' hother with ⟨rfl, _⟩ | ⟨_, hother⟩
        · rfl
        · exact absurd hother (hfresh other)
      · rcases hclient other c' hother with ⟨_, rfl⟩ | ⟨_, hother⟩
        · exact absurd hone (hfresh one)
        · exact hm.client one other c' hone hother
    · -- this was the only attach with a claimed slot
      rw [hnext.2] at hmem
      rcases List.mem_cons.1 hmem with heq | hmem
      · cases heq
      · have hbind := halone.1 _ (List.mem_filter.2 ⟨hmem, by simp [Activation.isOf]⟩)
          (by simp [Activation.isAttach])
        simp [Activation.isBind] at hbind
    · rw [hnext.frames]
      exact halone.2
  | @serve race x rest before stage hserves hto hnext =>
    obtain ⟨_, _, _, hbindings⟩ := hserves.books
    refine hm.of_follows (fun slot c hc => ?_) hserves.suffix ?_ hnext
    · obtain ⟨_, _, hx'⟩ := hto.frame
      rw [hx', Arbiter.client?, Arbiter.binding, hbindings] at hc
      exact hc
    · cases stage <;> simp [Stage.next, Activation.isAttach]
  | @reclaim reply slot rest stage hback hstack hto hnext =>
    refine hm.of_follows (fun other c hc => ?_) (suffix_of_stack hstack) ?_ hnext
    · obtain ⟨_, _, hx'⟩ := hto.frame
      rw [hx'] at hc
      have hc : ((m.books a).unbind slot).client? other = some c := hc
      rw [Arbiter.client?, Arbiter.binding_unbind] at hc
      split at hc
      · cases hc
      · exact hc
    · cases stage <;> simp [Stage.next, Activation.isAttach]

namespace Machine

variable {a : ArbiterId} {m : Machine} {P : Machine → Prop} {slot other : SlotId}

theorem Reachable.wanted (hP : ∀ m, P m → m.ReclaimsApart) (h : Reachable P m) : m.Wanted a := by
  refine h.deed_induction (fun w hw => ?_) fun m m' _ hm _ hdeed _ ih =>
    hdeed.wanted (hP m hm.holds) ih
  refine ⟨fun slot hslot => ?_, fun _ hmem => by cases hmem⟩
  rw [books_rest hw] at hslot
  exact absurd hslot SlotSet.notMem_empty

theorem Reachable.single (hP : ∀ m, P m → m.PassesAlone ∧ m.AttachesApart) (h : Reachable P m) :
    m.Single a := by
  refine h.deed_induction (fun w hw => ?_) fun m m' _ hm _ hdeed _ ih =>
    hdeed.single (hm.sound fun m h => (hP m h).1) (hP m hm.holds).2 ih
  refine ⟨fun slot other c hc => ?_, fun _ _ _ hmem => (by cases hmem), .nil⟩
  simp [books_rest hw, default, Arbiter.client?] at hc

/-- An attach in progress has claimed the slot and not bound it yet. -/
def Claimed (a : ArbiterId) (slot : SlotId) (m : Machine) : Prop :=
  ∃ c tag, .bind a c tag slot ∈ m.stack

theorem Claimed.exists_frame (h : m.Claimed a slot) :
    ∃ f ∈ m.frames a, f.isBind a = true ∧ f.claimed? = some slot := by
  obtain ⟨c, tag, hmem⟩ := h
  exact ⟨_, mem_frames.2 ⟨hmem, by simp [Activation.isOf]⟩, by simp [Activation.isBind], rfl⟩

private theorem eq_of_alone {frames : List Activation} {f g : Activation}
    (h : frames.Pairwise fun f g => f.isAttach a = true → g.isBind a = false)
    (hf : f ∈ frames) (hg : g ∈ frames) (hfbind : f.isBind a = true) (hgbind : g.isBind a = true) :
    f = g := by
  have hattach : ∀ {f : Activation}, f.isBind a = true → f.isAttach a = true := by
    intro f hbind
    cases f <;> simp_all [Activation.isBind, Activation.isAttach]
  induction h with
  | nil => cases hf
  | cons hhead _ ih =>
    rcases List.mem_cons.1 hf with hfhead | hfrest
    · rcases List.mem_cons.1 hg with hghead | hgrest
      · exact hfhead.trans hghead.symm
      · cases hgbind.symm.trans (hhead g hgrest (hfhead ▸ hattach hfbind))
    · rcases List.mem_cons.1 hg with hghead | hgrest
      · cases hfbind.symm.trans (hhead f hfrest (hghead ▸ hattach hgbind))
      · exact ih hfrest hgrest

/-- The attaches that have claimed slots are one and the same. -/
theorem Single.claimed_eq (hm : m.Single a) (hslot : m.Claimed a slot)
    (hother : m.Claimed a other) : slot = other := by
  obtain ⟨f, hf, hfbind, hfslot⟩ := hslot.exists_frame
  obtain ⟨g, hg, hgbind, hgother⟩ := hother.exists_frame
  obtain rfl := eq_of_alone hm.alone hf hg hfbind hgbind
  exact Option.some.inj (hfslot.symm.trans hgother)

/-! ## Main result -/

/-- The sets and the bindings agree. -/
structure Consistent (a : ArbiterId) (m : Machine) : Prop where
  free_le : ∀ slot ∈ (m.books a).free, slot ∈ SlotSet.first (m.books a).capacity
  pending_occupied : ∀ slot ∈ (m.books a).pending, slot ∈ (m.books a).occupied
  detaching_occupied : ∀ slot ∈ (m.books a).detaching, slot ∈ (m.books a).occupied
  free_unbound : ∀ slot ∈ (m.books a).free, (m.books a).client? slot = none
  detaching_bound : ∀ slot ∈ (m.books a).detaching, (m.books a).client? slot ≠ none
  /-- Only the slot that an attach has claimed is occupied without a client. -/
  occupied_bound : ∀ slot ∈ (m.books a).occupied,
    (m.books a).client? slot ≠ none ∨ m.Claimed a slot
  claimed_unbound : ∀ slot, m.Claimed a slot →
    slot ∈ (m.books a).occupied ∧ (m.books a).client? slot = none
  claimed_unique : ∀ slot other, m.Claimed a slot → m.Claimed a other → slot = other
  client_unique : ∀ slot other c, (m.books a).client? slot = some c →
    (m.books a).client? other = some c → slot = other
  owner_bound : ∀ slot, (m.books a).owner = some slot →
    slot ∈ (m.books a).occupied ∧ (m.books a).client? slot ≠ none

theorem books_consistent (hm : Reachable Disciplined m) (hat : m.AtAction) (a : ArbiterId) :
    m.Consistent a := by
  have hsound : m.Sound a := hm.sound fun _ h => h.1
  have hwanted : m.Wanted a := hm.wanted fun _ h => h.2.2
  have hsingle : m.Single a := hm.single fun _ h => ⟨h.1, h.2.1⟩
  have hstrict := hsound.strict hat.not_sweeping
  have hbound : ∀ slot, (m.books a).client? slot ≠ none ↔ (m.books a).binding slot ≠ none :=
    fun slot => not_congr Arbiter.client?_eq_none
  have hdetaching : ∀ slot ∈ (m.books a).detaching, (m.books a).binding slot ≠ none :=
    fun slot hslot => (hstrict.detaching slot hslot).resolve_right fun h => h.1
  exact {
    free_le := fun slot hslot => SlotSet.mem_first.2 (hstrict.free_le slot hslot)
    pending_occupied := hwanted.occupied
    detaching_occupied := fun slot hslot => hstrict.occupied slot (hdetaching slot hslot)
    free_unbound := by
      intro slot hslot
      refine Classical.byContradiction fun hclient => ?_
      have hoccupied := hstrict.occupied slot ((hbound slot).1 hclient)
      exact (Arbiter.mem_occupied.1 hoccupied).2 hslot
    detaching_bound := fun slot hslot => (hbound slot).2 (hdetaching slot hslot)
    occupied_bound := by
      intro slot hslot
      rcases hstrict.bound slot hslot with hbinding | ⟨f, hf, hclaimed⟩
      · exact .inl ((hbound slot).2 hbinding)
      · obtain ⟨hmem, hof⟩ := mem_frames.1 hf
        cases f with
        | bind b c tag s =>
          obtain rfl : s = slot := Option.some.inj hclaimed
          obtain rfl : b = a := by simpa [Activation.isOf] using hof
          exact .inr ⟨c, tag, hmem⟩
        | _ => cases hclaimed
    claimed_unbound := by
      intro slot hclaimed
      obtain ⟨f, hf, _, hslot⟩ := hclaimed.exists_frame
      obtain ⟨hoccupied, hnone⟩ := hstrict.claimed f hf slot hslot
      exact ⟨hoccupied, Arbiter.client?_eq_none.2 hnone⟩
    claimed_unique := fun slot other hslot hother => hsingle.claimed_eq hslot hother
    client_unique := hsingle.client
    owner_bound := by
      intro slot howner
      have hbinding := hstrict.owner slot howner
      exact ⟨hstrict.occupied slot hbinding, (hbound slot).2 hbinding⟩ }

/-- In the race of an attach, with an owner that is on its way out and asks for the bus again. -/
theorem books_consistent_attach :
    let m := play 54 [.build 0 0 (some 2), .attach 0 0 ⟨7⟩ none none, .notify 0, .runPending 0,
      .detach 0 0, .request 0 1, .attach 0 1 ⟨8⟩ none (some [.info 0])] (rest .playground)
    m.AtAction ∧ m.Claimed 0 0 ∧ (1 : SlotId) ∈ (m.books 0).detaching ∧
      (1 : SlotId) ∈ (m.books 0).pending ∧ (m.books 0).owner = some 1 ∧ m.Consistent 0 := by
  intro m
  have hm : Reachable Disciplined m := .of_plays World.isInitial_playground 54 _ (by decide +kernel)
  have hat : m.AtAction := .inl ⟨.info 0, rfl⟩
  have hclaimed : m.Claimed 0 0 := ⟨1, ⟨8⟩, .tail _ (.tail _ (.head _))⟩
  exact ⟨hat, hclaimed, by decide +kernel, by decide +kernel, by decide +kernel,
    books_consistent hm hat 0⟩

end Machine

end SharedBus
