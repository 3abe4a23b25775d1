import SharedBus.Proofs.Deed.Run

/-! # Sound books

The books of an arbiter say what they should only together with the activations that are still to
act on them: a slot may be occupied and not bound because an attach is about to bind it. `Sound`
ties the two together for users who start no pass inside another one or inside a detach. While a
pass gives back slots that were detached once more, a slot may be free and still marked; the books
are loose then.
-/
namespace SharedBus

namespace Activation

/-- The slot that an attach has claimed and not yet bound. -/
def claimed? : Activation → Option SlotId
  | .bind _ _ _ slot => some slot
  | _ => none

/-- The slot and the client that a detach or a turn counts on. -/
def held? : Activation → Option (SlotId × ClientId)
  | .uninstall _ c slot _ | .turn _ slot c _ => some (slot, c)
  | _ => none

/-- A pass that goes on only because it has found the bus idle. -/
def foundIdle : Activation → Bool
  | .serve .. | .reclaim .. => true
  | _ => false

/-- No pass of the arbiter starts above such an activation. -/
def blocks (a : ArbiterId) : Activation → Bool
  | .owner b _ | .serve b _ _ | .reclaim b _ | .idle b | .uninstall b _ _ _ | .turn b _ _ _ => b == a
  | _ => false

end Activation

/-- The books agree with the activations that depend on them, the innermost first. -/
structure Sound (a : ArbiterId) (loose : Prop) (x : Arbiter) (frames : List Activation) : Prop where
  isOf : ∀ f ∈ frames, f.isOf a = true
  free_le : ∀ slot ∈ x.free, slot.val < x.capacity
  occupied : ∀ slot, x.binding slot ≠ none → slot ∈ x.occupied
  bound : ∀ slot ∈ x.occupied, x.binding slot ≠ none ∨ ∃ f ∈ frames, slot ∈ f.claimed?
  detaching : ∀ slot ∈ x.detaching, x.binding slot ≠ none ∨ loose ∧ slot ∈ x.free
  owner : ∀ slot, x.owner = some slot → x.binding slot ≠ none
  claimed : ∀ f ∈ frames, ∀ slot ∈ f.claimed?, slot ∈ x.occupied ∧ x.binding slot = none
  claims : frames.Pairwise fun f g => ∀ slot ∈ f.claimed?, slot ∉ g.claimed?
  held : ∀ f ∈ frames, ∀ p ∈ f.held?, x.client? p.1 = some p.2
  idle : ∀ f ∈ frames, f.foundIdle = true → x.owner = none
  reclaim : ∀ slot, .reclaim a slot ∈ frames → x.binding slot ≠ none ∨ loose ∧ slot ∈ x.free
  turn : ∀ slot c answer race, .turn a slot c answer ∈ frames → .owner a race ∈ frames →
    x.owner = some slot
  apart : frames.Pairwise fun f g => f.isPass a = true → g.blocks a = false

namespace Sound

variable {a : ArbiterId} {loose loose' : Prop} {x y : Arbiter} {frames : List Activation}
  {f : Activation} {slot : SlotId} {c : ClientId}

theorem mono (h : Sound a loose x frames) (hloose : loose → loose') : Sound a loose' x frames :=
  { h with
    detaching := fun slot hslot => (h.detaching slot hslot).imp_right (.imp_left hloose)
    reclaim := fun slot hslot => (h.reclaim slot hslot).imp_right (.imp_left hloose) }

/-- The flags and the pending slots do not matter, and slots may be withdrawn. -/
theorem congr (h : Sound a loose x frames) (hcapacity : y.capacity = x.capacity)
    (hfree : y.free = x.free) (hdetaching : ∀ slot ∈ y.detaching, slot ∈ x.detaching)
    (howner : y.owner = x.owner) (hbindings : y.bindings = x.bindings) :
    Sound a loose y frames := by
  obtain ⟨capacity, q, s, free, pending, detaching, owner, closed, queued, bindings⟩ := y
  obtain rfl : capacity = x.capacity := hcapacity
  obtain rfl : free = x.free := hfree
  obtain rfl : owner = x.owner := howner
  obtain rfl : bindings = x.bindings := hbindings
  exact { h with detaching := fun slot hslot => h.detaching slot (hdetaching slot hslot) }

/-! ## Activations that come and go -/

theorem pop (h : Sound a loose x (f :: frames)) (hclaimed : f.claimed? = none) :
    Sound a loose x frames where
  isOf g hg := h.isOf g (List.mem_cons_of_mem _ hg)
  free_le := h.free_le
  occupied := h.occupied
  bound slot hslot := by
    apply (h.bound slot hslot).imp_right
    rintro ⟨g, hg, hmem⟩
    rcases List.mem_cons.1 hg with rfl | hg
    · rw [hclaimed] at hmem
      cases hmem
    · exact ⟨g, hg, hmem⟩
  detaching := h.detaching
  owner := h.owner
  claimed g hg := h.claimed g (List.mem_cons_of_mem _ hg)
  claims := (List.pairwise_cons.1 h.claims).2
  held g hg := h.held g (List.mem_cons_of_mem _ hg)
  idle g hg := h.idle g (List.mem_cons_of_mem _ hg)
  reclaim slot hslot := h.reclaim slot (List.mem_cons_of_mem _ hslot)
  turn slot c answer race hturn howner :=
    h.turn slot c answer race (List.mem_cons_of_mem _ hturn) (List.mem_cons_of_mem _ howner)
  apart := (List.pairwise_cons.1 h.apart).2

theorem push (h : Sound a loose x frames) (hof : f.isOf a = true) (hclaimed : f.claimed? = none)
    (hheld : ∀ p ∈ f.held?, x.client? p.1 = some p.2) (hidle : f.foundIdle = true → x.owner = none)
    (hreclaim : ∀ slot, f = .reclaim a slot → x.binding slot ≠ none ∨ loose ∧ slot ∈ x.free)
    (hturn : ∀ slot c answer race, f = .turn a slot c answer → .owner a race ∈ frames →
      x.owner = some slot)
    (hapart : f.isPass a = true → ∀ g ∈ frames, g.blocks a = false) :
    Sound a loose x (f :: frames) where
  isOf := List.forall_mem_cons.2 ⟨hof, h.isOf⟩
  free_le := h.free_le
  occupied := h.occupied
  bound slot hslot := by
    apply (h.bound slot hslot).imp_right
    rintro ⟨g, hg, hmem⟩
    exact ⟨g, List.mem_cons_of_mem _ hg, hmem⟩
  detaching := h.detaching
  owner := h.owner
  claimed := List.forall_mem_cons.2 ⟨by simp [hclaimed], h.claimed⟩
  claims := List.pairwise_cons.2 ⟨by simp [hclaimed], h.claims⟩
  held := List.forall_mem_cons.2 ⟨hheld, h.held⟩
  idle := List.forall_mem_cons.2 ⟨hidle, h.idle⟩
  reclaim slot hslot := by
    rcases List.mem_cons.1 hslot with heq | hslot
    · exact hreclaim slot heq.symm
    · exact h.reclaim slot hslot
  turn slot c answer race hmem howner := by
    rcases List.mem_cons.1 hmem with hhead | hrest
    · rcases List.mem_cons.1 howner with hhead' | howner
      · simp [← hhead] at hhead'
      · exact hturn slot c answer race hhead.symm howner
    · rcases List.mem_cons.1 howner with hhead' | howner
      · have hblocks := hapart (by simp [← hhead', Activation.isPass]) _ hrest
        simp [Activation.blocks] at hblocks
      · exact h.turn slot c answer race hrest howner
  apart := List.pairwise_cons.2 ⟨fun g hg hpass => hapart hpass g hg, h.apart⟩

theorem push_uninstall (h : Sound a loose x frames) (hclient : x.client? slot = some c)
    (kind : HandleKind) : Sound a loose x (.uninstall a c slot kind :: frames) :=
  h.push (by simp [Activation.isOf]) rfl (by simpa [Activation.held?] using hclient)
    (by simp [Activation.foundIdle]) (by simp) (by simp) (by simp [Activation.isPass])

theorem push_turn (h : Sound a loose x frames) (hclient : x.client? slot = some c) (answer : Answer)
    (howner : ∀ race, .owner a race ∈ frames → x.owner = some slot) :
    Sound a loose x (.turn a slot c answer :: frames) := by
  refine h.push (by simp [Activation.isOf]) rfl (by simpa [Activation.held?] using hclient)
    (by simp [Activation.foundIdle]) (by simp) ?_ (by simp [Activation.isPass])
  intro other _ _ race heq hmem
  obtain ⟨_, rfl, _⟩ := Activation.turn.inj heq
  exact howner race hmem

theorem push_claim (h : Sound a loose x frames) (c : ClientId) (tag : Tag) (bind : Race) :
    Sound a loose x (.claim a c tag bind :: frames) :=
  h.push (by simp [Activation.isOf]) rfl (by simp [Activation.held?])
    (by simp [Activation.foundIdle]) (by simp) (by simp) (by simp [Activation.isPass])

theorem push_pass (h : Sound a loose x frames) (hpass : f.isPass a = true)
    (hnone : ∀ g ∈ frames, g.blocks a = false) (hidle : f.foundIdle = true → x.owner = none)
    (hreclaim : ∀ slot, f = .reclaim a slot → x.binding slot ≠ none ∨ loose ∧ slot ∈ x.free) :
    Sound a loose x (f :: frames) := by
  cases f with
  | owner | serve | reclaim | idle =>
    exact h.push hpass rfl (by simp [Activation.held?]) hidle hreclaim (by simp) fun _ => hnone
  | _ => cases hpass

/-! ## Moves on the books -/

/-- An attach takes a free slot. -/
theorem claim (h : Sound a False x frames) (hslot : slot ∈ x.free) (c : ClientId) (tag : Tag) :
    Sound a False { x with free := x.free.erase slot } (.bind a c tag slot :: frames) where
  isOf := List.forall_mem_cons.2 ⟨by simp [Activation.isOf], h.isOf⟩
  free_le other hother := h.free_le other (SlotSet.mem_erase.1 hother).1
  occupied other hother := by
    obtain ⟨hlt, hfree⟩ := Arbiter.mem_occupied.1 (h.occupied other hother)
    exact Arbiter.mem_occupied.2 ⟨hlt, fun hmem => hfree (SlotSet.mem_erase.1 hmem).1⟩
  bound other hother := by
    obtain ⟨hlt, hfree⟩ := Arbiter.mem_occupied.1 hother
    by_cases he : other = slot
    · exact .inr ⟨_, List.mem_cons_self, by rw [he]; rfl⟩
    · have hold : other ∈ x.occupied :=
        Arbiter.mem_occupied.2 ⟨hlt, fun hmem => hfree (SlotSet.mem_erase.2 ⟨hmem, he⟩)⟩
      apply (h.bound other hold).imp_right
      rintro ⟨f, hf, hmem⟩
      exact ⟨f, List.mem_cons_of_mem _ hf, hmem⟩
  detaching other hother := (h.detaching other hother).imp_right fun hloose => hloose.1.elim
  owner := h.owner
  claimed := by
    refine List.forall_mem_cons.2 ⟨fun other hother => ?_, fun f hf other hother => ?_⟩
    · obtain rfl : slot = other := Option.some.inj hother
      refine ⟨Arbiter.mem_occupied.2 ⟨h.free_le slot hslot, by simp⟩, ?_⟩
      refine Classical.byContradiction fun hbound => ?_
      exact (Arbiter.mem_occupied.1 (h.occupied slot hbound)).2 hslot
    · obtain ⟨hold, hunbound⟩ := h.claimed f hf other hother
      obtain ⟨hlt, hfree⟩ := Arbiter.mem_occupied.1 hold
      exact ⟨Arbiter.mem_occupied.2 ⟨hlt, fun hmem => hfree (SlotSet.mem_erase.1 hmem).1⟩, hunbound⟩
  claims := by
    refine List.pairwise_cons.2 ⟨fun f hf other hother hmem => ?_, h.claims⟩
    obtain rfl : slot = other := Option.some.inj hother
    exact (Arbiter.mem_occupied.1 (h.claimed f hf slot hmem).1).2 hslot
  held := List.forall_mem_cons.2 ⟨by simp [Activation.held?], h.held⟩
  idle := List.forall_mem_cons.2 ⟨by simp [Activation.foundIdle], h.idle⟩
  reclaim other hother := by
    rcases List.mem_cons.1 hother with heq | hother
    · cases heq
    · exact (h.reclaim other hother).imp_right fun hloose => hloose.1.elim
  turn other c answer race hmem howner := by
    rcases List.mem_cons.1 hmem with heq | hmem
    · cases heq
    · rcases List.mem_cons.1 howner with heq | howner
      · cases heq
      · exact h.turn other c answer race hmem howner
  apart := List.pairwise_cons.2 ⟨by simp [Activation.isPass], h.apart⟩

/-- The attach binds the slot that it has claimed. -/
theorem bind {tag : Tag} (h : Sound a False x (.bind a c tag slot :: frames)) :
    Sound a False (x.bind slot ⟨c, tag⟩) frames := by
  obtain ⟨hslot, hunbound⟩ := h.claimed _ List.mem_cons_self slot rfl
  have hclaims := (List.pairwise_cons.1 h.claims).1
  have hkeep : ∀ other, x.binding other ≠ none → (x.bind slot ⟨c, tag⟩).binding other ≠ none := by
    intro other hother
    rw [Arbiter.binding_bind]
    split
    · simp
    · exact hother
  have hother : ∀ other, other ≠ slot → (x.bind slot ⟨c, tag⟩).binding other = x.binding other := by
    intro other hne
    rw [Arbiter.binding_bind, if_neg hne]
  exact {
    isOf := fun f hf => h.isOf f (List.mem_cons_of_mem _ hf)
    free_le := h.free_le
    occupied := by
      intro other hbound
      by_cases he : other = slot
      · exact he ▸ hslot
      · exact h.occupied other (by rwa [← hother other he])
    bound := by
      intro other hmem
      rcases h.bound other hmem with hbound | ⟨f, hf, hclaimed⟩
      · exact .inl (hkeep other hbound)
      · rcases List.mem_cons.1 hf with rfl | hf
        · obtain rfl : slot = other := Option.some.inj hclaimed
          exact .inl (by simp [Arbiter.binding_bind])
        · exact .inr ⟨f, hf, hclaimed⟩
    detaching := fun other hmem => (h.detaching other hmem).imp (hkeep other) fun hloose => hloose
    owner := fun other howner => hkeep other (h.owner other howner)
    claimed := by
      intro f hf other hmem
      obtain ⟨hocc, hnone⟩ := h.claimed f (List.mem_cons_of_mem _ hf) other hmem
      refine ⟨hocc, ?_⟩
      rw [hother, hnone]
      rintro rfl
      exact hclaims f hf other rfl hmem
    claims := (List.pairwise_cons.1 h.claims).2
    held := by
      intro f hf p hp
      have hheld := h.held f (List.mem_cons_of_mem _ hf) p hp
      have hne : p.1 ≠ slot := by
        intro he
        rw [he, Arbiter.client?, hunbound] at hheld
        cases hheld
      rw [← hheld, Arbiter.client?, Arbiter.client?, hother _ hne]
    idle := fun f hf => h.idle f (List.mem_cons_of_mem _ hf)
    reclaim := by
      intro other hmem
      exact (h.reclaim other (List.mem_cons_of_mem _ hmem)).imp (hkeep other) fun hloose => hloose
    turn := by
      intro other c answer race hmem howner
      exact h.turn other c answer race (List.mem_cons_of_mem _ hmem) (List.mem_cons_of_mem _ howner)
    apart := (List.pairwise_cons.1 h.apart).2 }

theorem mark (h : Sound a False x frames) (hbound : x.binding slot ≠ none) :
    Sound a False (x.mark slot) frames :=
  { h with
    detaching := by
      intro other hother
      rcases SlotSet.mem_insert.1 hother with hother | rfl
      · exact h.detaching other hother
      · exact .inl hbound }

/-- With no pass in progress the bus may change hands. -/
theorem own (h : Sound a False x frames) (hnone : ∀ f ∈ frames, f.blocks a = false)
    {owner : Option SlotId} (howner : ∀ slot, owner = some slot → x.binding slot ≠ none) :
    Sound a False { x with owner := owner } frames :=
  { h with
    owner := howner
    idle := by
      intro f hf hidle
      have hof := h.isOf f hf
      have hblocks := hnone f hf
      cases f <;> simp_all [Activation.foundIdle, Activation.blocks, Activation.isOf]
    turn := by
      intro other c answer race hmem _
      have hblocks := hnone _ hmem
      simp [Activation.blocks] at hblocks }

/-- A pass frees the slot that it has withdrawn. If that was marked again in the meantime, the books
are loose until the slot is withdrawn once more. -/
theorem free (h : Sound a loose x (.reclaim a slot :: frames)) :
    Sound a True ((x.unbind slot).giveBack slot) frames := by
  have howner : x.owner = none := h.idle _ List.mem_cons_self rfl
  have hnone := fun f hf => (List.pairwise_cons.1 h.apart).1 f hf (by simp [Activation.isPass])
  have hslot : slot.val < x.capacity := by
    rcases h.reclaim slot List.mem_cons_self with hbound | ⟨_, hfree⟩
    · exact (Arbiter.mem_occupied.1 (h.occupied slot hbound)).1
    · exact h.free_le slot hfree
  have hbinding : ∀ other, other ≠ slot →
      ((x.unbind slot).giveBack slot).binding other = x.binding other := by
    intro other hne
    show (x.unbind slot).binding other = _
    rw [Arbiter.binding_unbind, if_neg hne]
  have hself : ((x.unbind slot).giveBack slot).binding slot = none := by
    show (x.unbind slot).binding slot = none
    rw [Arbiter.binding_unbind, if_pos rfl]
  have hoccupied : ∀ {other}, other ∈ ((x.unbind slot).giveBack slot).occupied ↔
      other ∈ x.occupied ∧ other ≠ slot := by
    intro other
    rw [Arbiter.mem_occupied, Arbiter.mem_occupied]
    simp [Arbiter.giveBack, Arbiter.unbind, and_assoc]
  exact {
    isOf := fun f hf => h.isOf f (List.mem_cons_of_mem _ hf)
    free_le := by
      intro other hother
      rcases SlotSet.mem_insert.1 hother with hother | rfl
      · exact h.free_le other hother
      · exact hslot
    occupied := by
      intro other hbound
      have hne : other ≠ slot := by
        rintro rfl
        exact hbound hself
      exact hoccupied.2 ⟨h.occupied other (by rwa [← hbinding other hne]), hne⟩
    bound := by
      intro other hother
      obtain ⟨hold, hne⟩ := hoccupied.1 hother
      rw [hbinding other hne]
      apply (h.bound other hold).imp_right
      rintro ⟨f, hf, hclaimed⟩
      rcases List.mem_cons.1 hf with rfl | hf
      · cases hclaimed
      · exact ⟨f, hf, hclaimed⟩
    detaching := by
      intro other hother
      by_cases hne : other = slot
      · exact .inr ⟨trivial, SlotSet.mem_insert.2 (.inr hne)⟩
      · rw [hbinding other hne]
        apply (h.detaching other hother).imp_right
        rintro ⟨_, hfree⟩
        exact ⟨trivial, SlotSet.mem_insert.2 (.inl hfree)⟩
    owner := by
      intro other hother
      rw [show ((x.unbind slot).giveBack slot).owner = x.owner from rfl, howner] at hother
      cases hother
    claimed := by
      intro f hf other hmem
      obtain ⟨hocc, hunbound⟩ := h.claimed f (List.mem_cons_of_mem _ hf) other hmem
      have hne : other ≠ slot := by
        rintro rfl
        rcases h.reclaim other List.mem_cons_self with hbound | ⟨_, hfree⟩
        · exact hbound hunbound
        · exact (Arbiter.mem_occupied.1 hocc).2 hfree
      exact ⟨hoccupied.2 ⟨hocc, hne⟩, by rw [hbinding other hne, hunbound]⟩
    claims := (List.pairwise_cons.1 h.claims).2
    held := by
      intro f hf p hp
      have hof := h.isOf f (List.mem_cons_of_mem _ hf)
      have hblocks := hnone f hf
      cases f <;> simp_all [Activation.held?, Activation.blocks, Activation.isOf]
    idle := fun _ _ _ => howner
    reclaim := by
      intro other hmem
      have hblocks := hnone _ hmem
      simp [Activation.blocks] at hblocks
    turn := by
      intro other c answer race hmem _
      have hblocks := hnone _ hmem
      simp [Activation.blocks] at hblocks
    apart := (List.pairwise_cons.1 h.apart).2 }

/-! ## A pass that goes on -/

section
variable {stage : Stage} (hnone : ∀ f ∈ frames, f.blocks a = false)
include hnone

theorem reclaims (h : Sound a loose x frames) (hidle : x.owner = none) (race : Race)
    (hto : x.ReclaimsTo y stage) :
    Sound a (loose ∧ ∃ slot, stage = .reclaim slot) y
      ((stage.next a race).waiting?.toList ++ frames) := by
  -- once nothing is marked any more, the books are strict again
  have hstrict : x.detaching.isEmpty → Sound a False x frames := by
    intro hdone
    refine { h with
      detaching := fun slot hslot => absurd hslot (SlotSet.isEmpty_iff.1 hdone slot)
      reclaim := fun slot hslot => ?_ }
    have hblocks := hnone _ hslot
    simp [Activation.blocks] at hblocks
  cases hto with
  | @reclaim slot _ hslot =>
    have hpast : Sound a loose (x.withdraw slot) frames :=
      h.congr rfl rfl (fun _ hmem => (SlotSet.mem_erase.1 hmem).1) rfl rfl
    refine (hpast.push_pass (f := .reclaim a slot) (by simp [Activation.isPass]) hnone
      (fun _ => hidle) ?_).mono fun hloose => ⟨hloose, slot, rfl⟩
    intro other heq
    obtain ⟨_, rfl⟩ := Activation.reclaim.inj heq
    exact h.detaching slot (SlotSet.mem_of_highest? hslot)
  | idle _ hdone =>
    exact ((hstrict (hdone hidle)).push_pass (f := .idle a) (by simp [Activation.isPass]) hnone
      (by simp [Activation.foundIdle]) (by simp)).mono False.elim
  | ended _ hdone => exact (hstrict (hdone hidle)).mono False.elim

theorem serves (h : Sound a False x frames) (race : Race) (hto : x.ServesTo y stage) :
    Sound a False y ((stage.next a race).waiting?.toList ++ frames) := by
  cases hto with
  | ended => exact h
  | @turn slot hidle hslot =>
    have hpast : Sound a False (x.clearPending slot) frames :=
      h.congr rfl rfl (fun _ hmem => hmem) rfl rfl
    exact hpast.push_pass (f := .serve a slot race) (by simp [Activation.isPass]) hnone
      (fun _ => hidle) (by simp)
  | reclaim hidle _ hto => exact (h.reclaims hnone hidle race hto).mono And.left

end

end Sound

end SharedBus
