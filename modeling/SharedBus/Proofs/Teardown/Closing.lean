import SharedBus.Proofs.Custody
import SharedBus.Proofs.Evaluation
import SharedBus.Proofs.Newcomers
import SharedBus.Proofs.Outside
import SharedBus.Proofs.Release
import SharedBus.Proofs.Wakeup

/-! # An arbiter that everybody leaves

Once every bound slot is on its way out and nobody comes any more, an arbiter goes through three
phases. Nothing is given back as long as somebody keeps the bus. The first pass that finds the bus
idle gives back everything before it ends, and from then on nobody is on the arbiter. So slots are
never given back in part.
-/
namespace SharedBus

/-- A pass that gives slots back or has no more to give back. -/
def Activation.isSweep (a : ArbiterId) : Activation → Bool
  | .reclaim b _ | .idle b => b == a
  | _ => false

theorem Activation.isOf_of_isSweep {a : ArbiterId} {f : Activation} (h : f.isSweep a = true) :
    f.isOf a = true := by
  cases f <;> first | exact h | cases h

namespace Machine

section
variable {a : ArbiterId} {m m' : Machine} {new since : List Event} {slot : SlotId}

/-! ## Books that say that nobody is there -/

structure Vacated (a : ArbiterId) (m : Machine) : Prop where
  free : (m.books a).free = .first (m.books a).capacity
  unbound : ∀ slot, (m.books a).binding slot = none
  pending : (m.books a).pending = ∅
  detaching : (m.books a).detaching = ∅
  owner : (m.books a).owner = none

/-- Nobody is bound or marked, and only those who are there may ask for the bus. -/
structure Emptied (a : ArbiterId) (m : Machine) : Prop where
  wanted : m.Wanted a
  unbound : ∀ slot, (m.books a).binding slot = none
  unmarked : ∀ slot, slot ∉ (m.books a).detaching

theorem Shut.not_occupied (hm : m.Shut a) (hsound : m.Sound a)
    (h : (m.books a).binding slot = none) : slot ∉ (m.books a).occupied := by
  intro hslot
  rcases hsound.books.bound slot hslot with hbound | ⟨f, hf, hclaimed⟩
  · exact hbound h
  · obtain ⟨hmem, hof⟩ := mem_frames.1 hf
    have hnone := hm f hmem
    cases f with
    | bind b c tag s => simp_all [Activation.joining?, Activation.isOf]
    | _ => cases hclaimed

theorem Emptied.vacated (hm : m.Emptied a) (hsound : m.Sound a) (hshut : m.Shut a) :
    m.Vacated a := by
  have hvacant : ∀ slot, slot ∉ (m.books a).occupied :=
    fun slot => hshut.not_occupied hsound (hm.unbound slot)
  constructor
  case free => exact hsound.free_of_vacant hvacant
  case unbound => exact hm.unbound
  case pending =>
    refine SlotSet.ext fun slot => ?_
    exact ⟨fun hslot => absurd (hm.wanted.occupied slot hslot) (hvacant slot),
      fun hslot => absurd hslot SlotSet.notMem_empty⟩
  case detaching =>
    refine SlotSet.ext fun slot => ?_
    exact ⟨fun hslot => absurd hslot (hm.unmarked slot),
      fun hslot => absurd hslot SlotSet.notMem_empty⟩
  case owner => exact hsound.owner_of_vacant hvacant

/-- A release succeeds as soon as nobody is there. -/
theorem Vacated.released (hm : m.Vacated a) (hthere : m.world.hasArbiter a) :
    (m.world.act (.tryRelease a)).reply = .released := by
  have hnone : ∀ slot, slot ∉ (m.books a).occupied := by
    intro slot hslot
    obtain ⟨hlt, hfree⟩ := Arbiter.mem_occupied.1 hslot
    exact hfree (hm.free ▸ SlotSet.mem_first.2 hlt)
  have hperform : m.world.perform (.tryRelease a) =
      (m.world.setArbiter a { m.books a with closed := true }).reply .released [.released a] := by
    simp only [World.perform, World.whenThere, hthere, if_true]
    exact World.tryRelease_of_vacant hnone
  have hends : ((m.world.setArbiter a { m.books a with closed := true }).reply .released
      [.released a]).Ends _ := .reply ..
  rw [← hperform] at hends
  rw [World.act_of_ends hends]

/-! ## How far the arbiter is -/

/-- How far an arbiter is that everybody leaves; `since` is what has become known since the last
client was marked. -/
inductive Clearing (a : ArbiterId) (m : Machine) (since : List Event) : Prop
  /-- Nothing was given back. -/
  | whole (hfreed : ∀ slot, .freed a slot ∉ since) (hsweep : ∀ f ∈ m.stack, f.isSweep a = false)
  /-- A pass is giving everything back. -/
  | sweeping {slot : SlotId} (hwanted : m.Wanted a) (hreclaim : .reclaim a slot ∈ m.stack)
  /-- Everything was given back. -/
  | empty (h : m.Emptied a)

/-- Passes keep apart, no slot asks again while it is given back, and no attach is made. -/
def Winding (a : ArbiterId) (m : Machine) : Prop :=
  m.PassesAlone ∧ m.ReclaimsApart ∧ m.attach? ≠ some a

/-- Everybody leaves the arbiter and nobody comes. -/
structure Closing (a : ArbiterId) (m : Machine) (since : List Event) : Prop where
  sound : m.Sound a
  shut : m.Shut a
  gone : ∀ c, m.Gone a c
  clearing : m.Clearing a since

/-- What a deed means to an arbiter that everybody leaves: a pass that is over and leaves the bus
idle has given everything back. -/
structure Clears (a : ArbiterId) (m' : Machine) (since new : List Event) : Prop where
  clearing : m'.Clearing a (new ++ since)
  ended : .passEnded a ∈ new → (m'.books a).owner = none → m'.Emptied a

/-- No slot is freed meanwhile, and no pass is over. -/
structure Unswept (a : ArbiterId) (events : List Event) : Prop where
  freed : ∀ slot, .freed a slot ∉ events
  ended : .passEnded a ∉ events

theorem unswept_of_not_isOf {events : List Event} (h : ∀ e ∈ events, e.isOf a = false) :
    Unswept a events where
  freed slot hmem := by simpa [Event.isOf] using h _ hmem
  ended hmem := by simpa [Event.isOf] using h _ hmem

theorem Serves.unswept {race : Race} {x : Arbiter} {rest : List Activation}
    (h : Serves a m race x rest new) : Unswept a new where
  freed slot hmem := by cases h.origin hmem (by simp [Event.isOf])
  ended hmem := by cases h.origin hmem (by simp [Event.isOf])

/-- Whoever goes on and is no sweep leaves the slots that are to be freed on the stack. -/
theorem reclaim_mem_of_stack {f : Activation} {rest : List Activation} (hstack : m.stack = f :: rest)
    (hsweep : f.isSweep a = false) (hmem : .reclaim a slot ∈ m.stack) : .reclaim a slot ∈ rest := by
  rw [hstack] at hmem
  rcases List.mem_cons.1 hmem with rfl | hmem
  · simp [Activation.isSweep] at hsweep
  · exact hmem

/-- A sweep that has come to its end has given everything back. -/
theorem Emptied.of_swept (hgone : ∀ c, m.Gone a c) (hwanted : m.Wanted a)
    (hdetaching : (m.books a).detaching.isEmpty) (hreclaim : ∀ slot, .reclaim a slot ∉ m.stack) :
    m.Emptied a where
  wanted := hwanted
  unbound slot := by
    cases hbinding : (m.books a).binding slot with
    | none => rfl
    | some b =>
      have hclient : (m.books a).client? slot = some b.client := by simp [Arbiter.client?, hbinding]
      rcases hgone b.client slot hclient with hmarked | hmem
      · exact absurd hmarked (SlotSet.isEmpty_iff.1 hdetaching slot)
      · exact absurd hmem (hreclaim slot)
  unmarked := SlotSet.isEmpty_iff.1 hdetaching

theorem Emptied.clears (h : m'.Emptied a) : Clears a m' since new where
  clearing := .empty h
  ended _ _ := h

/-- Most deeds neither free slots nor begin or end a sweep. -/
private theorem Clearing.clears (hm : m.Clearing a since) (hfreed : ∀ slot, .freed a slot ∉ new)
    (hended : .passEnded a ∈ new → (m'.books a).owner ≠ none)
    (hwanted : m.Wanted a → m'.Wanted a) (hemptied : m.Emptied a → m'.Emptied a)
    (hsweep : ∀ f ∈ m'.stack, f.isSweep a = true → f ∈ m.stack)
    (hreclaim : ∀ slot, .reclaim a slot ∈ m.stack → .reclaim a slot ∈ m'.stack) :
    Clears a m' since new where
  clearing := by
    cases hm with
    | whole hsince hnone =>
      refine .whole (fun slot hmem => ?_) fun f hf => ?_
      · exact (List.mem_append.1 hmem).elim (hfreed slot) (hsince slot)
      · refine Bool.eq_false_iff.2 fun h => ?_
        cases (hnone f (hsweep f hf h)).symm.trans h
    | sweeping h hmem => exact .sweeping (hwanted h) (hreclaim _ hmem)
    | empty h => exact .empty (hemptied h)
  ended hmem hidle := absurd hidle (hended hmem)

/-- A pass that goes on giving back leaves a slot to free, or has given everything back. -/
private theorem Stage.clears {x : Arbiter} {race : Race} {stage : Stage} {rest : List Activation}
    (howner : x.owner = none) (hnone : ∀ f ∈ rest, f.blocks a = false)
    (hto : x.ReclaimsTo (m'.books a) stage) (hnext : m'.Follows (stage.next a race) rest)
    (hgone : ∀ c, m'.Gone a c) (hwanted : m'.Wanted a) (hnew : .passEnded a ∉ new) :
    Clears a m' since ((stage.events a).reverse ++ new) := by
  have hreclaim : ∀ slot, .reclaim a slot ∉ rest := by
    intro slot hmem
    have hblocks := hnone _ hmem
    simp [Activation.blocks] at hblocks
  generalize hy : m'.books a = y at hto
  cases hto with
  | @reclaim slot =>
    refine ⟨.sweeping hwanted (hnext.mem_of_waiting rfl), fun hmem => ?_⟩
    simp [Stage.events, hnew] at hmem
  | idle _ hdone | ended _ hdone =>
    refine (Emptied.of_swept hgone hwanted (hy ▸ hdone howner) fun slot hmem => ?_).clears
    rcases hnext.mem_stack hmem with hold | hwaiting
    · exact hreclaim slot hold
    · simp [Stage.next] at hwaiting

end

end Machine

open Machine

section
variable {a : ArbiterId} {m m' : Machine} {new since : List Event}

theorem Deed.emptied (h : Deed a m m' new) (hsound : m.Sound a) (hshut : m.Shut a)
    (hapart : m.ReclaimsApart) (hm : m.Emptied a) : m'.Emptied a where
  wanted := h.wanted hapart hm.wanted
  unbound slot := by
    rcases h.binding slot with hsame | ⟨b, hbound, _⟩ | ⟨_, hnone⟩
    · rw [hsame, hm.unbound]
    · exact absurd hbound (hshut.not_bound h slot b)
    · exact hnone
  unmarked slot hslot := by
    rcases h.detaching hslot with hold | ⟨c, hmarked⟩
    · exact hm.unmarked slot hold
    · have hclient := hsound.client?_of_marked h hmarked
      exact Arbiter.binding_ne_none_of_client? hclient (hm.unbound slot)

theorem Deed.clears (h : Deed a m m' new) (hlinked : m.Linked) (halone : m.PassesAlone)
    (hapart : m.ReclaimsApart) (hgone : ∀ c, m'.Gone a c) (hm : m.Closing a since) :
    Clears a m' since new := by
  have hwanted : m.Wanted a → m'.Wanted a := h.wanted hapart
  have hemptied : m.Emptied a → m'.Emptied a := h.emptied hm.sound hm.shut hapart
  have hfollows : ∀ {next : Next} {stack : List Activation}, stack <:+ m.stack →
      (∀ slot, .reclaim a slot ∈ m.stack → .reclaim a slot ∈ stack) →
      (∀ f ∈ next.waiting?, f.isSweep a = false) → (∀ slot, .freed a slot ∉ new) →
      (.passEnded a ∈ new → (m'.books a).owner ≠ none) → m'.Follows next stack →
        Clears a m' since new := by
    intro next stack hstack hkept hwaiting hfreed hended hnext
    refine hm.clearing.clears hfreed hended hwanted hemptied (fun f hf hsweep => ?_)
      fun slot hmem => hnext.mem_of_mem (hkept slot hmem)
    rcases hnext.mem_stack hf with hold | hpushed
    · exact hstack.mem hold
    · cases (hwaiting f hpushed).symm.trans hsweep
  have hpop : ∀ {f : Activation} {rest : List Activation}, m.stack = f :: rest →
      f.isSweep a = false → ∀ slot, .reclaim a slot ∈ m.stack → .reclaim a slot ∈ rest :=
    fun hstack hsweep slot => reclaim_mem_of_stack hstack hsweep
  cases h with
  | quiet h hnew =>
    have hunswept := unswept_of_not_isOf hnew
    refine hm.clearing.clears hunswept.freed (fun hmem => absurd hmem hunswept.ended) hwanted
      hemptied (fun f hf hsweep => h.mem_stack (Activation.isOf_of_isSweep hsweep) hf)
      fun slot hmem => ?_
    have hframe : .reclaim a slot ∈ m.frames a := mem_frames.2 ⟨hmem, by simp [Activation.isOf]⟩
    exact (mem_frames.1 (h.frames ▸ hframe)).1
  | build _ _ _ _ hnext | attach _ _ _ _ hnext | detach _ _ _ hnext | release _ _ _ hnext
  | job _ _ hnext | owner _ _ _ hnext | skipTurn _ _ _ hnext | beginTurn _ _ _ hnext =>
    exact hfollows (List.suffix_refl _) (fun _ h => h) (by simp [Activation.isSweep]) (by simp)
      (by simp) hnext
  | claim _ hstack _ _ _ _ hnext | bind _ hstack _ hnext | uninstall _ hstack _ _ hnext
  | endTurn _ hstack _ hnext =>
    exact hfollows (suffix_of_stack hstack) (hpop hstack (by simp [Activation.isSweep]))
      (by simp [Activation.isSweep]) (by simp) (by simp) hnext
  | refuse _ hstack _ hnew hnext =>
    rcases hnew with rfl | ⟨_, _, rfl⟩ <;>
      exact hfollows (suffix_of_stack hstack) (hpop hstack (by simp [Activation.isSweep])) (by simp)
        (by simp) (by simp) hnext
  | @mark _ _ _ _ _ room _ hstack _ _ hnext =>
    have hposted : Unswept a ((m.books a).scheduling a room) :=
      unswept_of_not_isOf Arbiter.scheduling_not_isOf
    exact hfollows (suffix_of_stack hstack) (hpop hstack (by simp [Activation.isSweep])) (by simp)
      (by simp [hposted.freed]) (by simp [hposted.ended]) hnext
  | request _ _ hnew _ hnext =>
    obtain ⟨hfreed, hended⟩ := unswept_of_not_isOf hnew
    exact hfollows (List.suffix_refl _) (fun _ h => h) (by simp) (by simp [hfreed])
      (by simp [hended]) hnext
  | endPass _ hstack _ hnext =>
    -- a pass has told its consumer only after everything was given back
    cases hm.clearing with
    | whole _ hsweep =>
      have hidle := hsweep (.idle a) (hstack ▸ List.mem_cons_self)
      simp [Activation.isSweep] at hidle
    | @sweeping slot _ hreclaim =>
      rw [hstack] at hreclaim
      rcases List.mem_cons.1 hreclaim with heq | hbelow
      · cases heq
      · have hblocks := hm.sound.not_blocks_below hstack (by simp [Activation.isPass]) _ hbelow
        simp [Activation.blocks] at hblocks
    | empty hempty => exact (hemptied hempty).clears
  | @reclaim reply slot rest stage hback hstack hto hnext =>
    have hframe := mem_frames_of_stack (a := a) hstack (by simp [Activation.isOf])
    have hidle : (m.books a).owner = none := hm.sound.books.idle _ hframe rfl
    have hnone := hm.sound.not_blocks_below hstack (by simp [Activation.isPass])
    cases hm.clearing with
    | whole _ hsweep =>
      have hreclaim := hsweep (.reclaim a slot) (hstack ▸ List.mem_cons_self)
      simp [Activation.isSweep] at hreclaim
    | sweeping h =>
      exact Stage.clears (x := ((m.books a).unbind slot).giveBack slot) hidle hnone hto hnext hgone
        (hwanted h) (by simp)
    | empty h => exact (hemptied h).clears
  | @serve race x rest before stage hserves hto hnext =>
    have hnone : ∀ f ∈ rest, f.blocks a = false :=
      not_blocks_of_frames (hserves.sound hm.sound hlinked halone).2
    obtain ⟨hfreed, hended⟩ := hserves.unswept
    have hkept : ∀ slot, .reclaim a slot ∈ m.stack → .reclaim a slot ∈ rest := by
      cases hserves with
      | idle => exact fun _ h => h
      | kept _ _ hstack | left _ _ hstack | took _ _ hstack | passed _ _ hstack =>
        exact hpop hstack (by simp [Activation.isSweep])
    generalize hy : m'.books a = y at hto
    cases hto with
    | ended howner =>
      refine hfollows hserves.suffix hkept (by simp [Stage.next]) (by simp [Stage.events, hfreed])
        (fun _ => ?_) hnext
      simp [hy, howner]
    | turn =>
      exact hfollows hserves.suffix hkept (by simp [Stage.next, Activation.isSweep])
        (by simp [Stage.events, hfreed]) (by simp [Stage.events, hended]) hnext
    | reclaim howner hpending hto =>
      -- nobody is pending when a pass begins to give slots back
      have hnothing : ∀ slot, slot ∉ (m'.books a).pending := by
        have hx := SlotSet.isEmpty_iff.1 hpending
        rw [hy]
        cases hto with
        | reclaim => exact fun slot hslot => hx slot (SlotSet.mem_erase.1 hslot).1
        | idle | ended => exact hx
      have hwanted' : m'.Wanted a := ⟨fun slot hslot => absurd hslot (hnothing slot),
        fun slot _ => hnothing slot⟩
      exact Stage.clears howner hnone (hy ▸ hto) hnext hgone hwanted' hended

end

/-! ## Runs -/

namespace Machine

variable {a : ArbiterId} {m m₁ m₂ m₃ : Machine} {new since : List Event}

theorem Closing.goes (hm : m.Closing a since) (hgoes : Goes m m₁) (hdeed : Deed a m m₁ new)
    (hlinked : m.Linked) (hwinding : m.Winding a) :
    m₁.Closing a (new ++ since) ∧ Clears a m₁ since new := by
  obtain ⟨halone, hapart, hattach⟩ := hwinding
  have hgone : ∀ c, m₁.Gone a c :=
    fun c => (hm.gone c).of_deed hdeed fun slot tag => hm.shut.not_bound hdeed slot ⟨c, tag⟩
  have hclears := hdeed.clears hlinked halone hapart hgone hm
  exact ⟨⟨hdeed.sound hgoes hlinked halone hm.sound, hm.shut.deed hdeed hattach, hgone,
    hclears.clearing⟩, hclears⟩

theorem Run.closing (hrun : Run (Winding a) m m₁) (hreach : Reachable Anyhow m)
    (hm : m.Closing a []) (htrace : m₁.trace = since ++ m.trace) : m₁.Closing a since := by
  refine hrun.deeds (a := a) hreach hm (fun m₁ m₂ older new hrun _ hgoes hdeed _ ih => ?_) htrace
  exact (ih.goes hgoes hdeed (hreach.run hrun.anyhow).linked hrun.holds).1

/-- What was given back stays given back. -/
theorem Run.vacated (hrun : Run (Winding a) m m₁) (hreach : Reachable Anyhow m)
    (hm : m.Closing a since) (hempty : m.Emptied a) : m₁.Vacated a := by
  obtain ⟨events, htrace⟩ := hrun.trace
  have hclosing : m.Closing a [] := { hm with clearing := .empty hempty }
  have hboth : m₁.Closing a events ∧ m₁.Emptied a := by
    refine hrun.deeds (a := a) (I := fun m events => m.Closing a events ∧ m.Emptied a) hreach
      ⟨hclosing, hempty⟩ (fun m₁ m₂ older new hrun _ hgoes hdeed _ ih => ?_) htrace
    obtain ⟨ih, hstill⟩ := ih
    exact ⟨(ih.goes hgoes hdeed (hreach.run hrun.anyhow).linked hrun.holds).1,
      hdeed.emptied ih.sound ih.shut hrun.holds.2.1 hstill⟩
  exact hboth.2.vacated hboth.1.sound hboth.1.shut

theorem Run.hasArbiter {P : Machine → Prop} (h : Run P m m₁) (hthere : m.world.hasArbiter a) :
    m₁.world.hasArbiter a := by
  have hlt : a < m.world.arbiters.length := of_decide_eq_true hthere
  refine decide_eq_true ?_
  induction h with
  | refl _ => exact hlt
  | next _ hgoes _ ih => exact Nat.lt_of_lt_of_le ih hgoes.length_le

/-- Nobody acts inside a callback, and no attach is made. -/
def Unattended (a : ArbiterId) (m : Machine) : Prop := m.ActsOutside ∧ m.attach? ≠ some a

instance : DecidablePred (Unattended a) := fun m =>
  inferInstanceAs (Decidable (m.ActsOutside ∧ m.attach? ≠ some a))

theorem Run.winding (hrun : Run (Unattended a) m m₁) (hfin : m.isFinished)
    (hreach : Reachable Anyhow m) : m₁.Winding a := by
  obtain ⟨halone, hapart⟩ := (hrun.mono fun _ h => h.1).apart_of_outside hfin hreach
  exact ⟨halone, hapart, hrun.holds.2⟩

/-- How it goes on with an arbiter that everybody leaves, under a discipline by which nobody
comes. -/
structure Closes (P : Machine → Prop) (a : ArbiterId) (m : Machine) : Prop where
  /-- A pass that is over and leaves the bus idle has given everything back, and so it stays. -/
  vacated : ∀ m₁ m₂ m₃ new, Run P m m₁ → Goes m₁ m₂ → m₂.trace = new ++ m₁.trace →
    .passEnded a ∈ new → (m₂.books a).owner = none → Run P m₂ m₃ →
      m₃.Vacated a ∧ (m₃.world.act (.tryRelease a)).reply = .released
  /-- As long as somebody keeps the bus, nothing is given back. -/
  kept : ∀ m₁ since, Run P m m₁ → m₁.trace = since ++ m.trace → (m₁.books a).owner ≠ none →
    ∀ slot, .freed a slot ∉ since
  /-- Whenever no pass is in progress, nothing was given back or everything. -/
  whole : ∀ m₁ since, Run P m m₁ → m₁.trace = since ++ m.trace → ¬ m₁.Passing a →
    (∀ slot, .freed a slot ∉ since) ∨ m₁.Vacated a

theorem Closing.closes {P : Machine → Prop} (hm : m.Closing a []) (hreach : Reachable Anyhow m)
    (hthere : m.world.hasArbiter a) (hP : ∀ m₁, Run P m m₁ → m₁.Winding a) : m.Closes P a where
  vacated m₁ m₂ m₃ new hrun hgoes htrace hended howner hrun' := by
    obtain ⟨since, hsince⟩ := hrun.trace
    have hm₁ : Reachable Anyhow m₁ := hreach.run hrun.anyhow
    obtain ⟨_, hdeed, hnew⟩ := hgoes.deed (a := a) hm₁.placed
    obtain rfl := List.append_cancel_right (htrace.symm.trans hnew)
    obtain ⟨hclosing, hclears⟩ :=
      ((hrun.strengthen hP).closing hreach hm hsince).goes hgoes hdeed hm₁.linked (hP m₁ hrun)
    have hm₂ := hrun.next hgoes hrun'.start
    have hwinding : Run (Winding a) m₂ m₃ := hrun'.strengthen fun m₄ h => hP m₄ (hm₂.trans h)
    have hvacated := hwinding.vacated (hm₁.next hgoes trivial) hclosing
      (hclears.ended hended howner)
    exact ⟨hvacated, hvacated.released ((hm₂.trans hrun').hasArbiter hthere)⟩
  kept m₁ since hrun htrace howner slot := by
    have hclosing := (hrun.strengthen hP).closing hreach hm htrace
    cases hclosing.clearing with
    | whole hfreed => exact hfreed slot
    | @sweeping other _ hmem =>
      have hframe : .reclaim a other ∈ m₁.frames a := mem_frames.2 ⟨hmem, by simp [Activation.isOf]⟩
      exact absurd (hclosing.sound.books.idle _ hframe rfl) howner
    | empty h => exact absurd (h.vacated hclosing.sound hclosing.shut).owner howner
  whole m₁ since hrun htrace hpassing := by
    have hclosing := (hrun.strengthen hP).closing hreach hm htrace
    cases hclosing.clearing with
    | whole hfreed => exact .inl hfreed
    | sweeping _ hmem => exact absurd (.inr ⟨_, hmem, by simp [Activation.isPass]⟩) hpassing
    | empty h => exact .inr (h.vacated hclosing.sound hclosing.shut)

end Machine

end SharedBus
