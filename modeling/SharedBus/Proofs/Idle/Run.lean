import SharedBus.Proofs.Custody
import SharedBus.Proofs.Draining.Pass
import SharedBus.Proofs.Idle.Hook

/-! # The idle hook tells the truth

What was detached before the hook is called is free when it is called, and a pass calls the hook at
most once, as the last thing it does.
-/
namespace SharedBus

open Machine

section
variable {a : ArbiterId} {m m' : Machine} {new : List Event}

/-! ## Detached slots -/

/-- A free slot stays free until it is claimed. -/
theorem Deed.free (h : Deed a m m' new) {slot : SlotId} (hslot : slot ∈ (m.books a).free) :
    slot ∈ (m'.books a).free ∨ .claimed a slot ∈ new := by
  cases h with
  | quiet h => exact .inl (h.books ▸ hslot)
  | build hx =>
    rw [hx] at hslot
    exact absurd (SlotSet.mem_first.1 hslot) (Nat.not_lt_zero _)
  | attach _ _ _ hx' | refuse _ _ hx' | bind _ _ hx' | detach _ _ hx' | uninstall _ _ _ hx'
  | mark _ _ _ hx' | release _ _ hx' | request _ hx' | job _ hx' | owner _ _ hx' | endPass _ _ hx'
  | skipTurn _ _ hx' | beginTurn _ _ hx' | endTurn _ _ hx' =>
    rw [hx']
    exact .inl hslot
  | @claim _ _ _ _ other _ _ _ _ _ _ hx' =>
    by_cases hother : slot = other
    · exact .inr (by simp [hother])
    · rw [hx']
      exact .inl (SlotSet.mem_erase.2 ⟨hslot, hother⟩)
  | serve hserves hto =>
    obtain ⟨_, hfree, _⟩ := hserves.books
    obtain ⟨_, _, hx'⟩ := hto.frame
    rw [hx']
    exact .inl (hfree ▸ hslot)
  | reclaim _ _ hto =>
    obtain ⟨_, _, hx'⟩ := hto.frame
    rw [hx']
    exact .inl (SlotSet.mem_insert.2 (.inl hslot))

/-- The slot is on its way out, or free; if it has not been bound since, it is not bound then. -/
def Machine.Vacates (a : ArbiterId) (slot : SlotId) (since : List Event) (m : Machine) : Prop :=
  m.Leaving a slot ∨ slot ∈ (m.books a).free ∧
    ((∀ b, .bound a slot b ∉ since) → (m.books a).binding slot = none)

theorem Deed.vacates (h : Deed a m m' new) {slot : SlotId} {since : List Event}
    (hm : m.Vacates a slot since) (hclaimed : .claimed a slot ∉ new) :
    m'.Vacates a slot (new ++ since) := by
  rcases hm with hleaving | ⟨hfree, hunbound⟩
  · exact (hleaving.kept h).imp_right fun hfreed =>
      ⟨(h.vacated hfreed).1, fun _ => (h.vacated hfreed).2⟩
  · refine .inr ⟨(h.free hfree).resolve_right hclaimed, fun hbound => ?_⟩
    rcases h.binding slot with hsame | ⟨b, hnew, _⟩ | ⟨_, hnone⟩
    · rw [hsame]
      exact hunbound fun b hmem => hbound b (List.mem_append_right _ hmem)
    · exact absurd (List.mem_append_left _ hnew) (hbound b)
    · exact hnone

end

namespace Machine

variable {a : ArbiterId} {m : Machine} {P : Machine → Prop}

theorem Reachable.vacates (h : Reachable P m) {slot : SlotId} {c : ClientId}
    {newer older : List Event} (htrace : m.trace = newer ++ .marked a slot c :: older)
    (hclaimed : .claimed a slot ∉ newer) : m.Vacates a slot newer := by
  revert newer
  refine h.deed_induction (a := a) (I := fun m => ∀ {newer : List Event},
    m.trace = newer ++ .marked a slot c :: older → .claimed a slot ∉ newer →
      m.Vacates a slot newer) (fun w _ newer htrace => ?_) fun m m' new _ _ hdeed hnew ih => ?_
  · cases newer <;> cases htrace
  · intro newer htrace hclaimed
    rcases List.append_eq_append_iff.1 (hnew.symm.trans htrace) with
      ⟨since, rfl, hsince⟩ | ⟨rest, rfl, hrest⟩
    · rw [List.mem_append, not_or] at hclaimed
      exact hdeed.vacates (ih hsince hclaimed.2) hclaimed.1
    · cases rest with
      | nil =>
        simpa using hdeed.vacates (@ih [] hrest.symm List.not_mem_nil) (by simpa using hclaimed)
      | cons e rest =>
        obtain ⟨rfl, _⟩ := List.cons.inj hrest
        obtain ⟨_, _, _, _, _, _, hmarked⟩ :=
          hdeed.origin (List.mem_append_right _ List.mem_cons_self) (by simp [Event.isOf])
        exact .inl (.inl hmarked)

/-! ## From the beginning of a pass to its end -/

/-- What a pass has come to after so many steps: whether its consumer was told, and what has
happened since. -/
structure Along (a : ArbiterId) (m : Machine) (j : Nat) : Prop where
  told : .idle a ∈ (m.after j).stack → ∃ k ≤ j, (m.after k).TellsIdle a
  resting : ∀ k ≤ j, (m.after k).TellsIdle a → (m.after j).Resting a
  once : ∀ k < j, (m.after k).TellsIdle a → ¬ (m.after j).TellsIdle a
  quiet : ∀ k ≤ j, (m.after k).TellsIdle a → ∀ since,
    (m.after j).trace = since ++ (m.after k).trace → ∀ e ∈ since, e.isProgress a = false
  ends : 0 < j → ¬ (m.after j).Passing a → (∃ k < j, (m.after k).TellsIdle a) ∨
    ((m.after j).books a).owner ≠ none ∨ ((m.after j).books a).pending.isEmpty = false

theorem Reachable.resting_of_tellsIdle (h : Reachable PassesApart m) (htells : m.TellsIdle a) :
    m.Resting a ∧ (m.books a).owner = none ∧ (m.books a).pending.isEmpty ∧
      (m.books a).detaching.isEmpty := by
  revert htells
  refine h.induction (I := fun m => m.TellsIdle a → m.Resting a ∧ (m.books a).owner = none ∧
    (m.books a).pending.isEmpty ∧ (m.books a).detaching.isEmpty)
    (fun w _ htells => by cases htells) fun m m' hm _ hgoes _ htells => ?_
  obtain ⟨_, hdeed, _⟩ := hgoes.deed (a := a) hm.placed
  exact hdeed.resting_of_tellsIdle hgoes hm.holds hm.lone htells

variable {race : Race} {n : Nat} {effect : Effect}

theorem Along.next {j : Nat} (h : Along a m j) (hreach : Reachable PassesApart (m.after j))
    (hgoes : Goes (m.after j) (m.after (j + 1))) (hpassing : (m.after j).Passing a)
    (hbegun : 0 < j → (m.after j).pass? ≠ some a) (hcall : m.control = .call (.pass a race)) :
    Along a m (j + 1) := by
  obtain ⟨new, hdeed, hnew⟩ := hgoes.deed (a := a) hreach.placed
  have hpass : ∀ k ≤ j, (m.after k).TellsIdle a → (m.after j).pass? ≠ some a := by
    intro k hk htells
    refine hbegun (Nat.pos_of_ne_zero ?_)
    rintro rfl
    obtain rfl := Nat.le_zero.1 hk
    cases hcall.symm.trans htells
  have hstep : ∀ k ≤ j, (m.after k).TellsIdle a →
      (m.after (j + 1)).Resting a ∧ ∀ e ∈ new, e.isProgress a = false := fun k hk htells =>
    hdeed.resting hreach.linked (h.resting k hk htells) (hpass k hk htells)
  constructor
  case told =>
    intro hmem
    rcases hdeed.idle_pushed hmem with hold | htells
    · obtain ⟨k, hk, htells⟩ := h.told hold
      exact ⟨k, Nat.le_succ_of_le hk, htells⟩
    · exact ⟨j + 1, Nat.le_refl _, htells⟩
  case resting =>
    intro k hk htells
    rcases Nat.le_succ_iff.1 hk with hk | rfl
    · exact (hstep k hk htells).1
    · exact (hdeed.resting_of_tellsIdle hgoes hreach.holds hreach.lone htells).1
  case once =>
    intro k hk htells
    have hk : k ≤ j := Nat.le_of_lt_succ hk
    exact hdeed.not_tellsIdle hgoes (h.resting k hk htells) (hpass k hk htells)
  case quiet =>
    intro k hk htells since hsince e he
    rcases Nat.le_succ_iff.1 hk with hk | rfl
    · obtain ⟨older, holder⟩ := (Run.after (j - k) (m.after k)).trace
      rw [after_after, Nat.add_sub_cancel' hk] at holder
      obtain rfl := trace_since holder hnew hsince
      rcases List.mem_append.1 he with he | he
      · exact (hstep k hk htells).2 e he
      · exact h.quiet k hk htells older holder e he
    · obtain rfl : since = [] := List.append_left_eq_self.1 hsince.symm
      cases he
  case ends =>
    intro _ hended
    rcases hdeed.ends_pass hpassing hended with hidle | hleft
    · obtain ⟨k, hk, htells⟩ := h.told hidle
      exact .inl ⟨k, Nat.lt_succ_of_le hk, htells⟩
    · exact .inr hleft

theorem Takes.along (ht : m.Takes n effect) (hcall : m.control = .call (.pass a race))
    (hm : Reachable PassesApart m) (hapart : ∀ k ≤ n, (m.after k).PassesApart) :
    (∀ j ≤ n, Along a m j) ∧ 0 < n ∧ ¬ (m.after n).Passing a := by
  obtain ⟨i, ht', hwaits⟩ := takes_within (·.isPass a = true) (fun w back _ => w.within_resume back)
    hcall (ht.ends_begin hcall) (m.world.within_beginPass race)
  obtain ⟨rfl, _⟩ := ht.unique hcall ht'
  have hstack : ∀ f ∈ m.stack, f.isPass a = false := hm.holds a (pass?_of_control hcall)
  have hback : (m.after n).control = .back effect.reply := by
    rw [ht.ends]
    rfl
  refine ⟨?_, Nat.pos_of_ne_zero ?_, ?_⟩
  · refine ht.induction hcall hm hapart (I := fun j _ _ => ∀ i ≤ j, Along a m i) ?_ ?_
    · intro i hi
      obtain rfl := Nat.le_zero.1 hi
      have hnot : ¬ m.TellsIdle a := fun htells => by cases hcall.symm.trans htells
      constructor
      case told => exact fun hmem => by simpa [Activation.isPass] using hstack _ hmem
      case ends => exact fun hlt => absurd hlt (Nat.lt_irrefl 0)
      case once => exact fun k hk => absurd hk (Nat.not_lt_zero k)
      all_goals
        intro k hk htells
        obtain rfl := Nat.le_zero.1 hk
        exact absurd htells hnot
    · intro k _ _ _ _ hreach _ hk hgoes _ _ _ _ halong i hi
      rcases Nat.le_succ_iff.1 hi with hi | rfl
      · exact halong i hi
      have hpass : 0 < k → ∃ f ∈ (m.after k).stack, f.isPass a := fun hpos => hwaits k hpos hk
      refine (halong k (Nat.le_refl k)).next hreach hgoes ?_ (fun hpos hbegun => ?_) hcall
      · rcases Nat.eq_zero_or_pos k with rfl | hpos
        · exact .inl (pass?_of_control hcall)
        · exact .inr (hpass hpos)
      · obtain ⟨f, hf, hisPass⟩ := hpass hpos
        cases hisPass.symm.trans (hapart k (Nat.le_of_lt hk) a hbegun f hf)
  · rintro rfl
    cases hcall.symm.trans hback
  · rintro (hpass | ⟨f, hf, hisPass⟩)
    · simp [pass?, hback] at hpass
    · rw [ht.ends] at hf
      cases hisPass.symm.trans (hstack f hf)

/-! ## Main result -/

/-- While passes keep apart, a consumer is told that the bus is idle only when it is, and when no
request and no detached slot is left over: the detached slots are free then, and not bound unless an
attach that had claimed such a slot before has bound it. Every pass ends. It calls the hook at most
once and does nothing but wait for it from there on, or else it leaves an owner or a request for
which a pass is queued. -/
theorem idle_hook_tells_truth (hm : Reachable PassesApart m) (a : ArbiterId) :
    (m.TellsIdle a → (m.books a).owner = none ∧ (m.books a).pending.isEmpty ∧
      (m.books a).detaching.isEmpty ∧ ∀ slot c newer older,
        m.trace = newer ++ .marked a slot c :: older → .claimed a slot ∉ newer →
          slot ∈ (m.books a).free ∧
            ((∀ b, .bound a slot b ∉ newer) ∨ Reachable PassesAlone m →
              (m.books a).binding slot = none)) ∧
    ∀ race, m.control = .call (.pass a race) → (∃ n effect, m.Takes n effect) ∧
      ∀ n effect, m.Takes n effect → (∀ k ≤ n, (m.after k).PassesApart) →
        (∀ k j, k < j → j ≤ n → (m.after k).TellsIdle a → ¬ (m.after j).TellsIdle a ∧
          ∀ since, (m.after j).trace = since ++ (m.after k).trace →
            ∀ e ∈ since, e.isProgress a = false) ∧
        ((∃ k < n, (m.after k).TellsIdle a) ∨
          let x := effect.world.arbiter a
          x.owner ≠ none ∨ x.owner = none ∧ x.pending.isEmpty = false ∧ x.queued = true) := by
  refine ⟨fun htells => ?_, fun race hcall => ⟨?_, fun n effect ht hapart => ⟨?_, ?_⟩⟩⟩
  · obtain ⟨hresting, howner, hpending, hdetaching⟩ := hm.resting_of_tellsIdle htells
    refine ⟨howner, hpending, hdetaching, fun slot c newer older htrace hclaimed => ?_⟩
    have hgone : ¬ m.Leaving a slot := by
      rintro (hmarked | hreclaim)
      · exact SlotSet.isEmpty_iff.1 hdetaching slot hmarked
      · cases hresting _ hreclaim (by simp [Activation.isPass])
    obtain ⟨hfree, hunbound⟩ := (hm.vacates htrace hclaimed).resolve_left hgone
    refine ⟨hfree, Or.rec hunbound fun halone => ?_⟩
    refine Classical.byContradiction fun hbound => ?_
    have hsound : m.Sound a := halone.sound fun _ h => h
    exact (Arbiter.mem_occupied.1 (hsound.books.occupied slot hbound)).2 hfree
  · obtain ⟨effect, hends, _⟩ := (m.world.begin (.pass a race)).exists_ends
    obtain ⟨n, ht⟩ := takes_of_ends hcall hends
    exact ⟨n, effect, ht⟩
  · obtain ⟨halong, _⟩ := ht.along hcall hm hapart
    intro k j hk hj htells
    exact ⟨(halong j hj).once k hk htells, (halong j hj).quiet k (Nat.le_of_lt hk) htells⟩
  · obtain ⟨halong, hpos, hended⟩ := ht.along hcall hm hapart
    have hcovered := Reachable.covered (hm.anyhow.run (Run.after n m)) hended
    have hworld : (m.after n).world = effect.world := by
      rw [ht.ends]
      rfl
    refine ((halong n (Nat.le_refl n)).ends hpos hended).imp_right fun hleft => ?_
    rw [books, hworld] at hcovered hleft
    cases howner : (effect.world.arbiter a).owner with
    | some owner => exact .inl (by simp [howner])
    | none =>
      have hpending := hleft.resolve_left (by simp [howner])
      exact .inr ⟨howner, hpending, hcovered.2.1 howner hpending⟩

/-- A pass serves one client and gives the slot of the other one back before it calls the hook. -/
theorem idle_hook_tells_truth_detached :
    let actions : List Action := [.build 0 0 (some 2), .attach 0 0 ⟨7⟩ none none,
      .attach 0 1 ⟨8⟩ none none, .notify 1, .detach 0 0, .dispatch 0 none]
    let m := play 56 actions (rest .playground)
    let told := play 63 actions (rest .playground)
    (∃ n effect, m.Takes n effect) ∧ told.TellsIdle 0 ∧ (told.books 0).owner = none ∧
      1 ∈ (told.books 0).free ∧ (told.books 0).binding 1 = none := by
  intro actions m told
  have hm : Reachable PassesApart m :=
    .of_plays World.isInitial_playground 56 actions (by decide +kernel)
  have htold : Reachable PassesApart told :=
    .of_plays World.isInitial_playground 63 actions (by decide +kernel)
  have htells : told.TellsIdle 0 := rfl
  have hcall : m.control = .call (.pass 0 none) := rfl
  let newer := told.trace.takeWhile (· != .marked 0 1 0)
  let older := (told.trace.dropWhile (· != .marked 0 1 0)).tail
  have htrace : told.trace = newer ++ .marked 0 1 0 :: older := by decide +kernel
  obtain ⟨hends, _⟩ := (idle_hook_tells_truth hm 0).2 none hcall
  obtain ⟨howner, _, _, hvacated⟩ := (idle_hook_tells_truth htold 0).1 htells
  obtain ⟨hfree, hunbound⟩ := hvacated 1 0 newer older htrace (by decide +kernel)
  have hbound : ∀ b, .bound 0 1 b ∉ newer := by
    have hnone : ∀ e ∈ newer, (e matches .bound ..) = false := by decide +kernel
    intro b hmem
    cases hnone _ hmem
  exact ⟨hends, htells, howner, hfree, hunbound (.inl hbound)⟩

end Machine

/-- A world whose first client, while it returns the notifier, is detached once more and has its
slot freed. -/
def World.untimely : World where
  queues := [{ bound := some 2 }]
  consumers := [{}]
  clients := [{ hooks := {
    notifier := [[], [.detach 0 0, .dispatch 0 none]]
    completion := []
    error := [] } }, {}, {}]

theorem World.isInitial_untimely : World.untimely.IsInitial where
  arbiters := rfl
  queues := by simp [untimely]
  clients := by simp [untimely]
  notifiers := rfl
  deliveries := rfl

namespace Machine

/-- It is not enough that passes keep apart. A detach that was overtaken marks a slot that is free,
so that a pass frees it under an attach, which binds it although it is free. The next attach claims
it once more and binds it after a detach and a pass: the hook is called while the slot, marked and
not claimed since, is bound. -/
theorem idle_hook_leaves_slot_bound :
    let actions : List Action := [.build 0 0 (some 1), .attach 0 0 ⟨7⟩ none none, .detach 0 0,
      .attach 0 1 ⟨8⟩ none (some [.dispatch 0 none]),
      .attach 0 2 ⟨9⟩ none (some [.detach 0 1, .dispatch 0 none]), .dispatch 0 none]
    let m := play 135 actions (rest .untimely)
    let newer := m.trace.takeWhile (· != .marked 0 0 1)
    Reachable PassesApart m ∧ m.TellsIdle 0 ∧
      (∃ older, m.trace = newer ++ .marked 0 0 1 :: older) ∧ .claimed 0 0 ∉ newer ∧
      (m.books 0).binding 0 = some ⟨2, ⟨9⟩⟩ := by
  intro actions m newer
  have hm : Reachable PassesApart m :=
    .of_plays World.isInitial_untimely 135 actions (by decide +kernel)
  let older := (m.trace.dropWhile (· != .marked 0 0 1)).tail
  have htrace : m.trace = newer ++ .marked 0 0 1 :: older := by decide +kernel
  exact ⟨hm, rfl, ⟨older, htrace⟩, by decide +kernel, by decide +kernel⟩

end Machine

end SharedBus
