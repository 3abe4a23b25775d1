import SharedBus.Proofs.Deed.Run

/-! # No request is left without a pass

A request queues a pass only if it seems to be the first one, and otherwise trusts that a pass is on
its way. The trust is justified: whenever no pass is in progress, whatever is left to do is covered
by a queued pass. While one is in progress it need not be, as far as that pass comes to it itself.
-/
namespace SharedBus

namespace Arbiter

/-- A pass is queued for the owner's own request. -/
def OwnerCovered (x : Arbiter) : Prop := ∀ slot, x.owner = some slot → slot ∈ x.pending → x.queued

/-- A pass is queued for the requests on an idle bus. -/
def PendingCovered (x : Arbiter) : Prop := x.owner = none → x.pending.isEmpty = false → x.queued

/-- A pass is queued for the detached slots of an idle bus. -/
def DetachingCovered (x : Arbiter) : Prop := x.owner = none → x.detaching.isEmpty = false → x.queued

/-- What is covered while the innermost pass waits like this. A pass that is still to serve comes to
all requests itself, and one that gives slots back to all slots that are left. -/
def Covered (x : Arbiter) : Option Activation → Prop
  | some (.owner ..) | some (.serve ..) => x.OwnerCovered
  | some (.reclaim ..) => x.OwnerCovered ∧ x.PendingCovered
  | _ => x.OwnerCovered ∧ x.PendingCovered ∧ x.DetachingCovered

variable {x y : Arbiter} {f : Option Activation} {slot : SlotId} {stage : Stage}

theorem Covered.of_none (h : x.Covered none) (f : Option Activation) : x.Covered f := by
  obtain ⟨howner, hpending, hdetaching⟩ := h
  unfold Covered
  split
  · exact howner
  · exact howner
  · exact ⟨howner, hpending⟩
  · exact ⟨howner, hpending, hdetaching⟩

theorem Covered.owner (h : x.Covered f) : x.OwnerCovered := by
  unfold Covered at h
  split at h
  · exact h
  · exact h
  · exact h.1
  · exact h.1

theorem covered_of_queued (h : x.queued = true) (f : Option Activation) : x.Covered f :=
  Covered.of_none ⟨fun _ _ _ => h, fun _ _ => h, fun _ _ => h⟩ f

/-- Nothing is left to do on a bus without requests and detached slots. -/
theorem covered_of_isEmpty (hpending : x.pending.isEmpty)
    (hdetaching : x.owner = none → x.detaching.isEmpty) : x.Covered none := by
  refine ⟨fun slot _ hslot => ?_, fun _ h => ?_, fun howner h => ?_⟩
  · exact absurd hslot (SlotSet.isEmpty_iff.1 hpending slot)
  · simp [hpending] at h
  · simp [hdetaching howner] at h

theorem Covered.congr (h : x.Covered f) (howner : y.owner = x.owner)
    (hpending : y.pending = x.pending) (hdetaching : y.detaching = x.detaching)
    (hqueued : y.queued = x.queued) : y.Covered f := by
  simpa only [Covered, OwnerCovered, PendingCovered, DetachingCovered, howner, hpending, hdetaching,
    hqueued] using h

theorem Covered.setPending (h : x.Covered f) (slot : SlotId) :
    { x.setPending slot with queued := x.queued || x.wantsPass slot }.Covered f := by
  cases hwants : x.wantsPass slot with
  | true => exact covered_of_queued (by simp) f
  | false =>
    -- the request trusts in a pass: the bus has another owner, or was asked for already
    have howner : { x.setPending slot with queued := x.queued || false }.OwnerCovered := by
      intro owner how hmem
      have hne : owner ≠ slot := by
        rintro rfl
        simp [wantsPass, show x.owner = some owner from how] at hwants
      have hold : owner ∈ x.pending := by simpa [Arbiter.setPending, hne] using hmem
      simpa using h.owner owner how hold
    have hpending : x.PendingCovered →
        { x.setPending slot with queued := x.queued || false }.PendingCovered := by
      intro hp how _
      have hsome : x.pending.isEmpty = false := by
        simpa [wantsPass, show x.owner = none from how] using hwants
      simpa using hp how hsome
    have hdetaching : x.DetachingCovered →
        { x.setPending slot with queued := x.queued || false }.DetachingCovered := by
      intro hd how hsome
      simpa using hd how hsome
    unfold Covered at h ⊢
    split at h
    · exact howner
    · exact howner
    · exact ⟨howner, hpending h.2⟩
    · exact ⟨howner, hpending h.2.1, hdetaching h.2.2⟩

/-- What a pass has covered when it gives way at a stage. -/
def CoveredAt (x : Arbiter) : Stage → Prop
  | .turn _ => x.OwnerCovered
  | .reclaim _ => x.OwnerCovered ∧ x.PendingCovered
  | .idle | .ended => x.Covered none

theorem ReclaimsTo.coveredAt (h : x.ReclaimsTo y stage) (howner : x.OwnerCovered)
    (hpending : x.PendingCovered) : y.CoveredAt stage := by
  cases h with
  | @reclaim slot hidle hslot =>
    refine ⟨fun owner how _ => ?_, fun _ hsome => ?_⟩
    · exact absurd (hidle.symm.trans how) (by simp)
    · apply hpending hidle
      rw [← Bool.not_eq_true, SlotSet.isEmpty_iff]
      intro hnone
      rw [← Bool.not_eq_true, SlotSet.isEmpty_iff] at hsome
      exact hsome fun other hother => hnone other (SlotSet.mem_erase.1 hother).1
  | idle hnone hdone => exact covered_of_isEmpty hnone hdone
  | ended hsome hdone =>
    refine ⟨howner, hpending, fun hidle hdetaching => ?_⟩
    simp [hdone hidle] at hdetaching

theorem ServesTo.coveredAt (h : x.ServesTo y stage) (howner : x.OwnerCovered) :
    y.CoveredAt stage := by
  cases h with
  | ended how =>
    refine ⟨howner, fun hidle => ?_, fun hidle => ?_⟩
    · exact absurd (hidle.symm.trans how) (by simp)
    · exact absurd (hidle.symm.trans how) (by simp)
  | turn hidle _ => exact fun owner how _ => absurd (hidle.symm.trans how) (by simp)
  | reclaim hidle hnone h =>
    refine h.coveredAt howner fun _ hsome => ?_
    simp [hnone] at hsome

end Arbiter

namespace Machine

variable {a : ArbiterId} {m m' : Machine} {new : List Event} {P : Machine → Prop}

/-- A pass of the arbiter is in progress, or starts now. -/
def Passing (a : ArbiterId) (m : Machine) : Prop :=
  m.pass? = some a ∨ ∃ f ∈ m.stack, f.isPass a

/-- The pass of the arbiter that is next to go on. -/
def innermost (m : Machine) (a : ArbiterId) : Option Activation := m.stack.find? (·.isPass a)

/-- Until a pass starts, the passes in progress and the queued one cover what is left to do. -/
def Awake (a : ArbiterId) (m : Machine) : Prop :=
  m.pass? ≠ some a → (m.books a).Covered (m.innermost a)

theorem innermost_eq_find?_frames : m.innermost a = (m.frames a).find? (·.isPass a) := by
  unfold innermost frames
  rw [List.find?_filter]
  congr 1
  funext f
  cases f <;> simp [Activation.isPass, Activation.isOf] <;> rfl

theorem innermost_of_not_passing (h : ¬ m.Passing a) : m.innermost a = none := by
  refine List.find?_eq_none.2 fun f hf hpass => ?_
  exact h (.inr ⟨f, hf, hpass⟩)

theorem pass?_eq_some : m.pass? = some a ↔ ∃ race, m.control = .call (.pass a race) := by
  constructor
  · intro h
    unfold pass? at h
    split at h
    · cases h
      exact ⟨_, by assumption⟩
    · cases h
  · rintro ⟨race, h⟩
    exact pass?_of_control h

theorem Follows.innermost {next : Next} {stack : List Activation} (h : m'.Follows next stack)
    (hwaiting : ∀ f ∈ next.waiting?, f.isPass a = false) :
    m'.innermost a = stack.find? (·.isPass a) := by
  cases next with
  | reply reply => simp [Machine.innermost, h.2]
  | call call waiting => simp [Machine.innermost, h.2, hwaiting waiting rfl]

private theorem Awake.of_stage {race : Race} {stage : Stage} {rest : List Activation}
    (h : (m'.books a).CoveredAt stage) (hnext : m'.Follows (stage.next a race) rest) :
    m'.Awake a := by
  intro _
  cases stage with
  | turn slot =>
    have hinner : m'.innermost a = some (.serve a slot race) := by
      simp [Machine.innermost, hnext.2, Activation.isPass]
    rw [hinner]
    exact h
  | reclaim slot =>
    have hinner : m'.innermost a = some (.reclaim a slot) := by
      simp [Machine.innermost, hnext.2, Activation.isPass]
    rw [hinner]
    exact h
  | idle => exact h.of_none _
  | ended => exact h.of_none _

/-- Most deeds neither touch what a pass would come to nor begin or end a pass. -/
private theorem Awake.of_follows (hm : m.Awake a) (hpass : m.pass? = none)
    (hx : ∀ f, (m.books a).Covered f → (m'.books a).Covered f) {next : Next}
    {stack : List Activation} (hstack : stack.find? (·.isPass a) = m.innermost a)
    (hwaiting : ∀ f ∈ next.waiting?, f.isPass a = false) (hnext : m'.Follows next stack) :
    m'.Awake a := by
  intro _
  rw [hnext.innermost hwaiting, hstack]
  exact hx _ (hm (by simp [hpass]))

end Machine

open Machine

theorem Machine.Serves.ownerCovered {a : ArbiterId} {m : Machine} {race : Race} {x : Arbiter}
    {rest : List Activation} {new : List Event} (h : Serves a m race x rest new) (hm : m.Awake a) :
    x.OwnerCovered := by
  cases h with
  | idle _ howner => exact fun owner how _ => absurd (howner.symm.trans how) (by simp)
  | kept hback _ _ | passed hback _ _ => exact (hm (by simp [pass?, hback])).owner
  | left => exact fun _ how _ => absurd how (by simp)
  | took _ _ _ _ _ =>
    intro owner how hmem
    obtain rfl := Option.some.inj how
    simp [show (m.books a).pending.contains _ = true from hmem]

/-- Every deed leaves the bus covered. -/
theorem Deed.awake {a : ArbiterId} {m m' : Machine} {new : List Event} (h : Deed a m m' new)
    (hm : m.Awake a) : m'.Awake a := by
  cases h with
  | quiet h =>
    intro _
    rw [h.books, innermost_eq_find?_frames, h.frames, ← innermost_eq_find?_frames]
    refine hm fun hpass => ?_
    obtain ⟨race, hcall⟩ := pass?_eq_some.1 hpass
    exact h.not_pass race hcall
  | build _ hx' =>
    intro _
    rw [hx']
    exact (Arbiter.covered_of_isEmpty rfl fun _ => rfl).of_none _
  | mark _ _ _ hx' => exact fun _ => Arbiter.covered_of_queued (by rw [hx']) _
  | serve h hto hnext => exact .of_stage (hto.coveredAt (h.ownerCovered hm)) hnext
  | @reclaim reply slot rest stage hback hstack hto hnext =>
    have hcovered := hm (by simp [pass?, hback])
    rw [show m.innermost a = some (.reclaim a slot) by
      simp [Machine.innermost, hstack, Activation.isPass]] at hcovered
    exact .of_stage (hto.coveredAt hcovered.1 hcovered.2) hnext
  | attach hcall _ _ hx' hnext =>
    exact hm.of_follows (by simp [pass?, hcall]) (fun f h => by rwa [hx']) rfl
      (by simp [Activation.isPass]) hnext
  | detach haction _ hx' hnext =>
    obtain ⟨_, hcall⟩ := haction
    exact hm.of_follows (by simp [pass?, hcall]) (fun f h => by rwa [hx']) rfl
      (by simp [Activation.isPass]) hnext
  | refuse hback hstack hx' _ hnext | endTurn hback hstack hx' hnext =>
    refine hm.of_follows (by simp [pass?, hback]) (fun f h => by rwa [hx']) ?_ (by simp) hnext
    simp [Machine.innermost, hstack, Activation.isPass]
  | claim hback hstack _ _ _ hx' hnext | bind hback hstack hx' hnext =>
    refine hm.of_follows (by simp [pass?, hback]) (fun f h => ?_) ?_ (by simp [Activation.isPass])
      hnext
    · rw [hx']
      exact h.congr rfl rfl rfl rfl
    · simp [Machine.innermost, hstack, Activation.isPass]
  | uninstall hback hstack _ hx' hnext =>
    refine hm.of_follows (by simp [pass?, hback]) (fun f h => by rwa [hx']) ?_
      (by simp [Activation.isPass]) hnext
    simp [Machine.innermost, hstack, Activation.isPass]
  | release haction _ hx' hnext =>
    obtain ⟨_, hcall⟩ := haction
    refine hm.of_follows (by simp [pass?, hcall]) (fun f h => ?_) rfl (by simp) hnext
    rw [hx']
    exact h.congr rfl rfl rfl rfl
  | @request slot _ _ haction hx' _ _ hnext =>
    have hpass : m.pass? = none := by
      unfold request? at haction
      split at haction
      · rename_i hcall
        simp [pass?, hcall]
      · cases haction
    refine hm.of_follows hpass (fun f h => ?_) rfl (by simp) hnext
    rw [hx']
    exact h.setPending slot
  | job _ _ hnext =>
    intro hpass
    exact absurd (pass?_of_control hnext.1) hpass
  | @owner race slot _ howner hx' hnext =>
    intro _
    rw [show m'.innermost a = some (.owner a race) by
      simp [Machine.innermost, hnext.2, Activation.isPass], hx']
    intro owner how hmem
    obtain rfl : slot = owner := Option.some.inj (howner.symm.trans how)
    simp [Arbiter.clearPending] at hmem
  | endPass hback hstack hx' _ =>
    intro _
    have hcovered := hm (by simp [pass?, hback])
    rw [show m.innermost a = some (.idle a) by
      simp [Machine.innermost, hstack, Activation.isPass], ← hx'] at hcovered
    exact Arbiter.Covered.of_none hcovered _
  | skipTurn hcall _ hx' hnext =>
    exact hm.of_follows (by simp [pass?, hcall]) (fun f h => by rwa [hx']) rfl (by simp) hnext
  | beginTurn hcall _ hx' hnext =>
    exact hm.of_follows (by simp [pass?, hcall]) (fun f h => by rwa [hx']) rfl
      (by simp [Activation.isPass]) hnext

theorem Machine.Reachable.awake {a : ArbiterId} {m : Machine} {P : Machine → Prop}
    (h : Reachable P m) : m.Awake a := by
  refine h.deed_induction (fun w hw _ => ?_) fun m m' _ _ _ hdeed _ ih => hdeed.awake ih
  rw [books_rest hw]
  exact (Arbiter.covered_of_isEmpty rfl fun _ => rfl).of_none _

/-! ## The queued pass waits in the queue -/

private theorem Machine.Serves.queued {a : ArbiterId} {m : Machine} {race : Race} {x : Arbiter}
    {rest : List Activation} {new : List Event} (h : Serves a m race x rest new) :
    x.queue = (m.books a).queue ∧ m.control ≠ .call (.job (.pass a)) ∧
      (x.queued = true → (m.books a).queued = true ∨
        ∃ room, .queued (m.books a).queue (.pass a) room ∈ new) := by
  cases h with
  | idle hcall => exact ⟨rfl, by simp [hcall], .inl⟩
  | kept hback | left hback | passed hback => exact ⟨rfl, by simp [hback], .inl⟩
  | @took _ slot _ _ hback _ _ _ hpost =>
    refine ⟨rfl, by simp [hback], fun hqueued => ?_⟩
    cases hold : (m.books a).queued with
    | true => exact .inl rfl
    | false => exact .inr (hpost (by simpa [hold] using hqueued) hold)

/-- The flag rises only with a job that is handed to the queue. -/
theorem Deed.queued {a : ArbiterId} {m m' : Machine} {new : List Event} (h : Deed a m m' new)
    (hqueued : (m'.books a).queued = true) : (m'.books a).queue = (m.books a).queue ∧
      ((m.books a).queued = true ∧ m.control ≠ .call (.job (.pass a)) ∨
        ∃ room, .queued (m.books a).queue (.pass a) room ∈ new) := by
  cases h with
  | quiet h => exact ⟨by rw [h.books], .inl ⟨by rwa [← h.books], h.not_job⟩⟩
  | build _ hx' =>
    rw [hx'] at hqueued
    cases hqueued
  | attach hcall _ _ hx' | skipTurn hcall _ hx' | beginTurn hcall _ hx' =>
    rw [hx'] at hqueued ⊢
    exact ⟨rfl, .inl ⟨hqueued, by simp [hcall]⟩⟩
  | detach haction _ hx' | release haction _ hx' =>
    obtain ⟨_, hcall⟩ := haction
    rw [hx'] at hqueued ⊢
    exact ⟨rfl, .inl ⟨hqueued, by simp [hcall]⟩⟩
  | refuse hback _ hx' | claim hback _ _ _ _ hx' | bind hback _ hx' | uninstall hback _ _ hx'
  | endPass hback _ hx' | endTurn hback _ hx' =>
    rw [hx'] at hqueued ⊢
    exact ⟨rfl, .inl ⟨hqueued, by simp [hback]⟩⟩
  | @mark _ _ _ _ _ room hback _ _ hx' =>
    rw [hx']
    refine ⟨rfl, ?_⟩
    cases hold : (m.books a).queued with
    | true => exact .inl ⟨rfl, by simp [hback]⟩
    | false => exact .inr ⟨room, by simp [Arbiter.scheduling, hold]⟩
  | @request slot _ _ haction hx' _ hpost =>
    rw [hx'] at hqueued ⊢
    refine ⟨rfl, ?_⟩
    cases hold : (m.books a).queued with
    | true =>
      refine .inl ⟨rfl, fun hjob => ?_⟩
      simp [request?, hjob] at haction
    | false =>
      obtain ⟨room, hroom⟩ := hpost (by simpa [hold] using hqueued) hold
      exact .inr ⟨room, List.mem_append_left _ hroom⟩
  | job _ hx' =>
    rw [hx'] at hqueued
    cases hqueued
  | owner hcall _ hx' =>
    rw [hx'] at hqueued ⊢
    exact ⟨rfl, .inl ⟨hqueued, by simp [hcall]⟩⟩
  | serve h hto =>
    obtain ⟨hqueue, hjob, hpost⟩ := h.queued
    obtain ⟨_, _, hx'⟩ := hto.frame
    rw [hx'] at hqueued ⊢
    refine ⟨hqueue, ?_⟩
    rcases hpost hqueued with hold | ⟨room, hroom⟩
    · exact .inl ⟨hold, hjob⟩
    · exact .inr ⟨room, List.mem_append_right _ hroom⟩
  | reclaim hback _ hto =>
    obtain ⟨_, _, hx'⟩ := hto.frame
    rw [hx'] at hqueued ⊢
    exact ⟨rfl, .inl ⟨hqueued, by simp [hback]⟩⟩

namespace Machine

variable {a : ArbiterId} {m m' : Machine} {P : Machine → Prop}

/-- No pass of the arbiter was dropped by its queue. -/
def Undropped (a : ArbiterId) (m : Machine) : Prop :=
  .queued (m.books a).queue (.pass a) false ∉ m.trace

/-- A pass of the arbiter waits in its queue. -/
def Waiting (a : ArbiterId) (m : Machine) : Prop :=
  .pass a ∈ (m.world.queue (m.books a).queue).entries

/-- The queued pass waits, unless it has been taken from the queue in this very moment. -/
def Posted (a : ArbiterId) (m : Machine) : Prop :=
  m.Undropped a → (m.books a).queued = true → m.Waiting a ∨ m.control = .call (.job (.pass a))

theorem Reachable.posted (h : Reachable P m) : m.Posted a := by
  refine h.induction (fun w hw _ hqueued => ?_) fun m m' hm hm' hgoes ih hundropped hqueued => ?_
  · rw [books_rest hw] at hqueued
    cases hqueued
  · obtain ⟨new, hdeed, htrace⟩ := hgoes.deed (a := a) hm.placed
    obtain ⟨hqueue, hcase⟩ := hdeed.queued hqueued
    unfold Undropped at hundropped
    unfold Waiting
    rw [htrace, List.mem_append, not_or, hqueue] at hundropped
    rw [hqueue]
    rcases hcase with ⟨hold, hjob⟩ | ⟨room, hnew⟩
    · exact hgoes.kept ((ih hundropped.2 hold).resolve_right hjob)
    · have hne : m'.books a ≠ default := by
        intro hdefault
        rw [hdefault] at hqueued
        cases hqueued
      have hlt := World.lt_length_of_arbiter_ne hne
      have hq := hm'.lt_length_queues hlt
      rw [hqueue, hgoes.length_queues] at hq
      cases room with
      | true => exact .inl (hgoes.put htrace hq hnew)
      | false => exact absurd hnew hundropped.1

/-! ## Emptying a queue -/

/-- The outermost activation empties the queue, or has done so. -/
def Emptying (q : QueueId) (m : Machine) : Prop :=
  (∃ above ran silent, m.stack = above ++ [.drain q ran silent]) ∨
    m.isFinished ∧ (m.world.queue q).entries = []

private theorem emptying_drain (w : World) (q : QueueId) (ran : Nat) (silent : Bool)
    (trace : List Event) : (follow (w.drain q ran silent) [] trace).Emptying q := by
  unfold World.drain
  split
  · rename_i hpop
    refine .inr ⟨rfl, ?_⟩
    unfold WorkQueue.pop? at hpop
    split at hpop
    · assumption
    · cases hpop
  · exact .inl ⟨[], _, _, rfl⟩

private theorem emptying_follow {q : QueueId} {ran : Nat} {silent : Bool} (outcome : Outcome)
    (above : List Activation) (trace : List Event) :
    (follow outcome (above ++ [.drain q ran silent]) trace).Emptying q := by
  obtain ⟨w, next, events⟩ := outcome
  cases next with
  | reply reply => exact .inl ⟨above, _, _, rfl⟩
  | call call waiting => exact .inl ⟨waiting :: above, _, _, rfl⟩

theorem Emptying.step {q : QueueId} (hm : m.Emptying q) : m.step.Emptying q := by
  rcases hm with ⟨above, ran, silent, hstack⟩ | ⟨hfin, hempty⟩
  · cases hcontrol : m.control with
    | call call =>
      rw [step_of_call hcontrol, hstack]
      exact emptying_follow _ _ _
    | back reply =>
      cases above with
      | nil =>
        rw [step_of_back hcontrol hstack]
        exact emptying_drain _ _ _ _ _
      | cons f above =>
        rw [step_of_back hcontrol hstack]
        exact emptying_follow _ _ _
  · rw [step_of_isFinished hfin]
    exact .inr ⟨hfin, hempty⟩

private theorem Emptying.after {q : QueueId} {n : Nat} (hm : m.Emptying q) :
    (m.after n).Emptying q := by
  induction n generalizing m with
  | zero => exact hm
  | succ n ih =>
    rw [after_succ]
    exact ih hm.step

/-- An action that empties a queue leaves nothing in it. -/
theorem entries_of_drain {q : QueueId} {action : Action} (hq : m.world.hasQueue q)
    (haction : action = .runPending q ∨ action = .drain q) :
    ((m.perform action).run.world.queue q).entries = [] := by
  have hstep : (m.perform action).step.Emptying q := by
    rcases haction with rfl | rfl
    · have hbegin : m.world.begin (.perform (.runPending q)) = m.world.drain q 0 false := if_pos hq
      show (follow (m.world.begin _) [] m.trace).Emptying q
      rw [hbegin]
      exact emptying_drain _ _ _ _ _
    · have hbegin : m.world.begin (.perform (.drain q)) = m.world.drain q 0 true := if_pos hq
      show (follow (m.world.begin _) [] m.trace).Emptying q
      rw [hbegin]
      exact emptying_drain _ _ _ _ _
  have hpos : (m.perform action).potential ≠ 0 := by
    have hlt := potential_step_lt (m := m.perform action) rfl
    omega
  obtain ⟨n, hn⟩ := Nat.exists_eq_add_one_of_ne_zero hpos
  have hrun : (m.perform action).run = (m.perform action).step.after n := by
    rw [run, hn, after_succ]
  have hfin := isFinished_run (m.perform action)
  rw [hrun] at hfin ⊢
  rcases hstep.after (n := n) with ⟨above, _, _, hstack⟩ | ⟨_, hempty⟩
  · rw [(isFinished_iff.1 hfin).2] at hstack
    simp at hstack
  · exact hempty

/-- Nobody waits but for the owner. -/
def Settled (a : ArbiterId) (m : Machine) : Prop :=
  (m.books a).owner = none ∧ (m.books a).pending.isEmpty ∧ (m.books a).detaching.isEmpty ∨
    ∃ slot, (m.books a).owner = some slot ∧ slot ∉ (m.books a).pending

theorem Reachable.covered (hm : Reachable P m) (h : ¬ m.Passing a) : (m.books a).Covered none := by
  rw [← innermost_of_not_passing h]
  exact hm.awake fun hpass => h (.inl hpass)

/-- With its queue empty, nothing covers an arbiter any more. -/
theorem Reachable.settled (hm : Reachable P m) (hfin : m.isFinished) (hundropped : m.Undropped a)
    (hempty : (m.world.queue (m.books a).queue).entries = []) : m.Settled a := by
  obtain ⟨⟨reply, hback⟩, hstack⟩ := isFinished_iff.1 hfin
  obtain ⟨howner, hpending, hdetaching⟩ :=
    hm.covered (a := a) (by simp [Passing, pass?, hback, hstack])
  have hunqueued : (m.books a).queued ≠ true := by
    intro hqueued
    rcases hm.posted hundropped hqueued with hwaiting | hjob
    · unfold Waiting at hwaiting
      rw [hempty] at hwaiting
      cases hwaiting
    · simp [hback] at hjob
  cases hidle : (m.books a).owner with
  | none =>
    refine .inl ⟨hidle, ?_, ?_⟩
    · exact (Bool.eq_false_or_eq_true _).resolve_right fun h => hunqueued (hpending hidle h)
    · exact (Bool.eq_false_or_eq_true _).resolve_right fun h => hunqueued (hdetaching hidle h)
  | some slot => exact .inr ⟨slot, hidle, fun hmem => hunqueued (howner slot hidle hmem)⟩

/-! ## Main result -/

/-- Whenever no pass is in progress, a queued pass covers all that is left to do. It waits in the
queue of the arbiter, unless that has dropped one. So once the queue has been emptied, nobody waits
but for the owner. -/
theorem no_lost_wakeup (hm : Reachable Anyhow m) (a : ArbiterId) :
    (¬ m.Passing a → (m.books a).OwnerCovered ∧ (m.books a).PendingCovered ∧
      (m.books a).DetachingCovered) ∧
    (m.Undropped a → (m.books a).queued = true →
      m.Waiting a ∨ m.control = .call (.job (.pass a))) ∧
    (m.isFinished → m.Undropped a → (m.world.queue (m.books a).queue).entries = [] →
      m.Settled a) ∧
    (m.isFinished → ∀ q action, m.world.hasQueue q → action = .runPending q ∨ action = .drain q →
      let m' := (m.perform action).run
      m'.isFinished ∧ (m'.world.queue q).entries = [] ∧
        ((m'.books a).queue = q → m'.Undropped a → m'.Settled a)) := by
  refine ⟨hm.covered, hm.posted, hm.settled, ?_⟩
  intro hfin q action hq haction m'
  have hm' : Reachable Anyhow m' := (hm.next (.act hfin action) trivial).run (Run.after _ _)
  have hfin' : m'.isFinished := isFinished_run _
  have hempty : (m'.world.queue q).entries = [] := entries_of_drain hq haction
  refine ⟨hfin', hempty, ?_⟩
  rintro rfl hundropped
  exact hm'.settled hfin' hundropped hempty

/-- A request on an idle bus is covered by a pass that waits in the queue. -/
theorem no_lost_wakeup_notify :
    let m := play 40 [.build 0 0 (some 2), .attach 0 0 ⟨7⟩ none none, .notify 0] (rest .playground)
    m.isFinished ∧ (m.books 0).pending.isEmpty = false ∧ (m.books 0).queued = true ∧
      m.Waiting 0 := by
  intro m
  have hreachable : Reachable Anyhow m :=
    .of_plays World.isInitial_playground 40 _ (by decide +kernel)
  have hfin : m.isFinished := by decide +kernel
  have hundropped : m.Undropped 0 := by
    unfold Undropped
    decide +kernel
  have hpassing : ¬ m.Passing 0 := by
    unfold Passing
    decide +kernel
  have hpending : (m.books 0).pending.isEmpty = false := by decide +kernel
  obtain ⟨hcovered, hposted, _⟩ := no_lost_wakeup hreachable 0
  have hqueued := (hcovered hpassing).2.1 (by decide +kernel) hpending
  refine ⟨hfin, hpending, hqueued, (hposted hundropped hqueued).resolve_right ?_⟩
  rw [(isFinished_iff.1 hfin).1.choose_spec]
  exact Control.noConfusion

end Machine

end SharedBus
