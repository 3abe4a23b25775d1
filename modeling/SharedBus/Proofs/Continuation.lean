import SharedBus.Proofs.Calls
import SharedBus.Proofs.Requests
import SharedBus.Proofs.Reservation

/-! # The owner goes on when it has asked

A pass that finds the bus owned gives the owner another turn, so it should have been queued at the
owner's request. That is so for every pass queued while the slot owns the bus. A pass that was
queued before, while the slot had the turn with which it took the bus, may be another slot's.
-/
namespace SharedBus

open Machine

/-! ## Passes that the arbiter has queued -/

/-- The actions that start or queue a pass by hand, or detach a client. -/
def Action.meddles : Action → Bool
  | .dispatch .. | .runJob _ | .enqueueArbiter .. | .detach .. | .detachAll _ => true
  | _ => false

namespace Machine

variable {a : ArbiterId} {m m' : Machine} {slot : SlotId} {new : List Event} {P : Machine → Prop}

/-- Passes run only as the arbiter has queued them, and nobody is detached. -/
def LeftAlone (m : Machine) : Prop := ∀ action ∈ m.action?, action.meddles = false

instance : DecidablePred LeftAlone := fun m =>
  inferInstanceAs (Decidable (∀ action ∈ m.action?, action.meddles = false))

theorem LeftAlone.meddles (h : m.LeftAlone) {action : Action}
    (hcall : m.control = .call (.perform action)) : action.meddles = false :=
  h action (by rw [action?, hcall]; rfl)

theorem LeftAlone.forced? (h : m.LeftAlone) : m.forced? = none := by
  unfold Machine.forced?
  split
  · rename_i hcall
    cases h.meddles hcall
  · rename_i hcall
    cases h.meddles hcall
  · rfl

/-- Nobody is in the middle of a detach. -/
theorem Reachable.not_uninstall (hP : ∀ m, P m → m.LeftAlone) (h : Reachable P m) {c : ClientId}
    {kind : HandleKind} : .uninstall a c slot kind ∉ m.stack := by
  refine h.induction (I := fun m => ∀ kind, .uninstall a c slot kind ∉ m.stack) ?_ ?_ kind
  · exact fun w _ kind hmem => by cases hmem
  · intro m m' hm _ hgoes ih kind hmem
    obtain ⟨_, herrand, _⟩ := hgoes.errand
    rcases herrand.handover.uninstall_pushed hmem with
      hold | ⟨_, _, ⟨_, hdetach⟩ | ⟨last, hlast, _⟩⟩
    · exact ih kind hold
    · cases (hP m hm.holds).meddles (perform_of_detach? hdetach).1
    · exact ih last hlast

/-- When the pass of an arbiter starts, its flag has been set all the while. -/
theorem Reachable.queued_of_job (hP : ∀ m, P m → m.LeftAlone) (h : Reachable P m)
    (hjob : m.control = .call (.job (.pass a))) (ha : a < m.world.arbiters.length) :
    (m.books a).queued = true := by
  have hflagged := h.flagged (fun m hm => (hP m hm).forced?) a ha
  rw [jobs, job?_of_call hjob] at hflagged
  cases hqueued : (m.books a).queued with
  | true => rfl
  | false => simp [hqueued] at hflagged

/-! ## Passes for the owner -/

/-- The slot is about to take the bus and keep it, while a pass is queued that it has not asked
for. -/
def strays (a : ArbiterId) (slot : SlotId) (m : Machine) : Bool :=
  match m.control, m.stack with
  | .back reply, .serve b s _ :: _ => b == a && s == slot && reply.answer.isBusy &&
    (m.books a).queued && !(m.books a).pending.contains slot
  | _, _ => false

theorem strays_of_serve {reply : Reply} {race : Race} {rest : List Activation}
    (hback : m.control = .back reply) (hanswer : reply.answer = .busy)
    (hstack : m.stack = .serve a slot race :: rest) (hqueued : (m.books a).queued = true)
    (hnot : slot ∉ (m.books a).pending) : m.strays a slot = true := by
  simp [strays, hback, hstack, hanswer, hqueued, hnot, Answer.isBusy]

/-- There has been no turn of the slot since the one with which it took the bus, and at the end of
that turn a pass was queued that it had not asked for. -/
def Misled (P : Machine → Prop) (a : ArbiterId) (slot : SlotId) (m : Machine) : Prop :=
  ∃ m₀ since, m₀.strays a slot = true ∧ Reachable P m₀ ∧ Run P m₀ m ∧
    m.trace = since ++ m₀.trace ∧ ∀ e ∈ since, e.isTurn a slot = false

theorem Misled.next (h : m.Misled P a slot) (hgoes : Goes m m') (hm' : P m')
    (htrace : m'.trace = new ++ m.trace) (hnew : ∀ e ∈ new, e.isTurn a slot = false) :
    m'.Misled P a slot := by
  obtain ⟨m₀, since, hstrays, hreach, hrun, hsince, hturn⟩ := h
  refine ⟨m₀, new ++ since, hstrays, hreach, hrun.next hgoes hm', ?_, ?_⟩
  · rw [htrace, hsince, List.append_assoc]
  · exact fun e he => (List.mem_append.1 he).elim (hnew e) (hturn e)

/-- The owner of the bus has asked for another turn, or was misled. -/
def OwnerAsks (P : Machine → Prop) (a : ArbiterId) (m : Machine) : Prop :=
  ∀ slot, (m.books a).owner = some slot → slot ∈ (m.books a).pending ∨ m.Misled P a slot

/-- Every pass of the arbiter that is to come is one that its owner has asked for. -/
structure Backed (P : Machine → Prop) (a : ArbiterId) (m : Machine) : Prop where
  queued : (m.books a).queued = true → m.OwnerAsks P a
  called : ∀ race, m.control = .call (.pass a race) → (m.books a).queued = false ∧ m.OwnerAsks P a

end Machine

theorem Event.isTurn_of_not_isOf {a : ArbiterId} {slot : SlotId} {e : Event}
    (h : e.isOf a = false) : e.isTurn a slot = false :=
  Bool.eq_false_iff.2 fun hturn => by
    cases (settles_of_isTurn hturn).symm.trans (settles_of_not_isOf h)

/-- A pass that goes on while the bus is owned is over. -/
theorem Arbiter.ServesTo.eq_of_owner {x y : Arbiter} {stage : Stage} {slot : SlotId}
    (h : x.ServesTo y stage) (howner : y.owner = some slot) : y = x ∧ stage = .ended := by
  have hsame : y.owner = x.owner := by
    obtain ⟨_, _, rfl⟩ := h.frame
    rfl
  cases h with
  | ended => exact ⟨rfl, rfl⟩
  | turn hnone | reclaim hnone => cases hnone.symm.trans (hsame.symm.trans howner)

section
variable {a : ArbiterId} {m m' : Machine} {new : List Event} {P : Machine → Prop}
  (hP : ∀ m, P m → m.LeftAlone)
include hP

/-- A queued pass stays the owner's: while a slot owns the bus, only its own requests queue one. -/
theorem Deed.ownerAsks (h : Deed a m m' new) (hgoes : Goes m m') (hm : Reachable P m)
    (hm' : P m') (htrace : m'.trace = new ++ m.trace) (hbacked : m.Backed P a)
    (hqueued : (m'.books a).queued = true) : m'.OwnerAsks P a := by
  have hkeep : (∀ slot, ∀ e ∈ new, e.isTurn a slot = false) →
      (∀ slot, (m'.books a).owner = some slot → (m.books a).owner = some slot ∧
        ((m.books a).queued = true ∧ (slot ∈ (m.books a).pending → slot ∈ (m'.books a).pending) ∨
          slot ∈ (m'.books a).pending)) → m'.OwnerAsks P a := by
    intro hnew hsame slot hslot
    rcases hsame slot hslot with ⟨hold, ⟨hset, hpending⟩ | hpending⟩
    · exact (hbacked.queued hset slot hold).imp hpending (·.next hgoes hm' htrace (hnew slot))
    · exact .inl hpending
  cases h with
  | quiet h hnew =>
    refine hkeep (fun _ e he => Event.isTurn_of_not_isOf (hnew e he)) ?_
    rw [h.books] at hqueued ⊢
    exact fun slot hslot => ⟨hslot, .inl ⟨hqueued, id⟩⟩
  | build _ hx' =>
    rw [hx'] at hqueued
    cases hqueued
  | attach _ _ _ hx' | claim _ _ _ _ _ hx' | bind _ _ hx' | detach _ _ hx' | uninstall _ _ _ hx'
  | release _ _ hx' | endPass _ _ hx' | skipTurn _ _ hx' | beginTurn _ _ hx' | endTurn _ _ hx' =>
    rw [hx'] at hqueued hkeep
    refine hkeep (by simp [Event.isTurn]) ?_
    exact fun slot hslot => ⟨hslot, .inl ⟨hqueued, id⟩⟩
  | refuse _ _ hx' hnew =>
    rw [hx'] at hqueued hkeep
    refine hkeep ?_ fun slot hslot => ⟨hslot, .inl ⟨hqueued, id⟩⟩
    rcases hnew with rfl | ⟨_, _, rfl⟩ <;> simp [Event.isTurn]
  | mark _ hstack =>
    exact absurd (hstack ▸ List.mem_cons_self) (hm.not_uninstall hP)
  | @request asked _ _ _ hx' hnew =>
    rw [hx'] at hqueued hkeep
    refine hkeep (fun slot e he => ?_) fun slot hslot => ⟨hslot, ?_⟩
    · rcases List.mem_append.1 he with he | he
      · exact Event.isTurn_of_not_isOf (hnew e he)
      · rw [List.mem_singleton.1 he]
        rfl
    · rcases Bool.or_eq_true_iff.1 hqueued with hset | hwants
      · exact .inl ⟨hset, fun hmem => SlotSet.mem_insert.2 (.inl hmem)⟩
      · have howner : (m.books a).owner = some slot := hslot
        have hself : slot = asked := by simpa [Arbiter.wantsPass, howner] using hwants
        exact .inr (SlotSet.mem_insert.2 (.inr hself))
  | job _ hx' =>
    rw [hx'] at hqueued
    cases hqueued
  | owner hcall _ hx' =>
    rw [hx'] at hqueued
    cases (hbacked.called _ hcall).1.symm.trans hqueued
  | @serve _ x rest before stage h hto hnext =>
    intro slot hslot
    obtain ⟨hsame, rfl⟩ := hto.eq_of_owner hslot
    rw [hsame] at hqueued hslot ⊢
    have hnew : (∀ e ∈ before, e.isOf a = false) →
        ∀ e ∈ (Stage.ended.events a).reverse ++ before, e.isTurn a slot = false := by
      intro hbefore e he
      rcases List.mem_cons.1 he with rfl | he
      · rfl
      · exact Event.isTurn_of_not_isOf (hbefore e he)
    cases h with
    | idle _ howner => cases howner.symm.trans hslot
    | left => cases hslot
    | kept | passed =>
      exact (hbacked.queued hqueued slot hslot).imp_right (·.next hgoes hm' htrace (hnew (by simp)))
    | @took _ taker _ _ hback hanswer hstack hbefore =>
      obtain rfl : taker = slot := Option.some.inj hslot
      by_cases hmem : taker ∈ (m.books a).pending
      · exact .inl hmem
      · have hset : (m.books a).queued = true := by simpa [hmem] using hqueued
        have hstrays := strays_of_serve hback hanswer hstack hset hmem
        exact .inr ⟨m, _, hstrays, hm, .next (.refl hm.holds) hgoes hm', htrace, hnew hbefore⟩
  | reclaim _ _ hto =>
    intro slot hslot
    generalize m'.books a = y at hto hqueued hslot ⊢
    cases hto with
    | reclaim hnone => cases hnone.symm.trans hslot
    | idle | ended =>
      refine (hbacked.queued hqueued slot hslot).imp_right (·.next hgoes hm' htrace ?_)
      simp [Stage.events, Event.isTurn]

end

namespace Machine

variable {a : ArbiterId} {m m' : Machine} {slot : SlotId} {new : List Event} {P : Machine → Prop}

/-- A job that starts clears the flag and calls its pass. -/
theorem Goes.started (h : Goes m m') (hjob : m.control = .call (.job (.pass a))) :
    m'.books a = { m.books a with queued := false } ∧ m'.trace = m.trace := by
  cases h with
  | act hfin =>
    obtain ⟨⟨_, hback⟩, _⟩ := isFinished_iff.1 hfin
    cases hjob.symm.trans hback
  | step =>
    rw [step_of_call hjob]
    exact ⟨World.arbiter_move_of_default _ rfl, rfl⟩

theorem Reachable.backed (hP : ∀ m, P m → m.LeftAlone) (h : Reachable P m) : m.Backed P a := by
  refine h.induction (fun w hw => ⟨fun hqueued => ?_, fun race hcall => ?_⟩)
    fun m m' hm hm' hgoes ih => ⟨fun hqueued => ?_, fun race hcall => ?_⟩
  · rw [books_rest hw] at hqueued
    cases hqueued
  · cases hcall
  · obtain ⟨new, hdeed, htrace⟩ := hgoes.deed (a := a) hm.placed
    exact hdeed.ownerAsks hP hgoes hm hm'.holds htrace ih hqueued
  · rcases hgoes.pass hcall with hjob | hdispatch
    · obtain ⟨hbooks, htrace⟩ := hgoes.started hjob
      rw [OwnerAsks, hbooks]
      refine ⟨rfl, fun slot howner => ?_⟩
      have ha : a < m.world.arbiters.length := by
        refine World.lt_length_of_arbiter_ne fun hdefault => ?_
        have howner : (m.world.arbiter a).owner = some slot := howner
        rw [hdefault] at howner
        cases howner
      have hasks := ih.queued (hm.queued_of_job hP hjob ha) slot howner
      have htrace : m'.trace = [] ++ m.trace := htrace
      exact hasks.imp_right (·.next hgoes hm'.holds htrace (List.forall_mem_nil _))
    · cases (hP m hm.holds).meddles hdispatch

end Machine

/-! ## Turns and requests -/

section
variable {a : ArbiterId} {slot : SlotId} {trace : List Event}

/-- Turns that are only given on request are not more than there are requests. -/
theorem countP_isTurn_le (h : ∀ e older, e :: older <:+ trace → e.isTurn a slot = true →
    Asked a slot older) : trace.countP (·.isTurn a slot) ≤ trace.count (.requested a slot) := by
  suffices hcount : trace.countP (·.isTurn a slot) ≤ trace.count (.requested a slot) ∧
      (Asked a slot trace → trace.countP (·.isTurn a slot) < trace.count (.requested a slot)) from
    hcount.1
  induction trace with
  | nil => exact ⟨Nat.le_refl _, fun hasked => absurd hasked not_asked_nil⟩
  | cons e trace ih =>
    obtain ⟨hle, hlt⟩ := ih fun e older hsuffix => h e older (hsuffix.trans (List.suffix_cons _ _))
    rw [asked_cons, List.countP_cons, List.count_cons]
    cases hturn : e.isTurn a slot with
    | true =>
      have hnow := hlt (h e trace (List.suffix_refl _) hturn)
      have hne : e ≠ .requested a slot := by
        rintro rfl
        cases hturn
      simp [hne, Event.settles_of_isTurn hturn]
      omega
    | false =>
      by_cases he : e = .requested a slot
      · simp [he]
        omega
      · simp [he]
        exact ⟨hle, fun _ => hlt⟩

end

namespace Machine

variable {a : ArbiterId} {m m' : Machine} {slot : SlotId} {new : List Event} {P : Machine → Prop}

/-- A pass that goes on with the owner has been asked to by it, or the owner was misled. -/
theorem Reachable.asked_of_continued (hP : ∀ m, P m → m.LeftAlone) (h : Reachable P m)
    (hgoes : Goes m m') (htrace : m'.trace = new ++ m.trace) (hmem : .continued a slot ∈ new) :
    Asked a slot m.trace ∨ m.Misled P a slot := by
  obtain ⟨older, hdeed, holder⟩ := hgoes.deed (a := a) h.placed
  obtain rfl := List.append_cancel_right (htrace.symm.trans holder)
  obtain ⟨howner, ⟨race, hcall⟩, _⟩ := hdeed.origin hmem (by simp [Event.isOf])
  exact (((h.backed hP).called race hcall).2 slot howner).imp_left (h.tallied slot).1

/-- Passes run only as the arbiter has queued them, and no slot takes the bus while a pass is queued
that it has not asked for. -/
def Straight (a : ArbiterId) (slot : SlotId) (m : Machine) : Prop :=
  m.LeftAlone ∧ m.strays a slot = false

instance : DecidablePred (Straight a slot) := fun m =>
  inferInstanceAs (Decidable (m.LeftAlone ∧ m.strays a slot = false))

theorem Reachable.asked_of_turn (h : Reachable (Straight a slot) m) {e : Event}
    {older : List Event} (hsuffix : e :: older <:+ m.trace) (hturn : e.isTurn a slot = true) :
    Asked a slot older := by
  have hcontinued : ∀ {m}, Reachable (Straight a slot) m → .continued a slot :: older <:+ m.trace →
      Asked a slot older := by
    intro m h hsuffix
    revert hsuffix
    refine h.induction (I := fun m => .continued a slot :: older <:+ m.trace → Asked a slot older)
      (fun w _ hsuffix => by simp [rest] at hsuffix) fun m m' hm _ hgoes ih hsuffix => ?_
    obtain ⟨new, hdeed, htrace⟩ := hgoes.deed (a := a) hm.placed
    rw [htrace] at hsuffix
    by_cases hmem : .continued a slot ∈ new
    · obtain ⟨_, _, rfl⟩ := hdeed.origin hmem (by simp [Event.isOf])
      have hasked := hm.asked_of_continued (fun _ hP => hP.1) hgoes htrace hmem
      rcases List.suffix_cons_iff.1 hsuffix with heq | hsuffix
      · obtain ⟨_, rfl⟩ := List.cons.inj heq
        refine asked_cons.2 (.inr ⟨rfl, hasked.resolve_right ?_⟩)
        rintro ⟨m₀, _, hstrays, hm₀, _⟩
        cases hm₀.holds.2.symm.trans hstrays
      · have hsuffix : .continued a slot :: older <:+ [.passBegun a] ++ m.trace := hsuffix
        exact ih (suffix_of_append (by simp) hsuffix)
    · exact ih (suffix_of_append hmem hsuffix)
  cases e with
  | continued b s =>
    obtain ⟨rfl, rfl⟩ : b = a ∧ s = slot := by simpa [Event.isTurn] using hturn
    exact hcontinued h hsuffix
  | served b s =>
    obtain ⟨rfl, rfl⟩ : b = a ∧ s = slot := by simpa [Event.isTurn] using hturn
    exact h.asked_of_served hsuffix
  | _ => cases hturn

/-! ## Main result -/

/-- While passes run only as the arbiter has queued them and nobody is detached, a pass goes on with
the owner of the bus only if that has asked since its last turn began, and no slot has more turns
than it has made requests. The exception is a slot that took the bus while a pass was queued that it
had not asked for, and has had no turn since. -/
theorem owner_is_continued_on_request (hm : Reachable LeftAlone m) (a : ArbiterId) (slot : SlotId) :
    (∀ m' new, Goes m m' → m'.trace = new ++ m.trace → .continued a slot ∈ new →
      Asked a slot m.trace ∨ m.Misled LeftAlone a slot) ∧
    (Reachable (Straight a slot) m →
      (∀ older, .continued a slot :: older <:+ m.trace → Asked a slot older) ∧
      m.trace.countP (·.isTurn a slot) ≤ m.trace.count (.requested a slot)) := by
  refine ⟨fun m' new hgoes htrace hmem => ?_, fun hstraight => ⟨fun older hsuffix => ?_, ?_⟩⟩
  · exact hm.asked_of_continued (fun _ hP => hP) hgoes htrace hmem
  · exact hstraight.asked_of_turn hsuffix (by simp [Event.isTurn])
  · exact countP_isTurn_le fun e older hsuffix hturn => hstraight.asked_of_turn hsuffix hturn

/-- The first client keeps the bus, asks for another turn and has it. -/
theorem owner_is_continued_on_request_twice :
    let actions : List Action := [.build 0 0 (some 1), .attach 0 0 ⟨7⟩ none none, .notify 0,
      .runNext 0, .notify 0, .runNext 0]
    let m := play 60 actions (rest .playground)
    let older := m.trace.drop 5
    .continued 0 0 :: older <:+ m.trace ∧ Asked 0 0 older ∧
      m.trace.countP (·.isTurn 0 0) = 2 ∧ 2 ≤ m.trace.count (.requested 0 0) := by
  intro actions m older
  have hm : Reachable LeftAlone m :=
    .of_plays World.isInitial_playground 60 actions (by decide +kernel)
  have hstraight : Reachable (Straight 0 0) m :=
    .of_plays World.isInitial_playground 60 actions (by decide +kernel)
  have hsuffix : .continued 0 0 :: older <:+ m.trace := ⟨m.trace.take 4, by decide +kernel⟩
  have hturns : m.trace.countP (·.isTurn 0 0) = 2 := by decide +kernel
  obtain ⟨hasked, hle⟩ := (owner_is_continued_on_request hm 0 0).2 hstraight
  exact ⟨hsuffix, hasked older hsuffix, hturns, hturns ▸ hle⟩

end Machine

/-- A world whose first client asks for another's service in the turn with which it takes the bus,
and keeps the bus for one more turn. -/
def World.considerate : World where
  queues := [{ bound := some 2 }]
  consumers := [{}]
  clients := [{ turns := [⟨.busy, [.request 0 0]⟩, ⟨.busy, []⟩] }, {}]

theorem World.isInitial_considerate : World.considerate.IsInitial where
  arbiters := rfl
  queues := by simp [considerate]
  clients := by simp [considerate]
  notifiers := rfl
  deliveries := rfl

namespace Machine

/-- The request of another slot finds the bus idle, since the slot that has the turn does not own it
yet, and queues a pass. That pass goes on with the new owner, which has not asked for it. -/
theorem owner_continued_unasked :
    let actions : List Action := [.build 0 0 (some 2), .attach 0 0 ⟨7⟩ none none,
      .attach 0 1 ⟨8⟩ none none, .notify 0, .runNext 0, .runNext 0]
    let m := play 55 actions (rest .considerate)
    let ended := play 62 actions (rest .considerate)
    Reachable (fun m => m.LeftAlone ∧ m.PassesApart) m ∧
      m.step.trace = .continued 0 1 :: .passBegun 0 :: m.trace ∧ ¬ Asked 0 1 m.trace ∧
      Reachable (fun m => m.LeftAlone ∧ m.PassesApart) ended ∧ ended.isFinished ∧
      ended.trace.countP (·.isTurn 0 1) = 2 ∧ ended.trace.count (.requested 0 1) = 1 := by
  intro actions m ended
  have hm : Reachable (fun m => m.LeftAlone ∧ m.PassesApart) m :=
    .of_plays World.isInitial_considerate 55 actions (by decide +kernel)
  have hended : Reachable (fun m => m.LeftAlone ∧ m.PassesApart) ended :=
    .of_plays World.isInitial_considerate 62 actions (by decide +kernel)
  refine ⟨hm, by decide +kernel, (hm.tallied 1).not.1 (by decide +kernel), hended, ?_⟩
  refine ⟨?_, ?_, ?_⟩ <;> decide +kernel

end Machine

end SharedBus
