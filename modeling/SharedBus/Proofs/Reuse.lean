import SharedBus.Proofs.Deed.Origin
import SharedBus.Proofs.Requests
import SharedBus.Proofs.Sound.Step

/-! # A reused slot starts clean

A pass withdraws a slot, and the request of the slot with it, before it frees the slot. A request
in between is accepted, because the slot is not free yet, and nothing discards it: whoever claims
the slot next finds it pending. No other request outlives the release of its slot.
-/
namespace SharedBus

/-- A pass has withdrawn the slot, and it has not been freed since. -/
def Withdrawn (a : ArbiterId) (slot : SlotId) (trace : List Event) : Prop :=
  ∃ newer older, trace = newer ++ .withdrawn a slot :: older ∧ .freed a slot ∉ newer

/-- The slot has made a request between its withdrawal and its release, and no turn and no discard
has followed. -/
def Stale (a : ArbiterId) (slot : SlotId) (trace : List Event) : Prop :=
  ∃ newer older, trace = newer ++ .requested a slot :: older ∧ Withdrawn a slot older ∧
    ∀ e ∈ newer, e.settles a slot = false

section
variable {a : ArbiterId} {slot : SlotId} {e : Event} {trace new older : List Event}

theorem Withdrawn.append (h : Withdrawn a slot trace) (hnew : .freed a slot ∉ new) :
    Withdrawn a slot (new ++ trace) := by
  obtain ⟨newer, older, rfl, hnewer⟩ := h
  refine ⟨new ++ newer, older, by rw [List.append_assoc], fun hmem => ?_⟩
  exact (List.mem_append.1 hmem).elim hnew hnewer

theorem Stale.append (h : Stale a slot trace) (hnew : ∀ e ∈ new, e.settles a slot = false) :
    Stale a slot (new ++ trace) := by
  obtain ⟨newer, older, rfl, hwithdrawn, hnewer⟩ := h
  exact ⟨new ++ newer, older, by rw [List.append_assoc], hwithdrawn,
    List.forall_mem_append.2 ⟨hnew, hnewer⟩⟩

theorem Stale.asked (h : Stale a slot trace) : Asked a slot trace := by
  obtain ⟨newer, older, rfl, _, hnewer⟩ := h
  exact ⟨newer, older, rfl, hnewer⟩

/-- What an event comes after, in a trace that has grown: either it was there before, or all the
older ones are before it. -/
theorem suffix_append_cases {l : List Event} (h : e :: l <:+ new ++ trace) :
    e :: l <:+ trace ∨ e ∈ new ∧ trace <:+ l := by
  rcases List.suffix_or_suffix_of_suffix h (List.suffix_append new trace) with hold | hnew
  · exact .inl hold
  · rcases List.suffix_cons_iff.1 hnew with rfl | hl
    · exact .inl (List.suffix_refl _)
    · obtain ⟨between, rfl⟩ := hl
      obtain ⟨before, hbefore⟩ := h
      rw [← List.cons_append, ← List.append_assoc] at hbefore
      refine .inr ⟨?_, List.suffix_append _ _⟩
      rw [← List.append_cancel_right hbefore]
      exact List.mem_append_right _ List.mem_cons_self

end

namespace Machine

variable {a : ArbiterId} {m m' : Machine} {slot : SlotId} {new : List Event}

/-! ## Which requests are left over -/

/-- A pending slot is occupied and not on its way to be free, unless its request is stale. -/
structure Cleared (a : ArbiterId) (m : Machine) : Prop where
  withdrawn : ∀ slot, .reclaim a slot ∈ m.stack → Withdrawn a slot m.trace
  pending : ∀ slot ∈ (m.books a).pending,
    Stale a slot m.trace ∨ slot ∈ (m.books a).occupied ∧ .reclaim a slot ∉ m.stack

end Machine

open Machine

section
variable {a : ArbiterId} {m m' : Machine} {new : List Event} (h : Deed a m m' new)
  (htrace : m'.trace = new ++ m.trace)
include h htrace

/-- A pass that is to free a slot has withdrawn it. -/
theorem Deed.withdrawn (hsound : m.Sound a) {slot : SlotId}
    (hm : .reclaim a slot ∈ m.stack → Withdrawn a slot m.trace)
    (hmem : .reclaim a slot ∈ m'.stack) : Withdrawn a slot m'.trace := by
  rw [htrace]
  rcases h.pushed hmem (by simp [Activation.isOf]) with hold | hnew
  · by_cases hfreed : .freed a slot ∈ new
    · obtain ⟨rest, stage, hstack, hnext, hevents⟩ := h.origin hfreed (by simp [Event.isOf])
      -- no other pass is in progress below, so it is the same pass that goes on
      rcases hnext.mem_stack hmem with hbelow | hwaiting
      · have hblocks := hsound.not_blocks_below hstack (by simp [Activation.isPass]) _ hbelow
        simp [Activation.blocks] at hblocks
      · cases stage with
        | reclaim other =>
          obtain ⟨_, rfl⟩ := Activation.reclaim.inj (Option.some.inj hwaiting)
          rw [hevents]
          exact ⟨[], _, rfl, by simp⟩
        | turn | idle | ended => cases hwaiting
    · exact (hm hold).append hfreed
  · obtain ⟨_, _, before, rfl⟩ := h.origin hnew (by simp [Event.isOf])
    exact ⟨[], _, rfl, by simp⟩

theorem Deed.cleared (hsound : m.Sound a) (htallied : m.Tallied a) (htallied' : m'.Tallied a)
    (hm : m.Cleared a) : m'.Cleared a where
  withdrawn slot hmem := h.withdrawn htrace hsound (hm.withdrawn slot) hmem
  pending slot hslot := by
    have hasked : Asked a slot (new ++ m.trace) := htrace ▸ (htallied' slot).1 hslot
    rw [htrace]
    by_cases hrequested : .requested a slot ∈ new
    · obtain ⟨hrequest, hstack, posted, rfl, hposted⟩ := h.origin hrequested (by simp [Event.isOf])
      by_cases hreclaim : .reclaim a slot ∈ m.stack
      · refine .inl ⟨posted, m.trace, by simp, hm.withdrawn slot hreclaim, fun e he => ?_⟩
        exact Event.settles_of_not_isOf (hposted e he)
      · have haccepted := Arbiter.accepts_iff.1 (perform_of_request? hrequest).1
        refine .inr ⟨(h.occupied haccepted).resolve_right fun hfreed => ?_, hstack ▸ hreclaim⟩
        rcases List.mem_append.1 hfreed with hfreed | hfreed
        · simpa [Event.isOf] using hposted _ hfreed
        · simp at hfreed
    · have hunsettled := not_settles_of_asked hasked hrequested
      have hold : slot ∈ (m.books a).pending :=
        (htallied slot).2 (Classical.byContradiction fun hnot =>
          hrequested (requested_of_asked hasked hnot))
      rcases hm.pending slot hold with hstale | ⟨hoccupied, hreclaim⟩
      · exact .inl (hstale.append hunsettled)
      · refine .inr ⟨(h.occupied hoccupied).resolve_right fun hfreed => ?_, fun hmem => ?_⟩
        · obtain ⟨_, _, hstack, _⟩ := h.origin hfreed (by simp [Event.isOf])
          exact hreclaim (hstack ▸ List.mem_cons_self)
        · rcases h.pushed hmem (by simp [Activation.isOf]) with hpast | hnew
          · exact hreclaim hpast
          · simpa [Event.settles] using hunsettled _ hnew

end

namespace Machine

variable {a : ArbiterId} {m m' : Machine} {slot : SlotId} {new : List Event} {P : Machine → Prop}

theorem Reachable.cleared (hP : ∀ m, P m → m.PassesAlone) (h : Reachable P m) : m.Cleared a := by
  refine h.deed_induction (fun w hw => ⟨fun _ hmem => (by cases hmem), fun slot hslot => ?_⟩)
    fun m m' _ hm hm' hdeed htrace ih =>
      hdeed.cleared htrace (hm.sound hP) hm.tallied hm'.tallied ih
  rw [books_rest hw] at hslot
  exact absurd hslot SlotSet.notMem_empty

/-! ## No turn before a request -/

/-- The slot does not ask for the bus, and no pass is about to give it a turn. -/
structure Untouched (a : ArbiterId) (slot : SlotId) (m : Machine) : Prop where
  pending : slot ∉ (m.books a).pending
  owner : (m.books a).owner ≠ some slot
  serve : ∀ race, .serve a slot race ∉ m.stack

theorem Untouched.not_turn (hm : m.Untouched a slot) (hsound : m.Sound a) (hlinked : m.Linked) :
    m.control ≠ .call (.turn a slot) := by
  intro hcall
  have hturn : LinkedStack (some (a, slot)) m.stack := by simpa [Linked, hcall] using hlinked
  cases hstack : m.stack with
  | nil => simp [hstack, LinkedStack] at hturn
  | cons f rest =>
    rw [hstack] at hturn
    rcases Activation.awaits_some hturn.1 with ⟨race, rfl⟩ | ⟨race, rfl⟩
    · exact hm.owner (hsound.continued slot race rest hcall hstack)
    · exact hm.serve race (hstack ▸ List.mem_cons_self)

end Machine

/-- A served slot has its turn, unless it is still to begin it or has just ended it. -/
theorem LinkedStack.turn_of_serve {a : ArbiterId} {slot : SlotId}
    {turn : Option (ArbiterId × SlotId)} {stack : List Activation} (h : LinkedStack turn stack)
    {race : Race} (hmem : .serve a slot race ∈ stack) :
    turn = some (a, slot) ∨ ∃ c answer, .turn a slot c answer ∈ stack := by
  induction stack generalizing turn with
  | nil => cases hmem
  | cons f rest ih =>
    obtain ⟨hawaits, hrest⟩ := h
    rcases List.mem_cons.1 hmem with rfl | hmem
    · exact .inl hawaits
    · rcases ih hrest hmem with hturn | ⟨c, answer, hturn⟩
      · obtain ⟨c, answer, rfl⟩ := Activation.turn?_eq_some hturn
        exact .inr ⟨c, answer, List.mem_cons_self⟩
      · exact .inr ⟨c, answer, List.mem_cons_of_mem _ hturn⟩

/-- Nothing but a request makes a pass give the slot a turn. -/
theorem Deed.untouched {a : ArbiterId} {m m' : Machine} {slot : SlotId} {new : List Event}
    (h : Deed a m m' new) (htrace : m'.trace = new ++ m.trace) (htallied : m.Tallied a)
    (htallied' : m'.Tallied a) (hrequested : .requested a slot ∉ new) (hm : m.Untouched a slot) :
    m'.Untouched a slot where
  pending hslot := by
    have hasked : Asked a slot (new ++ m.trace) := htrace ▸ (htallied' slot).1 hslot
    exact hrequested (requested_of_asked hasked (mt (htallied slot).2 hm.pending))
  owner howner := by
    rcases h.owns howner with hold | ⟨race, hserve⟩
    · exact hm.owner hold
    · exact hm.serve race hserve
  serve race hmem := by
    rcases h.pushed hmem (by simp [Activation.isOf]) with hold | hserved
    · exact hm.serve race hold
    · exact hm.pending (h.origin hserved (by simp [Event.isOf]))

namespace Machine

variable {a : ArbiterId} {m m' : Machine} {slot : SlotId} {new : List Event}

/-- Whoever is untouched is given no turn until it has made a request. -/
theorem Run.requested_of_turnBegun (hm : Reachable PassesAlone m) (hslot : m.Untouched a slot)
    (hrun : Run PassesAlone m m') (htrace : m'.trace = new ++ m.trace) {older : List Event}
    {c : Option ClientId} (hturn : .turnBegun a slot c :: older <:+ new) :
    .requested a slot ∈ older := by
  let quiet : Machine → List Event → Prop := fun m since =>
    (.requested a slot ∈ since ∨ m.Untouched a slot) ∧
      ∀ older c, .turnBegun a slot c :: older <:+ since → .requested a slot ∈ older
  suffices h : quiet m' new from h.2 older c hturn
  refine Run.deed_induction (a := a) (I := quiet) hm ⟨.inr hslot, by simp⟩ ?_ hrun htrace
  rintro m₁ m₂ since new hm₁ hm₂ _ hdeed hnew ⟨hquiet, hsince⟩
  constructor
  · rcases hquiet with hrequested | hslot
    · exact .inl (List.mem_append_right _ hrequested)
    · by_cases hrequested : .requested a slot ∈ new
      · exact .inl (List.mem_append_left _ hrequested)
      · exact .inr (hdeed.untouched hnew hm₁.tallied hm₂.tallied hrequested hslot)
  · intro older c hturn
    rcases suffix_append_cases hturn with hold | ⟨hbegun, hsuffix⟩
    · exact hsince older c hold
    · rcases hquiet with hrequested | hslot
      · exact hsuffix.mem hrequested
      · obtain ⟨hcall, _⟩ := hdeed.origin hbegun (by simp [Event.isOf])
        exact absurd hcall (hslot.not_turn (hm₁.sound fun _ h => h) hm₁.linked)

/-- Nobody waits for a free slot. -/
theorem Sound.untouched (hm : m.Sound a) (hlinked : m.Linked) (hfree : slot ∈ (m.books a).free)
    (hpending : slot ∉ (m.books a).pending) {c : ClientId} {tag : Tag} {bind : Race}
    {rest : List Activation} (hstack : m.stack = .claim a c tag bind :: rest) {reply : Reply}
    (hback : m.control = .back reply) : m.Untouched a slot := by
  have hunbound : (m.books a).binding slot = none := by
    refine Classical.byContradiction fun hbound => ?_
    exact (Arbiter.mem_occupied.1 (hm.books.occupied slot hbound)).2 hfree
  refine ⟨hpending, fun howner => hm.books.owner slot howner hunbound, fun race hmem => ?_⟩
  have hturns : ∃ turn, LinkedStack turn m.stack := by
    simp only [Linked, hback] at hlinked
    exact hlinked.imp fun _ h => h.1
  obtain ⟨turn, hturns⟩ := hturns
  rcases hturns.turn_of_serve hmem with rfl | ⟨c, answer, hturn⟩
  · rw [hstack] at hturns
    cases hturns.1
  · have hclient : (m.books a).client? slot = some c :=
      hm.books.held _ (mem_frames.2 ⟨hturn, by simp [Activation.isOf]⟩) (slot, c) rfl
    exact Arbiter.binding_ne_none_of_client? hclient hunbound

/-! ## Main result -/

/-- A slot that an attach claims is pending exactly if its request is stale, one that was made
between its withdrawal and its release. Otherwise its new client gets no turn until it has made a
request of its own. -/
theorem reused_slot_starts_clean {m₁ : Machine} (hm : Reachable PassesAlone m) (hgoes : Goes m m₁)
    (hm₁ : m₁.PassesAlone) (htrace : m₁.trace = new ++ m.trace) (a : ArbiterId) (slot : SlotId)
    (hclaimed : .claimed a slot ∈ new) :
    (slot ∈ (m.books a).pending ↔ Stale a slot m.trace) ∧
    (¬ Stale a slot m.trace → ∀ m' since older c, Run PassesAlone m₁ m' →
      m'.trace = since ++ m₁.trace → .turnBegun a slot c :: older <:+ since →
        .requested a slot ∈ older) := by
  obtain ⟨_, hdeed, hnew⟩ := hgoes.deed (a := a) hm.placed
  obtain rfl := List.append_cancel_right (htrace.symm.trans hnew)
  have hsound : m.Sound a := hm.sound fun _ h => h
  obtain ⟨hfree, reply, c, tag, bind, rest, hback, hstack⟩ :=
    hdeed.origin hclaimed (by simp [Event.isOf])
  have hpending : slot ∈ (m.books a).pending ↔ Stale a slot m.trace := by
    refine ⟨fun hslot => ?_, fun hstale => (hm.tallied slot).2 hstale.asked⟩
    refine ((hm.cleared fun _ h => h).pending slot hslot).resolve_right fun hclean => ?_
    exact (Arbiter.mem_occupied.1 hclean.1).2 hfree
  refine ⟨hpending, fun hstale m' since older c hrun hsince hturn => ?_⟩
  have hrequested : .requested a slot ∉ new := by
    intro hmem
    obtain ⟨hrequest, _⟩ := hdeed.origin hmem (by simp [Event.isOf])
    obtain ⟨_, _, _, hcall, _⟩ := perform_of_request? hrequest
    cases hback.symm.trans hcall
  have hslot := hsound.untouched hm.linked hfree (mt hpending.1 hstale) hstack hback
  have hreachable := hm.next hgoes hm₁
  have hslot₁ := hdeed.untouched hnew hm.tallied hreachable.tallied hrequested hslot
  exact hrun.requested_of_turnBegun hreachable hslot₁ hsince hturn

/-- A slot is given back and claimed by another client, who asks for the bus and then has a turn. -/
theorem reused_slot_starts_clean_notify :
    let m := play 49 [.build 0 0 (some 1), .attach 0 0 ⟨7⟩ none none, .detach 0 0, .runPending 0,
      .attach 0 1 ⟨8⟩ none none] (rest .playground)
    let m' := play 21 [.notify 1, .runPending 0] m.step
    m.step.trace = .claimed 0 0 :: m.trace ∧ ¬ Stale 0 0 m.trace ∧
      ∃ older, m'.trace = .turnBegun 0 0 (some 1) :: older ++ m.step.trace ∧
        .requested 0 0 ∈ older := by
  intro m m'
  have hm : Reachable PassesAlone m := .of_plays World.isInitial_playground 49 _ (by decide +kernel)
  have hgoes : Goes m m.step := .step (by decide +kernel)
  have hrun : Run PassesAlone m.step m' := .of_plays (by decide +kernel)
  have hclaimed : m.step.trace = .claimed 0 0 :: m.trace := by decide +kernel
  obtain ⟨hpending, hrequested⟩ :=
    reused_slot_starts_clean hm hgoes hrun.start hclaimed 0 0 List.mem_cons_self
  have hstale : ¬ Stale 0 0 m.trace := mt hpending.2 (by decide +kernel)
  let older := m'.trace.tail.take (m'.trace.tail.length - m.step.trace.length)
  have hsince : m'.trace = (.turnBegun 0 0 (some 1) :: older) ++ m.step.trace := by decide +kernel
  refine ⟨hclaimed, hstale, older, hsince, ?_⟩
  exact hrequested hstale m' _ older (some 1) hrun hsince (List.suffix_refl _)

/-- A request in the race between the withdrawal of a slot and its release outlives both: the slot
is claimed while it is pending, and its new client has a turn that it has not asked for. -/
theorem request_outlives_release :
    let m := play 47 [.build 0 0 (some 1), .attach 0 0 ⟨7⟩ none none, .detach 0 0,
      .dispatch 0 (some [.handleNotify 0]), .attach 0 1 ⟨8⟩ none none] (rest .playground)
    let m' := play 19 [.runPending 0] m.step
    Reachable (fun m => m.PassesAlone ∧ m.AttachesApart) m' ∧
      m.step.trace = .claimed 0 0 :: m.trace ∧ 0 ∈ (m.books 0).pending ∧
      ∃ older, m'.trace = .turnBegun 0 0 (some 1) :: older ++ m.step.trace ∧
        .requested 0 0 ∉ older := by
  intro m m'
  have hm : Reachable (fun m => m.PassesAlone ∧ m.AttachesApart) m :=
    .of_plays World.isInitial_playground 47 _ (by decide +kernel)
  have hrun : Run (fun m => m.PassesAlone ∧ m.AttachesApart) m.step m' :=
    .of_plays (by decide +kernel)
  have hgoes : Goes m m.step := .step (by decide +kernel)
  refine ⟨(hm.next hgoes hrun.start).run hrun, by decide +kernel, by decide +kernel, ?_⟩
  exact ⟨m'.trace.tail.take (m'.trace.tail.length - m.step.trace.length), by decide +kernel,
    by decide +kernel⟩

end Machine

end SharedBus
