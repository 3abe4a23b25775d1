import SharedBus.Proofs.Stage
import SharedBus.Proofs.Workload.Pass

/-! # A pass in closed form

With nobody acting in a callback, what a pass does is settled by the books at its start and by the
next answer of each client. The owner goes on; if it lets go, the other pending slots have their
turns from the highest down until one keeps the bus; if none does, all detached slots are given back
at once and the consumer is told.
-/
namespace SharedBus

/-! ## The reference -/

/-- The members below the slot. -/
def SlotSet.below (s : SlotSet) (slot : SlotId) : SlotSet := s ∩ .first slot.val

namespace Arbiter

/-- The sets and the bindings agree, and no attach or pass is in between. -/
structure InOrder (x : Arbiter) : Prop where
  free_le : ∀ slot ∈ x.free, slot.val < x.capacity
  pending_occupied : ∀ slot ∈ x.pending, slot ∈ x.occupied
  detaching_occupied : ∀ slot ∈ x.detaching, slot ∈ x.occupied
  bound_iff : ∀ slot, x.client? slot ≠ none ↔ slot ∈ x.occupied
  apart : ∀ slot ∈ x.occupied, ∀ other ∈ x.occupied, x.client? slot = x.client? other → slot = other
  owner_occupied : ∀ slot ∈ x.owner, slot ∈ x.occupied

/-- The pending slots other than the owner. -/
def others (x : Arbiter) : SlotSet := x.owner.elim x.pending x.pending.erase

variable (answers : SlotId → Answer)

/-- The owner does not let go. -/
def keeps (x : Arbiter) : Bool := x.owner.any fun owner => answers owner = .busy

/-- The highest of the other slots that keeps the bus. -/
def taker? (x : Arbiter) : Option SlotId := x.others.toList.find? (answers · = .busy)

/-- The slots that a pass advances, in order. -/
def advanced (x : Arbiter) : List SlotId :=
  if x.keeps answers then x.owner.toList
  else x.owner.toList ++ x.others.toList.takeWhile (answers · = .done) ++ (x.taker? answers).toList

/-- The pass leaves the bus idle. -/
def fallsIdle (x : Arbiter) : Bool := !x.keeps answers && (x.taker? answers).isNone

/-- All detached slots are unbound and free. -/
def vacate (x : Arbiter) : Arbiter :=
  { x with
    free := x.free ∪ x.detaching
    detaching := ∅
    bindings := .ofFn fun i => if i ∈ x.detaching then none else x.bindings[i] }

/-- The books after a pass. -/
def afterPass (x : Arbiter) : Arbiter :=
  if x.keeps answers then { x with pending := x.others }
  else
    match x.taker? answers with
    | some slot => { x with owner := some slot, pending := x.others.below slot }
    | none => { x with owner := none, pending := ∅ }.vacate

end Arbiter

/-! ## Slots below another -/

namespace SlotSet

variable {s : SlotSet} {slot other : SlotId}

theorem mem_below : other ∈ s.below slot ↔ other ∈ s ∧ other < slot := by
  rw [below, mem_inter, mem_first, Fin.lt_def]

theorem erase_eq_below (h : s.highest? = some slot) : s.erase slot = s.below slot := by
  refine ext fun other => ?_
  rw [mem_erase, mem_below]
  refine and_congr_right fun hmem => ⟨fun hne => ?_, Fin.ne_of_lt⟩
  exact Nat.lt_of_le_of_ne ((highest?_eq_some.1 h).2 other hmem) (Fin.val_ne_of_ne hne)

theorem below_erase (h : other < slot) : (s.erase slot).below other = s.below other := by
  refine ext fun third => ?_
  rw [mem_below, mem_below, mem_erase]
  constructor
  · rintro ⟨⟨hmem, _⟩, hlt⟩
    exact ⟨hmem, hlt⟩
  · rintro ⟨hmem, hlt⟩
    exact ⟨⟨hmem, Fin.ne_of_lt (Fin.lt_trans hlt h)⟩, hlt⟩

end SlotSet

/-! ## The books alone -/

namespace Arbiter

variable {x : Arbiter} {slot : SlotId}

theorem vacate_of_isEmpty (h : x.detaching.isEmpty) : x.vacate = x := by
  have hnone := SlotSet.isEmpty_iff.1 h
  have hfree : x.free ∪ x.detaching = x.free := SlotSet.ext fun slot => by simp [hnone slot]
  have hdetaching : (∅ : SlotSet) = x.detaching := SlotSet.ext fun slot => by simp [hnone slot]
  have hbindings : (Vector.ofFn fun i => if i ∈ x.detaching then none else x.bindings[i]) =
      x.bindings := Vector.ext fun i hi => by simp [hnone ⟨i, hi⟩]
  rw [vacate, hfree, hdetaching]
  simp only [hnone, if_false] at hbindings ⊢
  rw [hbindings]

/-- To give back one detached slot is to begin giving back all. -/
theorem vacate_of_mem (h : slot ∈ x.detaching) (hpending : slot ∉ x.pending) :
    (((x.withdraw slot).unbind slot).giveBack slot).vacate = x.vacate := by
  have hfree : x.free.insert slot ∪ x.detaching.erase slot = x.free ∪ x.detaching := by
    refine SlotSet.ext fun other => ?_
    simp only [SlotSet.mem_union, SlotSet.mem_insert, SlotSet.mem_erase]
    by_cases hother : other = slot
    · simp [hother, h]
    · simp [hother]
  have hpending : x.pending.erase slot = x.pending := SlotSet.ext fun other => by
    rw [SlotSet.mem_erase]
    exact and_iff_left_of_imp fun hmem heq => hpending (heq ▸ hmem)
  have hbindings : ∀ i : SlotId, (if i ∈ x.detaching.erase slot then none
      else (x.bindings.set slot none)[i]) = if i ∈ x.detaching then none else x.bindings[i] := by
    intro i
    by_cases hi : i = slot
    · simp [hi, h]
    · have hne : slot.val ≠ i.val := fun heq => hi (Fin.ext heq.symm)
      simp [hi, hne]
  simp only [vacate, withdraw, unbind, giveBack, hfree, hpending, hbindings]

section
variable {answers : SlotId → Answer}

theorem others_of_idle (howner : x.owner = none) : x.others = x.pending := by
  simp [others, howner]

theorem mem_others : slot ∈ x.others ↔ slot ∈ x.pending ∧ slot ∉ x.owner := by
  cases howner : x.owner with
  | none => simp [others, howner]
  | some owner => simp [others, howner, eq_comm]

theorem keeps_of_idle (howner : x.owner = none) : x.keeps answers = false := by
  simp [keeps, howner]

theorem afterPass_of_taker (hkeeps : x.keeps answers = false)
    (htaker : x.taker? answers = some slot) :
    x.afterPass answers = { x with owner := some slot, pending := x.others.below slot } := by
  simp [afterPass, hkeeps, htaker]

theorem afterPass_of_nobody (hkeeps : x.keeps answers = false) (htaker : x.taker? answers = none) :
    x.afterPass answers = { x with owner := none, pending := ∅ }.vacate := by
  simp [afterPass, hkeeps, htaker]

theorem flags_afterPass (x : Arbiter) (answers : SlotId → Answer) :
    (x.afterPass answers).queued = x.queued ∧ (x.afterPass answers).closed = x.closed := by
  unfold afterPass
  split
  · exact ⟨rfl, rfl⟩
  · split <;> exact ⟨rfl, rfl⟩

/-- With the bus idle, the turn of the highest slot comes first. -/
theorem toList_others (howner : x.owner = none) (hslot : x.pending.highest? = some slot) :
    x.others.toList = slot :: (x.clearPending slot).others.toList := by
  rw [others_of_idle howner, others_of_idle (x := x.clearPending slot) howner]
  exact SlotSet.toList_of_highest? hslot

/-- The first slot to have a turn keeps the bus. -/
theorem afterPass_of_busy (howner : x.owner = none) (hslot : x.pending.highest? = some slot)
    (hanswer : answers slot = .busy) : x.advanced answers = [slot] ∧ x.fallsIdle answers = false ∧
      x.afterPass answers = { x.clearPending slot with owner := some slot } := by
  have hslots := toList_others howner hslot
  have htaker : x.taker? answers = some slot := by simp [taker?, hslots, hanswer]
  have hothers : x.others.below slot = x.pending.erase slot := by
    rw [others_of_idle howner, SlotSet.erase_eq_below hslot]
  refine ⟨?_, ?_, ?_⟩
  · simp [advanced, keeps_of_idle howner, howner, htaker, hslots, hanswer]
  · simp [fallsIdle, htaker]
  · rw [afterPass_of_taker (keeps_of_idle howner) htaker, hothers]
    rfl

/-- The first slot to have a turn lets go, and the pass goes on as one without it. -/
theorem afterPass_of_done (howner : x.owner = none) (hslot : x.pending.highest? = some slot)
    (hanswer : answers slot = .done) :
    let y := x.clearPending slot
    x.advanced answers = slot :: y.advanced answers ∧ x.fallsIdle answers = y.fallsIdle answers ∧
      x.afterPass answers = y.afterPass answers := by
  intro y
  have hy : y.owner = none := howner
  have hslots : x.others.toList = slot :: y.others.toList := toList_others howner hslot
  have htaker : x.taker? answers = y.taker? answers := by simp [taker?, hslots, hanswer]
  refine ⟨?_, ?_, ?_⟩
  · simp [advanced, keeps_of_idle howner, keeps_of_idle hy, howner, hy, htaker, hslots, hanswer]
  · simp [fallsIdle, keeps_of_idle howner, keeps_of_idle hy, htaker]
  · cases hnext : y.taker? answers with
    | none =>
      rw [afterPass_of_nobody (keeps_of_idle howner) (htaker.trans hnext),
        afterPass_of_nobody (keeps_of_idle hy) hnext]
      rfl
    | some other =>
      have hmem : other ∈ y.others := SlotSet.mem_toList.1 (List.mem_of_find?_eq_some hnext)
      have hrest : y.others = x.pending.erase slot := others_of_idle hy
      obtain ⟨hother, hne⟩ := SlotSet.mem_erase.1 (hrest ▸ hmem)
      have hlt : other < slot :=
        Nat.lt_of_le_of_ne ((SlotSet.highest?_eq_some.1 hslot).2 other hother) (Fin.val_ne_of_ne hne)
      rw [afterPass_of_taker (keeps_of_idle howner) (htaker.trans hnext),
        afterPass_of_taker (keeps_of_idle hy) hnext, others_of_idle howner, hrest,
        SlotSet.below_erase hlt]
      rfl

variable (answers) in
theorem afterPass_of_isEmpty (howner : x.owner = none) (hpending : x.pending.isEmpty) :
    x.advanced answers = [] ∧ x.fallsIdle answers = true ∧ x.afterPass answers = x.vacate := by
  have hnone : x.others.toList = [] := by
    rw [others_of_idle howner]
    exact SlotSet.toList_eq_nil.2 hpending
  have htaker : x.taker? answers = none := by simp [taker?, hnone]
  have hpending : x.pending = ∅ :=
    SlotSet.ext fun slot => by simp [SlotSet.isEmpty_iff.1 hpending slot]
  refine ⟨?_, ?_, ?_⟩
  · simp [advanced, keeps_of_idle howner, howner, htaker, hnone]
  · simp [fallsIdle, keeps_of_idle howner, htaker]
  · rw [afterPass_of_nobody (keeps_of_idle howner) htaker, ← hpending, ← howner]

/-- The owner lets go, and the pass goes on as one that has found the bus idle. -/
theorem afterPass_of_owner_done (howner : x.owner = some slot) (hanswer : answers slot = .done) :
    let y := { x.clearPending slot with owner := none }
    x.advanced answers = slot :: y.advanced answers ∧ x.fallsIdle answers = y.fallsIdle answers ∧
      x.afterPass answers = y.afterPass answers := by
  simp [advanced, fallsIdle, afterPass, keeps, taker?, others, clearPending, howner, hanswer]

/-- The owner keeps the bus, and the pass is over. -/
theorem afterPass_of_owner_busy (howner : x.owner = some slot) (hanswer : answers slot = .busy) :
    x.advanced answers = [slot] ∧ x.fallsIdle answers = false ∧
      x.afterPass answers = x.clearPending slot := by
  simp [advanced, fallsIdle, afterPass, keeps, others, clearPending, howner, hanswer]

end

end Arbiter

/-! ## Worlds in a pass -/

namespace World

section
variable (base : World) (a : ArbiterId)

/-- The world with other books of the arbiter and other clients. -/
def posed (x : Arbiter) (clients : List Client) : World :=
  { base with arbiters := base.arbiters.set a x, clients := clients }

/-- The world that a pass leaves behind: the books of its arbiter are these, and elsewhere nothing
has changed but what clients and consumers will do when they are called. -/
structure Left (y : Arbiter) (after : World) : Prop where
  books : after.arbiter a = y
  others : ∀ b, b ≠ a → after.arbiter b = base.arbiter b
  queues : after.queues = base.queues
  handles : ∀ c, (after.client c).handles = (base.client c).handles

/-- The pass ends with these books, after turns of these slots, and tells the consumer if the bus
falls idle. -/
def PassesTo (y : Arbiter) (slots : List SlotId) (passing : List Event) (idle : Bool)
    (outcome : Outcome) : Prop :=
  ∃ after before, outcome.Ends ⟨after, .nothing,
      before ++ (if idle then base.idleReport a else []) ++ [.passEnded a]⟩ ∧
    Tells (slots.map (base.advance a)) passing before ∧ base.Left a y after

end

section
variable {base : World} {a : ArbiterId} {x y : Arbiter} {clients : List Client}

theorem PassesTo.since {slots : List SlotId} {passing passing' : List Event} {idle : Bool}
    {outcome : Outcome} {events : List Event} (h : base.PassesTo a y slots passing idle outcome)
    (hevents : Tells [] passing' events) :
    base.PassesTo a y slots (passing' ++ passing) idle (outcome.since events) := by
  obtain ⟨after, before, hends, hbefore, hleft⟩ := h
  exact ⟨after, events ++ before, by simpa using hends.since events,
    by simpa using hevents.append hbefore, hleft⟩

/-- A pass calls somebody and then goes on. -/
theorem PassesTo.call (called : List SlotId) {slots : List SlotId} {passing passing' : List Event}
    {idle : Bool} {w : World} {call : Call} {waiting : Activation} {events : List Event}
    {callee : Effect} (hevents : Tells [] passing' events) (hcallee : (w.begin call).Ends callee)
    (hturns : Tells (called.map (base.advance a)) [] callee.events)
    (hrest : base.PassesTo a y slots passing idle
      (callee.world.resume callee.reply waiting)) :
    base.PassesTo a y (called ++ slots) (passing' ++ passing) idle (w.call call waiting events) := by
  obtain ⟨after, before, hends, hbefore, hleft⟩ := hrest
  refine ⟨after, events ++ callee.events ++ before, ?_, ?_, hleft⟩
  · simpa using ends_call hcallee hends
  · simpa using (hevents.append hturns).append hbefore

theorem posed_self : base.posed a (base.arbiter a) base.clients = base :=
  base.setArbiter_arbiter

theorem setArbiter_posed (y : Arbiter) :
    (base.posed a x clients).setArbiter a y = base.posed a y clients := by
  simp [posed, setArbiter]

variable (hthere : a < base.arbiters.length)
include hthere

theorem arbiter_posed : (base.posed a x clients).arbiter a = x := by
  simp [posed, arbiter, hthere]

theorem move_posed (f : Arbiter → Arbiter) :
    (base.posed a x clients).move a f = base.posed a (f x) clients := by
  rw [move, arbiter_posed hthere, setArbiter_posed]

end

/-! ## The ends of a pass -/

section
variable {base : World} {a : ArbiterId} {x : Arbiter} {clients : List Client} {race : Race}

/-- Books that a pass can have come to, with clients that hold what they held. -/
structure Underway (base : World) (a : ArbiterId) (x : Arbiter) (clients : List Client) : Prop where
  there : a < base.arbiters.length
  consumer : x.consumer = (base.arbiter a).consumer
  handles : ∀ c, (clients.getD c default).handles = (base.client c).handles
  quiet : (base.consumer (base.arbiter a).consumer).onIdle.now = []

theorem Underway.left (h : base.Underway a x clients) : base.Left a x (base.posed a x clients) where
  books := arbiter_posed h.there
  others b hb := by simp [posed, arbiter, List.getElem?_set_ne (Ne.symm hb)]
  queues := rfl
  handles := h.handles

/-- The owner keeps the bus. -/
theorem Underway.passesTo_kept (h : base.Underway a x clients) (race : Race) {owner : SlotId}
    (howner : x.owner = some owner) :
    base.PassesTo a x [] [] false ((base.posed a x clients).serve a race) := by
  refine ⟨_, [], ?_, .nil, h.left⟩
  have hserve : (base.posed a x clients).serve a race =
      (base.posed a x clients).reply .nothing [.passEnded a] := by
    simp [serve, arbiter_posed h.there, howner]
  rw [hserve]
  exact .reply ..

/-- Nobody is left, so the consumer is told. -/
theorem Underway.passesTo_idle (h : base.Underway a x clients) (hpending : x.pending.isEmpty) :
    base.PassesTo a x [] [] true ((base.posed a x clients).endPass a) := by
  have hend : (base.posed a x clients).endPass a =
      (base.posed a x clients).call (.report a .idle) (.idle a) := by
    simp [endPass, arbiter_posed h.there, hpending]
  have hquiet : ((base.posed a x clients).consumer
      ((base.posed a x clients).arbiter a).consumer).onIdle.now = [] := by
    rw [arbiter_posed h.there, h.consumer]
    exact h.quiet
  have hreport : (base.posed a x clients).idleReport a = base.idleReport a := by
    rw [idleReport, arbiter_posed h.there, h.consumer]
    rfl
  have hrest : (((base.posed a x clients).heard a).resume .nothing (.idle a)).Ends _ := .reply ..
  have hleft := h.left
  refine ⟨(base.posed a x clients).heard a, [], ?_, .nil, ?_⟩
  · rw [hend, if_pos rfl, ← hreport]
    exact ends_call (ends_idle hquiet) hrest
  · constructor
    · rw [arbiter_heard, hleft.books]
    · exact fun b hb => by rw [arbiter_heard, hleft.others b hb]
    · unfold heard
      simp only
      split <;> rfl
    · unfold heard
      simp only
      split <;> exact h.handles

/-- A race in which nobody acts. -/
theorem actRace_quiet (w : World) (point : RacePoint) (hrace : race.getD [] = []) :
    (w.actRace point race).1 = w ∧ Tells [] [] (w.actRace point race).2 := by
  cases race with
  | none => exact ⟨rfl, .nil⟩
  | some actions =>
    obtain rfl : actions = [] := hrace
    exact ⟨rfl, rfl, rfl⟩

/-- With the bus idle and nobody pending, all detached slots are given back. -/
theorem passesTo_reclaim {slots : List SlotId} (h : base.Underway a x clients)
    (hrace : race.getD [] = []) (howner : x.owner = none) (hpending : x.pending.isEmpty)
    (hslots : x.detaching.toList = slots) :
    base.PassesTo a x.vacate [] [] true ((base.posed a x clients).reclaim a race) := by
  induction slots generalizing x race with
  | nil =>
    have hnone := SlotSet.toList_eq_nil.1 hslots
    have hreclaim : (base.posed a x clients).reclaim a race = (base.posed a x clients).endPass a := by
      simp [reclaim, arbiter_posed h.there, howner, SlotSet.highest?_eq_none.2 hnone]
    rw [hreclaim, Arbiter.vacate_of_isEmpty hnone]
    exact h.passesTo_idle hpending
  | cons slot rest ih =>
    obtain ⟨hslot, hrest⟩ := SlotSet.highest?_of_toList hslots
    have hnone := SlotSet.isEmpty_iff.1 hpending
    obtain ⟨hsame, htells⟩ := actRace_quiet (base.posed a (x.withdraw slot) clients) .reclaim hrace
    have hreclaim : (base.posed a x clients).reclaim a race =
        (base.posed a (x.withdraw slot) clients).call (.race .reclaim race) (.reclaim a slot)
          [.withdrawn a slot] := by
      simp [reclaim, arbiter_posed h.there, move_posed h.there, howner, hslot]
    have hleft : (x.withdraw slot).pending.isEmpty :=
      SlotSet.isEmpty_iff.2 fun other hother => hnone other (SlotSet.mem_erase.1 hother).1
    have hunder : base.Underway a (((x.withdraw slot).unbind slot).giveBack slot) clients :=
      ⟨h.there, h.consumer, h.handles, h.quiet⟩
    have hnobody : (none : Race).getD [] = [] := rfl
    have hagain := ih hunder hnobody howner hleft hrest
    rw [Arbiter.vacate_of_mem (SlotSet.mem_of_highest? hslot) (hnone slot)] at hagain
    have hrace := (base.posed a (x.withdraw slot) clients).ends_beginRace .reclaim race
    rw [hsame] at hrace
    have hresume : (base.posed a (x.withdraw slot) clients).resume .nothing (.reclaim a slot) =
        ((base.posed a (((x.withdraw slot).unbind slot).giveBack slot) clients).reclaim a none).since
          [.freed a slot] := by
      simp only [resume, afterReclaim, move_posed h.there, reclaim_eq]
      rfl
    rw [hreclaim]
    exact .call [] ⟨rfl, rfl⟩ hrace htells (hresume ▸ hagain.since ⟨rfl, rfl⟩)

end

/-! ## The turns of a pass -/

section
variable {base : World} {a : ArbiterId} {x y : Arbiter} {clients : List Client} {race : Race}
variable {answers : SlotId → Answer} {slot : SlotId} {slots : List SlotId}

/-- The clients of these slots are different ones, and their next answers are these. -/
structure Poised (base : World) (a : ArbiterId) (answers : SlotId → Answer) (slots : List SlotId)
    (clients : List Client) : Prop where
  answer : ∀ slot ∈ slots, ∃ c, (base.arbiter a).client? slot = some c ∧
    (clients.getD c default).nextTurn.1 = ⟨answers slot, []⟩
  apart : slots.Pairwise fun slot other =>
    (base.arbiter a).client? slot ≠ (base.arbiter a).client? other

/-- The turn of one client leaves the others as they are. -/
theorem Poised.rest (h : base.Poised a answers (slot :: slots) clients) {c : ClientId}
    (hclient : (base.arbiter a).client? slot = some c) :
    base.Poised a answers slots (clients.set c (clients.getD c default).nextTurn.2) where
  answer other hother := by
    obtain ⟨d, hd, hturn⟩ := h.answer other (List.mem_cons_of_mem _ hother)
    have hne : c ≠ d := by
      rintro rfl
      exact (List.pairwise_cons.1 h.apart).1 other hother (hclient.trans hd.symm)
    exact ⟨d, hd, by simpa [List.getElem?_set_ne hne] using hturn⟩
  apart := (List.pairwise_cons.1 h.apart).2

/-- A turn spends one answer of a client and changes nothing else. -/
theorem Underway.turned (h : base.Underway a x clients) (c : ClientId)
    (hy : y.consumer = x.consumer) :
    base.Underway a y (clients.set c (clients.getD c default).nextTurn.2) where
  there := h.there
  consumer := hy.trans h.consumer
  handles := handles_set_nextTurn h.handles c
  quiet := h.quiet

/-- The slot has its turn, and then the pass goes on. -/
theorem PassesTo.turn (waiting : Activation) {passing passing' events : List Event} {idle : Bool}
    {c : ClientId} {answer : Answer} (hthere : a < base.arbiters.length)
    (hbound : (base.arbiter a).client? slot = some c) (hclient : x.client? slot = some c)
    (hturn : (clients.getD c default).nextTurn.1 = ⟨answer, []⟩)
    (hevents : Tells [] passing' events)
    (hrest : base.PassesTo a y slots passing idle
      ((base.posed a x (clients.set c (clients.getD c default).nextTurn.2)).resume (.turn answer)
        waiting)) :
    base.PassesTo a y (slot :: slots) (passing' ++ passing) idle
      ((base.posed a x clients).call (.turn a slot) waiting events) := by
  have hadvance : base.advance a slot = .turnBegun a slot (some c) := by rw [advance, hbound]
  have hbegin := ends_turn (w := base.posed a x clients) (by rw [arbiter_posed hthere]; exact hclient)
    hturn
  refine .call [slot] hevents hbegin ?_ hrest
  rw [List.map_singleton, hadvance]
  exact ⟨rfl, rfl⟩

/-- With the bus idle, the pending slots have their turns until one keeps the bus. -/
theorem passesTo_serve {todo : List SlotId} {passing events : List Event}
    (h : base.Underway a x clients) (hbindings : x.bindings = (base.arbiter a).bindings)
    (hposed : base.Poised a answers todo clients) (hrace : race.getD [] = [])
    (howner : x.owner = none) (htodo : x.pending.toList = todo)
    (hevents : Tells [] passing events) :
    base.PassesTo a (x.afterPass answers) (x.advanced answers) passing (x.fallsIdle answers)
      ((base.posed a x clients).serve a race events) := by
  induction todo generalizing x clients passing events with
  | nil =>
    have hpending := SlotSet.toList_eq_nil.1 htodo
    obtain ⟨hadvanced, hidle, hafter⟩ :=
      Arbiter.afterPass_of_isEmpty answers howner hpending
    have hserve : (base.posed a x clients).serve a race events =
        ((base.posed a x clients).reclaim a race).since events := by
      have hnext := Arbiter.nextTurn?_eq_none.2 hpending
      simp [serve, arbiter_posed h.there, howner, hnext, reclaim_eq, Outcome.since]
    have hreclaim := (passesTo_reclaim h hrace howner hpending rfl).since hevents
    rw [hadvanced, hidle, hafter, hserve]
    simpa using hreclaim
  | cons slot rest ih =>
    obtain ⟨hslot, hrest⟩ := SlotSet.highest?_of_toList htodo
    obtain ⟨c, hbound, hturn⟩ := hposed.answer slot List.mem_cons_self
    have hserve : (base.posed a x clients).serve a race events =
        (base.posed a (x.clearPending slot) clients).call (.turn a slot) (.serve a slot race)
          (events ++ [.served a slot]) := by
      rw [serve_of_highest?, move_posed h.there] <;> rw [arbiter_posed h.there] <;> assumption
    have hclient : (x.clearPending slot).client? slot = some c := by
      rw [← hbound, Arbiter.client?, Arbiter.client?, Arbiter.binding, Arbiter.binding, ← hbindings]
      rfl
    have hserved : Tells [] passing (events ++ [.served a slot]) := by
      have hserved : Tells [] [] [.served a slot] := ⟨rfl, rfl⟩
      simpa using hevents.append hserved
    rw [hserve]
    cases hanswer : answers slot with
    | busy =>
      obtain ⟨hadvanced, hidle, hafter⟩ := Arbiter.afterPass_of_busy howner hslot hanswer
      have hnot : slot ∉ (x.clearPending slot).pending := fun hmem =>
        (SlotSet.mem_erase.1 hmem).2 rfl
      have hunder : base.Underway a { x.clearPending slot with owner := some slot }
          (clients.set c (clients.getD c default).nextTurn.2) := h.turned c rfl
      have hkept := hunder.passesTo_kept race rfl
      have hresume : (base.posed a (x.clearPending slot)
          (clients.set c (clients.getD c default).nextTurn.2)).resume (.turn .busy)
            (.serve a slot race) = (base.posed a { x.clearPending slot with owner := some slot }
              (clients.set c (clients.getD c default).nextTurn.2)).serve a race := by
        simp [resume, Reply.answer, afterServe, arbiter_posed h.there, move_posed h.there, hnot]
      have hturned := PassesTo.turn (.serve a slot race) h.there hbound hclient (hanswer ▸ hturn) hserved
        (hresume ▸ hkept)
      rw [List.append_nil] at hturned
      rw [hadvanced, hidle, hafter]
      exact hturned
    | done =>
      obtain ⟨hadvanced, hidle, hafter⟩ := Arbiter.afterPass_of_done howner hslot hanswer
      have hunder : base.Underway a (x.clearPending slot)
          (clients.set c (clients.getD c default).nextTurn.2) := h.turned c rfl
      have hagain := ih hunder hbindings (hposed.rest hbound) howner hrest .nil
      have hturned := PassesTo.turn (.serve a slot race) h.there hbound hclient
        (hanswer ▸ hturn) hserved hagain
      rw [List.append_nil] at hturned
      rw [hadvanced, hidle, hafter]
      exact hturned

/-- The whole pass, whoever owns the bus. -/
theorem passesTo_pass (h : base.Underway a x clients)
    (hbindings : x.bindings = (base.arbiter a).bindings)
    (hposed : base.Poised a answers (x.owner.toList ++ x.others.toList) clients)
    (hrace : race.getD [] = []) :
    base.PassesTo a (x.afterPass answers) (x.advanced answers) [.passBegun a] (x.fallsIdle answers)
      ((base.posed a x clients).begin (.pass a race)) := by
  cases howner : x.owner with
  | none =>
    have hserve : (base.posed a x clients).begin (.pass a race) =
        (base.posed a x clients).serve a race [.passBegun a] := by
      simp [begin, beginPass, arbiter_posed h.there, howner]
    rw [howner, Arbiter.others_of_idle howner] at hposed
    rw [hserve]
    exact passesTo_serve h hbindings hposed hrace howner rfl ⟨rfl, rfl⟩
  | some owner =>
    have hothers : x.others = x.pending.erase owner := by simp [Arbiter.others, howner]
    rw [howner, hothers] at hposed
    obtain ⟨c, hbound, hturn⟩ := hposed.answer owner List.mem_cons_self
    have hbegin : (base.posed a x clients).begin (.pass a race) =
        (base.posed a (x.clearPending owner) clients).call (.turn a owner) (.owner a race)
          [.passBegun a, .continued a owner] := by
      simp [begin, beginPass, arbiter_posed h.there, move_posed h.there, howner]
    have hclient : (x.clearPending owner).client? owner = some c := by
      rw [← hbound, Arbiter.client?, Arbiter.client?, Arbiter.binding, Arbiter.binding, ← hbindings]
      rfl
    have hcontinued : Tells [] [.passBegun a] [.passBegun a, .continued a owner] := ⟨rfl, rfl⟩
    rw [hbegin]
    cases hanswer : answers owner with
    | busy =>
      obtain ⟨hadvanced, hidle, hafter⟩ := Arbiter.afterPass_of_owner_busy howner hanswer
      have hunder : base.Underway a (x.clearPending owner)
          (clients.set c (clients.getD c default).nextTurn.2) := h.turned c rfl
      have hturned := PassesTo.turn (.owner a race) h.there hbound hclient
        (hanswer ▸ hturn) hcontinued (hunder.passesTo_kept race howner)
      rw [hadvanced, hidle, hafter]
      exact hturned
    | done =>
      obtain ⟨hadvanced, hidle, hafter⟩ := Arbiter.afterPass_of_owner_done howner hanswer
      have hunder : base.Underway a { x.clearPending owner with owner := none }
          (clients.set c (clients.getD c default).nextTurn.2) := h.turned c rfl
      have hserve := passesTo_serve hunder hbindings (hposed.rest hbound) hrace rfl rfl .nil
      have hresume : (base.posed a (x.clearPending owner)
          (clients.set c (clients.getD c default).nextTurn.2)).resume (.turn .done)
            (.owner a race) = (base.posed a { x.clearPending owner with owner := none }
              (clients.set c (clients.getD c default).nextTurn.2)).serve a race := by
        simp [resume, Reply.answer, afterOwner, move_posed h.there]
      have hturned := PassesTo.turn (.owner a race) h.there hbound hclient (hanswer ▸ hturn) hcontinued
        (hresume ▸ hserve)
      rw [hadvanced, hidle, hafter]
      exact hturned

end

/-! ## Main result -/

/-- The next answer of the client of a slot. -/
def answers (w : World) (a : ArbiterId) (slot : SlotId) : Answer :=
  ((w.arbiter a).client? slot).elim .done fun c => (w.client c).nextTurn.1.answer

/-- With the books in order, the slots that a pass can advance have clients of their own. -/
theorem poised_of_inOrder {w : World} {a : ArbiterId} (h : (w.arbiter a).InOrder)
    (hturns : ∀ slot c, slot ∈ (w.arbiter a).pending ∨ slot ∈ (w.arbiter a).owner →
      (w.arbiter a).client? slot = some c → (w.client c).nextTurn.1.actions = []) :
    w.Poised a (w.answers a) ((w.arbiter a).owner.toList ++ (w.arbiter a).others.toList)
      w.clients := by
  have hslots : ∀ slot ∈ (w.arbiter a).owner.toList ++ (w.arbiter a).others.toList,
      slot ∈ (w.arbiter a).pending ∨ slot ∈ (w.arbiter a).owner := by
    intro slot hslot
    rcases List.mem_append.1 hslot with howner | hother
    · exact .inr (Option.mem_toList.1 howner)
    · exact .inl (Arbiter.mem_others.1 (SlotSet.mem_toList.1 hother)).1
  have hoccupied : ∀ slot ∈ (w.arbiter a).owner.toList ++ (w.arbiter a).others.toList,
      slot ∈ (w.arbiter a).occupied :=
    fun slot hslot => (hslots slot hslot).elim (h.pending_occupied slot) (h.owner_occupied slot)
  have hnodup : ((w.arbiter a).owner.toList ++ (w.arbiter a).others.toList).Nodup := by
    refine List.nodup_append.2 ⟨by cases (w.arbiter a).owner <;> simp, SlotSet.nodup_toList _, ?_⟩
    rintro owner howner slot hslot rfl
    exact (Arbiter.mem_others.1 (SlotSet.mem_toList.1 hslot)).2 (Option.mem_toList.1 howner)
  constructor
  · intro slot hslot
    have hbound := (h.bound_iff slot).2 (hoccupied slot hslot)
    obtain ⟨c, hc⟩ := Option.ne_none_iff_exists'.1 hbound
    have hactions := hturns slot c (hslots slot hslot) hc
    refine ⟨c, hc, ?_⟩
    have hanswer : w.answers a slot = (w.client c).nextTurn.1.answer := by simp [answers, hc]
    rw [hanswer, ← hactions]
    rfl
  · refine hnodup.imp_of_mem fun hslot hother hne heq => hne ?_
    exact h.apart _ (hoccupied _ hslot) _ (hoccupied _ hother) heq

end World

namespace Machine

variable {m : Machine} {a : ArbiterId} {race : Race}

/-- With nobody acting in its callbacks, a pass does what its reference says: it advances the slots
that the reference advances, then tells the consumer if the bus falls idle, and leaves the books of
the reference behind. No flag and no other books, queues or handles change. -/
theorem pass_equals_reference (hcall : m.control = .call (.pass a race))
    (hthere : m.world.hasArbiter a) (horder : (m.world.arbiter a).InOrder)
    (hturns : ∀ slot c, slot ∈ (m.world.arbiter a).pending ∨ slot ∈ (m.world.arbiter a).owner →
      (m.world.arbiter a).client? slot = some c → (m.world.client c).nextTurn.1.actions = [])
    (hidle : (m.world.consumer (m.world.arbiter a).consumer).onIdle.now = [])
    (hrace : race.getD [] = []) :
    let answers := m.world.answers a
    let x := m.world.arbiter a
    ∃ n after before,
      m.after n = m.ended ⟨after, .nothing,
        before ++ (if x.fallsIdle answers then m.world.idleReport a else []) ++ [.passEnded a]⟩ ∧
      before.filter (·.isAdvance) = (x.advanced answers).map (m.world.advance a) ∧
      before.filter (·.isPassing) = [.passBegun a] ∧
      after.arbiter a = x.afterPass answers ∧
      (after.arbiter a).queued = x.queued ∧ (after.arbiter a).closed = x.closed ∧
      (∀ b, b ≠ a → after.arbiter b = m.world.arbiter b) ∧ after.queues = m.world.queues ∧
      ∀ c, (after.client c).handles = (m.world.client c).handles := by
  intro answers x
  have hunder : m.world.Underway a x m.world.clients :=
    ⟨by simpa [World.hasArbiter] using hthere, rfl, fun _ => rfl, hidle⟩
  have hpass := World.passesTo_pass hunder rfl (World.poised_of_inOrder horder hturns) hrace
  rw [World.posed_self] at hpass
  obtain ⟨after, before, hends, hbefore, hleft⟩ := hpass
  obtain ⟨n, hn⟩ := after_of_ends hcall hends
  obtain ⟨hqueued, hclosed⟩ := x.flags_afterPass answers
  exact ⟨n, after, before, hn, hbefore.advances, hbefore.passing, hleft.books,
    hleft.books ▸ hqueued, hleft.books ▸ hclosed, hleft.others, hleft.queues, hleft.handles⟩

/-- The owner and another slot ask for the bus, and both are on their way out. -/
theorem pass_equals_reference_detaching :
    let m := play 85 [.build 0 0 (some 3), .attach 0 0 ⟨7⟩ none none, .attach 0 1 ⟨8⟩ none none,
      .notify 0, .runPending 0, .detach 0 0, .request 0 2, .request 0 1, .detach 0 1,
      .runPending 0] (rest .playground)
    let x := m.world.arbiter 0
    x.owner = some 2 ∧ x.pending.toList = [2, 1] ∧ x.detaching.toList = [2, 1] ∧
      ∃ n after before,
        m.after n = m.ended ⟨after, .nothing, before ++ [.reported 0 0 .idle] ++ [.passEnded 0]⟩ ∧
        before.filter (·.isAdvance) = [.turnBegun 0 2 (some 0), .turnBegun 0 1 (some 1)] ∧
        after.arbiter 0 = { x with
          owner := none, pending := ∅, detaching := ∅, free := .first 3
          bindings := .replicate maxSlots none } := by
  intro m x
  have hcall : m.control = .call (.pass 0 none) := by rfl
  have horder : x.InOrder := by constructor <;> decide +kernel
  have hturns : ∀ slot c, slot ∈ x.pending ∨ slot ∈ x.owner → x.client? slot = some c →
      (m.world.client c).nextTurn.1.actions = [] := by
    have hall : ∀ slot, ∀ c ∈ x.client? slot, (m.world.client c).nextTurn.1.actions.isEmpty := by
      decide +kernel
    exact fun slot c _ hc => List.isEmpty_iff.1 (hall slot c hc)
  have hidle : (if x.fallsIdle (m.world.answers 0) then m.world.idleReport 0 else []) =
      [.reported 0 0 .idle] := by decide +kernel
  obtain ⟨n, after, before, hn, hadvances, _, hbooks, _⟩ :=
    pass_equals_reference hcall (by decide +kernel) horder hturns rfl rfl
  refine ⟨by decide +kernel, by decide +kernel, by decide +kernel, n, after, before, ?_, ?_, ?_⟩
  · rw [hn, hidle]
  · exact hadvances.trans (by decide +kernel)
  · exact hbooks.trans (by decide +kernel)

end Machine

end SharedBus
