import SharedBus.Proofs.Books
import SharedBus.Proofs.Teardown.Detach

/-! # Requests in closed form

Whether one request queues a pass depends on what the requests before it have left pending. Taken
together, requests come to no more than the set of their slots: the occupied ones among them become
pending, and a pass is queued if the owner is one of them or if they are the first on an idle bus.
Nothing is assumed of the books for that.
-/
namespace SharedBus

namespace Arbiter

variable {x : Arbiter} {slots others : SlotSet} {slot owner : SlotId}

/-! ## What requests need -/

/-- Requests of these slots, all of them occupied, need a pass. -/
def callsFor (x : Arbiter) (slots : SlotSet) : Bool :=
  match x.owner with
  | some owner => slots.contains owner
  | none => x.pending.isEmpty && !slots.isEmpty

theorem callsFor_of_owner (h : x.owner = some owner) (slots : SlotSet) :
    x.callsFor slots = slots.contains owner := by
  rw [callsFor, h]

theorem callsFor_of_idle (h : x.owner = none) (slots : SlotSet) :
    x.callsFor slots = (x.pending.isEmpty && !slots.isEmpty) := by
  rw [callsFor, h]

theorem callsFor_of_isEmpty (h : slots.isEmpty) : x.callsFor slots = false := by
  cases howner : x.owner with
  | some owner =>
    rw [callsFor_of_owner howner]
    exact SlotSet.contains_eq_false.2 (SlotSet.isEmpty_iff.1 h owner)
  | none => simp [callsFor_of_idle howner, h]

theorem callsFor_singleton (x : Arbiter) (slot : SlotId) :
    x.callsFor (.singleton slot) = x.wantsPass slot := by
  unfold wantsPass
  cases howner : x.owner with
  | some owner =>
    rw [callsFor_of_owner howner]
    exact Bool.eq_iff_iff.2 (by simp)
  | none =>
    simp [callsFor_of_idle howner]

/-- Of requests made in two goes, the later ones need a pass in view of the earlier ones. -/
theorem callsFor_union (x : Arbiter) (slots others : SlotSet) :
    x.callsFor (slots ∪ others) =
      (x.callsFor slots || { x with pending := x.pending ∪ slots }.callsFor others) := by
  have hunion (s t : SlotSet) : (s ∪ t).isEmpty = (s.isEmpty && t.isEmpty) :=
    Bool.eq_iff_iff.2 (by simp [SlotSet.isEmpty_iff, forall_and])
  cases howner : x.owner with
  | some owner =>
    rw [callsFor_of_owner howner, callsFor_of_owner howner, callsFor_of_owner rfl]
    exact Bool.eq_iff_iff.2 (by simp)
  | none =>
    rw [callsFor_of_idle howner, callsFor_of_idle howner, callsFor_of_idle rfl, hunion]
    simp only [hunion]
    cases x.pending.isEmpty <;> cases slots.isEmpty <;> cases others.isEmpty <;> rfl

/-! ## What requests leave -/

/-- The books after these requests; slots that are not occupied are dropped. -/
def asked (x : Arbiter) (slots : SlotSet) : Arbiter :=
  { x with
    pending := x.pending ∪ (x.occupied ∩ slots)
    queued := x.queued || x.callsFor (x.occupied ∩ slots) }

/-- These requests put a pass on the queue. -/
def posts (x : Arbiter) (slots : SlotSet) : Bool :=
  !x.queued && x.callsFor (x.occupied ∩ slots)

/-- A request of one slot is heard if the slot is occupied. -/
theorem occupied_inter_singleton (h : x.accepts slot = true) :
    x.occupied ∩ .singleton slot = .singleton slot := by
  refine SlotSet.ext fun other => ?_
  rw [SlotSet.mem_inter, SlotSet.mem_singleton, and_iff_right_iff_imp]
  rintro rfl
  exact accepts_iff.1 h

theorem isEmpty_occupied_inter (h : x.accepts slot = false) :
    (x.occupied ∩ .singleton slot).isEmpty := by
  refine SlotSet.isEmpty_iff.2 fun other hother => ?_
  obtain ⟨hoccupied, hother⟩ := SlotSet.mem_inter.1 hother
  rw [SlotSet.mem_singleton.1 hother, ← accepts_iff, h] at hoccupied
  exact Bool.false_ne_true hoccupied

theorem asked_of_isEmpty (h : (x.occupied ∩ slots).isEmpty) : x.asked slots = x := by
  have hpending : x.pending ∪ (x.occupied ∩ slots) = x.pending := SlotSet.ext fun slot => by
    rw [SlotSet.mem_union, or_iff_left (SlotSet.isEmpty_iff.1 h slot)]
  rw [asked, hpending, callsFor_of_isEmpty h, Bool.or_false]

theorem posts_of_isEmpty (h : (x.occupied ∩ slots).isEmpty) : x.posts slots = false := by
  rw [posts, callsFor_of_isEmpty h, Bool.and_false]

/-- What a request of one slot asks for is what the arbiter checks. -/
theorem posts_singleton (x : Arbiter) (slot : SlotId) :
    x.posts (.singleton slot) = (!x.queued && (x.accepts slot && x.wantsPass slot)) := by
  rw [posts]
  cases haccepts : x.accepts slot with
  | false =>
    rw [callsFor_of_isEmpty (isEmpty_occupied_inter haccepts), Bool.false_and]
  | true =>
    rw [occupied_inter_singleton haccepts, callsFor_singleton, Bool.true_and]

private theorem occupied_inter_union (x : Arbiter) (slots others : SlotSet) :
    x.occupied ∩ (slots ∪ others) = x.occupied ∩ slots ∪ x.occupied ∩ others :=
  SlotSet.ext fun slot => by simp [and_or_left]

/-- Requests made in two goes leave the same as all of them at once. -/
theorem asked_asked (x : Arbiter) (slots others : SlotSet) :
    (x.asked slots).asked others = x.asked (slots ∪ others) := by
  have hpending : x.pending ∪ (x.occupied ∩ slots) ∪ (x.occupied ∩ others) =
      x.pending ∪ (x.occupied ∩ slots ∪ x.occupied ∩ others) :=
    SlotSet.ext fun slot => by simp [or_assoc]
  have hlater : (x.asked slots).callsFor (x.occupied ∩ others) =
      { x with pending := x.pending ∪ (x.occupied ∩ slots) }.callsFor (x.occupied ∩ others) :=
    rfl
  have hunfold : (x.asked slots).asked others = { x with
      pending := x.pending ∪ (x.occupied ∩ slots) ∪ (x.occupied ∩ others)
      queued := x.queued || x.callsFor (x.occupied ∩ slots) ||
        (x.asked slots).callsFor (x.occupied ∩ others) } := rfl
  rw [hunfold, hlater, Bool.or_assoc, ← callsFor_union, hpending, ← occupied_inter_union]
  rfl

/-- A pass is put on the queue once, either by the earlier requests or by the later ones. -/
theorem posts_union (x : Arbiter) (slots others : SlotSet) :
    x.posts (slots ∪ others) = (x.posts slots || (x.asked slots).posts others) := by
  have hlater : (x.asked slots).posts others =
      (!(x.queued || x.callsFor (x.occupied ∩ slots)) &&
        { x with pending := x.pending ∪ (x.occupied ∩ slots) }.callsFor
          (x.occupied ∩ others)) := rfl
  rw [posts, occupied_inter_union, callsFor_union, hlater, posts]
  cases x.queued <;> cases x.callsFor (x.occupied ∩ slots) <;> rfl

theorem not_posts_of_posts (h : x.posts slots = true) : (x.asked slots).posts others = false := by
  have hqueued : (x.asked slots).queued = true := by
    rw [posts, Bool.and_eq_true] at h
    simp [asked, h.2]
  rw [posts, hqueued, Bool.not_true, Bool.false_and]

end Arbiter

namespace World

variable {w : World} {a : ArbiterId}

/-- The slots have made their requests. -/
def asking (w : World) (a : ArbiterId) (slots : SlotSet) : World :=
  let x := w.arbiter a
  { w with
    arbiters := w.arbiters.set a (x.asked slots)
    queues := if x.posts slots then w.queues.set x.queue ((w.queue x.queue).push (.pass a))
      else w.queues }

/-- Nothing comes of requests if no slot among them is occupied. -/
theorem asking_of_isEmpty {slots : SlotSet} (h : ((w.arbiter a).occupied ∩ slots).isEmpty) :
    w.asking a slots = w := by
  have hsame : w.arbiters.set a (w.arbiter a) = w.arbiters :=
    congrArg (·.arbiters) w.setArbiter_arbiter
  simp [asking, Arbiter.asked_of_isEmpty h, Arbiter.posts_of_isEmpty h, hsame]

@[simp] theorem asking_empty (w : World) (a : ArbiterId) : w.asking a ∅ = w :=
  asking_of_isEmpty <| SlotSet.isEmpty_iff.2 fun _ hslot =>
    SlotSet.notMem_empty (SlotSet.mem_inter.1 hslot).2

/-- An arbiter that is not there has no slots. -/
theorem asking_of_missing (ha : w.arbiters.length ≤ a) (slots : SlotSet) :
    w.asking a slots = w := by
  refine asking_of_isEmpty (SlotSet.isEmpty_iff.2 fun slot hslot => ?_)
  rw [w.arbiter_eq_default ha, SlotSet.mem_inter, Arbiter.mem_occupied] at hslot
  exact Nat.not_lt_zero _ hslot.1.1

theorem arbiter_asking (w : World) (a : ArbiterId) (slots : SlotSet) :
    (w.asking a slots).arbiter a = (w.arbiter a).asked slots := by
  rcases Nat.lt_or_ge a w.arbiters.length with hlt | hge
  · simp [asking, arbiter, hlt]
  · rw [asking_of_missing hge]
    refine (Arbiter.asked_of_isEmpty (SlotSet.isEmpty_iff.2 fun slot hslot => ?_)).symm
    rw [w.arbiter_eq_default hge, SlotSet.mem_inter, Arbiter.mem_occupied] at hslot
    exact Nat.not_lt_zero _ hslot.1.1

theorem arbiter_asking_ne {d : ArbiterId} (h : a ≠ d) (slots : SlotSet) :
    (w.asking a slots).arbiter d = w.arbiter d := by
  simp [asking, arbiter, List.getElem?_set_ne h]

/-- One request asks for its slot. -/
theorem request_eq_asking (w : World) (a : ArbiterId) (slot : SlotId) :
    (w.request a slot).1 = w.asking a (.singleton slot) := by
  unfold request
  cases haccepts : (w.arbiter a).accepts slot with
  | false =>
    exact (asking_of_isEmpty (Arbiter.isEmpty_occupied_inter haccepts)).symm
  | true =>
    have ha : a < w.arbiters.length := lt_length_of_accepts haccepts
    have hheard := Arbiter.occupied_inter_singleton haccepts
    have hcalls := (w.arbiter a).callsFor_singleton slot
    cases hwants : (w.arbiter a).wantsPass slot with
    | false =>
      simp [asking, Arbiter.asked, Arbiter.posts, hheard, hcalls, hwants, move, setArbiter,
        Arbiter.setPending, SlotSet.insert]
    | true =>
      simp only [if_true, schedule_eq, w.arbiter_move_self ha]
      cases hqueued : (w.arbiter a).queued <;>
        simp [asking, Arbiter.asked, Arbiter.posts, hheard, hcalls, hwants, hqueued, move,
          setArbiter, queue, Arbiter.setPending, SlotSet.insert]

/-- Requests made in two goes come to the same as all of them at once. -/
theorem asking_asking (w : World) (a : ArbiterId) (slots others : SlotSet) :
    (w.asking a slots).asking a others = w.asking a (slots ∪ others) := by
  have hasked : (w.asking a slots).arbiter a = (w.arbiter a).asked slots := w.arbiter_asking a slots
  have harbiters : (w.asking a slots).arbiters.set a (((w.arbiter a).asked slots).asked others) =
      w.arbiters.set a ((w.arbiter a).asked (slots ∪ others)) := by
    simp [asking, Arbiter.asked_asked]
  rw [asking, hasked]
  simp only [harbiters]
  cases hposts : (w.arbiter a).posts slots with
  | true => simp [asking, hposts, Arbiter.posts_union, Arbiter.not_posts_of_posts hposts]
  | false => simp [asking, hposts, Arbiter.posts_union, queue, Arbiter.asked]

/-- Whoever uses a notifier makes one request. -/
theorem ends_useNotifier (w : World) (handle : Handle) (reply : Reply) :
    (w.useNotifier handle reply).Ends
      ⟨w.asking handle.arbiter (.singleton handle.slot), reply,
        (w.request handle.arbiter handle.slot).2⟩ := by
  rw [← request_eq_asking]
  exact .reply ..

theorem act_request (w : World) (a : ArbiterId) (index : Nat) :
    (w.act (.request a index)).world = w.asking a (.ofList (SlotId.ofIndex? index).toList) := by
  have hends := w.ends_act (.request a index)
  rw [perform] at hends
  cases hslot : SlotId.ofIndex? index with
  | none =>
    simp only [hslot] at hends
    rw [hends.unique (.reply ..)]
    exact (w.asking_empty a).symm
  | some slot =>
    have hone : SlotSet.ofList [slot] = .singleton slot :=
      SlotSet.ext fun other => by simp [SlotSet.mem_ofList]
    simp only [hslot, whenThere] at hends
    rw [Option.toList_some, hone]
    split at hends
    · rw [hends.unique (w.ends_useNotifier ⟨a, slot⟩ .nothing)]
    · rename_i hthere
      rw [hends.unique (.reply ..), asking_of_missing (by simpa [hasArbiter] using hthere)]

/-- What a number of requests comes to is the set of the slots that they name. -/
theorem actAll_request (w : World) (a : ArbiterId) (slots : List Nat) :
    (w.actAll (slots.map (.request a))).1 =
      w.asking a (.ofList (slots.filterMap SlotId.ofIndex?)) := by
  induction slots generalizing w with
  | nil => exact (w.asking_empty a).symm
  | cons index rest ih =>
    have hunion : SlotSet.ofList (SlotId.ofIndex? index).toList ∪
        .ofList (rest.filterMap SlotId.ofIndex?) =
          .ofList ((index :: rest).filterMap SlotId.ofIndex?) :=
      SlotSet.ext fun slot => by
        rw [SlotSet.mem_union, SlotSet.mem_ofList, SlotSet.mem_ofList, SlotSet.mem_ofList,
          List.filterMap_cons]
        cases SlotId.ofIndex? index <;> simp
    rw [List.map_cons, actAll]
    simp only
    rw [ih, act_request, asking_asking, hunion]

/-- It matters neither in which order nor how often requests are made. Only the slots that they
name do, and of these only the occupied ones. -/
theorem requests_form_set (w : World) (a : ArbiterId) {slots others : List Nat}
    (h : ∀ index, index ∈ slots ↔ index ∈ others) :
    let after := (w.actAll (slots.map (.request a))).1
    after = (w.actAll (others.map (.request a))).1 ∧
      after = w.asking a (.ofList (slots.filterMap SlotId.ofIndex?)) := by
  have hsame : SlotSet.ofList (slots.filterMap SlotId.ofIndex?) =
      .ofList (others.filterMap SlotId.ofIndex?) :=
    SlotSet.ext fun slot => by simp only [SlotSet.mem_ofList, List.mem_filterMap, h]
  refine ⟨?_, w.actAll_request a slots⟩
  rw [actAll_request, actAll_request, hsame]

/-- Two clients ask, one of them twice, among requests of a free slot and of none at all. They queue
one pass. -/
theorem requests_form_set_mixed :
    let w := (Machine.play 40 [.build 0 0 (some 3), .attach 0 0 ⟨7⟩ none none,
      .attach 0 1 ⟨8⟩ none none] (Machine.rest .playground)).world
    let slots := [1, 40, 2, 0, 1]
    let others := [2, 1, 0, 40]
    let after := (w.actAll (slots.map (.request 0))).1
    (∀ index, index ∈ slots ↔ index ∈ others) ∧
      after = (w.actAll (others.map (.request 0))).1 ∧
      (after.arbiter 0).pending.toList = [2, 1] ∧ (after.queue 0).entries = [.pass 0] := by
  intro w slots others after
  have hsame : ∀ index, index ∈ slots ↔ index ∈ others := by
    intro index
    simp only [slots, others, List.mem_cons, List.not_mem_nil, or_false]
    omega
  obtain ⟨hafter, hasking⟩ := requests_form_set w 0 hsame
  refine ⟨hsame, hafter, ?_, ?_⟩
  · exact (congrArg (fun w : World => (w.arbiter 0).pending.toList) hasking).trans
      (by decide +kernel)
  · exact (congrArg (fun w : World => (w.queue 0).entries) hasking).trans (by decide +kernel)

end World

end SharedBus
