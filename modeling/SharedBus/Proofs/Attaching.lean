import Mathlib.Data.List.Induction
import SharedBus.Proofs.Books
import SharedBus.Proofs.Equipping
import SharedBus.Proofs.Reference

/-! # Attaching in closed form

An attach of a client that does nothing when it is called either changes nothing or takes the
highest free slot, binds it and hands the client its handles. So of a number of attaches only those
of clients that were not bound before matter, and of these the first one of each client: they get
the free slots from the highest down, as far as these go.
-/
namespace SharedBus

namespace Arbiter

variable {x : Arbiter} {slot other : SlotId} {b : Binding} {c : ClientId}

/-! ## Taking a slot -/

/-- The free slot is taken and bound. -/
def seat (x : Arbiter) (slot : SlotId) (b : Binding) : Arbiter :=
  { x with free := x.free.erase slot }.bind slot b

theorem client?_seat (x : Arbiter) (slot : SlotId) (b : Binding) (other : SlotId) :
    (x.seat slot b).client? other = if other = slot then some b.client else x.client? other := by
  rw [client?, seat, binding_bind]
  split <;> rfl

theorem InOrder.mem_occupied_seat (h : x.InOrder) (hslot : slot ∈ x.free) (b : Binding) :
    other ∈ (x.seat slot b).occupied ↔ other ∈ x.occupied ∨ other = slot := by
  have hfree : (x.seat slot b).free = x.free.erase slot := rfl
  have hcapacity : (x.seat slot b).capacity = x.capacity := rfl
  rw [mem_occupied, mem_occupied, hfree, hcapacity, SlotSet.mem_erase]
  by_cases hother : other = slot
  · subst hother
    simp [hslot, h.free_le _ hslot]
  · simp [hother]

theorem InOrder.find?_eq_some (h : x.InOrder) :
    x.find? c = some slot ↔ x.client? slot = some c := by
  refine ⟨client?_of_find?, fun hclient => ?_⟩
  have hoccupied := (h.bound_iff slot).1 (by simp [hclient])
  cases hfind : x.find? c with
  | none => exact absurd hclient (client?_ne_of_find? hfind hoccupied)
  | some other =>
    have hother := client?_of_find? hfind
    rw [h.apart other (mem_occupied_of_find? hfind) slot hoccupied (hother.trans hclient.symm)]

theorem InOrder.find?_eq_none (h : x.InOrder) :
    x.find? c = none ↔ ∀ slot, x.client? slot ≠ some c := by
  simp [Option.eq_none_iff_forall_ne_some, h.find?_eq_some]

/-- A slot that is taken by a client that has none leaves the books in order. -/
theorem InOrder.seat (h : x.InOrder) (hslot : slot ∈ x.free) (hnew : x.find? b.client = none) :
    (x.seat slot b).InOrder where
  free_le other hother := h.free_le other (SlotSet.mem_erase.1 hother).1
  pending_occupied other hother :=
    (h.mem_occupied_seat hslot b).2 (.inl (h.pending_occupied other hother))
  detaching_occupied other hother :=
    (h.mem_occupied_seat hslot b).2 (.inl (h.detaching_occupied other hother))
  bound_iff other := by
    rw [h.mem_occupied_seat hslot b, client?_seat, ← h.bound_iff]
    by_cases hother : other = slot <;> simp [hother]
  apart first hfirst second hsecond heq := by
    have hnobody := h.find?_eq_none.1 hnew
    rw [client?_seat, client?_seat] at heq
    rw [h.mem_occupied_seat hslot b] at hfirst hsecond
    by_cases hslot₁ : first = slot <;> by_cases hslot₂ : second = slot
    · rw [hslot₁, hslot₂]
    · rw [if_pos hslot₁, if_neg hslot₂] at heq
      exact absurd heq.symm (hnobody second)
    · rw [if_neg hslot₁, if_pos hslot₂] at heq
      exact absurd heq (hnobody first)
    · rw [if_neg hslot₁, if_neg hslot₂] at heq
      exact h.apart first (hfirst.resolve_right hslot₁) second (hsecond.resolve_right hslot₂) heq
  owner_occupied other hother :=
    (h.mem_occupied_seat hslot b).2 (.inl (h.owner_occupied other hother))

/-! ## Who gets a slot -/

/-- The client of an attach is new if it is neither bound nor among those that were new before. -/
def welcome (x : Arbiter) (new : List Binding) (b : Binding) : List Binding :=
  if (x.find? b.client).isNone && new.all (·.client != b.client) then new ++ [b] else new

/-- The new clients of these attaches, each with the tag of its first attach. -/
def newcomers (x : Arbiter) (attaches : List Binding) : List Binding :=
  attaches.foldl x.welcome []

/-- The new clients get the free slots, from the highest slot down. -/
def seats (x : Arbiter) (attaches : List Binding) : List (SlotId × Binding) :=
  x.free.toList.zip (x.newcomers attaches)

section
variable {attaches : List Binding} {seat : SlotId × Binding}

theorem mem_of_seat (h : seat ∈ x.seats attaches) :
    seat.1 ∈ x.free ∧ seat.2 ∈ x.newcomers attaches :=
  (List.of_mem_zip h).imp_left SlotSet.mem_toList.1

/-- If there are slots for all new clients, each of them has one. -/
theorem seat_of_mem (hle : (x.newcomers attaches).length ≤ x.free.toList.length)
    (hb : b ∈ x.newcomers attaches) : ∃ slot, (slot, b) ∈ x.seats attaches := by
  rw [← List.map_snd_zip hle, List.mem_map] at hb
  obtain ⟨⟨slot, _⟩, hseat, rfl⟩ := hb
  exact ⟨slot, hseat⟩

theorem newcomers_concat (x : Arbiter) (attaches : List Binding) (b : Binding) :
    x.newcomers (attaches ++ [b]) = x.welcome (x.newcomers attaches) b := by
  simp [newcomers]

/-- Every client that is not bound and attaches is among the new ones. -/
theorem exists_newcomer (hfind : x.find? c = none) (hmem : ∃ b ∈ attaches, b.client = c) :
    ∃ n ∈ x.newcomers attaches, n.client = c := by
  induction attaches using List.reverseRecOn with
  | nil => simp at hmem
  | append_singleton before b ih =>
    rw [newcomers_concat, welcome]
    by_cases hbefore : ∃ n ∈ x.newcomers before, n.client = c
    · obtain ⟨n, hn, hclient⟩ := hbefore
      refine ⟨n, ?_, hclient⟩
      split
      · exact List.mem_append_left _ hn
      · exact hn
    · obtain ⟨d, hd, hclient⟩ := hmem
      have hlast : b.client = c := by
        rcases List.mem_append.1 hd with hd | hd
        · exact absurd (ih ⟨d, hd, hclient⟩) hbefore
        · exact List.mem_singleton.1 hd ▸ hclient
      have hnew : ∀ n ∈ x.newcomers before, n.client ≠ b.client := fun n hn heq =>
        hbefore ⟨n, hn, heq.trans hlast⟩
      rw [if_pos (by simpa [hlast, hfind] using hnew)]
      exact ⟨b, by simp, hlast⟩

/-- The tag of a new client is that of its first attach. -/
theorem first_of_newcomer (h : b ∈ x.newcomers attaches) : ∃ before rest,
    attaches = before ++ b :: rest ∧ ∀ earlier ∈ before, earlier.client ≠ b.client := by
  induction attaches using List.reverseRecOn with
  | nil => simp [newcomers] at h
  | append_singleton before last ih =>
    rw [newcomers_concat, welcome] at h
    split at h
    · rename_i hnew
      simp only [Bool.and_eq_true, Option.isNone_iff_eq_none, List.all_eq_true,
        bne_iff_ne] at hnew
      rcases List.mem_append.1 h with h | h
      · obtain ⟨first, rest, rfl, hfirst⟩ := ih h
        exact ⟨first, rest ++ [last], by simp, hfirst⟩
      · obtain rfl := List.mem_singleton.1 h
        refine ⟨before, [], rfl, fun earlier hearlier heq => ?_⟩
        obtain ⟨n, hn, hclient⟩ := exists_newcomer hnew.1 ⟨earlier, hearlier, heq⟩
        exact hnew.2 n hn hclient
    · obtain ⟨first, rest, rfl, hfirst⟩ := ih h
      exact ⟨first, rest ++ [last], by simp, hfirst⟩

theorem newcomers_of_known
    (h : x.find? b.client ≠ none ∨ ∃ n ∈ x.newcomers attaches, n.client = b.client) :
    x.newcomers (attaches ++ [b]) = x.newcomers attaches := by
  rw [newcomers_concat, welcome, if_neg]
  rcases h with hbound | ⟨n, hn, hclient⟩
  · simp [hbound]
  · intro hnew
    rw [Bool.and_eq_true, List.all_eq_true] at hnew
    simpa [hclient] using hnew.2 n hn

theorem newcomers_of_new (hfind : x.find? b.client = none)
    (hnew : ∀ n ∈ x.newcomers attaches, n.client ≠ b.client) :
    x.newcomers (attaches ++ [b]) = x.newcomers attaches ++ [b] := by
  rw [newcomers_concat, welcome, if_pos]
  simpa [hfind] using hnew

/-- One more new client gets the slot that is next, if there is one. -/
theorem zip_concat {α β : Type} (l : List α) (new : List β) (b : β) :
    l.zip (new ++ [b]) = l.zip new ++ l[new.length]?.toList.map (·, b) := by
  induction l generalizing new with
  | nil => simp
  | cons slot rest ih =>
    cases new with
    | nil => simp
    | cons n new => simpa using ih new

end

end Arbiter

namespace World

variable {w : World} {a : ArbiterId} {slot : SlotId} {b : Binding} {c : ClientId}

/-! ## One attach -/

/-- The slot was taken by the client and the client holds its handles. -/
def seating (w : World) (a : ArbiterId) (slot : SlotId) (b : Binding) : World :=
  (w.move a (·.seat slot b)).equipping b.client (some ⟨a, slot⟩)

theorem arbiter_seating (ha : a < w.arbiters.length) (slot : SlotId) (b : Binding) :
    (w.seating a slot b).arbiter a = (w.arbiter a).seat slot b :=
  w.arbiter_move_self ha (·.seat slot b)

theorem binding_seating (ha : a < w.arbiters.length) (slot : SlotId) (b : Binding)
    (other : SlotId) : ((w.seating a slot b).arbiter a).binding other =
      if other = slot then some b else (w.arbiter a).binding other := by
  rw [arbiter_seating ha, Arbiter.seat, Arbiter.binding_bind]
  rfl

section
variable (hc : w.hasClient b.client) (slot : SlotId)
include hc

theorem clients_seating : (w.seating a slot b).clients =
    w.clients.set b.client ((w.client b.client).equip (some ⟨a, slot⟩)) :=
  clients_equipping (w := w.move a (·.seat slot b)) hc _

theorem client_seating_self : (w.seating a slot b).client b.client =
    (w.client b.client).equip (some ⟨a, slot⟩) := by
  simp [World.client, clients_seating hc, of_decide_eq_true hc]

theorem client_seating_ne (hne : c ≠ b.client) :
    (w.seating a slot b).client c = w.client c := by
  simp [World.client, clients_seating hc, List.getElem?_set_ne (Ne.symm hne)]

end

section
variable (ha : w.hasArbiter a) (hc : w.hasClient b.client) (hopen : (w.arbiter a).closed = false)
include ha hc hopen

/-- An attach to an open arbiter looks for its client and claims a slot. -/
theorem ends_attach_of_claim {rest : Effect} (h : (w.claim a b.client b.tag none).Ends rest) :
    (w.perform (.attach a b.client b.tag none none)).Ends rest := by
  have hattach : w.perform (.attach a b.client b.tag none none) =
      w.call (.race .lock none) (.claim a b.client b.tag none) := by
    simp [perform, whenThere, ha, hc, attach, hopen]
  have hrace : (w.begin (.race .lock none)).Ends ⟨w, .nothing, []⟩ := .reply ..
  have hclaim : (w.resume .nothing (.claim a b.client b.tag none)).Ends rest := h
  have hends : (w.call (.race .lock none) (.claim a b.client b.tag none)).Ends _ :=
    ends_call hrace hclaim
  rw [hattach]
  simpa using hends

theorem ends_attach_bound (hfind : (w.arbiter a).find? b.client = some slot) :
    (w.perform (.attach a b.client b.tag none none)).Ends
      ⟨w, .refused (.alreadyAttached slot), []⟩ := by
  refine ends_attach_of_claim ha hc hopen ?_
  rw [claim, hfind]
  exact .reply ..

theorem ends_attach_exhausted (hfind : (w.arbiter a).find? b.client = none)
    (hfree : (w.arbiter a).free.isEmpty) :
    (w.perform (.attach a b.client b.tag none none)).Ends ⟨w, .refused .poolExhausted, []⟩ := by
  refine ends_attach_of_claim ha hc hopen ?_
  have hclaim : (w.arbiter a).claim? = none := by
    rw [Arbiter.claim?, SlotSet.popHighest?_eq_none.2 hfree, Option.map_none]
  rw [claim, hfind, hclaim]
  exact .reply ..

/-- With a slot left, the attach takes it and hands out the first handle. -/
theorem ends_attach_of_install {rest : Effect}
    (hfind : (w.arbiter a).find? b.client = none) (hslot : (w.arbiter a).free.highest? = some slot)
    (h : ((w.move a (·.seat slot b)).call (.install b.client .notifier (some ⟨a, slot⟩))
      (.install a b.client slot .notifier) [.bound a slot b]).Ends rest) :
    (w.perform (.attach a b.client b.tag none none)).Ends
      ⟨rest.world, rest.reply, .claimed a slot :: rest.events⟩ := by
  have hlt : a < w.arbiters.length := of_decide_eq_true ha
  refine ends_attach_of_claim ha hc hopen ?_
  let claimed := { w.arbiter a with free := (w.arbiter a).free.erase slot }
  have hclaim : (w.arbiter a).claim? = some (slot, claimed) := Arbiter.claim?_eq_some.2 ⟨hslot, rfl⟩
  have hmoves : (w.setArbiter a claimed).move a (·.bind slot b) = w.move a (·.seat slot b) := by
    rw [move, w.arbiter_setArbiter_self hlt]
    simp only [setArbiter, List.set_set]
    rfl
  have hbind : ((w.setArbiter a claimed).resume .nothing (.bind a b.client b.tag slot)).Ends
      rest := by
    rw [resume, World.bind, hmoves]
    exact h
  have hrace : ((w.setArbiter a claimed).begin (.race .bind none)).Ends
      ⟨w.setArbiter a claimed, .nothing, []⟩ := .reply ..
  have hends : ((w.setArbiter a claimed).call (.race .bind none) (.bind a b.client b.tag slot)
      [.claimed a slot]).Ends _ := ends_call hrace hbind
  rw [claim, hfind, hclaim]
  simpa [claimed, hopen] using hends

/-- Whatever a client does when it gets its handles, its attach replies with the slot that it has
taken. -/
theorem reply_attach (hfind : (w.arbiter a).find? b.client = none)
    (hslot : (w.arbiter a).free.highest? = some slot) :
    (w.act (.attach a b.client b.tag none none)).reply = .slot slot := by
  let bound := (w.move a (·.seat slot b)).call (.install b.client .notifier (some ⟨a, slot⟩))
    (.install a b.client slot .notifier) [.bound a slot b]
  obtain ⟨rest, hrest, _⟩ := bound.exists_ends
  let Waits (f : Activation) : Prop := ∃ kind, f = .install a b.client slot kind
  have hresume : ∀ (w : World) back waiting, Waits waiting →
      (w.resume back waiting).next.Within (· = .slot slot) Waits := by
    rintro w back _ ⟨kind, rfl⟩
    cases kind with
    | notifier | completion => exact ⟨_, rfl⟩
    | error => rfl
  have hreply : rest.reply = .slot slot := hrest.reply_of hresume ⟨.notifier, rfl⟩
  rw [act_of_ends (ends_attach_of_install ha hc hopen hfind hslot hrest), hreply]

/-- A client that does nothing when it is called is seated. -/
theorem ends_attach_seated (hstill : (w.client b.client).IsStill)
    (hfind : (w.arbiter a).find? b.client = none)
    (hslot : (w.arbiter a).free.highest? = some slot) :
    (w.perform (.attach a b.client b.tag none none)).Ends ⟨w.seating a slot b, .slot slot,
      .claimed a slot :: .bound a slot b ::
        (w.client b.client).equips b.client (some ⟨a, slot⟩)⟩ := by
  have hlast : ((w.seating a slot b).resume .nothing (.install a b.client slot .error)).Ends
      ⟨w.seating a slot b, .slot slot, []⟩ := .reply ..
  have hinstall : ((w.move a (·.seat slot b)).call (.install b.client .notifier (some ⟨a, slot⟩))
      (.install a b.client slot .notifier) [.bound a slot b]).Ends
        ⟨w.seating a slot b, .slot slot,
          [.bound a slot b] ++ (w.client b.client).equips b.client (some ⟨a, slot⟩) ++ []⟩ :=
    ends_equip (w := w.move a (·.seat slot b)) hc hstill
      (fun w kind next hnext => by simp [resume, installNext, hnext]) hlast
  simpa using ends_attach_of_install ha hc hopen hfind hslot hinstall

end

/-! ## One attach after another -/

/-- The attaches that are to bind the clients so, with nobody in between. -/
def attachments (a : ArbiterId) (attaches : List Binding) : List Action :=
  attaches.map fun b => .attach a b.client b.tag none none

/-- After these attaches the new clients have got the free slots, and nothing else has changed. -/
structure Seated (w : World) (a : ArbiterId) (attaches : List Binding) (now : World) : Prop where
  order : (now.arbiter a).InOrder
  free : (now.arbiter a).free.toList =
    (w.arbiter a).free.toList.drop ((w.arbiter a).newcomers attaches).length
  rest : now.arbiter a = { w.arbiter a with
    free := (now.arbiter a).free, bindings := (now.arbiter a).bindings }
  bound : ∀ seat ∈ (w.arbiter a).seats attaches, (now.arbiter a).binding seat.1 = some seat.2
  others : ∀ slot, (∀ seat ∈ (w.arbiter a).seats attaches, seat.1 ≠ slot) →
    (now.arbiter a).binding slot = (w.arbiter a).binding slot
  called : ∀ seat ∈ (w.arbiter a).seats attaches,
    now.client seat.2.client = (w.client seat.2.client).equip (some ⟨a, seat.1⟩)
  uncalled : ∀ c, (∀ seat ∈ (w.arbiter a).seats attaches, seat.2.client ≠ c) →
    now.client c = w.client c
  arbiters : now.arbiters.length = w.arbiters.length
  clients : now.clients.length = w.clients.length
  queues : now.queues = w.queues

section
variable {now : World} {attaches : List Binding}

theorem seated_nil (horder : (w.arbiter a).InOrder) : w.Seated a [] w := by
  have hnew : (w.arbiter a).newcomers [] = [] := rfl
  have hseats : (w.arbiter a).seats [] = [] := by rw [Arbiter.seats, hnew, List.zip_nil_right]
  constructor <;> simp [horder, hnew, hseats]

/-- Bound are those that were bound before and those that have got a slot. -/
theorem Seated.find?_eq_none (horder : (w.arbiter a).InOrder) (h : w.Seated a attaches now) :
    (now.arbiter a).find? c = none ↔ (w.arbiter a).find? c = none ∧
      ∀ seat ∈ (w.arbiter a).seats attaches, seat.2.client ≠ c := by
  rw [h.order.find?_eq_none, horder.find?_eq_none]
  constructor
  · intro hnobody
    refine ⟨fun slot hclient => hnobody slot ?_, fun seat hseat hclient => hnobody seat.1 ?_⟩
    · have hoccupied := (horder.bound_iff slot).1 (by simp [hclient])
      have hunseated : ∀ seat ∈ (w.arbiter a).seats attaches, seat.1 ≠ slot := by
        rintro seat hseat rfl
        exact (Arbiter.mem_occupied.1 hoccupied).2 (Arbiter.mem_of_seat hseat).1
      rw [Arbiter.client?, h.others slot hunseated]
      exact hclient
    · rw [Arbiter.client?, h.bound seat hseat, Option.map_some, hclient]
  · rintro ⟨hnobody, hunseated⟩ slot hclient
    by_cases hseat : ∃ seat ∈ (w.arbiter a).seats attaches, seat.1 = slot
    · obtain ⟨seat, hseat, rfl⟩ := hseat
      rw [Arbiter.client?, h.bound seat hseat, Option.map_some] at hclient
      exact hunseated seat hseat (Option.some.inj hclient)
    · have hothers := h.others slot fun seat hmem heq => hseat ⟨seat, hmem, heq⟩
      rw [Arbiter.client?, hothers] at hclient
      exact hnobody slot hclient

/-- An attach that seats nobody leaves things as they are. -/
theorem Seated.refused (h : w.Seated a attaches now)
    (hseats : (w.arbiter a).seats (attaches ++ [b]) = (w.arbiter a).seats attaches)
    (hfree : (w.arbiter a).free.toList.drop ((w.arbiter a).newcomers (attaches ++ [b])).length =
      (w.arbiter a).free.toList.drop ((w.arbiter a).newcomers attaches).length) :
    w.Seated a (attaches ++ [b]) now where
  order := h.order
  free := hfree ▸ h.free
  rest := h.rest
  bound := hseats ▸ h.bound
  others := hseats ▸ h.others
  called := hseats ▸ h.called
  uncalled := hseats ▸ h.uncalled
  arbiters := h.arbiters
  clients := h.clients
  queues := h.queues

/-- A client that is bound already is refused. -/
theorem Seated.known (horder : (w.arbiter a).InOrder) (h : w.Seated a attaches now)
    (hbound : (now.arbiter a).find? b.client ≠ none) : w.Seated a (attaches ++ [b]) now := by
  have hnewcomers : (w.arbiter a).newcomers (attaches ++ [b]) =
      (w.arbiter a).newcomers attaches := by
    refine Arbiter.newcomers_of_known ?_
    rw [Ne, h.find?_eq_none horder, not_and_or] at hbound
    refine hbound.imp_right fun hseated => ?_
    simp only [not_forall, not_not] at hseated
    obtain ⟨seat, hseat, hclient⟩ := hseated
    exact ⟨seat.2, (Arbiter.mem_of_seat hseat).2, hclient⟩
  exact h.refused (by rw [Arbiter.seats, hnewcomers]; rfl) (by rw [hnewcomers])

/-- With no slot left, everybody is refused. -/
theorem Seated.exhausted (h : w.Seated a attaches now) (hfree : (now.arbiter a).free.isEmpty) :
    w.Seated a (attaches ++ [b]) now := by
  have hfull : (w.arbiter a).free.toList.length ≤ ((w.arbiter a).newcomers attaches).length := by
    rw [← List.drop_eq_nil_iff, ← h.free]
    exact SlotSet.toList_eq_nil.2 hfree
  have hlonger : (w.arbiter a).newcomers (attaches ++ [b]) = (w.arbiter a).newcomers attaches ∨
      (w.arbiter a).newcomers (attaches ++ [b]) = (w.arbiter a).newcomers attaches ++ [b] := by
    rw [Arbiter.newcomers_concat, Arbiter.welcome]
    split
    · exact .inr rfl
    · exact .inl rfl
  rcases hlonger with hsame | hmore
  · exact h.refused (by rw [Arbiter.seats, hsame]; rfl) (by rw [hsame])
  · refine h.refused ?_ ?_
    · rw [Arbiter.seats, hmore, Arbiter.zip_concat, List.getElem?_eq_none hfull]
      exact List.append_nil _
    · have hmuch : (w.arbiter a).free.toList.length ≤
          ((w.arbiter a).newcomers (attaches ++ [b])).length := by
        rw [hmore, List.length_append]
        exact Nat.le_add_right_of_le hfull
      rw [List.drop_eq_nil_of_le hfull, List.drop_eq_nil_of_le hmuch]

/-- With a slot left, a client that is not bound is the next new one. -/
theorem Seated.seats_concat (horder : (w.arbiter a).InOrder) (h : w.Seated a attaches now)
    (hslot : (now.arbiter a).free.highest? = some slot)
    (hnew : (now.arbiter a).find? b.client = none) :
    (w.arbiter a).newcomers (attaches ++ [b]) = (w.arbiter a).newcomers attaches ++ [b] ∧
      (w.arbiter a).seats (attaches ++ [b]) = (w.arbiter a).seats attaches ++ [(slot, b)] := by
  have hnext : (w.arbiter a).free.toList[((w.arbiter a).newcomers attaches).length]? =
      some slot := by
    rw [← List.head?_drop, ← h.free, SlotSet.head?_toList, hslot]
  obtain ⟨hunbound, hunseated⟩ := (h.find?_eq_none horder).1 hnew
  have hnewcomers : (w.arbiter a).newcomers (attaches ++ [b]) =
      (w.arbiter a).newcomers attaches ++ [b] := by
    obtain ⟨hlt, _⟩ := List.getElem?_eq_some_iff.1 hnext
    refine Arbiter.newcomers_of_new hunbound fun n hn => ?_
    obtain ⟨other, hseat⟩ := Arbiter.seat_of_mem (Nat.le_of_lt hlt) hn
    exact hunseated _ hseat
  refine ⟨hnewcomers, ?_⟩
  rw [Arbiter.seats, hnewcomers, Arbiter.zip_concat, hnext]
  rfl

/-- A slot that is free now has not been handed out. -/
theorem Seated.not_free (h : w.Seated a attaches now) {seat : SlotId × Binding}
    (hseat : seat ∈ (w.arbiter a).seats attaches) : seat.1 ∉ (now.arbiter a).free := by
  have hbound : (now.arbiter a).client? seat.1 ≠ none := by
    rw [Arbiter.client?, h.bound seat hseat]
    exact Option.some_ne_none _
  exact (Arbiter.mem_occupied.1 ((h.order.bound_iff seat.1).1 hbound)).2

/-- The next new client gets the next slot. -/
theorem Seated.seating (ha : a < w.arbiters.length) (hc : w.hasClient b.client)
    (horder : (w.arbiter a).InOrder) (h : w.Seated a attaches now)
    (hslot : (now.arbiter a).free.highest? = some slot)
    (hnew : (now.arbiter a).find? b.client = none) :
    w.Seated a (attaches ++ [b]) (now.seating a slot b) := by
  have hlt : a < now.arbiters.length := h.arbiters ▸ ha
  have hthere : now.hasClient b.client := by simpa [hasClient, h.clients] using hc
  have hmem := SlotSet.mem_of_highest? hslot
  have hbooks := arbiter_seating hlt slot b
  obtain ⟨_, hunseated⟩ := (h.find?_eq_none horder).1 hnew
  obtain ⟨hnewcomers, hseats⟩ := h.seats_concat horder hslot hnew
  constructor
  case order => exact hbooks ▸ h.order.seat hmem hnew
  case free =>
    rw [hbooks, hnewcomers, List.length_append, List.length_singleton, ← List.tail_drop, ← h.free,
      SlotSet.toList_of_highest? hslot]
    rfl
  case rest =>
    rw [hbooks]
    exact congrArg (Arbiter.seat · slot b) h.rest
  case bound =>
    rw [hseats, List.forall_mem_append, List.forall_mem_singleton]
    refine ⟨fun seat hseat => ?_, ?_⟩
    · have hne : seat.1 ≠ slot := fun heq => h.not_free hseat (heq ▸ hmem)
      rw [binding_seating hlt, if_neg hne, h.bound seat hseat]
    · rw [binding_seating hlt, if_pos rfl]
  case others =>
    intro other hother
    rw [hseats, List.forall_mem_append, List.forall_mem_singleton] at hother
    rw [binding_seating hlt, if_neg (Ne.symm hother.2), h.others other hother.1]
  case called =>
    rw [hseats, List.forall_mem_append, List.forall_mem_singleton]
    refine ⟨fun seat hseat => ?_, ?_⟩
    · rw [client_seating_ne hthere slot (hunseated seat hseat), h.called seat hseat]
    · rw [client_seating_self hthere, h.uncalled b.client hunseated]
  case uncalled =>
    intro c hother
    rw [hseats, List.forall_mem_append, List.forall_mem_singleton] at hother
    rw [client_seating_ne hthere slot (Ne.symm hother.2), h.uncalled c hother.1]
  case arbiters =>
    have hlength : (now.seating a slot b).arbiters.length = now.arbiters.length :=
      now.length_move (·.seat slot b)
    rw [hlength, h.arbiters]
  case clients => rw [clients_seating hthere, List.length_set, h.clients]
  case queues => exact h.queues

/-- Whoever attaches next is refused if it is bound, and gets the next slot, if there is one,
otherwise. -/
theorem Seated.act (ha : a < w.arbiters.length) (hc : w.hasClient b.client)
    (horder : (w.arbiter a).InOrder) (hopen : (w.arbiter a).closed = false)
    (hstill : (w.client b.client).IsStill) (h : w.Seated a attaches now) :
    let effect := now.act (.attach a b.client b.tag none none)
    w.Seated a (attaches ++ [b]) effect.world ∧
      (∀ slot, (now.arbiter a).client? slot = some b.client →
        effect.reply = .refused (.alreadyAttached slot)) ∧
      ((∀ slot, (now.arbiter a).client? slot ≠ some b.client) → effect.reply =
        ((w.arbiter a).free.toList[((w.arbiter a).newcomers attaches).length]?).elim
          (.refused .poolExhausted) .slot) := by
  intro effect
  have hthere : now.hasArbiter a := decide_eq_true (h.arbiters ▸ ha)
  have hclient : now.hasClient b.client := by simpa [hasClient, h.clients] using hc
  have hstays : (now.arbiter a).closed = false := by
    rw [h.rest]
    exact hopen
  simp only [← h.order.find?_eq_some, ← h.order.find?_eq_none]
  rw [← List.head?_drop, ← h.free, SlotSet.head?_toList]
  cases hfind : (now.arbiter a).find? b.client with
  | some slot =>
    have heffect : effect = ⟨now, .refused (.alreadyAttached slot), []⟩ :=
      act_of_ends (ends_attach_bound hthere hclient hstays hfind)
    rw [heffect]
    exact ⟨h.known horder (by simp [hfind]), by simp, by simp⟩
  | none =>
    cases hslot : (now.arbiter a).free.highest? with
    | none =>
      have hfree := SlotSet.highest?_eq_none.1 hslot
      have heffect : effect = ⟨now, .refused .poolExhausted, []⟩ :=
        act_of_ends (ends_attach_exhausted hthere hclient hstays hfind hfree)
      rw [heffect]
      exact ⟨h.exhausted hfree, by simp, by simp⟩
    | some slot =>
      have hsame := h.uncalled b.client ((h.find?_eq_none horder).1 hfind).2
      have heffect : effect = ⟨now.seating a slot b, .slot slot, _⟩ :=
        act_of_ends (ends_attach_seated hthere hclient hstays (hsame ▸ hstill) hfind hslot)
      rw [heffect]
      exact ⟨h.seating ha hc horder hslot hfind, by simp, by simp⟩

theorem Seated.actAll {rest : List Binding} (ha : a < w.arbiters.length)
    (horder : (w.arbiter a).InOrder) (hopen : (w.arbiter a).closed = false)
    (hclients : ∀ b ∈ rest, w.hasClient b.client ∧ (w.client b.client).IsStill)
    (h : w.Seated a attaches now) :
    w.Seated a (attaches ++ rest) (now.actAll (attachments a rest)).1 := by
  induction rest generalizing attaches now with
  | nil => simpa [attachments, World.actAll] using h
  | cons b rest ih =>
    obtain ⟨⟨hc, hstill⟩, hrest⟩ := List.forall_mem_cons.1 hclients
    have hnext := ih hrest (h.act ha hc horder hopen hstill).1
    rw [List.append_assoc, List.singleton_append] at hnext
    exact hnext

end

/-! ## Main result -/

/-- Clients that do nothing when they are called are attached one after another. Who is bound
already is refused with the slot that it has; the others get the free slots, each the highest one
that is left, and are refused when there is none. Each new client is bound with the tag of its first
attach and holds handles of its slot. Nothing else changes. -/
theorem free_slots_are_handed_out_in_order {attaches : List Binding} (ha : w.hasArbiter a)
    (horder : (w.arbiter a).InOrder) (hopen : (w.arbiter a).closed = false)
    (hclients : ∀ b ∈ attaches, w.hasClient b.client ∧ (w.client b.client).IsStill) :
    let x := w.arbiter a
    let after := (w.actAll (attachments a attaches)).1
    let y := after.arbiter a
    (∀ before b rest, attaches = before ++ b :: rest →
      let now := (w.actAll (attachments a before)).1
      let reply := (now.act (.attach a b.client b.tag none none)).reply
      (∀ slot, (now.arbiter a).client? slot = some b.client →
        reply = .refused (.alreadyAttached slot)) ∧
      ((∀ slot, (now.arbiter a).client? slot ≠ some b.client) → reply =
        (x.free.toList[(x.newcomers before).length]?).elim (.refused .poolExhausted) .slot)) ∧
    y = { x with
      free := x.free \ x.free.take (x.newcomers attaches).length, bindings := y.bindings } ∧
    (∀ seat ∈ x.seats attaches, y.binding seat.1 = some seat.2 ∧
      (∃ before rest, attaches = before ++ seat.2 :: rest ∧
        ∀ earlier ∈ before, earlier.client ≠ seat.2.client) ∧
      ∀ kind, (after.client seat.2.client).handles.get kind =
        if (w.client seat.2.client).takes kind then some ⟨a, seat.1⟩
        else (w.client seat.2.client).handles.get kind) ∧
    (∀ slot, (∀ seat ∈ x.seats attaches, seat.1 ≠ slot) → y.binding slot = x.binding slot) ∧
    (∀ c, (∀ seat ∈ x.seats attaches, seat.2.client ≠ c) → after.client c = w.client c) ∧
    after.queues = w.queues := by
  intro x after y
  have hlt : a < w.arbiters.length := of_decide_eq_true ha
  have hafter : w.Seated a attaches after :=
    (seated_nil horder).actAll hlt horder hopen hclients
  refine ⟨?_, ?_, fun seat hseat => ⟨hafter.bound seat hseat, ?_, fun kind => ?_⟩, hafter.others,
    hafter.uncalled, hafter.queues⟩
  · rintro before b rest rfl now reply
    rw [List.forall_mem_append, List.forall_mem_cons] at hclients
    obtain ⟨hbefore, ⟨hc, hstill⟩, _⟩ := hclients
    have hnow : w.Seated a before now := (seated_nil horder).actAll hlt horder hopen hbefore
    exact (hnow.act hlt hc horder hopen hstill).2
  · rw [← SlotSet.eq_sdiff_take hafter.free]
    exact hafter.rest
  · exact Arbiter.first_of_newcomer (Arbiter.mem_of_seat hseat).2
  · rw [hafter.called seat hseat, Client.get_handles_equip]

/-- One client is on its way out of the highest of three slots, another attaches twice, and the last
one comes too late. -/
theorem free_slots_are_handed_out_in_order_crowded :
    let w := (Machine.play 60 [.build 0 0 (some 3), .attach 0 0 ⟨7⟩ none none, .detach 0 0]
      (Machine.rest { playground with clients := List.replicate 4 {} })).world
    let attaches : List Binding := [⟨1, ⟨8⟩⟩, ⟨0, ⟨9⟩⟩, ⟨1, ⟨5⟩⟩, ⟨2, ⟨6⟩⟩, ⟨3, ⟨4⟩⟩]
    let after := (w.actAll (attachments 0 attaches)).1
    let reply (n : Nat) (b : Binding) :=
      let now := (w.actAll (attachments 0 (attaches.take n))).1
      (now.act (.attach 0 b.client b.tag none none)).reply
    w.hasArbiter 0 ∧ (w.arbiter 0).InOrder ∧ (w.arbiter 0).closed = false ∧
      (∀ b ∈ attaches, w.hasClient b.client ∧ (w.client b.client).IsStill) ∧
      reply 0 ⟨1, ⟨8⟩⟩ = .slot 1 ∧ reply 1 ⟨0, ⟨9⟩⟩ = .refused (.alreadyAttached 2) ∧
      reply 2 ⟨1, ⟨5⟩⟩ = .refused (.alreadyAttached 1) ∧ reply 3 ⟨2, ⟨6⟩⟩ = .slot 0 ∧
      reply 4 ⟨3, ⟨4⟩⟩ = .refused .poolExhausted ∧ (after.arbiter 0).free = ∅ ∧
      (after.arbiter 0).binding 1 = some ⟨1, ⟨8⟩⟩ ∧
      (after.client 2).handles.get .notifier = some ⟨0, 0⟩ := by
  intro w attaches after reply
  have hthere : w.hasArbiter 0 := by decide +kernel
  have horder : (w.arbiter 0).InOrder := by constructor <;> decide +kernel
  have hclients : ∀ b ∈ attaches, w.hasClient b.client ∧ (w.client b.client).IsStill := by
    decide +kernel
  obtain ⟨hreplies, hbooks, hseats, _⟩ :=
    free_slots_are_handed_out_in_order hthere horder (by decide +kernel) hclients
  obtain ⟨_, hfirst⟩ := hreplies [] ⟨1, ⟨8⟩⟩ (attaches.drop 1) rfl
  obtain ⟨hsecond, _⟩ := hreplies (attaches.take 1) ⟨0, ⟨9⟩⟩ (attaches.drop 2) rfl
  obtain ⟨hthird, _⟩ := hreplies (attaches.take 2) ⟨1, ⟨5⟩⟩ (attaches.drop 3) rfl
  obtain ⟨_, hfourth⟩ := hreplies (attaches.take 3) ⟨2, ⟨6⟩⟩ (attaches.drop 4) rfl
  obtain ⟨_, hlast⟩ := hreplies (attaches.take 4) ⟨3, ⟨4⟩⟩ [] rfl
  refine ⟨hthere, horder, by decide +kernel, hclients, ?_, hsecond 2 (by decide +kernel),
    hthird 1 (by decide +kernel), ?_, ?_, ?_, ?_, ?_⟩
  · exact (hfirst (by decide +kernel)).trans (by decide +kernel)
  · exact (hfourth (by decide +kernel)).trans (by decide +kernel)
  · exact (hlast (by decide +kernel)).trans (by decide +kernel)
  · exact (congrArg Arbiter.free hbooks).trans (by decide +kernel)
  · exact (hseats (1, ⟨1, ⟨8⟩⟩) (by decide +kernel)).1
  · exact ((hseats (0, ⟨2, ⟨6⟩⟩) (by decide +kernel)).2.2 .notifier).trans (by decide +kernel)

end World

end SharedBus
