import Mathlib.Algebra.GroupWithZero.Nat
import SharedBus.Proofs.Books
import SharedBus.Proofs.World

/-! # Agendas

Some slots ask for the bus, and each needs it for a number of turns. What is left to do is an
agenda: the slots from the highest down, each with the number of turns for which it will still keep
the bus. A pass works on its front: it advances slots until one keeps the bus.
-/
namespace SharedBus

/-- Slots, each with the number of turns for which it will keep the bus. -/
abbrev Agenda := List (SlotId × Nat)

namespace Agenda

/-- The slots that one pass advances. -/
def advanced : Agenda → List SlotId
  | [] => []
  | (slot, 0) :: rest => slot :: advanced rest
  | (slot, _ + 1) :: _ => [slot]

/-- What one pass leaves to do. The first slot of it owns the bus. -/
def left : Agenda → Agenda
  | [] => []
  | (_, 0) :: rest => left rest
  | (slot, turns + 1) :: rest => (slot, turns) :: rest

/-- The slots in the order of all turns to come. -/
def turns (todo : Agenda) : List SlotId := todo.flatMap fun p => List.replicate (p.2 + 1) p.1

/-- The number of turns to come after which the bus is kept. -/
def kept (todo : Agenda) : Nat := (todo.map Prod.snd).sum

theorem turns_eq (todo : Agenda) : todo.turns = todo.advanced ++ todo.left.turns := by
  induction todo with
  | nil => rfl
  | cons p rest ih =>
    obtain ⟨slot, _ | k⟩ := p
    · exact congrArg (slot :: ·) ih
    · rfl

theorem slots_left (todo : Agenda) : todo.left.map Prod.fst <:+ todo.map Prod.fst := by
  induction todo with
  | nil => exact List.suffix_refl _
  | cons p rest ih =>
    obtain ⟨slot, _ | k⟩ := p
    · exact ih.trans (List.suffix_cons ..)
    · exact List.suffix_refl _

theorem kept_of_left_eq_nil {todo : Agenda} (h : todo.left = []) : todo.kept = 0 := by
  induction todo with
  | nil => rfl
  | cons p rest ih =>
    obtain ⟨slot, _ | k⟩ := p
    · simpa [kept] using ih h
    · cases h

theorem kept_of_left_ne_nil {todo : Agenda} (h : todo.left ≠ []) :
    todo.kept = todo.left.kept + 1 := by
  induction todo with
  | nil => exact absurd rfl h
  | cons p rest ih =>
    obtain ⟨slot, _ | k⟩ := p
    · simpa [kept, left] using ih h
    · simp [kept, left, Nat.add_right_comm]

end Agenda

/-! ## Clients at work -/

/-- The client answers so many turns with busy and the next one with done, and performs no actions
in them. -/
def Client.BusyFor : Client → Nat → Prop
  | client, 0 => client.nextTurn.1 = ⟨.done, []⟩
  | client, turns + 1 => client.nextTurn.1 = ⟨.busy, []⟩ ∧ client.nextTurn.2.BusyFor turns

/-- These slots wait to be served. -/
def Agenda.Waits (todo : Agenda) (pending : SlotSet) : Prop :=
  ∀ slot, slot ∈ pending ↔ slot ∈ todo.map Prod.fst

/-- The clients of an agenda do as it says. They are different ones, and the highest slot comes
first. -/
structure World.Crew (base : World) (a : ArbiterId) (todo : Agenda) (clients : List Client) :
    Prop where
  accepted : ∀ p ∈ todo, (base.arbiter a).accepts p.1 = true
  busy : ∀ p ∈ todo, ∃ c, (base.arbiter a).client? p.1 = some c ∧
    (clients.getD c default).BusyFor p.2
  descending : todo.Pairwise fun p p' => p'.1 < p.1
  apart : todo.Pairwise fun p p' => (base.arbiter a).client? p.1 ≠ (base.arbiter a).client? p'.1
  handles : ∀ c, (clients.getD c default).handles = (base.client c).handles

section
variable {base : World} {a : ArbiterId} {slot : SlotId} {k : Nat} {rest : Agenda}
variable {pending : SlotSet} {clients : List Client}

theorem Client.handles_nextTurn (client : Client) : client.nextTurn.2.handles = client.handles := by
  unfold nextTurn
  split <;> rfl

/-- A turn takes no handle from anybody. -/
theorem World.handles_set_nextTurn
    (h : ∀ c, (clients.getD c default).handles = (base.client c).handles) (c d : ClientId) :
    ((clients.set c (clients.getD c default).nextTurn.2).getD d default).handles =
      (base.client d).handles := by
  rw [← h d]
  by_cases hcd : c = d
  · subst hcd
    rcases Nat.lt_or_ge c clients.length with hlt | hge
    · simp [hlt, Client.handles_nextTurn]
    · rw [List.set_eq_of_length_le hge]
  · simp [List.getElem?_set_ne hcd]

namespace World.Crew

/-- The turn of one client leaves the others as they are. -/
theorem rest_set (h : base.Crew a ((slot, k) :: rest) clients) {c : ClientId}
    (hclient : (base.arbiter a).client? slot = some c) :
    base.Crew a rest (clients.set c (clients.getD c default).nextTurn.2) where
  accepted := (List.forall_mem_cons.1 h.accepted).2
  busy p hp := by
    obtain ⟨d, hd, hbusy⟩ := h.busy p (List.mem_cons_of_mem _ hp)
    have hne : c ≠ d := by
      rintro rfl
      exact (List.pairwise_cons.1 h.apart).1 p hp (hclient.trans hd.symm)
    exact ⟨d, hd, by simpa [List.getElem?_set_ne hne] using hbusy⟩
  descending := (List.pairwise_cons.1 h.descending).2
  apart := (List.pairwise_cons.1 h.apart).2
  handles := handles_set_nextTurn h.handles c

/-- The first client is done with its turn. -/
theorem done (h : base.Crew a ((slot, 0) :: rest) clients) :
    ∃ c, (base.arbiter a).client? slot = some c ∧
      (clients.getD c default).nextTurn.1 = ⟨.done, []⟩ ∧
        base.Crew a rest (clients.set c (clients.getD c default).nextTurn.2) := by
  obtain ⟨c, hclient, hbusy⟩ := h.busy _ List.mem_cons_self
  exact ⟨c, hclient, hbusy, h.rest_set hclient⟩

/-- The first client keeps the bus, for one turn less after this one. -/
theorem keep (h : base.Crew a ((slot, k + 1) :: rest) clients) :
    ∃ c, (base.arbiter a).client? slot = some c ∧
      (clients.getD c default).nextTurn.1 = ⟨.busy, []⟩ ∧
        base.Crew a ((slot, k) :: rest) (clients.set c (clients.getD c default).nextTurn.2) := by
  obtain ⟨c, hclient, hturn, hbusy⟩ := h.busy _ List.mem_cons_self
  -- a client that is not there is done at once
  have hlt : c < clients.length := by
    rcases Nat.lt_or_ge c clients.length with hlt | hge
    · exact hlt
    · simp [List.getElem?_eq_none hge, default, Client.nextTurn] at hturn
  have hrest := h.rest_set hclient
  refine ⟨c, hclient, hturn, ?_, ?_, ?_, ?_, hrest.handles⟩
  · exact List.forall_mem_cons.2 ⟨h.accepted (slot, k + 1) List.mem_cons_self, hrest.accepted⟩
  · exact List.forall_mem_cons.2 ⟨⟨c, hclient, by simpa [hlt] using hbusy⟩, hrest.busy⟩
  · exact List.pairwise_cons.2 (List.pairwise_cons.1 h.descending)
  · exact List.pairwise_cons.2 (List.pairwise_cons.1 h.apart)

end World.Crew

namespace Agenda.Waits

theorem isEmpty (h : Waits [] pending) : pending.isEmpty :=
  SlotSet.isEmpty_iff.2 fun slot hmem => by simpa using (h slot).1 hmem

theorem insert (h : Waits rest pending) : Waits ((slot, k) :: rest) (pending.insert slot) := by
  intro other
  rw [SlotSet.mem_insert, h other]
  simp [or_comm]

theorem highest? (h : Waits ((slot, k) :: rest) pending)
    (hcrew : base.Crew a ((slot, k) :: rest) clients) : pending.highest? = some slot := by
  refine SlotSet.highest?_eq_some.2 ⟨(h slot).2 (by simp), fun other hmem => ?_⟩
  rcases List.mem_cons.1 ((h other).1 hmem) with rfl | hrest
  · exact Nat.le_refl _
  · obtain ⟨p, hp, rfl⟩ := List.mem_map.1 hrest
    exact Nat.le_of_lt ((List.pairwise_cons.1 hcrew.descending).1 p hp)

theorem erase (h : Waits ((slot, k) :: rest) pending)
    (hcrew : base.Crew a ((slot, k) :: rest) clients) : Waits rest (pending.erase slot) := by
  intro other
  have hlower : other ∈ rest.map Prod.fst → other ≠ slot := by
    rintro hrest rfl
    obtain ⟨p, hp, heq⟩ := List.mem_map.1 hrest
    exact Nat.lt_irrefl _ (heq ▸ (List.pairwise_cons.1 hcrew.descending).1 p hp)
  rw [SlotSet.mem_erase, h other, List.map_cons, List.mem_cons]
  constructor
  · rintro ⟨heq | hrest, hne⟩
    · exact absurd heq hne
    · exact hrest
  · exact fun hrest => ⟨.inr hrest, hlower hrest⟩

end Agenda.Waits

end

end SharedBus
