import SharedBus.Arbiter.Basic
import SharedBus.Slot.Lemmas

/-! # Reading the books of an arbiter after a move

What each move on the books does to the bindings, and what it means that a slot was found, claimed
or taken for a turn. Moves on the sets and flags are plain updates and read back by definition.
-/
namespace SharedBus.Arbiter

variable {x y : Arbiter} {slot other : SlotId} {c : ClientId}

theorem mem_occupied : slot ∈ x.occupied ↔ slot.val < x.capacity ∧ slot ∉ x.free := by
  simp [occupied, SlotSet.mem_first]

theorem accepts_iff : x.accepts slot = true ↔ slot ∈ x.occupied := by
  rw [mem_occupied]
  simp [accepts]

/-! ## Bindings -/

theorem client?_eq_some : x.client? slot = some c ↔ ∃ tag, x.binding slot = some ⟨c, tag⟩ := by
  unfold client?
  rw [Option.map_eq_some_iff]
  constructor
  · rintro ⟨⟨_, tag⟩, hbinding, rfl⟩
    exact ⟨tag, hbinding⟩
  · rintro ⟨tag, hbinding⟩
    exact ⟨_, hbinding, rfl⟩

theorem client?_eq_none : x.client? slot = none ↔ x.binding slot = none := by
  simp [client?]

theorem binding_ne_none_of_client? (h : x.client? slot = some c) : x.binding slot ≠ none := by
  intro hnone
  simp [client?, hnone] at h

theorem binding_bind (x : Arbiter) (slot other : SlotId) (binding : Binding) :
    (x.bind slot binding).binding other =
      if other = slot then some binding else x.binding other := by
  simp only [Arbiter.binding, bind, Fin.getElem_fin, Vector.getElem_set]
  by_cases h : slot = other
  · simp [h]
  · simp [Fin.val_ne_of_ne h, Ne.symm h]

theorem binding_unbind (x : Arbiter) (slot other : SlotId) :
    (x.unbind slot).binding other = if other = slot then none else x.binding other := by
  simp only [Arbiter.binding, unbind, Fin.getElem_fin, Vector.getElem_set]
  by_cases h : slot = other
  · simp [h]
  · simp [Fin.val_ne_of_ne h, Ne.symm h]

@[simp] theorem binding_create (config : Config) (q : QueueId) (s : ConsumerId) :
    (create config q s).binding slot = none := by
  simp [binding, create]

/-! ## Finding and claiming -/

theorem client?_of_find? (h : x.find? c = some slot) : x.client? slot = some c := by
  have := List.find?_some h
  simpa using this

theorem mem_occupied_of_find? (h : x.find? c = some slot) : slot ∈ x.occupied :=
  SlotSet.mem_toList.1 (List.mem_of_find?_eq_some h)

theorem client?_ne_of_find? (h : x.find? c = none) (hslot : slot ∈ x.occupied) :
    x.client? slot ≠ some c := by
  have := List.find?_eq_none.1 h slot (SlotSet.mem_toList.2 hslot)
  simpa using this

theorem claim?_eq_some : x.claim? = some (slot, y) ↔
    x.free.highest? = some slot ∧ y = { x with free := x.free.erase slot } := by
  unfold claim?
  rw [Option.map_eq_some_iff]
  constructor
  · rintro ⟨⟨_, rest⟩, hpop, heq⟩
    obtain ⟨rfl, rfl⟩ := Prod.mk.inj heq
    obtain ⟨hhighest, rfl⟩ := SlotSet.popHighest?_eq_some.1 hpop
    exact ⟨hhighest, rfl⟩
  · rintro ⟨hhighest, rfl⟩
    exact ⟨_, SlotSet.popHighest?_eq_some.2 ⟨hhighest, rfl⟩, rfl⟩

/-- A claimed slot that is given back at once leaves no trace. -/
theorem giveBack_of_claim? (h : x.claim? = some (slot, y)) : y.giveBack slot = x := by
  obtain ⟨hslot, rfl⟩ := claim?_eq_some.1 h
  simp only [giveBack, SlotSet.insert_erase (SlotSet.mem_of_highest? hslot)]

theorem nextTurn?_eq_some : x.nextTurn? = some (slot, y) ↔
    x.pending.highest? = some slot ∧ y = x.clearPending slot := by
  unfold nextTurn?
  rw [Option.map_eq_some_iff]
  constructor
  · rintro ⟨⟨_, rest⟩, hpop, heq⟩
    obtain ⟨rfl, rfl⟩ := Prod.mk.inj heq
    obtain ⟨hhighest, rfl⟩ := SlotSet.popHighest?_eq_some.1 hpop
    exact ⟨hhighest, rfl⟩
  · rintro ⟨hhighest, rfl⟩
    exact ⟨_, SlotSet.popHighest?_eq_some.2 ⟨hhighest, rfl⟩, rfl⟩

theorem nextTurn?_eq_none : x.nextTurn? = none ↔ x.pending.isEmpty := by
  simp [nextTurn?, SlotSet.popHighest?_eq_none]

end SharedBus.Arbiter
