import Mathlib.Combinatorics.Colex
import Mathlib.Data.Finset.Sort
import SharedBus.Slot.Lemmas

/-! # Words as finite sets

A word is read as the finite set of the slots whose bit is set. Every finite set of slots is read
off exactly one word, and each operation on words is an operation on the sets that they are read as.
-/
namespace SharedBus.SlotSet

variable {s t : SlotSet} {slot : SlotId}

/-- The slots whose bit is set. -/
def members (s : SlotSet) : Finset SlotId := Finset.univ.filter (· ∈ s)

@[simp] theorem mem_members : slot ∈ s.members ↔ slot ∈ s := by
  simp [members]

theorem mem_members_iff_testBit : slot ∈ s.members ↔ s.bits.toNat.testBit slot.val = true :=
  mem_members

theorem members_injective : Function.Injective members := fun s t h =>
  ext fun slot => by rw [← mem_members, h, mem_members]

@[simp] theorem members_inj : s.members = t.members ↔ s = t := members_injective.eq_iff

/-! ## Making sets -/

theorem members_first (count : Nat) :
    (first count).members = Finset.univ.filter (·.val < min count maxSlots) := by
  ext slot
  have := slot.isLt
  simp [mem_first]

@[simp] theorem members_singleton (slot : SlotId) : (singleton slot).members = {slot} := by
  ext other
  simp

@[simp] theorem members_union (s t : SlotSet) : (s ∪ t).members = s.members ∪ t.members := by
  ext slot
  simp

@[simp] theorem members_inter (s t : SlotSet) : (s ∩ t).members = s.members ∩ t.members := by
  ext slot
  simp

@[simp] theorem members_sdiff (s t : SlotSet) : (s \ t).members = s.members \ t.members := by
  ext slot
  simp

@[simp] theorem members_ofList (slots : List SlotId) : (ofList slots).members = slots.toFinset := by
  ext slot
  simp [mem_ofList]

/-- Every set of slots is read off one word and no other. -/
theorem members_bijective : Function.Bijective fun word : BitVec maxSlots => members ⟨word⟩ := by
  constructor
  · intro word other h
    exact SlotSet.mk.inj (members_injective h)
  · intro set
    exact ⟨(ofList set.toList).bits, (members_ofList _).trans set.toList_toFinset⟩

/-! ## Asking sets -/

theorem isEmpty_iff_members : s.isEmpty ↔ s.members = ∅ := by
  simp [isEmpty_iff, Finset.eq_empty_iff_forall_notMem]

theorem isDisjoint_iff_members : s.isDisjoint t ↔ Disjoint s.members t.members := by
  rw [isDisjoint, isEmpty_iff_members, members_inter, Finset.disjoint_iff_inter_eq_empty]

theorem isSubset_iff_members : s.isSubset t ↔ s.members ⊆ t.members := by
  rw [isSubset, isEmpty_iff_members, members_sdiff, Finset.sdiff_eq_empty_iff_subset]

theorem toFinset_toList (s : SlotSet) : s.toList.toFinset = s.members := by
  ext slot
  simp

theorem ofList_toList (s : SlotSet) : ofList s.toList = s :=
  ext fun slot => by rw [mem_ofList, mem_toList]

theorem toList_eq_sort (s : SlotSet) : s.toList = s.members.sort (· ≥ ·) := by
  refine s.pairwise_toList.sortedGT.eq_of_mem_iff (Finset.sortedGT_sort _) fun slot => ?_
  simp

theorem size_eq_card (s : SlotSet) : s.size = s.members.card := by
  rw [size_eq_length, ← toFinset_toList, List.toFinset_card_of_nodup s.nodup_toList]

theorem highest?_eq_none_iff_members : s.highest? = none ↔ s.members = ∅ :=
  highest?_eq_none.trans isEmpty_iff_members

theorem highest?_eq_some_iff_members : s.highest? = some slot ↔ IsGreatest s.members slot := by
  simp [highest?_eq_some, IsGreatest, upperBounds]

/-- The word is the sum of its bits. -/
theorem toNat_bits (s : SlotSet) : s.bits.toNat = ∑ slot ∈ s.members, 2 ^ slot.val := by
  have hplaces : s.bits.toNat.bitIndices.toFinset = s.members.map Fin.valEmbedding := by
    ext place
    simp only [List.mem_toFinset, Nat.mem_bitIndices, Finset.mem_map, mem_members_iff_testBit,
      Fin.valEmbedding_apply]
    constructor
    · intro hbit
      have hlt : place < maxSlots := BitVec.lt_of_getLsbD hbit
      exact ⟨⟨place, hlt⟩, hbit, rfl⟩
    · rintro ⟨slot, hbit, rfl⟩
      exact hbit
  rw [← Finset.sum_toFinset_bitIndices_two_pow s.bits.toNat, hplaces, Finset.sum_map]
  rfl

/-! ## The highest members -/

/-- In a descending list, the first members are those with few members above them. -/
theorem mem_take_of_pairwise {slots : List SlotId} (h : slots.Pairwise (· > ·)) (count : Nat) :
    slot ∈ slots.take count ↔ slot ∈ slots ∧ (slots.filter (slot < ·)).length < count := by
  induction slots generalizing count with
  | nil => simp
  | cons first rest ih =>
    obtain ⟨hfirst, hrest⟩ := List.pairwise_cons.1 h
    cases count with
    | zero => simp
    | succ count =>
      rw [List.take_succ_cons, List.mem_cons, List.mem_cons, ih hrest]
      -- the head has nothing above it, and it is above everything else
      by_cases heq : slot = first
      · subst heq
        have hnone : (slot :: rest).filter (slot < ·) = [] :=
          List.filter_eq_nil_iff.2 fun other hother => by
            rcases List.mem_cons.1 hother with rfl | hother
            · simp
            · simpa using (hfirst other hother).le
        simp [hnone]
      · simp only [heq, false_or]
        refine and_congr_right fun hmem => ?_
        rw [List.filter_cons_of_pos (by simpa using hfirst slot hmem), List.length_cons]
        exact Nat.succ_lt_succ_iff.symm

/-- One of the `count` highest members has less than `count` members above it. -/
theorem mem_take {count : Nat} :
    slot ∈ s.take count ↔ slot ∈ s ∧ (s.members.filter (slot < ·)).card < count := by
  have hcard : (s.toList.filter (slot < ·)).length = (s.members.filter (slot < ·)).card := by
    rw [← List.toFinset_card_of_nodup (s.nodup_toList.filter _), List.toFinset_filter,
      toFinset_toList]
    simp
  rw [take, mem_ofList, mem_take_of_pairwise s.pairwise_toList, mem_toList, hcard]

theorem size_take (s : SlotSet) (count : Nat) : (s.take count).size = min count s.size := by
  have hnodup : (s.toList.take count).Nodup := s.nodup_toList.sublist (List.take_sublist ..)
  rw [size_eq_card, take, members_ofList, List.toFinset_card_of_nodup hnodup, List.length_take,
    size_eq_length]

theorem members_take (s : SlotSet) (count : Nat) :
    (s.take count).members =
      s.members.filter fun slot => (s.members.filter (slot < ·)).card < count := by
  ext slot
  simp [mem_take]

end SharedBus.SlotSet
