import SharedBus.Slot.Set

/-! # Membership in sets of slots

Two sets are equal when they have the same members, and the word operations are the operations
that their names say. The members are listed once each and from the highest down, the population
count of the word is their number, and the leading one bit is the greatest of them.
-/
namespace SharedBus

namespace SlotSet

variable {s t : SlotSet} {slot other : SlotId}

theorem mem_iff : slot ∈ s ↔ s.bits.getLsbD slot.val = true := Iff.rfl

@[simp] theorem contains_eq_true : s.contains slot = true ↔ slot ∈ s := Iff.rfl

@[simp] theorem contains_eq_false : s.contains slot = false ↔ slot ∉ s := by
  simp [← contains_eq_true]

theorem ext (h : ∀ slot, slot ∈ s ↔ slot ∈ t) : s = t := by
  obtain ⟨x⟩ := s
  obtain ⟨y⟩ := t
  congr 1
  refine BitVec.eq_of_getLsbD_eq fun i hi => ?_
  have := h ⟨i, hi⟩
  simp only [mem_iff] at this
  exact Bool.eq_iff_iff.2 this

@[simp] theorem notMem_empty : slot ∉ (∅ : SlotSet) := by
  simp [mem_iff, EmptyCollection.emptyCollection, empty]

@[simp] theorem mem_full : slot ∈ full := by
  simp [mem_iff, full]

theorem one_le_shift_one {places : Nat} (h : places < maxSlots) :
    BitVec.ofNat maxSlots 1 ≤ BitVec.ofNat maxSlots 1 <<< places := by
  have hpow : 2 ^ places < 2 ^ maxSlots := Nat.pow_lt_pow_right (by decide) h
  have hone : 1 ≤ 2 ^ places := Nat.one_le_two_pow
  simp [BitVec.le_def, Nat.shiftLeft_eq, Nat.mod_eq_of_lt hpow, hone]

theorem mem_first {count : Nat} : slot ∈ first count ↔ slot.val < count := by
  unfold first
  split
  · simpa using Nat.lt_of_lt_of_le slot.isLt (by assumption)
  · rename_i h
    have hlt : count < maxSlots := Nat.lt_of_not_le h
    have hpow : 2 ^ count < 2 ^ maxSlots := Nat.pow_lt_pow_right (by decide) hlt
    have hval : (BitVec.ofNat maxSlots 1 <<< count - BitVec.ofNat maxSlots 1).toNat =
        2 ^ count - 1 := by
      rw [BitVec.toNat_sub_of_le (one_le_shift_one hlt)]
      simp [Nat.shiftLeft_eq, Nat.mod_eq_of_lt hpow]
    rw [mem_iff, BitVec.getLsbD, hval]
    simp [Nat.testBit_two_pow_sub_one]

@[simp] theorem mem_singleton : slot ∈ singleton other ↔ slot = other := by
  have h := slot.isLt
  simp [mem_iff, singleton, h, Fin.ext_iff]
  omega

@[simp] theorem mem_union : slot ∈ s ∪ t ↔ slot ∈ s ∨ slot ∈ t := by
  simp [mem_iff, Union.union]

@[simp] theorem mem_inter : slot ∈ s ∩ t ↔ slot ∈ s ∧ slot ∈ t := by
  simp [mem_iff, Inter.inter]

@[simp] theorem mem_sdiff : slot ∈ s \ t ↔ slot ∈ s ∧ slot ∉ t := by
  simp [mem_iff, SDiff.sdiff]

@[simp] theorem mem_insert : slot ∈ s.insert other ↔ slot ∈ s ∨ slot = other := by
  simp [insert]

@[simp] theorem mem_erase : slot ∈ s.erase other ↔ slot ∈ s ∧ slot ≠ other := by
  simp [erase]

theorem insert_of_mem (h : slot ∈ s) : s.insert slot = s := by
  refine ext fun other => ?_
  simp only [mem_insert, or_iff_left_iff_imp]
  rintro rfl
  exact h

theorem erase_insert (h : slot ∉ s) : (s.insert slot).erase slot = s := by
  refine ext fun other => ?_
  simp only [mem_erase, mem_insert]
  constructor
  · rintro ⟨h | h, hne⟩
    · exact h
    · exact absurd h hne
  · exact fun h' => ⟨.inl h', fun he => h (he ▸ h')⟩

theorem insert_erase (h : slot ∈ s) : (s.erase slot).insert slot = s := by
  refine ext fun other => ?_
  simp only [mem_erase, mem_insert]
  constructor
  · rintro (⟨h', _⟩ | rfl)
    · exact h'
    · exact h
  · intro h'
    by_cases he : other = slot
    · exact .inr he
    · exact .inl ⟨h', he⟩

theorem isEmpty_iff : s.isEmpty ↔ ∀ slot, slot ∉ s := by
  have hempty : s.isEmpty ↔ s = ∅ := by
    obtain ⟨x⟩ := s
    simp [isEmpty, EmptyCollection.emptyCollection, empty]
  rw [hempty]
  constructor
  · rintro rfl
    simp
  · exact fun h => ext fun slot => by simp [h slot]

/-! ## The list of members -/

@[simp] theorem isEmpty_empty : (∅ : SlotSet).isEmpty = true := rfl

@[simp] theorem isEmpty_singleton (slot : SlotId) : (singleton slot).isEmpty = false :=
  Bool.eq_false_iff.2 fun hnone => isEmpty_iff.1 hnone slot (mem_singleton.2 rfl)

@[simp] theorem mem_toList : slot ∈ s.toList ↔ slot ∈ s := by
  simp [toList, List.mem_finRange]

theorem nodup_toList (s : SlotSet) : s.toList.Nodup :=
  ((List.reverse_perm _).nodup_iff.2 (List.nodup_finRange maxSlots)).sublist List.filter_sublist

/-- The members are listed from the highest down. -/
theorem pairwise_toList (s : SlotSet) : s.toList.Pairwise (· > ·) :=
  (List.pairwise_reverse.2 (List.pairwise_lt_finRange maxSlots)).sublist List.filter_sublist

theorem toList_erase (s : SlotSet) (slot : SlotId) : (s.erase slot).toList = s.toList.erase slot := by
  rw [s.nodup_toList.erase_eq_filter]
  simp only [toList, List.filter_filter]
  refine List.filter_congr fun other _ => Bool.eq_iff_iff.2 ?_
  simp [and_comm]

theorem mem_ofList {slots : List SlotId} : slot ∈ ofList slots ↔ slot ∈ slots := by
  have hfold : ∀ s : SlotSet, slot ∈ slots.foldl insert s ↔ slot ∈ s ∨ slot ∈ slots := by
    induction slots with
    | nil => simp
    | cons first rest ih =>
      intro s
      rw [List.foldl_cons, ih, mem_insert, List.mem_cons, or_assoc]
  simpa [ofList] using hfold ∅

theorem ofList_cons (slot : SlotId) (slots : List SlotId) :
    ofList (slot :: slots) = singleton slot ∪ ofList slots := by
  refine ext fun other => ?_
  rw [mem_ofList, mem_union, mem_singleton, mem_ofList, List.mem_cons]

theorem length_toList_le (s : SlotSet) : s.toList.length ≤ maxSlots := by
  refine Nat.le_trans (List.length_filter_le _ _) ?_
  simp

/-! ## The population count -/

private theorem map_val_finRange (n : Nat) : (List.finRange n).map Fin.val = List.range n := by
  refine List.ext_getElem (by simp) fun i _ _ => by simp

private theorem cpopNatRec_eq_countP (x : BitVec maxSlots) (n : Nat) :
    x.cpopNatRec n 0 = (List.range n).countP (x.getLsbD ·) := by
  induction n with
  | zero => simp [BitVec.cpopNatRec]
  | succ n ih =>
    rw [BitVec.cpopNatRec_succ, BitVec.cpopNatRec_eq, ih, List.range_succ, List.countP_append]
    cases h : x.getLsbD n <;> simp [h]

theorem size_eq_length (s : SlotSet) : s.size = s.toList.length := by
  rw [size, BitVec.toNat_cpop, cpopNatRec_eq_countP, toList, ← List.countP_eq_length_filter,
    List.countP_reverse, ← map_val_finRange, List.countP_map]
  rfl

theorem size_erase (h : slot ∈ s) : (s.erase slot).size + 1 = s.size := by
  rw [size_eq_length, size_eq_length, toList_erase, List.length_erase_of_mem (mem_toList.2 h)]
  have := List.length_pos_of_mem (mem_toList.2 h)
  omega

theorem size_erase_le (s : SlotSet) (slot : SlotId) : (s.erase slot).size ≤ s.size := by
  rw [size_eq_length, size_eq_length, toList_erase]
  exact List.erase_sublist.length_le

theorem size_insert_le (s : SlotSet) (slot : SlotId) : (s.insert slot).size ≤ s.size + 1 := by
  by_cases h : slot ∈ s
  · simp [insert_of_mem h]
  · have := size_erase (mem_insert.2 (.inr rfl) : slot ∈ s.insert slot)
    rw [erase_insert h] at this
    omega

@[simp] theorem size_empty : (∅ : SlotSet).size = 0 := by decide

/-! ## The highest member -/

private theorem exists_highest (h : s.isEmpty = false) :
    ∃ slot, s.highest? = some slot ∧ slot ∈ s ∧ ∀ other ∈ s, other ≤ slot := by
  have hne : s.bits.toNat ≠ 0 := fun h0 => by
    have : s.bits = BitVec.ofNat maxSlots 0 := BitVec.eq_of_toNat_eq (by simpa using h0)
    simp [isEmpty, this] at h
  have hlt : s.bits.toNat.log2 < maxSlots := (Nat.log2_lt hne).2 s.bits.isLt
  refine ⟨⟨s.bits.toNat.log2, hlt⟩, by simp [highest?, SlotId.ofIndex?, h, hlt],
    Nat.testBit_log2 hne, fun other hother => ?_⟩
  exact (Nat.le_log2 hne).2 (Nat.ge_two_pow_of_testBit hother)

theorem highest?_eq_none : s.highest? = none ↔ s.isEmpty := by
  cases h : s.isEmpty with
  | true => simp [highest?, h]
  | false =>
    obtain ⟨slot, hslot, _⟩ := exists_highest h
    simp [hslot]

theorem highest?_eq_some :
    s.highest? = some slot ↔ slot ∈ s ∧ ∀ other ∈ s, other ≤ slot := by
  constructor
  · intro hs
    cases h : s.isEmpty with
    | true => simp [highest?, h] at hs
    | false =>
      obtain ⟨top, htop, hmem⟩ := exists_highest h
      obtain rfl : top = slot := Option.some.inj (htop.symm.trans hs)
      exact hmem
  · rintro ⟨hmem, hmax⟩
    cases h : s.isEmpty with
    | true => exact absurd hmem (isEmpty_iff.1 h slot)
    | false =>
      obtain ⟨top, htop, htopmem, htopmax⟩ := exists_highest h
      rw [htop, Fin.le_antisymm (hmax top htopmem) (htopmax slot hmem)]

theorem mem_of_highest? (h : s.highest? = some slot) : slot ∈ s := (highest?_eq_some.1 h).1

theorem popHighest?_eq_none : s.popHighest? = none ↔ s.isEmpty := by
  simp [popHighest?, highest?_eq_none]

theorem popHighest?_eq_some :
    s.popHighest? = some (slot, t) ↔ s.highest? = some slot ∧ t = s.erase slot := by
  simp only [popHighest?, Option.map_eq_some_iff, Prod.mk.injEq]
  constructor
  · rintro ⟨_, h, rfl, rfl⟩
    exact ⟨h, rfl⟩
  · rintro ⟨h, rfl⟩
    exact ⟨slot, h, rfl, rfl⟩

/-- The highest member comes first. -/
theorem toList_of_highest? (h : s.highest? = some slot) :
    s.toList = slot :: (s.erase slot).toList := by
  obtain ⟨hmem, hmax⟩ := highest?_eq_some.1 h
  have hsorted := s.pairwise_toList
  rw [toList_erase]
  cases hlist : s.toList with
  | nil => simp [← mem_toList, hlist] at hmem
  | cons first rest =>
    rw [hlist] at hsorted
    have hfirst : first ≤ slot := hmax first (mem_toList.1 (hlist ▸ List.mem_cons_self))
    have hmem : slot ∈ first :: rest := hlist ▸ mem_toList.2 hmem
    obtain rfl : slot = first := by
      rcases List.mem_cons.1 hmem with heq | hrest
      · exact heq
      · exact absurd hfirst (Fin.not_le.2 ((List.pairwise_cons.1 hsorted).1 slot hrest))
    rw [List.erase_cons_head]

theorem toList_eq_nil : s.toList = [] ↔ s.isEmpty := by
  rw [List.eq_nil_iff_forall_not_mem, isEmpty_iff]
  simp only [mem_toList]

theorem head?_toList (s : SlotSet) : s.toList.head? = s.highest? := by
  cases hslot : s.highest? with
  | none => rw [toList_eq_nil.2 (highest?_eq_none.1 hslot), List.head?_nil]
  | some slot => rw [toList_of_highest? hslot, List.head?_cons]

/-- A set whose list begins so. -/
theorem highest?_of_toList {rest : List SlotId} (h : s.toList = slot :: rest) :
    s.highest? = some slot ∧ (s.erase slot).toList = rest := by
  cases hslot : s.highest? with
  | none => simp [toList_eq_nil.2 (highest?_eq_none.1 hslot)] at h
  | some first =>
    obtain ⟨rfl, hrest⟩ := List.cons.inj ((toList_of_highest? hslot).symm.trans h)
    exact ⟨rfl, hrest⟩

/-- A set from whose list the highest members are dropped. -/
theorem eq_sdiff_take {count : Nat} (h : t.toList = s.toList.drop count) :
    t = s \ s.take count := by
  refine ext fun slot => ?_
  have hsplit := List.take_append_drop count s.toList
  obtain ⟨_, _, hapart⟩ := List.nodup_append.1 (hsplit ▸ s.nodup_toList)
  rw [mem_sdiff, take, mem_ofList, ← mem_toList (s := t), h, ← mem_toList (s := s)]
  constructor
  · exact fun hdrop => ⟨List.mem_of_mem_drop hdrop, fun htake => hapart slot htake slot hdrop rfl⟩
  · rintro ⟨hmem, htake⟩
    rw [← hsplit, List.mem_append] at hmem
    exact hmem.resolve_left htake

end SlotSet

end SharedBus
