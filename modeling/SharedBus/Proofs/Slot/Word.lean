import SharedBus.Slot.Lemmas

/-! # Words without overflow

The operations on words here have no value where a machine has none: a shift must be shorter than
the word, and a difference must not borrow. Sets of slots never need more than that, and their
tests and their highest member are what a machine reads off the word.
-/
namespace SharedBus.SlotSet

variable {s : SlotSet} {slot : SlotId}

/-- A shift that leaves the word is none. -/
def shift? (word : BitVec maxSlots) (places : Nat) : Option (BitVec maxSlots) :=
  if places < maxSlots then some (word <<< places) else none

/-- A difference that borrows is none. -/
def difference? (word other : BitVec maxSlots) : Option (BitVec maxSlots) :=
  if other ≤ word then some (word - other) else none

/-- The bit above the `count` lowest ones, less one. -/
def first? (count : Nat) : Option SlotSet :=
  if count ≥ maxSlots then some full
  else do
    let bit ← shift? (BitVec.ofNat maxSlots 1) count
    let bits ← difference? bit (BitVec.ofNat maxSlots 1)
    return ⟨bits⟩

theorem first?_eq_some (count : Nat) : first? count = some (first count) := by
  unfold first? first
  split
  · rfl
  · rename_i h
    have hlt : count < maxSlots := Nat.lt_of_not_le h
    simp [shift?, difference?, hlt, one_le_shift_one hlt]

theorem shift?_slot (slot : SlotId) :
    shift? (BitVec.ofNat maxSlots 1) slot.val = some (singleton slot).bits :=
  if_pos slot.isLt

/-- A slot is tested by its own bit. -/
theorem mem_iff_and_ne_zero :
    slot ∈ s ↔ s.bits &&& (singleton slot).bits ≠ BitVec.ofNat maxSlots 0 := by
  have hempty : (s ∩ singleton slot).isEmpty ↔ slot ∉ s := by
    rw [isEmpty_iff]
    simp only [mem_inter, mem_singleton]
    refine ⟨fun h hslot => h slot ⟨hslot, rfl⟩, ?_⟩
    rintro h _ ⟨hslot, rfl⟩
    exact h hslot
  have hword : (s ∩ singleton slot).isEmpty ↔
      s.bits &&& (singleton slot).bits = BitVec.ofNat maxSlots 0 := beq_iff_eq
  rw [← Decidable.not_iff_not, ← hempty, hword, Decidable.not_not]

theorem clz_lt (h : s.bits ≠ BitVec.ofNat maxSlots 0) : s.bits.clz.toNat < maxSlots := by
  have hlt := BitVec.clz_lt_iff_ne_zero.2 h
  simpa [BitVec.lt_def] using hlt

/-- The leading one bit stands as far from the top as there are zeros before it. -/
theorem log2_eq_sub_clz (h : s.bits ≠ BitVec.ofNat maxSlots 0) :
    s.bits.toNat.log2 = maxSlots - 1 - s.bits.clz.toNat := by
  have hclz := clz_lt h
  have hpos : s.bits.toNat ≠ 0 := fun h0 => h (BitVec.eq_of_toNat_eq (by simpa using h0))
  refine (Nat.log2_eq_iff hpos).2
    ⟨BitVec.two_pow_sub_clz_le_toNat_of_ne_zero (by decide) h, ?_⟩
  have htop : maxSlots - 1 - s.bits.clz.toNat + 1 = maxSlots - s.bits.clz.toNat := by omega
  rw [htop]
  exact BitVec.toNat_lt_two_pow_sub_clz

theorem toNat_place {place : Nat} (h : place < maxSlots) :
    (BitVec.ofNat maxSlots place).toNat = place := by
  rw [BitVec.toNat_ofNat]
  exact Nat.mod_eq_of_lt (Nat.lt_trans h (by decide))

theorem difference?_clz (h : s.bits ≠ BitVec.ofNat maxSlots 0) :
    difference? (BitVec.ofNat maxSlots (maxSlots - 1)) s.bits.clz =
      some (BitVec.ofNat maxSlots s.bits.toNat.log2) := by
  have hclz := clz_lt h
  have hle : s.bits.clz ≤ BitVec.ofNat maxSlots (maxSlots - 1) := by
    rw [BitVec.le_def, toNat_place (by decide)]
    exact Nat.le_sub_one_of_lt hclz
  rw [difference?, if_pos hle, log2_eq_sub_clz h]
  refine congrArg some (BitVec.eq_of_toNat_eq ?_)
  rw [BitVec.toNat_sub_of_le hle, toNat_place (by decide), toNat_place (by omega)]

/-- The highest member is found by counting the leading zeros. -/
theorem highest?_eq_some_iff_clz :
    s.highest? = some slot ↔ s.bits ≠ BitVec.ofNat maxSlots 0 ∧
      difference? (BitVec.ofNat maxSlots (maxSlots - 1)) s.bits.clz =
        some (BitVec.ofNat maxSlots slot.val) := by
  by_cases h : s.bits = BitVec.ofNat maxSlots 0
  · simp [highest?, isEmpty, h]
  · have hlog : s.bits.toNat.log2 < maxSlots := by
      have := clz_lt h
      rw [log2_eq_sub_clz h]
      omega
    have hhighest : s.highest? = some ⟨s.bits.toNat.log2, hlog⟩ := by
      simp [highest?, isEmpty, h, SlotId.ofIndex?, hlog]
    rw [hhighest, difference?_clz h, and_iff_right h, Option.some.injEq, Option.some.injEq,
      Fin.ext_iff, ← BitVec.toNat_inj, toNat_place hlog, toNat_place slot.isLt]

end SharedBus.SlotSet
