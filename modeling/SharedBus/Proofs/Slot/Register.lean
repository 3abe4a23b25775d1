import SharedBus.Proofs.Slot.Members
import SharedBus.Proofs.Slot.Word
import SharedBus.Slot.Register

/-! # Registers as finite sets

The commands of a register are carried out on finite sets of slots, which know nothing of words. A
register that holds a word gives the same answers to the same commands, and holds after each of them
the word of the same set.
-/
namespace SharedBus.SlotSet

theorem Reading.flag_eq {answer : Bool} {p : Prop} [Decidable p] (h : answer = true ↔ p) :
    Reading.flag answer = .flag (decide p) :=
  congrArg Reading.flag (Bool.eq_iff_iff.2 (h.trans decide_eq_true_iff.symm))

namespace Command

/-- The greatest slot of a set. -/
def greatest? (set : Finset SlotId) : Option SlotId :=
  if h : set.Nonempty then some (set.max' h) else none

theorem greatest?_eq (s : SlotSet) : greatest? s.members = s.highest? := by
  unfold greatest?
  split
  · rename_i h
    exact (highest?_eq_some_iff_members.2 (s.members.isGreatest_max' h)).symm
  · rename_i h
    exact (highest?_eq_none_iff_members.2 (Finset.not_nonempty_iff_eq_empty.1 h)).symm

/-- The set after the command. -/
def change (set : Finset SlotId) : Command → Finset SlotId
  | .put other => other.members
  | .first count => Finset.univ.filter (·.val < min count maxSlots)
  | .ofList slots => slots.toFinset
  | .singleton slot => {slot}
  | .union other => set ∪ other.members
  | .inter other => set ∩ other.members
  | .diff other => set \ other.members
  | .take count => set.filter fun slot => (set.filter (slot < ·)).card < count
  | _ => set

/-- What is to be said of the set. -/
def tell (set : Finset SlotId) : Command → Reading
  | .isDisjoint other => .flag (decide (Disjoint set other.members))
  | .isSubset other => .flag (decide (set ⊆ other.members))
  | .equals other => .flag (decide (set = other.members))
  | .contains slot => .flag (decide (slot ∈ set))
  | .size => .count set.card
  | .isEmpty => .flag (decide (set = ∅))
  | .highest => .slot (greatest? set)
  | .toList => .slots (set.sort (· ≥ ·))
  | .form => .shown (Form.tuple "SlotMask" [.number (∑ slot ∈ set, 2 ^ slot.val)]).shown
  | _ => .nothing

/-- What is to be said of the set that each command finds, and the set after it. -/
def track (set : Finset SlotId) : List Command → List (Reading × Finset SlotId)
  | [] => []
  | command :: more => (command.tell set, command.change set) :: track (command.change set) more

theorem members_apply (s : SlotSet) (command : Command) :
    (command.apply s).members = command.change s.members := by
  cases command with
  | first count => exact members_first count
  | ofList slots => exact members_ofList slots
  | singleton slot => exact members_singleton slot
  | union other => exact members_union s other
  | inter other => exact members_inter s other
  | diff other => exact members_sdiff s other
  | take count => exact members_take s count
  | _ => rfl

theorem read_eq_tell (s : SlotSet) (command : Command) :
    command.read s = command.tell s.members := by
  cases command with
  | isDisjoint other => exact Reading.flag_eq isDisjoint_iff_members
  | isSubset other => exact Reading.flag_eq isSubset_iff_members
  | equals other => exact Reading.flag_eq (beq_iff_eq.trans members_inj.symm)
  | contains slot => exact Reading.flag_eq mem_members.symm
  | isEmpty => exact Reading.flag_eq isEmpty_iff_members
  | size => exact congrArg Reading.count s.size_eq_card
  | highest => exact congrArg Reading.slot (greatest?_eq s).symm
  | toList => exact congrArg Reading.slots s.toList_eq_sort
  | form => simp only [read, tell, SlotSet.form, toNat_bits]
  | _ => rfl

/-- A register of a word follows the set of its members. -/
theorem run_eq_track (s : SlotSet) (commands : List Command) :
    (run s commands).map (Prod.map id members) = track s.members commands := by
  induction commands generalizing s with
  | nil => rfl
  | cons command more ih =>
    have hmore := ih (command.apply s)
    rw [members_apply] at hmore
    have hfirst : Prod.map id members (command.read s, command.apply s) =
        (command.tell s.members, command.change s.members) := by
      rw [Prod.map_apply, read_eq_tell, members_apply, id]
    rw [run, List.map_cons, track, hfirst, hmore]

end Command

/-- A word is a finite set of slots. Each set is one word, and making words, joining them and asking
them is making, joining and asking the sets. So is every sequence of such steps. -/
theorem words_are_finite_sets :
    -- each set is one word, and its members are the bits of the word
    ((Function.Bijective fun word : BitVec maxSlots => members ⟨word⟩) ∧
      ∀ (word : BitVec maxSlots) (slot : SlotId),
        slot ∈ members ⟨word⟩ ↔ word.toNat.testBit slot.val = true) ∧
    -- the lowest slots; nothing is shifted too far, and nothing is borrowed
    (∀ count, first? count = some (first count) ∧
      (first count).members = Finset.univ.filter (·.val < min count maxSlots)) ∧
    (∀ s t : SlotSet, (s ∪ t).members = s.members ∪ t.members ∧
      (s ∩ t).members = s.members ∩ t.members ∧ (s \ t).members = s.members \ t.members) ∧
    (∀ s t : SlotSet, (s.isDisjoint t ↔ Disjoint s.members t.members) ∧
      (s.isSubset t ↔ s.members ⊆ t.members) ∧ (s == t ↔ s.members = t.members)) ∧
    (∀ s : SlotSet, (s.isEmpty ↔ s.members = ∅) ∧ s.size = s.members.card) ∧
    -- a slot is tested with its own bit
    (∀ (s : SlotSet) (slot : SlotId), (s.contains slot ↔ slot ∈ s.members) ∧
      shift? (BitVec.ofNat maxSlots 1) slot.val = some (singleton slot).bits ∧
      (s.contains slot ↔ s.bits &&& (singleton slot).bits ≠ BitVec.ofNat maxSlots 0)) ∧
    -- the highest member stands behind the leading zeros
    (∀ s : SlotSet, (s.highest? = none ↔ s.members = ∅) ∧
      ∀ slot, (s.highest? = some slot ↔ IsGreatest s.members slot) ∧
        (s.highest? = some slot ↔ s.bits ≠ BitVec.ofNat maxSlots 0 ∧
          difference? (BitVec.ofNat maxSlots (maxSlots - 1)) s.bits.clz =
            some (BitVec.ofNat maxSlots slot.val))) ∧
    (∀ slots, (ofList slots).members = slots.toFinset) ∧
    -- a register of a word is a register of a set
    (∀ (s : SlotSet) (commands : List Command),
      (Command.run s commands).map (Prod.map id members) = Command.track s.members commands) := by
  refine ⟨⟨members_bijective, fun _ _ => mem_members_iff_testBit⟩,
    fun count => ⟨first?_eq_some count, members_first count⟩,
    fun s t => ⟨members_union s t, members_inter s t, members_sdiff s t⟩,
    fun s t => ⟨isDisjoint_iff_members, isSubset_iff_members, beq_iff_eq.trans members_inj.symm⟩,
    fun s => ⟨isEmpty_iff_members, s.size_eq_card⟩,
    fun s slot => ⟨mem_members.symm, shift?_slot slot, mem_iff_and_ne_zero⟩,
    fun s => ⟨highest?_eq_none_iff_members,
      fun slot => ⟨highest?_eq_some_iff_members, highest?_eq_some_iff_clz⟩⟩,
    members_ofList, Command.run_eq_track⟩

end SharedBus.SlotSet
