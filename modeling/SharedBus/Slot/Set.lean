import SharedBus.Text.Form

/-! # Slots and sets of slots

A slot is an index below `maxSlots`, and the higher slot wins the bus. A set of slots is one
word with a bit for each slot; the set operations are word operations. What they mean for
membership is in `SharedBus.Slot.Lemmas`.
-/
namespace SharedBus

/-- The number of slots that fit one word. -/
abbrev maxSlots : Nat := 32

abbrev SlotId := Fin maxSlots

namespace SlotId

/-- The slot with this index, or `none` if no word has such a bit. -/
def ofIndex? (index : Nat) : Option SlotId :=
  if h : index < maxSlots then some ⟨index, h⟩ else none

def form (slot : SlotId) : Form := .tuple "SlotId" [.number slot.val]

end SlotId

/-- A set of slots, one bit a slot. -/
structure SlotSet where
  bits : BitVec maxSlots
deriving DecidableEq, Repr

namespace SlotSet

def empty : SlotSet := ⟨BitVec.ofNat maxSlots 0⟩

def full : SlotSet := ⟨BitVec.allOnes maxSlots⟩

instance : EmptyCollection SlotSet := ⟨empty⟩

instance : Inhabited SlotSet := ⟨∅⟩

/-- The `count` lowest slots; all slots if there are not that many. -/
def first (count : Nat) : SlotSet :=
  if count ≥ maxSlots then full else ⟨BitVec.ofNat maxSlots 1 <<< count - BitVec.ofNat maxSlots 1⟩

def singleton (slot : SlotId) : SlotSet := ⟨BitVec.ofNat maxSlots 1 <<< slot.val⟩

instance : Union SlotSet := ⟨fun s t => ⟨s.bits ||| t.bits⟩⟩

instance : Inter SlotSet := ⟨fun s t => ⟨s.bits &&& t.bits⟩⟩

instance : SDiff SlotSet := ⟨fun s t => ⟨s.bits &&& ~~~t.bits⟩⟩

def contains (s : SlotSet) (slot : SlotId) : Bool := s.bits.getLsbD slot.val

instance : Membership SlotId SlotSet := ⟨fun s slot => s.contains slot = true⟩

instance (slot : SlotId) (s : SlotSet) : Decidable (slot ∈ s) :=
  inferInstanceAs (Decidable (s.contains slot = true))

def insert (s : SlotSet) (slot : SlotId) : SlotSet := s ∪ singleton slot

def erase (s : SlotSet) (slot : SlotId) : SlotSet := s \ singleton slot

def isEmpty (s : SlotSet) : Bool := s.bits == BitVec.ofNat maxSlots 0

def isDisjoint (s t : SlotSet) : Bool := (s ∩ t).isEmpty

def isSubset (s t : SlotSet) : Bool := (s \ t).isEmpty

/-- The number of members, the population count of the word. -/
def size (s : SlotSet) : Nat := s.bits.cpop.toNat

/-- The member that wins the bus: the position of the leading one bit. -/
def highest? (s : SlotSet) : Option SlotId :=
  if s.isEmpty then none else SlotId.ofIndex? s.bits.toNat.log2

/-- The highest member together with the set of the others. -/
def popHighest? (s : SlotSet) : Option (SlotId × SlotSet) :=
  s.highest?.map fun slot => (slot, s.erase slot)

def ofList (slots : List SlotId) : SlotSet := slots.foldl insert ∅

/-- The members from highest to lowest, the order in which they are served. -/
def toList (s : SlotSet) : List SlotId := (List.finRange maxSlots).reverse.filter (s.contains ·)

/-- The `count` highest members; the whole set if there are not that many. -/
def take (s : SlotSet) (count : Nat) : SlotSet := ofList (s.toList.take count)

def form (s : SlotSet) : Form := .tuple "SlotMask" [.number s.bits.toNat]

end SlotSet

end SharedBus
