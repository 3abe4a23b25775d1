import SharedBus.Slot.Set

/-! # The order of slots

Slots are ordered by their index, and the greatest of several wins the bus.
-/
namespace SharedBus.SlotId

/-- How each slot compares to the one after it. -/
def steps (slots : List SlotId) : List Ordering := slots.zipWith compare slots.tail

/-- The slots in ascending order, repeated ones side by side. -/
def sort (slots : List SlotId) : List SlotId := slots.mergeSort

def least? (slots : List SlotId) : Option SlotId := (sort slots).head?

def greatest? (slots : List SlotId) : Option SlotId := (sort slots).getLast?

end SharedBus.SlotId
