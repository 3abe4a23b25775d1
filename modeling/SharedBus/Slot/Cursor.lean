import SharedBus.Slot.Set

/-! # Cursors over sets of slots

A cursor hands out the members of a set one at a time, highest first. Its state is the set of
members still to come.
-/
namespace SharedBus.SlotSet

structure Cursor where
  remaining : SlotSet
deriving DecidableEq, Repr

def cursor (s : SlotSet) : Cursor := ⟨s⟩

namespace Cursor

/-- The next member, if any, and the cursor behind it. -/
def next (c : Cursor) : Option SlotId × Cursor :=
  match c.remaining.popHighest? with
  | none => (none, c)
  | some (slot, rest) => (some slot, ⟨rest⟩)

/-- Skips `k` members and takes the one after them. Too few members exhaust the cursor. -/
def nth (c : Cursor) : Nat → Option SlotId × Cursor
  | 0 => c.next
  | k + 1 =>
    match c.next with
    | (none, c) => (none, c)
    | (some _, c) => c.nth k

def size (c : Cursor) : Nat := c.remaining.size

/-- All members still to come. -/
def toList (c : Cursor) : List SlotId := c.remaining.toList

def form (c : Cursor) : Form := .tuple "SlotIter" [c.remaining.form]

end Cursor

end SharedBus.SlotSet
