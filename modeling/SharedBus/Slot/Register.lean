import SharedBus.Slot.Cursor

/-! # Registers

A register holds a set of slots and obeys commands: some put another set into it, the others ask
it something and leave it as it is. A cursor obeys commands of its own.
-/
namespace SharedBus.SlotSet

/-- What a command answers. -/
inductive Reading
  | nothing
  | flag (value : Bool)
  | count (value : Nat)
  /-- A least and a greatest count. -/
  | bounds (least greatest : Nat)
  | slot (slot : Option SlotId)
  | slots (slots : List SlotId)
  | shown (shown : Shown)
deriving DecidableEq, Repr

inductive Command
  | put (set : SlotSet)
  | first (count : Nat)
  | ofList (slots : List SlotId)
  | singleton (slot : SlotId)
  | union (set : SlotSet)
  | inter (set : SlotSet)
  | diff (set : SlotSet)
  | take (count : Nat)
  | isDisjoint (set : SlotSet)
  | isSubset (set : SlotSet)
  | equals (set : SlotSet)
  | contains (slot : SlotId)
  | size
  | isEmpty
  | highest
  | toList
  | form
deriving DecidableEq, Repr

namespace Command

/-- The content of the register after the command. -/
def apply (s : SlotSet) : Command → SlotSet
  | .put set => set
  | .first count => .first count
  | .ofList slots => .ofList slots
  | .singleton slot => .singleton slot
  | .union set => s ∪ set
  | .inter set => s ∩ set
  | .diff set => s \ set
  | .take count => s.take count
  | _ => s

/-- What the command answers of the content that it finds. -/
def read (s : SlotSet) : Command → Reading
  | .isDisjoint set => .flag (s.isDisjoint set)
  | .isSubset set => .flag (s.isSubset set)
  | .equals set => .flag (s == set)
  | .contains slot => .flag (s.contains slot)
  | .size => .count s.size
  | .isEmpty => .flag s.isEmpty
  | .highest => .slot s.highest?
  | .toList => .slots s.toList
  | .form => .shown s.form.shown
  | _ => .nothing

/-- The answer of each command and the content after it. -/
def run (s : SlotSet) : List Command → List (Reading × SlotSet)
  | [] => []
  | command :: more => (command.read s, command.apply s) :: run (command.apply s) more

end Command

namespace Cursor

inductive Command
  | next
  | nth (skipped : Nat)
  | size
  | bounds
  | rest
  | last
  | form
deriving DecidableEq, Repr

namespace Command

/-- What the command answers, and the cursor after it. -/
def apply (c : Cursor) : Command → Reading × Cursor
  | .next => (.slot c.next.1, c.next.2)
  | .nth skipped => let (slot, c) := c.nth skipped; (.slot slot, c)
  | .size => (.count c.size, c)
  | .bounds => (.bounds c.size c.size, c)
  | .rest => (.slots c.toList, c)
  | .last => (.slot c.toList.getLast?, c)
  | .form => (.shown c.form.shown, c)

def run (c : Cursor) : List Command → List Reading
  | [] => []
  | command :: more => let (reading, c) := command.apply c; reading :: run c more

end Command

end Cursor

end SharedBus.SlotSet
