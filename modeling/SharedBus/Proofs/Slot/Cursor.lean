import SharedBus.Proofs.Slot.Members
import SharedBus.Slot.Register

/-! # Cursors as positions

A cursor stands at a position of the descending list of the members. A step moves it one place on,
and past those that it skips, so whatever it is asked can be told from the list and the position.
-/
namespace SharedBus.SlotSet

namespace Cursor

variable {c : Cursor} {slots : List SlotId} {slot : SlotId} {position : Nat}

theorem length_toList (c : Cursor) : c.toList.length = c.size := (size_eq_length _).symm

theorem ofList_toList (c : Cursor) : ofList c.toList = c.remaining := c.remaining.ofList_toList

/-! ## One step -/

theorem next_of_nil (h : c.toList = []) : c.next = (none, c) := by
  have hnone : c.remaining.popHighest? = none := popHighest?_eq_none.2 (toList_eq_nil.1 h)
  simp only [next, hnone]

theorem next_of_cons (h : c.toList = slot :: slots) :
    ∃ rest : Cursor, c.next = (some slot, rest) ∧ rest.toList = slots := by
  obtain ⟨hhighest, hrest⟩ := highest?_of_toList h
  have hpop : c.remaining.popHighest? = some (slot, c.remaining.erase slot) :=
    popHighest?_eq_some.2 ⟨hhighest, rfl⟩
  exact ⟨⟨c.remaining.erase slot⟩, by simp only [next, hpop], hrest⟩

theorem next_fst (c : Cursor) : c.next.1 = c.toList.head? := by
  cases hlist : c.toList with
  | nil => rw [next_of_nil hlist, List.head?_nil]
  | cons slot slots =>
    obtain ⟨rest, hnext, _⟩ := next_of_cons hlist
    rw [hnext, List.head?_cons]

theorem toList_next (c : Cursor) : c.next.2.toList = c.toList.tail := by
  cases hlist : c.toList with
  | nil => rw [next_of_nil hlist, hlist, List.tail_nil]
  | cons slot slots =>
    obtain ⟨rest, hnext, hrest⟩ := next_of_cons hlist
    rw [hnext, hrest, List.tail_cons]

private theorem nth_and_rest (c : Cursor) (skipped : Nat) :
    (c.nth skipped).1 = c.toList[skipped]? ∧
      (c.nth skipped).2.toList = c.toList.drop (skipped + 1) := by
  -- each skipped member is one more step of the cursor, so the cursor changes along the way
  induction skipped generalizing c with
  | zero => exact ⟨c.next_fst.trans List.head?_eq_getElem?, c.toList_next.trans List.drop_one.symm⟩
  | succ skipped ih =>
    rw [nth]
    cases hlist : c.toList with
    | nil => simp [next_of_nil hlist, hlist]
    | cons slot slots =>
      obtain ⟨rest, hnext, hrest⟩ := next_of_cons hlist
      simpa [hnext, hrest] using ih rest

theorem nth_fst (c : Cursor) (skipped : Nat) : (c.nth skipped).1 = c.toList[skipped]? :=
  (c.nth_and_rest skipped).1

theorem toList_nth (c : Cursor) (skipped : Nat) :
    (c.nth skipped).2.toList = c.toList.drop (skipped + 1) :=
  (c.nth_and_rest skipped).2

/-- The answers of a cursor that is asked for the next member until there is none. -/
inductive Yields : Cursor → List SlotId → Prop
  | done {c : Cursor} (h : c.next.1 = none) : Yields c []
  | more {c : Cursor} {slot : SlotId} {slots : List SlotId} (h : c.next.1 = some slot)
      (rest : Yields c.next.2 slots) : Yields c (slot :: slots)

theorem yields_iff : c.Yields slots ↔ slots = c.toList := by
  constructor
  · intro h
    induction h with
    | @done c hnext =>
      rw [next_fst] at hnext
      exact (List.head?_eq_none_iff.1 hnext).symm
    | @more c slot slots hnext _ ih =>
      rw [next_fst] at hnext
      obtain ⟨rest, hlist⟩ := List.head?_eq_some_iff.1 hnext
      rw [toList_next, hlist, List.tail_cons] at ih
      rw [hlist, ih]
  · intro h
    induction slots generalizing c with
    | nil =>
      apply Yields.done
      rw [next_fst, ← h, List.head?_nil]
    | cons slot slots ih =>
      apply Yields.more
      · rw [next_fst, ← h, List.head?_cons]
      · apply ih
        rw [toList_next, ← h, List.tail_cons]

/-! ## A number of steps -/

namespace Command

/-- How many places the command moves the cursor on. -/
def stride : Command → Nat
  | .next => 1
  | .nth skipped => skipped + 1
  | _ => 0

/-- What is to be answered at a position of the list. -/
def look (slots : List SlotId) (position : Nat) : Command → Reading
  | .next => .slot slots[position]?
  | .nth skipped => .slot slots[position + skipped]?
  | .size => .count (slots.length - position)
  | .bounds => .bounds (slots.length - position) (slots.length - position)
  | .rest => .slots (slots.drop position)
  | .last => .slot (slots.drop position).getLast?
  | .form => .shown (Form.tuple "SlotIter" [(ofList (slots.drop position)).form]).shown

/-- What is to be answered from a position on. -/
def walk (slots : List SlotId) (position : Nat) : List Command → List Reading
  | [] => []
  | command :: more => command.look slots position :: walk slots (position + command.stride) more

/-- The cursor after the commands. -/
def after (c : Cursor) (commands : List Command) : Cursor :=
  commands.foldl (fun c command => (command.apply c).2) c

/-- The position after the commands. -/
def reach (commands : List Command) : Nat := (commands.map stride).sum

theorem apply_fst (h : c.toList = slots.drop position) (command : Command) :
    (command.apply c).1 = command.look slots position := by
  have hnth (skipped : Nat) : (c.nth skipped).1 = slots[position + skipped]? := by
    rw [nth_fst, h, List.getElem?_drop]
  have hsize : c.size = slots.length - position := by
    rw [← length_toList, h, List.length_drop]
  have hremaining : c.remaining = ofList (slots.drop position) := by
    rw [← ofList_toList, h]
  cases command with
  | next => exact congrArg Reading.slot (hnth 0)
  | nth skipped => exact congrArg Reading.slot (hnth skipped)
  | size => exact congrArg Reading.count hsize
  | bounds => rw [apply, look, hsize]
  | rest => exact congrArg Reading.slots h
  | last => rw [apply, look, h]
  | form => rw [apply, look, Cursor.form, hremaining]

theorem toList_apply (h : c.toList = slots.drop position) (command : Command) :
    (command.apply c).2.toList = slots.drop (position + command.stride) := by
  have hnth (skipped : Nat) :
      (c.nth skipped).2.toList = slots.drop (position + (skipped + 1)) := by
    rw [toList_nth, h, List.drop_drop]
  cases command with
  | next => exact hnth 0
  | nth skipped => exact hnth skipped
  | _ => exact h

/-- Only at the end of the list there is no member to be answered. -/
theorem length_le_of_look (command : Command) (h : command.look slots position = .slot none) :
    slots.length ≤ position + command.stride := by
  cases command with
  | next =>
    have hnone : slots[position]? = none := Reading.slot.inj h
    exact Nat.le_succ_of_le (List.getElem?_eq_none_iff.1 hnone)
  | nth skipped =>
    have hnone : slots[position + skipped]? = none := Reading.slot.inj h
    exact Nat.le_succ_of_le (List.getElem?_eq_none_iff.1 hnone)
  | last =>
    have hnone : (slots.drop position).getLast? = none := Reading.slot.inj h
    exact List.drop_eq_nil_iff.1 (List.getLast?_eq_none_iff.1 hnone)
  | _ => exact Reading.noConfusion h

theorem run_eq_walk (h : c.toList = slots.drop position) (commands : List Command) :
    run c commands = walk slots position commands := by
  induction commands generalizing c position with
  | nil => rfl
  | cons command more ih =>
    rw [walk, ← apply_fst h, ← ih (toList_apply h command)]
    rfl

theorem toList_after (h : c.toList = slots.drop position) (commands : List Command) :
    (after c commands).toList = slots.drop (position + reach commands) := by
  induction commands generalizing c position with
  | nil => exact h
  | cons command more ih =>
    have hrest := ih (toList_apply h command)
    rw [Nat.add_assoc] at hrest
    exact hrest

/-- Once there was no member to be answered, there is none any more. -/
theorem toList_after_of_none {command : Command} (h : (command.apply c).1 = .slot none)
    (more : List Command) : (after c (command :: more)).toList = [] := by
  have hstart : c.toList = c.toList.drop 0 := rfl
  rw [apply_fst hstart] at h
  have hend := length_le_of_look command h
  have hafter := toList_after (toList_apply hstart command) more
  refine hafter.trans (List.drop_eq_nil_iff.2 ?_)
  omega

theorem toList_after_cursor (s : SlotSet) (commands : List Command) :
    (after s.cursor commands).toList = s.toList.drop (reach commands) := by
  have hstart : s.cursor.toList = s.toList.drop 0 := rfl
  have hafter := toList_after hstart commands
  rw [Nat.zero_add] at hafter
  exact hafter

end Command

/-- A cursor hands out the members of a set from the highest down, one at a time or past any number
of others. What it answers, what it has left and what is collected from it can be told from the list
of the members and from the number of those that it has passed. -/
theorem cursor_hands_out_members (s : SlotSet) :
    -- asked until there is none, it lists the members
    ((∀ slots, s.cursor.Yields slots ↔ slots = s.toList) ∧ s.toList.Pairwise (· > ·) ∧
      (∀ slot, slot ∈ s.toList ↔ slot ∈ s) ∧ s.toList.length = s.size) ∧
    -- whatever it is asked, it answers from the list
    (∀ commands, Command.run s.cursor commands = Command.walk s.toList 0 commands) ∧
    (∀ commands,
      let c := Command.after s.cursor commands
      let passed := Command.reach commands
      let left := s.toList.drop passed
      c.next.1 = s.toList[passed]? ∧
        (∀ skipped, (c.nth skipped).1 = s.toList[passed + skipped]?) ∧
        (∀ command, (Command.apply c command).1 = .slot none → ∀ more,
          let later := Command.after c (command :: more)
          later.next.1 = none ∧ ∀ skipped, (later.nth skipped).1 = none) ∧
        (∀ slots, c.Yields slots ↔ slots = left) ∧
        c.remaining = ofList left ∧ (∀ slot, slot ∈ c.remaining ↔ slot ∈ left) ∧
        c.size = left.length ∧
        (Command.apply c .bounds).1 = .bounds left.length left.length) ∧
    -- the first members that are collected from it are the highest
    (∀ count,
      let highest := ofList (s.toList.take count)
      highest = s.take count ∧ highest.size = min count s.size ∧
        (∀ slot, slot ∈ highest ↔
          slot ∈ s ∧ (s.members.filter (slot < ·)).card < count) ∧
        (s.size ≤ count → highest = s)) ∧
    ofList s.toList = s := by
  refine ⟨⟨fun _ => yields_iff, s.pairwise_toList, fun _ => mem_toList, s.size_eq_length.symm⟩,
    Command.run_eq_walk rfl, ?_, ?_, s.ofList_toList⟩
  · intro commands c passed left
    have hleft : c.toList = left := Command.toList_after_cursor s commands
    have hnth (skipped : Nat) : (c.nth skipped).1 = s.toList[passed + skipped]? := by
      rw [nth_fst, hleft, List.getElem?_drop]
    have hremaining : c.remaining = ofList left := by rw [← hleft, ofList_toList]
    have hsize : c.size = left.length := by rw [← hleft, length_toList]
    refine ⟨hnth 0, hnth, ?_, fun slots => by rw [yields_iff, hleft], hremaining, fun slot => ?_,
      hsize, by rw [Command.apply, hsize]⟩
    · intro command hnone more later
      have hlater (skipped : Nat) : (later.nth skipped).1 = none := by
        rw [nth_fst, Command.toList_after_of_none hnone more, List.getElem?_nil]
      exact ⟨hlater 0, hlater⟩
    · rw [hremaining, mem_ofList]
  · intro count highest
    refine ⟨rfl, s.size_take count, fun _ => mem_take, fun hle => ?_⟩
    have hall : s.toList.take count = s.toList :=
      List.take_of_length_le (s.size_eq_length ▸ hle)
    calc
      highest = ofList s.toList := congrArg ofList hall
      _ = s := s.ofList_toList

end Cursor

end SharedBus.SlotSet
