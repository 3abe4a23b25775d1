import SharedBus.Slot.Set

/-! # Handles

At attach a client is given one handle of each kind, all naming its slot; at detach they are
taken back in the same order. A handle is a plain value: a copy kept past the detach still names
the slot, and it is the arbiter that decides what its use then does.
-/
namespace SharedBus

abbrev ArbiterId := Nat

structure Handle where
  arbiter : ArbiterId
  slot : SlotId
deriving DecidableEq, Repr

inductive HandleKind
  /-- Asks for a turn on the bus. -/
  | notifier
  /-- Delivers a finished result. -/
  | completion
  /-- Reports a failure. -/
  | error
deriving DecidableEq, Repr

namespace HandleKind

/-- Handles are installed in the order notifier, completion, error. -/
def next? : HandleKind → Option HandleKind
  | .notifier => some .completion
  | .completion => some .error
  | .error => none

/-- The number of kinds that come after this one. -/
def left : HandleKind → Nat
  | .notifier => 2
  | .completion => 1
  | .error => 0

end HandleKind

/-- A handle as its holder sees it. Completion and error handles are both deliveries. -/
def Handle.form (handle : Handle) (kind : HandleKind) : Form :=
  match kind with
  | .notifier => .record "Notifier" [.field "slot" handle.slot.form]
  | .completion | .error => .record "Delivery" [.field "slot" handle.slot.form]

/-- One value for each kind of handle. -/
structure PerKind (α : Type) where
  notifier : α
  completion : α
  error : α
deriving DecidableEq, Repr, Inhabited

namespace PerKind

variable {α : Type}

def all (value : α) : PerKind α := ⟨value, value, value⟩

def get (values : PerKind α) : HandleKind → α
  | .notifier => values.notifier
  | .completion => values.completion
  | .error => values.error

def set (values : PerKind α) (kind : HandleKind) (value : α) : PerKind α :=
  match kind with
  | .notifier => { values with notifier := value }
  | .completion => { values with completion := value }
  | .error => { values with error := value }

theorem get_set (values : PerKind α) (kind : HandleKind) (value : α) (other : HandleKind) :
    (values.set kind value).get other = if other = kind then value else values.get other := by
  cases kind <;> cases other <;> rfl

end PerKind

end SharedBus
