import SharedBus.Text.Form

/-! # What clients, arbiters and consumers tell one another

A client ends each turn with an `Answer`. Results and faults reach the consumer under the `Tag`
that the client was attached with.
-/
namespace SharedBus

/-- The name under which a consumer knows a client. -/
structure Tag where
  value : UInt32
deriving DecidableEq, Repr, Inhabited

def Tag.form (tag : Tag) : Form := .tuple "Tag" [.number tag.value.toNat]

/-- A failure of a client's own traffic. -/
inductive Fault
  | timeout
  | nack
  | corrupt
  | device (code : UInt16)
deriving DecidableEq, Repr

def Fault.form : Fault → Form
  | .timeout => .word "Timeout"
  | .nack => .word "Nack"
  | .corrupt => .word "Corrupt"
  | .device code => .tuple "Device" [.number code.toNat]

/-- What a client says at the end of a turn: it keeps the bus, or it is done with it. -/
inductive Answer
  | busy
  | done
deriving DecidableEq, Repr

namespace Answer

def ofBool (busy : Bool) : Answer := if busy then .busy else .done

def isBusy : Answer → Bool
  | .busy => true
  | .done => false

def form : Answer → Form
  | .busy => .word "Busy"
  | .done => .word "Done"

end Answer

/-- What a consumer is told. -/
inductive Report
  | result (tag : Tag) (payload : List UInt8)
  | failure (tag : Tag) (fault : Fault)
  /-- A pass has left the bus idle with nobody waiting. -/
  | idle
deriving DecidableEq, Repr

end SharedBus
