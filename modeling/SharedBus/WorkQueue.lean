import SharedBus.Arbiter.Basic

/-! # Work queues

A queue of jobs, run oldest first. A bounded queue keeps count of the entries that were reserved
on it and never reserves more than it has room for; a job beyond its bound is dropped. An
unbounded queue has room for all and counts nothing.
-/
namespace SharedBus

abbrev TaskId := Nat

inductive Job
  /-- A pass of an arbiter. -/
  | pass (arbiter : ArbiterId)
  | task (task : TaskId)
deriving DecidableEq, Repr

structure WorkQueue where
  bound : Option Nat
  entries : List Job := []
  reserved : Nat := 0
deriving DecidableEq, Repr, Inhabited

namespace WorkQueue

/-- Sets one more entry aside, if the bound allows it. -/
def reserve? (q : WorkQueue) : Option WorkQueue :=
  match q.bound with
  | none => some q
  | some bound => if q.reserved < bound then some { q with reserved := q.reserved + 1 } else none

/-- The number of entries reserved so far, if the queue counts them. -/
def reserved? (q : WorkQueue) : Option Nat := q.bound.map fun _ => q.reserved

def size (q : WorkQueue) : Nat := q.entries.length

def isEmpty (q : WorkQueue) : Bool := q.entries.isEmpty

def hasRoom (q : WorkQueue) : Bool :=
  match q.bound with
  | none => true
  | some bound => decide (q.size < bound)

/-- Adds a job at the end; a full queue drops it. -/
def push (q : WorkQueue) (job : Job) : WorkQueue :=
  if q.hasRoom then { q with entries := q.entries ++ [job] } else q

/-- The oldest job and the queue behind it. -/
def pop? (q : WorkQueue) : Option (Job × WorkQueue) :=
  match q.entries with
  | [] => none
  | job :: rest => some (job, { q with entries := rest })

end WorkQueue

end SharedBus
