import SharedBus.Machine.Basic

/-! # The potential of a machine

Every action is written down somewhere: in a script that waits for its call, or in one that is
under way. The potential counts the actions still to come, each at a rate that covers all that one
action can set off, and adds what the books, the queues and the stack still have to do. Each step
uses some of it up, which is shown in `SharedBus.Machine.Potential.Outcome`.
-/
namespace SharedBus

/-- The most that one action can set off, the actions of its races and the many detaches of
`Action.detachAll` not counted. -/
abbrev price : Nat := 32

/-- What each action in a script counts for. -/
abbrev rate : Nat := price + 1

/-- What all parts of a list count for together. -/
def total {α : Type} (weight : α → Nat) : List α → Nat
  | [] => 0
  | part :: rest => weight part + total weight rest

mutual

/-- The actions inside an action. Detaching all counts for as many as there can be slots. -/
def Action.weight : Action → Nat
  | .attach _ _ _ lock bind => raceWeight lock + raceWeight bind
  | .dispatch _ reclaim => raceWeight reclaim
  | .detachAll _ => maxSlots + 1
  | _ => 0

/-- The number of actions in a script, those inside others included. -/
def scriptWeight : List Action → Nat
  | [] => 0
  | action :: rest => 1 + action.weight + scriptWeight rest

def raceWeight : Option (List Action) → Nat
  | none => 0
  | some actions => scriptWeight actions

end

def Hook.weight (hook : Hook) : Nat := total scriptWeight hook

def Client.weight (client : Client) : Nat :=
  total (scriptWeight ·.actions) client.turns + Hook.weight client.hooks.notifier +
    Hook.weight client.hooks.completion + Hook.weight client.hooks.error

def Consumer.weight (consumer : Consumer) : Nat :=
  Hook.weight consumer.onResult + Hook.weight consumer.onFailure + Hook.weight consumer.onIdle

/-- A pending slot is still to have a turn, and a detaching one to be given back. -/
def Arbiter.potential (a : Arbiter) : Nat := 16 * a.pending.size + 4 * a.detaching.size

def WorkQueue.potential (q : WorkQueue) : Nat := 12 * q.size

def World.potential (w : World) : Nat :=
  total Arbiter.potential w.arbiters + total WorkQueue.potential w.queues +
    rate * (total Consumer.weight w.consumers + total Client.weight w.clients +
      total Hook.weight w.tasks)

def Call.potential : Call → Nat
  | .perform action => rate * action.weight + price
  | .script actions => rate * scriptWeight actions + 1
  | .race _ actions => rate * raceWeight actions + 3
  | .install .. => 3
  | .turn .. => 3
  | .pass _ actions => rate * raceWeight actions + 9
  | .report .. => 3
  | .job _ => 11

def Activation.potential : Activation → Nat
  | .script _ rest => rate * scriptWeight rest + 1
  | .answer _ => 1
  | .turn .. => 1
  | .claim _ _ _ race => rate * raceWeight race + 17
  | .bind .. => 13
  | .install _ _ _ kind => 1 + 4 * kind.left
  | .uninstall _ _ _ kind => 17 + 4 * kind.left
  | .detachAll _ rest _ => 1 + rate * rest.length
  | .owner _ race => rate * raceWeight race + 5
  | .serve _ _ race => rate * raceWeight race + 17
  | .reclaim .. => 5
  | .idle _ => 1
  | .drain .. => 1

def Control.potential : Control → Nat
  | .call next => next.potential
  | .back _ => 0

def Machine.potential (m : Machine) : Nat :=
  m.world.potential + m.control.potential + total Activation.potential m.stack

end SharedBus
