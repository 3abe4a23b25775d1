import SharedBus.World.Action

/-! # Clients and consumers

The two sorts of party outside the arbiters. What they do when called is written down in advance:
a hook holds one list of actions for each call to come, and a client also has the answers of its
turns.
-/
namespace SharedBus

/-- The actions of the calls to come, one list a call. Later calls do nothing. -/
abbrev Hook := List (List Action)

/-- The actions of the next call. -/
def Hook.now (hook : Hook) : List Action := hook.headD []

/-- What a client does with one turn on the bus. -/
structure Turn where
  answer : Answer
  actions : List Action := []

structure Client where
  turns : List Turn := []
  /-- The answer of every turn after the last one in `turns`. -/
  tail : Answer := .done
  /-- Whether the client takes error handles at all. -/
  takesErrors : Bool := true
  /-- What it does when a handle of each kind is installed or taken back. -/
  hooks : PerKind Hook := .all []
  handles : PerKind (Option Handle) := .all none

namespace Client

instance : Inhabited Client := ⟨{}⟩

def takes (client : Client) (kind : HandleKind) : Bool := kind != .error || client.takesErrors

/-- The next turn and the client after it. -/
def nextTurn (client : Client) : Turn × Client :=
  match client.turns with
  | [] => (⟨client.tail, []⟩, client)
  | turn :: rest => (turn, { client with turns := rest })

def hook (client : Client) (kind : HandleKind) : Hook := client.hooks.get kind

/-- Stores or clears the handle of one kind and spends one call of its hook. -/
def install (client : Client) (kind : HandleKind) (handle : Option Handle) : Client :=
  { client with
    handles := client.handles.set kind handle
    hooks := client.hooks.set kind (client.hook kind).tail }

end Client

structure Consumer where
  onResult : Hook := []
  onFailure : Hook := []
  onIdle : Hook := []
  /-- Whether the consumer wants to hear of idle buses at all. -/
  hearsIdle : Bool := true

namespace Consumer

instance : Inhabited Consumer := ⟨{}⟩

def hears (consumer : Consumer) : Report → Bool
  | .result .. | .failure .. => true
  | .idle => consumer.hearsIdle

def hook (consumer : Consumer) : Report → Hook
  | .result .. => consumer.onResult
  | .failure .. => consumer.onFailure
  | .idle => consumer.onIdle

/-- Spends one call of the hook for this sort of report. -/
def spend (consumer : Consumer) : Report → Consumer
  | .result .. => { consumer with onResult := consumer.onResult.tail }
  | .failure .. => { consumer with onFailure := consumer.onFailure.tail }
  | .idle => { consumer with onIdle := consumer.onIdle.tail }

end Consumer

end SharedBus
