import SharedBus.Machine.Call

/-! # Building, attaching, detaching and releasing

Attach claims a slot, binds it and gives out the handles; detach takes the handles back and leaves
the rest to a pass. In between clients are called and races happen, so each step looks at the
books anew.
-/
namespace SharedBus.World

/-- Builds an arbiter. A capacity beyond the word is refused before any entry is reserved. -/
def build (w : World) (q : QueueId) (s : ConsumerId) (config : Config) : Outcome :=
  match config.refusal? with
  | some refusal => w.reply (.refused refusal)
  | none =>
    match (w.queue q).reserve? with
    | none => w.reply (.refused .queueExhausted)
    | some queue =>
      let a := w.arbiters.length
      let reserved := w.setQueue q queue
      { reserved with arbiters := w.arbiters ++ [Arbiter.create config q s] }.reply (.built a)
        [.reserved q, .built a q]

def attach (w : World) (a : ArbiterId) (c : ClientId) (tag : Tag) (lock bind : Race) : Outcome :=
  if (w.arbiter a).closed then w.reply (.refused .closed)
  else w.call (.race .lock lock) (.claim a c tag bind)

/-- Claims a slot for the client. If the arbiter was closed meanwhile, the slot goes back. -/
def claim (w : World) (a : ArbiterId) (c : ClientId) (tag : Tag) (bind : Race) : Outcome :=
  match (w.arbiter a).find? c with
  | some slot => w.reply (.refused (.alreadyAttached slot))
  | none =>
    match (w.arbiter a).claim? with
    | none => w.reply (.refused .poolExhausted)
    | some (slot, claimed) =>
      if claimed.closed then
        (w.setArbiter a (claimed.giveBack slot)).reply (.refused .closed)
          [.claimed a slot, .givenBack a slot]
      else (w.setArbiter a claimed).call (.race .bind bind) (.bind a c tag slot) [.claimed a slot]

/-- Binds the claimed slot to the client and gives out the first handle. -/
def bind (w : World) (a : ArbiterId) (c : ClientId) (tag : Tag) (slot : SlotId) : Outcome :=
  (w.move a (·.bind slot ⟨c, tag⟩)).call (.install c .notifier (some ⟨a, slot⟩))
    (.install a c slot .notifier) [.bound a slot ⟨c, tag⟩]

/-- Gives out the next handle, or ends the attach. -/
def installNext (w : World) (a : ArbiterId) (c : ClientId) (slot : SlotId) (kind : HandleKind) :
    Outcome :=
  match kind.next? with
  | some kind => w.call (.install c kind (some ⟨a, slot⟩)) (.install a c slot kind)
  | none => w.reply (.slot slot)

def detach (w : World) (a : ArbiterId) (c : ClientId) : Outcome :=
  match (w.arbiter a).find? c with
  | none => w.reply (.refused .notAttached)
  | some slot =>
    w.call (.install c .notifier none) (.uninstall a c slot .notifier) [.detaching a slot c]

/-- Takes the next handle back, or marks the slot and queues the pass that will free it. -/
def uninstallNext (w : World) (a : ArbiterId) (c : ClientId) (slot : SlotId)
    (kind : HandleKind) : Outcome :=
  match kind.next? with
  | some kind => w.call (.install c kind none) (.uninstall a c slot kind)
  | none =>
    let (scheduled, events) := (w.move a (·.mark slot)).schedule a
    scheduled.reply (.slot slot) (.marked a slot c :: events)

/-- Detaches the clients of these slots one after another. The client of a slot is looked up when
its turn comes. -/
def detachSlots (w : World) (a : ArbiterId) (count : Nat) : List SlotId → Outcome
  | [] => w.reply (.count count)
  | slot :: rest =>
    match (w.arbiter a).client? slot with
    | none => w.detachSlots a count rest
    | some c => w.call (.perform (.detach a c)) (.detachAll a rest count)

def tryRelease (w : World) (a : ArbiterId) : Outcome :=
  let (result, books) := (w.arbiter a).release
  match result with
  | .error refusal => (w.setArbiter a books).reply (.refused refusal)
  | .ok () => (w.setArbiter a books).reply .released [.released a]

end SharedBus.World
