import SharedBus.Proofs.Deed.Basic

/-! # What a step does outside the books

The books of an arbiter are one side of a world; the queues and what the clients hold are the other.
A `Chore` says what one step does to the queues and to the flags that tell of queued passes, a
`Handover` what it does to the handles of clients. Both look at the whole world, since arbiters
share queues and clients.
-/
namespace SharedBus

/-- Whether the event tells of a queue. -/
def Event.isQueueing : Event → Bool
  | .built .. | .reserved _ | .queued .. | .started .. => true
  | _ => false

/-- An attach that gives out handles, or a detach that takes them back. -/
def Activation.isHandover : Activation → Bool
  | .install .. | .uninstall .. => true
  | _ => false

/-- The job that a call starts. -/
@[simp] def Call.job? : Call → Option Job
  | .job which => some which
  | _ => none

/-- What a call hands to a client or takes back. -/
@[simp] def Call.install? : Call → Option (ClientId × HandleKind × Option Handle)
  | .install c kind handle => some (c, kind, handle)
  | _ => none

/-- A write that leaves alone what is looked at does not change what is seen of a list. -/
theorem map_set_of_getD {α β : Type} (f : α → β) (l : List α) (i : Nat) (d x : α)
    (h : f x = f (l.getD i d)) : (l.set i x).map f = l.map f := by
  rw [List.map_set, h]
  rcases Nat.lt_or_ge i l.length with hlt | hge
  · rw [List.getD_eq_getElem?_getD, List.getElem?_eq_getElem hlt, Option.getD_some, ← List.map_set,
      List.set_getElem_self]
  · exact List.set_eq_of_length_le (by simpa using hge)

namespace World

/-- The queue of every arbiter. -/
def homes (w : World) : List QueueId := w.arbiters.map (·.queue)

/-- The queue of every arbiter, and whether a pass of it is queued. -/
def posts (w : World) : List (QueueId × Bool) := w.arbiters.map fun x => (x.queue, x.queued)

/-- Whether each client takes error handles, and what it holds. -/
def holdings (w : World) : List (Bool × PerKind (Option Handle)) :=
  w.clients.map fun client => (client.takesErrors, client.handles)

theorem homes_eq (w : World) : w.homes = w.posts.map Prod.fst := by
  simp [homes, posts]

theorem posts_getD (w : World) (a : ArbiterId) :
    w.posts.getD a (0, false) = ((w.arbiter a).queue, (w.arbiter a).queued) := by
  rcases Nat.lt_or_ge a w.arbiters.length with h | h
  · simp [posts, arbiter, h]
  · simp [posts, arbiter, h, default, Arbiter.create]

theorem length_posts (w : World) : w.posts.length = w.arbiters.length := by simp [posts]

section
variable {w w' : World} {a b : ArbiterId} {q : QueueId} {queued : Bool}

theorem length_of_posts (h : w'.posts = w.posts) : w'.arbiters.length = w.arbiters.length := by
  rw [← length_posts, h, length_posts]

theorem length_of_posts_set (h : w'.posts = w.posts.set a (q, queued)) :
    w'.arbiters.length = w.arbiters.length := by
  rw [← length_posts, h, List.length_set, length_posts]

theorem homes_of_posts (h : w'.posts = w.posts) : w'.homes = w.homes := by
  rw [homes_eq, homes_eq, h]

theorem homes_of_posts_set (h : w'.posts = w.posts.set a ((w.arbiter a).queue, queued)) :
    w'.homes = w.homes := by
  rw [homes_eq, homes_eq, h]
  exact map_set_of_getD _ _ _ (0, false) _ (by rw [posts_getD])

theorem post_of_posts (h : w'.posts = w.posts) (a : ArbiterId) :
    (w'.arbiter a).queue = (w.arbiter a).queue ∧ (w'.arbiter a).queued = (w.arbiter a).queued := by
  have hpost : w'.posts.getD a (0, false) = w.posts.getD a (0, false) := by rw [h]
  rw [posts_getD, posts_getD] at hpost
  exact Prod.mk.inj hpost

theorem post_of_set_ne (h : w'.posts = w.posts.set a (q, queued)) (hb : b ≠ a) :
    (w'.arbiter b).queue = (w.arbiter b).queue ∧ (w'.arbiter b).queued = (w.arbiter b).queued := by
  have hpost : w'.posts.getD b (0, false) = w.posts.getD b (0, false) := by
    rw [h, List.getD_eq_getElem?_getD, List.getD_eq_getElem?_getD, List.getElem?_set_ne hb.symm]
  rw [posts_getD, posts_getD] at hpost
  exact Prod.mk.inj hpost

theorem post_of_set_self (h : w'.posts = w.posts.set a (q, queued)) (ha : a < w.arbiters.length) :
    (w'.arbiter a).queue = q ∧ (w'.arbiter a).queued = queued := by
  have hpost : w'.posts.getD a (0, false) = (q, queued) := by
    rw [h, List.getD_eq_getElem?_getD, List.getElem?_set_self (by rwa [length_posts])]
    rfl
  rw [posts_getD] at hpost
  exact Prod.mk.inj hpost

theorem post_of_append_self (h : w'.posts = w.posts ++ [(q, queued)]) :
    (w'.arbiter w.arbiters.length).queue = q ∧ (w'.arbiter w.arbiters.length).queued = queued := by
  have hpost : w'.posts.getD w.arbiters.length (0, false) = (q, queued) := by
    rw [h, List.getD_eq_getElem?_getD, ← length_posts, List.getElem?_concat_length]
    rfl
  rw [posts_getD] at hpost
  exact Prod.mk.inj hpost

theorem post_of_append_lt (h : w'.posts = w.posts ++ [(q, queued)]) (hb : b < w.arbiters.length) :
    (w'.arbiter b).queue = (w.arbiter b).queue ∧ (w'.arbiter b).queued = (w.arbiter b).queued := by
  have hpost : w'.posts.getD b (0, false) = w.posts.getD b (0, false) := by
    rw [h, List.getD_eq_getElem?_getD, List.getD_eq_getElem?_getD,
      List.getElem?_append_left (by rwa [length_posts])]
  rw [posts_getD, posts_getD] at hpost
  exact Prod.mk.inj hpost

end

theorem holdings_getD (w : World) (c : ClientId) : w.holdings.getD c (true, .all none) =
    ((w.client c).takesErrors, (w.client c).handles) := by
  rcases Nat.lt_or_ge c w.clients.length with h | h
  · simp [holdings, client, h]
  · simp [holdings, client, h, default]

end World

namespace Machine

/-- The job that is just starting. -/
def job? (m : Machine) : Option Job :=
  match m.control with
  | .call call => call.job?
  | .back _ => none

/-- The arbiter of which a pass is about to be run or queued by hand. -/
def forced? (m : Machine) : Option ArbiterId :=
  match m.control with
  | .call (.perform (.runJob a)) => if m.world.hasArbiter a then some a else none
  | .call (.perform (.enqueueArbiter q a)) =>
    if m.world.hasQueue q && m.world.hasArbiter a then some a else none
  | _ => none

/-- The task that is about to be queued by hand, and where. -/
def handed? (m : Machine) : Option (QueueId × TaskId) :=
  match m.control with
  | .call (.perform (.enqueue q j)) =>
    if m.world.hasQueue q && m.world.hasTask j then some (q, j) else none
  | _ => none

/-- What a client is about to be handed, or to hand back. -/
def install? (m : Machine) : Option (ClientId × HandleKind × Option Handle) :=
  match m.control with
  | .call call => call.install?
  | .back _ => none

theorem job?_of_back {m : Machine} {reply : Reply} (h : m.control = .back reply) :
    m.job? = none := by
  rw [job?, h]

theorem job?_of_call {m : Machine} {call : Call} (h : m.control = .call call) :
    m.job? = call.job? := by
  rw [job?, h]

theorem install?_of_back {m : Machine} {reply : Reply} (h : m.control = .back reply) :
    m.install? = none := by
  rw [install?, h]

theorem install?_of_call {m : Machine} {call : Call} (h : m.control = .call call) :
    m.install? = call.install? := by
  rw [install?, h]

end Machine

open Machine

/-- What one step, or the start of an action, does to the queues. The last index is what has become
known by it, the latest first. -/
inductive Chore (m m' : Machine) : List Event → Prop
  | none {new : List Event} (hposts : m'.world.posts = m.world.posts)
    (hqueues : m'.world.queues = m.world.queues) (hnew : ∀ e ∈ new, e.isQueueing = false)
    (hnow : ∀ a, m.job? ≠ some (.pass a)) (hnext : m'.job? = none) : Chore m m' new
  | build {q : QueueId} {queue : WorkQueue} (hq : q < m.world.queues.length)
    (hreserve : (m.world.queue q).reserve? = some queue)
    (hposts : m'.world.posts = m.world.posts ++ [(q, false)])
    (hqueues : m'.world.queues = m.world.queues.set q queue) (hnow : m.job? = none)
    (hnext : m'.job? = none) : Chore m m' [.built m.world.arbiters.length q, .reserved q]
  | reserve {q : QueueId} {queue : WorkQueue} (hq : q < m.world.queues.length)
    (hreserve : (m.world.queue q).reserve? = some queue) (hposts : m'.world.posts = m.world.posts)
    (hqueues : m'.world.queues = m.world.queues.set q queue) (hnow : m.job? = none)
    (hnext : m'.job? = none) : Chore m m' [.reserved q]
  | enqueue {q : QueueId} {j : TaskId} (hhanded : m.handed? = some (q, j))
    (hposts : m'.world.posts = m.world.posts)
    (hqueues : m'.world.queues = m.world.queues.set q ((m.world.queue q).push (.task j)))
    (hnow : m.job? = none) (hnext : m'.job? = none) :
    Chore m m' [.queued q (.task j) (m.world.queue q).hasRoom]
  | force {q : QueueId} {a : ArbiterId} (hforced : m.forced? = some a)
    (hposts : m'.world.posts = m.world.posts)
    (hqueues : m'.world.queues = m.world.queues.set q ((m.world.queue q).push (.pass a)))
    (hnow : m.job? = none) (hnext : m'.job? = none) :
    Chore m m' [.queued q (.pass a) (m.world.queue q).hasRoom]
  | schedule {a : ArbiterId} {q : QueueId} {before after : List Event}
    (hthere : a < m.world.arbiters.length ∨
      ∃ f rest, m.stack = f :: rest ∧ f.isOf a = true ∧ f ≠ .idle a)
    (hq : q = (m.books a).queue) (hqueued : (m.books a).queued = false)
    (hposts : m'.world.posts = m.world.posts.set a (q, true))
    (hqueues : m'.world.queues = m.world.queues.set q ((m.world.queue q).push (.pass a)))
    (hafter : ∀ e ∈ after, e.isQueueing = false) (hbefore : ∀ e ∈ before, e.isQueueing = false)
    (hnow : m.job? = none) (hnext : m'.job? = none) :
    Chore m m' (after ++ .queued q (.pass a) (m.world.queue q).hasRoom :: before)
  | start {q : QueueId} {job : Job} {queue : WorkQueue}
    (hpop : (m.world.queue q).pop? = some (job, queue)) (hposts : m'.world.posts = m.world.posts)
    (hqueues : m'.world.queues = m.world.queues.set q queue) (hnow : m.job? = none)
    (hnext : m'.job? = some job) : Chore m m' [.started q job]
  | clear {a : ArbiterId} (hposts : m'.world.posts = m.world.posts.set a ((m.books a).queue, false))
    (hqueues : m'.world.queues = m.world.queues) (hnow : m.job? = some (.pass a))
    (hnext : m'.job? = none) : Chore m m' []
  | run {a : ArbiterId} (hforced : m.forced? = some a) (hposts : m'.world.posts = m.world.posts)
    (hqueues : m'.world.queues = m.world.queues) (hnow : m.job? = none)
    (hnext : m'.job? = some (.pass a)) : Chore m m' []

/-- What one step, or the start of an action, does to the handles of the clients. -/
inductive Handover (m m' : Machine) : Prop
  | none (hholdings : m'.world.holdings = m.world.holdings) (hnow : m.install? = none)
    (hnext : m'.install? = none) (hstack : ∀ f ∈ m'.stack, f.isHandover = true → f ∈ m.stack)
  | bind {a : ArbiterId} {c : ClientId} {tag : Tag} {slot : SlotId} {reply : Reply}
    {rest : List Activation} (hholdings : m'.world.holdings = m.world.holdings)
    (hback : m.control = .back reply) (hstack : m.stack = .bind a c tag slot :: rest)
    (hnext : m'.Follows (.call (.install c .notifier (some ⟨a, slot⟩))
      (.install a c slot .notifier)) rest)
  | install {a : ArbiterId} {c : ClientId} {slot : SlotId} {kind kind' : HandleKind}
    {rest : List Activation} (hholdings : m'.world.holdings = m.world.holdings)
    (hnow : m.install? = none) (hstack : m.stack = .install a c slot kind :: rest)
    (hkind : kind.next? = some kind')
    (hnext : m'.Follows (.call (.install c kind' (some ⟨a, slot⟩)) (.install a c slot kind')) rest)
  | detach {a : ArbiterId} {c : ClientId} {slot : SlotId}
    (hholdings : m'.world.holdings = m.world.holdings) (hdetach : m.detach? = some (a, c))
    (hnext : m'.Follows (.call (.install c .notifier none) (.uninstall a c slot .notifier)) m.stack)
  | uninstall {a : ArbiterId} {c : ClientId} {slot : SlotId} {kind kind' : HandleKind}
    {rest : List Activation} (hholdings : m'.world.holdings = m.world.holdings)
    (hnow : m.install? = none) (hstack : m.stack = .uninstall a c slot kind :: rest)
    (hkind : kind.next? = some kind')
    (hnext : m'.Follows (.call (.install c kind' none) (.uninstall a c slot kind')) rest)
  | take {c : ClientId} {kind : HandleKind} {handle : Option Handle}
    (hinstall : m.install? = some (c, kind, handle))
    (hholdings : m'.world.holdings = if (m.world.client c).takes kind then
      m.world.holdings.set c ((m.world.client c).takesErrors,
        (m.world.client c).handles.set kind handle) else m.world.holdings)
    (hnext : m'.install? = none) (hstack : ∀ f ∈ m'.stack, f.isHandover = true → f ∈ m.stack)

/-- One step, as the queues and as the clients see it. -/
structure Errand (m m' : Machine) (new : List Event) : Prop where
  chore : Chore m m' new
  handover : Handover m m'

end SharedBus
