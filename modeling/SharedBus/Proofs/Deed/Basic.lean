import SharedBus.Proofs.Discipline
import SharedBus.Proofs.Stage

/-! # What a step does to one arbiter

Most steps are none of an arbiter's business: they leave its books and the activations that depend
on them alone. A `Deed` lists all others, each with the books before and after, what is on the
stack and what becomes known. Every invariant of one arbiter is shown deed by deed.
-/
namespace SharedBus

/-- Whether the activation depends on the books of the arbiter. -/
def Activation.isOf (a : ArbiterId) : Activation → Bool
  | .turn b .. | .claim b .. | .bind b .. | .uninstall b .. | .owner b _ | .serve b .. | .reclaim b _
  | .idle b => b == a
  | _ => false

/-- Whether the event is a move on the books of the arbiter or a turn that it gives. -/
def Event.isOf (a : ArbiterId) : Event → Bool
  | .claimed b _ | .givenBack b _ | .bound b _ _ | .detaching b _ _ | .marked b _ _ | .released b
  | .requested b _ | .passBegun b | .passEnded b | .continued b _ | .served b _ | .turnBegun b _ _
  | .turnEnded b _ _ _ | .withdrawn b _ | .freed b _ => b == a
  | _ => false

/-- What becomes known when the arbiter schedules a pass. -/
def Arbiter.scheduling (x : Arbiter) (a : ArbiterId) (room : Bool) : List Event :=
  if x.queued then [] else [.queued x.queue (.pass a) room]

/-- The activation that is left to wait. -/
@[simp] def Next.waiting? : Next → Option Activation
  | .reply _ => none
  | .call _ waiting => some waiting

theorem Arbiter.scheduling_not_isOf {x : Arbiter} {a : ArbiterId} {room : Bool} :
    ∀ e ∈ x.scheduling a room, e.isOf a = false := by
  unfold scheduling
  split <;> simp [Event.isOf]

namespace Machine

variable {a : ArbiterId} {m m' : Machine} {new : List Event}

abbrev books (m : Machine) (a : ArbiterId) : Arbiter := m.world.arbiter a

theorem books_rest {w : World} (hw : w.IsInitial) : (rest w).books a = default :=
  w.arbiter_eq_default (by simp [hw.arbiters])

/-- The activations on the stack that depend on the books of the arbiter. -/
def frames (m : Machine) (a : ArbiterId) : List Activation := m.stack.filter (·.isOf a)

theorem mem_frames {f : Activation} : f ∈ m.frames a ↔ f ∈ m.stack ∧ f.isOf a = true :=
  List.mem_filter

theorem mem_frames_of_stack {f : Activation} {rest : List Activation} (h : m.stack = f :: rest)
    (hf : f.isOf a = true) : f ∈ m.frames a := mem_frames.2 ⟨h ▸ List.mem_cons_self, hf⟩

/-- Apart from idle passes, only arbiters that are there have activations. -/
def Placed (a : ArbiterId) (m : Machine) : Prop :=
  ∀ f ∈ m.frames a, f = .idle a ∨ a < m.world.arbiters.length

/-- The step is none of the arbiter's business. -/
structure Quiet (a : ArbiterId) (m m' : Machine) : Prop where
  books : m'.books a = m.books a
  frames : m'.frames a = m.frames a
  not_turn : ∀ slot, m.control ≠ .call (.turn a slot)
  not_pass : ∀ race, m.control ≠ .call (.pass a race)
  not_job : m.control ≠ .call (.job (.pass a))
  not_back : ∀ reply f rest, m.control = .back reply → m.stack = f :: rest → f.isOf a = false

theorem Quiet.mem_stack {f : Activation} (h : Quiet a m m') (hf : f.isOf a = true)
    (hmem : f ∈ m'.stack) : f ∈ m.stack := by
  have hframe : f ∈ m'.frames a := mem_frames.2 ⟨hmem, hf⟩
  rw [h.frames] at hframe
  exact (mem_frames.1 hframe).1

/-- How a pass comes to serve pending slots: the books it then has, what is left of the stack and
what has become known, the latest first. -/
inductive Serves (a : ArbiterId) (m : Machine) (race : Race) :
    Arbiter → List Activation → List Event → Prop
  | idle (hcall : m.control = .call (.pass a race)) (howner : (m.books a).owner = none) :
    Serves a m race (m.books a) m.stack [.passBegun a]
  | kept {reply : Reply} {rest : List Activation} (hback : m.control = .back reply)
    (hanswer : reply.answer = .busy) (hstack : m.stack = .owner a race :: rest) :
    Serves a m race (m.books a) rest []
  | left {reply : Reply} {rest : List Activation} (hback : m.control = .back reply)
    (hanswer : reply.answer = .done) (hstack : m.stack = .owner a race :: rest) :
    Serves a m race { m.books a with owner := none } rest []
  | took {reply : Reply} {slot : SlotId} {rest : List Activation} {new : List Event}
    (hback : m.control = .back reply) (hanswer : reply.answer = .busy)
    (hstack : m.stack = .serve a slot race :: rest)
    (hnew : ∀ e ∈ new, e.isOf a = false)
    (hqueued : (m.books a).pending.contains slot → (m.books a).queued = false →
      ∃ room, .queued (m.books a).queue (.pass a) room ∈ new) :
    Serves a m race { m.books a with
      owner := some slot
      queued := (m.books a).queued || (m.books a).pending.contains slot } rest new
  | passed {reply : Reply} {slot : SlotId} {rest : List Activation} (hback : m.control = .back reply)
    (hanswer : reply.answer = .done) (hstack : m.stack = .serve a slot race :: rest) :
    Serves a m race (m.books a) rest []

/-- The machine has followed `next` with `stack` left to wait. -/
def Follows (m' : Machine) (next : Next) (stack : List Activation) : Prop :=
  match next with
  | .reply reply => m'.control = .back reply ∧ m'.stack = stack
  | .call call waiting => m'.control = .call call ∧ m'.stack = waiting :: stack

theorem Follows.mem_stack {next : Next} {stack : List Activation} {f : Activation}
    (h : m'.Follows next stack) (hf : f ∈ m'.stack) : f ∈ stack ∨ f ∈ next.waiting? := by
  cases next with
  | reply reply =>
    rw [h.2] at hf
    exact .inl hf
  | call call waiting =>
    rw [h.2] at hf
    rcases List.mem_cons.1 hf with rfl | hf
    · exact .inr rfl
    · exact .inl hf

theorem Follows.mem_of_mem {next : Next} {stack : List Activation} {f : Activation}
    (h : m'.Follows next stack) (hf : f ∈ stack) : f ∈ m'.stack := by
  cases next with
  | reply reply => exact h.2 ▸ hf
  | call call waiting => exact h.2 ▸ List.mem_cons_of_mem _ hf

theorem Follows.mem_of_waiting {next : Next} {stack : List Activation} {f : Activation}
    (h : m'.Follows next stack) (hf : f ∈ next.waiting?) : f ∈ m'.stack := by
  cases next with
  | reply reply => cases hf
  | call call waiting =>
    obtain rfl := Option.some.inj hf
    exact h.2 ▸ List.mem_cons_self

end Machine

open Machine

/-- What one step, or the start of an action, means to one arbiter. The last index is what has
become known by it, the latest first. -/
inductive Deed (a : ArbiterId) (m m' : Machine) : List Event → Prop
  | quiet {new : List Event} (h : Quiet a m m') (hnew : ∀ e ∈ new, e.isOf a = false) :
    Deed a m m' new
  | build {config : Config} {q : QueueId} {s : ConsumerId} (hx : m.books a = default)
    (hx' : m'.books a = .create config q s) (hcapacity : config.capacity ≤ maxSlots)
    (haction : ∃ action, m.control = .call (.perform action))
    (hnext : m'.Follows (.reply (.built a)) m.stack) :
    Deed a m m' [.built a q, .reserved q]
  | attach {c : ClientId} {tag : Tag} {lock bind : Race}
    (hcall : m.control = .call (.perform (.attach a c tag lock bind)))
    (hthere : m.attach? = some a) (hopen : (m.books a).closed = false)
    (hx' : m'.books a = m.books a)
    (hnext : m'.Follows (.call (.race .lock lock) (.claim a c tag bind)) m.stack) :
    Deed a m m' []
  | refuse {c : ClientId} {tag : Tag} {bind : Race} {reply : Reply} {refusal : Refusal}
    {rest : List Activation} {new : List Event} (hback : m.control = .back reply)
    (hstack : m.stack = .claim a c tag bind :: rest) (hx' : m'.books a = m.books a)
    (hnew : new = [] ∨ ∃ slot ∈ (m.books a).free, new = [.givenBack a slot, .claimed a slot])
    (hnext : m'.Follows (.reply (.refused refusal)) rest) : Deed a m m' new
  | claim {c : ClientId} {tag : Tag} {bind : Race} {reply : Reply} {slot : SlotId}
    {rest : List Activation} (hback : m.control = .back reply)
    (hstack : m.stack = .claim a c tag bind :: rest) (hfind : (m.books a).find? c = none)
    (hslot : (m.books a).free.highest? = some slot) (hopen : (m.books a).closed = false)
    (hx' : m'.books a = { m.books a with free := (m.books a).free.erase slot })
    (hnext : m'.Follows (.call (.race .bind bind) (.bind a c tag slot)) rest) :
    Deed a m m' [.claimed a slot]
  | bind {c : ClientId} {tag : Tag} {reply : Reply} {slot : SlotId} {rest : List Activation}
    (hback : m.control = .back reply) (hstack : m.stack = .bind a c tag slot :: rest)
    (hx' : m'.books a = (m.books a).bind slot ⟨c, tag⟩)
    (hnext : m'.Follows (.call (.install c .notifier (some ⟨a, slot⟩))
      (.install a c slot .notifier)) rest) :
    Deed a m m' [.bound a slot ⟨c, tag⟩]
  | detach {c : ClientId} {slot : SlotId} (haction : ∃ action, m.control = .call (.perform action))
    (hfind : (m.books a).find? c = some slot) (hx' : m'.books a = m.books a)
    (hnext : m'.Follows (.call (.install c .notifier none) (.uninstall a c slot .notifier))
      m.stack) :
    Deed a m m' [.detaching a slot c]
  | uninstall {c : ClientId} {slot : SlotId} {kind kind' : HandleKind} {reply : Reply}
    {rest : List Activation} (hback : m.control = .back reply)
    (hstack : m.stack = .uninstall a c slot kind :: rest) (hkind : kind.next? = some kind')
    (hx' : m'.books a = m.books a)
    (hnext : m'.Follows (.call (.install c kind' none) (.uninstall a c slot kind')) rest) :
    Deed a m m' []
  | mark {c : ClientId} {slot : SlotId} {kind : HandleKind} {reply : Reply}
    {rest : List Activation} {room : Bool} (hback : m.control = .back reply)
    (hstack : m.stack = .uninstall a c slot kind :: rest) (hkind : kind.next? = none)
    (hx' : m'.books a = { (m.books a).mark slot with queued := true })
    (hnext : m'.Follows (.reply (.slot slot)) rest) :
    Deed a m m' ((m.books a).scheduling a room ++ [.marked a slot c])
  | release (haction : ∃ action, m.control = .call (.perform action))
    (hfree : (m.books a).attachedCount = 0) (hx' : m'.books a = { m.books a with closed := true })
    (hnext : m'.Follows (.reply .released) m.stack) : Deed a m m' [.released a]
  | request {slot : SlotId} {reply : Reply} {new : List Event}
    (haction : m.request? = some ⟨a, slot⟩)
    (hx' : m'.books a = { (m.books a).setPending slot with
      queued := (m.books a).queued || (m.books a).wantsPass slot })
    (hnew : ∀ e ∈ new, e.isOf a = false)
    (hqueued : (m.books a).wantsPass slot → (m.books a).queued = false →
      ∃ room, .queued (m.books a).queue (.pass a) room ∈ new)
    (hnext : m'.Follows (.reply reply) m.stack) :
    Deed a m m' (new ++ [.requested a slot])
  | job (hcall : m.control = .call (.job (.pass a)))
    (hx' : m'.books a = { m.books a with queued := false })
    (hnext : m'.Follows (.call (.pass a none) (.answer .nothing)) m.stack) : Deed a m m' []
  | owner {race : Race} {slot : SlotId} (hcall : m.control = .call (.pass a race))
    (howner : (m.books a).owner = some slot) (hx' : m'.books a = (m.books a).clearPending slot)
    (hnext : m'.Follows (.call (.turn a slot) (.owner a race)) m.stack) :
    Deed a m m' [.continued a slot, .passBegun a]
  | serve {race : Race} {x : Arbiter} {rest : List Activation} {new : List Event} {stage : Stage}
    (h : Serves a m race x rest new) (hto : x.ServesTo (m'.books a) stage)
    (hnext : m'.Follows (stage.next a race) rest) : Deed a m m' ((stage.events a).reverse ++ new)
  | reclaim {reply : Reply} {slot : SlotId} {rest : List Activation} {stage : Stage}
    (hback : m.control = .back reply) (hstack : m.stack = .reclaim a slot :: rest)
    (hto : ((m.books a).unbind slot |>.giveBack slot).ReclaimsTo (m'.books a) stage)
    (hnext : m'.Follows (stage.next a none) rest) :
    Deed a m m' ((stage.events a).reverse ++ [.freed a slot])
  | endPass {reply : Reply} {rest : List Activation} (hback : m.control = .back reply)
    (hstack : m.stack = .idle a :: rest) (hx' : m'.books a = m.books a)
    (hnext : m'.Follows (.reply .nothing) rest) : Deed a m m' [.passEnded a]
  | skipTurn {slot : SlotId} (hcall : m.control = .call (.turn a slot))
    (hclient : (m.books a).client? slot = none) (hx' : m'.books a = m.books a)
    (hnext : m'.Follows (.reply (.turn .done)) m.stack) :
    Deed a m m' [.turnEnded a slot none .done, .turnBegun a slot none]
  | beginTurn {slot : SlotId} {c : ClientId} {answer : Answer} {actions : List Action}
    (hcall : m.control = .call (.turn a slot)) (hclient : (m.books a).client? slot = some c)
    (hx' : m'.books a = m.books a)
    (hnext : m'.Follows (.call (.script actions) (.turn a slot c answer)) m.stack) :
    Deed a m m' [.turnBegun a slot (some c)]
  | endTurn {slot : SlotId} {c : ClientId} {answer : Answer} {reply : Reply} {rest : List Activation}
    (hback : m.control = .back reply) (hstack : m.stack = .turn a slot c answer :: rest)
    (hx' : m'.books a = m.books a) (hnext : m'.Follows (.reply (.turn answer)) rest) :
    Deed a m m' [.turnEnded a slot (some c) answer]

end SharedBus
