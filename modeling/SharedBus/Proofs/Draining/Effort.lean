import SharedBus.Proofs.Draining.Takes
import SharedBus.Proofs.Reservation

/-! # Every job that a queue takes in was worked for

A job comes into a queue because somebody has queued it by hand, asked for service or completed a
detach. Only the pass of a slot that has just come to own the bus is queued by the arbiter itself,
and then the slot has asked again in its turn without queueing a pass. So as long as passes keep
apart, every job can be charged to a piece of work of its own.
-/
namespace SharedBus

/-! ## Work -/

namespace Machine

variable {a : ArbiterId} {m m' : Machine} {q : QueueId} {job : Job} {new : List Event}

/-- The job that is about to be queued by hand, and where, if there is room for it. -/
def handing? (m : Machine) : Option (QueueId × Job) :=
  match m.control with
  | .call (.perform (.enqueue q j)) =>
    if m.world.hasQueue q && m.world.hasTask j && (m.world.queue q).hasRoom then some (q, .task j)
    else none
  | .call (.perform (.enqueueArbiter q a)) =>
    if m.world.hasQueue q && m.world.hasArbiter a && (m.world.queue q).hasRoom then some (q, .pass a)
    else none
  | _ => none

/-- The arbiter on which a detach is about to mark its slot. -/
def marking? (m : Machine) : Option ArbiterId :=
  match m.control, m.stack with
  | .back _, .uninstall a _ _ kind :: _ => if kind.next?.isNone then some a else none
  | _, _ => none

/-- The arbiter that is about to accept a request or to complete a detach. -/
def urged? (m : Machine) : Option ArbiterId := (m.request?.map (·.arbiter)).or m.marking?

/-- The job of this queue for which work is about to be put in: a request or a detach is work for
a pass of its arbiter, and a job that is queued by hand is work for itself. -/
def effort? (q : QueueId) (m : Machine) : Option Job :=
  ((m.urged?.filter fun a => (m.books a).queue = q).map .pass).or
    ((m.handing?.filter (·.1 = q)).map (·.2))

theorem urged?_of_request? {slot : SlotId} (h : m.request? = some ⟨a, slot⟩) :
    m.urged? = some a := by
  simp [urged?, h]

theorem request?_of_back {reply : Reply} (h : m.control = .back reply) : m.request? = none := by
  simp [request?, h]

theorem urged?_of_mark {reply : Reply} {c : ClientId} {slot : SlotId} {kind : HandleKind}
    {rest : List Activation} (hback : m.control = .back reply)
    (hstack : m.stack = .uninstall a c slot kind :: rest) (hkind : kind.next? = none) :
    m.urged? = some a := by
  simp [urged?, request?_of_back hback, marking?, hback, hstack, hkind]

theorem handing?_of_handed? {j : TaskId} (h : m.handed? = some (q, j))
    (hroom : (m.world.queue q).hasRoom = true) : m.handing? = some (q, .task j) := by
  unfold handed? at h
  split at h
  · rename_i hcall
    split at h
    · rename_i hthere
      cases h
      simp [handing?, hcall, hthere, hroom]
    · cases h
  · cases h

/-- A pass that is queued by hand goes to the queue that was named. -/
theorem Goes.handing? (h : Goes m m') (hforced : m.forced? = some a)
    (htrace : m'.trace = .queued q (.pass a) true :: m.trace) :
    m.handing? = some (q, .pass a) := by
  have hfin : m.isFinished = false := by
    refine Bool.eq_false_iff.2 fun hfin => ?_
    obtain ⟨⟨reply, hback⟩, _⟩ := isFinished_iff.1 hfin
    simp [forced?, hback] at hforced
  cases h with
  | act hfin' => cases hfin.symm.trans hfin'
  | step =>
    unfold forced? at hforced
    split at hforced
    · rename_i b hcall
      split at hforced
      · rename_i hthere
        simp [Machine.step, hcall, World.begin, World.perform, World.whenThere, hthere, World.call,
          follow] at htrace
      · cases hforced
    · rename_i p b hcall
      split at hforced
      · rename_i hthere
        cases hforced
        simp [Machine.step, hcall, World.begin, World.perform, World.whenThere, hthere, World.enqueue,
          World.reply, follow] at htrace
        obtain ⟨rfl, hroom⟩ := htrace
        simp [Machine.handing?, hcall, hthere, hroom]
      · cases hforced
    · cases hforced

/-- Whoever queues a job by hand makes no request and completes no detach. -/
theorem urged?_of_handing? (h : m.handing? = some (q, job)) : m.urged? = none := by
  unfold Machine.handing? at h
  split at h
  · rename_i hcall
    simp [urged?, request?, hcall, World.asked?, marking?]
  · rename_i hcall
    simp [urged?, request?, hcall, World.asked?, marking?]
  · cases h

theorem effort?_of_handing? (h : m.handing? = some (q, job)) : m.effort? q = some job := by
  simp [effort?, urged?_of_handing? h, h]

theorem effort?_of_urged? (h : m.urged? = some a) (hhome : (m.books a).queue = q) :
    m.effort? q = some (.pass a) := by
  simp [effort?, h, hhome]

end Machine

open Machine

/-! ## What a queue takes in -/

section
variable {m m' : Machine} {q : QueueId} {new : List Event} {e : Event}

theorem Event.taken?_of_not_isQueueing (h : e.isQueueing = false) : e.taken? q = none := by
  cases e <;> first | rfl | cases h

theorem taken_of_not_isQueueing (h : ∀ e ∈ new, e.isQueueing = false) : taken q new = [] :=
  List.filterMap_eq_nil_iff.2 fun e he => Event.taken?_of_not_isQueueing (h e he)

theorem started_of_not_isQueueing (h : ∀ e ∈ new, e.isQueueing = false) : started q new = [] := by
  refine List.filterMap_eq_nil_iff.2 fun e he => ?_
  cases e <;> first | rfl | cases h _ he

theorem started_append (new trace : List Event) :
    started q (new ++ trace) = started q new ++ started q trace := List.filterMap_append

theorem taken_append (new trace : List Event) :
    taken q (new ++ trace) = taken q new ++ taken q trace :=
  List.filterMap_append

theorem taken_queued {p : QueueId} {job : Job} {room : Bool} :
    taken q [.queued p job room] = if room ∧ p = q then [job] else [] := by
  cases room with
  | true => by_cases hp : p = q <;> simp [taken, Event.taken?, hp]
  | false => simp [taken, Event.taken?]

/-- Why a job is taken in: it is queued by hand, or it is the pass of an arbiter whose flag is set
by that. -/
inductive Machine.Occasion (q : QueueId) (m m' : Machine) : Job → Prop
  | byHand {job : Job} (h : m.handing? = some (q, job)) : Occasion q m m' job
  | scheduled {a : ArbiterId} (hhome : (m.books a).queue = q)
    (hbefore : (m.books a).queued = false) (hafter : (m'.books a).queued = true) :
    Occasion q m m' (.pass a)

/-- A step brings one job into a queue, or none. -/
theorem Machine.Goes.occasion (h : Goes m m') (hplaced : ∀ a, m.Placed a)
    (htrace : m'.trace = new ++ m.trace) :
    taken q new = [] ∨ ∃ job, taken q new = [job] ∧ Occasion q m m' job := by
  obtain ⟨events, herrand, hevents⟩ := h.errand
  obtain rfl : events = new := List.append_cancel_right (hevents.symm.trans htrace)
  have hone : ∀ {p : QueueId} {other : Job} {room : Bool},
      (room = true → p = q → Occasion q m m' other) → taken q [.queued p other room] = [] ∨
        ∃ job, taken q [.queued p other room] = [job] ∧ Occasion q m m' job := by
    intro p other room hoccasion
    rw [taken_queued]
    split
    · rename_i hroom
      exact .inr ⟨other, rfl, hoccasion hroom.1 hroom.2⟩
    · exact .inl rfl
  cases herrand.chore with
  | none _ _ hnew => exact .inl (taken_of_not_isQueueing hnew)
  | build | reserve | start | clear | run => exact .inl rfl
  | enqueue hhanded =>
    refine hone fun hroom hp => .byHand ?_
    subst hp
    exact handing?_of_handed? hhanded hroom
  | force hforced =>
    refine hone fun hroom hp => .byHand ?_
    subst hp
    rw [hroom] at htrace
    exact h.handing? hforced htrace
  | @schedule a p before after hthere hp hqueued hposts _ hafter hbefore =>
    rw [taken_append, ← List.singleton_append, taken_append, taken_of_not_isQueueing hafter,
      taken_of_not_isQueueing hbefore, List.nil_append, List.append_nil]
    refine hone fun _ hq => .scheduled (hp.symm.trans hq) hqueued ?_
    exact (World.post_of_set_self hposts (lt_length_of_there (hplaced a) hthere)).2

/-- A job that leaves a queue was in it before or has been taken in. -/
theorem Chore.flow (h : Chore m m' new) :
    (started q new).length + (m'.world.queue q).entries.length ≤
      (m.world.queue q).entries.length + (taken q new).length := by
  have hnone : started q new = [] → (m'.world.queue q).entries.length ≤
      (m.world.queue q).entries.length + (taken q new).length →
        (started q new).length + (m'.world.queue q).entries.length ≤
          (m.world.queue q).entries.length + (taken q new).length := by
    intro hstarted hle
    rwa [hstarted, List.length_nil, Nat.zero_add]
  have hsame : ∀ {p : QueueId} {queue : WorkQueue}, m'.world.queues = m.world.queues.set p queue →
      queue.entries = (m.world.queue p).entries →
        (m'.world.queue q).entries.length ≤ (m.world.queue q).entries.length := by
    intro p queue hqueues hentries
    rcases World.queue_of_set_cases hqueues q with hsame | ⟨rfl, hwritten⟩
    · exact Nat.le_of_eq (by rw [hsame])
    · exact Nat.le_of_eq (by rw [hwritten, hentries])
  have hpush : ∀ {p : QueueId} {job : Job},
      m'.world.queues = m.world.queues.set p ((m.world.queue p).push job) →
      (m'.world.queue q).entries.length ≤ (m.world.queue q).entries.length +
        (taken q [.queued p job (m.world.queue p).hasRoom]).length := by
    intro p job hqueues
    rcases World.queue_of_set_cases hqueues q with hsame | ⟨rfl, hwritten⟩
    · exact hsame ▸ Nat.le_add_right ..
    · rw [hwritten, WorkQueue.length_push, taken_queued]
      cases (m.world.queue q).hasRoom <;> simp
  cases h with
  | none _ hqueues hnew =>
    refine hnone (started_of_not_isQueueing hnew) ?_
    rw [World.queue_of_queues hqueues]
    exact Nat.le_add_right ..
  | clear _ hqueues | run _ _ hqueues =>
    refine hnone rfl ?_
    rw [World.queue_of_queues hqueues]
    exact Nat.le_add_right ..
  | build _ hreserve _ hqueues | reserve _ hreserve _ hqueues =>
    exact hnone rfl (hsame hqueues (WorkQueue.reserve?_eq_some hreserve).1)
  | enqueue _ _ hqueues | force _ _ hqueues => exact hnone rfl (hpush hqueues)
  | @schedule a p before after _ _ _ _ hqueues hafter hbefore =>
    refine hnone ?_ ?_
    · rw [started_append, ← List.singleton_append, started_append, started_of_not_isQueueing hafter,
        started_of_not_isQueueing hbefore]
      rfl
    · rw [taken_append, ← List.singleton_append, taken_append, taken_of_not_isQueueing hafter,
        taken_of_not_isQueueing hbefore, List.nil_append, List.append_nil]
      exact hpush hqueues
  | @start p job queue hpop _ hqueues =>
    obtain ⟨hentries, _⟩ := WorkQueue.pop?_eq_some.1 hpop
    by_cases hp : q = p
    · subst hp
      have hq : q < m.world.queues.length := by
        refine Nat.lt_of_not_le fun hge => ?_
        have hnone : m.world.queue q = default := by simp [World.queue, hge]
        rw [hnone] at hentries
        cases hentries
      rw [World.queue_of_set_self hqueues hq, hentries]
      simp [started, Event.started?, taken, Event.taken?, Nat.add_comm]
    · rw [World.queue_of_set_ne hqueues hp]
      simp [started, Event.started?, taken, Event.taken?, Ne.symm hp]

end

/-! ## What an arbiter owes -/

/-- A served slot among these activations has asked again, and nobody has queued a pass. -/
def Machine.Owes (a : ArbiterId) (above : List Activation) (m : Machine) : Prop :=
  (m.books a).queued = false ∧
    ∃ slot race, .serve a slot race ∈ above ∧ slot ∈ (m.books a).pending

/-- The arbiter comes to owe nothing, and it queues a pass only if it owed one. -/
structure Machine.Thrifty (a : ArbiterId) (above above' : List Activation) (m m' : Machine) :
    Prop where
  owes : m'.Owes a above' → m.Owes a above
  paid : (m.books a).queued = false → (m'.books a).queued = true → m.Owes a above

section
variable {a : ArbiterId} {m m' : Machine} {new : List Event} {base above above' : List Activation}

theorem Arbiter.ReclaimsTo.calm {x y : Arbiter} {stage : Stage} (h : x.ReclaimsTo y stage) :
    (∀ slot ∈ y.pending, slot ∈ x.pending) ∧
      ∀ race slot other, .serve a slot other ∉ (stage.next a race).waiting? := by
  cases h with
  | reclaim => exact ⟨fun _ h => (SlotSet.mem_erase.1 h).1, by simp [Stage.next]⟩
  | idle | ended => exact ⟨fun _ h => h, by simp [Stage.next]⟩

/-- A pass that goes on adds no request, and the slot that it serves does not wait any more. -/
theorem Arbiter.ServesTo.calm {x y : Arbiter} {stage : Stage} (h : x.ServesTo y stage) :
    (∀ slot ∈ y.pending, slot ∈ x.pending) ∧
      ∀ race slot other, .serve a slot other ∈ (stage.next a race).waiting? → slot ∉ y.pending := by
  cases h with
  | ended => exact ⟨fun _ h => h, by simp [Stage.next]⟩
  | turn =>
    refine ⟨fun _ h => (SlotSet.mem_erase.1 h).1, fun race slot other hmem => ?_⟩
    obtain ⟨_, rfl, _⟩ := Activation.serve.inj (Option.some.inj hmem)
    exact fun hslot => (SlotSet.mem_erase.1 hslot).2 rfl
  | reclaim _ _ h =>
    obtain ⟨hpending, hnone⟩ := h.calm (a := a)
    exact ⟨hpending, fun race slot other hmem => absurd hmem (hnone race slot other)⟩

theorem Machine.Follows.above_eq {next : Next} (h : m'.Follows next (above ++ base))
    (habove' : m'.stack = above' ++ base) : above' = next.waiting?.toList ++ above := by
  cases next with
  | reply => exact List.append_cancel_right (habove'.symm.trans h.2)
  | call call waiting => exact List.append_cancel_right (habove'.symm.trans h.2)

/-- Without work being put in, an arbiter is thrifty. -/
theorem Deed.thrifty (h : Deed a m m' new) (hapart : m'.PassesApart)
    (habove : m.stack = above ++ base) (habove' : m'.stack = above' ++ base)
    (hunder : (∃ call, m.control = .call call) ∨ above ≠ []) (hurged : m.urged? ≠ some a) :
    Thrifty a above above' m m' := by
  have hcalled : ∀ {next : Next}, m'.Follows next m.stack → above' = next.waiting?.toList ++ above :=
    fun hnext => Follows.above_eq (habove ▸ hnext) habove'
  have hback : ∀ {next : Next} {f : Activation} {rest : List Activation} {reply : Reply},
      m.control = .back reply → m.stack = f :: rest → m'.Follows next rest →
      ∃ inner, above = f :: inner ∧ above' = next.waiting?.toList ++ inner := by
    intro next f rest reply hback hstack hnext
    rcases hunder with ⟨call, hcall⟩ | hne
    · cases hback.symm.trans hcall
    obtain ⟨g, inner, rfl⟩ := List.exists_cons_of_ne_nil hne
    obtain ⟨rfl, rfl⟩ := List.cons.inj (hstack.symm.trans habove)
    exact ⟨inner, rfl, Follows.above_eq hnext habove'⟩
  -- a step that leaves the flag alone and adds no request
  have hkeep : ∀ {next : Next} {inner : List Activation}, above' = next.waiting?.toList ++ inner →
      (∀ f ∈ inner, f ∈ above) → (m'.books a).queued = (m.books a).queued →
      (∀ slot ∈ (m'.books a).pending, slot ∈ (m.books a).pending) →
      (∀ slot race, .serve a slot race ∈ next.waiting? → slot ∉ (m'.books a).pending) →
      Thrifty a above above' m m' := by
    rintro next inner rfl hinner hqueued hpending hwaiting
    refine ⟨?_, fun hbefore hafter => ?_⟩
    · rintro ⟨hclear, slot, race, hserve, hslot⟩
      refine ⟨hqueued ▸ hclear, slot, race, ?_, hpending slot hslot⟩
      rcases List.mem_append.1 hserve with hnew | hold
      · exact absurd hslot (hwaiting slot race (Option.mem_toList.1 hnew))
      · exact hinner _ hold
    · cases hafter.symm.trans (hqueued.trans hbefore)
  have hstay : ∀ {next : Next}, m'.Follows next m.stack → (m'.books a).queued = (m.books a).queued →
      (∀ slot ∈ (m'.books a).pending, slot ∈ (m.books a).pending) →
      (∀ slot race, .serve a slot race ∈ next.waiting? → slot ∉ (m'.books a).pending) →
      Thrifty a above above' m m' :=
    fun hnext => hkeep (hcalled hnext) fun _ hf => hf
  have hpop : ∀ {next : Next} {f : Activation} {rest : List Activation} {reply : Reply},
      m.control = .back reply → m.stack = f :: rest → m'.Follows next rest →
      (m'.books a).queued = (m.books a).queued →
      (∀ slot ∈ (m'.books a).pending, slot ∈ (m.books a).pending) →
      (∀ slot race, .serve a slot race ∈ next.waiting? → slot ∉ (m'.books a).pending) →
      Thrifty a above above' m m' := by
    intro next f rest reply hback' hstack hnext
    obtain ⟨inner, rfl, habove'⟩ := hback hback' hstack hnext
    exact hkeep habove' fun _ hf => List.mem_cons_of_mem _ hf
  cases h with
  | quiet h =>
    have hframes : above'.filter (·.isOf a) = above.filter (·.isOf a) := by
      have hframes := h.frames
      rw [frames, frames, habove, habove', List.filter_append, List.filter_append] at hframes
      exact List.append_cancel_right hframes
    refine ⟨?_, fun hbefore hafter => ?_⟩
    · rintro ⟨hclear, slot, race, hserve, hslot⟩
      rw [h.books] at hclear hslot
      refine ⟨hclear, slot, race, ?_, hslot⟩
      have hmem : Activation.serve a slot race ∈ above'.filter (·.isOf a) :=
        List.mem_filter.2 ⟨hserve, by simp [Activation.isOf]⟩
      rw [hframes] at hmem
      exact (List.mem_filter.1 hmem).1
    · rw [h.books, hbefore] at hafter
      cases hafter
  | build hx hx' _ _ hnext =>
    refine hstay hnext (by rw [hx, hx']; rfl) (fun slot hslot => ?_) (by simp)
    rw [hx'] at hslot
    exact absurd hslot SlotSet.notMem_empty
  | attach _ _ _ hx' hnext | detach _ _ hx' hnext | release _ _ hx' hnext | skipTurn _ _ hx' hnext
  | beginTurn _ _ hx' hnext =>
    exact hstay hnext (congrArg (·.queued) hx') (by rw [hx']; exact fun _ h => h) (by simp)
  | owner _ _ hx' hnext =>
    refine hstay hnext (congrArg (·.queued) hx') (fun slot hslot => ?_) (by simp)
    rw [hx'] at hslot
    exact (SlotSet.mem_erase.1 hslot).1
  | refuse hback' hstack hx' _ hnext | claim hback' hstack _ _ _ hx' hnext
  | bind hback' hstack hx' hnext | uninstall hback' hstack _ hx' hnext
  | endPass hback' hstack hx' hnext | endTurn hback' hstack hx' hnext =>
    exact hpop hback' hstack hnext (congrArg (·.queued) hx') (by rw [hx']; exact fun _ h => h)
      (by simp)
  | mark hback' hstack hkind => exact absurd (urged?_of_mark hback' hstack hkind) hurged
  | request haction => exact absurd (urged?_of_request? haction) hurged
  | job _ hx' hnext =>
    -- the pass is about to start, so none is in progress
    refine ⟨?_, fun _ hafter => ?_⟩
    · rintro ⟨_, slot, race, hserve, _⟩
      have hmem : Activation.serve a slot race ∈ m'.stack :=
        habove' ▸ List.mem_append_left _ hserve
      have hpass := hapart a (pass?_of_control hnext.1) _ hmem
      simp [Activation.isPass] at hpass
    · rw [hx'] at hafter
      cases hafter
  | serve hserves hto hnext =>
    obtain ⟨hpending, hserved⟩ := hto.calm (a := a)
    obtain ⟨_, _, hx'⟩ := hto.frame
    have hqueued := congrArg (·.queued) hx'
    cases hserves with
    | idle => exact hstay hnext hqueued hpending (hserved _)
    | kept hback' _ hstack | left hback' _ hstack | passed hback' _ hstack =>
      exact hpop hback' hstack hnext hqueued hpending (hserved _)
    | @took _ slot _ _ hback' _ hstack =>
      by_cases hagain : slot ∈ (m.books a).pending
      · -- this is what the arbiter owed
        have hset : (m'.books a).queued = true := by
          simpa [SlotSet.contains_eq_true.2 hagain] using hqueued
        obtain ⟨inner, rfl, _⟩ := hback hback' hstack hnext
        refine ⟨fun howes => ?_, fun hclear _ => ⟨hclear, slot, _, List.mem_cons_self, hagain⟩⟩
        cases hset.symm.trans howes.1
      · have hclear : (m'.books a).queued = (m.books a).queued := by
          simpa [SlotSet.contains_eq_false.2 hagain] using hqueued
        exact hpop hback' hstack hnext hclear hpending (hserved _)
  | reclaim hback' hstack hto hnext =>
    obtain ⟨hpending, hnone⟩ := hto.calm (a := a)
    obtain ⟨_, _, hx'⟩ := hto.frame
    exact hpop hback' hstack hnext (congrArg (·.queued) hx') hpending
      fun slot other hmem => absurd hmem (hnone _ slot other)

end

/-! ## Jobs charged to work -/

namespace Machine

variable {a : ArbiterId} {m m' : Machine} {q : QueueId} {new : List Event}
  {base above above' : List Activation}

theorem lt_length_of_urged? (hplaced : m.Placed a) (h : m.urged? = some a) :
    a < m.world.arbiters.length := by
  rcases Option.or_eq_some_iff.1 h with hrequest | ⟨_, hmarking⟩
  · obtain ⟨handle, hhandle, rfl⟩ := Option.map_eq_some_iff.1 hrequest
    exact World.lt_length_of_accepts (perform_of_request? hhandle).1
  · unfold marking? at hmarking
    split at hmarking
    · rename_i hstack
      split at hmarking
      · cases hmarking
        exact lt_length_of_placed hplaced hstack (by simp [Activation.isOf]) (by simp)
      · cases hmarking
    · cases hmarking

theorem Owes.lt_length (h : m.Owes a above) : a < m.world.arbiters.length := by
  obtain ⟨_, slot, _, _, hslot⟩ := h
  refine World.lt_length_of_arbiter_ne fun hdefault => ?_
  rw [books, hdefault] at hslot
  exact absurd hslot SlotSet.notMem_empty

/-- If jobs taken in so far are charged to work, with work left over for what is owed, so they are
after one more step. -/
theorem Goes.charged (h : Goes m m') (hplaced : ∀ a, m.Placed a) (hapart : m'.PassesApart)
    (htrace : m'.trace = new ++ m.trace) (habove : m.stack = above ++ base)
    (habove' : m'.stack = above' ++ base) (hunder : (∃ call, m.control = .call call) ∨ above ≠ [])
    {job : Job} {jobs efforts : Nat} (hcharged : jobs ≤ efforts)
    (howed : ∀ a, job = .pass a → (m.books a).queue = q → m.Owes a above → jobs < efforts) :
    jobs + (taken q new).count job ≤ efforts + (m.effort? q).toList.count job ∧
      ∀ a, job = .pass a → (m'.books a).queue = q → m'.Owes a above' →
        jobs + (taken q new).count job < efforts + (m.effort? q).toList.count job := by
  obtain ⟨_, herrand, _⟩ := h.errand
  have hhome : ∀ a, a < m.world.arbiters.length → (m'.books a).queue = (m.books a).queue :=
    fun a ha => (herrand.chore.home ha).2
  have hthrifty : ∀ a, m.urged? ≠ some a → Thrifty a above above' m m' := by
    intro a hurged
    obtain ⟨_, hdeed, _⟩ := h.deed (hplaced a)
    exact hdeed.thrifty hapart habove habove' hunder hurged
  have hurged : ∀ a, job = .pass a → (m.books a).queue = q → m.urged? = some a →
      (m.effort? q).toList.count job = 1 := by
    rintro a rfl hq hurged
    rw [effort?_of_urged? hurged hq]
    simp
  -- what is owed after the step was worked for right now, or was owed before
  have hstill : ∀ a, job = .pass a → (m'.books a).queue = q → m'.Owes a above' →
      jobs < efforts + (m.effort? q).toList.count job := by
    intro a hjob hq howes
    by_cases hnow : m.urged? = some a
    · rw [hhome a (lt_length_of_urged? (hplaced a) hnow)] at hq
      rw [hurged a hjob hq hnow]
      omega
    · have howes := (hthrifty a hnow).owes howes
      rw [hhome a howes.lt_length] at hq
      have := howed a hjob hq howes
      omega
  by_cases hmem : job ∈ taken q new
  · obtain ⟨other, hnew, hoccasion⟩ := (h.occasion hplaced htrace).resolve_left
      (List.ne_nil_of_mem hmem)
    rw [hnew] at hmem ⊢
    obtain rfl := List.mem_singleton.1 hmem
    rw [List.count_singleton_self]
    cases hoccasion with
    | byHand hhanding =>
      have hone : (m.effort? q).toList.count job = 1 := by
        rw [effort?_of_handing? hhanding]
        simp
      refine ⟨by omega, fun a hjob hq howes => ?_⟩
      have howes := (hthrifty a (by simp [urged?_of_handing? hhanding])).owes howes
      rw [hhome a howes.lt_length] at hq
      have := howed a hjob hq howes
      omega
    | @scheduled a hq hbefore hafter =>
      refine ⟨?_, fun b hjob _ howes => ?_⟩
      · by_cases hnow : m.urged? = some a
        · rw [hurged a rfl hq hnow]
          omega
        · have := howed a rfl hq ((hthrifty a hnow).paid hbefore hafter)
          omega
      · obtain rfl := Job.pass.inj hjob
        cases hafter.symm.trans howes.1
  · rw [List.count_eq_zero.2 hmem]
    exact ⟨by omega, hstill⟩

/-- The work put in for jobs of the queue in so many steps. -/
def efforts (q : QueueId) (m : Machine) (n : Nat) : List Job :=
  (List.range n).filterMap fun k => (m.after k).effort? q

theorem efforts_add_one (q : QueueId) (m : Machine) (n : Nat) :
    m.efforts q (n + 1) = m.efforts q n ++ ((m.after n).effort? q).toList := by
  rw [efforts, List.range_succ, List.filterMap_append, efforts]
  cases h : (m.after n).effort? q <;> simp [h]

/-- While passes keep apart, a call starts no more jobs of a queue than waited there before it and
were worked for during it. -/
theorem Takes.started_le {n : Nat} {effect : Effect} (ht : m.Takes n effect) {call : Call}
    (hcall : m.control = .call call) (hm : Reachable PassesApart m)
    (hapart : ∀ k ≤ n, (m.after k).PassesApart) (q : QueueId) :
    (started q effect.events).length ≤
      (m.world.queue q).entries.length + (m.efforts q n).length := by
  have hcharged := ht.induction hcall hm hapart (I := fun k above events =>
    ((started q events).length + ((m.after k).world.queue q).entries.length ≤
      (m.world.queue q).entries.length + (taken q events).length) ∧
    ∀ job, (taken q events).count job ≤ (m.efforts q k).count job ∧
      ∀ a, job = .pass a → ((m.after k).books a).queue = q → (m.after k).Owes a above →
        (taken q events).count job < (m.efforts q k).count job) ?_ ?_
  · obtain ⟨hflow, hjobs⟩ := hcharged
    have hle : (taken q effect.events.reverse).length ≤ (m.efforts q n).length :=
      (List.subperm_ext_iff.2 fun job _ => (hjobs job).1).length_le
    have hreverse : (started q effect.events.reverse).length = (started q effect.events).length := by
      simp [started, List.filterMap_reverse]
    omega
  · refine ⟨Nat.le_of_eq (Nat.zero_add _), fun job => ⟨Nat.le_refl _, ?_⟩⟩
    rintro a _ _ ⟨_, _, _, hserve, _⟩
    cases hserve
  · rintro k above above' older new hreach _ hk hgoes htrace habove habove' hunder ⟨hflow, hjobs⟩
    obtain ⟨events, herrand, hevents⟩ := hgoes.errand
    obtain rfl : events = new := List.append_cancel_right (hevents.symm.trans htrace)
    refine ⟨?_, fun job => ?_⟩
    · have hstep := herrand.chore.flow (q := q)
      rw [started_append, taken_append, List.length_append, List.length_append]
      omega
    · rw [efforts_add_one, taken_append, List.count_append, List.count_append, Nat.add_comm]
      exact hgoes.charged (fun _ => hreach.placed) (hapart _ hk) htrace habove habove' hunder
        (hjobs job).1 (hjobs job).2

end Machine

end SharedBus
