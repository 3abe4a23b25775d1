import Mathlib.Data.List.Nodup
import Mathlib.Data.List.Perm.Subperm
import SharedBus.Proofs.Deed.Run

/-! # Queues that keep to what is reserved on them

Every arbiter has one entry of its queue reserved for its pass, and it queues no second pass before
the first has started. So whoever keeps to the entries reserved by hand leaves room for all passes.
-/
namespace SharedBus

/-! ## What a trace tells of a queue -/

/-- The entries reserved by hand, the latest event being the first. A reservation that comes with
the building of an arbiter is the arbiter's own. -/
def reservedByHand (q : QueueId) : List Event → Nat
  | [] => 0
  | .built _ _ :: .reserved _ :: older => reservedByHand q older
  | .reserved p :: older => (if p = q then 1 else 0) + reservedByHand q older
  | _ :: older => reservedByHand q older

/-- The job that the queue takes in. -/
def Event.taken? (q : QueueId) : Event → Option Job
  | .queued p job true => if p = q then some job else none
  | _ => none

/-- The job that leaves the queue to be run. -/
def Event.started? (q : QueueId) : Event → Option Job
  | .started p job => if p = q then some job else none
  | _ => none

/-- The jobs that the queue has taken in, the latest first. -/
def taken (q : QueueId) (trace : List Event) : List Job := trace.filterMap (·.taken? q)

/-- The jobs that have left the queue to be run, the latest first. -/
def started (q : QueueId) (trace : List Event) : List Job := trace.filterMap (·.started? q)

/-- Whether the event tells of this queue. -/
def Event.isAt (q : QueueId) : Event → Bool
  | .built .. => true
  | .reserved p | .queued p _ _ | .started p _ => p == q
  | _ => false

/-- The second trace tells no more of the queue than the first. -/
structure Agree (q : QueueId) (trace trace' : List Event) : Prop where
  byHand : reservedByHand q trace' = reservedByHand q trace
  taken : taken q trace' = taken q trace
  started : started q trace' = started q trace
  dropped : ∀ job, .queued q job false ∈ trace' → .queued q job false ∈ trace

section
variable {q p : QueueId} {e : Event} {trace new : List Event}

theorem Event.isAt_of_not_isQueueing (h : e.isQueueing = false) : e.isAt q = false := by
  cases e <;> simp_all [isQueueing, isAt]

theorem Agree.refl (q : QueueId) (trace : List Event) : Agree q trace trace :=
  ⟨rfl, rfl, rfl, fun _ h => h⟩

theorem agree_cons (h : e.isAt q = false) : Agree q trace (e :: trace) := by
  constructor
  · cases e <;> simp_all [reservedByHand, Event.isAt]
  · cases e with
    | queued p job accepted => cases accepted <;> simp_all [taken, Event.taken?, Event.isAt]
    | _ => rfl
  · cases e <;> simp_all [started, Event.started?, Event.isAt]
  · intro job hmem
    rcases List.mem_cons.1 hmem with rfl | hmem
    · simp [Event.isAt] at h
    · exact hmem

theorem Agree.trans {trace' trace'' : List Event} (h : Agree q trace trace')
    (h' : Agree q trace' trace'') : Agree q trace trace'' where
  byHand := h'.byHand.trans h.byHand
  taken := h'.taken.trans h.taken
  started := h'.started.trans h.started
  dropped job hmem := h.dropped job (h'.dropped job hmem)

theorem agree_append (hnew : ∀ e ∈ new, e.isAt q = false) : Agree q trace (new ++ trace) := by
  induction new with
  | nil => exact .refl q trace
  | cons e new ih =>
    obtain ⟨he, hnew⟩ := List.forall_mem_cons.1 hnew
    exact (ih hnew).trans (agree_cons he)

/-- What is reserved for an arbiter is not reserved by hand. -/
theorem agree_build (a : ArbiterId) : Agree q trace (.built a p :: .reserved p :: trace) where
  byHand := rfl
  taken := rfl
  started := rfl
  dropped job hmem := by simpa using hmem

end

/-! ## Room for all -/

namespace Job

def arbiter? : Job → Option ArbiterId
  | .pass a => some a
  | .task _ => none

def isTask : Job → Bool
  | .task _ => true
  | .pass _ => false

end Job

/-- The number of tasks that wait. -/
def WorkQueue.tasks (q : WorkQueue) : Nat := q.entries.countP Job.isTask

theorem length_eq_tasks_add_passes (jobs : List Job) :
    jobs.length = jobs.countP Job.isTask + (jobs.filterMap Job.arbiter?).length := by
  induction jobs with
  | nil => rfl
  | cons job jobs ih =>
    cases job with
    | pass a =>
      rw [List.countP_cons_of_neg (by simp [Job.isTask]),
        List.filterMap_cons_some (f := Job.arbiter?) (b := a) rfl, List.length_cons,
        List.length_cons, ih, Nat.add_assoc]
    | task j =>
      rw [List.countP_cons_of_pos rfl, List.filterMap_cons_none rfl, List.length_cons, ih,
        Nat.add_right_comm]

theorem count_arbiter (jobs : List Job) (a : ArbiterId) :
    (jobs.filterMap Job.arbiter?).count a = jobs.count (.pass a) := by
  rw [List.count_filterMap, List.count]
  congr
  funext job
  cases job <;> simp [Job.arbiter?]

/-- Different arbiters of one queue are no more than were built on it. -/
theorem length_le_count_homes {homes : List QueueId} {q : QueueId} {arbiters : List ArbiterId}
    (hnodup : arbiters.Nodup) (h : ∀ a ∈ arbiters, homes[a]? = some q) :
    arbiters.length ≤ homes.count q := by
  have hsub : arbiters ⊆ (List.range homes.length).filter fun a => homes[a]? == some q := by
    intro a ha
    have hlt := (List.getElem?_eq_some_iff.1 (h a ha)).1
    exact List.mem_filter.2 ⟨List.mem_range.2 hlt, by simp only [h a ha, beq_self_eq_true]⟩
  have hhomes : homes.map some = (List.range homes.length).map fun a => homes[a]? := by
    apply List.ext_getElem <;> simp
  have hcount : homes.count q =
      ((List.range homes.length).filter fun a => homes[a]? == some q).length := by
    calc homes.count q = (homes.map some).countP (· == some q) := by
          rw [List.countP_map]
          rfl
      _ = _ := by
          rw [hhomes, List.countP_map, List.countP_eq_length_filter]
          rfl
  rw [hcount]
  exact (List.subperm_of_subset hnodup hsub).length_le

namespace Machine

variable {m m' : Machine} {q : QueueId} {a : ArbiterId} {size : Nat} {new : List Event}

/-- No pass is run or queued by hand, and every task queued by hand has an entry that was reserved
by hand. -/
def Reserving (q : QueueId) (m : Machine) : Prop :=
  m.forced? = none ∧
    ∀ p ∈ m.handed?, p.1 = q → (m.world.queue q).tasks < reservedByHand q m.trace

instance : DecidablePred (Reserving q) := fun m =>
  inferInstanceAs (Decidable (m.forced? = none ∧
    ∀ p ∈ m.handed?, p.1 = q → (m.world.queue q).tasks < reservedByHand q m.trace))

/-- Only passes of arbiters of the queue wait in it. -/
def Homed (m : Machine) : Prop :=
  ∀ q a, .pass a ∈ (m.world.queue q).entries →
    a < m.world.arbiters.length ∧ (m.books a).queue = q

/-- The job that is just starting, and those that wait in the queue. -/
def jobs (m : Machine) (q : QueueId) : List Job := m.job?.toList ++ (m.world.queue q).entries

theorem count_jobs (h : m.job? ≠ some (.pass a)) :
    (m.jobs q).count (.pass a) = (m.world.queue q).entries.count (.pass a) := by
  rw [jobs, List.count_append]
  cases hjob : m.job? with
  | none => simp
  | some job =>
    have hne : job ≠ .pass a := by
      rintro rfl
      exact h hjob
    simp [hne]

theorem jobs_of_none (h : m.job? = none) : m.jobs q = (m.world.queue q).entries := by
  simp [jobs, h]

/-- An arbiter's pass is queued, or is just starting, while its flag is set, and only once. -/
def Matched (q : QueueId) (m : Machine) : Prop :=
  ∀ a, a < m.world.arbiters.length → (m.books a).queue = q →
    (m.jobs q).count (.pass a) = (m.books a).queued.toNat

/-- The queue has kept to what is reserved on it. -/
structure Orderly (q : QueueId) (size : Nat) (m : Machine) : Prop where
  bound : (m.world.queue q).bound = some size
  reserved : (m.world.queue q).reserved = m.world.homes.count q + reservedByHand q m.trace
  reserved_le : (m.world.queue q).reserved ≤ size
  tasks : (m.world.queue q).tasks ≤ reservedByHand q m.trace
  passes : m.Matched q
  accepted : ∀ job, .queued q job false ∉ m.trace
  order : taken q m.trace = (m.world.queue q).entries.reverse ++ started q m.trace

theorem homes_getElem? (h : a < m.world.arbiters.length) :
    m.world.homes[a]? = some (m.books a).queue := by
  simp [World.homes, books, World.arbiter, h]

section
variable (hm : m.Orderly q size) (hhomed : m.Homed)
include hm hhomed

/-- The passes that wait are of different arbiters of the queue, whose flags are set. -/
theorem Orderly.arbiters (hnow : m.job? = none) :
    ((m.world.queue q).entries.filterMap Job.arbiter?).Nodup ∧
      ∀ a ∈ (m.world.queue q).entries.filterMap Job.arbiter?,
        m.world.homes[a]? = some q ∧ (m.books a).queued = true := by
  have hcount : ∀ a, .pass a ∈ (m.world.queue q).entries →
      (m.world.queue q).entries.count (.pass a) = (m.books a).queued.toNat := by
    intro a ha
    obtain ⟨hlt, hhome⟩ := hhomed q a ha
    rw [← count_jobs (by simp [hnow]), hm.passes a hlt hhome]
  have hmem : ∀ a ∈ (m.world.queue q).entries.filterMap Job.arbiter?,
      .pass a ∈ (m.world.queue q).entries := by
    intro a ha
    rw [← List.count_pos_iff, count_arbiter] at ha
    exact List.count_pos_iff.1 ha
  refine ⟨List.nodup_iff_count_le_one.2 fun a => ?_, fun a ha => ?_⟩
  · rw [count_arbiter]
    by_cases ha : .pass a ∈ (m.world.queue q).entries
    · rw [hcount a ha]
      exact Bool.toNat_le _
    · simp [List.count_eq_zero.2 ha]
  · obtain ⟨hlt, hhome⟩ := hhomed q a (hmem a ha)
    refine ⟨by rw [homes_getElem? hlt, hhome], ?_⟩
    have hpos := List.count_pos_iff.2 (hmem a ha)
    rw [hcount a (hmem a ha)] at hpos
    cases hqueued : (m.books a).queued with
    | true => rfl
    | false => simp [hqueued] at hpos

/-- A task that keeps to the entries reserved by hand finds room. -/
theorem Orderly.hasRoom_of_tasks (hnow : m.job? = none)
    (htasks : (m.world.queue q).tasks < reservedByHand q m.trace) :
    (m.world.queue q).hasRoom = true := by
  obtain ⟨hnodup, harbiters⟩ := hm.arbiters hhomed hnow
  have hpasses := length_le_count_homes hnodup fun a ha => (harbiters a ha).1
  have hlength := length_eq_tasks_add_passes (m.world.queue q).entries
  have hreserved := hm.reserved
  have hle := hm.reserved_le
  rw [WorkQueue.hasRoom_of_bound hm.bound]
  unfold WorkQueue.tasks at htasks
  omega

/-- A pass that is not queued yet finds room. -/
theorem Orderly.hasRoom_of_pass (hnow : m.job? = none) (hlt : a < m.world.arbiters.length)
    (hhome : (m.books a).queue = q) (hqueued : (m.books a).queued = false) :
    (m.world.queue q).hasRoom = true := by
  obtain ⟨hnodup, harbiters⟩ := hm.arbiters hhomed hnow
  have hnew : a ∉ (m.world.queue q).entries.filterMap Job.arbiter? := by
    intro ha
    cases hqueued.symm.trans (harbiters a ha).2
  have hpasses : (a :: (m.world.queue q).entries.filterMap Job.arbiter?).length ≤
      m.world.homes.count q := by
    refine length_le_count_homes (List.nodup_cons.2 ⟨hnew, hnodup⟩) fun b hb => ?_
    rcases List.mem_cons.1 hb with rfl | hb
    · rw [homes_getElem? hlt, hhome]
    · exact (harbiters b hb).1
  have hlength := length_eq_tasks_add_passes (m.world.queue q).entries
  have htasks := hm.tasks
  have hreserved := hm.reserved
  have hle := hm.reserved_le
  rw [WorkQueue.hasRoom_of_bound hm.bound]
  unfold WorkQueue.tasks at htasks
  rw [List.length_cons] at hpasses
  omega

end

/-- The queue does not notice the step. -/
theorem Orderly.frame (hm : m.Orderly q size) (hagree : Agree q m.trace m'.trace)
    (hqueue : m'.world.queue q = m.world.queue q)
    (hhomes : m'.world.homes.count q = m.world.homes.count q) (hpasses : m'.Matched q) :
    m'.Orderly q size where
  bound := hqueue ▸ hm.bound
  reserved := by rw [hqueue, hhomes, hagree.byHand, hm.reserved]
  reserved_le := hqueue ▸ hm.reserved_le
  tasks := by
    rw [hqueue, hagree.byHand]
    exact hm.tasks
  passes := hpasses
  accepted job hmem := hm.accepted job (hagree.dropped job hmem)
  order := by rw [hqueue, hagree.taken, hagree.started, hm.order]

/-- One more entry is reserved, for an arbiter or by hand. -/
theorem Orderly.reserve {queue : WorkQueue} (hm : m.Orderly q size)
    (hreserve : (m.world.queue q).reserve? = some queue) (hqueue : m'.world.queue q = queue)
    (hcount : m'.world.homes.count q + reservedByHand q m'.trace =
      m.world.homes.count q + reservedByHand q m.trace + 1)
    (hbyHand : reservedByHand q m.trace ≤ reservedByHand q m'.trace)
    (htaken : taken q m'.trace = taken q m.trace)
    (hstarted : started q m'.trace = started q m.trace)
    (haccepted : ∀ job, .queued q job false ∈ m'.trace → .queued q job false ∈ m.trace)
    (hpasses : m'.Matched q) : m'.Orderly q size := by
  obtain ⟨hentries, hbound, hreserved⟩ := WorkQueue.reserve?_eq_some hreserve
  obtain ⟨hone, hle⟩ := hreserved size hm.bound
  subst hqueue
  constructor
  · rw [hbound, hm.bound]
  · rw [hone, hm.reserved, hcount]
  · exact hle
  · rw [WorkQueue.tasks, hentries]
    exact Nat.le_trans hm.tasks hbyHand
  · exact hpasses
  · exact fun job hmem => hm.accepted job (haccepted job hmem)
  · rw [htaken, hstarted, hentries, hm.order]

/-- What is reserved with the building of an arbiter is for its pass. -/
theorem Orderly.built {queue : WorkQueue} (hm : m.Orderly q size)
    (hreserve : (m.world.queue q).reserve? = some queue) (hqueue : m'.world.queue q = queue)
    (hhomes : m'.world.homes = m.world.homes ++ [q]) (hagree : Agree q m.trace m'.trace)
    (hpasses : m'.Matched q) : m'.Orderly q size := by
  refine hm.reserve hreserve hqueue ?_ (Nat.le_of_eq hagree.byHand.symm) hagree.taken
    hagree.started hagree.dropped hpasses
  rw [hhomes, hagree.byHand, List.count_append, List.count_singleton_self]
  omega

theorem Orderly.reserved_by_hand {queue : WorkQueue} (hm : m.Orderly q size)
    (hreserve : (m.world.queue q).reserve? = some queue) (hqueue : m'.world.queue q = queue)
    (hhomes : m'.world.homes = m.world.homes) (htrace : m'.trace = .reserved q :: m.trace)
    (hpasses : m'.Matched q) : m'.Orderly q size := by
  have hbyHand : reservedByHand q m'.trace = reservedByHand q m.trace + 1 := by
    rw [htrace]
    simp [reservedByHand, Nat.add_comm]
  refine hm.reserve hreserve hqueue (by rw [hhomes, hbyHand, Nat.add_assoc])
    (hbyHand ▸ Nat.le_succ _) ?_ ?_ ?_ hpasses
  · simp [htrace, taken, Event.taken?]
  · simp [htrace, started, Event.started?]
  · simp [htrace]

/-- A job that finds room is queued behind all others. -/
theorem Orderly.push {job : Job} {trace : List Event} (hm : m.Orderly q size)
    (hroom : (m.world.queue q).hasRoom = true)
    (hqueue : m'.world.queue q = (m.world.queue q).push job)
    (hhomes : m'.world.homes.count q = m.world.homes.count q)
    (hbefore : Agree q m.trace trace)
    (hafter : Agree q (.queued q job (m.world.queue q).hasRoom :: trace) m'.trace)
    (htasks : ((m.world.queue q).push job).tasks ≤ reservedByHand q m.trace)
    (hpasses : m'.Matched q) : m'.Orderly q size := by
  have hbyHand : reservedByHand q m'.trace = reservedByHand q m.trace :=
    hafter.byHand.trans hbefore.byHand
  rw [hroom] at hafter
  constructor
  · rw [hqueue, WorkQueue.bound_push, hm.bound]
  · rw [hqueue, WorkQueue.reserved_push, hm.reserved, hhomes, hbyHand]
  · rw [hqueue, WorkQueue.reserved_push]
    exact hm.reserved_le
  · rw [hqueue, hbyHand]
    exact htasks
  · exact hpasses
  · intro other hmem
    have hmem := hafter.dropped other hmem
    exact hm.accepted other (hbefore.dropped other (by simpa using hmem))
  · have htaken : taken q (.queued q job true :: trace) = job :: taken q trace := by
      simp [taken, Event.taken?]
    have hstarted : started q (.queued q job true :: trace) = started q trace := by
      simp [started, Event.started?]
    rw [hafter.taken, hafter.started, htaken, hstarted, hbefore.taken, hbefore.started, hm.order,
      hqueue, WorkQueue.push_of_hasRoom hroom]
    simp

/-- The oldest job leaves the queue. -/
theorem Orderly.start {job : Job} {queue : WorkQueue} (hm : m.Orderly q size)
    (hpop : (m.world.queue q).pop? = some (job, queue)) (hqueue : m'.world.queue q = queue)
    (hhomes : m'.world.homes.count q = m.world.homes.count q)
    (htrace : m'.trace = .started q job :: m.trace) (hpasses : m'.Matched q) :
    m'.Orderly q size := by
  obtain ⟨hentries, hrest⟩ := WorkQueue.pop?_eq_some.1 hpop
  subst hqueue
  have hbound : (m'.world.queue q).bound = (m.world.queue q).bound := by rw [hrest]
  have hreserved : (m'.world.queue q).reserved = (m.world.queue q).reserved := by rw [hrest]
  have hbyHand : reservedByHand q m'.trace = reservedByHand q m.trace := by
    rw [htrace]
    rfl
  constructor
  · rw [hbound, hm.bound]
  · rw [hreserved, hhomes, hbyHand, hm.reserved]
  · rw [hreserved]
    exact hm.reserved_le
  · have htasks := hm.tasks
    unfold WorkQueue.tasks at htasks
    rw [hentries] at htasks
    rw [hbyHand]
    exact Nat.le_trans (List.sublist_cons_self _ _).countP_le htasks
  · exact hpasses
  · intro other hmem
    rw [htrace] at hmem
    exact hm.accepted other (by simpa using hmem)
  · have hstarted : started q m'.trace = job :: started q m.trace := by
      simp [htrace, started, Event.started?]
    have htaken : taken q m'.trace = taken q m.trace := by
      simp [htrace, taken, Event.taken?]
    rw [htaken, hstarted, hm.order, hentries]
    simp

end Machine

end SharedBus
