import SharedBus.Proofs.Orderly

/-! # Reserved passes are never dropped

Each step leaves an orderly queue orderly, since room is found for every pass and for every task
that an entry was reserved for.
-/
namespace SharedBus

open Machine

/-! ## Steps -/

/-- Whoever schedules a pass is there. -/
theorem Machine.lt_length_of_there {m : Machine} {a : ArbiterId} (hplaced : m.Placed a)
    (hthere : a < m.world.arbiters.length ∨
      ∃ f rest, m.stack = f :: rest ∧ f.isOf a = true ∧ f ≠ .idle a) :
    a < m.world.arbiters.length := by
  rcases hthere with hlt | ⟨f, rest, hstack, hof, hidle⟩
  · exact hlt
  · exact lt_length_of_placed hplaced hstack hof hidle

/-- When a job starts, it is still counted among the jobs of the queue that it has left. -/
theorem Machine.Homed.count_jobs_start {m m' : Machine} {q p : QueueId} {job : Job}
    {queue : WorkQueue} {a : ArbiterId} (hm : m.Homed) (hq : q < m.world.queues.length)
    (hpop : (m.world.queue p).pop? = some (job, queue))
    (hqueues : m'.world.queues = m.world.queues.set p queue) (hnow : m.job? = none)
    (hnext : m'.job? = some job) (hhome : (m.books a).queue = q) :
    (m'.jobs q).count (.pass a) = (m.jobs q).count (.pass a) := by
  obtain ⟨hentries, _⟩ := WorkQueue.pop?_eq_some.1 hpop
  by_cases hp : q = p
  · subst hp
    rw [jobs_of_none hnow, hentries, jobs, hnext, World.queue_of_set_self hqueues hq]
    rfl
  · -- a pass that starts from another queue is none of an arbiter of this one
    have hother : m'.job? ≠ some (.pass a) := by
      rw [hnext]
      rintro heq
      obtain rfl := Option.some.inj heq
      exact hp (hhome.symm.trans (hm p a (hentries ▸ List.mem_cons_self)).2)
    rw [count_jobs hother, jobs_of_none hnow, World.queue_of_set_ne hqueues hp]

/-- What becomes of the pass of an arbiter that waits or is just starting, and of its flag. -/
inductive Machine.Posting (q : QueueId) (a : ArbiterId) (m m' : Machine) : Prop
  | same (ha : a < m.world.arbiters.length)
    (hcount : (m'.jobs q).count (.pass a) = (m.jobs q).count (.pass a))
    (hqueued : (m'.books a).queued = (m.books a).queued)
  | built (hcount : (m'.jobs q).count (.pass a) = 0) (hqueued : (m'.books a).queued = false)
  /-- A full queue drops the pass that is handed to it. -/
  | scheduled (ha : a < m.world.arbiters.length) (hhome : (m.books a).queue = q)
    (hnow : m.job? = none) (hbefore : (m.books a).queued = false)
    (hafter : (m'.books a).queued = true)
    (hcount : (m'.jobs q).count (.pass a) =
      (m.jobs q).count (.pass a) + (m.world.queue q).hasRoom.toNat)
  | started (ha : a < m.world.arbiters.length)
    (hcount : (m.jobs q).count (.pass a) = (m'.jobs q).count (.pass a) + 1)
    (hqueued : (m'.books a).queued = false)

section
variable {m m' : Machine} {new : List Event} {q : QueueId} {size : Nat} (h : Chore m m' new)
include h

/-- Arbiters stay on the queue that they were built on. -/
theorem Chore.home {a : ArbiterId} (ha : a < m.world.arbiters.length) :
    a < m'.world.arbiters.length ∧ (m'.books a).queue = (m.books a).queue := by
  obtain ⟨built, hhomes, _⟩ := h.homes
  have hhome : m'.world.homes[a]? = some (m.books a).queue := by
    rw [hhomes, List.getElem?_append_left (by simpa [World.homes] using ha), homes_getElem? ha]
  have ha' : a < m'.world.arbiters.length := by
    simpa [World.homes] using (List.getElem?_eq_some_iff.1 hhome).1
  exact ⟨ha', Option.some.inj ((homes_getElem? ha').symm.trans hhome)⟩

/-- Without passes queued by hand every pass is queued at home. -/
theorem Chore.homed (hforced : m.forced? = Option.none) (hplaced : ∀ a, m.Placed a) (hm : m.Homed) :
    m'.Homed := by
  have hold : ∀ {p a}, .pass a ∈ (m.world.queue p).entries →
      a < m'.world.arbiters.length ∧ (m'.books a).queue = p := by
    intro p a hmem
    obtain ⟨ha, hhome⟩ := hm p a hmem
    exact ⟨(h.home ha).1, (h.home ha).2.trans hhome⟩
  have hstays := fun a => h.home (a := a)
  have hset : ∀ {p p' a queue}, m'.world.queues = m.world.queues.set p' queue →
      (p = p' → .pass a ∈ queue.entries → a < m'.world.arbiters.length ∧ (m'.books a).queue = p) →
        .pass a ∈ (m'.world.queue p).entries →
          a < m'.world.arbiters.length ∧ (m'.books a).queue = p := by
    intro p p' a queue hqueues hwritten hmem
    rcases World.queue_of_set_cases hqueues p with hsame | ⟨hp, hqueue⟩
    · exact hold (hsame ▸ hmem)
    · exact hwritten hp (hqueue ▸ hmem)
  intro p a hmem
  cases h with
  | none _ hqueues | clear _ hqueues =>
    rw [World.queue_of_queues hqueues] at hmem
    exact hold hmem
  | build _ hreserve _ hqueues | reserve _ hreserve _ hqueues =>
    refine hset hqueues (fun hp hwritten => ?_) hmem
    rw [(WorkQueue.reserve?_eq_some hreserve).1, ← hp] at hwritten
    exact hold hwritten
  | enqueue _ _ hqueues =>
    refine hset hqueues (fun hp hwritten => ?_) hmem
    rcases WorkQueue.mem_push_cases hwritten with hwritten | heq
    · exact hold (hp ▸ hwritten)
    · cases heq
  | force hforced' | run hforced' => cases hforced.symm.trans hforced'
  | @schedule b _ _ _ hthere hq _ hposts hqueues =>
    refine hset hqueues (fun hp hwritten => ?_) hmem
    rcases WorkQueue.mem_push_cases hwritten with hwritten | heq
    · exact hold (hp ▸ hwritten)
    · cases heq
      have ha := lt_length_of_there (hplaced a) hthere
      exact ⟨(hstays a ha).1, (hstays a ha).2.trans (hq.symm.trans hp.symm)⟩
  | start hpop _ hqueues =>
    refine hset hqueues (fun hp hwritten => ?_) hmem
    refine hold ?_
    rw [hp, (WorkQueue.pop?_eq_some.1 hpop).1]
    exact List.mem_cons_of_mem _ hwritten

/-- A pass is queued when its flag is set, and the flag is cleared when the pass has left the
queue. -/
theorem Chore.posting {a : ArbiterId} (hforced : m.forced? = Option.none)
    (hq : q < m.world.queues.length) (hhomed : m.Homed) (ha' : a < m'.world.arbiters.length)
    (hhome' : (m'.books a).queue = q) : Posting q a m m' := by
  have hhome : a < m.world.arbiters.length → (m.books a).queue = q := fun ha =>
    (h.home ha).2.symm.trans hhome'
  have hsame : m'.world.posts = m.world.posts →
      (m'.jobs q).count (.pass a) = (m.jobs q).count (.pass a) → Posting q a m m' :=
    fun hposts hcount => .same (World.length_of_posts hposts ▸ ha') hcount
      (World.post_of_posts hposts a).2
  cases h with
  | none hposts hqueues _ hnow hnext =>
    refine hsame hposts ?_
    rw [count_jobs (hnow a), jobs_of_none hnext, World.queue_of_queues hqueues]
  | build _ hreserve hposts hqueues hnow hnext =>
    have hentries := (WorkQueue.reserve?_eq_some hreserve).1
    have hcount : (m'.jobs q).count (.pass a) = (m.jobs q).count (.pass a) := by
      rw [jobs_of_none hnow, jobs_of_none hnext,
        World.count_entries_of_set hqueues (by rw [hentries])]
    rcases Nat.lt_or_ge a m.world.arbiters.length with ha | hge
    · exact .same ha hcount (World.post_of_append_lt hposts ha).2
    · have hlength : m'.world.arbiters.length = m.world.arbiters.length + 1 := by
        rw [← World.length_posts, hposts, List.length_append, World.length_posts]
        rfl
      rw [hlength] at ha'
      obtain rfl := Nat.le_antisymm (Nat.le_of_lt_succ ha') hge
      refine .built ?_ (World.post_of_append_self hposts).2
      rw [hcount, jobs_of_none hnow]
      apply List.count_eq_zero.2
      exact fun hmem => Nat.lt_irrefl _ (hhomed q _ hmem).1
  | reserve _ hreserve hposts hqueues hnow hnext =>
    have hentries := (WorkQueue.reserve?_eq_some hreserve).1
    refine hsame hposts ?_
    rw [jobs_of_none hnow, jobs_of_none hnext,
      World.count_entries_of_set hqueues (by rw [hentries])]
  | enqueue _ hposts hqueues hnow hnext =>
    refine hsame hposts ?_
    rw [jobs_of_none hnow, jobs_of_none hnext,
      World.count_entries_of_set hqueues (WorkQueue.count_push_of_ne (by simp) _)]
  | force hforced' | run hforced' => cases hforced.symm.trans hforced'
  | @schedule b p _ _ _ _ hqueued hposts hqueues _ _ hnow hnext =>
    have ha : a < m.world.arbiters.length := World.length_of_posts_set hposts ▸ ha'
    by_cases hab : a = b
    · subst hab
      obtain ⟨hqueue, hset⟩ := World.post_of_set_self hposts ha
      obtain rfl : p = q := hqueue.symm.trans hhome'
      refine .scheduled ha (hhome ha) hnow hqueued hset ?_
      rw [jobs_of_none hnow, jobs_of_none hnext, World.queue_of_set_self hqueues hq,
        WorkQueue.count_push]
    · have hother : Job.pass b ≠ .pass a := fun heq => hab (Job.pass.inj heq).symm
      refine .same ha ?_ (World.post_of_set_ne hposts hab).2
      rw [jobs_of_none hnow, jobs_of_none hnext,
        World.count_entries_of_set hqueues (WorkQueue.count_push_of_ne hother _)]
  | start hpop hposts hqueues hnow hnext =>
    have ha := World.length_of_posts hposts ▸ ha'
    exact hsame hposts (hhomed.count_jobs_start hq hpop hqueues hnow hnext (hhome ha))
  | @clear b hposts hqueues hnow hnext =>
    have ha : a < m.world.arbiters.length := World.length_of_posts_set hposts ▸ ha'
    by_cases hab : a = b
    · subst hab
      refine .started ha ?_ (World.post_of_set_self hposts ha).2
      rw [jobs_of_none hnext, World.queue_of_queues hqueues, jobs, hnow, Option.toList_some,
        List.singleton_append, List.count_cons_self]
    · refine .same ha ?_ (World.post_of_set_ne hposts hab).2
      rw [jobs_of_none hnext, World.queue_of_queues hqueues,
        count_jobs (by simpa [hnow] using Ne.symm hab)]

theorem Chore.matched (hforced : m.forced? = Option.none) (hq : q < m.world.queues.length)
    (hhomed : m.Homed) (hm : m.Matched q)
    (hroom : ∀ a, m.job? = Option.none → a < m.world.arbiters.length → (m.books a).queue = q →
      (m.books a).queued = false → (m.world.queue q).hasRoom = true) : m'.Matched q := by
  intro a ha' hhome'
  have hhome : a < m.world.arbiters.length → (m.books a).queue = q := fun ha =>
    (h.home ha).2.symm.trans hhome'
  cases h.posting hforced hq hhomed ha' hhome' with
  | same ha hcount hqueued => rw [hcount, hqueued, hm a ha (hhome ha)]
  | built hcount hqueued => rw [hcount, hqueued, Bool.toNat_false]
  | scheduled ha _ hnow hbefore hafter hcount =>
    rw [hcount, hafter, hm a ha (hhome ha), hbefore, hroom a hnow ha (hhome ha) hbefore]
    rfl
  | started ha hcount hqueued =>
    have hold := hm a ha (hhome ha)
    have hle := Bool.toNat_le (m.books a).queued
    rw [hqueued, Bool.toNat_false]
    omega

/-- What is queued finds room, and what leaves the queue is the oldest. -/
theorem Chore.orderly (htrace : m'.trace = new ++ m.trace) (hm : m.Orderly q size)
    (hreserving : m.Reserving q) (hhomed : m.Homed) (hplaced : ∀ a, m.Placed a) :
    m'.Orderly q size := by
  have hq := World.lt_length_of_bound hm.bound
  have hpasses : m'.Matched q := h.matched hreserving.1 hq hhomed hm.passes
    fun a hnow ha hhome hqueued => hm.hasRoom_of_pass hhomed hnow ha hhome hqueued
  have hframe : m'.world.queue q = m.world.queue q → m'.world.homes = m.world.homes →
      (∀ e ∈ new, e.isAt q = false) → m'.Orderly q size := fun hqueue hhomes hnew =>
    hm.frame (htrace ▸ agree_append hnew) hqueue (by rw [hhomes]) hpasses
  cases h with
  | none hposts hqueues hnew =>
    exact hframe (World.queue_of_queues hqueues q) (World.homes_of_posts hposts)
      fun e he => Event.isAt_of_not_isQueueing (hnew e he)
  | clear hposts hqueues =>
    exact hframe (World.queue_of_queues hqueues q) (World.homes_of_posts_set hposts)
      (List.forall_mem_nil _)
  | force hforced | run hforced => cases hreserving.1.symm.trans hforced
  | @build p _ hthere hreserve hposts hqueues =>
    have hagree : Agree q m.trace m'.trace := htrace ▸ agree_build _
    have hhomes : m'.world.homes = m.world.homes ++ [p] := by
      rw [World.homes_eq, World.homes_eq, hposts, List.map_append]
      rfl
    by_cases hp : q = p
    · subst hp
      have hqueue := World.queue_of_set_self hqueues hthere
      exact hm.built hreserve hqueue hhomes hagree hpasses
    · refine hm.frame hagree (World.queue_of_set_ne hqueues hp) ?_ hpasses
      simp [hhomes, Ne.symm hp]
  | @reserve p _ hthere hreserve hposts hqueues =>
    have hhomes := World.homes_of_posts hposts
    by_cases hp : q = p
    · subst hp
      have hqueue := World.queue_of_set_self hqueues hthere
      exact hm.reserved_by_hand hreserve hqueue hhomes htrace hpasses
    · apply hframe (World.queue_of_set_ne hqueues hp) hhomes
      simp [Event.isAt, Ne.symm hp]
  | @enqueue p j hhanded hposts hqueues hnow =>
    have hhomes := World.homes_of_posts hposts
    by_cases hp : q = p
    · subst hp
      have htasks := hreserving.2 _ hhanded rfl
      have hroom := hm.hasRoom_of_tasks hhomed hnow htasks
      have hqueue := World.queue_of_set_self hqueues hq
      refine hm.push hroom hqueue (by rw [hhomes]) (.refl q m.trace) (htrace ▸ .refl q _) ?_ hpasses
      rw [WorkQueue.tasks, WorkQueue.push_of_hasRoom hroom, List.countP_append]
      exact htasks
    · apply hframe (World.queue_of_set_ne hqueues hp) hhomes
      simp [Event.isAt, Ne.symm hp]
  | @schedule a p before after hthere hhome hqueued hposts hqueues hafter hbefore hnow =>
    have hhomes := World.homes_of_posts_set (hhome ▸ hposts)
    by_cases hp : q = p
    · subst hp
      have ha := lt_length_of_there (hplaced a) hthere
      have hroom := hm.hasRoom_of_pass hhomed hnow ha hhome.symm hqueued
      have hqueue := World.queue_of_set_self hqueues hq
      rw [List.append_assoc, List.cons_append] at htrace
      have hquiet : ∀ e ∈ before, e.isAt q = false := fun e he =>
        Event.isAt_of_not_isQueueing (hbefore e he)
      refine hm.push hroom hqueue (by rw [hhomes]) (agree_append hquiet)
        (htrace ▸ agree_append fun e he => Event.isAt_of_not_isQueueing (hafter e he)) ?_ hpasses
      rw [WorkQueue.tasks, WorkQueue.push_of_hasRoom hroom, List.countP_append]
      exact hm.tasks
    · apply hframe (World.queue_of_set_ne hqueues hp) hhomes
      intro e he
      rcases List.mem_append.1 he with he | he
      · exact Event.isAt_of_not_isQueueing (hafter e he)
      · rcases List.mem_cons.1 he with rfl | he
        · simp [Event.isAt, Ne.symm hp]
        · exact Event.isAt_of_not_isQueueing (hbefore e he)
  | @start p job queue hpop hposts hqueues hnow hnext =>
    have hhomes := World.homes_of_posts hposts
    by_cases hp : q = p
    · subst hp
      have hqueue := World.queue_of_set_self hqueues hq
      exact hm.start hpop hqueue (by rw [hhomes]) htrace hpasses
    · apply hframe (World.queue_of_set_ne hqueues hp) hhomes
      simp [Event.isAt, Ne.symm hp]

/-- No queue ever changes its bound. -/
theorem Chore.bound : (m'.world.queue q).bound = (m.world.queue q).bound := by
  have hset : ∀ {p : QueueId} {queue : WorkQueue}, m'.world.queues = m.world.queues.set p queue →
      queue.bound = (m.world.queue p).bound →
        (m'.world.queue q).bound = (m.world.queue q).bound := by
    intro p queue hqueues hbound
    rcases World.queue_of_set_cases hqueues q with hsame | ⟨rfl, hwritten⟩
    · rw [hsame]
    · rw [hwritten, hbound]
  cases h with
  | none _ hqueues | clear _ hqueues | run _ _ hqueues => rw [World.queue_of_queues hqueues]
  | build _ hreserve _ hqueues | reserve _ hreserve _ hqueues =>
    exact hset hqueues (WorkQueue.reserve?_eq_some hreserve).2.1
  | enqueue _ _ hqueues | force _ _ hqueues | schedule _ _ _ _ hqueues =>
    exact hset hqueues (WorkQueue.bound_push ..)
  | start hpop _ hqueues => exact hset hqueues (by rw [(WorkQueue.pop?_eq_some.1 hpop).2])

end

/-! ## Main result -/

namespace Machine

variable {m : Machine} {q : QueueId} {size : Nat}

theorem orderly_rest {w : World} (hw : w.IsInitial) (hbound : (w.queue q).bound = some size) :
    (rest w).Orderly q size := by
  have hmem : w.queue q ∈ w.queues := by
    have hq := World.lt_length_of_bound hbound
    simp [World.queue, hq]
  obtain ⟨hentries, hreserved⟩ := hw.queues _ hmem
  constructor
  · exact hbound
  · simp [rest, hreserved, World.homes, hw.arbiters, reservedByHand]
  · simp [rest, hreserved]
  · simp [rest, WorkQueue.tasks, hentries]
  · intro a ha
    simp [rest, hw.arbiters] at ha
  · simp [rest]
  · simp [rest, hentries, taken, started]

theorem Reachable.homed_of {P : Machine → Prop} (hP : ∀ m, P m → m.forced? = none)
    (h : Reachable P m) : m.Homed := by
  refine h.induction (fun w hw p a hmem => ?_) fun m m' hm _ hgoes ih => ?_
  · rcases Nat.lt_or_ge p w.queues.length with hlt | hge
    · have hempty := (hw.queues (w.queue p) (by simp [World.queue, hlt])).1
      have hmem : .pass a ∈ (w.queue p).entries := hmem
      simp [hempty] at hmem
    · have hnone : w.queue p = default := by simp [World.queue, hge]
      have hmem : .pass a ∈ (w.queue p).entries := hmem
      rw [hnone] at hmem
      cases hmem
  · obtain ⟨_, herrand, _⟩ := hgoes.errand
    exact herrand.chore.homed (hP _ hm.holds) (fun _ => hm.placed) ih

/-- An arbiter's pass waits or is just starting at most once, and only while its flag is set. -/
def Flagged (m : Machine) : Prop := ∀ a, a < m.world.arbiters.length →
  (m.jobs (m.books a).queue).count (.pass a) ≤ (m.books a).queued.toNat

theorem Reachable.flagged {P : Machine → Prop} (hP : ∀ m, P m → m.forced? = none)
    (h : Reachable P m) : m.Flagged := by
  refine h.induction (fun w hw a ha => ?_) fun m m' hm hm' hgoes ih a ha' => ?_
  · simp [rest, hw.arbiters] at ha
  · obtain ⟨_, herrand, _⟩ := hgoes.errand
    have hq : (m'.books a).queue < m.world.queues.length :=
      hgoes.length_queues ▸ hm'.lt_length_queues ha'
    cases herrand.chore.posting (hP m hm.holds) hq (hm.homed_of hP) ha' rfl with
    | same ha hcount hqueued =>
      rw [hcount, hqueued, (herrand.chore.home ha).2]
      exact ih a ha
    | built hcount hqueued => simp [hcount]
    | scheduled ha hhome _ hbefore hafter hcount =>
      have hold := ih a ha
      rw [hhome, hbefore, Bool.toNat_false] at hold
      have hroom := Bool.toNat_le (m.world.queue (m'.books a).queue).hasRoom
      rw [hcount, hafter, Bool.toNat_true]
      omega
    | started ha hcount hqueued =>
      have hold := ih a ha
      have hle := Bool.toNat_le (m.books a).queued
      rw [← (herrand.chore.home ha).2] at hold
      rw [hqueued, Bool.toNat_false]
      omega

theorem Reachable.homed (h : Reachable (Reserving q) m) : m.Homed := h.homed_of fun _ hP => hP.1

theorem Reachable.orderly (h : Reachable (Reserving q) m)
    (hbound : (m.world.queue q).bound = some size) : m.Orderly q size := by
  revert hbound
  refine h.induction (I := fun m => (m.world.queue q).bound = some size → m.Orderly q size)
    (fun w hw => orderly_rest hw) fun m m' hm _ hgoes ih hbound => ?_
  obtain ⟨_, herrand, htrace⟩ := hgoes.errand
  rw [herrand.chore.bound] at hbound
  exact herrand.chore.orderly htrace (ih hbound) hm.holds hm.homed fun _ => hm.placed

/-- Where an arbiter was built, a pass can be queued. -/
theorem Reachable.bound_ne_zero {P : Machine → Prop} (h : Reachable P m) :
    ∀ q ∈ m.world.homes, (m.world.queue q).bound ≠ some 0 := by
  refine h.induction (I := fun m => ∀ q ∈ m.world.homes, (m.world.queue q).bound ≠ some 0)
    (fun w hw q hq => ?_) fun m m' _ _ hgoes ih q hq => ?_
  · simp [rest, World.homes, hw.arbiters] at hq
  · obtain ⟨_, herrand, _⟩ := hgoes.errand
    obtain ⟨built, hhomes, hbuilt⟩ := herrand.chore.homes
    rw [herrand.chore.bound]
    rw [hhomes] at hq
    exact (List.mem_append.1 hq).elim (ih q) fun hq => (hbuilt q hq).2

/-- Whatever is reserved on the queue is provided for. -/
structure Provided (q : QueueId) (size : Nat) (m : Machine) : Prop where
  /-- Every arbiter built on the queue has reserved one entry, and the others were reserved by
  hand. -/
  reserved : (m.world.queue q).reserved = m.world.homes.count q + reservedByHand q m.trace
  reserved_le : (m.world.queue q).reserved ≤ size
  accepted : ∀ job, .queued q job false ∉ m.trace
  single : ∀ a, (m.world.queue q).entries.count (.pass a) ≤ 1
  /-- A pass that is just starting has left the queue, and clears the flag next. -/
  queued : ∀ a, a < m.world.arbiters.length → (m.books a).queue = q → m.job? ≠ some (.pass a) →
    (.pass a ∈ (m.world.queue q).entries ↔ (m.books a).queued = true)
  /-- The jobs start in the order in which they were taken in, and those that have not started are
  those that wait. -/
  order : taken q m.trace = (m.world.queue q).entries.reverse ++ started q m.trace

/-- A bounded queue never reserves more than it has room for, and drops no job of anybody who keeps
to what is reserved. The pass of every arbiter waits in it once while its flag is set, and jobs
start in the order they came. -/
theorem reserved_passes_never_dropped (hm : Reachable (Reserving q) m)
    (hbound : (m.world.queue q).bound = some size) : m.Provided q size := by
  have horderly := hm.orderly hbound
  have hcount : ∀ a, a < m.world.arbiters.length → (m.books a).queue = q →
      (m.world.queue q).entries.count (.pass a) ≤ (m.books a).queued.toNat := by
    intro a ha hhome
    rw [← horderly.passes a ha hhome, jobs, List.count_append]
    exact Nat.le_add_left ..
  refine ⟨horderly.reserved, horderly.reserved_le, horderly.accepted, fun a => ?_,
    fun a ha hhome hjob => ?_, horderly.order⟩
  · by_cases hmem : .pass a ∈ (m.world.queue q).entries
    · obtain ⟨ha, hhome⟩ := hm.homed q a hmem
      exact Nat.le_trans (hcount a ha hhome) (Bool.toNat_le _)
    · simp [List.count_eq_zero.2 hmem]
  · have hpasses := horderly.passes a ha hhome
    rw [count_jobs hjob] at hpasses
    rw [← List.count_pos_iff, hpasses]
    cases (m.books a).queued <;> simp

end Machine

/-- A world where one arbiter and one task share a queue that has room for just both. -/
def World.shared : World where
  queues := [{ bound := some 2 }]
  consumers := [{}]
  clients := [{}]
  tasks := [[]]

theorem World.isInitial_shared : World.shared.IsInitial where
  arbiters := rfl
  queues := by simp [shared]
  clients := by simp [shared]
  notifiers := rfl
  deliveries := rfl

namespace Machine

/-- A queue that is full of what was reserved on it. -/
theorem reserved_passes_never_dropped_full :
    let m := play 40 [.build 0 0 (some 1), .reserve 0, .attach 0 0 ⟨7⟩ none none, .enqueue 0 0,
      .request 0 0] (rest .shared)
    (m.world.queue 0).entries = [.task 0, .pass 0] ∧ m.Provided 0 2 := by
  intro m
  have hm : Reachable (Reserving 0) m := .of_plays World.isInitial_shared 40 _ (by decide +kernel)
  exact ⟨by decide +kernel, reserved_passes_never_dropped hm (by decide +kernel)⟩

end Machine

end SharedBus
