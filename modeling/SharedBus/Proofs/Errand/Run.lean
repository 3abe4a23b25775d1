import SharedBus.Proofs.Errand.Step
import SharedBus.Proofs.WorkQueue

/-! # Runs errand by errand

No arbiter and no queue ever disappears, and a job that waits goes on waiting until it is run.
-/
namespace SharedBus

namespace World

variable {w w' : World} {p q : QueueId} {queue : WorkQueue}

theorem queue_of_set_ne (h : w'.queues = w.queues.set p queue) (hne : q ≠ p) :
    w'.queue q = w.queue q := by
  simp only [World.queue, h, List.getD_eq_getElem?_getD, List.getElem?_set_ne hne.symm]

theorem queue_of_set_self (h : w'.queues = w.queues.set q queue) (hq : q < w.queues.length) :
    w'.queue q = queue := by
  simp [World.queue, h, hq]

/-- A queue reads as what was written to it, and every other one as before. -/
theorem queue_of_set_cases (h : w'.queues = w.queues.set p queue) (q : QueueId) :
    w'.queue q = w.queue q ∨ q = p ∧ w'.queue q = queue := by
  by_cases hq : q = p
  · subst hq
    rcases Nat.lt_or_ge q w.queues.length with hlt | hge
    · exact .inr ⟨rfl, queue_of_set_self h hlt⟩
    · rw [List.set_eq_of_length_le hge] at h
      exact .inl (by simp only [World.queue, h])
  · exact .inl (queue_of_set_ne h hq)

/-- What the write leaves alone on the queue that it is made to, it leaves alone everywhere. -/
theorem count_entries_of_set {job : Job} (h : w'.queues = w.queues.set p queue)
    (hcount : queue.entries.count job = (w.queue p).entries.count job) (q : QueueId) :
    (w'.queue q).entries.count job = (w.queue q).entries.count job := by
  rcases queue_of_set_cases h q with hsame | ⟨rfl, hwritten⟩
  · rw [hsame]
  · rw [hwritten, hcount]

theorem lt_length_of_bound {size : Nat} (h : (w.queue q).bound = some size) :
    q < w.queues.length := by
  rcases Nat.lt_or_ge q w.queues.length with hlt | hge
  · exact hlt
  · have hnone : w.queue q = default := by simp [queue, hge]
    rw [hnone] at h
    cases h

theorem queue_of_queues (h : w'.queues = w.queues) (q : QueueId) : w'.queue q = w.queue q := by
  simp only [World.queue, h]

end World

namespace Machine

variable {m m' : Machine} {new : List Event} {P : Machine → Prop}

theorem control_of_job? {job : Job} (h : m.job? = some job) : m.control = .call (.job job) := by
  unfold job? at h
  split at h
  · rename_i call hcall
    cases call with
    | job other =>
      obtain rfl := Option.some.inj h
      exact hcall
    | _ => cases h
  · cases h

/-- All that a run does is an errand. -/
theorem Goes.errand (h : Goes m m') : ∃ new, Errand m m' new ∧ m'.trace = new ++ m.trace := by
  cases h with
  | act hfin action =>
    obtain ⟨⟨reply, hback⟩, hstack⟩ := isFinished_iff.1 hfin
    refine ⟨[], ⟨.none rfl rfl (List.forall_mem_nil _) ?_ rfl, .none rfl ?_ rfl ?_⟩, rfl⟩
    · simp [job?_of_back hback]
    · exact install?_of_back hback
    · intro f hf
      cases hf
  | step hfin =>
    cases hcontrol : m.control with
    | call call =>
      rw [step_of_call hcontrol]
      exact ⟨_, errand_call hcontrol, trace_follow ..⟩
    | back reply =>
      cases hstack : m.stack with
      | nil => simp [isFinished, reply?, hcontrol, hstack] at hfin
      | cons f rest =>
        rw [step_of_back hcontrol hstack]
        exact ⟨_, errand_back hcontrol hstack, trace_follow ..⟩

end Machine

open Machine

/-! ## What no step takes away -/

section
variable {m m' : Machine} {new : List Event} (h : Chore m m' new)
include h

theorem Chore.length_queues : m'.world.queues.length = m.world.queues.length := by
  cases h with
  | none _ hqueues | clear _ hqueues | run _ _ hqueues => rw [hqueues]
  | build _ _ _ hqueues | reserve _ _ _ hqueues | enqueue _ _ hqueues | force _ _ hqueues
  | schedule _ _ _ _ hqueues | start _ _ hqueues => rw [hqueues, List.length_set]

/-- Arbiters stay where they are built, each with its queue. -/
theorem Chore.homes : ∃ built, m'.world.homes = m.world.homes ++ built ∧
    ∀ q ∈ built, q < m.world.queues.length ∧ (m.world.queue q).bound ≠ some 0 := by
  have hsame : m'.world.homes = m.world.homes → ∃ built, m'.world.homes = m.world.homes ++ built ∧
      ∀ q ∈ built, q < m.world.queues.length ∧ (m.world.queue q).bound ≠ some 0 :=
    fun hhomes => ⟨[], by simp [hhomes], List.forall_mem_nil _⟩
  cases h with
  | build hq hreserve hposts =>
    refine ⟨[_], ?_, List.forall_mem_singleton.2 ⟨hq,
      WorkQueue.bound_ne_zero_of_reserve? hreserve⟩⟩
    rw [World.homes_eq, World.homes_eq, hposts, List.map_append]
    rfl
  | schedule _ hhome _ hposts => exact hsame (World.homes_of_posts_set (hhome ▸ hposts))
  | clear hposts => exact hsame (World.homes_of_posts_set hposts)
  | none hposts | reserve _ _ hposts | enqueue _ hposts | force _ hposts | start _ hposts
  | run _ hposts => exact hsame (World.homes_of_posts hposts)

/-- A job that waits goes on waiting, or it is run next. -/
theorem Chore.kept {q : QueueId} {job : Job} (hjob : job ∈ (m.world.queue q).entries) :
    job ∈ (m'.world.queue q).entries ∨ m'.job? = some job := by
  have hset : ∀ {p : QueueId} {queue : WorkQueue}, m'.world.queues = m.world.queues.set p queue →
      (q = p → job ∈ queue.entries ∨ m'.job? = some job) →
        job ∈ (m'.world.queue q).entries ∨ m'.job? = some job := by
    intro p queue hqueues hkept
    rcases World.queue_of_set_cases hqueues q with hsame | ⟨hq, hwritten⟩
    · exact .inl (hsame ▸ hjob)
    · exact hwritten ▸ hkept hq
  cases h with
  | none _ hqueues | clear _ hqueues | run _ _ hqueues =>
    exact .inl (World.queue_of_queues hqueues q ▸ hjob)
  | build _ hreserve _ hqueues | reserve _ hreserve _ hqueues =>
    refine hset hqueues fun hq => .inl ?_
    rw [(WorkQueue.reserve?_eq_some hreserve).1]
    exact hq ▸ hjob
  | enqueue _ _ hqueues | force _ _ hqueues | schedule _ _ _ _ hqueues =>
    exact hset hqueues fun hq => .inl (WorkQueue.mem_push (hq ▸ hjob))
  | start hpop _ hqueues _ hnext =>
    refine hset hqueues fun hq => ?_
    obtain ⟨hentries, _⟩ := WorkQueue.pop?_eq_some.1 hpop
    rw [hq, hentries] at hjob
    rcases List.mem_cons.1 hjob with rfl | hjob
    · exact .inr hnext
    · exact .inl hjob

/-- A job that was accepted waits. -/
theorem Chore.put {q : QueueId} {job : Job} (hq : q < m.world.queues.length)
    (hjob : .queued q job true ∈ new) : job ∈ (m'.world.queue q).entries := by
  have hpushed : ∀ {p : QueueId} {other : Job},
      m'.world.queues = m.world.queues.set p ((m.world.queue p).push other) →
      Event.queued q job true = .queued p other (m.world.queue p).hasRoom →
        job ∈ (m'.world.queue q).entries := by
    intro p other hqueues heq
    obtain ⟨rfl, rfl, hroom⟩ := Event.queued.inj heq
    rw [World.queue_of_set_self hqueues hq]
    exact WorkQueue.mem_push_self hroom.symm
  cases h with
  | none _ _ hnew => cases hnew _ hjob
  | build | reserve | start | clear | run => simp at hjob
  | enqueue _ _ hqueues | force _ _ hqueues =>
    exact hpushed hqueues (List.mem_singleton.1 hjob)
  | schedule _ _ _ _ hqueues hafter hbefore =>
    rcases List.mem_append.1 hjob with hjob | hjob
    · cases hafter _ hjob
    · rcases List.mem_cons.1 hjob with heq | hjob
      · exact hpushed hqueues heq
      · cases hbefore _ hjob

end

namespace Machine

variable {m m' : Machine} {new : List Event} {P : Machine → Prop}

theorem Goes.length_le (h : Goes m m') : m.world.arbiters.length ≤ m'.world.arbiters.length := by
  obtain ⟨_, herrand, _⟩ := h.errand
  obtain ⟨built, hhomes, _⟩ := herrand.chore.homes
  have hlength := congrArg List.length hhomes
  simp only [World.homes, List.length_append, List.length_map] at hlength
  omega

theorem Goes.length_queues (h : Goes m m') :
    m'.world.queues.length = m.world.queues.length := by
  obtain ⟨_, herrand, _⟩ := h.errand
  exact herrand.chore.length_queues

theorem Goes.kept (h : Goes m m') {q : QueueId} {job : Job}
    (hjob : job ∈ (m.world.queue q).entries) :
    job ∈ (m'.world.queue q).entries ∨ m'.control = .call (.job job) := by
  obtain ⟨_, herrand, _⟩ := h.errand
  exact (herrand.chore.kept hjob).imp_right control_of_job?

theorem Goes.put (h : Goes m m') (htrace : m'.trace = new ++ m.trace) {q : QueueId} {job : Job}
    (hq : q < m.world.queues.length) (hjob : .queued q job true ∈ new) :
    job ∈ (m'.world.queue q).entries := by
  obtain ⟨_, herrand, hnew⟩ := h.errand
  obtain rfl := List.append_cancel_right (htrace.symm.trans hnew)
  exact herrand.chore.put hq hjob

/-- Every arbiter has been built on a queue that is there. -/
def Housed (m : Machine) : Prop := ∀ q ∈ m.world.homes, q < m.world.queues.length

theorem Reachable.housed (h : Reachable P m) : m.Housed := by
  refine h.induction (fun w hw q hq => ?_) fun m m' _ _ hgoes ih => ?_
  · simp [rest, World.homes, hw.arbiters] at hq
  · obtain ⟨_, herrand, _⟩ := hgoes.errand
    obtain ⟨built, hhomes, hbuilt⟩ := herrand.chore.homes
    intro q hq
    rw [hgoes.length_queues]
    rw [hhomes] at hq
    exact (List.mem_append.1 hq).elim (ih q) fun hq => (hbuilt q hq).1

theorem mem_homes (ha : a < m.world.arbiters.length) : (m.books a).queue ∈ m.world.homes := by
  simpa [World.homes, books, World.arbiter, ha] using
    List.mem_map_of_mem (f := (·.queue)) (List.getElem_mem ha)

theorem Reachable.lt_length_queues (h : Reachable P m) (ha : a < m.world.arbiters.length) :
    (m.books a).queue < m.world.queues.length := h.housed _ (mem_homes ha)

end Machine

end SharedBus
