import SharedBus.Proofs.Draining.Effort

/-! # Calls in which nobody acts

When no callback and no task performs an action, nothing is put into a queue, since no slot has asked
again when its turn is over. So a queue that is emptied runs just the jobs that it holds.
-/
namespace SharedBus

/-- No action is performed from within a callback, a task or a race. -/
def Silent (events : List Event) : Prop := ∀ name reply, .did name reply ∉ events

theorem Silent.of_append {events later : List Event} (h : Silent (events ++ later)) :
    Silent events ∧ Silent later :=
  ⟨fun name reply hmem => h name reply (List.mem_append_left _ hmem),
    fun name reply hmem => h name reply (List.mem_append_right _ hmem)⟩

/-- What happens in the first step has happened when the call has ended. -/
theorem Outcome.Ends.events {outcome : Outcome} {effect : Effect} (h : outcome.Ends effect) :
    ∃ later, effect.events = outcome.events ++ later := by
  cases h with
  | reply => exact ⟨[], (List.append_nil _).symm⟩
  | call => exact ⟨_, List.append_assoc ..⟩

/-! ## Callbacks -/

/-- A call that leaves the arbiters. -/
@[simp] def Call.isOutward : Call → Bool
  | .script _ | .race .. | .turn .. | .report .. => true
  | _ => false

namespace World

section
variable {w : World} {q : QueueId} {effect : Effect}

/-- A script in which nobody acts is empty. -/
theorem silent_script {actions : List Action} (h : (w.begin (.script actions)).Ends effect)
    (hsilent : Silent effect.events) : effect = ⟨w, .nothing, []⟩ := by
  cases actions with
  | nil =>
    cases h
    rfl
  | cons action rest =>
    cases h with
    | @call _ _ _ _ callee after _ hrest =>
      obtain ⟨later, hlater⟩ := hrest.events
      have hdid : .did action.name callee.reply ∈ after.events := by
        rw [hlater]
        cases rest <;> exact List.mem_append_left _ List.mem_cons_self
      exact absurd hdid (hsilent.of_append.2 _ _)

/-- Whoever calls a script and then replies has done nothing in between. -/
theorem silent_answer {actions : List Action} {waiting : Activation} {events : List Event}
    (hreply : ∀ (w : World) back, ∃ reply closing, w.resume back waiting = w.reply reply closing ∧
      started q closing = [])
    (h : (w.call (.script actions) waiting events).Ends effect) (hsilent : Silent effect.events) :
    effect.world = w ∧ started q effect.events = started q events := by
  cases h with
  | call hcallee hrest =>
    obtain ⟨hcalled, _⟩ := hsilent.of_append
    rw [silent_script hcallee hcalled.of_append.2] at hrest ⊢
    obtain ⟨reply, closing, hresume, hclosing⟩ := hreply w .nothing
    rw [hresume] at hrest
    cases hrest
    refine ⟨rfl, ?_⟩
    rw [started_append, started_append, hclosing]
    simp [started]

/-- A callback in which nobody acts leaves the arbiters and the queues alone. -/
theorem silent_outward {call : Call} (hcall : call.isOutward = true)
    (h : (w.begin call).Ends effect) (hsilent : Silent effect.events) :
    effect.world.arbiters = w.arbiters ∧ effect.world.queues = w.queues ∧
      started q effect.events = [] := by
  have hanswer : ∀ reply (w : World) back, ∃ reply' closing,
      w.resume back (.answer reply) = w.reply reply' closing ∧ started q closing = [] :=
    fun reply _ _ => ⟨reply, [], rfl, rfl⟩
  cases call with
  | script actions =>
    rw [silent_script h hsilent]
    exact ⟨rfl, rfl, rfl⟩
  | race point race =>
    cases race with
    | none =>
      cases h
      exact ⟨rfl, rfl, rfl⟩
    | some actions =>
      obtain ⟨hworld, hstarted⟩ := silent_answer (q := q) (hanswer _) h hsilent
      exact ⟨congrArg (·.arbiters) hworld, congrArg (·.queues) hworld, hstarted⟩
  | turn a slot =>
    simp only [begin, beginTurn] at h
    split at h
    · cases h
      exact ⟨rfl, rfl, rfl⟩
    · have hturn : ∀ c answer (w : World) back, ∃ reply closing,
          w.resume back (.turn a slot c answer) = w.reply reply closing ∧ started q closing = [] :=
        fun c answer _ _ => ⟨.turn answer, [.turnEnded a slot (some c) answer], rfl, rfl⟩
      obtain ⟨hworld, hstarted⟩ := silent_answer (q := q) (hturn _ _) h hsilent
      exact ⟨congrArg (·.arbiters) hworld, congrArg (·.queues) hworld, hstarted⟩
  | report a report =>
    simp only [begin, beginReport] at h
    split at h
    · obtain ⟨hworld, hstarted⟩ := silent_answer (q := q) (hanswer _) h hsilent
      exact ⟨congrArg (·.arbiters) hworld, congrArg (·.queues) hworld, hstarted⟩
    · cases h
      exact ⟨rfl, rfl, rfl⟩
  | _ => cases hcall

end

end World

/-! ## Passes -/

/-- A pass that nobody disturbs: the slot that has its turn has not asked again. -/
def Activation.Hushed (w : World) : Activation → Prop
  | .owner .. | .reclaim .. | .idle _ => True
  | .serve a slot _ => slot ∉ (w.arbiter a).pending
  | _ => False

/-- What a pass that nobody disturbs does next. -/
def Next.Hushed (w : World) : Next → Prop
  | .reply _ => True
  | .call callee waiting => callee.isOutward = true ∧ waiting.Hushed w

/-- The step leaves the queues alone, and the pass goes on undisturbed. -/
structure Outcome.Hushed (w : World) (q : QueueId) (outcome : Outcome) : Prop where
  next : outcome.next.Hushed outcome.world
  queues : outcome.world.queues = w.queues
  started : started q outcome.events = []

section
variable {w : World} {a : ArbiterId} {q : QueueId} {race : Race} {events : List Event}

theorem Stage.started_events (stage : Stage) : started q (stage.events a) = [] := by
  cases stage <;> rfl

theorem World.hushed_reclaim (w : World) (a : ArbiterId) (race : Race)
    (hevents : started q events = []) :
    (w.reclaim a race events).Hushed w q := by
  rw [reclaim_eq]
  refine ⟨?_, rfl, by rw [started_append, hevents, Stage.started_events]; rfl⟩
  have hto := (w.arbiter a).reclaimOn_spec
  generalize (w.arbiter a).reclaimOn = moved at hto
  obtain ⟨y, stage⟩ := moved
  cases hto with
  | reclaim | idle => exact ⟨rfl, trivial⟩
  | ended => trivial

theorem World.hushed_serve (w : World) (a : ArbiterId) (race : Race)
    (hevents : started q events = []) :
    (w.serve a race events).Hushed w q := by
  rw [serve_eq]
  refine ⟨?_, rfl, by rw [started_append, hevents, Stage.started_events]; rfl⟩
  have hbooks := w.arbiter_serveOn (a := a)
  have hto := (w.arbiter a).serveOn_spec
  simp only
  generalize (w.arbiter a).serveOn = moved at hto hbooks
  obtain ⟨y, stage⟩ := moved
  cases hto with
  | ended => trivial
  | turn =>
    refine ⟨rfl, ?_⟩
    simp only [Activation.Hushed, hbooks]
    exact fun hmem => (SlotSet.mem_erase.1 hmem).2 rfl
  | reclaim _ _ hto =>
    cases hto with
    | reclaim | idle => exact ⟨rfl, trivial⟩
    | ended => trivial

theorem World.hushed_beginPass : (w.beginPass a race).Hushed w q := by
  unfold beginPass
  split
  · exact ⟨⟨rfl, trivial⟩, rfl, rfl⟩
  · exact w.hushed_serve a race rfl

theorem World.hushed_resume (back : Reply) {waiting : Activation} (h : waiting.Hushed w) :
    (w.resume back waiting).Hushed w q := by
  cases waiting with
  | owner a race =>
    simp only [resume]
    cases back.answer with
    | busy => exact w.hushed_serve a race rfl
    | done =>
      obtain ⟨hnext, hqueues, hstarted⟩ :=
        (w.move a ({ · with owner := none })).hushed_serve a race (rfl : started q [] = [])
      exact ⟨hnext, hqueues, hstarted⟩
  | serve a slot race =>
    simp only [resume]
    cases back.answer with
    | busy =>
      have hnot : (w.arbiter a).pending.contains slot = false := SlotSet.contains_eq_false.2 h
      obtain ⟨hnext, hqueues, hstarted⟩ :=
        (w.move a ({ · with owner := some slot })).hushed_serve a race (rfl : started q [] = [])
      simp only [afterServe, hnot, Bool.false_eq_true, if_false]
      exact ⟨hnext, hqueues, hstarted⟩
    | done => exact w.hushed_serve a race rfl
  | reclaim a slot =>
    obtain ⟨hnext, hqueues, hstarted⟩ :=
      (w.move a fun x => (x.unbind slot).giveBack slot).hushed_reclaim a none
        (rfl : started q [.freed a slot] = [])
    exact ⟨hnext, hqueues, hstarted⟩
  | idle => exact ⟨trivial, rfl, rfl⟩
  | _ => cases h

/-- A pass in which nobody acts leaves the queues alone. -/
theorem Outcome.Hushed.silent {outcome : Outcome} {effect : Effect} (h : outcome.Hushed w q)
    (hends : outcome.Ends effect) (hsilent : Silent effect.events) :
    effect.world.queues = w.queues ∧ SharedBus.started q effect.events = [] := by
  induction hends generalizing w with
  | reply => exact ⟨h.queues, h.started⟩
  | @call w' call waiting events callee rest hcallee hrest _ ih =>
    obtain ⟨⟨houtward, hhushed⟩, hqueues, hstarted⟩ := h
    obtain ⟨hbefore, hrestSilent⟩ := hsilent.of_append
    obtain ⟨harbiters, hsame, hnone⟩ :=
      World.silent_outward (q := q) houtward hcallee hbefore.of_append.2
    have hstill : waiting.Hushed callee.world := by
      cases waiting with
      | serve a slot race =>
        have hbooks : callee.world.arbiter a = w'.arbiter a := by
          simp only [World.arbiter, harbiters]
        simpa only [Activation.Hushed, hbooks] using hhushed
      | _ => exact hhushed
    obtain ⟨hafter, hlater⟩ := ih (World.hushed_resume callee.reply hstill) hrestSilent
    refine ⟨hafter.trans (hsame.trans hqueues), ?_⟩
    rw [started_append, started_append, hstarted, hnone, hlater]
    rfl

end

/-! ## Jobs -/

namespace World

variable {w : World} {q : QueueId} {effect : Effect}

/-- A job in which nobody acts leaves the queues alone. -/
theorem silent_job {job : Job} (h : (w.begin (.job job)).Ends effect)
    (hsilent : Silent effect.events) :
    effect.world.queues = w.queues ∧ started q effect.events = [] := by
  cases job with
  | task j =>
    have hanswer : ∀ (w : World) back, ∃ reply closing,
        w.resume back (.answer .nothing) = w.reply reply closing ∧ started q closing = [] :=
      fun _ _ => ⟨.nothing, [], rfl, rfl⟩
    obtain ⟨hworld, hstarted⟩ := silent_answer (q := q) hanswer h hsilent
    exact ⟨congrArg (·.queues) hworld, hstarted⟩
  | pass a =>
    cases h with
    | call hcallee hrest =>
      obtain ⟨hcalled, _⟩ := hsilent.of_append
      obtain ⟨hqueues, hstarted⟩ :=
        (hushed_beginPass (q := q)).silent hcallee hcalled.of_append.2
      cases hrest
      refine ⟨hqueues, ?_⟩
      rw [started_append, started_append, hstarted]
      rfl

/-- A queue that is emptied runs the jobs that it holds, if nobody acts meanwhile. -/
theorem silent_drain {jobs : List Job} {ran : Nat} {silent : Bool} (hq : q < w.queues.length)
    (hjobs : (w.queue q).entries = jobs) (h : (w.drain q ran silent).Ends effect)
    (hsilent : Silent effect.events) : (started q effect.events).length = jobs.length ∧
      effect.reply = if silent then .nothing else .count (ran + jobs.length) := by
  induction jobs generalizing w ran effect with
  | nil =>
    have hpop : (w.queue q).pop? = none := by simp [WorkQueue.pop?, hjobs]
    simp only [drain, hpop] at h
    cases h
    exact ⟨rfl, rfl⟩
  | cons job rest ih =>
    have hpop : (w.queue q).pop? = some (job, { w.queue q with entries := rest }) := by
      simp [WorkQueue.pop?, hjobs]
    simp only [drain, hpop] at h
    cases h with
    | @call _ _ _ _ callee after hcallee hrest =>
      obtain ⟨hcalled, hafter⟩ := hsilent.of_append
      obtain ⟨hqueues, hnone⟩ := silent_job (q := q) hcallee hcalled.of_append.2
      have hwaiting : callee.world.queue q = { w.queue q with entries := rest } :=
        queue_of_set_self hqueues hq
      have hlength : q < callee.world.queues.length := by
        rw [hqueues]
        simpa [setQueue] using hq
      obtain ⟨hstarted, hreply⟩ := ih hlength (by rw [hwaiting]) hrest hafter
      refine ⟨?_, ?_⟩
      · rw [started_append, started_append, hnone, List.append_nil, List.length_append, hstarted]
        simp [started, Event.started?, Nat.add_comm]
      · rw [hreply, List.length_cons, Nat.add_assoc, Nat.add_comm 1]

/-- A queue that is emptied counts no more jobs than are started. -/
theorem count_le_of_drain {outcome : Outcome} (h : outcome.Ends effect) {ran : Nat} {silent : Bool}
    (hdrain : outcome = w.drain q ran silent) {total : Nat} (htotal : effect.reply = .count total) :
    total ≤ ran + (started q effect.events).length := by
  induction h generalizing w ran with
  | reply =>
    unfold drain at hdrain
    split at hdrain
    · cases hdrain
      cases silent <;> cases htotal
      exact Nat.le_add_right ..
    · cases hdrain
  | call _ _ _ ih =>
    unfold drain at hdrain
    split at hdrain
    · cases hdrain
    · cases hdrain
      have := ih rfl htotal
      rw [started_append, started_append, List.length_append, List.length_append]
      simp only [started, List.filterMap_cons, Event.started?] at this ⊢
      simp only [if_true, List.length_cons]
      omega

end World

end SharedBus
