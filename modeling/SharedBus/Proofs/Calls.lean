import SharedBus.Proofs.Custody

/-! # Where passes and reports come from

A pass is called by a job or started by hand, and a report that carries a tag is made by a delivery
for a slot that is bound under this tag. The steps of every call are gone through once here to find
that no other step makes such a call, and that a consumer is told of nothing but reports.
-/
namespace SharedBus

/-- Where the passes and the reports of an outcome come from; `source` is the call whose first step
it is, if it is one. -/
structure Outcome.Founded (source : Option Call) (outcome : Outcome) : Prop where
  pass : ∀ a race waiting, outcome.next = .call (.pass a race) waiting →
    source = some (.job (.pass a)) ∨ source = some (.perform (.dispatch a race))
  report : ∀ a report waiting tag, outcome.next = .call (.report a report) waiting →
    report.tag? = some tag → ∃ slot, (outcome.world.arbiter a).tag? slot = some tag
  idle : ∀ a waiting, outcome.next = .call (.report a .idle) waiting → waiting = .idle a
  reported : ∀ a s report, .reported a s report ∈ outcome.events →
    source = some (.report a report)

namespace World

variable (w : World) {source : Option Call}

private theorem founded_reply {reply : Reply} {events : List Event}
    (hevents : ∀ a s report, .reported a s report ∉ events) :
    (w.reply reply events).Founded source where
  pass := by simp
  report := by simp
  idle := by simp
  reported a s report hmem := absurd hmem (hevents a s report)

private theorem founded_call {call : Call} {waiting : Activation} {events : List Event}
    (hpass : ∀ a race, call ≠ .pass a race) (hreport : ∀ a report, call ≠ .report a report)
    (hevents : ∀ a s report, .reported a s report ∉ events) :
    (w.call call waiting events).Founded source where
  pass a race _ hnext := absurd (Next.call.inj hnext).1 (hpass a race)
  report a report _ _ hnext := absurd (Next.call.inj hnext).1 (hreport a report)
  idle a _ hnext := absurd (Next.call.inj hnext).1 (hreport a .idle)
  reported a s report hmem := absurd hmem (hevents a s report)

private theorem founded_silent (reply : Reply) : (w.reply reply).Founded source :=
  w.founded_reply (by simp)

private theorem reported_notMem_schedule {b : ArbiterId} :
    ∀ a s report, Event.reported a s report ∉ (w.schedule b).2 := by
  rw [schedule_events]
  split <;> simp

private theorem founded_whenThere {there : Bool} {outcome : Outcome}
    (h : outcome.Founded source) : (w.whenThere there outcome).Founded source := by
  cases there with
  | false => exact w.founded_silent _
  | true => exact h

/-! ## Handles -/

private theorem founded_useNotifier (handle : Handle) (reply : Reply) :
    (w.useNotifier handle reply).Founded source := by
  simp only [useNotifier, request]
  split
  · split
    · exact founded_reply _ (by simp [reported_notMem_schedule])
    · exact founded_reply _ (by simp)
  · exact w.founded_silent _

private theorem founded_useDelivery {make : Tag → Report}
    (hmake : ∀ tag, (make tag).tag? = some tag) (handle : Handle) (reply : Reply) :
    (w.useDelivery handle make reply).Founded source := by
  unfold useDelivery
  split
  · exact w.founded_silent _
  · rename_i tag htag
    refine ⟨by simp [World.call], fun a report waiting tag' hnext hreport => ?_,
      fun a waiting hnext => ?_, by simp [World.call]⟩
    · obtain ⟨hcall, _⟩ := Next.call.inj hnext
      obtain ⟨rfl, rfl⟩ := Call.report.inj hcall
      obtain rfl := Option.some.inj ((hmake tag).symm.trans hreport)
      exact ⟨handle.slot, htag⟩
    · -- what a delivery reports carries a tag
      obtain ⟨_, hidle⟩ := Call.report.inj (Next.call.inj hnext).1
      cases hidle ▸ hmake tag

private theorem founded_useHeld {c : ClientId} {kind : HandleKind}
    {use : Handle → Reply → Outcome} (h : ∀ handle reply, (use handle reply).Founded source) :
    (w.useHeld c kind use).Founded source := by
  unfold useHeld
  split
  · split
    · exact w.founded_silent _
    · exact h ..
  · exact w.founded_silent _

private theorem founded_useListed {handle : Option Handle} {use : Handle → Reply → Outcome}
    (h : ∀ handle reply, (use handle reply).Founded source) :
    (w.useListed handle use).Founded source := by
  cases handle with
  | none => exact w.founded_silent _
  | some handle => exact h ..

/-! ## Scripts, queues, attaches and passes -/

private theorem founded_continueScript (actions : List Action) {events : List Event}
    (hevents : ∀ a s report, .reported a s report ∉ events) :
    (w.continueScript actions events).Founded source := by
  cases actions with
  | nil => exact w.founded_reply hevents
  | cons action rest => exact w.founded_call (by simp) (by simp) hevents

private theorem founded_drain (q : QueueId) (ran : Nat) (silent : Bool) :
    (w.drain q ran silent).Founded source := by
  unfold drain
  split
  · exact w.founded_silent _
  · exact founded_call _ (by simp) (by simp) (by simp)

private theorem founded_claim (a : ArbiterId) (c : ClientId) (tag : Tag) (bind : Race) :
    (w.claim a c tag bind).Founded source := by
  unfold claim
  split
  · exact w.founded_silent _
  · split
    · exact w.founded_silent _
    · split
      · exact founded_reply _ (by simp)
      · exact founded_call _ (by simp) (by simp) (by simp)

private theorem founded_uninstallNext (a : ArbiterId) (c : ClientId) (slot : SlotId)
    (kind : HandleKind) : (w.uninstallNext a c slot kind).Founded source := by
  cases kind with
  | notifier | completion => exact w.founded_call (by simp) (by simp) (by simp)
  | error =>
    simp only [uninstallNext, HandleKind.next?]
    exact founded_reply _ (by simp [reported_notMem_schedule])

private theorem founded_detachSlots (a : ArbiterId) (count : Nat) (slots : List SlotId) :
    (w.detachSlots a count slots).Founded source := by
  induction slots with
  | nil => exact w.founded_silent _
  | cons slot rest ih =>
    unfold detachSlots
    split
    · exact ih
    · exact w.founded_call (by simp) (by simp) (by simp)

private theorem founded_stage {a : ArbiterId} {race : Race} {events : List Event} (stage : Stage)
    (hevents : ∀ a s report, .reported a s report ∉ events) :
    (⟨w, stage.next a race, events ++ stage.events a⟩ : Outcome).Founded source := by
  refine ⟨?_, ?_, ?_, fun b s report hmem => ?_⟩
  · cases stage <;> simp [Stage.next]
  · intro b report waiting tag hnext htag
    cases stage <;> cases hnext
    cases htag
  · intro b waiting hnext
    cases stage <;> cases hnext
    rfl
  · rcases List.mem_append.1 hmem with hmem | hmem
    · exact absurd hmem (hevents b s report)
    · cases stage <;> simp [Stage.events] at hmem

private theorem founded_serve (a : ArbiterId) (race : Race) {events : List Event}
    (hevents : ∀ a s report, .reported a s report ∉ events) :
    (w.serve a race events).Founded source := by
  rw [serve_eq]
  exact founded_stage _ _ hevents

private theorem founded_afterServe (a : ArbiterId) (slot : SlotId) (race : Race) (answer : Answer) :
    (w.afterServe a slot race answer).Founded source := by
  cases answer with
  | done => exact w.founded_serve a race (by simp)
  | busy =>
    simp only [afterServe]
    split
    · exact founded_serve _ a race (reported_notMem_schedule _)
    · exact founded_serve _ a race (by simp)

/-! ## All calls and activations -/

theorem founded_perform (action : Action) :
    (w.perform action).Founded (some (.perform action)) := by
  have hdelivery : ∀ {make : Tag → Report}, (∀ tag, (make tag).tag? = some tag) →
      ∀ handle reply, (w.useDelivery handle make reply).Founded (some (.perform action)) :=
    fun hmake => w.founded_useDelivery hmake
  cases action with
  | build q s capacity =>
    apply w.founded_whenThere
    unfold build
    split
    · exact w.founded_silent _
    · split
      · exact w.founded_silent _
      · exact founded_reply _ (by simp)
  | attach a c tag lock bind =>
    apply w.founded_whenThere
    unfold attach
    split
    · exact w.founded_silent _
    · exact w.founded_call (by simp) (by simp) (by simp)
  | detach a c =>
    apply w.founded_whenThere
    unfold detach
    split
    · exact w.founded_silent _
    · exact w.founded_call (by simp) (by simp) (by simp)
  | detachAll a => exact w.founded_whenThere (w.founded_detachSlots ..)
  | tryRelease a =>
    apply w.founded_whenThere
    rw [tryRelease_eq]
    split
    · exact w.founded_silent _
    · exact founded_reply _ (by simp)
  | request a index =>
    simp only [perform]
    split
    · exact w.founded_silent _
    · exact w.founded_whenThere (w.founded_useNotifier _ _)
  | dispatch a race =>
    apply w.founded_whenThere
    refine ⟨fun b race' waiting hnext => .inr ?_, by simp [World.call], by simp [World.call],
      by simp [World.call]⟩
    obtain ⟨hcall, _⟩ := Next.call.inj hnext
    obtain ⟨rfl, rfl⟩ := Call.pass.inj hcall
    rfl
  | runJob a => exact w.founded_whenThere (w.founded_call (by simp) (by simp) (by simp))
  | tag a index =>
    simp only [perform]
    split
    · exact w.founded_silent _
    · exact w.founded_whenThere (w.founded_silent _)
  | notify c => exact w.founded_useHeld w.founded_useNotifier
  | complete c payload => exact w.founded_useHeld (hdelivery fun _ => rfl)
  | fail c fault => exact w.founded_useHeld (hdelivery fun _ => rfl)
  | handleNotify h => exact w.founded_useListed w.founded_useNotifier
  | handleComplete h payload => exact w.founded_useListed (hdelivery fun _ => rfl)
  | handleFail h fault => exact w.founded_useListed (hdelivery fun _ => rfl)
  | showNotifier h | showDelivery h => exact w.founded_useListed fun _ _ => w.founded_silent _
  | reserve q =>
    apply w.founded_whenThere
    split
    · exact w.founded_silent _
    · exact founded_reply _ (by simp)
  | enqueue q j | enqueueArbiter q a =>
    exact w.founded_whenThere (founded_reply _ (by simp))
  | runNext q =>
    apply w.founded_whenThere
    unfold runNext
    split
    · exact w.founded_silent _
    · exact founded_call _ (by simp) (by simp) (by simp)
  | runPending q | drain q => exact w.founded_whenThere (w.founded_drain ..)
  | info a | reserved q | length q | isEmpty q =>
    exact w.founded_whenThere (w.founded_silent _)
  | unknown name => exact w.founded_silent _

theorem founded_begin (call : Call) : (w.begin call).Founded (some call) := by
  cases call with
  | perform action => exact w.founded_perform action
  | script actions => exact w.founded_continueScript actions (by simp)
  | race point race =>
    cases race with
    | none => exact w.founded_silent _
    | some actions => exact w.founded_call (by simp) (by simp) (by simp)
  | install c kind handle =>
    simp only [begin, beginInstall]
    split
    · exact founded_call _ (by simp) (by simp) (by simp)
    · exact w.founded_silent _
  | turn a slot =>
    simp only [begin, beginTurn]
    split
    · exact w.founded_reply (by simp)
    · exact founded_call _ (by simp) (by simp) (by simp)
  | pass a race =>
    simp only [begin, beginPass]
    split
    · exact founded_call _ (by simp) (by simp) (by simp)
    · exact w.founded_serve a race (by simp)
  | report a report =>
    simp only [begin, beginReport]
    split
    · refine ⟨by simp [World.call], by simp [World.call], by simp [World.call],
        fun b s report' hmem => ?_⟩
      obtain ⟨rfl, _, rfl⟩ := Event.reported.inj (List.mem_singleton.1 hmem)
      rfl
    · exact w.founded_silent _
  | job job =>
    cases job with
    | task j => exact founded_call _ (by simp) (by simp) (by simp)
    | pass a =>
      refine ⟨fun b race waiting hnext => .inl ?_, by simp [begin, beginJob, World.call],
        by simp [begin, beginJob, World.call], by simp [begin, beginJob, World.call]⟩
      obtain ⟨hcall, _⟩ := Next.call.inj hnext
      obtain ⟨rfl, _⟩ := Call.pass.inj hcall
      rfl

theorem founded_resume (back : Reply) (waiting : Activation) :
    (w.resume back waiting).Founded none := by
  cases waiting with
  | script action rest => exact w.founded_continueScript rest (by simp)
  | answer reply => exact w.founded_silent _
  | turn a slot c answer => exact w.founded_reply (by simp)
  | claim a c tag bind => exact w.founded_claim a c tag bind
  | bind a c tag slot => exact founded_call _ (by simp) (by simp) (by simp)
  | install a c slot kind =>
    simp only [resume, installNext]
    split
    · exact w.founded_call (by simp) (by simp) (by simp)
    · exact w.founded_silent _
  | uninstall a c slot kind => exact w.founded_uninstallNext a c slot kind
  | detachAll a rest count => exact w.founded_detachSlots ..
  | owner a race =>
    simp only [resume]
    cases back.answer <;> exact founded_serve _ a race (by simp)
  | serve a slot race => exact w.founded_afterServe ..
  | reclaim a slot =>
    simp only [resume, afterReclaim, reclaim_eq]
    exact founded_stage _ _ (by simp)
  | idle a => exact w.founded_reply (by simp)
  | drain q ran silent => exact w.founded_drain ..

end World

namespace Machine

variable {m m' : Machine} {a : ArbiterId}

/-- A step is the first of a call, or goes on with what was waiting. -/
theorem exists_founded (h : m.isFinished = false) : ∃ source outcome stack,
    (∀ call, source = some call → m.control = .call call) ∧ Outcome.Founded source outcome ∧
      m.step = follow outcome stack m.trace := by
  cases hcontrol : m.control with
  | call call =>
    refine ⟨_, _, _, ?_, m.world.founded_begin call, step_of_call hcontrol⟩
    rintro _ ⟨_⟩
    rfl
  | back reply =>
    cases hstack : m.stack with
    | nil => simp [isFinished, reply?, hcontrol, hstack] at h
    | cons f rest =>
      refine ⟨none, _, _, ?_, m.world.founded_resume reply f, step_of_back hcontrol hstack⟩
      simp

/-- A pass is called by a job, or started by hand. -/
theorem Goes.pass (h : Goes m m') {race : Race} (hcall : m'.control = .call (.pass a race)) :
    m.control = .call (.job (.pass a)) ∨ m.control = .call (.perform (.dispatch a race)) := by
  cases h with
  | act => cases hcall
  | step hfin =>
    obtain ⟨source, outcome, stack, hsource, hfounded, hstep⟩ := exists_founded hfin
    rw [hstep] at hcall
    obtain ⟨waiting, hnext⟩ := next_of_follow hcall
    exact (hfounded.pass a race waiting hnext).imp (hsource _) (hsource _)

/-- A report with a tag is made for a slot that is bound under this tag. -/
theorem Goes.report (h : Goes m m') {report : Report} {tag : Tag}
    (hcall : m'.control = .call (.report a report)) (htag : report.tag? = some tag) :
    ∃ slot, (m'.books a).tag? slot = some tag := by
  cases h with
  | act => cases hcall
  | step hfin =>
    obtain ⟨source, outcome, stack, _, hfounded, hstep⟩ := exists_founded hfin
    rw [hstep] at hcall ⊢
    obtain ⟨waiting, hnext⟩ := next_of_follow hcall
    rw [books_follow]
    exact hfounded.report a report waiting tag hnext htag

/-- A consumer is told of what is just being reported. -/
theorem Goes.reported (h : Goes m m') {new : List Event} (htrace : m'.trace = new ++ m.trace)
    {s : ConsumerId} {report : Report} (hmem : .reported a s report ∈ new) :
    m.control = .call (.report a report) := by
  cases h with
  | act =>
    obtain rfl : new = [] := List.append_left_eq_self.1 htrace.symm
    cases hmem
  | step hfin =>
    obtain ⟨source, outcome, stack, hsource, hfounded, hstep⟩ := exists_founded hfin
    rw [hstep, trace_follow] at htrace
    obtain rfl := List.append_cancel_right htrace
    exact hsource _ (hfounded.reported a s report (List.mem_reverse.1 hmem))

/-- An idle bus is reported only for a pass, which then waits on top of what was there before. -/
theorem Goes.idle (h : Goes m m') (hcall : m'.control = .call (.report a .idle)) :
    m'.stack = .idle a :: m.stack ∨ ∃ reply f rest, m.control = .back reply ∧
      m.stack = f :: rest ∧ m'.stack = .idle a :: rest := by
  cases h with
  | act => cases hcall
  | step hfin =>
    cases hcontrol : m.control with
    | call call =>
      rw [step_of_call hcontrol] at hcall ⊢
      obtain ⟨waiting, hnext⟩ := next_of_follow hcall
      obtain rfl := (m.world.founded_begin call).idle a waiting hnext
      exact .inl (by simp [follow, hnext])
    | back reply =>
      cases hstack : m.stack with
      | nil => simp [isFinished, reply?, hcontrol, hstack] at hfin
      | cons f rest =>
        rw [step_of_back hcontrol hstack] at hcall ⊢
        obtain ⟨waiting, hnext⟩ := next_of_follow hcall
        obtain rfl := (m.world.founded_resume reply f).idle a waiting hnext
        exact .inr ⟨reply, f, rest, rfl, rfl, by simp [follow, hnext]⟩

/-- Whoever is about to be told of a tag is told of a slot that is bound under it. -/
theorem Reachable.tag_of_report {P : Machine → Prop} (h : Reachable P m) {report : Report}
    {tag : Tag} (hcall : m.control = .call (.report a report)) (htag : report.tag? = some tag) :
    ∃ slot, (m.books a).tag? slot = some tag := by
  revert hcall
  refine h.induction (I := fun m => m.control = .call (.report a report) →
    ∃ slot, (m.books a).tag? slot = some tag) (fun w _ hcall => by cases hcall) ?_
  exact fun m m' _ _ hgoes _ hcall => hgoes.report hcall htag

end Machine

end SharedBus
