import SharedBus.Proofs.Deed.Step
import SharedBus.Proofs.Errand.Plain

/-! # Every step is an errand

What the steps of every call do to the queues and to the handles of clients, gone through once.
-/
namespace SharedBus.Machine

variable {m m' : Machine} {stack : List Activation} {outcome : Outcome} {a : ArbiterId}

/-- The call that comes next. -/
@[simp] def Next.call? : Next → Option Call
  | .reply _ => none
  | .call call _ => some call

theorem world_follow (outcome : Outcome) (stack : List Activation) (trace : List Event) :
    (follow outcome stack trace).world = outcome.world := by
  obtain ⟨w, next, events⟩ := outcome
  cases next <;> rfl

theorem Follows.job? {next : Next} (h : m'.Follows next stack) :
    m'.job? = (Next.call? next).bind Call.job? := by
  cases next with
  | reply reply => exact job?_of_back h.1
  | call call waiting => exact job?_of_call h.1

theorem Follows.install? {next : Next} (h : m'.Follows next stack) :
    m'.install? = (Next.call? next).bind Call.install? := by
  cases next with
  | reply reply => exact install?_of_back h.1
  | call call waiting => exact install?_of_call h.1

/-! ## Steps that concern one side only -/

theorem handover_none (hstack : ∀ f ∈ stack, f ∈ m.stack) (hnow : m.install? = none)
    (hholdings : outcome.world.holdings = m.world.holdings)
    (hnext : (Next.call? outcome.next).bind Call.install? = none)
    (hwaiting : ∀ f ∈ outcome.next.waiting?, f.isHandover = false) :
    Handover m (follow outcome stack m.trace) := by
  have hfollows := follows_follow outcome stack m.trace
  refine .none ?_ hnow (hfollows.install?.trans hnext) fun f hf hhandover => ?_
  · rw [world_follow, hholdings]
  · rcases hfollows.mem_stack hf with hold | hnew
    · exact hstack f hold
    · cases hhandover.symm.trans (hwaiting f hnew)

theorem chore_none (hnow : ∀ a, m.job? ≠ some (.pass a))
    (hposts : outcome.world.posts = m.world.posts) (hqueues : outcome.world.queues = m.world.queues)
    (hnext : (Next.call? outcome.next).bind Call.job? = none)
    (hevents : ∀ e ∈ outcome.events, e.isQueueing = false) :
    Chore m (follow outcome stack m.trace) outcome.events.reverse := by
  refine .none ?_ ?_ (by simpa using hevents) hnow ?_
  · rw [world_follow, hposts]
  · rw [world_follow, hqueues]
  · rw [(follows_follow outcome stack m.trace).job?, hnext]

theorem errand_plain (hstack : ∀ f ∈ stack, f ∈ m.stack) (hjob : ∀ a, m.job? ≠ some (.pass a))
    (hinstall : m.install? = none) (h : outcome.Plain m.world) :
    Errand m (follow outcome stack m.trace) outcome.events.reverse := by
  have hnext : (Next.call? outcome.next).bind Call.job? = none ∧
      (Next.call? outcome.next).bind Call.install? = none ∧
      ∀ f ∈ outcome.next.waiting?, f.isHandover = false := by
    cases hnext : outcome.next with
    | reply reply => exact ⟨rfl, rfl, by simp⟩
    | call call waiting =>
      obtain ⟨hcall, hwaiting⟩ := h.next call waiting hnext
      simpa [Call.isErrand, hwaiting] using hcall
  exact ⟨chore_none hjob h.alike.posts h.alike.queues hnext.1 h.events,
    handover_none hstack hinstall h.alike.holdings hnext.2.1 hnext.2.2⟩

theorem errand_call_plain {call : Call} (hcall : m.control = .call call)
    (hnot : call.isErrand = false) (h : outcome.Plain m.world) :
    Errand m (follow outcome m.stack m.trace) outcome.events.reverse := by
  obtain ⟨hjob, hinstall⟩ : call.job? = none ∧ call.install? = none := by
    simpa [Call.isErrand] using hnot
  refine errand_plain (fun _ hf => hf) ?_ ((install?_of_call hcall).trans hinstall) h
  intro a
  rw [job?_of_call hcall, hjob]
  simp

/-! ## Scheduling a pass -/

/-- The world is that after a pass was scheduled, apart from what is no errand. -/
theorem chore_schedule (stack : List Activation) (next : Next) (before after : List Event)
    {w w' : World} (hw : m.world.Alike w) (hw' : (w.schedule a).1.Alike w')
    (hthere : a < m.world.arbiters.length ∨
      ∃ f rest, m.stack = f :: rest ∧ f.isOf a = true ∧ f ≠ .idle a)
    (hnow : m.job? = none) (hnext : (Next.call? next).bind Call.job? = none)
    (hbefore : ∀ e ∈ before, e.isQueueing = false) (hafter : ∀ e ∈ after, e.isQueueing = false) :
    Chore m (follow ⟨w', next, before ++ (w.schedule a).2 ++ after⟩ stack m.trace)
      (before ++ (w.schedule a).2 ++ after).reverse := by
  obtain ⟨hqueue, hqueued⟩ := hw.post a
  have hall : w.queue (w.arbiter a).queue = m.world.queue (m.books a).queue := by
    simp only [World.queue, hw.queues, hqueue]
  rw [World.schedule_events]
  unfold World.schedule at hw'
  cases h : (w.arbiter a).queued with
  | true =>
    rw [h, if_pos rfl] at hw'
    rw [if_pos rfl]
    refine chore_none (by simp [hnow]) ?_ ?_ hnext ?_
    · exact hw'.posts.trans hw.posts
    · exact hw'.queues.trans hw.queues
    · simpa using List.forall_mem_append.2 ⟨hbefore, hafter⟩
  | false =>
    rw [h, if_neg (by simp)] at hw'
    rw [if_neg (by simp), hall, hqueue, List.reverse_append, List.reverse_append,
      List.reverse_singleton]
    refine Chore.schedule hthere rfl (hqueued ▸ h) ?_ ?_ (by simpa using hafter)
      (by simpa using hbefore) hnow ((follows_follow _ stack m.trace).job?.trans hnext)
    · rw [world_follow, ← hw.posts, hw'.posts, ← hqueue]
      exact w.posts_setArbiter _
    · rw [world_follow, ← hw.queues, hw'.queues, ← hall, ← hqueue]
      rfl

/-! ## Actions -/

section
variable {action : Action} (hcall : m.control = .call (.perform action))
include hcall

private theorem errand_plain_action (h : outcome.Plain m.world) :
    Errand m (follow outcome m.stack m.trace) outcome.events.reverse :=
  errand_call_plain hcall rfl h

private theorem errand_chore (outcome : Outcome)
    (hholdings : outcome.world.holdings = m.world.holdings)
    (hnext : (Next.call? outcome.next).bind Call.install? = none)
    (hwaiting : ∀ f ∈ outcome.next.waiting?, f.isHandover = false)
    (hchore : m.job? = none → Chore m (follow outcome m.stack m.trace) outcome.events.reverse) :
    Errand m (follow outcome m.stack m.trace) outcome.events.reverse :=
  ⟨hchore (job?_of_call hcall),
    handover_none (fun _ hf => hf) (install?_of_call hcall) hholdings hnext hwaiting⟩

private theorem errand_skip {there : Bool} {outcome : Outcome}
    (h : there = true → Errand m (follow outcome m.stack m.trace) outcome.events.reverse) :
    Errand m (follow (m.world.whenThere there outcome) m.stack m.trace)
      (m.world.whenThere there outcome).events.reverse := by
  cases there with
  | false => exact errand_call_plain hcall rfl (m.world.plain_silent _)
  | true => exact h rfl

private theorem errand_request (handle : Handle) (reply : Reply) :
    Errand m (follow (m.world.useNotifier handle reply) m.stack m.trace)
      (m.world.useNotifier handle reply).events.reverse := by
  simp only [World.useNotifier, World.request]
  split
  · rename_i haccepts
    have hasked : m.world.Alike (m.world.move handle.arbiter (·.setPending handle.slot)) :=
      m.world.alike_move rfl rfl
    split
    · refine errand_chore hcall _ ?_ rfl (by simp) fun hnow => ?_
      · exact (World.holdings_schedule _).trans hasked.holdings
      · have hchore := chore_schedule m.stack (.reply reply)
          [.requested handle.arbiter handle.slot] [] hasked (.refl _)
          (.inl (World.lt_length_of_accepts haccepts)) hnow rfl (by simp [Event.isQueueing])
          (List.forall_mem_nil _)
        rwa [List.append_nil] at hchore
    · exact errand_plain_action hcall (World.plain_reply hasked (by simp [Event.isQueueing]))
  · exact errand_plain_action hcall (m.world.plain_silent _)

private theorem errand_held {c : ClientId} :
    Errand m (follow (m.world.useHeld c .notifier m.world.useNotifier) m.stack m.trace)
      (m.world.useHeld c .notifier m.world.useNotifier).events.reverse := by
  unfold World.useHeld
  split
  · split
    · exact errand_plain_action hcall (m.world.plain_silent _)
    · exact errand_request hcall _ _
  · exact errand_plain_action hcall (m.world.plain_silent _)

private theorem errand_build {q : QueueId} (s : ConsumerId) (config : Config)
    (hq : m.world.hasQueue q = true) :
    Errand m (follow (m.world.build q s config) m.stack m.trace)
      (m.world.build q s config).events.reverse := by
  unfold World.build
  split
  · exact errand_plain_action hcall (m.world.plain_silent _)
  · split
    · exact errand_plain_action hcall (m.world.plain_silent _)
    · rename_i hreserve
      refine errand_chore hcall _ rfl rfl (by simp) fun hnow => ?_
      refine .build (by simpa [World.hasQueue] using hq) hreserve ?_ rfl hnow rfl
      simp [follow, World.reply, World.posts, World.setQueue, Arbiter.create]

private theorem errand_reserve {q : QueueId} (hq : m.world.hasQueue q = true) {queue : WorkQueue}
    (hreserve : (m.world.queue q).reserve? = some queue) :
    Errand m (follow ((m.world.setQueue q queue).reply (.flag true) [.reserved q]) m.stack m.trace)
      [.reserved q] :=
  errand_chore hcall ((m.world.setQueue q queue).reply (.flag true) [.reserved q]) rfl rfl (by simp)
    fun hnow => .reserve (by simpa [World.hasQueue] using hq) hreserve rfl rfl hnow rfl

private theorem errand_start {q : QueueId} {job : Job} {queue : WorkQueue} (waiting : Activation)
    (hpop : (m.world.queue q).pop? = some (job, queue)) (hwaiting : waiting.isHandover = false) :
    Errand m (follow ((m.world.setQueue q queue).call (.job job) waiting [.started q job])
      m.stack m.trace) [.started q job] :=
  errand_chore hcall ((m.world.setQueue q queue).call (.job job) waiting [.started q job]) rfl rfl
    (by simpa using hwaiting) fun hnow => .start hpop rfl rfl hnow rfl

private theorem errand_detach {c : ClientId} (haction : action = .detach a c)
    (hthere : (m.world.hasArbiter a && m.world.hasClient c) = true) :
    Errand m (follow (m.world.detach a c) m.stack m.trace)
      (m.world.detach a c).events.reverse := by
  unfold World.detach
  split
  · exact errand_plain_action hcall (m.world.plain_silent _)
  · rename_i slot hfind
    constructor
    · exact chore_none (by simp [job?_of_call hcall]) rfl rfl rfl
        (by simp [World.call, Event.isQueueing])
    · refine .detach rfl ?_ ⟨rfl, rfl⟩
      simp [detach?, hcall, haction, hthere]

end

theorem errand_perform {action : Action} (hcall : m.control = .call (.perform action)) :
    Errand m (follow (m.world.perform action) m.stack m.trace)
      (m.world.perform action).events.reverse := by
  have hplain : ∀ {outcome : Outcome}, outcome.Plain m.world →
      Errand m (follow outcome m.stack m.trace) outcome.events.reverse :=
    fun h => errand_plain_action hcall h
  have hsilent : ∀ reply, Errand m (follow (m.world.reply reply) m.stack m.trace) [] :=
    fun reply => hplain (m.world.plain_silent reply)
  cases action with
  | build q s capacity =>
    exact errand_skip hcall fun hthere => errand_build hcall s _ (Bool.and_eq_true_iff.1 hthere).1
  | attach b c tag lock bind => exact errand_skip hcall fun _ => hplain (m.world.plain_attach ..)
  | detach b c => exact errand_skip hcall fun hthere => errand_detach hcall rfl hthere
  | detachAll b => exact errand_skip hcall fun _ => hplain (m.world.plain_detachSlots ..)
  | tryRelease b => exact errand_skip hcall fun _ => hplain (m.world.plain_tryRelease b)
  | request b index =>
    simp only [World.perform]
    split
    · exact hsilent _
    · exact errand_skip hcall fun _ => errand_request hcall _ _
  | tag b index =>
    simp only [World.perform]
    split
    · exact hsilent _
    · exact errand_skip hcall fun _ => hsilent _
  | notify c => exact errand_held hcall
  | complete c payload | fail c fault => exact hplain (m.world.plain_useHeld_delivery ..)
  | handleNotify h =>
    simp only [World.perform]
    cases m.world.notifiers[h]? with
    | none => exact hsilent _
    | some handle => exact errand_request hcall handle _
  | handleComplete h payload | handleFail h fault =>
    exact hplain (m.world.plain_useListed fun handle => m.world.plain_useDelivery handle _)
  | showNotifier h | showDelivery h =>
    exact hplain (m.world.plain_useListed fun _ _ => m.world.plain_silent _)
  | reserve q =>
    refine errand_skip hcall fun hthere => ?_
    split
    · exact hsilent _
    · rename_i hreserve
      exact errand_reserve hcall hthere hreserve
  | enqueue q j =>
    refine errand_skip hcall fun hthere => errand_chore hcall _ rfl rfl (by simp) fun hnow => ?_
    exact .enqueue (by simp [handed?, hcall, hthere]) rfl rfl hnow rfl
  | enqueueArbiter q b =>
    refine errand_skip hcall fun hthere => errand_chore hcall _ rfl rfl (by simp) fun hnow => ?_
    exact .force (by simp [forced?, hcall, hthere]) rfl rfl hnow rfl
  | runJob b =>
    refine errand_skip hcall fun hthere =>
      errand_chore hcall _ rfl rfl (by simp [World.call, Activation.isHandover]) fun hnow => ?_
    exact .run (by simp [forced?, hcall, hthere]) rfl rfl hnow rfl
  | dispatch b race =>
    exact errand_skip hcall fun _ => hplain (World.plain_call (.refl _) rfl rfl (by simp))
  | runNext q =>
    refine errand_skip hcall fun _ => ?_
    unfold World.runNext
    split
    · exact hsilent _
    · rename_i hpop
      exact errand_start hcall _ hpop rfl
  | runPending q | drain q =>
    refine errand_skip hcall fun _ => ?_
    unfold World.drain
    split
    · exact hsilent _
    · rename_i hpop
      exact errand_start hcall _ hpop rfl
  | info b | reserved q | length q | isEmpty q => exact errand_skip hcall fun _ => hsilent _
  | unknown name => exact hsilent _

/-! ## All calls -/

private theorem errand_install {c : ClientId} {kind : HandleKind} {handle : Option Handle}
    (hcall : m.control = .call (.install c kind handle)) :
    Errand m (follow (m.world.beginInstall c kind handle) m.stack m.trace)
      (m.world.beginInstall c kind handle).events.reverse := by
  have hnow : m.install? = some (c, kind, handle) := install?_of_call hcall
  have hjob : m.job? = none := job?_of_call hcall
  simp only [World.beginInstall]
  split
  · rename_i htakes
    constructor
    · refine chore_none (by simp [hjob]) ?_ ?_ rfl (by simp [World.call, Event.isQueueing])
      · cases handle <;> simp [World.call] <;> rfl
      · cases handle <;> simp [World.call] <;> rfl
    · refine .take hnow ?_ rfl fun f hf hhandover => ?_
      · rw [if_pos htakes, world_follow]
        cases handle <;> simp [World.call, World.holdings_setClient, Client.install]
      · rcases List.mem_cons.1 hf with rfl | hf
        · cases hhandover
        · exact hf
  · rename_i htakes
    refine ⟨chore_none (by simp [hjob]) rfl rfl rfl (List.forall_mem_nil _), ?_⟩
    exact .take hnow (if_neg htakes).symm rfl fun _ hf _ => hf

private theorem errand_job {job : Job} (hcall : m.control = .call (.job job)) :
    Errand m (follow (m.world.beginJob job) m.stack m.trace)
      (m.world.beginJob job).events.reverse := by
  have hnow : m.job? = some job := job?_of_call hcall
  have hinstall : m.install? = none := install?_of_call hcall
  cases job with
  | pass b =>
    refine ⟨.clear (m.world.posts_setArbiter _) rfl hnow rfl, ?_⟩
    exact handover_none (fun _ hf => hf) hinstall rfl rfl
      (by simp [World.beginJob, World.call, Activation.isHandover])
  | task j =>
    exact errand_plain (fun _ hf => hf) (by simp [hnow]) hinstall
      (World.plain_call ⟨rfl, rfl, rfl⟩ rfl rfl (by simp [Event.isQueueing]))

theorem errand_call {call : Call} (hcall : m.control = .call call) :
    Errand m (follow (m.world.begin call) m.stack m.trace) (m.world.begin call).events.reverse := by
  cases call with
  | perform action => exact errand_perform hcall
  | script actions =>
    exact errand_call_plain hcall rfl (m.world.plain_continueScript actions (List.forall_mem_nil _))
  | race point race => exact errand_call_plain hcall rfl (m.world.plain_beginRace point race)
  | install c kind handle => exact errand_install hcall
  | turn b slot => exact errand_call_plain hcall rfl (m.world.plain_beginTurn b slot)
  | pass b race => exact errand_call_plain hcall rfl (m.world.plain_beginPass b race)
  | report b report => exact errand_call_plain hcall rfl (m.world.plain_beginReport b report)
  | job job => exact errand_job hcall

/-! ## All activations -/

section
variable {reply : Reply} {rest : List Activation} (hback : m.control = .back reply)
include hback

private theorem errand_back_plain {f : Activation} (hstack : m.stack = f :: rest)
    (h : outcome.Plain m.world) :
    Errand m (follow outcome rest m.trace) outcome.events.reverse := by
  refine errand_plain (fun _ hf => hstack ▸ List.mem_cons_of_mem _ hf) ?_ (install?_of_back hback) h
  simp [job?_of_back hback]

private theorem errand_handover (hposts : outcome.world.posts = m.world.posts)
    (hqueues : outcome.world.queues = m.world.queues)
    (hnext : (Next.call? outcome.next).bind Call.job? = none)
    (hevents : ∀ e ∈ outcome.events, e.isQueueing = false)
    (hhandover : m.install? = none → Handover m (follow outcome rest m.trace)) :
    Errand m (follow outcome rest m.trace) outcome.events.reverse :=
  ⟨chore_none (by simp [job?_of_back hback]) hposts hqueues hnext hevents,
    hhandover (install?_of_back hback)⟩

private theorem errand_bind {c : ClientId} {tag : Tag} {slot : SlotId}
    (hstack : m.stack = .bind a c tag slot :: rest) :
    Errand m (follow (m.world.bind a c tag slot) rest m.trace)
      (m.world.bind a c tag slot).events.reverse := by
  have hbound : m.world.Alike (m.world.move a (·.bind slot ⟨c, tag⟩)) := m.world.alike_move rfl rfl
  exact errand_handover hback hbound.posts hbound.queues rfl
    (by simp [World.bind, World.call, Event.isQueueing])
    fun _ => .bind hbound.holdings hback hstack ⟨rfl, rfl⟩

private theorem errand_installNext {c : ClientId} {slot : SlotId} {kind : HandleKind}
    (hstack : m.stack = .install a c slot kind :: rest) :
    Errand m (follow (m.world.installNext a c slot kind) rest m.trace)
      (m.world.installNext a c slot kind).events.reverse := by
  unfold World.installNext
  split
  · rename_i hkind
    exact errand_handover hback rfl rfl rfl (List.forall_mem_nil _)
      fun hnow => .install rfl hnow hstack hkind ⟨rfl, rfl⟩
  · exact errand_back_plain hback hstack (m.world.plain_silent _)

private theorem errand_uninstallNext {c : ClientId} {slot : SlotId} {kind : HandleKind}
    (hstack : m.stack = .uninstall a c slot kind :: rest) :
    Errand m (follow (m.world.uninstallNext a c slot kind) rest m.trace)
      (m.world.uninstallNext a c slot kind).events.reverse := by
  unfold World.uninstallNext
  split
  · rename_i hkind
    exact errand_handover hback rfl rfl rfl (List.forall_mem_nil _)
      fun hnow => .uninstall rfl hnow hstack hkind ⟨rfl, rfl⟩
  · have hmarked : m.world.Alike (m.world.move a (·.mark slot)) := m.world.alike_move rfl rfl
    constructor
    · have hchore := chore_schedule (a := a) rest (.reply (.slot slot)) [.marked a slot c] []
        hmarked (.refl _)
        (.inr ⟨.uninstall a c slot kind, rest, hstack, by simp [Activation.isOf], by simp⟩)
        (job?_of_back hback) rfl (by simp [Event.isQueueing]) (List.forall_mem_nil _)
      rwa [List.append_nil] at hchore
    · refine handover_none (fun _ hf => hstack ▸ List.mem_cons_of_mem _ hf) (install?_of_back hback)
        ?_ rfl (by simp [World.reply])
      exact (World.holdings_schedule _).trans hmarked.holdings

private theorem errand_afterServe {slot : SlotId} {race : Race}
    (hstack : m.stack = .serve a slot race :: rest) :
    Errand m (follow (m.world.afterServe a slot race reply.answer) rest m.trace)
      (m.world.afterServe a slot race reply.answer).events.reverse := by
  by_cases hposts : reply.answer = .busy ∧ (m.world.arbiter a).pending.contains slot = true
  · obtain ⟨hanswer, hpending⟩ := hposts
    have howned : m.world.Alike (m.world.move a ({ · with owner := some slot })) :=
      m.world.alike_move rfl rfl
    have hstage : ∀ stage : Stage, (Next.call? (stage.next a race)).bind Call.job? = none ∧
        (Next.call? (stage.next a race)).bind Call.install? = none ∧
          ∀ f ∈ (stage.next a race).waiting?, f.isHandover = false := by
      intro stage
      cases stage <;> simp [Stage.next, Activation.isHandover]
    simp only [hanswer, World.afterServe, hpending, if_true, World.serve_eq]
    constructor
    · exact chore_schedule rest _ [] _ howned (World.alike_serveOn _)
        (.inr ⟨.serve a slot race, rest, hstack, by simp [Activation.isOf], by simp⟩)
        (job?_of_back hback) (hstage _).1 (List.forall_mem_nil _)
        fun _ => Stage.isQueueing_of_mem
    · refine handover_none (fun _ hf => hstack ▸ List.mem_cons_of_mem _ hf) (install?_of_back hback)
        ?_ (hstage _).2.1 (hstage _).2.2
      exact (World.alike_serveOn _).holdings.trans
        ((World.holdings_schedule _).trans howned.holdings)
  · refine errand_back_plain hback hstack (m.world.plain_afterServe a slot race _ fun hanswer => ?_)
    simpa [hanswer] using hposts

theorem errand_back {f : Activation} (hstack : m.stack = f :: rest) :
    Errand m (follow (m.world.resume reply f) rest m.trace)
      (m.world.resume reply f).events.reverse := by
  have hplain : ∀ {outcome : Outcome}, outcome.Plain m.world →
      Errand m (follow outcome rest m.trace) outcome.events.reverse :=
    fun h => errand_back_plain hback hstack h
  cases f with
  | script action more =>
    exact hplain (m.world.plain_continueScript more (by simp [Event.isQueueing]))
  | answer reply => exact hplain (m.world.plain_silent _)
  | turn b slot c answer => exact hplain (World.plain_reply (.refl _) (by simp [Event.isQueueing]))
  | claim b c tag bind => exact hplain (m.world.plain_claim ..)
  | bind b c tag slot => exact errand_bind hback hstack
  | install b c slot kind => exact errand_installNext hback hstack
  | uninstall b c slot kind => exact errand_uninstallNext hback hstack
  | detachAll b more count => exact hplain (m.world.plain_detachSlots ..)
  | owner b race => exact hplain (m.world.plain_afterOwner ..)
  | serve b slot race => exact errand_afterServe hback hstack
  | reclaim b slot => exact hplain (m.world.plain_afterReclaim b slot)
  | idle b => exact hplain (World.plain_reply (.refl _) (by simp [Event.isQueueing]))
  | drain q ran silent =>
    simp only [World.resume, World.drain]
    split
    · exact hplain (m.world.plain_silent _)
    · rename_i hpop
      exact ⟨.start hpop rfl rfl (job?_of_back hback) rfl,
        handover_none (fun _ hf => hstack ▸ List.mem_cons_of_mem _ hf) (install?_of_back hback)
          rfl rfl (by simp [World.call, Activation.isHandover])⟩

end

end SharedBus.Machine
