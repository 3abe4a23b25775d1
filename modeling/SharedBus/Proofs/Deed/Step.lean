import SharedBus.Proofs.Deed.Quiet

/-! # Every step is a deed

For each arbiter, all that a run ever does is one of the deeds. The steps of every call are gone
through once here, and nowhere else.
-/
namespace SharedBus.Machine

variable {a b : ArbiterId} {m m' : Machine}

theorem follows_follow (outcome : Outcome) (stack : List Activation) (trace : List Event) :
    (follow outcome stack trace).Follows outcome.next stack := by
  obtain ⟨w, next, events⟩ := outcome
  cases next <;> exact ⟨rfl, rfl⟩

theorem books_follow (outcome : Outcome) (stack : List Activation) (trace : List Event) :
    (follow outcome stack trace).books a = outcome.world.arbiter a := by
  obtain ⟨w, next, events⟩ := outcome
  cases next <;> rfl

theorem step_of_call {call : Call} (h : m.control = .call call) :
    m.step = follow (m.world.begin call) m.stack m.trace := by
  obtain ⟨w, control, stack, trace⟩ := m
  subst h
  rfl

theorem step_of_back {reply : Reply} {f : Activation} {rest : List Activation}
    (h : m.control = .back reply) (hstack : m.stack = f :: rest) :
    m.step = follow (m.world.resume reply f) rest m.trace := by
  obtain ⟨w, control, stack, trace⟩ := m
  subst h hstack
  rfl

private theorem frames_follow {outcome : Outcome} (stack : List Activation) (trace : List Event)
    (h : outcome.Quiet a m.world) :
    (follow outcome stack trace).frames a = stack.filter (·.isOf a) := by
  obtain ⟨w, next, events⟩ := outcome
  cases next with
  | reply reply => rfl
  | call call waiting => exact List.filter_cons_of_neg (by simp [h.next call waiting rfl])

private theorem deed_call_quiet {call : Call} {outcome : Outcome} (hcall : m.control = .call call)
    (hturn : ∀ slot, call ≠ .turn a slot) (hpass : ∀ race, call ≠ .pass a race)
    (hjob : call ≠ .job (.pass a)) (h : outcome.Quiet a m.world) :
    Deed a m (follow outcome m.stack m.trace) outcome.events.reverse := by
  refine .quiet ⟨?_, frames_follow _ _ h, ?_, ?_, ?_, ?_⟩ (by simpa using h.events)
  · rw [books_follow, h.books]
  · intro slot he
    exact hturn slot (Control.call.inj (hcall.symm.trans he))
  · intro race he
    exact hpass race (Control.call.inj (hcall.symm.trans he))
  · intro he
    exact hjob (Control.call.inj (hcall.symm.trans he))
  · intro reply f rest he
    exact absurd (hcall.symm.trans he) (by simp)

private theorem deed_perform_quiet {action : Action} {outcome : Outcome}
    (hcall : m.control = .call (.perform action)) (h : outcome.Quiet a m.world) :
    Deed a m (follow outcome m.stack m.trace) outcome.events.reverse :=
  deed_call_quiet hcall (by simp) (by simp) (by simp) h

private theorem deed_back_quiet {reply : Reply} {f : Activation} {rest : List Activation}
    {outcome : Outcome} (hback : m.control = .back reply) (hstack : m.stack = f :: rest)
    (hf : f.isOf a = false) (h : outcome.Quiet a m.world) :
    Deed a m (follow outcome rest m.trace) outcome.events.reverse := by
  refine .quiet ⟨?_, ?_, ?_, ?_, ?_, ?_⟩ (by simpa using h.events)
  · rw [books_follow, h.books]
  · rw [frames_follow _ _ h, frames, hstack, List.filter_cons_of_neg (by simp [hf])]
  · simp [hback]
  · simp [hback]
  · simp [hback]
  · intro _ g _ _ he
    obtain ⟨rfl, _⟩ := List.cons.inj (hstack.symm.trans he)
    exact hf

/-! ## Actions -/

private theorem deed_request {action : Action} {handle : Handle} (reply : Reply)
    (hcall : m.control = .call (.perform action)) (hasked : m.world.asked? action = some handle) :
    Deed a m (follow (m.world.useNotifier handle reply) m.stack m.trace)
      (m.world.useNotifier handle reply).events.reverse := by
  obtain ⟨b, slot⟩ := handle
  by_cases hb : b = a
  · subst hb
    cases haccepts : (m.world.arbiter b).accepts slot with
    | false =>
      apply deed_perform_quiet hcall
      simp only [World.useNotifier, World.request, haccepts]
      exact World.quiet_reply rfl (by simp)
    | true =>
      have hrequest : m.request? = some ⟨b, slot⟩ := by
        simp [request?, hcall, hasked, haccepts]
      have hlt := World.lt_length_of_accepts haccepts
      simp only [World.useNotifier, World.request, haccepts, if_true]
      cases hwants : (m.world.arbiter b).wantsPass slot with
      | true =>
        simp only [if_true, World.reply, List.reverse_cons]
        refine .request hrequest ?_ ?_ ?_ (follows_follow _ _ _)
        · rw [books_follow, World.arbiter_schedule_self _ (by simpa using hlt),
            World.arbiter_move_self _ hlt, hwants]
          simp
        · simpa using World.schedule_not_isOf _
        · intro _ hqueued
          rw [World.schedule_events, World.arbiter_move_self _ hlt]
          simp [Arbiter.setPending, hqueued]
      | false =>
        simp only [Bool.false_eq_true, if_false, World.reply]
        show Deed b m _ ([] ++ [.requested b slot])
        refine .request hrequest ?_ (by simp) ?_ (follows_follow _ _ _)
        · rw [books_follow, World.arbiter_move_self _ hlt, hwants]
          simp [Arbiter.setPending]
        · simp [hwants]
  · exact deed_perform_quiet hcall (m.world.quiet_request_ne hb slot reply)

private theorem deed_held {action : Action} {c : ClientId}
    (hcall : m.control = .call (.perform action))
    (hasked : m.world.asked? action = (m.world.client c).handles.notifier) :
    Deed a m (follow (m.world.useHeld c .notifier m.world.useNotifier) m.stack m.trace)
      (m.world.useHeld c .notifier m.world.useNotifier).events.reverse := by
  unfold World.useHeld
  split
  · split
    · exact deed_perform_quiet hcall (World.quiet_reply rfl (by simp))
    · rename_i handle hheld
      exact deed_request _ hcall (hasked.trans hheld)
  · exact deed_perform_quiet hcall (World.quiet_reply rfl (by simp))

private theorem deed_build {action : Action} (hcall : m.control = .call (.perform action))
    (q : QueueId) (s : ConsumerId) (config : Config) :
    Deed a m (follow (m.world.build q s config) m.stack m.trace)
      (m.world.build q s config).events.reverse := by
  unfold World.build
  split
  · exact deed_perform_quiet hcall (World.quiet_reply rfl (by simp))
  · rename_i hrefusal
    split
    · exact deed_perform_quiet hcall (World.quiet_reply rfl (by simp))
    · have harbiter : ∀ queue, ({ m.world.setQueue q queue with
          arbiters := m.world.arbiters ++ [Arbiter.create config q s] } : World).arbiter a =
            if a = m.world.arbiters.length then .create config q s else m.books a := by
        intro queue
        simp only [World.arbiter, List.getD_eq_getElem?_getD, List.getElem?_append]
        rcases Nat.lt_trichotomy a m.world.arbiters.length with hlt | rfl | hgt
        · simp [hlt, Nat.ne_of_lt hlt]
        · simp
        · have hone : [Arbiter.create config q s].length ≤ a - m.world.arbiters.length := by
            simp only [List.length_singleton]
            omega
          rw [if_neg (Nat.lt_asymm hgt), if_neg (Nat.ne_of_gt hgt), List.getElem?_eq_none hone,
            List.getElem?_eq_none (Nat.le_of_lt hgt)]
      by_cases ha : a = m.world.arbiters.length
      · subst ha
        have hcapacity : config.capacity ≤ maxSlots := by simpa [Config.refusal?] using hrefusal
        exact .build (m.world.arbiter_eq_default (Nat.le_refl _))
          ((books_follow _ _ _).trans ((harbiter _).trans (if_pos rfl))) hcapacity ⟨_, hcall⟩
          (follows_follow _ _ _)
      · exact deed_perform_quiet hcall
          (World.quiet_reply ((harbiter _).trans (if_neg ha)) (by simp [Event.isOf]))

private theorem deed_attach {c : ClientId} {tag : Tag} {lock bind : Race}
    (hcall : m.control = .call (.perform (.attach b c tag lock bind)))
    (hthere : (m.world.hasArbiter b && m.world.hasClient c) = true) :
    Deed a m (follow (m.world.attach b c tag lock bind) m.stack m.trace)
      (m.world.attach b c tag lock bind).events.reverse := by
  by_cases hb : b = a
  · subst hb
    unfold World.attach
    split
    · exact deed_perform_quiet hcall (World.quiet_reply rfl (by simp))
    · rename_i hopen
      refine .attach hcall ?_ (by simpa using hopen) (books_follow _ _ _) (follows_follow _ _ _)
      simp [attach?, hcall, hthere]
  · exact deed_perform_quiet hcall (m.world.quiet_attach_ne hb c tag lock bind)

private theorem deed_detach {c : ClientId} (hcall : m.control = .call (.perform (.detach b c))) :
    Deed a m (follow (m.world.detach b c) m.stack m.trace)
      (m.world.detach b c).events.reverse := by
  by_cases hb : b = a
  · subst hb
    unfold World.detach
    split
    · exact deed_perform_quiet hcall (World.quiet_reply rfl (by simp))
    · rename_i hfind
      exact .detach ⟨_, hcall⟩ hfind (books_follow _ _ _) (follows_follow _ _ _)
  · exact deed_perform_quiet hcall (m.world.quiet_detach_ne hb c)

private theorem deed_tryRelease (hcall : m.control = .call (.perform (.tryRelease b)))
    (hthere : m.world.hasArbiter b = true) :
    Deed a m (follow (m.world.tryRelease b) m.stack m.trace)
      (m.world.tryRelease b).events.reverse := by
  by_cases hb : b = a
  · subst hb
    rw [World.tryRelease_eq]
    split
    · exact deed_perform_quiet hcall (World.quiet_reply rfl (by simp))
    · rename_i hcount
      refine .release ⟨_, hcall⟩ (Nat.eq_zero_of_not_pos hcount) ?_ (follows_follow _ _ _)
      rw [books_follow]
      exact m.world.arbiter_setArbiter_self (of_decide_eq_true hthere) _
  · exact deed_perform_quiet hcall (m.world.quiet_tryRelease_ne hb)

theorem deed_perform {action : Action} (hcall : m.control = .call (.perform action)) :
    Deed a m (follow (m.world.perform action) m.stack m.trace)
      (m.world.perform action).events.reverse := by
  have hskip : Deed a m (follow (m.world.reply .skipped) m.stack m.trace) [] :=
    deed_perform_quiet hcall (World.quiet_reply rfl (by simp))
  have hdelivery := fun handle => m.world.quiet_useDelivery (a := a) handle
  cases action with
  | build q s capacity =>
    simp only [World.perform, World.whenThere]
    split
    · exact deed_build hcall q s _
    · exact hskip
  | attach b c tag lock bind =>
    simp only [World.perform, World.whenThere]
    split
    · exact deed_attach hcall ‹_›
    · exact hskip
  | detach b c =>
    simp only [World.perform, World.whenThere]
    split
    · exact deed_detach hcall
    · exact hskip
  | detachAll b =>
    exact deed_perform_quiet hcall (World.quiet_whenThere (m.world.quiet_detachSlots ..))
  | tryRelease b =>
    simp only [World.perform, World.whenThere]
    split
    · exact deed_tryRelease hcall ‹_›
    · exact hskip
  | request b index =>
    simp only [World.perform, World.whenThere]
    split
    · exact hskip
    · rename_i slot hslot
      split
      · exact deed_request _ hcall (by simp [World.asked?, hslot])
      · exact hskip
  | tag b index =>
    simp only [World.perform]
    split
    · exact hskip
    · exact deed_perform_quiet hcall (World.quiet_whenThere (World.quiet_reply rfl (by simp)))
  | notify c => exact deed_held hcall rfl
  | complete c payload => exact deed_perform_quiet hcall (m.world.quiet_useHeld_delivery ..)
  | fail c fault => exact deed_perform_quiet hcall (m.world.quiet_useHeld_delivery ..)
  | handleNotify h =>
    simp only [World.perform]
    cases hlisted : m.world.notifiers[h]? with
    | none => exact hskip
    | some handle => exact deed_request _ hcall hlisted
  | handleComplete h payload =>
    exact deed_perform_quiet hcall (m.world.quiet_useListed fun handle => hdelivery handle _)
  | handleFail h fault =>
    exact deed_perform_quiet hcall (m.world.quiet_useListed fun handle => hdelivery handle _)
  | showNotifier h | showDelivery h =>
    exact deed_perform_quiet hcall
      (m.world.quiet_useListed fun _ _ => World.quiet_reply rfl (by simp))
  | reserve q =>
    refine deed_perform_quiet hcall (World.quiet_whenThere ?_)
    split
    · exact World.quiet_reply rfl (by simp)
    · exact World.quiet_reply rfl (by simp [Event.isOf])
  | enqueue q j | enqueueArbiter q b =>
    exact deed_perform_quiet hcall
      (World.quiet_whenThere (World.quiet_reply rfl (by simp [Event.isOf])))
  | runNext q =>
    exact deed_perform_quiet hcall (World.quiet_whenThere (m.world.quiet_runNext q))
  | runPending q | drain q =>
    exact deed_perform_quiet hcall (World.quiet_whenThere (m.world.quiet_drain q 0 _))
  | dispatch b race | runJob b =>
    exact deed_perform_quiet hcall (World.quiet_whenThere (World.quiet_call rfl rfl (by simp)))
  | info b | reserved q | length q | isEmpty q =>
    exact deed_perform_quiet hcall (World.quiet_whenThere (World.quiet_reply rfl (by simp)))
  | unknown name => exact hskip

/-! ## All calls -/

/-- A pass that serves on the books of a world does so on those of its arbiter. -/
private theorem deed_serve {race : Race} {rest : List Activation} {events : List Event} (w : World)
    (h : Serves a m race (w.arbiter a) rest events.reverse) :
    Deed a m (follow (w.serve a race events) rest m.trace)
      (w.serve a race events).events.reverse := by
  rw [World.serve_eq, List.reverse_append]
  refine .serve h ?_ (follows_follow _ _ _)
  rw [books_follow, World.arbiter_serveOn]
  exact (w.arbiter a).serveOn_spec

private theorem deed_pass {race : Race} (hcall : m.control = .call (.pass b race)) :
    Deed a m (follow (m.world.beginPass b race) m.stack m.trace)
      (m.world.beginPass b race).events.reverse := by
  by_cases hb : b = a
  · subst hb
    unfold World.beginPass
    split
    · rename_i slot howner
      refine .owner hcall howner ?_ (follows_follow _ _ _)
      rw [books_follow]
      refine m.world.arbiter_move_self (World.lt_length_of_arbiter_ne fun hdefault => ?_) _
      rw [hdefault] at howner
      cases howner
    · rename_i howner
      exact deed_serve _ (.idle hcall howner)
  · have hpass : ∀ other, Call.pass b race ≠ .pass a other := by
      intro _ he
      exact hb (Call.pass.inj he).1
    exact deed_call_quiet hcall (by simp) hpass (by simp) (m.world.quiet_beginPass_ne hb race)

private theorem deed_turn {slot : SlotId} (hcall : m.control = .call (.turn b slot)) :
    Deed a m (follow (m.world.beginTurn b slot) m.stack m.trace)
      (m.world.beginTurn b slot).events.reverse := by
  by_cases hb : b = a
  · subst hb
    simp only [World.beginTurn]
    split
    · rename_i hclient
      exact .skipTurn hcall hclient (books_follow _ _ _) (follows_follow _ _ _)
    · rename_i c hclient
      exact .beginTurn hcall hclient (books_follow _ _ _) (follows_follow _ _ _)
  · have hturn : ∀ other, Call.turn b slot ≠ .turn a other := by
      intro _ he
      exact hb (Call.turn.inj he).1
    exact deed_call_quiet hcall hturn (by simp) (by simp) (m.world.quiet_beginTurn_ne hb slot)

private theorem deed_job {job : Job} (hcall : m.control = .call (.job job)) :
    Deed a m (follow (m.world.beginJob job) m.stack m.trace)
      (m.world.beginJob job).events.reverse := by
  cases job with
  | pass b =>
    by_cases hb : b = a
    · subst hb
      refine .job hcall ?_ (follows_follow _ _ _)
      rw [books_follow]
      exact m.world.arbiter_move_of_default rfl
    · apply deed_call_quiet hcall (by simp) (by simp) (by simp [hb])
      exact World.quiet_call (m.world.arbiter_move_ne hb _) rfl (by simp)
  | task j =>
    exact deed_call_quiet hcall (by simp) (by simp) (by simp)
      (World.quiet_call rfl rfl (by simp [Event.isOf]))

theorem deed_call {call : Call} (hcall : m.control = .call call) :
    Deed a m (follow (m.world.begin call) m.stack m.trace) (m.world.begin call).events.reverse := by
  cases call with
  | perform action => exact deed_perform hcall
  | script actions =>
    exact deed_call_quiet hcall (by simp) (by simp) (by simp)
      (m.world.quiet_continueScript actions (by simp))
  | race point race =>
    exact deed_call_quiet hcall (by simp) (by simp) (by simp) (m.world.quiet_beginRace point race)
  | install c kind handle =>
    exact deed_call_quiet hcall (by simp) (by simp) (by simp) (m.world.quiet_beginInstall ..)
  | turn b slot => exact deed_turn hcall
  | pass b race => exact deed_pass hcall
  | report b report =>
    exact deed_call_quiet hcall (by simp) (by simp) (by simp) (m.world.quiet_beginReport report)
  | job job => exact deed_job hcall

/-! ## All activations -/

theorem lt_length_of_placed (hm : m.Placed a) {f : Activation} {rest : List Activation}
    (hstack : m.stack = f :: rest) (hf : f.isOf a = true) (hidle : f ≠ .idle a) :
    a < m.world.arbiters.length :=
  (hm f (mem_frames_of_stack hstack hf)).resolve_left hidle

section
variable {reply : Reply} {rest : List Activation} (hback : m.control = .back reply)
include hback

private theorem deed_claim {c : ClientId} {tag : Tag} {bind : Race}
    (hstack : m.stack = .claim b c tag bind :: rest) :
    Deed a m (follow (m.world.claim b c tag bind) rest m.trace)
      (m.world.claim b c tag bind).events.reverse := by
  by_cases hb : b = a
  · subst hb
    unfold World.claim
    split
    · exact .refuse hback hstack (books_follow _ _ _) (.inl rfl) (follows_follow _ _ _)
    · rename_i hfind
      split
      · exact .refuse hback hstack (books_follow _ _ _) (.inl rfl) (follows_follow _ _ _)
      · rename_i slot claimed hclaim
        obtain ⟨hslot, rfl⟩ := Arbiter.claim?_eq_some.1 hclaim
        have hmem := SlotSet.mem_of_highest? hslot
        split
        · refine .refuse hback hstack ?_ (.inr ⟨slot, hmem, rfl⟩) (follows_follow _ _ _)
          rw [books_follow]
          have hsame : Arbiter.giveBack { m.books b with free := (m.books b).free.erase slot } slot =
              m.books b := by
            simp only [Arbiter.giveBack, SlotSet.insert_erase hmem]
          exact (m.world.arbiter_setArbiter_of_eq hsame).trans hsame
        · rename_i hopen
          refine .claim hback hstack hfind hslot (by simpa using hopen) ?_ (follows_follow _ _ _)
          rw [books_follow]
          refine m.world.arbiter_setArbiter_self (World.lt_length_of_arbiter_ne fun hdefault => ?_) _
          have hempty : (default : Arbiter).free = ∅ := by decide
          simp [hdefault, hempty] at hmem
  · exact deed_back_quiet hback hstack (by simp [Activation.isOf, hb])
      (m.world.quiet_claim_ne hb c tag bind)

private theorem deed_bind (hm : m.Placed a) {c : ClientId} {tag : Tag} {slot : SlotId}
    (hstack : m.stack = .bind b c tag slot :: rest) :
    Deed a m (follow (m.world.bind b c tag slot) rest m.trace)
      (m.world.bind b c tag slot).events.reverse := by
  by_cases hb : b = a
  · subst hb
    have hlt := lt_length_of_placed hm hstack (by simp [Activation.isOf]) (by simp)
    refine .bind hback hstack ?_ (follows_follow _ _ _)
    rw [books_follow]
    exact m.world.arbiter_move_self hlt _
  · exact deed_back_quiet hback hstack (by simp [Activation.isOf, hb])
      (m.world.quiet_bind_ne hb c tag slot)

private theorem deed_uninstall (hm : m.Placed a) {c : ClientId} {slot : SlotId} {kind : HandleKind}
    (hstack : m.stack = .uninstall b c slot kind :: rest) :
    Deed a m (follow (m.world.uninstallNext b c slot kind) rest m.trace)
      (m.world.uninstallNext b c slot kind).events.reverse := by
  by_cases hb : b = a
  · subst hb
    have hlt := lt_length_of_placed hm hstack (by simp [Activation.isOf]) (by simp)
    unfold World.uninstallNext
    split
    · rename_i hkind
      exact .uninstall hback hstack hkind (books_follow _ _ _) (follows_follow _ _ _)
    · rename_i hkind
      have hevents : (m.world.move b (·.mark slot) |>.schedule b).2.reverse =
          (m.books b).scheduling b (m.world.queue (m.books b).queue).hasRoom := by
        rw [World.schedule_events, World.arbiter_move_self _ hlt]
        unfold Arbiter.scheduling
        split <;> rename_i hq
        · simp [show (m.books b).queued = true from hq]
        · simp only [show ¬ (m.books b).queued = true from hq]
          rfl
      simp only [World.reply, List.reverse_cons, hevents]
      refine .mark hback hstack hkind ?_ (follows_follow _ _ _)
      rw [books_follow, World.arbiter_schedule_self _ (by simpa using hlt),
        World.arbiter_move_self _ hlt]
  · exact deed_back_quiet hback hstack (by simp [Activation.isOf, hb])
      (m.world.quiet_uninstallNext_ne hb c slot kind)

private theorem deed_owner {race : Race} (hstack : m.stack = .owner b race :: rest) :
    Deed a m (follow (m.world.afterOwner b race reply.answer) rest m.trace)
      (m.world.afterOwner b race reply.answer).events.reverse := by
  by_cases hb : b = a
  · subst hb
    cases hanswer : reply.answer with
    | busy => exact deed_serve _ (.kept hback hanswer hstack)
    | done =>
      apply deed_serve _
      rw [World.arbiter_move_of_default _ rfl]
      exact .left hback hanswer hstack
  · exact deed_back_quiet hback hstack (by simp [Activation.isOf, hb])
      (m.world.quiet_afterOwner_ne hb race reply.answer)

private theorem deed_afterServe (hm : m.Placed a) {slot : SlotId} {race : Race}
    (hstack : m.stack = .serve b slot race :: rest) :
    Deed a m (follow (m.world.afterServe b slot race reply.answer) rest m.trace)
      (m.world.afterServe b slot race reply.answer).events.reverse := by
  by_cases hb : b = a
  · subst hb
    have hlt := lt_length_of_placed hm hstack (by simp [Activation.isOf]) (by simp)
    cases hanswer : reply.answer with
    | done => exact deed_serve _ (.passed hback hanswer hstack)
    | busy =>
      simp only [World.afterServe]
      split
      · rename_i hpending
        apply deed_serve _
        let owned := m.world.move b ({ · with owner := some slot })
        have hnew : ∀ e ∈ (owned.schedule b).2.reverse, e.isOf b = false := by
          simpa using World.schedule_not_isOf _
        have htook := Serves.took hback hanswer hstack hnew fun _ hqueued => by
          rw [World.schedule_events, World.arbiter_move_self _ hlt]
          simp [show (m.world.arbiter b).queued = false from hqueued]
        rw [World.arbiter_schedule_self _ (by simpa using hlt), World.arbiter_move_self _ hlt]
        simpa [show (m.world.arbiter b).pending.contains slot = true from hpending] using htook
      · rename_i hpending
        apply deed_serve _
        have htook := Serves.took hback hanswer hstack (List.forall_mem_nil _)
          fun h => absurd h hpending
        rw [World.arbiter_move_self _ hlt]
        simpa [show (m.world.arbiter b).pending.contains slot = false by simpa using hpending]
          using htook
  · exact deed_back_quiet hback hstack (by simp [Activation.isOf, hb])
      (m.world.quiet_afterServe_ne hb slot race reply.answer)

private theorem deed_reclaim (hm : m.Placed a) {slot : SlotId}
    (hstack : m.stack = .reclaim b slot :: rest) :
    Deed a m (follow (m.world.afterReclaim b slot) rest m.trace)
      (m.world.afterReclaim b slot).events.reverse := by
  by_cases hb : b = a
  · subst hb
    have hlt := lt_length_of_placed hm hstack (by simp [Activation.isOf]) (by simp)
    rw [World.afterReclaim, World.reclaim_eq, List.reverse_append, World.arbiter_move_self _ hlt]
    refine .reclaim hback hstack ?_ (follows_follow _ _ _)
    rw [books_follow, World.arbiter_setArbiter_self _ (by simpa using hlt)]
    exact Arbiter.reclaimOn_spec _
  · exact deed_back_quiet hback hstack (by simp [Activation.isOf, hb])
      (m.world.quiet_afterReclaim_ne hb slot)

theorem deed_back (hm : m.Placed a) {f : Activation} (hstack : m.stack = f :: rest) :
    Deed a m (follow (m.world.resume reply f) rest m.trace)
      (m.world.resume reply f).events.reverse := by
  have hsilent : ∀ reply, (m.world.reply reply).Quiet a m.world :=
    fun _ => World.quiet_reply rfl (by simp)
  cases f with
  | script action more =>
    exact deed_back_quiet hback hstack rfl
      (m.world.quiet_continueScript more (by simp [Event.isOf]))
  | answer reply => exact deed_back_quiet hback hstack rfl (hsilent reply)
  | turn b slot c answer =>
    by_cases hb : b = a
    · subst hb
      exact .endTurn hback hstack (books_follow _ _ _) (follows_follow _ _ _)
    · exact deed_back_quiet hback hstack (by simp [Activation.isOf, hb])
        (World.quiet_reply rfl (by simp [Event.isOf, hb]))
  | claim b c tag bind => exact deed_claim hback hstack
  | bind b c tag slot => exact deed_bind hback hm hstack
  | install b c slot kind =>
    exact deed_back_quiet hback hstack rfl (m.world.quiet_installNext c slot kind)
  | uninstall b c slot kind => exact deed_uninstall hback hm hstack
  | detachAll b more count =>
    exact deed_back_quiet hback hstack rfl (m.world.quiet_detachSlots _ more)
  | owner b race => exact deed_owner hback hstack
  | serve b slot race => exact deed_afterServe hback hm hstack
  | reclaim b slot => exact deed_reclaim hback hm hstack
  | idle b =>
    by_cases hb : b = a
    · subst hb
      exact .endPass hback hstack (books_follow _ _ _) (follows_follow _ _ _)
    · exact deed_back_quiet hback hstack (by simp [Activation.isOf, hb])
        (World.quiet_reply rfl (by simp [Event.isOf, hb]))
  | drain q ran silent => exact deed_back_quiet hback hstack rfl (m.world.quiet_drain q ran silent)

end

end SharedBus.Machine
