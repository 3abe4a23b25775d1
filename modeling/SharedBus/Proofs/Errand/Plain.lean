import SharedBus.Proofs.Errand.Basic

/-! # Steps that are no errands

Scripts, races, turns, deliveries and most of attaches and passes reserve, queue and start nothing,
and hand nothing to a client.
-/
namespace SharedBus

/-- Whether the call starts a job or hands something to a client. -/
def Call.isErrand (call : Call) : Bool := call.job?.isSome || call.install?.isSome

/-- The second world differs from the first in nothing that an errand would change. -/
structure World.Alike (w w' : World) : Prop where
  posts : w'.posts = w.posts
  queues : w'.queues = w.queues
  holdings : w'.holdings = w.holdings

/-- What an outcome leaves alone if it is no errand. -/
structure Outcome.Plain (w : World) (outcome : Outcome) : Prop where
  alike : w.Alike outcome.world
  next : ∀ call waiting, outcome.next = .call call waiting →
    call.isErrand = false ∧ waiting.isHandover = false
  events : ∀ e ∈ outcome.events, e.isQueueing = false

/-! ## Stages of a pass -/

theorem Stage.isQueueing_of_mem {a : ArbiterId} {stage : Stage} {e : Event}
    (h : e ∈ stage.events a) : e.isQueueing = false := by
  cases stage with
  | idle => cases h
  | turn | reclaim | ended =>
    obtain rfl := List.mem_singleton.1 h
    rfl

theorem Stage.not_errand {a : ArbiterId} {race : Race} {stage : Stage} {call : Call}
    {waiting : Activation} (h : stage.next a race = .call call waiting) :
    call.isErrand = false ∧ waiting.isHandover = false := by
  cases stage with
  | ended => cases h
  | turn | reclaim | idle =>
    obtain ⟨rfl, rfl⟩ := Next.call.inj h
    exact ⟨rfl, rfl⟩

namespace World

variable {w w' w'' : World} {a : ArbiterId} {c : ClientId}

/-! ## Writes that change nothing of the kind -/

theorem Alike.refl (w : World) : w.Alike w := ⟨rfl, rfl, rfl⟩

theorem Alike.trans (h : w.Alike w') (h' : w'.Alike w'') : w.Alike w'' where
  posts := h'.posts.trans h.posts
  queues := h'.queues.trans h.queues
  holdings := h'.holdings.trans h.holdings

theorem Alike.post (h : w.Alike w') (a : ArbiterId) :
    (w'.arbiter a).queue = (w.arbiter a).queue ∧ (w'.arbiter a).queued = (w.arbiter a).queued :=
  post_of_posts h.posts a

theorem posts_setArbiter (w : World) (x : Arbiter) :
    (w.setArbiter a x).posts = w.posts.set a (x.queue, x.queued) := by
  simp [World.posts, setArbiter, List.map_set]

@[simp] theorem holdings_schedule (w : World) : (w.schedule a).1.holdings = w.holdings := by
  unfold schedule
  split <;> rfl

@[simp] theorem holdings_record (w : World) (kind : HandleKind) (handle : Handle) :
    (w.record kind handle).holdings = w.holdings := by
  cases kind <;> rfl

@[simp] theorem posts_record (w : World) (kind : HandleKind) (handle : Handle) :
    (w.record kind handle).posts = w.posts := by
  cases kind <;> rfl

@[simp] theorem queues_record (w : World) (kind : HandleKind) (handle : Handle) :
    (w.record kind handle).queues = w.queues := by
  cases kind <;> rfl

theorem holdings_setClient (w : World) (x : Client) :
    (w.setClient c x).holdings = w.holdings.set c (x.takesErrors, x.handles) := by
  simp [holdings, setClient, List.map_set]

theorem alike_setArbiter (w : World) {x : Arbiter} (hqueue : x.queue = (w.arbiter a).queue)
    (hqueued : x.queued = (w.arbiter a).queued) : w.Alike (w.setArbiter a x) where
  posts := map_set_of_getD _ w.arbiters a default x (Prod.ext hqueue hqueued)
  queues := rfl
  holdings := rfl

theorem alike_move (w : World) {f : Arbiter → Arbiter}
    (hqueue : (f (w.arbiter a)).queue = (w.arbiter a).queue)
    (hqueued : (f (w.arbiter a)).queued = (w.arbiter a).queued) : w.Alike (w.move a f) :=
  w.alike_setArbiter hqueue hqueued

theorem alike_setClient (w : World) {x : Client}
    (htakes : x.takesErrors = (w.client c).takesErrors)
    (hhandles : x.handles = (w.client c).handles) :
    w.Alike (w.setClient c x) where
  posts := rfl
  queues := rfl
  holdings := map_set_of_getD _ w.clients c default x (Prod.ext htakes hhandles)

/-! ## Outcomes -/

theorem plain_reply {reply : Reply} {events : List Event} (h : w.Alike w')
    (hevents : ∀ e ∈ events, e.isQueueing = false) : (w'.reply reply events).Plain w where
  alike := h
  next := by simp
  events := hevents

theorem plain_call {call : Call} {waiting : Activation} {events : List Event} (h : w.Alike w')
    (hcall : call.isErrand = false) (hwaiting : waiting.isHandover = false)
    (hevents : ∀ e ∈ events, e.isQueueing = false) : (w'.call call waiting events).Plain w where
  alike := h
  next := by
    intro _ _ hnext
    obtain ⟨rfl, rfl⟩ := Next.call.inj hnext
    exact ⟨hcall, hwaiting⟩
  events := hevents

theorem plain_silent (w : World) (reply : Reply) : (w.reply reply).Plain w :=
  plain_reply (.refl w) (by simp)

/-! ## Callbacks and deliveries -/

theorem plain_continueScript (w : World) (actions : List Action) {events : List Event}
    (hevents : ∀ e ∈ events, e.isQueueing = false) : (w.continueScript actions events).Plain w := by
  cases actions with
  | nil => exact plain_reply (.refl w) hevents
  | cons action rest => exact plain_call (.refl w) rfl rfl hevents

theorem plain_beginRace (w : World) (point : RacePoint) (race : Race) :
    (w.beginRace point race).Plain w := by
  cases race with
  | none => exact w.plain_silent _
  | some actions => exact plain_call (.refl w) rfl rfl (by simp [Event.isQueueing])

theorem plain_beginTurn (w : World) (a : ArbiterId) (slot : SlotId) :
    (w.beginTurn a slot).Plain w := by
  simp only [beginTurn]
  split
  · exact plain_reply (.refl w) (by simp [Event.isQueueing])
  · refine plain_call (w.alike_setClient ?_ ?_) rfl rfl (by simp [Event.isQueueing])
    all_goals
      unfold Client.nextTurn
      split <;> rfl

theorem plain_beginReport (w : World) (a : ArbiterId) (report : Report) :
    (w.beginReport a report).Plain w := by
  simp only [beginReport]
  split
  · exact plain_call ⟨rfl, rfl, rfl⟩ rfl rfl (by simp [Event.isQueueing])
  · exact w.plain_silent _

theorem plain_useDelivery (w : World) (handle : Handle) (report : Tag → Report) (reply : Reply) :
    (w.useDelivery handle report reply).Plain w := by
  unfold useDelivery
  split
  · exact w.plain_silent _
  · exact plain_call (.refl w) rfl rfl (by simp)

theorem plain_useHeld_delivery (w : World) (c : ClientId) (kind : HandleKind)
    (report : Tag → Report) : (w.useHeld c kind (w.useDelivery · report ·)).Plain w := by
  unfold useHeld
  split
  · split
    · exact w.plain_silent _
    · exact w.plain_useDelivery ..
  · exact w.plain_silent _

theorem plain_useListed (w : World) {handle : Option Handle} {use : Handle → Reply → Outcome}
    (h : ∀ handle reply, (use handle reply).Plain w) : (w.useListed handle use).Plain w := by
  cases handle with
  | none => exact w.plain_silent _
  | some handle => exact h ..

/-! ## Attaching, detaching and releasing -/

theorem plain_attach (w : World) (a : ArbiterId) (c : ClientId) (tag : Tag) (lock bind : Race) :
    (w.attach a c tag lock bind).Plain w := by
  unfold attach
  split
  · exact w.plain_silent _
  · exact plain_call (.refl w) rfl rfl (by simp)

theorem plain_claim (w : World) (a : ArbiterId) (c : ClientId) (tag : Tag) (bind : Race) :
    (w.claim a c tag bind).Plain w := by
  unfold claim
  split
  · exact w.plain_silent _
  · split
    · exact w.plain_silent _
    · rename_i hclaim
      obtain ⟨_, rfl⟩ := Arbiter.claim?_eq_some.1 hclaim
      split
      · exact plain_reply (w.alike_setArbiter rfl rfl) (by simp [Event.isQueueing])
      · exact plain_call (w.alike_setArbiter rfl rfl) rfl rfl (by simp [Event.isQueueing])

theorem plain_detachSlots (w : World) (a : ArbiterId) (count : Nat) (slots : List SlotId) :
    (w.detachSlots a count slots).Plain w := by
  induction slots with
  | nil => exact w.plain_silent _
  | cons slot rest ih =>
    unfold detachSlots
    split
    · exact ih
    · exact plain_call (.refl w) rfl rfl (by simp)

theorem plain_tryRelease (w : World) (a : ArbiterId) : (w.tryRelease a).Plain w := by
  rw [tryRelease_eq]
  split
  · exact w.plain_silent _
  · exact plain_reply (w.alike_setArbiter rfl rfl) (by simp [Event.isQueueing])

/-! ## Passes -/

/-- What a pass does on the books alone is no errand. -/
theorem alike_serveOn (w : World) : w.Alike (w.setArbiter a (w.arbiter a).serveOn.1) := by
  obtain ⟨_, _, hx⟩ := (w.arbiter a).serveOn_spec.frame
  exact w.alike_setArbiter (by rw [hx]) (by rw [hx])

theorem plain_serve (h : w.Alike w') (race : Race) {events : List Event}
    (hevents : ∀ e ∈ events, e.isQueueing = false) : (w'.serve a race events).Plain w where
  alike := by
    rw [serve_eq]
    exact h.trans w'.alike_serveOn
  next := by
    rw [serve_eq]
    exact fun _ _ => Stage.not_errand
  events := by
    rw [serve_eq]
    exact List.forall_mem_append.2 ⟨hevents, fun _ => Stage.isQueueing_of_mem⟩

theorem plain_beginPass (w : World) (a : ArbiterId) (race : Race) :
    (w.beginPass a race).Plain w := by
  unfold beginPass
  split
  · exact plain_call (w.alike_move rfl rfl) rfl rfl (by simp [Event.isQueueing])
  · exact plain_serve (.refl w) race (by simp [Event.isQueueing])

theorem plain_afterOwner (w : World) (a : ArbiterId) (race : Race) (answer : Answer) :
    (w.afterOwner a race answer).Plain w := by
  cases answer with
  | busy => exact plain_serve (.refl w) race (by simp)
  | done => exact plain_serve (w.alike_move rfl rfl) race (List.forall_mem_nil _)

theorem plain_afterServe (w : World) (a : ArbiterId) (slot : SlotId) (race : Race) (answer : Answer)
    (h : answer = .busy → (w.arbiter a).pending.contains slot = false) :
    (w.afterServe a slot race answer).Plain w := by
  cases answer with
  | busy =>
    simp only [afterServe, h rfl]
    exact plain_serve (w.alike_move rfl rfl) race (List.forall_mem_nil _)
  | done => exact plain_serve (.refl w) race (List.forall_mem_nil _)

theorem plain_afterReclaim (w : World) (a : ArbiterId) (slot : SlotId) :
    (w.afterReclaim a slot).Plain w where
  alike := by
    rw [afterReclaim, reclaim_eq]
    obtain ⟨_, _, hx⟩ := (Arbiter.reclaimOn_spec
      ((w.move a fun x => (x.unbind slot).giveBack slot).arbiter a)).frame
    have hfreed : w.Alike (w.move a fun x => (x.unbind slot).giveBack slot) := w.alike_move rfl rfl
    exact hfreed.trans (alike_setArbiter _ (congrArg (·.queue) hx) (congrArg (·.queued) hx))
  next := by
    rw [afterReclaim, reclaim_eq]
    exact fun _ _ => Stage.not_errand
  events := by
    rw [afterReclaim, reclaim_eq]
    exact List.forall_mem_append.2 ⟨by simp [Event.isQueueing], fun _ => Stage.isQueueing_of_mem⟩

end World

end SharedBus
