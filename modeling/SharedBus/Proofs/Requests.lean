import SharedBus.Proofs.Deed.Run

/-! # Requests are neither lost nor duplicated

The pending slots are a summary of the trace: those whose latest request is later than their last
turn and their last discard. Only a pass that gives slots back discards requests, and it begins to
do so when none is left.
-/
namespace SharedBus

namespace Event

variable {a : ArbiterId} {slot : SlotId}

/-- A pass took the request of the slot, if there was one, to give it a turn. -/
def isTurn (a : ArbiterId) (slot : SlotId) : Event → Bool
  | .continued b s | .served b s => b == a && s == slot
  | _ => false

/-- A turn of the slot, or the discard of its request. -/
def settles (a : ArbiterId) (slot : SlotId) : Event → Bool
  | .continued b s | .served b s | .withdrawn b s => b == a && s == slot
  | _ => false

theorem settles_of_isTurn {e : Event} (h : e.isTurn a slot = true) : e.settles a slot = true := by
  cases e <;> first | exact h | cases h

theorem settles_of_not_isOf {e : Event} (h : e.isOf a = false) : e.settles a slot = false := by
  cases e <;> simp_all [isOf, settles]

theorem ne_requested_of_not_isOf {e : Event} (h : e.isOf a = false) : e ≠ .requested a slot := by
  rintro rfl
  simp [isOf] at h

end Event

/-- The slot has made a request that is later than its last turn and its last discard. -/
def Asked (a : ArbiterId) (slot : SlotId) (trace : List Event) : Prop :=
  ∃ newer older, trace = newer ++ .requested a slot :: older ∧
    ∀ e ∈ newer, e.settles a slot = false

section
variable {a : ArbiterId} {slot : SlotId} {e : Event} {trace new older : List Event}

theorem asked_cons : Asked a slot (e :: trace) ↔
    e = .requested a slot ∨ e.settles a slot = false ∧ Asked a slot trace := by
  constructor
  · rintro ⟨newer, older, htrace, hnewer⟩
    cases newer with
    | nil => exact .inl (List.cons.inj htrace).1
    | cons f newer =>
      obtain ⟨rfl, rfl⟩ := List.cons.inj htrace
      obtain ⟨hf, hnewer⟩ := List.forall_mem_cons.1 hnewer
      exact .inr ⟨hf, newer, older, rfl, hnewer⟩
  · rintro (rfl | ⟨he, newer, older, rfl, hnewer⟩)
    · exact ⟨[], trace, rfl, List.forall_mem_nil _⟩
    · exact ⟨e :: newer, older, rfl, List.forall_mem_cons.2 ⟨he, hnewer⟩⟩

theorem not_asked_nil : ¬ Asked a slot [] := by
  rintro ⟨newer, older, htrace, _⟩
  simp at htrace

/-- What is none of the arbiter's business tells nothing about its requests. -/
theorem asked_append (hnew : ∀ e ∈ new, e.isOf a = false) :
    Asked a slot (new ++ trace) ↔ Asked a slot trace := by
  induction new with
  | nil => rfl
  | cons e new ih =>
    obtain ⟨he, hnew⟩ := List.forall_mem_cons.1 hnew
    rw [List.cons_append, asked_cons, ih hnew]
    simp [Event.ne_requested_of_not_isOf he, Event.settles_of_not_isOf he]

/-- A request that is still open after an earlier one was settled was made in between. -/
theorem requested_of_asked_append (h : Asked a slot (new ++ e :: trace))
    (he : e.settles a slot = true) : .requested a slot ∈ new := by
  induction new with
  | nil =>
    rcases asked_cons.1 h with rfl | ⟨hnot, _⟩
    · cases he
    · simp [he] at hnot
  | cons f new ih =>
    rcases asked_cons.1 h with rfl | ⟨_, h⟩
    · exact List.mem_cons_self
    · exact List.mem_cons_of_mem _ (ih h)

/-- Who has asked only now has made a request now. -/
theorem requested_of_asked (h : Asked a slot (new ++ trace)) (hold : ¬ Asked a slot trace) :
    .requested a slot ∈ new := by
  induction new with
  | nil => exact absurd h hold
  | cons e new ih =>
    rcases asked_cons.1 h with rfl | ⟨_, h⟩
    · exact List.mem_cons_self
    · exact List.mem_cons_of_mem _ (ih h)

/-- A request that stays open is not settled. -/
theorem not_settles_of_asked (h : Asked a slot (new ++ trace)) (hnew : .requested a slot ∉ new) :
    ∀ e ∈ new, e.settles a slot = false := by
  intro e he
  obtain ⟨newer, older, rfl⟩ := List.append_of_mem he
  refine Bool.eq_false_iff.2 fun hsettles => hnew (List.mem_append_left _ ?_)
  rw [List.append_assoc, List.cons_append] at h
  exact requested_of_asked_append h hsettles

theorem suffix_of_append {l : List Event} (hnew : e ∉ new) (h : e :: l <:+ new ++ trace) :
    e :: l <:+ trace := by
  induction new with
  | nil => exact h
  | cons f new ih =>
    rw [List.cons_append, List.suffix_cons_iff] at h
    rcases h with heq | h
    · exact absurd (List.cons.inj heq).1 (List.ne_of_not_mem_cons hnew)
    · exact ih (fun hmem => hnew (List.mem_cons_of_mem _ hmem)) h

end

open Machine

/-- The pending slots are those that have asked. -/
def Machine.Tallied (a : ArbiterId) (m : Machine) : Prop :=
  ∀ slot, slot ∈ (m.books a).pending ↔ Asked a slot m.trace

theorem Machine.Serves.asked {a : ArbiterId} {m : Machine} {race : Race} {x : Arbiter}
    {rest : List Activation} {new : List Event} (h : Serves a m race x rest new) (slot : SlotId) :
    x.pending = (m.books a).pending ∧
      (Asked a slot (new ++ m.trace) ↔ Asked a slot m.trace) := by
  cases h with
  | idle => exact ⟨rfl, by simp [asked_cons, Event.settles]⟩
  | kept | left | passed => exact ⟨rfl, Iff.rfl⟩
  | took _ _ _ hnew _ => exact ⟨rfl, asked_append hnew⟩

theorem Arbiter.ReclaimsTo.asked {a : ArbiterId} {x y : Arbiter} {stage : Stage} {slot : SlotId}
    {trace : List Event} (h : x.ReclaimsTo y stage) (hx : slot ∈ x.pending ↔ Asked a slot trace) :
    slot ∈ y.pending ↔ Asked a slot ((stage.events a).reverse ++ trace) := by
  cases h with
  | @reclaim other _ _ =>
    simp [Arbiter.withdraw, Stage.events, asked_cons, Event.settles, hx, @eq_comm _ other, and_comm]
  | idle => exact hx
  | ended => simpa [Stage.events, asked_cons, Event.settles] using hx

theorem Arbiter.ServesTo.asked {a : ArbiterId} {x y : Arbiter} {stage : Stage} {slot : SlotId}
    {trace : List Event} (h : x.ServesTo y stage) (hx : slot ∈ x.pending ↔ Asked a slot trace) :
    slot ∈ y.pending ↔ Asked a slot ((stage.events a).reverse ++ trace) := by
  cases h with
  | ended => simpa [Stage.events, asked_cons, Event.settles] using hx
  | @turn other _ _ =>
    simp [Arbiter.clearPending, Stage.events, asked_cons, Event.settles, hx, @eq_comm _ other,
      and_comm]
  | reclaim _ _ h => exact h.asked hx

theorem Deed.tallied {a : ArbiterId} {m m' : Machine} {new : List Event} (h : Deed a m m' new)
    (htrace : m'.trace = new ++ m.trace) (hm : m.Tallied a) : m'.Tallied a := by
  intro slot
  have hold := hm slot
  rw [htrace]
  cases h with
  | quiet h hnew => rw [h.books, asked_append hnew, hold]
  | build hx hx' =>
    rw [hx] at hold
    have hnot : ¬ Asked a slot m.trace := fun hasked => SlotSet.notMem_empty (hold.2 hasked)
    rw [hx']
    simpa [asked_cons, Event.settles, Arbiter.create] using hnot
  | attach _ _ _ hx' | detach _ _ hx' | uninstall _ _ _ hx' | endPass _ _ hx' | skipTurn _ _ hx'
  | beginTurn _ _ hx' | endTurn _ _ hx' =>
    rw [hx', hold]
    simp [asked_cons, Event.settles]
  | refuse _ _ hx' hnew =>
    rw [hx', hold]
    rcases hnew with rfl | ⟨_, _, rfl⟩ <;> simp [asked_cons, Event.settles]
  | claim _ _ _ _ _ hx' | bind _ _ hx' | release _ _ hx' | job _ hx' =>
    rw [hx']
    simpa [asked_cons, Event.settles, Arbiter.bind] using hold
  | @mark c marked _ _ _ room _ _ _ hx' =>
    have hmarked : Asked a slot (.marked a marked c :: m.trace) ↔ Asked a slot m.trace := by
      simp [asked_cons, Event.settles]
    rw [hx', List.append_assoc, asked_append Arbiter.scheduling_not_isOf]
    exact hold.trans hmarked.symm
  | @request other _ _ _ hx' hnew =>
    rw [hx', List.append_assoc, asked_append hnew]
    simp [Arbiter.setPending, asked_cons, Event.settles, hold, @eq_comm _ other, or_comm]
  | @owner _ other _ _ hx' =>
    rw [hx']
    simp [Arbiter.clearPending, asked_cons, Event.settles, hold, @eq_comm _ other, and_comm]
  | serve h hto =>
    obtain ⟨hpending, hasked⟩ := h.asked slot
    rw [List.append_assoc]
    exact hto.asked (by rw [hpending, hold, hasked])
  | reclaim _ _ hto =>
    rw [List.append_assoc]
    apply hto.asked
    simpa [Arbiter.giveBack, Arbiter.unbind, asked_cons, Event.settles] using hold

theorem Machine.Reachable.tallied {a : ArbiterId} {m : Machine} {P : Machine → Prop}
    (h : Reachable P m) : m.Tallied a := by
  refine h.deed_induction (fun w hw slot => ?_) fun m m' _ _ _ hdeed htrace ih =>
    hdeed.tallied htrace ih
  rw [books_rest hw]
  exact iff_of_false SlotSet.notMem_empty not_asked_nil

/-! ## No turn without a request -/

/-- A deed gives at most one turn to a pending slot, and that is the last that it makes known. -/
theorem Deed.served {a : ArbiterId} {m m' : Machine} {new : List Event} (h : Deed a m m' new) :
    (∀ slot, .served a slot ∉ new) ∨
      ∃ slot before, new = .served a slot :: before ∧ slot ∈ (m.books a).pending ∧
        (Asked a slot (before ++ m.trace) ↔ Asked a slot m.trace) ∧
        ∀ other, .served a other ∉ before := by
  have hsilent : ∀ {events : List Event} {slot : SlotId}, (∀ e ∈ events, e.isOf a = false) →
      .served a slot ∉ events := by
    intro events slot hevents hmem
    simpa [Event.isOf] using hevents _ hmem
  cases h with
  | quiet _ hnew => exact .inl fun _ => hsilent hnew
  | refuse _ _ _ hnew => rcases hnew with rfl | ⟨_, _, rfl⟩ <;> exact .inl (by simp)
  | mark =>
    refine .inl fun slot hmem => ?_
    rcases List.mem_append.1 hmem with hmem | hmem
    · exact hsilent Arbiter.scheduling_not_isOf hmem
    · simp at hmem
  | request _ _ hnew =>
    refine .inl fun slot hmem => ?_
    rcases List.mem_append.1 hmem with hmem | hmem
    · exact hsilent hnew hmem
    · simp at hmem
  | reclaim _ _ hto =>
    generalize m'.books a = y at hto
    cases hto <;> exact .inl (by simp [Stage.events])
  | @serve _ x _ before stage hserves hto =>
    have hbefore : ∀ slot, .served a slot ∉ before := by
      cases hserves with
      | idle => simp
      | kept | left | passed => simp
      | took _ _ _ hnew => exact fun _ => hsilent hnew
    generalize m'.books a = y at hto
    cases hto with
    | ended => exact .inl (by simpa [Stage.events] using hbefore)
    | @turn slot _ hslot =>
      obtain ⟨hpending, hasked⟩ := hserves.asked slot
      exact .inr ⟨slot, before, rfl, hpending ▸ SlotSet.mem_of_highest? hslot, hasked, hbefore⟩
    | reclaim _ _ hto => cases hto <;> exact .inl (by simpa [Stage.events] using hbefore)
  | _ => exact .inl (by simp)

/-- Whenever a pass took a request, there was one. -/
theorem Machine.Reachable.asked_of_served {a : ArbiterId} {m : Machine} {P : Machine → Prop}
    {slot : SlotId} {older : List Event} (h : Reachable P m)
    (hserved : .served a slot :: older <:+ m.trace) : Asked a slot older := by
  revert hserved
  refine h.deed_induction (a := a) (I := fun m => .served a slot :: older <:+ m.trace → _)
    (fun w _ hserved => ?_) fun m m' new hm _ hdeed htrace ih hserved => ?_
  · simp [rest] at hserved
  · rw [htrace] at hserved
    rcases hdeed.served with hnone | ⟨other, before, rfl, hmem, hasked, hbefore⟩
    · exact ih (suffix_of_append (hnone slot) hserved)
    · rw [List.cons_append, List.suffix_cons_iff] at hserved
      rcases hserved with heq | hserved
      · obtain ⟨he, rfl⟩ := List.cons.inj heq
        obtain ⟨_, rfl⟩ := Event.served.inj he
        exact hasked.2 ((hm.tallied slot).1 hmem)
      · exact ih (suffix_of_append (hbefore slot) hserved)

/-! ## A request is served before its slot is free -/

namespace Machine

variable {a : ArbiterId} {m m' : Machine} {slot : SlotId} {new : List Event}

/-- A pass of the arbiter is giving slots back. -/
def Reclaiming (a : ArbiterId) (m : Machine) : Prop := ∃ f ∈ m.stack, ∃ slot, f = .reclaim a slot

/-- The slot waits for a turn, and no pass will overlook that. -/
structure Owed (a : ArbiterId) (slot : SlotId) (m : Machine) : Prop where
  pending : slot ∈ (m.books a).pending
  not_free : slot ∉ (m.books a).free
  not_reclaiming : ¬ m.Reclaiming a

private theorem Owed.of_follows (hm : m.Owed a slot) {next : Next} {stack : List Activation}
    (hpending : slot ∈ (m'.books a).pending) (hfree : slot ∉ (m'.books a).free)
    (hstack : ∀ f ∈ stack, f ∈ m.stack)
    (hwaiting : ∀ f ∈ next.waiting?, ∀ other, f ≠ .reclaim a other)
    (hnext : m'.Follows next stack) : m'.Owed a slot := by
  refine ⟨hpending, hfree, ?_⟩
  rintro ⟨f, hf, other, rfl⟩
  rcases hnext.mem_stack hf with hold | hnew
  · exact hm.not_reclaiming ⟨_, hstack _ hold, other, rfl⟩
  · exact hwaiting _ hnew other rfl

end Machine

/-- Each deed leaves the request of the slot open, or gives it the turn. -/
theorem Deed.owed {a : ArbiterId} {m m' : Machine} {slot : SlotId} {new : List Event}
    (h : Deed a m m' new) (hm : m.Owed a slot) :
    (∃ e ∈ new, e.isTurn a slot = true) ∨ m'.Owed a slot := by
  obtain ⟨hpending, hfree, hreclaiming⟩ := id hm
  have hhead : ∀ {f rest}, m.stack = f :: rest → ∀ g ∈ rest, g ∈ m.stack :=
    fun hstack _ hg => hstack ▸ List.mem_cons_of_mem _ hg
  cases h with
  | quiet h =>
    refine .inr ⟨by rwa [h.books], by rwa [h.books], ?_⟩
    rintro ⟨f, hf, other, rfl⟩
    exact hreclaiming ⟨_, h.mem_stack (by simp [Activation.isOf]) hf, other, rfl⟩
  | build hx =>
    rw [hx] at hpending
    exact absurd hpending SlotSet.notMem_empty
  | attach _ _ _ hx' hnext | detach _ _ hx' hnext | skipTurn _ _ hx' hnext
  | beginTurn _ _ hx' hnext =>
    exact .inr (hm.of_follows (by rwa [hx']) (by rwa [hx']) (fun _ hf => hf) (by simp) hnext)
  | refuse _ hstack hx' _ hnext | uninstall _ hstack _ hx' hnext | endPass _ hstack hx' hnext
  | endTurn _ hstack hx' hnext =>
    exact .inr (hm.of_follows (by rwa [hx']) (by rwa [hx']) (hhead hstack) (by simp) hnext)
  | claim _ hstack _ _ _ hx' hnext =>
    refine .inr (hm.of_follows (by rwa [hx']) ?_ (hhead hstack) (by simp) hnext)
    rw [hx']
    exact fun hmem => hfree (SlotSet.mem_erase.1 hmem).1
  | bind _ hstack hx' hnext | mark _ hstack _ hx' hnext =>
    exact .inr (hm.of_follows (by rwa [hx']) (by rwa [hx']) (hhead hstack) (by simp) hnext)
  | release _ _ hx' hnext | job _ hx' hnext =>
    exact .inr (hm.of_follows (by rwa [hx']) (by rwa [hx']) (fun _ hf => hf) (by simp) hnext)
  | request _ hx' _ _ hnext =>
    refine .inr (hm.of_follows ?_ (by rwa [hx']) (fun _ hf => hf) (by simp) hnext)
    rw [hx']
    exact SlotSet.mem_insert.2 (.inl hpending)
  | @owner _ other _ _ hx' hnext =>
    by_cases he : slot = other
    · subst he
      exact .inl ⟨_, List.mem_cons_self, by simp [Event.isTurn]⟩
    · refine .inr (hm.of_follows ?_ (by rwa [hx']) (fun _ hf => hf) (by simp) hnext)
      rw [hx']
      exact SlotSet.mem_erase.2 ⟨hpending, he⟩
  | @serve race x rest before stage hserves hto hnext =>
    obtain ⟨hxpending, hxfree, _, _⟩ := hserves.books
    have hrest : ∀ f ∈ rest, f ∈ m.stack := fun _ hf => hserves.suffix.mem hf
    rw [← hxpending] at hpending
    rw [← hxfree] at hfree
    generalize hy : m'.books a = y at hto
    cases hto with
    | ended =>
      exact .inr (hm.of_follows (by rwa [hy]) (by rwa [hy]) hrest (by simp [Stage.next]) hnext)
    | @turn other _ _ =>
      by_cases he : slot = other
      · subst he
        exact .inl ⟨.served a slot, by simp [Stage.events], by simp [Event.isTurn]⟩
      · refine .inr (hm.of_follows ?_ (by rwa [hy]) hrest (by simp [Stage.next]) hnext)
        rw [hy]
        exact SlotSet.mem_erase.2 ⟨hpending, he⟩
    -- a pass gives slots back only with no request left
    | reclaim _ hnone _ => exact absurd hpending (SlotSet.isEmpty_iff.1 hnone slot)
  | reclaim _ hstack =>
    exact absurd ⟨_, hstack ▸ List.mem_cons_self, _, rfl⟩ hreclaiming

namespace Machine

variable {a : ArbiterId} {m m' : Machine} {slot : SlotId} {new : List Event}

/-- From its request on, the slot is owed a turn. -/
theorem step_owed (h : m.request? = some ⟨a, slot⟩) (hreclaiming : ¬ m.Reclaiming a) :
    m.step.Owed a slot := by
  obtain ⟨haccepts, action, reply, hcall, hperform⟩ := perform_of_request? h
  have hlt := World.lt_length_of_accepts haccepts
  have hfree := (Arbiter.mem_occupied.1 (Arbiter.accepts_iff.1 haccepts)).2
  have hstep : m.step = follow (m.world.useNotifier ⟨a, slot⟩ reply) m.stack m.trace := by
    rw [step_of_call hcall, World.begin, hperform]
  have hbooks : (m.step.books a).pending = (m.books a).pending.insert slot ∧
      (m.step.books a).free = (m.books a).free := by
    rw [hstep, books_follow]
    simp only [World.useNotifier, World.request, haccepts, if_true]
    split
    · simp only [World.reply]
      rw [World.arbiter_schedule_self _ (by simpa using hlt), World.arbiter_move_self _ hlt]
      exact ⟨rfl, rfl⟩
    · simp only [World.reply]
      rw [World.arbiter_move_self _ hlt]
      exact ⟨rfl, rfl⟩
  constructor
  · rw [hbooks.1]
    exact SlotSet.mem_insert.2 (.inr rfl)
  · rwa [hbooks.2]
  · rw [hstep]
    exact hreclaiming

private theorem Run.owed (hm : Reachable Anyhow m) (h : m.request? = some ⟨a, slot⟩)
    (hreclaiming : ¬ m.Reclaiming a) (hrun : Run Anyhow m m') (htrace : m'.trace = new ++ m.trace) :
    m' = m ∨ (∃ e ∈ new, e.isTurn a slot = true) ∨ m'.Owed a slot := by
  refine Run.deed_induction (a := a)
    (I := fun m' new => m' = m ∨ (∃ e ∈ new, e.isTurn a slot = true) ∨ m'.Owed a slot)
    hm (.inl rfl) (fun m₁ m₂ older new _ _ hgoes hdeed _ ih => .inr ?_) hrun htrace
  rcases ih with rfl | ⟨e, he, hturn⟩ | howed
  · cases hgoes with
    | step _ => exact .inr (step_owed h hreclaiming)
    | act hfin _ =>
      obtain ⟨⟨reply, hback⟩, _⟩ := isFinished_iff.1 hfin
      simp [request?, hback] at h
  · exact .inl ⟨e, List.mem_append_right _ he, hturn⟩
  · rcases hdeed.owed howed with ⟨e, he, hturn⟩ | howed
    · exact .inl ⟨e, List.mem_append_left _ he, hturn⟩
    · exact .inr howed

/-! ## Main result -/

/-- The pending slots are those that have asked since their last turn and their last discard. So
each turn that a pass gives to a pending slot answers a request of its own, and a request made while
no pass gives slots back is answered by a turn before the slot is free. -/
theorem requests_neither_lost_nor_duplicated (hm : Reachable Anyhow m) (a : ArbiterId)
    (slot : SlotId) :
    (slot ∈ (m.books a).pending ↔ Asked a slot m.trace) ∧
    (∀ older, .served a slot :: older <:+ m.trace → Asked a slot older) ∧
    (∀ between e older, .served a slot :: (between ++ e :: older) <:+ m.trace →
      e.settles a slot = true → .requested a slot ∈ between) ∧
    (m.request? = some ⟨a, slot⟩ → ¬ m.Reclaiming a →
      ∀ m' new, Run Anyhow m m' → m'.trace = new ++ m.trace → slot ∈ (m'.books a).free →
        ∃ e ∈ new, e.isTurn a slot = true) := by
  refine ⟨hm.tallied slot, fun older h => hm.asked_of_served h, fun between e older h he => ?_,
    fun hrequest hreclaiming m' new hrun htrace hfree => ?_⟩
  · exact requested_of_asked_append (hm.asked_of_served h) he
  · rcases hrun.owed hm hrequest hreclaiming htrace with rfl | hturn | howed
    · have haccepts := (perform_of_request? hrequest).1
      exact absurd hfree (Arbiter.mem_occupied.1 (Arbiter.accepts_iff.1 haccepts)).2
    · exact hturn
    · exact absurd hfree howed.not_free

/-- A slot that is on its way out asks once more, and has its turn before it is free. -/
theorem requests_neither_lost_nor_duplicated_detaching :
    let m := play 35 [.build 0 0 (some 2), .attach 0 1 ⟨7⟩ none none, .detach 0 1, .request 0 1]
      (rest .playground)
    let m' := play 60 [.runPending 0] m
    (1 : SlotId) ∈ (m.books 0).detaching ∧ m.request? = some ⟨0, 1⟩ ∧
      (1 : SlotId) ∈ (m'.books 0).free ∧
      ∃ new, m'.trace = new ++ m.trace ∧ ∃ e ∈ new, e.isTurn 0 1 = true := by
  intro m m'
  have hm : Reachable Anyhow m := .of_plays World.isInitial_playground 35 _ (by decide +kernel)
  have hrun : Run Anyhow m m' := .of_plays (by decide +kernel)
  have hrequest : m.request? = some ⟨0, 1⟩ := by decide +kernel
  have hstack : m.stack = [] := by
    have hempty : m.stack.isEmpty = true := by decide +kernel
    simpa using hempty
  have hreclaiming : ¬ m.Reclaiming 0 := by
    rintro ⟨f, hf, _⟩
    rw [hstack] at hf
    cases hf
  have hfree : (1 : SlotId) ∈ (m'.books 0).free := by decide +kernel
  obtain ⟨new, htrace⟩ := hrun.trace
  obtain ⟨_, _, _, hserved⟩ := requests_neither_lost_nor_duplicated hm 0 1
  exact ⟨by decide +kernel, hrequest, hfree, new, htrace,
    hserved hrequest hreclaiming m' new hrun htrace hfree⟩

end Machine

end SharedBus
