import SharedBus.Proofs.Discipline
import SharedBus.Proofs.Reservation
import SharedBus.Proofs.Workload.Pass

/-! # The schedule of a workload

Slots of an idle arbiter ask for the bus, and whoever owns it after a pass asks for the next one. So
the passes go through the agenda turn by turn, and each of them but the last leaves one turn less to
keep the bus for.
-/
namespace SharedBus

open Machine

namespace World

/-! ## Requests -/

theorem asked?_eq {w w' : World} (hnotifiers : w'.notifiers = w.notifiers)
    (hhandles : ∀ c, (w'.client c).handles = (w.client c).handles) (action : Action) :
    w'.asked? action = w.asked? action := by
  cases action with
  | notify c => exact congrArg PerKind.notifier (hhandles c)
  | handleNotify index => exact congrArg (·[index]?) hnotifiers
  | _ => rfl

/-- Whichever action asks for service, it is the request that counts. -/
theorem act_of_asked? {w : World} {action : Action} {handle : Handle}
    (hasked : w.asked? action = some handle)
    (haccepts : (w.arbiter handle.arbiter).accepts handle.slot = true) :
    (w.act action).world = (w.request handle.arbiter handle.slot).1 ∧
      (w.act action).events = (w.request handle.arbiter handle.slot).2 := by
  have hrequest : (start w action).request? = some handle := by
    simp [request?, start, hasked, haccepts]
  obtain ⟨_, _, reply, hcontrol, hperform⟩ := perform_of_request? hrequest
  obtain rfl := Call.perform.inj (Control.call.inj hcontrol)
  have hperform : w.perform action = w.useNotifier handle reply := hperform
  have hends : (w.perform action).Ends ⟨(w.request handle.arbiter handle.slot).1, reply,
      (w.request handle.arbiter handle.slot).2⟩ := by
    rw [hperform]
    exact .reply ..
  rw [act_of_ends hends]
  exact ⟨rfl, rfl⟩

section
variable {base : World} {a : ArbiterId} (hbase : base.Workplace a) {owner : Option SlotId}
variable {pending : SlotSet} {queued : Bool} {clients : List Client} {slot : SlotId}
include hbase

/-- A request is noted, and queues the pass unless it waits already. -/
theorem request_working (haccepts : (base.arbiter a).accepts slot = true)
    (h : queued = false → owner = some slot ∨ owner = none ∧ pending.isEmpty) :
    (base.working a owner pending queued clients).request a slot =
      (base.working a owner (pending.insert slot) true clients, .requested a slot ::
        if queued then [] else [.queued (base.arbiter a).queue (.pass a) true]) := by
  have haccepts : (Arbiter.accepts { base.arbiter a with
      owner := owner, pending := pending, queued := queued } slot) = true := haccepts
  simp only [request, arbiter_working hbase, haccepts, if_true, working_setPending hbase,
    schedule_working hbase]
  split
  · rfl
  · rename_i hwants
    cases queued with
    | true => rfl
    | false =>
      rcases h rfl with rfl | ⟨rfl, hpending⟩
      · simp [Arbiter.wantsPass] at hwants
      · simp [Arbiter.wantsPass, hpending] at hwants

/-- Whichever action asks, the slot is pending afterwards and the pass is queued. -/
theorem act_working {action : Action}
    (hhandles : ∀ c, (clients.getD c default).handles = (base.client c).handles)
    (hasked : base.asked? action = some ⟨a, slot⟩) (haccepts : (base.arbiter a).accepts slot = true)
    (h : queued = false → owner = some slot ∨ owner = none ∧ pending.isEmpty) :
    ((base.working a owner pending queued clients).act action).world =
        base.working a owner (pending.insert slot) true clients ∧
      Tells [] (if queued then [] else [.queued (base.arbiter a).queue (.pass a) true])
        ((base.working a owner pending queued clients).act action).events := by
  have hsame : (base.working a owner pending queued clients).asked? action = base.asked? action :=
    asked?_eq (by rfl) (by exact hhandles) action
  have hthere : ((base.working a owner pending queued clients).arbiter a).accepts slot = true := by
    rw [arbiter_working hbase]
    exact haccepts
  obtain ⟨hworld, hevents⟩ := act_of_asked? (hsame.trans hasked) hthere
  rw [hworld, hevents, request_working hbase haccepts h]
  refine ⟨rfl, ?_⟩
  cases queued <;> exact ⟨rfl, rfl⟩

/-- However the slots are asked for and however often, all of them are pending then, and the pass is
queued once. -/
theorem actAll_working {asks : List Action} (h : queued = false → pending.isEmpty)
    (hhandles : ∀ c, (clients.getD c default).handles = (base.client c).handles)
    (hasks : ∀ action ∈ asks, ∃ slot, base.asked? action = some ⟨a, slot⟩ ∧
      (base.arbiter a).accepts slot = true) :
    ∃ pending', ((base.working a none pending queued clients).actAll asks).1 =
        base.working a none pending' (queued || !asks.isEmpty) clients ∧
      (∀ slot, slot ∈ pending' ↔ slot ∈ pending ∨
        ∃ action ∈ asks, base.asked? action = some ⟨a, slot⟩) ∧
      Tells [] (if queued || asks.isEmpty then [] else
          [.queued (base.arbiter a).queue (.pass a) true])
        ((base.working a none pending queued clients).actAll asks).2 := by
  induction asks generalizing pending queued with
  | nil => exact ⟨pending, by simp [actAll], by simp, by simpa [actAll] using Tells.nil⟩
  | cons action asks ih =>
    obtain ⟨⟨slot, hasked, haccepts⟩, hasks⟩ := List.forall_mem_cons.1 hasks
    obtain ⟨hworld, htells⟩ := act_working hbase hhandles hasked haccepts
      fun hqueued => .inr ⟨rfl, h hqueued⟩
    have hlater : true = false → (pending.insert slot).isEmpty := by simp
    obtain ⟨pending', hrest, hmem, hevents⟩ := ih hlater hasks
    refine ⟨pending', ?_, fun other => ?_, ?_⟩
    · rw [actAll, hworld, hrest]
      simp
    · rw [hmem other, SlotSet.mem_insert]
      simp [hasked, eq_comm, or_assoc]
    · rw [actAll, hworld]
      have hdid : ∀ name reply, Tells [] [] [.did name reply] := fun _ _ => ⟨rfl, rfl⟩
      simpa using (htells.append (hdid _ _)).append hevents

end

/-! ## Rounds -/

/-- The world in which the pass of this agenda waits. If it is not the first one, the first slot
owns the bus. -/
inductive BeforePass (base : World) (a : ArbiterId) : Agenda → World → Prop
  | mk {todo : Agenda} {owner : Option SlotId} {pending : SlotSet} {clients : List Client}
    (hcrew : base.Crew a todo clients) (hwaits : todo.Waits pending)
    (howner : ∀ slot ∈ owner, ∃ k rest, todo = (slot, k) :: rest) :
    BeforePass base a todo (base.working a owner pending true clients)

/-- Runs the queued pass and lets the owner ask for the next one, until the bus is idle after a
pass, but no more passes than these. -/
def rounds (a : ArbiterId) (ask : SlotId → Action) : Nat → World → World × List Event
  | 0, w => (w, [])
  | n + 1, w =>
    let pass := w.act (.runNext (w.arbiter a).queue)
    match (pass.world.arbiter a).owner with
    | none => (pass.world, pass.events)
    | some slot =>
      let asked := pass.world.act (ask slot)
      let (after, events) := rounds a ask n asked.world
      (after, pass.events ++ asked.events ++ events)

/-- A pass after which the bus is kept. -/
def lap (base : World) (a : ArbiterId) : List Event :=
  let q := (base.arbiter a).queue
  [.queued q (.pass a) true, .started q (.pass a), .passBegun a, .passEnded a]

/-- A pass after which the bus is idle. -/
def lastLap (base : World) (a : ArbiterId) : List Event :=
  let q := (base.arbiter a).queue
  [.queued q (.pass a) true, .started q (.pass a), .passBegun a] ++ base.idleReport a ++
    [.passEnded a]

section
variable {base : World} {a : ArbiterId} (hbase : base.Workplace a) {slot : SlotId} {k : Nat}
variable {rest todo : Agenda} {w : World}
include hbase

theorem AfterPass.ask {action : Action} (h : base.AfterPass a ((slot, k) :: rest) w)
    (hasked : base.asked? action = some ⟨a, slot⟩) :
    base.BeforePass a ((slot, k) :: rest) (w.act action).world ∧
      Tells [] [.queued (base.arbiter a).queue (.pass a) true] (w.act action).events := by
  cases h with
  | kept hcrew hwaits =>
    obtain ⟨hworld, htells⟩ := act_working hbase hcrew.handles hasked
      (hcrew.accepted _ List.mem_cons_self) fun _ => .inl rfl
    rw [hworld]
    exact ⟨.mk hcrew hwaits.insert fun _ howner => Option.some.inj howner ▸ ⟨_, _, rfl⟩, htells⟩

theorem AfterPass.owner (h : base.AfterPass a todo w) :
    (w.arbiter a).owner = todo.head?.map Prod.fst := by
  cases h with
  | idle => rw [arbiter_heard, arbiter_working hbase, List.head?_nil, Option.map_none]
  | kept => rw [arbiter_working hbase, List.head?_cons, Option.map_some]

theorem BeforePass.queue (h : base.BeforePass a todo w) :
    (w.arbiter a).queue = (base.arbiter a).queue := by
  cases h with
  | mk => rw [arbiter_working hbase]

/-- Running the queue runs the pass of the agenda. -/
theorem BeforePass.runNext (h : base.BeforePass a todo w) :
    base.AfterPass a todo.left (w.act (.runNext (base.arbiter a).queue)).world ∧
      Tells (todo.advanced.map (base.advance a))
        (.started (base.arbiter a).queue (.pass a) :: .passBegun a :: base.ending a todo.left)
        (w.act (.runNext (base.arbiter a).queue)).events := by
  cases h with
  | @mk owner pending clients hcrew hwaits howner =>
    obtain ⟨w', events, hpass, hafter, htells⟩ := worksOff_pass hbase hcrew hwaits howner
    -- for a moment the pass has left the queue and the flag is still set
    let popped := base.altered a { base.arbiter a with
      owner := owner, pending := pending, queued := true } [] clients
    have hthere : (base.working a owner pending true clients).hasQueue (base.arbiter a).queue := by
      simpa [hasQueue, working, altered] using hbase.housed
    have hperform : (base.working a owner pending true clients).perform
        (.runNext (base.arbiter a).queue) = popped.call (.job (.pass a)) (.answer (.flag true))
          [.started (base.arbiter a).queue (.pass a)] := by
      rw [perform, whenThere, if_pos hthere, World.runNext, working, queue_altered hbase]
      simp only [WorkQueue.pop?, if_true, setQueue_altered, popped]
    have hbegin : popped.begin (.job (.pass a)) =
        (base.working a owner pending false clients).call (.pass a none) (.answer .nothing) := by
      simp only [popped, begin, beginJob, move, arbiter_altered hbase, setArbiter_altered]
      rfl
    have hreplies (reply : Reply) : (w'.resume .nothing (.answer reply)).Ends ⟨w', reply, []⟩ :=
      .reply ..
    have hjob : (popped.begin (.job (.pass a))).Ends ⟨w', .nothing, [] ++ events ++ []⟩ :=
      hbegin ▸ ends_call hpass (hreplies .nothing)
    have hends : ((base.working a owner pending true clients).perform
        (.runNext (base.arbiter a).queue)).Ends _ :=
      hperform ▸ ends_call hjob (hreplies (.flag true))
    have hstarted : Tells [] [.started (base.arbiter a).queue (.pass a)]
        [.started (base.arbiter a).queue (.pass a)] := ⟨rfl, rfl⟩
    rw [act_of_ends hends]
    exact ⟨hafter, by simpa using hstarted.append htells⟩

/-- The rounds go through the agenda to its end. -/
theorem BeforePass.rounds {ask : SlotId → Action} {n : Nat} {before : List Event}
    (h : base.BeforePass a todo w)
    (hask : ∀ slot ∈ todo.map Prod.fst, base.asked? (ask slot) = some ⟨a, slot⟩)
    (hn : todo.kept < n)
    (hbefore : Tells [] [.queued (base.arbiter a).queue (.pass a) true] before) :
    base.AfterPass a [] (w.rounds a ask n).1 ∧
      Tells (todo.turns.map (base.advance a))
        ((List.replicate todo.kept (base.lap a)).flatten ++ base.lastLap a)
        (before ++ (w.rounds a ask n).2) := by
  induction n generalizing todo w before with
  | zero => exact absurd hn (Nat.not_lt_zero _)
  | succ n ih =>
    obtain ⟨hafter, htells⟩ := h.runNext hbase
    have howner := hafter.owner hbase
    have hpass := hbefore.append htells
    rw [World.rounds, h.queue hbase]
    cases hleft : todo.left with
    | nil =>
      rw [hleft] at hafter howner hpass
      simp only [List.head?_nil, Option.map_none] at howner
      simp only [howner]
      refine ⟨hafter, ?_⟩
      rw [todo.turns_eq, Agenda.kept_of_left_eq_nil hleft, hleft]
      simpa [lastLap, ending, Agenda.turns] using hpass
    | cons p rest =>
      obtain ⟨slot, k⟩ := p
      rw [hleft] at hafter howner hpass
      simp only [List.head?_cons, Option.map_some] at howner
      simp only [howner]
      have hslots : ((slot, k) :: rest).map Prod.fst ⊆ todo.map Prod.fst :=
        hleft ▸ todo.slots_left.subset
      have hkept : todo.kept = Agenda.kept ((slot, k) :: rest) + 1 :=
        hleft ▸ Agenda.kept_of_left_ne_nil (by simp [hleft])
      obtain ⟨hnext, hasked⟩ := hafter.ask hbase (hask slot (hslots (by simp)))
      obtain ⟨hrest, hevents⟩ :=
        ih hnext (fun other hother => hask other (hslots hother)) (by omega) hasked
      refine ⟨hrest, ?_⟩
      rw [todo.turns_eq, hkept, hleft]
      simpa [lap, ending, List.replicate_succ] using hpass.append hevents

end

end World

/-! ## Main result -/

/-- The bus is idle with nothing to do, and these slots are bound to different clients, each of
which will keep the bus for that many turns. Nobody acts when called. -/
structure World.Ready (w : World) (a : ArbiterId) (slots : SlotSet) (turns : SlotId → Nat) :
    Prop where
  owner : (w.arbiter a).owner = none
  pending : (w.arbiter a).pending.isEmpty
  detaching : (w.arbiter a).detaching.isEmpty
  queued : (w.arbiter a).queued = false
  queue : (w.queue (w.arbiter a).queue).isEmpty
  occupied : ∀ slot ∈ slots, slot ∈ (w.arbiter a).occupied
  busy : ∀ slot ∈ slots, ∃ c, (w.arbiter a).client? slot = some c ∧
    (w.client c).BusyFor (turns slot)
  apart : ∀ slot ∈ slots, ∀ other ∈ slots,
    (w.arbiter a).client? slot = (w.arbiter a).client? other → slot = other
  quiet : (w.consumer (w.arbiter a).consumer).onIdle.now = []

section
variable {w : World} {a : ArbiterId} {slots : SlotSet} {turns : SlotId → Nat}

/-- What the slots have to do. -/
def SlotSet.agenda (slots : SlotSet) (turns : SlotId → Nat) : Agenda :=
  slots.toList.map fun slot => (slot, turns slot)

theorem SlotSet.slots_agenda : (slots.agenda turns).map Prod.fst = slots.toList := by
  simp [agenda, Function.comp_def]

namespace World.Ready

theorem crew (h : w.Ready a slots turns) : w.Crew a (slots.agenda turns) w.clients where
  accepted p hp := by
    obtain ⟨slot, hslot, rfl⟩ := List.mem_map.1 hp
    exact Arbiter.accepts_iff.2 (h.occupied slot (SlotSet.mem_toList.1 hslot))
  busy p hp := by
    obtain ⟨slot, hslot, rfl⟩ := List.mem_map.1 hp
    exact h.busy slot (SlotSet.mem_toList.1 hslot)
  descending := List.pairwise_map.2 slots.pairwise_toList
  apart := by
    refine List.pairwise_map.2 (slots.nodup_toList.imp_of_mem fun hslot hother hne heq => hne ?_)
    exact h.apart _ (SlotSet.mem_toList.1 hslot) _ (SlotSet.mem_toList.1 hother) heq
  handles _ := rfl

theorem self (h : w.Ready a slots turns) :
    w.working a none (w.arbiter a).pending false w.clients = w := by
  have hbooks : { w.arbiter a with
      owner := none, pending := (w.arbiter a).pending, queued := false } = w.arbiter a := by
    rw [← h.owner, ← h.queued]
  have hqueue : { w.queue (w.arbiter a).queue with entries := [] } =
      w.queue (w.arbiter a).queue := by
    rw [← List.isEmpty_iff.1 h.queue]
  calc w.working a none (w.arbiter a).pending false w.clients
      = (w.setArbiter a (w.arbiter a)).setQueue (w.arbiter a).queue
          (w.queue (w.arbiter a).queue) := by rw [← hqueue, ← hbooks]; rfl
    _ = w := by rw [setArbiter_arbiter, setQueue_queue]

/-- Where an arbiter is ready for slots, it is there, and its queue has room for its pass. -/
theorem workplace {m : Machine} (hm : Reachable Anyhow m) (h : m.world.Ready a slots turns)
    (hne : ∃ slot, slot ∈ slots) : m.world.Workplace a := by
  obtain ⟨slot, hslot⟩ := hne
  have hthere := lt_length_of_accepts (Arbiter.accepts_iff.2 (h.occupied slot hslot))
  exact ⟨hthere, hm.lt_length_queues hthere, hm.bound_ne_zero _ (mem_homes hthere), h.detaching,
    h.quiet⟩

/-- However all the slots are asked for, they are an agenda whose pass waits. -/
theorem asked {asks : List Action} (hbase : w.Workplace a) (h : w.Ready a slots turns)
    (hne : ∃ slot, slot ∈ slots)
    (hasks : ∀ action ∈ asks, ∃ slot ∈ slots, w.asked? action = some ⟨a, slot⟩)
    (hall : ∀ slot ∈ slots, ∃ action ∈ asks, w.asked? action = some ⟨a, slot⟩) :
    w.BeforePass a (slots.agenda turns) (w.actAll asks).1 ∧
      Tells [] [.queued (w.arbiter a).queue (.pass a) true] (w.actAll asks).2 := by
  have haccepts : ∀ action ∈ asks, ∃ slot, w.asked? action = some ⟨a, slot⟩ ∧
      (w.arbiter a).accepts slot = true := by
    intro action haction
    obtain ⟨slot, hslot, hasked⟩ := hasks action haction
    exact ⟨slot, hasked, Arbiter.accepts_iff.2 (h.occupied slot hslot)⟩
  have hsome : asks.isEmpty = false := by
    obtain ⟨slot, hslot⟩ := hne
    obtain ⟨action, haction, _⟩ := hall slot hslot
    simpa using List.ne_nil_of_mem haction
  have hidle : false = false → (w.arbiter a).pending.isEmpty := fun _ => h.pending
  obtain ⟨pending, hworld, hmem, htells⟩ := actAll_working hbase hidle (fun _ => rfl) haccepts
  simp only [h.self, hsome, Bool.not_false, Bool.or_true, Bool.or_false, Bool.false_eq_true,
    if_false] at hworld htells
  have hwaits : (slots.agenda turns).Waits pending := by
    intro slot
    rw [hmem slot, SlotSet.slots_agenda, SlotSet.mem_toList]
    constructor
    · rintro (hold | ⟨action, haction, hasked⟩)
      · exact absurd hold (SlotSet.isEmpty_iff.1 h.pending slot)
      · obtain ⟨other, hother, hasked'⟩ := hasks action haction
        cases hasked.symm.trans hasked'
        exact hother
    · exact fun hslot => .inr (hall slot hslot)
  exact ⟨hworld ▸ .mk h.crew hwaits nofun, htells⟩

end World.Ready

/-- At the end of an agenda the books and the queue are as they were. -/
theorem World.AfterPass.restored {after : World} (hbase : w.Workplace a) (h : w.Ready a slots turns)
    (hafter : w.AfterPass a [] after) : after.arbiter a = w.arbiter a ∧
      after.queue (w.arbiter a).queue = w.queue (w.arbiter a).queue := by
  cases hafter with
  | @idle pending clients hwaits =>
    have hpending : pending = (w.arbiter a).pending := by
      refine SlotSet.ext fun slot => ?_
      simp [SlotSet.isEmpty_iff.1 hwaits.isEmpty slot, SlotSet.isEmpty_iff.1 h.pending slot]
    constructor
    · rw [arbiter_heard, arbiter_working hbase, hpending, ← h.owner, ← h.queued]
    · rw [queue_heard, working, queue_altered hbase]
      rw [if_neg Bool.false_ne_true, ← List.isEmpty_iff.1 h.queue]

namespace Machine

/-- Slots of an idle arbiter that ask for the bus, in any order and however often, are served from
the highest down, each until it is done. Passes are run one by one, with the owner asking for the
next one, until the bus is idle: there are as many of them as turns after which the bus is kept, and
one more. Each is queued once, and the last one tells the consumer. Then nothing is left of it. -/
theorem workload_is_served_in_order {m : Machine} {asks : List Action} {ask : SlotId → Action}
    {n : Nat} (hm : Reachable Anyhow m) (hready : m.world.Ready a slots turns)
    (hne : ∃ slot, slot ∈ slots)
    (hasks : ∀ action ∈ asks, ∃ slot ∈ slots, m.world.asked? action = some ⟨a, slot⟩)
    (hall : ∀ slot ∈ slots, ∃ action ∈ asks, m.world.asked? action = some ⟨a, slot⟩)
    (hask : ∀ slot ∈ slots, m.world.asked? (ask slot) = some ⟨a, slot⟩)
    (hn : (slots.toList.map turns).sum < n) :
    let asked := m.world.actAll asks
    let served := asked.1.rounds a ask n
    let events := asked.2 ++ served.2
    events.filter (·.isAdvance) = slots.toList.flatMap (fun slot =>
        List.replicate (turns slot + 1) (.turnBegun a slot ((m.books a).client? slot))) ∧
      events.filter (·.isPassing) =
        (List.replicate (slots.toList.map turns).sum (m.world.lap a)).flatten ++
          m.world.lastLap a ∧
      served.1.arbiter a = m.books a ∧
      served.1.queue (m.books a).queue = m.world.queue (m.books a).queue := by
  intro asked served events
  have hbase := hready.workplace hm hne
  obtain ⟨hbefore, htells⟩ := hready.asked hbase hne hasks hall
  have hkept : (slots.agenda turns).kept = (slots.toList.map turns).sum := by
    simp [Agenda.kept, SlotSet.agenda, Function.comp_def]
  have hask : ∀ slot ∈ (slots.agenda turns).map Prod.fst,
      m.world.asked? (ask slot) = some ⟨a, slot⟩ := by
    rw [SlotSet.slots_agenda]
    exact fun slot hslot => hask slot (SlotSet.mem_toList.1 hslot)
  obtain ⟨hafter, hevents⟩ := hbefore.rounds hbase hask (hkept ▸ hn) htells
  refine ⟨?_, ?_, hafter.restored hbase hready⟩
  · rw [hevents.advances]
    simp [Agenda.turns, SlotSet.agenda, List.map_flatMap, List.flatMap_map, World.advance, books]
  · rw [hevents.passing, hkept]

/-- The lower slot asks first and last. The higher one needs two turns. -/
theorem workload_is_served_in_order_two :
    let m := play 40 [.build 0 0 (some 2), .attach 0 0 ⟨7⟩ none none, .attach 0 1 ⟨8⟩ none none]
      (rest .playground)
    let asked := m.world.actAll [.notify 1, .request 0 1, .notify 1]
    let served := asked.1.rounds 0 (fun slot => .request 0 slot.val) 2
    let events := asked.2 ++ served.2
    m.world.Ready 0 (.first 2) (·.val) ∧
      events.filter (·.isAdvance) =
        [.turnBegun 0 1 (some 0), .turnBegun 0 1 (some 0), .turnBegun 0 0 (some 1)] ∧
      events.filter (·.isPassing) =
        [.queued 0 (.pass 0) true, .started 0 (.pass 0), .passBegun 0, .passEnded 0,
          .queued 0 (.pass 0) true, .started 0 (.pass 0), .passBegun 0, .reported 0 0 .idle,
          .passEnded 0] := by
  intro m asked served events
  have hm : Reachable Anyhow m := .of_plays World.isInitial_playground 40 _ (by decide +kernel)
  have hready : m.world.Ready 0 (.first 2) (·.val) := by
    have hslots : ∀ slot ∈ SlotSet.first 2, slot = 0 ∨ slot = 1 := by decide
    refine ⟨?_, ?_, ?_, ?_, ?_, ?_, fun slot hslot => ?_, ?_, rfl⟩
    case refine_7 =>
      rcases hslots slot hslot with rfl | rfl
      · exact ⟨1, by decide +kernel, rfl⟩
      · exact ⟨0, by decide +kernel, rfl, rfl⟩
    all_goals decide +kernel
  have hasks : ∀ action ∈ [Action.notify 1, .request 0 1, .notify 1],
      ∃ slot ∈ SlotSet.first 2, m.world.asked? action = some ⟨0, slot⟩ := by decide +kernel
  have hall : ∀ slot ∈ SlotSet.first 2, ∃ action ∈ [Action.notify 1, .request 0 1, .notify 1],
      m.world.asked? action = some ⟨0, slot⟩ := by decide +kernel
  have hask : ∀ slot ∈ SlotSet.first 2, m.world.asked? (.request 0 slot.val) = some ⟨0, slot⟩ := by
    decide +kernel
  have hn : ((SlotSet.first 2).toList.map (·.val)).sum < 2 := by decide
  obtain ⟨hadvances, hpasses, _⟩ :=
    workload_is_served_in_order hm hready ⟨0, by decide⟩ hasks hall hask hn
  exact ⟨hready, hadvances.trans (by decide +kernel), hpasses.trans (by decide +kernel)⟩

end Machine
end
end SharedBus
