import SharedBus.Proofs.Evaluation
import SharedBus.Proofs.WorkQueue
import SharedBus.Proofs.Workload.Agenda

/-! # The pass of an agenda

A pass that finds the slots of an agenda pending, and the bus idle or owned by the first of them,
works on its front. It leaves the first slot that keeps the bus as the owner, or the bus idle when
all are done, and then it tells the consumer.
-/
namespace SharedBus

/-! ## What a trace tells of a schedule -/

namespace Event

/-- A client is called for a turn. -/
def isAdvance : Event → Bool
  | .turnBegun _ _ client => client.isSome
  | _ => false

/-- A job is queued or started, a pass begins or ends, or a consumer is told something. -/
def isPassing : Event → Bool
  | .queued .. | .started .. | .passBegun _ | .passEnded _ | .reported .. => true
  | _ => false

end Event

/-- The events tell of these advances and of these passes. -/
structure Tells (advances passing events : List Event) : Prop where
  advances : events.filter (·.isAdvance) = advances
  passing : events.filter (·.isPassing) = passing

theorem Tells.nil : Tells [] [] [] := ⟨rfl, rfl⟩

theorem Tells.append {advances advances' passing passing' events events' : List Event}
    (h : Tells advances passing events) (h' : Tells advances' passing' events') :
    Tells (advances ++ advances') (passing ++ passing') (events ++ events') where
  advances := by rw [List.filter_append, h.advances, h'.advances]
  passing := by rw [List.filter_append, h.passing, h'.passing]

namespace World

/-! ## The world at work -/

section
variable (base : World) (a : ArbiterId)

/-- The world with other books of the arbiter, other jobs in its queue and other clients. -/
def altered (x : Arbiter) (jobs : List Job) (clients : List Client) : World :=
  let q := (base.arbiter a).queue
  { base with
    arbiters := base.arbiters.set a x
    queues := base.queues.set q { base.queue q with entries := jobs }
    clients := clients }

/-- The world while the arbiter works: with this owner and these pending slots, and with its pass in
the queue as long as the flag is set. -/
def working (owner : Option SlotId) (pending : SlotSet) (queued : Bool) (clients : List Client) :
    World :=
  base.altered a { base.arbiter a with owner := owner, pending := pending, queued := queued }
    (if queued then [.pass a] else []) clients

/-- The arbiter is there, its queue has room for its pass, nobody is on the way out, and the
consumer does nothing when the bus falls idle. -/
structure Workplace : Prop where
  there : a < base.arbiters.length
  housed : (base.arbiter a).queue < base.queues.length
  room : (base.queue (base.arbiter a).queue).bound ≠ some 0
  detaching : (base.arbiter a).detaching.isEmpty
  quiet : (base.consumer (base.arbiter a).consumer).onIdle.now = []

end

section
variable {base : World} {a : ArbiterId} (hbase : base.Workplace a) {owner other : Option SlotId}
variable {pending : SlotSet} {queued : Bool} {clients : List Client} {slot : SlotId}

theorem setArbiter_altered (x y : Arbiter) (jobs : List Job) :
    (base.altered a x jobs clients).setArbiter a y = base.altered a y jobs clients := by
  simp [altered, setArbiter]

theorem setQueue_altered (x : Arbiter) (jobs jobs' : List Job) :
    (base.altered a x jobs clients).setQueue (base.arbiter a).queue
      { base.queue (base.arbiter a).queue with entries := jobs' } =
        base.altered a x jobs' clients := by
  simp [altered, setQueue]

include hbase

theorem arbiter_altered (x : Arbiter) (jobs : List Job) :
    (base.altered a x jobs clients).arbiter a = x := by
  simp [altered, arbiter, hbase.there]

theorem queue_altered (x : Arbiter) (jobs : List Job) :
    (base.altered a x jobs clients).queue (base.arbiter a).queue =
      { base.queue (base.arbiter a).queue with entries := jobs } := by
  simp [altered, queue, hbase.housed]

theorem arbiter_working : (base.working a owner pending queued clients).arbiter a =
    { base.arbiter a with owner := owner, pending := pending, queued := queued } :=
  arbiter_altered hbase ..

theorem move_working (f : Arbiter → Arbiter) :
    (base.working a owner pending queued clients).move a f =
      base.altered a
        (f { base.arbiter a with owner := owner, pending := pending, queued := queued })
        (if queued then [.pass a] else []) clients := by
  rw [move, arbiter_working hbase]
  exact setArbiter_altered ..

theorem working_own : (base.working a owner pending queued clients).move a
    ({ · with owner := other }) = base.working a other pending queued clients :=
  move_working hbase _

theorem working_setPending : (base.working a owner pending queued clients).move a
    (·.setPending slot) = base.working a owner (pending.insert slot) queued clients :=
  move_working hbase _

theorem working_clearPending : (base.working a owner pending queued clients).move a
    (·.clearPending slot) = base.working a owner (pending.erase slot) queued clients :=
  move_working hbase _

theorem schedule_working : (base.working a owner pending queued clients).schedule a =
    (base.working a owner pending true clients,
      if queued then [] else [.queued (base.arbiter a).queue (.pass a) true]) := by
  cases queued with
  | true => simp [schedule, arbiter_working hbase]
  | false =>
    have hroom : ({ base.queue (base.arbiter a).queue with entries := [] } : WorkQueue).hasRoom :=
      WorkQueue.hasRoom_of_nil hbase.room rfl
    simp only [schedule, arbiter_working hbase, move_working hbase, Bool.false_eq_true, if_false,
      enqueue, queue_altered hbase, WorkQueue.push_of_hasRoom hroom, hroom, List.nil_append,
      setQueue_altered]
    rfl

theorem afterServe_working (h : slot ∉ pending) :
    (base.working a none pending false clients).afterServe a slot none .busy =
      (base.working a (some slot) pending false clients).serve a none := by
  simp [afterServe, arbiter_working hbase, working_own hbase, h]

theorem afterOwner_working :
    (base.working a owner pending false clients).afterOwner a none .done =
      (base.working a none pending false clients).serve a none := by
  simp [afterOwner, working_own hbase]

end

end World

/-! ## Passes -/

namespace World

section
variable {base : World} {a : ArbiterId} {slot : SlotId} {k : Nat} {rest : Agenda}
variable {pending : SlotSet} {clients : List Client}

/-- The slot is advanced. -/
def advance (base : World) (a : ArbiterId) (slot : SlotId) : Event :=
  .turnBegun a slot ((base.arbiter a).client? slot)

/-- How a pass ends that leaves this to do. -/
def ending (base : World) (a : ArbiterId) : Agenda → List Event
  | [] => base.idleReport a ++ [.passEnded a]
  | _ :: _ => [.passEnded a]

/-- The world that a pass leaves behind: the bus is idle, and its consumer has heard of it, or the
first slot owns the bus. -/
inductive AfterPass (base : World) (a : ArbiterId) : Agenda → World → Prop
  | idle {pending : SlotSet} {clients : List Client} (hwaits : Agenda.Waits [] pending) :
    AfterPass base a [] ((base.working a none pending false clients).heard a)
  | kept {slot : SlotId} {k : Nat} {rest : Agenda} {pending : SlotSet} {clients : List Client}
    (hcrew : base.Crew a ((slot, k) :: rest) clients) (hwaits : Agenda.Waits rest pending) :
    AfterPass base a ((slot, k) :: rest) (base.working a (some slot) pending false clients)

/-- The call leaves this to do, and its events tell of the advance of these slots and of these
passes. -/
def WorksOff (base : World) (a : ArbiterId) (slots : List SlotId) (passing : List Event)
    (left : Agenda) (outcome : Outcome) : Prop :=
  ∃ w events, outcome.Ends ⟨w, .nothing, events⟩ ∧ base.AfterPass a left w ∧
    Tells (slots.map (base.advance a)) passing events

theorem tells_idleReport (w : World) : Tells [] (w.idleReport a) (w.idleReport a) := by
  unfold idleReport
  constructor <;> (simp only; split <;> rfl)

/-- The slot has its turn, and then the pass goes on. -/
theorem WorksOff.turn {w : World} {c : ClientId} {answer : Answer} {waiting : Activation}
    {slots : List SlotId} {before passing events : List Event} {left : Agenda}
    (hbound : (base.arbiter a).client? slot = some c)
    (hclient : (w.arbiter a).client? slot = some c)
    (hturn : (w.client c).nextTurn.1 = ⟨answer, []⟩) (hbefore : Tells [] before events)
    (h : base.WorksOff a slots passing left
      ((w.setClient c (w.client c).nextTurn.2).resume (.turn answer) waiting)) :
    base.WorksOff a (slot :: slots) (before ++ passing) left
      (w.call (.turn a slot) waiting events) := by
  obtain ⟨w', rest, hends, hafter, htells⟩ := h
  refine ⟨w', _, ends_call (ends_turn hclient hturn) hends, hafter, ?_⟩
  have hadvance : base.advance a slot = .turnBegun a slot (some c) := by rw [advance, hbound]
  have hmiddle : Tells [base.advance a slot] []
      [.turnBegun a slot (some c), .turnEnded a slot (some c) answer] := by
    rw [hadvance]
    exact ⟨rfl, rfl⟩
  simpa using (hbefore.append hmiddle).append htells

theorem serve_of_highest? {w : World} {race : Race} {events : List Event}
    (howner : (w.arbiter a).owner = none)
    (hslot : (w.arbiter a).pending.highest? = some slot) : w.serve a race events =
      (w.move a (·.clearPending slot)).call (.turn a slot) (.serve a slot race)
        (events ++ [.served a slot]) := by
  have hnext := Arbiter.nextTurn?_eq_some.2 ⟨hslot, rfl⟩
  simp only [serve, howner, hnext]
  rfl

theorem serve_of_isEmpty {w : World} {race : Race} {events : List Event}
    (howner : (w.arbiter a).owner = none) (hpending : (w.arbiter a).pending.isEmpty)
    (hdetaching : (w.arbiter a).detaching.isEmpty) :
    w.serve a race events = w.call (.report a .idle) (.idle a) events := by
  have hnext := Arbiter.nextTurn?_eq_none.2 hpending
  have hslot := SlotSet.highest?_eq_none.2 hdetaching
  simp [serve, reclaim, endPass, howner, hnext, hslot, hpending]

variable (hbase : base.Workplace a)
include hbase

/-- The owner keeps the bus, so the pass is over. -/
theorem worksOff_kept (hcrew : base.Crew a ((slot, k) :: rest) clients)
    (hwaits : Agenda.Waits rest pending) : base.WorksOff a [] [.passEnded a] ((slot, k) :: rest)
      ((base.working a (some slot) pending false clients).serve a none) := by
  refine ⟨_, [.passEnded a], ?_, .kept hcrew hwaits, ⟨rfl, rfl⟩⟩
  have hserve : (base.working a (some slot) pending false clients).serve a none =
      (base.working a (some slot) pending false clients).reply .nothing [.passEnded a] := by
    simp [serve, arbiter_working hbase]
  rw [hserve]
  exact .reply ..

/-- Nobody is left, so the consumer is told. -/
theorem worksOff_nobody {passing events : List Event} (hwaits : Agenda.Waits [] pending)
    (hbefore : Tells [] passing events) : base.WorksOff a [] (passing ++ base.ending a []) []
      ((base.working a none pending false clients).serve a none events) := by
  have hserve : (base.working a none pending false clients).serve a none events =
      (base.working a none pending false clients).call (.report a .idle) (.idle a) events := by
    apply serve_of_isEmpty <;> rw [arbiter_working hbase]
    · exact hwaits.isEmpty
    · exact hbase.detaching
  have hquiet : ((base.working a none pending false clients).consumer
      ((base.working a none pending false clients).arbiter a).consumer).onIdle.now = [] := by
    rw [arbiter_working hbase]
    exact hbase.quiet
  have hreport : (base.working a none pending false clients).idleReport a = base.idleReport a := by
    rw [idleReport, arbiter_working hbase]
    rfl
  have hrest : (((base.working a none pending false clients).heard a).resume .nothing
      (.idle a)).Ends _ := .reply ..
  rw [hserve]
  refine ⟨_, _, ends_call (ends_idle hquiet) hrest, .idle hwaits, ?_⟩
  rw [hreport]
  have hend : Tells [] [.passEnded a] [.passEnded a] := ⟨rfl, rfl⟩
  simpa [ending] using (hbefore.append (tells_idleReport base)).append hend

/-- With the bus idle, a pass serves the slots of the agenda until one keeps the bus. -/
theorem worksOff_serve {todo : Agenda} {passing events : List Event}
    (hcrew : base.Crew a todo clients) (hwaits : todo.Waits pending)
    (hbefore : Tells [] passing events) :
    base.WorksOff a todo.advanced (passing ++ base.ending a todo.left) todo.left
      ((base.working a none pending false clients).serve a none events) := by
  induction todo generalizing pending clients passing events with
  | nil => exact worksOff_nobody hbase hwaits hbefore
  | cons p rest ih =>
    obtain ⟨slot, k⟩ := p
    have hrest := hwaits.erase hcrew
    have hserve : (base.working a none pending false clients).serve a none events =
        (base.working a none (pending.erase slot) false clients).call (.turn a slot)
          (.serve a slot none) (events ++ [.served a slot]) := by
      rw [serve_of_highest? (by rw [arbiter_working hbase]), working_clearPending hbase]
      rw [arbiter_working hbase]
      exact hwaits.highest? hcrew
    have htook : Tells [] passing (events ++ [.served a slot]) := by
      have hserved : Tells [] [] [.served a slot] := ⟨rfl, rfl⟩
      simpa using hbefore.append hserved
    rw [hserve]
    cases k with
    | zero =>
      obtain ⟨c, hclient, hturn, hcrew⟩ := hcrew.done
      refine .turn hclient (by rw [arbiter_working hbase]; exact hclient) hturn htook ?_
      exact ih hcrew hrest .nil
    | succ k =>
      obtain ⟨c, hclient, hturn, hcrew⟩ := hcrew.keep
      refine .turn hclient (by rw [arbiter_working hbase]; exact hclient) hturn htook ?_
      have hnot : slot ∉ pending.erase slot := by simp
      simp only [resume, Reply.answer]
      exact afterServe_working hbase hnot ▸ worksOff_kept hbase hcrew hrest

/-- The pass of an agenda, whoever owns the bus. -/
theorem worksOff_pass {todo : Agenda} {owner : Option SlotId} (hcrew : base.Crew a todo clients)
    (hwaits : todo.Waits pending) (howner : ∀ slot ∈ owner, ∃ k rest, todo = (slot, k) :: rest) :
    base.WorksOff a todo.advanced ([.passBegun a] ++ base.ending a todo.left) todo.left
      ((base.working a owner pending false clients).begin (.pass a none)) := by
  have hbegun : Tells [] [.passBegun a] [.passBegun a] := ⟨rfl, rfl⟩
  cases owner with
  | none =>
    have hserve : (base.working a none pending false clients).begin (.pass a none) =
        (base.working a none pending false clients).serve a none [.passBegun a] := by
      simp [begin, beginPass, arbiter_working hbase]
    rw [hserve]
    exact worksOff_serve hbase hcrew hwaits hbegun
  | some slot =>
    obtain ⟨k, rest, rfl⟩ := howner slot rfl
    have hrest := hwaits.erase hcrew
    have hturn : (base.working a (some slot) pending false clients).begin (.pass a none) =
        (base.working a (some slot) (pending.erase slot) false clients).call (.turn a slot)
          (.owner a none) [.passBegun a, .continued a slot] := by
      simp [begin, beginPass, arbiter_working hbase, working_clearPending hbase]
    have hcontinued : Tells [] [.passBegun a] [.passBegun a, .continued a slot] := ⟨rfl, rfl⟩
    rw [hturn]
    cases k with
    | zero =>
      obtain ⟨c, hclient, hanswer, hcrew⟩ := hcrew.done
      refine .turn hclient (by rw [arbiter_working hbase]; exact hclient) hanswer hcontinued ?_
      simp only [resume, Reply.answer]
      exact afterOwner_working hbase ▸ worksOff_serve hbase hcrew hrest .nil
    | succ k =>
      obtain ⟨c, hclient, hanswer, hcrew⟩ := hcrew.keep
      refine .turn hclient (by rw [arbiter_working hbase]; exact hclient) hanswer hcontinued ?_
      exact worksOff_kept hbase hcrew hrest

end

end World

end SharedBus
