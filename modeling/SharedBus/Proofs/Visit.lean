import SharedBus.Proofs.Asking
import SharedBus.Proofs.Attaching
import SharedBus.Proofs.Workload.Run

/-! # A visit leaves no trace

A client takes a slot of an arbiter at rest, asks for the bus any number of times, and detaches,
once or more often. All this queues one pass. The pass serves the client if it has asked, and then
gives its slot back, so that books and queue are what they were before the visit.
-/
namespace SharedBus

namespace Arbiter

variable {x : Arbiter} {slot : SlotId} {b : Binding} {asked marked : Bool}

/-- The books of an open arbiter that has nothing to do. -/
structure AtRest (x : Arbiter) : Prop where
  order : x.InOrder
  opened : x.closed = false
  owner : x.owner = none
  pending : x.pending = ∅
  detaching : x.detaching = ∅
  queued : x.queued = false

/-- The books with a visitor at the slot that has asked for the bus and that is on its way out, or
not yet. -/
def visited (x : Arbiter) (slot : SlotId) (b : Binding) (asked marked queued : Bool) : Arbiter :=
  { x.seat slot b with
    pending := if asked then .singleton slot else ∅
    detaching := if marked then .singleton slot else ∅
    queued := queued }

theorem client?_visited (x : Arbiter) (slot : SlotId) (b : Binding) (asked marked queued : Bool) :
    (x.visited slot b asked marked queued).client? slot = some b.client :=
  (x.client?_seat slot b slot).trans (if_pos rfl)

/-- A visit begins with an attach. -/
theorem AtRest.seat (h : x.AtRest) (slot : SlotId) (b : Binding) :
    x.seat slot b = x.visited slot b false false false := by
  simp [visited, Arbiter.seat, bind, h.pending, h.detaching, h.queued]

theorem AtRest.visited_inOrder (h : x.AtRest) (hslot : slot ∈ x.free)
    (hnew : x.find? b.client = none) (asked marked queued : Bool) :
    (x.visited slot b asked marked queued).InOrder := by
  have horder := h.order.seat hslot hnew
  have hself : slot ∈ (x.seat slot b).occupied := (h.order.mem_occupied_seat hslot b).2 (.inr rfl)
  have honly : ∀ flag : Bool, ∀ other ∈ (if flag then SlotSet.singleton slot else ∅),
      other ∈ (x.seat slot b).occupied := by
    intro flag other hother
    cases flag with
    | false => exact absurd hother SlotSet.notMem_empty
    | true => exact SlotSet.mem_singleton.1 hother ▸ hself
  exact ⟨horder.free_le, honly asked, honly marked, horder.bound_iff, horder.apart,
    horder.owner_occupied⟩

/-- The first request of a visitor needs a pass, the others do not. -/
theorem AtRest.asked_visited (h : x.AtRest) (hslot : slot ∈ x.free) (b : Binding) (asked : Bool) :
    (x.visited slot b asked false asked).asked (.singleton slot) =
        x.visited slot b true false true ∧
      (x.visited slot b asked false asked).posts (.singleton slot) = !asked := by
  have hself : slot ∈ (x.visited slot b asked false asked).occupied :=
    (h.order.mem_occupied_seat hslot b).2 (.inr rfl)
  have hheard := occupied_inter_singleton (accepts_iff.2 hself)
  have howner : (x.visited slot b asked false asked).owner = none := h.owner
  have hpending : (if asked then SlotSet.singleton slot else ∅) ∪ .singleton slot =
      .singleton slot := SlotSet.ext fun other => by cases asked <;> simp
  rw [Arbiter.asked, posts, hheard, callsFor_of_idle howner]
  simp only [visited, hpending]
  cases asked <;> simp

/-- What was given back was free before. -/
theorem AtRest.vacate_visited (h : x.AtRest) (hslot : slot ∈ x.free) (b : Binding) :
    (x.visited slot b false true false).vacate = x := by
  have hfree : x.free.erase slot ∪ .singleton slot = x.free := SlotSet.insert_erase hslot
  have hunbound : x.binding slot = none := by
    refine client?_eq_none.1 (not_not.1 fun hbound => ?_)
    exact (mem_occupied.1 ((h.order.bound_iff slot).1 hbound)).2 hslot
  have hbindings : (Vector.ofFn fun i => if i ∈ SlotSet.singleton slot then none
      else (x.visited slot b false true false).bindings[i]) = x.bindings := by
    refine Vector.ext fun i hi => ?_
    rw [Vector.getElem_ofFn]
    split
    · rename_i hmem
      obtain rfl := SlotSet.mem_singleton.1 hmem
      exact hunbound.symm
    · rename_i hmem
      have hne : slot.val ≠ i := fun heq => hmem (SlotSet.mem_singleton.2 (Fin.ext heq.symm))
      exact Vector.getElem_set_ne slot.isLt hi hne
  have hdetaching : (x.visited slot b false true false).detaching = .singleton slot := rfl
  have hall : (x.visited slot b false true false).free ∪ .singleton slot = x.free := hfree
  rw [vacate, hdetaching, hall, hbindings]
  rcases x with ⟨_, _, _, _, pending, detaching, _, _, queued, _⟩
  obtain rfl : pending = ∅ := h.pending
  obtain rfl : detaching = ∅ := h.detaching
  obtain rfl : queued = false := h.queued
  rfl

/-- The pass of a visitor that is on its way out serves it if it has asked, and restores the
books. -/
theorem AtRest.afterPass_visited (h : x.AtRest) (hslot : slot ∈ x.free) (b : Binding)
    {answers : SlotId → Answer} (hanswer : answers slot = .done) (asked : Bool) :
    let y := x.visited slot b asked true false
    y.advanced answers = (if asked then [slot] else []) ∧ y.fallsIdle answers = true ∧
      y.afterPass answers = x := by
  intro y
  have hidle : ∀ asked, (x.visited slot b asked true false).owner = none := fun _ => h.owner
  obtain ⟨hadvanced, hfalls, hafter⟩ :=
    afterPass_of_isEmpty answers (hidle false) SlotSet.isEmpty_empty
  rw [h.vacate_visited hslot] at hafter
  cases asked with
  | false => exact ⟨hadvanced, hfalls, hafter⟩
  | true =>
    have hfirst : y.pending.highest? = some slot := by
      refine SlotSet.highest?_eq_some.2 ⟨SlotSet.mem_singleton.2 rfl, fun other hother => ?_⟩
      exact Nat.le_of_eq (congrArg Fin.val (SlotSet.mem_singleton.1 hother))
    have hcleared : y.clearPending slot = x.visited slot b false true false := by
      have hnone : (SlotSet.singleton slot).erase slot = ∅ := SlotSet.ext fun other => by simp
      simp [y, clearPending, visited, hnone]
    obtain ⟨hadvanced', hfalls', hafter'⟩ := afterPass_of_done (hidle true) hfirst hanswer
    rw [hcleared] at hadvanced' hfalls' hafter'
    exact ⟨by rw [hadvanced', hadvanced]; rfl, hfalls'.trans hfalls, hafter'.trans hafter⟩

end Arbiter

namespace World

variable {w now : World} {a : ArbiterId} {slot : SlotId} {b : Binding} {asked marked : Bool}

/-- The arbiter is there and has nothing to do. Its queue is empty and has room for its pass, and
its consumer does nothing when the bus falls idle. -/
structure AtRest (w : World) (a : ArbiterId) : Prop where
  there : w.hasArbiter a
  housed : w.hasQueue (w.arbiter a).queue
  books : (w.arbiter a).AtRest
  empty : (w.queue (w.arbiter a).queue).entries = []
  room : (w.queue (w.arbiter a).queue).hasRoom = true
  quiet : (w.consumer (w.arbiter a).consumer).onIdle.now = []

/-- The client has the slot; it has asked for the bus and is on its way out, or not yet. A pass
waits if it has done either. -/
structure Visit (w : World) (a : ArbiterId) (slot : SlotId) (b : Binding) (asked marked : Bool)
    (now : World) : Prop where
  books : now.arbiter a = (w.arbiter a).visited slot b asked marked (asked || marked)
  others : ∀ d, d ≠ a → now.arbiter d = w.arbiter d
  queues : now.queues = if asked || marked then
    (w.setQueue (w.arbiter a).queue ((w.queue (w.arbiter a).queue).push (.pass a))).queues
    else w.queues
  consumers : now.consumers = w.consumers
  arbiters : now.arbiters.length = w.arbiters.length
  clients : now.clients.length = w.clients.length
  still : (now.client b.client).IsStill
  turn : (now.client b.client).nextTurn.1 = (w.client b.client).nextTurn.1
  takes : ∀ kind, (now.client b.client).takes kind = (w.client b.client).takes kind
  handles : ∀ kind, (now.client b.client).handles.get kind =
    if (w.client b.client).takes kind then (if marked then none else some ⟨a, slot⟩)
    else (w.client b.client).handles.get kind
  rest : ∀ c, c ≠ b.client → now.client c = w.client c

/-- A pass of the arbiter is queued. -/
def posting (w : World) (a : ArbiterId) : List Event := [.queued (w.arbiter a).queue (.pass a) true]

theorem tells_equips (client : Client) (c : ClientId) (handle : Option Handle) :
    Tells [] [] (client.equips c handle) := by
  unfold Client.equips Client.installs
  constructor <;> (split <;> split <;> split <;> rfl)

theorem tells_schedule (w : World) (a : ArbiterId) :
    Tells [] (if (w.arbiter a).queued then [] else
      [.queued (w.arbiter a).queue (.pass a) (w.queue (w.arbiter a).queue).hasRoom])
      (w.schedule a).2 := by
  rw [schedule_events]
  split <;> exact ⟨rfl, rfl⟩

theorem tells_request (w : World) (a : ArbiterId) (slot : SlotId) :
    Tells [] (if (w.arbiter a).posts (.singleton slot) then
      [.queued (w.arbiter a).queue (.pass a) (w.queue (w.arbiter a).queue).hasRoom] else [])
      (w.request a slot).2 := by
  have hrequested : Tells [] [] [.requested a slot] := ⟨rfl, rfl⟩
  rw [Arbiter.posts_singleton]
  cases haccepts : (w.arbiter a).accepts slot with
  | false => simpa [request, haccepts] using Tells.nil
  | true =>
    have ha := lt_length_of_accepts haccepts
    have hscheduled := hrequested.append ((w.move a (·.setPending slot)).tells_schedule a)
    have hqueue : (w.move a (·.setPending slot)).queue = w.queue := rfl
    rw [w.arbiter_move_self ha, hqueue] at hscheduled
    have hscheduled : Tells [] (if (w.arbiter a).queued then [] else
        [.queued (w.arbiter a).queue (.pass a) (w.queue (w.arbiter a).queue).hasRoom])
        ([.requested a slot] ++ ((w.move a (·.setPending slot)).schedule a).2) := hscheduled
    cases hwants : (w.arbiter a).wantsPass slot with
    | false => simpa [request, haccepts, hwants] using hrequested
    | true => cases hqueued : (w.arbiter a).queued <;>
        simpa [request, haccepts, hwants, hqueued] using hscheduled

/-- If no pass waits yet, one is queued now. -/
theorem Visit.posted (v : w.Visit a slot b asked marked now) :
    (if asked || marked then now.queues else now.queues.set (w.arbiter a).queue
      ((now.queue (w.arbiter a).queue).push (.pass a))) =
        (w.setQueue (w.arbiter a).queue ((w.queue (w.arbiter a).queue).push (.pass a))).queues := by
  cases hwaits : asked || marked with
  | false => simp [setQueue, queue, v.queues, hwaits]
  | true => simp [v.queues, hwaits]

theorem Visit.tells_posted (h : w.AtRest a) (v : w.Visit a slot b asked marked now)
    {events : List Event} (hevents : Tells [] (if asked || marked then [] else
      [.queued (w.arbiter a).queue (.pass a) (now.queue (w.arbiter a).queue).hasRoom]) events) :
    Tells [] (if asked || marked then [] else w.posting a) events := by
  cases hwaits : asked || marked with
  | false =>
    have hroom : (now.queue (w.arbiter a).queue).hasRoom = true := by
      rw [queue, v.queues, hwaits]
      exact h.room
    rwa [hwaits, hroom] at hevents
  | true => rwa [hwaits] at hevents

/-- The one pass that waits is taken from the queue, and the queue is as before the visit. -/
theorem Visit.popped (h : w.AtRest a) (v : w.Visit a slot b asked true now) :
    let q := (w.arbiter a).queue
    now.hasQueue q ∧ (now.queue q).pop? = some (.pass a, w.queue q) ∧
      (now.setQueue q (w.queue q)).queues = w.queues := by
  intro q
  have hhoused : q < w.queues.length := of_decide_eq_true h.housed
  have hqueues : now.queues = w.queues.set q ((w.queue q).push (.pass a)) := by
    simpa [setQueue] using v.queues
  have hqueue : now.queue q = (w.queue q).push (.pass a) := by simp [queue, hqueues, hhoused]
  have hself : { w.queue q with entries := [] } = w.queue q := by rw [← h.empty]
  have hback := congrArg (·.queues) (w.setQueue_queue (q := q))
  refine ⟨by simpa [hasQueue, hqueues] using hhoused, ?_, by simpa [setQueue, hqueues] using hback⟩
  rw [hqueue, WorkQueue.push_of_hasRoom h.room, h.empty, List.nil_append]
  exact congrArg (fun rest => some (Job.pass a, rest)) hself

/-- An action that queues a pass once and is silent from then on, any number of times. -/
theorem actAll_replicate {P : World → Prop} {action : Action} {posted : List Event}
    (hfirst : P (now.act action).world ∧ Tells [] posted (now.act action).events)
    (hagain : ∀ now, P now → P (now.act action).world ∧ Tells [] [] (now.act action).events)
    (n : Nat) : P (now.actAll (List.replicate (n + 1) action)).1 ∧
      Tells [] posted (now.actAll (List.replicate (n + 1) action)).2 := by
  have hdid : ∀ reply, Tells [] [] [.did action.name reply] := fun _ => ⟨rfl, rfl⟩
  obtain ⟨hnext, htells⟩ := hfirst
  rw [List.replicate_succ, actAll]
  induction n generalizing now posted with
  | zero => exact ⟨hnext, by simpa [actAll] using htells.append (hdid _)⟩
  | succ n ih =>
    obtain ⟨hnext', htells'⟩ := hagain _ hnext
    obtain ⟨hlast, hrest⟩ := ih hnext' htells'
    rw [List.replicate_succ, actAll]
    exact ⟨hlast, by simpa using htells.append ((hdid _).append hrest)⟩

/-- A queue in which one pass waits is empty after that pass, unless the pass queues another job. -/
theorem ends_runPending {q : QueueId} {rest : WorkQueue} {pass : Effect} (hq : w.hasQueue q)
    (hpop : (w.queue q).pop? = some (.pass a, rest))
    (hpass : (((w.setQueue q rest).move a ({ · with queued := false })).begin (.pass a none)).Ends
      pass) (hempty : (pass.world.queue q).entries = []) :
    (w.perform (.runPending q)).Ends
      ⟨pass.world, .count 1, .started q (.pass a) :: pass.events⟩ := by
  have hrun : w.perform (.runPending q) =
      (w.setQueue q rest).call (.job (.pass a)) (.drain q 1 false) [.started q (.pass a)] := by
    rw [perform, whenThere, if_pos hq, drain, hpop]
  have hreply : (pass.world.resume pass.reply (.answer .nothing)).Ends ⟨pass.world, .nothing, []⟩ :=
    .reply ..
  have hjob : ((w.setQueue q rest).begin (.job (.pass a))).Ends _ := ends_call hpass hreply
  have hlast : (pass.world.resume .nothing (.drain q 1 false)).Ends ⟨pass.world, .count 1, []⟩ := by
    rw [resume, drain, WorkQueue.pop?, hempty]
    exact .reply ..
  have hends : (w.perform (.runPending q)).Ends _ := hrun ▸ ends_call hjob hlast
  simpa using hends

section
variable (h : w.AtRest a) (hc : w.hasClient b.client)
  (hslot : (w.arbiter a).free.highest? = some slot)
include h hc hslot

/-- The visit begins. -/
theorem AtRest.attach (hnew : (w.arbiter a).find? b.client = none)
    (hstill : (w.client b.client).IsStill) :
    let effect := w.act (.attach a b.client b.tag none none)
    effect.reply = .slot slot ∧ w.Visit a slot b false false effect.world ∧
      Tells [] [] effect.events := by
  intro effect
  have hlt : a < w.arbiters.length := of_decide_eq_true h.there
  have heffect := act_of_ends (ends_attach_seated h.there hc h.books.opened hstill hnew hslot)
  have hbegun : Tells [] [] [.claimed a slot, .bound a slot b] := ⟨rfl, rfl⟩
  have hclient := client_seating_self (a := a) hc slot
  have hevents := hbegun.append (tells_equips (w.client b.client) b.client (some ⟨a, slot⟩))
  simp only [effect, heffect]
  refine ⟨trivial, ?_, hevents⟩
  constructor
  case books => rw [arbiter_seating hlt, h.books.seat]; rfl
  case others => exact fun d hd => w.arbiter_move_ne (Ne.symm hd) (·.seat slot b)
  case queues => rfl
  case consumers => rfl
  case arbiters => exact w.length_move (·.seat slot b)
  case clients => rw [clients_seating hc, List.length_set]
  case still => exact hclient ▸ hstill.equip _
  case turn => rw [hclient, Client.turn_equip]
  case takes => exact fun kind => by rw [hclient, Client.takes_equip]
  case handles => exact fun kind => by rw [hclient, Client.get_handles_equip]; rfl
  case rest => exact fun c hne => client_seating_ne hc slot hne

/-- The visitor asks for the bus. Only the first request queues a pass. -/
theorem AtRest.notify (v : w.Visit a slot b asked false now) :
    let effect := now.act (.notify b.client)
    w.Visit a slot b true false effect.world ∧
      Tells [] (if asked then [] else w.posting a) effect.events := by
  intro effect
  have hthere : now.hasClient b.client := by simpa [hasClient, v.clients] using hc
  have hheld : (now.client b.client).handles.get .notifier = some ⟨a, slot⟩ := by
    simpa [Client.takes] using v.handles .notifier
  have hnotify : now.perform (.notify b.client) = now.useNotifier ⟨a, slot⟩ (.flag true) := by
    simp [perform, useHeld, hthere, hheld]
  have heffect := act_of_ends (hnotify ▸ now.ends_useNotifier ⟨a, slot⟩ (.flag true))
  have hbooks : now.arbiter a = (w.arbiter a).visited slot b asked false asked := by
    simpa using v.books
  have hqueue : (now.arbiter a).queue = (w.arbiter a).queue := by rw [hbooks]; rfl
  obtain ⟨hasked, hposts⟩ := h.books.asked_visited (SlotSet.mem_of_highest? hslot) b asked
  rw [← hbooks] at hasked hposts
  have hrequest := now.tells_request a slot
  rw [hposts, hqueue] at hrequest
  simp only [effect, heffect]
  refine ⟨{ v with books := ?_, others := ?_, queues := ?_, arbiters := ?_ }, ?_⟩
  · rw [arbiter_asking, hasked]
    rfl
  · exact fun d hd => (arbiter_asking_ne (Ne.symm hd) _).trans (v.others d hd)
  · have hasking : (now.asking a (.singleton slot)).queues =
        if (now.arbiter a).posts (.singleton slot) then
          (now.setQueue (now.arbiter a).queue
            ((now.queue (now.arbiter a).queue).push (.pass a))).queues
        else now.queues := rfl
    rw [hasking, hposts, hqueue]
    cases asked <;> exact v.posted
  · rw [← v.arbiters]
    exact List.length_set
  · cases asked <;> exact v.tells_posted h hrequest

/-- The visitor detaches, perhaps once more. Only what comes first queues a pass. -/
theorem AtRest.detach (hnew : (w.arbiter a).find? b.client = none)
    (v : w.Visit a slot b asked marked now) :
    let effect := now.act (.detach a b.client)
    w.Visit a slot b asked true effect.world ∧
      Tells [] (if asked || marked then [] else w.posting a) effect.events := by
  intro effect
  have hlt : a < now.arbiters.length := v.arbiters ▸ of_decide_eq_true h.there
  have hthere : now.hasClient b.client := by simpa [hasClient, v.clients] using hc
  have hmem := SlotSet.mem_of_highest? hslot
  have horder := h.books.visited_inOrder hmem hnew asked marked (asked || marked)
  have hfind : (now.arbiter a).find? b.client = some slot := by
    rw [v.books, horder.find?_eq_some, Arbiter.client?_visited]
  have heffect := act_of_ends (ends_detach (decide_eq_true hlt) hthere v.still hfind)
  have hself : (now.without a b.client slot).client b.client =
      (now.client b.client).equip none := by
    simp [World.client, clients_without, of_decide_eq_true hthere, Client.equip_none]
  have hqueue : (now.arbiter a).queue = (w.arbiter a).queue := by rw [v.books]; rfl
  have hqueued : (now.arbiter a).queued = (asked || marked) := by rw [v.books]; rfl
  have hworld : effect.world = now.without a b.client slot := congrArg Effect.world heffect
  have hevents : effect.events = _ := congrArg Effect.events heffect
  rw [hworld, hevents]
  constructor
  · constructor
    case books =>
      have hmarked : (if marked then SlotSet.singleton slot else ∅) ∪ .singleton slot =
          .singleton slot := SlotSet.ext fun other => by cases marked <;> simp
      rw [arbiter_without hlt, v.books]
      simp [Arbiter.visited, hmarked]
    case others => exact fun d hd => (arbiter_without_ne (Ne.symm hd) _ _).trans (v.others d hd)
    case queues =>
      rw [queues_without, hqueued, hqueue, v.posted, Bool.or_true, if_pos rfl]
    case consumers => exact (consumers_without ..).trans v.consumers
    case arbiters => rw [length_without, v.arbiters]
    case clients => rw [clients_without, List.length_set, v.clients]
    case still => exact hself ▸ v.still.equip none
    case turn => rw [hself, Client.turn_equip, v.turn]
    case takes => exact fun kind => by rw [hself, Client.takes_equip, v.takes]
    case handles =>
      intro kind
      rw [hself, Client.get_handles_equip, v.takes, v.handles]
      split <;> rfl
    case rest =>
      intro c hne
      rw [← v.rest c hne]
      simp [World.client, clients_without, List.getElem?_set_ne (Ne.symm hne)]
  · have hfound : Tells [] [] [.detaching a slot b.client] := ⟨rfl, rfl⟩
    have hmarked : Tells [] [] [.marked a slot b.client] := ⟨rfl, rfl⟩
    have hscheduled := now.tells_schedule a
    have htold := (hfound.append (tells_equips (now.client b.client) b.client none)).append
      (hmarked.append hscheduled)
    rw [hqueued, hqueue] at htold
    exact v.tells_posted h (by simpa using htold)

/-- However often the visitor asks, one pass is queued. -/
theorem AtRest.notifies (n : Nat) (v : w.Visit a slot b false false now) :
    let used := now.actAll (List.replicate n (.notify b.client))
    w.Visit a slot b (decide (0 < n)) false used.1 ∧
      Tells [] (if 0 < n then w.posting a else []) used.2 := by
  cases n with
  | zero => exact ⟨v, .nil⟩
  | succ n =>
    have hagain : ∀ now, w.Visit a slot b true false now → _ := fun _ => h.notify hc hslot
    simpa using actAll_replicate (h.notify hc hslot v) hagain n

/-- However often the visitor detaches, a pass is queued if none waits, and one only. -/
theorem AtRest.detaches (hnew : (w.arbiter a).find? b.client = none) (n : Nat)
    (v : w.Visit a slot b asked false now) :
    let left := now.actAll (List.replicate (n + 1) (.detach a b.client))
    w.Visit a slot b asked true left.1 ∧ Tells [] (if asked then [] else w.posting a) left.2 := by
  have hagain : ∀ now, w.Visit a slot b asked true now → _ := fun _ => h.detach hc hslot hnew
  simpa using actAll_replicate (h.detach hc hslot hnew v) (by simpa using hagain) n

/-- Everything up to the pass: whatever the visitor does, one pass is queued. -/
theorem AtRest.visit (hnew : (w.arbiter a).find? b.client = none)
    (hstill : (w.client b.client).IsStill) (n k : Nat) :
    let visit := w.actAll (.attach a b.client b.tag none none ::
      List.replicate n (.notify b.client) ++ List.replicate (k + 1) (.detach a b.client))
    w.Visit a slot b (decide (0 < n)) true visit.1 ∧ Tells [] (w.posting a) visit.2 := by
  obtain ⟨hreply, hattached, hbegun⟩ := h.attach hc hslot hnew hstill
  obtain ⟨hused, hasked⟩ := h.notifies hc hslot n hattached
  obtain ⟨hleft, hmarked⟩ := h.detaches hc hslot hnew k hused
  have hdid (reply : Reply) : Tells [] [] [.did "attach" reply] := ⟨rfl, rfl⟩
  have htells := hbegun.append ((hdid (.slot slot)).append (hasked.append hmarked))
  rw [List.cons_append, actAll_cons, actAll_append, hreply]
  refine ⟨hleft, ?_⟩
  by_cases hn : 0 < n <;> simpa [hn, Action.name] using htells

omit hc in
/-- The pass serves the visitor if it has asked, and gives its slot back. -/
theorem AtRest.passesTo {base : World} (hnew : (w.arbiter a).find? b.client = none)
    (hthere : a < base.arbiters.length)
    (hbooks : base.arbiter a = (w.arbiter a).visited slot b asked true false)
    (hquiet : (base.consumer (base.arbiter a).consumer).onIdle.now = [])
    (hdone : (base.client b.client).nextTurn.1 = ⟨.done, []⟩) :
    base.PassesTo a (w.arbiter a) (if asked then [slot] else []) [.passBegun a] true
      (base.begin (.pass a none)) := by
  have hmem := SlotSet.mem_of_highest? hslot
  have horder : (base.arbiter a).InOrder :=
    hbooks ▸ h.books.visited_inOrder hmem hnew asked true false
  have hclient : (base.arbiter a).client? slot = some b.client := by
    rw [hbooks, Arbiter.client?_visited]
  have honly : ∀ other, other ∈ (base.arbiter a).pending ∨ other ∈ (base.arbiter a).owner →
      other = slot := by
    have howner : (base.arbiter a).owner = none := by
      rw [hbooks]
      exact h.books.owner
    have hpending : (base.arbiter a).pending = if asked then .singleton slot else ∅ := by
      rw [hbooks]
      rfl
    rw [howner, hpending]
    cases asked <;> simp
  have hturns : ∀ other c, other ∈ (base.arbiter a).pending ∨ other ∈ (base.arbiter a).owner →
      (base.arbiter a).client? other = some c → (base.client c).nextTurn.1.actions = [] := by
    intro other c hother hc
    rw [honly other hother, hclient] at hc
    rw [← Option.some.inj hc, hdone]
  have hanswer : base.answers a slot = .done := by simp [answers, hclient, hdone]
  have hunder : base.Underway a (base.arbiter a) base.clients :=
    ⟨hthere, rfl, fun _ => rfl, hquiet⟩
  have hrace : (none : Race).getD [] = [] := rfl
  have hpass := passesTo_pass hunder rfl (poised_of_inOrder horder hturns) hrace
  obtain ⟨hadvanced, hidle, hafter⟩ := h.books.afterPass_visited hmem b hanswer asked
  rw [← hbooks] at hadvanced hidle hafter
  rwa [posed_self, hadvanced, hidle, hafter] at hpass

omit hc in
/-- The one pass in the queue ends the visit. -/
theorem AtRest.runPending (hnew : (w.arbiter a).find? b.client = none)
    (hdone : (w.client b.client).nextTurn.1 = ⟨.done, []⟩) (v : w.Visit a slot b asked true now) :
    let effect := now.act (.runPending (w.arbiter a).queue)
    effect.reply = .count 1 ∧ (∀ d, effect.world.arbiter d = w.arbiter d) ∧
      effect.world.queues = w.queues ∧
      (∀ c, (effect.world.client c).handles = (now.client c).handles) ∧
      Tells (if asked then [.turnBegun a slot (some b.client)] else [])
        ([.started (w.arbiter a).queue (.pass a), .passBegun a] ++ w.idleReport a ++ [.passEnded a])
        effect.events := by
  intro effect
  let q := (w.arbiter a).queue
  have hlt : a < now.arbiters.length := v.arbiters ▸ of_decide_eq_true h.there
  obtain ⟨hq, hpop, hrestored⟩ := v.popped h
  -- the world in which the pass begins
  let popped := now.setQueue q (w.queue q)
  let base := popped.move a ({ · with queued := false })
  have hthere : a < base.arbiters.length := by
    have hlength := popped.length_move (b := a) ({ · with queued := false })
    exact hlength ▸ hlt
  have hbooks : base.arbiter a = (w.arbiter a).visited slot b asked true false := by
    have hmove := popped.arbiter_move_self hlt ({ · with queued := false })
    rw [arbiter_setQueue, v.books] at hmove
    exact hmove
  have hconsumer : base.consumer (base.arbiter a).consumer = w.consumer (w.arbiter a).consumer := by
    rw [hbooks]
    exact congrArg (·.getD (w.arbiter a).consumer default) v.consumers
  obtain ⟨after, before, hpass, hbefore, hleft⟩ := h.passesTo hslot hnew hthere hbooks
    (hconsumer ▸ h.quiet) (v.turn.trans hdone)
  have hqueues : after.queues = w.queues := hleft.queues.trans hrestored
  have hempty : (after.queue q).entries = [] := by
    rw [queue, hqueues]
    exact h.empty
  have heffect : effect = _ := act_of_ends (ends_runPending hq hpop hpass hempty)
  rw [heffect]
  refine ⟨rfl, fun d => ?_, hqueues, hleft.handles, ?_⟩
  · by_cases hd : d = a
    · rw [hd, hleft.books]
    · have hbase := popped.arbiter_move_ne (Ne.symm hd) ({ · with queued := false })
      rw [hleft.others d hd, ← v.others d hd]
      exact hbase
  · have hstarted : Tells [] [.started q (.pass a)] [.started q (.pass a)] := ⟨rfl, rfl⟩
    have hended : Tells [] [.passEnded a] [.passEnded a] := ⟨rfl, rfl⟩
    have hidle : base.idleReport a = w.idleReport a := by
      rw [idleReport, hconsumer, hbooks]
      rfl
    have hadvance : base.advance a slot = .turnBegun a slot (some b.client) := by
      rw [advance, hbooks, Arbiter.client?_visited]
    have hall := ((hstarted.append hbefore).append (tells_idleReport (a := a) w)).append hended
    cases asked <;> simpa [hidle, hadvance] using hall

end

/-! ## Main result -/

/-- A client that does nothing when it is called takes the highest free slot of an arbiter at rest,
asks for the bus `n` times, and detaches once or more often; then the queue is run until it is
empty. One pass runs, which advances the client once if it has asked and nobody otherwise. All books
and queues are as before, the client has no handles left, and whoever attaches next gets the same
slot. -/
theorem visit_leaves_no_trace (h : w.AtRest a) (hc : w.hasClient b.client)
    (hslot : (w.arbiter a).free.highest? = some slot)
    (hnew : ∀ slot, (w.arbiter a).client? slot ≠ some b.client)
    (hstill : (w.client b.client).IsStill)
    (hdone : (w.client b.client).nextTurn.1 = ⟨.done, []⟩) (n k : Nat) :
    let attach := Action.attach a b.client b.tag none none
    let visit := w.actAll (attach :: List.replicate n (.notify b.client) ++
      List.replicate (k + 1) (.detach a b.client))
    let ran := visit.1.act (.runPending (w.arbiter a).queue)
    let after := ran.world
    let events := visit.2 ++ ran.events
    (w.act attach).reply = .slot slot ∧ ran.reply = .count 1 ∧
      events.filter (·.isAdvance) = (if 0 < n then [.turnBegun a slot (some b.client)] else []) ∧
      events.filter (·.isPassing) = w.lastLap a ∧
      (∀ d, after.arbiter d = w.arbiter d) ∧ after.queues = w.queues ∧
      (∀ kind, (after.client b.client).handles.get kind =
        if (w.client b.client).takes kind then none
        else (w.client b.client).handles.get kind) ∧
      (∀ c, c ≠ b.client → (after.client c).handles = (w.client c).handles) ∧
      ∀ c tag, after.hasClient c → (∀ slot, (after.arbiter a).client? slot ≠ some c) →
        (after.act (.attach a c tag none none)).reply = .slot slot := by
  intro attach visit ran after events
  have hfind := h.books.order.find?_eq_none.2 hnew
  obtain ⟨hleft, hqueued⟩ := h.visit hc hslot hfind hstill n k
  obtain ⟨hcount, harbiters, hqueues, hhandles, hran⟩ := h.runPending hslot hfind hdone hleft
  have htells := hqueued.append hran
  refine ⟨(h.attach hc hslot hfind hstill).1, hcount, ?_, htells.passing, harbiters, hqueues,
    fun kind => ?_, fun c hne => ?_, fun c tag hc hnobody => ?_⟩
  · rw [htells.advances]
    by_cases hn : 0 < n <;> simp [hn]
  · rw [hhandles, hleft.handles]
    rfl
  · rw [hhandles, hleft.rest c hne]
  · rw [← harbiters a] at hslot
    have hthere : after.hasArbiter a := by
      refine decide_eq_true (lt_length_of_arbiter_ne fun hdefault => ?_)
      have hnone : (default : Arbiter).free.highest? = none := by decide
      rw [hdefault, hnone] at hslot
      cases hslot
    have hopened : (after.arbiter a).closed = false := by
      rw [harbiters]
      exact h.books.opened
    have horder : (after.arbiter a).InOrder := harbiters a ▸ h.books.order
    exact reply_attach (b := ⟨c, tag⟩) hthere hc hopened (horder.find?_eq_none.2 hnobody) hslot

/-- One of two slots is taken. The visitor asks twice and detaches twice. -/
theorem visit_leaves_no_trace_twice :
    let w := (Machine.play 60 [.build 0 0 (some 2), .attach 0 0 ⟨7⟩ none none]
      (Machine.rest { playground with clients := List.replicate 3 {} })).world
    let visit := w.actAll [.attach 0 1 ⟨8⟩ none none, .notify 1, .notify 1, .detach 0 1,
      .detach 0 1]
    let ran := visit.1.act (.runPending 0)
    w.AtRest 0 ∧ ran.reply = .count 1 ∧
      (visit.2 ++ ran.events).filter (·.isAdvance) = [.turnBegun 0 0 (some 1)] ∧
      ran.world.arbiter 0 = w.arbiter 0 ∧
      (∀ kind, (ran.world.client 1).handles.get kind = none) ∧
      (ran.world.act (.attach 0 2 ⟨9⟩ none none)).reply = .slot 0 := by
  intro w visit ran
  have hrest : w.AtRest 0 := by
    refine ⟨?_, ?_, ⟨by constructor <;> decide +kernel, ?_, ?_, ?_, ?_, ?_⟩, ?_, ?_, ?_⟩ <;>
      decide +kernel
  have hslot : (w.arbiter 0).free.highest? = some 0 := by decide +kernel
  obtain ⟨_, hcount, hadvances, _, hbooks, _, hhandles, _, hagain⟩ :=
    visit_leaves_no_trace (b := ⟨1, ⟨8⟩⟩) hrest (by decide +kernel) hslot (by decide +kernel)
      (by decide +kernel) rfl 2 1
  refine ⟨hrest, hcount, hadvances, hbooks 0, fun kind => ?_, hagain 2 ⟨9⟩ ?_ ?_⟩
  · refine (hhandles kind).trans ?_
    cases kind <;> decide +kernel
  · decide +kernel
  · rw [hbooks]
    decide +kernel

end World

end SharedBus
