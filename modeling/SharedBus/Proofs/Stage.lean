import SharedBus.Proofs.Books
import SharedBus.Proofs.World

/-! # A pass on the books alone

Between two callbacks a pass looks at nothing but the books of its arbiter. What it does there until
it waits again, or is over, is a function of them; a pass in a world follows that function.
-/
namespace SharedBus

/-- Where a pass stands when it gives way to somebody else. -/
inductive Stage
  | turn (slot : SlotId)
  | reclaim (slot : SlotId)
  | idle
  | ended
deriving DecidableEq

namespace Arbiter

/-- Goes on giving detached slots back. -/
def reclaimOn (x : Arbiter) : Arbiter × Stage :=
  match x.owner, x.detaching.highest? with
  | none, some slot => (x.withdraw slot, .reclaim slot)
  | _, _ => (x, if x.pending.isEmpty then .idle else .ended)

/-- Goes on serving pending slots. -/
def serveOn (x : Arbiter) : Arbiter × Stage :=
  match x.owner with
  | some _ => (x, .ended)
  | none =>
    match x.nextTurn? with
    | some (slot, rest) => (rest, .turn slot)
    | none => x.reclaimOn

/-- The ways in which a pass goes on giving slots back. -/
inductive ReclaimsTo (x : Arbiter) : Arbiter → Stage → Prop
  | reclaim {slot : SlotId} (howner : x.owner = none) (hslot : x.detaching.highest? = some slot) :
    ReclaimsTo x (x.withdraw slot) (.reclaim slot)
  | idle (hpending : x.pending.isEmpty) (hdone : x.owner = none → x.detaching.isEmpty) :
    ReclaimsTo x x .idle
  | ended (hpending : x.pending.isEmpty = false) (hdone : x.owner = none → x.detaching.isEmpty) :
    ReclaimsTo x x .ended

/-- The ways in which a pass goes on serving slots. -/
inductive ServesTo (x : Arbiter) : Arbiter → Stage → Prop
  | ended {owner : SlotId} (howner : x.owner = some owner) : ServesTo x x .ended
  | turn {slot : SlotId} (howner : x.owner = none) (hslot : x.pending.highest? = some slot) :
    ServesTo x (x.clearPending slot) (.turn slot)
  | reclaim {y : Arbiter} {stage : Stage} (howner : x.owner = none) (hpending : x.pending.isEmpty)
    (h : ReclaimsTo x y stage) : ServesTo x y stage

theorem reclaimOn_spec (x : Arbiter) : ReclaimsTo x x.reclaimOn.1 x.reclaimOn.2 := by
  unfold reclaimOn
  split
  · rename_i howner hslot
    exact .reclaim howner hslot
  · rename_i hnone
    have hdone : x.owner = none → x.detaching.isEmpty := by
      intro howner
      cases hslot : x.detaching.highest? with
      | none => exact SlotSet.highest?_eq_none.1 hslot
      | some slot => exact absurd hslot (hnone slot howner)
    cases hpending : x.pending.isEmpty with
    | true => exact .idle hpending hdone
    | false => exact .ended hpending hdone

theorem serveOn_spec (x : Arbiter) : ServesTo x x.serveOn.1 x.serveOn.2 := by
  unfold serveOn
  split
  · rename_i howner
    exact .ended howner
  · rename_i howner
    split
    · rename_i hnext
      obtain ⟨hslot, rfl⟩ := nextTurn?_eq_some.1 hnext
      exact .turn howner hslot
    · rename_i hnext
      exact .reclaim howner (nextTurn?_eq_none.1 hnext) x.reclaimOn_spec

/-- A pass on the books alone takes slots out of two sets, and leaves everything else as it is. -/
theorem ReclaimsTo.frame {x y : Arbiter} {stage : Stage} (h : ReclaimsTo x y stage) :
    ∃ pending detaching, y = { x with pending := pending, detaching := detaching } := by
  cases h with
  | reclaim | idle | ended => exact ⟨_, _, rfl⟩

theorem ServesTo.frame {x y : Arbiter} {stage : Stage} (h : ServesTo x y stage) :
    ∃ pending detaching, y = { x with pending := pending, detaching := detaching } := by
  cases h with
  | ended | turn => exact ⟨_, _, rfl⟩
  | reclaim _ _ h => exact h.frame

end Arbiter

namespace Stage

/-- What a pass makes known when it reaches the stage. -/
def events (a : ArbiterId) : Stage → List Event
  | .turn slot => [.served a slot]
  | .reclaim slot => [.withdrawn a slot]
  | .idle => []
  | .ended => [.passEnded a]

/-- Whom a pass calls at the stage and what it leaves on the stack, or what it replies. -/
def next (a : ArbiterId) (race : Race) : Stage → Next
  | .turn slot => .call (.turn a slot) (.serve a slot race)
  | .reclaim slot => .call (.race .reclaim race) (.reclaim a slot)
  | .idle => .call (.report a .idle) (.idle a)
  | .ended => .reply .nothing

end Stage

namespace World

variable (w : World) {a b : ArbiterId}

private theorem endPass_eq (race : Race) (events : List Event) : w.endPass a events =
    let stage := if (w.arbiter a).pending.isEmpty then Stage.idle else .ended
    ⟨w, stage.next a race, events ++ stage.events a⟩ := by
  unfold endPass
  split <;> simp [World.call, World.reply, Stage.next, Stage.events]

theorem reclaim_eq (race : Race) (events : List Event) : w.reclaim a race events =
    ⟨w.setArbiter a (w.arbiter a).reclaimOn.1, (w.arbiter a).reclaimOn.2.next a race,
      events ++ (w.arbiter a).reclaimOn.2.events a⟩ := by
  cases howner : (w.arbiter a).owner with
  | some owner =>
    simp only [reclaim, Arbiter.reclaimOn, howner, setArbiter_arbiter]
    exact w.endPass_eq race events
  | none =>
    cases hslot : (w.arbiter a).detaching.highest? with
    | some slot =>
      simp only [reclaim, Arbiter.reclaimOn, howner, hslot]
      rfl
    | none =>
      simp only [reclaim, Arbiter.reclaimOn, howner, hslot, setArbiter_arbiter]
      exact w.endPass_eq race events

/-- A pass that goes on in a world does to the books of its arbiter what it does to them alone. -/
theorem serve_eq (race : Race) (events : List Event) : w.serve a race events =
    ⟨w.setArbiter a (w.arbiter a).serveOn.1, (w.arbiter a).serveOn.2.next a race,
      events ++ (w.arbiter a).serveOn.2.events a⟩ := by
  cases howner : (w.arbiter a).owner with
  | some owner =>
    simp only [serve, Arbiter.serveOn, howner, setArbiter_arbiter]
    rfl
  | none =>
    cases hnext : (w.arbiter a).nextTurn? with
    | some taken =>
      simp only [serve, Arbiter.serveOn, howner, hnext]
      rfl
    | none =>
      simp only [serve, Arbiter.serveOn, howner, hnext]
      exact w.reclaim_eq race events

/-- Without an arbiter a pass changes nothing, so its books always read as the pass left them. -/
theorem arbiter_serveOn :
    (w.setArbiter a (w.arbiter a).serveOn.1).arbiter a = (w.arbiter a).serveOn.1 := by
  rcases Nat.lt_or_ge a w.arbiters.length with hlt | hge
  · exact w.arbiter_setArbiter_self hlt _
  · have hx := w.arbiter_eq_default hge
    exact w.arbiter_setArbiter_of_eq (by rw [hx]; decide)

end World

end SharedBus
