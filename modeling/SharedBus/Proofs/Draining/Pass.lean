import SharedBus.Proofs.Deed.Origin
import SharedBus.Proofs.Draining.Takes
import SharedBus.Proofs.Sound.Step

/-! # The work of a pass

A pass gives a turn to the owner or to a slot whose request it takes, and it gives back slots that
were marked. So what it does is bounded by what is pending and detaching when it begins and what is
added while it is in progress, however long clients keep the bus.
-/
namespace SharedBus

namespace Event

/-- A turn of the arbiter begins. -/
def isTurnOf (a : ArbiterId) : Event → Bool
  | .turnBegun b .. => b == a
  | _ => false

/-- A request that the arbiter accepts. -/
def isRequestOf (a : ArbiterId) : Event → Bool
  | .requested b _ => b == a
  | _ => false

/-- A pass of the arbiter sets out to free a slot. -/
def isWithdrawalOf (a : ArbiterId) : Event → Bool
  | .withdrawn b _ => b == a
  | _ => false

/-- A detach on the arbiter takes effect. -/
def isMarkOf (a : ArbiterId) : Event → Bool
  | .marked b .. => b == a
  | _ => false

end Event

/-- The arbiter of which a turn comes next. -/
@[simp] def Next.turn? : Next → Option ArbiterId
  | .call (.turn a _) _ => some a
  | _ => none

namespace Machine

/-- The arbiter of which a turn is about to begin. -/
def turn? (m : Machine) : Option ArbiterId :=
  match m.control with
  | .call (.turn a _) => some a
  | _ => none

end Machine

open Machine

section
variable {a : ArbiterId} {m m' : Machine} {new : List Event} {p : Event → Bool}

theorem countP_of_not_isOf (hp : ∀ e, p e = true → e.isOf a = true)
    (hnew : ∀ e ∈ new, e.isOf a = false) : new.countP p = 0 :=
  List.countP_eq_zero.2 fun e he htrue => Bool.false_ne_true ((hnew e he).symm.trans (hp e htrue))

theorem Machine.Serves.countP {race : Race} {x : Arbiter} {rest : List Activation}
    (h : Serves a m race x rest new) (hp : ∀ e, p e = true → e.isOf a = true)
    (hbegun : p (.passBegun a) = false) : new.countP p = 0 := by
  refine List.countP_eq_zero.2 fun e he htrue => ?_
  rw [h.origin he (hp e htrue), hbegun] at htrue
  cases htrue

theorem Event.isOf_of_isTurnOf {e : Event} (h : e.isTurnOf a = true) : e.isOf a = true := by
  cases e <;> first | exact h | cases h

theorem Event.isOf_of_isRequestOf {e : Event} (h : e.isRequestOf a = true) : e.isOf a = true := by
  cases e <;> first | exact h | cases h

theorem Event.isOf_of_isWithdrawalOf {e : Event} (h : e.isWithdrawalOf a = true) :
    e.isOf a = true := by
  cases e <;> first | exact h | cases h

theorem Machine.Follows.turn? {next : Next} {stack : List Activation} (h : m'.Follows next stack) :
    m'.turn? = next.turn? := by
  cases next with
  | reply => simp [Machine.turn?, h.1]
  | call call waiting =>
    rw [Machine.turn?, h.1]
    cases call <;> rfl

/-- A step that is none of the arbiter's business calls nobody for a turn of it. -/
theorem Machine.Quiet.turn?_ne (h : Quiet a m m') (hlinked : m.Linked) (hlinked' : m'.Linked) :
    m'.turn? ≠ some a := by
  intro hturn
  unfold Machine.turn? at hturn
  split at hturn
  · rename_i b slot hcall
    obtain rfl := Option.some.inj hturn
    simp only [Linked, hcall, Call.turn?] at hlinked'
    cases hstack : m'.stack with
    | nil => simp [hstack, LinkedStack] at hlinked'
    | cons f rest =>
      rw [hstack] at hlinked'
      rcases Activation.awaits_some hlinked'.1 with ⟨race, rfl⟩ | ⟨race, rfl⟩
      · refine h.top hlinked (frames_of_stack hstack (by simp [Activation.isOf])) ?_
        exact fun turn hawaits => hawaits
      · refine h.top hlinked (frames_of_stack hstack (by simp [Activation.isOf])) ?_
        exact fun turn hawaits => ⟨_, hawaits⟩
  · cases hturn

theorem Arbiter.ReclaimsTo.turns {x y : Arbiter} {stage : Stage} (h : x.ReclaimsTo y stage)
    (race : Race) : (stage.next a race).turn? = none ∧ y.pending.size ≤ x.pending.size := by
  cases h with
  | reclaim => exact ⟨rfl, SlotSet.size_erase_le ..⟩
  | idle | ended => exact ⟨rfl, Nat.le_refl _⟩

theorem Arbiter.ServesTo.turns {x y : Arbiter} {stage : Stage} (h : x.ServesTo y stage)
    (race : Race) :
    (if (stage.next a race).turn? = some a then 1 else 0) + y.pending.size ≤ x.pending.size := by
  cases h with
  | ended => exact Nat.le_of_eq (Nat.zero_add _)
  | turn _ hslot =>
    have := SlotSet.size_erase (SlotSet.mem_of_highest? hslot)
    simp only [Stage.next, Next.turn?, if_true, Arbiter.clearPending]
    omega
  | reclaim _ _ h =>
    obtain ⟨hturn, hle⟩ := h.turns (a := a) race
    rw [hturn]
    simpa using hle

theorem Stage.countP_events {stage : Stage} (hserved : ∀ slot, p (.served a slot) = false)
    (hwithdrawn : ∀ slot, p (.withdrawn a slot) = false) (hended : p (.passEnded a) = false) :
    (stage.events a).reverse.countP p = 0 := by
  cases stage <;> simp [Stage.events, hserved, hwithdrawn, hended]

/-- A turn is paid for by a pending slot, by a request or by the pass that begins. -/
theorem Deed.turns (h : Deed a m m' new) (hlinked : m.Linked) (hlinked' : m'.Linked) :
    new.countP (·.isTurnOf a) + (if m'.turn? = some a then 1 else 0) + (m'.books a).pending.size ≤
      (if m.turn? = some a then 1 else 0) + (m.books a).pending.size +
        new.countP (·.isRequestOf a) + (if m.pass? = some a then 1 else 0) := by
  cases h with
  | quiet h hnew =>
    rw [countP_of_not_isOf (fun _ => Event.isOf_of_isTurnOf) hnew,
      countP_of_not_isOf (fun _ => Event.isOf_of_isRequestOf) hnew,
      if_neg (h.turn?_ne hlinked hlinked'), h.books]
    omega
  | build hx hx' _ _ hnext =>
    rw [hnext.turn?, hx', hx]
    simp [Event.isTurnOf, Arbiter.create, default]
  | attach _ _ _ hx' hnext | claim _ _ _ _ _ hx' hnext | bind _ _ hx' hnext | detach _ _ hx' hnext
  | uninstall _ _ _ hx' hnext | release _ _ hx' hnext | job _ hx' hnext | endPass _ _ hx' hnext
  | endTurn _ _ hx' hnext =>
    rw [hnext.turn?, hx']
    simp [Event.isTurnOf, Arbiter.bind]
    omega
  | refuse _ _ hx' hnew hnext =>
    rw [hnext.turn?, hx']
    rcases hnew with rfl | ⟨slot, _, rfl⟩
    · simp
      omega
    · simp [Event.isTurnOf]
      omega
  | mark _ _ _ hx' hnext =>
    rw [hnext.turn?, hx', List.countP_append, List.countP_append,
      countP_of_not_isOf (fun _ => Event.isOf_of_isTurnOf) Arbiter.scheduling_not_isOf]
    simp [Event.isTurnOf, Arbiter.mark]
    omega
  | @request slot _ _ _ hx' hnew _ hnext =>
    have hsize := (m.books a).pending.size_insert_le slot
    rw [hnext.turn?, hx', List.countP_append, List.countP_append,
      countP_of_not_isOf (fun _ => Event.isOf_of_isTurnOf) hnew]
    simp [Event.isTurnOf, Event.isRequestOf, Arbiter.setPending]
    omega
  | @owner _ slot hcall _ hx' hnext =>
    have hsize := (m.books a).pending.size_erase_le slot
    rw [hnext.turn?, hx', pass?_of_control hcall]
    simp [Event.isTurnOf, Arbiter.clearPending]
    omega
  | @serve race x rest new stage hserves hto hnext =>
    have hsize := hto.turns (a := a) race
    obtain ⟨hpending, _⟩ := hserves.books
    rw [hnext.turn?, List.countP_append,
      hserves.countP (fun _ => Event.isOf_of_isTurnOf) rfl,
      Stage.countP_events (fun _ => rfl) (fun _ => rfl) rfl, ← hpending]
    omega
  | reclaim _ _ hto hnext =>
    obtain ⟨hturn, hsize⟩ := hto.turns (a := a) none
    rw [hnext.turn?, hturn, List.countP_append,
      Stage.countP_events (fun _ => rfl) (fun _ => rfl) rfl]
    simp [Event.isTurnOf]
    exact Nat.le_trans hsize (by simp [Arbiter.giveBack, Arbiter.unbind]; omega)
  | skipTurn hcall _ hx' hnext | beginTurn hcall _ hx' hnext =>
    have hturn : m.turn? = some a := by simp [Machine.turn?, hcall]
    rw [hnext.turn?, hx', hturn]
    simp [Event.isTurnOf]
    omega

theorem Arbiter.ReclaimsTo.withdrawals {x y : Arbiter} {stage : Stage} (h : x.ReclaimsTo y stage) :
    (stage.events a).reverse.countP (·.isWithdrawalOf a) + y.detaching.size ≤ x.detaching.size := by
  cases h with
  | reclaim _ hslot =>
    have := SlotSet.size_erase (SlotSet.mem_of_highest? hslot)
    simp [Stage.events, Event.isWithdrawalOf, Arbiter.withdraw]
    omega
  | idle | ended => simp [Stage.events, Event.isWithdrawalOf]

theorem Arbiter.ServesTo.withdrawals {x y : Arbiter} {stage : Stage} (h : x.ServesTo y stage) :
    (stage.events a).reverse.countP (·.isWithdrawalOf a) + y.detaching.size ≤ x.detaching.size := by
  cases h with
  | ended | turn => simp [Stage.events, Event.isWithdrawalOf, Arbiter.clearPending]
  | reclaim _ _ h => exact h.withdrawals

/-- A slot that is withdrawn was marked. -/
theorem Deed.withdrawals (h : Deed a m m' new) :
    new.countP (·.isWithdrawalOf a) + (m'.books a).detaching.size ≤
      (m.books a).detaching.size + new.countP (·.isMarkOf a) := by
  cases h with
  | quiet h hnew =>
    rw [countP_of_not_isOf (fun _ => Event.isOf_of_isWithdrawalOf) hnew, h.books]
    omega
  | build hx hx' =>
    rw [hx', hx]
    simp [Event.isWithdrawalOf, Arbiter.create, default]
  | attach _ _ _ hx' | claim _ _ _ _ _ hx' | bind _ _ hx' | detach _ _ hx' | uninstall _ _ _ hx'
  | release _ _ hx' | job _ hx' | endPass _ _ hx' | endTurn _ _ hx' | owner _ _ hx'
  | skipTurn _ _ hx' | beginTurn _ _ hx' =>
    rw [hx']
    simp [Event.isWithdrawalOf, Arbiter.bind, Arbiter.clearPending]
  | refuse _ _ hx' hnew =>
    rw [hx']
    rcases hnew with rfl | ⟨slot, _, rfl⟩ <;> simp [Event.isWithdrawalOf]
  | @mark c slot _ _ _ _ _ _ _ hx' =>
    have hsize := (m.books a).detaching.size_insert_le slot
    rw [hx', List.countP_append, List.countP_append,
      countP_of_not_isOf (fun _ => Event.isOf_of_isWithdrawalOf) Arbiter.scheduling_not_isOf]
    simp [Event.isWithdrawalOf, Event.isMarkOf, Arbiter.mark]
    omega
  | request _ hx' hnew =>
    rw [hx', List.countP_append, countP_of_not_isOf (fun _ => Event.isOf_of_isWithdrawalOf) hnew]
    simp [Event.isWithdrawalOf, Arbiter.setPending]
  | serve hserves hto =>
    have hsize := hto.withdrawals (a := a)
    rw [List.countP_append, hserves.countP (fun _ => Event.isOf_of_isWithdrawalOf) rfl,
      ← hserves.detaching]
    omega
  | reclaim _ _ hto =>
    have hsize := hto.withdrawals (a := a)
    rw [List.countP_append]
    simp [Event.isWithdrawalOf, Arbiter.giveBack, Arbiter.unbind] at hsize ⊢
    omega

end

/-! ## A pass leaves only activations of itself to wait -/

section
variable {a : ArbiterId}

theorem Stage.within_next (stage : Stage) (race : Race) :
    (stage.next a race).Within (fun _ => True) (·.isPass a = true) := by
  cases stage <;> simp [Stage.next, Next.Within, Activation.isPass]

theorem World.within_beginPass (w : World) (race : Race) :
    (w.beginPass a race).next.Within (fun _ => True) (·.isPass a = true) := by
  unfold beginPass
  split
  · simp [Next.Within, Activation.isPass]
  · rw [serve_eq]
    exact Stage.within_next ..

theorem World.within_resume (w : World) (back : Reply) {waiting : Activation}
    (h : waiting.isPass a = true) :
    (w.resume back waiting).next.Within (fun _ => True) (·.isPass a = true) := by
  cases waiting with
  | owner b race =>
    obtain rfl : b = a := by simpa [Activation.isPass] using h
    simp only [resume]
    cases back.answer <;> (simp only [afterOwner]; rw [serve_eq]; exact Stage.within_next ..)
  | serve b slot race =>
    obtain rfl : b = a := by simpa [Activation.isPass] using h
    simp only [resume]
    cases back.answer with
    | busy =>
      simp only [afterServe]
      split <;> (rw [serve_eq]; exact Stage.within_next ..)
    | done =>
      simp only [afterServe]
      rw [serve_eq]
      exact Stage.within_next ..
  | reclaim b slot =>
    obtain rfl : b = a := by simpa [Activation.isPass] using h
    simp only [resume, afterReclaim]
    rw [reclaim_eq]
    exact Stage.within_next ..
  | idle => trivial
  | _ => cases h

end

namespace Machine

variable {m : Machine} {a : ArbiterId} {race : Race}

/-- While passes keep apart, a pass gives at most one turn for every slot that is pending when it
begins, one for the owner and one for every request made during it, and it gives back at most the
slots that are detaching then or are marked during it. -/
theorem Takes.pass_le {n : Nat} {effect : Effect} (ht : m.Takes n effect)
    (hcall : m.control = .call (.pass a race)) (hm : Reachable PassesApart m)
    (hapart : ∀ k ≤ n, (m.after k).PassesApart) :
    effect.events.countP (·.isTurnOf a) ≤
      (m.books a).pending.size + 1 + effect.events.countP (·.isRequestOf a) ∧
    effect.events.countP (·.isWithdrawalOf a) ≤
      (m.books a).detaching.size + effect.events.countP (·.isMarkOf a) := by
  obtain ⟨j, ht', hwaits⟩ := takes_within (·.isPass a = true) (fun w back _ => w.within_resume back)
    hcall (ht.ends_begin hcall) (m.world.within_beginPass race)
  obtain ⟨rfl, _⟩ := ht.unique hcall ht'
  have hbounded := ht.induction hcall hm hapart (I := fun k _ events =>
    (events.countP (·.isTurnOf a) + (if (m.after k).turn? = some a then 1 else 0) +
        ((m.after k).books a).pending.size ≤
      (m.books a).pending.size + events.countP (·.isRequestOf a) + (if k = 0 then 0 else 1)) ∧
    events.countP (·.isWithdrawalOf a) + ((m.after k).books a).detaching.size ≤
      (m.books a).detaching.size + events.countP (·.isMarkOf a)) ?_ ?_
  · obtain ⟨hturns, hwithdrawals⟩ := hbounded
    have hone : (if n = 0 then 0 else 1) ≤ 1 := by split <;> decide
    simp only [List.countP_reverse] at hturns hwithdrawals
    omega
  · simp [turn?, hcall]
  · intro k _ _ older new hreach hreach' hk hgoes htrace _ _ _ ⟨hturns, hwithdrawals⟩
    obtain ⟨events, hdeed, hevents⟩ := hgoes.deed (a := a) hreach.placed
    obtain rfl : events = new := List.append_cancel_right (hevents.symm.trans htrace)
    have hstep := hdeed.turns hreach.linked hreach'.linked
    have hstep' := hdeed.withdrawals
    -- the pass has begun once, and no other one begins above it
    have hbegun : (if (m.after k).pass? = some a then 1 else 0) + (if k = 0 then 0 else 1) ≤ 1 := by
      rcases Nat.eq_zero_or_pos k with rfl | hpos
      · split <;> simp
      · obtain ⟨f, hf, hpass⟩ := hwaits k hpos hk
        have hnot : (m.after k).pass? ≠ some a := fun hpass' => by
          cases hpass.symm.trans (hapart k (Nat.le_of_lt hk) a hpass' f hf)
        simp [hnot, Nat.ne_of_gt hpos]
    rw [List.countP_append, List.countP_append, List.countP_append, List.countP_append,
      if_neg (Nat.succ_ne_zero k)]
    omega

end Machine

end SharedBus
