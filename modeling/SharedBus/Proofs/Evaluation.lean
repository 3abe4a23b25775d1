import SharedBus.Proofs.Run

/-! # Calls as one step

A call runs to its end in the same way whatever waits for it and whatever has happened before. So it
can be read as one step from the world in which it is made to the world that it leaves behind, and a
script as the actions in it performed one after another, each on its own.
-/
namespace SharedBus

open Machine

/-- How a call ends that has come to this outcome: its callee ends, and the activation that waits
for it goes on in the world that the callee leaves behind. -/
inductive Outcome.Ends : Outcome → Effect → Prop
  | reply (w : World) (reply : Reply) (events : List Event) :
    Ends ⟨w, .reply reply, events⟩ ⟨w, reply, events⟩
  | call {w : World} {call : Call} {waiting : Activation} {events : List Event}
    {callee rest : Effect} (hcallee : Ends (w.begin call) callee)
    (hrest : Ends (callee.world.resume callee.reply waiting) rest) :
    Ends ⟨w, .call call waiting, events⟩
      ⟨rest.world, rest.reply, events ++ callee.events ++ rest.events⟩

/-- What is known of a reply, and of an activation that waits before there is one. -/
def Next.Within (replies : Reply → Prop) (waits : Activation → Prop) : Next → Prop
  | .reply back => replies back
  | .call _ waiting => waits waiting

theorem Next.within_trivial (next : Next) : next.Within (fun _ => True) fun _ => True := by
  cases next <;> trivial

namespace Machine

theorem after_after (m : Machine) (k n : Nat) : (m.after k).after n = m.after (k + n) := by
  induction k generalizing m with
  | zero => rw [after_zero, Nat.zero_add]
  | succ k ih => rw [after_succ, ih, Nat.succ_add, after_succ]

/-- However many steps are taken, a machine finishes in one way only. -/
theorem after_eq_of_isFinished {m : Machine} {k n : Nat} (hk : (m.after k).isFinished)
    (hn : (m.after n).isFinished) : m.after k = m.after n := by
  rcases Nat.le_total k n with h | h
  · obtain ⟨d, rfl⟩ := Nat.exists_eq_add_of_le h
    rw [← after_after, after_of_isFinished hk]
  · obtain ⟨d, rfl⟩ := Nat.exists_eq_add_of_le h
    rw [← after_after, after_of_isFinished hn]

end Machine

namespace Outcome

variable {outcome : Outcome} {effect other : Effect}

/-- Step by step, a call ends as it does at once, with the same stack below it and the same trace
before it. Until then one of its activations waits right above that stack. -/
theorem Ends.underway (waits : Activation → Prop)
    (hresume : ∀ (w : World) back waiting, waits waiting →
      (w.resume back waiting).next.Within (fun _ => True) waits)
    (h : outcome.Ends effect) (hnext : outcome.next.Within (fun _ => True) waits)
    (stack : List Activation) (trace : List Event) :
    ∃ n, (follow outcome stack trace).after n =
        ⟨effect.world, .back effect.reply, stack, effect.events.reverse ++ trace⟩ ∧
      ∀ k < n, ∃ above waiting,
        ((follow outcome stack trace).after k).stack = above ++ waiting :: stack ∧ waits waiting := by
  induction h generalizing waits stack trace with
  | reply w reply events => exact ⟨0, rfl, fun _ hk => absurd hk (Nat.not_lt_zero _)⟩
  | @call w call waiting events callee rest _ _ ihcallee ihrest =>
    obtain ⟨k, hk, habove⟩ := ihcallee (fun _ => True) (fun _ _ _ _ => Next.within_trivial _)
      (Next.within_trivial _) (waiting :: stack) (events.reverse ++ trace)
    obtain ⟨n, hn, hrest⟩ := ihrest waits hresume (hresume _ _ _ hnext) stack
      (callee.events.reverse ++ (events.reverse ++ trace))
    have hbegin : (follow ⟨w, .call call waiting, events⟩ stack trace).step =
        follow (w.begin call) (waiting :: stack) (events.reverse ++ trace) := rfl
    have hback : (⟨callee.world, .back callee.reply, waiting :: stack,
        callee.events.reverse ++ (events.reverse ++ trace)⟩ : Machine).step =
          follow (callee.world.resume callee.reply waiting) stack
            (callee.events.reverse ++ (events.reverse ++ trace)) := rfl
    have hlater (j : Nat) : (follow ⟨w, .call call waiting, events⟩ stack trace).after (k + j + 1) =
        (⟨callee.world, .back callee.reply, waiting :: stack,
          callee.events.reverse ++ (events.reverse ++ trace)⟩ : Machine).after j := by
      rw [after_succ, hbegin, ← after_after, hk]
    refine ⟨k + (n + 1) + 1, ?_, fun i hi => ?_⟩
    · rw [hlater, after_succ, hback, hn]
      simp
    · -- before the callee begins, until it ends, when it has ended, and after that
      rcases i with _ | i
      · exact ⟨[], waiting, rfl, hnext⟩
      rcases Nat.lt_or_ge i k with hlt | hge
      · obtain ⟨above, inner, hstack, _⟩ := habove i hlt
        refine ⟨above ++ [inner], waiting, ?_, hnext⟩
        rw [after_succ, hbegin, hstack, List.append_assoc, List.singleton_append]
      obtain ⟨j, rfl⟩ := Nat.exists_eq_add_of_le hge
      rw [hlater]
      rcases j with _ | j
      · exact ⟨[], waiting, rfl, hnext⟩
      · rw [after_succ, hback]
        exact hrest j (by omega)

/-- Nothing is asked of the activations that wait. -/
theorem Ends.after (h : outcome.Ends effect) (stack : List Activation) (trace : List Event) :
    ∃ n, (follow outcome stack trace).after n =
        ⟨effect.world, .back effect.reply, stack, effect.events.reverse ++ trace⟩ := by
  obtain ⟨n, hn, _⟩ := h.underway (fun _ => True) (fun _ _ _ _ => Next.within_trivial _)
    (Next.within_trivial _) stack trace
  exact ⟨n, hn⟩

theorem Ends.unique (h : outcome.Ends effect) (h' : outcome.Ends other) : effect = other := by
  induction h generalizing other with
  | reply => cases h'; rfl
  | call _ _ ihcallee ihrest =>
    cases h' with
    | call hcallee hrest =>
      obtain rfl := ihcallee hcallee
      obtain rfl := ihrest hrest
      rfl

/-- The same outcome of a step in which more has happened before. -/
def since (outcome : Outcome) (events : List Event) : Outcome :=
  ⟨outcome.world, outcome.next, events ++ outcome.events⟩

theorem Ends.since (h : outcome.Ends effect) (before : List Event) : (outcome.since before).Ends
    ⟨effect.world, effect.reply, before ++ effect.events⟩ := by
  unfold Outcome.since
  cases h with
  | reply => exact .reply ..
  | call hcallee hrest =>
    rw [← List.append_assoc, ← List.append_assoc]
    exact .call hcallee hrest

/-- What every activation passes on to the next one and to the reply is true of the last reply. -/
theorem Ends.reply_of {replies : Reply → Prop} {waits : Activation → Prop}
    (hresume : ∀ (w : World) back waiting, waits waiting →
      (w.resume back waiting).next.Within replies waits)
    (h : outcome.Ends effect) (hnext : outcome.next.Within replies waits) :
    replies effect.reply := by
  induction h with
  | reply => exact hnext
  | call _ _ _ ihrest => exact ihrest (hresume _ _ _ hnext)

/-- Every call ends, and has then used up some of the potential. -/
theorem exists_ends (outcome : Outcome) :
    ∃ effect, outcome.Ends effect ∧ effect.world.potential ≤ outcome.potential := by
  induction hn : outcome.potential using Nat.strongRecOn generalizing outcome with
  | ind n ih =>
    obtain ⟨w, next, events⟩ := outcome
    cases next with
    | reply reply =>
      refine ⟨_, .reply w reply events, ?_⟩
      simp only [Outcome.potential] at hn
      simp only
      omega
    | call call waiting =>
      have hbegin := w.begin_lt call
      simp only [Outcome.potential, Next.potential] at hn
      obtain ⟨callee, hcallee, hle⟩ := ih (w.begin call).potential (by omega) _ rfl
      have hresume := callee.world.resume_lt callee.reply waiting
      obtain ⟨rest, hrest, hle'⟩ :=
        ih (callee.world.resume callee.reply waiting).potential (by omega) _ rfl
      exact ⟨_, .call hcallee hrest, by simp only; omega⟩

end Outcome

namespace World

variable (w : World) {action : Action} {effect : Effect}

/-! ## Actions -/

theorem act_of_ends {w : World} (h : (w.perform action).Ends effect) : w.act action = effect := by
  obtain ⟨n, hn⟩ := h.after [] []
  have hafter : (start w action).after (n + 1) =
      ⟨effect.world, .back effect.reply, [], effect.events.reverse ++ []⟩ := by
    rw [after_succ]
    exact hn
  have hrun : (start w action).run =
      ⟨effect.world, .back effect.reply, [], effect.events.reverse ++ []⟩ := by
    rw [← hafter]
    exact after_eq_of_isFinished (isFinished_run _) (by rw [hafter]; rfl)
  unfold act
  simp [hrun, reply?]

theorem ends_act (action : Action) : (w.perform action).Ends (w.act action) := by
  obtain ⟨effect, h, _⟩ := (w.perform action).exists_ends
  rw [act_of_ends h]
  exact h

/-! ## Scripts and races -/

/-- Performs actions one after another: the world after them, and what happened meanwhile. -/
def actAll (w : World) : List Action → World × List Event
  | [] => (w, [])
  | action :: rest =>
    let effect := w.act action
    let (after, events) := effect.world.actAll rest
    (after, effect.events ++ .did action.name effect.reply :: events)

theorem actAll_cons (w : World) (action : Action) (rest : List Action) :
    w.actAll (action :: rest) = (((w.act action).world.actAll rest).1,
      (w.act action).events ++ .did action.name (w.act action).reply ::
        ((w.act action).world.actAll rest).2) := rfl

theorem actAll_append (w : World) (actions later : List Action) :
    w.actAll (actions ++ later) = (((w.actAll actions).1.actAll later).1,
      (w.actAll actions).2 ++ ((w.actAll actions).1.actAll later).2) := by
  induction actions generalizing w with
  | nil => rfl
  | cons action rest ih => simp [actAll_cons, ih]

/-- Performs the actions of a race, if there is one. -/
def actRace (w : World) (point : RacePoint) : Race → World × List Event
  | none => (w, [])
  | some actions => ((w.actAll actions).1, .race point :: (w.actAll actions).2)

theorem ends_continueScript (actions : List Action) (events : List Event) :
    (w.continueScript actions events).Ends
      ⟨(w.actAll actions).1, .nothing, events ++ (w.actAll actions).2⟩ := by
  induction actions generalizing w events with
  | nil =>
    rw [actAll, List.append_nil]
    exact .reply ..
  | cons action rest ih =>
    have hrest := ih (w.act action).world [.did action.name (w.act action).reply]
    have hscript : (w.continueScript (action :: rest) events).Ends _ :=
      .call (w.ends_act action) hrest
    simpa [actAll] using hscript

theorem ends_beginRace (point : RacePoint) (race : Race) : (w.beginRace point race).Ends
    ⟨(w.actRace point race).1, .nothing, (w.actRace point race).2⟩ := by
  cases race with
  | none => exact .reply ..
  | some actions =>
    have hrace : (w.beginRace point (some actions)).Ends _ :=
      .call (w.ends_continueScript actions []) (.reply ..)
    simpa [actRace] using hrace

/-! ## Calls in which nobody acts -/

section
variable {w : World} {a : ArbiterId}

theorem ends_call {call : Call} {waiting : Activation} {events : List Event}
    {callee rest : Effect} (hcallee : (w.begin call).Ends callee)
    (hrest : (callee.world.resume callee.reply waiting).Ends rest) :
    (w.call call waiting events).Ends
      ⟨rest.world, rest.reply, events ++ callee.events ++ rest.events⟩ := .call hcallee hrest

theorem ends_nothing (w : World) : (w.begin (.script [])).Ends ⟨w, .nothing, []⟩ := .reply ..

theorem ends_turn {slot : SlotId} {c : ClientId} {answer : Answer}
    (hclient : (w.arbiter a).client? slot = some c)
    (hturn : (w.client c).nextTurn.1 = ⟨answer, []⟩) : (w.begin (.turn a slot)).Ends
      ⟨w.setClient c (w.client c).nextTurn.2, .turn answer,
        [.turnBegun a slot (some c), .turnEnded a slot (some c) answer]⟩ := by
  have hbegin : w.begin (.turn a slot) = (w.setClient c (w.client c).nextTurn.2).call (.script [])
      (.turn a slot c answer) [.turnBegun a slot (some c)] := by
    simp [begin, beginTurn, hclient, hturn]
  rw [hbegin]
  have hrest : ((w.setClient c (w.client c).nextTurn.2).resume .nothing
      (.turn a slot c answer)).Ends _ := .reply ..
  exact ends_call (ends_nothing _) hrest

/-- What the consumer of the arbiter has become after it was told that the bus is idle. -/
def heard (w : World) (a : ArbiterId) : World :=
  let s := (w.arbiter a).consumer
  if (w.consumer s).hearsIdle then w.setConsumer s ((w.consumer s).spend .idle) else w

@[simp] theorem arbiter_heard (b : ArbiterId) : (w.heard a).arbiter b = w.arbiter b := by
  unfold heard
  simp only
  split <;> rfl

@[simp] theorem queue_heard (q : QueueId) : (w.heard a).queue q = w.queue q := by
  unfold heard
  simp only
  split <;> rfl

/-- How the consumer of the arbiter is told that the bus is idle. -/
def idleReport (w : World) (a : ArbiterId) : List Event :=
  let s := (w.arbiter a).consumer
  if (w.consumer s).hearsIdle then [.reported a s .idle] else []

theorem ends_idle (h : (w.consumer (w.arbiter a).consumer).onIdle.now = []) :
    (w.begin (.report a .idle)).Ends ⟨w.heard a, .nothing, w.idleReport a⟩ := by
  cases hhears : (w.consumer (w.arbiter a).consumer).hearsIdle with
  | true =>
    have hbegin : w.begin (.report a .idle) =
        (w.heard a).call (.script []) (.answer .nothing) (w.idleReport a) := by
      simp [begin, beginReport, Consumer.hears, Consumer.hook, heard, idleReport, hhears, h]
    have hrest : ((w.heard a).resume .nothing (.answer .nothing)).Ends _ := .reply ..
    have hends : (w.begin (.report a .idle)).Ends _ := hbegin ▸ ends_call (ends_nothing _) hrest
    simpa using hends
  | false =>
    have hbegin : w.begin (.report a .idle) = (w.heard a).reply .nothing (w.idleReport a) := by
      simp [begin, beginReport, Consumer.hears, heard, idleReport, hhears]
    rw [hbegin]
    exact .reply ..

end

end World

namespace Machine

/-- The call that the machine makes has ended so. -/
def ended (m : Machine) (effect : Effect) : Machine :=
  ⟨effect.world, .back effect.reply, m.stack, effect.events.reverse ++ m.trace⟩

/-- Wherever it is made, a call ends as it does on its own. -/
theorem after_of_ends {m : Machine} {call : Call} {effect : Effect}
    (h : m.control = .call call) (hends : (m.world.begin call).Ends effect) :
    ∃ n, m.after n = m.ended effect := by
  obtain ⟨w, control, stack, trace⟩ := m
  subst h
  obtain ⟨n, hn⟩ := hends.after stack trace
  exact ⟨n + 1, by rw [after_succ]; exact hn⟩

/-- Wherever it is performed, an action has the effect that it has on its own. -/
theorem after_perform {m : Machine} {action : Action} (h : m.control = .call (.perform action)) :
    ∃ n, m.after n = ⟨(m.world.act action).world, .back (m.world.act action).reply, m.stack,
      (m.world.act action).events.reverse ++ m.trace⟩ := after_of_ends h (m.world.ends_act action)

end Machine

end SharedBus
