import SharedBus.Machine.Run

/-! # Runs of a world

A run begins in a world where nothing has been built, performs actions from the outside one after
another and takes every step of each. Its trace goes on over all of them. A discipline is a property
of machines, and a run under it never leaves it; what is proved of all machines that a run reaches
holds at every point inside callbacks, tasks and races.
-/
namespace SharedBus

/-- Nothing is built, waits or is held. What clients, consumers and tasks will do is left open. -/
structure World.IsInitial (w : World) : Prop where
  arbiters : w.arbiters = []
  queues : ∀ queue ∈ w.queues, queue.entries = [] ∧ queue.reserved = 0
  clients : ∀ client ∈ w.clients, client.handles = .all none
  notifiers : w.notifiers = []
  deliveries : w.deliveries = []

namespace Machine

variable {P Q : Machine → Prop} {m m' m'' : Machine}

theorem isFinished_iff : m.isFinished ↔ (∃ reply, m.control = .back reply) ∧ m.stack = [] := by
  obtain ⟨w, control, stack, trace⟩ := m
  cases control <;> cases stack <;> simp [isFinished, reply?]

/-- Nothing is under way. -/
def rest (w : World) : Machine := ⟨w, .back .nothing, [], []⟩

/-- Takes up an action from the outside. -/
def perform (m : Machine) (action : Action) : Machine :=
  { start m.world action with trace := m.trace }

/-- One step, or the next action from the outside once the last one has replied. -/
inductive Goes : Machine → Machine → Prop
  | step {m : Machine} (h : m.isFinished = false) : Goes m m.step
  | act {m : Machine} (h : m.isFinished) (action : Action) : Goes m (m.perform action)

inductive Run (P : Machine → Prop) (m : Machine) : Machine → Prop
  | refl (h : P m) : Run P m m
  | next {m' m'' : Machine} (h : Run P m m') (hgoes : Goes m' m'') (hP : P m'') : Run P m m''

def Reachable (P : Machine → Prop) (m : Machine) : Prop :=
  ∃ w : World, w.IsInitial ∧ Run P (rest w) m

/-- No discipline at all. -/
def Anyhow (_ : Machine) : Prop := True

instance : DecidablePred Anyhow := fun _ => .isTrue trivial

theorem Run.holds (h : Run P m m') : P m' := by
  cases h with
  | refl h => exact h
  | next _ _ h => exact h

theorem Run.start (h : Run P m m') : P m := by
  induction h with
  | refl h => exact h
  | next _ _ _ ih => exact ih

/-- What holds wherever a run comes is kept by it all the while. -/
theorem Run.strengthen (hQ : ∀ m'', Run P m m'' → Q m'') (h : Run P m m') : Run Q m m' := by
  induction h with
  | refl h => exact .refl (hQ _ (.refl h))
  | next hrun hgoes hP ih => exact .next ih hgoes (hQ _ (hrun.next hgoes hP))

theorem Run.mono (hPQ : ∀ m, P m → Q m) (h : Run P m m') : Run Q m m' :=
  h.strengthen fun m'' hrun => hPQ m'' hrun.holds

theorem Run.anyhow (h : Run P m m') : Run Anyhow m m' := h.mono fun _ _ => trivial

theorem Run.trans (h : Run P m m') (h' : Run P m' m'') : Run P m m'' := by
  induction h' with
  | refl _ => exact h
  | next _ hgoes hP ih => exact .next ih hgoes hP

theorem Reachable.holds (h : Reachable P m) : P m := by
  obtain ⟨_, _, hrun⟩ := h
  exact hrun.holds

theorem Reachable.anyhow (h : Reachable P m) : Reachable Anyhow m := by
  obtain ⟨w, hw, hrun⟩ := h
  exact ⟨w, hw, hrun.anyhow⟩

theorem Reachable.run (h : Reachable P m) (hrun : Run P m m') : Reachable P m' := by
  obtain ⟨w, hw, h⟩ := h
  exact ⟨w, hw, h.trans hrun⟩

theorem Reachable.next (h : Reachable P m) (hgoes : Goes m m') (hP : P m') : Reachable P m' :=
  h.run (.next (.refl h.holds) hgoes hP)

/-- What holds at rest in an initial world and is kept by all that a disciplined run does holds
wherever the run comes. -/
theorem Reachable.induction {I : Machine → Prop} (hinit : ∀ w : World, w.IsInitial → I (rest w))
    (hnext : ∀ m m', Reachable P m → Reachable P m' → Goes m m' → I m → I m')
    (h : Reachable P m) : I m := by
  obtain ⟨w, hw, hrun⟩ := h
  induction hrun with
  | refl _ => exact hinit w hw
  | next hrun hgoes hP ih => exact hnext _ _ ⟨w, hw, hrun⟩ ⟨w, hw, hrun.next hgoes hP⟩ hgoes ih

/-! ## The trace only grows -/

theorem trace_follow (outcome : Outcome) (stack : List Activation) (trace : List Event) :
    (follow outcome stack trace).trace = outcome.events.reverse ++ trace := by
  unfold follow
  split <;> rfl

theorem Goes.trace (h : Goes m m') : ∃ new, m'.trace = new ++ m.trace := by
  cases h with
  | act _ action => exact ⟨[], rfl⟩
  | step _ =>
    unfold Machine.step
    split
    · exact ⟨_, trace_follow ..⟩
    · exact ⟨_, trace_follow ..⟩
    · exact ⟨[], rfl⟩

theorem Run.trace (h : Run P m m') : ∃ new, m'.trace = new ++ m.trace := by
  induction h with
  | refl _ => exact ⟨[], rfl⟩
  | next _ hgoes _ ih =>
    obtain ⟨new, hnew⟩ := ih
    obtain ⟨newer, hnewer⟩ := hgoes.trace
    exact ⟨newer ++ new, by rw [hnewer, hnew, List.append_assoc]⟩

/-- What has become known in two goes, the later one first. -/
theorem trace_since {before between after older new events : List Event}
    (hold : between = older ++ before) (hnew : after = new ++ between)
    (h : after = events ++ before) : events = new ++ older := by
  rw [hnew, hold, ← List.append_assoc] at h
  exact (List.append_cancel_right h).symm

/-! ## Steps belong to runs -/

theorem Run.after (n : Nat) (m : Machine) : Run Anyhow m (m.after n) := by
  induction n generalizing m with
  | zero => exact .refl trivial
  | succ n ih =>
    cases h : m.isFinished with
    | true =>
      rw [after_of_isFinished h]
      exact .refl trivial
    | false =>
      rw [after_succ]
      exact (Run.next (.refl trivial) (.step h) trivial).trans (ih m.step)

/-! ## Runs that are played out -/

/-- Goes on for so many steps, and takes up the next of these actions whenever nothing is under
way. -/
def play : Nat → List Action → Machine → Machine
  | 0, _, m => m
  | n + 1, actions, m =>
    if m.isFinished then
      match actions with
      | [] => m
      | action :: rest => play n rest (m.perform action)
    else play n actions m.step

/-- Whether the machine keeps the discipline all the while. -/
def plays (P : Machine → Prop) [DecidablePred P] : Nat → List Action → Machine → Bool
  | 0, _, m => decide (P m)
  | n + 1, actions, m =>
    decide (P m) &&
      if m.isFinished then
        match actions with
        | [] => true
        | action :: rest => plays P n rest (m.perform action)
      else plays P n actions m.step

theorem Run.of_plays [DecidablePred P] {n : Nat} {actions : List Action}
    (h : plays P n actions m = true) : Run P m (play n actions m) := by
  induction n generalizing actions m with
  | zero => exact .refl (by simpa [plays] using h)
  | succ n ih =>
    obtain ⟨hP, hrest⟩ := Bool.and_eq_true_iff.1 h
    have hP := of_decide_eq_true hP
    unfold play
    cases hfin : m.isFinished with
    | true =>
      rw [hfin] at hrest
      cases actions with
      | nil => exact .refl hP
      | cons action rest =>
        have hrun := ih hrest
        exact (Run.next (.refl hP) (.act hfin action) hrun.start).trans hrun
    | false =>
      rw [hfin] at hrest
      have hrun := ih hrest
      exact (Run.next (.refl hP) (.step hfin) hrun.start).trans hrun

theorem Reachable.of_plays [DecidablePred P] {w : World} (hw : w.IsInitial) (n : Nat)
    (actions : List Action) (h : plays P n actions (rest w) = true) :
    Reachable P (play n actions (rest w)) := ⟨w, hw, .of_plays h⟩

end Machine

/-- A world to play in: one queue, one consumer, and two clients of which the first keeps the bus
for a turn. -/
def World.playground : World where
  queues := [{ bound := none }]
  consumers := [{}]
  clients := [{ turns := [⟨.busy, []⟩] }, {}]

theorem World.isInitial_playground : World.playground.IsInitial where
  arbiters := rfl
  queues := by simp [playground]
  clients := by simp [playground]
  notifiers := rfl
  deliveries := rfl

end SharedBus
