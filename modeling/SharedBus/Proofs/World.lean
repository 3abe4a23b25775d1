import SharedBus.Machine.Step

/-! # Reading a world after a write

What every read of a world gives after each write to it. A write to one part leaves the others as
they are, and a part that does not exist cannot be written.
-/
namespace SharedBus.World

variable (w : World) {a b : ArbiterId}

/-! ## Arbiters -/

theorem arbiter_eq_default (h : w.arbiters.length ≤ a) : w.arbiter a = default := by
  simp [arbiter, List.getElem?_eq_none h]

variable {w} in
theorem lt_length_of_arbiter_ne (h : w.arbiter a ≠ default) : a < w.arbiters.length := by
  rcases Nat.lt_or_ge a w.arbiters.length with hlt | hge
  · exact hlt
  · exact absurd (w.arbiter_eq_default hge) h

variable {w} in
theorem lt_length_of_accepts {slot : SlotId} (h : (w.arbiter a).accepts slot = true) :
    a < w.arbiters.length := by
  refine lt_length_of_arbiter_ne fun hdefault => ?_
  rw [hdefault] at h
  simp [Arbiter.accepts, default, Arbiter.create] at h

theorem arbiter_setArbiter_self (h : a < w.arbiters.length) (x : Arbiter) :
    (w.setArbiter a x).arbiter a = x := by
  simp [arbiter, setArbiter, h]

theorem arbiter_setArbiter_ne (h : b ≠ a) (x : Arbiter) :
    (w.setArbiter b x).arbiter a = w.arbiter a := by
  simp [arbiter, setArbiter, List.getElem?_set_ne h]

/-- Writing back what an arbiter already reads as changes nothing, whether it exists or not. -/
theorem arbiter_setArbiter_of_eq {x : Arbiter} (h : x = w.arbiter a) :
    (w.setArbiter a x).arbiter a = x := by
  rcases Nat.lt_or_ge a w.arbiters.length with hlt | hge
  · exact w.arbiter_setArbiter_self hlt x
  · rw [h, arbiter_eq_default, arbiter_eq_default w hge]
    simpa [setArbiter] using hge

theorem arbiter_move_self (h : a < w.arbiters.length) (f : Arbiter → Arbiter) :
    (w.move a f).arbiter a = f (w.arbiter a) := w.arbiter_setArbiter_self h _

theorem arbiter_move_ne (h : b ≠ a) (f : Arbiter → Arbiter) :
    (w.move b f).arbiter a = w.arbiter a := w.arbiter_setArbiter_ne h _

/-- A move that does nothing to the default books needs no arbiter to be there. -/
theorem arbiter_move_of_default {f : Arbiter → Arbiter} (h : f default = default) :
    (w.move a f).arbiter a = f (w.arbiter a) := by
  rcases Nat.lt_or_ge a w.arbiters.length with hlt | hge
  · exact w.arbiter_move_self hlt f
  · rw [arbiter_eq_default w hge, h, arbiter_eq_default]
    simpa [move, setArbiter] using hge

@[simp] theorem arbiter_setQueue (q : QueueId) (queue : WorkQueue) :
    (w.setQueue q queue).arbiter a = w.arbiter a := rfl

@[simp] theorem arbiter_setConsumer (s : ConsumerId) (consumer : Consumer) :
    (w.setConsumer s consumer).arbiter a = w.arbiter a := rfl

@[simp] theorem arbiter_setClient (c : ClientId) (client : Client) :
    (w.setClient c client).arbiter a = w.arbiter a := rfl

@[simp] theorem arbiter_setTask (j : TaskId) (task : Hook) :
    (w.setTask j task).arbiter a = w.arbiter a := rfl

@[simp] theorem arbiter_record (kind : HandleKind) (handle : Handle) :
    (w.record kind handle).arbiter a = w.arbiter a := by
  cases kind <;> rfl

@[simp] theorem arbiter_enqueue (q : QueueId) (job : Job) :
    (w.enqueue q job).1.arbiter a = w.arbiter a := rfl

@[simp] theorem length_setArbiter (x : Arbiter) :
    (w.setArbiter b x).arbiters.length = w.arbiters.length := by
  simp [setArbiter]

@[simp] theorem length_move (f : Arbiter → Arbiter) :
    (w.move b f).arbiters.length = w.arbiters.length := w.length_setArbiter _

/-! ## Writing back what is read -/

private theorem set_getD {α : Type} (l : List α) (i : Nat) (d : α) : l.set i (l.getD i d) = l := by
  rcases Nat.lt_or_ge i l.length with hlt | hge
  · simp [hlt]
  · exact List.set_eq_of_length_le hge

theorem setArbiter_arbiter : w.setArbiter a (w.arbiter a) = w := by
  rw [setArbiter, arbiter, set_getD]

theorem setQueue_queue (q : QueueId) : w.setQueue q (w.queue q) = w := by
  rw [setQueue, queue, set_getD]

theorem setClient_client (c : ClientId) : w.setClient c (w.client c) = w := by
  rw [setClient, client, set_getD]

/-! ## Releasing an arbiter -/

/-- A release writes nothing unless it raises the flag. -/
theorem tryRelease_eq : w.tryRelease a =
    if (w.arbiter a).attachedCount > 0 then
      w.reply (.refused (.inUse (w.arbiter a).attachedCount))
    else (w.setArbiter a { w.arbiter a with closed := true }).reply .released [.released a] := by
  rw [tryRelease, Arbiter.release_eq]
  by_cases hcount : (w.arbiter a).attachedCount > 0
  · simp only [if_pos hcount, setArbiter_arbiter]
  · simp only [if_neg hcount]

/-! ## Scheduling a pass -/

theorem arbiter_schedule_self (h : a < w.arbiters.length) :
    (w.schedule a).1.arbiter a = { w.arbiter a with queued := true } := by
  unfold schedule
  split
  · rename_i hq
    rw [← hq]
  · rw [arbiter_enqueue]
    exact w.arbiter_move_self h _

theorem arbiter_schedule_ne (h : b ≠ a) : (w.schedule b).1.arbiter a = w.arbiter a := by
  unfold schedule
  split
  · rfl
  · rw [arbiter_enqueue]
    exact w.arbiter_move_ne h _

/-- Scheduling is silent if a pass is queued already, and hands the queue one job otherwise. -/
theorem schedule_events : (w.schedule a).2 =
    if (w.arbiter a).queued then [] else
      [.queued (w.arbiter a).queue (.pass a) (w.queue (w.arbiter a).queue).hasRoom] := by
  unfold schedule
  split
  · rfl
  · rfl

/-! ## Outcomes -/

@[simp] theorem next_reply (reply : Reply) (events : List Event) :
    (w.reply reply events).next = .reply reply := rfl

@[simp] theorem next_call (call : Call) (waiting : Activation) (events : List Event) :
    (w.call call waiting events).next = .call call waiting := rfl

end SharedBus.World
