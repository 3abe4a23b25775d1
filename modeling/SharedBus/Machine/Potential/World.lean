import SharedBus.Machine.Potential.Basic
import SharedBus.Slot.Lemmas

/-! # Potentials of the parts of a world

A part that is replaced changes the potential of the world by the difference of the two parts at
most. Spending a hook lowers it by the actions that the call performs; a request or a queued pass
raises it by no more than it sets off.
-/
namespace SharedBus

theorem total_append {α : Type} (weight : α → Nat) (parts others : List α) :
    total weight (parts ++ others) = total weight parts + total weight others := by
  induction parts with
  | nil => simp [total]
  | cons part rest ih =>
    simp only [List.cons_append, total]
    omega

/-- Replacing one part of a list changes the total by what that part counts for. Outside the list
nothing is replaced. -/
theorem total_set_le {α : Type} (weight : α → Nat) (default : α) (h : weight default = 0)
    (parts : List α) (i : Nat) (part : α) :
    total weight (parts.set i part) + weight (parts.getD i default) ≤
      total weight parts + weight part := by
  induction parts generalizing i with
  | nil => simp [total, h]
  | cons first rest ih =>
    cases i with
    | zero =>
      simp [total]
      omega
    | succ i =>
      have := ih i
      simp [total] at this ⊢
      omega

theorem Hook.weight_tail (hook : Hook) :
    Hook.weight hook.tail + scriptWeight hook.now = hook.weight := by
  cases hook with
  | nil => rfl
  | cons first rest => simp [Hook.weight, Hook.now, total, Nat.add_comm]

theorem Client.weight_nextTurn (client : Client) :
    client.nextTurn.2.weight + scriptWeight client.nextTurn.1.actions = client.weight := by
  obtain ⟨turns, tail, takesErrors, hooks, handles⟩ := client
  cases turns with
  | nil => simp [nextTurn, scriptWeight]
  | cons turn rest =>
    simp [nextTurn, weight, total]
    omega

theorem Client.weight_install (client : Client) (kind : HandleKind) (handle : Option Handle) :
    (client.install kind handle).weight + scriptWeight (client.hook kind).now =
      client.weight := by
  have := Hook.weight_tail (client.hook kind)
  cases kind <;> simp [weight, install, hook, PerKind.get, PerKind.set] at this ⊢ <;> omega

theorem Consumer.weight_spend (consumer : Consumer) (report : Report) :
    (consumer.spend report).weight + scriptWeight (consumer.hook report).now =
      consumer.weight := by
  have := Hook.weight_tail (consumer.hook report)
  cases report <;> simp [weight, spend, hook] at this ⊢ <;> omega

theorem WorkQueue.potential_of_pop? {q rest : WorkQueue} {job : Job}
    (h : q.pop? = some (job, rest)) : rest.potential + 12 = q.potential := by
  obtain ⟨bound, entries, reserved⟩ := q
  cases entries with
  | nil => simp [WorkQueue.pop?] at h
  | cons first others =>
    simp [WorkQueue.pop?] at h
    obtain ⟨rfl, rfl⟩ := h
    simp [WorkQueue.potential, WorkQueue.size]
    omega

theorem WorkQueue.potential_of_reserve? {q reserved : WorkQueue}
    (h : q.reserve? = some reserved) : reserved.potential = q.potential := by
  simp only [WorkQueue.reserve?] at h
  split at h
  · rw [← Option.some.inj h]
  · split at h
    · rw [← Option.some.inj h]
      rfl
    · simp at h

namespace World

variable (w : World)

theorem potential_setArbiter_le (a : ArbiterId) (arbiter : Arbiter) :
    (w.setArbiter a arbiter).potential + (w.arbiter a).potential ≤
      w.potential + arbiter.potential := by
  have := total_set_le Arbiter.potential default (by decide) w.arbiters a arbiter
  simp only [potential, setArbiter, World.arbiter]
  omega

theorem potential_move_le (a : ArbiterId) (f : Arbiter → Arbiter) :
    (w.move a f).potential + (w.arbiter a).potential ≤
      w.potential + (f (w.arbiter a)).potential :=
  w.potential_setArbiter_le a _

theorem potential_setQueue_le (q : QueueId) (queue : WorkQueue) :
    (w.setQueue q queue).potential + (w.queue q).potential ≤ w.potential + queue.potential := by
  have := total_set_le WorkQueue.potential default (by decide) w.queues q queue
  simp only [potential, setQueue, World.queue]
  omega

theorem potential_setConsumer_le (s : ConsumerId) (consumer : Consumer) :
    (w.setConsumer s consumer).potential + rate * (w.consumer s).weight ≤
      w.potential + rate * consumer.weight := by
  have := total_set_le Consumer.weight default (by decide) w.consumers s consumer
  simp only [potential, setConsumer, World.consumer, rate, price]
  omega

theorem potential_setClient_le (c : ClientId) (client : Client) :
    (w.setClient c client).potential + rate * (w.client c).weight ≤
      w.potential + rate * client.weight := by
  have := total_set_le Client.weight default (by decide) w.clients c client
  simp only [potential, setClient, World.client, rate, price]
  omega

theorem potential_setTask_le (j : TaskId) (task : Hook) :
    (w.setTask j task).potential + rate * (w.task j).weight ≤
      w.potential + rate * Hook.weight task := by
  have := total_set_le Hook.weight [] (by rfl) w.tasks j task
  simp only [potential, setTask, World.task, rate, price]
  omega

@[simp] theorem potential_record (kind : HandleKind) (handle : Handle) :
    (w.record kind handle).potential = w.potential := by
  cases kind <;> rfl

theorem potential_enqueue_le (q : QueueId) (job : Job) :
    (w.enqueue q job).1.potential ≤ w.potential + 12 := by
  have := w.potential_setQueue_le q ((w.queue q).push job)
  have hpush : ((w.queue q).push job).potential ≤ (w.queue q).potential + 12 := by
    simp only [WorkQueue.push]
    split <;> simp [WorkQueue.potential, WorkQueue.size]; omega
  simp only [enqueue]
  omega

theorem potential_schedule_le (a : ArbiterId) :
    (w.schedule a).1.potential ≤ w.potential + 12 := by
  simp only [schedule]
  split
  · simp
  · have := w.potential_move_le a ({ · with queued := true })
    have := (w.move a ({ · with queued := true })).potential_enqueue_le (w.arbiter a).queue (.pass a)
    simp only [Arbiter.potential] at *
    omega

theorem potential_request_le (a : ArbiterId) (slot : SlotId) :
    (w.request a slot).1.potential ≤ w.potential + 28 := by
  have hasked : (w.move a (·.setPending slot)).potential ≤ w.potential + 16 := by
    have := w.potential_move_le a (·.setPending slot)
    have := (w.arbiter a).pending.size_insert_le slot
    simp only [Arbiter.potential, Arbiter.setPending] at *
    omega
  have hscheduled := (w.move a (·.setPending slot)).potential_schedule_le a
  simp only [request]
  split
  · split
    · simp only; omega
    · simp only; omega
  · simp only; omega

end World

end SharedBus
