import SharedBus.WorkQueue

/-! # Reading a queue after a write -/
namespace SharedBus.WorkQueue

variable {q rest : WorkQueue} {job other : Job} {bound : Nat}

theorem hasRoom_of_bound (h : q.bound = some bound) :
    q.hasRoom = true ↔ q.entries.length < bound := by
  rw [hasRoom, h]
  exact decide_eq_true_iff

/-- An empty queue has room, unless it has none at all. -/
theorem hasRoom_of_nil (hbound : q.bound ≠ some 0) (h : q.entries = []) : q.hasRoom = true := by
  cases hq : q.bound with
  | none => rw [hasRoom, hq]
  | some bound =>
    have hne : bound ≠ 0 := fun h0 => hbound (h0 ▸ hq)
    rw [hasRoom_of_bound hq, h]
    exact Nat.pos_of_ne_zero hne

theorem push_of_hasRoom (h : q.hasRoom = true) (job : Job) :
    q.push job = { q with entries := q.entries ++ [job] } := if_pos h

@[simp] theorem bound_push (q : WorkQueue) (job : Job) : (q.push job).bound = q.bound := by
  unfold push
  split <;> rfl

@[simp] theorem reserved_push (q : WorkQueue) (job : Job) : (q.push job).reserved = q.reserved := by
  unfold push
  split <;> rfl

theorem mem_push (h : other ∈ q.entries) : other ∈ (q.push job).entries := by
  unfold push
  split
  · exact List.mem_append_left _ h
  · exact h

theorem mem_push_cases (h : other ∈ (q.push job).entries) : other ∈ q.entries ∨ other = job := by
  unfold push at h
  split at h
  · simpa using h
  · exact .inl h

theorem mem_push_self (h : q.hasRoom = true) : job ∈ (q.push job).entries := by
  rw [push_of_hasRoom h]
  simp

theorem count_push_of_ne (h : job ≠ other) (q : WorkQueue) :
    (q.push job).entries.count other = q.entries.count other := by
  unfold push
  split
  · simp [h]
  · rfl

theorem length_push (q : WorkQueue) (job : Job) :
    (q.push job).entries.length = q.entries.length + q.hasRoom.toNat := by
  unfold push
  split <;> simp_all

theorem count_push (q : WorkQueue) (job : Job) :
    (q.push job).entries.count job = q.entries.count job + q.hasRoom.toNat := by
  unfold push
  split <;> simp_all

theorem pop?_eq_some : q.pop? = some (job, rest) ↔
    q.entries = job :: rest.entries ∧ rest = { q with entries := rest.entries } := by
  unfold pop?
  split
  · rename_i hentries
    simp [hentries]
  · rename_i first waiting hentries
    rw [hentries]
    constructor
    · intro h
      obtain ⟨rfl, rfl⟩ := Prod.mk.inj (Option.some.inj h)
      exact ⟨rfl, rfl⟩
    · rintro ⟨hcons, hrest⟩
      obtain ⟨rfl, rfl⟩ := List.cons.inj hcons
      rw [hrest]

/-- A reservation counts one more entry, if the queue counts them. -/
theorem reserve?_eq_some : q.reserve? = some rest → rest.entries = q.entries ∧
    rest.bound = q.bound ∧
      ∀ bound, q.bound = some bound → rest.reserved = q.reserved + 1 ∧ rest.reserved ≤ bound := by
  unfold reserve?
  split
  · rename_i hnone
    rintro ⟨⟩
    simp [hnone]
  · rename_i bound hbound
    split
    · rename_i hlt
      rintro ⟨⟩
      refine ⟨rfl, rfl, fun _ hother => ?_⟩
      obtain rfl := Option.some.inj (hbound.symm.trans hother)
      exact ⟨rfl, hlt⟩
    · rintro ⟨⟩

/-- A queue without any room reserves nothing. -/
theorem bound_ne_zero_of_reserve? (h : q.reserve? = some rest) : q.bound ≠ some 0 := by
  intro hbound
  obtain ⟨hreserved, hle⟩ := (reserve?_eq_some h).2.2 0 hbound
  omega

end SharedBus.WorkQueue
