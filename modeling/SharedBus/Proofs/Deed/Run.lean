import SharedBus.Proofs.Errand.Run

/-! # Runs deed by deed

No arbiter ever disappears, so all that waits on the books of one has them to write to. With that
every step of a run is a deed, and the trace grows by what the deed makes known.
-/
namespace SharedBus

namespace Machine

variable {a : ArbiterId} {m m' : Machine} {new : List Event} {P : Machine → Prop}

/-- All that a run does is a deed, and the trace grows by what the deed makes known. -/
theorem Goes.deed (h : Goes m m') (hm : m.Placed a) :
    ∃ new, Deed a m m' new ∧ m'.trace = new ++ m.trace := by
  cases h with
  | act hfin action =>
    obtain ⟨⟨reply, hback⟩, hstack⟩ := isFinished_iff.1 hfin
    refine ⟨[], .quiet ⟨rfl, ?_, ?_, ?_, ?_, ?_⟩ (List.forall_mem_nil _), rfl⟩
    · rw [frames, frames, hstack]
      rfl
    · simp [hback]
    · simp [hback]
    · simp [hback]
    · simp [hstack]
  | step hfin =>
    cases hcontrol : m.control with
    | call call =>
      rw [step_of_call hcontrol]
      exact ⟨_, deed_call hcontrol, trace_follow ..⟩
    | back reply =>
      cases hstack : m.stack with
      | nil => simp [isFinished, reply?, hcontrol, hstack] at hfin
      | cons f rest =>
        rw [step_of_back hcontrol hstack]
        exact ⟨_, deed_back hcontrol hm hstack, trace_follow ..⟩

/-! ## Whoever waits on an arbiter's books finds them there -/

theorem suffix_of_stack {f : Activation} {rest : List Activation} (h : m.stack = f :: rest) :
    rest <:+ m.stack := h ▸ List.suffix_cons f rest

theorem Serves.suffix {race : Race} {x : Arbiter} {rest : List Activation}
    (h : Serves a m race x rest new) : rest <:+ m.stack := by
  cases h with
  | idle => exact List.suffix_refl _
  | kept _ _ hstack | left _ _ hstack | took _ _ hstack | passed _ _ hstack =>
    exact suffix_of_stack hstack

/-- The sets and the bindings are left alone until the pass goes on. -/
theorem Serves.books {race : Race} {x : Arbiter} {rest : List Activation}
    (h : Serves a m race x rest new) :
    x.pending = (m.books a).pending ∧ x.free = (m.books a).free ∧
      x.capacity = (m.books a).capacity ∧ x.bindings = (m.books a).bindings := by
  cases h with
  | idle | kept | left | took | passed => exact ⟨rfl, rfl, rfl, rfl⟩

private theorem Placed.of_stack (hm : m.Placed a)
    (hle : m.world.arbiters.length ≤ m'.world.arbiters.length)
    (h : ∀ f ∈ m'.stack, f ∈ m.stack ∨ f = .idle a ∨ f.isOf a = false) : m'.Placed a := by
  intro f hf
  obtain ⟨hmem, hof⟩ := mem_frames.1 hf
  rcases h f hmem with hold | hidle | hnot
  · exact (hm f (mem_frames.2 ⟨hold, hof⟩)).imp_right (Nat.lt_of_lt_of_le · hle)
  · exact .inl hidle
  · simp [hof] at hnot

private theorem Placed.of_follows (hm : m.Placed a)
    (hle : m.world.arbiters.length ≤ m'.world.arbiters.length) {next : Next}
    {stack : List Activation} (hstack : ∀ f ∈ stack, f ∈ m.stack)
    (hwaiting : ∀ f ∈ next.waiting?, f = .idle a ∨ f.isOf a = false)
    (h : m'.Follows next stack) : m'.Placed a := by
  refine hm.of_stack hle fun f hf => ?_
  rcases h.mem_stack hf with hold | hnew
  · exact .inl (hstack f hold)
  · exact .inr (hwaiting f hnew)

/-- A pass that serves without an arbiter has just begun, and goes straight on to the consumer. -/
private theorem Serves.placed (hm : m.Placed a) (hlt : ¬ a < m.world.arbiters.length) {race : Race}
    {x y : Arbiter} {rest : List Activation} {stage : Stage} (h : Serves a m race x rest new)
    (hto : x.ServesTo y stage) : rest = m.stack ∧ stage = .idle := by
  have hdefault : m.books a = default := m.world.arbiter_eq_default (Nat.le_of_not_lt hlt)
  have hhead : ∀ f, m.stack = f :: rest → f.isOf a = true → f ≠ .idle a → False :=
    fun f hstack hof hidle => hlt (lt_length_of_placed hm hstack hof hidle)
  cases h with
  | idle hcall howner =>
    refine ⟨rfl, ?_⟩
    rw [hdefault] at hto
    cases hto with
    | ended howner => cases howner
    | turn _ hslot =>
      exact absurd (SlotSet.mem_of_highest? hslot) (by simp [default, Arbiter.create])
    | reclaim _ hpending hto =>
      cases hto with
      | reclaim _ hslot =>
        exact absurd (SlotSet.mem_of_highest? hslot) (by simp [default, Arbiter.create])
      | idle => rfl
      | ended howned => cases howned
  | kept _ _ hstack | left _ _ hstack | took _ _ hstack | passed _ _ hstack =>
    exact (hhead _ hstack (by simp [Activation.isOf]) (by simp)).elim

end Machine

open Machine

theorem Deed.placed {a : ArbiterId} {m m' : Machine} {new : List Event} (h : Deed a m m' new)
    (hm : m.Placed a) (hle : m.world.arbiters.length ≤ m'.world.arbiters.length) : m'.Placed a := by
  by_cases hlt : a < m.world.arbiters.length
  · exact fun _ _ => .inr (Nat.lt_of_lt_of_le hlt hle)
  have hdefault : m.books a = default := m.world.arbiter_eq_default (Nat.le_of_not_lt hlt)
  have hhead : ∀ {f rest}, m.stack = f :: rest → f.isOf a = true → f ≠ .idle a → m'.Placed a :=
    fun hstack hof hidle => absurd (lt_length_of_placed hm hstack hof hidle) hlt
  cases h with
  | quiet h =>
    intro f hf
    rw [h.frames] at hf
    exact (hm f hf).imp_right (Nat.lt_of_lt_of_le · hle)
  | attach _ hthere =>
    refine absurd ?_ hlt
    unfold attach? at hthere
    split at hthere
    · split at hthere
      · rename_i h
        cases hthere
        simpa [World.hasArbiter] using (Bool.and_eq_true_iff.1 h).1
      · cases hthere
    · cases hthere
  | build _ _ _ _ hnext | release _ _ _ hnext | request _ _ _ _ hnext | skipTurn _ _ _ hnext =>
    exact hm.of_follows hle (fun _ hf => hf) (by simp) hnext
  | job _ _ hnext =>
    exact hm.of_follows hle (fun _ hf => hf) (by simp [Activation.isOf]) hnext
  | endPass _ hstack _ hnext =>
    exact hm.of_follows hle (fun _ hf => hstack ▸ List.mem_cons_of_mem _ hf) (by simp) hnext
  | refuse _ hstack | claim _ hstack | bind _ hstack | uninstall _ hstack | mark _ hstack
  | reclaim _ hstack | endTurn _ hstack =>
    exact hhead hstack (by simp [Activation.isOf]) (by simp)
  | detach _ hfind =>
    rw [hdefault] at hfind
    cases hfind
  | owner _ howner =>
    rw [hdefault] at howner
    cases howner
  | beginTurn _ hclient =>
    rw [hdefault] at hclient
    simp [default, Arbiter.client?] at hclient
  | serve h hto hnext =>
    obtain ⟨rfl, rfl⟩ := h.placed hm hlt hto
    exact hm.of_follows hle (fun _ hf => hf) (by simp [Stage.next]) hnext

namespace Machine

variable {a : ArbiterId} {m : Machine} {P : Machine → Prop}

theorem Reachable.placed (h : Reachable P m) : m.Placed a := by
  refine h.induction (fun w hw f hf => ?_) fun m m' _ _ hgoes ih => ?_
  · cases hf
  · obtain ⟨new, hdeed, _⟩ := hgoes.deed ih
    exact hdeed.placed ih hgoes.length_le

/-- What holds at rest in an initial world and is kept by every deed that a disciplined run does
holds wherever the run comes. -/
theorem Reachable.deed_induction {I : Machine → Prop}
    (hinit : ∀ w : World, w.IsInitial → I (rest w))
    (hdeed : ∀ m m' new, Reachable P m → Reachable P m' → Deed a m m' new →
      m'.trace = new ++ m.trace → I m → I m')
    (h : Reachable P m) : I m := by
  refine h.induction hinit fun m m' hm hm' hgoes ih => ?_
  obtain ⟨new, hd, htrace⟩ := hgoes.deed hm.placed
  exact hdeed m m' new hm hm' hd htrace ih

/-- What holds at a point that a run comes to by whatever discipline and is kept by every deed of
the run holds to its end; with it goes all that has become known since that point. -/
theorem Run.deeds {I : Machine → List Event → Prop} (hm : Reachable Anyhow m) (hinit : I m [])
    (hdeed : ∀ m₁ m₂ older new, Run P m m₁ → P m₂ → Goes m₁ m₂ → Deed a m₁ m₂ new →
      m₂.trace = new ++ m₁.trace → I m₁ older → I m₂ (new ++ older))
    {m' : Machine} {events : List Event} (hrun : Run P m m')
    (htrace : m'.trace = events ++ m.trace) : I m' events := by
  induction hrun generalizing events with
  | refl _ =>
    obtain rfl : events = [] := List.append_left_eq_self.1 htrace.symm
    exact hinit
  | @next m₁ m₂ hrun hgoes hP ih =>
    obtain ⟨older, holder⟩ := hrun.trace
    obtain ⟨new, hd, hnew⟩ := hgoes.deed (a := a) (hm.run hrun.anyhow).placed
    obtain rfl := trace_since holder hnew htrace
    exact hdeed m₁ m₂ older new hrun hP hgoes hd hnew (ih holder)

/-- The same where the point is reached under the discipline of the run. -/
theorem Run.deed_induction {I : Machine → List Event → Prop} (hm : Reachable P m)
    (hinit : I m [])
    (hdeed : ∀ m₁ m₂ older new, Reachable P m₁ → Reachable P m₂ → Goes m₁ m₂ → Deed a m₁ m₂ new →
      m₂.trace = new ++ m₁.trace → I m₁ older → I m₂ (new ++ older))
    {m' : Machine} {events : List Event} (hrun : Run P m m')
    (htrace : m'.trace = events ++ m.trace) : I m' events := by
  refine hrun.deeds (a := a) hm.anyhow hinit
    (fun m₁ m₂ older new hrun₁ hP hgoes hd hnew ih => ?_) htrace
  have hm₁ := hm.run hrun₁
  exact hdeed m₁ m₂ older new hm₁ (hm₁.next hgoes hP) hgoes hd hnew ih

end Machine

end SharedBus
