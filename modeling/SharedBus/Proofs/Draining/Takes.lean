import SharedBus.Proofs.Deed.Run
import SharedBus.Proofs.Evaluation

/-! # The steps of a call

A call takes a number of steps. Between the first and the last of them its activations wait above
those that were there before, and what is below never moves.
-/
namespace SharedBus

namespace Machine

variable {m : Machine} {n : Nat} {effect : Effect} {P : Machine → Prop}

/-- The call that the machine makes takes so many steps and has this effect. -/
structure Takes (m : Machine) (n : Nat) (effect : Effect) : Prop where
  ends : m.after n = m.ended effect
  underway : ∀ k, 0 < k → k < n → ∃ above waiting, (m.after k).stack = above ++ waiting :: m.stack

/-- The activations of a call are of the sort that it and they leave to wait. -/
theorem takes_within (waits : Activation → Prop)
    (hresume : ∀ (w : World) back waiting, waits waiting →
      (w.resume back waiting).next.Within (fun _ => True) waits)
    {call : Call} (hcall : m.control = .call call) (hends : (m.world.begin call).Ends effect)
    (hbegin : (m.world.begin call).next.Within (fun _ => True) waits) :
    ∃ n, m.Takes n effect ∧ ∀ k, 0 < k → k < n → ∃ f ∈ (m.after k).stack, waits f := by
  obtain ⟨w, control, stack, trace⟩ := m
  subst hcall
  obtain ⟨n, hn, habove⟩ := hends.underway waits hresume hbegin stack trace
  have hlater (k : Nat) : (⟨w, .call call, stack, trace⟩ : Machine).after (k + 1) =
      (follow (w.begin call) stack trace).after k := after_succ ..
  refine ⟨n + 1, ⟨by rw [hlater]; exact hn, fun k hpos hlt => ?_⟩, fun k hpos hlt => ?_⟩
  all_goals
    obtain ⟨k, rfl⟩ := Nat.exists_eq_succ_of_ne_zero (Nat.ne_of_gt hpos)
    obtain ⟨above, waiting, hstack, hwaits⟩ := habove k (Nat.lt_of_succ_lt_succ hlt)
    rw [hlater, hstack]
  · exact ⟨above, waiting, rfl⟩
  · exact ⟨waiting, by simp, hwaits⟩

/-- Every call ends. -/
theorem takes_of_ends {call : Call} (hcall : m.control = .call call)
    (hends : (m.world.begin call).Ends effect) : ∃ n, m.Takes n effect := by
  obtain ⟨n, hn, _⟩ := takes_within (fun _ => True) (fun _ _ _ _ => Next.within_trivial _) hcall
    hends (Next.within_trivial _)
  exact ⟨n, hn⟩

theorem Takes.not_lt (h : m.Takes n effect) {call : Call} (hcall : m.control = .call call) {k : Nat}
    {other : Effect} (h' : m.Takes k other) : ¬ k < n := by
  intro hlt
  have hpos : 0 < k := Nat.pos_of_ne_zero fun hzero => by
    have hback := congrArg Machine.control h'.ends
    rw [hzero, after_zero, hcall] at hback
    cases hback
  obtain ⟨above, waiting, hstack⟩ := h.underway k hpos hlt
  rw [h'.ends] at hstack
  have hlength := congrArg List.length hstack
  simp only [ended, List.length_append, List.length_cons] at hlength
  omega

theorem Takes.unique (h : m.Takes n effect) {call : Call} (hcall : m.control = .call call) {k : Nat}
    {other : Effect} (h' : m.Takes k other) : n = k ∧ effect = other := by
  obtain rfl := Nat.le_antisymm (Nat.le_of_not_lt (h'.not_lt hcall h))
    (Nat.le_of_not_lt (h.not_lt hcall h'))
  obtain ⟨hworld, hcontrol, _, htrace⟩ := Machine.mk.inj (h.ends.symm.trans h'.ends)
  have hevents := List.reverse_inj.1 (List.append_cancel_right htrace)
  obtain ⟨w, reply, events⟩ := effect
  obtain rfl : w = other.world := hworld
  obtain rfl : reply = other.reply := Control.back.inj hcontrol
  obtain rfl : events = other.events := hevents
  exact ⟨rfl, rfl⟩

/-- What takes steps ends as it does on its own. -/
theorem Takes.ends_begin (h : m.Takes n effect) {call : Call} (hcall : m.control = .call call) :
    (m.world.begin call).Ends effect := by
  obtain ⟨other, hends, _⟩ := (m.world.begin call).exists_ends
  obtain ⟨k, h'⟩ := takes_of_ends hcall hends
  obtain ⟨_, rfl⟩ := h.unique hcall h'
  exact hends

/-- A call with nothing below it takes steps until there is a reply. -/
theorem takes_of_reply? {reply : Reply} {new : List Event} (hstack : m.stack = [])
    (hreply : (m.after n).reply? = some reply) (htrace : (m.after n).trace = new ++ m.trace)
    (hwaiting : ∀ k < n, 0 < k → (m.after k).stack.isEmpty = false) :
    m.Takes n ⟨(m.after n).world, reply, new.reverse⟩ := by
  refine ⟨?_, fun k hpos hlt => ?_⟩
  · unfold reply? at hreply
    split at hreply
    · rename_i hback hempty
      obtain rfl := Option.some.inj hreply
      simp only [ended, List.reverse_reverse, hstack, ← hback, ← hempty, ← htrace]
    · cases hreply
  · rcases List.eq_nil_or_concat (m.after k).stack with hnil | ⟨above, waiting, habove⟩
    · cases (hnil ▸ hwaiting k hlt hpos : [].isEmpty = false)
    · exact ⟨above, waiting, by rw [habove, hstack, List.concat_eq_append]⟩

theorem after_add_one (k : Nat) : m.after (k + 1) = (m.after k).step := by
  rw [← after_after, after_succ, after_zero]

/-- What holds when a call begins and is kept by each of its steps holds when it has ended. A step
is told which activations of the call wait, and what has become known since the call began. -/
theorem Takes.induction (ht : m.Takes n effect) {call : Call} (hcall : m.control = .call call)
    (hm : Reachable P m) (hP : ∀ k ≤ n, P (m.after k))
    {I : Nat → List Activation → List Event → Prop} (hinit : I 0 [] [])
    (hstep : ∀ k above above' older new, Reachable P (m.after k) → Reachable P (m.after (k + 1)) →
      k < n → Goes (m.after k) (m.after (k + 1)) →
      (m.after (k + 1)).trace = new ++ (m.after k).trace →
      (m.after k).stack = above ++ m.stack → (m.after (k + 1)).stack = above' ++ m.stack →
      (∃ call, (m.after k).control = .call call) ∨ above ≠ [] →
      I k above older → I (k + 1) above' (new ++ older)) :
    I n [] effect.events.reverse := by
  have habove : ∀ k ≤ n, ∃ above, (m.after k).stack = above ++ m.stack ∧
      (k < n → (∃ call, (m.after k).control = .call call) ∨ above ≠ []) := by
    intro k hk
    rcases Nat.eq_zero_or_pos k with rfl | hpos
    · exact ⟨[], rfl, fun _ => .inl ⟨call, hcall⟩⟩
    rcases Nat.lt_or_ge k n with hlt | hge
    · obtain ⟨above, waiting, hstack⟩ := ht.underway k hpos hlt
      exact ⟨above ++ [waiting], by rw [hstack, List.append_assoc]; rfl, fun _ => .inr (by simp)⟩
    · obtain rfl := Nat.le_antisymm hk hge
      exact ⟨[], by rw [ht.ends]; rfl, fun hlt => absurd hlt (Nat.lt_irrefl _)⟩
  have hall : ∀ k ≤ n, Reachable P (m.after k) ∧ ∀ above events,
      (m.after k).stack = above ++ m.stack → (m.after k).trace = events ++ m.trace →
        I k above events := by
    intro k
    induction k with
    | zero =>
      refine fun _ => ⟨hm, fun above events hstack htrace => ?_⟩
      obtain rfl : above = [] := List.append_left_eq_self.1 hstack.symm
      obtain rfl : events = [] := List.append_left_eq_self.1 htrace.symm
      exact hinit
    | succ k ih =>
      intro hk
      obtain ⟨hreach, hbefore⟩ := ih (Nat.le_of_succ_le hk)
      obtain ⟨above, hstack, hunder⟩ := habove k (Nat.le_of_succ_le hk)
      have hgoes : Goes (m.after k) (m.after (k + 1)) := by
        rw [after_add_one]
        refine .step (Bool.eq_false_iff.2 fun hfin => ?_)
        obtain ⟨⟨reply, hback⟩, hempty⟩ := isFinished_iff.1 hfin
        rcases hunder hk with ⟨call, hcall⟩ | hne
        · cases hback.symm.trans hcall
        · rw [hstack] at hempty
          exact hne (List.append_eq_nil_iff.1 hempty).1
      have hreach' := hreach.next hgoes (hP (k + 1) hk)
      refine ⟨hreach', fun above' events hstack' htrace => ?_⟩
      obtain ⟨new, hnew⟩ := hgoes.trace
      obtain ⟨older, holder⟩ := (Run.after k m).trace
      obtain rfl := trace_since holder hnew htrace
      exact hstep k above above' older new hreach hreach' hk hgoes hnew hstack hstack' (hunder hk)
        (hbefore above older hstack holder)
  refine (hall n (Nat.le_refl n)).2 [] _ ?_ ?_ <;> rw [ht.ends] <;> rfl

end Machine

end SharedBus
