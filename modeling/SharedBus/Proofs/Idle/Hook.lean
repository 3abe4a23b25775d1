import SharedBus.Proofs.Calls
import SharedBus.Proofs.Idle.Lone
import SharedBus.Proofs.Wakeup

/-! # The call of the idle hook

A consumer is told that the bus is idle by a pass that has served all requests and given back all
detached slots. The pass then has nothing left to do but to wait for the consumer. A pass that does
not come to this ends because the bus is taken, or because there is a request left over.
-/
namespace SharedBus

/-- A pass of the arbiter advances a slot or gives one back. -/
def Event.isProgress (a : ArbiterId) : Event → Bool
  | .continued b _ | .served b _ | .turnBegun b _ _ | .turnEnded b _ _ _ | .withdrawn b _
  | .freed b _ => b == a
  | _ => false

theorem Event.isProgress_of_not_isOf {a : ArbiterId} {e : Event} (h : e.isOf a = false) :
    e.isProgress a = false := by
  cases e <;> first | exact h | rfl

namespace Machine

variable {a : ArbiterId} {m m' : Machine} {new : List Event}

/-- The consumer of the arbiter is about to be told that the bus is idle. -/
def TellsIdle (a : ArbiterId) (m : Machine) : Prop := m.control = .call (.report a .idle)

/-- A pass of the arbiter that is in progress waits for nothing but its consumer. -/
def Resting (a : ArbiterId) (m : Machine) : Prop := ∀ f ∈ m.stack, f.isPass a = true → f = .idle a

end Machine

open Machine

section
variable {a : ArbiterId} {m m' : Machine} {new : List Event}

/-- The hook is called by a pass that has served and given back what there was. -/
theorem Deed.tellsIdle (h : Deed a m m' new) (hgoes : Goes m m') (htells : m'.TellsIdle a) :
    (∃ race x rest, Serves a m race x rest new ∧ x.ServesTo (m'.books a) .idle ∧
      m'.stack = .idle a :: rest) ∨
    ∃ slot rest, m.stack = .reclaim a slot :: rest ∧
      ((m.books a).unbind slot |>.giveBack slot).ReclaimsTo (m'.books a) .idle ∧
      m'.stack = .idle a :: rest := by
  unfold TellsIdle at htells
  have hcall : ∀ {call : Call} {waiting : Activation} {stack : List Activation},
      m'.Follows (.call call waiting) stack → call = .report a .idle := fun hnext =>
    Control.call.inj (hnext.1.symm.trans htells)
  have hreply : ∀ {reply : Reply} {stack : List Activation}, ¬ m'.Follows (.reply reply) stack := by
    intro reply stack hnext
    cases hnext.1.symm.trans htells
  cases h with
  | quiet h =>
    -- the pass that reports would be new on the stack
    have hidle : (Activation.idle a).isOf a = true := by simp [Activation.isOf]
    have hlength := congrArg List.length h.frames
    rcases hgoes.idle htells with hstack | ⟨reply, f, rest, hback, hstack, hstack'⟩
    · rw [frames_of_stack hstack hidle] at hlength
      exact absurd hlength (Nat.succ_ne_self _)
    · have hof := h.not_back reply f rest hback hstack
      rw [frames_of_stack hstack' hidle, frames, hstack, List.filter_cons_of_neg (by simp [hof])]
        at hlength
      exact absurd hlength (Nat.succ_ne_self _)
  | build _ _ _ _ hnext | refuse _ _ _ _ hnext | mark _ _ _ _ hnext | release _ _ _ hnext
  | request _ _ _ _ hnext | endPass _ _ _ hnext | skipTurn _ _ _ hnext | endTurn _ _ _ hnext =>
    exact absurd hnext hreply
  | attach _ _ _ _ hnext | claim _ _ _ _ _ _ hnext | bind _ _ _ hnext | detach _ _ _ hnext
  | uninstall _ _ _ _ hnext | job _ _ hnext | owner _ _ _ hnext | beginTurn _ _ _ hnext =>
    cases hcall hnext
  | @serve race x rest before stage hserves hto hnext =>
    cases stage with
    | idle => exact .inl ⟨race, x, rest, hserves, hto, hnext.2⟩
    | ended => exact absurd hnext hreply
    | turn | reclaim => cases hcall hnext
  | @reclaim _ slot rest stage _ hstack hto hnext =>
    cases stage with
    | idle => exact .inr ⟨slot, rest, hstack, hto, hnext.2⟩
    | ended => exact absurd hnext hreply
    | turn | reclaim => cases hcall hnext

theorem Deed.resting_of_tellsIdle (h : Deed a m m' new) (hgoes : Goes m m')
    (hapart : m.PassesApart) (hm : m.Lone a) (htells : m'.TellsIdle a) :
    m'.Resting a ∧ (m'.books a).owner = none ∧ (m'.books a).pending.isEmpty ∧
      (m'.books a).detaching.isEmpty := by
  have hresting : ∀ {rest}, (∀ f ∈ rest, f.isPass a = false) → m'.stack = .idle a :: rest →
      m'.Resting a := by
    intro rest hrest hstack f hf hpass
    rw [hstack] at hf
    refine (List.mem_cons.1 hf).resolve_right fun hmem => ?_
    cases hpass.symm.trans (hrest f hmem)
  have hidle : ∀ {x : Arbiter}, x.owner = none → x.ReclaimsTo (m'.books a) .idle →
      (m'.books a).owner = none ∧ (m'.books a).pending.isEmpty ∧
        (m'.books a).detaching.isEmpty := by
    intro x howner hto
    generalize m'.books a = y at hto
    cases hto with
    | idle hpending hdone => exact ⟨howner, hpending, hdone howner⟩
  rcases h.tellsIdle hgoes htells with ⟨race, x, rest, hserves, hto, hstack'⟩ |
    ⟨slot, rest, hstack, hto, hstack'⟩
  · refine ⟨hresting (hserves.below hm hapart) hstack', ?_⟩
    generalize hy : m'.books a = y at hto
    cases hto with
    | reclaim howner _ hto => exact hy ▸ hidle howner (hy ▸ hto)
  · refine ⟨hresting (hm.below hstack (by simp [Activation.isPass])) hstack', hidle ?_ hto⟩
    exact hm.idle_of_stack hstack (by simp [Activation.isOf]) rfl

/-! ## Nothing is left to do after it -/

theorem Machine.Resting.eq_idle (hm : m.Resting a) {f : Activation} {rest : List Activation}
    (hstack : m.stack = f :: rest) (hf : f.isPass a = true) : f = .idle a :=
  hm f (hstack ▸ List.mem_cons_self) hf

/-- Only a pass that begins can serve. -/
theorem Machine.Serves.begins {race : Race} {x : Arbiter} {rest : List Activation}
    (h : Serves a m race x rest new) (hm : m.Resting a) : m.pass? = some a := by
  cases h with
  | idle hcall => exact pass?_of_control hcall
  | kept _ _ hstack | left _ _ hstack | took _ _ hstack | passed _ _ hstack =>
    cases hm.eq_idle hstack (by simp [Activation.isPass])

/-- Nobody has a turn. -/
theorem Machine.Resting.not_turn (hm : m.Resting a) {slot : SlotId} {stack : List Activation}
    (hturn : LinkedStack (some (a, slot)) stack) (hstack : stack <:+ m.stack) : False := by
  cases stack with
  | nil => cases hturn
  | cons f rest =>
    have hmem : f ∈ m.stack := hstack.mem List.mem_cons_self
    rcases Activation.awaits_some hturn.1 with ⟨race, rfl⟩ | ⟨race, rfl⟩
    · cases hm _ hmem (by simp [Activation.isPass])
    · cases hm _ hmem (by simp [Activation.isPass])

theorem Deed.not_tellsIdle (h : Deed a m m' new) (hgoes : Goes m m') (hm : m.Resting a)
    (hpass : m.pass? ≠ some a) : ¬ m'.TellsIdle a := by
  intro htells
  rcases h.tellsIdle hgoes htells with ⟨_, _, _, hserves, _⟩ | ⟨_, _, hstack, _⟩
  · exact hpass (hserves.begins hm)
  · cases hm.eq_idle hstack (by simp [Activation.isPass])

/-- Until the next pass begins, nobody is advanced and nothing is given back. -/
theorem Deed.resting (h : Deed a m m' new) (hlinked : m.Linked) (hm : m.Resting a)
    (hpass : m.pass? ≠ some a) : m'.Resting a ∧ ∀ e ∈ new, e.isProgress a = false := by
  have hkeep : ∀ {next : Next} {stack : List Activation}, stack <:+ m.stack →
      (∀ f ∈ next.waiting?, f.isPass a = false) → m'.Follows next stack → m'.Resting a := by
    intro next stack hsuffix hwaiting hnext f hf hisPass
    rcases hnext.mem_stack hf with hold | hnew
    · exact hm f (hsuffix.mem hold) hisPass
    · cases hisPass.symm.trans (hwaiting f hnew)
  cases h with
  | quiet h hnew =>
    refine ⟨fun f hf hisPass => ?_, fun e he => Event.isProgress_of_not_isOf (hnew e he)⟩
    exact hm f (h.mem_stack (Activation.isOf_of_isPass hisPass) hf) hisPass
  | build _ _ _ _ hnext | attach _ _ _ _ hnext | detach _ _ _ hnext | release _ _ _ hnext
  | job _ _ hnext =>
    exact ⟨hkeep (List.suffix_refl _) (by simp [Activation.isPass]) hnext,
      by simp [Event.isProgress]⟩
  | request _ _ hnew _ hnext =>
    refine ⟨hkeep (List.suffix_refl _) (by simp) hnext, fun e he => ?_⟩
    rcases List.mem_append.1 he with he | he
    · exact Event.isProgress_of_not_isOf (hnew e he)
    · rw [List.mem_singleton.1 he]
      rfl
  | refuse _ hstack _ hnew hnext =>
    refine ⟨hkeep (suffix_of_stack hstack) (by simp) hnext, ?_⟩
    rcases hnew with rfl | ⟨slot, _, rfl⟩ <;> simp [Event.isProgress]
  | claim _ hstack _ _ _ _ hnext | bind _ hstack _ hnext | uninstall _ hstack _ _ hnext
  | endPass _ hstack _ hnext =>
    exact ⟨hkeep (suffix_of_stack hstack) (by simp [Activation.isPass]) hnext,
      by simp [Event.isProgress]⟩
  | mark _ hstack _ _ hnext =>
    refine ⟨hkeep (suffix_of_stack hstack) (by simp) hnext, fun e he => ?_⟩
    rcases List.mem_append.1 he with he | he
    · exact Event.isProgress_of_not_isOf (Arbiter.scheduling_not_isOf e he)
    · rw [List.mem_singleton.1 he]
      rfl
  | owner hcall => exact absurd (pass?_of_control hcall) hpass
  | serve hserves => exact absurd (hserves.begins hm) hpass
  | reclaim _ hstack => cases hm.eq_idle hstack (by simp [Activation.isPass])
  | skipTurn hcall | beginTurn hcall =>
    simp only [Linked, hcall, Call.turn?] at hlinked
    exact (hm.not_turn hlinked (List.suffix_refl _)).elim
  | endTurn hback hstack =>
    simp only [Linked, hback] at hlinked
    obtain ⟨_, hturns, _⟩ := hlinked
    rw [hstack] at hturns
    exact (hm.not_turn hturns.2 (suffix_of_stack hstack)).elim

/-! ## How a pass ends -/

/-- A pass ends when it finds the bus taken or a request left over, or else its consumer has been
told that the bus is idle. -/
theorem Deed.ends_pass (h : Deed a m m' new) (hm : m.Passing a) (hm' : ¬ m'.Passing a) :
    .idle a ∈ m.stack ∨ (m'.books a).owner ≠ none ∨ (m'.books a).pending.isEmpty = false := by
  have hwaits : ∀ {next : Next} {stack : List Activation} {f : Activation}, m'.Follows next stack →
      f ∈ next.waiting? → f.isPass a = true → False := fun hnext hf hpass =>
    hm' (.inr ⟨_, hnext.mem_of_waiting hf, hpass⟩)
  -- the pass in progress, if there is one, still waits
  have hstays : ∀ {next : Next} {stack : List Activation}, m'.Follows next stack →
      m.pass? ≠ some a → (∀ f ∈ m.stack, f.isPass a = true → f ∈ stack) → False := by
    intro next stack hnext hpass hstack
    obtain ⟨f, hf, hisPass⟩ := hm.resolve_left hpass
    exact hm' (.inr ⟨f, hnext.mem_of_mem (hstack f hf hisPass), hisPass⟩)
  have hpop : ∀ {f : Activation} {rest : List Activation}, m.stack = f :: rest →
      f.isPass a = false → ∀ g ∈ m.stack, g.isPass a = true → g ∈ rest := by
    intro f rest hstack hf g hg hisPass
    rw [hstack] at hg
    refine (List.mem_cons.1 hg).resolve_left ?_
    rintro rfl
    cases hf.symm.trans hisPass
  have hreclaims : ∀ {x : Arbiter} {stage : Stage} {race : Race} {rest : List Activation},
      x.ReclaimsTo (m'.books a) stage → m'.Follows (stage.next a race) rest →
        (m'.books a).pending.isEmpty = false := by
    intro x stage race rest hto hnext
    generalize m'.books a = y at hto
    cases hto with
    | reclaim | idle => exact (hwaits hnext rfl (by simp [Activation.isPass])).elim
    | ended hpending => exact hpending
  cases h with
  | quiet h =>
    refine absurd ?_ hm'
    rcases hm with hpass | ⟨f, hf, hisPass⟩
    · obtain ⟨race, hcall⟩ := pass?_eq_some.1 hpass
      exact absurd hcall (h.not_pass race)
    · have hframe : f ∈ m.frames a := mem_frames.2 ⟨hf, Activation.isOf_of_isPass hisPass⟩
      rw [← h.frames] at hframe
      exact .inr ⟨f, (mem_frames.1 hframe).1, hisPass⟩
  | build _ _ _ haction hnext | detach haction _ _ hnext | release haction _ _ hnext =>
    obtain ⟨_, hcall⟩ := haction
    exact (hstays hnext (by simp [pass?, hcall]) fun _ hf _ => hf).elim
  | request haction _ _ _ hnext =>
    obtain ⟨_, _, _, hcall, _⟩ := perform_of_request? haction
    exact (hstays hnext (by simp [pass?, hcall]) fun _ hf _ => hf).elim
  | attach hcall _ _ _ hnext | job hcall _ hnext | skipTurn hcall _ _ hnext
  | beginTurn hcall _ _ hnext =>
    exact (hstays hnext (by simp [pass?, hcall]) fun _ hf _ => hf).elim
  | refuse hback hstack _ _ hnext | claim hback hstack _ _ _ _ hnext | bind hback hstack _ hnext
  | uninstall hback hstack _ _ hnext | mark hback hstack _ _ hnext
  | endTurn hback hstack _ hnext =>
    exact (hstays hnext (by simp [pass?, hback])
      (hpop hstack (by simp [Activation.isPass]))).elim
  | owner _ _ _ hnext => exact (hwaits hnext rfl (by simp [Activation.isPass])).elim
  | endPass _ hstack => exact .inl (hstack ▸ List.mem_cons_self)
  | @serve _ _ _ _ stage _ hto hnext =>
    generalize hy : m'.books a = y at hto
    cases hto with
    | ended howner => exact .inr (.inl (by simp [howner]))
    | turn => exact (hwaits hnext rfl (by simp [Activation.isPass])).elim
    | reclaim _ _ hto => exact .inr (.inr (hy ▸ hreclaims (hy ▸ hto) hnext))
  | reclaim _ _ hto hnext => exact .inr (.inr (hreclaims hto hnext))

/-- A pass comes to wait for its consumer by calling the hook. -/
theorem Deed.idle_pushed (h : Deed a m m' new) (hmem : .idle a ∈ m'.stack) :
    .idle a ∈ m.stack ∨ m'.TellsIdle a := by
  have hfollows : ∀ {next : Next} {stack : List Activation}, stack <:+ m.stack →
      (.idle a ∈ next.waiting? → m'.TellsIdle a) → m'.Follows next stack →
        .idle a ∈ m.stack ∨ m'.TellsIdle a := by
    intro next stack hsuffix hwaiting hnext
    exact (hnext.mem_stack hmem).imp hsuffix.mem hwaiting
  have hstage : ∀ {stage : Stage} {race : Race} {rest : List Activation}, rest <:+ m.stack →
      m'.Follows (stage.next a race) rest → .idle a ∈ m.stack ∨ m'.TellsIdle a := by
    intro stage race rest hsuffix hnext
    cases stage with
    | idle => exact .inr hnext.1
    | turn | reclaim | ended => exact hfollows hsuffix (by simp [Stage.next]) hnext
  cases h with
  | quiet h => exact .inl (h.mem_stack (by simp [Activation.isOf]) hmem)
  | build _ _ _ _ hnext | attach _ _ _ _ hnext | detach _ _ _ hnext | release _ _ _ hnext
  | request _ _ _ _ hnext | job _ _ hnext | owner _ _ _ hnext | skipTurn _ _ _ hnext
  | beginTurn _ _ _ hnext =>
    exact hfollows (List.suffix_refl _) (by simp) hnext
  | refuse _ hstack _ _ hnext | claim _ hstack _ _ _ _ hnext | bind _ hstack _ hnext
  | uninstall _ hstack _ _ hnext | mark _ hstack _ _ hnext | endPass _ hstack _ hnext
  | endTurn _ hstack _ hnext =>
    exact hfollows (suffix_of_stack hstack) (by simp) hnext
  | serve hserves _ hnext => exact hstage hserves.suffix hnext
  | reclaim _ hstack _ hnext => exact hstage (suffix_of_stack hstack) hnext

end

end SharedBus
