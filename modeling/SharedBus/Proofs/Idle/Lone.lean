import SharedBus.Proofs.Deed.Run
import SharedBus.Proofs.Sound.Step

/-! # One pass at a time

As long as passes of an arbiter keep apart, at most one of them is in progress, and whoever changes
the owner is that pass itself. So a pass that has found the bus idle still finds it idle when the
callbacks that it has made in the meantime are over, whatever they do.
-/
namespace SharedBus

theorem Activation.isPass_of_foundIdle {a : ArbiterId} {f : Activation} (hof : f.isOf a = true)
    (h : f.foundIdle = true) : f.isPass a = true := by
  cases f <;> first | exact hof | cases h

theorem Activation.isOf_of_isPass {a : ArbiterId} {f : Activation} (h : f.isPass a = true) :
    f.isOf a = true := by
  cases f <;> first | exact h | cases h

namespace Arbiter

variable {x y : Arbiter} {stage : Stage}

theorem ReclaimsTo.owner (h : x.ReclaimsTo y stage) : y.owner = x.owner := by
  obtain ⟨_, _, rfl⟩ := h.frame
  rfl

/-- A pass that is not over has found the bus idle. -/
theorem ServesTo.owner (h : x.ServesTo y stage) (hstage : stage ≠ .ended) : y.owner = none := by
  cases h with
  | ended => exact absurd rfl hstage
  | turn howner => exact howner
  | reclaim howner _ h => exact h.owner.trans howner

end Arbiter

namespace Machine

variable {a : ArbiterId} {m m' : Machine} {new : List Event} {rest : List Activation}
  {f : Activation}

/-- At most one pass of the arbiter is in progress. If it goes on because it has found the bus idle,
the bus is idle still. -/
structure Lone (a : ArbiterId) (m : Machine) : Prop where
  apart : (m.frames a).Pairwise fun f g => f.isPass a = true → g.isPass a = false
  idle : ∀ f ∈ m.frames a, f.foundIdle = true → (m.books a).owner = none

theorem Lone.below (hm : m.Lone a) (hstack : m.stack = f :: rest) (hf : f.isPass a = true) :
    ∀ g ∈ rest, g.isPass a = false := by
  have hapart := hm.apart
  rw [frames_of_stack hstack (Activation.isOf_of_isPass hf)] at hapart
  intro g hg
  refine Bool.eq_false_iff.2 fun hpass => ?_
  have hmem : g ∈ rest.filter (·.isOf a) :=
    List.mem_filter.2 ⟨hg, Activation.isOf_of_isPass hpass⟩
  cases hpass.symm.trans ((List.pairwise_cons.1 hapart).1 g hmem hf)

theorem Lone.idle_of_stack (hm : m.Lone a) (hstack : m.stack = f :: rest) (hf : f.isOf a = true)
    (hidle : f.foundIdle = true) : (m.books a).owner = none :=
  hm.idle f (mem_frames_of_stack hstack hf) hidle

/-- Most deeds neither begin a pass nor change the owner. -/
private theorem Lone.of_follows (hm : m.Lone a) {next : Next} {stack : List Activation}
    (hsuffix : stack <:+ m.stack) (hwaiting : ∀ f ∈ next.waiting?, f.isPass a = false)
    (howner : (m'.books a).owner = (m.books a).owner) (hnext : m'.Follows next stack) :
    m'.Lone a := by
  have hsub : (stack.filter (·.isOf a)).Sublist (m.frames a) := hsuffix.sublist.filter _
  have hpushed : ∀ f ∈ next.waiting?.toList.filter (·.isOf a), f.isPass a = false := fun f hf =>
    hwaiting f (Option.mem_toList.1 (List.mem_filter.1 hf).1)
  constructor
  · rw [hnext.frames]
    refine List.pairwise_append.2 ⟨?_, hm.apart.sublist hsub, fun f hf _ _ hpass => ?_⟩
    · cases next.waiting? with
      | none => exact .nil
      | some f => exact (List.pairwise_singleton _ f).filter _
    · cases hpass.symm.trans (hpushed f hf)
  · intro f hf hidle
    rw [hnext.frames] at hf
    rw [howner]
    rcases List.mem_append.1 hf with hf | hf
    · have hpass := Activation.isPass_of_foundIdle (by simpa using (List.mem_filter.1 hf).2) hidle
      cases hpass.symm.trans (hpushed f hf)
    · exact hm.idle f (hsub.mem hf) hidle

/-- A pass that goes on is the only one. -/
private theorem Lone.of_alone {next : Next} {stack : List Activation}
    (hstack : ∀ f ∈ stack, f.isPass a = false)
    (hwaiting : ∀ f ∈ next.waiting?, f.foundIdle = true → (m'.books a).owner = none)
    (hnext : m'.Follows next stack) : m'.Lone a := by
  have hbelow : ∀ f ∈ stack.filter (·.isOf a), f.isPass a = false := fun f hf =>
    hstack f (List.mem_filter.1 hf).1
  constructor
  · rw [hnext.frames]
    refine List.pairwise_append.2 ⟨?_, ?_, fun _ _ f hf _ => hbelow f hf⟩
    · cases next.waiting? with
      | none => exact .nil
      | some f => exact (List.pairwise_singleton _ f).filter _
    · exact List.pairwise_iff_forall_sublist.2 fun hsub _ =>
        hbelow _ (hsub.mem (by simp))
  · intro f hf hidle
    rw [hnext.frames] at hf
    rcases List.mem_append.1 hf with hf | hf
    · exact hwaiting f (Option.mem_toList.1 (List.mem_filter.1 hf).1) hidle
    · have hpass := Activation.isPass_of_foundIdle (by simpa using (List.mem_filter.1 hf).2) hidle
      cases hpass.symm.trans (hbelow f hf)

private theorem Lone.of_stage {race : Race} {stage : Stage}
    (hrest : ∀ f ∈ rest, f.isPass a = false) (hidle : stage ≠ .ended → (m'.books a).owner = none)
    (hnext : m'.Follows (stage.next a race) rest) : m'.Lone a := by
  refine .of_alone hrest (fun f hf _ => hidle ?_) hnext
  rintro rfl
  cases hf

/-- Below a pass that goes on, or that begins, there is none. -/
theorem Serves.below {race : Race} {x : Arbiter} (h : Serves a m race x rest new) (hm : m.Lone a)
    (hapart : m.PassesApart) : ∀ f ∈ rest, f.isPass a = false := by
  cases h with
  | idle hcall => exact hapart a (pass?_of_control hcall)
  | kept _ _ hstack | left _ _ hstack | took _ _ hstack | passed _ _ hstack =>
    exact hm.below hstack (by simp [Activation.isPass])

end Machine

open Machine

theorem Deed.lone {a : ArbiterId} {m m' : Machine} {new : List Event} (h : Deed a m m' new)
    (hapart : m.PassesApart) (hm : m.Lone a) : m'.Lone a := by
  have htail : ∀ {f : Activation} {rest : List Activation}, m.stack = f :: rest →
      rest <:+ m.stack := fun hstack => suffix_of_stack hstack
  cases h with
  | quiet h =>
    constructor
    · rw [h.frames]
      exact hm.apart
    · rw [h.frames, h.books]
      exact hm.idle
  | build hx hx' _ _ hnext =>
    exact hm.of_follows (List.suffix_refl _) (by simp) (by rw [hx, hx']; rfl) hnext
  | attach _ _ _ hx' hnext | detach _ _ hx' hnext | release _ _ hx' hnext
  | request _ hx' _ _ hnext | job _ hx' hnext | skipTurn _ _ hx' hnext
  | beginTurn _ _ hx' hnext =>
    exact hm.of_follows (List.suffix_refl _) (by simp [Activation.isPass])
      (congrArg (·.owner) hx') hnext
  | refuse _ hstack hx' _ hnext | claim _ hstack _ _ _ hx' hnext | bind _ hstack hx' hnext
  | uninstall _ hstack _ hx' hnext | mark _ hstack _ hx' hnext | endPass _ hstack hx' hnext
  | endTurn _ hstack hx' hnext =>
    exact hm.of_follows (htail hstack) (by simp [Activation.isPass]) (congrArg (·.owner) hx') hnext
  | owner hcall _ _ hnext =>
    exact .of_alone (hapart a (pass?_of_control hcall)) (by simp [Activation.foundIdle]) hnext
  | serve hserves hto hnext =>
    exact .of_stage (hserves.below hm hapart) hto.owner hnext
  | reclaim _ hstack hto hnext =>
    refine .of_stage (hm.below hstack (by simp [Activation.isPass])) (fun _ => ?_) hnext
    rw [hto.owner]
    exact hm.idle_of_stack hstack (by simp [Activation.isOf]) rfl

theorem Machine.Reachable.lone {a : ArbiterId} {m : Machine} (h : Reachable PassesApart m) :
    m.Lone a := by
  refine h.deed_induction (fun w _ => ⟨.nil, fun _ hf => by cases hf⟩)
    fun m m' _ hm _ hdeed _ ih => hdeed.lone hm.holds ih

end SharedBus
