import SharedBus.Proofs.Sound.Step
import SharedBus.Proofs.Wakeup

/-! # Actions from the outside

Where no callback, no task and no race performs an action, passes are started from the outside or by
a queue that is emptied from there. So none starts inside another one or inside a detach, and nobody
asks for service while a slot is given back.
-/
namespace SharedBus

/-- All clients are being detached. -/
def Activation.isDetachAll : Activation → Bool
  | .detachAll .. => true
  | _ => false

/-- A queue is being emptied. -/
def Activation.isDrain : Activation → Bool
  | .drain .. => true
  | _ => false

/-- A job, or a pass. -/
def Call.isWork : Call → Bool
  | .job _ | .pass .. => true
  | _ => false

/-- Whether a job or a pass comes next, or a queue goes on being emptied. -/
def Next.isWork : Next → Bool
  | .reply _ => false
  | .call callee waiting => callee.isWork || waiting.isDrain

/-! ## Who puts work in hand -/

namespace World

variable {w : World}

private theorem isWork_stage {a : ArbiterId} {race : Race} (stage : Stage) :
    (stage.next a race).isWork = false := by
  cases stage <;> rfl

private theorem isWork_serve {a : ArbiterId} {race : Race} {events : List Event} :
    (w.serve a race events).next.isWork = false := by
  rw [serve_eq]
  exact isWork_stage _

private theorem isWork_detachSlots {a : ArbiterId} {count : Nat} (slots : List SlotId) :
    (w.detachSlots a count slots).next.isWork = false := by
  induction slots with
  | nil => rfl
  | cons slot rest ih =>
    unfold detachSlots
    split
    · exact ih
    · rfl

/-- Only actions and jobs put work in hand at once. -/
theorem isWork_begin {call : Call} (h : (w.begin call).next.isWork = true) :
    (∃ action, call = .perform action) ∨ call.isWork = true := by
  cases call with
  | perform action => exact .inl ⟨action, rfl⟩
  | job | pass => exact .inr rfl
  | script actions => cases actions <;> cases h
  | race point race => cases race <;> cases h
  | install c kind handle =>
    simp only [begin, beginInstall] at h
    split at h <;> cases h
  | turn a slot =>
    simp only [begin, beginTurn] at h
    split at h <;> cases h
  | report a report =>
    simp only [begin, beginReport] at h
    split at h <;> cases h

/-- Of those who wait, only a queue that is being emptied does. -/
theorem isWork_resume {back : Reply} {f : Activation} (h : (w.resume back f).next.isWork = true) :
    f.isDrain = true := by
  cases f with
  | drain => rfl
  | script action rest => cases rest <;> cases h
  | claim a c tag bind =>
    simp only [resume, claim] at h
    split at h
    · cases h
    · split at h
      · cases h
      · split at h <;> cases h
  | install a c slot kind => cases kind <;> cases h
  | uninstall a c slot kind => cases kind <;> cases h
  | detachAll a rest count => cases (isWork_detachSlots rest).symm.trans h
  | owner a race =>
    simp only [resume] at h
    cases hanswer : back.answer <;> rw [hanswer] at h <;> cases isWork_serve.symm.trans h
  | serve a slot race =>
    simp only [resume, afterServe] at h
    split at h
    · split at h <;> cases isWork_serve.symm.trans h
    · cases isWork_serve.symm.trans h
  | reclaim a slot =>
    simp only [resume, afterReclaim, reclaim_eq, isWork_stage] at h
    cases h
  | answer | turn | bind | idle => cases h

end World

/-! ## Passes that start alone -/

open Machine

section
variable {a : ArbiterId} {m m' : Machine} {new : List Event} {callee : Call}

/-- Whoever puts work in hand has no business of its own with the arbiter. -/
theorem Deed.frames_of_work (h : Deed a m m' new) (hcall : m'.control = .call callee)
    (hwork : callee.isWork = true) : m'.frames a = m.frames a := by
  have hnot : ∀ {next : Next} {stack : List Activation} {P : Prop},
      (∀ callee waiting, next = .call callee waiting → callee.isWork = false) →
        m'.Follows next stack → P := by
    intro next stack P hnext hfollows
    cases next with
    | reply => cases hfollows.1.symm.trans hcall
    | call other waiting =>
      obtain rfl := Control.call.inj (hfollows.1.symm.trans hcall)
      cases (hnext _ _ rfl).symm.trans hwork
  cases h with
  | quiet h => exact h.frames
  | job _ _ hnext =>
    rw [hnext.frames]
    rfl
  | build _ _ _ _ hnext | attach _ _ _ _ hnext | refuse _ _ _ _ hnext | claim _ _ _ _ _ _ hnext
  | bind _ _ _ hnext | detach _ _ _ hnext | uninstall _ _ _ _ hnext | mark _ _ _ _ hnext
  | release _ _ _ hnext | request _ _ _ _ hnext | owner _ _ _ hnext | endPass _ _ _ hnext
  | skipTurn _ _ _ hnext | beginTurn _ _ _ hnext | endTurn _ _ _ hnext =>
    exact hnot (by simp [Call.isWork]) hnext
  | @serve _ _ _ _ stage _ _ hnext =>
    exact hnot (by cases stage <;> simp [Stage.next, Call.isWork]) hnext
  | @reclaim _ _ _ stage _ _ _ hnext =>
    exact hnot (by cases stage <;> simp [Stage.next, Call.isWork]) hnext

end

namespace Machine

variable {a : ArbiterId} {m m' : Machine}

/-- Actions are performed from the outside, or one by one to detach all clients. -/
def ActsOutside (m : Machine) : Prop := ∀ _ ∈ m.action?, ∀ f ∈ m.stack, f.isDetachAll = true

instance : DecidablePred ActsOutside := fun m =>
  inferInstanceAs (Decidable (∀ _ ∈ m.action?, ∀ f ∈ m.stack, f.isDetachAll = true))

theorem action?_of_control {action : Action} (h : m.control = .call (.perform action)) :
    m.action? = some action := by
  simp [action?, h]

/-- Work is put in hand where no pass of the arbiter could be disturbed. -/
structure Unnested (a : ArbiterId) (m : Machine) : Prop where
  work : ∀ callee, m.control = .call callee → callee.isWork = true →
    ∀ f ∈ m.frames a, f.blocks a = false
  drain : m.stack.Pairwise fun f g => f.isDrain = true → g.blocks a = false

theorem not_blocks_of_isDetachAll {f : Activation} (h : f.isDetachAll = true) :
    f.blocks a = false := by
  cases f <;> first | rfl | cases h

private theorem unnested_follow {outcome : Outcome} {stack : List Activation} {trace : List Event}
    {new : List Event} (hm : m.Unnested a) (hstack : stack <:+ m.stack)
    (hsource : outcome.next.isWork = true → ∀ f ∈ m.stack, f.blocks a = false)
    (hdeed : Deed a m (follow outcome stack trace) new) :
    (follow outcome stack trace).Unnested a := by
  have hfollows := follows_follow outcome stack trace
  have hdrain := hm.drain.sublist hstack.sublist
  cases hnext : outcome.next with
  | reply reply =>
    rw [hnext] at hfollows
    refine ⟨fun callee hcall => ?_, by rwa [hfollows.2]⟩
    cases hfollows.1.symm.trans hcall
  | call callee waiting =>
    rw [hnext] at hfollows hsource
    constructor
    · intro other hcall hwork f hf
      obtain rfl := Control.call.inj (hfollows.1.symm.trans hcall)
      rw [hdeed.frames_of_work hcall hwork] at hf
      exact hsource (by simp [Next.isWork, hwork]) f (mem_frames.1 hf).1
    · rw [hfollows.2]
      refine List.pairwise_cons.2 ⟨fun g hg hwaiting => ?_, hdrain⟩
      exact hsource (by simp [Next.isWork, hwaiting]) g (hstack.mem hg)

/-- Whoever puts work in hand was performed from the outside, or has been put in hand from there. -/
theorem Unnested.goes {new : List Event} (hm : m.Unnested a) (hgoes : Goes m m')
    (hdeed : Deed a m m' new) (hout : m.ActsOutside) : m'.Unnested a := by
  cases hgoes with
  | act hfin action =>
    refine ⟨fun callee hcall hwork => ?_, .nil⟩
    obtain rfl := Control.call.inj hcall
    cases hwork
  | step hfin =>
    cases hcontrol : m.control with
    | call callee =>
      rw [step_of_call hcontrol] at hdeed ⊢
      refine unnested_follow hm (List.suffix_refl _) (fun hwork f hf => ?_) hdeed
      rcases World.isWork_begin hwork with ⟨action, rfl⟩ | hcallee
      · exact not_blocks_of_isDetachAll (hout action (action?_of_control hcontrol) f hf)
      · exact not_blocks_of_frames (hm.work callee hcontrol hcallee) f hf
    | back reply =>
      cases hstack : m.stack with
      | nil => simp [isFinished, reply?, hcontrol, hstack] at hfin
      | cons g rest =>
        rw [step_of_back hcontrol hstack] at hdeed ⊢
        refine unnested_follow hm (suffix_of_stack hstack) (fun hwork f hf => ?_) hdeed
        have hdrain := World.isWork_resume hwork
        have hbelow := hm.drain
        rw [hstack] at hf hbelow
        rcases List.mem_cons.1 hf with rfl | hf
        · cases f <;> first | rfl | cases hdrain
        · exact (List.pairwise_cons.1 hbelow).1 f hf hdrain

theorem passesAlone_of_unnested (hm : ∀ a, m.Unnested a) : m.PassesAlone := by
  have hnot : ∀ a ∈ m.pass?, ∀ f ∈ m.stack, f.blocks a = false := by
    intro a hpass
    obtain ⟨race, hcall⟩ := pass?_eq_some.1 hpass
    exact not_blocks_of_frames ((hm a).work _ hcall rfl)
  constructor
  · intro a hpass f hf
    have hblocks := hnot a hpass f hf
    cases f <;> first | rfl | exact hblocks
  · intro a hpass f hf
    have hblocks := hnot a hpass f hf
    cases f <;> first | rfl | exact hblocks

theorem ActsOutside.reclaimsApart (h : m.ActsOutside) : m.ReclaimsApart := by
  intro handle hrequest f hf
  obtain ⟨_, action, _, hcall, _⟩ := perform_of_request? hrequest
  have hdetach := h action (action?_of_control hcall) f hf
  cases f <;> first | rfl | cases hdetach

/-- Where nobody acts in between, passes start neither inside one another nor inside a detach, and
no slot asks again while it is given back. -/
theorem Run.apart_of_outside (hrun : Run ActsOutside m m') (hm : m.isFinished)
    (hreach : Reachable Anyhow m) : m'.PassesAlone ∧ m'.ReclaimsApart := by
  have hunnested : ∀ a, m'.Unnested a := by
    intro a
    induction hrun with
    | refl _ =>
      obtain ⟨⟨reply, hback⟩, hstack⟩ := isFinished_iff.1 hm
      refine ⟨fun callee hcall => ?_, by rw [hstack]; exact .nil⟩
      cases hback.symm.trans hcall
    | next hrun hgoes _ ih =>
      obtain ⟨_, hdeed, _⟩ :=
        hgoes.deed (a := a) (hreach.run hrun.anyhow).placed
      exact ih.goes hgoes hdeed hrun.holds
  exact ⟨passesAlone_of_unnested hunnested, hrun.holds.reclaimsApart⟩

end Machine

end SharedBus
