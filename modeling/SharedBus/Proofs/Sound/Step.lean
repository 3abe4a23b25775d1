import SharedBus.Proofs.Link
import SharedBus.Proofs.Sound.Basic

/-! # Books stay sound

Every deed of a run in which passes keep apart from one another and from detaches leaves sound books
behind.
-/
namespace SharedBus

namespace Activation

variable {a : ArbiterId} {slot : SlotId} {f : Activation}

theorem turn?_eq_some (h : f.turn? = some (a, slot)) : ∃ c answer, f = .turn a slot c answer := by
  cases f with
  | turn b s c answer =>
    obtain ⟨rfl, rfl⟩ := Prod.mk.inj (Option.some.inj h)
    exact ⟨c, answer, rfl⟩
  | _ => cases h

theorem awaits_some (h : f.Awaits (some (a, slot))) :
    (∃ race, f = .owner a race) ∨ ∃ race, f = .serve a slot race := by
  cases f with
  | owner b race =>
    obtain ⟨_, heq⟩ := h
    obtain ⟨rfl, _⟩ := Prod.mk.inj (Option.some.inj heq)
    exact .inl ⟨race, rfl⟩
  | serve b s race =>
    obtain ⟨rfl, rfl⟩ := Prod.mk.inj (Option.some.inj h)
    exact .inr ⟨race, rfl⟩
  | _ => cases h

end Activation

namespace Machine

variable {a : ArbiterId} {m m' : Machine} {new : List Event} {slot : SlotId} {f : Activation}
  {rest : List Activation}

/-- Passes of an arbiter start neither inside one another nor inside a detach. -/
def PassesAlone (m : Machine) : Prop := m.PassesApart ∧ m.DetachesApart

instance : DecidablePred PassesAlone := fun m =>
  inferInstanceAs (Decidable (m.PassesApart ∧ m.DetachesApart))

/-- A pass is giving back slots with no callback in between. -/
def Sweeping (a : ArbiterId) (m : Machine) : Prop :=
  (∃ slot rest, m.stack = .reclaim a slot :: rest) ∧
    (m.control = .call (.race .reclaim none) ∨ ∃ reply, m.control = .back reply)

structure Sound (a : ArbiterId) (m : Machine) : Prop where
  books : SharedBus.Sound a (m.Sweeping a) (m.books a) (m.frames a)
  /-- A slot that keeps the bus after it was served is bound. -/
  served : ∀ reply slot race rest, m.control = .back reply → reply.answer = .busy →
    m.stack = .serve a slot race :: rest → (m.books a).binding slot ≠ none
  /-- The turn with which a pass begins is the owner's. -/
  continued : ∀ slot race rest, m.control = .call (.turn a slot) →
    m.stack = .owner a race :: rest → (m.books a).owner = some slot

theorem Sound.strict (hm : m.Sound a) (h : ¬ m.Sweeping a) :
    SharedBus.Sound a False (m.books a) (m.frames a) := hm.books.mono h

theorem not_sweeping_of_call {call : Call} (h : m.control = .call call)
    (hcall : call ≠ .race .reclaim none) : ¬ m.Sweeping a := by
  rintro ⟨_, hrace | ⟨reply, hback⟩⟩
  · exact hcall (Control.call.inj (h.symm.trans hrace))
  · cases h.symm.trans hback

theorem not_sweeping_of_stack (h : m.stack = f :: rest) (hf : ∀ slot, f ≠ .reclaim a slot) :
    ¬ m.Sweeping a := by
  rintro ⟨⟨slot, rest, hstack⟩, _⟩
  exact hf slot (List.cons.inj (h.symm.trans hstack)).1

/-! ## The activations on the stack -/

theorem frames_of_stack (h : m.stack = f :: rest) (hf : f.isOf a = true) :
    m.frames a = f :: rest.filter (·.isOf a) := by
  rw [frames, h, List.filter_cons_of_pos hf]

theorem Follows.frames {next : Next} {stack : List Activation} (h : m'.Follows next stack) :
    m'.frames a = next.waiting?.toList.filter (·.isOf a) ++ stack.filter (·.isOf a) := by
  cases next with
  | reply reply => simp [Machine.frames, h.2]
  | call call waiting => simp [Machine.frames, h.2, ← List.filter_append]

theorem not_blocks_of_frames {stack : List Activation}
    (h : ∀ f ∈ stack.filter (·.isOf a), f.blocks a = false) : ∀ f ∈ stack, f.blocks a = false := by
  intro f hf
  refine Bool.eq_false_iff.2 fun hblocks => ?_
  have hof : f.isOf a = true := by cases f <;> first | exact hblocks | cases hblocks
  cases (h f (List.mem_filter.2 ⟨hf, hof⟩)).symm.trans hblocks

/-- The topmost pass that waits for a turn waits for what is under way right now. -/
private theorem LinkedStack.top {turn : Option (ArbiterId × SlotId)} {stack fs : List Activation}
    (h : LinkedStack turn stack) (htop : stack.filter (·.isOf a) = f :: fs)
    (hf : ∀ turn, f.Awaits turn → ∃ slot, turn = some (a, slot)) :
    ∃ slot rest, turn = some (a, slot) ∧ stack = f :: rest := by
  induction stack generalizing turn with
  | nil => cases htop
  | cons g rest ih =>
    obtain ⟨hawaits, hrest⟩ := h
    cases hg : g.isOf a with
    | true =>
      rw [List.filter_cons_of_pos hg] at htop
      obtain ⟨rfl, _⟩ := List.cons.inj htop
      obtain ⟨slot, rfl⟩ := hf _ hawaits
      exact ⟨slot, rest, rfl, rfl⟩
    | false =>
      rw [List.filter_cons_of_neg (by simp [hg])] at htop
      obtain ⟨slot, _, hturn, _⟩ := ih hrest htop
      obtain ⟨c, answer, rfl⟩ := Activation.turn?_eq_some hturn
      simp [Activation.isOf] at hg

/-- A step that is none of the arbiter's business leaves no pass on top that waits for a turn. -/
theorem Quiet.top (h : Quiet a m m') (hm : m.Linked) {fs : List Activation}
    (htop : m'.frames a = f :: fs) : ¬ ∀ turn, f.Awaits turn → ∃ slot, turn = some (a, slot) := by
  intro hf
  rw [h.frames] at htop
  have hof : f.isOf a = true := by
    have hmem : f ∈ m.frames a := htop ▸ List.mem_cons_self
    exact (mem_frames.1 hmem).2
  unfold Linked at hm
  split at hm
  · rename_i call hcall
    obtain ⟨slot, _, hturn, _⟩ := LinkedStack.top hm htop hf
    cases call <;> simp at hturn
    obtain ⟨rfl, rfl⟩ := hturn
    exact h.not_turn _ hcall
  · rename_i reply hback
    obtain ⟨turn, hlinked, _⟩ := hm
    obtain ⟨_, rest, _, hstack⟩ := LinkedStack.top hlinked htop hf
    simp [h.not_back reply f rest hback hstack] at hof

private theorem LinkedStack.exists_pass {turn : Option (ArbiterId × SlotId)}
    {stack : List Activation} (h : LinkedStack turn stack) {c : ClientId} {answer : Answer}
    (hmem : .turn a slot c answer ∈ stack) : ∃ g ∈ stack, g.isPass a = true := by
  induction stack generalizing turn with
  | nil => cases hmem
  | cons g rest ih =>
    rcases List.mem_cons.1 hmem with rfl | hmem
    · cases rest with
      | nil => cases h.2
      | cons below _ =>
        refine ⟨below, List.mem_cons_of_mem _ List.mem_cons_self, ?_⟩
        obtain ⟨_, hawaits, _⟩ := h
        rcases Activation.awaits_some hawaits with ⟨race, rfl⟩ | ⟨race, rfl⟩
        · simp [Activation.isPass]
        · simp [Activation.isPass]
    · obtain ⟨below, hbelow, hpass⟩ := ih h.2 hmem
      exact ⟨below, List.mem_cons_of_mem _ hbelow, hpass⟩

/-- Where a pass starts, none is in progress, nobody has a turn and no detach is half done. -/
theorem PassesAlone.not_blocks {race : Race} (h : m.PassesAlone) (hm : m.Linked)
    (hcall : m.control = .call (.pass a race)) : ∀ f ∈ m.frames a, f.blocks a = false := by
  intro f hf
  have hmem := (mem_frames.1 hf).1
  have hpass := h.1 a (pass?_of_control hcall)
  have huninstall := h.2 a (pass?_of_control hcall) f hmem
  cases f with
  | turn b slot c answer =>
    by_cases hb : b = a
    · subst hb
      have hlinked : LinkedStack none m.stack := by
        simpa [Linked, hcall] using hm
      obtain ⟨g, hg, hgpass⟩ := LinkedStack.exists_pass hlinked hmem
      simp [hpass g hg] at hgpass
    · simp [Activation.blocks, hb]
  | uninstall b c slot kind => exact huninstall
  | owner | serve | reclaim | idle => exact hpass _ hmem
  | _ => rfl

/-! ## Deeds -/

private theorem Sound.of_follows {next : Next} {stack : List Activation}
    (h : SharedBus.Sound a (m'.Sweeping a) (m'.books a) (m'.frames a))
    (hreply : ∀ reply, next = .reply reply → reply.answer = .done)
    (hcall : ∀ slot race, next ≠ .call (.turn a slot) (.owner a race))
    (hnext : m'.Follows next stack) : m'.Sound a where
  books := h
  served back slot race rest hback hanswer _ := by
    cases next with
    | reply reply =>
      obtain rfl : reply = back := Control.back.inj (hnext.1.symm.trans hback)
      cases (hreply _ rfl).symm.trans hanswer
    | call call waiting => cases hnext.1.symm.trans hback
  continued slot race rest hturn hstack := by
    cases next with
    | reply reply => cases hnext.1.symm.trans hturn
    | call call waiting =>
      obtain rfl : call = .turn a slot := Control.call.inj (hnext.1.symm.trans hturn)
      obtain ⟨rfl, _⟩ := List.cons.inj (hnext.2.symm.trans hstack)
      exact absurd rfl (hcall slot race)

theorem Sound.of_reply {reply : Reply} {stack : List Activation}
    (h : SharedBus.Sound a False (m'.books a) (m'.frames a)) (hreply : reply.answer = .done)
    (hnext : m'.Follows (.reply reply) stack) : m'.Sound a :=
  of_follows (h.mono False.elim) (by rintro _ ⟨_⟩; exact hreply) (by simp) hnext

theorem Sound.of_call {call : Call} {waiting : Activation} {stack : List Activation}
    (h : SharedBus.Sound a False (m'.books a) (m'.frames a))
    (hcall : ∀ race, waiting ≠ .owner a race) (hnext : m'.Follows (.call call waiting) stack) :
    m'.Sound a := by
  refine of_follows (h.mono False.elim) (by simp) (fun slot race heq => ?_) hnext
  exact hcall race (Next.call.inj heq).2

theorem Follows.frames_stage {race : Race} {stage : Stage} {stack : List Activation}
    (h : m'.Follows (stage.next a race) stack) : m'.frames a =
      (stage.next a race).waiting?.toList ++ stack.filter (·.isOf a) := by
  rw [h.frames]
  cases stage <;> simp [Stage.next, Activation.isOf]

theorem Sound.of_stage {race : Race} {stage : Stage} {stack : List Activation}
    (h : SharedBus.Sound a (m'.Sweeping a) (m'.books a) (m'.frames a))
    (hnext : m'.Follows (stage.next a race) stack) : m'.Sound a := by
  refine of_follows h ?_ ?_ hnext
  · cases stage <;> simp [Stage.next, Reply.answer]
  · cases stage <;> simp [Stage.next]

/-- An owner that a pass goes on with is given its own turn. -/
theorem Sound.owner_of_turn (hm : m.Sound a) (hlinked : m.Linked)
    (hcall : m.control = .call (.turn a slot)) {race : Race} (hmem : .owner a race ∈ m.frames a) :
    (m.books a).owner = some slot := by
  have hstack : LinkedStack (some (a, slot)) m.stack := by
    simpa [Linked, hcall] using hlinked
  cases hcons : m.stack with
  | nil => simp [hcons, LinkedStack] at hstack
  | cons f rest =>
    rw [hcons] at hstack
    rcases Activation.awaits_some hstack.1 with ⟨race', rfl⟩ | ⟨race', rfl⟩
    · exact hm.continued slot race' rest hcall hcons
    · -- no other pass is in progress below the one that serves
      have hapart := hm.books.apart
      rw [frames_of_stack hcons (by simp [Activation.isOf])] at hmem hapart
      rcases List.mem_cons.1 hmem with heq | hmem
      · cases heq
      · have hblocks := (List.pairwise_cons.1 hapart).1 _ hmem (by simp [Activation.isPass])
        simp [Activation.blocks] at hblocks

/-- A pass that comes to serve has nothing below it that it could disturb. -/
theorem Serves.sound {race : Race} {x : Arbiter} (h : Serves a m race x rest new)
    (hm : m.Sound a) (hlinked : m.Linked) (halone : m.PassesAlone) :
    SharedBus.Sound a False x (rest.filter (·.isOf a)) ∧
      ∀ f ∈ rest.filter (·.isOf a), f.blocks a = false := by
  have hpop : ∀ {f : Activation}, m.stack = f :: rest → f.isPass a = true →
      (∀ slot, f ≠ .reclaim a slot) → SharedBus.Sound a False (m.books a) (rest.filter (·.isOf a)) ∧
        ∀ g ∈ rest.filter (·.isOf a), g.blocks a = false := by
    intro f hstack hpass hreclaim
    have hof : f.isOf a = true := by cases f <;> simp_all [Activation.isPass, Activation.isOf]
    have hstrict := hm.strict (not_sweeping_of_stack hstack hreclaim)
    rw [frames_of_stack hstack hof] at hstrict
    have hclaimed : f.claimed? = none := by
      cases f <;> simp_all [Activation.isPass, Activation.claimed?]
    exact ⟨hstrict.pop hclaimed, fun g hg => (List.pairwise_cons.1 hstrict.apart).1 g hg hpass⟩
  cases h with
  | idle hcall _ =>
    exact ⟨hm.strict (not_sweeping_of_call hcall (by simp)), halone.not_blocks hlinked hcall⟩
  | kept _ _ hstack | passed _ _ hstack =>
    exact hpop hstack (by simp [Activation.isPass]) (by simp)
  | left _ _ hstack =>
    obtain ⟨hsound, hnone⟩ := hpop hstack (by simp [Activation.isPass]) (by simp)
    exact ⟨hsound.own hnone (by simp), hnone⟩
  | took hback hanswer hstack =>
    obtain ⟨hsound, hnone⟩ := hpop hstack (by simp [Activation.isPass]) (by simp)
    have hbound := hm.served _ _ _ _ hback hanswer hstack
    refine ⟨?_, hnone⟩
    exact (hsound.own hnone (by rintro _ ⟨_⟩; exact hbound)).congr rfl rfl (fun _ h => h) rfl rfl

/-- Below a pass, no other one is in progress. -/
theorem Sound.not_blocks_below (hm : m.Sound a) (hstack : m.stack = f :: rest)
    (hpass : f.isPass a = true) :
    ∀ g ∈ rest, g.blocks a = false := by
  have hof : f.isOf a = true := by cases f <;> first | exact hpass | cases hpass
  have hapart := hm.books.apart
  rw [frames_of_stack hstack hof] at hapart
  exact not_blocks_of_frames fun g hg => (List.pairwise_cons.1 hapart).1 g hg hpass

/-- Nothing else happens until a sweeping pass goes on. -/
theorem Sweeping.quiet (h : m.Sweeping a) (hgoes : Goes m m') (hquiet : Quiet a m m') :
    m'.Sweeping a := by
  obtain ⟨⟨slot, rest, hstack⟩, hrace | ⟨reply, hback⟩⟩ := h
  · cases hgoes with
    | act hfin action =>
      obtain ⟨⟨reply, hback⟩, _⟩ := isFinished_iff.1 hfin
      cases hback.symm.trans hrace
    | step _ =>
      rw [step_of_call hrace, hstack]
      exact ⟨⟨slot, rest, rfl⟩, .inr ⟨.nothing, rfl⟩⟩
  · have hof := hquiet.not_back reply _ rest hback hstack
    simp [Activation.isOf] at hof

theorem Quiet.sound (h : Quiet a m m') (hgoes : Goes m m') (hlinked : m.Linked)
    (hm : m.Sound a) : m'.Sound a where
  books := by
    rw [h.books, h.frames]
    exact hm.books.mono fun hsweeping => hsweeping.quiet hgoes h
  served reply slot race rest _ _ hstack := by
    refine (h.top hlinked (frames_of_stack hstack (by simp [Activation.isOf])) ?_).elim
    exact fun turn hawaits => ⟨slot, hawaits⟩
  continued slot race rest _ hstack := by
    refine (h.top hlinked (frames_of_stack hstack (by simp [Activation.isOf])) ?_).elim
    exact fun turn hawaits => hawaits

/-- An arbiter that has just been built has no activation that counts on anything. -/
private theorem sound_create {config : Config} {q : QueueId} {s : ConsumerId}
    {frames : List Activation} (h : SharedBus.Sound a False default frames) :
    SharedBus.Sound a False (.create config q s) frames where
  isOf := h.isOf
  free_le slot hslot := SlotSet.mem_first.1 hslot
  occupied slot hbound := absurd (Arbiter.binding_create config q s) hbound
  bound slot hslot := by
    obtain ⟨hlt, hfree⟩ := Arbiter.mem_occupied.1 hslot
    exact absurd (SlotSet.mem_first.2 hlt) hfree
  detaching slot hslot := absurd hslot SlotSet.notMem_empty
  owner slot howner := by cases howner
  claimed f hf slot hslot := by
    obtain ⟨hlt, _⟩ := Arbiter.mem_occupied.1 (h.claimed f hf slot hslot).1
    cases hlt
  claims := h.claims
  held f hf p hp := by
    have hheld := h.held f hf p hp
    rw [Arbiter.client?, show (default : Arbiter).binding p.1 = none from
      Arbiter.binding_create ⟨0⟩ 0 0] at hheld
    cases hheld
  idle _ _ _ := rfl
  reclaim slot hmem := by
    rcases h.reclaim slot hmem with hbound | ⟨hloose, _⟩
    · exact absurd (Arbiter.binding_create ⟨0⟩ 0 0) hbound
    · exact hloose.elim
  turn slot c answer race hmem howner := by cases h.turn slot c answer race hmem howner
  apart := h.apart

end Machine

open Machine

theorem Deed.sound {a : ArbiterId} {m m' : Machine} {new : List Event} (h : Deed a m m' new)
    (hgoes : Goes m m') (hlinked : m.Linked) (halone : m.PassesAlone) (hm : m.Sound a) :
    m'.Sound a := by
  have hcalled : ∀ {call : Call}, m.control = .call call → call ≠ .race .reclaim none →
      SharedBus.Sound a False (m.books a) (m.frames a) :=
    fun hcall hne => hm.strict (not_sweeping_of_call hcall hne)
  have hpopped : ∀ {f : Activation} {rest : List Activation}, m.stack = f :: rest →
      f.isOf a = true → (∀ slot, f ≠ .reclaim a slot) →
      SharedBus.Sound a False (m.books a) (f :: rest.filter (·.isOf a)) := by
    intro f rest hstack hof hreclaim
    have hstrict := hm.strict (not_sweeping_of_stack hstack hreclaim)
    rwa [frames_of_stack hstack hof] at hstrict
  cases h with
  | quiet h => exact h.sound hgoes hlinked hm
  | build hx hx' _ haction hnext =>
    obtain ⟨_, hcall⟩ := haction
    have hstrict := hcalled hcall (by simp)
    rw [hx] at hstrict
    refine .of_reply ?_ rfl hnext
    rw [hx', hnext.frames]
    exact (sound_create hstrict)
  | attach hcall _ _ hx' hnext =>
    refine .of_call ?_ (by simp) hnext
    rw [hx', frames_of_stack hnext.2 (by simp [Activation.isOf])]
    exact (hcalled hcall (by simp)).push_claim _ _ _
  | refuse _ hstack hx' _ hnext | endPass _ hstack hx' hnext =>
    refine .of_reply ?_ rfl hnext
    rw [hx', hnext.frames]
    exact (hpopped hstack (by simp [Activation.isOf]) (by simp)).pop rfl
  | claim _ hstack _ hslot _ hx' hnext =>
    refine .of_call ?_ (by simp) hnext
    rw [hx', frames_of_stack hnext.2 (by simp [Activation.isOf])]
    have hpast := (hpopped hstack (by simp [Activation.isOf]) (by simp)).pop rfl
    exact hpast.claim (SlotSet.mem_of_highest? hslot) _ _
  | bind _ hstack hx' hnext =>
    refine .of_call ?_ (by simp) hnext
    rw [hx', hnext.frames]
    exact (hpopped hstack (by simp [Activation.isOf]) (by simp)).bind
  | detach haction hfind hx' hnext =>
    obtain ⟨_, hcall⟩ := haction
    refine .of_call ?_ (by simp) hnext
    rw [hx', frames_of_stack hnext.2 (by simp [Activation.isOf])]
    exact (hcalled hcall (by simp)).push_uninstall (Arbiter.client?_of_find? hfind) _
  | uninstall _ hstack _ hx' hnext =>
    refine .of_call ?_ (by simp) hnext
    rw [hx', frames_of_stack hnext.2 (by simp [Activation.isOf])]
    have hpast := hpopped hstack (by simp [Activation.isOf]) (by simp)
    exact (hpast.pop rfl).push_uninstall (hpast.held _ List.mem_cons_self _ rfl) _
  | @mark c slot _ _ _ _ _ hstack _ hx' hnext =>
    refine .of_reply ?_ rfl hnext
    rw [hx', hnext.frames]
    have hpast := hpopped hstack (by simp [Activation.isOf]) (by simp)
    have hclient : (m.books a).client? slot = some c := hpast.held _ List.mem_cons_self _ rfl
    have hmarked := (hpast.pop rfl).mark (Arbiter.binding_ne_none_of_client? hclient)
    exact hmarked.congr rfl rfl (fun _ h => h) rfl rfl
  | release haction _ hx' hnext =>
    obtain ⟨_, hcall⟩ := haction
    refine .of_reply ?_ rfl hnext
    rw [hx', hnext.frames]
    exact (hcalled hcall (by simp)).congr rfl rfl (fun _ h => h) rfl rfl
  | request haction hx' _ _ hnext =>
    obtain ⟨_, _, _, hcall, _⟩ := perform_of_request? haction
    have hpast : SharedBus.Sound a False (m'.books a) (m.frames a) := by
      rw [hx']
      exact (hcalled hcall (by simp)).congr rfl rfl (fun _ h => h) rfl rfl
    constructor
    · rw [hnext.frames]
      exact hpast.mono False.elim
    · intro _ slot race rest _ _ hstack
      have hawaits : LinkedStack none m.stack := by simpa [Linked, hcall] using hlinked
      rw [← hnext.2, hstack] at hawaits
      cases hawaits.1
    · intro slot race rest hturn
      cases hnext.1.symm.trans hturn
  | job hcall hx' hnext =>
    refine .of_call ?_ (by simp) hnext
    rw [hx', hnext.frames]
    exact (hcalled hcall (by simp)).congr rfl rfl (fun _ h => h) rfl rfl
  | @owner race slot hcall howner hx' hnext =>
    have hpast : SharedBus.Sound a False (m'.books a) (m.frames a) := by
      rw [hx']
      exact (hcalled hcall (by simp)).congr rfl rfl (fun _ h => h) rfl rfl
    constructor
    · rw [frames_of_stack hnext.2 (by simp [Activation.isOf])]
      exact (hpast.push_pass (by simp [Activation.isPass]) (halone.not_blocks hlinked hcall)
        (by simp [Activation.foundIdle]) (by simp)).mono False.elim
    · intro reply slot race rest hback
      cases hnext.1.symm.trans hback
    · intro other race rest hturn _
      obtain ⟨_, rfl⟩ := Call.turn.inj (Control.call.inj (hnext.1.symm.trans hturn))
      rw [hx']
      exact howner
  | @serve race x rest before stage hserves hto hnext =>
    obtain ⟨hsound, hnone⟩ := hserves.sound hm hlinked halone
    refine .of_stage ?_ hnext
    rw [hnext.frames_stage]
    exact (hsound.serves hnone race hto).mono False.elim
  | @reclaim reply slot rest stage hback hstack hto hnext =>
    have hpast := hm.books
    rw [frames_of_stack hstack (by simp [Activation.isOf])] at hpast
    have hnone := fun f hf => (List.pairwise_cons.1 hpast.apart).1 f hf (by simp [Activation.isPass])
    have hidle : (m.books a).owner = none := hpast.idle _ List.mem_cons_self rfl
    refine .of_stage ?_ hnext
    rw [hnext.frames_stage]
    apply (hpast.free.reclaims hnone hidle none hto).mono
    rintro ⟨_, other, rfl⟩
    exact ⟨⟨other, rest, hnext.2⟩, .inl hnext.1⟩
  | skipTurn hcall _ hx' hnext =>
    refine .of_reply ?_ rfl hnext
    rw [hx', hnext.frames]
    exact hcalled hcall (by simp)
  | @beginTurn slot c answer actions hcall hclient hx' hnext =>
    refine .of_call ?_ (by simp) hnext
    rw [hx', frames_of_stack hnext.2 (by simp [Activation.isOf])]
    refine (hcalled hcall (by simp)).push_turn hclient answer fun race howner => ?_
    exact hm.owner_of_turn hlinked hcall howner
  | @endTurn slot c answer reply rest hback hstack hx' hnext =>
    have hpast := hpopped hstack (by simp [Activation.isOf]) (by simp)
    constructor
    · rw [hx', hnext.frames]
      exact (hpast.pop rfl).mono False.elim
    · intro back other race below _ _ hbelow
      have hturns : ∃ turn, LinkedStack turn m.stack := by
        simp only [Linked, hback] at hlinked
        exact hlinked.imp fun _ h => h.1
      obtain ⟨_, hturns⟩ := hturns
      rw [hstack, ← hnext.2, hbelow] at hturns
      -- the pass below has given this very turn
      obtain ⟨_, rfl⟩ := Prod.mk.inj (Option.some.inj hturns.2.1)
      have hclient : (m.books a).client? slot = some c := hpast.held _ List.mem_cons_self _ rfl
      rw [hx']
      exact Arbiter.binding_ne_none_of_client? hclient
    · intro other race below hturn
      cases hnext.1.symm.trans hturn

theorem Machine.Reachable.sound {a : ArbiterId} {m : Machine} {P : Machine → Prop}
    (hP : ∀ m, P m → m.PassesAlone) (h : Reachable P m) : m.Sound a := by
  refine h.induction (fun w hw => ?_) fun m m' hm _ hgoes ih => ?_
  · have hempty : SharedBus.Sound a False default [] := by
      constructor <;>
        simp [default, Arbiter.create, Arbiter.occupied, Arbiter.binding, SlotSet.mem_first]
    constructor
    · rw [books_rest hw]
      exact hempty.mono False.elim
    · intro _ _ _ _ _ _ hstack
      cases hstack
    · intro _ _ _ _ hstack
      cases hstack
  · obtain ⟨new, hdeed, _⟩ := hgoes.deed (a := a) hm.placed
    exact hdeed.sound hgoes hm.linked (hP m hm.holds) ih

end SharedBus
