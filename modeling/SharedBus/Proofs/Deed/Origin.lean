import SharedBus.Proofs.Deed.Run

/-! # Where events, activations and changes of the books come from

Each deed read backwards: what an event tells about the machine that brought it about, how an
activation has come onto the stack, and by which events a slot changes its binding or its mark.
-/
namespace SharedBus

open Machine

/-- What the machine was about when the event happened, and how it goes on; `new` is all that has
become known together with it, the latest first. -/
@[simp] def Event.Origin (a : ArbiterId) (m m' : Machine) (new : List Event) : Event → Prop
  | .claimed _ slot => slot ∈ (m.books a).free ∧
      ∃ reply c tag bind rest, m.control = .back reply ∧ m.stack = .claim a c tag bind :: rest
  | .bound _ slot b =>
    ∃ reply rest, m.control = .back reply ∧ m.stack = .bind a b.client b.tag slot :: rest
  | .detaching _ slot c => (m.books a).find? c = some slot
  | .marked _ slot c => ∃ reply kind rest, m.control = .back reply ∧
      m.stack = .uninstall a c slot kind :: rest ∧ kind.next? = none ∧
        slot ∈ (m'.books a).detaching
  | .requested _ slot => m.request? = some ⟨a, slot⟩ ∧ m'.stack = m.stack ∧
      ∃ posted, new = posted ++ [.requested a slot] ∧ ∀ e ∈ posted, e.isOf a = false
  | .continued _ slot => (m.books a).owner = some slot ∧ (∃ race, m.control = .call (.pass a race)) ∧
      new = [.continued a slot, .passBegun a]
  | .served _ slot => slot ∈ (m.books a).pending
  | .turnBegun _ slot c => m.control = .call (.turn a slot) ∧ (m.books a).client? slot = c
  | .turnEnded _ slot (some c) answer => ∃ reply rest, m.control = .back reply ∧
      m.stack = .turn a slot c answer :: rest ∧ m'.books a = m.books a ∧
        m'.Follows (.reply (.turn answer)) rest
  | .withdrawn _ slot => slot ∈ (m.books a).detaching ∧ .reclaim a slot ∈ m'.stack ∧
      ∃ before, new = .withdrawn a slot :: before
  | .freed _ slot => ∃ rest stage, m.stack = .reclaim a slot :: rest ∧
      m'.Follows (Stage.next a none stage) rest ∧
        new = (stage.events a).reverse ++ [.freed a slot]
  | _ => True

/-- The step by which the activation has come onto the stack. -/
@[simp] def Activation.Origin (a : ArbiterId) (m : Machine) (new : List Event) : Activation → Prop
  | .bind _ _ _ slot => new = [.claimed a slot]
  | .uninstall _ c slot _ =>
    new = [.detaching a slot c] ∨ ∃ kind, .uninstall a c slot kind ∈ m.stack
  | .turn _ slot c _ => m.control = .call (.turn a slot) ∧ (m.books a).client? slot = some c
  | .serve _ slot _ => .served a slot ∈ new
  | .reclaim _ slot => .withdrawn a slot ∈ new
  | _ => True

namespace Machine

variable {a : ArbiterId} {m m' : Machine} {new : List Event} {e : Event}

theorem Serves.detaching {race : Race} {x : Arbiter} {rest : List Activation}
    (h : Serves a m race x rest new) : x.detaching = (m.books a).detaching := by
  cases h with
  | idle | kept | left | took | passed => rfl

theorem Serves.origin {race : Race} {x : Arbiter} {rest : List Activation}
    (h : Serves a m race x rest new) (he : e ∈ new) (hof : e.isOf a = true) :
    e = .passBegun a := by
  cases h with
  | idle => exact List.mem_singleton.1 he
  | kept | left | passed => cases he
  | took _ _ _ hnew => simp [hnew e he] at hof

end Machine

section
variable {a : ArbiterId} {m m' : Machine} {new : List Event} {e : Event} {f : Activation}
  {slot : SlotId}

private theorem Stage.origin_reclaim {x : Arbiter} {race : Race} {stage : Stage}
    {rest : List Activation} (hx : ∀ slot ∈ x.detaching, slot ∈ (m.books a).detaching)
    (hto : x.ReclaimsTo (m'.books a) stage) (hnext : m'.Follows (stage.next a race) rest)
    (hnew : (stage.events a).reverse <+: new) (he : e ∈ stage.events a) : e.Origin a m m' new := by
  generalize m'.books a = y at hto
  cases hto with
  | @reclaim slot _ hslot =>
    obtain rfl := List.mem_singleton.1 he
    obtain ⟨before, rfl⟩ := hnew
    exact ⟨hx slot (SlotSet.mem_of_highest? hslot), hnext.2 ▸ List.mem_cons_self, before, rfl⟩
  | idle => cases he
  | ended =>
    obtain rfl := List.mem_singleton.1 he
    trivial

/-- Each event of an arbiter says what was under way. -/
theorem Deed.origin (h : Deed a m m' new) (he : e ∈ new) (hof : e.isOf a = true) :
    e.Origin a m m' new := by
  cases h with
  | quiet _ hnew => simp [hnew e he] at hof
  | attach | uninstall | job => cases he
  | refuse hback hstack _ hnew =>
    rcases hnew with rfl | ⟨slot, hslot, rfl⟩
    · cases he
    · simp only [List.mem_cons, List.not_mem_nil, or_false] at he
      rcases he with rfl | rfl
      · trivial
      · exact ⟨hslot, _, _, _, _, _, hback, hstack⟩
  | claim hback hstack _ hslot =>
    obtain rfl := List.mem_singleton.1 he
    exact ⟨SlotSet.mem_of_highest? hslot, _, _, _, _, _, hback, hstack⟩
  | bind hback hstack =>
    obtain rfl := List.mem_singleton.1 he
    exact ⟨_, _, hback, hstack⟩
  | detach _ hfind =>
    obtain rfl := List.mem_singleton.1 he
    exact hfind
  | mark hback hstack hkind hx' =>
    rcases List.mem_append.1 he with he | he
    · simp [Arbiter.scheduling_not_isOf e he] at hof
    · obtain rfl := List.mem_singleton.1 he
      refine ⟨_, _, _, hback, hstack, hkind, ?_⟩
      rw [hx']
      exact SlotSet.mem_insert.2 (.inr rfl)
  | build | release | endPass =>
    simp only [List.mem_cons, List.not_mem_nil, or_false] at he
    rcases he with rfl | rfl <;> trivial
  | owner hcall howner =>
    simp only [List.mem_cons, List.not_mem_nil, or_false] at he
    rcases he with rfl | rfl
    · exact ⟨howner, ⟨_, hcall⟩, rfl⟩
    · trivial
  | request haction _ hnew _ hnext =>
    rcases List.mem_append.1 he with he | he
    · simp [hnew e he] at hof
    · obtain rfl := List.mem_singleton.1 he
      exact ⟨haction, hnext.2, _, rfl, hnew⟩
  | @serve _ x _ _ stage hserves hto hnext =>
    rcases List.mem_append.1 he with he | he
    · obtain ⟨hpending, _⟩ := hserves.books
      replace he := List.mem_reverse.1 he
      generalize hy : m'.books a = y at hto
      cases hto with
      | ended =>
        obtain rfl := List.mem_singleton.1 he
        trivial
      | @turn slot _ hslot =>
        obtain rfl := List.mem_singleton.1 he
        rw [hpending] at hslot
        exact SlotSet.mem_of_highest? hslot
      | reclaim _ _ hto =>
        exact Stage.origin_reclaim (fun slot h => hserves.detaching ▸ h) (hy ▸ hto) hnext
          (List.prefix_append _ _) he
    · obtain rfl := hserves.origin he hof
      trivial
  | reclaim hback hstack hto hnext =>
    rcases List.mem_append.1 he with he | he
    · exact Stage.origin_reclaim (x := ((m.books a).unbind _).giveBack _) (fun _ h => h) hto hnext
        (List.prefix_append _ _) (List.mem_reverse.1 he)
    · obtain rfl := List.mem_singleton.1 he
      exact ⟨_, _, hstack, hnext, rfl⟩
  | skipTurn hcall hclient =>
    simp only [List.mem_cons, List.not_mem_nil, or_false] at he
    rcases he with rfl | rfl
    · trivial
    · exact ⟨hcall, hclient⟩
  | beginTurn hcall hclient =>
    obtain rfl := List.mem_singleton.1 he
    exact ⟨hcall, hclient⟩
  | endTurn hback hstack hx' hnext =>
    obtain rfl := List.mem_singleton.1 he
    exact ⟨_, _, hback, hstack, hx', hnext⟩

/-- Each activation on an arbiter's books was there before, or the deed has put it there. -/
theorem Deed.pushed (h : Deed a m m' new) (hf : f ∈ m'.stack) (hof : f.isOf a = true) :
    f ∈ m.stack ∨ f.Origin a m new := by
  have hfollows : ∀ {next : Next} {stack : List Activation}, (∀ g ∈ stack, g ∈ m.stack) →
      (∀ g ∈ next.waiting?, g.isOf a = true → g.Origin a m new) → m'.Follows next stack →
        f ∈ m.stack ∨ f.Origin a m new := by
    intro next stack hstack hwaiting hnext
    rcases hnext.mem_stack hf with hold | hnew
    · exact .inl (hstack f hold)
    · exact .inr (hwaiting f hnew hof)
  have hrest : ∀ {g : Activation} {rest : List Activation}, m.stack = g :: rest →
      ∀ f ∈ rest, f ∈ m.stack := fun hstack f hmem => hstack ▸ List.mem_cons_of_mem _ hmem
  cases h with
  | quiet h => exact .inl (h.mem_stack hof hf)
  | build _ _ _ _ hnext | attach _ _ _ _ hnext | release _ _ _ hnext | request _ _ _ _ hnext
  | job _ _ hnext | owner _ _ _ hnext | skipTurn _ _ _ hnext =>
    exact hfollows (fun _ h => h) (by simp [Activation.isOf]) hnext
  | refuse _ hstack _ _ hnext | claim _ hstack _ _ _ _ hnext | bind _ hstack _ hnext
  | mark _ hstack _ _ hnext | endPass _ hstack _ hnext | endTurn _ hstack _ hnext =>
    exact hfollows (hrest hstack) (by simp [Activation.isOf]) hnext
  | detach _ _ _ hnext => exact hfollows (fun _ h => h) (by simp) hnext
  | uninstall _ hstack _ _ hnext =>
    refine hfollows (hrest hstack) ?_ hnext
    simp only [Next.waiting?, Option.mem_some_iff]
    rintro _ rfl _
    exact .inr ⟨_, hstack ▸ List.mem_cons_self⟩
  | beginTurn hcall hclient _ hnext =>
    exact hfollows (fun _ h => h) (by simp [hcall, hclient]) hnext
  | @serve _ _ _ _ stage hserves _ hnext =>
    refine hfollows (fun _ h => hserves.suffix.mem h) ?_ hnext
    cases stage <;> simp [Stage.next, Stage.events]
  | @reclaim _ _ _ stage _ hstack _ hnext =>
    refine hfollows (hrest hstack) ?_ hnext
    cases stage <;> simp [Stage.next, Stage.events]

/-! ## Changes of the books -/

/-- An attach whose race is over binds the slot that it has claimed. -/
theorem Deed.books_of_bind (h : Deed a m m' new) {reply : Reply} {c : ClientId} {tag : Tag}
    {rest : List Activation} (hback : m.control = .back reply)
    (hstack : m.stack = .bind a c tag slot :: rest) :
    m'.books a = (m.books a).bind slot ⟨c, tag⟩ := by
  have hcall : ∀ {call : Call} {P : Prop}, m.control = .call call → P := fun hcall => by
    cases hback.symm.trans hcall
  have hframe : ∀ {f : Activation} {others : List Activation}, m.stack = f :: others →
      f = .bind a c tag slot := fun hother => (List.cons.inj (hother.symm.trans hstack)).1
  cases h with
  | bind _ hother hx' =>
    cases hframe hother
    exact hx'
  | quiet h => simpa [Activation.isOf] using h.not_back reply _ rest hback hstack
  | build _ _ _ haction | detach haction | release haction =>
    obtain ⟨_, haction⟩ := haction
    exact hcall haction
  | request haction =>
    obtain ⟨_, _, _, haction, _⟩ := perform_of_request? haction
    exact hcall haction
  | attach haction | job haction | owner haction | skipTurn haction | beginTurn haction =>
    exact hcall haction
  | refuse _ hother | claim _ hother | uninstall _ hother | mark _ hother | reclaim _ hother
  | endPass _ hother | endTurn _ hother => cases hframe hother
  | serve hserves =>
    cases hserves with
    | idle haction => exact hcall haction
    | kept _ _ hother | left _ _ hother | took _ _ hother | passed _ _ hother =>
      cases hframe hother

/-- A slot changes its binding only when it is bound or freed. -/
theorem Deed.binding (h : Deed a m m' new) (slot : SlotId) :
    (m'.books a).binding slot = (m.books a).binding slot ∨
      (∃ b, .bound a slot b ∈ new ∧ (m'.books a).binding slot = some b) ∨
      .freed a slot ∈ new ∧ (m'.books a).binding slot = none := by
  cases h with
  | quiet h => exact .inl (by rw [h.books])
  | build hx hx' =>
    refine .inl ?_
    rw [hx, hx', Arbiter.binding_create]
    exact (Arbiter.binding_create ⟨0⟩ 0 0).symm
  | attach _ _ _ hx' | refuse _ _ hx' | claim _ _ _ _ _ hx' | detach _ _ hx' | uninstall _ _ _ hx'
  | mark _ _ _ hx' | release _ _ hx' | request _ hx' | job _ hx' | owner _ _ hx' | endPass _ _ hx'
  | skipTurn _ _ hx' | beginTurn _ _ hx' | endTurn _ _ hx' =>
    exact .inl (congrArg (·.binding slot) hx')
  | @bind _ _ _ other _ _ _ hx' =>
    rw [hx', Arbiter.binding_bind]
    by_cases he : slot = other
    · subst he
      exact .inr (.inl ⟨_, List.mem_singleton.2 rfl, if_pos rfl⟩)
    · exact .inl (if_neg he)
  | serve hserves hto =>
    obtain ⟨_, _, _, hbindings⟩ := hserves.books
    obtain ⟨_, _, hx'⟩ := hto.frame
    refine .inl ?_
    rw [hx']
    exact congrArg (·[slot]) hbindings
  | @reclaim _ other _ _ _ _ hto =>
    obtain ⟨_, _, hx'⟩ := hto.frame
    rw [hx']
    have hunbind := Arbiter.binding_unbind (m.books a) other slot
    by_cases he : slot = other
    · subst he
      exact .inr (.inr ⟨by simp, hunbind.trans (if_pos rfl)⟩)
    · exact .inl (hunbind.trans (if_neg he))

private theorem Arbiter.ReclaimsTo.detaching {x y : Arbiter} {stage : Stage}
    (h : x.ReclaimsTo y stage) (hslot : slot ∈ y.detaching) : slot ∈ x.detaching := by
  cases h with
  | reclaim => exact (SlotSet.mem_erase.1 hslot).1
  | idle | ended => exact hslot

/-- A slot is on its way out only since it was marked. -/
theorem Deed.detaching (h : Deed a m m' new) (hslot : slot ∈ (m'.books a).detaching) :
    slot ∈ (m.books a).detaching ∨ ∃ c, .marked a slot c ∈ new := by
  cases h with
  | quiet h =>
    rw [h.books] at hslot
    exact .inl hslot
  | build _ hx' =>
    rw [hx'] at hslot
    exact absurd hslot SlotSet.notMem_empty
  | attach _ _ _ hx' | refuse _ _ hx' | claim _ _ _ _ _ hx' | bind _ _ hx' | detach _ _ hx'
  | uninstall _ _ _ hx' | release _ _ hx' | request _ hx' | job _ hx' | owner _ _ hx'
  | endPass _ _ hx' | skipTurn _ _ hx' | beginTurn _ _ hx' | endTurn _ _ hx' =>
    rw [hx'] at hslot
    exact .inl hslot
  | @mark c other _ _ _ _ _ _ _ hx' =>
    rw [hx'] at hslot
    rcases SlotSet.mem_insert.1 hslot with hslot | rfl
    · exact .inl hslot
    · exact .inr ⟨c, by simp⟩
  | serve hserves hto =>
    rw [← hserves.detaching]
    generalize m'.books a = y at hto hslot
    cases hto with
    | ended | turn => exact .inl hslot
    | reclaim _ _ hto => exact .inl (hto.detaching hslot)
  | reclaim _ _ hto => exact .inl (hto.detaching hslot)

/-- An occupied slot stays occupied until it is freed. -/
theorem Deed.occupied (h : Deed a m m' new) (hslot : slot ∈ (m.books a).occupied) :
    slot ∈ (m'.books a).occupied ∨ .freed a slot ∈ new := by
  obtain ⟨hlt, hfree⟩ := Arbiter.mem_occupied.1 hslot
  cases h with
  | quiet h => exact .inl (h.books ▸ hslot)
  | build hx =>
    rw [hx] at hlt
    exact absurd hlt (Nat.not_lt_zero _)
  | attach _ _ _ hx' | refuse _ _ hx' | bind _ _ hx' | detach _ _ hx' | uninstall _ _ _ hx'
  | mark _ _ _ hx' | release _ _ hx' | request _ hx' | job _ hx' | owner _ _ hx' | endPass _ _ hx'
  | skipTurn _ _ hx' | beginTurn _ _ hx' | endTurn _ _ hx' =>
    rw [hx']
    exact .inl hslot
  | claim _ _ _ _ _ hx' =>
    rw [hx']
    exact .inl (Arbiter.mem_occupied.2 ⟨hlt, fun hmem => hfree (SlotSet.mem_erase.1 hmem).1⟩)
  | serve hserves hto =>
    obtain ⟨_, hxfree, hxcapacity, _⟩ := hserves.books
    obtain ⟨_, _, hx'⟩ := hto.frame
    rw [hx']
    exact .inl (Arbiter.mem_occupied.2 ⟨hxcapacity ▸ hlt, hxfree ▸ hfree⟩)
  | @reclaim _ other _ _ _ _ hto =>
    obtain ⟨_, _, hx'⟩ := hto.frame
    by_cases he : slot = other
    · exact .inr (by simp [he])
    · rw [hx']
      refine .inl (Arbiter.mem_occupied.2 ⟨hlt, fun hmem => ?_⟩)
      exact (SlotSet.mem_insert.1 hmem).elim hfree he

/-- A slot comes to own the bus only after it was served. -/
theorem Deed.owns (h : Deed a m m' new) (howner : (m'.books a).owner = some slot) :
    (m.books a).owner = some slot ∨ ∃ race, .serve a slot race ∈ m.stack := by
  cases h with
  | quiet h => exact .inl (h.books ▸ howner)
  | build _ hx' =>
    rw [hx'] at howner
    cases howner
  | attach _ _ _ hx' | refuse _ _ hx' | claim _ _ _ _ _ hx' | bind _ _ hx' | detach _ _ hx'
  | uninstall _ _ _ hx' | mark _ _ _ hx' | release _ _ hx' | request _ hx' | job _ hx'
  | owner _ _ hx' | endPass _ _ hx' | skipTurn _ _ hx' | beginTurn _ _ hx' | endTurn _ _ hx' =>
    rw [hx'] at howner
    exact .inl howner
  | serve hserves hto =>
    obtain ⟨_, _, hx'⟩ := hto.frame
    rw [hx'] at howner
    cases hserves with
    | idle | kept | passed => exact .inl howner
    | left => cases howner
    | took _ _ hstack =>
      obtain rfl := Option.some.inj howner
      exact .inr ⟨_, hstack ▸ List.mem_cons_self⟩
  | reclaim _ _ hto =>
    obtain ⟨_, _, hx'⟩ := hto.frame
    rw [hx'] at howner
    exact .inl howner

end

end SharedBus
