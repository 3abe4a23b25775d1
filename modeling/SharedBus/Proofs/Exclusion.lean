import SharedBus.Proofs.Deed.Origin
import SharedBus.Proofs.Sound.Step

/-! # The owner keeps the bus

From a turn that kept the bus on, until a turn gives it up, the arbiter advances only the client
that has it, through the slot that has it. Detaching that slot changes nothing about this.
-/
namespace SharedBus

namespace Machine

variable {a : ArbiterId} {m m' : Machine} {slot : SlotId} {b : Binding} {new : List Event}
  {rest : List Activation}

/-- The slot holds the bus: it owns it, or the pass that has served it is about to make it the
owner. -/
structure Holds (a : ArbiterId) (slot : SlotId) (b : Binding) (m : Machine) : Prop where
  binding : (m.books a).binding slot = some b
  owns : (m.books a).owner = some slot ∨ ∃ reply race rest, m.control = .back reply ∧
    reply.answer = .busy ∧ m.stack = .serve a slot race :: rest
  /-- The owner's turn has not given up the bus. -/
  busy : ∀ reply race rest, m.control = .back reply → m.stack = .owner a race :: rest →
    reply.answer = .busy

/-- Only turns answer a pass, so only the end of one can make it let go. -/
theorem Holds.of_follows {next : Next} {stack : List Activation} (hlinked : m'.Linked)
    (hbinding : (m'.books a).binding slot = some b) (howner : (m'.books a).owner = some slot)
    (hreply : ∀ answer race rest, next = .reply (.turn answer) → stack = .owner a race :: rest →
      answer = .busy)
    (hnext : m'.Follows next stack) : m'.Holds a slot b where
  binding := hbinding
  owns := .inl howner
  busy reply race rest hback hstack := by
    cases next with
    | call call waiting => cases hnext.1.symm.trans hback
    | reply back =>
      obtain rfl : back = reply := Control.back.inj (hnext.1.symm.trans hback)
      simp only [Linked, hback] at hlinked
      obtain ⟨turn, hturns, hanswer⟩ := hlinked
      rw [hstack] at hturns
      obtain ⟨other, rfl⟩ := hturns.1
      obtain ⟨answer, rfl⟩ := hanswer (by simp)
      exact hreply answer race rest rfl (hnext.2.symm.trans hstack)

/-- While a slot owns the bus, all turns are its own. -/
theorem Sound.eq_of_owner (hm : m.Sound a) (howner : (m.books a).owner = some slot) {other : SlotId}
    {stack : List Activation} (hturn : LinkedStack (some (a, other)) stack)
    (hstack : stack <:+ m.stack)
    (hown : ∀ race, .owner a race ∈ m.frames a → (m.books a).owner = some other) :
    slot = other := by
  cases stack with
  | nil => cases hturn
  | cons f rest =>
    have hmem : f ∈ m.stack := hstack.mem List.mem_cons_self
    rcases Activation.awaits_some hturn.1 with ⟨race, rfl⟩ | ⟨race, rfl⟩
    · have howns := hown race (mem_frames.2 ⟨hmem, by simp [Activation.isOf]⟩)
      exact Option.some.inj (howner.symm.trans howns)
    · -- whoever found the bus idle is not there to go on
      have hidle := hm.books.idle _ (mem_frames.2 ⟨hmem, by simp [Activation.isOf]⟩) rfl
      cases howner.symm.trans hidle

end Machine

open Machine

/-- A turn of a client ends only when its client's activation is resumed. -/
theorem Deed.turn_ended {a : ArbiterId} {m m' : Machine} {slot : SlotId} {c : ClientId}
    {answer : Answer} {new : List Event} (h : Deed a m m' new)
    (hmem : .turnEnded a slot (some c) answer ∈ new) : ∃ reply rest,
      m.control = .back reply ∧ m.stack = .turn a slot c answer :: rest ∧
        m'.books a = m.books a ∧ m'.Follows (.reply (.turn answer)) rest :=
  h.origin hmem (by simp [Event.isOf])

/-- Of all that becomes known, turns are those of the one client through the one slot, and no slot
is freed. -/
structure Keeps (a : ArbiterId) (slot : SlotId) (b : Binding) (events : List Event) : Prop where
  turns : ∀ other c, .turnBegun a other c ∈ events → other = slot ∧ c = some b.client
  not_freed : ∀ other, .freed a other ∉ events

theorem keeps_of_not_isOf {a : ArbiterId} {slot : SlotId} {b : Binding} {events : List Event}
    (h : ∀ e ∈ events, e.isOf a = false) : Keeps a slot b events where
  turns other c hmem := by simpa [Event.isOf] using h _ hmem
  not_freed other hmem := by simpa [Event.isOf] using h _ hmem

theorem Keeps.append {a : ArbiterId} {slot : SlotId} {b : Binding} {new older : List Event}
    (hnew : Keeps a slot b new) (holder : Keeps a slot b older) :
    Keeps a slot b (new ++ older) where
  turns other c hmem := (List.mem_append.1 hmem).elim (hnew.turns other c) (holder.turns other c)
  not_freed other hmem :=
    (List.mem_append.1 hmem).elim (hnew.not_freed other) (holder.not_freed other)

section
variable {a : ArbiterId} {m m' : Machine} {slot : SlotId} {b : Binding} {new : List Event}

/-- A pass that has served a slot which keeps the bus makes it the owner and is over. -/
theorem Deed.holds_of_served (hlinked' : m'.Linked) (h : Deed a m m' new) (hm : m.Holds a slot b)
    {reply : Reply}
    {race : Race} {rest : List Activation} (hback : m.control = .back reply)
    (hanswer : reply.answer = .busy) (hstack : m.stack = .serve a slot race :: rest) :
    (m'.books a).owner = some slot ∧ m'.Holds a slot b ∧ Keeps a slot b new := by
  cases h with
  | quiet h =>
    have hof := h.not_back reply _ rest hback hstack
    simp [Activation.isOf] at hof
  | build _ _ _ haction | detach haction | release haction =>
    obtain ⟨_, hcall⟩ := haction
    cases hback.symm.trans hcall
  | request haction =>
    obtain ⟨_, _, _, hcall, _⟩ := perform_of_request? haction
    cases hback.symm.trans hcall
  | attach hcall | job hcall | owner hcall | skipTurn hcall | beginTurn hcall =>
    cases hback.symm.trans hcall
  | refuse _ hstack' | claim _ hstack' | bind _ hstack' | uninstall _ hstack' | mark _ hstack'
  | reclaim _ hstack' | endPass _ hstack' | endTurn _ hstack' =>
    cases hstack.symm.trans hstack'
  | @serve race' x rest' before stage hserves hto hnext =>
    cases hserves with
    | idle hcall => cases hback.symm.trans hcall
    | kept _ _ hstack' | left _ _ hstack' => cases hstack.symm.trans hstack'
    | passed hback' hdone =>
      obtain rfl := Control.back.inj (hback.symm.trans hback')
      cases hanswer.symm.trans hdone
    | took _ _ hstack' hnew =>
      cases hstack.symm.trans hstack'
      generalize hx' : m'.books a = y at hto
      cases hto with
      | turn hfree | reclaim hfree => cases hfree
      | ended _ =>
        have howner' : (m'.books a).owner = some slot := by rw [hx']
        have hbinding' : (m'.books a).binding slot = some b := by
          rw [hx']
          exact hm.binding
        rw [hx'] at howner'
        refine ⟨howner', ?_, ?_⟩
        · exact .of_follows hlinked' hbinding' (by rw [hx']) (by simp [Stage.next]) hnext
        · exact Keeps.append ⟨by simp [Stage.events], by simp [Stage.events]⟩ (keeps_of_not_isOf hnew)

variable (hsound : m.Sound a) (hlinked : m.Linked) (hlinked' : m'.Linked)
include hsound hlinked hlinked'

/-- Every deed keeps the bus with its owner, unless it ends a turn in which that gives it up. -/
theorem Deed.holds_of_owner (h : Deed a m m' new)
    (hnone : .turnEnded a slot (some b.client) .done ∉ new) (hm : m.Holds a slot b)
    (howner : (m.books a).owner = some slot) :
    (m'.books a).owner = some slot ∧ m'.Holds a slot b ∧ Keeps a slot b new := by
  have hbinding := hm.binding
  -- whoever found the bus idle is not there to go on
  have hidle : ∀ {f : Activation} {rest : List Activation}, m.stack = f :: rest →
      f.isOf a = true → f.foundIdle = false := by
    intro f rest hstack hof
    refine Bool.eq_false_iff.2 fun hfound => ?_
    cases howner.symm.trans (hsound.books.idle f (mem_frames_of_stack hstack hof) hfound)
  have hcalled : ∀ {other : SlotId}, m.control = .call (.turn a other) → slot = other := by
    intro other hcall
    have hturns : LinkedStack (some (a, other)) m.stack := by simpa [Linked, hcall] using hlinked
    exact hsound.eq_of_owner howner hturns (List.suffix_refl _) fun race hmem =>
      hsound.owner_of_turn hlinked hcall hmem
  have hstay : ∀ {next : Next} {stack : List Activation},
      (m'.books a).owner = (m.books a).owner →
      (m'.books a).binding slot = (m.books a).binding slot →
      (∀ answer race rest, next = .reply (.turn answer) → stack = .owner a race :: rest →
        answer = .busy) →
      m'.Follows next stack → (m'.books a).owner = some slot ∧ m'.Holds a slot b := by
    intro next stack howner' hbinding' hreply hnext
    rw [howner] at howner'
    rw [hbinding] at hbinding'
    exact ⟨howner', .of_follows hlinked' hbinding' howner' hreply hnext⟩
  cases h with
  | quiet h hnew =>
    have howner' : (m'.books a).owner = some slot := by rwa [h.books]
    refine ⟨howner', ⟨by rwa [h.books], .inl howner', ?_⟩, keeps_of_not_isOf hnew⟩
    intro reply race rest _ hstack
    refine (h.top hlinked (frames_of_stack hstack (by simp [Activation.isOf])) ?_).elim
    exact fun turn hawaits => hawaits
  | build hx =>
    rw [hx] at howner
    cases howner
  | attach _ _ _ hx' hnext | detach _ _ hx' hnext | uninstall _ _ _ hx' hnext
  | endPass _ _ hx' hnext | claim _ _ _ _ _ hx' hnext | job _ hx' hnext | release _ _ hx' hnext =>
    obtain ⟨howner', hholds⟩ :=
      hstay (congrArg (·.owner) hx') (congrArg (·.binding slot) hx') (by simp) hnext
    exact ⟨howner', hholds, by simp, by simp⟩
  | refuse _ _ hx' hnew hnext =>
    obtain ⟨howner', hholds⟩ :=
      hstay (congrArg (·.owner) hx') (congrArg (·.binding slot) hx') (by simp) hnext
    refine ⟨howner', hholds, ?_⟩
    rcases hnew with rfl | ⟨_, _, rfl⟩
    · exact ⟨by simp, by simp⟩
    · exact ⟨by simp, by simp⟩
  | @bind c tag reply other rest _ hstack hx' hnext =>
    have hother : slot ≠ other := by
      rintro rfl
      have hmem : Activation.bind a c tag slot ∈ m.frames a :=
        mem_frames_of_stack hstack (by simp [Activation.isOf])
      have hunbound := (hsound.books.claimed _ hmem slot rfl).2
      cases hbinding.symm.trans hunbound
    obtain ⟨howner', hholds⟩ := hstay (by rw [hx']; rfl)
      (by rw [hx', Arbiter.binding_bind, if_neg hother]) (by simp) hnext
    exact ⟨howner', hholds, by simp, by simp⟩
  | mark _ _ _ hx' hnext =>
    obtain ⟨howner', hholds⟩ :=
      hstay (congrArg (·.owner) hx') (congrArg (·.binding slot) hx') (by simp) hnext
    refine ⟨howner', hholds, ?_⟩
    exact (keeps_of_not_isOf Arbiter.scheduling_not_isOf).append ⟨by simp, by simp⟩
  | request haction hx' hnew _ hnext =>
    obtain ⟨_, _, _, hcall, _⟩ := perform_of_request? haction
    have hturns : LinkedStack none m.stack := by simpa [Linked, hcall] using hlinked
    have hreply : ∀ race rest, m.stack ≠ .owner a race :: rest := by
      intro race rest hstack
      rw [hstack] at hturns
      obtain ⟨_, hturn⟩ := hturns.1
      cases hturn
    obtain ⟨howner', hholds⟩ :=
      hstay (congrArg (·.owner) hx') (congrArg (·.binding slot) hx')
      (fun _ race rest _ hstack => absurd hstack (hreply race rest)) hnext
    exact ⟨howner', hholds, (keeps_of_not_isOf hnew).append ⟨by simp, by simp⟩⟩
  | owner _ howns hx' hnext =>
    obtain ⟨howner', hholds⟩ :=
      hstay (congrArg (·.owner) hx') (congrArg (·.binding slot) hx') (by simp) hnext
    exact ⟨howner', hholds, by simp, by simp⟩
  | @serve race x rest before stage hserves hto hnext =>
    cases hserves with
    | idle _ hfree => cases howner.symm.trans hfree
    | left hback hanswer hstack =>
      cases hanswer.symm.trans (hm.busy _ _ _ hback hstack)
    | took _ _ hstack | passed _ _ hstack =>
      cases hidle hstack (by simp [Activation.isOf])
    | kept _ _ hstack =>
      generalize hx' : m'.books a = y at hto
      cases hto with
      | turn hfree | reclaim hfree => cases howner.symm.trans hfree
      | ended _ =>
        obtain ⟨howner', hholds⟩ :=
          hstay (congrArg (·.owner) hx') (congrArg (·.binding slot) hx') (by simp [Stage.next]) hnext
        rw [hx'] at howner'
        exact ⟨howner', hholds, by simp [Stage.events], by simp [Stage.events]⟩
  | reclaim _ hstack => cases hidle hstack (by simp [Activation.isOf])
  | @skipTurn other hcall hclient =>
    obtain rfl := hcalled hcall
    simp [Arbiter.client?, hbinding] at hclient
  | @beginTurn other c answer actions hcall hclient hx' hnext =>
    obtain ⟨howner', hholds⟩ :=
      hstay (congrArg (·.owner) hx') (congrArg (·.binding slot) hx') (by simp) hnext
    obtain rfl := hcalled hcall
    have hc : b.client = c := by
      simpa [Arbiter.client?, hbinding] using hclient
    exact ⟨howner', hholds, by simp [hc], by simp⟩
  | @endTurn other c answer reply rest hback hstack hx' hnext =>
    have hturn : Activation.turn a other c answer ∈ m.frames a :=
      mem_frames_of_stack hstack (by simp [Activation.isOf])
    have hother : slot = other := by
      simp only [Linked, hback, hstack] at hlinked
      obtain ⟨_, ⟨_, hturns⟩, _⟩ := hlinked
      exact hsound.eq_of_owner howner hturns (suffix_of_stack hstack) fun race hmem =>
        hsound.books.turn other c answer race hturn hmem
    subst hother
    have hc : b.client = c := by
      simpa [Arbiter.client?, hbinding] using hsound.books.held _ hturn _ rfl
    have hbusy : answer = .busy := by
      cases answer with
      | busy => rfl
      | done => simp [hc] at hnone
    have hreply : ∀ answer' (race : Race) (below : List Activation),
        Next.reply (.turn answer) = .reply (.turn answer') → rest = .owner a race :: below →
          answer' = .busy := by
      rintro _ _ _ ⟨_⟩ _
      exact hbusy
    obtain ⟨howner', hholds⟩ :=
      hstay (congrArg (·.owner) hx') (congrArg (·.binding slot) hx') hreply hnext
    exact ⟨howner', hholds, by simp, by simp⟩

theorem Deed.holds (h : Deed a m m' new) (hnone : .turnEnded a slot (some b.client) .done ∉ new)
    (hm : m.Holds a slot b) :
    (m'.books a).owner = some slot ∧ m'.Holds a slot b ∧ Keeps a slot b new := by
  rcases hm.owns with howner | ⟨reply, race, rest, hback, hanswer, hstack⟩
  · exact h.holds_of_owner hsound hlinked hlinked' hnone hm howner
  · exact h.holds_of_served hlinked' hm hback hanswer hstack

end

namespace Machine

variable {a : ArbiterId} {m₀ m m' : Machine} {slot : SlotId} {c : ClientId} {b : Binding}
  {new : List Event} {P : Machine → Prop}

/-- A turn that ends and keeps the bus leaves its slot holding it. -/
theorem Goes.holds (hP : ∀ m, P m → m.PassesAlone) (hm₀ : Reachable P m₀) (hgoes : Goes m₀ m)
    (hbusy : m.trace = .turnEnded a slot (some c) .busy :: m₀.trace) :
    ∃ tag, m.Holds a slot ⟨c, tag⟩ := by
  obtain ⟨new, hdeed, htrace⟩ := hgoes.deed (a := a) hm₀.placed
  have hmem : .turnEnded a slot (some c) .busy ∈ new := by
    rw [htrace, ← List.singleton_append] at hbusy
    rw [List.append_cancel_right hbusy]
    exact List.mem_cons_self
  obtain ⟨reply, rest, hback, hstack, hx, hnext⟩ := hdeed.turn_ended hmem
  have hsound := (hm₀.sound hP (a := a)).books
  have hturn : Activation.turn a slot c .busy ∈ m₀.frames a :=
    mem_frames_of_stack hstack (by simp [Activation.isOf])
  obtain ⟨tag, hbinding⟩ := Arbiter.client?_eq_some.1 (hsound.held _ hturn _ rfl)
  refine ⟨tag, ⟨by rwa [hx], ?_, ?_⟩⟩
  · have hlinked := hm₀.linked
    simp only [Linked, hback, hstack] at hlinked
    obtain ⟨_, ⟨_, hturns⟩, _⟩ := hlinked
    cases rest with
    | nil => cases hturns
    | cons f below =>
      rcases Activation.awaits_some hturns.1 with ⟨race, rfl⟩ | ⟨race, rfl⟩
      · have howner : Activation.owner a race ∈ m₀.frames a := by
          refine mem_frames.2 ⟨?_, by simp [Activation.isOf]⟩
          rw [hstack]
          exact List.mem_cons_of_mem _ List.mem_cons_self
        rw [hx]
        exact .inl (hsound.turn slot c .busy race hturn howner)
      · exact .inr ⟨_, race, below, hnext.1, rfl, hnext.2⟩
  · intro back race below hback' _
    obtain rfl := Control.back.inj (hnext.1.symm.trans hback')
    rfl

theorem Run.keeps (hP : ∀ m, P m → m.PassesAlone) (hm : Reachable P m) (hrun : Run P m m')
    (hholds : m.Holds a slot b) (htrace : m'.trace = new ++ m.trace)
    (hnone : .turnEnded a slot (some b.client) .done ∉ new) :
    (m' = m ∨ (m'.books a).owner = some slot) ∧ m'.Holds a slot b ∧ Keeps a slot b new := by
  revert hnone
  refine Run.deed_induction (a := a) (I := fun m' new =>
    .turnEnded a slot (some b.client) .done ∉ new →
    (m' = m ∨ (m'.books a).owner = some slot) ∧ m'.Holds a slot b ∧ Keeps a slot b new)
    hm (fun _ => ⟨.inl rfl, hholds, by simp, by simp⟩) ?_ hrun htrace
  intro m₁ m₂ older new hm₁ hm₂ _ hdeed _ ih hnone
  rw [List.mem_append, not_or] at hnone
  obtain ⟨_, hholds₁, hkeeps₁⟩ := ih hnone.2
  obtain ⟨howner, hholds₂, hkeeps₂⟩ :=
    hdeed.holds (hm₁.sound hP) hm₁.linked hm₂.linked hnone.1 hholds₁
  exact ⟨.inr howner, hholds₂, hkeeps₂.append hkeeps₁⟩

/-! ## Main result -/

/-- Once a turn of a client has kept the bus, and until one of its turns gives it up, its slot owns
the bus and stays bound to that client under its tag, all turns of the arbiter are turns of that
client through that slot, and no slot is freed. -/
theorem owner_keeps_the_bus (hm₀ : Reachable PassesAlone m₀) (hgoes : Goes m₀ m)
    (hbusy : m.trace = .turnEnded a slot (some c) .busy :: m₀.trace)
    (hrun : Run PassesAlone m m') (htrace : m'.trace = new ++ m.trace)
    (hnone : .turnEnded a slot (some c) .done ∉ new) :
    (m' = m ∨ (m'.books a).owner = some slot) ∧ slot ∈ (m'.books a).occupied ∧
    (m'.books a).client? slot = some c ∧ (m'.books a).tag? slot = (m.books a).tag? slot ∧
    (∀ other c', .turnBegun a other c' ∈ new → other = slot ∧ c' = some c) ∧
    (∀ other, .freed a other ∉ new) := by
  have hm : Reachable PassesAlone m := hm₀.next hgoes hrun.start
  obtain ⟨tag, hholds⟩ := hgoes.holds (fun _ h => h) hm₀ hbusy
  obtain ⟨howner, hholds', hkeeps⟩ := hrun.keeps (fun _ h => h) hm hholds htrace hnone
  have hsound := ((hm.run hrun).sound (fun _ h => h) (a := a)).books
  have hbound : (m'.books a).binding slot ≠ none := by
    rw [hholds'.binding]
    simp
  refine ⟨howner, hsound.occupied slot hbound, ?_, ?_, hkeeps.turns, hkeeps.not_freed⟩
  · rw [Arbiter.client?, hholds'.binding]
    rfl
  · rw [Arbiter.tag?, Arbiter.tag?, hholds'.binding, hholds.binding]

/-- The owner is detached in the middle of its turns and goes on, while another slot waits. -/
theorem owner_keeps_the_bus_detached :
    let m₀ := play 48 [.build 0 0 (some 2), .attach 0 0 ⟨7⟩ none none, .attach 0 1 ⟨8⟩ none none,
      .notify 0, .notify 1, .runPending 0] (rest .playground)
    let m' := play 22 [.detach 0 0, .runPending 0] m₀.step
    (1 : SlotId) ∈ (m'.books 0).detaching ∧ (0 : SlotId) ∈ (m'.books 0).pending ∧
      (m'.books 0).client? 1 = some 0 ∧ ∃ new, m'.trace = new ++ m₀.step.trace ∧
        .turnBegun 0 1 (some 0) ∈ new ∧
        ∀ other c, .turnBegun 0 other c ∈ new → other = 1 ∧ c = some 0 := by
  intro m₀ m'
  have hm₀ : Reachable PassesAlone m₀ :=
    .of_plays World.isInitial_playground 48 _ (by decide +kernel)
  have hgoes : Goes m₀ m₀.step := .step (by decide +kernel)
  have hbusy : m₀.step.trace = .turnEnded 0 1 (some 0) .busy :: m₀.trace := by decide +kernel
  have hrun : Run PassesAlone m₀.step m' := .of_plays (by decide +kernel)
  have htrace : m'.trace = m'.trace.take 11 ++ m₀.step.trace := by decide +kernel
  have hnone : .turnEnded 0 1 (some 0) .done ∉ m'.trace.take 11 := by decide +kernel
  obtain ⟨_, _, hclient, _, hturns, _⟩ := owner_keeps_the_bus hm₀ hgoes hbusy hrun htrace hnone
  exact ⟨by decide +kernel, by decide +kernel, hclient, _, htrace, by decide +kernel, hturns⟩

end Machine

end SharedBus
