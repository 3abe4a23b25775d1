import SharedBus.Proofs.Calls
import SharedBus.Proofs.Consistency

/-! # Release is final

An arbiter is closed when it is released, and it is released only while no slot is occupied. From
then on no attach claims a slot for good, so no slot is ever occupied again and nobody is left to be
given a turn or reported about.
-/
namespace SharedBus

theorem Arbiter.attachedCount_eq_zero {x : Arbiter} :
    x.attachedCount = 0 ↔ ∀ slot, slot ∉ x.occupied := by
  rw [attachedCount, SlotSet.size_eq_length, List.length_eq_zero_iff,
    List.eq_nil_iff_forall_not_mem]
  simp only [SlotSet.mem_toList]

theorem World.tryRelease_of_vacant {w : World} {a : ArbiterId}
    (h : ∀ slot, slot ∉ (w.arbiter a).occupied) :
    w.tryRelease a =
      (w.setArbiter a { w.arbiter a with closed := true }).reply .released [.released a] := by
  simp [tryRelease_eq, Arbiter.attachedCount_eq_zero.2 h]

namespace Machine

variable {a : ArbiterId} {m : Machine}

/-- Where no slot is occupied, all are free. -/
theorem Sound.free_of_vacant (hm : m.Sound a) (h : ∀ slot, slot ∉ (m.books a).occupied) :
    (m.books a).free = .first (m.books a).capacity := by
  refine SlotSet.ext fun slot => ?_
  rw [SlotSet.mem_first]
  refine ⟨hm.books.free_le slot, fun hlt => ?_⟩
  exact Classical.byContradiction fun hfree => h slot (Arbiter.mem_occupied.2 ⟨hlt, hfree⟩)

theorem Sound.owner_of_vacant (hm : m.Sound a) (h : ∀ slot, slot ∉ (m.books a).occupied) :
    (m.books a).owner = none :=
  Option.eq_none_iff_forall_ne_some.2 fun slot howner =>
    h slot (hm.books.occupied slot (hm.books.owner slot howner))

end Machine

/-- Whoever claims a slot of a closed arbiter gives it back at once. -/
theorem World.claim_of_closed {w : World} {a : ArbiterId} (h : (w.arbiter a).closed = true)
    (c : ClientId) (tag : Tag) (bind : Race) :
    ∃ refusal events, w.claim a c tag bind = w.reply (.refused refusal) events := by
  unfold claim
  split
  · exact ⟨_, _, rfl⟩
  · split
    · exact ⟨_, _, rfl⟩
    · rename_i slot claimed hclaim
      have hclosed : claimed.closed = true := by
        obtain ⟨_, rfl⟩ := Arbiter.claim?_eq_some.1 hclaim
        exact h
      rw [if_pos hclosed, Arbiter.giveBack_of_claim? hclaim, setArbiter_arbiter]
      exact ⟨_, _, rfl⟩

/-! ## Closing -/

section
variable {a : ArbiterId} {m m' : Machine} {new : List Event} {slot : SlotId}

theorem Arbiter.ServesTo.closed {x y : Arbiter} {stage : Stage} (h : x.ServesTo y stage) :
    y.closed = x.closed ∧ y.occupied = x.occupied := by
  obtain ⟨_, _, rfl⟩ := h.frame
  exact ⟨rfl, rfl⟩

theorem Arbiter.ReclaimsTo.closed {x y : Arbiter} {stage : Stage} (h : x.ReclaimsTo y stage) :
    y.closed = x.closed ∧ y.occupied = x.occupied := by
  obtain ⟨_, _, rfl⟩ := h.frame
  exact ⟨rfl, rfl⟩

theorem Machine.Serves.closed {race : Race} {x : Arbiter} {rest : List Activation}
    (h : Serves a m race x rest new) :
    x.closed = (m.books a).closed ∧ x.occupied = (m.books a).occupied := by
  cases h with
  | idle | kept | left | took | passed => exact ⟨rfl, rfl⟩

/-- Nobody gets onto a closed arbiter, and it was closed while nobody was on it. -/
theorem Deed.vacant (h : Deed a m m' new)
    (hm : (m.books a).closed = true → slot ∉ (m.books a).occupied)
    (hclosed : (m'.books a).closed = true) : slot ∉ (m'.books a).occupied := by
  cases h with
  | quiet h =>
    rw [h.books] at hclosed ⊢
    exact hm hclosed
  | build _ hx' =>
    rw [hx'] at hclosed
    cases hclosed
  | claim _ _ _ _ hopen hx' =>
    rw [hx'] at hclosed
    cases hopen.symm.trans hclosed
  | release _ hnone hx' =>
    rw [hx']
    exact Arbiter.attachedCount_eq_zero.1 hnone slot
  | attach _ _ _ hx' | refuse _ _ hx' | bind _ _ hx' | detach _ _ hx' | uninstall _ _ _ hx'
  | mark _ _ _ hx' | request _ hx' | job _ hx' | owner _ _ hx' | endPass _ _ hx' | skipTurn _ _ hx'
  | beginTurn _ _ hx' | endTurn _ _ hx' =>
    rw [hx'] at hclosed ⊢
    exact hm hclosed
  | serve h hto =>
    rw [hto.closed.1, h.closed.1] at hclosed
    rw [hto.closed.2, h.closed.2]
    exact hm hclosed
  | @reclaim _ freed _ _ _ _ hto =>
    rw [hto.closed.1] at hclosed
    rw [hto.closed.2]
    intro hslot
    obtain ⟨hlt, hfree⟩ := Arbiter.mem_occupied.1 hslot
    refine hm hclosed (Arbiter.mem_occupied.2 ⟨hlt, fun hmem => hfree ?_⟩)
    exact SlotSet.mem_insert.2 (.inl hmem)

/-- An arbiter is closed by its release and by nothing else. -/
theorem Deed.closed_iff (h : Deed a m m' new) :
    (m'.books a).closed = true ↔ (m.books a).closed = true ∨ .released a ∈ new := by
  have hsilent : ∀ {events : List Event}, (∀ e ∈ events, e.isOf a = false) →
      .released a ∉ events :=
    fun hevents hmem => by simpa [Event.isOf] using hevents _ hmem
  cases h with
  | quiet h hnew => simp [h.books, hsilent hnew]
  | build hx hx' => simp [hx, hx', Arbiter.create, default]
  | release _ _ hx' => simp [hx']
  | refuse _ _ hx' hnew =>
    rcases hnew with rfl | ⟨_, _, rfl⟩ <;> simp [hx']
  | attach _ _ _ hx' | claim _ _ _ _ _ hx' | bind _ _ hx' | detach _ _ hx' | uninstall _ _ _ hx'
  | job _ hx' | owner _ _ hx' | endPass _ _ hx' | skipTurn _ _ hx' | beginTurn _ _ hx'
  | endTurn _ _ hx' => simp [hx', Arbiter.bind, Arbiter.clearPending]
  | mark _ _ _ hx' => simp [hx', Arbiter.mark, hsilent Arbiter.scheduling_not_isOf]
  | request _ hx' hnew => simp [hx', Arbiter.setPending, hsilent hnew]
  | @serve _ _ _ before stage h hto =>
    have hnot : .released a ∉ before := fun hmem => by
      cases h.origin hmem (by simp [Event.isOf])
    rw [hto.closed.1, h.closed.1]
    cases stage <;> simp [Stage.events, hnot]
  | @reclaim _ _ _ stage _ _ hto =>
    rw [hto.closed.1]
    cases stage <;> simp [Stage.events, Arbiter.giveBack, Arbiter.unbind]

end

namespace Machine

variable {a : ArbiterId} {m m' : Machine} {new : List Event} {slot : SlotId} {P : Machine → Prop}

theorem Reachable.closed_iff (h : Reachable P m) :
    (m.books a).closed = true ↔ .released a ∈ m.trace := by
  refine h.deed_induction (a := a)
    (I := fun m => (m.books a).closed = true ↔ .released a ∈ m.trace) (fun w hw => ?_) ?_
  · rw [books_rest hw]
    simp [rest, default, Arbiter.create]
  · intro m m' new _ _ hdeed htrace ih
    rw [hdeed.closed_iff, htrace, ih, List.mem_append, or_comm]

/-- No slot of a closed arbiter is occupied. -/
theorem Reachable.vacant (h : Reachable P m) (hclosed : (m.books a).closed = true) :
    ∀ slot, slot ∉ (m.books a).occupied := by
  intro slot
  revert hclosed
  refine h.deed_induction (a := a)
    (I := fun m => (m.books a).closed = true → slot ∉ (m.books a).occupied) (fun w hw => ?_) ?_
  · simp [books_rest hw, default, Arbiter.create]
  · exact fun _ _ _ _ _ hdeed _ ih => hdeed.vacant ih

/-! ## Releases -/

/-- A release succeeds if no slot is occupied, and otherwise tells how many are. -/
structure Decides (a : ArbiterId) (m : Machine) : Prop where
  released : (∀ slot, slot ∉ (m.books a).occupied) → m.step.Follows (.reply .released) m.stack ∧
    m.step.books a = { m.books a with closed := true } ∧ m.step.trace = .released a :: m.trace
  inUse : ∀ slot ∈ (m.books a).occupied,
    m.step.Follows (.reply (.refused (.inUse (m.books a).occupied.toList.length))) m.stack ∧
      m.step.world = m.world ∧ m.step.trace = m.trace

theorem decides_of_call (hcall : m.control = .call (.perform (.tryRelease a)))
    (hthere : m.world.hasArbiter a = true) : m.Decides a := by
  have hstep := step_of_call hcall
  simp only [World.begin, World.perform, World.whenThere, hthere, if_true] at hstep
  constructor
  · intro hnone
    rw [hstep, World.tryRelease_of_vacant hnone]
    refine ⟨follows_follow .., ?_, rfl⟩
    rw [books_follow]
    exact m.world.arbiter_setArbiter_self (of_decide_eq_true hthere) _
  · intro slot hslot
    have hsome : (m.books a).attachedCount > 0 :=
      Nat.pos_of_ne_zero fun hzero => Arbiter.attachedCount_eq_zero.1 hzero slot hslot
    rw [hstep, World.tryRelease_eq, if_pos hsome, ← SlotSet.size_eq_length]
    exact ⟨follows_follow .., rfl, rfl⟩

/-- The arbiter is closed for good: nobody is on it, and whoever tries to get on it or off it is
turned away. -/
structure Final (a : ArbiterId) (m : Machine) : Prop where
  closed : (m.books a).closed = true
  free : (m.books a).free = .first (m.books a).capacity
  owner : (m.books a).owner = none
  attach : m.attach? = some a →
    m.step.Follows (.reply (.refused .closed)) m.stack ∧ m.step.world = m.world
  /-- An attach that is under way goes back on the slot that it claims. -/
  claim : ∀ reply c tag bind rest, m.control = .back reply → m.stack = .claim a c tag bind :: rest →
    (∃ refusal, m.step.Follows (.reply (.refused refusal)) rest) ∧ m.step.world = m.world
  bind : ∀ c tag slot, .bind a c tag slot ∉ m.stack
  detach : ∀ c, m.detach? = some (a, c) →
    m.step.Follows (.reply (.refused .notAttached)) m.stack ∧ m.step.world = m.world
  release : m.control = .call (.perform (.tryRelease a)) →
    m.step.Follows (.reply .released) m.stack

theorem Reachable.final (h : Reachable PassesAlone m) (hclosed : (m.books a).closed = true) :
    m.Final a := by
  have hvacant : ∀ slot, slot ∉ (m.books a).occupied := h.vacant hclosed
  have hsound : m.Sound a := h.sound fun _ hP => hP
  have hthere : m.world.hasArbiter a = true := by
    refine decide_eq_true (World.lt_length_of_arbiter_ne fun hdefault => ?_)
    rw [books, hdefault] at hclosed
    cases hclosed
  constructor
  case closed => exact hclosed
  case free => exact hsound.free_of_vacant hvacant
  case owner => exact hsound.owner_of_vacant hvacant
  case attach =>
    intro hattach
    obtain ⟨c, tag, lock, bind, hcall, hperform⟩ := perform_of_attach? hattach
    have hstep := step_of_call hcall
    simp only [World.begin, hperform, World.attach, hclosed, if_true] at hstep
    rw [hstep]
    exact ⟨follows_follow .., rfl⟩
  case claim =>
    intro reply c tag bind rest hback hstack
    obtain ⟨refusal, events, hclaim⟩ := World.claim_of_closed hclosed c tag bind
    rw [step_of_back hback hstack]
    simp only [World.resume, hclaim]
    exact ⟨⟨refusal, follows_follow ..⟩, world_follow ..⟩
  case bind =>
    intro c tag slot hmem
    have hframe : .bind a c tag slot ∈ m.frames a := mem_frames.2 ⟨hmem, by simp [Activation.isOf]⟩
    exact hvacant slot (hsound.books.claimed _ hframe slot rfl).1
  case detach =>
    intro c hdetach
    obtain ⟨hcall, hperform⟩ := perform_of_detach? hdetach
    have hfind : (m.world.arbiter a).find? c = none := by
      cases hfind : (m.world.arbiter a).find? c with
      | none => rfl
      | some slot => exact absurd (Arbiter.mem_occupied_of_find? hfind) (hvacant slot)
    have hstep := step_of_call hcall
    simp only [World.begin, hperform, World.detach, hfind] at hstep
    rw [hstep]
    exact ⟨follows_follow .., rfl⟩
  case release =>
    intro hcall
    exact ((decides_of_call hcall hthere).released hvacant).1

/-! ## Main result -/

/-- Nothing is done for a slot that is not occupied. -/
theorem Reachable.quiet_of_closed (h : Reachable PassesAlone m) (hgoes : Goes m m')
    (hclosed : (m.books a).closed = true) (htrace : m'.trace = new ++ m.trace) :
    (∀ slot c, .turnBegun a slot (some c) ∉ new) ∧
      ∀ s report, .reported a s report ∈ new → report = .idle := by
  have hsound : m.Sound a := h.sound fun _ hP => hP
  have hunbound : ∀ slot, (m.books a).binding slot = none := fun slot =>
    Classical.byContradiction fun hbound =>
      h.vacant hclosed slot (hsound.books.occupied slot hbound)
  refine ⟨fun slot c hturn => ?_, fun s report hreported => ?_⟩
  · obtain ⟨older, hdeed, holder⟩ := hgoes.deed (a := a) h.placed
    obtain rfl := List.append_cancel_right (htrace.symm.trans holder)
    obtain ⟨_, hclient⟩ := hdeed.origin hturn (by simp [Event.isOf])
    exact Arbiter.binding_ne_none_of_client? hclient (hunbound slot)
  · have hcall := hgoes.reported htrace hreported
    cases htag : report.tag? with
    | none =>
      cases report with
      | idle => rfl
      | _ => cases htag
    | some tag =>
      obtain ⟨slot, hbound⟩ := h.tag_of_report hcall htag
      simp [Arbiter.tag?, hunbound slot] at hbound

/-- A release and an attach never both win, and a release is final: it succeeds only while no slot
is occupied, no slot of a closed arbiter is ever occupied again, and nobody who comes later gets on
the arbiter, is given a turn by it or is reported about. -/
theorem release_is_final (hm : Reachable PassesAlone m) (a : ArbiterId) :
    (m.control = .call (.perform (.tryRelease a)) → m.world.hasArbiter a = true → m.Decides a) ∧
    ((m.books a).closed = true → (∀ slot, slot ∉ (m.books a).occupied) ∧ (m.books a).owner = none) ∧
    (.released a ∈ m.trace → ∀ m' new, Run PassesAlone m m' → m'.trace = new ++ m.trace →
      m'.Final a ∧ (∀ slot c, .turnBegun a slot (some c) ∉ new) ∧
        ∀ s report, .reported a s report ∈ new → report = .idle) := by
  refine ⟨decides_of_call, fun hclosed => ⟨hm.vacant hclosed, (hm.final hclosed).owner⟩, ?_⟩
  intro hreleased m' new hrun htrace
  have hlater : ∀ {m₁ : Machine}, Run PassesAlone m m₁ → (m₁.books a).closed = true := by
    intro m₁ hrun
    obtain ⟨newer, hnewer⟩ := hrun.trace
    exact (hm.run hrun).closed_iff.2 (hnewer ▸ List.mem_append_right _ hreleased)
  refine ⟨(hm.run hrun).final (hlater hrun), ?_⟩
  induction hrun generalizing new with
  | refl _ =>
    obtain rfl : new = [] := List.append_left_eq_self.1 htrace.symm
    simp
  | @next m₁ m₂ hrun hgoes _ ih =>
    obtain ⟨older, holder⟩ := hrun.trace
    obtain ⟨newer, hnewer⟩ := hgoes.trace
    obtain rfl : new = newer ++ older := by
      rw [hnewer, holder, ← List.append_assoc] at htrace
      exact (List.append_cancel_right htrace).symm
    obtain ⟨hturns, hreports⟩ := ih older holder
    obtain ⟨hturn, hreport⟩ := (hm.run hrun).quiet_of_closed hgoes (hlater hrun) hnewer
    refine ⟨fun slot c hmem => ?_, fun s report hmem => ?_⟩
    · exact (List.mem_append.1 hmem).elim (hturn slot c) (hturns slot c)
    · exact (List.mem_append.1 hmem).elim (hreport s report) (hreports s report)

/-- The arbiter is released in the race of an attach. The attach goes on to claim a slot and gives
it back. -/
theorem release_is_final_overtaking :
    let actions : List Action := [.build 0 0 none, .attach 0 0 ⟨7⟩ (some [.tryRelease 0]) none]
    let released := play 7 actions (rest .playground)
    let overtaken := play 2 [] released
    Reachable PassesAlone released ∧ Run PassesAlone released overtaken ∧
      .released 0 ∈ released.trace ∧ overtaken.stack = [.claim 0 0 ⟨7⟩ none] ∧
      (∃ refusal, overtaken.step.Follows (.reply (.refused refusal)) []) ∧
      overtaken.step.world = overtaken.world ∧
      (overtaken.books 0).free = .first (overtaken.books 0).capacity := by
  intro actions released overtaken
  have hreached : Reachable PassesAlone released :=
    .of_plays World.isInitial_playground 7 actions (by decide +kernel)
  have hrun : Run PassesAlone released overtaken := .of_plays (by decide +kernel)
  have hreleased : .released 0 ∈ released.trace := by decide +kernel
  have hback : overtaken.control = .back .nothing := by rfl
  have hstack : overtaken.stack = [.claim 0 0 ⟨7⟩ none] := by rfl
  obtain ⟨new, htrace⟩ := hrun.trace
  obtain ⟨hfinal, _⟩ := (release_is_final hreached 0).2.2 hreleased overtaken new hrun htrace
  obtain ⟨hrefused, hworld⟩ := hfinal.claim _ _ _ _ _ hback hstack
  exact ⟨hreached, hrun, hreleased, hstack, hrefused, hworld, hfinal.free⟩

end Machine

end SharedBus
