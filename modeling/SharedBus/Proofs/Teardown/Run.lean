import SharedBus.Proofs.Reservation
import SharedBus.Proofs.Teardown.Closing
import SharedBus.Proofs.Teardown.Detach

/-! # Detaching all clients at once

At rest every occupied slot is bound to a client of its own, so whoever detaches the clients of all
settled slots, at once or one by one, marks just these slots. Nobody is left who is not on its way
out, and a pass is queued that will see to it.
-/
namespace SharedBus

/-! ## Books in which every occupied slot has a client of its own -/

namespace Arbiter

structure Seated (x : Arbiter) : Prop where
  bound : ∀ slot ∈ x.occupied, ∃ c, x.client? slot = some c
  occupied : ∀ slot c, x.client? slot = some c → slot ∈ x.occupied
  single : ∀ slot other c, x.client? slot = some c → x.client? other = some c → slot = other
  detaching : ∀ slot ∈ x.detaching, slot ∈ x.occupied

/-- These are the clients of the settled slots, in some order and some of them perhaps more than
once. -/
def Settles (x : Arbiter) (clients : List ClientId) : Prop :=
  ∀ c, c ∈ clients ↔ ∃ slot ∈ x.settled, x.client? slot = some c

/-- Every occupied slot is marked, and a pass is queued for those that were not. -/
def dismissed (x : Arbiter) : Arbiter :=
  { x with detaching := x.occupied, queued := x.queued || !x.settled.isEmpty }

variable {x : Arbiter} {slot : SlotId} {c : ClientId} {clients : List ClientId}

theorem mem_settled : slot ∈ x.settled ↔ slot ∈ x.occupied ∧ slot ∉ x.detaching :=
  SlotSet.mem_sdiff

theorem settles_filterMap (x : Arbiter) : x.Settles (x.settled.toList.filterMap x.client?) := by
  intro c
  simp only [List.mem_filterMap, SlotSet.mem_toList]

namespace Seated

/-- A client is found in its own slot. -/
theorem find? (h : x.Seated) (hclient : x.client? slot = some c) : x.find? c = some slot := by
  cases hfind : x.find? c with
  | none => exact absurd hclient (client?_ne_of_find? hfind (h.occupied slot c hclient))
  | some other => rw [h.single other slot c (client?_of_find? hfind) hclient]

/-- The clients of the settled slots are found in these. -/
theorem ofList_find? (h : x.Seated) (hclients : x.Settles clients) :
    .ofList (clients.filterMap x.find?) = x.settled := by
  refine SlotSet.ext fun slot => ?_
  rw [SlotSet.mem_ofList, List.mem_filterMap]
  constructor
  · rintro ⟨c, hc, hfind⟩
    obtain ⟨other, hother, hclient⟩ := (hclients c).1 hc
    obtain rfl := Option.some.inj ((h.find? hclient).symm.trans hfind)
    exact hother
  · intro hslot
    obtain ⟨c, hclient⟩ := h.bound slot (mem_settled.1 hslot).1
    exact ⟨c, (hclients c).2 ⟨slot, hslot, hclient⟩, h.find? hclient⟩

theorem union_settled (h : x.Seated) : x.detaching ∪ x.settled = x.occupied := by
  refine SlotSet.ext fun slot => ?_
  rw [SlotSet.mem_union, mem_settled]
  refine ⟨fun hslot => hslot.elim (h.detaching slot) And.left, fun hslot => ?_⟩
  by_cases hmarked : slot ∈ x.detaching
  · exact .inl hmarked
  · exact .inr ⟨hslot, hmarked⟩

end Seated

end Arbiter

/-! ## What is left of the world -/

namespace World

variable {w : World} {a : ArbiterId} {clients : List ClientId}

/-- The world in which these clients were detached, and with them all settled slots marked. -/
def dismissing (w : World) (a : ArbiterId) (clients : List ClientId) : World :=
  { w.leaving a (w.arbiter a).settled with clients := strip w.clients clients }

section
variable (ha : w.hasArbiter a) (hseated : (w.arbiter a).Seated)
  (h : ∀ slot c, (w.arbiter a).client? slot = some c → w.Detachable a c)
include ha hseated h

/-- It does not matter in which order and how often the clients are detached. -/
theorem actAll_settles (hclients : (w.arbiter a).Settles clients) :
    (w.actAll (clients.map (.detach a))).1 = w.dismissing a clients := by
  rw [actAll_detach ha fun c hc => ?_, hseated.ofList_find? hclients]
  · rfl
  · obtain ⟨slot, _, hclient⟩ := (hclients c).1 hc
    exact h slot c hclient

theorem act_detachAll : ∃ events, w.act (.detachAll a) =
    ⟨w.dismissing a ((w.arbiter a).settled.toList.filterMap (w.arbiter a).client?),
      .count (w.arbiter a).settled.size, events⟩ := by
  obtain ⟨events, hends⟩ := ends_detachSlots ha 0 fun slot hslot => by
    obtain ⟨c, hclient⟩ :=
      hseated.bound slot (Arbiter.mem_settled.1 (SlotSet.mem_toList.1 hslot)).1
    exact ⟨c, hclient, h slot c hclient⟩
  have hperform : w.perform (.detachAll a) =
      w.detachSlots a 0 (w.arbiter a).settled.toList := if_pos ha
  rw [← hperform, actAll_settles ha hseated h (w.arbiter a).settles_filterMap, Nat.zero_add,
    ← SlotSet.size_eq_length] at hends
  exact ⟨events, act_of_ends hends⟩

end

theorem arbiter_dismissing (ha : a < w.arbiters.length) (hseated : (w.arbiter a).Seated) :
    (w.dismissing a clients).arbiter a = (w.arbiter a).dismissed := by
  rw [Arbiter.dismissed, ← hseated.union_settled]
  exact arbiter_leaving ha _

theorem queues_dismissing (clients : List ClientId) : (w.dismissing a clients).queues =
    if (w.arbiter a).settled.isEmpty || (w.arbiter a).queued then w.queues
    else w.queues.set (w.arbiter a).queue ((w.queue (w.arbiter a).queue).push (.pass a)) := by
  unfold dismissing leaving
  split <;> simp [*]

/-- No pass is queued if one is queued already. -/
theorem count_dismissing_le (clients : List ClientId) (q : QueueId) :
    ((w.dismissing a clients).queue q).entries.count (.pass a) ≤
      (w.queue q).entries.count (.pass a) + (!(w.arbiter a).queued).toNat := by
  have hqueues := w.queues_dismissing (a := a) clients
  split at hqueues
  · rw [queue_of_queues hqueues]
    exact Nat.le_add_right ..
  · rename_i hneither
    rcases queue_of_set_cases hqueues q with hsame | ⟨rfl, hpushed⟩
    · exact hsame ▸ Nat.le_add_right ..
    · have hunqueued : (w.arbiter a).queued = false := by
        cases hqueued : (w.arbiter a).queued with
        | true => simp [hqueued] at hneither
        | false => rfl
      rw [hpushed, WorkQueue.count_push, hunqueued]
      exact Nat.add_le_add_left (Bool.toNat_le _) _

/-- Whoever is detached holds no handle any more. -/
theorem held_dismissing {c : ClientId} {kind : HandleKind} (hthere : w.hasClient c)
    (hc : c ∈ clients) (hheld : w.receives c kind = false → w.held c kind = none) :
    (w.dismissing a clients).held c kind = none := by
  refine get_handles_strip (of_decide_eq_true hthere) ?_
  cases htakes : (w.client c).takes kind with
  | true => exact .inl ⟨hc, htakes⟩
  | false => exact .inr (hheld (by simp [receives, htakes]))

end World

/-! ## Runs -/

namespace Machine

variable {a : ArbiterId} {m : Machine} {slot : SlotId} {c : ClientId}

section
variable (hm : Reachable (fun m => m.PassesAlone ∧ m.AttachesApart) m) (hfin : m.isFinished)
include hm hfin

theorem Reachable.sound_of_isFinished : SharedBus.Sound a False (m.books a) [] := by
  obtain ⟨_, hstack⟩ := isFinished_iff.1 hfin
  have hsweeping : ¬ m.Sweeping a := by
    rintro ⟨⟨_, _, hsome⟩, _⟩
    cases hstack.symm.trans hsome
  have hframes : m.frames a = [] := by
    rw [frames, hstack]
    rfl
  exact hframes ▸ (hm.sound fun _ h => h.1).strict hsweeping

theorem Reachable.seated : (m.books a).Seated := by
  have hsound := hm.sound_of_isFinished hfin (a := a)
  constructor
  case bound =>
    intro slot hslot
    have hbound := (hsound.bound slot hslot).resolve_right fun ⟨_, hf, _⟩ => List.not_mem_nil hf
    exact Option.ne_none_iff_exists'.1 (mt Arbiter.client?_eq_none.1 hbound)
  case occupied =>
    exact fun slot c hclient => hsound.occupied slot (Arbiter.binding_ne_none_of_client? hclient)
  case single => exact (hm.single fun _ h => h).client
  case detaching =>
    intro slot hslot
    exact hsound.occupied slot ((hsound.detaching slot hslot).resolve_right fun h => h.1)

theorem Reachable.detachable (hstill : ∀ client ∈ m.world.clients, client.IsStill)
    (hclient : (m.books a).client? slot = some c) : m.world.Detachable a c where
  there := hm.peopled.client slot c hclient
  still := by
    have hlt : c < m.world.clients.length := of_decide_eq_true (hm.peopled.client slot c hclient)
    exact hstill _ (by simp [World.client, hlt])
  found := ⟨slot, (hm.seated hfin).find? hclient⟩

/-- All that is left to do for an arbiter from which all clients were detached is to give the slots
back. -/
theorem Reachable.closing {m' : Machine} (hstack : m'.stack = [])
    (hbooks : m'.books a = (m.books a).dismissed) : m'.Closing a [] := by
  have hseated : (m.books a).Seated := hm.seated hfin
  have hmarked : SharedBus.Sound a False
      { m.books a with detaching := (m.books a).occupied } [] :=
    { hm.sound_of_isFinished hfin with
      detaching := fun slot hslot => by
        obtain ⟨c, hclient⟩ := hseated.bound slot hslot
        exact .inl (Arbiter.binding_ne_none_of_client? hclient) }
  have hsound : SharedBus.Sound a (m'.Sweeping a) (m'.books a) [] := by
    rw [hbooks]
    refine SharedBus.Sound.mono (?_ : SharedBus.Sound a False _ []) False.elim
    exact hmarked.congr rfl rfl (fun _ h => h) rfl rfl
  constructor
  case sound =>
    refine ⟨?_, fun _ _ _ _ _ _ hsome => ?_, fun _ _ _ _ hsome => ?_⟩
    · rw [frames, hstack]
      exact hsound
    · cases hstack.symm.trans hsome
    · cases hstack.symm.trans hsome
  case shut => simp [Shut, hstack]
  case gone =>
    intro c slot hclient
    rw [hbooks] at hclient
    refine .inl ?_
    rw [hbooks]
    exact hseated.occupied slot c hclient
  case clearing => exact .whole (by simp) (by simp [hstack])

end

/-- Where passes are queued by their arbiters only, none comes to wait twice. -/
theorem Reachable.count_dismissing_le_one (hm : Reachable (fun m => m.forced? = none) m)
    (hfin : m.isFinished) (ha : a < m.world.arbiters.length) (clients : List ClientId) :
    ((m.world.dismissing a clients).queue (m.books a).queue).entries.count (.pass a) ≤ 1 := by
  obtain ⟨⟨reply, hback⟩, _⟩ := isFinished_iff.1 hfin
  have hflagged := hm.flagged (fun _ h => h) a ha
  rw [count_jobs (by simp [job?_of_back hback])] at hflagged
  calc _ ≤ (m.world.queue (m.books a).queue).entries.count (.pass a) +
        (!(m.books a).queued).toNat := World.count_dismissing_le clients _
    _ ≤ (m.books a).queued.toNat + (!(m.books a).queued).toNat := Nat.add_le_add_right hflagged _
    _ = 1 := by cases (m.books a).queued <;> rfl

/-- An action that is performed at rest has come to its end when the run of it has. -/
theorem run_perform (m : Machine) (action : Action) : (m.perform action).run =
    ⟨(m.world.act action).world, .back (m.world.act action).reply, [],
      (m.world.act action).events.reverse ++ m.trace⟩ := by
  obtain ⟨n, hafter⟩ := after_perform (m := m.perform action) rfl
  exact (after_eq_of_isFinished (isFinished_run _) (by rw [hafter]; rfl)).trans hafter

/-- What it means to detach all clients from an arbiter; `m` is the machine before it and `m'` the
machine after it. -/
structure Dismisses (a : ArbiterId) (m m' : Machine) : Prop where
  reply : m'.reply? = some (.count (m.books a).settled.size)
  /-- Every occupied slot is on its way out. -/
  books : m'.books a = (m.books a).dismissed
  handles : ∀ slot ∈ (m.books a).settled, ∀ c, (m.books a).client? slot = some c →
    ∀ kind, m'.world.held c kind = none
  /-- One pass waits that will give the slots back. -/
  waiting : Reachable (fun m => m.forced? = none) m → m'.Undropped a →
    0 < (m.books a).settled.size →
      (m'.world.queue (m'.books a).queue).entries.count (.pass a) = 1
  again : m'.world.act (.detachAll a) = ⟨m'.world, .count 0, []⟩
  /-- The clients may be detached one by one as well, in any order and more than once. -/
  each : ∀ clients, (m.books a).Settles clients →
    (m.world.actAll (clients.map (.detach a))).1.arbiters = m'.world.arbiters ∧
      (m.world.actAll (clients.map (.detach a))).1.queues = m'.world.queues
  closes : m'.Closes (Winding a) a
  closes_unattended : m'.Closes (Unattended a) a

/-! ## Main result -/

/-- To detach all clients at rest marks every occupied slot, takes all handles back and leaves one
pass to wait, as detaching them one by one does. The first pass after it that leaves the bus idle
gives back all slots, and the arbiter can be released. -/
theorem teardown_completes (hm : Reachable (fun m => m.PassesAlone ∧ m.AttachesApart) m)
    (hfin : m.isFinished) (hstill : ∀ client ∈ m.world.clients, client.IsStill)
    (hthere : m.world.hasArbiter a) : m.Dismisses a (m.perform (.detachAll a)).run := by
  have hseated : (m.books a).Seated := hm.seated hfin
  have hlt : a < m.world.arbiters.length := of_decide_eq_true hthere
  have hdetachable : ∀ slot c, (m.books a).client? slot = some c → m.world.Detachable a c :=
    fun slot c => hm.detachable hfin hstill
  obtain ⟨events, hact⟩ := World.act_detachAll hthere hseated hdetachable
  have hleads : Run Anyhow m (m.perform (.detachAll a)).run :=
    (Run.next (.refl trivial) (.act hfin _) trivial).trans (.after _ _)
  have hrun : (m.perform (.detachAll a)).run = ⟨(m.world.act (.detachAll a)).world,
      .back (m.world.act (.detachAll a)).reply, [],
      (m.world.act (.detachAll a)).events.reverse ++ m.trace⟩ := run_perform m _
  rw [hact] at hrun
  generalize (m.perform (.detachAll a)).run = m' at hleads hrun ⊢
  have hworld : m'.world = m.world.dismissing a
      ((m.books a).settled.toList.filterMap (m.books a).client?) := by rw [hrun]
  have hback : m'.control = .back (.count (m.books a).settled.size) := by rw [hrun]
  have hstack : m'.stack = [] := by rw [hrun]
  have hbooks : m'.books a = (m.books a).dismissed := by
    rw [books, hworld]
    exact World.arbiter_dismissing hlt hseated
  have hreach : Reachable Anyhow m' := hm.anyhow.run hleads
  have hthere' : m'.world.hasArbiter a := hleads.hasArbiter hthere
  have hclosing : m'.Closing a [] := hm.closing hfin hstack hbooks
  constructor
  case reply => simp [reply?, hback, hstack]
  case books => exact hbooks
  case handles =>
    intro slot hslot c hclient kind
    rw [hworld]
    refine World.held_dismissing (hdetachable slot c hclient).there ?_ hm.held_eq_none
    exact ((m.books a).settles_filterMap c).2 ⟨slot, hslot, hclient⟩
  case waiting =>
    intro hunforced hundropped hpos
    have hsome : (m.books a).settled.isEmpty = false := by
      refine Bool.eq_false_iff.2 fun hnone => ?_
      rw [SlotSet.size_eq_length, SlotSet.toList_eq_nil.2 hnone] at hpos
      cases hpos
    have hqueued : (m'.books a).queued = true := by simp [hbooks, Arbiter.dismissed, hsome]
    have hmem : m'.Waiting a :=
      (hreach.posted hundropped hqueued).resolve_right fun hcall => by cases hback.symm.trans hcall
    refine Nat.le_antisymm ?_ (List.count_pos_iff.2 hmem)
    rw [hbooks, hworld]
    exact hunforced.count_dismissing_le_one hfin hlt _
  case again =>
    have hnone : (m'.books a).settled.toList = [] := by
      refine SlotSet.toList_eq_nil.2 (SlotSet.isEmpty_iff.2 fun slot hslot => ?_)
      rw [hbooks, Arbiter.mem_settled] at hslot
      exact hslot.2 hslot.1
    have hends : (m'.world.detachSlots a 0 []).Ends ⟨m'.world, .count 0, []⟩ := .reply ..
    have hperform : m'.world.perform (.detachAll a) =
        m'.world.detachSlots a 0 (m'.books a).settled.toList := if_pos hthere'
    rw [← hnone, ← hperform] at hends
    exact World.act_of_ends hends
  case each =>
    intro clients hclients
    rw [World.actAll_settles hthere hseated hdetachable hclients, hworld]
    exact ⟨rfl, rfl⟩
  case closes => exact hclosing.closes hreach hthere' fun _ h => h.holds
  case closes_unattended =>
    refine hclosing.closes hreach hthere' fun _ h => h.winding ?_ hreach
    exact isFinished_iff.2 ⟨⟨_, hback⟩, hstack⟩

/-- The first client asks for the bus and keeps it for a turn, while both clients are detached. The
pass that gives it the bus gives nothing back. The next one does. -/
theorem teardown_completes_kept :
    let m := play 40 [.build 0 0 (some 2), .attach 0 0 ⟨7⟩ none none, .attach 0 1 ⟨8⟩ none none,
      .notify 0] (rest .playground)
    let m' := (m.perform (.detachAll 0)).run
    let kept := play 10 [.runPending 0] m'
    let ending := play 14 [.dispatch 0 none] kept
    m'.reply? = some (.count 2) ∧ (m'.world.queue 0).entries.count (.pass 0) = 1 ∧
      (kept.books 0).owner = some 1 ∧
      (∀ since, kept.trace = since ++ m'.trace → ∀ slot, .freed 0 slot ∉ since) ∧
      ending.step.trace = .passEnded 0 :: ending.trace ∧ ending.step.Vacated 0 ∧
      (ending.step.world.act (.tryRelease 0)).reply = .released := by
  intro m m' kept ending
  have hm : Reachable (fun m => m.PassesAlone ∧ m.AttachesApart) m :=
    .of_plays World.isInitial_playground 40 _ (by decide +kernel)
  have hunforced : Reachable (fun m => m.forced? = none) m :=
    .of_plays World.isInitial_playground 40 _ (by decide +kernel)
  have hstill : ∀ client ∈ m.world.clients, client.IsStill := by
    have hhooks : ∀ client ∈ m.world.clients, ∀ kind ∈ [HandleKind.notifier, .completion, .error],
        (client.hook kind).isEmpty := by decide +kernel
    intro client hclient kind
    simp [List.isEmpty_iff.1 (hhooks client hclient kind (by cases kind <;> decide))]
  have h : m.Dismisses 0 m' :=
    teardown_completes hm (by decide +kernel) hstill (by decide +kernel)
  have hkept : Run (Unattended 0) m' kept := .of_plays (by decide +kernel)
  have hending : Run (Unattended 0) kept ending := .of_plays (by decide +kernel)
  have htrace : ending.step.trace = .passEnded 0 :: ending.trace := by decide +kernel
  have hend : Run (Unattended 0) ending.step ending.step := .refl (by decide +kernel)
  obtain ⟨hvacated, hreleased⟩ := h.closes_unattended.vacated ending ending.step ending.step
    [.passEnded 0] (hkept.trans hending) (.step (by decide +kernel)) htrace
    List.mem_cons_self (by decide +kernel) hend
  have hsize : (m.books 0).settled.size = 2 := by decide +kernel
  have hqueue : (m'.books 0).queue = 0 := by decide +kernel
  have howner : (kept.books 0).owner = some 1 := by decide +kernel
  have hundropped : .queued (m'.books 0).queue (.pass 0) false ∉ m'.trace := by decide +kernel
  have hwaiting := h.waiting hunforced hundropped (by simp [hsize])
  rw [hqueue] at hwaiting
  exact ⟨hsize ▸ h.reply, hwaiting, howner, fun since hsince =>
    h.closes_unattended.kept kept since hkept hsince (by simp [howner]), htrace, hvacated,
    hreleased⟩

end Machine

end SharedBus
