import SharedBus.Proofs.Consistency
import SharedBus.Proofs.Departure
import SharedBus.Proofs.Errand.Holding

/-! # Whose handles the clients hold

A handle that a client holds names a slot that is bound to it and not on its way out. An attach
binds the slot before it gives out any handle, and a detach marks the slot only when it has taken
back all of them. What would break this is a detach that runs while an attach of the same client
still has handles to give.
-/
namespace SharedBus

open Machine

/-! ## Custody -/

namespace Machine

variable {a : ArbiterId} {m m' : Machine} {c : ClientId} {slot : SlotId} {new : List Event}

/-- The slot is bound to the client and not on its way out. -/
def Owns (a : ArbiterId) (c : ClientId) (slot : SlotId) (m : Machine) : Prop :=
  (m.books a).client? slot = some c ∧ ¬ m.Leaving a slot

/-- The client holds a handle of the slot, or an attach is giving it handles of the slot. -/
def Given (a : ArbiterId) (c : ClientId) (slot : SlotId) (m : Machine) : Prop :=
  (∃ kind, m.world.held c kind = some ⟨a, slot⟩) ∨ ∃ kind, .install a c slot kind ∈ m.stack

/-- Clients are given handles of their own slots only. -/
structure Custody (a : ArbiterId) (m : Machine) : Prop where
  owns : ∀ c slot, m.Given a c slot → m.Owns a c slot
  granting : ∀ c slot kind, m.install? = some (c, kind, some ⟨a, slot⟩) →
    .install a c slot kind ∈ m.stack
  /-- A detach has taken back the handles up to the one that it is about to take back. -/
  cleared : ∀ c slot kind, .uninstall a c slot kind ∈ m.stack → ∀ other slot',
    kind.left ≤ other.left → (m.install? = some (c, kind, none) → other ≠ kind) →
      m.world.held c other ≠ some ⟨a, slot'⟩
  apart : ∀ c slot kind slot' kind', .install a c slot kind ∈ m.stack →
    .uninstall a c slot' kind' ∉ m.stack

/-- A slot is lost only by a detach of its client. -/
theorem Owns.of_deed (hm : m.Owns a c slot) (hdeed : Deed a m m' new) (hsound : m.Sound a) :
    m'.Owns a c slot ∨ .marked a slot c ∈ new := by
  obtain ⟨hclient, hleaving⟩ := hm
  by_cases hmarked : .marked a slot c ∈ new
  · exact .inr hmarked
  · refine .inl ⟨?_, fun hleaving' => ?_⟩
    · rcases hdeed.binding slot with hsame | ⟨b, hbound, _⟩ | ⟨hfreed, _⟩
      · rw [Arbiter.client?, hsame]
        exact hclient
      · exact absurd hbound (hsound.not_bound hdeed hclient b)
      · obtain ⟨_, _, hstack, _⟩ := hdeed.origin hfreed (by simp [Event.isOf])
        exact absurd (.inr (hstack ▸ List.mem_cons_self)) hleaving
    · rcases hleaving'.of_deed hdeed with hold | ⟨c', hmarked'⟩
      · exact hleaving hold
      · obtain rfl : c' = c :=
          Option.some.inj ((hsound.client?_of_marked hdeed hmarked').symm.trans hclient)
        exact hmarked hmarked'

/-- A detach marks the slot when the client has no handle of the arbiter any more, and is not about
to be given one. -/
theorem Custody.not_marked (hm : m.Custody a) (hdeed : Deed a m m' new)
    (h : m.Given a c slot) : .marked a slot c ∉ new := by
  intro hmarked
  obtain ⟨reply, last, rest, hback, hstack, hlast, _⟩ := hdeed.origin hmarked (by simp [Event.isOf])
  have hmem : .uninstall a c slot last ∈ m.stack := hstack ▸ List.mem_cons_self
  rcases h with ⟨kind, hheld⟩ | ⟨kind, hinstall⟩
  · refine hm.cleared c slot last hmem kind slot ?_ ?_ hheld
    · rw [HandleKind.left_eq_zero hlast]
      exact Nat.zero_le _
    · simp [install?_of_back hback]
  · exact hm.apart c slot kind slot last hinstall hmem

end Machine

/-- An attach comes to own the slot that it binds. -/
theorem Deed.owns_of_bind {a : ArbiterId} {m m' : Machine} {new : List Event}
    (h : Deed a m m' new) (hsound : m.Sound a) {reply : Reply} {c : ClientId} {tag : Tag}
    {slot : SlotId} {rest : List Activation} (hback : m.control = .back reply)
    (hstack : m.stack = .bind a c tag slot :: rest) : m'.Owns a c slot := by
  have hframe := mem_frames_of_stack (a := a) hstack (by simp [Activation.isOf])
  have hunbound := (hsound.books.claimed _ hframe slot rfl).2
  refine ⟨?_, fun hleaving => ?_⟩
  · rw [Arbiter.client?, h.books_of_bind hback hstack, Arbiter.binding_bind, if_pos rfl]
    rfl
  · rcases hleaving.of_deed h with hold | ⟨d, hmarked⟩
    · exact hsound.binding_of_leaving (not_sweeping_of_stack hstack (by simp)) hold hunbound
    · obtain ⟨_, _, _, _, hother, _⟩ := h.origin hmarked (by simp [Event.isOf])
      cases (List.cons.inj (hstack.symm.trans hother)).1

section
variable {m m' : Machine} {a : ArbiterId} {c : ClientId} {slot : SlotId} (h : Handover m m')
  (hm : m.Custody a)
include h hm

/-- What a client is given it was given before, unless an attach has just bound the slot to it. -/
theorem Handover.given (hgiven : m'.Given a c slot) : m.Given a c slot ∨ ∃ reply tag rest,
    m.control = .back reply ∧ m.stack = .bind a c tag slot :: rest := by
  rcases hgiven with ⟨kind, hheld⟩ | ⟨kind, hmem⟩
  · rcases h.held c kind with ⟨hsame, _⟩ | ⟨handle, hinstall, _, hhanded⟩
    · exact .inl (.inl ⟨kind, hsame ▸ hheld⟩)
    · obtain rfl := hhanded.symm.trans hheld
      exact .inl (.inr ⟨kind, hm.granting c slot kind hinstall⟩)
  · exact (h.install_pushed hmem).imp_left .inr

theorem Handover.custody_owns {new : List Event} (hdeed : Deed a m m' new) (hsound : m.Sound a)
    (hgiven : m'.Given a c slot) : m'.Owns a c slot := by
  rcases h.given hm hgiven with hold | ⟨reply, tag, rest, hback, hstack⟩
  · apply ((hm.owns c slot hold).of_deed hdeed hsound).resolve_right
    exact hm.not_marked hdeed hold
  · exact hdeed.owns_of_bind hsound hback hstack

theorem Handover.custody_cleared {kind other : HandleKind} {slot' : SlotId}
    (hreceives : ∀ kind, m.world.receives c kind = false → m.world.held c kind = Option.none)
    (hmem : .uninstall a c slot kind ∈ m'.stack) (hle : kind.left ≤ other.left)
    (hnot : m'.install? = some (c, kind, Option.none) → other ≠ kind) :
    m'.world.held c other ≠ some ⟨a, slot'⟩ := by
  intro hheld
  rcases h.uninstall_pushed hmem with hold | ⟨hnext, hnow, hfirst⟩
  · rcases h.held c other with ⟨hsame, hrefused⟩ | ⟨handle, hinstall, _, hhanded⟩
    · rw [hsame] at hheld
      refine hm.cleared c slot kind hold other slot' hle (fun hinstall heq => ?_) hheld
      subst heq
      rw [hreceives other (hrefused _ hinstall)] at hheld
      cases hheld
    · obtain rfl := hhanded.symm.trans hheld
      exact hm.apart c slot' other slot kind (hm.granting c slot' other hinstall) hold
  · have hkind := hnot hnext
    have hsame : m'.world.held c other = m.world.held c other := by
      rcases h.held c other with ⟨hsame, _⟩ | ⟨handle, hinstall, _⟩
      · exact hsame
      · cases hnow.symm.trans hinstall
    rcases hfirst with ⟨rfl, _⟩ | ⟨last, hlast, hkinds⟩
    · exact hkind (HandleKind.eq_of_left_eq (Nat.le_antisymm other.left_le_two hle))
    · rw [hsame] at hheld
      refine hm.cleared c slot last hlast other slot' ?_ (by simp [hnow]) hheld
      have hne : other.left ≠ kind.left := fun heq => hkind (HandleKind.eq_of_left_eq heq)
      have hlast := HandleKind.left_of_next? hkinds
      omega

theorem Handover.custody_apart (hsingle : m.Single a) (hsound : m.Sound a)
    (hgrants : m.GrantsApart) {kind kind' : HandleKind} {slot' : SlotId}
    (hinstall : .install a c slot kind ∈ m'.stack) : .uninstall a c slot' kind' ∉ m'.stack := by
  intro huninstall
  have hdetaches : m.detach? = some (a, c) ∨ ∃ kind, .uninstall a c slot' kind ∈ m.stack := by
    rcases h.uninstall_pushed huninstall with hold | ⟨_, _, ⟨_, hdetach⟩ | ⟨last, hlast, _⟩⟩
    · exact .inr ⟨kind', hold⟩
    · exact .inl hdetach
    · exact .inr ⟨last, hlast⟩
  rcases h.install_pushed hinstall with ⟨kind₀, hold⟩ | ⟨reply, tag, rest, hback, hstack⟩
  · rcases hdetaches with hdetach | ⟨last, hlast⟩
    · have hnot := hgrants _ hdetach _ hold
      simp [Activation.isInstall] at hnot
    · exact hm.apart c slot kind₀ slot' last hold hlast
  · rcases hdetaches with hdetach | ⟨last, hlast⟩
    · unfold detach? at hdetach
      rw [hback] at hdetach
      cases hdetach
    · -- a detach that is under way has found its client bound, and no attach binds that again
      have hclient := hsound.client?_of_uninstall hlast
      exact hsingle.unbound c tag slot (hstack ▸ List.mem_cons_self) slot' hclient

end

/-! ## Departed clients -/

/-- A detach of the client is complete, and the client has not been bound again since. -/
def Departed (a : ArbiterId) (c : ClientId) (trace : List Event) : Prop :=
  ∃ newer older slot, trace = newer ++ .marked a slot c :: older ∧
    ∀ other tag, .bound a other ⟨c, tag⟩ ∉ newer

theorem Departed.of_append {a : ArbiterId} {c : ClientId} {trace new : List Event}
    (h : Departed a c (new ++ trace)) :
    (Departed a c trace ∧ ∀ other tag, .bound a other ⟨c, tag⟩ ∉ new) ∨
      ∃ slot, .marked a slot c ∈ new := by
  obtain ⟨newer, older, slot, htrace, hnewer⟩ := h
  rcases List.append_eq_append_iff.1 htrace with ⟨between, rfl, hrest⟩ | ⟨between, rfl, hrest⟩
  · refine .inl ⟨⟨between, older, slot, hrest, fun other tag hmem => ?_⟩, fun other tag hmem => ?_⟩
    · exact hnewer other tag (List.mem_append_right _ hmem)
    · exact hnewer other tag (List.mem_append_left _ hmem)
  · cases between with
    | nil =>
      rw [List.append_nil]
      exact .inl ⟨⟨[], older, slot, hrest.symm, by simp⟩, hnewer⟩
    | cons e between =>
      obtain ⟨rfl, _⟩ := List.cons.inj hrest
      exact .inr ⟨slot, by simp⟩

section
variable {x y : Arbiter} {stage : Stage} {slot : SlotId}

/-- A pass withdraws only the slot that it is about to free. -/
theorem Arbiter.ReclaimsTo.kept (h : x.ReclaimsTo y stage) (hslot : slot ∈ x.detaching) :
    slot ∈ y.detaching ∨ stage = .reclaim slot := by
  cases h with
  | @reclaim other =>
    by_cases hother : slot = other
    · exact .inr (by rw [hother])
    · exact .inl (SlotSet.mem_erase.2 ⟨hslot, hother⟩)
  | idle | ended => exact .inl hslot

theorem Arbiter.ServesTo.kept (h : x.ServesTo y stage) (hslot : slot ∈ x.detaching) :
    slot ∈ y.detaching ∨ stage = .reclaim slot := by
  cases h with
  | ended | turn => exact .inl hslot
  | reclaim _ _ h => exact h.kept hslot

end

/-- A slot that is freed is free and not bound. -/
theorem Deed.vacated {a : ArbiterId} {m m' : Machine} {slot : SlotId} {new : List Event}
    (h : Deed a m m' new) (hfreed : .freed a slot ∈ new) :
    slot ∈ (m'.books a).free ∧ (m'.books a).binding slot = none := by
  cases h with
  | quiet _ hnew => simpa [Event.isOf] using hnew _ hfreed
  | refuse _ _ _ hnew => rcases hnew with rfl | ⟨_, _, rfl⟩ <;> simp at hfreed
  | mark =>
    rcases List.mem_append.1 hfreed with hmem | hmem
    · simpa [Event.isOf] using Arbiter.scheduling_not_isOf _ hmem
    · simp at hmem
  | request _ _ hnew =>
    rcases List.mem_append.1 hfreed with hmem | hmem
    · simpa [Event.isOf] using hnew _ hmem
    · simp at hmem
  | @serve _ _ _ _ stage hserves =>
    rcases List.mem_append.1 hfreed with hmem | hmem
    · cases stage <;> simp [Stage.events] at hmem
    · cases hserves.origin hmem (by simp [Event.isOf])
  | @reclaim _ other _ stage _ _ hto =>
    rcases List.mem_append.1 hfreed with hmem | hmem
    · cases stage <;> simp [Stage.events] at hmem
    · obtain ⟨_, rfl⟩ := Event.freed.inj (List.mem_singleton.1 hmem)
      obtain ⟨_, _, hx'⟩ := hto.frame
      rw [hx']
      exact ⟨SlotSet.mem_insert.2 (.inr rfl),
        (Arbiter.binding_unbind (m.books a) slot slot).trans (if_pos rfl)⟩
  | _ => simp at hfreed

namespace Machine

variable {a : ArbiterId} {m m' : Machine} {c : ClientId} {slot : SlotId} {new : List Event}
  {P : Machine → Prop}

/-- A slot that is on its way out stays so until it is freed. -/
theorem Leaving.kept (h : m.Leaving a slot) (hdeed : Deed a m m' new) :
    m'.Leaving a slot ∨ .freed a slot ∈ new := by
  have hkept : ∀ {next : Next} {stack : List Activation}, m'.Follows next stack →
      (slot ∈ (m.books a).detaching → slot ∈ (m'.books a).detaching ∨
        .reclaim a slot ∈ next.waiting?) →
      (.reclaim a slot ∈ m.stack → .reclaim a slot ∈ stack) → m'.Leaving a slot := by
    intro next stack hnext hdetaching hstack
    rcases h with hmem | hmem
    · exact (hdetaching hmem).imp_right hnext.mem_of_waiting
    · exact .inr (hnext.mem_of_mem (hstack hmem))
  have hpop : ∀ {f : Activation} {rest : List Activation}, m.stack = f :: rest →
      f ≠ .reclaim a slot → .reclaim a slot ∈ m.stack → .reclaim a slot ∈ rest := by
    intro f rest hstack hf hmem
    rw [hstack] at hmem
    exact (List.mem_cons.1 hmem).resolve_left hf.symm
  cases hdeed with
  | quiet hquiet =>
    refine .inl (h.imp (fun hmem => by rwa [hquiet.books]) fun hmem => ?_)
    have hframe : .reclaim a slot ∈ m.frames a := mem_frames.2 ⟨hmem, by simp [Activation.isOf]⟩
    rw [← hquiet.frames] at hframe
    exact (mem_frames.1 hframe).1
  | build hx _ _ _ hnext =>
    refine .inl (hkept hnext (fun hmem => ?_) id)
    rw [hx] at hmem
    exact absurd hmem SlotSet.notMem_empty
  | attach _ _ _ hx' hnext | detach _ _ hx' hnext | release _ _ hx' hnext
  | request _ hx' _ _ hnext | job _ hx' hnext | owner _ _ hx' hnext | skipTurn _ _ hx' hnext
  | beginTurn _ _ hx' hnext =>
    refine .inl (hkept hnext (fun hmem => .inl ?_) id)
    rw [hx']
    exact hmem
  | refuse _ hstack hx' _ hnext | claim _ hstack _ _ _ hx' hnext | bind _ hstack hx' hnext
  | uninstall _ hstack _ hx' hnext | endPass _ hstack hx' hnext | endTurn _ hstack hx' hnext =>
    refine .inl (hkept hnext (fun hmem => .inl ?_) (hpop hstack (by simp)))
    rw [hx']
    exact hmem
  | mark _ hstack _ hx' hnext =>
    refine .inl (hkept hnext (fun hmem => .inl ?_) (hpop hstack (by simp)))
    rw [hx']
    exact SlotSet.mem_insert.2 (.inl hmem)
  | @serve race _ rest _ stage hserves hto hnext =>
    refine .inl (hkept hnext (fun hmem => ?_) ?_)
    · rw [← hserves.detaching] at hmem
      refine (hto.kept hmem).imp_right ?_
      rintro rfl
      rfl
    · cases hserves with
      | idle => exact id
      | kept _ _ hstack | left _ _ hstack | took _ _ hstack | passed _ _ hstack =>
        exact hpop hstack (by simp)
  | @reclaim _ other _ _ _ hstack hto hnext =>
    by_cases hother : slot = other
    · exact .inr (by simp [hother])
    · refine .inl (hkept hnext (fun hmem => ?_) (hpop hstack (by simp [Ne.symm hother])))
      refine (hto.kept hmem).imp_right ?_
      rintro rfl
      rfl

/-- The client has no slot but such as are on their way out. -/
def Gone (a : ArbiterId) (c : ClientId) (m : Machine) : Prop :=
  ∀ slot, (m.books a).client? slot = some c → m.Leaving a slot

theorem Gone.of_deed (hm : m.Gone a c) (hdeed : Deed a m m' new)
    (hnew : ∀ slot tag, .bound a slot ⟨c, tag⟩ ∉ new) : m'.Gone a c := by
  intro slot hclient
  rcases hdeed.binding slot with hsame | ⟨⟨d, tag⟩, hbound, hwritten⟩ | ⟨_, hnone⟩
  · refine ((hm slot ?_).kept hdeed).resolve_right fun hfreed => ?_
    · rw [Arbiter.client?, ← hsame]
      exact hclient
    · exact Arbiter.binding_ne_none_of_client? hclient (hdeed.vacated hfreed).2
  · rw [Arbiter.client?, hwritten] at hclient
    obtain rfl : d = c := Option.some.inj hclient
    exact absurd hbound (hnew slot tag)
  · simp [Arbiter.client?, hnone] at hclient

theorem gone_of_marked (hdeed : Deed a m m' new) (hsound : m.Sound a) (hsingle : m.Single a)
    (hmarked : .marked a slot c ∈ new) : m'.Gone a c := by
  intro other hclient
  obtain ⟨_, _, _, _, hstack, _, hdetaching⟩ := hdeed.origin hmarked (by simp [Event.isOf])
  have hold : (m.books a).client? other = some c := by
    rcases hdeed.binding other with hsame | ⟨b, hbound, _⟩ | ⟨hfreed, _⟩
    · rw [Arbiter.client?, ← hsame]
      exact hclient
    · obtain ⟨_, _, _, hbind⟩ := hdeed.origin hbound (by simp [Event.isOf])
      cases (List.cons.inj (hstack.symm.trans hbind)).1
    · obtain ⟨_, _, hreclaim, _⟩ := hdeed.origin hfreed (by simp [Event.isOf])
      cases (List.cons.inj (hstack.symm.trans hreclaim)).1
  obtain rfl := hsingle.client other slot c hold (hsound.client?_of_marked hdeed hmarked)
  exact .inl hdetaching

end Machine

/-! ## What is done through handles -/

/-- The client that acts through a handle that it holds, and the kind of the handle. -/
def Action.holder? : Action → Option (ClientId × HandleKind)
  | .notify c => some (c, .notifier)
  | .complete c _ => some (c, .completion)
  | .fail c _ => some (c, .error)
  | _ => none

/-- The tag under which a client is reported about. -/
def Report.tag? : Report → Option Tag
  | .result tag _ | .failure tag _ => some tag
  | .idle => none

namespace World

variable {w : World} {action : Action} {c : ClientId} {kind : HandleKind} {a : ArbiterId}
  {report : Report} {waiting : Activation} {tag : Tag}

theorem held_of_asked? (h : action.holder? = some (c, kind)) {handle : Handle}
    (hasked : w.asked? action = some handle) : w.held c kind = some handle := by
  cases action with
  | notify d =>
    obtain ⟨rfl, rfl⟩ := Prod.mk.inj (Option.some.inj h)
    exact hasked
  | complete | fail => cases hasked
  | _ => cases h

theorem held_of_useHeld {use : Handle → Reply → Outcome} {call : Call}
    (hnext : (w.useHeld c kind use).next = .call call waiting) :
    ∃ handle, w.held c kind = some handle ∧
      (use handle (.flag true)).next = .call call waiting := by
  unfold useHeld at hnext
  split at hnext
  · split at hnext
    · cases hnext
    · exact ⟨_, by assumption, hnext⟩
  · cases hnext

theorem tag?_of_useDelivery {handle : Handle} {make : Tag → Report} {reply : Reply}
    (hnext : (w.useDelivery handle make reply).next = .call (.report a report) waiting) :
    handle.arbiter = a ∧ ∃ tag, (w.arbiter a).tag? handle.slot = some tag ∧ report = make tag := by
  unfold useDelivery at hnext
  split at hnext
  · cases hnext
  · cases hnext
    exact ⟨rfl, _, by assumption, rfl⟩

/-- A client that acts through its handle is reported about under the tag of the handle's slot. -/
theorem held_of_reported (h : action.holder? = some (c, kind))
    (hnext : (w.perform action).next = .call (.report a report) waiting)
    (htag : report.tag? = some tag) :
    ∃ slot, w.held c kind = some ⟨a, slot⟩ ∧ (w.arbiter a).tag? slot = some tag := by
  have hdelivery : ∀ {make : Tag → Report}, (∀ tag, (make tag).tag? = some tag) →
      (w.useHeld c kind (w.useDelivery · make ·)).next = .call (.report a report) waiting →
        ∃ slot, w.held c kind = some ⟨a, slot⟩ ∧ (w.arbiter a).tag? slot = some tag := by
    intro make hmake hnext
    obtain ⟨⟨b, slot⟩, hheld, hnext⟩ := held_of_useHeld hnext
    obtain ⟨rfl, known, hknown, rfl⟩ := tag?_of_useDelivery hnext
    obtain rfl := Option.some.inj ((hmake known).symm.trans htag)
    exact ⟨slot, hheld, hknown⟩
  cases action with
  | notify d =>
    have hnext : (w.useHeld d .notifier w.useNotifier).next = .call (.report a report) waiting :=
      hnext
    obtain ⟨_, _, hnext⟩ := held_of_useHeld hnext
    cases hnext
  | complete d payload =>
    obtain ⟨rfl, rfl⟩ := Prod.mk.inj (Option.some.inj h)
    exact hdelivery (fun _ => rfl) hnext
  | fail d fault =>
    obtain ⟨rfl, rfl⟩ := Prod.mk.inj (Option.some.inj h)
    exact hdelivery (fun _ => rfl) hnext
  | _ => cases h

end World

namespace Machine

variable {a : ArbiterId} {m m' : Machine} {c : ClientId} {slot : SlotId} {new : List Event}
  {P : Machine → Prop}

/-! ## Main result -/

/-- Passes of an arbiter keep apart from one another and from its detaches, and an attach to it from
other attaches and from detaches of its client. -/
def Custodial (m : Machine) : Prop := m.PassesAlone ∧ m.AttachesApart ∧ m.GrantsApart

instance : DecidablePred Custodial := fun m =>
  inferInstanceAs (Decidable (m.PassesAlone ∧ m.AttachesApart ∧ m.GrantsApart))

theorem held_rest {w : World} (hw : w.IsInitial) (c : ClientId) (kind : HandleKind) :
    w.held c kind = none := by
  have hempty : (w.client c).handles = .all none := by
    rcases Nat.lt_or_ge c w.clients.length with hlt | hge
    · exact hw.clients _ (by simp [World.client, hlt])
    · simp [World.client, hge, default]
  rw [World.held, hempty]
  cases kind <;> rfl

/-- What a client does not take it never holds. -/
theorem Reachable.held_eq_none {kind : HandleKind} (h : Reachable P m)
    (hreceives : m.world.receives c kind = false) : m.world.held c kind = none := by
  revert hreceives
  refine h.induction (I := fun m => m.world.receives c kind = false → m.world.held c kind = none)
    (fun w hw _ => held_rest hw c kind) fun m m' _ _ hgoes ih hreceives => ?_
  obtain ⟨_, herrand, _⟩ := hgoes.errand
  rw [herrand.handover.receives] at hreceives
  rcases herrand.handover.held c kind with ⟨hsame, _⟩ | ⟨_, _, htakes, _⟩
  · rw [hsame, ih hreceives]
  · cases hreceives.symm.trans htakes

theorem Reachable.custody (h : Reachable Custodial m) : m.Custody a := by
  refine h.induction (fun w hw => ⟨?_, ?_, ?_, ?_⟩) fun m m' hm _ hgoes ih => ?_
  · rintro c slot (⟨kind, hheld⟩ | ⟨kind, hmem⟩)
    · cases (held_rest hw c kind).symm.trans hheld
    · cases hmem
  · intro c slot kind hinstall
    cases hinstall
  · intro c slot kind hmem
    cases hmem
  · intro c slot kind slot' kind' hmem
    cases hmem
  · obtain ⟨new, hdeed, _⟩ := hgoes.deed (a := a) hm.placed
    obtain ⟨_, ⟨_, hhandover⟩, _⟩ := hgoes.errand
    have hsound : m.Sound a := hm.sound fun _ h => h.1
    have hsingle : m.Single a := hm.single fun _ h => ⟨h.1, h.2.1⟩
    constructor
    · exact fun c slot => hhandover.custody_owns ih hdeed hsound
    · exact fun c slot kind => hhandover.granting
    · exact fun c slot kind hmem other slot' =>
        hhandover.custody_cleared ih (fun _ => hm.held_eq_none) hmem
    · exact fun c slot kind slot' kind' =>
        hhandover.custody_apart ih hsingle hsound hm.holds.2.2

theorem Reachable.gone (h : Reachable Custodial m) (hdeparted : Departed a c m.trace) :
    m.Gone a c := by
  revert hdeparted
  refine h.deed_induction (a := a) (I := fun m => Departed a c m.trace → m.Gone a c)
    (fun w _ hdeparted => ?_) fun m m' new hm _ hdeed htrace ih hdeparted => ?_
  · obtain ⟨_, _, _, htrace, _⟩ := hdeparted
    simp [rest] at htrace
  · rw [htrace] at hdeparted
    rcases hdeparted.of_append with ⟨hold, hnew⟩ | ⟨slot, hmarked⟩
    · exact (ih hold).of_deed hdeed hnew
    · exact gone_of_marked hdeed (hm.sound fun _ h => h.1) (hm.single fun _ h => ⟨h.1, h.2.1⟩)
        hmarked

theorem next_of_follow {outcome : Outcome} {stack : List Activation} {trace : List Event}
    {call : Call} (h : (follow outcome stack trace).control = .call call) :
    ∃ waiting, outcome.next = .call call waiting := by
  unfold follow at h
  split at h
  · cases h
  · rename_i hnext
    obtain rfl := Control.call.inj h
    exact ⟨_, hnext⟩

/-- The client holds handles of its own slots only, and acts for itself through them. -/
structure Entitled (a : ArbiterId) (c : ClientId) (m : Machine) : Prop where
  held : ∀ kind slot, m.world.held c kind = some ⟨a, slot⟩ →
    (m.books a).client? slot = some c ∧ slot ∉ (m.books a).detaching
  requested : ∀ action kind m' new slot, m.control = .call (.perform action) →
    action.holder? = some (c, kind) → Goes m m' → m'.trace = new ++ m.trace →
      .requested a slot ∈ new → (m.books a).client? slot = some c
  reported : ∀ action kind report tag, m.control = .call (.perform action) →
    action.holder? = some (c, kind) → m.step.control = .call (.report a report) →
      report.tag? = some tag → ∃ slot, (m.books a).binding slot = some ⟨c, tag⟩
  /-- Once it is detached, it holds no handle until it is bound again. -/
  departed : Departed a c m.trace → ∀ kind slot, m.world.held c kind ≠ some ⟨a, slot⟩

/-- Every handle that a client holds names a slot that is bound to this client and not detaching.
So the client asks for turns and delivers under its own tag only, and once it is detached it does
neither, whatever happens in callbacks. -/
theorem held_handles_are_own (hm : Reachable Custodial m) (a : ArbiterId) (c : ClientId) :
    m.Entitled a c := by
  have howns : ∀ kind slot, m.world.held c kind = some ⟨a, slot⟩ → m.Owns a c slot :=
    fun kind slot hheld => hm.custody.owns c slot (.inl ⟨kind, hheld⟩)
  constructor
  · intro kind slot hheld
    obtain ⟨hclient, hleaving⟩ := howns kind slot hheld
    exact ⟨hclient, fun hmem => hleaving (.inl hmem)⟩
  · intro action kind m' new slot hcall hholder hgoes htrace hrequested
    obtain ⟨_, hdeed, hnew⟩ := hgoes.deed (a := a) hm.placed
    obtain rfl := List.append_cancel_right (htrace.symm.trans hnew)
    obtain ⟨hrequest, _⟩ := hdeed.origin hrequested (by simp [Event.isOf])
    rw [request?, hcall] at hrequest
    have hasked := (Option.filter_eq_some_iff.1 hrequest).1
    exact (howns kind slot (World.held_of_asked? hholder hasked)).1
  · intro action kind report tag hcall hholder hreport htag
    rw [step_of_call hcall] at hreport
    obtain ⟨waiting, hnext⟩ := next_of_follow hreport
    obtain ⟨slot, hheld, hknown⟩ := World.held_of_reported hholder hnext htag
    obtain ⟨b, hbinding, rfl⟩ := Option.map_eq_some_iff.1 hknown
    obtain ⟨b', hbinding', rfl⟩ := Option.map_eq_some_iff.1 (howns kind slot hheld).1
    obtain rfl := Option.some.inj (hbinding.symm.trans hbinding')
    exact ⟨slot, hbinding⟩
  · intro hdeparted kind slot hheld
    obtain ⟨hclient, hleaving⟩ := howns kind slot hheld
    exact hleaving (hm.gone hdeparted slot hclient)

/-- A client that has been attached, and later detached. -/
theorem held_handles_are_own_attached :
    let actions : List Action := [.build 0 0 (some 1), .attach 0 0 ⟨7⟩ none none, .detach 0 0]
    let attached := play 20 actions (rest .playground)
    let detached := play 34 actions (rest .playground)
    attached.world.held 0 .completion = some ⟨0, 0⟩ ∧ (attached.books 0).client? 0 = some 0 ∧
      Departed 0 0 detached.trace ∧ ∀ kind slot, detached.world.held 0 kind ≠ some ⟨0, slot⟩ := by
  intro actions attached detached
  have hattached : Reachable Custodial attached :=
    .of_plays World.isInitial_playground 20 actions (by decide +kernel)
  have hdetached : Reachable Custodial detached :=
    .of_plays World.isInitial_playground 34 actions (by decide +kernel)
  have hheld : attached.world.held 0 .completion = some ⟨0, 0⟩ := by decide +kernel
  have hdeparted : Departed 0 0 detached.trace :=
    ⟨[.queued 0 (.pass 0) true], detached.trace.drop 2, 0, by decide +kernel, by simp⟩
  exact ⟨hheld, ((held_handles_are_own hattached 0 0).held _ _ hheld).1, hdeparted,
    (held_handles_are_own hdetached 0 0).departed hdeparted⟩

end Machine

/-- A world whose first client is detached as soon as it is given a notifier. -/
def World.hasty : World where
  queues := [{ bound := some 2 }]
  consumers := [{}]
  clients := [{ hooks := { notifier := [[.detach 0 0]], completion := [], error := [] } }, {}]

theorem World.isInitial_hasty : World.hasty.IsInitial where
  arbiters := rfl
  queues := by simp [hasty]
  clients := by simp [hasty]
  notifiers := rfl
  deliveries := rfl

namespace Machine

/-- An attach does not notice that its client is detached meanwhile, and goes on giving it handles.
They end up naming the slot of another client, under whose tag they deliver. -/
theorem handle_outlives_detach :
    let actions : List Action := [.build 0 0 (some 1), .attach 0 0 ⟨7⟩ none none, .runPending 0,
      .attach 0 1 ⟨8⟩ none none]
    let attached := play 64 actions (rest .hasty)
    let completed := play 80 (actions ++ [.complete 0 [170]]) (rest .hasty)
    Reachable (fun m => m.PassesAlone ∧ m.AttachesApart) attached ∧ attached.isFinished ∧
      attached.world.held 0 .completion = some ⟨0, 0⟩ ∧
      (attached.books 0).client? 0 = some 1 ∧
      completed.trace = .reported 0 0 (.result ⟨8⟩ [170]) :: attached.trace := by
  intro actions attached completed
  have hattached : Reachable (fun m => m.PassesAlone ∧ m.AttachesApart) attached :=
    .of_plays World.isInitial_hasty 64 actions (by decide +kernel)
  refine ⟨hattached, ?_, ?_, ?_, ?_⟩ <;> decide +kernel

end Machine

end SharedBus
