import SharedBus.Proofs.Calls
import SharedBus.Proofs.Departure
import SharedBus.Proofs.Evaluation

/-! # Bindings last and deliveries reach their tag

A slot keeps the client and the tag that it was bound to until a pass frees it, whatever else goes
on. A delivery looks the tag up by the number of the slot when it is made, so it is reported under
the tag of the client that the slot was bound to, even if that client is on its way out.
-/
namespace SharedBus

/-- The slot was bound so and has not been freed since. -/
def Attached (a : ArbiterId) (slot : SlotId) (b : Binding) (trace : List Event) : Prop :=
  ∃ newer older, trace = newer ++ .bound a slot b :: older ∧ .freed a slot ∉ newer

/-- A slot that is attached by the end of a longer trace was attached before and has not been freed
by what is new, or what is new has bound it. -/
theorem Attached.of_append {a : ArbiterId} {slot : SlotId} {b : Binding} {new trace : List Event}
    (h : Attached a slot b (new ++ trace)) :
    Attached a slot b trace ∧ .freed a slot ∉ new ∨ .bound a slot b ∈ new := by
  obtain ⟨newer, older, htrace, hnewer⟩ := h
  rcases List.append_eq_append_iff.1 htrace with ⟨between, rfl, rfl⟩ | ⟨between, rfl, hcons⟩
  · refine .inl ⟨⟨between, older, rfl, fun hmem => ?_⟩, fun hmem => ?_⟩
    · exact hnewer (List.mem_append_right _ hmem)
    · exact hnewer (List.mem_append_left _ hmem)
  · rcases List.cons_eq_append_iff.1 hcons with ⟨rfl, rfl⟩ | ⟨rest, rfl, rfl⟩
    · exact .inl ⟨⟨[], older, rfl, List.not_mem_nil⟩, by simpa using hnewer⟩
    · exact .inr (List.mem_append_right _ List.mem_cons_self)

/-! ## Deliveries -/

namespace World

/-- The handle through which an action delivers, what is reported for a tag, and the reply. -/
def delivery? (w : World) : Action → Option (Handle × (Tag → Report) × Reply)
  | .complete c payload => (w.client c).handles.completion.map (·, (.result · payload), .flag true)
  | .fail c fault => (w.client c).handles.error.map (·, (.failure · fault), .flag true)
  | .handleComplete h payload => w.deliveries[h]?.map (·, (.result · payload), .nothing)
  | .handleFail h fault => w.deliveries[h]?.map (·, (.failure · fault), .nothing)
  | _ => none

variable {w : World} {action : Action} {handle : Handle} {make : Tag → Report} {reply : Reply}

private theorem useHeld_of_handle {c : ClientId} {use : Handle → Reply → Outcome}
    (kind : HandleKind) (h : (w.client c).handles.get kind = some handle) :
    w.useHeld c kind use = use handle (.flag true) := by
  have hthere : w.hasClient c = true := by
    rcases Nat.lt_or_ge c w.clients.length with hlt | hge
    · simpa [hasClient] using hlt
    · have hnone : w.client c = default := by simp [client, hge]
      rw [hnone] at h
      cases kind <;> cases h
  simp [useHeld, hthere, h]

/-- Whichever action delivers, it forwards what it makes of the tag. -/
theorem perform_of_delivery? (h : w.delivery? action = some (handle, make, reply)) :
    w.perform action = w.useDelivery handle make reply ∧ ∀ tag, (make tag).tag? = some tag := by
  cases action with
  | complete c payload =>
    obtain ⟨_, hheld, heq⟩ := Option.map_eq_some_iff.1 h
    cases heq
    exact ⟨useHeld_of_handle .completion hheld, fun _ => rfl⟩
  | fail c fault =>
    obtain ⟨_, hheld, heq⟩ := Option.map_eq_some_iff.1 h
    cases heq
    exact ⟨useHeld_of_handle .error hheld, fun _ => rfl⟩
  | handleComplete index payload | handleFail index fault =>
    obtain ⟨_, hlisted, heq⟩ := Option.map_eq_some_iff.1 h
    cases heq
    exact ⟨by simp [perform, useListed, hlisted], fun _ => rfl⟩
  | _ => cases h

/-- The world in which the consumer of the arbiter performs its actions: a call of its hook is
spent. -/
def told (w : World) (a : ArbiterId) (report : Report) : World :=
  let s := (w.arbiter a).consumer
  w.setConsumer s ((w.consumer s).spend report)

/-- The actions that the consumer of the arbiter performs when it is told. -/
def reaction (w : World) (a : ArbiterId) (report : Report) : List Action :=
  ((w.consumer (w.arbiter a).consumer).hook report).now

/-- A delivery for a slot that is bound is one call of the consumer and nothing besides. -/
theorem ends_useDelivery {b : Binding} (hmake : ∀ tag, (make tag).tag? = some tag)
    (hbound : (w.arbiter handle.arbiter).binding handle.slot = some b) :
    let report := make b.tag
    let reacted := (w.told handle.arbiter report).actAll (w.reaction handle.arbiter report)
    (w.useDelivery handle make reply).Ends ⟨reacted.1, reply,
      .reported handle.arbiter (w.arbiter handle.arbiter).consumer report :: reacted.2⟩ := by
  intro report reacted
  have htag : (w.arbiter handle.arbiter).tag? handle.slot = some b.tag := by
    simp [Arbiter.tag?, hbound]
  have hhears : (w.consumer (w.arbiter handle.arbiter).consumer).hears report = true := by
    have htold : report.tag? = some b.tag := hmake b.tag
    cases hreport : report with
    | idle =>
      rw [hreport] at htold
      cases htold
    | _ => rfl
  have huse : w.useDelivery handle make reply =
      w.call (.report handle.arbiter report) (.answer reply) := by
    simp only [useDelivery, htag]
    rfl
  have hbegin : w.begin (.report handle.arbiter report) =
      (w.told handle.arbiter report).call (.script (w.reaction handle.arbiter report))
        (.answer .nothing) [.reported handle.arbiter (w.arbiter handle.arbiter).consumer report] := by
    simp only [begin, beginReport, hhears, if_true]
    rfl
  have hscript : ((w.told handle.arbiter report).begin
      (.script (w.reaction handle.arbiter report))).Ends _ := ends_continueScript _ _ []
  have hanswer : (reacted.1.resume .nothing (.answer .nothing)).Ends _ := .reply ..
  have hreply : (reacted.1.resume .nothing (.answer reply)).Ends _ := .reply ..
  have hreport : (w.begin (.report handle.arbiter report)).Ends _ :=
    hbegin ▸ ends_call hscript hanswer
  have hends : (w.call (.report handle.arbiter report) (.answer reply)).Ends _ :=
    ends_call hreport hreply
  simpa [huse, reacted] using hends

theorem ends_useDelivery_unbound
    (hbound : (w.arbiter handle.arbiter).binding handle.slot = none) :
    (w.useDelivery handle make reply).Ends ⟨w, reply, []⟩ := by
  have htag : (w.arbiter handle.arbiter).tag? handle.slot = none := by simp [Arbiter.tag?, hbound]
  simp only [useDelivery, htag]
  exact .reply ..

end World

namespace Machine

variable {m m' : Machine} {a : ArbiterId} {slot : SlotId} {b : Binding}

/-- A slot that was bound and has not been freed since is still bound as it was. -/
theorem Reachable.binding_of_attached (hm : Reachable PassesAlone m)
    (h : Attached a slot b m.trace) : (m.books a).binding slot = some b := by
  revert h
  refine hm.deed_induction (a := a)
    (I := fun m => Attached a slot b m.trace → (m.books a).binding slot = some b)
    (fun w _ h => ?_) fun m m' new hm _ hdeed htrace ih h => ?_
  · obtain ⟨newer, older, htrace, _⟩ := h
    simp [rest] at htrace
  · rw [htrace] at h
    have hsound : m.Sound a := hm.sound fun _ hP => hP
    rcases h.of_append with ⟨hold, hfreed⟩ | hbound
    · have hbinding := ih hold
      rcases hdeed.binding slot with hsame | ⟨b', hbound, _⟩ | ⟨hfreed', _⟩
      · rw [hsame, hbinding]
      · cases hbinding.symm.trans (hsound.binding_of_bound hdeed hbound).2
      · exact absurd hfreed' hfreed
    · obtain ⟨_, _, hback, hstack⟩ := hdeed.origin hbound (by simp [Event.isOf])
      rw [hdeed.books_of_bind hback hstack, Arbiter.binding_bind, if_pos rfl]

/-! ## Main result -/

/-- What a delivery does that is reported: the consumer of the arbiter is called once and at once,
and what follows is what its hook does, from a world in which nothing else has changed. -/
structure Delivers (m : Machine) (a : ArbiterId) (report : Report) (reply : Reply) : Prop where
  arbiters : (m.world.told a report).arbiters = m.world.arbiters
  queues : (m.world.told a report).queues = m.world.queues
  clients : (m.world.told a report).clients = m.world.clients
  ends : let reacted := (m.world.told a report).actAll (m.world.reaction a report)
    ∃ n, m.after n = m.ended ⟨reacted.1, reply, .reported a (m.books a).consumer report :: reacted.2⟩

/-- From its bind on until a pass frees it, a slot is bound to the same client under the same tag,
and it is freed only after a detach of that client. What is delivered through a handle for the slot
meanwhile reaches the consumer under this tag; for a slot that is not bound nothing happens. -/
theorem deliveries_reach_their_tag (hm : Reachable PassesAlone m) (a : ArbiterId) (slot : SlotId)
    (b : Binding) :
    (Attached a slot b m.trace → (m.books a).binding slot = some b ∧
      ∀ m' new, Goes m m' → m'.trace = new ++ m.trace → .freed a slot ∈ new →
        Dismissed a slot b.client m.trace) ∧
    ∀ action make reply, m.control = .call (.perform action) →
      m.world.delivery? action = some (⟨a, slot⟩, make, reply) →
        (Attached a slot b m.trace → m.Delivers a (make b.tag) reply) ∧
        ((m.books a).binding slot = none → ∃ n, m.after n = m.ended ⟨m.world, reply, []⟩) := by
  refine ⟨fun hattached => ?_, fun action make reply hcall hdelivery => ?_⟩
  · have hbinding := hm.binding_of_attached hattached
    refine ⟨hbinding, fun m' new hgoes htrace hfreed => ?_⟩
    obtain ⟨_, hdeed, hnew⟩ := hgoes.deed (a := a) hm.placed
    obtain rfl := List.append_cancel_right (htrace.symm.trans hnew)
    obtain ⟨_, _, hstack, _⟩ := hdeed.origin hfreed (by simp [Event.isOf])
    have hleaving : m.Leaving a slot := .inr (hstack ▸ List.mem_cons_self)
    have hclient : (m.books a).client? slot = some b.client := by simp [Arbiter.client?, hbinding]
    exact (hm.accounted fun _ h => h).leaving slot b.client hleaving hclient
  · obtain ⟨hperform, hmake⟩ := World.perform_of_delivery? hdelivery
    have hbegin : m.world.begin (.perform action) = m.world.useDelivery ⟨a, slot⟩ make reply :=
      hperform
    refine ⟨fun hattached => ⟨rfl, rfl, rfl, ?_⟩, fun hunbound => ?_⟩
    · have hbinding := hm.binding_of_attached hattached
      exact after_of_ends hcall (hbegin ▸ World.ends_useDelivery hmake hbinding)
    · exact after_of_ends hcall (hbegin ▸ World.ends_useDelivery_unbound hunbound)

/-- A client that was detached and still owns the bus delivers a result. -/
theorem deliveries_reach_their_tag_detached :
    let m := play 47 [.build 0 0 (some 2), .attach 0 0 ⟨7⟩ none none, .notify 0, .runPending 0,
      .detach 0 0, .handleComplete 0 [170]] (rest .playground)
    Attached 0 1 ⟨0, ⟨7⟩⟩ m.trace ∧ (m.books 0).owner = some 1 ∧
      (1 : SlotId) ∈ (m.books 0).detaching ∧ m.Delivers 0 (.result ⟨7⟩ [170]) .nothing := by
  intro m
  have hm : Reachable PassesAlone m := .of_plays World.isInitial_playground 47 _ (by decide +kernel)
  have hattached : Attached 0 1 ⟨0, ⟨7⟩⟩ m.trace :=
    ⟨m.trace.take 17, m.trace.drop 18, by decide +kernel, by decide +kernel⟩
  have hcall : m.control = .call (.perform (.handleComplete 0 [170])) := by rfl
  obtain ⟨_, hdeliveries⟩ := deliveries_reach_their_tag hm 0 1 ⟨0, ⟨7⟩⟩
  obtain ⟨hdelivers, _⟩ := hdeliveries _ (.result · [170]) .nothing hcall rfl
  exact ⟨hattached, by decide +kernel, by decide +kernel, hdelivers hattached⟩

end Machine

end SharedBus
