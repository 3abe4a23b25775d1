import SharedBus.Proofs.Equipping

/-! # Detaching in closed form

A detach whose client does nothing takes the handles back, marks the slot and queues a pass unless
one is queued already. So a number of detaches come to no more than the set of slots that they have
marked, in whatever order and however often each is made, and to detach all clients is to detach
those of the settled slots one by one.
-/
namespace SharedBus

/-! ## Clients that give their handles back -/

namespace Client

variable {client : Client}

/-- The client gives back the handle of one kind, if it takes such handles. -/
def giveUp (client : Client) (kind : HandleKind) : Client :=
  if client.takes kind then client.install kind none else client

/-- The client gives back all handles. -/
def stripped (client : Client) : Client :=
  ((client.giveUp .notifier).giveUp .completion).giveUp .error

theorem equip_none (client : Client) : client.equip none = client.stripped := rfl

theorem IsStill.stripped (h : client.IsStill) : client.stripped.IsStill := h.equip none

theorem get_handles_stripped (client : Client) (kind : HandleKind) :
    client.stripped.handles.get kind =
      if client.takes kind then none else client.handles.get kind :=
  client.get_handles_equip none kind

end Client

/-- These clients give all handles back, one after another. -/
def strip (clients : List Client) (leaving : List ClientId) : List Client :=
  leaving.foldl (fun clients c => clients.set c (clients.getD c default).stripped) clients

/-- Who has given its handles back gets none again by it. -/
theorem get_handles_strip {clients : List Client} {leaving : List ClientId} {c : ClientId}
    {kind : HandleKind} (hlt : c < clients.length)
    (h : c ∈ leaving ∧ (clients.getD c default).takes kind = true ∨
      (clients.getD c default).handles.get kind = none) :
    ((strip clients leaving).getD c default).handles.get kind = none := by
  induction leaving generalizing clients with
  | nil => exact h.resolve_left fun h => List.not_mem_nil h.1
  | cons d rest ih =>
    refine ih (by simpa using hlt) ?_
    by_cases hcd : d = c
    · subst hcd
      simp only [List.getD_eq_getElem?_getD, List.getElem?_set_self hlt, Option.getD_some] at h ⊢
      rw [Client.get_handles_stripped]
      refine .inr ?_
      split
      · rfl
      · rename_i htakes
        exact h.resolve_left fun h => htakes h.2
    · simp only [List.getD_eq_getElem?_getD, List.getElem?_set_ne hcd] at h ⊢
      exact h.imp_left fun h => ⟨(List.mem_cons.1 h.1).resolve_left (Ne.symm hcd), h.2⟩

/-! ## Slots that are marked -/

namespace World

variable {w : World} {a : ArbiterId}

/-- The slots are marked, and a pass is queued if there are any. -/
def leaving (w : World) (a : ArbiterId) (slots : SlotSet) : World :=
  if slots.isEmpty then w
  else
    let x := w.arbiter a
    { w with
      arbiters := w.arbiters.set a { x with detaching := x.detaching ∪ slots, queued := true }
      queues := if x.queued then w.queues
        else w.queues.set x.queue ((w.queue x.queue).push (.pass a)) }

theorem leaving_of_isEmpty {slots : SlotSet} (h : slots.isEmpty) : w.leaving a slots = w := if_pos h

theorem leaving_setClient (w : World) (a : ArbiterId) (slots : SlotSet) (c : ClientId)
    (client : Client) :
    (w.setClient c client).leaving a slots = (w.leaving a slots).setClient c client := by
  unfold leaving
  split <;> rfl

theorem schedule_eq (w : World) (a : ArbiterId) : (w.schedule a).1 = { w with
    arbiters := w.arbiters.set a { w.arbiter a with queued := true }
    queues := if (w.arbiter a).queued then w.queues else w.queues.set (w.arbiter a).queue
      ((w.queue (w.arbiter a).queue).push (.pass a)) } := by
  cases hqueued : (w.arbiter a).queued with
  | true =>
    have hsame : w.arbiters.set a { w.arbiter a with queued := true } = w.arbiters := by
      rw [← hqueued]
      exact congrArg (·.arbiters) (w.setArbiter_arbiter (a := a))
    simp only [schedule, hqueued, if_true, hsame]
  | false =>
    simp only [schedule, hqueued, Bool.false_eq_true, if_false]
    rfl

/-- A detach marks its slot and queues a pass. -/
theorem schedule_mark (ha : a < w.arbiters.length) (slot : SlotId) :
    ((w.move a (·.mark slot)).schedule a).1 = w.leaving a (.singleton slot) := by
  have hsome : ¬ (SlotSet.singleton slot).isEmpty := by simp
  rw [schedule_eq, w.arbiter_move_self ha, leaving, if_neg hsome]
  simp only [move, setArbiter, List.set_set]
  rfl

theorem arbiter_leaving (ha : a < w.arbiters.length) (slots : SlotSet) :
    (w.leaving a slots).arbiter a = { w.arbiter a with
      detaching := (w.arbiter a).detaching ∪ slots
      queued := (w.arbiter a).queued || !slots.isEmpty } := by
  unfold leaving
  split
  · rename_i hnone
    have hdetaching : (w.arbiter a).detaching ∪ slots = (w.arbiter a).detaching :=
      SlotSet.ext fun slot => by simp [SlotSet.isEmpty_iff.1 hnone slot]
    simp only [hdetaching, hnone, Bool.not_true, Bool.or_false]
  · rename_i hsome
    simp [arbiter, ha, hsome]

/-- Slots that are marked in two goes are marked in one. -/
theorem leaving_leaving (ha : a < w.arbiters.length) (slots others : SlotSet) :
    (w.leaving a slots).leaving a others = w.leaving a (slots ∪ others) := by
  by_cases hslots : slots.isEmpty
  · have hunion : slots ∪ others = others :=
      SlotSet.ext fun slot => by simp [SlotSet.isEmpty_iff.1 hslots slot]
    rw [leaving_of_isEmpty hslots, hunion]
  by_cases hothers : others.isEmpty
  · have hunion : slots ∪ others = slots :=
      SlotSet.ext fun slot => by simp [SlotSet.isEmpty_iff.1 hothers slot]
    rw [leaving_of_isEmpty hothers, hunion]
  have hunion : ¬ (slots ∪ others).isEmpty := fun hnone =>
    hslots (SlotSet.isEmpty_iff.2 fun slot hslot =>
      SlotSet.isEmpty_iff.1 hnone slot (SlotSet.mem_union.2 (.inl hslot)))
  have hdetaching : (w.arbiter a).detaching ∪ slots ∪ others =
      (w.arbiter a).detaching ∪ (slots ∪ others) := SlotSet.ext fun slot => by simp [or_assoc]
  have hmarked := w.arbiter_leaving ha slots
  rw [leaving, if_neg hothers, hmarked]
  simp [leaving, hslots, hunion, hdetaching]

/-! ## Detaching one client after another -/

section
variable {c : ClientId} {slot : SlotId}

/-- A detach takes the handles back, marks the slot and queues a pass. -/
theorem ends_detach (ha : w.hasArbiter a) (hc : w.hasClient c) (h : (w.client c).IsStill)
    (hfind : (w.arbiter a).find? c = some slot) : (w.perform (.detach a c)).Ends
      ⟨(w.leaving a (.singleton slot)).setClient c (w.client c).stripped, .slot slot,
        .detaching a slot c :: (w.client c).equips c none ++
          .marked a slot c :: (w.schedule a).2⟩ := by
  have hlt : a < w.arbiters.length := of_decide_eq_true ha
  have hdetach : w.perform (.detach a c) = w.call (.install c .notifier none)
      (.uninstall a c slot .notifier) [.detaching a slot c] := by
    simp only [perform, whenThere, ha, hc, Bool.and_self, if_true, detach, hfind]
  have hevents : (((w.setClient c (w.client c).stripped).move a (·.mark slot)).schedule a).2 =
      (w.schedule a).2 := by
    rw [schedule_events, schedule_events, arbiter_move_self (w.setClient c _) hlt]
    rfl
  have hmark : ((w.setClient c (w.client c).stripped).resume .nothing
      (.uninstall a c slot .error)).Ends ⟨(w.leaving a (.singleton slot)).setClient c
        (w.client c).stripped, .slot slot, .marked a slot c :: (w.schedule a).2⟩ := by
    rw [← leaving_setClient, ← schedule_mark (w := w.setClient c _) hlt, ← hevents]
    exact .reply ..
  rw [← Client.equip_none, ← equipping_none hc] at hmark
  rw [hdetach]
  exact ends_equip hc h (fun w kind next hnext => by simp [resume, uninstallNext, hnext]) hmark

end

/-- The client is bound where a detach finds it, and does nothing when it gives its handles back. -/
structure Detachable (w : World) (a : ArbiterId) (c : ClientId) : Prop where
  there : w.hasClient c
  still : (w.client c).IsStill
  found : ∃ slot, (w.arbiter a).find? c = some slot

variable {clients : List ClientId} {c d : ClientId}

/-- The world in which a client was detached from this slot. -/
def without (w : World) (a : ArbiterId) (c : ClientId) (slot : SlotId) : World :=
  (w.leaving a (.singleton slot)).setClient c (w.client c).stripped

theorem act_detach (ha : w.hasArbiter a) (h : w.Detachable a c) {slot : SlotId}
    (hfind : (w.arbiter a).find? c = some slot) :
    ∃ events, w.act (.detach a c) = ⟨w.without a c slot, .slot slot, events⟩ :=
  ⟨_, act_of_ends (ends_detach ha h.there h.still hfind)⟩

theorem clients_without (w : World) (a : ArbiterId) (c : ClientId) (slot : SlotId) :
    (w.without a c slot).clients = w.clients.set c (w.client c).stripped := by
  unfold without leaving
  split <;> rfl

theorem queues_without (w : World) (a : ArbiterId) (c : ClientId) (slot : SlotId) :
    (w.without a c slot).queues = if (w.arbiter a).queued then w.queues else
      w.queues.set (w.arbiter a).queue ((w.queue (w.arbiter a).queue).push (.pass a)) := by
  unfold without leaving
  rw [if_neg (by simp)]
  rfl

theorem consumers_without (w : World) (a : ArbiterId) (c : ClientId) (slot : SlotId) :
    (w.without a c slot).consumers = w.consumers := by
  unfold without leaving
  split <;> rfl

theorem length_without (w : World) (a : ArbiterId) (c : ClientId) (slot : SlotId) :
    (w.without a c slot).arbiters.length = w.arbiters.length := by
  unfold without leaving
  split <;> simp [setClient]

theorem arbiter_without_ne {d : ArbiterId} (h : a ≠ d) (c : ClientId) (slot : SlotId) :
    (w.without a c slot).arbiter d = w.arbiter d := by
  unfold without leaving
  split <;> simp [World.arbiter, setClient, List.getElem?_set_ne h]

section
variable (ha : a < w.arbiters.length) (c : ClientId) (slot : SlotId)
include ha

theorem arbiter_without : (w.without a c slot).arbiter a = { w.arbiter a with
    detaching := (w.arbiter a).detaching ∪ .singleton slot
    queued := (w.arbiter a).queued || !(SlotSet.singleton slot).isEmpty } := arbiter_leaving ha _

theorem hasArbiter_without : (w.without a c slot).hasArbiter a := by
  simpa [hasArbiter, length_without] using ha

/-- Others can be detached as before, and so can the same client once more. -/
theorem Detachable.without (h : w.Detachable a d) : (w.without a c slot).Detachable a d where
  there := by
    have hthere := h.there
    simpa [hasClient, clients_without] using hthere
  still := by
    have hthere : d < w.clients.length := of_decide_eq_true h.there
    have hstill := h.still
    by_cases hcd : c = d
    · subst hcd
      have hclient : (w.without a c slot).client c = (w.client c).stripped := by
        simp [World.client, clients_without, hthere]
      exact hclient ▸ hstill.stripped
    · simpa [World.client, clients_without, List.getElem?_set_ne hcd] using hstill
  found := by
    obtain ⟨other, hfind⟩ := h.found
    refine ⟨other, ?_⟩
    rw [arbiter_without ha]
    exact hfind

end

/-- What a number of detaches comes to is the set of slots that they mark. -/
theorem actAll_detach (ha : w.hasArbiter a) (h : ∀ c ∈ clients, w.Detachable a c) :
    (w.actAll (clients.map (.detach a))).1 =
      { w.leaving a (.ofList (clients.filterMap (w.arbiter a).find?)) with
        clients := strip w.clients clients } := by
  induction clients generalizing w with
  | nil =>
    rw [List.filterMap_nil, leaving_of_isEmpty (by decide)]
    rfl
  | cons c rest ih =>
    have hlt : a < w.arbiters.length := of_decide_eq_true ha
    obtain ⟨slot, hfind⟩ := (h c List.mem_cons_self).found
    obtain ⟨events, hact⟩ := act_detach ha (h c List.mem_cons_self) hfind
    have hrest := ih (w := w.without a c slot) (hasArbiter_without hlt c slot)
      fun d hd => (h d (List.mem_cons_of_mem _ hd)).without hlt c slot
    have hsame : ((w.without a c slot).arbiter a).find? = (w.arbiter a).find? := by
      rw [arbiter_without hlt]
      rfl
    rw [List.map_cons, actAll, hact]
    simp only
    rw [hrest, hsame, List.filterMap_cons_some hfind, SlotSet.ofList_cons,
      clients_without]
    simp only [without, leaving_setClient, leaving_leaving hlt]
    rfl

/-- To detach all clients is to detach the clients of the settled slots. -/
theorem ends_detachSlots (ha : w.hasArbiter a) {slots : List SlotId} (count : Nat)
    (h : ∀ slot ∈ slots, ∃ c, (w.arbiter a).client? slot = some c ∧ w.Detachable a c) :
    ∃ events, (w.detachSlots a count slots).Ends
      ⟨(w.actAll ((slots.filterMap (w.arbiter a).client?).map (.detach a))).1,
        .count (count + slots.length), events⟩ := by
  induction slots generalizing w count with
  | nil => exact ⟨_, .reply ..⟩
  | cons slot rest ih =>
    have hlt : a < w.arbiters.length := of_decide_eq_true ha
    obtain ⟨c, hclient, hc⟩ := h slot List.mem_cons_self
    obtain ⟨found, hfind⟩ := hc.found
    obtain ⟨events, hact⟩ := act_detach ha hc hfind
    have hsame : ((w.without a c found).arbiter a).client? = (w.arbiter a).client? := by
      rw [arbiter_without hlt]
      rfl
    obtain ⟨later, hrest⟩ := ih (w := w.without a c found) (hasArbiter_without hlt c found)
      (count + 1) fun other hother => by
        obtain ⟨d, hd, hdetachable⟩ := h other (List.mem_cons_of_mem _ hother)
        exact ⟨d, by rw [hsame, hd], hdetachable.without hlt c found⟩
    have hends : (w.begin (.perform (.detach a c))).Ends _ := hact ▸ w.ends_act (.detach a c)
    have hstep : w.detachSlots a count (slot :: rest) =
        w.call (.perform (.detach a c)) (.detachAll a rest count) := by
      rw [detachSlots, hclient]
    rw [hstep, List.filterMap_cons_some hclient, List.map_cons, actAll, hact, List.length_cons,
      Nat.add_comm rest.length, ← Nat.add_assoc]
    rw [hsame] at hrest
    have hresume : ((w.without a c found).resume (.slot found) (.detachAll a rest count)).Ends _ :=
      hrest
    exact ⟨_, ends_call hends hresume⟩

end World

end SharedBus
