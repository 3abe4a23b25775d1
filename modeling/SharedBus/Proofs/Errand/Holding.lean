import SharedBus.Proofs.Errand.Run

/-! # What the clients hold

A client holds the handles that it was handed last. Attaches and detaches hand them over kind by
kind, and nothing else does.
-/
namespace SharedBus

namespace HandleKind

variable {kind next other : HandleKind}

theorem left_of_next? (h : kind.next? = some next) : kind.left = next.left + 1 := by
  cases kind <;> cases h <;> rfl

theorem left_eq_zero (h : kind.next? = none) : kind.left = 0 := by
  cases kind <;> first | rfl | cases h

theorem left_le_two (kind : HandleKind) : kind.left ≤ 2 := by
  cases kind <;> decide

theorem eq_of_left_eq (h : kind.left = other.left) : kind = other := by
  cases kind <;> cases other <;> first | rfl | cases h

end HandleKind

/-- Whether the client keeps a handle of this kind that it is handed. -/
def World.receives (w : World) (c : ClientId) (kind : HandleKind) : Bool :=
  w.hasClient c && (w.client c).takes kind

/-- The handle of this kind that the client holds. -/
def World.held (w : World) (c : ClientId) (kind : HandleKind) : Option Handle :=
  (w.client c).handles.get kind

section
variable {w w' : World} {c d : ClientId} {kind : HandleKind}

private theorem World.receives_congr (hlength : w'.clients.length = w.clients.length)
    (htakes : (w.client c).takesErrors = (w'.client c).takesErrors) (kind : HandleKind) :
    w'.receives c kind = w.receives c kind := by
  simp only [receives, hasClient, hlength, Client.takes, htakes]

theorem World.client_of_holdings (h : w'.holdings = w.holdings) (c : ClientId) :
    (∀ kind, w'.receives c kind = w.receives c kind) ∧ ∀ kind, w'.held c kind = w.held c kind := by
  have hlength : w'.clients.length = w.clients.length := by
    simpa [holdings] using congrArg List.length h
  have hclient := w'.holdings_getD c
  rw [h, holdings_getD] at hclient
  obtain ⟨htakes, hhandles⟩ := Prod.mk.inj hclient
  exact ⟨receives_congr hlength htakes, fun kind => by rw [held, held, hhandles]⟩

theorem World.client_of_holdings_set {handles : PerKind (Option Handle)}
    (h : w'.holdings = w.holdings.set d ((w.client d).takesErrors, handles)) (c : ClientId) :
    (∀ kind, w'.receives c kind = w.receives c kind) ∧
      ∀ kind, w'.held c kind =
        if c = d ∧ w.hasClient d then handles.get kind else w.held c kind := by
  have hlength : w'.clients.length = w.clients.length := by
    simpa [holdings] using congrArg List.length h
  have hclient := w'.holdings_getD c
  rw [h, List.getD_eq_getElem?_getD] at hclient
  by_cases hcd : c = d ∧ w.hasClient d
  · obtain ⟨rfl, hthere⟩ := hcd
    have hlt : c < w.holdings.length := by simpa [holdings, hasClient] using hthere
    rw [List.getElem?_set_self hlt, Option.getD_some] at hclient
    obtain ⟨htakes, hhandles⟩ := Prod.mk.inj hclient
    exact ⟨receives_congr hlength htakes,
      fun kind => by rw [if_pos ⟨rfl, hthere⟩, held, ← hhandles]⟩
  · have hother : (w.holdings.set d ((w.client d).takesErrors, handles))[c]? = w.holdings[c]? := by
      by_cases hd : d = c
      · subst hd
        have hge : w.holdings.length ≤ d := by simpa [holdings, hasClient] using hcd
        rw [List.set_eq_of_length_le hge]
      · exact List.getElem?_set_ne hd
    rw [hother, ← List.getD_eq_getElem?_getD, holdings_getD] at hclient
    obtain ⟨htakes, hhandles⟩ := Prod.mk.inj hclient
    exact ⟨receives_congr hlength htakes, fun kind => by rw [if_neg hcd, held, held, hhandles]⟩

end

open Machine

theorem Machine.install?_of_detach? {m : Machine} {p : ArbiterId × ClientId}
    (h : m.detach? = some p) : m.install? = none := by
  unfold detach? at h
  split at h
  · rename_i hcall
    rw [install?_of_call hcall]
    rfl
  · cases h

section
variable {m m' : Machine} (h : Handover m m') (c : ClientId) (kind : HandleKind)
include h

/-- Either the step is none of the holdings' business, or the client takes what it is handed. -/
theorem Handover.cases_holdings : m'.world.holdings = m.world.holdings ∧ m.install? = Option.none ∨
    ∃ d kind handle, m.install? = some (d, kind, handle) ∧
      m'.world.holdings = if (m.world.client d).takes kind then
        m.world.holdings.set d ((m.world.client d).takesErrors,
          (m.world.client d).handles.set kind handle) else m.world.holdings := by
  cases h with
  | none hholdings hnow | install hholdings hnow | uninstall hholdings hnow =>
    exact .inl ⟨hholdings, hnow⟩
  | bind hholdings hback => exact .inl ⟨hholdings, install?_of_back hback⟩
  | detach hholdings hdetach => exact .inl ⟨hholdings, install?_of_detach? hdetach⟩
  | take hinstall hholdings => exact .inr ⟨_, _, _, hinstall, hholdings⟩

theorem Handover.receives : m'.world.receives c kind = m.world.receives c kind := by
  rcases h.cases_holdings with ⟨hholdings, _⟩ | ⟨d, kind', handle, _, hholdings⟩
  · exact (World.client_of_holdings hholdings c).1 kind
  · split at hholdings
    · exact (World.client_of_holdings_set hholdings c).1 kind
    · exact (World.client_of_holdings hholdings c).1 kind

/-- A client holds what it held before, or what it has just been handed. -/
theorem Handover.held :
    m'.world.held c kind = m.world.held c kind ∧
        (∀ handle, m.install? = some (c, kind, handle) → m.world.receives c kind = false) ∨
      ∃ handle, m.install? = some (c, kind, handle) ∧ m.world.receives c kind = true ∧
        m'.world.held c kind = handle := by
  rcases h.cases_holdings with ⟨hholdings, hnow⟩ | ⟨d, kind', handle, hinstall, hholdings⟩
  · exact .inl ⟨(World.client_of_holdings hholdings c).2 kind, by simp [hnow]⟩
  · by_cases hhere : d = c ∧ kind' = kind ∧ m.world.receives d kind' = true
    · obtain ⟨rfl, rfl, hreceives⟩ := hhere
      obtain ⟨hthere, htakes⟩ := Bool.and_eq_true_iff.1 hreceives
      rw [if_pos htakes] at hholdings
      refine .inr ⟨handle, hinstall, hreceives, ?_⟩
      rw [(World.client_of_holdings_set hholdings d).2, if_pos ⟨rfl, hthere⟩, PerKind.get_set,
        if_pos rfl]
    · refine .inl ⟨?_, fun handle' hhanded => ?_⟩
      · split at hholdings
        · rename_i htakes
          rw [(World.client_of_holdings_set hholdings c).2]
          split
          · rename_i hthere
            obtain ⟨rfl, hthere⟩ := hthere
            have hkind : kind ≠ kind' := fun heq => hhere ⟨rfl, heq.symm, by
              simp [World.receives, hthere, htakes]⟩
            rw [PerKind.get_set, if_neg hkind]
            rfl
          · rfl
        · exact (World.client_of_holdings hholdings c).2 kind
      · rw [hinstall] at hhanded
        obtain ⟨rfl, rfl, _⟩ : d = c ∧ kind' = kind ∧ handle = handle' := by simpa using hhanded
        simpa using hhere

end

section
variable {m m' : Machine} {a : ArbiterId} {c : ClientId} {slot : SlotId} {kind : HandleKind}
  (h : Handover m m')
include h

/-- An attach gives out handles only after it has bound its slot. -/
theorem Handover.install_pushed (hmem : .install a c slot kind ∈ m'.stack) :
    (∃ kind, .install a c slot kind ∈ m.stack) ∨ ∃ reply tag rest,
      m.control = .back reply ∧ m.stack = .bind a c tag slot :: rest := by
  cases h with
  | none _ _ _ hstack | take _ _ _ hstack => exact .inl ⟨kind, hstack _ hmem rfl⟩
  | bind _ hback hstack hnext =>
    rcases hnext.mem_stack hmem with hold | hnew
    · exact .inl ⟨kind, hstack ▸ List.mem_cons_of_mem _ hold⟩
    · cases hnew
      exact .inr ⟨_, _, _, hback, hstack⟩
  | install _ _ hstack _ hnext =>
    rcases hnext.mem_stack hmem with hold | hnew
    · exact .inl ⟨kind, hstack ▸ List.mem_cons_of_mem _ hold⟩
    · cases hnew
      exact .inl ⟨_, hstack ▸ List.mem_cons_self⟩
  | detach _ _ hnext =>
    rcases hnext.mem_stack hmem with hold | hnew
    · exact .inl ⟨kind, hold⟩
    · cases hnew
  | uninstall _ _ hstack _ hnext =>
    rcases hnext.mem_stack hmem with hold | hnew
    · exact .inl ⟨kind, hstack ▸ List.mem_cons_of_mem _ hold⟩
    · cases hnew

/-- A detach takes one handle back after the other, from the first on. -/
theorem Handover.uninstall_pushed (hmem : .uninstall a c slot kind ∈ m'.stack) :
    .uninstall a c slot kind ∈ m.stack ∨
      m'.install? = some (c, kind, Option.none) ∧ m.install? = Option.none ∧
        (kind = .notifier ∧ m.detach? = some (a, c) ∨
          ∃ last, .uninstall a c slot last ∈ m.stack ∧ last.next? = some kind) := by
  cases h with
  | none _ _ _ hstack | take _ _ _ hstack => exact .inl (hstack _ hmem rfl)
  | bind _ _ hstack hnext | install _ _ hstack _ hnext =>
    rcases hnext.mem_stack hmem with hold | hnew
    · exact .inl (hstack ▸ List.mem_cons_of_mem _ hold)
    · cases hnew
  | detach _ hdetach hnext =>
    rcases hnext.mem_stack hmem with hold | hnew
    · exact .inl hold
    · cases hnew
      exact .inr ⟨install?_of_call hnext.1, install?_of_detach? hdetach, .inl ⟨rfl, hdetach⟩⟩
  | uninstall _ hnow hstack hkind hnext =>
    rcases hnext.mem_stack hmem with hold | hnew
    · exact .inl (hstack ▸ List.mem_cons_of_mem _ hold)
    · cases hnew
      exact .inr ⟨install?_of_call hnext.1, hnow,
        .inr ⟨_, hstack ▸ List.mem_cons_self, hkind⟩⟩

/-- Whatever is about to be handed out comes from an attach that waits for it. -/
theorem Handover.granting (hinstall : m'.install? = some (c, kind, some ⟨a, slot⟩)) :
    .install a c slot kind ∈ m'.stack := by
  have hgrants : ∀ {handle : Option Handle} {d : ClientId} {kind' : HandleKind} {f : Activation}
      {rest : List Activation}, m'.Follows (.call (.install d kind' handle) f) rest →
        d = c ∧ kind' = kind ∧ handle = some ⟨a, slot⟩ ∧ f ∈ m'.stack := by
    intro handle d kind' f rest hnext
    rw [install?_of_call hnext.1] at hinstall
    obtain ⟨rfl, rfl, rfl⟩ : d = c ∧ kind' = kind ∧ handle = some ⟨a, slot⟩ := by
      simpa using hinstall
    exact ⟨rfl, rfl, rfl, hnext.2 ▸ List.mem_cons_self⟩
  cases h with
  | none _ _ hnext | take _ _ hnext => cases hnext.symm.trans hinstall
  | bind _ _ _ hnext | install _ _ _ _ hnext =>
    obtain ⟨rfl, rfl, hhandle, hmem⟩ := hgrants hnext
    cases hhandle
    exact hmem
  | detach _ _ hnext | uninstall _ _ _ _ hnext =>
    obtain ⟨_, _, hhandle, _⟩ := hgrants hnext
    cases hhandle

end

end SharedBus
