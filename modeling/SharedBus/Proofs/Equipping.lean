import SharedBus.Proofs.Evaluation
import SharedBus.Proofs.World

/-! # Handing out handles in closed form

An attach gives its client one handle of each kind and a detach takes them back, in the same order
and by the same calls. A client that does nothing when it is called has then exchanged all handles
of the kinds that it takes, and nothing else has happened.
-/
namespace SharedBus

namespace Client

variable {client : Client}

/-- The client does nothing when it is given a handle or gives one back. -/
def IsStill (client : Client) : Prop := ∀ kind, ∀ actions ∈ client.hook kind, actions = []

instance (client : Client) : Decidable client.IsStill :=
  decidable_of_iff (∀ kind ∈ [HandleKind.notifier, .completion, .error],
      ∀ actions ∈ client.hook kind, actions = [])
    ⟨fun h kind => h kind (by cases kind <;> decide), fun h kind _ => h kind⟩

/-- The client is given the handle of one kind or gives it back, if it takes such handles. -/
def receive (client : Client) (kind : HandleKind) (handle : Option Handle) : Client :=
  if client.takes kind then client.install kind handle else client

/-- The client is given the handles of all kinds or gives them back. -/
def equip (client : Client) (handle : Option Handle) : Client :=
  ((client.receive .notifier handle).receive .completion handle).receive .error handle

/-- What can be noticed of it for one kind. -/
def installs (client : Client) (c : ClientId) (kind : HandleKind) (handle : Option Handle) :
    List Event :=
  if client.takes kind then [.installed c kind handle] else []

/-- What can be noticed of it for all kinds. -/
def equips (client : Client) (c : ClientId) (handle : Option Handle) : List Event :=
  client.installs c .notifier handle ++ client.installs c .completion handle ++
    client.installs c .error handle

theorem IsStill.hook_now (h : client.IsStill) (kind : HandleKind) :
    (client.hook kind).now = [] := by
  cases hhook : client.hook kind with
  | nil => rfl
  | cons actions rest => exact h kind actions (hhook ▸ List.mem_cons_self)

theorem IsStill.receive (h : client.IsStill) (kind : HandleKind) (handle : Option Handle) :
    (client.receive kind handle).IsStill := by
  unfold Client.receive
  split
  · intro other actions hmem
    rw [hook, install, PerKind.get_set] at hmem
    split at hmem
    · exact h kind actions (List.mem_of_mem_tail hmem)
    · exact h other actions hmem
  · exact h

@[simp] theorem takes_receive (client : Client) (kind : HandleKind) (handle : Option Handle)
    (other : HandleKind) : (client.receive kind handle).takes other = client.takes other := by
  unfold receive
  split <;> rfl

@[simp] theorem turn_receive (client : Client) (kind : HandleKind) (handle : Option Handle) :
    (client.receive kind handle).nextTurn.1 = client.nextTurn.1 := by
  unfold receive
  split
  · unfold nextTurn install
    cases client.turns <;> rfl
  · rfl

@[simp] theorem installs_receive (client : Client) (kind : HandleKind) (handle : Option Handle)
    (c : ClientId) (other : HandleKind) :
    (client.receive kind handle).installs c other = client.installs c other := by
  unfold installs
  simp

theorem get_handles_receive (client : Client) (kind : HandleKind) (handle : Option Handle)
    (other : HandleKind) : (client.receive kind handle).handles.get other =
      if other = kind ∧ client.takes kind then handle else client.handles.get other := by
  unfold receive
  split
  · rename_i htakes
    rw [install, PerKind.get_set]
    simp [htakes]
  · rename_i htakes
    simp [htakes]

theorem IsStill.equip (h : client.IsStill) (handle : Option Handle) :
    (client.equip handle).IsStill :=
  ((h.receive _ _).receive _ _).receive _ _

@[simp] theorem takes_equip (client : Client) (handle : Option Handle) (kind : HandleKind) :
    (client.equip handle).takes kind = client.takes kind := by
  simp [equip]

@[simp] theorem turn_equip (client : Client) (handle : Option Handle) :
    (client.equip handle).nextTurn.1 = client.nextTurn.1 := by
  simp [equip]

/-- All handles that the client takes are exchanged. -/
theorem get_handles_equip (client : Client) (handle : Option Handle) (kind : HandleKind) :
    (client.equip handle).handles.get kind =
      if client.takes kind then handle else client.handles.get kind := by
  simp only [equip, get_handles_receive, takes_receive]
  cases kind <;> simp

end Client

namespace World

variable {w : World} {c : ClientId}

/-- The client was given the handle of one kind or has given it back. -/
def installing (w : World) (c : ClientId) (kind : HandleKind) (handle : Option Handle) : World :=
  let listed := if (w.client c).takes kind then handle.toList else []
  { w with
    clients := w.clients.set c ((w.client c).receive kind handle)
    notifiers := if kind = .notifier then w.notifiers ++ listed else w.notifiers
    deliveries := if kind = .notifier then w.deliveries else w.deliveries ++ listed }

/-- The client was given the handles of all kinds or has given them back. -/
def equipping (w : World) (c : ClientId) (handle : Option Handle) : World :=
  ((w.installing c .notifier handle).installing c .completion handle).installing c .error handle

theorem client_setClient_self (hc : w.hasClient c) (client : Client) :
    (w.setClient c client).client c = client := by
  simp [World.client, setClient, of_decide_eq_true hc]

section
variable (hc : w.hasClient c)
include hc

theorem client_installing (kind : HandleKind) (handle : Option Handle) :
    (w.installing c kind handle).client c = (w.client c).receive kind handle :=
  client_setClient_self hc _

theorem hasClient_installing (kind : HandleKind) (handle : Option Handle) :
    (w.installing c kind handle).hasClient c := by
  simpa [hasClient, installing] using hc

theorem clients_equipping (handle : Option Handle) :
    (w.equipping c handle).clients = w.clients.set c ((w.client c).equip handle) := by
  have hnotifier := hasClient_installing hc .notifier handle
  have hcompletion := hasClient_installing hnotifier .completion handle
  have hclient : ((w.installing c .notifier handle).installing c .completion handle).client c =
      ((w.client c).receive .notifier handle).receive .completion handle := by
    rw [client_installing hnotifier, client_installing hc]
  calc (w.equipping c handle).clients
      = ((w.installing c .notifier handle).installing c .completion handle).clients.set c
          ((((w.client c).receive .notifier handle).receive .completion handle).receive .error
            handle) := by rw [← hclient]; rfl
    _ = w.clients.set c ((w.client c).equip handle) := by
        simp only [installing, List.set_set, Client.equip]

/-- Nothing is listed when handles are given back. -/
theorem equipping_none : w.equipping c none = w.setClient c ((w.client c).equip none) := by
  have hclients := clients_equipping hc none
  simp only [equipping, installing] at hclients ⊢
  simp [setClient, ← hclients]

end

/-- A client that does nothing when it is called is called for one handle. -/
theorem ends_install (h : (w.client c).IsStill) (kind : HandleKind) (handle : Option Handle) :
    (w.begin (.install c kind handle)).Ends
      ⟨w.installing c kind handle, .nothing, (w.client c).installs c kind handle⟩ := by
  cases htakes : (w.client c).takes kind with
  | true =>
    have hbegin : w.begin (.install c kind handle) =
        (w.installing c kind handle).call (.script []) (.answer .nothing)
          ((w.client c).installs c kind handle) := by
      cases handle <;> cases kind <;>
        simp [begin, beginInstall, installing, Client.installs, Client.receive, htakes, h.hook_now,
          setClient, record]
    have hrest : ((w.installing c kind handle).resume .nothing (.answer .nothing)).Ends _ :=
      .reply ..
    have hends : (w.begin (.install c kind handle)).Ends _ :=
      hbegin ▸ ends_call (ends_nothing _) hrest
    simpa using hends
  | false =>
    have hsame : w.installing c kind handle = w := by
      have hclients := congrArg (·.clients) (w.setClient_client (c := c))
      simp only [setClient] at hclients
      simp [installing, Client.receive, htakes, hclients]
    have hbegin : w.begin (.install c kind handle) = w.reply .nothing := by
      simp [begin, beginInstall, htakes]
    rw [hbegin, hsame, Client.installs, if_neg (by simp [htakes])]
    exact .reply ..

/-- The calls for the three kinds follow one another, whatever it is that waits for them. -/
theorem ends_equip {waiting : HandleKind → Activation} {handle : Option Handle}
    {events : List Event} {rest : Effect} (hc : w.hasClient c) (h : (w.client c).IsStill)
    (hnext : ∀ (w : World) (kind next : HandleKind), kind.next? = some next →
      w.resume .nothing (waiting kind) = w.call (.install c next handle) (waiting next))
    (hrest : ((w.equipping c handle).resume .nothing (waiting .error)).Ends rest) :
    (w.call (.install c .notifier handle) (waiting .notifier) events).Ends
      ⟨rest.world, rest.reply, events ++ (w.client c).equips c handle ++ rest.events⟩ := by
  have hthere := hasClient_installing hc .notifier handle
  have hfirst := client_installing hc .notifier handle
  have hsecond := client_installing hthere .completion handle
  rw [hfirst] at hsecond
  have hcompletion := ends_install (hfirst ▸ h.receive .notifier handle) .completion handle
  have herror := ends_install (hsecond ▸ (h.receive .notifier handle).receive .completion handle)
    .error handle
  have hlast : (((w.installing c .notifier handle).installing c .completion handle).resume .nothing
      (waiting .completion)).Ends _ := hnext _ .completion .error rfl ▸ ends_call herror hrest
  have hlater : ((w.installing c .notifier handle).resume .nothing (waiting .notifier)).Ends _ :=
    hnext _ .notifier .completion rfl ▸ ends_call hcompletion hlast
  have hends : (w.call (.install c .notifier handle) (waiting .notifier) events).Ends _ :=
    ends_call (ends_install h .notifier handle) hlater
  rw [hfirst, hsecond] at hends
  simpa [Client.equips] using hends

end World

end SharedBus
