import SharedBus.Proofs.Draining.Pass
import SharedBus.Proofs.Draining.Silence

/-! # Draining is bounded by the work put in

Passes queue passes and callbacks ask for more, but every job that a queue runs is one that waited
or one for which somebody has worked meanwhile. Nothing goes on because a client stays busy.
-/
namespace SharedBus

namespace Machine

variable {m : Machine}

/-- Every call ends. While passes keep apart, a pass gives at most as many turns as slots are pending
when it begins, one more, and one for every request made during it, and it sets out to free no more
slots than are detaching then or marked during it. A queue that is emptied starts no more jobs than
wait in it then and are worked for meanwhile, and just those that wait if nobody acts. -/
theorem draining_is_bounded (hm : Reachable PassesApart m) :
    (∀ call, m.control = .call call → ∃ n effect, m.Takes n effect) ∧
    (∀ a race n effect, m.control = .call (.pass a race) → m.Takes n effect →
      (∀ k ≤ n, (m.after k).PassesApart) →
        effect.events.countP (·.isTurnOf a) ≤
          (m.books a).pending.size + 1 + effect.events.countP (·.isRequestOf a) ∧
        effect.events.countP (·.isWithdrawalOf a) ≤
          (m.books a).detaching.size + effect.events.countP (·.isMarkOf a)) ∧
    ∀ q action n effect, action = .runPending q ∨ action = .drain q →
      m.control = .call (.perform action) → m.world.hasQueue q → m.Takes n effect →
        ((∀ k ≤ n, (m.after k).PassesApart) → (started q effect.events).length ≤
          (m.world.queue q).entries.length + (m.efforts q n).length) ∧
        (∀ ran, effect.reply = .count ran → ran ≤ (started q effect.events).length) ∧
        (Silent effect.events →
          (started q effect.events).length = (m.world.queue q).entries.length ∧
          (action = .runPending q → effect.reply = .count (m.world.queue q).entries.length)) := by
  refine ⟨fun call hcall => ?_, fun a race n effect hcall ht => ht.pass_le hcall hm,
    fun q action n effect haction hcall hthere ht => ⟨ht.started_le hcall hm (q := q), ?_⟩⟩
  · obtain ⟨effect, hends, _⟩ := (m.world.begin call).exists_ends
    obtain ⟨n, ht⟩ := takes_of_ends hcall hends
    exact ⟨n, effect, ht⟩
  · have hends := ht.ends_begin hcall
    have hq : q < m.world.queues.length := by simpa [World.hasQueue] using hthere
    obtain ⟨silent, hdrain, hloud⟩ : ∃ silent, m.world.perform action = m.world.drain q 0 silent ∧
        (action = .runPending q → silent = false) := by
      rcases haction with rfl | rfl
      · exact ⟨false, if_pos hthere, fun _ => rfl⟩
      · exact ⟨true, if_pos hthere, fun hpending => by cases hpending⟩
    have hends : (m.world.drain q 0 silent).Ends effect := hdrain ▸ hends
    refine ⟨fun ran hran => ?_, fun hsilent => ?_⟩
    · simpa using World.count_le_of_drain hends rfl hran
    · obtain ⟨hstarted, hreply⟩ := World.silent_drain hq rfl hends hsilent
      refine ⟨hstarted, fun hpending => ?_⟩
      rw [hreply, hloud hpending, Nat.zero_add]
      rfl

end Machine

/-- A world to play in whose first client asks again in its first turn, and keeps the bus. -/
def World.insistent : World where
  queues := [{ bound := none }]
  consumers := [{}]
  clients := [{ turns := [⟨.busy, [.notify 0]⟩] }, {}]

theorem World.isInitial_insistent : World.insistent.IsInitial where
  arbiters := rfl
  queues := by simp [insistent]
  clients := by simp [insistent]
  notifiers := rfl
  deliveries := rfl

namespace Machine

/-- A slot asks again while another one waits, so the request queues no pass. The arbiter queues one
itself when the slot comes to own the bus. -/
theorem draining_is_bounded_insistent :
    let m := play 43 [.build 0 0 (some 2), .attach 0 0 ⟨7⟩ none none, .attach 0 1 ⟨8⟩ none none,
      .notify 0, .notify 1, .runPending 0] (rest .insistent)
    (m.world.queue 0).entries = [.pass 0] ∧ m.efforts 0 27 = [.pass 0] ∧
      ∃ effect, m.Takes 27 effect ∧ effect.reply = .count 2 ∧
        (started 0 effect.events).length ≤
          (m.world.queue 0).entries.length + (m.efforts 0 27).length := by
  intro m
  have hm : Reachable PassesApart m := .of_plays World.isInitial_insistent 43 _ (by decide +kernel)
  have hcall : m.control = .call (.perform (.runPending 0)) := by rfl
  have hapart : ∀ k < 28, (m.after k).PassesApart := by decide +kernel
  have hwaiting : ∀ k < 27, 0 < k → (m.after k).stack.isEmpty = false := by decide +kernel
  have hreply : (m.after 27).reply? = some (.count 2) := by decide +kernel
  obtain ⟨new, hnew⟩ := (Run.after 27 m).trace
  have ht := takes_of_reply? rfl hreply hnew hwaiting
  obtain ⟨_, _, hdrain⟩ := draining_is_bounded hm
  obtain ⟨hbounded, _⟩ := hdrain 0 _ 27 _ (.inl rfl) hcall (by decide +kernel) ht
  exact ⟨by decide +kernel, by decide +kernel, _, ht, rfl,
    hbounded fun k hk => hapart k (Nat.lt_succ_of_le hk)⟩

end Machine

end SharedBus
