import ChangeDispatch.Proofs.Run.Effects

/-!
# The steps of agents and of sessions

An agent is a part with a step function of its own; its step puts the part and the host
back into the system. Every action of a session is a step of a script, the start of a
consumer, the step of one agent, or the passing of time.
-/
namespace ChangeDispatch

namespace Agent

variable {s t : System}

theorem step?_worker {i : Nat} (h : (Agent.worker i).step? s = some t) :
    ∃ p q host q' w, s.publishers[i]? = some p ∧ s.queues[p.queue]? = some q ∧
      p.worker.step? s.host q = some (host, q', w) ∧
      t = ({ s with host }.adjustQueue p.queue fun _ => q').adjustPublisher i
        fun p => { p with worker := w } := by
  obtain ⟨p, hp, h⟩ := Option.bind_eq_some_iff.mp h
  obtain ⟨q, hq, h⟩ := Option.bind_eq_some_iff.mp h
  obtain ⟨⟨host, q', w⟩, hw, h⟩ := Option.bind_eq_some_iff.mp h
  exact ⟨p, q, host, q', w, hp, hq, hw, (Option.some.inj h).symm⟩

theorem step?_listener {c : Nat} (h : (Agent.listener c).step? s = some t) :
    ∃ co host co', s.correlators[c]? = some co ∧ co.step? s.host = some (host, co') ∧
      t = { s with host }.adjustCorrelator c fun _ => co' := by
  obtain ⟨co, hc, h⟩ := Option.bind_eq_some_iff.mp h
  obtain ⟨⟨host, co'⟩, hs, h⟩ := Option.bind_eq_some_iff.mp h
  exact ⟨co, host, co', hc, hs, (Option.some.inj h).symm⟩

theorem step?_consumer {i : Nat} (h : (Agent.consumer i).step? s = some t) :
    ∃ k host k', s.consumers[i]? = some k ∧ k.step? s.host = some (host, k') ∧
      t = { s with host }.adjustConsumer i fun _ => k' := by
  obtain ⟨k, hk, h⟩ := Option.bind_eq_some_iff.mp h
  obtain ⟨⟨host, k'⟩, hs, h⟩ := Option.bind_eq_some_iff.mp h
  exact ⟨k, host, k', hk, hs, (Option.some.inj h).symm⟩

theorem step?_redelivery {i serial : Nat} (h : (Agent.redelivery i serial).step? s = some t) :
    ∃ entry, s.host.broker.delayed? i serial = some entry ∧ s.host.isDue entry.1 ∧
      t = s.setBroker (s.host.broker.offerDelayed i entry) := by
  obtain ⟨entry, he, h⟩ := Option.bind_eq_some_iff.mp h
  split at h
  next hd => exact ⟨entry, he, hd, (Option.some.inj h).symm⟩
  next => cases h

end Agent

namespace Script.Session

/-- What an action can be. -/
inductive Moves (x : Session) : Action → Session → Prop where
  | performed {a : Action} {y : Session} :
      (∀ agent, a ≠ .agent agent) → Performed x y → Moves x a y
  | injected (topic : String) (payload : Payload) :
      Moves x (.perform (.inject topic payload)) (x.onBroker fun b => b.fanOut topic payload)
  | stepped {agent : Agent} {t : System} :
      agent.step? x.system = some t → Moves x (.agent agent) { x with system := t }
  | passed {moment : Nat} :
      x.system.host.now ≤ moment → Moves x (.tick moment) (x.onSystem (·.atMoment moment))

theorem moves_of_after? {x y : Session} {a : Action} (h : x.after? a = some y) : Moves x a y := by
  cases a with
  | perform step =>
    unfold after? at h
    dsimp only at h
    split at h
    next ha =>
      obtain rfl := Option.some.inj h
      by_cases hi : ∃ topic payload, step = .inject topic payload
      · obtain ⟨topic, payload, rfl⟩ := hi
        exact .injected topic payload
      · exact .performed (by simp) (performed ha fun topic payload he => hi ⟨topic, payload, he⟩)
    next => cases h
  | serve id topic name policy handler =>
    obtain rfl := Option.some.inj h
    have started := x.performed_startConsumer topic name policy handler
    refine .performed (by simp) ?_
    unfold serve
    split
    next e system hs => rwa [hs] at started
    next i system hs =>
      rw [hs] at started
      exact started.rename
  | agent agent =>
    obtain ⟨t, ht, rfl⟩ := Option.map_eq_some_iff.mp h
    exact .stepped ht
  | tick moment =>
    unfold after? at h
    dsimp only at h
    split at h
    next hle => exact Option.some.inj h ▸ .passed hle
    next => cases h
  | report =>
    obtain rfl := Option.some.inj h
    refine .performed (by simp) (.of_elsewhere (.of_quiet (.refl _) ?_ ?_ rfl))
    · exact List.Subset.refl _
    · exact List.Subset.refl _

end Script.Session

end ChangeDispatch
