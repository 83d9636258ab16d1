import ChangeDispatch.Proofs.Garbage.Idle

/-!
# Garbage on the acknowledgment topic is harmless

Two runs in which the same happens but for garbage on a topic that belongs to listeners, and but
for what the listeners do about it, lead to sessions that match. So every call has come as far in
one as in the other and has ended with the same result at the same moment, every further step has
the same reply, and the counters are the same but for that of the terminated messages. Garbage
keeps nothing from happening either: what can happen in one session can happen in the other after
idle steps of a listener.
-/
namespace ChangeDispatch

open List (Forall₂)

namespace Script

/-- What has happened, apart from the garbage on a topic. -/
def visible (T : String) (ts : List Transition) : List Action :=
  (ts.filter fun t => !t.isIdle T).map Transition.action

/-- No receive fails, and every subscription on the topic is that of a listener. -/
structure Session.Reserves (T : String) (x : Session) : Prop where
  works : x.system.host.broker.failReceives = 0
  dedicated : ∀ j s, x.system.host.broker.subscriptions[j]? = some s → s.topic = T →
    j ∈ x.system.receivers.listening

variable {T : String} {P : Nat → Nat → Prop} {ts us : List Transition} {x x' y y' z z' : Session}
  {a : Action} {c : Nat}

theorem visible_idle {t : Transition} (idle : t.isIdle T) : visible T (t :: ts) = visible T ts := by
  unfold visible
  rw [List.filter_cons_of_neg (by simpa using idle)]

theorem visible_busy {t : Transition} (busy : t.isIdle T = false) :
    visible T (t :: ts) = t.action :: visible T ts := by
  unfold visible
  rw [List.filter_cons_of_pos (by simpa using busy)]
  rfl

/-! ## What holds in the states of a run -/

theorem Runs.reserves (run : Runs ts z) (each : ∀ u ∈ ts, u.after.Reserves T) : z.Reserves T := by
  cases run with
  | start => exact ⟨rfl, nofun⟩
  | next _ _ => exact each _ List.mem_cons_self

theorem Runs.avoids (run : Runs ts z) (reserves : z.Reserves T) : z.Avoids T where
  consumers := by
    intro k hk s hs topic
    have listening := reserves.dedicated _ s hs topic
    have consuming : k.subscription ∈ z.system.receivers.consuming := List.mem_map_of_mem hk
    exact (List.nodup_append.mp run.apart.nodup).2.2 _ listening _ consuming rfl
  caller := by
    intro id i hi s hs topic
    have listening := reserves.dedicated i s hs topic
    have own : i ∈ z.ownSubscriptions :=
      List.mem_append_left _ (Names.mem_of_find? hi)
    exact run.apart.apart i (List.mem_append_left _ listening) own

/-- A listener holds nothing between its steps. -/
theorem Runs.settled (run : Runs ts z) (co : Correlator) (s : Subscription)
    (hc : z.system.correlators[c]? = some co)
    (hs : z.system.host.broker.subscriptions[co.subscription]? = some s) : s.held = [] := by
  refine (run.routed.incoming c s ?_).held
  unfold Session.ackSubscription?
  rw [System.getElem?_listening hc]
  exact hs

/-! ## Runs that match -/

/-- An idle action in the second of two sessions. -/
theorem matches_idle (run' : Runs us x') (m : x.Matches T P x')
    (works : x.system.host.broker.failReceives = 0) (h : x'.after? a = some y')
    (idle : Transition.isIdle T ⟨x', a, y'⟩) : x.Matches T P y' := by
  cases a with
  | perform step =>
    cases step with
    | inject topic payload =>
      obtain ⟨topic_eq, unread⟩ := (Bool.and_eq_true _ _).mp idle
      obtain rfl := eq_of_beq topic_eq
      obtain rfl := Option.some.inj h
      exact m.idle_inject (by simpa using unread)
    | _ => cases idle
  | agent agent =>
    cases agent with
    | listener c =>
      obtain ⟨w, hw, same, -⟩ :=
        m.idle_listener idle works fun co s hc hs => run'.settled co s hc hs
      obtain rfl := Option.some.inj (hw.symm.trans h)
      exact same
    | _ => cases idle
  | _ => cases idle

/-- An action that is idle in neither of two sessions. -/
theorem rel_after? (m : x.Matches T P x') (avoids : x.Avoids T)
    (busy : ∀ c, a = .agent (.listener c) → x.idles T c = false ∧ x'.idles T c = false) :
    Option.Rel (Session.Follows T P) (x.after? a) (x'.after? a) := by
  by_cases listens : ∃ c, a = .agent (.listener c)
  · obtain ⟨c, rfl⟩ := listens
    obtain ⟨still, still'⟩ := busy c rfl
    rcases rel_cases (m.after?_listener still still') with
      ⟨left, right⟩ | ⟨y, y', left, right, same⟩
    · rw [left, right]
      exact .none
    · rw [left, right]
      exact .some same.follows
  · exact m.after?_others avoids fun c hc => listens ⟨c, hc⟩

/-- Where the same has happened apart from garbage, the sessions match. The induction is on both
runs: the latest transition of one that is idle there is taken off that one alone, and two that
are not are taken off together. -/
theorem matches_of_visible (run : Runs ts z) (each : ∀ u ∈ ts, u.after.Reserves T)
    {ts' : List Transition} (run' : Runs ts' z') (same : visible T ts' = visible T ts) :
    ∃ P, z.Matches T P z' := by
  induction run generalizing ts' z' with
  | start =>
    induction run' with
    | start =>
      exact ⟨fun _ _ => False, .intro (.intro (.intro (.intro .nil .start)) .nil .nil) .nil⟩
    | @next us x' y' a run' h ih =>
      have idle : Transition.isIdle T ⟨x', a, y'⟩ := by
        by_contra busy
        rw [visible_busy (by simpa using busy)] at same
        cases same
      obtain ⟨P, m⟩ := ih (visible_idle idle ▸ same)
      exact ⟨P, matches_idle run' m rfl h idle⟩
  | @next ts x y a run h ih =>
    have before : ∀ u ∈ ts, u.after.Reserves T := fun u hu => each u (List.mem_cons_of_mem _ hu)
    have reserves := run.reserves before
    by_cases idle : Transition.isIdle T ⟨x, a, y⟩
    · rw [visible_idle idle] at same
      obtain ⟨P, m⟩ := ih before run' same
      have works := m.system.host.broker.failReceives_eq.trans reserves.works
      exact ⟨_, (matches_idle run m.symm works h idle).symm⟩
    · have busy : Transition.isIdle T ⟨x, a, y⟩ = false := by simpa using idle
      rw [visible_busy busy] at same
      induction run' with
      | start => cases same
      | @next us x' y' a' run' h' ih' =>
        by_cases idle' : Transition.isIdle T ⟨x', a', y'⟩
        · obtain ⟨P, m⟩ := ih' (visible_idle idle' ▸ same)
          exact ⟨P, matches_idle run' m (each _ List.mem_cons_self).works h' idle'⟩
        · have busy' : Transition.isIdle T ⟨x', a', y'⟩ = false := by simpa using idle'
          rw [visible_busy busy'] at same
          obtain ⟨rfl, earlier⟩ := List.cons.inj same
          obtain ⟨P, m⟩ := ih before run' earlier
          have steps := rel_after? m (run.avoids reserves) (a := a') fun c hc => by
            subst hc
            exact ⟨busy, busy'⟩
          rw [h, h'] at steps
          cases steps with
          | some follows =>
            obtain ⟨Q, -, m⟩ := follows
            exact ⟨Q, m⟩

/-! ## What the caller sees -/

/-- To the caller both sessions are the same, but for the count of terminated messages. -/
structure Alike (z z' : Session) : Prop where
  now : z'.system.host.now = z.system.host.now
  /-- Calls are at the same points, or have ended with the same result at the same moment. -/
  calls : z'.system.calls = z.system.calls
  running : z'.running = z.running
  registries : z'.system.registries = z.system.registries
  publishers : z'.system.publishers = z.system.publishers
  queues : z'.system.queues = z.system.queues
  published : z'.system.host.broker.published = z.system.host.broker.published
  snapshot : z'.snapshot = { z.snapshot with terminated := z'.snapshot.terminated }
  /-- Every step would have the same reply, but for the number of a message. -/
  replies : ∀ step, (z'.perform step).1.blurred = (z.perform step).1.blurred

theorem states_congr {α β γ : Type} (names : Names Nat) {objects : List α} {objects' : List β}
    {f : α → γ} {g : β → γ} (same : objects'.map g = objects.map f) :
    Session.states names objects' g = Session.states names objects f := by
  unfold Session.states
  refine congrArg (fun k => List.filterMap k names) (funext fun entry => ?_)
  have place : (objects'.map g)[entry.2]? = (objects.map f)[entry.2]? := by rw [same]
  rw [List.getElem?_map, List.getElem?_map] at place
  have paired := congrArg (Option.map fun state => (entry.1, state)) place
  rwa [Option.map_map, Option.map_map] at paired

theorem consumerState_eq {k k' : Consumer} (m : k.Matches P k') :
    Session.consumerState k' = Session.consumerState k := by
  cases m with
  | @intro phase same =>
    have ended : (phase == .ended) = (k.phase == .ended) := by
      revert same
      generalize k.phase = φ
      intro same
      cases same <;> rfl
    unfold Session.consumerState Consumer.isEnded
    rw [ended]

namespace Session.Matches

theorem registries_eq (m : x.Matches T P x') : x'.system.registries = x.system.registries := by
  refine map_eq_of_forall₂ m.system.correlators fun c c' mc => ?_
  cases mc
  rfl

theorem publisherState_eq (m : x.Matches T P x') : x'.publisherState = x.publisherState := by
  funext p
  have pending := m.system.correlator_eq p.correlator
    (f := fun c => c.elim 0 fun c => c.registry.pendingCount) fun c c' mc => by
      cases mc
      rfl
  unfold publisherState
  rw [pending]

theorem snapshot_eq (m : x.Matches T P x') :
    x'.snapshot = { x.snapshot with terminated := x'.snapshot.terminated } := by
  have publisherState := m.publisherState_eq
  have correlators := states_congr x.correlators
    (map_eq_of_forall₂ m.system.correlators (f := fun c => c.registry.pendingCount)
      (g := fun c => c.registry.pendingCount) fun c c' mc => by
        cases mc
        rfl)
  have consumers := states_congr x.consumers
    (map_eq_of_forall₂ m.system.consumers (f := consumerState) (g := consumerState)
      fun k k' mk => consumerState_eq mk)
  cases m with
  | intro ms _ =>
    cases ms with
    | intro hosts _ _ =>
      cases hosts with
      | intro brokers =>
        cases brokers with
        | intro _ _ =>
          unfold snapshot
          dsimp only at publisherState correlators consumers ⊢
          rw [publisherState, correlators, consumers]

theorem alike (m : x.Matches T P x') (avoids : x.Avoids T) : Alike x x' where
  now := m.system.host.now_eq
  calls := m.system.calls_eq
  running := m.running_eq
  registries := m.registries_eq
  publishers := m.system.publishers_eq
  queues := m.system.queues_eq
  published := m.system.host.broker.published_eq
  snapshot := m.snapshot_eq
  replies := by
    intro step
    by_cases passes : ∃ ms, step = .advance ms
    · obtain ⟨ms, rfl⟩ := passes
      rfl
    · exact (m.perform avoids fun ms hs => passes ⟨ms, hs⟩).reply

end Session.Matches

/-! ## Garbage keeps nothing from happening -/

/-- A listener gets through its garbage, and the sessions go on matching. -/
theorem Runs.catches_up (run' : Runs us x') (m : x.Matches T P x')
    (works : x.system.host.broker.failReceives = 0) (c : Nat) :
    ∃ vs w, Runs (vs ++ us) w ∧ (∀ v ∈ vs, v.isIdle T ∧ v.action = .agent (.listener c)) ∧
      x.Matches T P w ∧ w.idles T c = false := by
  -- every idle step of the listener brings it nearer to the end of its channel
  induction hn : x'.lag c using Nat.strongRecOn generalizing us x' with
  | ind n ih =>
    by_cases idle : x'.idles T c
    · obtain ⟨y', happens, same, nearer⟩ :=
        m.idle_listener idle works fun co s hc hs => run'.settled co s hc hs
      obtain ⟨vs, w, later, idles, still, busy⟩ :=
        ih (y'.lag c) (hn ▸ nearer) (.next run' happens) same rfl
      refine ⟨vs ++ [⟨x', .agent (.listener c), y'⟩], w, ?_, fun v hv => ?_, still, busy⟩
      · rwa [List.append_assoc]
      · rcases List.mem_append.mp hv with hv | hv
        · exact idles v hv
        · obtain rfl := List.mem_singleton.mp hv
          exact ⟨idle, rfl⟩
    · exact ⟨[], x', run', List.forall_mem_nil _, m, by simpa using idle⟩

theorem visible_append (idles : ∀ t ∈ ts, t.isIdle T) : visible T (ts ++ us) = visible T us := by
  induction ts with
  | nil => rfl
  | cons t ts ih =>
    rw [List.cons_append, visible_idle (idles t List.mem_cons_self)]
    exact ih fun u hu => idles u (List.mem_cons_of_mem _ hu)

/-- What is no garbage is none in any session, but for the steps of listeners. -/
theorem isIdle_eq (others : ∀ c, a ≠ .agent (.listener c)) :
    Transition.isIdle T ⟨x', a, y'⟩ = Transition.isIdle T ⟨x, a, y⟩ := by
  cases a with
  | perform step => cases step <;> rfl
  | agent agent =>
    cases agent with
    | listener c => exact absurd rfl (others c)
    | _ => rfl
  | _ => rfl

/-- What happens in the first of two sessions that match can happen in the second, if need be
after idle steps of a listener. -/
theorem Runs.goes_on (run : Runs ts x) (reserves : x.Reserves T) (run' : Runs us x')
    (m : x.Matches T P x') (h : x.after? a = some y)
    (busy : Transition.isIdle T ⟨x, a, y⟩ = false) :
    ∃ vs w y', Runs (⟨w, a, y'⟩ :: (vs ++ us)) y' ∧ Transition.isIdle T ⟨w, a, y'⟩ = false ∧
      ∀ v ∈ vs, v.isIdle T ∧ ∃ c, v.action = .agent (.listener c) := by
  have avoids := run.avoids reserves
  by_cases listens : ∃ c, a = .agent (.listener c)
  · obtain ⟨c, rfl⟩ := listens
    obtain ⟨vs, w, later, idles, still, ahead⟩ := run'.catches_up m reserves.works c
    have steps := rel_after? still avoids (a := .agent (.listener c)) fun e he => by
      cases he
      exact ⟨busy, ahead⟩
    rw [h] at steps
    rcases rel_cases steps with ⟨none, -⟩ | ⟨_, y', -, happens, -⟩
    · cases none
    · exact ⟨vs, w, y', .next later happens, ahead, fun v hv => ⟨(idles v hv).1, c, (idles v hv).2⟩⟩
  · have others : ∀ c, a ≠ .agent (.listener c) := fun c hc => listens ⟨c, hc⟩
    have steps := m.after?_others avoids others
    rw [h] at steps
    rcases rel_cases steps with ⟨none, -⟩ | ⟨_, y', -, happens, -⟩
    · cases none
    · exact ⟨[], x', y', .next run' happens, (isIdle_eq others).trans busy, List.forall_mem_nil _⟩

/-! ## The result -/

/-- Garbage on a topic that belongs to listeners changes nothing but the count of terminated
messages, as long as no receive fails: two runs in which the same happens apart from it are alike
to the caller, and whatever can happen next in one can happen next in the other, if need be after
steps in which a listener drops garbage. -/
theorem garbage_harmless {ts' : List Transition} (run : Runs ts z)
    (reserves : ∀ u ∈ ts, u.after.Reserves T) (run' : Runs ts' z')
    (same : visible T ts' = visible T ts) :
    Alike z z' ∧ ∀ a y, z.after? a = some y → Transition.isIdle T ⟨z, a, y⟩ = false →
      ∃ vs w y', Runs (⟨w, a, y'⟩ :: (vs ++ ts')) y' ∧
        visible T (⟨w, a, y'⟩ :: (vs ++ ts')) = a :: visible T ts ∧
        ∀ v ∈ vs, ∃ c, v.action = .agent (.listener c) := by
  obtain ⟨P, m⟩ := matches_of_visible run reserves run' same
  have reserved := run.reserves reserves
  refine ⟨m.alike (run.avoids reserved), fun a y h busy => ?_⟩
  obtain ⟨vs, w, y', later, still, idles⟩ := run.goes_on reserved run' m h busy
  refine ⟨vs, w, y', later, ?_, fun v hv => (idles v hv).2⟩
  rw [visible_busy still, visible_append fun v hv => (idles v hv).1, same]

/-- A wait gets its acknowledgment; the latest action first. -/
def answered : List Action :=
  [.agent (.call 0), .agent (.listener 0),
   .perform (.inject "acks" (AckEvent.write secondAnswer)), .agent (.call 0),
   .perform (.wait "w" none), .agent (.listener 0),
   .perform (.register "c" secondAnswer.event "w"),
   .perform (.startCorrelator "c" ⟨"acks", "listener", some 3⟩ (.ofMillis 30000) (.ofMillis 15000))]

/-- The same with garbage before the listener has started and right before the acknowledgment. -/
def answeredAmidGarbage : List Action :=
  [.agent (.call 0), .agent (.listener 0), .agent (.listener 0), .agent (.listener 0),
   .perform (.inject "acks" (AckEvent.write secondAnswer)), .perform (.inject "acks" [0]),
   .agent (.call 0), .perform (.wait "w" none), .agent (.listener 0), .agent (.listener 0),
   .agent (.listener 0), .perform (.register "c" secondAnswer.event "w"),
   .perform (.inject "acks" []),
   .perform (.startCorrelator "c" ⟨"acks", "listener", some 3⟩ (.ofMillis 30000) (.ofMillis 15000))]

set_option maxRecDepth 100000 in
/-- Both waits have got the acknowledgment, and two payloads were terminated in one of the runs. -/
theorem answered_amid_garbage :
    Alike (play answered).2 (play answeredAmidGarbage).2 ∧
      (play answered).2.system.calls = [⟨.none, .ended 0 (.acknowledged secondAnswer)⟩] ∧
      (play answered).2.system.host.broker.terminated = 0 ∧
      (play answeredAmidGarbage).2.system.host.broker.terminated = 2 := by
  have checks : ((play answered).1.all fun u =>
      u.after.system.host.broker.failReceives == 0 && u.after.system.receivers.listening == [0] &&
        u.after.system.host.broker.subscriptions.length == 1) = true := by rfl
  have reserves : ∀ u ∈ (play answered).1, u.after.Reserves "acks" := by
    intro u hu
    have check := List.all_eq_true.mp checks u hu
    simp only [Bool.and_eq_true, beq_iff_eq] at check
    obtain ⟨⟨works, listening⟩, one⟩ := check
    refine ⟨works, fun j s hs _ => ?_⟩
    have := (List.getElem?_eq_some_iff.mp hs).1
    rw [listening]
    exact List.mem_singleton.mpr (by omega)
  have same : visible "acks" (play answeredAmidGarbage).1 = visible "acks" (play answered).1 := by
    rfl
  exact ⟨(garbage_harmless (play_runs answered) reserves (play_runs answeredAmidGarbage) same).1,
    by rfl, by rfl, by rfl⟩

end Script

end ChangeDispatch
