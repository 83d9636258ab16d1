import ChangeDispatch.Proofs.Publisher.Queues

/-!
# Producers

A call brings at most one event, to one queue, and then learns once what became of it. The
call is known by its number, which is the ticket of its event.
-/
namespace ChangeDispatch.Script

variable {ts : List Transition} {x y z : Session} {a : Action}

/-! ## Every publisher has a queue of its own -/

structure Owning (x : Session) : Prop where
  nodup : (x.system.publishers.map Publisher.queue).Nodup
  known : ∀ j ∈ x.system.publishers.map Publisher.queue, j < x.system.queues.length
  apart : ∀ j ∈ x.system.publishers.map Publisher.queue, j ∉ x.ownQueues
  own : ∀ j ∈ x.ownQueues, j < x.system.queues.length

theorem queues_of_cores {l l' : List Publisher} (h : l'.map Publisher.core = l.map Publisher.core) :
    l'.map Publisher.queue = l.map Publisher.queue := by
  have same := congrArg (List.map Publisher.queue) h
  rwa [List.map_map, List.map_map] at same

namespace Owning

/-- No publisher is added. -/
theorem spare (h : Owning x) {n : Nat} (length : x.system.queues.length ≤ n)
    (longer : n ≤ y.system.queues.length)
    (owned : ∀ j ∈ y.ownQueues, j ∈ x.ownQueues ∨ n ≤ j ∧ j < y.system.queues.length)
    (publishers : y.system.publishers.map Publisher.queue =
      x.system.publishers.map Publisher.queue) : Owning y := by
  refine ⟨publishers ▸ h.nodup, fun j hj => ?_, fun j hj hown => ?_, fun j hj => ?_⟩
  · have := h.known j (publishers ▸ hj)
    omega
  · rw [publishers] at hj
    rcases owned j hown with ho | hnew
    · exact h.apart j hj ho
    · have := h.known j hj
      omega
  · rcases owned j hj with ho | hnew
    · have := h.own j ho
      omega
    · exact hnew.2

/-- A publisher that is added gets a queue that is new. -/
theorem add (h : Owning x) {q : Queue}
    (queues : Spares Queue.core x.ownQueues y.ownQueues (x.system.queues ++ [q]) y.system.queues)
    (publishers : y.system.publishers.map Publisher.queue =
      x.system.publishers.map Publisher.queue ++ [x.system.queues.length]) : Owning y := by
  have longer := queues.length_le
  rw [List.length_append, List.length_singleton] at longer
  have cases : ∀ j ∈ y.system.publishers.map Publisher.queue,
      j ∈ x.system.publishers.map Publisher.queue ∨ j = x.system.queues.length := by
    intro j hj
    rw [publishers] at hj
    exact (List.mem_append.mp hj).imp_right List.mem_singleton.mp
  refine ⟨?_, fun j hj => ?_, fun j hj hown => ?_, fun j hj => ?_⟩
  · rw [publishers]
    refine (List.perm_append_singleton _ _).nodup_iff.mpr
      (List.nodup_cons.mpr ⟨fun hj => ?_, h.nodup⟩)
    exact Nat.lt_irrefl _ (h.known _ hj)
  · rcases cases j hj with hj | rfl
    · have := h.known j hj
      omega
    · omega
  · have bound : j < x.system.queues.length + 1 := by
      rcases cases j hj with hj | rfl
      · exact Nat.lt_succ_of_lt (h.known j hj)
      · exact Nat.lt_succ_self _
    rcases queues.owned j hown with ho | hnew
    · rcases cases j hj with hj | rfl
      · exact h.apart j hj ho
      · exact Nat.lt_irrefl _ (h.own _ ho)
    · rw [List.length_append, List.length_singleton] at hnew
      omega
  · rcases queues.owned j hj with ho | hnew
    · have := h.own j ho
      omega
    · exact hnew.2

theorem eq_of_queue (h : Owning x) {i k : Nat} {p p' : Publisher}
    (hp : x.system.publishers[i]? = some p) (hp' : x.system.publishers[k]? = some p')
    (he : p.queue = p'.queue) : i = k := by
  have hi : (x.system.publishers.map Publisher.queue)[i]? = some p.queue := by
    rw [List.getElem?_map, hp]
    rfl
  have hk : (x.system.publishers.map Publisher.queue)[k]? = some p.queue := by
    rw [List.getElem?_map, hp', he]
    rfl
  exact (List.getElem?_inj (List.getElem?_eq_some_iff.mp hi).1 h.nodup).mp (hi.trans hk.symm)

theorem after? (h : Owning x) (hs : x.after? a = some y) : Owning y := by
  cases Session.trades_of_after? hs with
  | quiet _ _ queues publishers =>
    exact h.spare (Nat.le_refl _) queues.length_le queues.owned (queues_of_cores publishers)
  | opened _ _ _ queues publishers _ hq _ _ =>
    refine h.add queues ((queues_of_cores publishers).trans ?_)
    rw [List.map_append, List.map_singleton, hq]
  | aborted _ _ _ _ queues publishers =>
    exact h.spare (Nat.le_of_eq (System.length_leaveLine _ _ _).symm) queues.length_le queues.owned
      (queues_of_cores publishers)
  | called _ trade _ _ queues publishers =>
    have length := congrArg List.length queues
    rw [List.length_map, List.length_map, trade.length_eq] at length
    exact h.spare (Nat.le_refl _) (Nat.le_of_eq length.symm) (fun j hj => .inl hj)
      (queues_of_cores publishers)
  | @worked i p q q' w host t hp _ _ _ queues publishers =>
    have length : t.queues.length = x.system.queues.length := by rw [queues, List.length_modify]
    refine h.spare (Nat.le_refl _) (Nat.le_of_eq length.symm) (fun j hj => .inl hj) ?_
    dsimp only
    rw [publishers]
    exact map_modify_of_apply (f := fun p : Publisher => { p with worker := w })
      (g := Publisher.queue) (fun _ => rfl) _ _

end Owning

theorem Runs.owning (run : Runs ts z) : Owning z := by
  refine run.invariant (P := Owning) ⟨?_, ?_, ?_, ?_⟩ fun x a y h hs => h.after? hs
  all_goals simp [Session.ownQueues]

/-! ## Every call is among what makes progress -/

def Session.Covers (x : Session) : Prop :=
  ∀ n < x.system.calls.length, Agent.call n ∈ x.system.started

theorem Session.covers_effect {u : Session} (h : Effect x u) (covers : Covers x) : Covers u := by
  have longer : ∀ {calls : List Call} {started : List Agent},
      calls.length = x.system.calls.length → ∀ n < calls.length,
      Agent.call n ∈ x.system.started ++ started := fun hc n hn =>
    List.mem_append_left _ (covers n (hc ▸ hn))
  have same : u.system.calls = x.system.calls → u.system.started = x.system.started → Covers u := by
    intro hc hs n hn
    rw [hc] at hn
    exact hs ▸ covers n hn
  have added : ∀ c : Call, u.system.calls = x.system.calls ++ [c] →
      u.system.started = x.system.started ++ [Agent.call x.system.calls.length] → Covers u := by
    intro c hc hs n hn
    rw [hc, List.length_append, List.length_singleton] at hn
    rw [hs, List.mem_append, List.mem_singleton]
    by_cases he : n = x.system.calls.length
    · exact .inr (he ▸ rfl)
    · exact .inl (covers n (by omega))
  cases h with
  | called _ => exact added _ rfl rfl
  | waited _ => exact added _ rfl rfl
  | @registered c _ _ _ r id v _ _ hv =>
    subst hv
    let z := x.onSystem (·.adjustCorrelator c fun co => { co with registry := r })
    have upTo := z.upToRegistries_dropWaiter id
    exact same upTo.calls upTo.started
  | droppedWaiter id =>
    have upTo := x.upToRegistries_dropWaiter id
    exact same upTo.calls upTo.started
  | @aborted n c _ _ _ =>
    intro m hm
    have upTo := System.UpToRegistries.forsake x.system n c.phase
    change m < (List.modify _ n _).length at hm
    rw [List.length_modify, upTo.calls] at hm
    exact upTo.started ▸ covers m hm
  | openedPublisher _ _ _ =>
    intro n hn
    refine List.mem_append_left _ (longer rfl n hn)
  | startedCorrelator _ => exact longer rfl
  | startedConsumer _ _ => exact longer rfl
  | _ => exact same rfl rfl

theorem Session.covers_after? (covers : Covers x) (h : x.after? a = some y) : Covers y := by
  have same : ∀ {t : System}, t.calls.length = x.system.calls.length →
      t.started = x.system.started → Covers { x with system := t } := by
    intro t hc hs n hn
    exact hs ▸ covers n (hc ▸ hn)
  cases moves_of_after? h with
  | performed _ hp =>
    obtain ⟨u, hu, he⟩ := hp
    intro n hn
    rw [he.calls] at hn
    exact he.started ▸ covers_effect hu covers n hn
  | injected _ _ => exact covers
  | passed _ => exact covers
  | @stepped agent t hs =>
    cases agent with
    | worker i =>
      obtain ⟨p, q, host, q', w, -, -, -, rfl⟩ := Agent.step?_worker hs
      exact same rfl rfl
    | listener c =>
      obtain ⟨co, host, co', -, -, rfl⟩ := Agent.step?_listener hs
      exact same rfl rfl
    | consumer i =>
      obtain ⟨k, host, k', -, -, rfl⟩ := Agent.step?_consumer hs
      exact same rfl rfl
    | redelivery i serial =>
      obtain ⟨entry, -, -, rfl⟩ := Agent.step?_redelivery hs
      exact same rfl rfl
    | call n =>
      obtain ⟨φ, -, v, ψ, step, quiet⟩ := System.callSteps_of_stepCall? hs
      obtain ⟨host, queues, upTo⟩ := step.upToRegistries
      refine same ?_ (quiet.started.trans upTo.started)
      rw [quiet.calls]
      exact (List.length_modify ..).trans (congrArg List.length upTo.calls)

theorem Runs.covers (run : Runs ts z) : z.Covers :=
  run.invariant (P := Session.Covers) (fun _ hn => (nomatch hn)) fun _ _ _ h hs =>
    Session.covers_after? h hs

/-! ## What becomes of an event that is brought -/

def failedPhase : Call.Phase → Bool
  | .ended _ (.failed _) => true
  | _ => false

/-- The call that brings its event to queue `j` in a step, and is in one of the phases
afterwards. -/
def Transition.brought? (t : Transition) (j : Nat) (ends : Call.Phase → Bool) : Option Nat :=
  match t.action with
  | .agent (.call n) =>
    if ((t.before.system.phase? n).bind Call.Phase.brings?).map Prod.fst = some j ∧
      (t.after.system.phase? n).any ends then some n else none
  | _ => none

/-- The calls whose events queue `j` has taken, the latest first. -/
def accepted (ts : List Transition) (j : Nat) : List Nat :=
  ts.filterMap fun t => t.brought? j Call.Phase.isTaken

/-- The calls that were told an error when they brought an event to queue `j`. -/
def refused (ts : List Transition) (j : Nat) : List Nat :=
  ts.filterMap fun t => t.brought? j failedPhase

theorem Transition.brought?_eq_some {t : Transition} {j n : Nat} {ends : Call.Phase → Bool} :
    t.brought? j ends = some n ↔ t.action = .agent (.call n) ∧
      ∃ φ event ψ, t.before.system.phase? n = some φ ∧ φ.brings? = some (j, event) ∧
        t.after.system.phase? n = some ψ ∧ ends ψ := by
  unfold brought?
  constructor
  · intro h
    split at h
    next m ha =>
      split at h
      next hb =>
        obtain rfl := Option.some.inj h
        obtain ⟨⟨j', event⟩, hφ, rfl⟩ := Option.map_eq_some_iff.mp hb.1
        obtain ⟨φ, hp, hφ⟩ := Option.bind_eq_some_iff.mp hφ
        obtain ⟨ψ, hψ, he⟩ := (Option.any_eq_true _ _).mp hb.2
        exact ⟨ha, φ, event, ψ, hp, hφ, hψ, he⟩
      next => cases h
    next => cases h
  · rintro ⟨ha, φ, event, ψ, hp, hφ, hψ, he⟩
    rw [ha]
    dsimp only
    rw [hp, hψ, Option.bind_some, hφ]
    exact if_pos ⟨rfl, he⟩

theorem mem_accepted {j n : Nat} :
    n ∈ accepted ts j ↔ ∃ u ∈ ts, u.brought? j Call.Phase.isTaken = some n := by
  unfold accepted
  rw [List.mem_filterMap]

theorem mem_refused {j n : Nat} :
    n ∈ refused ts j ↔ ∃ u ∈ ts, u.brought? j failedPhase = some n := by
  unfold refused
  rw [List.mem_filterMap]

theorem accepted_cons (t : Transition) (ts : List Transition) (j : Nat) :
    accepted (t :: ts) j = (t.brought? j Call.Phase.isTaken).toList ++ accepted ts j := by
  unfold accepted
  rw [List.filterMap_cons]
  cases t.brought? j Call.Phase.isTaken <;> rfl

theorem Transition.brought?_eq_none {t : Transition} (ha : ∀ n, t.action ≠ .agent (.call n))
    (j : Nat) (ends : Call.Phase → Bool) : t.brought? j ends = none := by
  cases h : t.brought? j ends with
  | none => rfl
  | some n => exact absurd (brought?_eq_some.mp h).1 (ha n)

theorem isPast_of_isTaken {φ : Call.Phase} (h : φ.isTaken) : φ.isPast := by
  cases φ <;> first | rfl | cases h

theorem isPast_of_failed {φ : Call.Phase} (h : failedPhase φ) : φ.isPast := by
  cases φ <;> first | rfl | cases h

theorem phase?_of_modify {s t : System} {n : Nat} {ψ : Call.Phase}
    (h : t.calls = s.calls.modify n fun c => { c with phase := ψ }) {m : Nat} :
    t.phase? m = if n = m then (s.phase? m).map fun _ => ψ else s.phase? m := by
  unfold System.phase?
  rw [h, List.getElem?_modify]
  cases s.calls[m]? with
  | none => split <;> rfl
  | some c =>
    by_cases hnm : n = m
    · simp [hnm]
    · simp [hnm]

theorem phase?_of_append {s t : System} {more : List Call} (h : t.calls = s.calls ++ more) {m : Nat}
    {φ : Call.Phase} (hm : s.phase? m = some φ) : t.phase? m = some φ := by
  unfold System.phase? at hm ⊢
  obtain ⟨c, hc, rfl⟩ := Option.map_eq_some_iff.mp hm
  rw [h, List.getElem?_append_left (List.getElem?_eq_some_iff.mp hc).1, hc]
  rfl

/-- A call that has brought its event brings no other. -/
theorem past_of_after? (h : x.after? a = some y) {n : Nat} {φ : Call.Phase}
    (hn : x.system.phase? n = some φ) (past : φ.isPast) :
    ∃ ψ, y.system.phase? n = some ψ ∧ ψ.isPast := by
  cases Session.trades_of_after? h with
  | quiet _ calls _ _ => exact ⟨φ, phase?_of_append calls hn, past⟩
  | opened _ calls _ _ _ _ _ _ _ =>
    exact ⟨φ, phase?_of_append (calls.trans (List.append_nil _).symm) hn, past⟩
  | @aborted _ _ m c _ _ _ calls _ _ =>
    rw [phase?_of_modify calls, hn]
    by_cases hm : m = n
    · exact ⟨.aborted, if_pos hm, rfl⟩
    · exact ⟨φ, if_neg hm, past⟩
  | @called m φ' ψ t queues hφ _ keeps calls _ _ =>
    rw [phase?_of_modify calls, hn]
    by_cases hm : m = n
    · subst hm
      obtain rfl := Option.some.inj (hφ.symm.trans hn)
      exact ⟨ψ, if_pos rfl, keeps past⟩
    · exact ⟨φ, if_neg hm, past⟩
  | worked _ _ _ calls _ _ =>
    exact ⟨φ, phase?_of_append (calls.trans (List.append_nil _).symm) hn, past⟩

theorem queues_le_of_after? (h : x.after? a = some y) :
    x.system.queues.length ≤ y.system.queues.length := by
  cases Session.trades_of_after? h with
  | quiet _ _ queues _ => exact queues.length_le
  | opened _ _ _ queues _ _ _ _ _ =>
    have := queues.length_le
    rw [List.length_append] at this
    exact Nat.le_of_add_right_le this
  | aborted _ _ _ _ queues _ => exact System.length_leaveLine _ _ _ ▸ queues.length_le
  | called _ trade _ _ queues _ =>
    have length := congrArg List.length queues
    rw [List.length_map, List.length_map, trade.length_eq] at length
    exact Nat.le_of_eq length.symm
  | worked _ _ _ _ queues _ => exact Nat.le_of_eq (by rw [queues, List.length_modify])

/-- An event is taken by a queue that there is. -/
theorem queue_of_taken (h : x.after? a = some y) {j n : Nat}
    (taken : (⟨x, a, y⟩ : Transition).brought? j Call.Phase.isTaken = some n) :
    j < x.system.queues.length := by
  obtain ⟨ha, φ, event, ψ, hφ, hbr, hψ, he⟩ := Transition.brought?_eq_some.mp taken
  dsimp only at ha hφ hψ
  subst ha
  cases Session.trades_of_after? h with
  | quiet ha _ _ _ => exact absurd rfl (ha n)
  | opened ha _ _ _ _ _ _ _ _ => exact absurd rfl (ha n)
  | aborted ha _ _ _ _ _ => exact absurd rfl (ha n)
  | @called _ φ' ψ' t queues hφ' trade _ calls _ _ =>
    obtain rfl := Option.some.inj (hφ'.symm.trans hφ)
    obtain rfl : ψ' = ψ := by
      rw [phase?_of_modify calls, hφ, if_pos rfl] at hψ
      exact Option.some.inj hψ
    cases trade with
    | aside hnone => cases hnone.symm.trans hbr
    | refused _ _ => cases he
    | accepted hq _ =>
      cases hbr
      exact (List.getElem?_eq_some_iff.mp hq).1
    | blocked _ _ => cases he
    | collected hq _ =>
      cases hbr
      exact (List.getElem?_eq_some_iff.mp hq).1
    | withdrawn _ _ => cases he

/-- Who was told about an event has nothing more to learn about it. -/
structure Told (ts : List Transition) (z : Session) : Prop where
  past : ∀ j n, n ∈ accepted ts j ∨ n ∈ refused ts j → ∃ φ, z.system.phase? n = some φ ∧ φ.isPast
  apart : ∀ j, ∀ n ∈ refused ts j, n ∉ accepted ts j
  known : ∀ j, ∀ n ∈ accepted ts j, j < z.system.queues.length

theorem Told.next (told : Told ts x) (h : x.after? a = some y) : Told (⟨x, a, y⟩ :: ts) y := by
  -- a call that learns something now has learnt nothing before
  have new : ∀ {j n ends}, (⟨x, a, y⟩ : Transition).brought? j ends = some n →
      ∀ j, n ∉ accepted ts j ∧ n ∉ refused ts j := by
    intro j n ends hb j'
    obtain ⟨-, φ, event, ψ, hφ, hbr, -, -⟩ := Transition.brought?_eq_some.mp hb
    have none : ¬(n ∈ accepted ts j' ∨ n ∈ refused ts j') := by
      intro hold
      obtain ⟨φ', hφ', past⟩ := told.past j' n hold
      obtain rfl := Option.some.inj (hφ.symm.trans hφ')
      cases (Call.Phase.brings?_of_isPast past).symm.trans hbr
    exact not_or.mp none
  have ended : ∀ {j n ends}, (∀ ψ, ends ψ → Call.Phase.isPast ψ) →
      (⟨x, a, y⟩ : Transition).brought? j ends = some n →
      ∃ ψ, y.system.phase? n = some ψ ∧ ψ.isPast := by
    intro j n ends hends hb
    obtain ⟨-, φ, event, ψ, -, -, hψ, he⟩ := Transition.brought?_eq_some.mp hb
    exact ⟨ψ, hψ, hends ψ he⟩
  have old : ∀ {j n}, n ∈ accepted ts j ∨ n ∈ refused ts j →
      ∃ ψ, y.system.phase? n = some ψ ∧ ψ.isPast := by
    intro j n hn
    obtain ⟨φ, hφ, past⟩ := told.past j n hn
    exact past_of_after? h hφ past
  refine ⟨fun j n hn => ?_, fun j n hr ha => ?_, fun j n hn => ?_⟩
  · rcases hn with hn | hn
    · obtain ⟨u, hu, hb⟩ := mem_accepted.mp hn
      rcases List.mem_cons.mp hu with rfl | hu
      · exact ended (fun _ => isPast_of_isTaken) hb
      · exact old (.inl (mem_accepted.mpr ⟨u, hu, hb⟩))
    · obtain ⟨u, hu, hb⟩ := mem_refused.mp hn
      rcases List.mem_cons.mp hu with rfl | hu
      · exact ended (fun _ => isPast_of_failed) hb
      · exact old (.inr (mem_refused.mpr ⟨u, hu, hb⟩))
  · obtain ⟨u, hu, hb⟩ := mem_refused.mp hr
    obtain ⟨v, hv, hb'⟩ := mem_accepted.mp ha
    rcases List.mem_cons.mp hu with hut | hu'
    · subst hut
      rcases List.mem_cons.mp hv with hvt | hv'
      · obtain ⟨-, _, _, ψ, -, -, hψ, failed⟩ := Transition.brought?_eq_some.mp hb
        obtain ⟨-, _, _, ψ', -, -, hψ', taken⟩ := Transition.brought?_eq_some.mp (hvt ▸ hb')
        obtain rfl := Option.some.inj (hψ.symm.trans hψ')
        cases ψ with
        | ended moment result =>
          cases result with
          | failed e => cases taken
          | _ => cases failed
        | _ => cases failed
      · exact (new hb j).1 (mem_accepted.mpr ⟨v, hv', hb'⟩)
    · have hr' := mem_refused.mpr ⟨u, hu', hb⟩
      rcases List.mem_cons.mp hv with hvt | hv'
      · exact (new (hvt ▸ hb') j).2 hr'
      · exact told.apart j n hr' (mem_accepted.mpr ⟨v, hv', hb'⟩)
  · obtain ⟨u, hu, hb⟩ := mem_accepted.mp hn
    refine Nat.lt_of_lt_of_le ?_ (queues_le_of_after? h)
    rcases List.mem_cons.mp hu with rfl | hu
    · exact queue_of_taken h hb
    · exact told.known j n (mem_accepted.mpr ⟨u, hu, hb⟩)

theorem Runs.told (run : Runs ts z) : Told ts z := by
  induction run with
  | start =>
    refine ⟨fun j n hn => ?_, fun j n hn => (nomatch hn), fun j n hn => (nomatch hn)⟩
    rcases hn with hn | hn <;> cases hn
  | next _ h ih => exact ih.next h

end ChangeDispatch.Script
