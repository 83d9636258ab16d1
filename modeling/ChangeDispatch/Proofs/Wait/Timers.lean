import ChangeDispatch.Proofs.Wait.Settings

/-!
# Timers that hold offers back

Every offer that is held back has a timer with a serial number of its own: what is offered
when a timer is due is what was handed back with it. Only the listener of a subscription
sets such timers, and each of them is new when it is set.
-/
namespace ChangeDispatch

open Host (Adjusts)

namespace Subscription

/-- The timers have serial numbers of their own, and are among the first `n` that were set. -/
structure Timed (s : Subscription) (n : Nat) : Prop where
  nodup : (s.delayed.map fun entry => entry.1.serial).Nodup
  known : ∀ entry ∈ s.delayed, entry.1.serial < n

theorem delayed_arrive (s : Subscription) (d : Delivery) : (s.arrive d).delayed = s.delayed := by
  unfold arrive
  split <;> rfl

namespace Timed

variable {s s' : Subscription} {n m : Nat}

theorem empty (config : SubscriptionConfig) (n : Nat) :
    Timed { toSubscriptionConfig := config } n :=
  ⟨List.nodup_nil, fun _ he => absurd he List.not_mem_nil⟩

theorem of_sublist (h : s.Timed n) (sub : s'.delayed.Sublist s.delayed) (le : n ≤ m) :
    s'.Timed m where
  nodup := h.nodup.sublist (sub.map _)
  known entry he := Nat.lt_of_lt_of_le (h.known entry (sub.subset he)) le

/-- An offer that is handed back gets a timer that is new. -/
theorem handBack (h : s.Timed n) (d : Delivery) (due : Nat) :
    (s.handBack d (some ⟨due, n⟩)).Timed (n + 1) := by
  unfold Subscription.handBack
  dsimp only
  split
  · exact h.of_sublist (List.Sublist.refl _) (Nat.le_succ n)
  · constructor
    · rw [List.map_append, List.nodup_append']
      refine ⟨h.nodup, List.nodup_singleton _, fun serial old new => ?_⟩
      obtain ⟨entry, he, rfl⟩ := List.mem_map.mp old
      have := h.known entry he
      have := List.mem_singleton.mp new
      dsimp only at this
      omega
    · intro entry he
      rcases List.mem_append.mp he with old | new
      · exact Nat.lt_succ_of_lt (h.known entry old)
      · rw [List.mem_singleton.mp new]
        exact Nat.lt_succ_self n

theorem outside {arriving : Payload → Prop} {now k : Nat} (h : s.Timed n)
    (out : Outside arriving now k s s') (le : n ≤ m) : s'.Timed m := by
  refine h.of_sublist ?_ le
  cases out with
  | same => exact List.Sublist.refl _
  | arrived _ _ => rw [delayed_arrive]
  | detached => exact List.Sublist.refl _
  | offered _ _ =>
    unfold offerDelayed
    rw [delayed_arrive]
    exact List.erase_sublist

/-- A timer tells which offer it holds back. -/
theorem delayed?_eq (h : s.Timed n) {entry : Timer × Delivery} (he : entry ∈ s.delayed) :
    s.delayed? entry.1.serial = some entry :=
  find?_eq_some_of_unique he (beq_self_eq_true _) fun _ hother same =>
    List.inj_on_of_nodup_map h.nodup hother he (beq_iff_eq.mp same)

end Timed

end Subscription

/-! ## The steps of a listener -/

namespace Host

/-- The timers of a subscription stay apart. -/
def Keeps (i : Nat) (h k : Host) : Prop :=
  ∀ s, h.broker.subscriptions[i]? = some s → s.Timed h.timers →
    ∃ s', k.broker.subscriptions[i]? = some s' ∧ s'.Timed k.timers

namespace Keeps

variable {i : Nat} {h k l : Host}

theorem trans (hk : Keeps i h k) (kl : Keeps i k l) : Keeps i h l := by
  intro s hs timed
  obtain ⟨s', hs', timed'⟩ := hk s hs timed
  exact kl s' hs' timed'

/-- What happens to the subscription sets no timer. -/
theorem of_adjusts {f : Subscription → Subscription} (a : Adjusts i f h k)
    (rests : Rests h k) (sub : ∀ s, (f s).delayed.Sublist s.delayed) : Keeps i h k := by
  intro s hs timed
  exact ⟨f s, by rw [a.getElem?, hs]; rfl, timed.of_sublist (sub s) rests.timers⟩

end Keeps

variable (h : Host) (i : Nat) (d : Delivery)

theorem keeps_of_id {h k : Host} {i : Nat} (a : Adjusts i id h k) (rests : Rests h k) :
    Keeps i h k :=
  .of_adjusts a rests fun _ => List.Sublist.refl _

theorem keeps_noteError {α : Type} (result : Except α Unit) (notice : α → Notice) :
    Keeps i h (h.noteError result notice) :=
  keeps_of_id (h.adjusts_noteError i result notice) (h.rests_noteError result notice)

theorem keeps_nack (delay : Duration) : Keeps i h (h.nack i d delay).2 := by
  intro s hs timed
  have changed : ∀ (f : Subscription → Subscription),
      (h.broker.subscriptions.modify i f)[i]? = some (f s) := by
    intro f
    simp [hs]
  unfold Host.nack settle
  dsimp only [setTimer]
  split
  · split
    · exact ⟨_, changed _, timed.of_sublist (List.Sublist.refl _) (Nat.le_refl _)⟩
    · refine ⟨_, changed _, timed.of_sublist ?_ (Nat.le_refl _)⟩
      unfold Subscription.handBack
      dsimp only
      split
      · exact List.Sublist.refl _
      · rw [Subscription.delayed_arrive]
        exact List.Sublist.refl _
  · split
    · exact ⟨_, changed _, timed.of_sublist (List.Sublist.refl _) (Nat.le_succ _)⟩
    · exact ⟨_, changed _, timed.handBack d _⟩

theorem keeps_take? {h k : Host} {i : Nat} {d : Delivery} (ht : h.take? i = some (d, k)) :
    Keeps i h k := by
  intro s hs timed
  obtain ⟨channel, -, hk⟩ := getElem?_take? ht hs
  exact ⟨_, hk, timed.of_sublist (List.Sublist.refl _) (rests_take? ht).timers⟩

end Host

open Host (Keeps)

namespace Correlator

theorem keeps_process (h : Host) (c : Correlator) (d : Delivery) :
    Keeps c.subscription h (process h c d).1 := by
  have handedBack : ∀ k : Host, Keeps c.subscription k (handBack k c d) := fun k =>
    (k.keeps_nack c.subscription d c.unmatchedDelay).trans (Host.keeps_noteError _ _ _ _)
  have noted : ∀ (k : Host) (notice : Notice), Keeps c.subscription k (k.note notice) :=
    fun k notice => Host.keeps_of_id (k.adjusts_note _ notice) (k.rests_note notice)
  have mismatch : ∀ workspace ack, Keeps c.subscription h (noteMismatch h workspace ack) :=
    fun workspace ack => Host.keeps_of_id (adjusts_noteMismatch _ h workspace ack)
      (rests_noteMismatch h workspace ack)
  unfold process
  split
  next e _ =>
    refine (noted h (.ackUndecodable e d.payload.length)).trans
      (Keeps.trans ?_ (Host.keeps_noteError _ _ _ _))
    exact .of_adjusts (Host.adjusts_terminate _ _ d) (Host.rests_terminate _ _ d)
      fun _ => List.Sublist.refl _
  next ack _ =>
    split
    next entry registry _ =>
      refine (mismatch entry.workspace ack).trans
        (Keeps.trans ?_ (Host.keeps_noteError _ _ _ _))
      refine Keeps.trans ?_ (noted _ (.matched entry.serial d))
      exact .of_adjusts (Host.adjusts_ack _ _ d) (Host.rests_ack _ _ d) fun _ => List.Sublist.refl _
    next entry _ _ => exact (mismatch entry.workspace ack).trans (handedBack _)
    · exact handedBack h

theorem keeps_of_step? {h k : Host} {c c' : Correlator} (hs : c.step? h = some (k, c')) :
    Keeps c.subscription h k := by
  have rests := rests_of_step? hs
  by_cases received : c.phase = .waiting ∧ c.stopping = false ∧
      ∃ d l, h.take? c.subscription = some (d, l)
  · obtain ⟨waiting, going, d, l, ht⟩ := received
    rw [step?_of_take? waiting going ht] at hs
    obtain ⟨rfl, -⟩ := Prod.mk.inj (Option.some.inj hs)
    exact (Host.keeps_take? ht).trans (keeps_process l c d)
  · cases step_of_step? hs with
    | moved _ a => exact Host.keeps_of_id a rests
    | finished a => exact .of_adjusts a rests fun _ => List.Sublist.refl _
    | settled waiting going ht _ _ => exact absurd ⟨waiting, going, _, _, ht⟩ received

end Correlator

namespace Script

variable {ts : List Transition} {z : Session} {c : Nat} {co : Correlator} {s : Subscription}

/-- What a listener's own step keeps, and what happens to its subscription in between, holds of
every correlator with its subscription. -/
theorem Runs.tended {P : Nat → Correlator → Subscription → Prop}
    (fresh : ∀ (n : Nat) (co : Correlator) (config : SubscriptionConfig),
      P n co { toSubscriptionConfig := config })
    (own : ∀ (h k : Host) (co co' : Correlator) (s : Subscription), co.step? h = some (k, co') →
      h.broker.subscriptions[co.subscription]? = some s → P h.timers co s →
      ∃ s', k.broker.subscriptions[co.subscription]? = some s' ∧ P k.timers co' s')
    (others : ∀ arriving now k n m (co co' : Correlator) (s s' : Subscription),
      Subscription.Outside arriving now k s s' →
      co'.phase = co.phase → n ≤ m → P n co s → P m co' s')
    (run : Runs ts z) (hc : z.system.correlators[c]? = some co)
    (hs : z.system.host.broker.subscriptions[co.subscription]? = some s) :
    P z.system.host.timers co s := by
  induction run generalizing co s with
  | start => cases hc
  | @next ts x y a run h ih =>
    have timers := (Session.onward_of_after? h).host.timers
    rcases listening_cases h run.apart (System.getElem?_listening hc) with old | ⟨config, new⟩
    · obtain ⟨co₀, hc₀, same⟩ := Option.map_eq_some_iff.mp (List.getElem?_map.symm.trans old)
      obtain ⟨s₀, hs₀⟩ := run.subscribed hc₀
      have before := ih hc₀ hs₀
      rw [← same] at hs
      by_cases listens : a = .agent (.listener c)
      · subst listens
        obtain ⟨t, ht, rfl⟩ := Option.map_eq_some_iff.mp h
        obtain ⟨co₁, host, co₂, hc₁, hstep, rfl⟩ := Agent.step?_listener ht
        obtain rfl := Option.some.inj (hc₀.symm.trans hc₁)
        obtain rfl : co₂ = co := by simpa [System.adjustCorrelator, hc₀] using hc
        obtain ⟨s₁, hs₁, kept⟩ := own _ _ _ _ s₀ hstep hs₀ before
        obtain rfl := Option.some.inj (hs₁.symm.trans hs)
        exact kept
      · obtain ⟨co₁, hc₁, frame⟩ := frame_of_after? h listens hc₀
        obtain rfl := Option.some.inj (hc₁.symm.trans hc)
        obtain ⟨s₁, hs₁, out⟩ := outside_of_others run h listens hc₀ hs₀
        obtain rfl := Option.some.inj (hs₁.symm.trans hs)
        exact others _ _ _ _ _ co₀ _ s₀ _ out (Correlator.alike_of_frame frame).2 timers before
    · obtain rfl := Option.some.inj (new.symm.trans hs)
      exact fresh _ _ config

/-- The timers of every correlator are apart. -/
theorem Runs.timed (run : Runs ts z) (hc : z.system.correlators[c]? = some co)
    (hs : z.system.host.broker.subscriptions[co.subscription]? = some s) :
    s.Timed z.system.host.timers :=
  run.tended (P := fun n _ s => s.Timed n) (fun n _ config => .empty config n)
    (fun _ _ _ _ s hstep hs timed => Correlator.keeps_of_step? hstep s hs timed)
    (fun _ _ _ _ _ _ _ _ _ out _ le timed => timed.outside out le) hc hs

/-- A listener that has not ended still receives. -/
theorem Runs.receiving (run : Runs ts z) (hc : z.system.correlators[c]? = some co)
    (hs : z.system.host.broker.subscriptions[co.subscription]? = some s)
    (going : co.phase ≠ .ended) : s.receiving := by
  refine run.tended (P := fun _ co s => co.phase ≠ .ended → s.receiving) (fun _ _ _ _ => rfl)
    ?_ ?_ hc hs going
  · intro h k co co' s hstep hs receiving
    have before := receiving (Correlator.going_of_step? hstep)
    cases Correlator.step_of_step? hstep with
    | moved _ a => exact ⟨s, by rw [a.getElem?, hs]; rfl, fun _ => before⟩
    | finished a =>
      exact ⟨s.stopReceiving, by rw [a.getElem?, hs]; rfl, fun going => absurd rfl going⟩
    | settled _ _ ht settles a =>
      obtain ⟨channel, -, hk⟩ := Host.getElem?_take? ht hs
      refine ⟨_, by rw [a.getElem?, hk]; rfl, fun _ => ?_⟩
      cases settles with
      | refused _ => exact before
      | taken _ _ => exact before
      | unclaimed _ _ hf =>
        rcases hf with rfl | ⟨timer, rfl⟩
        · exact before
        · exact (Subscription.config_handBack _ _ _).2.2.1.trans before
  · intro _ _ _ _ _ co co' s s' out phase _ receiving going
    rw [out.config.2.2.1]
    exact receiving (phase ▸ going)

end Script

end ChangeDispatch
