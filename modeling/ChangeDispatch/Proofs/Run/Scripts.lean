import ChangeDispatch.Proofs.DeadLetter.Chains
import ChangeDispatch.Proofs.Wait.Expiry

/-!
# Scripts make runs

A script performs a step, lets the agents go on until none of them can, reports, and performs
the next step. Time passes from one timer to the next, and at each of them the agents go on until
none can. So a script makes a run, whose clock moves on only where nothing can be done before and
never past a timer: what is proved of all runs, or of those with a punctual clock, holds for
scripts.

A script bounds the number of steps that its agents make at one moment. One that meets this bound
cuts its agents off, and then goes on as no run does; `rests` tells whether a script never does.
-/
namespace ChangeDispatch

/-- A worker that waits for a timer goes on when it is due. -/
theorem Worker.exists_step?_of_due {h : Host} {w : Worker} {timer : Timer}
    (waits : w.timer? = some timer) (due : h.isDue timer) (q : Queue) :
    ∃ r, w.step? h q = some r := by
  unfold timer? at waits
  unfold step?
  cases phase : w.phase with
  | publishing job timer' =>
    rw [phase] at waits
    obtain rfl := Option.some.inj waits
    dsimp only
    rw [if_pos due]
    exact ⟨_, rfl⟩
  | resting job timer' =>
    rw [phase] at waits
    obtain rfl := Option.some.inj waits
    dsimp only
    rw [if_pos due]
    split <;> exact ⟨_, rfl⟩
  | _ =>
    rw [phase] at waits
    cases waits

/-- A listener that pauses goes on when its timer is due. -/
theorem Correlator.exists_step?_of_due {h : Host} {c : Correlator} {timer : Timer}
    (waits : c.timer? = some timer) (due : h.isDue timer) : ∃ r, c.step? h = some r := by
  unfold timer? at waits
  unfold step?
  cases phase : c.phase with
  | pausing timer' =>
    rw [phase] at waits
    obtain rfl := Option.some.inj waits
    dsimp only
    rw [if_pos due]
    split <;> exact ⟨_, rfl⟩
  | _ =>
    rw [phase] at waits
    cases waits

namespace System

/-- The agents come to rest at every moment up to `target` at which a timer is due. -/
def restsUntil (target : Nat) : Nat → System → Bool
  | 0, _ => true
  | fuel + 1, s =>
    match (s.dueMoments target).min? with
    | none => true
    | some moment =>
      let s := s.atMoment moment
      let s := s.settleFrom s.dueAgents
      s.isQuiescent && restsUntil target fuel s

theorem mem_dueMoments {s : System} {target moment : Nat} (h : moment ∈ s.dueMoments target) :
    ∃ a ∈ s.agents, ∃ timer, a.timer? s = some timer ∧ timer.due = moment ∧ moment ≤ target := by
  obtain ⟨a, ha, found⟩ := List.mem_filterMap.mp h
  obtain ⟨waits, within⟩ := Option.filter_eq_some_iff.mp found
  obtain ⟨timer, ht, due⟩ := Option.map_eq_some_iff.mp waits
  exact ⟨a, ha, timer, ht, due, of_decide_eq_true within⟩

end System

namespace Script

variable {ts since : List Transition} {x y z : Session}

namespace Session

/-- The agents come to rest in a step of a script, and after it. -/
def restsIn (x : Session) (step : Step) : Bool :=
  (match step with
    | .advance ms => x.system.restsUntil (x.system.host.now + ms) (ms + 1)
    | _ => true) &&
  (x.perform step).2.system.settle.isQuiescent

/-- The agents come to rest in each of the steps. -/
def rests (x : Session) : List Step → Bool
  | [] => true
  | step :: steps => x.restsIn step && (x.step step).2.rests steps

end Session

/-! ## Timers at rest -/

/-- A run whose clock never moves past what is to be done. -/
structure Runs.Punctual (ts : List Transition) (x : Session) : Prop where
  run : Runs ts x
  punctual : ∀ u ∈ ts, u.isPunctual

namespace Runs.Punctual

/-- A call that waits for a timer goes on when it is due. -/
theorem now_lt_of_call (p : Punctual ts x) (quiescent : x.system.isQuiescent) {n : Nat}
    {timer : Timer} (waits : x.system.callTimer? n = some timer) :
    x.system.host.now < timer.due := by
  refine Nat.lt_of_not_le fun due => ?_
  have goes : x.system.host.isDue timer = true := by simpa [Host.isDue] using due
  cases hc : x.system.calls[n]? with
  | none =>
    simp [System.callTimer?, hc] at waits
  | some call =>
    have hφ : x.system.phase? n = some call.phase := by simp [System.phase?, hc]
    have still : x.system.stepCall? n = none :=
      System.step?_of_quiescent quiescent (p.run.covers n (List.getElem?_eq_some_iff.mp hc).1)
    unfold System.stepCall? at still
    unfold System.callTimer? at waits
    rw [System.stepCall?_of_phase hφ] at still waits
    cases hp : call.phase with
    | inLine queue event timer' next =>
      rw [hp] at still waits
      obtain rfl := Option.some.inj waits
      dsimp only at still
      unfold System.stepInLine? at still
      split at still
      · cases still
      · split at still
        · cases still
        · cases still
        · rw [if_pos goes] at still
          cases still
    | waiting handle token timer' =>
      rw [hp] at hφ waits
      obtain rfl := Option.some.inj waits
      have none := Session.Waiting.waitResult?_eq_none p.run quiescent (.inr ⟨timer', hφ⟩)
      obtain ⟨w, found, left⟩ := System.left_of_waitResult? none
      obtain ⟨r, hr, v, hv, same⟩ := p.run.owned.exists_waiter (Session.mem_handles hφ rfl)
      have within := (p.run.timely p.punctual n handle token timer' hφ).2 r hr v hv same
      have found' := waiter?_eq p.run.owned hr hv
      rw [same, found] at found'
      obtain rfl := Option.some.inj found'
      omega
    | publishing topic payload timer' =>
      rw [hp] at still waits
      obtain rfl := Option.some.inj waits
      dsimp only at still
      rw [if_pos goes] at still
      cases still
    | draining publisher timer' =>
      rw [hp] at still waits
      obtain rfl := Option.some.inj waits
      dsimp only at still
      unfold System.stepDraining? at still
      rw [if_pos goes] at still
      split at still <;> cases still
    | _ =>
      rw [hp] at waits
      cases waits

/-- Where nothing can go on, every timer is still to come. -/
theorem now_lt (p : Punctual ts x) (quiescent : x.system.isQuiescent) {a : Agent}
    (ha : a ∈ x.system.agents) {timer : Timer} (waits : a.timer? x.system = some timer) :
    x.system.host.now < timer.due := by
  have still : a.step? x.system = none := by
    simpa [System.canStep] using List.all_eq_true.mp quiescent a ha
  refine Nat.lt_of_not_le fun due => ?_
  have goes : x.system.host.isDue timer = true := by simpa [Host.isDue] using due
  cases a with
  | worker i =>
    obtain ⟨publisher, hp, waits⟩ := Option.bind_eq_some_iff.mp waits
    have bound := p.run.owning.known publisher.queue
      (List.mem_map_of_mem (List.mem_of_getElem? hp))
    have hq := List.getElem?_eq_getElem bound
    obtain ⟨r, hr⟩ := Worker.exists_step?_of_due waits goes x.system.queues[publisher.queue]
    simp [Agent.step?, hp, hq, hr] at still
  | listener i =>
    obtain ⟨c, hc, waits⟩ := Option.bind_eq_some_iff.mp waits
    obtain ⟨r, hr⟩ := Correlator.exists_step?_of_due waits goes
    simp [Agent.step?, hc, hr] at still
  | consumer i =>
    obtain ⟨k, hk, waits⟩ := Option.bind_eq_some_iff.mp waits
    obtain ⟨r, hr⟩ := Consumer.exists_step?_of_due waits goes
    simp [Agent.step?, hk, hr] at still
  | call n => exact absurd (p.now_lt_of_call quiescent waits) (Nat.not_lt_of_le due)
  | redelivery i serial =>
    obtain ⟨entry, found, rfl⟩ := Option.map_eq_some_iff.mp waits
    simp [Agent.step?, found, goes] at still

end Runs.Punctual

/-! ## What is performed and reported -/

/-- The step that a transition performs. -/
def Transition.step? (t : Transition) : Option Step :=
  match t.action with
  | .perform step => some step
  | _ => none

/-- The moment and the state that a transition reports. -/
def Transition.told? (t : Transition) : Option (Nat × Snapshot) :=
  match t.action with
  | .report => some (t.before.system.host.now, t.before.snapshot)
  | _ => none

/-- The steps that a run performs, the first in front. -/
def stepsOf (ts : List Transition) : List Step := ts.reverse.filterMap Transition.step?

/-- What a run reports, the first in front. -/
def toldOf (ts : List Transition) : List (Nat × Snapshot) :=
  ts.reverse.filterMap Transition.told?

def Report.told (r : Report) : Nat × Snapshot := (r.moment, r.snapshot)

def Step.passesTime : Step → Bool
  | .advance _ => true
  | _ => false

namespace Session

/-- From `x` a run with a punctual clock goes on to `y`, and performs and reports this
meanwhile. -/
def Goes (x : Session) (steps : List Step) (told : List (Nat × Snapshot)) (y : Session) : Prop :=
  ∀ ts, Runs.Punctual ts x →
    ∃ since, Runs.Punctual (since ++ ts) y ∧ stepsOf since = steps ∧ toldOf since = told

namespace Goes

variable {steps steps' : List Step} {told told' : List (Nat × Snapshot)}

theorem refl (x : Session) : x.Goes [] [] x := fun _ p => ⟨[], p, rfl, rfl⟩

theorem trans (h : x.Goes steps told y) (k : y.Goes steps' told' z) :
    x.Goes (steps ++ steps') (told ++ told') z := by
  intro ts p
  obtain ⟨since, p, rfl, rfl⟩ := h ts p
  obtain ⟨later, p, rfl, rfl⟩ := k _ p
  refine ⟨later ++ since, by rwa [List.append_assoc], ?_, ?_⟩
  · simp [stepsOf]
  · simp [toldOf]

/-- One action, where the clock is punctual. -/
theorem of_after? {a : Action} (h : x.after? a = some y)
    (punctual : (⟨x, a, y⟩ : Transition).isPunctual) :
    x.Goes ((⟨x, a, y⟩ : Transition).step?.toList) ((⟨x, a, y⟩ : Transition).told?.toList) y := by
  intro ts p
  refine ⟨[⟨x, a, y⟩], ⟨.next p.run h, ?_⟩, ?_, ?_⟩
  · intro u hu
    rcases List.mem_cons.mp hu with rfl | hu
    · exact punctual
    · exact p.punctual u hu
  · simp [stepsOf, List.filterMap_cons]
    cases Transition.step? _ <;> rfl
  · simp [toldOf, List.filterMap_cons]
    cases Transition.told? _ <;> rfl

/-- The agents in line make their steps, and those that these steps wake. -/
theorem run (x : Session) (fuel : Nat) (line : List Agent) :
    x.Goes [] [] { x with system := x.system.run fuel line } := by
  induction fuel generalizing x line with
  | zero => exact .refl x
  | succ fuel ih =>
    cases line with
    | nil => exact .refl x
    | cons a line =>
      rw [System.run]
      cases hs : a.step? x.system with
      | none => exact ih x line
      | some t =>
        have stepped : x.Goes [] [] { x with system := t } :=
          of_after? (a := .agent a) (congrArg (Option.map _) hs) rfl
        exact stepped.trans (ih { x with system := t } _)

theorem settleFrom (x : Session) (line : List Agent) :
    x.Goes [] [] { x with system := x.system.settleFrom line } :=
  run x _ _

/-- The clock moves on to the next timer, or to the end of the time that passes. -/
theorem tick {target : Nat} (quiescent : x.system.isQuiescent)
    (ahead : x.system.host.now ≤ (x.system.dueMoments target).min?.getD target) :
    x.Goes [] [] { x with
      system := x.system.atMoment ((x.system.dueMoments target).min?.getD target) } :=
  of_after? (a := .tick _) (if_pos ahead) (System.isPunctual_next quiescent target)

end Goes

/-! ## The passing of time -/

theorem now_run (s : System) (fuel : Nat) (line : List Agent) :
    (s.run fuel line).host.now = s.host.now := by
  induction fuel generalizing s line with
  | zero => rfl
  | succ fuel ih =>
    cases line with
    | nil => rfl
    | cons a line =>
      rw [System.run]
      cases hs : a.step? s with
      | none => exact ih s line
      | some t => exact (ih t _).trans (Agent.host_step hs).now

/-- Time passes from one timer to the next. -/
theorem goes_passTo {target fuel : Nat} (quiescent : x.system.isQuiescent)
    (ahead : x.system.host.now ≤ target) (enough : target - x.system.host.now < fuel)
    (rests : x.system.restsUntil target fuel) :
    x.Goes [] [] { x with system := x.system.passTo target fuel } := by
  induction fuel generalizing x with
  | zero => omega
  | succ fuel ih =>
    have ticks := @Goes.tick x target quiescent
    rw [System.passTo]
    rw [System.restsUntil] at rests
    cases hm : (x.system.dueMoments target).min? with
    | none =>
      rw [hm] at ticks
      exact ticks ahead
    | some moment =>
      rw [hm] at ticks rests
      dsimp only [Option.getD_some] at ticks rests ⊢
      let moved := x.system.atMoment moment
      let settled := moved.settleFrom moved.dueAgents
      obtain ⟨rest, rests⟩ := Bool.and_eq_true_iff.mp rests
      obtain ⟨a, ha, timer, waits, due, within⟩ :=
        System.mem_dueMoments (List.min?_eq_some_iff.mp hm).1
      have now : settled.host.now = moment := now_run moved _ _
      intro ts p
      have later : x.system.host.now < moment := due ▸ p.now_lt quiescent ha waits
      have settles := Goes.settleFrom { x with system := moved } moved.dueAgents
      have goes := ih (x := { x with system := settled }) rest (now ▸ within)
        (by dsimp only; omega) rests
      exact (((ticks (Nat.le_of_lt later)).trans settles).trans goes) ts p

/-! ## Steps -/

/-- At rest every step is allowed that lets no time pass. -/
theorem allows_of_quiescent (run : Runs ts x) (quiescent : x.system.isQuiescent) {step : Step}
    (prompt : step.passesTime = false) : x.allows step := by
  cases step with
  | advance ms => cases prompt
  | abort step =>
    change (x.running.lookup step).all (fun n => !x.system.canStep (.call n)) = true
    cases x.running.lookup step with
    | none => rfl
    | some n =>
      have still : x.system.stepCall? n = none := by
        cases hc : x.system.calls[n]? with
        | none => simp [System.stepCall?, hc]
        | some call =>
          exact System.step?_of_quiescent quiescent
            (run.covers n (List.getElem?_eq_some_iff.mp hc).1)
      simp [System.canStep, Agent.step?, still]
  | _ => rfl

theorem goes_perform {step : Step} (quiescent : x.system.isQuiescent) (rests : x.restsIn step) :
    x.Goes (if step.passesTime then [] else [step]) [] (x.perform step).2 := by
  obtain ⟨within, -⟩ := Bool.and_eq_true_iff.mp rests
  cases passes : step.passesTime with
  | true =>
    cases step with
    | advance ms =>
      exact goes_passTo quiescent (Nat.le_add_right _ _) (by omega) within
    | _ => cases passes
  | false =>
    intro ts p
    have allowed := allows_of_quiescent p.run quiescent passes
    exact Goes.of_after? (a := .perform step) (if_pos allowed) rfl ts p

theorem goes_step {step : Step} (quiescent : x.system.isQuiescent) (rests : x.restsIn step) :
    x.Goes (if step.passesTime then [] else [step]) [(x.step step).1.told] (x.step step).2 := by
  let settled := (x.perform step).2.onSystem System.settle
  have performs := goes_perform quiescent rests
  have settles : (x.perform step).2.Goes [] [] settled := .settleFrom _ []
  have reports : settled.Goes [] [(settled.system.host.now, settled.snapshot)] settled.counted :=
    .of_after? (a := .report) rfl rfl
  have all := (performs.trans settles).trans reports
  rwa [List.append_nil, List.append_nil] at all

theorem quiescent_step {step : Step} (rests : x.restsIn step) :
    (x.step step).2.system.isQuiescent :=
  (Bool.and_eq_true_iff.mp rests).2

theorem goes_steps {steps : List Step} (quiescent : x.system.isQuiescent) (rests : x.rests steps) :
    ∃ z, x.Goes (steps.filter fun s => !s.passesTime) ((run.go x steps).1.map Report.told) z ∧
      z.system.isQuiescent ∧ (run.go x steps).2 = z.running.map Prod.fst := by
  induction steps generalizing x with
  | nil => exact ⟨x, .refl x, quiescent, rfl⟩
  | cons step steps ih =>
    obtain ⟨first, others⟩ := Bool.and_eq_true_iff.mp rests
    obtain ⟨z, goes, rest, unfinished⟩ := ih (quiescent_step first) others
    refine ⟨z, ?_, rest, unfinished⟩
    have all := (goes_step quiescent first).trans goes
    cases passes : step.passesTime <;> simpa [run.go, passes] using all

end Session

/-- A script whose agents come to rest is a run with a punctual clock. The run performs the steps
of the script in their order, apart from those that let time pass, and makes its reports; at the
end nothing can go on, and the calls that run still are those that the script names. -/
theorem run_makes_run (steps : List Step) (rests : ({} : Session).rests steps) :
    ∃ ts z, Runs ts z ∧ (∀ u ∈ ts, u.isPunctual) ∧ z.system.isQuiescent ∧
      stepsOf ts = steps.filter (fun s => !s.passesTime) ∧
      toldOf ts = (run steps).1.map Report.told ∧
      (run steps).2 = z.running.map Prod.fst := by
  have still : ({} : Session).system.isQuiescent := by decide
  obtain ⟨z, goes, rest, unfinished⟩ := Session.goes_steps still rests
  obtain ⟨ts, p, steps, told⟩ := goes [] ⟨.start, List.forall_mem_nil _⟩
  rw [List.append_nil] at p
  exact ⟨ts, z, p.run, p.punctual, rest, steps, told, unfinished⟩

/-- The agents of a script come to rest, also between two attempts to publish. -/
example : ({} : Session).rests
    [.openPublisher "p" {}, .failPublishes 1, .enqueue "p" (creation none), .advance 5000] := by
  decide +kernel

end Script

end ChangeDispatch
