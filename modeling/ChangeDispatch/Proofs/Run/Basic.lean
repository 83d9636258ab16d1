import ChangeDispatch.Script.Report

/-!
# Runs of a session

A session changes by actions: a step of a script, the start of a consumer with any
handler, one step of one agent, or the passing of time. A run is any sequence of actions
that can happen, in any order, so agents are not bound to the line in which a script
makes them stand, and a step of the script need not wait until the others are done.
Statements about runs therefore hold in particular for scripts: one whose agents come to
rest after each step is a run, as `run_makes_run` shows.
-/
namespace ChangeDispatch.Script

/-- One thing that happens to a session. -/
inductive Action where
  /-- A step of a script, without the progress that follows it. -/
  | perform (step : Step)
  /-- The start of a consumer with any handler. -/
  | serve (id topic name : String) (policy : DeadLetterPolicy) (handler : Handler)
  /-- The next step of an agent. -/
  | agent (agent : Agent)
  /-- The clock moves on to a moment. -/
  | tick (moment : Nat)
  /-- The session reports on a step and counts it. -/
  | report

namespace Session

/-- Time passes in actions of its own only, and a call is given up only where it stands
still: one that can go on does so first. -/
def allows (x : Session) : Step → Bool
  | .advance _ => false
  | .abort step => (x.running.lookup step).all fun n => !x.system.canStep (.call n)
  | _ => true

def serve (x : Session) (id topic name : String) (policy : DeadLetterPolicy) (handler : Handler) :
    Session :=
  match x.system.startConsumer topic name policy handler with
  | (.error _, system) => { x with system }
  | (.ok i, system) => { x with system, consumers := x.consumers.insert id i }

/-- Forget the calls that have ended, and count the step. -/
def counted (x : Session) : Session :=
  { x with
    running := x.running.filter x.isRunning
    reported := x.system.host.journal.length
    position := x.position + 1 }

/-- What an action makes of a session, if it can happen. -/
def after? (x : Session) : Action → Option Session
  | .perform step => if x.allows step then some (x.perform step).2 else none
  | .serve id topic name policy handler => some (x.serve id topic name policy handler)
  | .agent a => (a.step? x.system).map fun system => { x with system }
  | .tick moment =>
    if x.system.host.now ≤ moment then some (x.onSystem (·.atMoment moment)) else none
  | .report => some x.counted

end Session

/-- An action with the session before and after it. -/
structure Transition where
  before : Session
  action : Action
  after : Session

/-- The runs of a session from its start: what has happened, the latest first, and what
the session has become. -/
inductive Runs : List Transition → Session → Prop where
  | start : Runs [] {}
  | next {ts : List Transition} {x y : Session} {a : Action} :
      Runs ts x → x.after? a = some y → Runs (⟨x, a, y⟩ :: ts) y

/-- A property of the start that every action keeps holds after every run. -/
theorem Runs.invariant {P : Session → Prop} (start : P {})
    (step : ∀ x a y, P x → x.after? a = some y → P y) {ts : List Transition} {x : Session}
    (run : Runs ts x) : P x := by
  induction run with
  | start => exact start
  | next _ h ih => exact step _ _ _ ih h

/-- Every transition of a run is made where what came before it has ended. -/
theorem Runs.of_suffix {ts us : List Transition} {z : Session} {t : Transition} (run : Runs ts z)
    (hs : t :: us <:+ ts) : Runs us t.before ∧ t.before.after? t.action = some t.after := by
  induction run with
  | start => cases List.suffix_nil.mp hs
  | next run h ih =>
    rcases List.suffix_cons_iff.mp hs with he | hs
    · obtain ⟨rfl, rfl⟩ := List.cons.inj he
      exact ⟨run, h⟩
    · exact ih hs

section

variable {ts since before : List Transition} {x y z : Session} {t u : Transition}

/-- Every transition of a run was made at its place. -/
theorem Runs.made (run : Runs ts z) (hu : u ∈ ts) :
    ∃ us, Runs us u.before ∧ u.before.after? u.action = some u.after := by
  obtain ⟨later, earlier, rfl⟩ := List.append_of_mem hu
  exact ⟨earlier, run.of_suffix (List.suffix_append _ _)⟩

theorem Runs.unique (run : Runs ts x) (other : Runs ts y) : x = y := by
  cases run <;> cases other <;> rfl

theorem Session.after?_tick {moment : Nat} (h : x.after? (.tick moment) = some y) :
    y = x.onSystem (·.atMoment moment) := by
  unfold Session.after? at h
  dsimp only at h
  split at h
  · exact (Option.some.inj h).symm
  · cases h

/-- The run up to a transition, and with it. -/
theorem Runs.split (run : Runs (since ++ t :: before) z) :
    Runs before t.before ∧ Runs (t :: before) t.after := by
  obtain ⟨earlier, happens⟩ := run.of_suffix (List.suffix_append since (t :: before))
  exact ⟨earlier, .next earlier happens⟩

/-- The run up to a transition that is not before `t`. -/
theorem Runs.cut (run : Runs (since ++ t :: before) z) (hu : u ∈ since ++ [t]) :
    ∃ later m, since = later ++ m ∧ Runs (m ++ t :: before) u.after := by
  rcases List.mem_append.mp hu with hu | hu
  · obtain ⟨later, m, rfl⟩ := List.append_of_mem hu
    refine ⟨later, u :: m, rfl, ?_⟩
    rw [List.append_assoc] at run
    exact run.split.2
  · obtain rfl := List.mem_singleton.mp hu
    exact ⟨since, [], (List.append_nil since).symm, run.split.2⟩

end

/-- The run that some actions make, the latest first; those that cannot happen are passed
over. -/
def play : List Action → List Transition × Session
  | [] => ([], {})
  | a :: earlier =>
    let (ts, x) := play earlier
    match x.after? a with
    | some y => (⟨x, a, y⟩ :: ts, y)
    | none => (ts, x)

theorem play_runs (actions : List Action) : Runs (play actions).1 (play actions).2 := by
  induction actions with
  | nil => exact .start
  | cons a earlier ih =>
    simp only [play]
    split
    next y h => exact .next ih h
    next => exact ih

/-- What an action does after those that come before it. -/
def happening (a : Action) (earlier : List Action) : Transition :=
  ⟨(play earlier).2, a, (play (a :: earlier)).2⟩

theorem play_suffix (later earlier : List Action) :
    (play earlier).1 <:+ (play (later ++ earlier)).1 := by
  induction later with
  | nil => exact List.suffix_refl _
  | cons a later ih =>
    simp only [List.cons_append, play]
    split
    next y h => exact ih.trans (List.suffix_cons _ _)
    next => exact ih

/-- The transition of an action that can happen is in the run. -/
theorem play_split (later : List Action) {a : Action} {earlier : List Action}
    (happens : ((play earlier).2.after? a).isSome) :
    ∃ since, (play (later ++ a :: earlier)).1 =
      since ++ happening a earlier :: (play earlier).1 := by
  have first : (play (a :: earlier)).1 = happening a earlier :: (play earlier).1 := by
    obtain ⟨y, h⟩ := Option.isSome_iff_exists.mp happens
    simp only [happening, play, h]
  obtain ⟨since, split⟩ := play_suffix later (a :: earlier)
  exact ⟨since, by rw [← split, first]⟩

theorem happening_mem (later : List Action) {a : Action} {earlier : List Action}
    (happens : ((play earlier).2.after? a).isSome) :
    happening a earlier ∈ (play (later ++ a :: earlier)).1 := by
  obtain ⟨since, split⟩ := play_split later happens
  rw [split]
  exact List.mem_append_right since List.mem_cons_self

/-- The creation of one workspace, for runs on fixed inputs. -/
def creation (requestId : Option RequestId) : ChangeEvent :=
  { name := "ws-1", status := .creating, timestamp := .ofNanos64 0 (by decide), owner := "alice"
    account := none, requestId }

end ChangeDispatch.Script
