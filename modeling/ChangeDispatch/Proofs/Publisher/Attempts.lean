import ChangeDispatch.Proofs.Shutdown.Reports

/-!
# The attempts of a worker

A worker tries the event in its hand until a publish succeeds, until its last attempt has failed,
or until it is told to stop and rests between two attempts. `Course` relates where it stands to
what it has done since it received the event: the attempts that it has begun, the results that
they had, and what it has reported. Each attempt is made a delay after the end of the one before.
Everything here is about one worker and its host; who else takes part, and how time passes, is
left open.
-/
namespace ChangeDispatch

/-- An attempt to publish an event: its number, the moment at which it begins, and how long the
publish takes. -/
structure Attempt where
  number : Nat
  moment : Nat
  takes : Nat
  deriving DecidableEq, Repr

namespace Attempt

/-- The moment at which the result is there. -/
def ends (a : Attempt) : Nat := a.moment + a.takes

/-- The time that attempts take together. -/
def timeTaken : List Attempt → Nat
  | [] => 0
  | a :: older => a.takes + timeTaken older

/-- The moment of the attempt that follows those made on an event: a delay for each of them after
the event was received, and the time that they took. -/
def next (received delay : Nat) (tries : List Attempt) : Nat :=
  received + tries.length * delay + timeTaken tries

/-- Attempts, the latest first, that have numbers from 1 on and are made each in its moment. -/
def InTurn (received delay : Nat) : List Attempt → Prop
  | [] => True
  | a :: older =>
    a.number = older.length + 1 ∧ a.moment = next received delay older ∧
      InTurn received delay older

@[simp] theorem timeTaken_cons (a : Attempt) (tries : List Attempt) :
    timeTaken (a :: tries) = a.takes + timeTaken tries := rfl

theorem timeTaken_eq_zero {tries : List Attempt} (prompt : ∀ a ∈ tries, a.takes = 0) :
    timeTaken tries = 0 := by
  induction tries with
  | nil => rfl
  | cons a older ih =>
    rw [timeTaken_cons, prompt a List.mem_cons_self, ih fun b hb =>
      prompt b (List.mem_cons_of_mem _ hb)]

variable {received delay : Nat} {a : Attempt} {older tries : List Attempt}

theorem next_cons (turn : InTurn received delay (a :: older)) :
    next received delay (a :: older) = a.ends + delay := by
  have moment := turn.2.1
  unfold next at moment ⊢
  rw [timeTaken_cons, List.length_cons, Nat.add_mul, ends, moment]
  omega

theorem InTurn.le_next (turn : InTurn received delay tries) {b : Attempt} (hb : b ∈ tries) :
    b.moment ≤ next received delay tries := by
  induction tries with
  | nil => cases hb
  | cons a older ih =>
    rw [next_cons turn, ends]
    rcases List.mem_cons.mp hb with rfl | hb
    · omega
    · have le := ih turn.2.2 hb
      rw [← turn.2.1] at le
      omega

/-- The latest attempt is the one made last. -/
theorem InTurn.le_first (turn : InTurn received delay (a :: older)) {b : Attempt}
    (hb : b ∈ a :: older) : b.moment ≤ a.moment := by
  rcases List.mem_cons.mp hb with rfl | hb
  · exact Nat.le_refl _
  · exact turn.2.1 ▸ turn.2.2.le_next hb

/-- Where publishes take no time, the attempts are made at equal distances. -/
def Evenly (received delay : Nat) (tries : List Attempt) : Prop :=
  (∀ a ∈ tries, a.takes = 0) →
    tries.reverse.map moment = (List.range tries.length).map (received + · * delay)

theorem InTurn.evenly (turn : InTurn received delay tries) : Evenly received delay tries := by
  intro prompt
  induction tries with
  | nil => rfl
  | cons a older ih =>
    have earlier : ∀ b ∈ older, b.takes = 0 := fun b hb => prompt b (List.mem_cons_of_mem _ hb)
    have moment : a.moment = received + older.length * delay := by
      rw [turn.2.1, next, timeTaken_eq_zero earlier, Nat.add_zero]
    rw [List.reverse_cons, List.map_append, ih turn.2.2 earlier, List.length_cons,
      List.range_succ, List.map_append]
    simp [moment]

end Attempt

open Attempt (InTurn next timeTaken)

namespace Host

/-- What is reported between two hosts, the latest first. -/
def Reports (h k : Host) (notices : List Notice) : Prop :=
  ∃ entries, k.journal = entries ++ h.journal ∧ entries.map JournalEntry.notice = notices

namespace Reports

variable {h k : Host} {notices : List Notice}

theorem of_journal_eq (same : k.journal = h.journal) : h.Reports k [] := ⟨[], same, rfl⟩

theorem note (reports : h.Reports k notices) (notice : Notice) :
    h.Reports (k.note notice) (notice :: notices) := by
  obtain ⟨entries, hk, rfl⟩ := reports
  refine ⟨⟨k.now, notice⟩ :: entries, ?_, rfl⟩
  rw [List.cons_append, ← hk]
  rfl

theorem noticesSince_eq (reports : h.Reports k notices) : k.noticesSince h = notices := by
  obtain ⟨entries, hk, rfl⟩ := reports
  have new : k.journal.length - h.journal.length = entries.length := by
    rw [hk, List.length_append]
    omega
  unfold noticesSince
  rw [new, hk, List.take_left]

end Reports

/-- A publish reports nothing and takes no time of its own. -/
theorem publish_frame {h k : Host} {topic : String} {payload : Payload}
    {result : Except TransportError Unit} (hp : h.publish topic payload = (result, k)) :
    k.now = h.now ∧ h.Reports k [] := by
  obtain ⟨-, rfl⟩ := Prod.mk.inj hp
  exact ⟨rfl, .of_journal_eq rfl⟩

end Host

namespace Worker

/-! ## What an attempt leads to -/

/-- The attempt that a worker begins when it goes on. -/
def attempt? (h : Host) (w : Worker) : Option Attempt :=
  match w.phase with
  | .attempting job => some ⟨job.attempt, h.now, h.faults.publishDelay⟩
  | _ => none

/-- The result of the attempt that a worker ends when it goes on. -/
def result? (h : Host) (w : Worker) : Option (Except TransportError Unit) :=
  match w.phase with
  | .attempting job =>
    if h.faults.publishDelay = 0 then some (h.publish w.topic job.payload).1 else none
  | .publishing job _ => some (h.publish w.topic job.payload).1
  | _ => none

/-- The warnings of a worker whose attempts on an event have failed, the latest first. -/
def warnings (w : Worker) (item : Item) : List TransportError → List Notice
  | [] => []
  | e :: older =>
    .attemptFailed w.topic item (older.length + 1) w.retry.attempts e :: w.warnings item older

/-- What a worker reports of a queue that it gives up, the latest first. -/
def farewell (w : Worker) (q : Queue) : List Notice :=
  (if 0 < q.buffer.length then [.queueAbandoned w.topic q.buffer.length] else []) ++
    (q.buffer.map Notice.abandoning).reverse

/-- What the result of an attempt leads to. -/
inductive Tried (h : Host) (w : Worker) (job : Job) : Host → Worker → Prop where
  | published {k : Host} :
      h.publish w.topic job.payload = (.ok (), k) →
      Tried h w job (k.note (.published w.topic job.item job.attempt))
        { w with phase := .idle, stats := { w.stats with published := w.stats.published + 1 } }
  | failed {k l : Host} {e : TransportError} {timer : Timer} :
      h.publish w.topic job.payload = (.error e, k) → job.attempt < w.retry.attempts →
      (k.note (.attemptFailed w.topic job.item job.attempt w.retry.attempts e)).setTimer
        w.retry.delay.ticks = (timer, l) →
      Tried h w job l
        { w with
          phase := .resting job timer
          stats := { w.stats with failedAttempts := w.stats.failedAttempts + 1 } }
  | dropped {k : Host} {e : TransportError} :
      h.publish w.topic job.payload = (.error e, k) → w.retry.attempts ≤ job.attempt →
      Tried h w job
        ((k.note (.attemptFailed w.topic job.item job.attempt w.retry.attempts e)).note
          (.retriesExhausted w.topic job.item w.retry.attempts))
        { w with
          phase := .idle
          stats := { w.stats with
            failedAttempts := w.stats.failedAttempts + 1, dropped := w.stats.dropped + 1 } }

theorem tried_attempt (h : Host) (w : Worker) (job : Job) :
    Tried h w job (attempt h w job).1 (attempt h w job).2 := by
  unfold attempt
  cases hp : h.publish w.topic job.payload with
  | mk result k =>
    cases result with
    | ok _ => exact .published hp
    | error e =>
      dsimp only
      split
      next more => exact .failed hp more rfl
      next last => exact .dropped hp (Nat.le_of_not_lt last)

theorem reports_abandonRemaining (h : Host) (q : Queue) (w : Worker) :
    h.Reports (abandonRemaining h q w).1 (w.farewell q) := by
  have each : ∀ (items : List Item) (k : Host) (notices : List Notice), h.Reports k notices →
      h.Reports (items.foldl (fun h item => h.note (.abandoning item)) k)
        ((items.map Notice.abandoning).reverse ++ notices) := by
    intro items
    induction items with
    | nil => exact fun _ _ reports => reports
    | cons item items ih =>
      intro k notices reports
      have told := ih _ _ (reports.note (.abandoning item))
      simpa using told
  have told := each q.buffer h [] (.of_journal_eq rfl)
  rw [List.append_nil] at told
  unfold abandonRemaining farewell
  dsimp only
  split
  · exact told.note _
  · exact told

/-! ## Where a worker stands -/

/-- The phase of a worker that has made some attempts on an event, of which some have failed. -/
inductive Stage (item : Item) (r : RetryPolicy) (received now : Nat) (tries : List Attempt)
    (failed : Nat) : Phase → Prop where
  | attempting :
      tries.length < r.attempts → failed = tries.length →
      now = next received r.delay.ticks tries →
      Stage item r received now tries failed (.attempting ⟨item, tries.length + 1⟩)
  | publishing {a : Attempt} {older : List Attempt} {timer : Timer} :
      tries = a :: older → tries.length ≤ r.attempts → failed = older.length →
      timer.due = a.ends → a.moment ≤ now → now ≤ a.ends →
      Stage item r received now tries failed (.publishing ⟨item, tries.length⟩ timer)
  | resting {a : Attempt} {older : List Attempt} {timer : Timer} :
      tries = a :: older → tries.length < r.attempts → failed = tries.length →
      timer.due = a.ends + r.delay.ticks → a.ends ≤ now → now ≤ timer.due →
      Stage item r received now tries failed (.resting ⟨item, tries.length⟩ timer)

/-- A worker that was told to stop, and holds an event still, does not rest: either it was about
to make an attempt and makes it at once, or an attempt is under way, or that has just ended. -/
def Phase.HaltedAt (told now : Nat) (tries : List Attempt) : Phase → Prop
  | .attempting _ => now ≤ told
  | .resting _ _ => ∀ a older, tries = a :: older → now ≤ max told a.ends
  | _ => True

/-- What the worker `w₀` has done with an event since it received it: the attempts that it has
begun, their results, the moments at which it was told to stop, and its reports, all with the
latest first. -/
structure Record where
  tries : List Attempt := []
  results : List (Except TransportError Unit) := []
  halts : List Nat := []
  reports : List Notice := []

/-- The worker has the event still in its hand, and all attempts that have ended have failed. -/
structure Course (w₀ : Worker) (item : Item) (received : Nat) (w : Worker) (now : Nat)
    (r : Record) (errors : List TransportError) : Prop where
  topic : w.topic = w₀.topic
  retry : w.retry = w₀.retry
  /-- Failed attempts are counted, and nothing else is yet. -/
  stats : w.stats = { w₀.stats with failedAttempts := w₀.stats.failedAttempts + errors.length }
  results : r.results = errors.map .error
  /-- There is one warning for each failed attempt, in order. -/
  reports : r.reports = w₀.warnings item errors
  inTurn : InTurn received w₀.retry.delay.ticks r.tries
  stage : Stage item w₀.retry received now r.tries errors.length w.phase
  told : w.stopping ↔ r.halts ≠ []
  known : ∀ moment ∈ r.halts, moment ≤ now
  /-- A worker that was told to stop begins no other attempt. -/
  noneLater : ∀ moment ∈ r.halts, ∀ a ∈ r.tries, a.moment ≤ moment
  halted : ∀ moment ∈ r.halts, w.phase.HaltedAt moment now r.tries

/-- The latest moment at which the worker is done with an event. -/
def latest (w₀ : Worker) (received : Nat) (tries : List Attempt) : Nat :=
  received + (w₀.retry.attempts - 1) * w₀.retry.delay.ticks + timeTaken tries

/-- How the worker `w₀` is done with an event. -/
inductive Ending (w₀ : Worker) (item : Item) (q : Queue) (now : Nat) (r : Record)
    (errors : List TransportError) : Phase → Outcome → Prop where
  /-- The publish of the last attempt has succeeded. -/
  | published {a : Attempt} {older : List Attempt} :
      r.tries = a :: older → r.tries.length ≤ w₀.retry.attempts →
      errors.length = older.length → now = a.ends →
      r.results = .ok () :: errors.map .error →
      r.reports = .published w₀.topic item r.tries.length :: w₀.warnings item errors →
      Ending w₀ item q now r errors .idle .published
  /-- As many attempts as there may be have failed. -/
  | dropped {a : Attempt} {older : List Attempt} :
      r.tries = a :: older → r.tries.length = w₀.retry.attempts →
      errors.length = r.tries.length → now = a.ends →
      r.results = errors.map .error →
      r.reports = .retriesExhausted w₀.topic item w₀.retry.attempts :: w₀.warnings item errors →
      Ending w₀ item q now r errors .idle .dropped
  /-- An attempt has failed that was not the last, and the worker was told to stop: it ends as
  soon as both is so, and gives up the queue as well. -/
  | abandoned {a : Attempt} {older : List Attempt} {moment : Nat} :
      r.tries = a :: older → r.tries.length < w₀.retry.attempts →
      errors.length = r.tries.length → moment ∈ r.halts → now = max moment a.ends →
      r.results = errors.map .error →
      r.reports = w₀.farewell q ++ w₀.warnings item errors →
      Ending w₀ item q now r errors .ended .abandoned

/-- The worker `w₀` is done with an event: one outcome is counted, once. -/
structure Done (w₀ : Worker) (item : Item) (received : Nat) (q : Queue) (w : Worker) (now : Nat)
    (r : Record) (errors : List TransportError) (o : Outcome) : Prop where
  inTurn : InTurn received w₀.retry.delay.ticks r.tries
  failed : w.stats.failedAttempts = w₀.stats.failedAttempts + errors.length
  /-- What is queued is abandoned together with the event in hand. -/
  counts : ∀ o', w.stats.count o' = w₀.stats.count o' +
    if o' = o then (if o = .abandoned then 1 + q.buffer.length else 1) else 0
  noneLater : ∀ moment ∈ r.halts, ∀ a ∈ r.tries, a.moment ≤ moment
  inTime : now ≤ latest w₀ received r.tries
  ending : Ending w₀ item q now r errors w.phase o

/-- What a step of the worker adds to the record. -/
def Record.step (r : Record) (h k : Host) (w : Worker) : Record where
  tries := (w.attempt? h).toList ++ r.tries
  results := (w.result? h).toList ++ r.results
  halts := r.halts
  reports := k.noticesSince h ++ r.reports

variable {w₀ w w' : Worker} {item : Item} {received now : Nat} {r : Record}
  {errors : List TransportError} {h k : Host} {q q' : Queue} {o : Outcome}

theorem next_le_latest {tries : List Attempt} (few : tries.length < w₀.retry.attempts) :
    next received w₀.retry.delay.ticks tries ≤ latest w₀ received tries := by
  have := Nat.mul_le_mul_right w₀.retry.delay.ticks (Nat.le_sub_one_of_lt few)
  unfold next latest
  omega

theorem ends_le_latest {a : Attempt} {older : List Attempt}
    (turn : InTurn received w₀.retry.delay.ticks (a :: older))
    (few : (a :: older).length ≤ w₀.retry.attempts) : a.ends ≤ latest w₀ received (a :: older) := by
  have moment := turn.2.1
  rw [List.length_cons] at few
  have := Nat.mul_le_mul_right w₀.retry.delay.ticks (Nat.le_sub_one_of_lt few)
  unfold next at moment
  rw [latest, Attempt.timeTaken_cons, Attempt.ends, moment]
  omega

/-- The worker has just received the event. -/
theorem Course.start (going : w₀.stopping = false) :
    Course w₀ item now { w₀ with phase := .attempting { item } } now {} [] where
  topic := rfl
  retry := rfl
  stats := rfl
  results := rfl
  reports := rfl
  inTurn := trivial
  stage := .attempting (Nat.lt_of_lt_of_le Nat.one_pos (Nat.le_max_right _ 1)) rfl
    (by simp [next, timeTaken])
  told := by simp [going]
  known _ h := absurd h List.not_mem_nil
  noneLater _ h := absurd h List.not_mem_nil
  halted _ h := absurd h List.not_mem_nil

namespace Course

variable (course : Course w₀ item received w now r errors)
include course

theorem item? : w.phase.item? = some item := by
  have stage := course.stage
  generalize w.phase = φ at stage ⊢
  cases stage <;> rfl

theorem count (o : Outcome) : w.stats.count o = w₀.stats.count o := by
  rw [course.stats]
  cases o <;> rfl

/-- The event is held no longer than until the moment of the last attempt, and the time that it
takes. -/
theorem now_le : now ≤ latest w₀ received r.tries := by
  have turn := course.inTurn
  have stage := course.stage
  generalize w.phase = φ at stage
  cases stage with
  | attempting few _ moment => exact moment ▸ next_le_latest few
  | publishing tried few _ _ _ le =>
    rw [tried] at turn few ⊢
    exact Nat.le_trans le (ends_le_latest turn few)
  | resting tried few _ due _ le =>
    rw [due] at le
    rw [tried] at turn few ⊢
    rw [← Attempt.next_cons turn] at le
    exact Nat.le_trans le (next_le_latest few)

/-- A worker that cannot go on waits for a moment that is still to come. -/
theorem waits (same : h.now = now) (still : w.step? h q = none) :
    ∃ timer, w.timer? = some timer ∧ now < timer.due ∧
      ∀ job timer, w.phase = .resting job timer → r.halts = [] := by
  have stage := course.stage
  have told := course.told
  unfold step? at still
  unfold timer?
  generalize w.phase = φ at stage still ⊢
  cases stage with
  | attempting _ _ _ =>
    dsimp only at still
    split at still <;> cases still
  | @publishing a older timer _ _ _ _ _ _ =>
    dsimp only at still
    split at still
    · cases still
    next early => exact ⟨timer, rfl, by simpa [Host.isDue, same] using early, by simp⟩
  | @resting a older timer _ _ _ _ _ _ =>
    dsimp only at still
    split at still
    · cases still
    next going =>
      split at still
      · cases still
      next early =>
        refine ⟨timer, rfl, by simpa [Host.isDue, same] using early, fun _ _ _ => ?_⟩
        by_contra some
        exact going (told.mpr some)

/-- A worker that cannot go on has time left. -/
theorem now_lt (same : h.now = now) (still : w.step? h q = none) :
    now < latest w₀ received r.tries := by
  obtain ⟨timer, waits, early, -⟩ := course.waits same still
  have turn := course.inTurn
  have stage := course.stage
  unfold timer? at waits
  generalize w.phase = φ at stage waits
  cases stage with
  | attempting _ _ _ => cases waits
  | publishing tried few _ due _ _ =>
    obtain rfl := Option.some.inj waits
    rw [tried] at turn few ⊢
    exact Nat.lt_of_lt_of_le (due ▸ early) (ends_le_latest turn few)
  | resting tried few _ due _ _ =>
    obtain rfl := Option.some.inj waits
    rw [due] at early
    rw [tried] at turn few ⊢
    rw [← Attempt.next_cons turn] at early
    exact Nat.lt_of_lt_of_le early (next_le_latest few)

/-- Time passes while the worker waits. -/
theorem tick (same : h.now = now) (still : w.step? h q = none) {moment : Nat}
    (later : now ≤ moment) (within : ∀ timer, w.timer? = some timer → moment ≤ timer.due) :
    Course w₀ item received w moment r errors := by
  obtain ⟨timer, waits, -, going⟩ := course.waits same still
  have due := within timer waits
  have stage := course.stage
  have halted : ∀ told ∈ r.halts, w.phase.HaltedAt told moment r.tries := by
    intro told hr
    unfold timer? at waits
    generalize w.phase = φ at stage waits going
    cases stage with
    | attempting _ _ _ => cases waits
    | publishing _ _ _ _ _ _ => exact trivial
    | resting _ _ _ _ _ _ =>
      obtain rfl := Option.some.inj waits
      rw [going _ _ rfl] at hr
      cases hr
  have known := fun told hr => Nat.le_trans (course.known told hr) later
  refine { course with stage := ?_, known, halted }
  unfold timer? at waits
  generalize w.phase = φ at stage waits
  cases stage with
  | attempting _ _ _ => cases waits
  | publishing tried few failed moment le _ =>
    obtain rfl := Option.some.inj waits
    exact .publishing tried few failed moment (Nat.le_trans le later) (moment ▸ due)
  | resting tried few failed moment le _ =>
    obtain rfl := Option.some.inj waits
    exact .resting tried few failed moment (Nat.le_trans le later) due

theorem moment_le : ∀ a ∈ r.tries, a.moment ≤ now := by
  intro b hb
  have turn := course.inTurn
  have stage := course.stage
  generalize w.phase = φ at stage
  cases stage with
  | attempting _ _ moment => exact moment ▸ turn.le_next hb
  | publishing tried _ _ _ le _ =>
    rw [tried] at turn hb
    exact Nat.le_trans (turn.le_first hb) le
  | resting tried _ _ _ le _ =>
    rw [tried] at turn hb
    exact Nat.le_trans (turn.le_first hb) (Nat.le_trans (Nat.le_add_right _ _) le)

/-- The worker is told to stop. -/
theorem halt (going : w.stopping = false) :
    Course w₀ item received { w with stopping := true } now { r with halts := now :: r.halts }
      errors := by
  have none : r.halts = [] := by
    by_contra some
    have told := course.told.mpr some
    rw [going] at told
    cases told
  have only : ∀ moment ∈ now :: r.halts, moment = now := by simp [none]
  refine { course with
    told := ⟨fun _ => List.cons_ne_nil _ _, fun _ => rfl⟩
    known := fun moment hm => Nat.le_of_eq (only moment hm)
    noneLater := ?_, halted := ?_ }
  · intro moment hm
    rw [only moment hm]
    exact course.moment_le
  · intro moment hm
    rw [only moment hm]
    have stage := course.stage
    dsimp only
    generalize w.phase = φ at stage ⊢
    cases stage with
    | attempting _ _ _ => exact Nat.le_refl now
    | publishing _ _ _ _ _ _ => exact trivial
    | resting _ _ _ _ _ _ => exact fun a _ _ => Nat.le_max_left now a.ends

/-! ### The worker goes on -/

/-- The worker begins an attempt. -/
theorem begin {job : Job} (phase : w.phase = .attempting job) (takes serial : Nat) :
    Course w₀ item received { w with phase := .publishing job ⟨now + takes, serial⟩ } now
      { r with tries := ⟨job.attempt, now, takes⟩ :: r.tries } errors := by
  have stage := course.stage
  have halted := course.halted
  rw [phase] at stage halted
  cases stage with
  | attempting few failed moment =>
    refine { course with
      inTurn := ⟨rfl, moment, course.inTurn⟩, stage := ?_, noneLater := ?_, halted := ?_ }
    · exact .publishing rfl few failed rfl (Nat.le_refl _) (Nat.le_add_right _ _)
    · intro told hr a ha
      rcases List.mem_cons.mp ha with rfl | ha
      · exact halted told hr
      · exact course.noneLater told hr a ha
    · exact fun _ _ => trivial

/-- The worker has rested long enough. -/
theorem again {job : Job} {timer : Timer} (phase : w.phase = .resting job timer)
    (going : w.stopping = false) (due : timer.due ≤ now) :
    Course w₀ item received { w with phase := .attempting { job with attempt := job.attempt + 1 } }
      now r errors := by
  have stage := course.stage
  have turn := course.inTurn
  have none : r.halts = [] := by
    by_contra some
    have told := course.told.mpr some
    rw [going] at told
    cases told
  rw [phase] at stage
  cases stage with
  | resting tried few failed moment _ le =>
    refine { course with stage := .attempting few failed ?_, halted := ?_ }
    · rw [tried] at turn ⊢
      rw [Attempt.next_cons turn, ← moment]
      exact Nat.le_antisymm le due
    · rw [none]
      exact fun _ h => absurd h List.not_mem_nil

/-- The worker is interrupted while it rests. -/
theorem interrupt {job : Job} {timer : Timer} (phase : w.phase = .resting job timer)
    (told : w.stopping) :
    Done w₀ item received q (Worker.interrupt h q w).2.2 now
      { r with reports := (Worker.interrupt h q w).1.noticesSince h ++ r.reports } errors
      .abandoned := by
  have stage := course.stage
  have halted := course.halted
  have farewell : w.farewell q = w₀.farewell q := by
    unfold Worker.farewell
    rw [course.topic]
  have reports : (Worker.interrupt h q w).1.noticesSince h = w₀.farewell q :=
    (reports_abandonRemaining h q _).noticesSince_eq.trans farewell
  obtain ⟨moment, hm⟩ := List.exists_mem_of_ne_nil _ (course.told.mp told)
  rw [phase] at stage halted
  refine ⟨course.inTurn, ?_, ?_, course.noneLater, course.now_le, ?_⟩
  · exact congrArg PublishStats.failedAttempts course.stats
  · intro o'
    have stats := course.stats
    have counts : (Worker.interrupt h q w).2.2.stats =
        { w.stats with abandoned := w.stats.abandoned + 1 + q.buffer.length } := rfl
    rw [counts, stats]
    cases o' <;> simp [PublishStats.count, Nat.add_assoc]
  · cases stage with
    | @resting a older _ tried few failed due le _ =>
      have late := halted moment hm a older tried
      have early := course.known moment hm
      refine .abandoned tried few failed hm ?_ course.results ?_
      · omega
      · exact congrArg₂ (· ++ ·) reports course.reports

/-- The stage at the end of an attempt. -/
theorem ended {job : Job} {timer : Timer} (phase : w.phase = .publishing job timer)
    (due : timer.due ≤ now) : ∃ a older, r.tries = a :: older ∧ job = ⟨item, r.tries.length⟩ ∧
      r.tries.length ≤ w₀.retry.attempts ∧ errors.length = older.length ∧ now = a.ends := by
  have stage := course.stage
  rw [phase] at stage
  cases stage with
  | @publishing a older _ tries few failed atEnd _ le =>
    exact ⟨a, older, tries, rfl, few, failed, Nat.le_antisymm le (atEnd ▸ due)⟩

/-- An attempt ends, and its publish has failed. -/
theorem fail {job : Job} {timer rest : Timer} (phase : w.phase = .publishing job timer)
    (due : timer.due ≤ now) (e : TransportError) (more : job.attempt < w.retry.attempts)
    (set : rest.due = now + w.retry.delay.ticks) :
    Course w₀ item received
      { w with
        phase := .resting job rest
        stats := { w.stats with failedAttempts := w.stats.failedAttempts + 1 } } now
      { r with
        results := .error e :: r.results
        reports := .attemptFailed w.topic job.item job.attempt w.retry.attempts e :: r.reports }
      (e :: errors) := by
  obtain ⟨a, older, tries, rfl, few, failed, atEnd⟩ := course.ended phase due
  have number : r.tries.length = errors.length + 1 := by rw [tries, failed, List.length_cons]
  rw [course.retry] at more set
  refine { course with
    stats := ?stats, results := ?results, reports := ?reports, stage := ?stage, halted := ?halted }
  case stats => rw [course.stats, List.length_cons, Nat.add_assoc]
  case results => exact congrArg (.error e :: ·) course.results
  case reports =>
    dsimp only
    rw [course.reports, course.topic, course.retry, number]
    rfl
  case stage =>
    exact .resting tries more number.symm (atEnd ▸ set) (Nat.le_of_eq atEnd.symm)
      (set ▸ Nat.le_add_right _ _)
  case halted =>
    intro moment _ a' older' tries'
    obtain ⟨rfl, -⟩ := List.cons.inj (tries.symm.trans tries')
    exact atEnd ▸ Nat.le_max_right moment _

/-- The last attempt ends, and its publish has failed. -/
theorem drop {job : Job} {timer : Timer} (phase : w.phase = .publishing job timer)
    (due : timer.due ≤ now) (e : TransportError) (last : w.retry.attempts ≤ job.attempt) :
    Done w₀ item received q
      { w with
        phase := .idle
        stats := { w.stats with
          failedAttempts := w.stats.failedAttempts + 1, dropped := w.stats.dropped + 1 } } now
      { r with
        results := .error e :: r.results
        reports := .retriesExhausted w.topic job.item w.retry.attempts ::
          .attemptFailed w.topic job.item job.attempt w.retry.attempts e :: r.reports }
      (e :: errors) .dropped := by
  obtain ⟨a, older, tries, rfl, few, failed, atEnd⟩ := course.ended phase due
  have number : r.tries.length = errors.length + 1 := by rw [tries, failed, List.length_cons]
  rw [course.retry] at last
  refine ⟨course.inTurn, ?failed, ?counts, course.noneLater, course.now_le, ?ending⟩
  case failed =>
    rw [course.stats, List.length_cons, Nat.add_assoc]
  case counts =>
    intro o'
    rw [course.stats]
    cases o' <;> simp [PublishStats.count]
  case ending =>
    refine .dropped tries (Nat.le_antisymm few last) number.symm atEnd ?_ ?_
    · exact congrArg (.error e :: ·) course.results
    · dsimp only
      rw [course.reports, course.topic, course.retry, number]
      rfl

/-- An attempt ends, and its publish has succeeded. -/
theorem succeed {job : Job} {timer : Timer} (phase : w.phase = .publishing job timer)
    (due : timer.due ≤ now) :
    Done w₀ item received q
      { w with phase := .idle, stats := { w.stats with published := w.stats.published + 1 } } now
      { r with
        results := .ok () :: r.results
        reports := .published w.topic job.item job.attempt :: r.reports } errors .published := by
  obtain ⟨a, older, tries, rfl, few, failed, atEnd⟩ := course.ended phase due
  refine ⟨course.inTurn, ?failed, ?counts, course.noneLater, course.now_le, ?ending⟩
  case failed => exact congrArg PublishStats.failedAttempts course.stats
  case counts =>
    intro o'
    rw [course.stats]
    cases o' <;> simp [PublishStats.count]
  case ending =>
    refine .published tries few failed atEnd ?_ ?_
    · exact congrArg (.ok () :: ·) course.results
    · dsimp only
      rw [course.reports, course.topic]

/-- An attempt ends. -/
theorem finish {job : Job} {timer : Timer} (phase : w.phase = .publishing job timer)
    (due : timer.due ≤ now) (same : h.now = now) (tried : Tried h w job k w') {r' : Record}
    (record : r' = { r with
      results := (h.publish w.topic job.payload).1 :: r.results
      reports := k.noticesSince h ++ r.reports }) :
    (∃ errors', Course w₀ item received w' now r' errors') ∨
      ∃ errors' o, Done w₀ item received q w' now r' errors' o := by
  subst record
  cases tried with
  | published hp =>
    obtain ⟨-, reports⟩ := Host.publish_frame hp
    rw [hp, (reports.note _).noticesSince_eq]
    exact .inr ⟨_, _, course.succeed phase due⟩
  | @failed l _ e rest hp more set =>
    obtain ⟨now_eq, reports⟩ := Host.publish_frame hp
    let notice : Notice := .attemptFailed w.topic job.item job.attempt w.retry.attempts e
    have told : k.noticesSince h = [notice] :=
      (congrArg (fun set => set.2.noticesSince h) set).symm.trans
        (reports.note notice).noticesSince_eq
    have ahead : rest.due = now + w.retry.delay.ticks :=
      (congrArg (fun set => set.1.due) set).symm.trans
        (congrArg (· + w.retry.delay.ticks) (now_eq.trans same))
    rw [hp, told]
    exact .inl ⟨e :: errors, course.fail phase due e more ahead⟩
  | @dropped l e hp last =>
    obtain ⟨-, reports⟩ := Host.publish_frame hp
    rw [hp, ((reports.note _).note _).noticesSince_eq]
    exact .inr ⟨_, _, course.drop phase due e last⟩

/-- A step of the worker brings the event further, or the worker is done with it. -/
theorem step (same : h.now = now) (hs : w.step? h q = some (k, q', w')) :
    (∃ errors', Course w₀ item received w' now (r.step h k w) errors') ∨
      ∃ errors' o, Done w₀ item received q w' now (r.step h k w) errors' o := by
  have holds := course.item?
  have silent : ∀ {l : Host}, l.journal = h.journal → l.noticesSince h = [] :=
    fun journal => (Host.Reports.of_journal_eq journal).noticesSince_eq
  cases turn_of_step? hs with
  | abandoning idle _ => rw [idle] at holds; cases holds
  | taking idle _ _ => rw [idle] at holds; cases holds
  | ending idle _ _ _ => rw [idle] at holds; cases holds
  | @delaying job phase slow =>
    have begun := course.begin phase h.faults.publishDelay h.timers
    have record : r.step h (h.setTimer h.faults.publishDelay).2 w =
        { r with tries := ⟨job.attempt, now, h.faults.publishDelay⟩ :: r.tries } := by
      simp [Record.step, attempt?, result?, phase, slow, same, silent, Host.setTimer]
    rw [record]
    refine .inl ⟨errors, ?_⟩
    simpa [Host.setTimer, same] using begun
  | @attempting job attempts =>
    rcases attempts with ⟨phase, prompt⟩ | ⟨timer, phase, due⟩
    · -- an attempt that takes no time begins and ends in one step
      have begun := course.begin phase 0 h.timers
      have record : r.step h (attempt h w job).1 w =
          { r with
            tries := ⟨job.attempt, now, 0⟩ :: r.tries
            results := (h.publish w.topic job.payload).1 :: r.results
            reports := (attempt h w job).1.noticesSince h ++ r.reports } := by
        simp [Record.step, attempt?, result?, phase, prompt, same]
      exact begun.finish rfl (Nat.le_refl _) same (tried_attempt h _ job) record
    · refine course.finish phase ?_ same (tried_attempt h w job) ?_
      · simpa [Host.isDue, same] using due
      · simp [Record.step, attempt?, result?, phase]
  | interrupting phase told =>
    refine .inr ⟨errors, .abandoned, ?_⟩
    have interrupted := course.interrupt (h := h) (q := q) phase told
    simpa [Record.step, attempt?, result?, phase] using interrupted
  | retrying phase going due =>
    have again := course.again phase going (by simpa [Host.isDue, same] using due)
    refine .inl ⟨errors, ?_⟩
    simpa [Record.step, attempt?, result?, phase, silent] using again

end Course

/-- A step of a worker does not tell it to stop. -/
theorem stopping_of_step? (hs : w.step? h q = some (k, q', w')) : w'.stopping = w.stopping := by
  cases turn_of_step? hs with
  | attempting _ => exact (tried_attempt h w _).rec (fun _ => rfl) (fun _ _ _ => rfl) fun _ _ => rfl
  | _ => rfl

end Worker

end ChangeDispatch
