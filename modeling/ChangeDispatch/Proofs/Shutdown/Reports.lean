import ChangeDispatch.Proofs.Publisher.Log
import ChangeDispatch.Proofs.Shutdown.Sessions

/-!
# What a worker reports of the events it gives up

A worker that was told to stop gives up the event in its hand and all that is queued, in the
step in which it ends. It counts them together, but it warns of the queued ones only: the
warning and the counter agree exactly if the worker held no event. Nothing is claimed here of
the notices that a publisher leaves when it is let go of, which speak of the queue before its
worker ends.
-/
namespace ChangeDispatch

/-- A warning that says how many events were abandoned. -/
def Notice.tellsAbandoned (n : Notice) : Bool :=
  n.level == .warn && (n.fields.lookup "abandoned").isSome

@[simp] theorem Notice.tellsAbandoned_iff (n : Notice) :
    n.tellsAbandoned ↔ ∃ topic count, n = .queueAbandoned topic count := by
  cases n <;> simp [tellsAbandoned, level, fields, List.lookup_cons]

namespace Host

/-- What was reported since the host was `h`, the latest first. -/
def noticesSince (k h : Host) : List Notice :=
  (k.journal.take (k.journal.length - h.journal.length)).map JournalEntry.notice

/-- Of what is reported between two hosts, `told` are the warnings of abandoned events. -/
def Tells (h k : Host) (told : List Notice) : Prop :=
  ∃ entries, k.journal = entries ++ h.journal ∧
    (entries.map JournalEntry.notice).filter Notice.tellsAbandoned = told

namespace Tells

variable {h k l : Host} {told more : List Notice}

theorem of_journal_eq (same : k.journal = h.journal) : h.Tells k [] := ⟨[], same, rfl⟩

theorem trans (first : h.Tells k told) (second : k.Tells l more) : h.Tells l (more ++ told) := by
  obtain ⟨entries, hk, rfl⟩ := first
  obtain ⟨later, hl, rfl⟩ := second
  refine ⟨later ++ entries, ?_, ?_⟩
  · rw [hl, hk, List.append_assoc]
  · rw [List.map_append, List.filter_append]

theorem note (tells : h.Tells k told) (notice : Notice) :
    h.Tells (k.note notice) ([notice].filter Notice.tellsAbandoned ++ told) :=
  tells.trans ⟨[⟨k.now, notice⟩], rfl, rfl⟩

/-- A notice of another kind adds nothing. -/
theorem note_other (tells : h.Tells k told) {notice : Notice}
    (other : notice.tellsAbandoned = false) : h.Tells (k.note notice) told := by
  have noted := tells.note notice
  rwa [List.filter_singleton, other] at noted

theorem filter_noticesSince (tells : h.Tells k told) :
    (k.noticesSince h).filter Notice.tellsAbandoned = told := by
  obtain ⟨entries, hk, rfl⟩ := tells
  have new : k.journal.length - h.journal.length = entries.length := by
    rw [hk, List.length_append]
    omega
  unfold noticesSince
  rw [new, hk, List.take_left]

end Tells

end Host

namespace Worker

open Host (Tells)

variable {h k : Host} {q q' : Queue} {w w' : Worker}

/-- The warning of a worker that gives up what is queued. -/
def abandonReport (q : Queue) (w : Worker) : List Notice :=
  if q.buffer.length = 0 then [] else [.queueAbandoned w.topic q.buffer.length]

theorem tells_abandonRemaining (h : Host) (q : Queue) (w : Worker) :
    h.Tells (abandonRemaining h q w).1 (w.abandonReport q) := by
  have each : ∀ (items : List Item) (k : Host), h.Tells k [] →
      h.Tells (items.foldl (fun h item => h.note (.abandoning item)) k) [] := by
    intro items
    induction items with
    | nil => exact fun _ told => told
    | cons item items ih => exact fun k told => ih _ (told.note_other rfl)
  have told := each q.buffer h (.of_journal_eq rfl)
  unfold abandonRemaining abandonReport
  dsimp only
  by_cases empty : q.buffer.length = 0
  · rw [if_pos empty, if_neg (by omega)]
    exact told
  · rw [if_neg empty, if_pos (by omega)]
    exact told.note _

theorem tells_attempt (h : Host) (w : Worker) (job : Job) :
    h.Tells (attempt h w job).1 [] ∧ (attempt h w job).2.phase ≠ .ended := by
  have published : h.Tells (h.publish w.topic job.payload).2 [] := .of_journal_eq rfl
  unfold attempt
  cases hp : h.publish w.topic job.payload with
  | mk result k =>
    rw [hp] at published
    cases result with
    | ok _ => exact ⟨published.note_other rfl, nofun⟩
    | error e =>
      let notice : Notice := .attemptFailed w.topic job.item job.attempt w.retry.attempts e
      have untold : notice.tellsAbandoned = false := rfl
      have failed := published.note_other untold
      dsimp only
      split
      · exact ⟨failed, nofun⟩
      · exact ⟨failed.note_other rfl, nofun⟩

/-- A step warns of abandoned events only if the worker ends in it, and then of those that
are queued. -/
theorem tells_of_step? (hs : w.step? h q = some (k, q', w')) :
    h.Tells k (if w'.phase = .ended then w.abandonReport q else []) := by
  cases turn_of_step? hs with
  | abandoning _ _ => exact tells_abandonRemaining h q w
  | taking _ _ _ => exact .of_journal_eq rfl
  | ending _ _ _ drained =>
    have empty : q.buffer = [] := by
      simp only [Queue.isDrained, Bool.and_eq_true, List.isEmpty_iff] at drained
      exact drained.1.1.2
    have nothing : w.abandonReport q = [] := by
      unfold abandonReport
      rw [empty]
      rfl
    rw [nothing, ite_self]
    exact .of_journal_eq rfl
  | delaying _ _ => exact .of_journal_eq rfl
  | attempting _ =>
    obtain ⟨told, going⟩ := tells_attempt h w _
    rw [if_neg going]
    exact told
  | interrupting _ _ => exact tells_abandonRemaining h q _
  | retrying _ _ _ => exact .of_journal_eq rfl

/-- The worker has ended, or it has given up nothing. -/
def Keeps (w : Worker) : Prop := w.phase = .ended ∨ w.stats.abandoned = 0

theorem Keeps.step (keeps : w.Keeps) (step : Step h q w k q' w') : w'.Keeps := by
  rcases keeps with ended | none
  · exact .inl ((Onward.of_step step).ended ended).1
  · cases step with
    | drained _ _ _ => exact .inl rfl
    | abandoned _ _ _ => exact .inl rfl
    | interrupted _ _ _ => exact .inl rfl
    | _ => exact .inr none

/-- A worker that ends when it was told to stop gives up what it holds and what is queued. -/
theorem Step.abandoned_of_ended (step : Step h q w k q' w') (told : w.stopping)
    (ends : w'.phase = .ended) :
    w'.stats.abandoned = w.stats.abandoned + (w.inHand.length + q.buffer.length) := by
  have busy : ∀ {P : Prop}, w.stopping = false → P := fun going =>
    absurd (told.symm.trans going) (by decide)
  cases step with
  | taken _ going _ => exact busy going
  | drained _ going _ => exact busy going
  | abandoned hp _ _ =>
    rw [inHand_of_idle hp]
    simp
  | interrupted hw _ _ =>
    rw [inHand_of_item? hw]
    simp [Nat.add_assoc]
  | moved _ hw _ =>
    dsimp only at ends
    rw [ends] at hw
    cases hw
  | published _ _ => cases ends
  | dropped _ _ => cases ends

end Worker

namespace Script

variable {ts since earlier : List Transition} {x y z : Session} {t u : Transition} {a : Action}
  {i : Nat} {p p' : Publisher} {q : Queue}

/-- The warnings of abandoned events that the worker of publisher `i` gives, the latest
first. -/
def Transition.abandonReports (t : Transition) (i : Nat) : List Notice :=
  match t.action with
  | .agent (.worker j) =>
    if j = i then
      (t.after.system.host.noticesSince t.before.system.host).filter Notice.tellsAbandoned
    else []
  | _ => []

def abandonReports (ts : List Transition) (i : Nat) : List Notice :=
  ts.flatMap fun t => t.abandonReports i

/-- The worker of publisher `i` ends, and it was told to stop before. -/
structure Transition.Forces (t : Transition) (i : Nat) (p : Publisher) (q : Queue) : Prop where
  publisher : t.before.system.publishers[i]? = some p
  queue : t.before.system.queues[p.queue]? = some q
  told : p.worker.stopping
  running : p.worker.phase ≠ .ended
  ends : ∃ p', t.after.system.publishers[i]? = some p' ∧ p'.worker.phase = .ended

/-- What a step of a worker reports. -/
theorem abandonReports_of_worker (h : x.after? (.agent (.worker i)) = some y) :
    ∃ p q host q' w, x.system.publishers[i]? = some p ∧ x.system.queues[p.queue]? = some q ∧
      Worker.Step x.system.host q p.worker host q' w ∧
      y.system.publishers[i]? = some { p with worker := w } ∧
      (⟨x, .agent (.worker i), y⟩ : Transition).abandonReports i =
        if w.phase = .ended then p.worker.abandonReport q else [] := by
  obtain ⟨s, hs, rfl⟩ := Option.map_eq_some_iff.mp h
  obtain ⟨p, q, host, q', w, hp, hq, hw, rfl⟩ := Agent.step?_worker hs
  refine ⟨p, q, host, q', w, hp, hq, Worker.step_of_step? hw, ?_, ?_⟩
  · change (x.system.publishers.modify i _)[i]? = _
    rw [List.getElem?_modify_eq, hp]
    rfl
  · unfold Transition.abandonReports
    dsimp only
    rw [if_pos rfl]
    exact (Worker.tells_of_step? hw).filter_noticesSince

/-- The worker of publisher `i`, if there is one, has not ended. -/
def Session.Works (x : Session) (i : Nat) : Prop :=
  ∀ p, x.system.publishers[i]? = some p → p.worker.phase ≠ .ended

theorem Session.Works.before (works : y.Works i) (h : x.after? a = some y) : x.Works i := by
  intro p hp ended
  obtain ⟨p', hp', onward⟩ := (Session.onward_of_after? h).publishers i p hp
  exact works p' hp' (onward.worker.ended ended).1

theorem Transition.abandonReports_of_works (h : t.before.after? t.action = some t.after)
    (works : t.after.Works i) : t.abandonReports i = [] := by
  obtain ⟨x, a, y⟩ := t
  unfold abandonReports
  split
  next j ha =>
    split
    next hj =>
      subst hj
      obtain rfl : a = .agent (.worker j) := ha
      obtain ⟨p, q, host, q', w, -, -, -, hp', told⟩ := abandonReports_of_worker h
      rw [if_neg (works _ hp')] at told
      unfold abandonReports at told
      dsimp only at told
      rwa [if_pos rfl] at told
    next => rfl
  next => rfl

/-- A worker that has not ended has warned of nothing. -/
theorem Runs.abandonReports_of_works (run : Runs ts z) (works : z.Works i) :
    abandonReports ts i = [] := by
  induction run with
  | start => rfl
  | @next ts x y a run h ih =>
    unfold abandonReports at ih ⊢
    rw [List.flatMap_cons, Transition.abandonReports_of_works h works, ih (works.before h)]
    rfl

/-- A worker that has not ended has given up nothing. -/
theorem Runs.keeps (run : Runs ts z) : ∀ p ∈ z.system.publishers, p.worker.Keeps :=
  run.workers (P := fun phase stats => phase = .ended ∨ stats.abandoned = 0) (.inr rfl)
    fun _ _ _ _ _ _ _ hs keeps => Worker.Keeps.step keeps (Worker.step_of_step? hs)

/-- Only a step of its own ends a worker. -/
theorem Transition.Forces.action (forced : t.Forces i p q)
    (h : t.before.after? t.action = some t.after) : t.action = .agent (.worker i) := by
  obtain ⟨p', hp', ended⟩ := forced.ends
  rcases Session.publisher_cases h hp' with ⟨p₀, hp, core⟩ | ⟨p₀, _, _, _, _, own, -⟩ | ⟨new, -⟩
  · obtain rfl := Option.some.inj (forced.publisher.symm.trans hp)
    exact absurd ((Publisher.phase_of_core core).symm.trans ended) forced.running
  · exact own
  · cases new.symm.trans forced.publisher

/-- A worker that has ended warns of nothing any more. -/
theorem Runs.abandonReports_of_ended (run : Runs (since ++ t :: earlier) z)
    (hp : t.after.system.publishers[i]? = some p) (ended : p.worker.phase = .ended) :
    abandonReports since i = [] := by
  refine List.flatMap_eq_nil_iff.mpr fun v hv => ?_
  obtain ⟨later, m, rfl⟩ := List.append_of_mem hv
  rw [List.append_assoc] at run
  obtain ⟨until', happens⟩ := run.of_suffix (List.suffix_append later (v :: (m ++ t :: earlier)))
  have onward := until'.onward (List.mem_append_right m List.mem_cons_self)
  obtain ⟨p', hp', further⟩ := onward.publishers i p hp
  have still : p'.worker.phase = .ended := (further.worker.ended ended).1
  unfold Transition.abandonReports
  split
  next j ha =>
    split
    next hj =>
      subst hj
      rw [ha] at happens
      obtain ⟨p₀, q₀, host, q', w, hp₀, -, step, -⟩ := abandonReports_of_worker happens
      obtain rfl := Option.some.inj (hp'.symm.trans hp₀)
      -- an ended worker makes no step
      cases step with
      | taken hw _ _ => cases hw.symm.trans still
      | drained hw _ _ => cases hw.symm.trans still
      | abandoned hw _ _ => cases hw.symm.trans still
      | interrupted hw _ _ | moved hw _ _ | published hw _ | dropped hw _ =>
        rw [still] at hw
        cases hw
    next => rfl
  next => rfl

/-- When a worker that was told to stop has ended, it has counted as abandoned the event that
it held and those that were queued, and it has warned of the queued ones. So the warning tells
the count, and there is none where nothing was abandoned, exactly if the worker held no
event. -/
theorem abandoned_reported_iff (run : Runs ts z) (hu : u ∈ ts) (forced : u.Forces i p q)
    (hp' : z.system.publishers[i]? = some p') :
    p'.worker.phase = .ended ∧
      p'.worker.stats.abandoned = p.worker.inHand.length + q.buffer.length ∧
      abandonReports ts i =
        (if q.buffer.length = 0 then []
          else [.queueAbandoned p'.config.changeTopic q.buffer.length]) ∧
      (abandonReports ts i =
          (if p'.worker.stats.abandoned = 0 then []
            else [.queueAbandoned p'.config.changeTopic p'.worker.stats.abandoned]) ↔
        p.worker.inHand = []) := by
  obtain ⟨since, earlier, rfl⟩ := List.append_of_mem hu
  obtain ⟨before, happens⟩ := run.of_suffix (List.suffix_append since (u :: earlier))
  have action := forced.action happens
  obtain ⟨p₁, hp₁, ended⟩ := forced.ends
  have after := run.abandonReports_of_ended hp₁ ended
  have beforehand : abandonReports earlier i = [] := by
    refine before.abandonReports_of_works fun p₀ hp₀ => ?_
    obtain rfl := Option.some.inj (forced.publisher.symm.trans hp₀)
    exact forced.running
  have none : p.worker.stats.abandoned = 0 :=
    (before.keeps p (List.mem_of_getElem? forced.publisher)).resolve_left forced.running
  obtain ⟨x, a, y⟩ := u
  obtain rfl : a = .agent (.worker i) := action
  obtain ⟨p₀, q₀, host, q', w, hp₀, hq₀, step, hw, told⟩ := abandonReports_of_worker happens
  obtain rfl := Option.some.inj (forced.publisher.symm.trans hp₀)
  obtain rfl := Option.some.inj (forced.queue.symm.trans hq₀)
  obtain rfl := Option.some.inj (hp₁.symm.trans hw)
  obtain ⟨p₂, hp₂, further⟩ := (run.onward hu).publishers i _ hp₁
  obtain rfl := Option.some.inj (hp'.symm.trans hp₂)
  obtain ⟨still, stats⟩ := further.worker.ended ended
  have topic : p.worker.topic = p'.config.changeTopic := by
    rw [further.config]
    exact (before.configured p (List.mem_of_getElem? forced.publisher)).1
  have count : p'.worker.stats.abandoned = p.worker.inHand.length + q.buffer.length := by
    rw [stats, step.abandoned_of_ended forced.told ended, none, Nat.zero_add]
  have reports : abandonReports (since ++ ⟨x, .agent (.worker i), y⟩ :: earlier) i =
      if q.buffer.length = 0 then []
      else [.queueAbandoned p'.config.changeTopic q.buffer.length] := by
    unfold abandonReports at after beforehand ⊢
    rw [List.flatMap_append, List.flatMap_cons, after, beforehand, told, if_pos ended,
      List.nil_append, List.append_nil, ← topic]
    rfl
  refine ⟨still, count, reports, ?_⟩
  rw [reports, count]
  constructor
  · intro agree
    by_contra held
    have positive : 0 < p.worker.inHand.length := List.length_pos_iff.mpr held
    rw [if_neg (show p.worker.inHand.length + q.buffer.length ≠ 0 by omega)] at agree
    split at agree
    · cases agree
    · have same := (Notice.queueAbandoned.inj (List.cons.inj agree).1).2
      omega
  · intro held
    rw [held, List.length_nil, Nat.zero_add]

/-- A publisher that is let go of while its worker rests between two attempts; the latest
action first. -/
def droppedAtRest : List Action :=
  [.agent (.worker 0), .perform (.drop .publisher "p"), .agent (.worker 0), .agent (.worker 0),
   .agent (.call 0), .perform (.enqueue "p" (creation none)), .perform (.failPublishes 1),
   .perform (.openPublisher "p" {})]

set_option maxRecDepth 100000 in
/-- The event in hand was abandoned and counted, and no warning tells of it. -/
theorem abandoned_unreported :
    ∃ p, (play droppedAtRest).2.system.publishers[0]? = some p ∧
      p.worker.phase = .ended ∧ p.worker.stats.abandoned = 1 ∧
      abandonReports (play droppedAtRest).1 0 = [] := by
  let z := (play droppedAtRest).2
  let u : Transition := ((play droppedAtRest).1[0]?).get (by rfl)
  have hu : u ∈ (play droppedAtRest).1 := List.mem_of_getElem? (Option.some_get _).symm
  have held : (u.before.system.publishers[0]?.map fun p =>
      (p.queue, p.worker.stopping, p.worker.isEnded, p.worker.inHand)) =
        some (0, true, false, [0]) := by rfl
  obtain ⟨p, hp, state⟩ := Option.map_eq_some_iff.mp held
  obtain ⟨queue, state⟩ := Prod.mk.inj state
  obtain ⟨told, state⟩ := Prod.mk.inj state
  obtain ⟨running, inHand⟩ := Prod.mk.inj state
  have buffer : (u.before.system.queues[0]?.map fun q => q.buffer.length) = some 0 := by rfl
  obtain ⟨q, hq, empty⟩ := Option.map_eq_some_iff.mp buffer
  have after : (z.system.publishers[0]?.map fun p => p.worker.phase) = some .ended := by rfl
  obtain ⟨p', hp', ended⟩ := Option.map_eq_some_iff.mp after
  have forced : u.Forces 0 p q :=
    { publisher := hp
      queue := queue ▸ hq
      told := told
      running := by simpa [Worker.isEnded] using running
      ends := ⟨p', hp', ended⟩ }
  obtain ⟨-, count, reports, -⟩ :=
    abandoned_reported_iff (play_runs droppedAtRest) hu forced hp'
  rw [inHand, empty] at count
  rw [empty] at reports
  exact ⟨p', hp', ended, count, reports⟩

end Script

end ChangeDispatch
