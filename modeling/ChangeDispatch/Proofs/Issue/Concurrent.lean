import ChangeDispatch.Event.Issue

/-!
# Events that are issued at the same time

A call that issues an event reads the clock, and later raises the common floor to its reading and
takes its stamp. Between the two steps other calls make theirs, and the clock may be stepped in
either direction, so a reading can be older than the floor when it is applied. The stamps follow
the order in which readings are applied, not the order in which the clock was read.

A reading is taken to fit the floor. Leap seconds are not shown by a clock that counts nanoseconds,
so a reading is a number; `Reading.exists_moment` says that nothing else is left out.
-/
namespace ChangeDispatch

/-- Moments are ordered by their second and then within it, so that a leap second stays before the
second that follows it. -/
instance : LE Timestamp :=
  ⟨fun s t => s.second < t.second ∨ s.second = t.second ∧ s.nanos ≤ t.nanos⟩

/-- What a clock shows, in nanoseconds since the epoch. -/
structure Reading where
  nanos : Int
  fits : Timestamp.FitsWord64 nanos
  deriving DecidableEq, Repr

namespace Reading

def moment (r : Reading) : Timestamp := .ofNanos64 r.nanos r.fits

/-- A clock can show every moment in its range that is no leap second. -/
theorem exists_moment {t : Timestamp} (fits : Timestamp.FitsWord64 t.toNanos)
    (regular : t.nanos < Timestamp.nanosPerSecond) : ∃ r : Reading, r.moment = t := by
  refine ⟨⟨t.toNanos, fits⟩, ?_⟩
  obtain ⟨second, nanos, _, _⟩ := t
  simp only [moment, Timestamp.ofNanos64, Timestamp.toNanos, Timestamp.nanosPerSecond,
    Timestamp.mk.injEq] at regular ⊢
  omega

theorem moment_le {r r' : Reading} (h : r.nanos ≤ r'.nanos) : r.moment ≤ r'.moment := by
  show r.nanos / _ < r'.nanos / _ ∨ r.nanos / _ = r'.nanos / _ ∧
    (r.nanos % _).toNat ≤ (r'.nanos % _).toNat
  simp only [Timestamp.nanosPerSecond]
  omega

end Reading

namespace IssueFloor

/-- The floor as a reading of its own. -/
def reading (floor : IssueFloor) : Reading := ⟨floor.nanos, floor.fits⟩

theorem nanos_raise (floor : IssueFloor) (r : Reading) :
    (floor.raise r.nanos r.fits).nanos = max floor.nanos r.nanos := by
  unfold raise
  split
  next below => exact (Int.max_eq_right below).symm
  next above => exact (Int.max_eq_left (by omega)).symm

/-- The stamp is where the floor is afterwards. -/
theorem stamp_moment (floor : IssueFloor) (r : Reading) :
    floor.stamp r.moment =
      ((floor.raise r.nanos r.fits).reading.moment, floor.raise r.nanos r.fits) := by
  have exact : r.moment.toNanos = r.nanos := Timestamp.toNanos_ofNanos64 ..
  have shown : r.moment.nanos64? = some r.nanos := by
    rw [Timestamp.nanos64?, exact, if_pos r.fits]
  have fits : Timestamp.FitsWord64 r.moment.toNanos := exact.symm ▸ r.fits
  have raised : floor.raise r.moment.toNanos fits = floor.raise r.nanos r.fits := by
    simp only [exact]
  rw [stamp, dif_pos fits, raised]
  refine congrArg (·, floor.raise r.nanos r.fits) ?_
  simp only [notBefore, shown, raise]
  by_cases below : r.nanos < floor.nanos
  · rw [if_pos below, if_neg (by omega)]
    rfl
  · rw [if_neg below, if_pos (by omega)]
    rfl

end IssueFloor

/-! ## Runs -/

/-- A call that issues an event. -/
inductive IssueCall where
  /-- It has read the clock. -/
  | begun (request : ChangeRequest) (reading : Reading)
  /-- It has applied its reading and has its event. -/
  | done (event : ChangeEvent)

/-- The common floor, and the calls in the order in which they began. -/
structure Issuer where
  floor : IssueFloor := .initial
  calls : List IssueCall := []

/-- One step of a call, with what it brings to light. -/
inductive IssueStep where
  | read (call : Nat) (reading : Reading)
  /-- The call raises the floor to its reading and has its event. -/
  | update (call : Nat) (reading : Reading) (event : ChangeEvent)

/-- The steps that calls have made, in any order, the latest first, and what they have come to. -/
inductive Issues : List IssueStep → Issuer → Prop where
  | start : Issues [] {}
  | read {steps : List IssueStep} {s : Issuer} (request : ChangeRequest) (reading : Reading) :
      Issues steps s →
      Issues (.read s.calls.length reading :: steps)
        { s with calls := s.calls ++ [.begun request reading] }
  | update {steps : List IssueStep} {s : Issuer} {call : Nat} {request : ChangeRequest}
      {reading : Reading} {timestamp : Timestamp} {floor : IssueFloor} (id : RequestId) :
      Issues steps s → s.calls[call]? = some (.begun request reading) →
      s.floor.stamp reading.moment = (timestamp, floor) →
      Issues (.update call reading (request.event timestamp id) :: steps)
        ⟨floor, s.calls.set call (.done (request.event timestamp id))⟩

/-- The reading that a step applies, with the event that comes of it. -/
def IssueStep.applied? : IssueStep → Option (Reading × ChangeEvent)
  | read .. => none
  | update _ reading event => some (reading, event)

/-- The readings that were applied, the latest update first. -/
def appliedReadings (steps : List IssueStep) : List Reading :=
  (steps.filterMap IssueStep.applied?).map Prod.fst

/-- The events that were issued, the latest update first. -/
def issuedEvents (steps : List IssueStep) : List ChangeEvent :=
  (steps.filterMap IssueStep.applied?).map Prod.snd

/-- The latest of some readings shows this moment. -/
def Latest (readings : List Reading) (t : Timestamp) : Prop :=
  ∃ r ∈ readings, (∀ r' ∈ readings, r'.nanos ≤ r.nanos) ∧ t = r.moment

variable {steps earlier later : List IssueStep} {readings : List Reading} {s : Issuer} {n : Nat}
  {r : Reading} {e : ChangeEvent}

/-- The floor is the latest of the readings that were applied, or where it was at first. -/
structure Floored (readings : List Reading) (floor : IssueFloor) : Prop where
  above : ∀ r ∈ readings, r.nanos ≤ floor.nanos
  reached : (∃ r ∈ readings, r.nanos = floor.nanos) ∨ readings = [] ∧ floor = .initial

theorem Floored.initial : Floored [] .initial :=
  ⟨fun _ mem => (List.not_mem_nil mem).elim, .inr ⟨rfl, rfl⟩⟩

theorem Floored.raise {floor : IssueFloor} (floored : Floored readings floor) (r : Reading) :
    Floored (r :: readings) (floor.raise r.nanos r.fits) := by
  have raised := floor.nanos_raise r
  refine ⟨List.forall_mem_cons.mpr ⟨by omega, fun r' mem => ?_⟩, .inl ?_⟩
  · have := floored.above r' mem
    omega
  · by_cases higher : floor.nanos ≤ r.nanos
    · exact ⟨r, List.mem_cons_self, by omega⟩
    · rcases floored.reached with ⟨r', mem, same⟩ | ⟨-, rfl⟩
      · exact ⟨r', List.mem_cons_of_mem _ mem, by omega⟩
      · -- every reading that fits is at or above the first floor
        exact absurd r.fits.1 higher

theorem Floored.latest {floor : IssueFloor} (floored : Floored readings floor)
    (some : readings ≠ []) : Latest readings floor.reading.moment := by
  rcases floored.reached with ⟨⟨nanos, fits⟩, mem, same⟩ | ⟨none, -⟩
  · obtain rfl : nanos = floor.nanos := same
    exact ⟨_, mem, floored.above, rfl⟩
  · exact absurd none some

theorem Issues.floored (run : Issues steps s) : Floored (appliedReadings steps) s.floor := by
  induction run with
  | start => exact .initial
  | read _ _ _ ih => exact ih
  | @update steps s n request r timestamp floor id run begun stamped ih =>
    obtain ⟨-, rfl⟩ := Prod.mk.inj (stamped.symm.trans (s.floor.stamp_moment r))
    exact ih.raise r

/-- Who has begun has read the clock. -/
theorem Issues.read_of_begun (run : Issues steps s) {request : ChangeRequest}
    (begun : s.calls[n]? = some (.begun request r)) : .read n r ∈ steps := by
  induction run with
  | start => cases begun
  | @read steps s request' r' run ih =>
    rcases Nat.lt_or_ge n s.calls.length with old | new
    · rw [List.getElem?_append_left old] at begun
      exact List.mem_cons_of_mem _ (ih begun)
    · rw [List.getElem?_append_right new] at begun
      obtain ⟨first, same⟩ := List.getElem?_eq_some_iff.mp begun
      rw [List.length_singleton] at first
      rw [List.getElem_singleton] at same
      obtain ⟨-, rfl⟩ := IssueCall.begun.inj same
      obtain rfl : n = s.calls.length := by omega
      exact List.mem_cons_self
  | @update steps s n' request' r' timestamp floor id run begun' stamped ih =>
    refine List.mem_cons_of_mem _ (ih ?_)
    rw [List.getElem?_set] at begun
    split at begun
    · split at begun <;> cases begun
    · exact begun

/-- What a call does when it applies its reading. -/
theorem Issues.updated (run : Issues steps s)
    (split : steps = later ++ .update n r e :: earlier) :
    .read n r ∈ earlier ∧ Latest (r :: appliedReadings earlier) e.timestamp := by
  induction run generalizing later with
  | start => cases later <;> cases split
  | read _ _ _ ih =>
    cases later with
    | nil => cases split
    | cons _ later => exact ih (List.cons.inj split).2
  | @update steps s n' request r' timestamp floor id run begun stamped ih =>
    cases later with
    | nil =>
      obtain ⟨here, rfl⟩ := List.cons.inj split
      obtain ⟨rfl, rfl, rfl⟩ := IssueStep.update.inj here
      obtain ⟨rfl, -⟩ := Prod.mk.inj (stamped.symm.trans (s.floor.stamp_moment r'))
      exact ⟨run.read_of_begun begun, (run.floored.raise r').latest (List.cons_ne_nil _ _)⟩
    | cons _ later => exact ih (List.cons.inj split).2

/-- The latest of more readings is not earlier. -/
theorem Latest.le {more : List Reading} {t t' : Timestamp} (latest : Latest readings t)
    (latest' : Latest more t') (sub : readings ⊆ more) : t ≤ t' := by
  obtain ⟨r, mem, -, rfl⟩ := latest
  obtain ⟨r', -, above, rfl⟩ := latest'
  exact Reading.moment_le (above r (sub mem))

theorem mem_issuedEvents : e ∈ issuedEvents steps ↔ ∃ n r, .update n r e ∈ steps := by
  unfold issuedEvents
  rw [List.mem_map]
  constructor
  · rintro ⟨⟨r, e⟩, mem, rfl⟩
    obtain ⟨step, there, applied⟩ := List.mem_filterMap.mp mem
    cases step with
    | read => cases applied
    | update n r' e' =>
      obtain ⟨rfl, rfl⟩ := Prod.mk.inj (Option.some.inj applied)
      exact ⟨n, r', there⟩
  · rintro ⟨n, r, mem⟩
    exact ⟨(r, e), List.mem_filterMap.mpr ⟨_, mem, rfl⟩, rfl⟩

/-- The events in the order of the updates, the latest first, are never later than the one
before. -/
theorem Issues.ascending (run : Issues steps s) :
    (issuedEvents steps).Pairwise fun late early => early.timestamp ≤ late.timestamp := by
  induction run with
  | start => exact .nil
  | read _ _ _ ih => exact ih
  | @update steps s n request r timestamp floor id run begun stamped ih =>
    refine List.pairwise_cons.mpr ⟨fun early mem => ?_, ih⟩
    obtain ⟨n', r', mem⟩ := mem_issuedEvents.mp mem
    obtain ⟨before, after, rfl⟩ := List.append_of_mem mem
    have now := (Issues.update id run begun stamped).updated (List.nil_append _).symm
    refine ((run.updated rfl).2).le now.2 fun r'' mem' => List.mem_cons_of_mem _ ?_
    simp only [appliedReadings, List.filterMap_append, List.map_append, List.filterMap_cons]
    exact List.mem_append_right _ mem'

/-- Calls that are made one after the other issue their events in turn. -/
theorem Issues.inTurn (run : Issues steps s)
    (todo : List (ChangeRequest × Reading × RequestId)) :
    ∃ more t, Issues (more ++ steps) t ∧ (issuedEvents more).reverse =
      ChangeRequest.issue s.floor (todo.map fun (request, r, id) => (request, r.moment, id)) := by
  induction todo generalizing steps s with
  | nil => exact ⟨[], s, run, rfl⟩
  | cons call todo ih =>
    obtain ⟨request, r, id⟩ := call
    have begun : (s.calls ++ [.begun request r])[s.calls.length]? = some (.begun request r) := by
      rw [List.getElem?_append_right (Nat.le_refl _), Nat.sub_self]
      rfl
    have stamped := s.floor.stamp_moment r
    generalize (s.floor.raise r.nanos r.fits).reading.moment = timestamp at stamped
    obtain ⟨more, t, later, events⟩ := ih (Issues.update id (run.read request r) begun stamped)
    let call := s.calls.length
    refine ⟨more ++ [.update call r (request.event timestamp id), .read call r], t, ?_, ?_⟩
    · rw [List.append_assoc]
      exact later
    · dsimp only at events
      rw [List.map_cons, ChangeRequest.issue, stamped]
      dsimp only
      rw [← events]
      simp [issuedEvents, IssueStep.applied?]

/-- The stamps of a run never go back. -/
structure NeverBack (steps : List IssueStep) : Prop where
  /-- In the order in which readings were applied, no event is earlier than one before it. -/
  ascending : (issuedEvents steps).reverse.Pairwise fun early late =>
    early.timestamp ≤ late.timestamp
  /-- An event has the latest of the readings that were applied up to its own. -/
  latest : ∀ later n r e earlier, steps = later ++ .update n r e :: earlier →
    Latest (appliedReadings (.update n r e :: earlier)) e.timestamp
  /-- The reading that a call applies is its own. -/
  own : ∀ later n r e earlier, steps = later ++ .update n r e :: earlier → .read n r ∈ earlier
  /-- A call that begins when another has its event has no earlier one. -/
  begun : ∀ n n' r r' r'' e e',
    [.update n' r'' e', .read n' r', .update n r e].Sublist steps → e.timestamp ≤ e'.timestamp

/-- However the clock is stepped and however many calls there are at once, the stamps are the latest
readings so far, in the order in which these were applied. -/
theorem stamps_never_back (run : Issues steps s) : NeverBack steps where
  ascending := List.pairwise_reverse.mpr run.ascending
  latest later n r e earlier split := (run.updated split).2
  own later n r e earlier split := (run.updated split).1
  begun n n' r r' r'' e e' sub := by
    have ordered := run.ascending.sublist ((sub.filterMap IssueStep.applied?).map Prod.snd)
    exact List.rel_of_pairwise_cons ordered List.mem_cons_self

/-- One request for all calls, for a run on fixed inputs. -/
def newWorkspace : ChangeRequest :=
  { name := "ws-1", status := .creating, owner := "alice", account := none }

/-- The event that the request has at a reading. -/
def Reading.event (r : Reading) : ChangeEvent := newWorkspace.event r.moment (.ofSerial 0 0)

def firstReading : Reading := ⟨100, by decide⟩
def secondReading : Reading := ⟨50, by decide⟩
def thirdReading : Reading := ⟨40, by decide⟩

/-- The clock is stepped back after the first call has read it. The second call applies its reading
before the first does, and the third begins between these two. The latest step first. -/
def steppedBack : List IssueStep :=
  [.update 2 thirdReading firstReading.event, .update 0 firstReading firstReading.event,
   .read 2 thirdReading, .update 1 secondReading secondReading.event, .read 1 secondReading,
   .read 0 firstReading]

/-- The third event has the reading of the first call, and none is earlier than one before it. -/
theorem third_stamp_held_up :
    (∃ s, Issues steppedBack s) ∧ NeverBack steppedBack ∧
      (issuedEvents steppedBack).map (·.timestamp.toNanos) = [100, 100, 50] := by
  have stamp₂ : IssueFloor.initial.stamp secondReading.moment =
      (secondReading.moment, ⟨50, by decide⟩) := rfl
  have stamp₁ : (⟨50, by decide⟩ : IssueFloor).stamp firstReading.moment =
      (firstReading.moment, ⟨100, by decide⟩) := rfl
  have stamp₃ : (⟨100, by decide⟩ : IssueFloor).stamp thirdReading.moment =
      (firstReading.moment, ⟨100, by decide⟩) := rfl
  -- the calls before each of the updates
  let calls₂ : List IssueCall :=
    [.begun newWorkspace firstReading, .begun newWorkspace secondReading]
  let calls₁ : List IssueCall :=
    calls₂.set 1 (.done secondReading.event) ++ [.begun newWorkspace thirdReading]
  let calls₃ : List IssueCall := calls₁.set 0 (.done firstReading.event)
  have begun₂ : calls₂[1]? = some (.begun newWorkspace secondReading) := rfl
  have begun₁ : calls₁[0]? = some (.begun newWorkspace firstReading) := rfl
  have begun₃ : calls₃[2]? = some (.begun newWorkspace thirdReading) := rfl
  have run₂ : Issues _ ⟨_, calls₂⟩ :=
    .read newWorkspace secondReading (.read newWorkspace firstReading .start)
  have run₁ : Issues _ ⟨_, calls₁⟩ :=
    .read newWorkspace thirdReading (.update (.ofSerial 0 0) run₂ begun₂ stamp₂)
  have run₃ : Issues _ ⟨_, calls₃⟩ := .update (.ofSerial 0 0) run₁ begun₁ stamp₁
  have run : Issues steppedBack _ := .update (.ofSerial 0 0) run₃ begun₃ stamp₃
  exact ⟨⟨_, run⟩, stamps_never_back run, by decide⟩

end ChangeDispatch
