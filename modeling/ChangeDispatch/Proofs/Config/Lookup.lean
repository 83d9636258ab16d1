import ChangeDispatch.Proofs.Config.Text

/-!
# Settings and their variables

Twelve variables set twelve fields. `Setting` names the pairs in the order in which the fields are
declared, with the kind of value that each takes. `Assembled` says of a configuration, field by
field, that it is what the variables say, and `Loading` what reading the variables comes to: the
assembled configuration if it passes, otherwise the first variable that holds no number, or else
what is wrong with the configuration.
-/
namespace ChangeDispatch

namespace DispatchConfig

/-- How the text of a variable is understood. -/
inductive SettingKind where
  /-- As it stands. -/
  | text
  | servers
  /-- A number no larger than `limit`. -/
  | count (limit : Nat)
  /-- A span of a whole number of seconds. -/
  | seconds

namespace SettingKind

def Value : SettingKind → Type
  | text => String
  | servers => List String
  | count _ => Nat
  | seconds => Duration

/-- The largest number that a variable of the kind may hold, if it has to hold one. -/
def limit? : SettingKind → Option Nat
  | text | servers => none
  | count limit => some limit
  | seconds => some Text.maxWord64

/-- The text `raw` stands for the value. -/
def Tells : (kind : SettingKind) → String → kind.Value → Prop
  | text, raw, value => value = raw
  | servers, raw, value => IsServerList raw value
  | count limit, raw, value => IsCount limit raw value
  | seconds, raw, value => ∃ n, IsCount Text.maxWord64 raw n ∧ value = Duration.ofSeconds n

/-- The variable `key` stands for the value, which is `absent` if it is not set. -/
def Says (kind : SettingKind) (lookup : String → Option String) (key : String)
    (absent value : kind.Value) : Prop :=
  match lookup key with
  | none => value = absent
  | some raw => kind.Tells raw value

theorem tells_unique {kind : SettingKind} {raw : String} {value value' : kind.Value}
    (h : kind.Tells raw value) (h' : kind.Tells raw value') : value = value' := by
  cases kind with
  | text => exact h.trans h'.symm
  | servers => exact (isServerList_iff.mp h).symm.trans (isServerList_iff.mp h')
  | count limit => exact h.unique h'
  | seconds =>
    obtain ⟨n, told, rfl⟩ := h
    obtain ⟨n', told', rfl⟩ := h'
    exact congrArg _ (told.unique told')

theorem says_unique {kind : SettingKind} {lookup other : String → Option String} {key : String}
    {absent value value' : kind.Value} (h : kind.Says lookup key absent value)
    (h' : kind.Says other key absent value') (same : other key = lookup key) : value' = value := by
  unfold Says at h h'
  rw [same] at h'
  cases told : lookup key with
  | none =>
    rw [told] at h h'
    exact h'.trans h.symm
  | some raw =>
    rw [told] at h h'
    exact tells_unique h' h

theorem Tells.count {kind : SettingKind} {raw : String} {value : kind.Value}
    (h : kind.Tells raw value) {limit : Nat} (needed : limit ∈ kind.limit?) :
    ∃ n, IsCount limit raw n := by
  cases kind with
  | text => cases needed
  | servers => cases needed
  | count => exact Option.some.inj needed ▸ ⟨value, h⟩
  | seconds =>
    obtain ⟨n, told, -⟩ := h
    exact Option.some.inj needed ▸ ⟨n, told⟩

end SettingKind

/-- What a variable can set. -/
inductive Setting where
  | servers
  | stream
  | changeTopic
  | ackTopic
  | ackSubscription
  | queueCapacity
  | enqueueTimeout
  | maxPublishAttempts
  | retryDelay
  | ackTimeout
  | drainTimeout
  | ackMaxDeliveries
  deriving DecidableEq

namespace Setting

/-- Every setting, in the order in which the fields are declared. -/
def all : List Setting :=
  [servers, stream, changeTopic, ackTopic, ackSubscription, queueCapacity, enqueueTimeout,
    maxPublishAttempts, retryDelay, ackTimeout, drainTimeout, ackMaxDeliveries]

def key : Setting → String
  | servers => "NATS_URL"
  | stream => "NATS_STREAM"
  | changeTopic => "WORKSPACE_EVENTS_TOPIC"
  | ackTopic => "WORKSPACE_ACK_TOPIC"
  | ackSubscription => "WORKSPACE_ACK_SUBSCRIPTION"
  | queueCapacity => "DISPATCH_QUEUE_CAPACITY"
  | enqueueTimeout => "DISPATCH_ENQUEUE_TIMEOUT_SECS"
  | maxPublishAttempts => "DISPATCH_MAX_PUBLISH_ATTEMPTS"
  | retryDelay => "DISPATCH_RETRY_DELAY_SECS"
  | ackTimeout => "DISPATCH_ACK_TIMEOUT_SECS"
  | drainTimeout => "DISPATCH_DRAIN_TIMEOUT_SECS"
  | ackMaxDeliveries => "DISPATCH_ACK_MAX_DELIVERIES"

def kind : Setting → SettingKind
  | servers => .servers
  | stream | changeTopic | ackTopic | ackSubscription => .text
  | queueCapacity => .count Text.maxWord64
  | maxPublishAttempts | ackMaxDeliveries => .count Text.maxWord32
  | enqueueTimeout | retryDelay | ackTimeout | drainTimeout => .seconds

/-- The field of the setting. -/
def of : (s : Setting) → DispatchConfig → s.kind.Value
  | servers, c => c.connection.servers
  | stream, c => c.connection.stream
  | changeTopic, c => c.changeTopic
  | ackTopic, c => c.ackTopic
  | ackSubscription, c => c.ackSubscription
  | queueCapacity, c => c.queueCapacity
  | enqueueTimeout, c => c.enqueueTimeout
  | maxPublishAttempts, c => c.maxPublishAttempts
  | retryDelay, c => c.retryDelay
  | ackTimeout, c => c.ackTimeout
  | drainTimeout, c => c.drainTimeout
  | ackMaxDeliveries, c => c.ackMaxDeliveries

theorem mem_all (s : Setting) : s ∈ all := by
  cases s <;> decide

theorem key_injective : Function.Injective key := by
  have apart : ∀ s ∈ all, ∀ t ∈ all, s.key = t.key → s = t := by decide
  exact fun s t => apart s (mem_all s) t (mem_all t)

end Setting

variable {lookup other : String → Option String} {c c' : DispatchConfig} {s : Setting}

/-- The field of the setting holds what its variable says, or its default if that is not set. -/
def Holds (lookup : String → Option String) (c : DispatchConfig) (s : Setting) : Prop :=
  s.kind.Says lookup s.key (s.of {}) (s.of c)

/-- The configuration that the variables describe. Two fields have no variable. -/
structure Assembled (lookup : String → Option String) (c : DispatchConfig) : Prop where
  holds : ∀ s, Holds lookup c s
  clientName : c.connection.clientName = ({} : ConnectionConfig).clientName
  connectTimeout : c.connection.connectTimeout = ({} : ConnectionConfig).connectTimeout

/-- The variable of the setting holds a number where it has to hold one. -/
def Legible (lookup : String → Option String) (s : Setting) : Prop :=
  ∀ limit ∈ s.kind.limit?, ∀ raw ∈ lookup s.key, ∃ n, IsCount limit raw n

theorem Holds.legible (h : Holds lookup c s) : Legible lookup s := by
  intro limit needed raw told
  unfold Holds SettingKind.Says at h
  rw [Option.mem_def.mp told] at h
  exact h.count needed

attribute [ext] ConnectionConfig DispatchConfig

/-- A configuration is its settings and the two fields that no variable sets. -/
theorem eq_of_settings (same : ∀ s : Setting, s.of c' = s.of c)
    (clientName : c'.connection.clientName = c.connection.clientName)
    (connectTimeout : c'.connection.connectTimeout = c.connection.connectTimeout) : c' = c :=
  DispatchConfig.ext
    (ConnectionConfig.ext (same .servers) clientName connectTimeout (same .stream))
    (same .changeTopic) (same .ackTopic) (same .ackSubscription) (same .queueCapacity)
    (same .enqueueTimeout) (same .maxPublishAttempts) (same .retryDelay) (same .ackTimeout)
    (same .drainTimeout) (same .ackMaxDeliveries)

theorem own_variable (same : other s.key = lookup s.key) (h : Assembled lookup c)
    (h' : Assembled other c') : s.of c' = s.of c :=
  SettingKind.says_unique (h.holds s) (h'.holds s) same

theorem Assembled.unique (h : Assembled lookup c) (h' : Assembled lookup c') : c' = c :=
  eq_of_settings (fun _ => own_variable rfl h h')
    (h'.clientName.trans h.clientName.symm) (h'.connectTimeout.trans h.connectTimeout.symm)

/-! ## Reading -/

/-- What is wrong with the text of a variable that has to hold a number. -/
def countFault? (lookup : String → Option String) (key : String) (limit : Nat) :
    Option DispatchError :=
  (lookup key).bind fun raw =>
    match Text.unsigned? limit (Text.trimBoth raw.toList) with
    | some _ => none
    | none => some (.configuration (s!"{key} is not a valid number: " ++ Text.quoted raw))

/-- The number that a variable holds, or `absent` if it holds none. -/
def countAt (lookup : String → Option String) (key : String) (limit absent : Nat) : Nat :=
  ((lookup key).bind fun raw => Text.unsigned? limit (Text.trimBoth raw.toList)).getD absent

def Setting.fault? (lookup : String → Option String) (s : Setting) : Option DispatchError :=
  s.kind.limit?.bind (countFault? lookup s.key)

/-- The configuration that the variables describe, with the default for each that cannot be
read. -/
def assembled (lookup : String → Option String) : DispatchConfig :=
  let defaults : DispatchConfig := {}
  let count (s : Setting) (limit absent : Nat) := countAt lookup s.key limit absent
  let span (s : Setting) (absent : Duration) : Duration :=
    .ofSeconds (countAt lookup s.key Text.maxWord64 absent.seconds)
  { connection :=
      { defaults.connection with
        servers := (lookup Setting.servers.key).elim defaults.connection.servers serverList
        stream := (lookup Setting.stream.key).getD defaults.connection.stream }
    changeTopic := (lookup Setting.changeTopic.key).getD defaults.changeTopic
    ackTopic := (lookup Setting.ackTopic.key).getD defaults.ackTopic
    ackSubscription := (lookup Setting.ackSubscription.key).getD defaults.ackSubscription
    queueCapacity := count .queueCapacity Text.maxWord64 defaults.queueCapacity
    enqueueTimeout := span .enqueueTimeout defaults.enqueueTimeout
    maxPublishAttempts := count .maxPublishAttempts Text.maxWord32 defaults.maxPublishAttempts
    retryDelay := span .retryDelay defaults.retryDelay
    ackTimeout := span .ackTimeout defaults.ackTimeout
    drainTimeout := span .drainTimeout defaults.drainTimeout
    ackMaxDeliveries := count .ackMaxDeliveries Text.maxWord32 defaults.ackMaxDeliveries }

/-- Go on with `value` unless something is wrong. -/
def unlessFault {α : Type} (fault? : Option DispatchError) (value : Except DispatchError α) :
    Except DispatchError α :=
  match fault? with
  | some fault => .error fault
  | none => value

theorem unlessFault_bind {α β : Type} (fault? : Option DispatchError)
    (value : Except DispatchError α) (next : α → Except DispatchError β) :
    unlessFault fault? value >>= next = unlessFault fault? (value >>= next) := by
  cases fault? <;> rfl

theorem unlessFault_eq_ok_iff {α : Type} {fault? : Option DispatchError}
    {value : Except DispatchError α} {a : α} :
    unlessFault fault? value = .ok a ↔ fault? = none ∧ value = .ok a := by
  cases fault? <;> simp [unlessFault]

theorem unlessFault_eq_error_iff {α : Type} {fault? : Option DispatchError}
    {value : Except DispatchError α} {e : DispatchError} :
    unlessFault fault? value = .error e ↔ fault? = some e ∨ fault? = none ∧ value = .error e := by
  cases fault? <;> simp [unlessFault]

theorem unlessFault_findSome?_cons {α : Type} (fault? : Setting → Option DispatchError)
    (s : Setting) (rest : List Setting) (value : Except DispatchError α) :
    unlessFault ((s :: rest).findSome? fault?) value =
      unlessFault (fault? s) (unlessFault (rest.findSome? fault?) value) := by
  rw [List.findSome?_cons]
  cases fault? s <;> rfl

theorem countOr_eq (lookup : String → Option String) (key : String) (limit absent : Nat) :
    countOr lookup key limit absent =
      unlessFault (countFault? lookup key limit) (.ok (countAt lookup key limit absent)) := by
  unfold countOr countFault? countAt
  cases lookup key with
  | none => rfl
  | some raw =>
    cases told : Text.unsigned? limit (Text.trimBoth raw.toList) <;> simp [told, unlessFault]

theorem secondsOr_eq (lookup : String → Option String) (key : String) (absent : Duration) :
    secondsOr lookup key absent =
      unlessFault (countFault? lookup key Text.maxWord64)
        (.ok (.ofSeconds (countAt lookup key Text.maxWord64 absent.seconds))) := by
  rw [secondsOr, countOr_eq]
  cases countFault? lookup key Text.maxWord64 <;> rfl

theorem countFault?_eq_none_iff {lookup : String → Option String} {key : String} {limit : Nat} :
    countFault? lookup key limit = none ↔ ∀ raw ∈ lookup key, ∃ n, IsCount limit raw n := by
  unfold countFault?
  cases lookup key with
  | none => simp
  | some raw =>
    cases told : Text.unsigned? limit (Text.trimBoth raw.toList) with
    | none => simp [told, isCount_iff]
    | some n => simp [told, isCount_iff]

theorem countFault?_eq_some {lookup : String → Option String} {key : String} {limit : Nat}
    {fault : DispatchError} (h : countFault? lookup key limit = some fault) :
    ∃ raw, lookup key = some raw ∧
      fault = .configuration (s!"{key} is not a valid number: " ++ Text.quoted raw) := by
  unfold countFault? at h
  obtain ⟨raw, told, h⟩ := Option.bind_eq_some_iff.mp h
  refine ⟨raw, told, ?_⟩
  split at h
  next => cases h
  next => exact (Option.some.inj h).symm

namespace SettingKind

theorem says_text (lookup : String → Option String) (key absent : String) :
    text.Says lookup key absent ((lookup key).getD absent) := by
  unfold Says
  cases lookup key <;> rfl

theorem says_servers (lookup : String → Option String) (key : String) (absent : List String) :
    servers.Says lookup key absent ((lookup key).elim absent serverList) := by
  unfold Says
  cases lookup key with
  | none => rfl
  | some raw => exact isServerList_iff.mpr rfl

theorem says_count {lookup : String → Option String} {key : String} {limit : Nat}
    (legible : ∀ raw ∈ lookup key, ∃ n, IsCount limit raw n) (absent : Nat) :
    (count limit).Says lookup key absent (countAt lookup key limit absent) := by
  unfold Says countAt
  cases told : lookup key with
  | none => rfl
  | some raw =>
    obtain ⟨n, number⟩ := legible raw told
    rw [Option.bind_some, isCount_iff.mp number]
    exact number

theorem says_seconds {lookup : String → Option String} {key : String}
    (legible : ∀ raw ∈ lookup key, ∃ n, IsCount Text.maxWord64 raw n) {absent : Duration}
    (whole : .ofSeconds absent.seconds = absent) :
    seconds.Says lookup key absent
      (.ofSeconds (countAt lookup key Text.maxWord64 absent.seconds)) := by
  have number := says_count legible absent.seconds
  unfold Says at number ⊢
  cases told : lookup key with
  | none =>
    rw [told] at number
    exact (congrArg _ number).trans whole
  | some raw =>
    rw [told] at number
    exact ⟨_, number, rfl⟩

end SettingKind

theorem Setting.fault?_eq_none_iff : s.fault? lookup = none ↔ Legible lookup s := by
  unfold fault? Legible
  cases s.kind.limit? with
  | none => simp
  | some limit => simpa using countFault?_eq_none_iff

theorem Setting.fault?_eq_some {fault : DispatchError} (h : s.fault? lookup = some fault) :
    ∃ raw, lookup s.key = some raw ∧
      fault = .configuration (s!"{s.key} is not a valid number: " ++ Text.quoted raw) := by
  obtain ⟨limit, -, faulty⟩ := Option.bind_eq_some_iff.mp h
  exact countFault?_eq_some faulty

theorem holds_assembled (legible : ∀ s, Legible lookup s) (s : Setting) :
    Holds lookup (assembled lookup) s := by
  cases s with
  | servers => exact SettingKind.says_servers ..
  | stream | changeTopic | ackTopic | ackSubscription => exact SettingKind.says_text ..
  | queueCapacity | maxPublishAttempts | ackMaxDeliveries =>
    exact SettingKind.says_count (legible _ _ rfl) _
  | enqueueTimeout | retryDelay | ackTimeout | drainTimeout =>
    exact SettingKind.says_seconds (legible _ _ rfl) rfl

theorem ofLookup_eq (lookup : String → Option String) :
    ofLookup lookup =
      unlessFault (Setting.all.findSome? (Setting.fault? lookup))
        ((assembled lookup).validate.map fun _ => assembled lookup) := by
  have finish (result : Except DispatchError Unit) :
      (result >>= fun _ => pure (assembled lookup)) = result.map fun _ => assembled lookup := by
    cases result <;> rfl
  rw [← finish]
  simp only [ofLookup, countOr_eq, secondsOr_eq, unlessFault_bind, Setting.all,
    unlessFault_findSome?_cons]
  rfl

theorem assembled_spec (legible : ∀ s, Legible lookup s) :
    Assembled lookup (assembled lookup) :=
  ⟨holds_assembled legible, rfl, rfl⟩

/-! ## What reading comes to -/

/-- `s` is the first setting whose variable holds no number although it has to. -/
def FirstIllegible (lookup : String → Option String) (s : Setting) : Prop :=
  ∃ before after, Setting.all = before ++ s :: after ∧
    (∀ t ∈ before, Legible lookup t) ∧ ¬ Legible lookup s

theorem findSome?_fault_eq_none_iff :
    Setting.all.findSome? (Setting.fault? lookup) = none ↔ ∀ s, Legible lookup s := by
  simp only [List.findSome?_eq_none_iff, Setting.fault?_eq_none_iff, Setting.mem_all, true_imp_iff]

theorem findSome?_fault_eq_some_iff {fault : DispatchError} :
    Setting.all.findSome? (Setting.fault? lookup) = some fault ↔
      ∃ s raw, FirstIllegible lookup s ∧ lookup s.key = some raw ∧
        fault = .configuration (s!"{s.key} is not a valid number: " ++ Text.quoted raw) := by
  rw [List.findSome?_eq_some_iff]
  constructor
  · rintro ⟨before, s, after, order, faulty, sound⟩
    obtain ⟨raw, told, rfl⟩ := Setting.fault?_eq_some faulty
    refine ⟨s, raw, ⟨before, after, order, ?_, ?_⟩, told, rfl⟩
    · exact fun t earlier => Setting.fault?_eq_none_iff.mp (sound t earlier)
    · rw [← Setting.fault?_eq_none_iff, faulty]
      exact Option.some_ne_none _
  · rintro ⟨s, raw, ⟨before, after, order, sound, illegible⟩, told, rfl⟩
    rw [← Setting.fault?_eq_none_iff] at illegible
    obtain ⟨fault, faulty⟩ := Option.ne_none_iff_exists'.mp illegible
    obtain ⟨raw', told', rfl⟩ := Setting.fault?_eq_some faulty
    obtain rfl := Option.some.inj (told.symm.trans told')
    exact ⟨before, s, after, order, faulty,
      fun t earlier => Setting.fault?_eq_none_iff.mpr (sound t earlier)⟩

/-- A configuration is assembled exactly if every variable that has to hold a number does. -/
theorem assembled_iff :
    Assembled lookup c ↔ (∀ s, Legible lookup s) ∧ assembled lookup = c := by
  constructor
  · intro told
    have legible (s : Setting) : Legible lookup s := (told.holds s).legible
    exact ⟨legible, told.unique (assembled_spec legible)⟩
  · rintro ⟨legible, rfl⟩
    exact assembled_spec legible

theorem ofLookup_eq_ok_iff :
    ofLookup lookup = .ok c ↔ Assembled lookup c ∧ c.validate = .ok () := by
  have passed : ((assembled lookup).validate.map fun _ => assembled lookup) = .ok c ↔
      assembled lookup = c ∧ c.validate = .ok () := by
    cases verdict : (assembled lookup).validate with
    | error e => grind [Except.map]
    | ok => grind [Except.map]
  rw [ofLookup_eq, unlessFault_eq_ok_iff, findSome?_fault_eq_none_iff, passed, assembled_iff,
    and_assoc]

theorem ofLookup_eq_error_iff {e : DispatchError} :
    ofLookup lookup = .error e ↔
      (∃ s raw, FirstIllegible lookup s ∧ lookup s.key = some raw ∧
        e = .configuration (s!"{s.key} is not a valid number: " ++ Text.quoted raw)) ∨
      ∃ c, Assembled lookup c ∧ c.validate = .error e := by
  have refused : ((assembled lookup).validate.map fun _ => assembled lookup) = .error e ↔
      (assembled lookup).validate = .error e := by
    cases (assembled lookup).validate <;> simp [Except.map]
  rw [ofLookup_eq, unlessFault_eq_error_iff, findSome?_fault_eq_none_iff, refused,
    findSome?_fault_eq_some_iff]
  refine or_congr_right ?_
  constructor
  · exact fun ⟨legible, verdict⟩ => ⟨_, assembled_spec legible, verdict⟩
  · rintro ⟨c, told, verdict⟩
    obtain ⟨legible, rfl⟩ := assembled_iff.mp told
    exact ⟨legible, verdict⟩

/-- `c` and `c'` differ in no field but the one that the variable `key` sets. -/
structure SameBut (key : String) (c c' : DispatchConfig) : Prop where
  settings : ∀ s : Setting, s.key ≠ key → s.of c' = s.of c
  clientName : c'.connection.clientName = c.connection.clientName
  connectTimeout : c'.connection.connectTimeout = c.connection.connectTimeout

/-- What reading the variables comes to. -/
structure Loading (lookup : String → Option String) : Prop where
  /-- It gives the configuration that the variables describe, if that passes. -/
  accepted : ∀ c, ofLookup lookup = .ok c ↔ Assembled lookup c ∧ c.validate = .ok ()
  /-- The variables describe one exactly if each holds a number that has to. -/
  described : (∃ c, Assembled lookup c) ↔ ∀ s, Legible lookup s
  /-- Otherwise it names the first that does not, or says what is wrong with the configuration. -/
  refused : ∀ e, ofLookup lookup = .error e ↔
    (∃ s raw, FirstIllegible lookup s ∧ lookup s.key = some raw ∧
      e = .configuration (s!"{s.key} is not a valid number: " ++ Text.quoted raw)) ∨
    ∃ c, Assembled lookup c ∧ c.validate = .error e
  /-- A field depends on its own variable only. -/
  own : ∀ (other : String → Option String) (s : Setting) (c c' : DispatchConfig),
    other s.key = lookup s.key → ofLookup lookup = .ok c → ofLookup other = .ok c' →
    s.of c' = s.of c
  /-- Another text in one variable changes no field but that which it sets. -/
  apart : ∀ (other : String → Option String) (key : String) (c c' : DispatchConfig),
    (∀ k, k ≠ key → other k = lookup k) → ofLookup lookup = .ok c → ofLookup other = .ok c' →
    SameBut key c c'
  /-- Each of the settings has a variable to itself. -/
  keys : Function.Injective Setting.key

theorem each_variable_sets_its_field (lookup : String → Option String) : Loading lookup where
  accepted _ := ofLookup_eq_ok_iff
  described := by
    constructor
    · exact fun ⟨c, told⟩ s => (told.holds s).legible
    · exact fun legible => ⟨_, assembled_spec legible⟩
  refused _ := ofLookup_eq_error_iff
  own other s c c' same loaded loaded' :=
    own_variable same (ofLookup_eq_ok_iff.mp loaded).1 (ofLookup_eq_ok_iff.mp loaded').1
  apart other key c c' same loaded loaded' := by
    have told := (ofLookup_eq_ok_iff.mp loaded).1
    have told' := (ofLookup_eq_ok_iff.mp loaded').1
    refine ⟨fun s elsewhere => own_variable (same s.key elsewhere) told told', ?_, ?_⟩
    · exact told'.clientName.trans told.clientName.symm
    · exact told'.connectTimeout.trans told.connectTimeout.symm
  keys := Setting.key_injective

/-- The settings that have to hold a number. -/
example : Setting.all.filter (·.kind.limit?.isSome) =
    [.queueCapacity, .enqueueTimeout, .maxPublishAttempts, .retryDelay, .ackTimeout,
      .drainTimeout, .ackMaxDeliveries] := rfl

end DispatchConfig

end ChangeDispatch
