import ChangeDispatch.Event.Ack
import ChangeDispatch.Proofs.Wire.Arranged
import ChangeDispatch.Proofs.Wire.RequestId
import ChangeDispatch.Proofs.Wire.Timestamp

/-!
# The arrangements of events

What a change event or an acknowledgment says under each of its names. The texts of a record are
the arrangements of these entries, and a record in an entry has arrangements of its own. The texts
of an event are those of the event that it is read as, which is another one only when its moment
has no written form of its own.
-/
namespace ChangeDispatch

open Json (Bytes Entry IsRecord IsText IsValue Reads Takes Whole)
open Json.Shape (Answers Follows Lawful)

/-- The value of a field in the draft of some names. -/
def given {α : Type} (seen : List String) (name : String) (v : α) : Option α :=
  if name ∈ seen then some v else none

theorem isSome_given {α : Type} {seen : List String} {name : String} (v : α) (h : name ∉ seen) :
    (given seen name v).isSome = false :=
  congrArg Option.isSome (if_neg h)

/-- A field that is always there has been read at the end. -/
theorem field_given {α : Type} {seen : List String} {name : String} (v : α)
    (h : False ∨ name ∈ seen) : Json.field name (given seen name v) = .ok v := by
  rw [given, if_pos (h.resolve_left id)]
  rfl

/-- An option that was left out is absent. -/
theorem getD_given {β : Type} {seen : List String} {name : String} {value : Option β}
    (h : value = none ∨ name ∈ seen) : (given seen name value).getD none = value := by
  rcases h with rfl | read
  · unfold given
    split <;> rfl
  · rw [given, if_pos read]
    rfl

/-! ### Change events -/

theorem ChangeStatus.whole : Whole ChangeStatus.read := .variant _

theorem Timestamp.whole : Whole Timestamp.readJson := .interpreted _ _

theorem RequestId.whole : Whole RequestId.readJson := .interpreted _ _

theorem reads_string (s : String) (text : Bytes) (h : IsText s text) :
    Reads Json.string text s :=
  h.interpreted _ rfl

theorem takes_string (s : String) (text : Bytes) (h : IsText s text) :
    Takes Json.string text s :=
  (reads_string s text h).takes .string

theorem ChangeStatus.takes (s : ChangeStatus) (text : Bytes) (h : IsText s.name text) :
    Takes ChangeStatus.read text s := by
  have named : ofName s.name = .ok s := by cases s <;> rfl
  exact (h.variant named).takes whole

theorem Timestamp.takes {t : Timestamp} (plain : ¬t.WithinMinute) (text : Bytes)
    (h : IsText t.written text) : Takes Timestamp.readJson text t :=
  (h.interpreted _ (by rw [t.read_written, asRead_eq_self plain]; rfl)).takes whole

theorem RequestId.readsText (id : RequestId) (text : Bytes) (h : IsText id.written text) :
    Reads RequestId.readJson text id :=
  h.interpreted _ (by rw [id.read_written]; rfl)

namespace ChangeEvent

/-- The event that the texts of `e` are read as. -/
def asRead (e : ChangeEvent) : ChangeEvent := { e with timestamp := e.timestamp.asRead }

/-- An event is read as itself unless its moment is a leap second within a minute. -/
theorem asRead_eq_self_iff (e : ChangeEvent) : e.asRead = e ↔ ¬e.timestamp.WithinMinute := by
  rw [← e.timestamp.asRead_eq_self_iff]
  exact ⟨congrArg timestamp, fun same => by rw [asRead, same]⟩

def entries (e : ChangeEvent) : List Entry :=
  [.always "name" (IsText e.name),
   .always "status" (IsText e.status.name),
   .always "timestamp" (IsText e.timestamp.written),
   .always "owner" (IsText e.owner),
   .whenSome "account" IsText e.account,
   .whenSome "request_id" (fun id => IsText id.written) e.requestId]

theorem entries_asRead (e : ChangeEvent) : e.asRead.entries = e.entries := by
  simp only [entries, asRead, Timestamp.written_asRead]

/-- The text is an arrangement of the event. -/
def IsArrangement (e : ChangeEvent) : Bytes → Prop := IsRecord e.entries

/-- The draft in which these names have been read. -/
def Draft.after (e : ChangeEvent) (seen : List String) : Draft where
  name := given seen "name" e.name
  status := given seen "status" e.status
  timestamp := given seen "timestamp" e.timestamp
  owner := given seen "owner" e.owner
  account := given seen "account" e.account
  requestId := given seen "request_id" e.requestId

theorem lawful : Lawful shape := by
  apply Lawful.of (by decide)
  simp only [shape, Draft.fields, List.forall_mem_cons]
  exact ⟨
    ⟨_, _, fun d v => { d with name := some v }, .string,
      fun _ => rfl, fun _ _ => rfl, by simp⟩,
    ⟨_, _, fun d v => { d with status := some v }, ChangeStatus.whole,
      fun _ => rfl, fun _ _ => rfl, by simp⟩,
    ⟨_, _, fun d v => { d with timestamp := some v }, Timestamp.whole,
      fun _ => rfl, fun _ _ => rfl, by simp⟩,
    ⟨_, _, fun d v => { d with owner := some v }, .string,
      fun _ => rfl, fun _ _ => rfl, by simp⟩,
    ⟨_, _, fun d v => { d with account := some v }, Whole.string.optional,
      fun _ => rfl, fun _ _ => rfl, by simp⟩,
    ⟨_, _, fun d v => { d with requestId := some v }, RequestId.whole.optional,
      fun _ => rfl, fun _ _ => rfl, by simp⟩,
    nofun⟩

theorem follows {e : ChangeEvent} (plain : ¬e.timestamp.WithinMinute) :
    Follows shape e.entries e (Draft.after e) where
  lawful := lawful
  start := rfl
  fields := by
    refine .cons (.of (fun d v => { d with name := some v }) rfl (fun _ => isSome_given e.name)
      (fun _ => rfl) (takes_string _) (by simp [Draft.after, given, Entry.always])) ?_
    refine .cons (.of (fun d v => { d with status := some v }) rfl (fun _ => isSome_given e.status)
      (fun _ => rfl) e.status.takes (by simp [Draft.after, given, Entry.always])) ?_
    refine .cons (.of (fun d v => { d with timestamp := some v }) rfl
      (fun _ => isSome_given e.timestamp) (fun _ => rfl) (Timestamp.takes plain)
      (by simp [Draft.after, given, Entry.always])) ?_
    refine .cons (.of (fun d v => { d with owner := some v }) rfl (fun _ => isSome_given e.owner)
      (fun _ => rfl) (takes_string _) (by simp [Draft.after, given, Entry.always])) ?_
    refine .cons (.of (fun d v => { d with account := some v }) rfl
      (fun _ => isSome_given e.account) (fun _ => rfl)
      (fun _ => .whenSome .string reads_string _ _)
      (by simp [Draft.after, given, Entry.whenSome])) ?_
    exact .cons (.of (fun d v => { d with requestId := some v }) rfl
      (fun _ => isSome_given e.requestId) (fun _ => rfl)
      (fun _ => .whenSome RequestId.whole RequestId.readsText _ _)
      (by simp [Draft.after, given, Entry.whenSome])) .nil
  finish seen h := by
    simp only [entries, List.forall_mem_cons, Entry.always, Entry.whenSome] at h
    obtain ⟨name, status, timestamp, owner, account, requestId, -⟩ := h
    simp only [shape, Draft.finish, Draft.after, field_given _ name, field_given _ status,
      field_given _ timestamp, field_given _ owner, getD_given account, getD_given requestId]
    rfl

theorem whole : Whole ChangeEvent.read := lawful.read

theorem readsText (e : ChangeEvent) (text : Bytes) (h : e.IsArrangement text) :
    Reads ChangeEvent.read text e.asRead := by
  rw [IsArrangement, ← entries_asRead] at h
  exact (follows e.timestamp.not_withinMinute_asRead).reads h

theorem isValue (e : ChangeEvent) (text : Bytes) (h : e.IsArrangement text) : IsValue text := by
  apply IsRecord.isValue h
  simp only [entries, List.forall_mem_cons]
  exact ⟨fun _ => IsText.isValue, fun _ => IsText.isValue, fun _ => IsText.isValue,
    fun _ => IsText.isValue, Entry.isValue_of_whenSome (fun _ _ => IsText.isValue) _ _,
    Entry.isValue_of_whenSome (fun _ _ => IsText.isValue) _ _, nofun⟩

/-- An event is written as one of its arrangements. -/
theorem written (e : ChangeEvent) : e.IsArrangement e.write :=
  IsRecord.written <|
    .cons (Entry.writes_always (.write _)) <| .cons (Entry.writes_always (.write _)) <|
    .cons (Entry.writes_always (.write _)) <| .cons (Entry.writes_always (.write _)) <|
    .cons (Entry.writes_whenSome .write _ _) <|
    .cons (Entry.writes_whenSome (fun id => .write id.written) _ _) .nil

end ChangeEvent

/-! ### Details of what was provisioned -/

namespace RoleDetails

def entries (d : RoleDetails) : List Entry :=
  [.always "role_name" (IsText d.roleName), .always "role_arn" (IsText d.roleArn)]

def IsArrangement (d : RoleDetails) : Bytes → Prop := IsRecord d.entries

def Draft.after (d : RoleDetails) (seen : List String) : Draft where
  roleName := given seen "role_name" d.roleName
  roleArn := given seen "role_arn" d.roleArn

theorem lawful : Lawful shape := by
  apply Lawful.of (by decide)
  simp only [shape, List.forall_mem_cons]
  exact ⟨
    ⟨_, _, fun d v => { d with roleName := some v }, .string,
      fun _ => rfl, fun _ _ => rfl, by simp⟩,
    ⟨_, _, fun d v => { d with roleArn := some v }, .string,
      fun _ => rfl, fun _ _ => rfl, by simp⟩,
    nofun⟩

theorem follows (d : RoleDetails) : Follows shape d.entries d (Draft.after d) where
  lawful := lawful
  start := rfl
  fields := by
    refine .cons (.of (fun d v => { d with roleName := some v }) rfl
      (fun _ => isSome_given d.roleName) (fun _ => rfl) (takes_string _)
      (by simp [Draft.after, given, Entry.always])) ?_
    exact .cons (.of (fun d v => { d with roleArn := some v }) rfl
      (fun _ => isSome_given d.roleArn) (fun _ => rfl) (takes_string _)
      (by simp [Draft.after, given, Entry.always])) .nil
  finish seen h := by
    simp only [entries, List.forall_mem_cons, Entry.always] at h
    obtain ⟨roleName, roleArn, -⟩ := h
    simp only [shape, Draft.after, field_given _ roleName, field_given _ roleArn]
    rfl

theorem readsText (d : RoleDetails) (text : Bytes) (h : d.IsArrangement text) :
    Reads RoleDetails.shape.read text d :=
  d.follows.reads h

theorem isValue (d : RoleDetails) (text : Bytes) (h : d.IsArrangement text) : IsValue text := by
  apply IsRecord.isValue h
  simp only [entries, List.forall_mem_cons]
  exact ⟨fun _ => IsText.isValue, fun _ => IsText.isValue, nofun⟩

theorem written (d : RoleDetails) : d.IsArrangement d.write :=
  IsRecord.written <|
    .cons (Entry.writes_always (.write _)) <| .cons (Entry.writes_always (.write _)) .nil

end RoleDetails

namespace ObjectStoreDetails

def entries (d : ObjectStoreDetails) : List Entry :=
  [.always "bucket_name" (IsText d.bucketName), .always "bucket_arn" (IsText d.bucketArn),
   .whenSome "region" IsText d.region]

def IsArrangement (d : ObjectStoreDetails) : Bytes → Prop := IsRecord d.entries

def Draft.after (d : ObjectStoreDetails) (seen : List String) : Draft where
  bucketName := given seen "bucket_name" d.bucketName
  bucketArn := given seen "bucket_arn" d.bucketArn
  region := given seen "region" d.region

theorem lawful : Lawful shape := by
  apply Lawful.of (by decide)
  simp only [shape, List.forall_mem_cons]
  exact ⟨
    ⟨_, _, fun d v => { d with bucketName := some v }, .string,
      fun _ => rfl, fun _ _ => rfl, by simp⟩,
    ⟨_, _, fun d v => { d with bucketArn := some v }, .string,
      fun _ => rfl, fun _ _ => rfl, by simp⟩,
    ⟨_, _, fun d v => { d with region := some v }, Whole.string.optional,
      fun _ => rfl, fun _ _ => rfl, by simp⟩,
    nofun⟩

theorem follows (d : ObjectStoreDetails) : Follows shape d.entries d (Draft.after d) where
  lawful := lawful
  start := rfl
  fields := by
    refine .cons (.of (fun d v => { d with bucketName := some v }) rfl
      (fun _ => isSome_given d.bucketName) (fun _ => rfl) (takes_string _)
      (by simp [Draft.after, given, Entry.always])) ?_
    refine .cons (.of (fun d v => { d with bucketArn := some v }) rfl
      (fun _ => isSome_given d.bucketArn) (fun _ => rfl) (takes_string _)
      (by simp [Draft.after, given, Entry.always])) ?_
    exact .cons (.of (fun d v => { d with region := some v }) rfl
      (fun _ => isSome_given d.region) (fun _ => rfl)
      (fun _ => .whenSome .string reads_string _ _)
      (by simp [Draft.after, given, Entry.whenSome])) .nil
  finish seen h := by
    simp only [entries, List.forall_mem_cons, Entry.always, Entry.whenSome] at h
    obtain ⟨bucketName, bucketArn, region, -⟩ := h
    simp only [shape, Draft.after, field_given _ bucketName, field_given _ bucketArn,
      getD_given region]
    rfl

theorem readsText (d : ObjectStoreDetails) (text : Bytes) (h : d.IsArrangement text) :
    Reads ObjectStoreDetails.shape.read text d :=
  d.follows.reads h

theorem isValue (d : ObjectStoreDetails) (text : Bytes) (h : d.IsArrangement text) :
    IsValue text := by
  apply IsRecord.isValue h
  simp only [entries, List.forall_mem_cons]
  exact ⟨fun _ => IsText.isValue, fun _ => IsText.isValue,
    Entry.isValue_of_whenSome (fun _ _ => IsText.isValue) _ _, nofun⟩

theorem written (d : ObjectStoreDetails) : d.IsArrangement d.write :=
  IsRecord.written <|
    .cons (Entry.writes_always (.write _)) <| .cons (Entry.writes_always (.write _)) <|
    .cons (Entry.writes_whenSome .write _ _) .nil

end ObjectStoreDetails

namespace BlockStoreDetails

/-- The text is a size, in the one way it is written. -/
def IsSize (n : Word64) (text : Bytes) : Prop := text = Json.writeNatural n.val

theorem IsSize.write (n : Word64) : IsSize n (Json.writeNatural n.val) := rfl

theorem IsSize.isValue (n : Word64) (text : Bytes) (h : IsSize n text) : IsValue text := by
  obtain rfl : text = _ := h
  exact .number (Json.isNumber_writeNatural _)

def entries (d : BlockStoreDetails) : List Entry :=
  [.always "volume_id" (IsText d.volumeId), .whenSome "availability_zone" IsText d.availabilityZone,
   .whenSome "size_gib" IsSize d.sizeGib]

def IsArrangement (d : BlockStoreDetails) : Bytes → Prop := IsRecord d.entries

def Draft.after (d : BlockStoreDetails) (seen : List String) : Draft where
  volumeId := given seen "volume_id" d.volumeId
  availabilityZone := given seen "availability_zone" d.availabilityZone
  sizeGib := given seen "size_gib" d.sizeGib

theorem wholeSize : Whole readSize where
  blanks bs blank := by rw [readSize, readSize, Whole.natural.blanks bs blank]
  rest value delimited taken := by
    obtain ⟨⟨n, r'⟩, there, same⟩ := Json.ok_of_map taken
    cases same
    exact Whole.natural.rest value delimited there

theorem readsSizeText (n : Word64) (text : Bytes) (h : IsSize n text) :
    Reads readSize text n := by
  obtain rfl : text = _ := h
  have natural := Reads.natural n.isLt
  refine ⟨fun rest delimited => ?_, natural.opens⟩
  simp [readSize, natural.reads rest delimited, Except.map]

theorem lawful : Lawful shape := by
  apply Lawful.of (by decide)
  simp only [shape, List.forall_mem_cons]
  exact ⟨
    ⟨_, _, fun d v => { d with volumeId := some v }, .string,
      fun _ => rfl, fun _ _ => rfl, by simp⟩,
    ⟨_, _, fun d v => { d with availabilityZone := some v }, Whole.string.optional,
      fun _ => rfl, fun _ _ => rfl, by simp⟩,
    ⟨_, _, fun d v => { d with sizeGib := some v }, wholeSize.optional,
      fun _ => rfl, fun _ _ => rfl, by simp⟩,
    nofun⟩

theorem follows (d : BlockStoreDetails) : Follows shape d.entries d (Draft.after d) where
  lawful := lawful
  start := rfl
  fields := by
    refine .cons (.of (fun d v => { d with volumeId := some v }) rfl
      (fun _ => isSome_given d.volumeId) (fun _ => rfl) (takes_string _)
      (by simp [Draft.after, given, Entry.always])) ?_
    refine .cons (.of (fun d v => { d with availabilityZone := some v }) rfl
      (fun _ => isSome_given d.availabilityZone) (fun _ => rfl)
      (fun _ => .whenSome .string reads_string _ _)
      (by simp [Draft.after, given, Entry.whenSome])) ?_
    exact .cons (.of (fun d v => { d with sizeGib := some v }) rfl
      (fun _ => isSome_given d.sizeGib) (fun _ => rfl)
      (fun _ => .whenSome wholeSize readsSizeText _ _)
      (by simp [Draft.after, given, Entry.whenSome])) .nil
  finish seen h := by
    simp only [entries, List.forall_mem_cons, Entry.always, Entry.whenSome] at h
    obtain ⟨volumeId, availabilityZone, sizeGib, -⟩ := h
    simp only [shape, Draft.after, field_given _ volumeId, getD_given availabilityZone,
      getD_given sizeGib]
    rfl

theorem readsText (d : BlockStoreDetails) (text : Bytes) (h : d.IsArrangement text) :
    Reads BlockStoreDetails.shape.read text d :=
  d.follows.reads h

theorem isValue (d : BlockStoreDetails) (text : Bytes) (h : d.IsArrangement text) :
    IsValue text := by
  apply IsRecord.isValue h
  simp only [entries, List.forall_mem_cons]
  exact ⟨fun _ => IsText.isValue, Entry.isValue_of_whenSome (fun _ _ => IsText.isValue) _ _,
    Entry.isValue_of_whenSome IsSize.isValue _ _, nofun⟩

theorem written (d : BlockStoreDetails) : d.IsArrangement d.write :=
  IsRecord.written <|
    .cons (Entry.writes_always (.write _)) <| .cons (Entry.writes_whenSome .write _ _) <|
    .cons (Entry.writes_whenSome IsSize.write _ _) .nil

end BlockStoreDetails

/-! ### Acknowledgments -/

theorem AckStatus.whole : Whole AckStatus.read := .variant _

theorem AckStatus.ofName_name (s : AckStatus) : ofName s.name = s := by cases s <;> rfl

theorem AckStatus.takes {status : String} {s : AckStatus} (named : ofName status = s)
    (text : Bytes) (h : IsText status text) : Takes AckStatus.read text s := by
  have meaning : (Except.ok (ofName status) : Except Json.Problem AckStatus) = .ok s :=
    congrArg _ named
  exact (h.variant meaning).takes whole

namespace AckEvent

/-- The acknowledgment that the texts of `a` are read as. -/
def asRead (a : AckEvent) : AckEvent := { a with event := a.event.asRead }

/-- An acknowledgment is read as itself unless the moment of its event is a leap second within a
minute. -/
theorem asRead_eq_self_iff (a : AckEvent) :
    a.asRead = a ↔ ¬a.event.timestamp.WithinMinute := by
  rw [← a.event.asRead_eq_self_iff]
  exact ⟨congrArg event, fun same => by rw [asRead, same]⟩

/-- What an acknowledgment says with `status` as the name of its status. -/
def entries (a : AckEvent) (status : String) : List Entry :=
  [.always "workspace_event" a.event.IsArrangement,
   .always "status" (IsText status),
   .whenSome "error" IsText a.error,
   .whenSome "role" RoleDetails.IsArrangement a.role,
   .whenSome "object_store" ObjectStoreDetails.IsArrangement a.objectStore,
   .whenSome "block_store" BlockStoreDetails.IsArrangement a.blockStore]

theorem entries_asRead (a : AckEvent) (status : String) :
    a.asRead.entries status = a.entries status := by
  have sameEvent : a.event.asRead.IsArrangement = a.event.IsArrangement := by
    rw [ChangeEvent.IsArrangement, ChangeEvent.entries_asRead, ChangeEvent.IsArrangement]
  simp only [entries, asRead, sameEvent]

/-- The text is an arrangement of the acknowledgment, with `status` for the name of its status. -/
def IsArrangementWith (a : AckEvent) (status : String) : Bytes → Prop :=
  IsRecord (a.entries status)

/-- The text is an arrangement of the acknowledgment. -/
def IsArrangement (a : AckEvent) : Bytes → Prop := a.IsArrangementWith a.status.name

def Draft.after (a : AckEvent) (seen : List String) : Draft where
  event := given seen "workspace_event" a.event
  status := given seen "status" a.status
  error := given seen "error" a.error
  role := given seen "role" a.role
  objectStore := given seen "object_store" a.objectStore
  blockStore := given seen "block_store" a.blockStore

theorem lawful : Lawful shape := by
  apply Lawful.of (by decide)
  simp only [shape, Draft.fields, List.forall_mem_cons]
  exact ⟨
    ⟨_, _, fun d v => { d with event := some v }, ChangeEvent.whole,
      fun _ => rfl, fun _ _ => rfl, by simp⟩,
    ⟨_, _, fun d v => { d with status := some v }, AckStatus.whole,
      fun _ => rfl, fun _ _ => rfl, by simp⟩,
    ⟨_, _, fun d v => { d with error := some v }, Whole.string.optional,
      fun _ => rfl, fun _ _ => rfl, by simp⟩,
    ⟨_, _, fun d v => { d with role := some v }, RoleDetails.lawful.read.optional,
      fun _ => rfl, fun _ _ => rfl, by simp⟩,
    ⟨_, _, fun d v => { d with objectStore := some v }, ObjectStoreDetails.lawful.read.optional,
      fun _ => rfl, fun _ _ => rfl, by simp⟩,
    ⟨_, _, fun d v => { d with blockStore := some v }, BlockStoreDetails.lawful.read.optional,
      fun _ => rfl, fun _ _ => rfl, by simp⟩,
    nofun⟩

/-- The status that is read is the one that the name stands for. -/
theorem follows {a : AckEvent} (plain : ¬a.event.timestamp.WithinMinute) {status : String}
    (named : AckStatus.ofName status = a.status) :
    Follows shape (a.entries status) a (Draft.after a) where
  lawful := lawful
  start := rfl
  fields := by
    refine .cons (.of (fun d v => { d with event := some v }) rfl
      (fun _ => isSome_given a.event) (fun _ => rfl)
      (fun text h => ((ChangeEvent.follows plain).reads h).takes ChangeEvent.whole)
      (by simp [Draft.after, given, Entry.always])) ?_
    refine .cons (.of (fun d v => { d with status := some v }) rfl
      (fun _ => isSome_given a.status) (fun _ => rfl)
      (AckStatus.takes named)
      (by simp [Draft.after, given, Entry.always])) ?_
    refine .cons (.of (fun d v => { d with error := some v }) rfl
      (fun _ => isSome_given a.error) (fun _ => rfl)
      (fun _ => .whenSome .string reads_string _ _)
      (by simp [Draft.after, given, Entry.whenSome])) ?_
    refine .cons (.of (fun d v => { d with role := some v }) rfl
      (fun _ => isSome_given a.role) (fun _ => rfl)
      (fun _ => .whenSome RoleDetails.lawful.read RoleDetails.readsText _ _)
      (by simp [Draft.after, given, Entry.whenSome])) ?_
    refine .cons (.of (fun d v => { d with objectStore := some v }) rfl
      (fun _ => isSome_given a.objectStore) (fun _ => rfl)
      (fun _ => .whenSome ObjectStoreDetails.lawful.read ObjectStoreDetails.readsText _ _)
      (by simp [Draft.after, given, Entry.whenSome])) ?_
    exact .cons (.of (fun d v => { d with blockStore := some v }) rfl
      (fun _ => isSome_given a.blockStore) (fun _ => rfl)
      (fun _ => .whenSome BlockStoreDetails.lawful.read BlockStoreDetails.readsText _ _)
      (by simp [Draft.after, given, Entry.whenSome])) .nil
  finish seen h := by
    simp only [entries, List.forall_mem_cons, Entry.always, Entry.whenSome] at h
    obtain ⟨event, status, error, role, objects, blocks, -⟩ := h
    simp only [shape, Draft.finish, Draft.after, field_given _ event, field_given _ status,
      getD_given error, getD_given role, getD_given objects, getD_given blocks]
    rfl

theorem readsText (a : AckEvent) {status : String} (named : AckStatus.ofName status = a.status)
    {text : Bytes} (h : a.IsArrangementWith status text) :
    Reads AckEvent.read text a.asRead := by
  rw [IsArrangementWith, ← entries_asRead] at h
  have plain : ¬a.asRead.event.timestamp.WithinMinute :=
    a.event.timestamp.not_withinMinute_asRead
  exact (follows plain named).reads h

theorem isValue (a : AckEvent) {status : String} {text : Bytes}
    (h : a.IsArrangementWith status text) : IsValue text := by
  apply IsRecord.isValue h
  simp only [entries, List.forall_mem_cons]
  exact ⟨a.event.isValue, fun _ => IsText.isValue,
    Entry.isValue_of_whenSome (fun _ _ => IsText.isValue) _ _,
    Entry.isValue_of_whenSome RoleDetails.isValue _ _,
    Entry.isValue_of_whenSome ObjectStoreDetails.isValue _ _,
    Entry.isValue_of_whenSome BlockStoreDetails.isValue _ _, nofun⟩

/-- An acknowledgment is written as one of its arrangements, and so is the event in it. -/
theorem written (a : AckEvent) : a.IsArrangement a.write :=
  IsRecord.written <|
    .cons (Entry.writes_always a.event.written) <| .cons (Entry.writes_always (.write _)) <|
    .cons (Entry.writes_whenSome .write _ _) <|
    .cons (Entry.writes_whenSome RoleDetails.written _ _) <|
    .cons (Entry.writes_whenSome ObjectStoreDetails.written _ _) <|
    .cons (Entry.writes_whenSome BlockStoreDetails.written _ _) .nil

end AckEvent

end ChangeDispatch
