import ChangeDispatch.Event.ChangeWire

/-!
# Acknowledgments

An acknowledgment echoes a change event and tells what became of it, with details of
what was provisioned. Its wire form is one record that holds the record of the event.
-/
namespace ChangeDispatch

open Json (Bytes Reader Problem RecordField Shape)

namespace AckStatus

def known : List AckStatus := [created, updated, deleted, failed]

/-- The status of a name; a name that is not known stands for `unknown`. -/
def ofName (name : String) : AckStatus :=
  (known.find? (fun s => s.name == name)).getD unknown

def read : Reader AckStatus := Json.variant fun name => .ok (ofName name)

def write (s : AckStatus) : Bytes := Json.Text.write s.name

end AckStatus

/-- The role that was provisioned for a workspace. -/
structure RoleDetails where
  roleName : String
  roleArn : String
  deriving DecidableEq, Repr

namespace RoleDetails

structure Draft where
  roleName : Option String := none
  roleArn : Option String := none

def shape : Shape Draft RoleDetails where
  name := "RoleDetails"
  fields :=
    [{ name := "role_name", required := true, isSet := fun d => d.roleName.isSome,
       read := fun d bs => do
         let (v, rest) ← Json.string bs
         return ({ d with roleName := some v }, rest) },
     { name := "role_arn", required := true, isSet := fun d => d.roleArn.isSome,
       read := fun d bs => do
         let (v, rest) ← Json.string bs
         return ({ d with roleArn := some v }, rest) }]
  start := {}
  finish := fun d => do
    let roleName ← Json.field "role_name" d.roleName
    let roleArn ← Json.field "role_arn" d.roleArn
    return { roleName, roleArn }

def write (d : RoleDetails) : Bytes :=
  Json.writeObject
    [Json.always "role_name" (Json.Text.write d.roleName),
     Json.always "role_arn" (Json.Text.write d.roleArn)]

end RoleDetails

/-- The bucket that was provisioned for a workspace. -/
structure ObjectStoreDetails where
  bucketName : String
  bucketArn : String
  region : Option String
  deriving DecidableEq, Repr

namespace ObjectStoreDetails

structure Draft where
  bucketName : Option String := none
  bucketArn : Option String := none
  region : Option (Option String) := none

def shape : Shape Draft ObjectStoreDetails where
  name := "ObjectStoreDetails"
  fields :=
    [{ name := "bucket_name", required := true, isSet := fun d => d.bucketName.isSome,
       read := fun d bs => do
         let (v, rest) ← Json.string bs
         return ({ d with bucketName := some v }, rest) },
     { name := "bucket_arn", required := true, isSet := fun d => d.bucketArn.isSome,
       read := fun d bs => do
         let (v, rest) ← Json.string bs
         return ({ d with bucketArn := some v }, rest) },
     { name := "region", required := false, isSet := fun d => d.region.isSome,
       read := fun d bs => do
         let (v, rest) ← Json.optional Json.string bs
         return ({ d with region := some v }, rest) }]
  start := {}
  finish := fun d => do
    let bucketName ← Json.field "bucket_name" d.bucketName
    let bucketArn ← Json.field "bucket_arn" d.bucketArn
    return { bucketName, bucketArn, region := d.region.getD none }

def write (d : ObjectStoreDetails) : Bytes :=
  Json.writeObject
    [Json.always "bucket_name" (Json.Text.write d.bucketName),
     Json.always "bucket_arn" (Json.Text.write d.bucketArn),
     Json.whenSome "region" Json.Text.write d.region]

end ObjectStoreDetails

/-- A number of 64 bits without a sign. -/
abbrev Word64 := Fin UInt64.size

/-- The volume that was provisioned for a workspace. -/
structure BlockStoreDetails where
  volumeId : String
  availabilityZone : Option String
  sizeGib : Option Word64
  deriving DecidableEq, Repr

namespace BlockStoreDetails

structure Draft where
  volumeId : Option String := none
  availabilityZone : Option (Option String) := none
  sizeGib : Option (Option Word64) := none

/-- A size; what `Json.natural` reads is always below the bound. -/
def readSize : Reader Word64 := fun bs =>
  (Json.natural bs).map fun (n, rest) => (Fin.ofNat _ n, rest)

def shape : Shape Draft BlockStoreDetails where
  name := "BlockStoreDetails"
  fields :=
    [{ name := "volume_id", required := true, isSet := fun d => d.volumeId.isSome,
       read := fun d bs => do
         let (v, rest) ← Json.string bs
         return ({ d with volumeId := some v }, rest) },
     { name := "availability_zone", required := false,
       isSet := fun d => d.availabilityZone.isSome,
       read := fun d bs => do
         let (v, rest) ← Json.optional Json.string bs
         return ({ d with availabilityZone := some v }, rest) },
     { name := "size_gib", required := false, isSet := fun d => d.sizeGib.isSome,
       read := fun d bs => do
         let (v, rest) ← Json.optional readSize bs
         return ({ d with sizeGib := some v }, rest) }]
  start := {}
  finish := fun d => do
    let volumeId ← Json.field "volume_id" d.volumeId
    return { volumeId, availabilityZone := d.availabilityZone.getD none,
             sizeGib := d.sizeGib.getD none }

def write (d : BlockStoreDetails) : Bytes :=
  Json.writeObject
    [Json.always "volume_id" (Json.Text.write d.volumeId),
     Json.whenSome "availability_zone" Json.Text.write d.availabilityZone,
     Json.whenSome "size_gib" (fun n => Json.writeNatural n.val) d.sizeGib]

end BlockStoreDetails

/-- What became of a change event. -/
structure AckEvent where
  /-- The event that is acknowledged, as it was received. -/
  event : ChangeEvent
  status : AckStatus
  /-- What went wrong, if the change failed. -/
  error : Option String := none
  role : Option RoleDetails := none
  objectStore : Option ObjectStoreDetails := none
  blockStore : Option BlockStoreDetails := none
  deriving DecidableEq, Repr

namespace AckEvent

/-- The acknowledgment of a failed change. -/
def failed (event : ChangeEvent) (error : String) : AckEvent :=
  { event, status := .failed, error := some error }

def workspace (a : AckEvent) : String := a.event.name

structure Draft where
  event : Option ChangeEvent := none
  status : Option AckStatus := none
  error : Option (Option String) := none
  role : Option (Option RoleDetails) := none
  objectStore : Option (Option ObjectStoreDetails) := none
  blockStore : Option (Option BlockStoreDetails) := none

namespace Draft

def fields : List (RecordField Draft) :=
  [{ name := "workspace_event", required := true, isSet := fun d => d.event.isSome,
     read := fun d bs => do
       let (v, rest) ← ChangeEvent.read bs
       return ({ d with event := some v }, rest) },
   { name := "status", required := true, isSet := fun d => d.status.isSome,
     read := fun d bs => do
       let (v, rest) ← AckStatus.read bs
       return ({ d with status := some v }, rest) },
   { name := "error", required := false, isSet := fun d => d.error.isSome,
     read := fun d bs => do
       let (v, rest) ← Json.optional Json.string bs
       return ({ d with error := some v }, rest) },
   { name := "role", required := false, isSet := fun d => d.role.isSome,
     read := fun d bs => do
       let (v, rest) ← Json.optional RoleDetails.shape.read bs
       return ({ d with role := some v }, rest) },
   { name := "object_store", required := false, isSet := fun d => d.objectStore.isSome,
     read := fun d bs => do
       let (v, rest) ← Json.optional ObjectStoreDetails.shape.read bs
       return ({ d with objectStore := some v }, rest) },
   { name := "block_store", required := false, isSet := fun d => d.blockStore.isSome,
     read := fun d bs => do
       let (v, rest) ← Json.optional BlockStoreDetails.shape.read bs
       return ({ d with blockStore := some v }, rest) }]

def finish (d : Draft) : Except Problem AckEvent := do
  let event ← Json.field "workspace_event" d.event
  let status ← Json.field "status" d.status
  return { event, status, error := d.error.getD none, role := d.role.getD none,
           objectStore := d.objectStore.getD none, blockStore := d.blockStore.getD none }

end Draft

def shape : Shape Draft AckEvent where
  name := "AckEvent"
  fields := Draft.fields
  start := {}
  finish := Draft.finish

def read : Reader AckEvent := shape.read

/-- The wire form of an acknowledgment. -/
def write (a : AckEvent) : Bytes :=
  Json.writeObject
    [Json.always "workspace_event" a.event.write,
     Json.always "status" a.status.write,
     Json.whenSome "error" Json.Text.write a.error,
     Json.whenSome "role" RoleDetails.write a.role,
     Json.whenSome "object_store" ObjectStoreDetails.write a.objectStore,
     Json.whenSome "block_store" BlockStoreDetails.write a.blockStore]

/-- The acknowledgment that a payload holds. -/
def decode (payload : Bytes) : Except Problem AckEvent := Json.document read payload

/-- The acknowledgment that a payload holds, with its problem as an error of the library. -/
def ofPayload (payload : Bytes) : Except DispatchError AckEvent :=
  (decode payload).mapError fun problem => .decode problem.message

end AckEvent

end ChangeDispatch
