import Maxio.Policy
import Maxio.Storage

/-!
The settings of a bucket. Every operation reads the whole `.bucket.json`, changes some of its fields and writes the
whole file back.
-/

namespace Maxio
namespace FilesystemStorage
variable (fs : FilesystemStorage)

def head_bucket (name : String) : Action Bool := do
  Prog.lift (validate_bucket_name name)
  io (Fs.try_exists (bucket_meta_path fs.buckets_dir name))

/-- Change the settings of a bucket; `check` comes before the settings are read. -/
def update_bucket_meta (bucket : String) (check : Action Unit) (change : BucketMeta → Except StorageError BucketMeta) :
    Action Unit := do
  Prog.lift (validate_bucket_name bucket)
  check
  let record ← fs.read_bucket_meta bucket
  let record ← Prog.lift (change record)
  fs.write_bucket_meta bucket record

/-- What a policy grants to everyone; one that goes beyond that must pass the validator. -/
def policy_effects (from_str : String → Except String Json) (bucket policy : String) : Except StorageError PolicyEffects :=
  match evaluate_v1_policy from_str bucket policy with
  | .ok effects => .ok effects
  | .error _ => match validate_policy_v2 from_str bucket policy with
    | .ok () => .ok { public_read := false, public_list := false }
    | .error e => .error (.InvalidKey e)

/-- The checks on the rules of a lifecycle, in their order. -/
def check_lifecycle_rules : List LifecycleRule → Except StorageError Unit
  | [] => .ok ()
  | rule :: rest =>
    if rule.id = "" then .error (.InvalidKey "lifecycle rule id must not be empty")
    else if rule.expiration_days = some 0 then .error (.InvalidKey "lifecycle rule expiration_days must be > 0")
    else check_lifecycle_rules rest

end FilesystemStorage

/-! ### Operations on the settings -/

/-- An operation on the settings of a bucket, under the name of its function and with its arguments. -/
inductive ConfigCall where
  | set_versioning (enabled : Bool)
  | put_bucket_policy (policy : String)
  | delete_bucket_policy
  | set_bucket_public (read list : Bool)
  | put_bucket_cors (rules : List CorsRule)
  | delete_bucket_cors
  | put_bucket_encryption (config : BucketEncryptionConfig)
  | delete_bucket_encryption
  | put_bucket_lifecycle (rules : List LifecycleRule)
  | delete_bucket_lifecycle
  | put_bucket_logging (target_bucket target_prefix : String)
  | delete_bucket_logging
  | put_bucket_notification (config : BucketNotificationConfig)
  | delete_bucket_notification
  | put_bucket_object_lock (config : ObjectLockConfig)
  | set_bucket_erasure_coding (enabled : Option Bool)

/-- The fields an operation sets. -/
inductive BucketField where
  | versioning | bucket_policy | public_read | public_list | cors_rules | encryption_config | lifecycle_rules
  | logging_target_bucket | logging_target_prefix | notification_config | object_lock_config | erasure_coding
  deriving DecidableEq, Repr

namespace ConfigCall
variable (fs : FilesystemStorage) (from_str : String → Except String Json) (bucket : String)

def fields : ConfigCall → List BucketField
  | .set_versioning _ => [.versioning]
  | .put_bucket_policy _ => [.bucket_policy,.public_read,.public_list]
  | .delete_bucket_policy => [.bucket_policy,.public_read,.public_list]
  | .set_bucket_public _ _ => [.public_read,.public_list]
  | .put_bucket_cors _ => [.cors_rules]
  | .delete_bucket_cors => [.cors_rules]
  | .put_bucket_encryption _ => [.encryption_config]
  | .delete_bucket_encryption => [.encryption_config]
  | .put_bucket_lifecycle _ => [.lifecycle_rules]
  | .delete_bucket_lifecycle => [.lifecycle_rules]
  | .put_bucket_logging _ _ => [BucketField.logging_target_bucket, BucketField.logging_target_prefix]
  | .delete_bucket_logging => [BucketField.logging_target_bucket, BucketField.logging_target_prefix]
  | .put_bucket_notification _ => [.notification_config]
  | .delete_bucket_notification => [.notification_config]
  | .put_bucket_object_lock _ => [.object_lock_config]
  | .set_bucket_erasure_coding _ => [.erasure_coding]

/-- What an operation checks before it reads the settings. -/
def check : ConfigCall → Action Unit
  | .put_bucket_policy policy => do
    let _ ← Prog.lift (FilesystemStorage.policy_effects from_str bucket policy)
    pure ()
  | .put_bucket_lifecycle rules => Prog.lift (FilesystemStorage.check_lifecycle_rules rules)
  | .put_bucket_logging target_bucket _ => do
    Prog.lift (validate_bucket_name target_bucket)
    if bucket = target_bucket then
      Prog.fail (.InvalidKey "logging target bucket must differ from source bucket")
    else if !(← fs.head_bucket target_bucket) then Prog.fail (.NotFound target_bucket)
    else pure ()
  | .set_bucket_erasure_coding enabled =>
    if enabled = some true ∧ ¬ fs.erasure_coding then
      Prog.fail (.InvalidKey "per-bucket erasure coding requires server-wide MAXIO_ERASURE_CODING")
    else pure ()
  | _ => pure ()

/-- What an operation makes of the settings it read. -/
def change : ConfigCall → BucketMeta → Except StorageError BucketMeta
  | .set_versioning enabled,record => .ok { record with versioning := enabled }
  | .put_bucket_policy policy,record => (FilesystemStorage.policy_effects from_str bucket policy).map fun effects =>
    { record with bucket_policy := some policy, public_read := effects.public_read, public_list := effects.public_list }
  | .delete_bucket_policy,record => .ok { record with bucket_policy := none, public_read := false, public_list := false }
  | .set_bucket_public read list,record => .ok { record with public_read := read, public_list := list }
  | .put_bucket_cors rules,record => .ok { record with cors_rules := some rules }
  | .delete_bucket_cors,record => .ok { record with cors_rules := none }
  | .put_bucket_encryption config,record => .ok { record with encryption_config := some config }
  | .delete_bucket_encryption,record => .ok { record with encryption_config := none }
  | .put_bucket_lifecycle rules,record => .ok { record with lifecycle_rules := some rules }
  | .delete_bucket_lifecycle,record => .ok { record with lifecycle_rules := none }
  | .put_bucket_logging target_bucket target_prefix,record => .ok { record with
    logging_target_bucket := some target_bucket
    logging_target_prefix := if target_prefix = "" then none else some target_prefix }
  | .delete_bucket_logging,record => .ok { record with logging_target_bucket := none, logging_target_prefix := none }
  | .put_bucket_notification config,record => .ok { record with notification_config := some config }
  | .delete_bucket_notification,record => .ok { record with notification_config := none }
  | .put_bucket_object_lock config,record =>
    if record.object_lock_enabled then .ok { record with object_lock_config := some config }
    else .error (.InvalidKey "object lock must be enabled at bucket creation")
  | .set_bucket_erasure_coding enabled,record => .ok { record with erasure_coding := enabled }

/-- The operation on the bucket. -/
def run (call : ConfigCall) : Action Unit :=
  fs.update_bucket_meta bucket (call.check fs from_str bucket) (call.change from_str bucket)

theorem set_versioning_eq (enabled : Bool) : fs.set_versioning bucket enabled = run fs from_str bucket (.set_versioning enabled) := by
  funext w
  simp only [run,check,change,FilesystemStorage.set_versioning,FilesystemStorage.update_bucket_meta,
    FilesystemStorage.read_bucket_meta]
  cases validate_bucket_name bucket <;> rfl

theorem set_bucket_erasure_coding_eq (enabled : Option Bool) :
    fs.set_bucket_erasure_coding bucket enabled = run fs from_str bucket (.set_bucket_erasure_coding enabled) := by
  funext w
  simp only [run,check,change,FilesystemStorage.set_bucket_erasure_coding,FilesystemStorage.update_bucket_meta]
  cases validate_bucket_name bucket with
  | error e => rfl
  | ok _ =>
    simp only [Prog.lift_ok_bind]
    split <;> rfl

end ConfigCall
end Maxio
