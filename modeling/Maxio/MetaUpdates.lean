import Maxio.RetentionRequests

/-!
Calls that read a sidecar, change a field of it and write it back: tags, and the lock of an object or of one of its versions.
-/

namespace Maxio

namespace FilesystemStorage
variable (fs : FilesystemStorage)

/-! ### Tags -/

def get_object_tagging (bucket key : String) : Action (List (String × String)) := do
  Prog.lift (validate_key key)
  let record ← fs.read_object_meta bucket key
  pure (record.tags.getD [])

/-- Read the sidecar of the current object and write it back with these tags. -/
def set_tags (bucket key : String) (tags : Option (List (String × String))) : Action Unit := do
  Prog.lift (validate_key key)
  let record ← fs.read_object_meta bucket key
  io (Fs.write (meta_path fs.buckets_dir bucket key) (.json (.object { record with tags })))

def put_object_tagging (bucket key : String) (tags : List (String × String)) : Action Unit :=
  fs.set_tags bucket key (if tags.isEmpty then none else some tags)

def delete_object_tagging (bucket key : String) : Action Unit := fs.set_tags bucket key none

/-! ### Locks -/

def get_object_retention (bucket key : String) (version_id : Option String) : Action ObjectLockRetention := do
  let record ← fs.read_meta_at bucket key version_id
  match record.object_lock_mode,record.retain_until_date with
  | some mode,some retain_until_date => pure { mode, retain_until_date }
  | _,_ => Prog.fail (.NotFound key)

def put_object_legal_hold (bucket key : String) (version_id : Option String) (status : LegalHoldStatus) :
    Action Unit := do
  Prog.lift (validate_bucket_name bucket)
  Prog.lift (validate_key key)
  let settings ← fs.read_bucket_meta bucket
  if !settings.object_lock_enabled then Prog.fail (.InvalidKey "object lock is not enabled for this bucket")
  else
    let record ← fs.read_meta_at bucket key version_id
    fs.write_meta_at bucket key version_id { record with legal_hold_status := some status }

def get_object_legal_hold (bucket key : String) (version_id : Option String) : Action LegalHoldStatus := do
  let record ← fs.read_meta_at bucket key version_id
  match record.legal_hold_status with
  | some status => pure status
  | none => Prog.fail (.NotFound key)

end FilesystemStorage
end Maxio
