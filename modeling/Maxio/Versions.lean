import Maxio.ObjectIo

/-!
Operations that name a version of a key. The id `null` stands for the current object.
-/

namespace Maxio
open Reading (FileReader)

section
variable (P : Primitives)

namespace FilesystemStorage
variable (fs : FilesystemStorage)

def read_version_meta (bucket key version_id : String) : Action ObjectMeta := do
  let data ← or_not_found (.VersionNotFound version_id)
    (Fs.read (version_meta_path fs.buckets_dir bucket key version_id))
  Prog.lift (from_json asObject data)

def get_object_version (bucket key version_id : String) (customer_key : Option Bytes) :
    Action (ObjectReader × ObjectMeta) := do
  Prog.lift (validate_bucket_name bucket)
  Prog.lift (validate_key key)
  if version_id = "null" then fs.get_object P bucket key customer_key
  else
    let record ← fs.read_version_meta bucket key version_id
    if record.is_delete_marker then Prog.fail (.NotFound key)
    else
      Prog.lift (reject_sse_c_on_plaintext record customer_key.isSome)
      let missing := StorageError.VersionNotFound version_id
      let ver_ec := version_ec_dir fs.buckets_dir bucket key version_id
      if ← io (Fs.is_dir ver_ec) then do
        let reader ← fs.open_chunked P bucket key ver_ec (join ver_ec "manifest.json") missing record customer_key
        pure (reader,record)
      else
        let path := version_data_path fs.buckets_dir bucket key version_id
        match record.encryption with
        | some enc => do
          let reader ← fs.open_encrypted_file P bucket key path missing record enc customer_key
          pure (reader,record)
        | none => do
          let file ← open_file P path missing 0
          pure (.file file,record)

def head_object_version (bucket key version_id : String) : Action ObjectMeta := do
  Prog.lift (validate_bucket_name bucket)
  Prog.lift (validate_key key)
  if version_id = "null" then fs.head_object bucket key
  else
    let record ← fs.read_version_meta bucket key version_id
    if record.is_delete_marker then Prog.fail (.NotFound key) else pure record

def delete_object_version (draws : Draws) (bucket key version_id : String) : Action ObjectMeta := do
  Prog.lift (validate_bucket_name bucket)
  Prog.lift (validate_key key)
  if version_id = "null" then do
    let record ← fs.read_object_meta bucket key
    if is_object_protected P draws.now record then
      Prog.fail (.ObjectLocked "object is protected by retention or legal hold")
    else
      Common.remove_file_if_exists (object_path fs.buckets_dir bucket key)
      Common.remove_file_if_exists (meta_path fs.buckets_dir bucket key)
      Common.remove_dir_all_if_exists (ec_dir fs.buckets_dir bucket key)
      fs.update_current_version bucket key
      pure record
  else
    let record ← fs.read_version_meta bucket key version_id
    if is_object_protected P draws.now record then
      Prog.fail (.ObjectLocked "object version is protected by retention or legal hold")
    else
      ignore (Fs.remove_file (version_meta_path fs.buckets_dir bucket key version_id))
      ignore (Fs.remove_file (version_data_path fs.buckets_dir bucket key version_id))
      ignore (Fs.remove_dir_all (version_ec_dir fs.buckets_dir bucket key version_id))
      ignore (Fs.remove_dir (versions_dir fs.buckets_dir bucket key))
      fs.update_current_version bucket key
      pure record

end FilesystemStorage
end
end Maxio
