import Maxio.Storage

/-!
The `.versions` directory of a key: stored copies of payload and sidecar, delete markers, and the restoration of
the newest stored version as the current object.
-/

namespace Maxio

/-- The order of Rust strings: by their UTF-8 bytes. -/
def strLe (a b : String) : Prop := utf8 a ≤ utf8 b

instance : DecidableRel strLe := fun a b => inferInstanceAs (Decidable (utf8 a ≤ utf8 b))

/-- Copy every entry of a directory into another. -/
def copy_entries (src dst : OsPath) : Action Unit := do
  let names ← io (Fs.read_dir src)
  Prog.each (fun name => io (Fs.copy (join src name) (join dst name))) names

namespace FilesystemStorage
variable (fs : FilesystemStorage)

/-- Copy the published payload and write the sidecar of a new version. -/
def write_version (bucket key : String) (record : ObjectMeta) (data_path : OsPath) : Action Unit := do
  match record.version_id with
  | none => Prog.fail (.IntegrityError "write_version called without version_id")
  | some version_id => do
    io (Fs.create_dir_all (versions_dir fs.buckets_dir bucket key))
    io (Fs.copy data_path (version_data_path fs.buckets_dir bucket key version_id))
    io (Fs.write (version_meta_path fs.buckets_dir bucket key version_id) (.json (.object record)))

/-- The same for a chunked payload. -/
def write_version_chunked (bucket key : String) (record : ObjectMeta) : Action Unit := do
  match record.version_id with
  | none => Prog.fail (.IntegrityError "write_version_chunked called without version_id")
  | some version_id => do
    io (Fs.create_dir_all (versions_dir fs.buckets_dir bucket key))
    let dst_ec := version_ec_dir fs.buckets_dir bucket key version_id
    io (Fs.create_dir_all dst_ec)
    copy_entries (ec_dir fs.buckets_dir bucket key) dst_ec
    io (Fs.write (version_meta_path fs.buckets_dir bucket key version_id) (.json (.object record)))

/-- Remove the current object, whatever the outcome of each step. -/
def remove_top_level (bucket key : String) : Action Unit := do
  ignore (Fs.remove_file (object_path fs.buckets_dir bucket key))
  ignore (Fs.remove_file (meta_path fs.buckets_dir bucket key))
  ignore (Fs.remove_dir_all (ec_dir fs.buckets_dir bucket key))

def delete_marker (P : Primitives) (draws : Draws) (key : String) : ObjectMeta where
  key := key
  size := 0
  etag := ""
  content_type := ""
  last_modified := P.format_time draws.now
  version_id := some draws.version_id
  is_delete_marker := true
  storage_format := none
  checksum_algorithm := none
  checksum_value := none
  tags := none
  part_sizes := none
  encryption := none
  object_lock_mode := none
  retain_until_date := none
  legal_hold_status := none

def write_delete_marker (P : Primitives) (draws : Draws) (bucket key : String) : Action DeleteResult := do
  io (Fs.create_dir_all (versions_dir fs.buckets_dir bucket key))
  io (Fs.write (version_meta_path fs.buckets_dir bucket key draws.version_id)
    (.json (.object (delete_marker P draws key))))
  fs.remove_top_level bucket key
  pure { version_id := some draws.version_id, is_delete_marker := true }

/-- Put a stored version in place of the current object. -/
def restore_version (bucket key : String) (record : ObjectMeta) : Action Unit := do
  match record.version_id with
  | none => Prog.fail (.IntegrityError "version metadata missing version_id")
  | some vid => do
    let ver_ec := version_ec_dir fs.buckets_dir bucket key vid
    if ← io (Fs.is_dir ver_ec) then do
      let dst_ec := ec_dir fs.buckets_dir bucket key
      io (Fs.create_dir_all (parent_dir dst_ec))
      ignore (Fs.remove_dir_all dst_ec)
      io (Fs.create_dir_all dst_ec)
      copy_entries ver_ec dst_ec
    else do
      let obj_path := object_path fs.buckets_dir bucket key
      io (Fs.create_dir_all (parent_dir obj_path))
      io (Fs.copy (version_data_path fs.buckets_dir bucket key vid) obj_path)
    io (Fs.create_dir_all (parent_dir (meta_path fs.buckets_dir bucket key)))
    io (Fs.write (meta_path fs.buckets_dir bucket key) (.json (.object record)))

/-- Go through the sidecars, newest first, and restore the first that is not a delete marker. -/
def restore_first (bucket key : String) : List String → Action Unit
  | [] => fs.remove_top_level bucket key
  | name :: older => do
    let data ← io (Fs.read (join (versions_dir fs.buckets_dir bucket key) name))
    let record ← Prog.lift (from_json asObject data)
    if record.is_delete_marker then restore_first bucket key older
    else fs.restore_version bucket key record

/-- Scan the versions of a key and update the top-level files to the latest that is not a delete marker. -/
def update_current_version (bucket key : String) : Action Unit := do
  let ver_dir := versions_dir fs.buckets_dir bucket key
  if ← unwrap_or false (Fs.try_exists ver_dir) then do
    let names ← io (Fs.read_dir ver_dir)
    let versions := names.filter fun name => ends_with name ".meta.json"
    fs.restore_first bucket key (versions.insertionSort strLe).reverse
  else pure ()

end FilesystemStorage
end Maxio
