import Maxio.Listing

/-!
Creating and deleting buckets. A bucket is deleted when no object is left in it; sidecars, uploads and stored versions
do not count as objects and go with it.
-/

namespace Maxio

/-- Names that are not objects, wherever they stand in a bucket. -/
def is_bucket_internal (name : String) : Bool :=
  name = ".bucket.json" || name = ".uploads" || name = ".versions" || ends_with name ".meta.json"

/-- Go through the entries of a directory for a real object; `enter` looks into a subdirectory. -/
def find_real (enter : OsPath → Action Bool) (dir : OsPath) : List String → Action Bool
  | [] => pure false
  | name :: rest => do
    if is_bucket_internal name then find_real enter dir rest
    else
      let path := dir ++ [name]
      let is_dir ← io (Fs.is_dir path)
      if is_dir && ends_with name ".ec" then pure true
      else if is_dir then do
        if ← enter path then pure true else find_real enter dir rest
      else pure true

/-- Does a directory contain any real object data, to the given depth? -/
def has_real_objects : Nat → OsPath → Action Bool
  | 0,_ => pure false
  | depth + 1,dir => do
    let names ← io (Fs.read_dir dir)
    find_real (has_real_objects depth) dir names

/-- Remove one entry; `enter` empties a subdirectory. A regular file that is no sidecar is left alone. -/
def purge_entry (enter : OsPath → Action Unit) (dir : OsPath) (name : String) : Action Unit := do
  let path := dir ++ [name]
  let is_dir ← io (Fs.is_dir path)
  if is_bucket_internal name then
    if is_dir then io (Fs.remove_dir_all path) else io (Fs.remove_file path)
  else if is_dir then do
    enter path
    io (Fs.remove_dir path)
  else pure ()

/-- Remove sidecars and internal directories and empty out every subdirectory, to the given depth. -/
def purge_empty_bucket : Nat → OsPath → Action Unit
  | 0,_ => pure ()
  | depth + 1,dir => do
    let names ← io (Fs.read_dir dir)
    Prog.each (purge_entry (purge_empty_bucket depth) dir) names

namespace FilesystemStorage
variable (fs : FilesystemStorage)

/-- `false` when the bucket exists already. -/
def create_bucket (record : BucketMeta) : Action Bool := do
  Prog.lift (validate_bucket_name record.name)
  let dir := bucket_dir fs.buckets_dir record.name
  match ← Prog.attempt (Fs.create_dir dir) with
  | .ok () =>
    match ← Prog.attempt (Fs.write (join dir ".bucket.json") (.json (.bucket record))) with
    | .ok () => pure true
    | .error e => do
      ignore (Fs.remove_dir dir)
      Prog.fail (.Io e)
  | .error e => if e.kind = .AlreadyExists then pure false else Prog.fail (.Io e)

/-- `false` when there is no such bucket. -/
def delete_bucket (name : String) : Action Bool := do
  Prog.lift (validate_bucket_name name)
  let dir := bucket_dir fs.buckets_dir name
  if !(← io (Fs.try_exists dir)) then pure false
  else
    let depth ← Prog.ask fun w => tree_depth w.tree + 1
    if ← has_real_objects depth dir then Prog.fail .BucketNotEmpty
    else
      purge_empty_bucket depth dir
      match ← Prog.attempt (Fs.remove_dir dir) with
      | .ok () => pure true
      | .error e => if e.kind = .DirectoryNotEmpty then Prog.fail .BucketNotEmpty else Prog.fail (.Io e)

end FilesystemStorage
end Maxio
