import Maxio.Paths
import Maxio.Prog

/-!
The calls of `tokio::fs` the storage makes, on the state they work on: the directory tree, the rows of the
metadata index, and a record of every AES-GCM encryption made so far.
-/

namespace Maxio
open FileTree (Tree Node ErrorKind)

/-- One AES-GCM encryption: a frame of an object or part, or the wrapping of a data key. -/
structure Sealing where
  frame : Bool
  key : Bytes
  nonce : Bytes
  aad : Bytes
  message : Bytes
  deriving DecidableEq, Repr

structure World where
  tree : Disk
  /-- Rows of the optional SQLite index: bucket, key and metadata. -/
  rows : List (String × String × ObjectMeta)
  /-- Ghost: what was encrypted so far, newest first. -/
  sealings : List Sealing

abbrev Io (α : Type) := Prog World IoError α
abbrev Action (α : Type) := Prog World StorageError α

namespace Fs

/-- What `stat` finds. A path that ends in `.`, `..` or a slash has to be a directory. -/
def stat (t : Disk) (p : OsPath) : Except ErrorKind (Node Content) := do
  let q ← locate t p
  let found ← t.stat q
  match found with
  | .file c => if dotted p then .error .NotADirectory else .ok (.file c)
  | .dir => .ok .dir

/-- The directory entry a call works on; `busy` is the answer when the path names none. -/
def entry (busy : ErrorKind) (t : Disk) (p : OsPath) : Except ErrorKind OsPath :=
  if dotted p then match stat t p with
    | .ok _ => .error busy
    | .error kind => .error kind
  else locate t p

def observe {α : Type} (f : Disk → Except ErrorKind α) : Io α := fun w => ((f w.tree).mapError .os,w)

def change (f : Disk → Except ErrorKind Disk) : Io Unit := fun w => match f w.tree with
  | .ok t => (.ok (),{ w with tree := t })
  | .error kind => (.error (.os kind),w)

def readAt (t : Disk) (p : OsPath) : Except ErrorKind Content := do
  match ← stat t p with
  | .file c => .ok c
  | .dir => .error .IsADirectory

def existsAt (t : Disk) (p : OsPath) : Except ErrorKind Bool := match stat t p with
  | .ok _ => .ok true
  | .error .NotFound => .ok false
  | .error kind => .error kind

def isDirAt (t : Disk) (p : OsPath) : Bool := match stat t p with
  | .ok .dir => true
  | _ => false

def writeAt (p : OsPath) (c : Content) (t : Disk) : Except ErrorKind Disk := do
  let q ← entry .IsADirectory t p
  t.write q c

/-- The entries of a directory; `.` and `..` are not among them, and no name has a slash. -/
def namesAt (t : Disk) (p : OsPath) : Except ErrorKind (List String) := do
  let q ← locate t p
  match ← t.stat q with
  | .file _ => .error .NotADirectory
  | .dir => .ok ((t.children q).filter isName)

/-- `fs::read`, `fs::read_to_string`, `File::open`. -/
def read (p : OsPath) : Io Content := observe fun t => readAt t p

/-- `fs::try_exists`. -/
def try_exists (p : OsPath) : Io Bool := observe fun t => existsAt t p

/-- `Path::is_dir`; `Path::exists` of a marker file. -/
def is_dir (p : OsPath) : Io Bool := observe fun t => .ok (isDirAt t p)

/-- `fs::read_dir` with the names of all entries. -/
def read_dir (p : OsPath) : Io (List String) := observe fun t => namesAt t p

/-- `fs::write`, and `File::create` with everything then written to it. -/
def write (p : OsPath) (c : Content) : Io Unit := change (writeAt p c)

/-- `fs::create_dir`. -/
def create_dir (p : OsPath) : Io Unit := change fun t => do
  let q ← entry .AlreadyExists t p
  t.mkdir q

def mkdirsAt (p : OsPath) (t : Disk) : Except ErrorKind Disk := do
  let q ← locate t p
  match t.node q with
  | some .dir => .ok t
  | some (.file _) => .error .AlreadyExists
  | none => match t.missing q with
    | .NotADirectory => .error .NotADirectory
    | _ => t.mkdirs [] q

/-- `fs::create_dir_all`. A path spelled with a final `.` is not made by making its parent. -/
def create_dir_all (p : OsPath) : Io Unit := fun w =>
  if dotted p then match stat w.tree p with
    | .ok .dir => (.ok (),w)
    | .ok (.file _) => (.error (.os .NotADirectory),w)
    | .error .NotFound => match mkdirsAt (parent_dir p) w.tree with
      | .ok t => (.error (.os .NotFound),{ w with tree := t })
      | .error kind => (.error (.os kind),w)
    | .error kind => (.error (.os kind),w)
  else change (mkdirsAt p) w

/-- `fs::remove_file`. -/
def remove_file (p : OsPath) : Io Unit := change fun t => do
  let q ← entry .IsADirectory t p
  t.removeFile q

/-- `fs::remove_dir`: only an empty directory. -/
def remove_dir (p : OsPath) : Io Unit := change fun t => do
  let q ← entry .InvalidInput t p
  t.removeDir q

/-- `fs::remove_dir_all`. Below a path spelled with a final `.` everything is removed before the last `rmdir` is refused. -/
def remove_dir_all (p : OsPath) : Io Unit := fun w =>
  if p.getLast? = some "." then match stat w.tree p,locate w.tree p with
    | .ok _,.ok q => (.error (.os .InvalidInput),{ w with tree := w.tree.clear q })
    | .error kind,_ => (.error (.os kind),w)
    | _,.error kind => (.error (.os kind),w)
  else change (fun t => do
    let q ← entry .InvalidInput t p
    t.removeDirAll q) w

/-- `fs::rename`. -/
def rename (a b : OsPath) : Io Unit := change fun t => do
  let qa ← entry .ResourceBusy t a
  let qb ← entry .ResourceBusy t b
  t.rename qa qb

/-- Write at the end of an open file. -/
def append (p : OsPath) (data : Bytes) : Io Unit := change fun t => do
  match ← readAt t p with
  | .bytes old => writeAt p (.bytes (old ++ data)) t
  | .json _ => .error .Other

def copyError : IoError → IoError
  | .os .IsADirectory =>
    .custom .InvalidInput "the source path is neither a regular file nor a symlink to a regular file"
  | e => e

/-- `fs::copy` of a regular file. -/
def copy (a b : OsPath) : Io Unit := do
  let c ← (read a).mapError copyError
  write b c

end Fs

/-- The `?` operator on an I/O result. -/
def io {α : Type} (m : Io α) : Action α := m.mapError .Io

/-- `let _ = ...`: the outcome of the call does not matter. -/
def ignore {α : Type} (m : Io α) : Action Unit := do
  let _ ← Prog.attempt m
  pure ()

/-- `.unwrap_or(default)`. -/
def unwrap_or {ε α : Type} (default : α) (m : Prog World ε α) : Action α := do
  match ← Prog.attempt m with
  | .ok a => pure a
  | .error _ => pure default

/-- An I/O result whose `NotFound` has an error of its own. -/
def or_not_found {α : Type} (missing : StorageError) (m : Io α) : Action α :=
  m.mapError fun e => if e.kind = .NotFound then missing else .Io e

/-- `serde_json::from_str` of what was read, as the record that is wanted. -/
def from_json {α : Type} (select : Record → Option α) : Content → Except StorageError α
  | .json record => match select record with
    | some a => .ok a
    | none => .error (.Json "missing field")
  | .bytes _ => .error (.Json "expected value at line 1 column 1")

def asObject : Record → Option ObjectMeta
  | .object m => some m
  | _ => none

def asBucket : Record → Option BucketMeta
  | .bucket m => some m
  | _ => none

def asManifest : Record → Option ChunkManifest
  | .manifest m => some m
  | _ => none

def asUpload : Record → Option MultipartUploadMeta
  | .upload m => some m
  | _ => none

def asPart : Record → Option PartMeta
  | .part m => some m
  | _ => none

/-! ### Temporary siblings and publication -/

namespace Common

def remove_path_if_exists (p : OsPath) (is_dir : Bool) : Action Unit :=
  if is_dir then ignore (Fs.remove_dir_all p) else ignore (Fs.remove_file p)

def backup_existing (p : OsPath) (uuid : String) : Action (Option OsPath) := do
  if ← io (Fs.try_exists p) then
    let backup := temp_sibling_path p uuid
    io (Fs.rename p backup)
    pure (some backup)
  else pure none

def restore_backup (final_path : OsPath) (backup : Option OsPath) (is_dir : Bool) : Action Unit :=
  match backup with
  | some backup => do
    remove_path_if_exists final_path is_dir
    ignore (Fs.rename backup final_path)
  | none => pure ()

def cleanup_backup (backup : Option OsPath) (is_dir : Bool) : Action Unit := match backup with
  | some backup => remove_path_if_exists backup is_dir
  | none => pure ()

/-- Move a finished payload and its sidecar into place, keeping what was there until both have moved. -/
def publish_temp_payload_and_meta (tmp_payload final_payload : OsPath) (payload_is_dir : Bool)
    (tmp_meta final_meta : OsPath) (payload_uuid meta_uuid : String) : Action Unit := do
  io (Fs.create_dir_all (parent_dir final_payload))
  io (Fs.create_dir_all (parent_dir final_meta))
  let payload_backup ← backup_existing final_payload payload_uuid
  let meta_backup ← backup_existing final_meta meta_uuid
  match ← Prog.attempt (Fs.rename tmp_payload final_payload) with
  | .error e =>
    restore_backup final_meta meta_backup false
    restore_backup final_payload payload_backup payload_is_dir
    Prog.fail (.Io e)
  | .ok () =>
    match ← Prog.attempt (Fs.rename tmp_meta final_meta) with
    | .error e =>
      remove_path_if_exists final_payload payload_is_dir
      restore_backup final_meta meta_backup false
      restore_backup final_payload payload_backup payload_is_dir
      Prog.fail (.Io e)
    | .ok () =>
      cleanup_backup payload_backup payload_is_dir
      cleanup_backup meta_backup false

/-- An armed `TempPathGuard`: whatever makes `m` fail, the temporary file or directory is removed. -/
def with_guard {α : Type} (p : OsPath) (is_dir : Bool) (m : Action α) : Action α :=
  m.guarded fun w => (remove_path_if_exists p is_dir w).2

def remove_file_if_exists (p : OsPath) : Action Unit := do
  match ← Prog.attempt (Fs.remove_file p) with
  | .ok () => pure ()
  | .error e => if e.kind = .NotFound then pure () else Prog.fail (.Io e)

def remove_dir_all_if_exists (p : OsPath) : Action Unit := do
  match ← Prog.attempt (Fs.remove_dir_all p) with
  | .ok () => pure ()
  | .error e => if e.kind = .NotFound then pure () else Prog.fail (.Io e)

end Common
end Maxio
