import Maxio.ObjectIo

/-!
Listing of a bucket: by a walk over its directory, or from the rows of the index.
-/

namespace Maxio

/-- Names the walk passes over. -/
def is_internal_name (name : String) : Bool :=
  ends_with name ".meta.json" || name = ".bucket.json" || name = ".uploads" || name = ".versions" || name = ".folder"

/-- A path below the bucket as a key. -/
def rel_key (rel : OsPath) : String := "/".intercalate rel

/-- `str::strip_suffix(".ec")`, or the text itself. -/
def strip_ec (s : String) : String :=
  if ends_with s ".ec" then String.ofList (s.toList.take (s.toList.length - 3)) else s

def to_ascii_lower (s : String) : String := String.ofList (s.toList.map Char.toLower)

namespace FilesystemStorage
variable (fs : FilesystemStorage)

/-- The metadata of a key the walk came across, when it has the wanted start and its sidecar can be read. -/
def listed_meta (bucket start key : String) : Action (List ObjectMeta) := do
  if starts_with key start then
    match ← Prog.attempt (fs.read_object_meta bucket key) with
    | .ok record => pure [record]
    | .error _ => pure []
  else pure []

/-- The folder marker of a directory below the bucket. -/
def listed_folder (path : OsPath) (start key : String) : Action (List ObjectMeta) := do
  if starts_with key start then
    match ← Prog.attempt (io (Fs.read (join path ".folder.meta.json"))) with
    | .ok data => match from_json asObject data with
      | .ok record => pure [record]
      | .error _ => pure []
    | .error _ => pure []
  else pure []

/-- Visit the entries of one directory; `walk` goes on into a subdirectory. -/
def walk_entry (walk : OsPath → Action (List ObjectMeta)) (bucket start : String) (rel : OsPath) (fname : String) :
    Action (List ObjectMeta) := do
  if is_internal_name fname then pure []
  else
    let rel := rel ++ [fname]
    let path := bucket_dir fs.buckets_dir bucket ++ rel
    let dir ← io (Fs.is_dir path)
    if ends_with fname ".ec" && dir then fs.listed_meta bucket start (strip_ec (rel_key rel))
    else if dir then do
      let marker ← listed_folder path start (rel_key rel ++ "/")
      let inner ← walk rel
      pure (marker ++ inner)
    else fs.listed_meta bucket start (rel_key rel)

/-- `walk_dir` below the bucket, to the given depth. -/
def walk_dir (bucket start : String) : Nat → OsPath → Action (List ObjectMeta)
  | 0,_ => pure []
  | depth + 1,rel => do
    match ← Prog.attempt (Fs.read_dir (bucket_dir fs.buckets_dir bucket ++ rel)) with
    | .error e => if e.kind = .NotFound then pure [] else Prog.fail (.Io e)
    | .ok names => Prog.fold (fun found fname => do
        let more ← fs.walk_entry (walk_dir bucket start depth) bucket start rel fname
        pure (found ++ more)) [] names

/-- The order of results: by key. -/
def keyLe (a b : ObjectMeta) : Prop := strLe a.key b.key

instance : DecidableRel keyLe := fun a b => inferInstanceAs (Decidable (strLe a.key b.key))

/-- Depth of the deepest path of a tree. -/
def tree_depth (t : Disk) : Nat := (t.paths.map List.length).foldl max 0

def list_objects_walk (bucket start : String) : Action (List ObjectMeta) := do
  Prog.lift (validate_bucket_name bucket)
  let depth ← Prog.ask fun w => tree_depth w.tree + 1
  let results ← fs.walk_dir bucket start depth []
  pure (results.insertionSort keyLe)

/-- `MetadataIndex::list`: SQLite's `LIKE` does not tell upper and lower case ASCII letters apart. -/
def index_list (bucket start : String) : Action (List ObjectMeta) := do
  let rows ← Prog.ask World.rows
  let found := rows.filter fun row => row.1 = bucket &&
    (start = "" || starts_with (to_ascii_lower row.2.1) (to_ascii_lower start))
  pure ((found.insertionSort fun a b => strLe a.2.1 b.2.1).map fun row => row.2.2)

def list_objects (bucket start : String) : Action (List ObjectMeta) :=
  if fs.metadata_index then index_list bucket start else fs.list_objects_walk bucket start

end FilesystemStorage
end Maxio
