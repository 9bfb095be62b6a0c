import Maxio.Types

/-!
Where a key lives on disk. An operating-system path is the list of the segments between its slashes, as the
program spelled it; `.` and empty segments are kept until the path is looked up in the tree.
-/

namespace Maxio
open FileTree (Tree ErrorKind)

abbrev OsPath := List String
abbrev Disk := Tree String Content

/-- `Path::components` of a relative or absolute path. -/
inductive Component where
  | RootDir
  | CurDir
  | ParentDir
  | Normal (segment : String)
  deriving DecidableEq, Repr

namespace Component

/-- The component as a path segment. -/
def segment : Component → String
  | .RootDir => ""
  | .CurDir => "."
  | .ParentDir => ".."
  | .Normal segment => segment

end Component

/-- A segment that `components` skips. -/
def skipped (segment : String) : Bool := segment = "" || segment = "."

def componentOf (segment : String) : Component := if segment = ".." then .ParentDir else .Normal segment

def components (path : String) : List Component :=
  let segments := split path '/'
  let body := (segments.filter fun s => !skipped s).map componentOf
  if starts_with path "/" then .RootDir :: body
  else if segments.head? = some "." then .CurDir :: body
  else body

/-- `Path::join`: an absolute path replaces what it is joined to. -/
def join (p : OsPath) (path : String) : OsPath :=
  if starts_with path "/" then split path '/' else p ++ split path '/'

/-- `Path::parent` of an absolute path. -/
def parent_dir (p : OsPath) : OsPath := (p.filter fun s => !skipped s).dropLast

/-- A path whose last segment does not name an entry of a directory. -/
def dotted (p : OsPath) : Bool := match p.getLast? with
  | some s => skipped s || s = ".."
  | none => true

/-- A segment that can name an entry of a directory. -/
def isName (s : String) : Bool := !skipped s && s ≠ ".." && !s.toList.contains '/'

/-- Walk a path from the root. Only `..` needs the tree: it leaves a directory that has to exist. -/
def locateFrom (t : Disk) (here : OsPath) : OsPath → Except ErrorKind OsPath
  | [] => .ok here
  | s :: rest =>
    if skipped s then locateFrom t here rest
    else if s = ".." then
      if t.isDir here then locateFrom t here.dropLast rest
      else .error (if t.isFile here then .NotADirectory else t.missing here)
    else locateFrom t (here ++ [s]) rest

/-- The node a path leads to. -/
def locate (t : Disk) (p : OsPath) : Except ErrorKind OsPath := locateFrom t [] p

/-! ### Keys -/

/-- Internal on-disk names that no segment of a key may have. -/
def is_reserved_segment (name : String) : Bool :=
  ends_with name ".meta.json" || ends_with name ".ec" || name = ".bucket.json" || name = ".uploads" ||
    name = ".versions" || name = ".folder" || starts_with name ".maxio-tmp-"

def validate_components : List Component → Except StorageError Unit
  | [] => .ok ()
  | .ParentDir :: _ => .error (.InvalidKey "Key must not contain '..' path components")
  | .RootDir :: _ => .error (.InvalidKey "Key must not be an absolute path")
  | .Normal name :: rest =>
    if is_reserved_segment name then
      .error (.InvalidKey ("Key segment '" ++ name ++ "' collides with an internal storage name"))
    else validate_components rest
  | .CurDir :: rest => validate_components rest

def validate_key (key : String) : Except StorageError Unit :=
  if key = "" then .error (.InvalidKey "Key must not be empty")
  else if byteLength key > 1024 then .error (.InvalidKey "Key must not exceed 1024 bytes")
  else validate_components (components key)

def validate_upload_id (upload_id : String) : Except StorageError Unit :=
  if upload_id = "" then .error (.UploadNotFound upload_id)
  else if contains upload_id "/" || contains upload_id "\\" || contains upload_id ".." then
    .error (.UploadNotFound upload_id)
  else .ok ()

/-- `str::trim_end_matches('/')`. -/
def trim_end_slashes (s : String) : String := String.ofList (s.toList.reverse.dropWhile (· = '/')).reverse

/-- `Path::file_name` of a key, or the key itself. -/
def file_name (key : String) : String := match (components key).getLast? with
  | some (.Normal segment) => segment
  | _ => key

section Layout
variable (buckets_dir : OsPath)

def bucket_dir (bucket : String) : OsPath := join buckets_dir bucket

def bucket_meta_path (bucket : String) : OsPath := join (bucket_dir buckets_dir bucket) ".bucket.json"

def object_path (bucket key : String) : OsPath :=
  if ends_with key "/" then join (join (bucket_dir buckets_dir bucket) (trim_end_slashes key)) ".folder"
  else join (bucket_dir buckets_dir bucket) key

def meta_path (bucket key : String) : OsPath :=
  if ends_with key "/" then
    join (join (bucket_dir buckets_dir bucket) (trim_end_slashes key)) ".folder.meta.json"
  else join (bucket_dir buckets_dir bucket) (key ++ ".meta.json")

def ec_dir (bucket key : String) : OsPath := join (bucket_dir buckets_dir bucket) (key ++ ".ec")

def manifest_path (bucket key : String) : OsPath := join (ec_dir buckets_dir bucket key) "manifest.json"

def uploads_dir (bucket : String) : OsPath := join (bucket_dir buckets_dir bucket) ".uploads"

def upload_dir (bucket upload_id : String) : OsPath := join (uploads_dir buckets_dir bucket) upload_id

def upload_meta_path (bucket upload_id : String) : OsPath :=
  join (upload_dir buckets_dir bucket upload_id) ".meta.json"

def part_path (bucket upload_id : String) (part_number : Nat) : OsPath :=
  join (upload_dir buckets_dir bucket upload_id) (toString part_number)

def part_meta_path (bucket upload_id : String) (part_number : Nat) : OsPath :=
  join (upload_dir buckets_dir bucket upload_id) (toString part_number ++ ".meta.json")

/-- Directory holding the versions of a key: `photos/vacation.jpg` has `photos/.versions/vacation.jpg`. -/
def versions_dir (bucket key : String) : OsPath :=
  let parent := (components key).dropLast.map Component.segment
  join (join (bucket_dir buckets_dir bucket ++ parent) ".versions") (file_name key)

def version_data_path (bucket key version_id : String) : OsPath :=
  join (versions_dir buckets_dir bucket key) (version_id ++ ".data")

def version_meta_path (bucket key version_id : String) : OsPath :=
  join (versions_dir buckets_dir bucket key) (version_id ++ ".meta.json")

def version_ec_dir (bucket key version_id : String) : OsPath :=
  join (versions_dir buckets_dir bucket key) (version_id ++ ".ec")

end Layout

def temp_sibling_path (p : OsPath) (uuid : String) : OsPath := join (parent_dir p) (".maxio-tmp-" ++ uuid)

/-! ### Formatted names -/

/-- Digits of a number in the given base, padded with zeros on the left to a minimal width. -/
def padded (base width n : Nat) : String :=
  let digits := Nat.toDigits base n
  String.ofList (List.replicate (width - digits.length) '0' ++ digits)

/-- The file name of a chunk, `{:06}`. -/
def chunk_name (index : Nat) : String := padded 10 6 index

/-- A version id from the clock in microseconds and 32 random bits, `{:016}-{:08x}`. -/
def generate_version_id (micros rand_suffix : Nat) : String :=
  padded 10 16 micros ++ "-" ++ padded 16 8 rand_suffix

example : (validate_key "safe/key.txt").isOk ∧ ¬ (validate_key "../etc/passwd").isOk ∧
    ¬ (validate_key "foo/.meta.json").isOk ∧ ¬ (validate_key "").isOk := by decide
example : versions_dir ["data","buckets"] "logs" "photos/vacation.jpg" =
    ["data","buckets","logs","photos",".versions","vacation.jpg"] := by decide
example : generate_version_id 1700000000000000 10 = "1700000000000000-0000000a" := by decide +kernel

end Maxio
