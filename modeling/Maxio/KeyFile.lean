import Maxio.Keys

/-!
The file of master keys, `.maxio-keys.json`: how a keyring is loaded from it and from `MAXIO_MASTER_KEY`, how it is
bootstrapped, and how it is rotated. Keys are only ever added to it, and one entry of it is active.
-/

namespace Maxio

structure KeyEntryJson where
  id : String
  key_b64 : String
  created_at : String
  active : Bool
  deriving DecidableEq, Repr

structure KeyringFile where
  keys : List KeyEntryJson
  deriving DecidableEq, Repr

/-- What the key file can hold: a keyring, other text, or bytes that are no text. -/
inductive KeyFileContent where
  | keyring (kr : KeyringFile)
  | malformed
  | binary
  deriving DecidableEq, Repr

/-- The key file, when there is one. -/
abbrev KeyFile := Option KeyFileContent

inductive ReadErrorKind where
  | NotFound
  | PermissionDenied
  | InvalidData
  | Other
  deriving DecidableEq, Repr

/-- A failure of the operating system that has nothing to do with what is on disk. -/
inductive IoFault where
  | PermissionDenied
  | Other
  deriving DecidableEq, Repr

def IoFault.kind : IoFault → ReadErrorKind
  | .PermissionDenied => .PermissionDenied
  | .Other => .Other

/-- Which system calls of one operation fail, whatever is on disk. -/
structure KeyIo where
  read : Option IoFault
  write : Option IoFault
  metadata : Option IoFault
  set_permissions : Option IoFault
  rename : Option IoFault
  deriving DecidableEq, Repr

/-- Every call succeeds that can. -/
def KeyIo.sound : KeyIo := ⟨none,none,none,none,none⟩

/-- A generated master key, and the time it was generated at. -/
structure FreshKey where
  new_key : Bytes
  now_iso : String
  length : new_key.length = 32

abbrev KeyAction := Prog KeyFile String

/-- `fs::read_to_string` of the key file. -/
def read_key_file (io : KeyIo) : Prog KeyFile ReadErrorKind KeyFileContent := fun file => match io.read with
  | some fault => (.error fault.kind,file)
  | none => match file with
    | none => (.error .NotFound,file)
    | some .binary => (.error .InvalidData,file)
    | some content => (.ok content,file)

/-- `serde_json::from_str::<KeyringFile>`. -/
def parse_keyring : KeyFileContent → Except String KeyringFile
  | .keyring kr => .ok kr
  | _ => .error "Failed to parse keyring file: expected value"

/-- One system call of the replacement of the key file. -/
def key_io_step : Option IoFault → KeyAction Unit
  | some _ => Prog.fail "I/O error"
  | none => pure ()

/-- Write a temporary file, restrict it to its owner, and rename it over the key file. -/
def replace_key_file (io : KeyIo) (kr : KeyringFile) : KeyAction Unit := do
  key_io_step io.write
  key_io_step io.metadata
  key_io_step io.set_permissions
  key_io_step io.rename
  Prog.tell fun _ => some (.keyring kr)

section
variable (P : Primitives)

/-- A stable id of a master key: eight bytes of its SHA-256 digest, in hexadecimal. -/
def key_id_from_bytes (key : Bytes) : String := hex_encode ((P.sha256 key).take 8)

/-- Decode a base64 string into exactly 32 bytes. -/
def decode_32 (s : String) : Except String Bytes := match P.b64_decode s with
  | none => .error "bad base64"
  | some raw => if raw.length ≠ 32 then .error ("expected 32 bytes, got " ++ toString raw.length) else .ok raw

/-- The entry of a key that becomes the active one. -/
def active_entry (fresh : FreshKey) : KeyEntryJson where
  id := key_id_from_bytes P fresh.new_key
  key_b64 := P.b64_encode fresh.new_key
  created_at := fresh.now_iso
  active := true

namespace Keyring

/-- `HashMap::insert`. -/
def insert_key (keys : List (String × Bytes)) (id : String) (key : Bytes) : List (String × Bytes) :=
  (id,key) :: keys.filter fun entry => entry.1 ≠ id

/-- `HashMap::entry(id).or_insert(key)` with the key of a file entry, if it decodes. -/
def merge_entry (keys : List (String × Bytes)) (entry : KeyEntryJson) : List (String × Bytes) :=
  match decode_32 P entry.key_b64 with
  | .ok key => if keys.any fun known => known.1 = entry.id then keys else keys ++ [(entry.id,key)]
  | .error _ => keys

/-- The file's key, and its id when it is marked active. -/
def load_entry (acc : List (String × Bytes) × Option String) (entry : KeyEntryJson) :
    List (String × Bytes) × Option String :=
  match decode_32 P entry.key_b64 with
  | .ok key => (insert_key acc.1 entry.id key,if entry.active then some entry.id else acc.2)
  | .error _ => acc

/-- With `MAXIO_MASTER_KEY`: that key is active, and the file is merged in to read old objects. -/
def load_master (io : KeyIo) (master_key_b64 : String) : KeyAction Keyring :=
  match P.b64_decode master_key_b64 with
  | none => Prog.fail "MAXIO_MASTER_KEY must be base64-encoded 32 bytes"
  | some raw =>
    if raw.length ≠ 32 then Prog.fail "MAXIO_MASTER_KEY must be exactly 32 bytes when decoded"
    else do
      let id := key_id_from_bytes P raw
      let keys := match ← Prog.attempt (read_key_file io) with
        | .ok data => match parse_keyring data with
          | .ok kr => kr.keys.foldl (merge_entry P) [(id,raw)]
          | .error _ => [(id,raw)]
        | .error _ => [(id,raw)]
      pure { keys, active_id := id }

/-- The keyring file as it is read, or a fresh one when it is not. -/
def load_or_bootstrap (io : KeyIo) (fresh : FreshKey) : KeyAction KeyringFile := do
  match ← Prog.attempt (read_key_file io) with
  | .ok data => Prog.lift (parse_keyring data)
  | .error _ =>
    let kr : KeyringFile := { keys := [active_entry P fresh] }
    replace_key_file io kr
    pure kr

/-- Without `MAXIO_MASTER_KEY`: the keys of the file, which is created when it cannot be read. -/
def load_file (io : KeyIo) (fresh : FreshKey) : KeyAction Keyring := do
  let kr ← load_or_bootstrap P io fresh
  match kr.keys.foldl (load_entry P) ([],none) with
  | (keys,some active_id) => pure { keys, active_id }
  | (_,none) => Prog.fail "Keyring file has no active key"

def load (io : KeyIo) (fresh : FreshKey) : Option String → KeyAction Keyring
  | some master_key_b64 => load_master P io master_key_b64
  | none => load_file P io fresh

end Keyring

structure RotateResult where
  new_active_id : String
  previous_active_id : Option String
  total_keys : Nat

/-- Generate a key, mark it active and demote the others, which stay in the file. -/
def rotate (io : KeyIo) (fresh : FreshKey) : KeyAction RotateResult := do
  let kr ← match ← Prog.attempt (read_key_file io) with
    | .ok data => Prog.lift (parse_keyring data)
    | .error _ => pure { keys := [] }
  let previous_active_id := (kr.keys.find? KeyEntryJson.active).map KeyEntryJson.id
  let demoted := kr.keys.map fun entry => { entry with active := false }
  let new_id := key_id_from_bytes P fresh.new_key
  if demoted.any fun entry => entry.id = new_id then
    Prog.fail ("keyring rotate: generated key id " ++ new_id ++ " already present (extremely unlikely)")
  else
    let rotated := demoted ++ [active_entry P fresh]
    replace_key_file io { keys := rotated }
    pure { new_active_id := new_id, previous_active_id, total_keys := rotated.length }

end
end Maxio
