import Maxio.ChunkReader
import Maxio.Keys

/-!
The configured storage and what every operation on it starts with: quota, bucket metadata, object lock and the
preparation of encryption.
-/

namespace Maxio

structure QuotaLimits where
  /-- Largest object in bytes, zero for no limit. -/
  max_object_bytes : Nat
  /-- Free bytes to keep on the volume, zero for no check. -/
  min_free_disk_bytes : Nat

/-- Configuration of the storage. With a chunk size of zero the chunk writers would never return; a storage here
    has a positive one. -/
structure FilesystemStorage where
  buckets_dir : OsPath
  erasure_coding : Bool
  chunk_size : Nat
  parity_shards : Nat
  keyring : Keyring
  kms : Option LocalKmsBackend
  quota : QuotaLimits
  /-- Whether the SQLite index is enabled. -/
  metadata_index : Bool
  chunk_size_pos : 0 < chunk_size
  /-- The buckets directory is an ordinary path. -/
  plain : ∀ segment ∈ buckets_dir, skipped segment = false ∧ segment ≠ ".."

def IO_BUFFER_SIZE : Nat := 256 * 1024
def SMALL_OBJECT_THRESHOLD : Nat := 256 * 1024

/-- An input stream: the non-empty reads it answers with, and the error it ends with, if any. -/
structure ByteStream where
  reads : List Bytes
  failure : Option IoError
  nonempty : ∀ piece ∈ reads, piece ≠ []
  fits : ∀ piece ∈ reads, piece.length ≤ IO_BUFFER_SIZE

/-- The bytes of a stream. -/
def ByteStream.body (stream : ByteStream) : Bytes := stream.reads.flatten

/-! ### Quota -/

namespace QuotaLimits

def check_object_size (limits : QuotaLimits) (object_bytes : Nat) : Except StorageError Unit :=
  if limits.max_object_bytes > 0 ∧ object_bytes > limits.max_object_bytes then
    .error (.ObjectTooLarge limits.max_object_bytes)
  else .ok ()

def check_declared_size (limits : QuotaLimits) : Option Nat → Except StorageError Unit
  | some n => limits.check_object_size n
  | none => .ok ()

def check_disk_reserve (limits : QuotaLimits) (available : Option Nat) : Except StorageError Unit :=
  if limits.min_free_disk_bytes = 0 then .ok ()
  else match available with
    | none => .error (.InsufficientStorage "unable to determine free disk space")
    | some available =>
      if available < limits.min_free_disk_bytes then
        .error (.InsufficientStorage ("free disk space " ++ toString available ++ " bytes is below reserve " ++
          toString limits.min_free_disk_bytes ++ " bytes"))
      else .ok ()

def check_write_progress (limits : QuotaLimits) (available : Option Nat) (written : Nat) :
    Except StorageError Unit := do
  limits.check_object_size written
  limits.check_disk_reserve available

end QuotaLimits

def quota_io_error : StorageError → IoError
  | .ObjectTooLarge max => .other ("maxio:quota:object-too-large:" ++ toString max)
  | .InsufficientStorage m => .other ("maxio:quota:insufficient-storage:" ++ m)
  | e => .other e.text

def map_read_quota_error (err : IoError) : StorageError :=
  match (strip_start err.text "maxio:quota:object-too-large:").bind (parseUnsigned (2 ^ 64 - 1)) with
  | some max => .ObjectTooLarge max
  | none => match strip_start err.text "maxio:quota:insufficient-storage:" with
    | some rest => .InsufficientStorage rest
    | none => .Io err

/-- The reads that pass the quota, and the error of the first that does not. -/
def quotaReads (limits : QuotaLimits) (available : Nat → Option Nat) (failure : Option IoError) :
    Nat → List Bytes → List Bytes × Option IoError
  | _,[] => ([],failure)
  | written,piece :: rest =>
    let written := written + piece.length
    match limits.check_write_progress (available written) written with
    | .error e => ([],some (quota_io_error e))
    | .ok () =>
      let (reads,failure) := quotaReads limits available failure written rest
      (piece :: reads,failure)

theorem quotaReads_subset (limits : QuotaLimits) (available : Nat → Option Nat) (failure : Option IoError)
    (written : Nat) (reads : List Bytes) :
    ∀ piece ∈ (quotaReads limits available failure written reads).1, piece ∈ reads := by
  induction reads generalizing written with
  | nil => simp [quotaReads]
  | cons piece rest ih =>
    rw [quotaReads]
    split
    next => simp
    next =>
      intro p member
      rcases List.mem_cons.mp member with rfl | later
      · simp
      · exact List.mem_cons_of_mem _ (ih _ p later)

section
variable (P : Primitives)

namespace FilesystemStorage
variable (fs : FilesystemStorage)

def check_upload_start (draws : Draws) (declared_size : Option Nat) : Except StorageError Unit := do
  fs.quota.check_declared_size declared_size
  fs.quota.check_disk_reserve (draws.available_disk_bytes 0)

/-- The stream as the `QuotaReader` passes it on. -/
def wrap_upload_reader (draws : Draws) (body : ByteStream) : ByteStream where
  reads := (quotaReads fs.quota draws.available_disk_bytes body.failure 0 body.reads).1
  failure := (quotaReads fs.quota draws.available_disk_bytes body.failure 0 body.reads).2
  nonempty piece member := body.nonempty piece (quotaReads_subset _ _ _ _ _ piece member)
  fits piece member := body.fits piece (quotaReads_subset _ _ _ _ _ piece member)

/-! ### Bucket metadata -/

def read_bucket_meta (bucket : String) : Action BucketMeta := do
  Prog.lift (validate_bucket_name bucket)
  let data ← or_not_found (.NotFound bucket) (Fs.read (bucket_meta_path fs.buckets_dir bucket))
  Prog.lift (from_json asBucket data)

def write_bucket_meta (bucket : String) (record : BucketMeta) : Action Unit :=
  io (Fs.write (bucket_meta_path fs.buckets_dir bucket) (.json (.bucket record)))

def is_versioned (bucket : String) : Action Bool := do
  let record ← fs.read_bucket_meta bucket
  pure record.versioning

def set_versioning (bucket : String) (enabled : Bool) : Action Unit := do
  let record ← fs.read_bucket_meta bucket
  fs.write_bucket_meta bucket { record with versioning := enabled }

def effective_erasure_coding (bucket : String) : Action Bool :=
  if fs.erasure_coding then do
    let record ← fs.read_bucket_meta bucket
    pure (record.erasure_coding.getD true)
  else pure false

def set_bucket_erasure_coding (bucket : String) (enabled : Option Bool) : Action Unit := do
  Prog.lift (validate_bucket_name bucket)
  if enabled = some true ∧ ¬ fs.erasure_coding then
    Prog.fail (.InvalidKey "per-bucket erasure coding requires server-wide MAXIO_ERASURE_CODING")
  else
    let record ← fs.read_bucket_meta bucket
    fs.write_bucket_meta bucket { record with erasure_coding := enabled }

/-! ### Object metadata and object lock -/

def read_object_meta (bucket key : String) : Action ObjectMeta := do
  let data ← or_not_found (.NotFound key) (Fs.read (meta_path fs.buckets_dir bucket key))
  Prog.lift (from_json asObject data)

end FilesystemStorage

/-- True when retention is active or legal hold is on. -/
def is_object_protected (now : Int) (record : ObjectMeta) : Bool :=
  record.legal_hold_status = some .On ||
    match record.retain_until_date.bind P.parse_from_rfc3339 with
    | some until_date => now < until_date
    | none => false

def ensure_can_delete_meta (now : Int) (record : ObjectMeta) : Except StorageError Unit :=
  if is_object_protected P now record then
    .error (.ObjectLocked "object is protected by retention or legal hold")
  else .ok ()

/-- The last millisecond of the year 262142, where the dates of `chrono` end. -/
def MAX_UTC : Int := 8210266876799999

/-- `now + Duration::days(days)`, which panics when the sum is no date. -/
def add_days (now : Int) (days : Nat) : Option Int :=
  if now + days * 86400000 ≤ MAX_UTC then some (now + days * 86400000) else none

def date_overflow : StorageError := .Panic "`DateTime + TimeDelta` overflowed"

namespace FilesystemStorage
variable (fs : FilesystemStorage)

def ensure_can_overwrite (now : Int) (bucket key : String) : Action Unit := do
  if ← unwrap_or false (Fs.try_exists (meta_path fs.buckets_dir bucket key)) then
    let record ← fs.read_object_meta bucket key
    Prog.lift (ensure_can_delete_meta P now record)
  else pure ()

def resolve_default_object_lock (now : Int) (bucket : String) : Action (Option ObjectLockRetention) := do
  let record ← fs.read_bucket_meta bucket
  if !record.object_lock_enabled then pure none
  else match record.object_lock_config with
    | none => pure none
    | some config => match config.default_retention_mode,config.default_retention_days with
      | some mode,some days =>
        if days = 0 then pure none
        else match add_days now days with
          | some until_date => pure (some { mode, retain_until_date := P.format_time until_date })
          | none => Prog.fail date_overflow
      | _,_ => pure none

end FilesystemStorage

def apply_object_lock (record : ObjectMeta) : Option ObjectLockRetention → ObjectMeta
  | some lock => { record with
      object_lock_mode := some lock.mode, retain_until_date := some lock.retain_until_date }
  | none => record

/-! ### Encryption of new objects -/

def encryption_error : StorageError → StorageError := fun e => .EncryptionError e.text

namespace FilesystemStorage
variable (fs : FilesystemStorage)

/-- Metadata that all encryption modes share. -/
def encryption_meta (draws : Draws) (mode : EncryptionMode) (wrapped : Bytes) : EncryptionMeta where
  algorithm := "AES256"
  mode := mode
  key_id := none
  kms_key_id := none
  wrapped_dek := some (P.b64_encode wrapped)
  wrap_nonce := some (P.b64_encode draws.wrap_nonce)
  customer_key_md5 := none
  nonce_prefix := P.b64_encode draws.nonce_prefix
  chunk_size := FRAME_CHUNK_SIZE
  sidecar_mac := ""

def prepare_encryption (draws : Draws) (req : EncryptionRequest) : Action EncryptionMeta :=
  match req.mode with
  | .SseS3 => do
    let wrapped ← fs.keyring.wrap_dek P fs.keyring.active_id draws.dek draws.wrap_nonce
    pure { encryption_meta P draws .SseS3 wrapped with key_id := some fs.keyring.active_id }
  | .SseKms => match fs.kms with
    | none => Prog.fail (.EncryptionError "SSE-KMS requires MAXIO_KMS_MASTER_KEY")
    | some kms => do
      let (kms_key_id,ciphertext) ← kms.generate_data_key P req.kms_key_id draws.dek draws.wrap_nonce
      pure { encryption_meta P draws .SseKms ciphertext with kms_key_id := some kms_key_id }
  | .SseC => match req.customer_key with
    | none => Prog.fail (.EncryptionError "SSE-C requires customer key")
    | some customer_key => do
      let wrapped ← aes_encrypt P false (.EncryptionError "SSE-C DEK wrapping failed")
        customer_key draws.wrap_nonce [] draws.dek
      pure { encryption_meta P draws .SseC wrapped with
        customer_key_md5 := some (P.b64_encode (P.md5 customer_key)) }

/-- Decode the wrapped key and its nonce from a record; `failed` makes the error of the caller's kind. -/
def wrapped_key (failed : String → StorageError) (bad_key bad_nonce short : String)
    (wrapped wrap_nonce : String) : Except StorageError (Bytes × Bytes) :=
  match P.b64_decode wrapped with
  | none => .error (failed bad_key)
  | some wrapped => match P.b64_decode wrap_nonce with
    | none => .error (failed bad_nonce)
    | some nonce => if nonce.length ≠ 12 then .error (failed short) else .ok (wrapped,nonce)

def required {α : Type} (failed : StorageError) : Option α → Except StorageError α
  | some a => .ok a
  | none => .error failed

def resolve_dek (enc : EncryptionMeta) (customer_key : Option Bytes) : Except StorageError Bytes :=
  let decode := wrapped_key P .DecryptionError "bad wrapped_dek base64" "bad wrap_nonce base64"
    "wrap_nonce must be 12 bytes"
  match enc.mode with
  | .SseC => do
    let ck ← required (.DecryptionError "SSE-C: customer key required") customer_key
    match enc.customer_key_md5 with
    | some stored =>
      if P.b64_encode (P.md5 ck) ≠ stored then .error (.DecryptionError "SSE-C: customer key MD5 mismatch")
    | none => pure ()
    match enc.wrapped_dek,enc.wrap_nonce with
    | some wrapped,some wrap_nonce =>
      let (wrapped,nonce) ← decode wrapped wrap_nonce
      match P.decrypt ck nonce [] wrapped with
      | none => .error (.DecryptionError "SSE-C DEK unwrap failed")
      | some plaintext =>
        if plaintext.length ≠ 32 then .error (.DecryptionError "SSE-C DEK length invalid") else .ok plaintext
    | _,_ => .ok ck
  | .SseS3 => do
    let key_id ← required (.DecryptionError "missing key_id") enc.key_id
    let wrapped ← required (.DecryptionError "missing wrapped_dek") enc.wrapped_dek
    let wrap_nonce ← required (.DecryptionError "missing wrap_nonce") enc.wrap_nonce
    let (wrapped,nonce) ← decode wrapped wrap_nonce
    (fs.keyring.unwrap_dek P key_id wrapped nonce).mapError .DecryptionError
  | .SseKms => do
    let kms ← required (.DecryptionError "SSE-KMS not configured") fs.kms
    let kms_key_id ← required (.DecryptionError "missing kms_key_id") enc.kms_key_id
    let wrapped ← required (.DecryptionError "missing wrapped_dek") enc.wrapped_dek
    let wrap_nonce ← required (.DecryptionError "missing wrap_nonce") enc.wrap_nonce
    let (wrapped,nonce) ← decode wrapped wrap_nonce
    (kms.decrypt_data_key P kms_key_id wrapped nonce).mapError .DecryptionError

def resolve_upload_dek (spec : UploadEncryptionSpec) (customer_key : Option Bytes) : Except StorageError Bytes :=
  let decode := wrapped_key P .EncryptionError "bad upload_dek_wrapped base64" "bad upload_dek_wrap_nonce base64"
    "upload_dek_wrap_nonce must be 12 bytes"
  match spec.mode with
  | .SseC => do
    let ck ← required (.EncryptionError "SSE-C multipart: customer key required") customer_key
    match spec.customer_key_md5 with
    | some stored =>
      if P.b64_encode (P.md5 ck) ≠ stored then .error (.EncryptionError "SSE-C key MD5 mismatch") else .ok ck
    | none => .ok ck
  | .SseS3 => do
    let wrapped ← required (.EncryptionError "missing upload_dek_wrapped") spec.upload_dek_wrapped
    let wrap_nonce ← required (.EncryptionError "missing upload_dek_wrap_nonce") spec.upload_dek_wrap_nonce
    let kid ← required (.EncryptionError "missing upload_dek_key_id") spec.upload_dek_key_id
    let (wrapped,nonce) ← decode wrapped wrap_nonce
    (fs.keyring.unwrap_dek P kid wrapped nonce).mapError .EncryptionError
  | .SseKms => do
    let kms ← required (.EncryptionError "SSE-KMS not configured") fs.kms
    let kms_key_id ← required (.EncryptionError "missing kms_key_id") spec.kms_key_id
    let wrapped ← required (.EncryptionError "missing upload_dek_wrapped") spec.upload_dek_wrapped
    let wrap_nonce ← required (.EncryptionError "missing upload_dek_wrap_nonce") spec.upload_dek_wrap_nonce
    let (wrapped,nonce) ← decode wrapped wrap_nonce
    (kms.decrypt_data_key P kms_key_id wrapped nonce).mapError .EncryptionError

/-! ### Metadata index -/

/-- `MetadataIndex::remove`. -/
def index_remove (bucket key : String) : Action Unit :=
  if fs.metadata_index then
    Prog.tell fun w => { w with rows := w.rows.filter fun row => !(row.1 = bucket && row.2.1 = key) }
  else pure ()

/-- `MetadataIndex::upsert`: a delete marker takes the row away. -/
def index_upsert (bucket : String) (record : ObjectMeta) : Action Unit := do
  fs.index_remove bucket record.key
  if fs.metadata_index && !record.is_delete_marker then
    Prog.tell fun w => { w with rows := w.rows ++ [(bucket,record.key,record)] }
  else pure ()

end FilesystemStorage
end
end Maxio
