import Maxio.FileTree

/-!
Records and errors of the storage crate, and the checks on bucket names.
-/

namespace Maxio
open FileTree (ErrorKind)

abbrev Bytes := List UInt8

/-- An error of the operating system, or one made by the program with a text of its own. -/
inductive IoError where
  | os (kind : ErrorKind)
  | custom (kind : ErrorKind) (message : String)
  deriving DecidableEq, Repr

namespace IoError

def kind : IoError → ErrorKind
  | .os kind => kind
  | .custom kind _ => kind

/-- `io::Error::other`. -/
def other (message : String) : IoError := .custom .Other message

/-- The text shown for an error of the operating system. -/
def osText : ErrorKind → String
  | .NotFound => "No such file or directory (os error 2)"
  | .NotADirectory => "Not a directory (os error 20)"
  | .IsADirectory => "Is a directory (os error 21)"
  | .AlreadyExists => "File exists (os error 17)"
  | .DirectoryNotEmpty => "Directory not empty (os error 39)"
  | .InvalidInput => "Invalid argument (os error 22)"
  | .ResourceBusy => "Device or resource busy (os error 16)"
  | .InvalidData => "invalid data"
  | .UnexpectedEof => "unexpected end of file"
  | .Other => "other error"

def text : IoError → String
  | .os kind => osText kind
  | .custom _ message => message

end IoError

inductive StorageError where
  | Io (error : IoError)
  | Json (message : String)
  | NotFound (what : String)
  | BucketNotEmpty
  | InvalidKey (message : String)
  | UploadNotFound (upload_id : String)
  | VersionNotFound (version_id : String)
  | ChecksumMismatch (message : String)
  | EncryptionError (message : String)
  | DecryptionError (message : String)
  | IntegrityError (message : String)
  | ObjectTooLarge (max : Nat)
  | InsufficientStorage (message : String)
  | ObjectLocked (message : String)
  /-- No error of the source: the call panics. -/
  | Panic (message : String)
  deriving DecidableEq, Repr

namespace StorageError

/-- The `Display` texts. -/
def text : StorageError → String
  | .Io e => "IO error: " ++ e.text
  | .Json m => "JSON error: " ++ m
  | .NotFound m => "Not found: " ++ m
  | .BucketNotEmpty => "Bucket not empty"
  | .InvalidKey m => "Invalid key: " ++ m
  | .UploadNotFound m => "Multipart upload not found: " ++ m
  | .VersionNotFound m => "Version not found: " ++ m
  | .ChecksumMismatch m => "Checksum mismatch: " ++ m
  | .EncryptionError m => "Encryption error: " ++ m
  | .DecryptionError m => "Decryption error: " ++ m
  | .IntegrityError m => "Integrity error: " ++ m
  | .ObjectTooLarge max => "object exceeds maximum allowed size of " ++ toString max ++ " bytes"
  | .InsufficientStorage m => "insufficient storage: " ++ m
  | .ObjectLocked m => "object locked: " ++ m
  | .Panic m => m

end StorageError

inductive ChecksumAlgorithm where
  | CRC32 | CRC32C | SHA1 | SHA256
  deriving DecidableEq, Repr

structure PutResult where
  size : Nat
  etag : String
  version_id : Option String
  checksum_algorithm : Option ChecksumAlgorithm
  checksum_value : Option String
  deriving DecidableEq, Repr

structure DeleteResult where
  version_id : Option String
  is_delete_marker : Bool
  deriving DecidableEq, Repr

structure LifecycleRule where
  id : String
  rulePrefix : String
  expiration_days : Option Nat
  transition_days : Option Nat
  noncurrent_expiration_days : Option Nat
  enabled : Bool
  deriving DecidableEq, Repr

inductive ObjectLockMode where
  | Governance | Compliance
  deriving DecidableEq, Repr

inductive LegalHoldStatus where
  | On | Off
  deriving DecidableEq, Repr

structure ObjectLockConfig where
  enabled : Bool
  default_retention_mode : Option ObjectLockMode
  default_retention_days : Option Nat
  deriving DecidableEq, Repr

structure ObjectLockRetention where
  mode : ObjectLockMode
  retain_until_date : String
  deriving DecidableEq, Repr

structure BucketNotificationConfig where
  webhook_url : String
  events : List String
  deriving DecidableEq, Repr

structure CorsRule where
  allowed_origins : List String
  allowed_methods : List String
  allowed_headers : List String
  expose_headers : List String
  max_age_seconds : Option Nat
  deriving DecidableEq, Repr

structure BucketEncryptionConfig where
  sse_algorithm : String
  kms_key_id : Option String
  deriving DecidableEq, Repr

structure BucketMeta where
  name : String
  created_at : String
  region : String
  versioning : Bool
  cors_rules : Option (List CorsRule)
  encryption_config : Option BucketEncryptionConfig
  public_read : Bool
  public_list : Bool
  bucket_policy : Option String
  erasure_coding : Option Bool
  lifecycle_rules : Option (List LifecycleRule)
  tenant_id : Option String
  logging_target_bucket : Option String
  logging_target_prefix : Option String
  notification_config : Option BucketNotificationConfig
  object_lock_enabled : Bool
  object_lock_config : Option ObjectLockConfig
  deriving DecidableEq, Repr

inductive EncryptionMode where
  | SseS3 | SseC | SseKms
  deriving DecidableEq, Repr

structure EncryptionMeta where
  algorithm : String
  mode : EncryptionMode
  key_id : Option String
  kms_key_id : Option String
  wrapped_dek : Option String
  wrap_nonce : Option String
  customer_key_md5 : Option String
  nonce_prefix : String
  chunk_size : Nat
  sidecar_mac : String
  deriving DecidableEq, Repr

structure ObjectMeta where
  key : String
  size : Nat
  etag : String
  content_type : String
  last_modified : String
  version_id : Option String
  is_delete_marker : Bool
  storage_format : Option String
  checksum_algorithm : Option ChecksumAlgorithm
  checksum_value : Option String
  tags : Option (List (String × String))
  part_sizes : Option (List Nat)
  encryption : Option EncryptionMeta
  object_lock_mode : Option ObjectLockMode
  retain_until_date : Option String
  legal_hold_status : Option LegalHoldStatus
  deriving DecidableEq, Repr

structure EncryptionRequest where
  mode : EncryptionMode
  customer_key : Option Bytes
  kms_key_id : Option String
  deriving DecidableEq, Repr

namespace EncryptionRequest

def sse_s3 : EncryptionRequest := { mode := .SseS3, customer_key := none, kms_key_id := none }
def sse_c (key : Bytes) : EncryptionRequest := { mode := .SseC, customer_key := some key, kms_key_id := none }
def sse_kms (kms_key_id : Option String) : EncryptionRequest :=
  { mode := .SseKms, customer_key := none, kms_key_id := kms_key_id }

end EncryptionRequest

structure UploadEncryptionSpec where
  mode : EncryptionMode
  customer_key_md5 : Option String
  upload_dek_wrapped : Option String
  upload_dek_wrap_nonce : Option String
  upload_dek_key_id : Option String
  kms_key_id : Option String
  upload_nonce_prefix : String
  deriving DecidableEq, Repr

structure MultipartUploadMeta where
  upload_id : String
  bucket : String
  key : String
  content_type : String
  initiated : String
  checksum_algorithm : Option ChecksumAlgorithm
  encryption_spec : Option UploadEncryptionSpec
  deriving DecidableEq, Repr

structure PartMeta where
  part_number : Nat
  etag : String
  size : Nat
  last_modified : String
  checksum_algorithm : Option ChecksumAlgorithm
  checksum_value : Option String
  encrypted : Bool
  ciphertext_size : Option Nat
  deriving DecidableEq, Repr

inductive ChunkKind where
  | Data | Parity
  deriving DecidableEq, Repr

structure ChunkInfo where
  index : Nat
  size : Nat
  sha256 : String
  kind : ChunkKind
  deriving DecidableEq, Repr

structure ChunkManifest where
  version : Nat
  total_size : Nat
  chunk_size : Nat
  chunk_count : Nat
  chunks : List ChunkInfo
  parity_shards : Option Nat
  shard_size : Option Nat
  plaintext_size : Option Nat
  deriving DecidableEq, Repr

/-- A JSON document as `serde_json` writes it and reads it back. -/
inductive Record where
  | object (record : ObjectMeta)
  | bucket (record : BucketMeta)
  | manifest (record : ChunkManifest)
  | upload (record : MultipartUploadMeta)
  | part (record : PartMeta)
  deriving DecidableEq, Repr

/-- What a file holds: payload bytes, or one of the JSON documents. -/
inductive Content where
  | bytes (data : Bytes)
  | json (record : Record)
  deriving DecidableEq, Repr

/-! ### Text -/

/-- `str::ends_with`. -/
def ends_with (s suffix : String) : Bool := suffix.toList.isSuffixOf s.toList

/-- `str::starts_with`. -/
def starts_with (s start : String) : Bool := start.toList.isPrefixOf s.toList

/-- `str::contains` of a text. -/
def contains (s part : String) : Bool := s.toList.tails.any fun rest => part.toList.isPrefixOf rest

/-- `str::strip_prefix`. -/
def strip_start (s start : String) : Option String :=
  if starts_with s start then some (String.ofList (s.toList.drop start.length)) else none

/-- The pieces of a list between occurrences of a separator. -/
def splitChars (sep : Char) : List Char → List (List Char)
  | [] => [[]]
  | c :: rest =>
    if c = sep then [] :: splitChars sep rest
    else match splitChars sep rest with
      | piece :: pieces => (c :: piece) :: pieces
      | [] => [[c]]

/-- `str::split` on one character. -/
def split (s : String) (sep : Char) : List String := (splitChars sep s.toList).map String.ofList

/-- `str::parse` for an unsigned integer with the given largest value. -/
def parseUnsigned (max : Nat) (s : String) : Option Nat :=
  let digits := match s.toList with
    | '+' :: rest => rest
    | cs => cs
  if digits ≠ [] ∧ digits.all Char.isDigit then
    let n := digits.foldl (fun acc c => acc * 10 + (c.toNat - '0'.toNat)) 0
    if n ≤ max then some n else none
  else none

/-- Length in UTF-8 bytes (`str::len`). -/
def byteLength (s : String) : Nat := (s.toList.map Char.utf8Size).sum

/-! ### Bucket names -/

def is_valid_bucket_name (name : String) : Bool :=
  let chars := name.toList
  let alphanumeric (c : Option Char) : Bool := match c with
    | some c => c.isAlpha || c.isDigit
    | none => false
  3 ≤ byteLength name && byteLength name ≤ 63 &&
  chars.all (fun c => c.isLower || c.isDigit || c = '-' || c = '.') &&
  alphanumeric chars.head? && alphanumeric chars.getLast? &&
  !(contains name ".." || contains name ".-" || contains name "-.") &&
  !((split name '.').length = 4 && (split name '.').all fun part => (parseUnsigned 255 part).isSome)

def validate_bucket_name (name : String) : Except StorageError Unit :=
  if is_valid_bucket_name name then .ok () else .error (.InvalidKey ("invalid bucket name: " ++ name))

example : ["../evil","a/b","ab","evil..bucket","Uppercase","a.-b","a-.b","192.168.0.1"].all
    (fun name => !is_valid_bucket_name name) := by decide
example : is_valid_bucket_name "prod-logs.2026" := by decide +kernel

end Maxio
