import Maxio.Crypto

/-!
Data keys: how they are wrapped by the keyring, the KMS backend or a customer key, how they are recovered, and the
MAC that ties an object's metadata to its data key.
-/

namespace Maxio

structure Keyring where
  keys : List (String × Bytes)
  active_id : String

structure LocalKmsBackend where
  master_key : Bytes
  default_key_id : String

/-- What one call draws from the random generators and the clock. -/
structure Draws where
  /-- `Keyring::generate_dek`, or the key drawn by the KMS backend. -/
  dek : Bytes
  /-- `Keyring::generate_nonce_prefix8`. -/
  nonce_prefix : Bytes
  wrap_nonce : Bytes
  /-- The clock and the suffix of a version id. -/
  micros : Nat
  rand_suffix : Nat
  now : Int
  /-- Fresh names for the temporary payload and sidecar, for their backups and for an upload. -/
  tmp_payload : String
  tmp_meta : String
  backup_payload : String
  backup_meta : String
  upload_id : String
  /-- Free disk space seen after the given number of bytes was read. -/
  available_disk_bytes : Nat → Option Nat
  dek_length : dek.length = 32
  prefix_length : nonce_prefix.length = 8
  wrap_length : wrap_nonce.length = 12
  /-- Names are UUIDs, and those of one call differ. -/
  spelled : ∀ name ∈ [tmp_payload,tmp_meta,backup_payload,backup_meta,upload_id],
    name ≠ "" ∧ ∀ c ∈ name.toList, c.isAlphanum ∨ c = '-'
  distinct : [tmp_payload,tmp_meta,backup_payload,backup_meta].Nodup

def Draws.version_id (draws : Draws) : String := generate_version_id draws.micros draws.rand_suffix

section
variable (P : Primitives)

namespace Keyring

def get_key (ring : Keyring) (key_id : String) : Except String Bytes :=
  match ring.keys.find? fun entry => entry.1 = key_id with
  | some entry => .ok entry.2
  | none => .error ("Key '" ++ key_id ++
      "' not found in keyring; object may be unrecoverable — check your MAXIO_MASTER_KEY or keyring file")

/-- Wrap a data key with the master key `key_id`, bound to that id. -/
def wrap_dek (ring : Keyring) (key_id : String) (dek nonce : Bytes) : Action Bytes := do
  let master ← Prog.lift ((ring.get_key key_id).mapError .EncryptionError)
  aes_encrypt P false (.EncryptionError "DEK wrapping failed") master nonce (utf8 key_id) dek

def unwrap_dek (ring : Keyring) (key_id : String) (wrapped nonce : Bytes) : Except String Bytes := do
  let master ← ring.get_key key_id
  let opened := match P.decrypt master nonce (utf8 key_id) wrapped with
    | some plaintext => some plaintext
    | none => P.decrypt master nonce [] wrapped
  match opened with
  | none => .error "DEK unwrapping failed: authentication error"
  | some plaintext =>
    if plaintext.length ≠ 32 then .error ("Unwrapped DEK has wrong length: " ++ toString plaintext.length)
    else .ok plaintext

end Keyring

namespace LocalKmsBackend

/-- The key id in use and the wrapped data key. -/
def generate_data_key (kms : LocalKmsBackend) (key_id : Option String) (dek nonce : Bytes) :
    Action (String × Bytes) := do
  let kms_key_id := match key_id with
    | some id => if id = "" then kms.default_key_id else id
    | none => kms.default_key_id
  let ciphertext ← aes_encrypt P false (.EncryptionError "KMS operation failed: DEK wrap failed")
    kms.master_key nonce (utf8 kms_key_id) dek
  pure (kms_key_id,ciphertext)

def decrypt_data_key (kms : LocalKmsBackend) (kms_key_id : String) (ciphertext nonce : Bytes) :
    Except String Bytes :=
  match P.decrypt kms.master_key nonce (utf8 kms_key_id) ciphertext with
  | none => .error "KMS operation failed: DEK unwrap failed"
  | some plaintext =>
    if plaintext.length ≠ 32 then
      .error ("KMS operation failed: unwrapped DEK length " ++ toString plaintext.length ++ " != 32")
    else .ok plaintext

end LocalKmsBackend

/-! ### Sidecar MAC -/

/-- Clear the fields that may change after the object was written. -/
def mac_input (record : ObjectMeta) : ObjectMeta :=
  { record with
    tags := none, is_delete_marker := false
    encryption := record.encryption.map fun e => { e with sidecar_mac := "" } }

def compute_sidecar_mac (dek : Bytes) (record : ObjectMeta) : String :=
  hex_encode (P.hmac_sha256 dek (P.canonical_json (mac_input record)))

def constant_time_eq (a b : Bytes) : Bool :=
  a.length = b.length && (List.zipWith (fun x y => x ^^^ y) a b).foldl (fun diff x => diff ||| x) 0 = 0

def verify_sidecar_mac (record : ObjectMeta) (dek : Bytes) : Except StorageError Unit :=
  match record.encryption with
  | none => .error (.IntegrityError "object has no encryption metadata")
  | some enc =>
    if enc.sidecar_mac = "" then .error (.IntegrityError "sidecar_mac missing — object may be tampered")
    else if !constant_time_eq (utf8 (compute_sidecar_mac P dek record)) (utf8 enc.sidecar_mac) then
      .error (.IntegrityError "sidecar_mac mismatch — object metadata has been tampered")
    else .ok ()

def reject_sse_c_on_plaintext (record : ObjectMeta) (has_customer_key : Bool) : Except StorageError Unit :=
  if has_customer_key && record.encryption.isNone then
    .error (.DecryptionError "SSE-C headers supplied but object is not encrypted")
  else .ok ()

end
end Maxio
