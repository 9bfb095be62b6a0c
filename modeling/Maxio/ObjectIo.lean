import Maxio.VersionStore
import Maxio.Writers

/-!
Operations on the current object of a key: put, get, range reads, head and delete.
-/

namespace Maxio
open Reading (Poll FileReader Take)

/-- A checksum algorithm with the value the client expects, if it sent one. -/
abbrev ChecksumRequest := Option (ChecksumAlgorithm × Option String)

/-- The stream `get_object` hands out. -/
inductive ObjectReader where
  | cursor (data : FileReader UInt8)
  | file (file : FileReader UInt8)
  | limited (file : Take (FileReader UInt8))
  | chunks (reader : VerifiedChunkReader)
  | decrypted_file (decryptor : FrameDecryptor (FileReader UInt8))
  | decrypted_chunks (decryptor : FrameDecryptor VerifiedChunkReader)

section
variable (P : Primitives)

namespace ObjectReader

/-- `io::Cursor` over bytes in memory: only the buffer limits a read. -/
def in_memory (data : Bytes) : ObjectReader := .cursor { data, pos := 0, grant := fun _ => data.length }

def poll_read : Poll ObjectReader IoError UInt8
  | .cursor f,cap => do let (piece,f) ← f.poll_read cap; .ok (piece,.cursor f)
  | .file f,cap => do let (piece,f) ← f.poll_read cap; .ok (piece,.file f)
  | .limited f,cap => do let (piece,f) ← Take.poll_read FileReader.poll_read f cap; .ok (piece,.limited f)
  | .chunks r,cap => do let (piece,r) ← r.poll_read P cap; .ok (piece,.chunks r)
  | .decrypted_file d,cap => do
    let (piece,d) ← FrameDecryptor.poll_read P FileReader.poll_read d cap
    .ok (piece,.decrypted_file d)
  | .decrypted_chunks d,cap => do
    let (piece,d) ← FrameDecryptor.poll_read P (VerifiedChunkReader.poll_read P) d cap
    .ok (piece,.decrypted_chunks d)

end ObjectReader

/-- Metadata of a freshly written object, before locks and MAC. -/
def new_object_meta (key content_type : String) (size : Nat) (etag : String) (last_modified : String)
    (version_id storage_format : Option String) (checksum_algorithm : Option ChecksumAlgorithm)
    (checksum_value : Option String) (encryption : Option EncryptionMeta) : ObjectMeta where
  key := key
  size := size
  etag := etag
  content_type := content_type
  last_modified := last_modified
  version_id := version_id
  is_delete_marker := false
  storage_format := storage_format
  checksum_algorithm := checksum_algorithm
  checksum_value := checksum_value
  tags := none
  part_sizes := none
  encryption := encryption
  object_lock_mode := none
  retain_until_date := none
  legal_hold_status := none

/-- Fold the sidecar MAC into the metadata once every immutable field is final. -/
def with_sidecar_mac (dek : Option Bytes) (record : ObjectMeta) : ObjectMeta :=
  match record.encryption,dek with
  | some enc,some dek =>
    { record with encryption := some { enc with sidecar_mac := compute_sidecar_mac P dek record } }
  | _,_ => record

def quoted (etag : String) : String := "\"" ++ etag ++ "\""

/-- Compare the computed checksum with the expected one. -/
def check_checksum (checksum : ChecksumRequest) (data : Bytes) :
    Except StorageError (Option ChecksumAlgorithm × Option String) :=
  match checksum with
  | none => .ok (none,none)
  | some (algo,expected) =>
    let computed := P.b64_encode (P.checksum algo data)
    match expected with
    | some value =>
      if computed ≠ value then
        .error (.ChecksumMismatch ("expected " ++ value ++ ", got " ++ computed))
      else .ok (some algo,some computed)
    | none => .ok (some algo,some computed)

namespace FilesystemStorage
variable (fs : FilesystemStorage)

/-- Write the sidecar next to its place and publish it with the payload. -/
def publish (draws : Draws) (bucket key : String) (tmp_payload final_payload : OsPath) (payload_is_dir : Bool)
    (record : ObjectMeta) : Action Unit := do
  let final_meta := meta_path fs.buckets_dir bucket key
  io (Fs.create_dir_all (parent_dir final_meta))
  let tmp_meta := temp_sibling_path final_meta draws.tmp_meta
  Common.with_guard tmp_meta false do
    io (Fs.write tmp_meta (.json (.object record)))
    Common.publish_temp_payload_and_meta tmp_payload final_payload payload_is_dir tmp_meta final_meta
      draws.backup_payload draws.backup_meta

/-- Encryption metadata, cipher and data key for a new object. -/
def start_encryption (draws : Draws) (req : EncryptionRequest) (aad : Nat → Bytes) :
    Action (EncryptionMeta × FrameCipher) := do
  let enc ← (fs.prepare_encryption P draws req).mapError encryption_error
  let dek ← Prog.lift ((fs.resolve_dek P enc req.customer_key).mapError encryption_error)
  let nonce_prefix ← Prog.lift (required (.EncryptionError "invalid nonce_prefix") (P.b64_decode enc.nonce_prefix))
  pure (enc,{ key := dek, nonce_prefix, aad })

/-- The same when encryption was asked for. -/
def start_sealing (draws : Draws) (encryption : Option EncryptionRequest) (aad : Nat → Bytes) :
    Action (Option (EncryptionMeta × FrameCipher)) :=
  match encryption with
  | some req => do
    let sealing ← fs.start_encryption P draws req aad
    pure (some sealing)
  | none => pure none

/-- A version id when the bucket is versioned. -/
def next_version_id (draws : Draws) (bucket : String) : Action (Option String) := do
  if ← unwrap_or false (fs.is_versioned bucket) then pure (some draws.version_id) else pure none

def folder_marker (draws : Draws) (key : String) : ObjectMeta :=
  new_object_meta key "application/x-directory" 0 (quoted "d41d8cd98f00b204e9800998ecf8427e")
    (P.format_time draws.now) none none none none none

/-- Folder marker: a zero-byte object with a key ending in a slash. -/
def put_folder_marker (draws : Draws) (bucket key : String) : Action PutResult := do
  let folder_dir := join (bucket_dir fs.buckets_dir bucket) (trim_end_slashes key)
  io (Fs.create_dir_all folder_dir)
  io (Fs.write (join folder_dir ".folder") (.bytes []))
  let record := folder_marker P draws key
  io (Fs.write (join folder_dir ".folder.meta.json") (.json (.object record)))
  fs.index_upsert bucket record
  pure { size := 0, etag := record.etag, version_id := none, checksum_algorithm := none, checksum_value := none }

def put_result (record : ObjectMeta) : PutResult where
  size := record.size
  etag := record.etag
  version_id := record.version_id
  checksum_algorithm := record.checksum_algorithm
  checksum_value := record.checksum_value

/-- Store a version of a published object that has a version id. -/
def keep_version (record : ObjectMeta) (write : Action Unit) : Action Unit :=
  if record.version_id.isSome then write else pure ()

/-- What every put ends with once the object is published. -/
def finish_put (bucket : String) (record : ObjectMeta) (write : Action Unit) : Action PutResult := do
  keep_version record write
  fs.index_upsert bucket record
  pure (put_result record)

/-- Make the temporary chunk directory and run `write` under its guard. -/
def in_temp_ec_dir {α : Type} (draws : Draws) (bucket key : String) (write : OsPath → Action α) : Action α := do
  let ec := ec_dir fs.buckets_dir bucket key
  let tmp := temp_sibling_path ec draws.tmp_payload
  Common.with_guard tmp true do
    io (Fs.create_dir_all (parent_dir ec))
    io (Fs.create_dir_all tmp)
    write tmp

/-- Write the chunks next to their place and publish them with their metadata. -/
def store_chunked (draws : Draws) (bucket key content_type : String) (body : ByteStream)
    (checksum_algo : Option ChecksumAlgorithm) : Action ObjectMeta :=
  fs.in_temp_ec_dir draws bucket key fun tmp => do
    let (total_size,chunks) ← pump (write_plain P tmp fs.chunk_size) map_read_quota_error body.reads body.failure
      (0,ChunkWriter.new)
    let chunks ← chunks.finish P tmp
    let storage_format ← fs.write_manifest P tmp chunks total_size none
    let version_id ← fs.next_version_id draws bucket
    let record := new_object_meta key content_type total_size (quoted (hex_encode (P.md5 body.body)))
      (P.format_time draws.now) version_id (some storage_format) checksum_algo
      (checksum_algo.map fun algo => P.b64_encode (P.checksum algo body.body)) none
    fs.publish draws bucket key tmp (ec_dir fs.buckets_dir bucket key) true record
    pure record

def put_object_chunked (draws : Draws) (bucket key content_type : String) (body : ByteStream)
    (checksum_algo : Option ChecksumAlgorithm) : Action PutResult := do
  Prog.lift (validate_bucket_name bucket)
  let record ← fs.store_chunked P draws bucket key content_type body checksum_algo
  fs.finish_put bucket record (fs.write_version_chunked bucket key record)

/-- Encrypt-then-chunk: frames of plaintext are encrypted and the ciphertext is cut into chunks. -/
def store_chunked_encrypted (draws : Draws) (bucket key content_type : String) (body : ByteStream)
    (checksum : ChecksumRequest) (encryption : EncryptionRequest) : Action ObjectMeta :=
  fs.in_temp_ec_dir draws bucket key fun tmp => do
    let version_id ← fs.next_version_id draws bucket
    let (enc,cipher) ← fs.start_encryption P draws encryption (build_frame_aad P bucket key version_id)
    let w ← pump (SealedWriter.write P tmp fs.chunk_size cipher) map_read_quota_error body.reads body.failure
      SealedWriter.new
    let w ← w.finish P tmp fs.chunk_size cipher
    let storage_format ← fs.write_manifest P tmp w.chunks w.chunks.written (some w.size)
    let (ck_algo,ck_val) ← Prog.lift (check_checksum P checksum body.body)
    let record := with_sidecar_mac P (some cipher.key)
      (new_object_meta key content_type w.size (quoted (hex_encode (P.md5 body.body))) (P.format_time draws.now)
        version_id (some storage_format) ck_algo ck_val (some enc))
    fs.publish draws bucket key tmp (ec_dir fs.buckets_dir bucket key) true record
    pure record

def put_object_chunked_encrypted (draws : Draws) (bucket key content_type : String) (body : ByteStream)
    (checksum : ChecksumRequest) (encryption : EncryptionRequest) : Action PutResult := do
  Prog.lift (validate_bucket_name bucket)
  let record ← fs.store_chunked_encrypted P draws bucket key content_type body checksum encryption
  fs.finish_put bucket record (fs.write_version_chunked bucket key record)

/-- Write the payload file next to its place and publish it with its metadata. -/
def store_flat (draws : Draws) (bucket key content_type : String) (body : ByteStream) (checksum : ChecksumRequest)
    (version_id : Option String) (sealing : Option (EncryptionMeta × FrameCipher)) : Action ObjectMeta := do
  let cipher := sealing.map Prod.snd
  let obj_path := object_path fs.buckets_dir bucket key
  io (Fs.create_dir_all (parent_dir obj_path))
  let tmp := temp_sibling_path obj_path draws.tmp_payload
  Common.with_guard tmp false do
    io (Fs.write tmp (.bytes []))
    let w ← pump (FlatWriter.write P tmp cipher) map_read_quota_error body.reads body.failure FlatWriter.new
    let w ← w.finish P tmp cipher
    let (checksum_algorithm,checksum_value) ← Prog.lift (check_checksum P checksum body.body)
    let default_lock ← fs.resolve_default_object_lock P draws.now bucket
    let record := with_sidecar_mac P (cipher.map FrameCipher.key)
      (apply_object_lock (new_object_meta key content_type w.size (quoted (hex_encode (P.md5 body.body)))
        (P.format_time draws.now) version_id none checksum_algorithm checksum_value (sealing.map Prod.fst))
        default_lock)
    fs.publish draws bucket key tmp obj_path false record
    pure record

/-- The flat layout: one payload file, plain or made of encrypted frames. -/
def put_object_flat (draws : Draws) (bucket key content_type : String) (body : ByteStream)
    (checksum : ChecksumRequest) (encryption : Option EncryptionRequest) : Action PutResult := do
  let version_id ← fs.next_version_id draws bucket
  let sealing ← fs.start_sealing P draws encryption (build_frame_aad P bucket key version_id)
  let record ← fs.store_flat P draws bucket key content_type body checksum version_id sealing
  fs.finish_put bucket record (fs.write_version bucket key record (object_path fs.buckets_dir bucket key))

def put_object (draws : Draws) (bucket key content_type : String) (body : ByteStream) (checksum : ChecksumRequest)
    (encryption : Option EncryptionRequest) (declared_size : Option Nat) : Action PutResult := do
  Prog.lift (validate_bucket_name bucket)
  Prog.lift (validate_key key)
  fs.ensure_can_overwrite P draws.now bucket key
  Prog.lift (fs.check_upload_start draws declared_size)
  let body := fs.wrap_upload_reader draws body
  if ends_with key "/" then fs.put_folder_marker P draws bucket key
  else if ← fs.effective_erasure_coding bucket then
    match encryption with
    | some req => fs.put_object_chunked_encrypted P draws bucket key content_type body checksum req
    | none => fs.put_object_chunked P draws bucket key content_type body (checksum.map Prod.fst)
  else fs.put_object_flat P draws bucket key content_type body checksum encryption

/-! ### Reading -/

def map_chunk_read_error (err : IoError) : StorageError := .IntegrityError err.text

def preflight_chunk_reader (reader : VerifiedChunkReader) : Except StorageError VerifiedChunkReader :=
  (reader.preflight P).mapError map_chunk_read_error

def preflight_frame_decryptor {σ : Type} (poll : Poll σ IoError UInt8) (d : FrameDecryptor σ) :
    Except StorageError (FrameDecryptor σ) :=
  (d.preflight P poll).mapError fun e => .DecryptionError e.text

def is_chunked_path (p : OsPath) : Action Bool := unwrap_or false (Fs.is_dir p)

def read_manifest (path : OsPath) (missing : StorageError) : Action ChunkManifest := do
  let data ← or_not_found missing (Fs.read path)
  Prog.lift (from_json asManifest data)

/-- Open a payload file for reading; the position of the next read and its content. -/
def open_file (path : OsPath) (missing : StorageError) (offset : Nat) : Action (FileReader UInt8) := do
  let content ← or_not_found missing (Fs.read path)
  pure { data := P.bytes content, pos := offset, grant := P.file_grant }

/-- The data key of an encrypted object, after its metadata passed the MAC. -/
def verified_dek (record : ObjectMeta) (enc : EncryptionMeta) (customer_key : Option Bytes) :
    Except StorageError Bytes := do
  let dek ← fs.resolve_dek P enc customer_key
  verify_sidecar_mac P record dek
  .ok dek

/-- The reader of a whole chunked payload, under its metadata. -/
def open_chunked (bucket key : String) (dir manifest_file : OsPath) (missing : StorageError) (record : ObjectMeta)
    (customer_key : Option Bytes) : Action ObjectReader := do
  let manifest ← read_manifest manifest_file missing
  let disk ← Prog.ask World.tree
  match record.encryption with
  | some enc => do
    let dek ← Prog.lift (fs.verified_dek P record enc customer_key)
    let ct_reader ← Prog.lift (preflight_chunk_reader P (.new disk dir manifest))
    let decryptor ← Prog.lift (preflight_frame_decryptor P (VerifiedChunkReader.poll_read P)
      (.new ct_reader dek record.size enc.chunk_size (build_frame_aad P bucket key record.version_id)))
    pure (.decrypted_chunks decryptor)
  | none => do
    let reader ← Prog.lift (preflight_chunk_reader P (.new disk dir manifest))
    pure (.chunks reader)

/-- The reader of a whole encrypted payload file. -/
def open_encrypted_file (bucket key : String) (path : OsPath) (missing : StorageError) (record : ObjectMeta)
    (enc : EncryptionMeta) (customer_key : Option Bytes) : Action ObjectReader := do
  let dek ← Prog.lift (fs.verified_dek P record enc customer_key)
  let file ← open_file P path missing 0
  let decryptor ← Prog.lift (preflight_frame_decryptor P FileReader.poll_read
    (.new file dek record.size enc.chunk_size (build_frame_aad P bucket key record.version_id)))
  pure (.decrypted_file decryptor)

def get_object (bucket key : String) (customer_key : Option Bytes) : Action (ObjectReader × ObjectMeta) := do
  Prog.lift (validate_bucket_name bucket)
  Prog.lift (validate_key key)
  let record ← fs.read_object_meta bucket key
  Prog.lift (reject_sse_c_on_plaintext record customer_key.isSome)
  let ec := ec_dir fs.buckets_dir bucket key
  if ← is_chunked_path ec then do
    let reader ← fs.open_chunked P bucket key ec (manifest_path fs.buckets_dir bucket key) (.NotFound key) record
      customer_key
    pure (reader,record)
  else
    let obj_path := object_path fs.buckets_dir bucket key
    match record.encryption with
    | some enc => do
      let reader ← fs.open_encrypted_file P bucket key obj_path (.NotFound key) record enc customer_key
      pure (reader,record)
    | none => do
      let file ← open_file P obj_path (.NotFound key) 0
      if record.size ≤ SMALL_OBJECT_THRESHOLD then pure (.in_memory file.data,record)
      else pure (.file file,record)

/-- `read_exact` of a range from an open file. -/
def read_exact (file : FileReader UInt8) (length : Nat) : Except StorageError Bytes :=
  let data := (file.data.drop file.pos).take length
  if data.length < length then .error (.Io (.custom .UnexpectedEof "early eof"))
  else .ok data

def get_object_range (bucket key : String) (offset length : Nat) (customer_key : Option Bytes) :
    Action (ObjectReader × ObjectMeta) := do
  Prog.lift (validate_bucket_name bucket)
  Prog.lift (validate_key key)
  let record ← fs.read_object_meta bucket key
  Prog.lift (reject_sse_c_on_plaintext record customer_key.isSome)
  let aad := build_frame_aad P bucket key record.version_id
  let ec := ec_dir fs.buckets_dir bucket key
  if ← is_chunked_path ec then do
    let manifest ← read_manifest (manifest_path fs.buckets_dir bucket key) (.NotFound key)
    let disk ← Prog.ask World.tree
    match record.encryption with
    | some enc => do
      let dek ← Prog.lift (fs.verified_dek P record enc customer_key)
      let ct_offset := FrameDecryptor.ciphertext_offset enc.chunk_size offset
      let ct_length := manifest.total_size - ct_offset
      let ct_reader ← Prog.lift (preflight_chunk_reader P (.with_range disk ec manifest ct_offset ct_length))
      pure (.decrypted_chunks (.for_range ct_reader dek record.size enc.chunk_size offset length aad),record)
    | none => do
      let reader ← Prog.lift (preflight_chunk_reader P (.with_range disk ec manifest offset length))
      pure (.chunks reader,record)
  else
    let obj_path := object_path fs.buckets_dir bucket key
    match record.encryption with
    | some enc => do
      let dek ← Prog.lift (fs.verified_dek P record enc customer_key)
      let file ← open_file P obj_path (.NotFound key) (FrameDecryptor.ciphertext_offset enc.chunk_size offset)
      pure (.decrypted_file (.for_range file dek record.size enc.chunk_size offset length aad),record)
    | none => do
      let file ← open_file P obj_path (.NotFound key) offset
      if length ≤ SMALL_OBJECT_THRESHOLD then do
        let data ← Prog.lift (read_exact file length)
        pure (.in_memory data,record)
      else pure (.limited { inner := file, limit := length },record)

def head_object (bucket key : String) : Action ObjectMeta := do
  Prog.lift (validate_bucket_name bucket)
  Prog.lift (validate_key key)
  fs.read_object_meta bucket key

/-! ### Deletion -/

/-- Remove the empty directories from `dir` upwards, but not the bucket's own. -/
def remove_empty_parents (stop : OsPath) : Nat → OsPath → Action Unit
  | 0,_ => pure ()
  | depth + 1,dir =>
    if dir = stop then pure ()
    else do
      match ← Prog.attempt (Fs.remove_dir dir) with
      | .ok () => remove_empty_parents stop depth (parent_dir dir)
      | .error _ => pure ()

def delete_object (draws : Draws) (bucket key : String) : Action DeleteResult := do
  Prog.lift (validate_bucket_name bucket)
  Prog.lift (validate_key key)
  let obj_path := object_path fs.buckets_dir bucket key
  let meta_file := meta_path fs.buckets_dir bucket key
  let ec := ec_dir fs.buckets_dir bucket key
  if ← unwrap_or false (fs.is_versioned bucket) then do
    if ← unwrap_or false (Fs.try_exists meta_file) then do
      let record ← fs.read_object_meta bucket key
      Prog.lift (ensure_can_delete_meta P draws.now record)
    fs.write_delete_marker P draws bucket key
  else
    let present ← do
      if ← io (Fs.try_exists meta_file) then pure true
      else if ← io (Fs.try_exists obj_path) then pure true
      else io (Fs.try_exists ec)
    if !present then pure { version_id := none, is_delete_marker := false }
    else
      if ← io (Fs.try_exists meta_file) then do
        let record ← fs.read_object_meta bucket key
        Prog.lift (ensure_can_delete_meta P draws.now record)
      Common.remove_file_if_exists obj_path
      Common.remove_file_if_exists meta_file
      Common.remove_dir_all_if_exists ec
      fs.index_remove bucket key
      remove_empty_parents (bucket_dir fs.buckets_dir bucket) obj_path.length (parent_dir obj_path)
      pure { version_id := none, is_delete_marker := false }

end FilesystemStorage
end
end Maxio
