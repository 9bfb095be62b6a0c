import Maxio.ObjectIo

/-!
Multipart uploads: parts are collected under `.uploads` and recombined into an object on completion.
-/

namespace Maxio
open Reading (Poll FileReader)

/-- The pieces a source is read in with one fixed buffer, until its end or an error. -/
def read_pieces {σ : Type} (poll : Poll σ IoError UInt8) (cap : Nat) : Nat → σ → List Bytes × Option IoError
  | 0,_ => ([],none)
  | turns + 1,s => match poll s cap with
    | .error e => ([],some e)
    | .ok ([],_) => ([],none)
    | .ok (piece,s') =>
      let (pieces,failure) := read_pieces poll cap turns s'
      (piece :: pieces,failure)

/-- `str::trim_matches('"')`. -/
def trim_quotes (s : String) : String :=
  String.ofList ((s.toList.dropWhile (· = '"')).reverse.dropWhile (· = '"')).reverse

section
variable (P : Primitives)

namespace FilesystemStorage
variable (fs : FilesystemStorage)

def read_upload_meta (bucket upload_id : String) : Action MultipartUploadMeta := do
  let data ← or_not_found (.UploadNotFound upload_id) (Fs.read (upload_meta_path fs.buckets_dir bucket upload_id))
  Prog.lift (from_json asUpload data)

def read_part_meta (bucket upload_id : String) (part_number : Nat) : Action PartMeta := do
  let data ← or_not_found (.InvalidKey ("missing part " ++ toString part_number))
    (Fs.read (part_meta_path fs.buckets_dir bucket upload_id part_number))
  Prog.lift (from_json asPart data)

/-- Give the upload a data key and nonce prefix of its own. SSE-C uses the customer key itself. -/
def augment_spec (draws : Draws) (spec : UploadEncryptionSpec) : Action UploadEncryptionSpec := do
  let spec := { spec with upload_nonce_prefix := P.b64_encode draws.nonce_prefix }
  match spec.mode with
  | .SseS3 => do
    let wrapped ← fs.keyring.wrap_dek P fs.keyring.active_id draws.dek draws.wrap_nonce
    pure { spec with
      upload_dek_wrapped := some (P.b64_encode wrapped)
      upload_dek_wrap_nonce := some (P.b64_encode draws.wrap_nonce)
      upload_dek_key_id := some fs.keyring.active_id }
  | .SseKms => match fs.kms with
    | none => Prog.fail (.EncryptionError "SSE-KMS not configured")
    | some kms => do
      let (kms_key_id,ciphertext) ← kms.generate_data_key P spec.kms_key_id draws.dek draws.wrap_nonce
      pure { spec with
        upload_dek_wrapped := some (P.b64_encode ciphertext)
        upload_dek_wrap_nonce := some (P.b64_encode draws.wrap_nonce)
        kms_key_id := some kms_key_id }
  | .SseC => pure spec

def create_multipart_upload (draws : Draws) (bucket key content_type : String)
    (checksum_algorithm : Option ChecksumAlgorithm) (encryption_spec : Option UploadEncryptionSpec) :
    Action MultipartUploadMeta := do
  Prog.lift (validate_bucket_name bucket)
  Prog.lift (validate_key key)
  io (Fs.create_dir_all (upload_dir fs.buckets_dir bucket draws.upload_id))
  let encryption_spec ← match encryption_spec with
    | some spec => do
      let spec ← fs.augment_spec P draws spec
      pure (some spec)
    | none => pure none
  let record : MultipartUploadMeta := {
    upload_id := draws.upload_id, bucket, key, content_type, initiated := P.format_time draws.now,
    checksum_algorithm, encryption_spec }
  io (Fs.write (upload_meta_path fs.buckets_dir bucket draws.upload_id) (.json (.upload record)))
  pure record

/-- The cipher of an upload's parts. The frame counter starts at zero in every part. -/
def part_cipher (spec : UploadEncryptionSpec) (upload_id : String) (part_number : Nat)
    (customer_key : Option Bytes) : Except StorageError FrameCipher := do
  let dek ← fs.resolve_upload_dek P spec customer_key
  let nonce_prefix ← required (.EncryptionError "invalid upload_nonce_prefix")
    (P.b64_decode spec.upload_nonce_prefix)
  if nonce_prefix.length ≠ 4 ∧ nonce_prefix.length ≠ 8 then
    .error (.EncryptionError "upload_nonce_prefix must be 4 or 8 bytes")
  else .ok { key := dek, nonce_prefix, aad := build_part_aad P upload_id part_number }

def upload_part (draws : Draws) (bucket upload_id : String) (part_number : Nat) (body : ByteStream)
    (checksum : ChecksumRequest) (customer_key : Option Bytes) (declared_size : Option Nat) : Action PartMeta := do
  Prog.lift (validate_bucket_name bucket)
  Prog.lift (validate_upload_id upload_id)
  Prog.lift (fs.check_upload_start draws declared_size)
  let body := fs.wrap_upload_reader draws body
  if part_number = 0 ∨ part_number > 10000 then Prog.fail (.InvalidKey "part number must be 1..=10000")
  else if !(← io (Fs.try_exists (upload_dir fs.buckets_dir bucket upload_id))) then
    Prog.fail (.UploadNotFound upload_id)
  else
    let upload ← fs.read_upload_meta bucket upload_id
    let cipher ← match upload.encryption_spec with
      | some spec => do
        let cipher ← Prog.lift (fs.part_cipher P spec upload_id part_number customer_key)
        pure (some cipher)
      | none => pure none
    let path := part_path fs.buckets_dir bucket upload_id part_number
    io (Fs.write path (.bytes []))
    let w ← pump (FlatWriter.write P path cipher) map_read_quota_error body.reads body.failure FlatWriter.new
    let w ← w.finish P path cipher
    match check_checksum P checksum body.body with
    | .error e => do
      ignore (Fs.remove_file path)
      Prog.fail e
    | .ok (checksum_algorithm,checksum_value) => do
      let ciphertext_size ← if cipher.isSome then do
          let content ← io (Fs.read path)
          pure (some (P.bytes content).length)
        else pure none
      let record : PartMeta := {
        part_number, etag := quoted (hex_encode (P.md5 body.body)), size := w.size,
        last_modified := P.format_time draws.now, checksum_algorithm, checksum_value,
        encrypted := cipher.isSome, ciphertext_size }
      match ← Prog.attempt (Fs.write (part_meta_path fs.buckets_dir bucket upload_id part_number)
          (.json (.part record))) with
      | .error e => do
        ignore (Fs.remove_file path)
        Prog.fail (.Io e)
      | .ok () => pure record

/-! ### Completion -/

/-- The parts named in the request, checked against their stored metadata. -/
def select_parts (bucket upload_id : String) : List (Nat × String) → Action (List PartMeta)
  | [] => pure []
  | (part_number,requested_etag) :: rest => do
    let record ← fs.read_part_meta bucket upload_id part_number
    if record.etag ≠ requested_etag then
      Prog.fail (.InvalidKey ("etag mismatch for part " ++ toString part_number))
    else if rest ≠ [] ∧ record.size < 5 * 1024 * 1024 then Prog.fail (.InvalidKey "part too small")
    else
      let records ← select_parts bucket upload_id rest
      pure (record :: records)

/-- SSE-C: the key on completion has to be the one declared at creation. -/
def check_customer_key (spec : UploadEncryptionSpec) (customer_key : Option Bytes) : Except StorageError Unit :=
  if spec.mode = .SseC then do
    let ck ← required (.EncryptionError "SSE-C requires customer key on CompleteMultipartUpload") customer_key
    match spec.customer_key_md5 with
    | some stored =>
      if P.b64_encode (P.md5 ck) ≠ stored then
        .error (.EncryptionError "SSE-C key changed between Create and Complete")
      else .ok ()
    | none => .ok ()
  else .ok ()

/-- Every part has to agree with the upload on being encrypted. -/
def check_encrypted_flags (upload_is_encrypted : Bool) : List PartMeta → Except StorageError Unit
  | [] => .ok ()
  | part :: rest =>
    if part.encrypted ≠ upload_is_encrypted then
      .error (.IntegrityError ("part " ++ toString part.part_number ++ " encryption flag (" ++
        toString part.encrypted ++ ") disagrees with upload spec (" ++ toString upload_is_encrypted ++
        ") — part meta may be tampered"))
    else check_encrypted_flags upload_is_encrypted rest

/-- The request that encrypts the completed object as its upload was. -/
def completion_request (spec : UploadEncryptionSpec) (customer_key : Option Bytes) :
    Except StorageError EncryptionRequest :=
  match spec.mode with
  | .SseS3 => .ok .sse_s3
  | .SseC => do
    let ck ← required (.EncryptionError "SSE-C requires customer key on CompleteMultipartUpload") customer_key
    .ok (.sse_c ck)
  | .SseKms => .ok (.sse_kms spec.kms_key_id)

/-- The pieces one part is read back in: from its file, or decrypted with the upload's key. -/
def part_reads (bucket upload_id : String) (upload_dek : Option Bytes) (part : PartMeta) :
    Action (List Bytes × Option IoError) := do
  let path := part_path fs.buckets_dir bucket upload_id part.part_number
  if part.encrypted then
    match upload_dek with
    | none => Prog.fail (.EncryptionError "encrypted part but upload spec has no DEK")
    | some dek => do
      let content ← io (Fs.read path)
      let file : FileReader UInt8 := { data := P.bytes content, pos := 0, grant := P.file_grant }
      pure (read_pieces (FrameDecryptor.poll_read P FileReader.poll_read) IO_BUFFER_SIZE (part.size + 1)
        (.new file dek part.size FRAME_CHUNK_SIZE (build_part_aad P upload_id part.part_number)))
  else do
    let content ← io (Fs.read path)
    let file : FileReader UInt8 := { data := P.bytes content, pos := 0, grant := P.file_grant }
    pure (read_pieces FileReader.poll_read IO_BUFFER_SIZE ((P.bytes content).length + 1) file)

/-- Read every selected part into a writer; the raw digests of the parts, concatenated. -/
def pump_parts {α : Type} (bucket upload_id : String) (upload_dek : Option Bytes)
    (write : α → Bytes → Action α) : α → Bytes → List PartMeta → Action (α × Bytes)
  | w,digests,[] => pure (w,digests)
  | w,digests,part :: rest => do
    let (reads,failure) ← fs.part_reads P bucket upload_id upload_dek part
    let w ← pump write .Io reads failure w
    match hex_decode (trim_quotes part.etag) with
    | none => Prog.fail (.InvalidKey "invalid part etag")
    | some raw_md5 => pump_parts bucket upload_id upload_dek write w (digests ++ raw_md5) rest

def multipart_etag (digests : Bytes) (count : Nat) : String :=
  quoted (hex_encode (P.md5 digests) ++ "-" ++ toString count)

/-- Checksum of the part checksums, when the upload named an algorithm. -/
def composite_checksum (algorithm : Option ChecksumAlgorithm) (selected : List PartMeta) :
    Option ChecksumAlgorithm × Option String :=
  match algorithm with
  | none => (none,none)
  | some algo =>
    let raw := (selected.filterMap fun part => part.checksum_value.bind P.b64_decode).flatten
    if raw = [] then (some algo,none)
    else (some algo,some (P.b64_encode (P.checksum algo raw) ++ "-" ++ toString selected.length))

def completed_meta (draws : Draws) (upload : MultipartUploadMeta) (selected : List PartMeta) (digests : Bytes)
    (size : Nat) (version_id storage_format : Option String) (encryption : Option EncryptionMeta) : ObjectMeta :=
  let (checksum_algorithm,checksum_value) := composite_checksum P upload.checksum_algorithm selected
  { new_object_meta upload.key upload.content_type size (multipart_etag P digests selected.length)
      (P.format_time draws.now) version_id storage_format checksum_algorithm checksum_value encryption with
    part_sizes := some (selected.map PartMeta.size) }

/-- What every completion ends with once the object is published. -/
def finish_complete (bucket upload_id : String) (record : ObjectMeta) (write : Action Unit) : Action PutResult := do
  keep_version record write
  io (Fs.remove_dir_all (upload_dir fs.buckets_dir bucket upload_id))
  fs.index_upsert bucket record
  pure (put_result record)

/-- Write the chunks of the parts next to their place and publish them with their metadata. -/
def store_completed_chunked (draws : Draws) (bucket upload_id : String) (upload : MultipartUploadMeta)
    (selected : List PartMeta) : Action ObjectMeta :=
  fs.in_temp_ec_dir draws bucket upload.key fun tmp => do
    let version_id ← fs.next_version_id draws bucket
    -- parts are read from their files as they are, whatever their `encrypted` flag says
    let ((total_size,chunks),digests) ← fs.pump_parts P bucket upload_id none (write_plain P tmp fs.chunk_size)
      (0,ChunkWriter.new) [] (selected.map fun part => { part with encrypted := false })
    let chunks ← chunks.finish P tmp
    let storage_format ← fs.write_manifest P tmp chunks total_size none
    let record := completed_meta P draws upload selected digests total_size version_id (some storage_format) none
    fs.publish draws bucket upload.key tmp (ec_dir fs.buckets_dir bucket upload.key) true record
    pure record

def complete_multipart_chunked (draws : Draws) (bucket upload_id : String) (upload : MultipartUploadMeta)
    (selected : List PartMeta) : Action PutResult := do
  let record ← fs.store_completed_chunked P draws bucket upload_id upload selected
  fs.finish_complete bucket upload_id record (fs.write_version_chunked bucket upload.key record)

/-- Decrypt each part with the upload's key and encrypt the recombined stream under a fresh one, in chunks. -/
def store_completed_chunked_encrypted (draws : Draws) (bucket upload_id : String) (upload : MultipartUploadMeta)
    (spec : UploadEncryptionSpec) (selected : List PartMeta) (customer_key : Option Bytes) : Action ObjectMeta :=
  fs.in_temp_ec_dir draws bucket upload.key fun tmp => do
    let version_id ← fs.next_version_id draws bucket
    let upload_dek ← Prog.lift (fs.resolve_upload_dek P spec customer_key)
    let req ← Prog.lift (completion_request spec customer_key)
    let enc ← (fs.prepare_encryption P draws req).mapError encryption_error
    let dek ← Prog.lift ((fs.resolve_dek P enc customer_key).mapError encryption_error)
    let nonce_prefix ← Prog.lift (required (.EncryptionError "invalid nonce_prefix") (P.b64_decode enc.nonce_prefix))
    let cipher : FrameCipher := { key := dek, nonce_prefix, aad := build_frame_aad P bucket upload.key version_id }
    let (w,digests) ← fs.pump_parts P bucket upload_id (some upload_dek)
      (SealedWriter.write P tmp fs.chunk_size cipher) SealedWriter.new [] selected
    let w ← w.finish P tmp fs.chunk_size cipher
    let storage_format ← fs.write_manifest P tmp w.chunks w.chunks.written (some w.size)
    let record := with_sidecar_mac P (some dek)
      (completed_meta P draws upload selected digests w.size version_id (some storage_format) (some enc))
    fs.publish draws bucket upload.key tmp (ec_dir fs.buckets_dir bucket upload.key) true record
    pure record

def complete_multipart_chunked_encrypted (draws : Draws) (bucket upload_id : String) (upload : MultipartUploadMeta)
    (spec : UploadEncryptionSpec) (selected : List PartMeta) (customer_key : Option Bytes) : Action PutResult := do
  let record ← fs.store_completed_chunked_encrypted P draws bucket upload_id upload spec selected customer_key
  fs.finish_complete bucket upload_id record (fs.write_version_chunked bucket upload.key record)

/-- The key the parts were encrypted with. -/
def upload_key (encryption_spec : Option UploadEncryptionSpec) (customer_key : Option Bytes) :
    Except StorageError (Option Bytes) :=
  match encryption_spec with
  | some spec => do
    let dek ← fs.resolve_upload_dek P spec customer_key
    .ok (some dek)
  | none => .ok none

/-- Fresh encryption metadata, data key and nonce prefix for the completed object. -/
def completion_sealing (draws : Draws) (encryption_spec : Option UploadEncryptionSpec) (customer_key : Option Bytes) :
    Action (Option (EncryptionMeta × Bytes × Bytes)) :=
  match encryption_spec with
  | some spec => do
    let req ← Prog.lift (completion_request spec customer_key)
    let enc ← (fs.prepare_encryption P draws req).mapError encryption_error
    let dek ← Prog.lift (fs.resolve_dek P enc customer_key)
    let nonce_prefix ← Prog.lift (required (.EncryptionError "invalid nonce_prefix") (P.b64_decode enc.nonce_prefix))
    pure (some (enc,dek, nonce_prefix))
  | none => pure none

/-- Write the parts into the payload file next to its place and publish it with its metadata. -/
def store_completed (draws : Draws) (bucket upload_id : String) (upload : MultipartUploadMeta)
    (selected : List PartMeta) (upload_dek : Option Bytes) (version_id : Option String)
    (sealing : Option (EncryptionMeta × Bytes × Bytes)) : Action ObjectMeta := do
  let cipher : Option FrameCipher := sealing.map fun s =>
    { key := s.2.1, nonce_prefix := s.2.2, aad := build_frame_aad P bucket upload.key version_id }
  let obj_path := object_path fs.buckets_dir bucket upload.key
  io (Fs.create_dir_all (parent_dir obj_path))
  let tmp := temp_sibling_path obj_path draws.tmp_payload
  Common.with_guard tmp false do
    io (Fs.write tmp (.bytes []))
    let (w,digests) ← fs.pump_parts P bucket upload_id upload_dek (FlatWriter.write P tmp cipher) FlatWriter.new []
      selected
    let w ← w.finish P tmp cipher
    let record := with_sidecar_mac P (cipher.map FrameCipher.key)
      (completed_meta P draws upload selected digests w.size version_id none (sealing.map Prod.fst))
    fs.publish draws bucket upload.key tmp obj_path false record
    pure record

/-- Completion in the flat layout, plain or encrypted under a fresh data key. -/
def complete_multipart_flat (draws : Draws) (bucket upload_id : String) (upload : MultipartUploadMeta)
    (selected : List PartMeta) (customer_key : Option Bytes) : Action PutResult := do
  Prog.lift (match upload.encryption_spec with
    | some spec => check_customer_key P spec customer_key
    | none => .ok ())
  Prog.lift (check_encrypted_flags upload.encryption_spec.isSome selected)
  let upload_dek ← Prog.lift (fs.upload_key P upload.encryption_spec customer_key)
  let sealing ← fs.completion_sealing P draws upload.encryption_spec customer_key
  let version_id ← fs.next_version_id draws bucket
  let record ← fs.store_completed P draws bucket upload_id upload selected upload_dek version_id sealing
  fs.finish_complete bucket upload_id record
    (fs.write_version bucket upload.key record (object_path fs.buckets_dir bucket upload.key))

def complete_multipart_upload (draws : Draws) (bucket upload_id : String) (parts : List (Nat × String))
    (customer_key : Option Bytes) : Action PutResult := do
  Prog.lift (validate_bucket_name bucket)
  Prog.lift (validate_upload_id upload_id)
  if parts = [] then Prog.fail (.InvalidKey "at least one part is required to complete upload")
  else
    let upload ← fs.read_upload_meta bucket upload_id
    fs.ensure_can_overwrite P draws.now bucket upload.key
    let selected ← fs.select_parts bucket upload_id parts
    Prog.lift (fs.quota.check_object_size (selected.map PartMeta.size).sum)
    Prog.lift (fs.quota.check_disk_reserve (draws.available_disk_bytes 0))
    if ← fs.effective_erasure_coding bucket then
      match upload.encryption_spec with
      | some spec => do
        Prog.lift (check_customer_key P spec customer_key)
        Prog.lift (check_encrypted_flags true selected)
        fs.complete_multipart_chunked_encrypted P draws bucket upload_id upload spec selected customer_key
      | none => fs.complete_multipart_chunked P draws bucket upload_id upload selected
    else fs.complete_multipart_flat P draws bucket upload_id upload selected customer_key

def abort_multipart_upload (bucket upload_id : String) : Action Unit := do
  Prog.lift (validate_bucket_name bucket)
  Prog.lift (validate_upload_id upload_id)
  let dir := upload_dir fs.buckets_dir bucket upload_id
  if !(← io (Fs.try_exists dir)) then Prog.fail (.UploadNotFound upload_id)
  else io (Fs.remove_dir_all dir)

end FilesystemStorage
end
end Maxio
