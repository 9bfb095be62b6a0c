import Maxio.CompletionSpec
import Maxio.UploadRequests

/-!
Which places the operations on an upload can touch, whatever their outcome: the directory of the upload, and for a
completion the places of the key in the upload's record.
-/

set_option linter.unusedSimpArgs false

namespace Maxio
open FileTree (Node Tree)

/-- In the directory of an upload. -/
def InUpload (fs : FilesystemStorage) (bucket upload_id : String) (q : OsPath) : Prop := uploadAt fs bucket upload_id <+: q

theorem contains_singleton {s : String} {c : Char} (absent : contains s (String.singleton c) = false) : c ∉ s.toList := by
  intro member
  obtain ⟨front,rest,spelled⟩ := List.append_of_mem member
  have tail : c :: rest ∈ s.toList.tails := by
    rw [List.mem_tails,spelled]
    exact List.suffix_append _ _
  have found : contains s (String.singleton c) = true := List.any_eq_true.mpr ⟨_,tail,by simp⟩
  rw [absent] at found
  cases found

/-- An accepted id other than a single dot names a directory. -/
theorem namesUpload_of_validate {upload_id : String} (valid : validate_upload_id upload_id = .ok ())
    (proper : upload_id ≠ ".") : NamesUpload upload_id := by
  unfold validate_upload_id at valid
  split at valid
  next => cases valid
  next filled =>
    split at valid
    next => cases valid
    next plain =>
      simp only [Bool.or_eq_true,not_or,Bool.not_eq_true] at plain
      refine ⟨contains_singleton plain.1.1,by simp [skipped,filled,proper],?_⟩
      rintro rfl
      exact absurd plain.2 (by decide)

/-! ### The second half of `upload_part` -/

namespace FilesystemStorage
variable (P : Primitives) (fs : FilesystemStorage)

/-- The end of `upload_part`: measure the ciphertext and write the record. -/
def write_part_record (draws : Draws) (bucket upload_id : String) (part_number : Nat) (body : ByteStream)
    (checksum_algorithm : Option ChecksumAlgorithm) (checksum_value : Option String) (sealed : Bool) (size : Nat) :
    Action PartMeta := do
  let path := part_path fs.buckets_dir bucket upload_id part_number
  let ciphertext_size ← if sealed then do
      let content ← io (Fs.read path)
      pure (some (P.bytes content).length)
    else pure none
  let record : PartMeta := {
    part_number, etag := quoted (hex_encode (P.md5 body.body)), size, last_modified := P.format_time draws.now,
    checksum_algorithm, checksum_value, encrypted := sealed, ciphertext_size }
  match ← Prog.attempt (Fs.write (part_meta_path fs.buckets_dir bucket upload_id part_number) (.json (.part record))) with
  | .error e => do
    ignore (Fs.remove_file path)
    Prog.fail (.Io e)
  | .ok () => pure record

/-- What `upload_part` does once it has the cipher: write the payload, check it, and write the record. -/
def write_part (draws : Draws) (bucket upload_id : String) (part_number : Nat) (body : ByteStream)
    (checksum : ChecksumRequest) (cipher : Option FrameCipher) : Action PartMeta := do
  let path := part_path fs.buckets_dir bucket upload_id part_number
  io (Fs.write path (.bytes []))
  let w ← pump (FlatWriter.write P path cipher) map_read_quota_error body.reads body.failure FlatWriter.new
  let w ← w.finish P path cipher
  match check_checksum P checksum body.body with
  | .error e => do
    ignore (Fs.remove_file path)
    Prog.fail e
  | .ok (checksum_algorithm,checksum_value) =>
    fs.write_part_record P draws bucket upload_id part_number body checksum_algorithm checksum_value cipher.isSome w.size

theorem upload_part_eq (draws : Draws) (bucket upload_id : String) (part_number : Nat) (body : ByteStream)
    (checksum : ChecksumRequest) (customer_key : Option Bytes) (declared_size : Option Nat) :
    fs.upload_part P draws bucket upload_id part_number body checksum customer_key declared_size = (do
      Prog.lift (validate_bucket_name bucket)
      Prog.lift (validate_upload_id upload_id)
      Prog.lift (fs.check_upload_start draws declared_size)
      if part_number = 0 ∨ part_number > 10000 then Prog.fail (.InvalidKey "part number must be 1..=10000")
      else if !(← io (Fs.try_exists (upload_dir fs.buckets_dir bucket upload_id))) then
        Prog.fail (.UploadNotFound upload_id)
      else
        let upload ← fs.read_upload_meta bucket upload_id
        let cipher ← Prog.lift (partCipher P fs upload upload_id customer_key part_number)
        fs.write_part P draws bucket upload_id part_number (fs.wrap_upload_reader draws body) checksum cipher) := by
  unfold upload_part
  refine congrArg _ (funext fun _ => congrArg _ (funext fun _ => congrArg _ (funext fun _ => ?_)))
  refine ite_congr rfl (fun _ => rfl) fun _ => ?_
  refine congrArg _ (funext fun found => ite_congr rfl (fun _ => rfl) fun _ => ?_)
  refine congrArg _ (funext fun upload => ?_)
  cases has : upload.encryption_spec with
  | none =>
    simp only [partCipher,has]
    rfl
  | some spec =>
    simp only [partCipher,has]
    cases fs.part_cipher P spec upload_id part_number customer_key with
    | error e => rfl
    | ok cipher => rfl

end FilesystemStorage

section Footprints
variable {P : Primitives} {fs : FilesystemStorage} {bucket upload_id : String} {draws : Draws} {G : OsPath → Prop}

section Upload
variable (valid : ValidBucket bucket) (names : NamesUpload upload_id)
include valid names

theorem part_inside (number : Nat) : InUpload fs bucket upload_id (canon (part_path fs.buckets_dir bucket upload_id number)) := by
  rw [(part_leads valid names number).names]
  exact List.prefix_append _ _

theorem give_up_part_frames {α : Type} (number : Nat) (e : StorageError) : Frames (InUpload fs bucket upload_id) G (do
    ignore (Fs.remove_file (part_path fs.buckets_dir bucket upload_id number))
    Prog.fail e : Action α) :=
  Frames.bind (Frames.ignore (Fs.frames_remove_file (part_leads valid names number).entry.forward
    fun _ => part_inside valid names number)) fun _ => Frames.fail _

theorem write_part_record_frames (number : Nat) (body : ByteStream) (algorithm : Option ChecksumAlgorithm)
    (value : Option String) (sealed : Bool) (size : Nat) : Frames (InUpload fs bucket upload_id) G
      (fs.write_part_record P draws bucket upload_id number body algorithm value sealed size) := by
  have side := @part_record_leads fs _ _ valid names number
  have record (r : PartMeta) : Frames (InUpload fs bucket upload_id) G (do
      match ← Prog.attempt (Fs.write (part_meta_path fs.buckets_dir bucket upload_id number) (.json (.part r))) with
      | .error e => do
        ignore (Fs.remove_file (part_path fs.buckets_dir bucket upload_id number))
        Prog.fail (.Io e)
      | .ok () => pure r : Action PartMeta) := by
    refine Frames.bind (Frames.attempt (Fs.frames_write side.entry.forward (fun _ => ?_) _)) fun written => ?_
    · rw [side.names]
      exact List.prefix_append _ _
    · cases written with
      | error e => exact give_up_part_frames valid names number _
      | ok _ => exact Frames.pure _
  unfold FilesystemStorage.write_part_record
  dsimp only
  refine Frames.ite (fun _ => ?_) fun _ => Frames.bind (Frames.pure _) fun _ => record _
  exact Frames.bind (Frames.io (Fs.frames_read _)) fun _ => Frames.bind (Frames.pure _) fun _ => record _

theorem write_part_frames (number : Nat) (body : ByteStream) (checksum : ChecksumRequest) (cipher : Option FrameCipher) :
    Frames (InUpload fs bucket upload_id) G (fs.write_part P draws bucket upload_id number body checksum cipher) := by
  have forward := (@part_leads fs _ _ valid names number).entry.forward
  have inside := @part_inside fs _ _ valid names number
  refine Frames.bind (Frames.io (Fs.frames_write forward (fun _ => inside) _)) fun _ => ?_
  refine Frames.bind (pump_frames _ _ _ fun fw piece => flat_write_frames forward inside _ fw piece) fun fw => ?_
  refine Frames.bind (flat_finish_frames forward inside _ fw) fun fw => ?_
  cases check_checksum P checksum body.body with
  | error e => exact give_up_part_frames valid names number e
  | ok sum => exact write_part_record_frames valid names number body sum.1 sum.2 _ _

theorem upload_part_frames (number : Nat) (body : ByteStream) (checksum : ChecksumRequest) (customer_key : Option Bytes)
    (declared_size : Option Nat) :
    Frames (InUpload fs bucket upload_id) G
      (fs.upload_part P draws bucket upload_id number body checksum customer_key declared_size) := by
  rw [fs.upload_part_eq]
  refine Frames.bind (Frames.lift _) fun _ => Frames.bind (Frames.lift _) fun _ => Frames.bind (Frames.lift _) fun _ => ?_
  refine Frames.ite (fun _ => Frames.fail _) fun _ => ?_
  refine Frames.bind (Frames.io (Fs.frames_try_exists _)) fun found => Frames.ite (fun _ => Frames.fail _) fun _ => ?_
  refine Frames.bind (read_upload_meta_quiet _ _).frames fun upload => Frames.bind (Frames.lift _) fun cipher => ?_
  exact write_part_frames valid names number _ checksum cipher

omit valid names in
theorem list_parts_quiet : Quiet (fs.list_parts bucket upload_id) := by
  refine Quiet.bind (Quiet.lift _) fun _ => Quiet.bind (Quiet.lift _) fun _ => ?_
  refine Quiet.bind (read_upload_meta_quiet _ _) fun upload => Quiet.bind (Quiet.io (Quiet.observe _)) fun found => ?_
  refine Quiet.bind ?_ fun parts => Quiet.pure _
  refine Quiet.fold _ (fun parts name _ => ?_) _
  refine Quiet.bind ?_ fun more => Quiet.pure _
  unfold FilesystemStorage.listed_part
  split
  · exact Quiet.pure _
  · refine Quiet.bind (Quiet.io (Quiet.observe _)) fun data => ?_
    cases from_json asPart data with
    | ok record => exact Quiet.pure _
    | error e => exact Quiet.pure _

theorem abort_multipart_upload_frames :
    Frames (InUpload fs bucket upload_id) G (fs.abort_multipart_upload bucket upload_id) := by
  refine Frames.bind (Frames.lift _) fun _ => Frames.bind (Frames.lift _) fun _ => ?_
  refine Frames.bind (Frames.io (Fs.frames_try_exists _)) fun found => Frames.ite (fun _ => Frames.fail _) fun _ => ?_
  exact Frames.io (remove_upload_frames valid names fun _ => id)

end Upload

/-! ### Completions -/

section Completion
variable {upload : MultipartUploadMeta}

/-- What a completion can touch: the places of the key in the upload's record, and the upload. -/
def CompletionTouched (fs : FilesystemStorage) (bucket key upload_id : String) (draws : Draws) (q : OsPath) : Prop :=
  Touched fs bucket key (ownNames key) (tempNames draws) (versionNames draws.version_id) q ∨ InUpload fs bucket upload_id q

/-- A step at one state that comes after a step that leaves it. -/
theorem Frame.after {ε α β : Type} {S : OsPath → Prop} {m : Prog World ε α} {f : α → Prog World ε β} {w : World}
    (quiet : Quiet m) (second : ∀ a, m w = (.ok a,w) → Frame S G w (f a w).2) : Frame S G w ((m >>= f) w).2 := by
  rw [Prog.bind_apply]
  split
  next a w' done =>
    have same := quiet.state done
    subst same
    exact second a done
  next e w' done =>
    rw [quiet.state done]
    exact Frame.refl w

section Stores
variable (accepted : Accepted bucket upload.key)
include accepted

theorem store_completed_chunked_frames (selected : List PartMeta) :
    Frames (Touched fs bucket upload.key (ownNames upload.key) (tempNames draws) (versionNames draws.version_id))
      (Opened fs bucket upload.key) (fs.store_completed_chunked P draws bucket upload_id upload selected) := by
  refine in_temp_ec_dir_frames accepted fun tmp leads => ?_
  have inside : ∀ q, home fs bucket upload.key ++ [tempName draws.tmp_payload] <+: q → Touched fs bucket upload.key
      (ownNames upload.key) (tempNames draws) (versionNames draws.version_id) q :=
    fun q below => .inl ⟨_,by simp [tempNames],below⟩
  refine Frames.bind (FilesystemStorage.next_version_id_quiet draws bucket).frames fun id => ?_
  refine Frames.bind (pump_parts_frames (fun acc piece => write_plain_frames leads inside _ acc piece) _ _ _) fun acc => ?_
  refine Frames.bind (chunk_finish_frames leads inside _) fun cw => ?_
  refine Frames.bind (write_manifest_frames leads inside fs _ _ _) fun _ => ?_
  exact Frames.bind (publish_chunks_frames accepted (by simp [ownNames]) (by simp [ownNames]) leads) fun _ => Frames.pure _

theorem store_completed_chunked_encrypted_frames (spec : UploadEncryptionSpec) (selected : List PartMeta)
    (customer_key : Option Bytes) :
    Frames (Touched fs bucket upload.key (ownNames upload.key) (tempNames draws) (versionNames draws.version_id))
      (Opened fs bucket upload.key)
      (fs.store_completed_chunked_encrypted P draws bucket upload_id upload spec selected customer_key) := by
  refine in_temp_ec_dir_frames accepted fun tmp leads => ?_
  have inside : ∀ q, home fs bucket upload.key ++ [tempName draws.tmp_payload] <+: q → Touched fs bucket upload.key
      (ownNames upload.key) (tempNames draws) (versionNames draws.version_id) q :=
    fun q below => .inl ⟨_,by simp [tempNames],below⟩
  refine Frames.bind (FilesystemStorage.next_version_id_quiet draws bucket).frames fun id => ?_
  refine Frames.bind (Frames.lift _) fun upload_dek => Frames.bind (Frames.lift _) fun req => ?_
  refine Frames.bind (Frames.mapError (prepare_encryption_frames fs draws req)) fun enc => ?_
  refine Frames.bind (Frames.lift _) fun dek => Frames.bind (Frames.lift _) fun nonce => ?_
  refine Frames.bind (pump_parts_frames (fun sw piece => sealed_write_frames leads inside _ _ sw piece) _ _ _) fun sw => ?_
  refine Frames.bind (sealed_finish_frames leads inside _ _ _) fun sw => ?_
  refine Frames.bind (write_manifest_frames leads inside fs _ _ _) fun _ => ?_
  exact Frames.bind (publish_chunks_frames accepted (by simp [ownNames]) (by simp [ownNames]) leads) fun _ => Frames.pure _

end Stores

theorem store_completed_chunked_gives (selected : List PartMeta) :
    Prog.Gives (fs.store_completed_chunked P draws bucket upload_id upload selected) (Dated draws) := by
  refine Prog.Gives.guarded (Prog.Gives.bind fun _ => Prog.Gives.bind fun _ => ?_)
  refine Prog.Gives.bind_of (fun w id w' => FilesystemStorage.next_version_id_done) fun id given => ?_
  refine Prog.Gives.bind fun _ => Prog.Gives.bind fun _ => Prog.Gives.bind fun _ => Prog.Gives.bind fun _ => ?_
  exact Prog.Gives.pure given

theorem store_completed_chunked_encrypted_gives (spec : UploadEncryptionSpec) (selected : List PartMeta)
    (customer_key : Option Bytes) :
    Prog.Gives (fs.store_completed_chunked_encrypted P draws bucket upload_id upload spec selected customer_key)
      (Dated draws) := by
  refine Prog.Gives.guarded (Prog.Gives.bind fun _ => Prog.Gives.bind fun _ => ?_)
  refine Prog.Gives.bind_of (fun w id w' => FilesystemStorage.next_version_id_done) fun id given => ?_
  refine Prog.Gives.bind fun _ => Prog.Gives.bind fun _ => Prog.Gives.bind fun _ => Prog.Gives.bind fun _ => ?_
  refine Prog.Gives.bind fun _ => Prog.Gives.bind fun _ => Prog.Gives.bind fun _ => Prog.Gives.bind fun _ => ?_
  refine Prog.Gives.bind fun _ => Prog.Gives.pure ?_
  unfold Dated
  rw [with_sidecar_mac_version_id]
  exact given

theorem store_completed_gives (selected : List PartMeta) (dek : Option Bytes) (version_id : Option String)
    (sealing : Option (EncryptionMeta × Bytes × Bytes)) :
    Prog.Gives (fs.store_completed P draws bucket upload_id upload selected dek version_id sealing)
      fun record => record.version_id = version_id := by
  refine Prog.Gives.bind fun _ => Prog.Gives.guarded (Prog.Gives.bind fun _ => Prog.Gives.bind fun _ => ?_)
  refine Prog.Gives.bind fun _ => Prog.Gives.bind fun _ => Prog.Gives.pure ?_
  rw [with_sidecar_mac_version_id]
  rfl

theorem completion_sealing_frames {S : OsPath → Prop} (spec : Option UploadEncryptionSpec) (customer_key : Option Bytes) :
    Frames S G (fs.completion_sealing P draws spec customer_key) := by
  cases spec with
  | none => exact Frames.pure _
  | some spec =>
    refine Frames.bind (Frames.lift _) fun req => ?_
    refine Frames.bind (Frames.mapError (prepare_encryption_frames fs draws req)) fun enc => ?_
    exact Frames.bind (Frames.lift _) fun _ => Frames.bind (Frames.lift _) fun _ => Frames.pure _

section Whole
variable (names : NamesUpload upload_id) (accepted : Accepted bucket upload.key)
include names accepted

/-- A store of the object, and the end of the completion. -/
theorem completed_frames {store : Action ObjectMeta} {write : ObjectMeta → Action Unit}
    (stores : Frames (Touched fs bucket upload.key (ownNames upload.key) (tempNames draws) (versionNames draws.version_id))
      (Opened fs bucket upload.key) store)
    (writes : ∀ record w w', store w = (.ok record,w') →
      Frames (Touched fs bucket upload.key [] (tempNames draws) (versionNames draws.version_id))
        (Opened fs bucket upload.key) (write record)) :
    Frames (CompletionTouched fs bucket upload.key upload_id draws) (Opened fs bucket upload.key) (do
      let record ← store
      fs.finish_complete bucket upload_id record (write record)) := by
  refine Frames.bind_of (stores.mono (fun _ => .inl) fun _ => .inr) fun record w w' done => ?_
  refine (finish_complete_frames accepted.validBucket names (writes record w w' done)).mono (fun q tidied => ?_) fun _ => .inr
  rcases tidied with touched | below
  · refine .inl ?_
    rcases touched with own | temp | stored
    · exact .inl (own.mono fun n member => by simpa using Or.inr member)
    · exact .inr (.inl temp)
    · exact .inr (.inr stored)
  · exact .inr below

theorem complete_multipart_flat_frames (selected : List PartMeta) (customer_key : Option Bytes) :
    Frames (CompletionTouched fs bucket upload.key upload_id draws) (Opened fs bucket upload.key)
      (fs.complete_multipart_flat P draws bucket upload_id upload selected customer_key) := by
  refine Frames.bind (Frames.lift _) fun _ => Frames.bind (Frames.lift _) fun _ => Frames.bind (Frames.lift _) fun dek => ?_
  refine Frames.bind (completion_sealing_frames _ _) fun sealing => ?_
  refine Frames.bind_of (FilesystemStorage.next_version_id_quiet draws bucket).frames fun version_id _ _ chosen => ?_
  refine completed_frames names accepted
    (store_completed_frames rfl accepted (by simp [ownNames]) (by simp [ownNames])) fun record w w' done => ?_
  refine write_version_frames accepted ?_ fun _ => id
  unfold Dated
  rw [store_completed_gives _ _ _ _ w record w' done]
  exact FilesystemStorage.next_version_id_done chosen

end Whole

/-- A completion touches the places of the key that the upload was begun for, and the upload. -/
theorem complete_multipart_upload_frame {w : World} (names : NamesUpload upload_id)
    (read : fs.read_upload_meta bucket upload_id w = (.ok upload,w)) (valid : validate_key upload.key = .ok ())
    (parts : List (Nat × String)) (customer_key : Option Bytes) :
    Frame (CompletionTouched fs bucket upload.key upload_id draws) (Opened fs bucket upload.key) w
      (fs.complete_multipart_upload P draws bucket upload_id parts customer_key w).2 := by
  refine Frame.after (Quiet.lift _) fun _ named => Frame.after (Quiet.lift _) fun _ _ => ?_
  have accepted : Accepted bucket upload.key := ⟨(lift_ok_iff.mp named).1,valid⟩
  split
  next => exact Frame.refl w
  next =>
    refine Frame.after (read_upload_meta_quiet _ _) fun found reads => ?_
    rw [read,Prod.mk.injEq,Except.ok.injEq] at reads
    obtain ⟨rfl,-⟩ := reads
    refine Frame.after (FilesystemStorage.ensure_can_overwrite_quiet _ _ _) fun _ _ => ?_
    refine Frame.after (select_parts_quiet _) fun selected _ => ?_
    refine Frame.after (Quiet.lift _) fun _ _ => Frame.after (Quiet.lift _) fun _ _ => ?_
    refine Frame.after (FilesystemStorage.effective_erasure_coding_quiet _) fun coded _ => ?_
    cases coded with
    | true =>
      cases upload.encryption_spec with
      | some spec =>
        refine Frame.after (Quiet.lift _) fun _ _ => Frame.after (Quiet.lift _) fun _ _ => ?_
        refine completed_frames names accepted (store_completed_chunked_encrypted_frames accepted spec selected customer_key)
          (fun record w w' done => ?_) w
        exact write_version_chunked_frames accepted (store_completed_chunked_encrypted_gives _ _ _ w record w' done)
          fun _ => id
      | none =>
        refine completed_frames names accepted (store_completed_chunked_frames accepted selected)
          (fun record w w' done => ?_) w
        exact write_version_chunked_frames accepted (store_completed_chunked_gives _ w record w' done) fun _ => id
    | false => exact complete_multipart_flat_frames names accepted selected customer_key w

end Completion
end Footprints
end Maxio
