import Maxio.PutSpec
import Maxio.Seals

/-!
The encryptions of a put: one wrapping of its data key, and the frames of its body under that key.
-/

set_option linter.unusedSimpArgs false

namespace Maxio
open FileTree (Node)

/-! ### Steps that encrypt nothing -/

section Silent
variable {P : Primitives} {fs : FilesystemStorage} {Q : Sealing → Prop} {bucket key : String} {draws : Draws}

theorem index_remove_seals : Seals Q (fs.index_remove bucket key) :=
  Seals.ite (fun _ => Seals.tell (fun _ => rfl) fun _ => rfl) fun _ => Seals.pure _

theorem index_upsert_seals (record : ObjectMeta) : Seals Q (fs.index_upsert bucket record) :=
  Seals.bind index_remove_seals fun _ => Seals.ite (fun _ => Seals.tell (fun _ => rfl) fun _ => rfl) fun _ => Seals.pure _

theorem publish_seals (tmp final : OsPath) (is_dir : Bool) (record : ObjectMeta) :
    Seals Q (fs.publish draws bucket key tmp final is_dir record) :=
  Seals.bind (Fs.seals_create_dir_all _).io fun _ => Common.seals_with_guard
    (Seals.bind (Fs.seals_write _ _ (by simp)).io fun _ => Common.seals_publish_temp_payload_and_meta _ _ _ _ _ _ _)

theorem copy_entries_seals (src dst : OsPath) : Seals Q (copy_entries src dst) :=
  Seals.bind (Fs.seals_read_dir _).io fun _ => Seals.each _ fun _ _ => (Fs.seals_copy _ _).io

theorem write_version_seals (record : ObjectMeta) (path : OsPath) :
    Seals Q (fs.write_version bucket key record path) := by
  unfold FilesystemStorage.write_version
  cases record.version_id with
  | none => exact Seals.fail _
  | some version_id =>
    exact Seals.bind (Fs.seals_create_dir_all _).io fun _ => Seals.bind (Fs.seals_copy _ _).io fun _ =>
      (Fs.seals_write _ _ (by simp)).io

theorem write_version_chunked_seals (record : ObjectMeta) : Seals Q (fs.write_version_chunked bucket key record) := by
  unfold FilesystemStorage.write_version_chunked
  cases record.version_id with
  | none => exact Seals.fail _
  | some version_id =>
    exact Seals.bind (Fs.seals_create_dir_all _).io fun _ => Seals.bind (Fs.seals_create_dir_all _).io fun _ =>
      Seals.bind (copy_entries_seals _ _) fun _ => (Fs.seals_write _ _ (by simp)).io

theorem keep_version_seals {record : ObjectMeta} {write : Action Unit} (inner : Seals Q write) :
    Seals Q (FilesystemStorage.keep_version record write) := Seals.ite (fun _ => inner) fun _ => Seals.pure _

theorem finish_put_seals {record : ObjectMeta} {write : Action Unit} (inner : Seals Q write) :
    Seals Q (fs.finish_put bucket record write) :=
  Seals.bind (keep_version_seals inner) fun _ => Seals.bind (index_upsert_seals _) fun _ => Seals.pure _

theorem put_folder_marker_seals : Seals Q (fs.put_folder_marker P draws bucket key) :=
  Seals.bind (Fs.seals_create_dir_all _).io fun _ => Seals.bind (Fs.seals_write _ _ (by simp)).io fun _ =>
    Seals.bind (Fs.seals_write _ _ (by simp)).io fun _ => Seals.bind (index_upsert_seals _) fun _ => Seals.pure _

theorem store_chunked_seals (content_type : String) (body : ByteStream) (algorithm : Option ChecksumAlgorithm) :
    Seals Q (fs.store_chunked P draws bucket key content_type body algorithm) := by
  refine Common.seals_with_guard ?_
  refine Seals.bind (Fs.seals_create_dir_all _).io fun _ => Seals.bind (Fs.seals_create_dir_all _).io fun _ => ?_
  refine Seals.bind (pump_seals [] (fun _ _ => True) trivial ?_).1 fun _ => ?_
  · exact fun _ _ _ _ _ => ⟨write_plain_seals _ _,fun _ _ _ _ => trivial⟩
  · exact Seals.bind (ChunkWriter.finish_seals _) fun _ => Seals.bind (write_manifest_seals _ _ _) fun _ =>
      Seals.bind (FilesystemStorage.next_version_id_quiet _ _).seals fun _ =>
        Seals.bind (publish_seals _ _ _ _) fun _ => Seals.pure _

end Silent

/-! ### Puts -/

/-- The encryptions of a put under a version id: the wrapping of its data key, and the frames of its body. -/
def PutSeals (P : Primitives) (fs : FilesystemStorage) (draws : Draws) (bucket key : String)
    (encryption : Option EncryptionRequest) (body : Bytes) (version_id : Option String) (s : Sealing) : Prop :=
  Wraps fs (encryption.bind EncryptionRequest.customer_key) s ∨
    FrameOf (drawnCipher draws (build_frame_aad P bucket key version_id)) body s

section Put
variable {P : Primitives} {fs : FilesystemStorage} {bucket key : String} {draws : Draws} {w w' : World}

theorem start_sealing_seals {Q : Sealing → Prop} {encryption : Option EncryptionRequest} {aad : Nat → Bytes}
    (may : ∀ s, Wraps fs (encryption.bind EncryptionRequest.customer_key) s → Q s) :
    Seals Q (fs.start_sealing P draws encryption aad) := by
  cases encryption with
  | none => exact Seals.pure _
  | some req => exact Seals.bind (start_encryption_seals may) fun _ => Seals.pure _

theorem start_sealing_drawn (sound : P.Sound) (encryption : Option EncryptionRequest) (aad : Nat → Bytes) :
    Prog.Gives (fs.start_sealing P draws encryption aad)
      fun sealing => ∀ c, sealing.map Prod.snd = some c → c = drawnCipher draws aad := by
  cases encryption with
  | none =>
    refine Prog.Gives.pure fun c given => ?_
    cases given
  | some req =>
    refine Prog.Gives.bind_of (start_encryption_drawn sound) fun made drawn => Prog.Gives.pure fun c given => ?_
    cases given
    exact drawn

theorem store_flat_seals {Q : Sealing → Prop} {content_type : String} {body : ByteStream} {checksum : ChecksumRequest}
    {version_id : Option String} {sealing : Option (EncryptionMeta × FrameCipher)}
    (may : ∀ c, sealing.map Prod.snd = some c → ∀ s, FrameOf c body.body s → Q s) :
    Seals Q (fs.store_flat P draws bucket key content_type body checksum version_id sealing) := by
  refine Seals.bind (Fs.seals_create_dir_all _).io fun _ => Common.seals_with_guard ?_
  refine Seals.bind (Fs.seals_write _ _ (by simp)).io fun _ => ?_
  refine Seals.bind_of (FlatWriter.pump_write_seals body _ may).1 (FlatWriter.pump_write_seals body _ may).2 fun fw here => ?_
  refine Seals.bind (FlatWriter.finish_seals may here) fun _ => ?_
  exact Seals.bind (Seals.lift _) fun _ => Seals.bind (FilesystemStorage.resolve_default_object_lock_quiet _ _).seals
    fun _ => Seals.bind (publish_seals _ _ _ _) fun _ => Seals.pure _

/-- Under a version id that is known, the flat layout. -/
theorem store_sealed_flat_seals (fs : FilesystemStorage) (draws : Draws) (bucket key : String) (sound : P.Sound)
    (content_type : String) (body : ByteStream) (checksum : ChecksumRequest) (encryption : Option EncryptionRequest) (version_id : Option String) :
    Seals (PutSeals P fs draws bucket key encryption body.body version_id) (do
      let sealing ← fs.start_sealing P draws encryption (build_frame_aad P bucket key version_id)
      let record ← fs.store_flat P draws bucket key content_type body checksum version_id sealing
      fs.finish_put bucket record (fs.write_version bucket key record (object_path fs.buckets_dir bucket key))) := by
  refine Seals.bind_of (start_sealing_seals fun s wraps => .inl wraps) (start_sealing_drawn sound encryption _)
    fun sealing drawn => ?_
  refine Seals.bind (store_flat_seals fun c given s frame => .inr ?_) fun record => ?_
  · rw [← drawn c given]
    exact frame
  · exact finish_put_seals (write_version_seals _ _)

theorem put_object_flat_seals (sound : P.Sound) {content_type : String} {body : ByteStream} {checksum : ChecksumRequest}
    (encryption : Option EncryptionRequest) :
    SealsAs (PutSeals P fs draws bucket key encryption body.body)
      (fs.put_object_flat P draws bucket key content_type body checksum encryption) :=
  SealsAs.after (FilesystemStorage.next_version_id_quiet _ _).seals fun version_id =>
    Seals.as version_id (store_sealed_flat_seals _ _ _ _ sound _ _ _ encryption version_id)

theorem store_chunked_encrypted_seals (sound : P.Sound) {content_type : String} {body : ByteStream}
    {checksum : ChecksumRequest} (req : EncryptionRequest) :
    SealsAs (PutSeals P fs draws bucket key (some req) body.body)
      (fs.store_chunked_encrypted P draws bucket key content_type body checksum req) := by
  refine SealsAs.with_guard ?_
  refine SealsAs.after (Fs.seals_create_dir_all _).io fun _ => SealsAs.after (Fs.seals_create_dir_all _).io fun _ => ?_
  refine SealsAs.after (FilesystemStorage.next_version_id_quiet _ _).seals fun version_id => Seals.as version_id ?_
  refine Seals.bind_of (start_encryption_seals fun s wraps => .inl wraps) (start_encryption_drawn sound) fun made drawn => ?_
  have may : ∀ s, FrameOf made.2 body.body s → PutSeals P fs draws bucket key (some req) body.body version_id s := by
    intro s frame
    rw [drawn] at frame
    exact .inr frame
  refine Seals.bind_of (SealedWriter.pump_write_seals body _ may).1 (SealedWriter.pump_write_seals body _ may).2
    fun sw here => Seals.bind (SealedWriter.finish_seals may here) fun _ => ?_
  exact Seals.bind (write_manifest_seals _ _ _) fun _ => Seals.bind (Seals.lift _) fun _ =>
    Seals.bind (publish_seals _ _ _ _) fun _ => Seals.pure _

/-- Whatever its outcome, a put wraps its data key and encrypts the frames of its body, under one version id. -/
theorem put_object_seals (sound : P.Sound) (content_type : String) (body : ByteStream) (checksum : ChecksumRequest)
    (encryption : Option EncryptionRequest) (declared_size : Option Nat) :
    SealsAs (PutSeals P fs draws bucket key encryption (fs.wrap_upload_reader draws body).body)
      (fs.put_object P draws bucket key content_type body checksum encryption declared_size) := by
  refine SealsAs.after (Seals.lift _) fun _ => SealsAs.after (Seals.lift _) fun _ => ?_
  refine SealsAs.after (FilesystemStorage.ensure_can_overwrite_quiet _ _ _).seals fun _ => ?_
  refine SealsAs.after (Seals.lift _) fun _ => SealsAs.ite (fun _ => Seals.as none put_folder_marker_seals) fun _ => ?_
  refine SealsAs.after (FilesystemStorage.effective_erasure_coding_quiet _).seals fun coded => SealsAs.ite (fun _ => ?_)
    fun _ => put_object_flat_seals sound encryption
  cases encryption with
  | some req =>
    exact SealsAs.after (Seals.lift _) fun _ => SealsAs.before (store_chunked_encrypted_seals sound req)
      fun _ => finish_put_seals (write_version_chunked_seals _)
  | none =>
    exact Seals.as none (Seals.bind (Seals.lift _) fun _ => Seals.bind (store_chunked_seals _ _ _) fun _ =>
      finish_put_seals (write_version_chunked_seals _))

end Put
end Maxio
