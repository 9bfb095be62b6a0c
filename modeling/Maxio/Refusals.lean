import Maxio.StoredVersions

/-!
Deletions and completions that are turned down for another reason than a failure of the filesystem: what they leave alone.
-/

set_option linter.unusedSimpArgs false

namespace Maxio
open FileTree (Node Tree)

/-! ### Deletions -/

section Deletions
variable {P : Primitives} {fs : FilesystemStorage} {bucket key : String} {draws : Draws}

theorem if_exists_only_io {p : OsPath} {remove : OsPath → Io Unit} : OnlyIo (do
    match ← Prog.attempt (remove p) with
    | .ok () => pure ()
    | .error e => if e.kind = .NotFound then pure () else Prog.fail (.Io e) : Action Unit) := by
  refine OnlyIo.attempt fun removed => ?_
  cases removed with
  | ok _ => exact OnlyIo.pure _
  | error e =>
    dsimp only
    split
    · exact OnlyIo.pure _
    · exact OnlyIo.fail _

theorem remove_empty_parents_only_io {stop : OsPath} (depth : Nat) (dir : OsPath) :
    OnlyIo (FilesystemStorage.remove_empty_parents stop depth dir) := by
  induction depth generalizing dir with
  | zero => exact OnlyIo.pure _
  | succ depth ih =>
    rw [FilesystemStorage.remove_empty_parents]
    split
    · exact OnlyIo.pure _
    · refine OnlyIo.attempt fun removed => ?_
      cases removed with
      | ok _ => exact ih _
      | error e => exact OnlyIo.pure _

theorem write_delete_marker_only_io : OnlyIo (fs.write_delete_marker P draws bucket key) := by
  refine OnlyIo.bind (OnlyIo.io _) fun _ => OnlyIo.bind (OnlyIo.io _) fun _ => OnlyIo.bind ?_ fun _ => OnlyIo.pure _
  exact OnlyIo.bind (OnlyIo.ignored _) fun _ => OnlyIo.bind (OnlyIo.ignored _) fun _ => OnlyIo.ignored _

theorem remove_object_only_io : OnlyIo (fs.remove_object bucket key) := by
  refine OnlyIo.bind ?_ fun _ => OnlyIo.bind ?_ fun _ => OnlyIo.bind (remove_empty_parents_only_io _ _) fun _ => OnlyIo.pure _
  · exact OnlyIo.bind if_exists_only_io fun _ => OnlyIo.bind if_exists_only_io fun _ => if_exists_only_io
  · unfold FilesystemStorage.index_remove
    split
    · exact OnlyIo.tell _
    · exact OnlyIo.pure _

/-- A deletion turned down by a check leaves the tree as it is. -/
theorem delete_object_spares : LeavesAlone StorageError.FromIo (fun _ => False) (fun _ => False)
    (fs.delete_object P draws bucket key) := by
  have worst {α : Type} {m : Action α} (only : OnlyIo m) :
      LeavesAlone StorageError.FromIo (fun _ => False) (fun _ => False) m :=
    LeavesAlone.of_only_io only fun err => ⟨err,rfl⟩
  rw [fs.delete_object_eq]
  refine LeavesAlone.bind (Frames.lift _) fun _ => LeavesAlone.bind (Frames.lift _) fun _ => ?_
  refine LeavesAlone.bind (Frames.unwrap_or _ (FilesystemStorage.is_versioned_quiet bucket).frames) fun versioned => ?_
  by_cases numbered : versioned = true
  · rw [if_pos numbered]
    refine LeavesAlone.bind (Frames.unwrap_or _ (Fs.frames_try_exists _)) fun found => ?_
    exact LeavesAlone.bind (ensure_deletable_quiet found).frames fun _ => worst write_delete_marker_only_io
  rw [if_neg numbered]
  refine LeavesAlone.bind object_present_quiet.frames fun present => ?_
  by_cases absent : (!present) = true
  · rw [if_pos absent]
    exact worst (OnlyIo.pure _)
  rw [if_neg absent]
  refine LeavesAlone.bind (Frames.io (Fs.frames_try_exists _)) fun found => ?_
  exact LeavesAlone.bind (ensure_deletable_quiet found).frames fun _ => worst remove_object_only_io

end Deletions

/-! ### Completions -/

section Completions
variable {P : Primitives} {fs : FilesystemStorage} {bucket key upload_id : String} {draws : Draws}
  {upload : MultipartUploadMeta}

theorem finish_complete_only_io {record : ObjectMeta} {write : Action Unit}
    (only : record.version_id.isSome = true → OnlyIo write) : OnlyIo (fs.finish_complete bucket upload_id record write) := by
  refine OnlyIo.bind ?_ fun _ => OnlyIo.bind (OnlyIo.io _) fun _ =>
    OnlyIo.bind (index_upsert_only_io _ _ _) fun _ => OnlyIo.pure _
  unfold FilesystemStorage.keep_version
  split
  · next dated => exact only dated
  · exact OnlyIo.pure _

theorem temporary_dir (q : OsPath) (below : home fs bucket upload.key ++ [tempName draws.tmp_payload] <+: q) :
    Temporary fs bucket upload.key draws q := .inl ⟨_,by simp [tempNames],below⟩

variable (accepted : Accepted bucket upload.key)
include accepted

theorem store_completed_chunked_spares (selected : List PartMeta) :
    LeavesAlone StorageError.FromIo (Temporary fs bucket upload.key draws) (Opened fs bucket upload.key)
      (fs.store_completed_chunked P draws bucket upload_id upload selected) := by
  refine in_temp_ec_dir_spares accepted fun tmp leads => ?_
  have inside := @temporary_dir fs bucket draws upload
  refine LeavesAlone.bind (FilesystemStorage.next_version_id_quiet draws bucket).frames fun _ => ?_
  refine LeavesAlone.bind (pump_parts_frames (fun acc piece => write_plain_frames leads inside _ acc piece) _ _ _) fun _ => ?_
  refine LeavesAlone.bind (chunk_finish_frames leads inside _) fun cw => ?_
  refine LeavesAlone.bind (write_manifest_frames leads inside fs _ _ _) fun _ => ?_
  refine LeavesAlone.of_only_io ?_ fun err => ⟨err,rfl⟩
  exact OnlyIo.bind (publish_only_io _ _ _ _ _ _ _ _) fun _ => OnlyIo.pure _

theorem store_completed_chunked_encrypted_spares (spec : UploadEncryptionSpec) (selected : List PartMeta)
    (customer_key : Option Bytes) :
    LeavesAlone StorageError.FromIo (Temporary fs bucket upload.key draws) (Opened fs bucket upload.key)
      (fs.store_completed_chunked_encrypted P draws bucket upload_id upload spec selected customer_key) := by
  refine in_temp_ec_dir_spares accepted fun tmp leads => ?_
  have inside := @temporary_dir fs bucket draws upload
  refine LeavesAlone.bind (FilesystemStorage.next_version_id_quiet draws bucket).frames fun _ => ?_
  refine LeavesAlone.bind (Frames.lift _) fun _ => LeavesAlone.bind (Frames.lift _) fun req => ?_
  refine LeavesAlone.bind (Frames.mapError (prepare_encryption_frames fs draws req)) fun _ => ?_
  refine LeavesAlone.bind (Frames.lift _) fun _ => LeavesAlone.bind (Frames.lift _) fun _ => ?_
  refine LeavesAlone.bind (pump_parts_frames (fun sw piece => sealed_write_frames leads inside _ _ sw piece) _ _ _) fun _ => ?_
  refine LeavesAlone.bind (sealed_finish_frames leads inside _ _ _) fun sw => ?_
  refine LeavesAlone.bind (write_manifest_frames leads inside fs _ _ _) fun _ => ?_
  refine LeavesAlone.of_only_io ?_ fun err => ⟨err,rfl⟩
  exact OnlyIo.bind (publish_only_io _ _ _ _ _ _ _ _) fun _ => OnlyIo.pure _

theorem store_completed_spares (selected : List PartMeta) (dek : Option Bytes) (version_id : Option String)
    (sealing : Option (EncryptionMeta × Bytes × Bytes)) :
    LeavesAlone StorageError.FromIo (Temporary fs bucket upload.key draws) (Opened fs bucket upload.key)
      (fs.store_completed P draws bucket upload_id upload selected dek version_id sealing) := by
  have leads := accepted.temp_object_leads fs draws.tmp_payload_slash
  have inside : ∀ q, canon (temp_sibling_path (object_path fs.buckets_dir bucket upload.key) draws.tmp_payload) <+: q →
      Temporary fs bucket upload.key draws q := by
    intro q below
    rw [leads.names] at below
    exact .inr (.inl ⟨_,by simp [tempNames],below⟩)
  have here := inside _ (List.prefix_refl _)
  refine LeavesAlone.bind (Frames.io (Fs.frames_create_dir_all (accepted.objectDir_forward fs) (opened_objectDir accepted)))
    fun _ => LeavesAlone.guarded ?_ leads.entry inside
  refine LeavesAlone.bind (Frames.io (Fs.frames_write leads.entry.forward (fun _ => here) _)) fun _ => ?_
  refine LeavesAlone.bind (pump_parts_frames (fun fw piece => flat_write_frames leads.entry.forward here _ fw piece) _ _ _)
    fun _ => ?_
  refine LeavesAlone.bind (flat_finish_frames leads.entry.forward here _ _) fun _ => ?_
  refine LeavesAlone.of_only_io ?_ fun err => ⟨err,rfl⟩
  exact OnlyIo.bind (publish_only_io _ _ _ _ _ _ _ _) fun _ => OnlyIo.pure _

omit accepted in
/-- A store that gives a version id or none, and the end of the completion. -/
theorem completed_spares {store : Action ObjectMeta} {write : ObjectMeta → Action Unit}
    (spares : LeavesAlone StorageError.FromIo (Temporary fs bucket key draws) (Opened fs bucket key) store)
    (only : ∀ record, record.version_id.isSome = true → OnlyIo (write record)) :
    LeavesAlone StorageError.FromIo (Temporary fs bucket key draws) (Opened fs bucket key) (do
      let record ← store
      fs.finish_complete bucket upload_id record (write record)) := by
  refine LeavesAlone.followed spares fun w record w₁ e w' _ failed => ?_
  exact finish_complete_only_io (only record) w₁ e w' failed

theorem complete_multipart_flat_spares (selected : List PartMeta) (customer_key : Option Bytes) :
    LeavesAlone StorageError.FromIo (Temporary fs bucket upload.key draws) (Opened fs bucket upload.key)
      (fs.complete_multipart_flat P draws bucket upload_id upload selected customer_key) := by
  refine LeavesAlone.bind (Frames.lift _) fun _ => LeavesAlone.bind (Frames.lift _) fun _ => ?_
  refine LeavesAlone.bind (Frames.lift _) fun _ => LeavesAlone.bind (completion_sealing_frames _ _) fun _ => ?_
  refine LeavesAlone.bind (FilesystemStorage.next_version_id_quiet draws bucket).frames fun version_id => ?_
  exact completed_spares (store_completed_spares accepted selected _ _ _) fun record dated =>
    write_version_only_io fs bucket upload.key dated _

omit accepted in
/-- A program that fails after a step that only looks. -/
theorem failed_after {ε α β : Type} {m : Prog World ε α} {f : α → Prog World ε β} {w w' : World} {e : ε} (quiet : Quiet m)
    (failed : (m >>= f) w = (.error e,w')) : w' = w ∨ ∃ a, m w = (.ok a,w) ∧ f a w = (.error e,w') := by
  rcases ran : m w with ⟨e₁ | a,w₁⟩
  · rw [Prog.bind_of_error ran] at failed
    cases failed
    exact .inl (quiet.state ran)
  · have same := quiet.state ran
    subst same
    rw [Prog.bind_of_ok ran] at failed
    exact .inr ⟨a,rfl,failed⟩

omit accepted in
theorem LeavesAlone.failed {α : Type} {bad : StorageError → Prop} {S G : OsPath → Prop} {m : Action α} {w w' : World}
    {e : StorageError} (spares : LeavesAlone bad S G m) (failed : m w = (.error e,w')) (other : ¬ bad e) : Frame S G w w' :=
  spares w e w' failed other

omit accepted in
/-- A completion turned down by a check, by a part that does not fit or by the quota leaves the tree as it is, but for
    temporary siblings of its key. -/
theorem complete_multipart_upload_spares {w w' : World} {e : StorageError} {parts : List (Nat × String)}
    {customer_key : Option Bytes} (keys : ∀ key, UploadCall.Recorded fs bucket upload_id w key → validate_key key = .ok ())
    (failed : fs.complete_multipart_upload P draws bucket upload_id parts customer_key w = (.error e,w'))
    (other : ¬ e.FromIo) :
    w' = w ∨ ∃ key, UploadCall.Recorded fs bucket upload_id w key ∧
      Frame (Temporary fs bucket key draws) (Opened fs bucket key) w w' := by
  unfold FilesystemStorage.complete_multipart_upload at failed
  rcases failed_after (Quiet.lift _) failed with same | ⟨_,named,failed⟩
  · exact .inl same
  rcases failed_after (Quiet.lift _) failed with same | ⟨_,_,failed⟩
  · exact .inl same
  by_cases nothing : parts = []
  · rw [if_pos nothing] at failed
    exact .inl (Prod.mk.inj failed).2.symm
  rw [if_neg nothing] at failed
  rcases failed_after (read_upload_meta_quiet _ _) failed with same | ⟨upload,read,failed⟩
  · exact .inl same
  have recorded : UploadCall.Recorded fs bucket upload_id w upload.key := ⟨upload,read,rfl⟩
  have accepted : Accepted bucket upload.key := ⟨(lift_ok_iff.mp named).1,keys _ recorded⟩
  refine .inr ⟨upload.key,recorded,?_⟩
  refine LeavesAlone.failed ?_ failed other
  refine LeavesAlone.bind (FilesystemStorage.ensure_can_overwrite_quiet _ _ _).frames fun _ => ?_
  refine LeavesAlone.bind (select_parts_quiet _).frames fun selected => ?_
  refine LeavesAlone.bind (Frames.lift _) fun _ => LeavesAlone.bind (Frames.lift _) fun _ => ?_
  refine LeavesAlone.bind (FilesystemStorage.effective_erasure_coding_quiet _).frames fun coded => ?_
  cases coded with
  | false => exact complete_multipart_flat_spares accepted selected customer_key
  | true =>
    cases upload.encryption_spec with
    | some spec =>
      refine LeavesAlone.bind (Frames.lift _) fun _ => LeavesAlone.bind (Frames.lift _) fun _ => ?_
      exact completed_spares (store_completed_chunked_encrypted_spares accepted spec selected customer_key)
        fun record dated => write_version_chunked_only_io fs bucket upload.key dated
    | none =>
      exact completed_spares (store_completed_chunked_spares accepted selected)
        fun record dated => write_version_chunked_only_io fs bucket upload.key dated

end Completions

end Maxio
