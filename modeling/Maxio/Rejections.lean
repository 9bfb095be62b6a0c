import Maxio.PutSpec

/-!
Puts that are turned down. A put writes next to the places of its key until it publishes, and whatever fails from the
publication on is a failure of the filesystem: any other error leaves the places of the key alone.
-/

set_option linter.unusedSimpArgs false

namespace Maxio
open FileTree (Node Tree)

/-- The error comes from a call on the filesystem, or from the stream of the body. -/
def StorageError.FromIo (e : StorageError) : Prop := ∃ err, e = .Io err

/-- Errors other than the `bad` ones leave everything outside of `S` and `G` as it was. -/
def LeavesAlone {α : Type} (bad : StorageError → Prop) (S G : OsPath → Prop) (m : Action α) : Prop :=
  ∀ w e w', m w = (.error e,w') → ¬ bad e → Frame S G w w'

/-- No error but those of the filesystem. -/
def OnlyIo {α : Type} (m : Action α) : Prop := ∀ w e w', m w = (.error e,w') → e.FromIo

namespace OnlyIo
variable {α β : Type}

theorem pure (a : α) : OnlyIo (pure a : Action α) := by
  intro w e w' failed
  cases failed

theorem io (m : Io α) : OnlyIo (io m) := by
  intro w e w' failed
  rw [Maxio.io,Prog.mapError_apply,Prod.mk.injEq] at failed
  cases given : (m w).1 with
  | ok a =>
    rw [given] at failed
    cases failed.1
  | error err =>
    rw [given] at failed
    exact ⟨err,(Except.error.inj failed.1).symm⟩

theorem bind {m : Action α} {f : α → Action β} (first : OnlyIo m) (second : ∀ a, OnlyIo (f a)) :
    OnlyIo (m >>= f) := by
  intro w e w' failed
  rcases executed : m w with ⟨e₁ | a,w₁⟩
  · rw [Prog.bind_of_error executed] at failed
    cases failed
    exact first w e _ executed
  · rw [Prog.bind_of_ok executed] at failed
    exact second a w₁ e w' failed

theorem attempt {m : Io α} {f : Except IoError α → Action β} (second : ∀ r, OnlyIo (f r)) :
    OnlyIo (Prog.attempt m >>= f) := by
  intro w e w' failed
  exact second _ _ e w' failed

theorem ignored (m : Io α) : OnlyIo (ignore m) := attempt fun _ => OnlyIo.pure _

theorem fail (err : IoError) : OnlyIo (Prog.fail (.Io err) : Action α) := by
  intro w e w' failed
  exact ⟨err,(Except.error.inj (Prod.mk.inj failed).1).symm⟩

theorem each {items : List α} {f : α → Action Unit} (step : ∀ a, OnlyIo (f a)) : OnlyIo (Prog.each f items) := by
  induction items with
  | nil => exact OnlyIo.pure ()
  | cons a rest ih => exact OnlyIo.bind (step a) fun _ => ih

theorem guarded {p : OsPath} {is_dir : Bool} {m : Action α} (inner : OnlyIo m) :
    OnlyIo (Common.with_guard p is_dir m) := by
  intro w e w' failed
  unfold Common.with_guard Prog.guarded at failed
  split at failed
  next => cases failed
  next e₁ w₁ executed =>
    cases failed
    exact inner w e _ executed

theorem tell (f : World → World) : OnlyIo (Prog.tell f : Action Unit) := by
  intro w e w' failed
  cases failed

end OnlyIo

namespace LeavesAlone
variable {α β : Type} {bad : StorageError → Prop} {S G : OsPath → Prop}

theorem of_frames {m : Action α} (frames : Frames S G m) : LeavesAlone bad S G m := by
  intro w e w' failed _
  have framed := frames w
  rw [failed] at framed
  exact framed

theorem of_only_io {m : Action α} (only : OnlyIo m) (io_bad : ∀ err, bad (.Io err)) : LeavesAlone bad S G m := by
  intro w e w' failed other
  obtain ⟨err,rfl⟩ := only w e w' failed
  exact absurd (io_bad err) other

/-- What comes first only frames. -/
theorem bind {m : Action α} {f : α → Action β} (first : Frames S G m) (second : ∀ a, LeavesAlone bad S G (f a)) :
    LeavesAlone bad S G (m >>= f) := by
  intro w e w' failed other
  have framed := first w
  rcases executed : m w with ⟨e₁ | a,w₁⟩
  · rw [Prog.bind_of_error executed] at failed
    rw [executed] at framed
    cases failed
    exact framed
  · rw [Prog.bind_of_ok executed] at failed
    rw [executed] at framed
    exact Frame.trans _ _ _ framed (second a w₁ e w' failed other)

theorem weaken {bad' : StorageError → Prop} {m : Action α} (spares : LeavesAlone bad S G m)
    (worse : ∀ e, bad e → bad' e) : LeavesAlone bad' S G m := by
  intro w e w' failed other
  exact spares w e w' failed fun bad => other (worse e bad)

/-- What comes last fails only in bad ways. -/
theorem followed {m : Action α} {f : α → Action β} (first : LeavesAlone bad S G m)
    (second : ∀ w a w₁ e w', m w = (.ok a,w₁) → f a w₁ = (.error e,w') → bad e) : LeavesAlone bad S G (m >>= f) := by
  intro w e w' failed other
  rcases executed : m w with ⟨e₁ | a,w₁⟩
  · rw [Prog.bind_of_error executed] at failed
    cases failed
    exact first w e _ executed other
  · rw [Prog.bind_of_ok executed] at failed
    exact absurd (second w a w₁ e w' executed failed) other

theorem guarded {p : OsPath} {is_dir : Bool} {m : Action α} (inner : LeavesAlone bad S G m) (entry : Entry p)
    (inside : ∀ q, canon p <+: q → S q) : LeavesAlone bad S G (Common.with_guard p is_dir m) := by
  intro w e w' failed other
  unfold Common.with_guard Prog.guarded at failed
  split at failed
  next => cases failed
  next e₁ w₁ executed =>
    cases failed
    exact Frame.trans _ _ _ (inner w e w₁ executed other)
      (Common.frames_remove_path_if_exists is_dir entry.forward (fun _ => Fs.last_of_named entry.named) (fun _ => inside)
        w₁)

/-- The stream of the body: when it ends in an error, nothing comes after it. -/
theorem pump {write : α → Bytes → Action α} {failed : IoError → StorageError} {reads : List Bytes}
    {failure : Option IoError} {start : α} {f : α → Action β} (step : ∀ a piece, Frames S G (write a piece))
    (rest : failure = none → ∀ a, LeavesAlone bad S G (f a)) :
    LeavesAlone bad S G (Maxio.pump write failed reads failure start >>= f) := by
  cases failure with
  | none => exact LeavesAlone.bind (pump_frames reads none start step) (rest rfl)
  | some err =>
    refine LeavesAlone.followed (of_frames (pump_frames reads (some err) start step)) ?_
    intro w a w₁ e w' done
    simp only [Maxio.pump,Prog.bind_ok_iff] at done
    obtain ⟨_,_,_,never⟩ := done
    cases never

end LeavesAlone

/-! ### From the publication on -/

section Publication
variable (fs : FilesystemStorage) (bucket key : String) (draws : Draws)

theorem backup_existing_only_io (p : OsPath) (uuid : String) : OnlyIo (Common.backup_existing p uuid) := by
  refine OnlyIo.bind (OnlyIo.io _) fun found => ?_
  cases found
  · exact OnlyIo.pure none
  · exact OnlyIo.bind (OnlyIo.io _) fun _ => OnlyIo.pure _

theorem remove_path_if_exists_only_io (p : OsPath) (is_dir : Bool) : OnlyIo (Common.remove_path_if_exists p is_dir) := by
  cases is_dir
  · exact OnlyIo.ignored _
  · exact OnlyIo.ignored _

theorem restore_backup_only_io (p : OsPath) (backup : Option OsPath) (is_dir : Bool) :
    OnlyIo (Common.restore_backup p backup is_dir) := by
  cases backup with
  | none => exact OnlyIo.pure ()
  | some b => exact OnlyIo.bind (remove_path_if_exists_only_io p is_dir) fun _ => OnlyIo.ignored _

theorem cleanup_backup_only_io (backup : Option OsPath) (is_dir : Bool) :
    OnlyIo (Common.cleanup_backup backup is_dir) := by
  cases backup with
  | none => exact OnlyIo.pure ()
  | some b => exact remove_path_if_exists_only_io b is_dir

theorem publish_temp_payload_and_meta_only_io (tmp_payload final_payload : OsPath) (is_dir : Bool)
    (tmp_meta final_meta : OsPath) (payload_uuid meta_uuid : String) :
    OnlyIo (Common.publish_temp_payload_and_meta tmp_payload final_payload is_dir tmp_meta final_meta payload_uuid
      meta_uuid) := by
  refine OnlyIo.bind (OnlyIo.io _) fun _ => OnlyIo.bind (OnlyIo.io _) fun _ => ?_
  refine OnlyIo.bind (backup_existing_only_io _ _) fun payload_backup => ?_
  refine OnlyIo.bind (backup_existing_only_io _ _) fun meta_backup => OnlyIo.attempt fun moved => ?_
  have restore (e : IoError) : OnlyIo (do
      Common.restore_backup final_meta meta_backup false
      Common.restore_backup final_payload payload_backup is_dir
      Prog.fail (.Io e) : Action Unit) :=
    OnlyIo.bind (restore_backup_only_io _ _ _) fun _ => OnlyIo.bind (restore_backup_only_io _ _ _) fun _ => OnlyIo.fail e
  cases moved with
  | error e => exact restore e
  | ok _ =>
    refine OnlyIo.attempt fun moved' => ?_
    cases moved' with
    | error e => exact OnlyIo.bind (remove_path_if_exists_only_io _ _) fun _ => restore e
    | ok _ => exact OnlyIo.bind (cleanup_backup_only_io _ _) fun _ => cleanup_backup_only_io _ _

theorem publish_only_io (tmp final : OsPath) (is_dir : Bool) (record : ObjectMeta) :
    OnlyIo (fs.publish draws bucket key tmp final is_dir record) := by
  refine OnlyIo.bind (OnlyIo.io _) fun _ => OnlyIo.guarded ?_
  exact OnlyIo.bind (OnlyIo.io _) fun _ => publish_temp_payload_and_meta_only_io _ _ _ _ _ _ _

theorem index_upsert_only_io (record : ObjectMeta) : OnlyIo (fs.index_upsert bucket record) := by
  have removed : OnlyIo (fs.index_remove bucket record.key) := by
    unfold FilesystemStorage.index_remove
    split
    · exact OnlyIo.tell _
    · exact OnlyIo.pure ()
  refine OnlyIo.bind removed fun _ => ?_
  split
  · exact OnlyIo.tell _
  · exact OnlyIo.pure ()

/-- The version of a record that has an id is stored with failures of the filesystem only. -/
theorem write_version_only_io {record : ObjectMeta} (dated : record.version_id.isSome = true) (data_path : OsPath) :
    OnlyIo (fs.write_version bucket key record data_path) := by
  obtain ⟨version_id,given⟩ := Option.isSome_iff_exists.mp dated
  unfold FilesystemStorage.write_version
  rw [given]
  exact OnlyIo.bind (OnlyIo.io _) fun _ => OnlyIo.bind (OnlyIo.io _) fun _ => OnlyIo.io _

theorem write_version_chunked_only_io {record : ObjectMeta} (dated : record.version_id.isSome = true) :
    OnlyIo (fs.write_version_chunked bucket key record) := by
  obtain ⟨version_id,given⟩ := Option.isSome_iff_exists.mp dated
  unfold FilesystemStorage.write_version_chunked
  rw [given]
  refine OnlyIo.bind (OnlyIo.io _) fun _ => OnlyIo.bind (OnlyIo.io _) fun _ => ?_
  refine OnlyIo.bind (OnlyIo.bind (OnlyIo.io _) fun names => OnlyIo.each fun _ => OnlyIo.io _) fun _ => OnlyIo.io _

theorem finish_put_only_io {record : ObjectMeta} {write : Action Unit}
    (written : record.version_id.isSome = true → OnlyIo write) : OnlyIo (fs.finish_put bucket record write) := by
  have kept : OnlyIo (FilesystemStorage.keep_version record write) := by
    unfold FilesystemStorage.keep_version
    split
    next dated => exact written dated
    next => exact OnlyIo.pure ()
  exact OnlyIo.bind kept fun _ => OnlyIo.bind (index_upsert_only_io fs bucket record) fun _ => OnlyIo.pure _

theorem put_folder_marker_only_io (P : Primitives) : OnlyIo (fs.put_folder_marker P draws bucket key) := by
  refine OnlyIo.bind (OnlyIo.io _) fun _ => OnlyIo.bind (OnlyIo.io _) fun _ => OnlyIo.bind (OnlyIo.io _) fun _ => ?_
  exact OnlyIo.bind (index_upsert_only_io fs bucket _) fun _ => OnlyIo.pure _

end Publication

/-! ### Up to the publication -/

theorem pump_ended {α : Type} {write : α → Bytes → Action α} {failed : IoError → StorageError} {reads : List Bytes}
    {failure : Option IoError} {start last : α} {w w' : World}
    (done : pump write failed reads failure start w = (.ok last,w')) : failure = none :=
  (pump_ok (fun _ _ _ => True) (fun _ _ _ _ _ _ _ _ => trivial) [] trivial done).1

section Put
variable {P : Primitives} {fs : FilesystemStorage} {bucket key : String} {draws : Draws}

/-- Temporary siblings of a key's places. -/
abbrev Temporary (fs : FilesystemStorage) (bucket key : String) (draws : Draws) : OsPath → Prop :=
  Touched fs bucket key [] (tempNames draws) []

/-- Errors of the filesystem in a put whose body did not fail. -/
abbrev OfFilesystem (body : ByteStream) (e : StorageError) : Prop := body.failure = none ∧ e.FromIo

variable {content_type : String} {body : ByteStream}

private theorem temporary_home {n : String} (member : n ∈ tempNames draws) (q : OsPath)
    (below : home fs bucket key ++ [n] <+: q) : Temporary fs bucket key draws q :=
  .inl ⟨n,List.mem_append_right _ member,below⟩

private theorem temporary_object {n : String} (member : n ∈ tempNames draws) (q : OsPath)
    (below : objectDir fs bucket key ++ [n] <+: q) : Temporary fs bucket key draws q :=
  .inr (.inl ⟨n,member,below⟩)

theorem store_chunked_ended {algo : Option ChecksumAlgorithm} :
    Prog.Gives (fs.store_chunked P draws bucket key content_type body algo) fun _ => body.failure = none := by
  refine Prog.Gives.guarded (Prog.Gives.bind fun _ => Prog.Gives.bind fun _ => ?_)
  intro w record w' done
  obtain ⟨acc,w₁,pumped,_⟩ := Prog.bind_ok_iff.mp done
  exact pump_ended pumped

theorem store_chunked_encrypted_ended {checksum : ChecksumRequest} {encryption : EncryptionRequest} :
    Prog.Gives (fs.store_chunked_encrypted P draws bucket key content_type body checksum encryption)
      fun _ => body.failure = none := by
  refine Prog.Gives.guarded (Prog.Gives.bind fun _ => Prog.Gives.bind fun _ => ?_)
  refine Prog.Gives.bind fun _ => Prog.Gives.bind fun _ => ?_
  intro w record w' done
  obtain ⟨acc,w₁,pumped,_⟩ := Prog.bind_ok_iff.mp done
  exact pump_ended pumped

theorem store_flat_ended {checksum : ChecksumRequest} {version_id : Option String}
    {sealing : Option (EncryptionMeta × FrameCipher)} :
    Prog.Gives (fs.store_flat P draws bucket key content_type body checksum version_id sealing)
      fun _ => body.failure = none := by
  refine Prog.Gives.bind fun _ => Prog.Gives.guarded (Prog.Gives.bind fun _ => ?_)
  intro w record w' done
  obtain ⟨acc,w₁,pumped,_⟩ := Prog.bind_ok_iff.mp done
  exact pump_ended pumped

variable (accepted : Accepted bucket key)
include accepted

theorem in_temp_ec_dir_spares {α : Type} {bad : StorageError → Prop} {write : OsPath → Action α}
    (inner : ∀ tmp, Leads tmp (home fs bucket key) (tempName draws.tmp_payload) →
      LeavesAlone bad (Temporary fs bucket key draws) (Opened fs bucket key) (write tmp)) :
    LeavesAlone bad (Temporary fs bucket key draws) (Opened fs bucket key)
      (fs.in_temp_ec_dir draws bucket key write) := by
  have leads := accepted.temp_ec_leads fs draws.tmp_payload_slash
  have inside : ∀ q, home fs bucket key ++ [tempName draws.tmp_payload] <+: q → Temporary fs bucket key draws q :=
    temporary_home (by simp [tempNames])
  refine LeavesAlone.guarded ?_ leads.entry fun q below => inside q (leads.names ▸ below)
  refine LeavesAlone.bind (Frames.io (Fs.frames_create_dir_all ?_ ?_)) fun _ => ?_
  · rw [accepted.ec_leads.parent]
    exact accepted.home_forward fs
  · rw [accepted.ec_leads.parent]
    exact opened_home accepted
  · refine LeavesAlone.bind (Frames.io (Fs.frames_create_dir_all leads.entry.forward fun q above => ?_)) fun _ => inner _ leads
    rw [leads.names,List.prefix_concat_iff] at above
    rcases above with same | above
    · exact .inl (inside q (by rw [same]))
    · exact .inr (.inl above)

theorem store_chunked_spares {algo : Option ChecksumAlgorithm} :
    LeavesAlone (OfFilesystem body) (Temporary fs bucket key draws) (Opened fs bucket key)
      (fs.store_chunked P draws bucket key content_type body algo) := by
  refine in_temp_ec_dir_spares accepted fun tmp leads => ?_
  have inside : ∀ q, home fs bucket key ++ [tempName draws.tmp_payload] <+: q → Temporary fs bucket key draws q :=
    temporary_home (by simp [tempNames])
  refine LeavesAlone.pump (fun acc piece => write_plain_frames leads inside _ acc piece) fun ended acc => ?_
  refine LeavesAlone.bind (chunk_finish_frames leads inside _) fun cw => ?_
  refine LeavesAlone.bind (write_manifest_frames leads inside fs _ _ _) fun _ => ?_
  refine LeavesAlone.bind (FilesystemStorage.next_version_id_quiet draws bucket).frames fun _ => ?_
  refine LeavesAlone.of_only_io ?_ fun err => ⟨ended,err,rfl⟩
  exact OnlyIo.bind (publish_only_io _ _ _ _ _ _ _ _) fun _ => OnlyIo.pure _

theorem store_chunked_encrypted_spares {checksum : ChecksumRequest} {encryption : EncryptionRequest} :
    LeavesAlone (OfFilesystem body) (Temporary fs bucket key draws) (Opened fs bucket key)
      (fs.store_chunked_encrypted P draws bucket key content_type body checksum encryption) := by
  refine in_temp_ec_dir_spares accepted fun tmp leads => ?_
  have inside : ∀ q, home fs bucket key ++ [tempName draws.tmp_payload] <+: q → Temporary fs bucket key draws q :=
    temporary_home (by simp [tempNames])
  refine LeavesAlone.bind (FilesystemStorage.next_version_id_quiet draws bucket).frames fun _ => ?_
  refine LeavesAlone.bind (start_encryption_frames fs draws _ _) fun _ => ?_
  refine LeavesAlone.pump (fun sw piece => sealed_write_frames leads inside _ _ sw piece) fun ended _ => ?_
  refine LeavesAlone.bind (sealed_finish_frames leads inside _ _ _) fun sw => ?_
  refine LeavesAlone.bind (write_manifest_frames leads inside fs _ _ _) fun _ => ?_
  refine LeavesAlone.bind (Frames.lift _) fun _ => ?_
  refine LeavesAlone.of_only_io ?_ fun err => ⟨ended,err,rfl⟩
  exact OnlyIo.bind (publish_only_io _ _ _ _ _ _ _ _) fun _ => OnlyIo.pure _

theorem store_flat_spares {checksum : ChecksumRequest} {version_id : Option String}
    {sealing : Option (EncryptionMeta × FrameCipher)} :
    LeavesAlone (OfFilesystem body) (Temporary fs bucket key draws) (Opened fs bucket key)
      (fs.store_flat P draws bucket key content_type body checksum version_id sealing) := by
  have leads := accepted.temp_object_leads fs draws.tmp_payload_slash
  have inside : ∀ q, canon (temp_sibling_path (object_path fs.buckets_dir bucket key) draws.tmp_payload) <+: q →
      Temporary fs bucket key draws q := by
    intro q below
    rw [leads.names] at below
    exact temporary_object (by simp [tempNames]) q below
  have here := inside _ (List.prefix_refl _)
  refine LeavesAlone.bind (Frames.io (Fs.frames_create_dir_all (accepted.objectDir_forward fs) (opened_objectDir accepted)))
    fun _ => LeavesAlone.guarded ?_ leads.entry inside
  refine LeavesAlone.bind (Frames.io (Fs.frames_write leads.entry.forward (fun _ => here) _)) fun _ => ?_
  refine LeavesAlone.pump (fun fw piece => flat_write_frames leads.entry.forward here _ fw piece) fun ended fw => ?_
  refine LeavesAlone.bind (flat_finish_frames leads.entry.forward here _ fw) fun _ => ?_
  refine LeavesAlone.bind (Frames.lift _) fun _ => ?_
  refine LeavesAlone.bind (FilesystemStorage.resolve_default_object_lock_quiet _ bucket).frames fun _ => ?_
  refine LeavesAlone.of_only_io ?_ fun err => ⟨ended,err,rfl⟩
  exact OnlyIo.bind (publish_only_io _ _ _ _ _ _ _ _) fun _ => OnlyIo.pure _

omit accepted in
/-- A store followed by what every put ends with. -/
theorem finished_spares {store : Action ObjectMeta} {write : ObjectMeta → Action Unit}
    (spares : LeavesAlone (OfFilesystem body) (Temporary fs bucket key draws) (Opened fs bucket key) store)
    (ended : Prog.Gives store fun _ => body.failure = none)
    (only : ∀ record, record.version_id.isSome = true → OnlyIo (write record)) :
    LeavesAlone (OfFilesystem body) (Temporary fs bucket key draws) (Opened fs bucket key)
      (store >>= fun record => fs.finish_put bucket record (write record)) := by
  apply LeavesAlone.followed spares
  intro w record w₁ e w' done failed
  exact ⟨ended w record w₁ done,finish_put_only_io fs bucket (only record) w₁ e w' failed⟩

omit accepted in
/-- A put turned down for another reason than a failure of the filesystem, or because the stream of its body failed,
    changes nothing but temporary siblings. -/
theorem put_object_spares {checksum : ChecksumRequest} {encryption : Option EncryptionRequest}
    {declared_size : Option Nat} :
    LeavesAlone (fun e => e.FromIo ∧ (ends_with key "/" = true ∨ (fs.wrap_upload_reader draws body).failure = none))
      (Temporary fs bucket key draws) (Opened fs bucket key)
      (fs.put_object P draws bucket key content_type body checksum encryption declared_size) := by
  by_cases valid : validate_bucket_name bucket = .ok () ∧ validate_key key = .ok ()
  · have accepted : Accepted bucket key := ⟨valid.1,valid.2⟩
    refine LeavesAlone.bind (Frames.lift _) fun _ => ?_
    refine LeavesAlone.bind (Frames.lift _) fun _ => ?_
    refine LeavesAlone.bind (FilesystemStorage.ensure_can_overwrite_quiet _ _ _).frames fun _ => ?_
    refine LeavesAlone.bind (Frames.lift _) fun _ => ?_
    by_cases folder : ends_with key "/" = true
    · simp only
      rw [if_pos folder]
      exact LeavesAlone.of_only_io (put_folder_marker_only_io fs bucket key draws P) fun err => ⟨⟨err,rfl⟩,.inl folder⟩
    · simp only
      rw [if_neg folder]
      refine LeavesAlone.bind (FilesystemStorage.effective_erasure_coding_quiet _).frames fun on => ?_
      have worse : ∀ e, OfFilesystem (fs.wrap_upload_reader draws body) e → e.FromIo ∧ (ends_with key "/" = true ∨
          (fs.wrap_upload_reader draws body).failure = none) := fun e bad => ⟨bad.2,.inr bad.1⟩
      refine LeavesAlone.weaken ?_ worse
      cases on with
      | true =>
        cases encryption with
        | none =>
          refine LeavesAlone.bind (Frames.lift _) fun _ => ?_
          exact finished_spares (store_chunked_spares accepted) store_chunked_ended fun record dated =>
            write_version_chunked_only_io fs bucket key dated
        | some req =>
          refine LeavesAlone.bind (Frames.lift _) fun _ => ?_
          exact finished_spares (store_chunked_encrypted_spares accepted) store_chunked_encrypted_ended
            fun record dated => write_version_chunked_only_io fs bucket key dated
      | false =>
        refine LeavesAlone.bind (FilesystemStorage.next_version_id_quiet draws bucket).frames fun version_id => ?_
        refine LeavesAlone.bind (start_sealing_frames encryption _) fun sealing => ?_
        exact finished_spares (store_flat_spares accepted) store_flat_ended fun record dated =>
          write_version_only_io fs bucket key dated _
  · -- the names are checked before anything else
    intro w e w' failed _
    have same : w' = w := by
      unfold FilesystemStorage.put_object at failed
      cases named : validate_bucket_name bucket with
      | error e₁ =>
        rw [named] at failed
        exact ((Prod.mk.inj failed).2).symm
      | ok _ =>
        cases keyed : validate_key key with
        | error e₁ =>
          rw [named,keyed] at failed
          exact ((Prod.mk.inj failed).2).symm
        | ok _ => exact absurd ⟨named,keyed⟩ valid
    rw [same]
    exact Frame.refl w

end Put
end Maxio
