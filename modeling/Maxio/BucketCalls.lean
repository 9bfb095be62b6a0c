import Maxio.ApartKeys

/-!
The operations of a bucket as calls: what one call changes, whatever its outcome.
-/

set_option linter.unusedSimpArgs false

namespace Maxio
open FileTree (Node Tree)

/-! ### Deletions and new uploads -/

namespace FilesystemStorage
variable (P : Primitives) (fs : FilesystemStorage)

/-- Whether anything is stored as the current object of a key. -/
def object_present (bucket key : String) : Action Bool := do
  if ← io (Fs.try_exists (meta_path fs.buckets_dir bucket key)) then pure true
  else if ← io (Fs.try_exists (object_path fs.buckets_dir bucket key)) then pure true
  else io (Fs.try_exists (ec_dir fs.buckets_dir bucket key))

/-- The lock of the current object, if there is a sidecar, must allow its deletion. -/
def ensure_deletable (draws : Draws) (bucket key : String) (found : Bool) : Action Unit :=
  if found then do
    let record ← fs.read_object_meta bucket key
    Prog.lift (ensure_can_delete_meta P draws.now record)
  else pure ()

/-- The end of a deletion in an unversioned bucket. -/
def remove_object (bucket key : String) : Action DeleteResult := do
  fs.remove_current bucket key
  fs.index_remove bucket key
  remove_empty_parents (bucket_dir fs.buckets_dir bucket) (object_path fs.buckets_dir bucket key).length
    (parent_dir (object_path fs.buckets_dir bucket key))
  pure { version_id := none, is_delete_marker := false }

theorem delete_object_eq (draws : Draws) (bucket key : String) : fs.delete_object P draws bucket key = (do
    Prog.lift (validate_bucket_name bucket)
    Prog.lift (validate_key key)
    if ← unwrap_or false (fs.is_versioned bucket) then do
      let found ← unwrap_or false (Fs.try_exists (meta_path fs.buckets_dir bucket key))
      fs.ensure_deletable P draws bucket key found
      fs.write_delete_marker P draws bucket key
    else
      let present ← fs.object_present bucket key
      if !present then pure { version_id := none, is_delete_marker := false }
      else
        let found ← io (Fs.try_exists (meta_path fs.buckets_dir bucket key))
        fs.ensure_deletable P draws bucket key found
        fs.remove_object bucket key) := by
  have pushed {α β : Type} (c : Prop) [Decidable c] (m m' : Action α) (f : α → Action β) :
      (if c then m else m') >>= f = if c then m >>= f else m' >>= f := by
    by_cases h : c <;> simp [h]
  unfold delete_object
  simp only [object_present,ensure_deletable,remove_object,remove_current,Prog.bind_assoc,pushed,Prog.pure_bind]

end FilesystemStorage

section Footprints
variable {P : Primitives} {fs : FilesystemStorage} {bucket key : String} {draws : Draws} {S G : OsPath → Prop}

/-- Only directories on the way to `dir` are removed. -/
theorem remove_empty_parents_frames {stop dir : OsPath} (plain : PlainDir dir) (above : ∀ q, q <+: dir → G q) (depth : Nat) :
    Frames S G (FilesystemStorage.remove_empty_parents stop depth dir) := by
  induction depth generalizing dir with
  | zero => exact Frames.pure _
  | succ depth ih =>
    have spelled : canon dir = dir := canon_of_plain fun s member => (plain s member).1
    have parent : parent_dir dir = dir.dropLast := by
      rw [show parent_dir dir = (canon dir).dropLast from rfl,spelled]
    have shorter : dir.dropLast <+: dir := List.dropLast_prefix dir
    rw [FilesystemStorage.remove_empty_parents]
    refine Frames.ite (fun _ => Frames.pure _) fun _ => ?_
    refine Frames.bind (Frames.attempt (Fs.frames_remove_dir (fun s member => (plain s member).2) fun _ => .inr ?_))
      fun removed => ?_
    · rw [spelled]
      exact above dir (List.prefix_refl _)
    · cases removed with
      | error e => exact Frames.pure _
      | ok _ =>
        rw [parent]
        exact ih (fun s member => plain s (shorter.subset member)) fun q below => above q (below.trans shorter)

theorem write_delete_marker_frames (accepted : Accepted bucket key) :
    Frames (Touched fs bucket key (ownNames key) (tempNames draws) (versionNames draws.version_id)) (Opened fs bucket key)
      (fs.write_delete_marker P draws bucket key) := by
  have side := @version_meta_leads fs _ _ _ accepted draws.version_id_slash
  refine Frames.bind (Frames.io (Fs.frames_create_dir_all (accepted.versions_forward fs) (opened_versions accepted)))
    fun _ => ?_
  refine Frames.bind (Frames.io (Fs.frames_write side.entry.forward (fun _ => ?_) _)) fun _ => ?_
  · rw [side.names]
    exact .inr (.inr (.intro (by simp [versionNames]) (List.prefix_refl _)))
  refine Frames.bind ((remove_top_level_frames accepted).mono (fun q inside => .inl ?_) fun _ => .inr) fun _ => Frames.pure _
  exact inside.mono fun n member => List.mem_append_left _ member

theorem ensure_deletable_quiet (found : Bool) : Quiet (fs.ensure_deletable P draws bucket key found) := by
  cases found with
  | false => exact Quiet.pure _
  | true => exact Quiet.bind (FilesystemStorage.read_object_meta_quiet bucket key) fun _ => Quiet.lift _

theorem object_present_quiet : Quiet (fs.object_present bucket key) := by
  have seen (p : OsPath) : Quiet (io (Fs.try_exists p)) := Quiet.io (Quiet.observe _)
  have either {c : Prop} [Decidable c] {m m' : Action Bool} (yes : Quiet m) (no : Quiet m') :
      Quiet (if c then m else m') := by
    by_cases h : c
    · rwa [if_pos h]
    · rwa [if_neg h]
  exact Quiet.bind (seen _) fun _ => either (Quiet.pure _) (Quiet.bind (seen _) fun _ => either (Quiet.pure _) (seen _))

theorem remove_object_frames (accepted : Accepted bucket key) :
    Frames (CurrentFiles fs bucket key) (Opened fs bucket key) (fs.remove_object bucket key) := by
  refine Frames.bind (remove_current_frames accepted) fun _ => ?_
  refine Frames.bind (Frames.ite (fun _ => Frames.tell fun _ => rfl) fun _ => Frames.pure _) fun _ => ?_
  refine Frames.bind (remove_empty_parents_frames (accepted.objectDir_plain fs) (fun q below => .inl ?_) _)
    fun _ => Frames.pure _
  exact below.trans (accepted.objectDir_above fs)

/-- So does a deletion, which on a versioned bucket writes a delete marker as a version. -/
theorem delete_object_frames :
    Frames (Touched fs bucket key (ownNames key) (tempNames draws) (versionNames draws.version_id)) (Opened fs bucket key)
      (fs.delete_object P draws bucket key) := by
  rw [fs.delete_object_eq]
  refine Frames.bind_of (Frames.lift _) fun _ _ _ valid => Frames.bind_of (Frames.lift _) fun _ _ _ valid' => ?_
  have accepted : Accepted bucket key := ⟨(lift_ok_iff.mp valid).1,(lift_ok_iff.mp valid').1⟩
  refine Frames.bind (Frames.unwrap_or _ (FilesystemStorage.is_versioned_quiet bucket).frames) fun versioned =>
    Frames.ite (fun _ => ?_) fun _ => ?_
  · refine Frames.bind (Frames.unwrap_or _ (Fs.frames_try_exists _)) fun found => ?_
    exact Frames.bind (ensure_deletable_quiet found).frames fun _ => write_delete_marker_frames accepted
  refine Frames.bind object_present_quiet.frames fun present => Frames.ite (fun _ => Frames.pure _) fun _ => ?_
  refine Frames.bind (Frames.io (Fs.frames_try_exists _)) fun found => ?_
  refine Frames.bind (ensure_deletable_quiet found).frames fun _ => ?_
  exact (remove_object_frames accepted).mono (fun q inside => .inl (inside.mono fun n => List.mem_append_left _))
    fun _ => .inr

theorem augment_spec_frames (spec : UploadEncryptionSpec) : Frames S G (fs.augment_spec P draws spec) := by
  unfold FilesystemStorage.augment_spec
  cases spec.mode with
  | SseS3 => exact Frames.bind (Frames.bind (Frames.lift _) fun _ => aes_encrypt_frames _ _ _ _ _ _) fun _ => Frames.pure _
  | SseKms =>
    cases fs.kms with
    | none => exact Frames.fail _
    | some kms =>
      exact Frames.bind (Frames.bind (aes_encrypt_frames _ _ _ _ _ _) fun _ => Frames.pure _) fun _ => Frames.pure _
  | SseC => exact Frames.pure _

/-- A new upload makes its own directory and its record. -/
theorem create_multipart_upload_frames (content_type : String) (algorithm : Option ChecksumAlgorithm)
    (spec : Option UploadEncryptionSpec) :
    Frames (InUpload fs bucket draws.upload_id) (fun q => q <+: uploadAt fs bucket draws.upload_id)
      (fs.create_multipart_upload P draws bucket key content_type algorithm spec) := by
  refine Frames.bind_of (Frames.lift _) fun _ _ _ valid => Frames.bind (Frames.lift _) fun _ => ?_
  have bucketed := validBucket_of_validate (lift_ok_iff.mp valid).1
  have dir : upload_dir fs.buckets_dir bucket draws.upload_id = uploadAt fs bucket draws.upload_id :=
    upload_dir_eq bucketed (namesUpload_drawn draws)
  have plain : PlainDir (uploadAt fs bucket draws.upload_id) := uploadAt_plain bucketed (namesUpload_drawn draws)
  have leads := @upload_record_leads fs _ _ bucketed (namesUpload_drawn draws)
  rw [dir]
  refine Frames.bind (Frames.io (Fs.frames_create_dir_all (fun s member => (plain s member).2) fun q above => .inr ?_))
    fun _ => ?_
  · rwa [canon_of_plain fun s member => (plain s member).1] at above
  have recorded (record : MultipartUploadMeta) :
      Frames (InUpload fs bucket draws.upload_id) (fun q => q <+: uploadAt fs bucket draws.upload_id) (do
        io (Fs.write (upload_meta_path fs.buckets_dir bucket draws.upload_id) (.json (.upload record)))
        pure record : Action MultipartUploadMeta) := by
    refine Frames.bind (Frames.io (Fs.frames_write leads.entry.forward (fun _ => ?_) _)) fun _ => Frames.pure _
    rw [leads.names]
    exact List.prefix_append _ _
  cases spec with
  | none => exact Frames.bind (Frames.pure _) fun _ => recorded _
  | some spec => exact Frames.bind (augment_spec_frames spec) fun own => Frames.bind (Frames.pure _) fun _ => recorded _

theorem config_frames {from_str : String → Except String Json} (call : ConfigCall) :
    Frames (fun q => q = base fs.buckets_dir bucket ++ [".bucket.json"]) G (call.run fs from_str bucket) := by
  refine Frames.bind_of (Frames.lift _) fun _ _ _ valid => ?_
  have leads := @bucket_meta_leads fs _ (validBucket_of_validate (lift_ok_iff.mp valid).1)
  refine Frames.bind ?_ fun _ => Frames.bind (FilesystemStorage.read_bucket_meta_quiet bucket).frames fun record => ?_
  · exact (ConfigCall.check_quiet call).frames
  refine Frames.bind (Frames.lift _) fun record => Frames.io (Fs.frames_write leads.entry.forward (fun _ => ?_) _)
  rw [leads.names]

end Footprints

/-! ### Calls -/

/-- An operation on a bucket, under the name of its function and with its arguments; those on a version, on an upload, on a
    sidecar and on the settings have calls of their own. -/
inductive BucketCall where
  | put_object (key content_type : String) (body : ByteStream) (checksum : ChecksumRequest)
      (encryption : Option EncryptionRequest) (declared_size : Option Nat)
  | get_object (key : String) (customer_key : Option Bytes)
  | head_object (key : String)
  | delete_object (key : String)
  | create_multipart_upload (key content_type : String) (checksum_algorithm : Option ChecksumAlgorithm)
      (encryption_spec : Option UploadEncryptionSpec)
  | upload (upload_id : String) (call : UploadCall)
  | version (key version_id : String) (call : VersionCall)
  | update (key : String) (call : UpdateCall)
  | configure (call : ConfigCall)

/-- The calls on a version that only look. -/
def VersionCall.looks : VersionCall → Bool
  | .get_object_version _ _ _ | .head_object_version | .get_object_retention | .get_object_legal_hold => true
  | _ => false

namespace BucketCall

section
variable (P : Primitives) (fs : FilesystemStorage) (from_str : String → Except String Json) (bucket : String) (draws : Draws)

/-- The call, but for its answer. -/
def run : BucketCall → Action Unit
  | put_object key content_type body checksum encryption declared_size => do
    let _ ← fs.put_object P draws bucket key content_type body checksum encryption declared_size
  | get_object key customer_key => do
    let _ ← fs.get_object P bucket key customer_key
  | head_object key => do
    let _ ← fs.head_object bucket key
  | delete_object key => do
    let _ ← fs.delete_object P draws bucket key
  | create_multipart_upload key content_type checksum_algorithm encryption_spec => do
    let _ ← fs.create_multipart_upload P draws bucket key content_type checksum_algorithm encryption_spec
  | upload upload_id call => do
    let _ ← call.run P fs draws bucket upload_id
  | version key version_id call => do
    let _ ← call.run P fs draws bucket key version_id
  | update key call => call.run fs bucket key none
  | configure call => call.run fs from_str bucket

/-- What the call may change. -/
def Touches (w : World) (q : OsPath) : BucketCall → Prop
  | put_object key _ _ _ _ _ | delete_object key =>
    Touched fs bucket key (ownNames key) (tempNames draws) (versionNames draws.version_id) q
  | get_object _ _ | head_object _ => False
  | create_multipart_upload _ _ _ _ => InUpload fs bucket draws.upload_id q
  | upload upload_id call => call.Touches fs draws bucket upload_id w q
  | version key version_id call => call.Touches fs bucket key version_id q
  | update key _ => q = metaAt fs bucket key
  | configure _ => q = base fs.buckets_dir bucket ++ [".bucket.json"]

/-- The directories it may make or remove. -/
def Opens (w : World) (q : OsPath) : BucketCall → Prop
  | put_object key _ _ _ _ _ | delete_object key => Opened fs bucket key q
  | create_multipart_upload _ _ _ _ => q <+: uploadAt fs bucket draws.upload_id
  | upload upload_id call => call.Opens fs bucket upload_id w q
  | version key _ call => call.Opens fs bucket key q
  | _ => False

/-- The ids in the call lead where they seem to: an upload id to the directory of an upload whose record names a key that
    a request could have named, the id of a version that is to be changed into the versions directory of the key. -/
def Straight (w : World) : BucketCall → Prop
  | upload upload_id _ => upload_id ≠ "." ∧
    ∀ key, UploadCall.Recorded fs bucket upload_id w key → validate_key key = .ok ()
  | version _ version_id call => call.looks = true ∨ '/' ∉ version_id.toList
  | _ => True

end

section Frames
variable {P : Primitives} {fs : FilesystemStorage} {from_str : String → Except String Json} {bucket key : String}
  {draws : Draws} {w : World}

theorem lift_refused {ε α β : Type} {r : Except ε α} {f : α → Prog World ε β} (refused : ∀ a, r ≠ .ok a) :
    ((Prog.lift r >>= f) w).2 = w := by
  cases r with
  | error e => rfl
  | ok a => exact absurd rfl (refused a)

/-- The last steps of a call that only drop or wrap up its result. -/
theorem frame_dropped {ε α β : Type} {S G : OsPath → Prop} {m : Prog World ε α} {b : β} (frame : Frame S G w (m w).2) :
    Frame S G w ((do let _ ← m; pure b : Prog World ε β) w).2 := Frame.wrapped frame

theorem update_frame (call : UpdateCall) (named : validate_bucket_name bucket = .ok ()) :
    Frame (fun q => q = metaAt fs bucket key) (fun _ => False) w (call.run fs bucket key none w).2 := by
  have tags (new : Option (List (String × String))) :
      Frames (fun q => q = metaAt fs bucket key) (fun _ => False) (fs.set_tags bucket key new) := by
    refine Frames.bind_of (Frames.lift _) fun _ _ _ valid => ?_
    have accepted : Accepted bucket key := ⟨named,(lift_ok_iff.mp valid).1⟩
    refine Frames.bind (FilesystemStorage.read_object_meta_quiet bucket key).frames fun record => Frames.io ?_
    refine Fs.frames_write accepted.meta_leads.entry.forward (fun _ => ?_) _
    rw [accepted.meta_leads.names]
    rfl
  have lock (set : ObjectMeta → ObjectMeta) :
      Frames (fun q => q = metaAt fs bucket key) (fun _ => False) (fs.set_lock bucket key none set) := by
    refine Frames.bind (Frames.lift _) fun _ => Frames.bind_of (Frames.lift _) fun _ _ _ valid => ?_
    have accepted : Accepted bucket key := ⟨named,(lift_ok_iff.mp valid).1⟩
    refine Frames.bind (FilesystemStorage.read_bucket_meta_quiet bucket).frames fun settings => ?_
    refine Frames.ite (fun _ => Frames.fail _) fun _ => Frames.bind read_meta_at_quiet.frames fun record => ?_
    rw [write_meta_at_eq]
    refine Frames.io (Fs.frames_write accepted.meta_leads.entry.forward (fun _ => ?_) _)
    rw [accepted.meta_leads.names]
    rfl
  cases call with
  | put_object_tagging new => exact tags _ w
  | delete_object_tagging => exact tags _ w
  | put_object_retention retention => exact lock _ w
  | put_object_legal_hold status => exact lock _ w

theorem looks_quiet {call : VersionCall} {version_id : String} (looks : call.looks = true) :
    Quiet (call.run P fs draws bucket key version_id) := by
  cases call with
  | get_object_version ck caps turns =>
    exact Quiet.bind (Quiet.bind (get_object_version_quiet ck) fun _ => Quiet.pure _) fun _ => Quiet.pure _
  | head_object_version => exact Quiet.bind head_object_version_quiet fun _ => Quiet.pure _
  | get_object_retention => exact Quiet.bind (get_object_retention_quiet _) fun _ => Quiet.pure _
  | get_object_legal_hold => exact Quiet.bind (get_object_legal_hold_quiet _) fun _ => Quiet.pure _
  | delete_object_version => cases looks
  | put_object_retention retention => cases looks
  | put_object_legal_hold status => cases looks

theorem version_refused (refused : ∀ u, validate_key key ≠ .ok u) (call : VersionCall) {version_id : String} :
    (call.run P fs draws bucket key version_id w).2 = w := by
  by_cases looks : call.looks = true
  · exact looks_quiet looks w
  obtain ⟨e,invalid⟩ : ∃ e, validate_key key = .error e := by
    cases valid : validate_key key with
    | error e => exact ⟨e,rfl⟩
    | ok u => exact absurd valid (refused u)
  cases call with
  | delete_object_version =>
    rw [VersionCall.run,delete_object_version_eq,invalid]
    cases validate_bucket_name bucket <;> rfl
  | put_object_retention retention =>
    rw [VersionCall.run,FilesystemStorage.put_object_retention,invalid]
    cases validate_bucket_name bucket <;> rfl
  | put_object_legal_hold status =>
    rw [VersionCall.run,FilesystemStorage.put_object_legal_hold,invalid]
    cases validate_bucket_name bucket <;> rfl
  | get_object_version ck caps turns => exact absurd rfl looks
  | head_object_version => exact absurd rfl looks
  | get_object_retention => exact absurd rfl looks
  | get_object_legal_hold => exact absurd rfl looks

theorem upload_refused {upload_id : String} (refused : ∀ u, validate_upload_id upload_id ≠ .ok u) (call : UploadCall) :
    (call.run P fs draws bucket upload_id w).2 = w := by
  obtain ⟨e,invalid⟩ : ∃ e, validate_upload_id upload_id = .error e := by
    cases valid : validate_upload_id upload_id with
    | error e => exact ⟨e,rfl⟩
    | ok u => exact absurd valid (refused u)
  cases call with
  | upload_part n body checksum ck size =>
    rw [UploadCall.run,FilesystemStorage.upload_part,invalid]
    cases validate_bucket_name bucket <;> rfl
  | list_parts =>
    rw [UploadCall.run,FilesystemStorage.list_parts,invalid]
    cases validate_bucket_name bucket <;> rfl
  | complete_multipart_upload parts ck =>
    rw [UploadCall.run,FilesystemStorage.complete_multipart_upload,invalid]
    cases validate_bucket_name bucket <;> rfl
  | abort_multipart_upload =>
    rw [UploadCall.run,FilesystemStorage.abort_multipart_upload,invalid]
    cases validate_bucket_name bucket <;> rfl

/-- A call changes what it touches, and makes or removes directories it opens. -/
theorem run_frame (call : BucketCall) (named : validate_bucket_name bucket = .ok ())
    (straight : call.Straight fs bucket w) :
    Frame (fun q => call.Touches fs bucket draws w q) (fun q => call.Opens fs bucket draws w q) w
      (call.run P fs from_str bucket draws w).2 := by
  cases call with
  | put_object key content_type body checksum encryption size =>
    exact frame_dropped (put_object_frames content_type body checksum encryption size w)
  | get_object key ck => exact frame_dropped ((get_object_quiet ck).frames w)
  | head_object key => exact frame_dropped (head_object_quiet.frames w)
  | delete_object key => exact frame_dropped (delete_object_frames w)
  | create_multipart_upload key content_type algorithm spec =>
    exact frame_dropped (create_multipart_upload_frames content_type algorithm spec w)
  | upload upload_id call =>
    refine frame_dropped ?_
    by_cases valid : validate_upload_id upload_id = .ok ()
    · exact UploadCall.run_frame named (namesUpload_of_validate valid straight.1) call straight.2
    · rw [upload_refused (fun _ => valid) call]
      exact Frame.refl w
  | version key version_id call =>
    refine frame_dropped ?_
    by_cases looks : call.looks = true
    · exact (looks_quiet looks).frames w
    by_cases valid : validate_key key = .ok ()
    · exact VersionCall.run_frame named valid (straight.resolve_left looks) call w
    · rw [version_refused (fun _ => valid) call]
      exact Frame.refl w
  | update key call => exact update_frame call named
  | configure call => exact config_frames call w

end Frames
end BucketCall

end Maxio
