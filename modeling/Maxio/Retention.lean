import Maxio.BucketConfig
import Maxio.Checksums
import Maxio.CompletionSpec
import Maxio.PublishFaults

/-!
Default retention. A bucket under object lock gives new objects a mode and a date until which they are retained; of
the ways to make an object only the flat put applies it.
-/

set_option linter.unusedSimpArgs false

namespace Maxio
open FileTree (Node Tree)

/-! ### Copying -/

/-- How a copy fails. -/
inductive CopyFailure where
  | no_such_bucket (bucket : String)
  | no_such_key (key : String)
  | invalid_argument (message : String)
  | internal (e : StorageError)
  | upload (e : StorageError)
  deriving DecidableEq, Repr

/-- What the headers of a copy ask for. -/
structure CopyRequest where
  src_bucket : String
  src_key : String
  src_customer_key : Option Bytes
  metadata_directive : Option String
  content_type : Option String
  encryption : Option EncryptionRequest

structure CopyObjectResult where
  etag : String
  last_modified : String
  version_id : Option String
  deriving DecidableEq, Repr

def copy_source_error (src_key : String) : StorageError → CopyFailure
  | .NotFound _ => .no_such_key src_key
  | .InvalidKey msg => .invalid_argument msg
  | .DecryptionError msg => .invalid_argument msg
  | .IntegrityError msg => .invalid_argument msg
  | e => .internal e

def encryption_from_bucket_default (cfg : BucketEncryptionConfig) : EncryptionRequest :=
  if cfg.sse_algorithm = "aws:kms" then { mode := .SseKms, customer_key := none, kms_key_id := cfg.kms_key_id }
  else .sse_s3

namespace CopyRequest

/-- The content type a copy gets. -/
def chosen_content_type (request : CopyRequest) (src_meta : ObjectMeta) : Except CopyFailure String :=
  let directive := request.metadata_directive.getD "COPY"
  if directive = "COPY" then .ok src_meta.content_type
  else if directive = "REPLACE" then .ok (request.content_type.getD "application/octet-stream")
  else .error (.invalid_argument "invalid x-amz-metadata-directive")

end CopyRequest

section
variable (P : Primitives)

namespace FilesystemStorage
variable (fs : FilesystemStorage)

def get_bucket_encryption (bucket : String) : Action (Option BucketEncryptionConfig) := do
  let record ← fs.read_bucket_meta bucket
  pure record.encryption_config

/-- What was asked for, or else the default of the bucket. -/
def copy_encryption (bucket : String) (requested : Option EncryptionRequest) : Action (Option EncryptionRequest) :=
  match requested with
  | some req => pure (some req)
  | none => do
    let config ← unwrap_or none (fs.get_bucket_encryption bucket)
    pure (config.map encryption_from_bucket_default)

/-- The handler of CopyObject; `stream` gives the reads a reader answers with. -/
def copy_object (draws : Draws) (stream : ObjectReader → ByteStream) (request : CopyRequest) (bucket key : String) :
    Prog World CopyFailure CopyObjectResult := do
  let found ← (fs.head_bucket bucket).mapError .internal
  if !found then Prog.fail (.no_such_bucket bucket)
  else
    let (reader,src_meta) ← (fs.get_object P request.src_bucket request.src_key request.src_customer_key).mapError
      (copy_source_error request.src_key)
    let content_type ← Prog.lift (request.chosen_content_type src_meta)
    let checksum : ChecksumRequest := src_meta.checksum_algorithm.map fun algo => (algo,none)
    let encryption ← (fs.copy_encryption bucket request.encryption).mapError .internal
    let result ← (fs.put_object P draws bucket key content_type (stream reader) checksum encryption
      (some src_meta.size)).mapError .upload
    let dst_meta ← (fs.head_object bucket key).mapError .internal
    pure { etag := result.etag, last_modified := dst_meta.last_modified, version_id := result.version_id }

end FilesystemStorage
end

/-! ### Ways to make an object -/

/-- A call that makes an object. -/
inductive ObjectWrite where
  | put_object (content_type : String) (body : ByteStream) (checksum : ChecksumRequest)
      (encryption : Option EncryptionRequest) (declared_size : Option Nat)
  | copy_object (stream : ObjectReader → ByteStream) (request : CopyRequest)
  | complete_multipart_upload (upload_id : String) (upload : MultipartUploadMeta) (parts : List (Nat × String))
      (customer_key : Option Bytes)

namespace ObjectWrite
variable (P : Primitives) (fs : FilesystemStorage) (draws : Draws) (bucket key : String)

/-- The call succeeds for the key, and the object has the version id. A completion is one of an upload for that key. -/
def Makes (version_id : Option String) (w w' : World) : ObjectWrite → Prop
  | put_object content_type body checksum encryption declared_size => ∃ result,
      fs.put_object P draws bucket key content_type body checksum encryption declared_size w = (.ok result,w') ∧
        version_id = result.version_id
  | copy_object stream request => ∃ result,
      fs.copy_object P draws stream request bucket key w = (.ok result,w') ∧ version_id = result.version_id
  | complete_multipart_upload upload_id upload parts customer_key => UploadStored P fs bucket upload_id upload w ∧
      upload.key = key ∧ ∃ result, fs.complete_multipart_upload P draws bucket upload_id parts customer_key w =
        (.ok result,w') ∧ version_id = result.version_id

/-- The call ends in the flat put of an object that is no folder marker. -/
def PutsFlat (w : World) : ObjectWrite → Prop
  | put_object .. | copy_object .. => ends_with key "/" = false ∧ coded fs bucket w = false
  | complete_multipart_upload .. => False

end ObjectWrite

/-- New objects of the bucket are to be retained, in the mode and for the days. -/
structure DefaultRetention (fs : FilesystemStorage) (bucket : String) (mode : ObjectLockMode) (days : Nat) (w : World) :
    Prop where
  settings : ∃ record config, bucketRecord fs bucket w = some record ∧ record.object_lock_enabled = true ∧
    record.object_lock_config = some config ∧ config.default_retention_mode = some mode ∧
    config.default_retention_days = some days
  positive : 0 < days

/-- The date so many days after the call. -/
def retainUntil (P : Primitives) (draws : Draws) (days : Nat) : String :=
  P.format_time (draws.now + days * 86400000)

/-- The sidecar of a version. -/
def versionMetaAt (fs : FilesystemStorage) (bucket key version_id : String) : OsPath :=
  versionsAt fs bucket key ++ [version_id ++ ".meta.json"]

/-- The record at the place carries the mode and the date. -/
def CarriesLock (mode : ObjectLockMode) (until_date : String) (w : World) (q : OsPath) : Prop :=
  ∃ record, w.tree.node q = some (.file (.json (.object record))) ∧ record.object_lock_mode = some mode ∧
    record.retain_until_date = some until_date

/-- Both the sidecar of the object and, if it has one, the sidecar of its version carry the mode and the date. -/
def Retained (fs : FilesystemStorage) (bucket key : String) (version_id : Option String) (mode : ObjectLockMode)
    (until_date : String) (w : World) : Prop :=
  CarriesLock mode until_date w (metaAt fs bucket key) ∧
    ∀ id, version_id = some id → CarriesLock mode until_date w (versionMetaAt fs bucket key id)

/-! ### How runs end -/

/-- What a run that succeeds hands over, and the state it ends in. -/
def Prog.Ends {σ ε α : Type} (m : Prog σ ε α) (Q : α → σ → Prop) : Prop := ∀ s a s', m s = (.ok a,s') → Q a s'

namespace Prog.Ends
variable {σ ε α β : Type} {Q : β → σ → Prop}

theorem bind {m : Prog σ ε α} {f : α → Prog σ ε β} (second : ∀ a, Ends (f a) Q) : Ends (m >>= f) Q := by
  intro s b s' done
  obtain ⟨a,s₁,_,last⟩ := Prog.bind_ok_iff.mp done
  exact second a s₁ b s' last

theorem bind_of {m : Prog σ ε α} {f : α → Prog σ ε β} {given : α → Prop} (first : ∀ s a s', m s = (.ok a,s') → given a)
    (second : ∀ a, given a → Ends (f a) Q) : Ends (m >>= f) Q := by
  intro s b s' done
  obtain ⟨a,s₁,one,last⟩ := Prog.bind_ok_iff.mp done
  exact second a (first s a s₁ one) s₁ b s' last

theorem guarded {drop : σ → σ} {m : Prog σ ε β} (inner : Ends m Q) : Ends (Prog.guarded drop m) Q := by
  intro s b s' done
  exact inner s b s' (Prog.guarded_ok_iff.mp done)

end Prog.Ends

/-- What a run that succeeds hands over, when it starts in a state with the property. -/
def Prog.EndsFrom {σ ε α : Type} (I : σ → Prop) (m : Prog σ ε α) (Q : α → σ → Prop) : Prop :=
  ∀ s a s', I s → m s = (.ok a,s') → Q a s'

namespace Prog.EndsFrom
variable {σ ε α β : Type} {I : σ → Prop} {Q : β → σ → Prop}

theorem bind {m : Prog σ ε α} {f : α → Prog σ ε β} (first : EndsFrom I m fun _ => I) (second : ∀ a, EndsFrom I (f a) Q) :
    EndsFrom I (m >>= f) Q := by
  intro s b s' start done
  obtain ⟨a,s₁,one,last⟩ := Prog.bind_ok_iff.mp done
  exact second a s₁ b s' (first s a s₁ start one) last

theorem guarded {drop : σ → σ} {m : Prog σ ε β} (inner : EndsFrom I m Q) : EndsFrom I (Prog.guarded drop m) Q := by
  intro s b s' start done
  exact inner s b s' start (Prog.guarded_ok_iff.mp done)

end Prog.EndsFrom

namespace Common
section
variable {dir final_payload final_meta tmp_payload tmp_meta : OsPath}
  {payload meta_name tmp tmp_side payload_uuid meta_uuid : String}

/-- A publication succeeds only when there is something to publish. -/
theorem publish_temp_present (slots : Slots dir final_payload final_meta tmp_payload tmp_meta payload meta_name tmp
    tmp_side payload_uuid meta_uuid) {is_dir : Bool} {w w' : World}
    (done : publish_temp_payload_and_meta tmp_payload final_payload is_dir tmp_meta final_meta payload_uuid meta_uuid w =
      (.ok (),w')) : w.tree.node (dir ++ [tmp]) ≠ none := by
  obtain ⟨pm,pt,ps,pb,pc,mt,ms,mb,mc,ts,tb,tc,sb,sc,bc⟩ := slots.names_ne
  simp only [publish_temp_payload_and_meta,slots.payload_leads.parent,slots.meta_leads.parent,Prog.bind_ok_iff,io_ok_iff,
    attempt_ok_iff] at done
  obtain ⟨_,w₁,made,_,w₂,made',backup,w₃,first,backup',w₄,second,moved,w₅,third,done⟩ := done
  obtain ⟨_,_,kept₁⟩ := backup_existing_done slots.payload_leads slots.plain slots.spelled.1 pb first
  obtain ⟨_,_,kept₂⟩ := backup_existing_done slots.meta_leads slots.plain slots.spelled.2 mc second
  have below : ¬ dir ++ [tmp] <+: dir := fun within => absurd within.length_le (by simp)
  have single : ∀ {a : String}, a ≠ tmp → ¬ dir ++ [a] <+: dir ++ [tmp] := by
    intro a apart
    have outside : ¬ dir ++ [a] <+: dir ++ [tmp] ++ [] := not_prefix_of_ne apart []
    rwa [List.append_nil] at outside
  have same : w₄.tree.node (dir ++ [tmp]) = w.tree.node (dir ++ [tmp]) := by
    rw [kept₂ _ (single mt) (single tc.symm),kept₁ _ (single pt) (single tb.symm),
      (create_dir_all_kept slots.plain slots.nonroot made').2 below,
      (create_dir_all_kept slots.plain slots.nonroot made).2 below]
  cases moved with
  | error e =>
    simp only [Prog.bind_ok_iff] at done
    obtain ⟨_,_,_,_,_,_,impossible⟩ := done
    simp at impossible
  | ok _ =>
    rw [← same]
    exact (Fs.rename_done slots.tmp_leads slots.payload_leads third).2

end
end Common

section
variable {P : Primitives} {fs : FilesystemStorage} {bucket key : String} {draws : Draws} {w w' : World}

/-- A publication that succeeds shows the record. -/
theorem publish_shows (accepted : Accepted bucket key) {payload : String} {tmp final : OsPath} {is_dir : Bool}
    {record : ObjectMeta} (final_leads : Leads final (home fs bucket key) payload)
    (tmp_leads : Leads tmp (home fs bucket key) (tempName draws.tmp_payload)) (apart : payload ≠ metaName key)
    (own : ∀ uuid : String, '.' ∉ uuid.toList → payload ≠ tempName uuid)
    (done : fs.publish draws bucket key tmp final is_dir record w = (.ok (),w')) : Shows fs bucket key record w' := by
  have slots := publish_slots accepted final_leads tmp_leads apart own
  have side_leads := accepted.temp_meta_leads fs draws.tmp_meta_slash
  have names : tempName draws.tmp_payload ≠ tempName draws.tmp_meta := slots.names_ne.2.2.2.2.2.2.2.2.2.1
  refine (publish_done accepted final_leads tmp_leads apart own ?_ done).1
  unfold FilesystemStorage.publish at done
  simp only [accepted.meta_leads.parent,Common.with_guard,Prog.bind_ok_iff,io_ok_iff,Prog.guarded_ok_iff] at done
  obtain ⟨_,w₁,made,_,w₂,written,published⟩ := done
  have present := Common.publish_temp_present slots published
  obtain ⟨sets,_,_⟩ := Fs.write_done side_leads written
  rw [sets.other fun same => names (List.append_cancel_left same |> List.cons.inj |>.1)] at present
  rwa [(Common.create_dir_all_kept accepted.plain_home accepted.home_ne made).2
    fun within => absurd within.length_le (by simp)] at present

/-! ### Objects without a lock -/

/-- A new object is shown, and it has no lock. -/
structure Unlocked (fs : FilesystemStorage) (draws : Draws) (bucket key : String) (record : ObjectMeta) (w : World) :
    Prop where
  dated : Dated draws record
  shown : Shows fs bucket key record w
  free : record.object_lock_mode = none

theorem Unlocked.not_retained {record : ObjectMeta} (unlocked : Unlocked fs draws bucket key record w)
    {version_id : Option String} {mode : ObjectLockMode} {until_date : String} :
    ¬ Retained fs bucket key version_id mode until_date w := by
  rintro ⟨⟨other,here,locked,_⟩,_⟩
  have same : record = other := by
    have both := unlocked.shown.symm.trans here
    simpa using both
  rw [← same,unlocked.free] at locked
  cases locked

/-- What leaves the sidecar alone leaves the object without a lock. -/
theorem Unlocked.frame {record : ObjectMeta} (unlocked : Unlocked fs draws bucket key record w) {S G : OsPath → Prop}
    (frame : Frame S G w w') (outside : ¬ S (metaAt fs bucket key)) : Unlocked fs draws bucket key record w' :=
  ⟨unlocked.dated,frame.file outside unlocked.shown,unlocked.free⟩

theorem with_sidecar_mac_object_lock_mode (dek : Option Bytes) (record : ObjectMeta) :
    (with_sidecar_mac P dek record).object_lock_mode = record.object_lock_mode := by
  unfold with_sidecar_mac
  split <;> rfl

theorem with_sidecar_mac_retain_until_date (dek : Option Bytes) (record : ObjectMeta) :
    (with_sidecar_mac P dek record).retain_until_date = record.retain_until_date := by
  unfold with_sidecar_mac
  split <;> rfl

/-- Publishing a directory of chunks with a record that has no lock. -/
theorem publish_chunks_unlocked (accepted : Accepted bucket key) {record : ObjectMeta} (dated : Dated draws record)
    (free : record.object_lock_mode = none) :
    Prog.Ends (do
      fs.publish draws bucket key (temp_sibling_path (ec_dir fs.buckets_dir bucket key) draws.tmp_payload)
        (ec_dir fs.buckets_dir bucket key) true record
      pure record : Action ObjectMeta) (Unlocked fs draws bucket key) := by
  intro w stored w' done
  simp only [Prog.bind_ok_iff,pure_ok_iff] at done
  obtain ⟨_,w₁,published,rfl,rfl⟩ := done
  have shown := publish_shows accepted accepted.ec_leads (accepted.temp_ec_leads fs draws.tmp_payload_slash)
    ecName_ne_metaName (fun _ plain => ecName_ne_tempName plain) published
  exact ⟨dated,shown,free⟩

theorem store_chunked_unlocked (accepted : Accepted bucket key) {content_type : String} {body : ByteStream}
    {algo : Option ChecksumAlgorithm} : Prog.Ends (fs.store_chunked P draws bucket key content_type body algo)
      (Unlocked fs draws bucket key) := by
  refine Prog.Ends.guarded (Prog.Ends.bind fun _ => Prog.Ends.bind fun _ => Prog.Ends.bind fun _ => ?_)
  refine Prog.Ends.bind fun _ => Prog.Ends.bind fun _ => ?_
  refine Prog.Ends.bind_of (fun w id w' => FilesystemStorage.next_version_id_done) fun id given => ?_
  exact publish_chunks_unlocked accepted given rfl

theorem store_chunked_encrypted_unlocked (accepted : Accepted bucket key) {content_type : String} {body : ByteStream}
    {checksum : ChecksumRequest} {encryption : EncryptionRequest} :
    Prog.Ends (fs.store_chunked_encrypted P draws bucket key content_type body checksum encryption)
      (Unlocked fs draws bucket key) := by
  refine Prog.Ends.guarded (Prog.Ends.bind fun _ => Prog.Ends.bind fun _ => ?_)
  refine Prog.Ends.bind_of (fun w id w' => FilesystemStorage.next_version_id_done) fun id given => ?_
  refine Prog.Ends.bind fun _ => Prog.Ends.bind fun _ => Prog.Ends.bind fun _ => Prog.Ends.bind fun _ => ?_
  refine Prog.Ends.bind fun _ => publish_chunks_unlocked accepted ?_ ?_
  · rw [Dated,with_sidecar_mac_version_id]
    exact given
  · rw [with_sidecar_mac_object_lock_mode]
    rfl

theorem completed_meta_unlocked (upload : MultipartUploadMeta) (selected : List PartMeta) (digests : Bytes) (size : Nat)
    (version_id storage_format : Option String) (encryption : Option EncryptionMeta) :
    (FilesystemStorage.completed_meta P draws upload selected digests size version_id storage_format
      encryption).object_lock_mode = none := by
  rfl

section Completion
variable {upload_id : String} {upload : MultipartUploadMeta} {selected : List PartMeta}

theorem store_completed_chunked_unlocked (accepted : Accepted bucket upload.key) :
    Prog.Ends (fs.store_completed_chunked P draws bucket upload_id upload selected)
      (Unlocked fs draws bucket upload.key) := by
  refine Prog.Ends.guarded (Prog.Ends.bind fun _ => Prog.Ends.bind fun _ => ?_)
  refine Prog.Ends.bind_of (fun w id w' => FilesystemStorage.next_version_id_done) fun id given => ?_
  refine Prog.Ends.bind fun _ => Prog.Ends.bind fun _ => Prog.Ends.bind fun _ => ?_
  exact publish_chunks_unlocked accepted given rfl

theorem store_completed_chunked_encrypted_unlocked (accepted : Accepted bucket upload.key) {spec : UploadEncryptionSpec}
    {customer_key : Option Bytes} :
    Prog.Ends (fs.store_completed_chunked_encrypted P draws bucket upload_id upload spec selected customer_key)
      (Unlocked fs draws bucket upload.key) := by
  refine Prog.Ends.guarded (Prog.Ends.bind fun _ => Prog.Ends.bind fun _ => ?_)
  refine Prog.Ends.bind_of (fun w id w' => FilesystemStorage.next_version_id_done) fun id given => ?_
  refine Prog.Ends.bind fun _ => Prog.Ends.bind fun _ => Prog.Ends.bind fun _ => Prog.Ends.bind fun _ => ?_
  refine Prog.Ends.bind fun _ => Prog.Ends.bind fun _ => Prog.Ends.bind fun _ => Prog.Ends.bind fun _ => ?_
  refine publish_chunks_unlocked accepted ?_ ?_
  · rw [Dated,with_sidecar_mac_version_id]
    exact given
  · rw [with_sidecar_mac_object_lock_mode]
    rfl

/-- Publishing a payload file shows the record, whatever it says. -/
theorem publish_file_shows (accepted : Accepted bucket key) {record : ObjectMeta}
    (done : fs.publish draws bucket key (temp_sibling_path (object_path fs.buckets_dir bucket key) draws.tmp_payload)
      (object_path fs.buckets_dir bucket key) false record w = (.ok (),w')) : Shows fs bucket key record w' := by
  have named := accepted.named_of_not_dotted fs (publish_undotted done)
  have leads := accepted.temp_object_leads fs draws.tmp_payload_slash
  rw [accepted.objectDir_of_named fs named] at leads
  exact publish_shows accepted (accepted.object_leads named) leads objectName_ne_metaName
    (fun uuid _ => objectName_ne_tempName accepted.validKey named) done

theorem store_completed_unlocked (accepted : Accepted bucket upload.key) {dek : Option Bytes} {version_id : Option String}
    (given : version_id = none ∨ version_id = some draws.version_id)
    {sealing : Option (EncryptionMeta × Bytes × Bytes)} :
    Prog.Ends (fs.store_completed P draws bucket upload_id upload selected dek version_id sealing)
      (Unlocked fs draws bucket upload.key) := by
  refine Prog.Ends.bind fun _ => Prog.Ends.guarded (Prog.Ends.bind fun _ => Prog.Ends.bind fun _ => ?_)
  refine Prog.Ends.bind fun _ => fun w record w' done => ?_
  simp only [Prog.bind_ok_iff,pure_ok_iff] at done
  obtain ⟨_,w₁,published,rfl,rfl⟩ := done
  refine ⟨?_,publish_file_shows accepted published,?_⟩
  · rw [Dated,with_sidecar_mac_version_id]
    exact given
  · rw [with_sidecar_mac_object_lock_mode,completed_meta_unlocked]

end Completion

/-! ### Objects with the lock of their bucket -/

/-- A new object is shown with the lock, and its version id is `version_id`. -/
structure Locked (fs : FilesystemStorage) (bucket key : String) (version_id : Option String) (mode : ObjectLockMode)
    (until_date : String) (record : ObjectMeta) (w : World) : Prop where
  shown : Shows fs bucket key record w
  version : record.version_id = version_id
  mode : record.object_lock_mode = some mode
  until_date : record.retain_until_date = some until_date

theorem add_days_some {now until_date : Int} {days : Nat} (date : add_days now days = some until_date) :
    until_date = now + days * 86400000 ∧ now + days * 86400000 ≤ MAX_UTC := by
  unfold add_days at date
  split at date
  next within => exact ⟨(Option.some.inj date).symm,within⟩
  next => cases date

/-- The lock of a bucket with default retention, unless there is no such date. -/
theorem resolve_default_object_lock_done (valid : validate_bucket_name bucket = .ok ()) {mode : ObjectLockMode} {days : Nat}
    {lock : Option ObjectLockRetention} (retention : DefaultRetention fs bucket mode days w)
    (done : fs.resolve_default_object_lock P draws.now bucket w = (.ok lock,w')) :
    lock = some { mode, retain_until_date := retainUntil P draws days } := by
  obtain ⟨⟨record,config,found,enabled,has,for_mode,for_days⟩,positive⟩ := retention
  unfold FilesystemStorage.resolve_default_object_lock at done
  rw [Prog.bind_of_ok ((read_bucket_meta_ok_iff valid).mpr ⟨found,rfl⟩)] at done
  simp only [enabled,Bool.not_true,Bool.false_eq_true,if_false,has,for_mode,for_days,
    if_neg (Nat.pos_iff_ne_zero.mp positive)] at done
  cases date : add_days draws.now days with
  | none =>
    rw [date] at done
    cases done
  | some until_date =>
    rw [date] at done
    obtain ⟨rfl,_⟩ := pure_ok_iff.mp done
    rw [retainUntil,(add_days_some date).1]

/-- What a put does beside the sidecar of the bucket leaves its default retention. -/
theorem DefaultRetention.kept {ε α : Type} (draws : Draws) (accepted : Accepted bucket key) {mode : ObjectLockMode} {days : Nat}
    {m : Prog World ε α} (frames : Frames (Touched fs bucket key [] (tempNames draws) []) (Opened fs bucket key) m) :
    Prog.EndsFrom (DefaultRetention fs bucket mode days) m fun _ => DefaultRetention fs bucket mode days := by
  intro w a w' retention done
  have frame := frames w
  rw [done] at frame
  obtain ⟨outside,rigid⟩ : ¬ Touched fs bucket key [] (tempNames draws) [] (bucketMetaAt fs bucket) ∧
      ¬ Opened fs bucket key (bucketMetaAt fs bucket) :=
    bucketMeta_untouched accepted accepted.validBucket (by simp)
  obtain ⟨⟨record,config,found,rest⟩,positive⟩ := retention
  refine ⟨⟨record,config,?_,rest⟩,positive⟩
  rw [bucketRecord_congr (frame.same outside rigid),found]

theorem store_flat_locked (accepted : Accepted bucket key) {content_type : String} {body : ByteStream}
    {checksum : ChecksumRequest} {version_id : Option String} {sealing : Option (EncryptionMeta × FrameCipher)}
    {mode : ObjectLockMode} {days : Nat} :
    Prog.EndsFrom (DefaultRetention fs bucket mode days)
      (fs.store_flat P draws bucket key content_type body checksum version_id sealing)
      (Locked fs bucket key version_id mode (retainUntil P draws days)) := by
  have leads := accepted.temp_object_leads fs draws.tmp_payload_slash
  have here : Touched fs bucket key [] (tempNames draws) []
      (canon (temp_sibling_path (object_path fs.buckets_dir bucket key) draws.tmp_payload)) := by
    rw [leads.names]
    exact .inr (.inl ⟨tempName draws.tmp_payload,by simp [tempNames],List.prefix_refl _⟩)
  refine Prog.EndsFrom.bind (.kept draws accepted (Frames.io
    (Fs.frames_create_dir_all (accepted.objectDir_forward fs) (opened_objectDir accepted)))) fun _ => .guarded ?_
  refine Prog.EndsFrom.bind (.kept draws accepted (Frames.io (Fs.frames_write leads.entry.forward (fun _ => here) _))) fun _ => ?_
  refine Prog.EndsFrom.bind (.kept draws accepted
    (pump_frames _ _ _ fun fw piece => flat_write_frames leads.entry.forward here _ fw piece)) fun fw => ?_
  refine Prog.EndsFrom.bind (.kept draws accepted (flat_finish_frames leads.entry.forward here _ fw)) fun fw => ?_
  refine Prog.EndsFrom.bind (.kept draws accepted (Frames.lift _)) fun checksum => ?_
  obtain ⟨algo,value⟩ := checksum
  -- the lock is resolved just before the sidecar is written
  intro w record w' retention done
  simp only [Prog.bind_ok_iff,pure_ok_iff] at done
  obtain ⟨lock,w₁,resolved,_,w₂,published,rfl,rfl⟩ := done
  obtain rfl := resolve_default_object_lock_done accepted.bucket retention resolved
  refine ⟨publish_file_shows accepted published,?_,?_,?_⟩
  · rw [with_sidecar_mac_version_id,apply_object_lock_version_id]
    rfl
  · rw [with_sidecar_mac_object_lock_mode]
    rfl
  · rw [with_sidecar_mac_retain_until_date]
    rfl

/-- A version that was written carries the record. -/
theorem write_version_shows (accepted : Accepted bucket key) {record : ObjectMeta} {data_path : OsPath}
    (has : record.version_id = some draws.version_id)
    (done : fs.write_version bucket key record data_path w = (.ok (),w')) :
    w'.tree.node (versionMetaAt fs bucket key draws.version_id) = some (.file (.json (.object record))) := by
  have side := accepted.version_entry_leads fs draws.version_id_slash (by decide : '/' ∉ ".meta.json".toList) (by decide)
  simp only [FilesystemStorage.write_version,has,Prog.bind_ok_iff,io_ok_iff] at done
  obtain ⟨_,_,_,_,_,_,written⟩ := done
  exact (Fs.write_done side written).1.here

/-- The index is no part of the tree. -/
theorem index_upsert_tree {record : ObjectMeta} (done : fs.index_upsert bucket record w = (.ok (),w')) (q : OsPath) :
    w'.tree.node q = w.tree.node q := by
  have frame : Frame (fun _ => False) (fun _ => False) w (fs.index_upsert bucket record w).2 := index_upsert_frames record w
  rw [done] at frame
  exact frame.same id id

/-- The end of a flat put gives the lock to the version too. -/
theorem finish_flat_retained (accepted : Accepted bucket key) {version_id : Option String}
    (given : version_id = none ∨ version_id = some draws.version_id) {mode : ObjectLockMode} {until_date : String}
    {record : ObjectMeta} {result : PutResult} (locked : Locked fs bucket key version_id mode until_date record w)
    (done : fs.finish_put bucket record (fs.write_version bucket key record (object_path fs.buckets_dir bucket key)) w =
      (.ok result,w')) :
    result.version_id = version_id ∧ Retained fs bucket key version_id mode until_date w' := by
  obtain ⟨shown,version,for_mode,for_date⟩ := locked
  have dated : Dated draws record := by rwa [Dated,version]
  have frame : Frame (Touched fs bucket key [] (tempNames draws) (versionNames draws.version_id)) (Opened fs bucket key) w
      (fs.finish_put bucket record (fs.write_version bucket key record (object_path fs.buckets_dir bucket key)) w).2 :=
    finish_put_frames (write_version_frames accepted dated fun _ => id) w
  rw [done] at frame
  have outside : ¬ Touched fs bucket key [] (tempNames draws) (versionNames draws.version_id) (metaAt fs bucket key) :=
    own_untouched accepted (by simp [ownNames]) (by simp) metaName_fresh (List.prefix_refl _)
  have lasting := frame.file outside shown
  simp only [FilesystemStorage.finish_put,Prog.bind_ok_iff,pure_ok_iff] at done
  obtain ⟨_,w₁,kept,_,w₂,indexed,rfl,rfl⟩ := done
  refine ⟨version,⟨record,lasting,for_mode,for_date⟩,?_⟩
  rintro id rfl
  have same : id = draws.version_id := by simpa using given
  subst same
  rw [FilesystemStorage.keep_version,version,Option.isSome_some,if_pos rfl] at kept
  refine ⟨record,?_,for_mode,for_date⟩
  rw [index_upsert_tree indexed]
  exact write_version_shows accepted version kept


/-! ### Puts and completions -/

/-- The end of a put of an object without a lock. -/
theorem finish_put_unlocked (accepted : Accepted bucket key) {record : ObjectMeta} {write : Action Unit}
    {result : PutResult} (unlocked : Unlocked fs draws bucket key record w)
    (frames : Frames (Touched fs bucket key [] (tempNames draws) (versionNames draws.version_id)) (Opened fs bucket key)
      write)
    (done : fs.finish_put bucket record write w = (.ok result,w')) : ∃ record, Unlocked fs draws bucket key record w' := by
  have frame : Frame (Touched fs bucket key [] (tempNames draws) (versionNames draws.version_id)) (Opened fs bucket key) w
      (fs.finish_put bucket record write w).2 := finish_put_frames frames w
  rw [done] at frame
  have outside : ¬ Touched fs bucket key [] (tempNames draws) (versionNames draws.version_id) (metaAt fs bucket key) :=
    own_untouched accepted (by simp [ownNames]) (by simp) metaName_fresh (List.prefix_refl _)
  exact ⟨record,unlocked.frame frame outside⟩

/-- The end of a completion of an object without a lock. -/
theorem finish_complete_unlocked (accepted : Accepted bucket key) {upload_id : String} (names : NamesUpload upload_id)
    {record : ObjectMeta} {write : Action Unit} {result : PutResult}
    (unlocked : Unlocked fs draws bucket key record w)
    (frames : Frames (Touched fs bucket key [] (tempNames draws) (versionNames draws.version_id)) (Opened fs bucket key)
      write)
    (done : fs.finish_complete bucket upload_id record write w = (.ok result,w')) :
    ∃ record, Unlocked fs draws bucket key record w' := by
  have frame : Frame (Tidied fs bucket key upload_id draws) (Opened fs bucket key) w
      (fs.finish_complete bucket upload_id record write w).2 :=
    finish_complete_frames accepted.validBucket names frames w
  rw [done] at frame
  have outside : ¬ Tidied fs bucket key upload_id draws (metaAt fs bucket key) :=
    own_untidied accepted (by simp [ownNames]) metaName_fresh (List.prefix_refl _)
  exact ⟨record,unlocked.frame frame outside⟩

/-- A folder marker has no lock. -/
theorem put_folder_marker_unlocked (accepted : Accepted bucket key) (folder : ends_with key "/" = true)
    {result : PutResult} (done : fs.put_folder_marker P draws bucket key w = (.ok result,w')) :
    ∃ record, Unlocked fs draws bucket key record w' := by
  have sidecar : join (join (bucket_dir fs.buckets_dir bucket) (trim_end_slashes key)) ".folder.meta.json" =
      meta_path fs.buckets_dir bucket key := by rw [meta_path,if_pos folder]
  simp only [FilesystemStorage.put_folder_marker,sidecar,Prog.bind_ok_iff,pure_ok_iff,io_ok_iff] at done
  obtain ⟨_,_,_,_,_,_,_,w₁,written,_,w₂,indexed,rfl,rfl⟩ := done
  refine ⟨FilesystemStorage.folder_marker P draws key,.inl rfl,?_,rfl⟩
  rw [Shows,index_upsert_tree indexed]
  exact (Fs.write_done accepted.meta_leads written).1.here

/-- Only the flat put of an object that is no folder marker gives it the lock of its bucket. -/
theorem put_object_retained_iff {content_type : String} {body : ByteStream} {checksum : ChecksumRequest}
    {encryption : Option EncryptionRequest} {declared_size : Option Nat} {mode : ObjectLockMode} {days : Nat}
    {result : PutResult} (retention : DefaultRetention fs bucket mode days w)
    (done : fs.put_object P draws bucket key content_type body checksum encryption declared_size w = (.ok result,w')) :
    Retained fs bucket key result.version_id mode (retainUntil P draws days) w' ↔
      ends_with key "/" = false ∧ coded fs bucket w = false := by
  have without : (∃ record, Unlocked fs draws bucket key record w') →
      ¬ Retained fs bucket key result.version_id mode (retainUntil P draws days) w' :=
    fun ⟨_,unlocked⟩ => unlocked.not_retained
  simp only [FilesystemStorage.put_object,Prog.bind_ok_iff,lift_ok_iff] at done
  obtain ⟨_,_,⟨valid,rfl⟩,_,_,⟨valid',rfl⟩,_,_,unlocked,_,_,⟨_,rfl⟩,done⟩ := done
  have accepted : Accepted bucket key := ⟨valid,valid'⟩
  have quiet := (FilesystemStorage.ensure_can_overwrite_quiet _ bucket key).state unlocked
  subst quiet
  split at done
  next folder =>
    exact iff_of_false (without (put_folder_marker_unlocked accepted folder done)) fun flat => by simp [folder] at flat
  next file =>
    rw [Prog.bind_ok_iff] at done
    obtain ⟨answer,_,asked,done⟩ := done
    obtain ⟨rfl,rfl⟩ := effective_erasure_coding_done valid asked
    split at done
    next on =>
      refine iff_of_false (without ?_) fun flat => by simp [on] at flat
      cases encryption with
      | some req =>
        simp only [FilesystemStorage.put_object_chunked_encrypted,Prog.bind_ok_iff,lift_ok_iff] at done
        obtain ⟨_,_,⟨_,rfl⟩,record,_,stored,finished⟩ := done
        have free := store_chunked_encrypted_unlocked accepted _ record _ stored
        exact finish_put_unlocked accepted free (write_version_chunked_frames accepted free.dated fun _ => id) finished
      | none =>
        simp only [FilesystemStorage.put_object_chunked,Prog.bind_ok_iff,lift_ok_iff] at done
        obtain ⟨_,_,⟨_,rfl⟩,record,_,stored,finished⟩ := done
        have free := store_chunked_unlocked accepted _ record _ stored
        exact finish_put_unlocked accepted free (write_version_chunked_frames accepted free.dated fun _ => id) finished
    next off =>
      refine iff_of_true ?_ ⟨by simpa using file,by simpa using off⟩
      simp only [FilesystemStorage.put_object_flat,Prog.bind_ok_iff] at done
      obtain ⟨version_id,_,chosen,sealing,w₁,started,record,w₂,stored,finished⟩ := done
      have given := FilesystemStorage.next_version_id_done chosen
      have same := (FilesystemStorage.next_version_id_quiet draws bucket).state chosen
      subst same
      have kept := DefaultRetention.kept draws accepted (start_sealing_frames encryption _) _ _ _ retention started
      have locked := store_flat_locked accepted _ record _ kept stored
      obtain ⟨version,retained⟩ := finish_flat_retained accepted given locked finished
      rwa [version]

/-- A completion never gives the object the lock of its bucket. -/
theorem complete_multipart_upload_not_retained {upload_id : String} {upload : MultipartUploadMeta}
    {parts : List (Nat × String)} {customer_key : Option Bytes} {mode : ObjectLockMode} {until_date : String}
    {result : PutResult} (stored : UploadStored P fs bucket upload_id upload w)
    (done : fs.complete_multipart_upload P draws bucket upload_id parts customer_key w = (.ok result,w')) :
    ¬ Retained fs bucket upload.key result.version_id mode until_date w' := by
  suffices unlocked : ∃ record, Unlocked fs draws bucket upload.key record w' by
    obtain ⟨record,free⟩ := unlocked
    exact free.not_retained
  simp only [FilesystemStorage.complete_multipart_upload,Prog.bind_ok_iff,lift_ok_iff] at done
  obtain ⟨_,_,⟨valid,rfl⟩,_,_,⟨_,rfl⟩,done⟩ := done
  have accepted : Accepted bucket upload.key := ⟨valid,stored.key⟩
  split at done
  next => cases done
  next =>
    rw [Prog.bind_of_ok (read_upload_meta_stored accepted.validBucket stored)] at done
    simp only [Prog.bind_ok_iff,lift_ok_iff] at done
    obtain ⟨_,_,_,selected,_,_,_,_,⟨_,rfl⟩,_,_,⟨_,rfl⟩,answer,_,_,done⟩ := done
    split at done
    next =>
      cases has : upload.encryption_spec with
      | some spec =>
        rw [has] at done
        simp only [Prog.bind_ok_iff,lift_ok_iff,FilesystemStorage.complete_multipart_chunked_encrypted] at done
        obtain ⟨_,_,⟨_,rfl⟩,_,_,⟨_,rfl⟩,record,_,completed,finished⟩ := done
        have free := store_completed_chunked_encrypted_unlocked accepted _ record _ completed
        exact finish_complete_unlocked accepted stored.names free
          (write_version_chunked_frames accepted free.dated fun _ => id) finished
      | none =>
        rw [has] at done
        simp only [Prog.bind_ok_iff,FilesystemStorage.complete_multipart_chunked] at done
        obtain ⟨record,_,completed,finished⟩ := done
        have free := store_completed_chunked_unlocked accepted _ record _ completed
        exact finish_complete_unlocked accepted stored.names free
          (write_version_chunked_frames accepted free.dated fun _ => id) finished
    next =>
      simp only [FilesystemStorage.complete_multipart_flat,Prog.bind_ok_iff,lift_ok_iff] at done
      obtain ⟨_,_,⟨_,rfl⟩,_,_,⟨_,rfl⟩,dek,_,⟨_,rfl⟩,sealing,_,_,version_id,_,chosen,record,_,completed,finished⟩ := done
      have free := store_completed_unlocked accepted (FilesystemStorage.next_version_id_done chosen) _ record _ completed
      exact finish_complete_unlocked accepted stored.names free (write_version_frames accepted free.dated fun _ => id)
        finished

/-! ### Copies -/

theorem head_bucket_quiet (name : String) : Quiet (fs.head_bucket name) :=
  Quiet.bind (Quiet.lift _) fun _ => Quiet.io (Quiet.observe _)

theorem copy_encryption_quiet (requested : Option EncryptionRequest) : Quiet (fs.copy_encryption bucket requested) := by
  cases requested with
  | some req => exact Quiet.pure _
  | none =>
    refine Quiet.bind (Quiet.unwrap_or _ ?_) fun _ => Quiet.pure _
    exact Quiet.bind (FilesystemStorage.read_bucket_meta_quiet bucket) fun _ => Quiet.pure _

/-- A copy that succeeds is a put in the state it was called in. -/
theorem copy_object_puts {stream : ObjectReader → ByteStream} {request : CopyRequest} {result : CopyObjectResult}
    (done : fs.copy_object P draws stream request bucket key w = (.ok result,w')) :
    ∃ content_type body checksum encryption declared_size written,
      fs.put_object P draws bucket key content_type body checksum encryption declared_size w = (.ok written,w') ∧
        result.version_id = written.version_id := by
  simp only [FilesystemStorage.copy_object,Prog.bind_ok_iff,Prog.mapError_ok_iff] at done
  obtain ⟨found,w₁,looked,done⟩ := done
  have same := (head_bucket_quiet bucket).state looked
  subst same
  split at done
  next => cases done
  next =>
    simp only [Prog.bind_ok_iff,Prog.mapError_ok_iff,lift_ok_iff,pure_ok_iff] at done
    obtain ⟨⟨reader,src_meta⟩,w₂,opened,done⟩ := done
    have same := (get_object_quiet request.src_customer_key).state opened
    subst same
    simp only [Prog.bind_ok_iff,Prog.mapError_ok_iff,lift_ok_iff,pure_ok_iff] at done
    obtain ⟨content_type,_,⟨_,rfl⟩,encryption,w₃,chosen,written,w₄,put,dst_meta,w₅,headed,rfl,rfl⟩ := done
    have same := (copy_encryption_quiet request.encryption).state chosen
    subst same
    have same := head_object_quiet.state headed
    subst same
    exact ⟨content_type,stream reader,_,encryption,_,written,put,rfl⟩

/-- In a bucket with default retention, a new object and its version carry the mode and the date exactly when the call
    ends in the flat put of an object that is no folder marker. -/
theorem default_retention_applied_iff {write : ObjectWrite} {mode : ObjectLockMode} {days : Nat}
    {version_id : Option String} (retention : DefaultRetention fs bucket mode days w)
    (made : write.Makes P fs draws bucket key version_id w w') :
    Retained fs bucket key version_id mode (retainUntil P draws days) w' ↔ write.PutsFlat fs bucket key w := by
  cases write with
  | put_object content_type body checksum encryption declared_size =>
    obtain ⟨result,done,rfl⟩ := made
    exact put_object_retained_iff retention done
  | copy_object stream request =>
    obtain ⟨result,done,rfl⟩ := made
    obtain ⟨content_type,body,checksum,encryption,declared_size,written,put,same⟩ := copy_object_puts done
    rw [same]
    exact put_object_retained_iff retention put
  | complete_multipart_upload upload_id upload parts customer_key =>
    obtain ⟨stored,rfl,result,done,rfl⟩ := made
    exact iff_of_false (complete_multipart_upload_not_retained stored done) id

end

namespace Sample

/-- A bucket that retains new objects for thirty days. -/
def retaining : BucketMeta := { settings true with
  object_lock_enabled := true
  object_lock_config := some { enabled := true, default_retention_mode := some .Compliance, default_retention_days := some 30 } }

def retaining_world : World := (Fs.write ["data","logs",".bucket.json"] (.json (.bucket retaining)) (world true)).2

/-- A put of `abc` in the bucket, in a storage with erasure coding on or off. -/
def put_retained (coding : Bool) : Except StorageError PutResult × World :=
  (storage coding 4 four_positive).put_object primitives (draws 0) "logs" "a" "text/plain" (stream abc abc_filled abc_fits)
    none none none retaining_world

theorem retaining_retains (coding : Bool) :
    DefaultRetention (storage coding 4 four_positive) "logs" .Compliance 30 retaining_world :=
  ⟨⟨retaining,_,by revert coding; decide +kernel,rfl,rfl,rfl,rfl⟩,by decide⟩

/-- The lock in a sidecar. -/
def lock_of : Node Content → Option (Option ObjectLockMode)
  | .file (.json (.object record)) => some record.object_lock_mode
  | _ => none

/-- The put as a call that makes an object. -/
def writes_abc : ObjectWrite := .put_object "text/plain" (stream abc abc_filled abc_fits) none none none

end Sample

theorem flat_put_retains_abc :
    Retained (Sample.storage false 4 Sample.four_positive) "logs" "a" (some (Sample.draws 0).version_id) .Compliance
      (retainUntil Sample.primitives (Sample.draws 0) 30) (Sample.put_retained false).2 := by
  have ok : (Sample.put_retained false).1.isOk = true := by decide +kernel
  have id_of : ∀ result, (Sample.put_retained false).1 = .ok result → result.version_id = some (Sample.draws 0).version_id := by
    intro result same
    have known : (Sample.put_retained false).1.map PutResult.version_id = .ok (some (Sample.draws 0).version_id) := by
      decide +kernel
    rw [same] at known
    simpa [Except.map] using known
  obtain ⟨result,w',done⟩ := Sample.isOk_spec ok
  have version := id_of result (by rw [done])
  have retained := (@default_retention_applied_iff _ _ _ _ _ _ w' Sample.writes_abc _ _ _ (Sample.retaining_retains false)
    ⟨result,done,rfl⟩).mpr ⟨by decide +kernel,by decide +kernel⟩
  rw [version] at retained
  rwa [done]

/-- An object put in chunks has no lock, although its bucket retains new objects. -/
theorem chunked_put_not_retained : ∃ version_id,
    DefaultRetention (Sample.storage true 4 Sample.four_positive) "logs" .Compliance 30 Sample.retaining_world ∧
      Sample.writes_abc.Makes Sample.primitives (Sample.storage true 4 Sample.four_positive) (Sample.draws 0) "logs" "a"
        version_id Sample.retaining_world (Sample.put_retained true).2 ∧
      ¬ Retained (Sample.storage true 4 Sample.four_positive) "logs" "a" version_id .Compliance
        (retainUntil Sample.primitives (Sample.draws 0) 30) (Sample.put_retained true).2 := by
  have ok : (Sample.put_retained true).1.isOk = true := by decide +kernel
  have bare : ∀ record, (Sample.put_retained true).2.tree.node
        (metaAt (Sample.storage true 4 Sample.four_positive) "logs" "a") = some (.file (.json (.object record))) →
          record.object_lock_mode = none := by
    have known : ((Sample.put_retained true).2.tree.node
        (metaAt (Sample.storage true 4 Sample.four_positive) "logs" "a")).map Sample.lock_of = some (some none) := by
      decide +kernel
    intro record same
    rw [same] at known
    simpa [Sample.lock_of] using known
  obtain ⟨result,w',done⟩ := Sample.isOk_spec ok
  refine ⟨result.version_id,Sample.retaining_retains true,⟨result,?_,rfl⟩,?_⟩
  · rw [done]
    exact done
  · rintro ⟨⟨record,here,locked,_⟩,_⟩
    rw [bare record here] at locked
    cases locked

end Maxio
