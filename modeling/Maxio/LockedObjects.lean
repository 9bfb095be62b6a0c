import Maxio.PartMaps

/-!
Locked objects stay. As long as the lock in the sidecar of an object protects it, its bytes are read back after any calls
on the bucket, whether they are puts, completions and deletions of the key itself, which the lock turns down, or calls on
keys beside it.
-/

set_option linter.unusedSimpArgs false

namespace Maxio
open FileTree (Node Tree)

/-! ### What the lock turns down -/

section Refused
variable {P : Primitives} {fs : FilesystemStorage} {bucket key : String} {draws : Draws} {record : ObjectMeta} {w : World}
  (accepted : Accepted bucket key) (shown : Shows fs bucket key record w)
include accepted shown

theorem sidecar_found : Fs.try_exists (meta_path fs.buckets_dir bucket key) w = (.ok true,w) := by
  rw [Fs.try_exists,Fs.observe_ok_iff,Fs.existsAt_leads accepted.meta_leads]
  have here : w.tree.node (home fs bucket key ++ [metaName key]) = some (.file (.json (.object record))) := shown
  simp [here]

variable (locked : is_object_protected P draws.now record = true)
include locked

theorem ensure_can_overwrite_locked : fs.ensure_can_overwrite P draws.now bucket key w =
    (.error (.ObjectLocked "object is protected by retention or legal hold"),w) := by
  have asked : (unwrap_or false (Fs.try_exists (meta_path fs.buckets_dir bucket key)) : Action Bool) w = (.ok true,w) := by
    unfold unwrap_or
    rw [Prog.bind_of_ok (attempt_ok_iff.mpr (sidecar_found accepted shown))]
    rfl
  unfold FilesystemStorage.ensure_can_overwrite
  rw [Prog.bind_of_ok asked,if_pos rfl,Prog.bind_of_ok (read_object_meta_ok accepted shown),ensure_can_delete_meta,
    if_pos locked]
  rfl

theorem put_object_locked {content_type : String} {body : ByteStream} {checksum : ChecksumRequest}
    {encryption : Option EncryptionRequest} {declared_size : Option Nat} :
    fs.put_object P draws bucket key content_type body checksum encryption declared_size w =
      (.error (.ObjectLocked "object is protected by retention or legal hold"),w) := by
  unfold FilesystemStorage.put_object
  rw [accepted.bucket,accepted.key,Prog.lift_ok_bind,Prog.lift_ok_bind,
    Prog.bind_of_error (ensure_can_overwrite_locked accepted shown locked)]

theorem ensure_deletable_locked : fs.ensure_deletable P draws bucket key true w =
    (.error (.ObjectLocked "object is protected by retention or legal hold"),w) := by
  rw [FilesystemStorage.ensure_deletable,if_pos rfl,Prog.bind_of_ok (read_object_meta_ok accepted shown),
    ensure_can_delete_meta,if_pos locked]
  rfl

theorem delete_object_locked : (fs.delete_object P draws bucket key w).2 = w := by
  have found := sidecar_found accepted shown
  rw [fs.delete_object_eq,accepted.bucket,accepted.key,Prog.lift_ok_bind,Prog.lift_ok_bind,
    Prog.bind_of_ok (is_versioned_eq accepted.bucket draws)]
  by_cases numbered : versioned fs bucket w = true
  · have asked : (unwrap_or false (Fs.try_exists (meta_path fs.buckets_dir bucket key)) : Action Bool) w = (.ok true,w) := by
      unfold unwrap_or
      rw [Prog.bind_of_ok (attempt_ok_iff.mpr found)]
      rfl
    rw [if_pos numbered,Prog.bind_of_ok asked,Prog.bind_of_error (ensure_deletable_locked accepted shown locked)]
  · have present : fs.object_present bucket key w = (.ok true,w) := by
      rw [FilesystemStorage.object_present,Prog.bind_of_ok (io_ok_iff.mpr found)]
      rfl
    rw [if_neg numbered,Prog.bind_of_ok present,if_neg (by simp),Prog.bind_of_ok (io_ok_iff.mpr found),
      Prog.bind_of_error (ensure_deletable_locked accepted shown locked)]

theorem complete_multipart_upload_locked {upload_id : String} (recorded : UploadCall.Recorded fs bucket upload_id w key)
    {parts : List (Nat × String)} {customer_key : Option Bytes} :
    (fs.complete_multipart_upload P draws bucket upload_id parts customer_key w).2 = w := by
  obtain ⟨upload,read,rfl⟩ := recorded
  unfold FilesystemStorage.complete_multipart_upload
  rw [accepted.bucket,Prog.lift_ok_bind]
  by_cases valid : validate_upload_id upload_id = .ok ()
  · rw [valid,Prog.lift_ok_bind]
    by_cases empty : parts = []
    · rw [if_pos empty]
      rfl
    · rw [if_neg empty,Prog.bind_of_ok read,Prog.bind_of_error (ensure_can_overwrite_locked accepted shown locked)]
  · exact BucketCall.lift_refused fun _ => valid

/-- The deletion of the version `null` is that of the current object. -/
theorem delete_object_version_locked : (fs.delete_object_version P draws bucket key "null" w).2 = w := by
  rw [FilesystemStorage.delete_object_version,accepted.bucket,accepted.key,Prog.lift_ok_bind,Prog.lift_ok_bind,if_pos rfl,
    Prog.bind_of_ok (read_object_meta_ok accepted shown),if_pos locked]
  rfl

end Refused

/-! ### Locked objects -/

/-- An object as it lies, with its sidecar but for the tags. -/
structure LockedObject (P : Primitives) (fs : FilesystemStorage) (bucket key : String) (coding : Bool) (entry : StoredObject)
    (record : ObjectMeta) (w : World) : Prop where
  backs : Backs P fs bucket key coding (some entry) w
  shown : ∃ tags, Shows fs bucket key { record with tags } w

/-- A key none of whose places is one of this key's. -/
def Beside (key other : String) : Prop := ¬ names other <+: names key ∧ ¬ names key <+: names other

/-- The key itself, at a time its lock protects it, or a key beside it. -/
def Spared (P : Primitives) (key : String) (record : ObjectMeta) (draws : Draws) (other : String) : Prop :=
  other = key ∧ is_object_protected P draws.now record = true ∨ Beside key other

/-- What a call on a version of the key may be: a read, a lock of a stored version, the deletion of the current object. -/
def VersionCall.OfLocked (P : Primitives) (record : ObjectMeta) (draws : Draws) (version_id : String) : VersionCall → Prop
  | .delete_object_version => version_id = "null" ∧ is_object_protected P draws.now record = true
  | _ => version_id ≠ "null"

/-- Calls that get past no lock: those on the key, while it is protected, and those on keys beside it. The lock of the
    current object is not set anew, and no stored version of the key is deleted. -/
def BucketCall.Minds (P : Primitives) (fs : FilesystemStorage) (bucket key : String) (record : ObjectMeta) (draws : Draws)
    (w : World) : BucketCall → Prop
  | .put_object other _ _ _ _ _ | .delete_object other => Spared P key record draws other
  | .upload upload_id call => call.completes → ∀ other, UploadCall.Recorded fs bucket upload_id w other →
      Spared P key record draws other
  | .version other version_id call => call.looks = true ∨ other = key ∧ call.OfLocked P record draws version_id ∨
      Beside key other
  | .update other call => other = key ∧ call.tags = true ∨ Beside key other
  | _ => True

section Steps
variable {P : Primitives} {fs : FilesystemStorage} {from_str : String → Except String Json} {bucket key other : String}
  {coding : Bool} {entry : StoredObject} {record : ObjectMeta} {draws : Draws} {w w' : World}

/-- Other tags unlock nothing. -/
theorem protected_tags (now : Int) (tags : Option (List (String × String))) :
    is_object_protected P now { record with tags } = is_object_protected P now record := rfl

theorem LockedObject.frame {S G : OsPath → Prop} (draws : Draws) (accepted : Accepted bucket key)
    (kept : LockedObject P fs bucket key coding entry record w) (frame : Frame S G w w')
    (above : ∀ q, q <+: home fs bucket key → ¬ S q)
    (own : ∀ n ∈ ownNames key, ∀ rest, ¬ S (home fs bucket key ++ n :: rest))
    (rigid : ∀ n ∈ ownNames key, ¬ G (home fs bucket key ++ [n])) : LockedObject P fs bucket key coding entry record w' := by
  obtain ⟨backs,tags,shown⟩ := kept
  have side : metaName key ∈ ownNames key := by simp [ownNames]
  refine ⟨backs.frame draws accepted frame above own rigid,tags,?_⟩
  rw [Shows,metaAt,frame.same (own _ side []) (rigid _ side)]
  exact shown

theorem LockedObject.elsewhere {U G : OsPath → Prop} (draws : Draws) (accepted : Accepted bucket key)
    (kept : LockedObject P fs bucket key coding entry record w) (frame : Frame U G w w') (apart : Elsewhere fs bucket key U)
    (rigid : ∀ n ∈ ownNames key, ¬ G (home fs bucket key ++ [n])) : LockedObject P fs bucket key coding entry record w' :=
  kept.frame draws accepted frame apart.1 apart.2 rigid

theorem LockedObject.beside {U : OsPath → Prop} (draws : Draws) (stored : List String) (accepted : Accepted bucket key)
    (kept : LockedObject P fs bucket key coding entry record w) (accepted' : Accepted bucket other)
    (beside : Beside key other) (apart : Elsewhere fs bucket key U)
    (frame : Frame (fun q => Touched fs bucket other (ownNames other) (tempNames draws) stored q ∨ U q)
      (Opened fs bucket other) w w') : LockedObject P fs bucket key coding entry record w' := by
  obtain ⟨above,own,rigid⟩ := @beside_places fs bucket key _ other (ownNames other) stored draws accepted accepted' beside.1
    beside.2 (fun _ mine => mine) apart
  exact kept.frame draws accepted frame above own rigid

/-- A stored version is none of the current files. -/
theorem elsewhere_version (accepted : Accepted bucket key) (draws : Draws) {version_id : String} :
    Elsewhere fs bucket key fun q => q = versionsAt fs bucket key ++ [version_id ++ ".meta.json"] := by
  have off := versions_off accepted.validKey
  have inside : stem key <+: names key := by
    rw [names_eq]
    exact List.prefix_append _ _
  refine ⟨?_,fun n member rest same => ?_⟩
  · rintro q above rfl
    rw [version_entry_eq,home,List.prefix_append_right_inj] at above
    exact off (inside.subset (above.subset (by simp)))
  · have stored : StoredVersion fs bucket key version_id (home fs bucket key ++ n :: rest) := by
      rw [same]
      exact ⟨_,by simp [versionNames],List.prefix_refl _⟩
    exact current_not_stored accepted accepted (KeysApart.refl key) stored draws ⟨n,member,⟨rest,by simp⟩⟩

/-- What a call on a key beside it does. -/
theorem LockedObject.of_key (draws : Draws) (stored : List String) (accepted : Accepted bucket key)
    (kept : LockedObject P fs bucket key coding entry record w) (valid : validate_key other = .ok ())
    (beside : Beside key other) {S G : OsPath → Prop} (frame : Frame S G w w')
    (inside : ∀ q, S q → Touched fs bucket other (ownNames other) (tempNames draws) stored q)
    (opens : ∀ q, G q → Opened fs bucket other q) : LockedObject P fs bucket key coding entry record w' :=
  kept.beside draws stored accepted ⟨accepted.bucket,valid⟩ beside elsewhere_none
    (frame.mono (fun q touched => .inl (inside q touched)) fun q opened => .inr (opens q opened))

variable (accepted : Accepted bucket key)
include accepted

theorem LockedObject.put (kept : LockedObject P fs bucket key coding entry record w) {content_type : String}
    {body : ByteStream} {checksum : ChecksumRequest} {encryption : Option EncryptionRequest} {declared_size : Option Nat}
    (spared : Spared P key record draws other) : LockedObject P fs bucket key coding entry record
      (fs.put_object P draws bucket other content_type body checksum encryption declared_size w).2 := by
  rcases spared with ⟨rfl,locked⟩ | beside
  · obtain ⟨_,shown⟩ := kept.shown
    rw [put_object_locked accepted shown locked]
    exact kept
  · by_cases valid : validate_key other = .ok ()
    · exact kept.of_key draws _ accepted valid beside (put_object_frames content_type body checksum encryption
        declared_size w) (fun _ => id) fun _ => id
    · rwa [put_refused fun _ => valid]

theorem LockedObject.delete (kept : LockedObject P fs bucket key coding entry record w)
    (spared : Spared P key record draws other) :
    LockedObject P fs bucket key coding entry record (fs.delete_object P draws bucket other w).2 := by
  rcases spared with ⟨rfl,locked⟩ | beside
  · obtain ⟨_,shown⟩ := kept.shown
    rw [delete_object_locked accepted shown locked]
    exact kept
  · by_cases valid : validate_key other = .ok ()
    · exact kept.of_key draws _ accepted valid beside (delete_object_frames w) (fun _ => id) fun _ => id
    · rwa [delete_refused fun _ => valid]

/-- New tags leave the lock as it is. -/
theorem LockedObject.retagged (kept : LockedObject P fs bucket key coding entry record w)
    (new : Option (List (String × String))) :
    LockedObject P fs bucket key coding entry record (fs.set_tags bucket key new w).2 := by
  obtain ⟨backs,tags,shown⟩ := kept
  rcases @set_tags_cases fs bucket key w accepted.bucket new with same | ⟨found,reads,sets⟩
  · rw [same]
    exact ⟨backs,tags,shown⟩
  · refine ⟨backs.retagged reads sets,new,?_⟩
    have same : found = { record with tags } := by
      rw [Shows] at shown reads
      rw [shown] at reads
      simpa using reads.symm
    subst same
    exact sets.here

theorem LockedObject.update (draws : Draws) (kept : LockedObject P fs bucket key coding entry record w) (call : UpdateCall)
    (minds : other = key ∧ call.tags = true ∨ Beside key other) :
    LockedObject P fs bucket key coding entry record (call.run fs bucket other none w).2 := by
  rcases minds with ⟨rfl,tags⟩ | beside
  · cases call with
    | put_object_tagging new => exact kept.retagged accepted _
    | delete_object_tagging => exact kept.retagged accepted _
    | put_object_retention retention => cases tags
    | put_object_legal_hold status => cases tags
  · by_cases valid : validate_key other = .ok ()
    · have frame := @BucketCall.update_frame fs bucket other w call accepted.bucket
      refine kept.of_key draws [] accepted valid beside frame ?_ fun _ => False.elim
      rintro q rfl
      exact .inl ⟨metaName other,by simp [ownNames],List.prefix_refl _⟩
    · rwa [update_refused fun _ => valid]

theorem LockedObject.version (kept : LockedObject P fs bucket key coding entry record w) (call : VersionCall)
    {version_id : String} (straight : call.looks = true ∨ '/' ∉ version_id.toList)
    (minds : call.looks = true ∨ other = key ∧ call.OfLocked P record draws version_id ∨ Beside key other) :
    LockedObject P fs bucket key coding entry record (call.run P fs draws bucket other version_id w).2 := by
  by_cases looks : call.looks = true
  · rwa [BucketCall.looks_quiet looks w]
  rcases minds.resolve_left looks with ⟨rfl,mine⟩ | beside
  · have lock (touches : call.Touches fs bucket other version_id = fun q => q = sidecarAt fs bucket other version_id)
        (opens : call.Opens fs bucket other = fun _ => False) (stored : version_id ≠ "null") :
        LockedObject P fs bucket other coding entry record (call.run P fs draws bucket other version_id w).2 := by
      have frame := @VersionCall.run_frame P fs draws bucket other version_id accepted.bucket accepted.key
        (straight.resolve_left looks) call w
      rw [touches,opens] at frame
      refine kept.elsewhere draws accepted frame ?_ fun _ _ => id
      unfold sidecarAt
      rw [if_neg stored]
      exact elsewhere_version accepted draws
    cases call with
    | delete_object_version =>
      obtain ⟨rfl,locked⟩ := mine
      obtain ⟨_,shown⟩ := kept.shown
      rw [VersionCall.run,drop_state,delete_object_version_locked accepted shown locked]
      exact kept
    | put_object_retention retention => exact lock rfl rfl mine
    | put_object_legal_hold status => exact lock rfl rfl mine
    | get_object_version ck caps turns => exact absurd rfl looks
    | head_object_version => exact absurd rfl looks
    | get_object_retention => exact absurd rfl looks
    | get_object_legal_hold => exact absurd rfl looks
  · by_cases valid : validate_key other = .ok ()
    · exact kept.of_key draws _ accepted valid beside
        (VersionCall.run_frame accepted.bucket valid (straight.resolve_left looks) call w)
        (fun _ => VersionCall.touched) fun _ => VersionCall.opened
    · rwa [BucketCall.version_refused (fun _ => valid) call]

/-- A call that minds the lock leaves the object as it is. -/
theorem LockedObject.step (kept : LockedObject P fs bucket key coding entry record w) (call : BucketCall)
    (straight : call.Straight fs bucket w) (minds : call.Minds P fs bucket key record draws w) :
    LockedObject P fs bucket key coding entry record (call.run P fs from_str bucket draws w).2 := by
  have frame := @BucketCall.run_frame P fs from_str bucket draws w call accepted.bucket straight
  cases call with
  | put_object other content_type body checksum encryption size =>
    rw [BucketCall.run,drop_state]
    exact kept.put accepted minds
  | get_object other ck => exact kept.elsewhere draws accepted frame elsewhere_none fun _ _ => id
  | head_object other => exact kept.elsewhere draws accepted frame elsewhere_none fun _ _ => id
  | delete_object other =>
    rw [BucketCall.run,drop_state]
    exact kept.delete accepted minds
  | create_multipart_upload other content_type algorithm spec =>
    exact kept.elsewhere draws accepted frame (elsewhere_upload accepted) fun _ own => current_not_above_upload accepted own
  | upload upload_id call =>
    by_cases ends : call.completes ∧ ∃ other, UploadCall.Recorded fs bucket upload_id w other
    · obtain ⟨completes,other,recorded⟩ := ends
      have only : ∀ found, UploadCall.Recorded fs bucket upload_id w found → found = other := by
        rintro found ⟨upload,read,rfl⟩
        obtain ⟨upload',read',rfl⟩ := recorded
        rw [read,Prod.mk.injEq,Except.ok.injEq] at read'
        rw [read'.1]
      rcases minds completes other recorded with ⟨rfl,locked⟩ | beside
      · cases call with
        | complete_multipart_upload parts customer_key =>
          obtain ⟨_,shown⟩ := kept.shown
          rw [BucketCall.run,drop_state,UploadCall.run,drop_state,
            complete_multipart_upload_locked accepted shown locked recorded]
          exact kept
        | upload_part number body checksum customer_key size => exact completes.elim
        | list_parts => exact completes.elim
        | abort_multipart_upload => exact completes.elim
      · have places : Frame (fun q => Touched fs bucket other (ownNames other) (tempNames draws)
            (versionNames draws.version_id) q ∨ InUpload fs bucket upload_id q) (Opened fs bucket other) w
            ((BucketCall.upload upload_id call).run P fs from_str bucket draws w).2 := by
          refine frame.mono (fun q touches => ?_) fun q opens => .inr ?_
          · rcases touches with inside | ⟨_,found,recorded',touched⟩
            · exact .inr inside
            · exact .inl (only found recorded' ▸ touched)
          · obtain ⟨_,found,recorded',opened⟩ := opens
            exact only found recorded' ▸ opened
        exact kept.beside draws _ accepted ⟨accepted.bucket,straight.2 other recorded⟩ beside (elsewhere_upload accepted)
          places
    · have inside : Frame (InUpload fs bucket upload_id) (fun _ => False) w
          ((BucketCall.upload upload_id call).run P fs from_str bucket draws w).2 := by
        refine frame.mono (fun q touches => ?_) fun q opens => ?_
        · refine touches.resolve_right ?_
          rintro ⟨completes,other,recorded,_⟩
          exact ends ⟨completes,other,recorded⟩
        · obtain ⟨completes,other,recorded,_⟩ := opens
          exact absurd ⟨completes,other,recorded⟩ ends
      exact kept.elsewhere draws accepted inside (elsewhere_upload accepted) fun _ _ => id
  | version other version_id call =>
    rw [BucketCall.run,drop_state]
    exact kept.version accepted call straight minds
  | update other call => exact kept.update accepted draws call minds
  | configure call => exact kept.elsewhere draws accepted frame (elsewhere_settings accepted) fun _ _ => id

end Steps

/-! ### Runs -/

/-- One call on the bucket that minds the lock. -/
def MindingStep (P : Primitives) (fs : FilesystemStorage) (from_str : String → Except String Json) (bucket key : String)
    (record : ObjectMeta) (w w' : World) : Prop :=
  ∃ draws call, BucketCall.Straight fs bucket w call ∧ call.Minds P fs bucket key record draws w ∧
    w' = (call.run P fs from_str bucket draws w).2

def MindingRun (P : Primitives) (fs : FilesystemStorage) (from_str : String → Except String Json) (bucket key : String)
    (record : ObjectMeta) : World → World → Prop :=
  Relation.ReflTransGen (MindingStep P fs from_str bucket key record)

section Runs
variable {P : Primitives} {fs : FilesystemStorage} {from_str : String → Except String Json} {bucket key : String}
  {coding : Bool} {entry : StoredObject} {record : ObjectMeta} {w w' : World}

theorem LockedObject.run (accepted : Accepted bucket key) (kept : LockedObject P fs bucket key coding entry record w)
    (later : MindingRun P fs from_str bucket key record w w') : LockedObject P fs bucket key coding entry record w' := by
  induction later with
  | refl => exact kept
  | tail _ step ih =>
    obtain ⟨draws,call,straight,minds,rfl⟩ := step
    exact ih.step accepted call straight minds

end Runs

namespace Sample

/-- The primitives, with a clock that knows the end of the retention below. -/
def clocked : Primitives := { primitives with
  format_time := fun t => if t = 2592000000 then "1970-01-31T00:00:00.000Z" else primitives.format_time t
  parse_from_rfc3339 := fun text => if text = "1970-01-31T00:00:00.000Z" then some 2592000000 else none }

theorem clocked_sound : clocked.Sound :=
  ⟨primitives_sound.base64,primitives_sound.aead,primitives_sound.tag,primitives_sound.opened,primitives_sound.mac⟩

def flat_storage : FilesystemStorage := storage false 4 four_positive

/-- `abc` is put as `a` in the bucket that retains new objects. -/
def retained_put : Except StorageError PutResult × World :=
  flat_storage.put_object clocked (draws 0) "logs" "a" "text/plain" (stream abc abc_filled abc_fits) none none none
    retaining_world

def sidecar_retained (now : Int) : Option (Node Content) → Bool
  | some (.file (.json (.object record))) => is_object_protected clocked now record
  | _ => false

theorem of_sidecar_retained {now : Int} {node : Option (Node Content)} (retained : sidecar_retained now node = true) :
    ∃ record, node = some (.file (.json (.object record))) ∧ is_object_protected clocked now record = true := by
  unfold sidecar_retained at retained
  split at retained
  next record => exact ⟨record,rfl,retained⟩
  next => cases retained

def clocked_call (n : Nat) (call : BucketCall) (w : World) : World :=
  (call.run clocked flat_storage (fun _ => .error "") "logs" (draws n) w).2

/-- The object is put again and deleted, and another one is stored. -/
def tried (w : World) : World :=
  clocked_call 3 (.put_object "b" "text/plain" (stream [0] zero_filled zero_fits) none none none)
    (clocked_call 2 (.delete_object "a")
      (clocked_call 1 (.put_object "a" "text/plain" (stream [0] zero_filled zero_fits) none none none) w))

end Sample

end Maxio
