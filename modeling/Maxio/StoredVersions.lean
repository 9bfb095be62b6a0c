import Maxio.VersionCopies

/-!
Stored versions last. Whatever is done to a bucket between a write that returned a version id and a read of that version,
on the key itself and on keys that do not lie on its way, the read gives the bytes that were written, unless the version
itself is deleted while nothing protects it, or locked while it is encrypted.
-/

set_option linter.unusedSimpArgs false

namespace Maxio
open FileTree (Node Tree)

/-! ### Places -/

section Places
variable {fs : FilesystemStorage} {bucket key other version_id upload_id : String}

/-- An entry belongs to the version of one id only. -/
theorem versionNames_apart {id name : String} (here : name ∈ versionNames version_id) (there : name ∈ versionNames id) :
    id = version_id := by
  have same {a : String} (spelled : version_id ++ a = id ++ a) : id = version_id := by
    have chars := congrArg String.toList spelled
    rw [String.toList_append,String.toList_append] at chars
    exact (String.toList_inj.mp (List.append_cancel_right chars)).symm
  have differ {a b : String} (spelled : version_id ++ a = id ++ b) (last : a.toList.getLast? ≠ b.toList.getLast?)
      (filled : a.toList ≠ []) (filled' : b.toList ≠ []) : False := by
    have chars := congrArg String.toList spelled
    rw [String.toList_append,String.toList_append] at chars
    have ends := congrArg List.getLast? chars
    rw [List.getLast?_append_of_ne_nil _ filled,List.getLast?_append_of_ne_nil _ filled'] at ends
    exact last ends
  simp only [versionNames,List.mem_cons,List.not_mem_nil,or_false] at here there
  rcases here with rfl | rfl | rfl <;> rcases there with spelled | spelled | spelled
  all_goals first
    | exact same spelled
    | exact (differ spelled (by decide) (by decide) (by decide)).elim

theorem versionsAt_congr (same : names other = names key) : versionsAt fs bucket other = versionsAt fs bucket key := by
  rw [versionsAt_eq,versionsAt_eq,versionsRel,versionsRel,same]

theorem storedVersion_entry {q : OsPath} (stored : StoredVersion fs bucket key version_id q) :
    ∃ n ∈ versionNames version_id, ∃ rest, q = versionsAt fs bucket key ++ n :: rest := by
  obtain ⟨n,member,rest,rfl⟩ := stored
  exact ⟨n,member,rest,by simp⟩

/-- The directories above an upload hold no version. -/
theorem version_not_above_upload (valid : ValidKey key) {n : String} :
    ¬ versionsAt fs bucket key ++ [n] <+: uploadAt fs bucket upload_id := by
  intro above
  have off : ".uploads" ∉ names key := offLimits_of_reserved (by decide) key valid
  rw [show [n] = n :: [] from rfl,version_entry_eq,uploadAt,List.prefix_append_right_inj] at above
  rcases front : (names key).dropLast with _ | ⟨first,more⟩
  · rw [front,List.nil_append,List.cons_prefix_cons] at above
    exact absurd above.1 (by decide)
  · rw [front,List.cons_append,List.cons_prefix_cons] at above
    have inside : first ∈ names key := (List.dropLast_prefix (names key)).subset (by simp [front])
    exact off (above.1 ▸ inside)

theorem version_ne_settings {n : String} {rest : OsPath} :
    versionsAt fs bucket key ++ n :: rest ≠ base fs.buckets_dir bucket ++ [".bucket.json"] := by
  intro same
  rw [version_entry_eq,List.append_cancel_left_eq] at same
  have length := congrArg List.length same
  simp only [List.length_append,List.length_cons,List.length_nil] at length
  omega

variable (accepted : Accepted bucket key) (accepted' : Accepted bucket other) (apart : KeysApart key other)
include accepted accepted' apart

theorem current_not_stored {q : OsPath} (stored : StoredVersion fs bucket key version_id q) (draws : Draws) :
    ¬ CurrentFiles fs bucket other q := by
  intro current
  obtain ⟨n,member,rest,rfl⟩ := storedVersion_entry stored
  have touched : Touched fs bucket other (ownNames other) (tempNames draws) [] (versionsAt fs bucket key ++ n :: rest) :=
    .inl (current.mono fun _ => List.mem_append_left _)
  exact absurd (touched_version_entry accepted accepted' apart (fun _ mine => mine) touched).2 List.not_mem_nil

theorem stored_apart {id : String} (named : names other = names key → id ≠ version_id) {q : OsPath}
    (stored : StoredVersion fs bucket key version_id q) (draws : Draws) : ¬ StoredVersion fs bucket other id q := by
  intro theirs
  obtain ⟨n,member,rest,rfl⟩ := storedVersion_entry stored
  have touched : Touched fs bucket other (ownNames other) (tempNames draws) (versionNames id)
      (versionsAt fs bucket key ++ n :: rest) := .inr (.inr theirs)
  obtain ⟨same,listed⟩ := touched_version_entry accepted accepted' apart (fun _ mine => mine) touched
  exact named same (versionNames_apart member listed)

theorem touched_not_stored {draws : Draws} (drawn : names other = names key → draws.version_id ≠ version_id) {q : OsPath}
    (stored : StoredVersion fs bucket key version_id q) :
    ¬ Touched fs bucket other (ownNames other) (tempNames draws) (versionNames draws.version_id) q := by
  intro touched
  obtain ⟨n,member,rest,rfl⟩ := storedVersion_entry stored
  obtain ⟨same,listed⟩ := touched_version_entry accepted accepted' apart (fun _ mine => mine) touched
  exact drawn same (versionNames_apart member listed)

end Places

theorem generated_ne_null (draws : Draws) : draws.version_id ≠ "null" := by
  intro same
  have dash : '-' ∈ draws.version_id.toList := by
    rw [Draws.version_id,generate_version_id,String.toList_append,String.toList_append]
    simp
  rw [same] at dash
  exact absurd dash (by decide)

/-! ### Calls that spare a version -/

section Spares
variable (P : Primitives) (fs : FilesystemStorage) (bucket key version_id : String) (draws : Draws) (w : World)

/-- What a call on the version itself may be: a read; a deletion that the lock in the stored sidecar refuses; a new lock on
    a version that is not encrypted. -/
def VersionCall.Unharmed (call : VersionCall) : Prop :=
  ∀ record, w.tree.node (versionsAt fs bucket key ++ [version_id ++ ".meta.json"]) = some (.file (.json (.object record))) →
    match call with
    | .delete_object_version => is_object_protected P draws.now record = true
    | .put_object_retention _ | .put_object_legal_hold _ => record.encryption = none
    | _ => True

/-- A call in whose way the version is not: its key is apart, a version it makes has another id, and if it names the version
    itself it does not harm it. -/
def BucketCall.Spares : BucketCall → Prop
  | .put_object other _ _ _ _ _ | .delete_object other =>
    KeysApart key other ∧ (names other = names key → draws.version_id ≠ version_id)
  | .upload upload_id call => call.completes → ∀ other, UploadCall.Recorded fs bucket upload_id w other →
      KeysApart key other ∧ (names other = names key → draws.version_id ≠ version_id)
  | .version other id call => call.looks = true ∨ KeysApart key other ∧
      (names other = names key → id = version_id → call.Unharmed P fs bucket key version_id draws w)
  | .update other _ => KeysApart key other
  | _ => True

end Spares

section Steps
variable {P : Primitives} {fs : FilesystemStorage} {from_str : String → Except String Json}
  {bucket key version_id other : String} {draws : Draws} {cipher : Option FrameCipher} {ck : Option Bytes} {body : Bytes}
  {record : ObjectMeta} {w : World}

theorem put_refused (refused : ∀ u, validate_key other ≠ .ok u) {content_type : String} {data : ByteStream}
    {checksum : ChecksumRequest} {encryption : Option EncryptionRequest} {declared_size : Option Nat} :
    (fs.put_object P draws bucket other content_type data checksum encryption declared_size w).2 = w := by
  unfold FilesystemStorage.put_object
  cases validate_bucket_name bucket with
  | error e => rfl
  | ok _ =>
    rw [Prog.lift_ok_bind]
    exact BucketCall.lift_refused refused

theorem delete_refused (refused : ∀ u, validate_key other ≠ .ok u) : (fs.delete_object P draws bucket other w).2 = w := by
  unfold FilesystemStorage.delete_object
  cases validate_bucket_name bucket with
  | error e => rfl
  | ok _ =>
    rw [Prog.lift_ok_bind]
    exact BucketCall.lift_refused refused

theorem drop_state {ε α β : Type} {m : Prog World ε α} {f : α → β} : ((m >>= fun a => pure (f a)) w).2 = (m w).2 := by
  rw [Prog.bind_apply]
  rcases m w with ⟨e | a,w'⟩ <;> rfl

theorem update_refused (refused : ∀ u, validate_key other ≠ .ok u) {call : UpdateCall} :
    (call.run fs bucket other none w).2 = w := by
  cases call with
  | put_object_tagging new => exact BucketCall.lift_refused refused
  | delete_object_tagging => exact BucketCall.lift_refused refused
  | put_object_retention retention =>
    rw [UpdateCall.run,FilesystemStorage.put_object_retention]
    cases validate_bucket_name bucket with
    | error e => rfl
    | ok _ =>
      rw [Prog.lift_ok_bind]
      exact BucketCall.lift_refused refused
  | put_object_legal_hold status =>
    rw [UpdateCall.run,FilesystemStorage.put_object_legal_hold]
    cases validate_bucket_name bucket with
    | error e => rfl
    | ok _ =>
      rw [Prog.lift_ok_bind]
      exact BucketCall.lift_refused refused

variable (named : validate_bucket_name bucket = .ok ()) (valid : validate_key key = .ok ())
  (kept : VersionKept P fs bucket key version_id record cipher ck body w)
include named valid kept

omit valid in
/-- A new lock on the version itself. -/
theorem VersionKept.locked (plain : '/' ∉ version_id.toList) (nonnull : version_id ≠ "null")
    (valid' : validate_key other = .ok ()) (same : names other = names key) (unsealed : record.encryption = none)
    (set : ObjectMeta → ObjectMeta) (keeps : (set record).is_delete_marker = record.is_delete_marker ∧
      (set record).version_id = record.version_id ∧ (set record).size = record.size ∧
      (set record).encryption = record.encryption) :
    ∃ record', VersionKept P fs bucket key version_id record' cipher ck body
      (fs.set_lock bucket other (some version_id) set w).2 := by
  have accepted' : Accepted bucket other := ⟨named,valid'⟩
  rcases set_lock_cases (some version_id) set with unchanged | ⟨found,read,wrote⟩
  · exact ⟨record,by rwa [unchanged]⟩
  have place : sidecarAt fs bucket other version_id = versionsAt fs bucket key ++ [version_id ++ ".meta.json"] := by
    rw [sidecarAt,if_neg nonnull,versionsAt_congr same]
  obtain ⟨dir,name,leads,spelled⟩ := @meta_file_leads fs _ _ _ named valid' plain
  have file := (Fs.read_done leads (read_meta_at_ok_iff.mp read).2.1).1
  rw [spelled,place,kept.recorded] at file
  obtain rfl : record = found := by simpa using file
  have sets := (Fs.write_done leads wrote).1
  rw [spelled,place] at sets
  refine ⟨set record,sets.here,keeps.1.trans kept.live,keeps.2.1.trans kept.dated,?_,?_⟩
  · have none : cipher = none := by
      cases cipher with
      | none => rfl
      | some c =>
        obtain ⟨enc,has,_⟩ := kept.described.encrypted c rfl
        rw [unsealed] at has
        cases has
    subst none
    refine ⟨keeps.2.2.1.trans kept.described.size,fun _ => ⟨keeps.2.2.2.trans unsealed,(kept.described.plain rfl).2⟩,?_⟩
    intro c given
    cases given
  · cases kept.lies with
    | flat content unchunked file payload' =>
      refine .flat content ?_ ?_ payload'
      · rwa [sets.other (by simp)]
      · rwa [sets.other (by simp)]
    | chunked data manifest holds payload' few =>
      refine .chunked data manifest (holds.moved fun n c file => ?_) payload' few
      rwa [sets.other (by simp)]

omit valid in
/-- The lock of the version refuses its deletion. -/
theorem VersionKept.undeleted (plain : '/' ∉ version_id.toList) (nonnull : version_id ≠ "null")
    (valid' : validate_key other = .ok ()) (same : names other = names key)
    (locked : is_object_protected P draws.now record = true) :
    (fs.delete_object_version P draws bucket other version_id w).2 = w := by
  have accepted' : Accepted bucket other := ⟨named,valid'⟩
  have recorded := kept.recorded
  rw [← versionsAt_congr same] at recorded
  rw [delete_object_version_eq,named,valid',Prog.lift_ok_bind,Prog.lift_ok_bind,if_neg nonnull,
    Prog.bind_of_ok (read_version_meta_ok accepted' plain recorded),if_pos locked]
  rfl

/-- A call on a version spares the version if it is another one, or if it does no harm. -/
theorem VersionKept.version_call (plain : '/' ∉ version_id.toList) (nonnull : version_id ≠ "null") {version : String}
    (call : VersionCall) (straight : call.looks = true ∨ '/' ∉ version.toList)
    (spares : call.looks = true ∨ KeysApart key other ∧
      (names other = names key → version = version_id → call.Unharmed P fs bucket key version_id draws w)) :
    ∃ record', VersionKept P fs bucket key version_id record' cipher ck body (call.run P fs draws bucket other version w).2 := by
  by_cases looks : call.looks = true
  · exact ⟨record,by rwa [BucketCall.looks_quiet looks w]⟩
  obtain ⟨apart,harmless⟩ := spares.resolve_left looks
  have straight := straight.resolve_left looks
  by_cases valid' : validate_key other = .ok ()
  swap
  · exact ⟨record,by rwa [BucketCall.version_refused (fun _ => valid') call]⟩
  have accepted : Accepted bucket key := ⟨named,valid⟩
  have accepted' : Accepted bucket other := ⟨named,valid'⟩
  by_cases mine : names other = names key ∧ version = version_id
  · obtain ⟨same,rfl⟩ := mine
    have unharmed := harmless same rfl record kept.recorded
    cases call with
    | delete_object_version =>
      have refused := kept.undeleted named plain nonnull valid' same unharmed
      refine ⟨record,?_⟩
      rw [VersionCall.run,drop_state,refused]
      exact kept
    | put_object_retention retention =>
      obtain ⟨record',kept'⟩ := kept.locked named plain nonnull valid' same unharmed
        (fun r => apply_object_lock r (some retention)) ⟨rfl,rfl,rfl,rfl⟩
      exact ⟨record',by rwa [VersionCall.run,drop_state]⟩
    | put_object_legal_hold status =>
      obtain ⟨record',kept'⟩ := kept.locked named plain nonnull valid' same unharmed
        (fun r => { r with legal_hold_status := some status }) ⟨rfl,rfl,rfl,rfl⟩
      exact ⟨record',by rwa [VersionCall.run,drop_state]⟩
    | get_object_version ck caps turns => exact absurd rfl looks
    | head_object_version => exact absurd rfl looks
    | get_object_retention => exact absurd rfl looks
    | get_object_legal_hold => exact absurd rfl looks
  · have files : ∀ q, StoredVersion fs bucket key version_id q → ¬ VersionFiles fs bucket other version q := by
      intro q stored
      unfold VersionFiles
      by_cases null : version = "null"
      · rw [if_pos null]
        exact current_not_stored accepted accepted' apart stored draws
      · rw [if_neg null]
        exact stored_apart accepted accepted' apart (fun same eq => mine ⟨same,eq⟩) stored draws
    refine ⟨record,kept.frame (VersionCall.run_frame named valid' straight call w) (fun q stored => ?_) ?_⟩
    · have side : ¬ q = sidecarAt fs bucket other version := by
        rintro rfl
        refine files _ stored ?_
        unfold VersionFiles sidecarAt
        by_cases null : version = "null"
        · rw [if_pos null,if_pos null]
          exact .intro (n := metaName other) (by simp [ownNames]) (List.prefix_refl _)
        · rw [if_neg null,if_neg null]
          exact .intro (by simp [versionNames]) (List.prefix_refl _)
      cases call with
      | put_object_retention retention => exact side
      | put_object_legal_hold status => exact side
      | delete_object_version =>
        rintro (inside | inside)
        · exact files q stored inside
        · exact current_not_stored accepted accepted' apart stored draws inside
      | get_object_version ck caps turns => exact id
      | head_object_version => exact id
      | get_object_retention => exact id
      | get_object_legal_hold => exact id
    · cases call with
      | delete_object_version => exact opened_version_entry accepted accepted' apart
      | put_object_retention retention => exact id
      | put_object_legal_hold status => exact id
      | get_object_version ck caps turns => exact id
      | head_object_version => exact id
      | get_object_retention => exact id
      | get_object_legal_hold => exact id

/-- A call that spares a version keeps it. -/
theorem VersionKept.step (plain : '/' ∉ version_id.toList) (nonnull : version_id ≠ "null") (call : BucketCall)
    (straight : call.Straight fs bucket w) (spares : call.Spares P fs bucket key version_id draws w) :
    ∃ record', VersionKept P fs bucket key version_id record' cipher ck body
      (call.run P fs from_str bucket draws w).2 := by
  have accepted : Accepted bucket key := ⟨named,valid⟩
  have frame := @BucketCall.run_frame P _ from_str _ draws _ call named straight
  have stored_in : ∀ {upload_id : String} {q}, StoredVersion fs bucket key version_id q →
      ¬ InUpload fs bucket upload_id q := by
    rintro upload_id q stored inside
    obtain ⟨n,_,rest,rfl⟩ := storedVersion_entry stored
    exact version_not_in_upload accepted.validKey inside
  cases call with
  | put_object other content_type data checksum encryption size =>
    by_cases valid' : validate_key other = .ok ()
    · refine ⟨record,kept.frame frame (fun q stored => ?_) ?_⟩
      · exact touched_not_stored accepted ⟨named,valid'⟩ spares.1 spares.2 stored
      · exact opened_version_entry accepted ⟨named,valid'⟩ spares.1
    · exact ⟨record,by rwa [BucketCall.run,drop_state,put_refused fun _ => valid']⟩
  | delete_object other =>
    by_cases valid' : validate_key other = .ok ()
    · refine ⟨record,kept.frame frame (fun q stored => ?_) ?_⟩
      · exact touched_not_stored accepted ⟨named,valid'⟩ spares.1 spares.2 stored
      · exact opened_version_entry accepted ⟨named,valid'⟩ spares.1
    · exact ⟨record,by rwa [BucketCall.run,drop_state,delete_refused fun _ => valid']⟩
  | get_object other key' => exact ⟨record,kept.frame frame (fun _ _ => id) id⟩
  | head_object other => exact ⟨record,kept.frame frame (fun _ _ => id) id⟩
  | create_multipart_upload other content_type algorithm spec =>
    refine ⟨record,kept.frame frame (fun q stored => stored_in stored) ?_⟩
    exact version_not_above_upload accepted.validKey
  | upload upload_id call =>
    refine ⟨record,kept.frame frame (fun q stored => ?_) ?_⟩
    · rintro (inside | ⟨completes,other,recorded,touched⟩)
      · exact stored_in stored inside
      · obtain ⟨apart,drawn⟩ := spares completes other recorded
        exact touched_not_stored accepted ⟨named,straight.2 other recorded⟩ apart drawn stored touched
    · rintro ⟨completes,other,recorded,opened⟩
      obtain ⟨apart,drawn⟩ := spares completes other recorded
      exact opened_version_entry accepted ⟨named,straight.2 other recorded⟩ apart opened
  | version other id call =>
    obtain ⟨record',kept'⟩ := kept.version_call named valid plain nonnull call straight spares
    exact ⟨record',by rwa [BucketCall.run,drop_state]⟩
  | update other call =>
    by_cases valid' : validate_key other = .ok ()
    · refine ⟨record,kept.frame frame (fun q stored => ?_) id⟩
      rintro rfl
      refine current_not_stored accepted ⟨named,valid'⟩ spares stored draws ?_
      exact .intro (n := metaName other) (by simp [ownNames]) (List.prefix_refl _)
    · exact ⟨record,by rwa [BucketCall.run,update_refused fun _ => valid']⟩
  | configure call =>
    refine ⟨record,kept.frame frame (fun q stored => ?_) id⟩
    obtain ⟨n,_,rest,rfl⟩ := storedVersion_entry stored
    exact version_ne_settings

end Steps

/-! ### Runs -/

section Runs
variable (P : Primitives) (fs : FilesystemStorage) (from_str : String → Except String Json) (bucket key version_id : String)

/-- A call that spares the version, with whatever it draws and whatever becomes of it. -/
def SparingStep (w w' : World) : Prop :=
  ∃ draws call, BucketCall.Straight fs bucket w call ∧ call.Spares P fs bucket key version_id draws w ∧
    w' = (call.run P fs from_str bucket draws w).2

/-- Any number of them, one after the other. -/
def SparingRun : World → World → Prop := Relation.ReflTransGen (SparingStep P fs from_str bucket key version_id)

/-- A write to a versioned bucket that succeeded: a put, or the completion of an upload whose parts are stored. No chunks
    lie under the version id it draws. -/
inductive StoresVersion (draws : Draws) (ck : Option Bytes) (body : Bytes) (result : PutResult) (w w₁ : World) : Prop where
  | put (content_type : String) (stream : ByteStream) (checksum : ChecksumRequest) (encryption : Option EncryptionRequest)
      (declared_size : Option Nat) (file : ends_with key "/" = false)
      (few : coded fs bucket w = true → Countable fs encryption.isSome body.length)
      (done : fs.put_object P draws bucket key content_type stream checksum encryption declared_size w = (.ok result,w₁))
      (whole : stream.body = body) (keyed : encryption.bind EncryptionRequest.customer_key = ck)
  | complete (upload_id : String) (upload : MultipartUploadMeta) (uploaded : List (PartMeta × Bytes))
      (parts : List (Nat × String)) (customer_key : Option Bytes)
      (begun : UploadStored P fs bucket upload_id upload w) (same : upload.key = key)
      (asked : uploaded.map (fun u => u.1.part_number) = parts.map Prod.fst)
      (stored : ∀ u ∈ uploaded, PartStored P fs bucket upload_id upload customer_key u.1 u.2 w)
      (few : coded fs bucket w = true → Countable fs upload.encryption_spec.isSome body.length)
      (done : fs.complete_multipart_upload P draws bucket upload_id parts customer_key w = (.ok result,w₁))
      (whole : (uploaded.map Prod.snd).flatten = body) (keyed : readingKey upload customer_key = ck)

end Runs

section Durability
variable {P : Primitives} {fs : FilesystemStorage} {from_str : String → Except String Json}
  {bucket key version_id : String} {draws : Draws} {ck : Option Bytes} {body : Bytes} {result : PutResult} {w w₁ w' : World}

/-- What a write leaves of the version it makes. -/
theorem StoresVersion.kept (sound : P.Sound) (numbered : versioned fs bucket w = true)
    (fresh : w.tree.node (versionsAt fs bucket key ++ [draws.version_id ++ ".ec"]) ≠ some .dir)
    (stores : StoresVersion P fs bucket key draws ck body result w w₁) :
    Accepted bucket key ∧ ∃ record cipher, result = FilesystemStorage.put_result record ∧
      VersionKept P fs bucket key draws.version_id record cipher ck body w₁ := by
  cases stores with
  | put content_type stream checksum encryption declared_size file few done whole keyed =>
    subst whole keyed
    exact ⟨(put_object_done sound file done).1,put_object_keeps sound file numbered fresh few done⟩
  | complete upload_id upload uploaded parts customer_key begun same asked stored few done whole keyed =>
    subst same whole keyed
    have named : validate_bucket_name bucket = .ok () := by
      simp only [FilesystemStorage.complete_multipart_upload,Prog.bind_ok_iff,lift_ok_iff] at done
      obtain ⟨_,_,⟨valid,_⟩,_⟩ := done
      exact valid
    exact ⟨⟨named,begun.key⟩,complete_multipart_upload_keeps sound begun asked stored numbered fresh few done⟩

theorem VersionKept.run (accepted : Accepted bucket key) (plain : '/' ∉ version_id.toList) (nonnull : version_id ≠ "null")
    {cipher : Option FrameCipher} {record : ObjectMeta}
    (kept : VersionKept P fs bucket key version_id record cipher ck body w)
    (later : SparingRun P fs from_str bucket key version_id w w') :
    ∃ record', VersionKept P fs bucket key version_id record' cipher ck body w' := by
  induction later with
  | refl => exact ⟨record,kept⟩
  | tail _ step ih =>
    obtain ⟨record',kept'⟩ := ih
    obtain ⟨draws,call,straight,spares,rfl⟩ := step
    exact kept'.step accepted.bucket accepted.key plain nonnull call straight spares

end Durability

namespace Sample

def one_call (n : Nat) (call : BucketCall) (w : World) : World :=
  (call.run primitives fourfold (fun _ => .error "") "logs" (draws n) w).2

/-- `a` is put again and deleted, in a bucket whose versioning is then suspended. -/
def overwritten (w : World) : World :=
  one_call 4 (.configure (.set_versioning false)) (one_call 3 (.delete_object "a")
    (one_call 2 (.put_object "a" "text/plain" (stream [0] zero_filled zero_fits) none none none) w))

theorem overwritten_spares (w : World) :
    SparingRun primitives fourfold (fun _ => .error "") "logs" "a" (draws 1).version_id w (overwritten w) := by
  have step (n : Nat) (call : BucketCall) (w : World) (straight : call.Straight fourfold "logs" w)
      (spares : call.Spares primitives fourfold "logs" "a" (draws 1).version_id (draws n) w) :
      SparingStep primitives fourfold (fun _ => .error "") "logs" "a" (draws 1).version_id w (one_call n call w) :=
    ⟨draws n,call,straight,spares,rfl⟩
  have other : (draws 2).version_id ≠ (draws 1).version_id ∧ (draws 3).version_id ≠ (draws 1).version_id := by
    decide +kernel
  have put := step 2 (.put_object "a" "text/plain" (stream [0] zero_filled zero_fits) none none none) w trivial
    ⟨KeysApart.refl "a",fun _ => other.1⟩
  have delete (w : World) := step 3 (.delete_object "a") w trivial ⟨KeysApart.refl "a",fun _ => other.2⟩
  have suspend (w : World) := step 4 (.configure (.set_versioning false)) w trivial trivial
  exact ((Relation.ReflTransGen.single put).tail (delete _)).tail (suspend _)

end Sample

end Maxio
