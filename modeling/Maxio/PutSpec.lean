import Maxio.Footprint

/-!
What a put that succeeds has left behind: a sidecar that describes the payload, and the payload in the layout of
the bucket.
-/

set_option linter.unusedSimpArgs false

namespace Maxio
open FileTree (Node Tree)

/-! ### Names in the directory of a key -/

theorem Draws.spelled_dot (draws : Draws) {name : String}
    (member : name ∈ [draws.tmp_payload,draws.tmp_meta,draws.backup_payload,draws.backup_meta]) :
    '.' ∉ name.toList := by
  intro dot
  rcases (draws.spelled name (by simp at member ⊢; tauto)).2 _ dot with alnum | dash
  · exact absurd alnum (by decide)
  · exact absurd dash (by decide)

/-- The only dot of a temporary name is its first character. -/
theorem append_ne_tempName {s tail uuid : String} (plain : '.' ∉ uuid.toList) (dot : tail.toList.head? = some '.')
    (short : tail.toList.length < 11) : s ++ tail ≠ tempName uuid := by
  intro same
  have chars := congrArg String.toList same
  rw [tempName,String.toList_append,String.toList_append] at chars
  obtain ⟨rest,spelled⟩ : ∃ rest, tail.toList = '.' :: rest := by
    cases chars : tail.toList with
    | nil => rw [chars] at dot; cases dot
    | cons c rest =>
      rw [chars] at dot
      injection dot with dot
      exact ⟨rest,by rw [dot]⟩
  have start : ".maxio-tmp-".toList = '.' :: "maxio-tmp-".toList := by decide
  cases front : s.toList with
  | nil =>
    rw [front,List.nil_append] at chars
    have length := congrArg List.length chars
    rw [List.length_append] at length
    have eleven : ".maxio-tmp-".toList.length = 11 := by decide
    omega
  | cons c cs =>
    rw [front,spelled,start,List.cons_append,List.cons_append] at chars
    have inside : '.' ∈ "maxio-tmp-".toList ++ uuid.toList := by
      rw [← (List.cons.inj chars).2]
      simp
    rcases List.mem_append.mp inside with early | late
    · exact absurd early (by decide)
    · exact plain late

theorem suffix_ne {s a b : String} (apart : a ≠ b) : s ++ a ≠ s ++ b := by
  intro same
  have chars := congrArg String.toList same
  rw [String.toList_append,String.toList_append,List.append_cancel_left_eq] at chars
  exact apart (String.toList_inj.mp chars)

section Names
variable {bucket key : String} {uuid : String} (plain : '.' ∉ uuid.toList)

include plain in
theorem metaName_ne_tempName : metaName key ≠ tempName uuid := by
  unfold metaName
  split
  · rw [show ".folder.meta.json" = ".folder" ++ ".meta.json" from rfl]
    exact append_ne_tempName plain (by decide) (by decide)
  · exact append_ne_tempName plain (by decide) (by decide)

include plain in
theorem ecName_ne_tempName : ecName key ≠ tempName uuid := append_ne_tempName plain (by decide) (by decide)

theorem objectName_ne_tempName (valid : ValidKey key) (named : ends_with key "/" = true ∨ skipped (leaf key) = false) :
    objectName key ≠ tempName uuid := by
  unfold objectName
  split
  next =>
    intro same
    have starts := tempName_starts uuid
    rw [← same] at starts
    exact absurd starts (by decide)
  next file =>
    intro same
    have free := valid.unreserved _ (leaf_mem_split key) (named.resolve_left file)
    have reserved : is_reserved_segment (leaf key) = true := by
      simp [is_reserved_segment,same,tempName_starts]
    rw [free] at reserved
    cases reserved

theorem objectName_ne_metaName : objectName key ≠ metaName key := by
  unfold objectName metaName
  split
  · decide
  · intro same
    have chars := congrArg (fun s : String => s.toList.length) same
    simp only [String.toList_append,List.length_append] at chars
    have ten : ".meta.json".toList.length = 10 := by decide
    omega

theorem ecName_ne_metaName : ecName key ≠ metaName key := by
  unfold ecName metaName
  split
  next folder =>
    intro same
    have chars := congrArg (fun s : String => s.toList.reverse.head?) same
    simp only [String.toList_append,List.reverse_append] at chars
    exact absurd chars (by simp)
  next => exact suffix_ne (by decide)

end Names

theorem append_ne_of_not_suffix {s tail text : String} (other : tail.toList.isSuffixOf text.toList = false) :
    s ++ tail ≠ text := by
  rintro rfl
  rw [String.toList_append] at other
  have suffix : tail.toList <:+ s.toList ++ tail.toList := List.suffix_append _ _
  rw [← List.isSuffixOf_iff_suffix,other] at suffix
  cases suffix

/-- The internal names at the top of a bucket. -/
def topNames : List String := [".bucket.json",".uploads",".versions"]

theorem ownNames_ne_top {key : String} (valid : ValidKey key) : ∀ n ∈ ownNames key, n ∉ topNames := by
  intro n member top
  have short : ∀ text ∈ topNames, ".meta.json".toList.isSuffixOf text.toList = false ∧
      ".ec".toList.isSuffixOf text.toList = false := by decide
  simp only [ownNames,List.mem_cons,List.not_mem_nil,or_false] at member
  rcases member with rfl | rfl | rfl
  · unfold objectName at top
    split at top
    next => exact absurd top (by decide)
    next =>
      by_cases kept : skipped (leaf key) = false
      · have free := valid.unreserved _ (leaf_mem_split key) kept
        have reserved : ∀ text ∈ topNames, is_reserved_segment text = true := by decide
        rw [reserved _ top] at free
        cases free
      · have named : ∀ text ∈ topNames, skipped text = false := by decide
        exact kept (named _ top)
  · unfold metaName at top
    split at top
    next => exact absurd top (by decide)
    next => exact append_ne_of_not_suffix (short _ top).1 rfl
  · exact append_ne_of_not_suffix (short _ top).2 rfl

theorem tempNames_ne_top {draws : Draws} : ∀ n ∈ tempNames draws, n ∉ topNames := by
  intro n member top
  have other : ∀ text ∈ topNames, starts_with text ".maxio-tmp-" = false := by decide
  have starts := other n top
  obtain ⟨uuid,_,rfl⟩ := mem_tempNames member
  rw [tempName_starts] at starts
  cases starts

/-- No segment of a key is one of the internal names. -/
theorem names_ne_top {key : String} (valid : ValidKey key) : ∀ n ∈ names key, n ∉ topNames := by
  intro n member top
  obtain ⟨inside,kept⟩ := List.mem_filter.mp member
  have free := valid.unreserved n inside (by simpa using kept)
  have reserved : ∀ text ∈ topNames, is_reserved_segment text = true := by decide
  rw [reserved _ top] at free
  cases free

theorem stem_subset {key : String} : ∀ n ∈ stem key, n ∈ names key := by
  intro n member
  rw [names_eq]
  exact List.mem_append_left _ member

/-! ### Bucket metadata -/

/-- The file that holds the metadata of a bucket. -/
def bucketMetaAt (fs : FilesystemStorage) (bucket : String) : OsPath := base fs.buckets_dir bucket ++ [".bucket.json"]

/-- The metadata of a bucket, when it is there and can be read. -/
def bucketRecord (fs : FilesystemStorage) (bucket : String) (w : World) : Option BucketMeta :=
  match w.tree.node (bucketMetaAt fs bucket) with
  | some (.file (.json (.bucket record))) => some record
  | _ => none

/-- Versioning is enabled. -/
def versioned (fs : FilesystemStorage) (bucket : String) (w : World) : Bool :=
  (bucketRecord fs bucket w).elim false BucketMeta.versioning

section Bucket
variable {fs : FilesystemStorage} {bucket : String} {w w' : World}

theorem bucket_meta_leads (valid : ValidBucket bucket) :
    Leads (bucket_meta_path fs.buckets_dir bucket) (base fs.buckets_dir bucket) ".bucket.json" := by
  rw [bucket_meta_path_eq valid]
  exact leads_plain (plain_base fs.plain valid) (by decide) (by decide)

theorem from_json_ok {α : Type} {select : Record → Option α} {content : Content} {a : α} :
    from_json select content = .ok a ↔ ∃ record, content = .json record ∧ select record = some a := by
  cases content with
  | bytes data => simp [from_json]
  | json record =>
    simp only [from_json,Content.json.injEq,exists_eq_left']
    cases select record with
    | none => simp
    | some b => simp

theorem read_bucket_meta_ok_iff (valid : validate_bucket_name bucket = .ok ()) {record : BucketMeta} :
    fs.read_bucket_meta bucket w = (.ok record,w') ↔ bucketRecord fs bucket w = some record ∧ w' = w := by
  have leads : Leads (bucket_meta_path fs.buckets_dir bucket) _ _ := bucket_meta_leads (validBucket_of_validate valid)
  constructor
  · intro done
    have same := (FilesystemStorage.read_bucket_meta_quiet bucket).state done
    subst same
    simp only [FilesystemStorage.read_bucket_meta,Prog.bind_ok_iff,lift_ok_iff,or_not_found,Prog.mapError_ok_iff,
      from_json_ok] at done
    obtain ⟨_,_,⟨_,rfl⟩,content,_,read,⟨json,rfl,parsed⟩,_⟩ := done
    obtain ⟨found,_⟩ := Fs.read_done leads read
    refine ⟨?_,rfl⟩
    cases json with
    | bucket r => simpa [bucketRecord,bucketMetaAt,found,asBucket] using parsed
    | _ => cases parsed
  · rintro ⟨found,rfl⟩
    have file : w'.tree.node (base fs.buckets_dir bucket ++ [".bucket.json"]) =
        some (.file (.json (.bucket record))) := by
      unfold bucketRecord at found
      split at found
      next r here => injection found with found; rw [← found]; exact here
      next => cases found
    simp only [FilesystemStorage.read_bucket_meta,valid,Prog.lift_ok_bind]
    have read : or_not_found (.NotFound bucket) (Fs.read (bucket_meta_path fs.buckets_dir bucket)) w' = (.ok _,w') :=
      Prog.mapError_ok_iff.mpr (Fs.read_file leads file)
    rw [Prog.bind_of_ok read]
    rfl

/-- The version id of a new object depends on the bucket's metadata alone. -/
theorem next_version_id_eq (valid : validate_bucket_name bucket = .ok ()) (draws : Draws) :
    fs.next_version_id draws bucket w = (.ok (if versioned fs bucket w then some draws.version_id else none),w) := by
  have value : ((unwrap_or false (fs.is_versioned bucket)) : Action Bool) w = (.ok (versioned fs bucket w),w) := by
    have quiet := (FilesystemStorage.read_bucket_meta_quiet bucket : Quiet (fs.read_bucket_meta bucket)) w
    unfold unwrap_or
    rcases read : fs.read_bucket_meta bucket w with ⟨e | record,w₁⟩
    · have same : w₁ = w := by rw [read] at quiet; exact quiet
      subst same
      have failed : fs.is_versioned bucket w₁ = (.error e,w₁) := Prog.bind_of_error read
      rw [Prog.bind_of_ok (attempt_ok_iff.mpr failed)]
      have none : bucketRecord fs bucket w₁ = none := by
        by_contra found
        obtain ⟨record,here⟩ := Option.ne_none_iff_exists'.mp found
        rw [(read_bucket_meta_ok_iff valid).mpr ⟨here,rfl⟩] at read
        cases read
      simp [versioned,none]
    · obtain ⟨found,rfl⟩ := (read_bucket_meta_ok_iff valid).mp read
      have done : fs.is_versioned bucket w₁ = (.ok record.versioning,w₁) := Prog.bind_of_ok read
      rw [Prog.bind_of_ok (attempt_ok_iff.mpr done)]
      simp [versioned,found]
  unfold FilesystemStorage.next_version_id
  rw [Prog.bind_of_ok value]
  cases versioned fs bucket w <;> rfl

theorem bucketRecord_congr (same : w'.tree.node (bucketMetaAt fs bucket) = w.tree.node (bucketMetaAt fs bucket)) :
    bucketRecord fs bucket w' = bucketRecord fs bucket w := by
  unfold bucketRecord
  rw [same]

/-- No operation on a key touches the metadata of a bucket. -/
theorem bucketMeta_untouched {key other : String} (accepted : Accepted bucket key) (valid : ValidBucket other)
    {draws : Draws} {own stored : List String} (apart : ∀ n ∈ own, n ∉ topNames) :
    ¬ Touched fs bucket key own (tempNames draws) stored (bucketMetaAt fs other) ∧
      ¬ Opened fs bucket key (bucketMetaAt fs other) := by
  constructor
  · intro touched
    obtain ⟨_,cases'⟩ := touched_cases accepted valid touched
    have single : ∀ {dir : OsPath} {n : String}, dir ++ [n] <+: [".bucket.json"] → n = ".bucket.json" := by
      intro dir n below
      cases dir with
      | nil => simpa using below
      | cons d ds =>
        have length := below.length_le
        simp at length
    rcases cases' with ⟨n,member,below⟩ | ⟨n,member,below⟩ | ⟨n,_,below⟩
    · have same := single below
      rcases List.mem_append.mp member with inside | inside
      · exact apart n inside (by rw [same]; decide)
      · exact tempNames_ne_top n inside (by rw [same]; decide)
    · exact tempNames_ne_top n member (by rw [single below]; decide)
    · have length := below.length_le
      simp [versionsRel] at length
      omega
  · intro opened
    obtain ⟨_,cases'⟩ := opened_cases opened
    rcases cases' with above | above
    · have inside := above.subset (List.mem_singleton.mpr rfl)
      exact names_ne_top accepted.validKey _ (stem_subset _ inside) (by decide)
    · have inside : ".bucket.json" ∈ versionsRel key := above.subset (List.mem_singleton.mpr rfl)
      simp only [versionsRel,List.mem_append,List.mem_cons,Option.mem_toList] at inside
      rcases inside with early | dots | last
      · exact names_ne_top accepted.validKey _ (List.mem_of_mem_dropLast early) (by decide)
      · exact absurd dots (by decide)
      · exact names_ne_top accepted.validKey _ (List.mem_of_getLast? last) (by decide)

end Bucket

/-! ### Publication -/

section Publish
variable {P : Primitives} {fs : FilesystemStorage} {bucket key : String} {draws : Draws} {w w' : World}

/-- The places of one publication of a key. -/
theorem publish_slots (accepted : Accepted bucket key) {payload : String} {tmp final : OsPath}
    (final_leads : Leads final (home fs bucket key) payload)
    (tmp_leads : Leads tmp (home fs bucket key) (tempName draws.tmp_payload)) (apart : payload ≠ metaName key)
    (own : ∀ uuid : String, '.' ∉ uuid.toList → payload ≠ tempName uuid) :
    Common.Slots (home fs bucket key) final (meta_path fs.buckets_dir bucket key) tmp
      (temp_sibling_path (meta_path fs.buckets_dir bucket key) draws.tmp_meta) payload (metaName key)
      (tempName draws.tmp_payload) (tempName draws.tmp_meta) draws.backup_payload draws.backup_meta := by
  have fresh : ∀ name ∈ [draws.tmp_payload,draws.tmp_meta,draws.backup_payload,draws.backup_meta],
      payload ≠ tempName name ∧ metaName key ≠ tempName name :=
    fun name member => ⟨own _ (draws.spelled_dot member),metaName_ne_tempName (draws.spelled_dot member)⟩
  refine ⟨accepted.plain_home,accepted.home_ne,final_leads,accepted.meta_leads,tmp_leads,
    accepted.temp_meta_leads fs draws.tmp_meta_slash,⟨draws.backup_payload_slash,draws.backup_meta_slash⟩,?_⟩
  change (payload :: metaName key ::
    [draws.tmp_payload,draws.tmp_meta,draws.backup_payload,draws.backup_meta].map tempName).Nodup
  refine List.nodup_cons.mpr ⟨?_,List.nodup_cons.mpr ⟨?_,draws.distinct.map tempName_injective⟩⟩
  · rw [List.mem_cons,not_or]
    refine ⟨apart,fun member => ?_⟩
    obtain ⟨name,inside,same⟩ := List.mem_map.mp member
    exact (fresh name inside).1 same.symm
  · intro member
    obtain ⟨name,inside,same⟩ := List.mem_map.mp member
    exact (fresh name inside).2 same.symm

/-- A publication that succeeds has moved payload and sidecar into place. -/
theorem publish_done (accepted : Accepted bucket key) {payload : String} {tmp final : OsPath} {is_dir : Bool}
    {record : ObjectMeta} (final_leads : Leads final (home fs bucket key) payload)
    (tmp_leads : Leads tmp (home fs bucket key) (tempName draws.tmp_payload)) (apart : payload ≠ metaName key)
    (own : ∀ uuid : String, '.' ∉ uuid.toList → payload ≠ tempName uuid)
    (present : w.tree.node (home fs bucket key ++ [tempName draws.tmp_payload]) ≠ none)
    (done : fs.publish draws bucket key tmp final is_dir record w = (.ok (),w')) :
    Shows fs bucket key record w' ∧ ∀ rest, w'.tree.node (home fs bucket key ++ [payload] ++ rest) =
      w.tree.node (home fs bucket key ++ [tempName draws.tmp_payload] ++ rest) := by
  have side_leads := accepted.temp_meta_leads fs draws.tmp_meta_slash
  have slots := publish_slots accepted final_leads tmp_leads apart own
  have names : tempName draws.tmp_payload ≠ tempName draws.tmp_meta := slots.names_ne.2.2.2.2.2.2.2.2.2.1
  unfold FilesystemStorage.publish at done
  simp only [accepted.meta_leads.parent,Common.with_guard,Prog.bind_ok_iff,io_ok_iff,Prog.guarded_ok_iff] at done
  obtain ⟨_,w₁,made,_,w₂,written,published⟩ := done
  have home_dir : w.tree.node (home fs bucket key) = some .dir := w.tree.rooted _ _ present
  have same₁ := Fs.create_dir_all_present accepted.plain_home accepted.home_ne home_dir made
  obtain ⟨sets,_,plain⟩ := Fs.write_done side_leads written
  have apart₂ : ∀ rest, home fs bucket key ++ [tempName draws.tmp_payload] ++ rest ≠
      home fs bucket key ++ [tempName draws.tmp_meta] := by
    intro rest same
    exact not_prefix_of_ne names [] (by rw [List.append_nil,← same]; exact prefix_self_append rest)
  have tmp_same : ∀ rest, w₂.tree.node (home fs bucket key ++ [tempName draws.tmp_payload] ++ rest) =
      w.tree.node (home fs bucket key ++ [tempName draws.tmp_payload] ++ rest) := by
    intro rest
    rw [sets.other (apart₂ rest),same₁]
  have present₂ : w₂.tree.node (home fs bucket key ++ [tempName draws.tmp_payload]) ≠ none := by
    have here := tmp_same []
    simp only [List.append_nil] at here
    rw [here]
    exact present
  obtain ⟨moved,moved',_⟩ := Common.publish_temp_payload_and_meta_done slots present₂ published
  refine ⟨?_,fun rest => by rw [moved,tmp_same]⟩
  have here := moved' []
  simp only [List.append_nil] at here
  rw [Shows,metaAt,here,sets.here]

/-- A rename that succeeds names an entry on both sides. -/
theorem rename_undotted {a b : OsPath} (done : Fs.rename a b w = (.ok (),w')) : dotted b = false := by
  rw [Fs.rename,Fs.change_ok_iff] at done
  obtain ⟨t,moved,_⟩ := done
  by_contra dots
  rw [Bool.not_eq_false] at dots
  simp only [bind,Except.bind] at moved
  split at moved
  next => cases moved
  next =>
    unfold Fs.entry at moved
    rw [if_pos dots] at moved
    split at moved
    next => cases moved
    next failed =>
      split at failed <;> cases failed

theorem publish_undotted {tmp final : OsPath} {is_dir : Bool} {record : ObjectMeta}
    (done : fs.publish draws bucket key tmp final is_dir record w = (.ok (),w')) : dotted final = false := by
  unfold FilesystemStorage.publish at done
  simp only [Common.with_guard,Prog.bind_ok_iff,Prog.guarded_ok_iff,Common.publish_temp_payload_and_meta,
    attempt_ok_iff] at done
  obtain ⟨_,_,_,_,_,_,_,_,_,_,_,_,_,_,_,_,_,_,moved,_,renamed,done⟩ := done
  cases moved with
  | error e =>
    simp only [Prog.bind_ok_iff] at done
    obtain ⟨_,_,_,_,_,_,impossible⟩ := done
    simp at impossible
  | ok _ => exact rename_undotted renamed

end Publish

/-! ### Written objects -/

/-- The payload of a body in one of the two layouts: a directory of chunks, or one file. -/
inductive Lies (P : Primitives) (fs : FilesystemStorage) (bucket key : String) (cipher : Option FrameCipher)
    (body : Bytes) (w : World) : Bool → Prop where
  | flat (content : Bytes) (named : ends_with key "/" = true ∨ skipped (leaf key) = false)
      (file : w.tree.node (objectAt fs bucket key) = some (.file (.bytes content)))
      (payload : Payload P cipher body content) : Lies P fs bucket key cipher body w false
  | chunked (data : Bytes) (manifest : ChunkManifest)
      (holds : EcHolds P w.tree (ecAt fs bucket key) fs.chunk_size fs.parity_shards data manifest)
      (payload : Payload P cipher body data) : Lies P fs bucket key cipher body w true

/-- The current object of the key: its sidecar, and the payload the sidecar describes. -/
structure Landed (P : Primitives) (fs : FilesystemStorage) (bucket key : String) (record : ObjectMeta)
    (cipher : Option FrameCipher) (ck : Option Bytes) (body : Bytes) (coded : Bool) (w : World) : Prop where
  shows' : Shows fs bucket key record w
  described : Described P fs bucket key record cipher ck body
  lies : Lies P fs bucket key cipher body w coded

/-- A directory of chunks that was moved, or whose files were copied. -/
theorem EcHolds.moved {P : Primitives} {t t' : Disk} {q q' : OsPath} {size m : Nat} {data : Bytes}
    {manifest : ChunkManifest} (holds : EcHolds P t q size m data manifest)
    (same : ∀ n c, t.node (q ++ [n]) = some (.file c) → t'.node (q' ++ [n]) = some (.file c)) :
    EcHolds P t' q' size m data manifest := by
  refine ⟨same _ _ holds.file,holds.total,holds.chunk_size,holds.count,?_,?_⟩
  · exact fun few i piece here => same _ _ (holds.stored few i piece here)
  · refine holds.parity.imp id ?_
    rintro ⟨shards,parity,positive,filled,chunks,count,shard,stored⟩
    exact ⟨shards,parity,positive,filled,chunks,count,shard,fun i s here => same _ _ (stored i s here)⟩

section Store
variable {P : Primitives} {fs : FilesystemStorage} {bucket key : String} {draws : Draws} {w w' : World}

/-- The metadata of a new object describes its body. -/
theorem described_plain {record : ObjectMeta} {body : Bytes} (size : record.size = body.length)
    (plain : record.encryption = none) : Described P fs bucket key record none none body :=
  ⟨size,fun _ => ⟨plain,rfl⟩,fun _ none => by cases none⟩

theorem described_sealed (sound : P.Sound) {record : ObjectMeta} {body : Bytes} {ck : Option Bytes} {enc : EncryptionMeta}
    {cipher : FrameCipher} (size : record.size = body.length) (has : record.encryption = some enc)
    (keyed : Keyed P fs ck (build_frame_aad P bucket key record.version_id) enc cipher) :
    Described P fs bucket key (with_sidecar_mac P (some cipher.key) record) (some cipher) ck body := by
  obtain ⟨enc',has',chunk,verified⟩ := verified_dek_with_sidecar_mac sound keyed has
  refine ⟨?_,fun none => (by cases none),fun c same => ?_⟩
  · unfold with_sidecar_mac
    split <;> exact size
  · cases same
    exact ⟨enc',has',chunk,verified,by rw [keyed.aad,with_sidecar_mac_version_id],keyed.eight⟩

/-- What a new object is made of: nothing but the version id and the payload matters for reading it back. -/
structure Written (P : Primitives) (fs : FilesystemStorage) (bucket key : String) (version_id : Option String)
    (cipher : Option FrameCipher) (ck : Option Bytes) (body : Bytes) (coded : Bool) (record : ObjectMeta) (w : World) :
    Prop where
  landed : Landed P fs bucket key record cipher ck body coded w
  version : record.version_id = version_id
  live : record.is_delete_marker = false
  named : record.key = key

theorem store_flat_done (sound : P.Sound) (accepted : Accepted bucket key) {content_type : String} {body : ByteStream}
    {checksum : ChecksumRequest} {version_id : Option String} {ck : Option Bytes} {record : ObjectMeta}
    {sealing : Option (EncryptionMeta × FrameCipher)} (unsealed : sealing = none → ck = none)
    (keyed : ∀ enc c, sealing = some (enc,c) → Keyed P fs ck (build_frame_aad P bucket key version_id) enc c)
    (done : fs.store_flat P draws bucket key content_type body checksum version_id sealing w = (.ok record,w')) :
    body.failure = none ∧
      Written P fs bucket key version_id (sealing.map Prod.snd) ck body.body false record w' := by
  have leads := accepted.temp_object_leads fs draws.tmp_payload_slash
  simp only [FilesystemStorage.store_flat,Common.with_guard,Prog.bind_ok_iff,Prog.guarded_ok_iff,io_ok_iff,lift_ok_iff,
    pure_ok_iff] at done
  obtain ⟨_,w₁,made,_,w₂,created,fw,w₃,pumped,fw',w₄,finished,⟨algo,value⟩,_,⟨checked,rfl⟩,lock,w₅,locked,_,w₆,published,
    rfl,rfl⟩ := done
  have quiet := (FilesystemStorage.resolve_default_object_lock_quiet (P := P) draws.now bucket).state locked
  subst quiet
  obtain ⟨sets,_,_⟩ := Fs.write_done leads created
  have holding : Holding (objectDir fs bucket key ++ [tempName draws.tmp_payload]) [] w₁ w₂ := ⟨sets.rows,sets.tree⟩
  obtain ⟨ended,took⟩ := pump_ok (fun body fw w => FlatWriter.Took P (sealing.map Prod.snd) _ w₁ body fw w)
    (fun _ _ _ _ _ _ took done => FlatWriter.write_done leads took done) [] (FlatWriter.took_new holding) pumped
  obtain ⟨size,content,payload,held⟩ := FlatWriter.finish_done leads took finished
  have named := accepted.named_of_not_dotted fs (publish_undotted published)
  have same := accepted.objectDir_of_named fs named
  have valid := accepted.validKey
  rw [same] at held leads
  have here : w₅.tree.node (home fs bucket key ++ [tempName draws.tmp_payload]) = some (.file (.bytes content)) := by
    rw [held.tree,if_pos rfl]
  obtain ⟨shown,moved⟩ := publish_done accepted (accepted.object_leads named) leads objectName_ne_metaName
    (fun uuid _ => objectName_ne_tempName valid named) (by simp [here]) published
  have file := moved []
  simp only [List.append_nil] at file
  refine ⟨ended,⟨shown,?_,.flat content named (file.trans here) payload⟩,?_,?_,?_⟩
  · cases sealing with
    | none =>
      rw [unsealed rfl]
      refine described_plain ?_ ?_
      · cases lock <;> exact size
      · cases lock <;> rfl
    | some pair =>
      have sealed := keyed pair.1 pair.2 rfl
      cases lock with
      | none => exact described_sealed sound size rfl sealed
      | some l => exact described_sealed sound size rfl sealed
  · rw [with_sidecar_mac_version_id,apply_object_lock_version_id]
    rfl
  · unfold with_sidecar_mac
    split <;> cases lock <;> rfl
  · unfold with_sidecar_mac
    split <;> cases lock <;> rfl

/-- The temporary directory of a chunked payload, once it has been made. -/
theorem in_temp_ec_dir_done {α : Type} (accepted : Accepted bucket key) {write : OsPath → Action α} {a : α}
    (done : fs.in_temp_ec_dir draws bucket key write w = (.ok a,w')) :
    ∃ w₁, write (temp_sibling_path (ec_dir fs.buckets_dir bucket key) draws.tmp_payload) w₁ = (.ok a,w') ∧
      Frame (Touched fs bucket key [] (tempNames draws) []) (Opened fs bucket key) w w₁ := by
  have leads := accepted.temp_ec_leads fs draws.tmp_payload_slash
  simp only [FilesystemStorage.in_temp_ec_dir,Common.with_guard,Prog.bind_ok_iff,Prog.guarded_ok_iff,io_ok_iff,
    accepted.ec_leads.parent] at done
  obtain ⟨_,w₁,made,_,w₂,made',done⟩ := done
  refine ⟨w₂,done,?_⟩
  have frames : Frames (Touched fs bucket key [] (tempNames draws) []) (Opened fs bucket key)
      (do Fs.create_dir_all (home fs bucket key)
          Fs.create_dir_all (temp_sibling_path (ec_dir fs.buckets_dir bucket key) draws.tmp_payload) : Io Unit) := by
    refine Frames.bind (Fs.frames_create_dir_all (accepted.home_forward fs) (opened_home accepted)) fun _ => ?_
    refine Fs.frames_create_dir_all leads.entry.forward fun q above => ?_
    rw [leads.names,List.prefix_concat_iff] at above
    rcases above with same | above
    · exact .inl (.inl ⟨tempName draws.tmp_payload,by simp [tempNames],by rw [same]⟩)
    · exact .inr (.inl above)
  have ran := frames w
  rw [Prog.bind_of_ok made,made'] at ran
  exact ran

/-- Publishing a finished directory of chunks. -/
theorem publish_chunks_done (accepted : Accepted bucket key) {data : Bytes} {manifest : ChunkManifest}
    {record : ObjectMeta}
    (holds : EcHolds P w.tree (home fs bucket key ++ [tempName draws.tmp_payload]) fs.chunk_size fs.parity_shards data
      manifest)
    (done : fs.publish draws bucket key (temp_sibling_path (ec_dir fs.buckets_dir bucket key) draws.tmp_payload)
      (ec_dir fs.buckets_dir bucket key) true record w = (.ok (),w')) :
    Shows fs bucket key record w' ∧ EcHolds P w'.tree (ecAt fs bucket key) fs.chunk_size fs.parity_shards data manifest := by
  have present : w.tree.node (home fs bucket key ++ [tempName draws.tmp_payload]) = some .dir :=
    w.tree.rooted _ _ (by rw [holds.file]; simp)
  obtain ⟨shown,moved⟩ := publish_done accepted accepted.ec_leads (accepted.temp_ec_leads fs draws.tmp_payload_slash)
    ecName_ne_metaName (fun _ plain => ecName_ne_tempName plain) (by simp [present]) done
  refine ⟨shown,holds.moved fun n c file => ?_⟩
  rw [ecAt,moved,file]

/-- Making the temporary directory leaves the bucket's metadata alone. -/
theorem temp_versioned (accepted : Accepted bucket key)
    (frame : Frame (Touched fs bucket key [] (tempNames draws) []) (Opened fs bucket key) w w') :
    versioned fs bucket w' = versioned fs bucket w := by
  obtain ⟨outside,rigid⟩ : ¬ Touched fs bucket key [] (tempNames draws) [] (bucketMetaAt fs bucket) ∧
      ¬ Opened fs bucket key (bucketMetaAt fs bucket) :=
    bucketMeta_untouched accepted accepted.validBucket (by simp)
  rw [versioned,versioned,bucketRecord_congr (frame.same outside rigid)]

/-- The metadata of a bucket is no entry of the temporary directory. -/
theorem temp_entry_ne_bucketMeta (n : String) :
    bucketMetaAt fs bucket ≠ home fs bucket key ++ [tempName draws.tmp_payload] ++ [n] := by
  intro same
  have below : base fs.buckets_dir bucket ++ (stem key ++ [tempName draws.tmp_payload] ++ [n]) <+:
      base fs.buckets_dir bucket ++ [".bucket.json"] := by
    rw [← List.append_assoc,← List.append_assoc]
    exact same ▸ List.prefix_refl _
  have length := (base_prefix_iff.mp below).2.length_le
  simp at length

/-- The version id a put gives, if any. -/
def versionId (fs : FilesystemStorage) (draws : Draws) (bucket : String) (w : World) : Option String :=
  if versioned fs bucket w then some draws.version_id else none

theorem store_chunked_done (accepted : Accepted bucket key) {content_type : String} {body : ByteStream}
    {algo : Option ChecksumAlgorithm} {record : ObjectMeta}
    (done : fs.store_chunked P draws bucket key content_type body algo w = (.ok record,w')) :
    body.failure = none ∧ Written P fs bucket key (versionId fs draws bucket w) none none body.body true record w' := by
  obtain ⟨w₁,done,frame⟩ := in_temp_ec_dir_done accepted done
  have leads := accepted.temp_ec_leads fs draws.tmp_payload_slash
  simp only [Prog.bind_ok_iff,pure_ok_iff] at done
  obtain ⟨acc,w₂,pumped,cw,w₃,finished,format,w₄,manifested,id,w₅,chosen,_,w₆,published,rfl,rfl⟩ := done
  obtain ⟨ended,took⟩ := pump_ok (fun body acc w => acc.1 = body.length ∧
      acc.2.Took P (home fs bucket key ++ [tempName draws.tmp_payload]) w₁ fs.chunk_size body w)
    (fun _ _ _ _ _ _ took done => write_plain_done leads fs.chunk_size_pos took done) []
    ⟨rfl,ChunkWriter.took_new ⟨rfl,fun _ _ => rfl⟩⟩ pumped
  have fin := ChunkWriter.finish_done leads fs.chunk_size_pos took.2 finished
  obtain ⟨⟨manifest,holds⟩,outside⟩ := write_manifest_done fs leads fin took.1 manifested
  have kept : versioned fs bucket w₄ = versioned fs bucket w := by
    rw [← temp_versioned accepted frame,versioned,versioned,
      bucketRecord_congr (outside.tree _ temp_entry_ne_bucketMeta)]
  rw [next_version_id_eq accepted.bucket,kept,Prod.mk.injEq,Except.ok.injEq] at chosen
  obtain ⟨rfl,rfl⟩ := chosen
  obtain ⟨shown,stored⟩ := publish_chunks_done accepted holds published
  exact ⟨ended,⟨shown,described_plain took.1 rfl,.chunked body.body manifest stored rfl⟩,rfl,rfl,rfl⟩

theorem store_chunked_encrypted_done (sound : P.Sound) (accepted : Accepted bucket key) {content_type : String}
    {body : ByteStream} {checksum : ChecksumRequest} {encryption : EncryptionRequest} {record : ObjectMeta}
    (done : fs.store_chunked_encrypted P draws bucket key content_type body checksum encryption w = (.ok record,w')) :
    body.failure = none ∧ ∃ cipher, Written P fs bucket key (versionId fs draws bucket w) (some cipher)
      encryption.customer_key body.body true record w' := by
  obtain ⟨w₁,done,frame⟩ := in_temp_ec_dir_done accepted done
  have leads := accepted.temp_ec_leads fs draws.tmp_payload_slash
  simp only [Prog.bind_ok_iff,pure_ok_iff,lift_ok_iff] at done
  obtain ⟨id,w₂,chosen,⟨enc,cipher⟩,w₃,started,sw,w₄,pumped,sw',w₅,finished,format,w₆,manifested,_,_,⟨checked,rfl⟩,_,w₇,
    published,rfl,rfl⟩ := done
  rw [next_version_id_eq accepted.bucket,temp_versioned accepted frame,Prod.mk.injEq,Except.ok.injEq] at chosen
  obtain ⟨rfl,rfl⟩ := chosen
  obtain ⟨keyed,_⟩ := start_encryption_done sound started
  obtain ⟨ended,took⟩ := pump_ok (fun body sw w =>
      SealedWriter.Took P cipher (home fs bucket key ++ [tempName draws.tmp_payload]) w₃ fs.chunk_size body sw w)
    (fun _ _ _ _ _ _ took done => SealedWriter.write_done leads fs.chunk_size_pos took done) []
    (SealedWriter.took_new ⟨rfl,fun _ _ => rfl⟩) pumped
  obtain ⟨size,frames,sealed,fin⟩ := SealedWriter.finish_done leads fs.chunk_size_pos took finished
  obtain ⟨⟨manifest,holds⟩,_⟩ := write_manifest_done fs leads fin fin.written manifested
  obtain ⟨shown,stored⟩ := publish_chunks_done accepted holds published
  refine ⟨ended,cipher,⟨shown,described_sealed sound size rfl keyed,.chunked _ manifest stored ⟨frames,sealed,rfl⟩⟩,?_,
    ?_,?_⟩
  · rw [with_sidecar_mac_version_id]
    rfl
  · unfold with_sidecar_mac
    split <;> rfl
  · unfold with_sidecar_mac
    split <;> rfl

/-! ### After publication -/

theorem mem_of_concat_within {α : Type} {p s r : List α} {x : α} (below : p ++ [x] <+: s ++ r)
    (short : p.length < s.length) : x ∈ s := by
  have within : p ++ [x] <+: s :=
    List.prefix_of_prefix_length_le below (List.prefix_append s r) (by simp; omega)
  exact within.subset (by simp)

theorem length_objectRel (key : String) (nonempty : key ≠ "") : (objectRel key).length ≤ (stem key).length := by
  unfold objectRel
  split
  next folder => rw [stem_eq_names ((ends_with_slash nonempty).mp folder)]
  next =>
    rw [names_eq,List.length_dropLast,List.length_append]
    have one : (canon [leaf key]).length ≤ 1 := List.length_filter_le _ _
    omega

/-- No place of a key goes through a versions directory. -/
theorem versions_not_above {key n : String} (valid : ValidKey key) (plain : n ≠ ".versions") (tail rest : OsPath) :
    ¬ versionsRel key ++ tail <+: stem key ++ [n] ++ rest := by
  intro below
  have start : (names key).dropLast ++ [".versions"] <+: versionsRel key ++ tail := by
    rw [versionsRel,List.append_assoc]
    exact List.prefix_append_right_inj _ |>.mpr (by simp)
  have short : (names key).dropLast.length < (stem key ++ [n]).length := by
    rw [names_eq,List.length_dropLast,List.length_append,List.length_append,List.length_singleton]
    have one : (canon [leaf key]).length ≤ 1 := List.length_filter_le _ _
    omega
  rcases List.mem_append.mp (mem_of_concat_within (start.trans below) short) with inside | last
  · exact names_ne_top valid _ (stem_subset _ inside) (by decide)
  · exact plain (List.mem_singleton.mp last).symm

/-- Temporary siblings and stored versions are none of the key's own places. -/
theorem own_untouched (accepted : Accepted bucket key) {own stored : List String} {n : String} (member : n ∈ ownNames key)
    (apart : n ∉ own) (fresh : n ∉ tempNames draws) {q : OsPath} (below : home fs bucket key ++ [n] <+: q) :
    ¬ Touched fs bucket key own (tempNames draws) stored q := by
  obtain ⟨rest,rfl⟩ := below
  have spelled : home fs bucket key ++ [n] ++ rest = base fs.buckets_dir bucket ++ (stem key ++ [n] ++ rest) := by
    simp [home]
  intro touched
  rw [spelled] at touched
  obtain ⟨_,cases'⟩ := touched_cases accepted accepted.validBucket touched
  rcases cases' with ⟨t,inside,under⟩ | ⟨t,inside,under⟩ | ⟨t,inside,under⟩
  · rw [List.append_assoc,List.prefix_append_right_inj,List.singleton_append,List.cons_prefix_cons] at under
    rcases List.mem_append.mp inside with mine | temp
    · exact apart (under.1 ▸ mine)
    · exact fresh (under.1 ▸ temp)
  · have short : (objectRel key).length < (stem key ++ [n]).length := by
      have := length_objectRel key accepted.validKey.nonempty
      rw [List.length_append,List.length_singleton]
      omega
    rcases List.mem_append.mp (mem_of_concat_within under short) with early | last
    · obtain ⟨segment,kept⟩ := List.mem_filter.mp (stem_subset _ early)
      have free := accepted.validKey.unreserved t segment (by simpa using kept)
      obtain ⟨uuid,_,rfl⟩ := mem_tempNames inside
      simp [is_reserved_segment,tempName_starts] at free
    · exact fresh (List.mem_singleton.mp last ▸ inside)
  · refine versions_not_above accepted.validKey (fun same => ?_) [t] rest under
    exact ownNames_ne_top accepted.validKey n member (by rw [same]; decide)

theorem metaName_fresh : metaName key ∉ tempNames draws := by
  intro member
  obtain ⟨uuid,inside,same⟩ := mem_tempNames member
  exact metaName_ne_tempName (draws.spelled_dot inside) same

theorem ecName_fresh : ecName key ∉ tempNames draws := by
  intro member
  obtain ⟨uuid,inside,same⟩ := mem_tempNames member
  exact ecName_ne_tempName (draws.spelled_dot inside) same

theorem objectName_fresh (valid : ValidKey key) (named : ends_with key "/" = true ∨ skipped (leaf key) = false) :
    objectName key ∉ tempNames draws := by
  intro member
  obtain ⟨uuid,_,same⟩ := mem_tempNames member
  exact objectName_ne_tempName valid named same

/-- An object stays as long as its files are left alone. -/
theorem Written.frame (accepted : Accepted bucket key) {S G : OsPath → Prop} {version_id : Option String}
    {cipher : Option FrameCipher} {ck : Option Bytes} {body : Bytes} {coded : Bool} {record : ObjectMeta}
    (written : Written P fs bucket key version_id cipher ck body coded record w) (frame : Frame S G w w')
    (outside : ∀ n ∈ ownNames key, n ∉ tempNames draws → ∀ q, home fs bucket key ++ [n] <+: q → ¬ S q) :
    Written P fs bucket key version_id cipher ck body coded record w' := by
  obtain ⟨⟨shown,described,lies⟩,version,live,named⟩ := written
  refine ⟨⟨?_,described,?_⟩,version,live,named⟩
  · exact frame.file (outside _ (by simp [ownNames]) metaName_fresh _ (List.prefix_refl _)) shown
  · cases lies with
    | flat content spelled file payload =>
      refine .flat content spelled ?_ payload
      exact frame.file (outside _ (by simp [ownNames]) (objectName_fresh accepted.validKey spelled) _
        (List.prefix_refl _)) file
    | chunked data manifest holds payload =>
      refine .chunked data manifest (holds.moved fun n c file => ?_) payload
      exact frame.file (outside _ (by simp [ownNames]) ecName_fresh _ (List.prefix_append _ _)) file

/-- The tail of a put: the current object stays, and the result repeats its metadata. -/
theorem finish_put_done (accepted : Accepted bucket key) {version_id : Option String} {cipher : Option FrameCipher}
    {ck : Option Bytes} {body : Bytes} {coded : Bool} {record : ObjectMeta} {write : Action Unit} {result : PutResult}
    (written : Written P fs bucket key version_id cipher ck body coded record w)
    (frames : Frames (Touched fs bucket key [] (tempNames draws) (versionNames draws.version_id)) (Opened fs bucket key)
      write)
    (done : fs.finish_put bucket record write w = (.ok result,w')) :
    Written P fs bucket key version_id cipher ck body coded record w' ∧ result = FilesystemStorage.put_result record := by
  have frame : Frame _ _ w (fs.finish_put bucket record write w).2 := finish_put_frames frames w
  rw [done] at frame
  refine ⟨written.frame accepted frame fun n member fresh q below => own_untouched accepted member (by simp) fresh below,?_⟩
  simp only [FilesystemStorage.finish_put,Prog.bind_ok_iff,pure_ok_iff] at done
  obtain ⟨_,_,_,_,_,_,same,_⟩ := done
  exact same

theorem Written.dated {cipher : Option FrameCipher} {ck : Option Bytes} {body : Bytes} {coded : Bool}
    {record : ObjectMeta} {w₀ : World} (written : Written P fs bucket key (versionId fs draws bucket w₀) cipher ck body coded record w) :
    Dated draws record := by
  unfold Dated
  rw [written.version,versionId]
  split
  · exact .inr rfl
  · exact .inl rfl

end Store

/-- How a bucket stores new objects. -/
def coded (fs : FilesystemStorage) (bucket : String) (w : World) : Bool :=
  fs.erasure_coding && (bucketRecord fs bucket w).elim false fun record => record.erasure_coding.getD true

section Put
variable {P : Primitives} {fs : FilesystemStorage} {bucket key : String} {draws : Draws} {w w' : World}

theorem effective_erasure_coding_done (valid : validate_bucket_name bucket = .ok ()) {answer : Bool}
    (done : fs.effective_erasure_coding bucket w = (.ok answer,w')) : answer = coded fs bucket w ∧ w' = w := by
  refine ⟨?_,(FilesystemStorage.effective_erasure_coding_quiet bucket).state done⟩
  unfold FilesystemStorage.effective_erasure_coding at done
  unfold coded
  cases enabled : fs.erasure_coding with
  | false =>
    rw [enabled,if_neg (by simp),pure_ok_iff] at done
    exact done.1
  | true =>
    rw [enabled,if_pos rfl,Prog.bind_ok_iff] at done
    obtain ⟨record,_,read,done⟩ := done
    rw [pure_ok_iff] at done
    rw [((read_bucket_meta_ok_iff valid).mp read).1,done.1]
    rfl

theorem start_sealing_done (sound : P.Sound) {encryption : Option EncryptionRequest} {aad : Nat → Bytes}
    {sealing : Option (EncryptionMeta × FrameCipher)}
    (done : fs.start_sealing P draws encryption aad w = (.ok sealing,w')) :
    SameDisk w w' ∧ sealing.isSome = encryption.isSome ∧
      (sealing = none → encryption.bind EncryptionRequest.customer_key = none) ∧
      ∀ enc c, sealing = some (enc,c) →
        Keyed P fs (encryption.bind EncryptionRequest.customer_key) aad enc c := by
  cases encryption with
  | none =>
    obtain ⟨rfl,rfl⟩ := pure_ok_iff.mp done
    exact ⟨⟨rfl,rfl⟩,rfl,fun _ => rfl,fun _ _ none => by cases none⟩
  | some req =>
    simp only [FilesystemStorage.start_sealing,Prog.bind_ok_iff,pure_ok_iff] at done
    obtain ⟨⟨enc,c⟩,_,started,rfl,rfl⟩ := done
    obtain ⟨keyed,same⟩ := start_encryption_done sound started
    refine ⟨same,rfl,fun none => (by cases none),fun enc' c' given => ?_⟩
    cases given
    exact keyed

/-- A put that succeeds has stored the whole body for its key, in the layout of the bucket. -/
theorem put_object_done (sound : P.Sound) {content_type : String} {body : ByteStream} {checksum : ChecksumRequest}
    {encryption : Option EncryptionRequest} {declared_size : Option Nat} {result : PutResult}
    (file : ends_with key "/" = false)
    (done : fs.put_object P draws bucket key content_type body checksum encryption declared_size w = (.ok result,w')) :
    Accepted bucket key ∧ body.failure = none ∧ ∃ record cipher, cipher.isSome = encryption.isSome ∧
      Written P fs bucket key (versionId fs draws bucket w) cipher (encryption.bind EncryptionRequest.customer_key)
        body.body (coded fs bucket w) record w' ∧ result = FilesystemStorage.put_result record := by
  simp only [FilesystemStorage.put_object,Prog.bind_ok_iff,lift_ok_iff] at done
  obtain ⟨_,_,⟨valid,rfl⟩,_,_,⟨valid',rfl⟩,_,_,unlocked,_,_,⟨_,rfl⟩,done⟩ := done
  have accepted : Accepted bucket key := ⟨valid,valid'⟩
  have quiet := (FilesystemStorage.ensure_can_overwrite_quiet _ bucket key).state unlocked
  subst quiet
  rw [if_neg (by simp [file]),Prog.bind_ok_iff] at done
  obtain ⟨answer,_,asked,done⟩ := done
  obtain ⟨rfl,rfl⟩ := effective_erasure_coding_done valid asked
  have whole : (fs.wrap_upload_reader draws body).failure = none →
      (fs.wrap_upload_reader draws body).body = body.body ∧ body.failure = none := wrap_upload_reader_whole
  refine ⟨accepted,?_⟩
  split at done
  next on =>
    rw [on]
    cases encryption with
    | some req =>
      simp only [FilesystemStorage.put_object_chunked_encrypted,Prog.bind_ok_iff,lift_ok_iff] at done
      obtain ⟨_,_,⟨_,rfl⟩,record,_,stored,finished⟩ := done
      obtain ⟨ended,cipher,written⟩ := store_chunked_encrypted_done sound accepted stored
      obtain ⟨kept,same⟩ := finish_put_done accepted written
        (write_version_chunked_frames accepted written.dated fun _ => id) finished
      rw [(whole ended).1] at kept
      exact ⟨(whole ended).2,record,some cipher,rfl,kept,same⟩
    | none =>
      simp only [FilesystemStorage.put_object_chunked,Prog.bind_ok_iff,lift_ok_iff] at done
      obtain ⟨_,_,⟨_,rfl⟩,record,_,stored,finished⟩ := done
      obtain ⟨ended,written⟩ := store_chunked_done accepted stored
      obtain ⟨kept,same⟩ := finish_put_done accepted written
        (write_version_chunked_frames accepted written.dated fun _ => id) finished
      rw [(whole ended).1] at kept
      exact ⟨(whole ended).2,record,none,rfl,kept,same⟩
  next off =>
    rw [Bool.not_eq_true] at off
    rw [off]
    simp only [FilesystemStorage.put_object_flat,Prog.bind_ok_iff,next_version_id_eq valid,Prod.mk.injEq,
      Except.ok.injEq] at done
    obtain ⟨_,_,⟨rfl,rfl⟩,sealing,w₁,started,record,_,stored,finished⟩ := done
    obtain ⟨sameDisk,some',unsealed,keyed⟩ := start_sealing_done sound started
    obtain ⟨ended,written⟩ := store_flat_done sound accepted unsealed keyed stored
    obtain ⟨kept,same⟩ := finish_put_done accepted written
      (write_version_frames accepted written.dated fun _ => id) finished
    rw [(whole ended).1] at kept
    exact ⟨(whole ended).2,record,sealing.map Prod.snd,by simpa using some',kept,same⟩

end Put

end Maxio
