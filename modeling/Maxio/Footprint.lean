import Maxio.ObjectSpec
import Maxio.StorageSpec
import Maxio.Versions

/-!
Which places of the tree an operation can touch, whatever its outcome: the places of its key, temporary siblings,
and entries of the key's versions directory.
-/

set_option linter.unusedSimpArgs false

namespace Maxio
open FileTree (Node Tree)

/-- Below one of the named entries of a directory. -/
def Under (dir : OsPath) (entries : List String) (q : OsPath) : Prop := ∃ n ∈ entries, dir ++ [n] <+: q

theorem Under.intro {dir : OsPath} {entries : List String} {n : String} (member : n ∈ entries) {q : OsPath}
    (below : dir ++ [n] <+: q) : Under dir entries q := ⟨n,member,below⟩

theorem Under.mono {dir : OsPath} {small large : List String} (subset : ∀ n ∈ small, n ∈ large) {q : OsPath}
    (under : Under dir small q) : Under dir large q := by
  obtain ⟨n,member,below⟩ := under
  exact ⟨n,subset n member,below⟩

/-! ### Places of a key -/

section Places
variable (fs : FilesystemStorage) (bucket key : String)

/-- The directory next to the payload file, where its temporary file is made. -/
def objectDir : OsPath := parent_dir (object_path fs.buckets_dir bucket key)

/-- The directory of the key's stored versions. -/
def versionsAt : OsPath := versionsHome fs.buckets_dir bucket key

end Places

/-- Temporary siblings one call makes up. -/
def tempNames (draws : Draws) : List String :=
  [tempName draws.tmp_payload,tempName draws.tmp_meta,tempName draws.backup_payload,tempName draws.backup_meta]

theorem mem_tempNames {draws : Draws} {n : String} (member : n ∈ tempNames draws) :
    ∃ uuid ∈ [draws.tmp_payload,draws.tmp_meta,draws.backup_payload,draws.backup_meta], n = tempName uuid := by
  obtain ⟨uuid,inside,same⟩ := List.mem_map.mp
    (show n ∈ [draws.tmp_payload,draws.tmp_meta,draws.backup_payload,draws.backup_meta].map tempName from member)
  exact ⟨uuid,inside,same.symm⟩

/-- The entries of one version. -/
def versionNames (version_id : String) : List String :=
  [version_id ++ ".data",version_id ++ ".meta.json",version_id ++ ".ec"]

/-- What an operation on a key can change: the entries `own` of its directory, temporary siblings, and the entries
    `stored` of its versions directory. -/
def Touched (fs : FilesystemStorage) (bucket key : String) (own temps stored : List String) (q : OsPath) : Prop :=
  Under (home fs bucket key) (own ++ temps) q ∨ Under (objectDir fs bucket key) temps q ∨
    Under (versionsAt fs bucket key) stored q

/-- Directories it can make or remove. -/
def Opened (fs : FilesystemStorage) (bucket key : String) (q : OsPath) : Prop :=
  q <+: home fs bucket key ∨ q <+: versionsAt fs bucket key

namespace Draws
variable (draws : Draws)

private theorem spelled_slash {name : String}
    (member : name ∈ [draws.tmp_payload,draws.tmp_meta,draws.backup_payload,draws.backup_meta,draws.upload_id]) :
    '/' ∉ name.toList := by
  intro slash
  rcases (draws.spelled name member).2 _ slash with alnum | dash
  · exact absurd alnum (by decide)
  · exact absurd dash (by decide)

theorem tmp_payload_slash : '/' ∉ draws.tmp_payload.toList := draws.spelled_slash (by simp)
theorem tmp_meta_slash : '/' ∉ draws.tmp_meta.toList := draws.spelled_slash (by simp)
theorem backup_payload_slash : '/' ∉ draws.backup_payload.toList := draws.spelled_slash (by simp)
theorem backup_meta_slash : '/' ∉ draws.backup_meta.toList := draws.spelled_slash (by simp)
theorem upload_id_slash : '/' ∉ draws.upload_id.toList := draws.spelled_slash (by simp)

theorem version_id_slash : '/' ∉ draws.version_id.toList :=
  fun slash => (generate_version_id_chars draws.micros draws.rand_suffix _ slash).1 rfl

end Draws

namespace Accepted
variable (fs : FilesystemStorage) {bucket key : String} (accepted : Accepted bucket key)
include accepted

theorem named_of_not_dotted (undotted : dotted (object_path fs.buckets_dir bucket key) = false) :
    ends_with key "/" = true ∨ skipped (leaf key) = false := by
  by_contra none
  rw [not_or] at none
  have dot : dotted (object_path fs.buckets_dir bucket key) = true :=
    object_path_dotted accepted.validBucket accepted.validKey (by simpa using none.1) (by simpa using none.2)
  rw [undotted] at dot
  cases dot

theorem object_forward : Forward (object_path fs.buckets_dir bucket key) := by
  by_cases named : ends_with key "/" = true ∨ skipped (leaf key) = false
  · exact (accepted.object_leads named).entry.forward
  · rw [not_or] at named
    rw [object_path,if_neg named.1,bucket_dir_eq accepted.validBucket,join_relative accepted.validKey.relative]
    exact (forward_base fs.plain accepted.validBucket).append accepted.validKey.ahead

theorem objectDir_of_named (named : ends_with key "/" = true ∨ skipped (leaf key) = false) :
    objectDir fs bucket key = home fs bucket key := (accepted.object_leads named).parent

/-- A key whose last segment is a dot spells the directory. -/
theorem object_spelled (unnamed : ¬ (ends_with key "/" = true ∨ skipped (leaf key) = false)) :
    canon (object_path fs.buckets_dir bucket key) = home fs bucket key := by
  rw [not_or] at unnamed
  have dot : skipped (leaf key) = true := by simpa using unnamed.2
  have same : canon (split key '/') = stem key := by
    rw [show canon (split key '/') = names key from rfl,names_eq]
    simp [canon,dot]
  rw [object_path,if_neg unnamed.1,bucket_dir_eq accepted.validBucket,join_relative accepted.validKey.relative,
    canon_append,canon_base fs.plain accepted.validBucket,home,same]

theorem objectDir_above : objectDir fs bucket key <+: home fs bucket key := by
  by_cases named : ends_with key "/" = true ∨ skipped (leaf key) = false
  · rw [accepted.objectDir_of_named fs named]
  · have up : objectDir fs bucket key = (canon (object_path fs.buckets_dir bucket key)).dropLast := rfl
    rw [up,accepted.object_spelled fs named]
    exact List.dropLast_prefix _

theorem objectDir_plain : PlainDir (objectDir fs bucket key) :=
  fun s member => accepted.plain_home s ((accepted.objectDir_above fs).subset member)

theorem temp_object_leads {uuid : String} (spelled : '/' ∉ uuid.toList) :
    Leads (temp_sibling_path (object_path fs.buckets_dir bucket key) uuid) (objectDir fs bucket key) (tempName uuid) := by
  change Leads (join (objectDir fs bucket key) (tempName uuid)) _ _
  rw [join_name (tempName_slash spelled)]
  exact leads_plain (accepted.objectDir_plain fs) (tempName_kept uuid).1 (tempName_kept uuid).2

theorem temp_meta_leads {uuid : String} (spelled : '/' ∉ uuid.toList) :
    Leads (temp_sibling_path (meta_path fs.buckets_dir bucket key) uuid) (home fs bucket key) (tempName uuid) :=
  temp_sibling_leads accepted.meta_leads accepted.plain_home spelled

theorem temp_ec_leads {uuid : String} (spelled : '/' ∉ uuid.toList) :
    Leads (temp_sibling_path (ec_dir fs.buckets_dir bucket key) uuid) (home fs bucket key) (tempName uuid) :=
  temp_sibling_leads accepted.ec_leads accepted.plain_home spelled

theorem versions_forward : Forward (versions_dir fs.buckets_dir bucket key) :=
  (versions_dir_leads fs.plain accepted.validBucket accepted.validKey).1

theorem versions_canon : canon (versions_dir fs.buckets_dir bucket key) = versionsAt fs bucket key :=
  (versions_dir_leads fs.plain accepted.validBucket accepted.validKey).2

/-- An entry of the versions directory. -/
theorem version_leads {name : String} (absent : '/' ∉ name.toList) (kept : skipped name = false) (ahead : name ≠ "..") :
    Leads (join (versions_dir fs.buckets_dir bucket key) name) (versionsAt fs bucket key) name := by
  rw [join_name absent,← accepted.versions_canon fs]
  exact leads_concat (accepted.versions_forward fs) kept ahead

theorem version_entry_leads {version_id tail : String} (absent : '/' ∉ version_id.toList) (plain : '/' ∉ tail.toList)
    (long : 3 ≤ tail.length) :
    Leads (join (versions_dir fs.buckets_dir bucket key) (version_id ++ tail)) (versionsAt fs bucket key)
      (version_id ++ tail) := by
  refine accepted.version_leads fs ?_ (skipped_append (by omega)) (append_ne_dots long)
  rw [String.toList_append,List.mem_append,not_or]
  exact ⟨absent,plain⟩

theorem home_plain_canon : canon (home fs bucket key) = home fs bucket key :=
  canon_of_plain fun s member => (accepted.plain_home s member).1

theorem home_forward : Forward (home fs bucket key) := fun s member => (accepted.plain_home s member).2

theorem objectDir_canon : canon (objectDir fs bucket key) = objectDir fs bucket key :=
  canon_of_plain fun s member => (accepted.objectDir_plain fs s member).1

theorem objectDir_forward : Forward (objectDir fs bucket key) := fun s member => (accepted.objectDir_plain fs s member).2

end Accepted

/-! ### Places below the buckets directory -/

/-- The directory next to the payload file, below the bucket. -/
def objectRel (key : String) : OsPath := if ends_with key "/" then names key else (names key).dropLast

/-- The versions directory, below the bucket. -/
def versionsRel (key : String) : OsPath := (names key).dropLast ++ ".versions" :: (names key).getLast?.toList

theorem versionsAt_eq (fs : FilesystemStorage) (bucket key : String) :
    versionsAt fs bucket key = base fs.buckets_dir bucket ++ versionsRel key := by
  rw [versionsAt,versionsHome,versionsRel,List.append_assoc]

theorem objectDir_eq (fs : FilesystemStorage) {bucket key : String} (accepted : Accepted bucket key) :
    objectDir fs bucket key = base fs.buckets_dir bucket ++ objectRel key ∨ objectDir fs bucket key = fs.buckets_dir := by
  by_cases folder : ends_with key "/" = true
  · left
    rw [accepted.objectDir_of_named fs (.inl folder),objectRel,if_pos folder,home,
      stem_eq_names ((ends_with_slash accepted.validKey.nonempty).mp folder)]
  · have spelled : canon (object_path fs.buckets_dir bucket key) = base fs.buckets_dir bucket ++ names key := by
      rw [object_path,if_neg folder,bucket_dir_eq accepted.validBucket,join_relative accepted.validKey.relative,
        canon_append,canon_base fs.plain accepted.validBucket]
      rfl
    have up : objectDir fs bucket key = (canon (object_path fs.buckets_dir bucket key)).dropLast := rfl
    rw [up,spelled,objectRel,if_neg folder]
    rcases List.eq_nil_or_concat (names key) with none | ⟨front,last,ends⟩
    · right
      rw [none,List.append_nil,base,List.dropLast_concat]
    · left
      rw [ends,List.concat_eq_append,← List.append_assoc,List.dropLast_concat,List.dropLast_concat]

/-- Two places below the buckets directory: the second lies below the first only within one bucket. -/
theorem base_prefix_iff {dir : OsPath} {a b : String} {p q : OsPath} :
    base dir a ++ p <+: base dir b ++ q ↔ a = b ∧ p <+: q := by
  rw [base,base,List.append_assoc,List.append_assoc,List.prefix_append_right_inj,List.singleton_append,
    List.singleton_append,List.cons_prefix_cons]

/-- What can be touched in a bucket, in terms of names alone. -/
theorem touched_cases {fs : FilesystemStorage} {bucket key : String} (accepted : Accepted bucket key) {draws : Draws}
    {own stored : List String} {other : String} (valid : ValidBucket other) {rest : OsPath}
    (touched : Touched fs bucket key own (tempNames draws) stored (base fs.buckets_dir other ++ rest)) :
    bucket = other ∧ (Under (stem key) (own ++ tempNames draws) rest ∨ Under (objectRel key) (tempNames draws) rest ∨
      Under (versionsRel key) stored rest) := by
  rcases touched with ⟨n,member,below⟩ | ⟨n,member,below⟩ | ⟨n,member,below⟩
  · rw [home,List.append_assoc,base_prefix_iff] at below
    exact ⟨below.1,.inl ⟨n,member,below.2⟩⟩
  · rcases objectDir_eq fs accepted with dir | dir
    · rw [dir,List.append_assoc,base_prefix_iff] at below
      exact ⟨below.1,.inr (.inl ⟨n,member,below.2⟩)⟩
    · -- next to the buckets themselves only temporary names are made
      rw [dir,base,List.append_assoc,List.prefix_append_right_inj,List.singleton_append,List.cons_prefix_cons] at below
      have dot : ∀ uuid, (tempName uuid).toList.head? = some '.' := by
        intro uuid
        rw [tempName,String.toList_append]
        rfl
      obtain ⟨uuid,_,rfl⟩ := mem_tempNames member
      exact absurd (below.1 ▸ dot uuid) valid.start
  · rw [versionsAt_eq,List.append_assoc,base_prefix_iff] at below
    exact ⟨below.1,.inr (.inr ⟨n,member,below.2⟩)⟩

theorem opened_cases {fs : FilesystemStorage} {bucket key other : String} {rest : OsPath}
    (opened : Opened fs bucket key (base fs.buckets_dir other ++ rest)) :
    other = bucket ∧ (rest <+: stem key ∨ rest <+: versionsRel key) := by
  rcases opened with above | above
  · rw [home,base_prefix_iff] at above
    exact ⟨above.1,.inl above.2⟩
  · rw [versionsAt_eq,base_prefix_iff] at above
    exact ⟨above.1,.inr above.2⟩

/-! ### Writers -/

section Writers
variable {P : Primitives} {S G : OsPath → Prop}

theorem Frames.with_guard {α : Type} {p : OsPath} {is_dir : Bool} {m : Action α} (inner : Frames S G m)
    (entry : Entry p) (inside : ∀ q, canon p <+: q → S q) : Frames S G (Common.with_guard p is_dir m) :=
  Prog.Keeps.guarded Frame.trans inner (Common.frames_remove_path_if_exists is_dir entry.forward
    (fun _ => Fs.last_of_named entry.named) fun _ => inside)

theorem aes_encrypt_frames (frame : Bool) (failed : StorageError) (key nonce aad message : Bytes) :
    Frames S G (aes_encrypt P frame failed key nonce aad message) := by
  unfold aes_encrypt
  split
  · exact Frames.bind (Frames.tell fun _ => rfl) fun _ => Frames.pure _
  · exact Frames.fail _

theorem encrypt_frame_to_vec_frames (key nonce_prefix : Bytes) (i : Nat) (plaintext aad : Bytes) :
    Frames S G (encrypt_frame_to_vec P key nonce_prefix i plaintext aad) :=
  Frames.bind (Frames.lift _) fun _ => Frames.bind (aes_encrypt_frames _ _ _ _ _ _) fun _ => Frames.pure _

theorem pump_frames {α : Type} {write : α → Bytes → Action α} {failed : IoError → StorageError} (reads : List Bytes)
    (failure : Option IoError) (start : α) (step : ∀ a piece, Frames S G (write a piece)) :
    Frames S G (pump write failed reads failure start) := by
  refine Frames.bind (Frames.fold reads (fun a piece _ => step a piece) start) fun last => ?_
  cases failure with
  | some e => exact Frames.fail _
  | none => exact Frames.pure _

section File
variable {path : OsPath} (forward : Forward path) (inside : S (canon path))
include forward inside

theorem buf_write_all_frames (pending data : Bytes) : Frames S G (buf_write_all path pending data) := by
  have append (bytes : Bytes) : Frames S G (io (Fs.append path bytes)) :=
    Frames.io (Fs.frames_append forward (fun _ => inside) bytes)
  have rest (pending : Bytes) : Frames S G (if data.length ≥ IO_BUFFER_SIZE then do
      io (Fs.append path data)
      pure pending
    else pure (pending ++ data)) :=
    Frames.ite (fun _ => Frames.bind (append _) fun _ => Frames.pure _) fun _ => Frames.pure _
  unfold buf_write_all
  dsimp only
  exact Frames.ite (fun _ => Frames.bind (append _) fun _ => Frames.bind (Frames.pure _) rest)
    fun _ => Frames.bind (Frames.pure _) rest

theorem write_encrypted_frame_frames (cipher : FrameCipher) (fw : FlatWriter) (plaintext : Bytes) :
    Frames S G (fw.write_encrypted_frame P path cipher plaintext) :=
  Frames.bind (encrypt_frame_to_vec_frames _ _ _ _ _) fun _ =>
    Frames.bind (buf_write_all_frames forward inside _ _) fun _ =>
      Frames.bind (buf_write_all_frames forward inside _ _) fun _ => Frames.pure _

theorem flat_write_frames (cipher : Option FrameCipher) (fw : FlatWriter) (piece : Bytes) :
    Frames S G (fw.write P path cipher piece) := by
  unfold FlatWriter.write
  cases cipher with
  | none => exact Frames.bind (buf_write_all_frames forward inside _ _) fun _ => Frames.pure _
  | some c => exact Frames.fold _ (fun fw piece _ => write_encrypted_frame_frames forward inside c fw piece) _

theorem flat_finish_frames (cipher : Option FrameCipher) (fw : FlatWriter) :
    Frames S G (fw.finish P path cipher) := by
  have rest (fw : FlatWriter) : Frames S G (do
      io (Fs.append path fw.pending)
      pure { fw with pending := [] }) :=
    Frames.bind (Frames.io (Fs.frames_append forward (fun _ => inside) _)) fun _ => Frames.pure _
  unfold FlatWriter.finish
  cases cipher with
  | none => exact Frames.bind (Frames.pure _) rest
  | some c =>
    exact Frames.ite (fun _ => Frames.bind (Frames.pure _) rest)
      fun _ => Frames.bind (write_encrypted_frame_frames forward inside c fw _) rest

end File

section Directory
variable {dir home : OsPath} {name : String} (leads : Leads dir home name)
  (inside : ∀ q, home ++ [name] <+: q → S q)
include leads inside

theorem write_chunk_file_frames (i index : Nat) (data : Bytes) :
    Frames S G (write_chunk_file P (join dir (chunk_name i)) index data) := by
  refine Frames.bind (Frames.io (Fs.frames_write (leads.chunk i).entry.forward (fun _ => ?_) _)) fun _ => Frames.pure _
  rw [(leads.chunk i).names]
  exact inside _ (List.prefix_append _ _)

theorem write_chunk_frames (cw : ChunkWriter) (data : Bytes) : Frames S G (cw.write_chunk P dir data) :=
  Frames.bind (write_chunk_file_frames leads inside _ _ _) fun _ => Frames.pure _

theorem feed_frames (size : Nat) (cw : ChunkWriter) (data : Bytes) : Frames S G (cw.feed P dir size data) :=
  Frames.fold _ (fun cw piece _ => write_chunk_frames leads inside cw piece) _

theorem chunk_finish_frames (cw : ChunkWriter) : Frames S G (cw.finish P dir) := by
  have rest (cw : ChunkWriter) : Frames S G (if cw.chunks = [] then do
      let ci ← write_chunk_to_dir P dir 0 []
      pure { cw with chunks := [ci] }
    else pure cw) :=
    Frames.ite (fun _ => Frames.bind (write_chunk_file_frames leads inside _ _ _) fun _ => Frames.pure _)
      fun _ => Frames.pure _
  unfold ChunkWriter.finish
  exact Frames.ite (fun _ => Frames.bind (Frames.pure _) rest)
    fun _ => Frames.bind (write_chunk_frames leads inside _ _) fun _ => Frames.bind (Frames.pure _) rest

theorem write_plain_frames (size : Nat) (acc : Nat × ChunkWriter) (piece : Bytes) :
    Frames S G (write_plain P dir size acc piece) :=
  Frames.bind (feed_frames leads inside _ _ _) fun _ => Frames.pure _

theorem sealed_write_frame_frames (size : Nat) (cipher : FrameCipher) (sw : SealedWriter) (plaintext : Bytes) :
    Frames S G (sw.write_frame P dir size cipher plaintext) :=
  Frames.bind (encrypt_frame_to_vec_frames _ _ _ _ _) fun _ =>
    Frames.bind (feed_frames leads inside _ _ _) fun _ => Frames.pure _

theorem sealed_write_frames (size : Nat) (cipher : FrameCipher) (sw : SealedWriter) (piece : Bytes) :
    Frames S G (sw.write P dir size cipher piece) :=
  Frames.fold _ (fun sw piece _ => sealed_write_frame_frames leads inside size cipher sw piece) _

theorem sealed_finish_frames (size : Nat) (cipher : FrameCipher) (sw : SealedWriter) :
    Frames S G (sw.finish P dir size cipher) := by
  have rest (sw : SealedWriter) : Frames S G (do
      let chunks ← sw.chunks.finish P dir
      pure { sw with frame_buf := [], chunks }) :=
    Frames.bind (chunk_finish_frames leads inside _) fun _ => Frames.pure _
  unfold SealedWriter.finish
  exact Frames.ite (fun _ => Frames.bind (Frames.pure _) rest)
    fun _ => Frames.bind (sealed_write_frame_frames leads inside size cipher sw _) rest

theorem write_parity_frames (index : Nat) (shards : List Bytes) : Frames S G (write_parity P dir index shards) := by
  induction shards generalizing index with
  | nil => exact Frames.pure _
  | cons shard rest ih =>
    rw [write_parity_cons]
    exact Frames.bind (write_chunk_file_frames leads inside _ _ _) fun _ =>
      Frames.bind (ih (index + 1)) fun _ => Frames.pure _

theorem write_manifest_frames (fs : FilesystemStorage) (cw : ChunkWriter) (total : Nat) (plaintext_size : Option Nat) :
    Frames S G (fs.write_manifest P dir cw total plaintext_size) := by
  have parity : Frames S G (fs.compute_and_write_parity_from P dir cw.chunks) := by
    refine Frames.ite (fun _ => Frames.fail _) fun _ => ?_
    exact Frames.bind (read_shards_back_quiet _ _).frames fun _ => Frames.bind (Frames.lift _) fun _ =>
      Frames.bind (Frames.lift _) fun _ => write_parity_frames leads inside _ _
  have written (manifest : ChunkManifest) (format : String) : Frames S G (do
      io (Fs.write (join dir "manifest.json") (.json (.manifest manifest)))
      pure format) := by
    refine Frames.bind (Frames.io (Fs.frames_write leads.manifest.entry.forward (fun _ => ?_) _)) fun _ => Frames.pure _
    rw [leads.manifest.names]
    exact inside _ (List.prefix_append _ _)
  unfold FilesystemStorage.write_manifest
  exact Frames.ite (fun _ => Frames.bind parity fun _ => written _ _)
    fun _ => Frames.bind (Frames.pure _) fun _ => written _ _

end Directory

/-! ### Publication -/

theorem prepare_encryption_frames (fs : FilesystemStorage) (draws : Draws) (req : EncryptionRequest) :
    Frames S G (fs.prepare_encryption P draws req) := by
  unfold FilesystemStorage.prepare_encryption
  cases req.mode with
  | SseS3 =>
    exact Frames.bind (Frames.bind (Frames.lift _) fun _ => aes_encrypt_frames _ _ _ _ _ _) fun _ => Frames.pure _
  | SseKms =>
    cases fs.kms with
    | none => exact Frames.fail _
    | some kms =>
      exact Frames.bind (Frames.bind (aes_encrypt_frames _ _ _ _ _ _) fun _ => Frames.pure _) fun _ => Frames.pure _
  | SseC =>
    cases req.customer_key with
    | none => exact Frames.fail _
    | some ck => exact Frames.bind (aes_encrypt_frames _ _ _ _ _ _) fun _ => Frames.pure _

theorem start_encryption_frames (fs : FilesystemStorage) (draws : Draws) (req : EncryptionRequest) (aad : Nat → Bytes) :
    Frames S G (fs.start_encryption P draws req aad) :=
  Frames.bind (Frames.mapError (prepare_encryption_frames fs draws req)) fun _ =>
    Frames.bind (Frames.lift _) fun _ => Frames.bind (Frames.lift _) fun _ => Frames.pure _

/-- As `Frames.bind`, where the second half may use what the first returns. -/
theorem Frames.bind_of {ε α β : Type} {m : Prog World ε α} {f : α → Prog World ε β} (first : Frames S G m)
    (second : ∀ a w w', m w = (.ok a,w') → Frames S G (f a)) : Frames S G (m >>= f) := by
  intro w
  have start := first w
  rw [Prog.bind_apply]
  split
  next a w' done => rw [done] at start; exact Frame.trans _ _ _ start (second a w w' done w')
  next e w' done => rw [done] at start; exact start

/-- A place with the temporary siblings a publication can make of it. -/
structure Covered (S : OsPath → Prop) (p : OsPath) (uuid : String) : Prop where
  forward : Forward p
  inside : dotted p = false → ∀ q, canon p <+: q → S q
  backup : Entry (temp_sibling_path p uuid)
  backup_inside : ∀ q, canon (temp_sibling_path p uuid) <+: q → S q

theorem backup_existing_frames {p : OsPath} {uuid : String} (covered : Covered S p uuid) :
    Frames S G (Common.backup_existing p uuid) := by
  refine Frames.bind (Frames.io (Fs.frames_try_exists p)) fun found => ?_
  refine Frames.ite (fun _ => Frames.bind (Frames.io ?_) fun _ => Frames.pure _) fun _ => Frames.pure _
  exact Fs.frames_rename covered.forward covered.backup.forward covered.inside fun _ => covered.backup_inside

/-- The outcome of a backup is no backup or the temporary sibling. -/
theorem backup_existing_name {p : OsPath} {uuid : String} {w w' : World} {backup : Option OsPath}
    (done : Common.backup_existing p uuid w = (.ok backup,w')) :
    backup = none ∨ backup = some (temp_sibling_path p uuid) := by
  simp only [Common.backup_existing,Prog.bind_ok_iff] at done
  obtain ⟨found,_,_,done⟩ := done
  split at done
  · simp only [Prog.bind_ok_iff,pure_ok_iff] at done
    obtain ⟨_,_,_,rfl,_⟩ := done
    exact .inr rfl
  · exact .inl (pure_ok_iff.mp done).1

theorem restore_backup_frames {p : OsPath} {uuid : String} {is_dir : Bool} (covered : Covered S p uuid)
    (last : is_dir = true → p.getLast? ≠ some ".") {backup : Option OsPath} (spelled : backup = none ∨ backup = some (temp_sibling_path p uuid)) :
    Frames S G (Common.restore_backup p backup is_dir) := by
  rcases spelled with rfl | rfl
  · exact Frames.pure _
  · refine Frames.bind (Common.frames_remove_path_if_exists is_dir covered.forward last covered.inside) fun _ => ?_
    exact Frames.ignore (Fs.frames_rename covered.backup.forward covered.forward (fun _ => covered.backup_inside)
      covered.inside)

theorem cleanup_backup_frames {p : OsPath} {uuid : String} {is_dir : Bool} (covered : Covered S p uuid)
    {backup : Option OsPath} (spelled : backup = none ∨ backup = some (temp_sibling_path p uuid)) :
    Frames S G (Common.cleanup_backup backup is_dir) := by
  rcases spelled with rfl | rfl
  · exact Frames.pure _
  · exact Common.frames_remove_path_if_exists is_dir covered.backup.forward
      (fun _ => Fs.last_of_named covered.backup.named) fun _ => covered.backup_inside

theorem publish_temp_frames {tmp_payload final_payload tmp_meta final_meta : OsPath} {payload_is_dir : Bool}
    {payload_uuid meta_uuid : String} (payload : Covered S final_payload payload_uuid)
    (last : payload_is_dir = true → final_payload.getLast? ≠ some ".") (side : Covered S final_meta meta_uuid) (tmp_forward : Forward tmp_payload)
    (tmp_inside : ∀ q, canon tmp_payload <+: q → S q) (side_forward : Forward tmp_meta)
    (side_inside : ∀ q, canon tmp_meta <+: q → S q)
    (above : ∀ q, q <+: canon (parent_dir final_payload) → S q ∨ G q)
    (above' : ∀ q, q <+: canon (parent_dir final_meta) → S q ∨ G q) :
    Frames S G (Common.publish_temp_payload_and_meta tmp_payload final_payload payload_is_dir tmp_meta final_meta
      payload_uuid meta_uuid) := by
  have up {p : OsPath} (forward : Forward p) : Forward (parent_dir p) :=
    fun s member => forward s (List.mem_filter.mp (List.mem_of_mem_dropLast member)).1
  refine Frames.bind (Frames.io (Fs.frames_create_dir_all (up payload.forward) above)) fun _ => ?_
  refine Frames.bind (Frames.io (Fs.frames_create_dir_all (up side.forward) above')) fun _ => ?_
  refine Frames.bind_of (backup_existing_frames payload) fun backup _ _ done => ?_
  have spelled := backup_existing_name done
  refine Frames.bind_of (backup_existing_frames side) fun backup' _ _ done' => ?_
  have spelled' := backup_existing_name done'
  have restore (e : IoError) : Frames S G (do
      Common.restore_backup final_meta backup' false
      Common.restore_backup final_payload backup payload_is_dir
      Prog.fail (.Io e) : Action Unit) :=
    Frames.bind (restore_backup_frames side (fun dir => by cases dir) spelled') fun _ =>
      Frames.bind (restore_backup_frames payload last spelled) fun _ => Frames.fail _
  refine Frames.bind (Frames.attempt (Fs.frames_rename tmp_forward payload.forward (fun _ => tmp_inside)
    payload.inside)) fun moved => ?_
  cases moved with
  | error e => exact restore e
  | ok _ =>
    refine Frames.bind (Frames.attempt (Fs.frames_rename side_forward side.forward (fun _ => side_inside)
      side.inside)) fun moved' => ?_
    cases moved' with
    | error e =>
      exact Frames.bind (Common.frames_remove_path_if_exists payload_is_dir payload.forward last payload.inside)
        fun _ => restore e
    | ok _ =>
      exact Frames.bind (cleanup_backup_frames payload spelled) fun _ => cleanup_backup_frames side spelled'

end Writers

/-! ### Operations on a key -/

/-- The version id of a record is the one drawn, if it has one. -/
def Dated (draws : Draws) (record : ObjectMeta) : Prop :=
  record.version_id = none ∨ record.version_id = some draws.version_id

section Operations
variable {P : Primitives} {fs : FilesystemStorage} {bucket key : String} {own stored : List String} {draws : Draws}

private theorem touched_own {temps : List String} {n : String} (member : n ∈ own) (q : OsPath)
    (below : home fs bucket key ++ [n] <+: q) : Touched fs bucket key own temps stored q :=
  .inl ⟨n,List.mem_append_left _ member,below⟩

private theorem touched_temp {temps : List String} {n : String} (member : n ∈ temps) (q : OsPath)
    (below : home fs bucket key ++ [n] <+: q) : Touched fs bucket key own temps stored q :=
  .inl ⟨n,List.mem_append_right _ member,below⟩

private theorem touched_object_temp {temps : List String} {n : String} (member : n ∈ temps) (q : OsPath)
    (below : objectDir fs bucket key ++ [n] <+: q) : Touched fs bucket key own temps stored q :=
  .inr (.inl ⟨n,member,below⟩)

private theorem touched_version {temps : List String} {n : String} (member : n ∈ stored) (q : OsPath)
    (below : versionsAt fs bucket key ++ [n] <+: q) : Touched fs bucket key own temps stored q :=
  .inr (.inr ⟨n,member,below⟩)

private theorem inside_of_leads {S : OsPath → Prop} {p dir : OsPath} {name : String} (leads : Leads p dir name)
    (inside : ∀ q, dir ++ [name] <+: q → S q) : S (canon p) := by
  rw [leads.names]
  exact inside _ (List.prefix_refl _)

section
variable (accepted : Accepted bucket key)
include accepted

theorem covered_object (member : objectName key ∈ own) :
    Covered (Touched fs bucket key own (tempNames draws) stored) (object_path fs.buckets_dir bucket key)
      draws.backup_payload := by
  have leads := accepted.temp_object_leads fs draws.backup_payload_slash
  refine ⟨accepted.object_forward fs,fun undotted q below => ?_,leads.entry,fun q below => ?_⟩
  · rw [(accepted.object_leads (accepted.named_of_not_dotted fs undotted)).names] at below
    exact touched_own member q below
  · rw [leads.names] at below
    exact touched_object_temp (by simp [tempNames]) q below

theorem covered_ec (member : ecName key ∈ own) :
    Covered (Touched fs bucket key own (tempNames draws) stored) (ec_dir fs.buckets_dir bucket key)
      draws.backup_payload := by
  have leads := accepted.temp_ec_leads fs draws.backup_payload_slash
  refine ⟨accepted.ec_leads.entry.forward,fun _ q below => ?_,leads.entry,fun q below => ?_⟩
  · rw [accepted.ec_leads.names] at below
    exact touched_own member q below
  · rw [leads.names] at below
    exact touched_temp (by simp [tempNames]) q below

theorem covered_meta (member : metaName key ∈ own) :
    Covered (Touched fs bucket key own (tempNames draws) stored) (meta_path fs.buckets_dir bucket key)
      draws.backup_meta := by
  have leads := accepted.temp_meta_leads fs draws.backup_meta_slash
  refine ⟨accepted.meta_leads.entry.forward,fun _ q below => ?_,leads.entry,fun q below => ?_⟩
  · rw [accepted.meta_leads.names] at below
    exact touched_own member q below
  · rw [leads.names] at below
    exact touched_temp (by simp [tempNames]) q below

theorem opened_home (q : OsPath) (above : q <+: canon (home fs bucket key)) :
    Touched fs bucket key own (tempNames draws) stored q ∨ Opened fs bucket key q := by
  rw [accepted.home_plain_canon fs] at above
  exact .inr (.inl above)

theorem opened_objectDir (q : OsPath) (above : q <+: canon (objectDir fs bucket key)) :
    Touched fs bucket key own (tempNames draws) stored q ∨ Opened fs bucket key q := by
  rw [accepted.objectDir_canon fs] at above
  exact .inr (.inl (above.trans (accepted.objectDir_above fs)))

theorem opened_versions (q : OsPath) (above : q <+: canon (versions_dir fs.buckets_dir bucket key)) :
    Touched fs bucket key own (tempNames draws) stored q ∨ Opened fs bucket key q := by
  rw [accepted.versions_canon fs] at above
  exact .inr (.inr above)

theorem publish_frames {tmp final : OsPath} {is_dir : Bool} {record : ObjectMeta} (side : metaName key ∈ own)
    (payload : Covered (Touched fs bucket key own (tempNames draws) stored) final draws.backup_payload)
    (last : is_dir = true → final.getLast? ≠ some ".") (tmp_forward : Forward tmp) (tmp_inside : ∀ q, canon tmp <+: q → Touched fs bucket key own (tempNames draws) stored q)
    (above : ∀ q, q <+: canon (parent_dir final) →
      Touched fs bucket key own (tempNames draws) stored q ∨ Opened fs bucket key q) :
    Frames (Touched fs bucket key own (tempNames draws) stored) (Opened fs bucket key)
      (fs.publish draws bucket key tmp final is_dir record) := by
  have leads := accepted.temp_meta_leads fs draws.tmp_meta_slash
  have inside : ∀ q, canon (temp_sibling_path (meta_path fs.buckets_dir bucket key) draws.tmp_meta) <+: q →
      Touched fs bucket key own (tempNames draws) stored q := by
    intro q below
    rw [leads.names] at below
    exact touched_temp (by simp [tempNames]) q below
  have up : parent_dir (meta_path fs.buckets_dir bucket key) = home fs bucket key := accepted.meta_leads.parent
  refine Frames.bind (Frames.io (Fs.frames_create_dir_all ?_ ?_)) fun _ => ?_
  · rw [up]
    exact accepted.home_forward fs
  · rw [up]
    exact opened_home accepted
  · refine Frames.with_guard ?_ leads.entry inside
    refine Frames.bind (Frames.io (Fs.frames_write leads.entry.forward (fun _ => inside _ (List.prefix_refl _)) _))
      fun _ => ?_
    refine publish_temp_frames payload last (covered_meta accepted side) tmp_forward tmp_inside leads.entry.forward inside
      above ?_
    rw [up]
    exact opened_home accepted

theorem in_temp_ec_dir_frames {α : Type} {write : OsPath → Action α}
    (inner : ∀ tmp, Leads tmp (home fs bucket key) (tempName draws.tmp_payload) →
      Frames (Touched fs bucket key own (tempNames draws) stored) (Opened fs bucket key) (write tmp)) :
    Frames (Touched fs bucket key own (tempNames draws) stored) (Opened fs bucket key)
      (fs.in_temp_ec_dir draws bucket key write) := by
  have leads := accepted.temp_ec_leads fs draws.tmp_payload_slash
  have inside : ∀ q, home fs bucket key ++ [tempName draws.tmp_payload] <+: q →
      Touched fs bucket key own (tempNames draws) stored q := touched_temp (by simp [tempNames])
  refine Frames.with_guard ?_ leads.entry fun q below => inside q (leads.names ▸ below)
  refine Frames.bind (Frames.io (Fs.frames_create_dir_all ?_ ?_)) fun _ => ?_
  · rw [accepted.ec_leads.parent]
    exact accepted.home_forward fs
  · rw [accepted.ec_leads.parent]
    exact opened_home accepted
  · refine Frames.bind (Frames.io (Fs.frames_create_dir_all leads.entry.forward fun q above => ?_)) fun _ => inner _ leads
    rw [leads.names] at above
    by_cases same : q = home fs bucket key ++ [tempName draws.tmp_payload]
    · exact .inl (inside q (by rw [same]))
    · refine .inr (.inl ?_)
      rw [List.prefix_concat_iff] at above
      exact above.resolve_left same

/-! Stored versions. -/

theorem write_version_frames {record : ObjectMeta} {data_path : OsPath} (dated : Dated draws record)
    (entries : ∀ n ∈ versionNames draws.version_id, n ∈ stored) :
    Frames (Touched fs bucket key own (tempNames draws) stored) (Opened fs bucket key)
      (fs.write_version bucket key record data_path) := by
  unfold FilesystemStorage.write_version
  rcases dated with none | some'
  · rw [none]
    exact Frames.fail _
  · rw [some']
    have data := accepted.version_entry_leads fs draws.version_id_slash (by decide : '/' ∉ ".data".toList) (by decide)
    have side := accepted.version_entry_leads fs draws.version_id_slash (by decide : '/' ∉ ".meta.json".toList) (by decide)
    refine Frames.bind (Frames.io (Fs.frames_create_dir_all (accepted.versions_forward fs) (opened_versions accepted)))
      fun _ => ?_
    refine Frames.bind (Frames.io (Fs.frames_copy _ data.entry.forward fun _ => ?_)) fun _ => ?_
    · exact inside_of_leads data (touched_version (entries _ (by simp [versionNames])))
    · refine Frames.io (Fs.frames_write side.entry.forward (fun _ => ?_) _)
      exact inside_of_leads side (touched_version (entries _ (by simp [versionNames])))

omit accepted in
/-- A directory is listed by names. -/
theorem read_dir_names {p : OsPath} {w w' : World} {entries : List String}
    (done : io (Fs.read_dir p) w = (.ok entries,w')) : ∀ n ∈ entries, isName n = true := by
  rw [io_ok_iff,Fs.read_dir,Fs.observe_ok_iff] at done
  obtain ⟨listed,_⟩ := done
  simp only [Fs.namesAt] at listed
  rcases found : locate w.tree p with _ | q
  · rw [found] at listed; cases listed
  · rw [found] at listed
    simp only [bind,Except.bind] at listed
    split at listed
    next => cases listed
    next =>
      split at listed
      next => cases listed
      next =>
        injection listed with listed
        intro n member
        rw [← listed] at member
        exact (List.mem_filter.mp member).2

omit accepted in
theorem copy_entries_frames {S G : OsPath → Prop} {src dst dir : OsPath} {name : String} (leads : Leads dst dir name)
    (inside : ∀ q, dir ++ [name] <+: q → S q) : Frames S G (copy_entries src dst) := by
  refine Frames.bind_of (Frames.io (Fs.frames_read_dir src)) fun entries w w' done => ?_
  refine Frames.each entries fun n member => ?_
  obtain ⟨kept,ahead,absent⟩ := isName_iff.mp (read_dir_names done n member)
  have entry := leads.child absent kept ahead
  refine Frames.io (Fs.frames_copy _ entry.entry.forward fun _ => ?_)
  rw [entry.names]
  exact inside _ (List.prefix_append _ _)

theorem write_version_chunked_frames {record : ObjectMeta} (dated : Dated draws record)
    (entries : ∀ n ∈ versionNames draws.version_id, n ∈ stored) :
    Frames (Touched fs bucket key own (tempNames draws) stored) (Opened fs bucket key)
      (fs.write_version_chunked bucket key record) := by
  unfold FilesystemStorage.write_version_chunked
  rcases dated with none | some'
  · rw [none]
    exact Frames.fail _
  · rw [some']
    have chunks := accepted.version_entry_leads fs draws.version_id_slash (by decide : '/' ∉ ".ec".toList) (by decide)
    have side := accepted.version_entry_leads fs draws.version_id_slash (by decide : '/' ∉ ".meta.json".toList) (by decide)
    have inside : ∀ q, versionsAt fs bucket key ++ [draws.version_id ++ ".ec"] <+: q →
        Touched fs bucket key own (tempNames draws) stored q := touched_version (entries _ (by simp [versionNames]))
    refine Frames.bind (Frames.io (Fs.frames_create_dir_all (accepted.versions_forward fs) (opened_versions accepted)))
      fun _ => ?_
    refine Frames.bind (Frames.io (Fs.frames_create_dir_all chunks.entry.forward fun q above => ?_)) fun _ => ?_
    · change q <+: canon (join (versions_dir fs.buckets_dir bucket key) (draws.version_id ++ ".ec")) at above
      rw [chunks.names,List.prefix_concat_iff] at above
      exact above.imp (fun same => inside q (by rw [same])) fun above => .inr above
    · refine Frames.bind (copy_entries_frames chunks inside) fun _ => ?_
      refine Frames.io (Fs.frames_write side.entry.forward (fun _ => ?_) _)
      exact inside_of_leads side (touched_version (entries _ (by simp [versionNames])))

/-! Put. -/

omit accepted in
theorem index_upsert_frames {S G : OsPath → Prop} (record : ObjectMeta) : Frames S G (fs.index_upsert bucket record) := by
  have remove : Frames S G (fs.index_remove bucket record.key) :=
    Frames.ite (fun _ => Frames.tell fun _ => rfl) fun _ => Frames.pure _
  exact Frames.bind remove fun _ => Frames.ite (fun _ => Frames.tell fun _ => rfl) fun _ => Frames.pure _

omit accepted in
theorem keep_version_frames {S G : OsPath → Prop} {record : ObjectMeta} {write : Action Unit} (kept : Frames S G write) :
    Frames S G (FilesystemStorage.keep_version record write) :=
  Frames.ite (fun _ => kept) fun _ => Frames.pure _

omit accepted in
theorem finish_put_frames {S G : OsPath → Prop} {record : ObjectMeta} {write : Action Unit} (kept : Frames S G write) :
    Frames S G (fs.finish_put bucket record write) :=
  Frames.bind (keep_version_frames kept) fun _ => Frames.bind (index_upsert_frames record) fun _ => Frames.pure _

theorem publish_chunks_frames {record : ObjectMeta} (chunks : ecName key ∈ own) (side : metaName key ∈ own) {tmp : OsPath}
    (leads : Leads tmp (home fs bucket key) (tempName draws.tmp_payload)) :
    Frames (Touched fs bucket key own (tempNames draws) stored) (Opened fs bucket key)
      (fs.publish draws bucket key tmp (ec_dir fs.buckets_dir bucket key) true record) := by
  refine publish_frames accepted side (covered_ec accepted chunks)
    (fun _ => Fs.last_of_named accepted.ec_leads.entry.named) leads.entry.forward (fun q below => ?_) ?_
  · rw [leads.names] at below
    exact touched_temp (by simp [tempNames]) q below
  · rw [accepted.ec_leads.parent]
    exact opened_home accepted

theorem store_chunked_frames {content_type : String} {body : ByteStream} {algo : Option ChecksumAlgorithm}
    (chunks : ecName key ∈ own) (side : metaName key ∈ own) :
    Frames (Touched fs bucket key own (tempNames draws) stored) (Opened fs bucket key)
      (fs.store_chunked P draws bucket key content_type body algo) := by
  refine in_temp_ec_dir_frames accepted fun tmp leads => ?_
  have inside : ∀ q, home fs bucket key ++ [tempName draws.tmp_payload] <+: q →
      Touched fs bucket key own (tempNames draws) stored q := touched_temp (by simp [tempNames])
  refine Frames.bind (pump_frames _ _ _ fun acc piece => write_plain_frames leads inside _ acc piece) fun acc => ?_
  refine Frames.bind (chunk_finish_frames leads inside _) fun cw => ?_
  refine Frames.bind (write_manifest_frames leads inside fs _ _ _) fun _ => ?_
  refine Frames.bind (FilesystemStorage.next_version_id_quiet draws bucket).frames fun _ => ?_
  exact Frames.bind (publish_chunks_frames accepted chunks side leads) fun _ => Frames.pure _

omit accepted in
theorem store_chunked_gives {content_type : String} {body : ByteStream} {algo : Option ChecksumAlgorithm} :
    Prog.Gives (fs.store_chunked P draws bucket key content_type body algo) (Dated draws) := by
  refine Prog.Gives.guarded (Prog.Gives.bind fun _ => Prog.Gives.bind fun _ => Prog.Gives.bind fun _ => ?_)
  refine Prog.Gives.bind fun _ => Prog.Gives.bind fun _ => ?_
  refine Prog.Gives.bind_of (fun w id w' => FilesystemStorage.next_version_id_done) fun id given => ?_
  exact Prog.Gives.bind fun _ => Prog.Gives.pure given

theorem put_object_chunked_frames {content_type : String} {body : ByteStream} {algo : Option ChecksumAlgorithm}
    (chunks : ecName key ∈ own) (side : metaName key ∈ own)
    (entries : ∀ n ∈ versionNames draws.version_id, n ∈ stored) :
    Frames (Touched fs bucket key own (tempNames draws) stored) (Opened fs bucket key)
      (fs.put_object_chunked P draws bucket key content_type body algo) := by
  refine Frames.bind (Frames.lift _) fun _ => ?_
  refine Frames.bind_of (store_chunked_frames accepted chunks side) fun record w w' done => ?_
  exact finish_put_frames (write_version_chunked_frames accepted (store_chunked_gives w record w' done) entries)

theorem store_chunked_encrypted_frames {content_type : String} {body : ByteStream} {checksum : ChecksumRequest}
    {encryption : EncryptionRequest} (chunks : ecName key ∈ own) (side : metaName key ∈ own) :
    Frames (Touched fs bucket key own (tempNames draws) stored) (Opened fs bucket key)
      (fs.store_chunked_encrypted P draws bucket key content_type body checksum encryption) := by
  refine in_temp_ec_dir_frames accepted fun tmp leads => ?_
  have inside : ∀ q, home fs bucket key ++ [tempName draws.tmp_payload] <+: q →
      Touched fs bucket key own (tempNames draws) stored q := touched_temp (by simp [tempNames])
  refine Frames.bind (FilesystemStorage.next_version_id_quiet draws bucket).frames fun _ => ?_
  refine Frames.bind (start_encryption_frames fs draws _ _) fun _ => ?_
  refine Frames.bind (pump_frames _ _ _ fun sw piece => sealed_write_frames leads inside _ _ sw piece) fun _ => ?_
  refine Frames.bind (sealed_finish_frames leads inside _ _ _) fun sw => ?_
  refine Frames.bind (write_manifest_frames leads inside fs _ _ _) fun _ => ?_
  refine Frames.bind (Frames.lift _) fun _ => ?_
  exact Frames.bind (publish_chunks_frames accepted chunks side leads) fun _ => Frames.pure _

omit accepted in
theorem store_chunked_encrypted_gives {content_type : String} {body : ByteStream} {checksum : ChecksumRequest}
    {encryption : EncryptionRequest} :
    Prog.Gives (fs.store_chunked_encrypted P draws bucket key content_type body checksum encryption) (Dated draws) := by
  refine Prog.Gives.guarded (Prog.Gives.bind fun _ => Prog.Gives.bind fun _ => ?_)
  refine Prog.Gives.bind_of (fun w id w' => FilesystemStorage.next_version_id_done) fun id given => ?_
  refine Prog.Gives.bind fun _ => Prog.Gives.bind fun _ => Prog.Gives.bind fun _ => Prog.Gives.bind fun _ => ?_
  refine Prog.Gives.bind fun _ => Prog.Gives.bind fun _ => Prog.Gives.pure ?_
  unfold Dated
  rw [with_sidecar_mac_version_id]
  exact given

theorem put_object_chunked_encrypted_frames {content_type : String} {body : ByteStream} {checksum : ChecksumRequest}
    {encryption : EncryptionRequest} (chunks : ecName key ∈ own) (side : metaName key ∈ own)
    (entries : ∀ n ∈ versionNames draws.version_id, n ∈ stored) :
    Frames (Touched fs bucket key own (tempNames draws) stored) (Opened fs bucket key)
      (fs.put_object_chunked_encrypted P draws bucket key content_type body checksum encryption) := by
  refine Frames.bind (Frames.lift _) fun _ => ?_
  refine Frames.bind_of (store_chunked_encrypted_frames accepted chunks side) fun record w w' done => ?_
  exact finish_put_frames
    (write_version_chunked_frames accepted (store_chunked_encrypted_gives w record w' done) entries)

omit accepted in
theorem start_sealing_frames {S G : OsPath → Prop} (encryption : Option EncryptionRequest) (aad : Nat → Bytes) :
    Frames S G (fs.start_sealing P draws encryption aad) := by
  cases encryption with
  | none => exact Frames.pure _
  | some req => exact Frames.bind (start_encryption_frames fs draws _ _) fun _ => Frames.pure _

theorem store_flat_frames {content_type : String} {body : ByteStream} {checksum : ChecksumRequest}
    {version_id : Option String} {sealing : Option (EncryptionMeta × FrameCipher)} (file : objectName key ∈ own)
    (side : metaName key ∈ own) :
    Frames (Touched fs bucket key own (tempNames draws) stored) (Opened fs bucket key)
      (fs.store_flat P draws bucket key content_type body checksum version_id sealing) := by
  have leads := accepted.temp_object_leads fs draws.tmp_payload_slash
  have inside : ∀ q, canon (temp_sibling_path (object_path fs.buckets_dir bucket key) draws.tmp_payload) <+: q →
      Touched fs bucket key own (tempNames draws) stored q := by
    intro q below
    rw [leads.names] at below
    exact touched_object_temp (by simp [tempNames]) q below
  have here := inside _ (List.prefix_refl _)
  refine Frames.bind (Frames.io (Fs.frames_create_dir_all (accepted.objectDir_forward fs) (opened_objectDir accepted)))
    fun _ => Frames.with_guard ?_ leads.entry inside
  refine Frames.bind (Frames.io (Fs.frames_write leads.entry.forward (fun _ => here) _)) fun _ => ?_
  refine Frames.bind (pump_frames _ _ _ fun fw piece => flat_write_frames leads.entry.forward here _ fw piece)
    fun fw => ?_
  refine Frames.bind (flat_finish_frames leads.entry.forward here _ fw) fun _ => ?_
  refine Frames.bind (Frames.lift _) fun _ => ?_
  refine Frames.bind (FilesystemStorage.resolve_default_object_lock_quiet _ bucket).frames fun _ => ?_
  exact Frames.bind (publish_frames accepted side (covered_object accepted file) (fun dir => by cases dir) leads.entry.forward inside
    (opened_objectDir accepted)) fun _ => Frames.pure _

omit accepted in
theorem store_flat_gives {content_type : String} {body : ByteStream} {checksum : ChecksumRequest}
    {version_id : Option String} {sealing : Option (EncryptionMeta × FrameCipher)} :
    Prog.Gives (fs.store_flat P draws bucket key content_type body checksum version_id sealing)
      fun record => record.version_id = version_id := by
  refine Prog.Gives.bind fun _ => Prog.Gives.guarded ?_
  refine Prog.Gives.bind fun _ => Prog.Gives.bind fun _ => Prog.Gives.bind fun _ => Prog.Gives.bind fun _ => ?_
  refine Prog.Gives.bind fun _ => Prog.Gives.bind fun _ => Prog.Gives.pure ?_
  rw [with_sidecar_mac_version_id,apply_object_lock_version_id]
  rfl

theorem put_object_flat_frames {content_type : String} {body : ByteStream} {checksum : ChecksumRequest}
    {encryption : Option EncryptionRequest} (file : objectName key ∈ own) (side : metaName key ∈ own)
    (entries : ∀ n ∈ versionNames draws.version_id, n ∈ stored) :
    Frames (Touched fs bucket key own (tempNames draws) stored) (Opened fs bucket key)
      (fs.put_object_flat P draws bucket key content_type body checksum encryption) := by
  refine Frames.bind_of (FilesystemStorage.next_version_id_quiet draws bucket).frames fun version_id _ _ chosen => ?_
  have given := FilesystemStorage.next_version_id_done chosen
  refine Frames.bind (start_sealing_frames encryption _) fun sealing => ?_
  refine Frames.bind_of (store_flat_frames accepted file side) fun record w w' done => ?_
  have dated : Dated draws record := by
    unfold Dated
    rw [store_flat_gives w record w' done]
    exact given
  exact finish_put_frames (write_version_frames accepted dated entries)

theorem put_folder_marker_frames (folder : ends_with key "/" = true) (file : objectName key ∈ own)
    (side : metaName key ∈ own) :
    Frames (Touched fs bucket key own (tempNames draws) stored) (Opened fs bucket key)
      (fs.put_folder_marker P draws bucket key) := by
  have object : join (join (bucket_dir fs.buckets_dir bucket) (trim_end_slashes key)) ".folder" =
      object_path fs.buckets_dir bucket key := by rw [object_path,if_pos folder]
  have sidecar : join (join (bucket_dir fs.buckets_dir bucket) (trim_end_slashes key)) ".folder.meta.json" =
      meta_path fs.buckets_dir bucket key := by rw [meta_path,if_pos folder]
  have leads : Leads (object_path fs.buckets_dir bucket key) (home fs bucket key) (objectName key) :=
    accepted.object_leads (.inl folder)
  have above : canon (join (bucket_dir fs.buckets_dir bucket) (trim_end_slashes key)) = home fs bucket key := by
    have names := leads.names
    rw [← object,join_name (by decide),canon_concat (by decide)] at names
    exact (List.append_inj' names rfl).1
  have forward : Forward (join (bucket_dir fs.buckets_dir bucket) (trim_end_slashes key)) := by
    have all := leads.entry.forward
    rw [← object,join_name (by decide)] at all
    exact fun s member => all s (List.mem_append_left _ member)
  unfold FilesystemStorage.put_folder_marker
  dsimp only
  rw [object,sidecar]
  refine Frames.bind (Frames.io (Fs.frames_create_dir_all forward fun q within => ?_)) fun _ => ?_
  · rw [above] at within
    exact .inr (.inl within)
  · refine Frames.bind (Frames.io (Fs.frames_write leads.entry.forward (fun _ => ?_) _)) fun _ => ?_
    · exact inside_of_leads leads (touched_own file)
    · refine Frames.bind (Frames.io (Fs.frames_write accepted.meta_leads.entry.forward (fun _ => ?_) _)) fun _ => ?_
      · exact inside_of_leads accepted.meta_leads (touched_own side)
      · exact Frames.bind (index_upsert_frames _) fun _ => Frames.pure _

end

/-- The names of a key's own places. -/
def ownNames (key : String) : List String := [objectName key,metaName key,ecName key]

/-- A put touches the places of its key and makes temporary siblings and one version. -/
theorem put_object_frames (content_type : String) (body : ByteStream) (checksum : ChecksumRequest)
    (encryption : Option EncryptionRequest) (declared_size : Option Nat) :
    Frames (Touched fs bucket key (ownNames key) (tempNames draws) (versionNames draws.version_id)) (Opened fs bucket key)
      (fs.put_object P draws bucket key content_type body checksum encryption declared_size) := by
  refine Frames.bind_of (Frames.lift _) fun _ _ _ valid => Frames.bind_of (Frames.lift _) fun _ _ _ valid' => ?_
  have accepted : Accepted bucket key := ⟨(lift_ok_iff.mp valid).1,(lift_ok_iff.mp valid').1⟩
  refine Frames.bind (FilesystemStorage.ensure_can_overwrite_quiet _ _ _).frames fun _ => ?_
  refine Frames.bind (Frames.lift _) fun _ => ?_
  refine Frames.ite (fun folder => ?_) fun _ => ?_
  · exact put_folder_marker_frames accepted folder (by simp [ownNames]) (by simp [ownNames])
  · refine Frames.bind (FilesystemStorage.effective_erasure_coding_quiet _).frames fun coded => ?_
    refine Frames.ite (fun _ => ?_) fun _ => ?_
    · cases encryption with
      | some req =>
        exact put_object_chunked_encrypted_frames accepted (by simp [ownNames]) (by simp [ownNames]) fun _ => id
      | none => exact put_object_chunked_frames accepted (by simp [ownNames]) (by simp [ownNames]) fun _ => id
    · exact put_object_flat_frames accepted (by simp [ownNames]) (by simp [ownNames]) fun _ => id

end Operations

end Maxio
