import Maxio.BucketCalls

/-!
What a write to a versioned bucket keeps of the new version: a copy of the sidecar and of the payload, from which the
version is read whatever becomes of the current object.
-/

set_option linter.unusedSimpArgs false

namespace Maxio
open FileTree (Node Tree)

/-! ### Copies of files -/

namespace Fs
variable {a b dir dir' : OsPath} {name name' : String} {w w' : World}

theorem copy_done (leads : Leads a dir name) (leads' : Leads b dir' name') (done : copy a b w = (.ok (),w')) :
    ∃ c, w.tree.node (dir ++ [name]) = some (.file c) ∧ Sets (dir' ++ [name']) (some (.file c)) w w' := by
  rw [copy,Prog.bind_ok_iff] at done
  obtain ⟨c,w₁,read,wrote⟩ := done
  obtain ⟨file,rfl⟩ := read_done leads (Prog.mapError_ok_iff.mp read)
  exact ⟨c,file,(write_done leads' wrote).1⟩

end Fs

section Entries
variable {src dst dir dir' : OsPath} {name name' : String} {w w' : World}

theorem child_of_name (leads : Leads src dir name) {entry : String} (named : isName entry = true) :
    Leads (join src entry) (dir ++ [name]) entry := by
  obtain ⟨kept,ahead,absent⟩ := isName_iff.mp named
  exact leads.child absent kept ahead

/-- Copying entries one by one: what is in the source stays, and what is gone through is in the target. -/
theorem copy_each_done (leads : Leads src dir name) (leads' : Leads dst dir' name')
    (apart : dir ++ [name] ≠ dir' ++ [name']) {entries : List String} (named : ∀ n ∈ entries, isName n = true)
    (done : Prog.each (fun n => io (Fs.copy (join src n) (join dst n))) entries w = (.ok (),w')) :
    (∀ q, (∀ n, q ≠ dir' ++ [name'] ++ [n]) → w'.tree.node q = w.tree.node q) ∧
    (∀ n, n ∉ entries → w'.tree.node (dir' ++ [name'] ++ [n]) = w.tree.node (dir' ++ [name'] ++ [n])) ∧
    ∀ n ∈ entries, w'.tree.node (dir' ++ [name'] ++ [n]) = w.tree.node (dir ++ [name] ++ [n]) := by
  induction entries generalizing w with
  | nil =>
    obtain ⟨_,rfl⟩ := pure_ok_iff.mp done
    exact ⟨fun _ _ => rfl,fun _ _ => rfl,fun n member => by cases member⟩
  | cons first rest ih =>
    rw [Prog.each,Prog.bind_ok_iff] at done
    obtain ⟨_,w₁,copied,done⟩ := done
    have here := named first (by simp)
    obtain ⟨c,file,sets⟩ := Fs.copy_done (child_of_name leads here) (child_of_name leads' here) (io_ok_iff.mp copied)
    obtain ⟨outside,unlisted,listed⟩ := ih (fun n member => named n (List.mem_cons_of_mem _ member)) done
    have source : ∀ n, w₁.tree.node (dir ++ [name] ++ [n]) = w.tree.node (dir ++ [name] ++ [n]) :=
      fun n => sets.other fun same => apart (List.append_inj' same rfl).1
    refine ⟨fun q other => ?_,fun n absent => ?_,fun n member => ?_⟩
    · rw [outside q other,sets.other (other first)]
    · rw [List.mem_cons,not_or] at absent
      rw [unlisted n absent.2,sets.other fun same => absent.1 (by simpa using same)]
    · by_cases later : n ∈ rest
      · rw [listed n later,source]
      · obtain rfl : n = first := by simpa [later] using member
        rw [unlisted n later,sets.here,file]

/-- Every file in the source is in the target afterwards. -/
theorem copy_entries_done (leads : Leads src dir name) (leads' : Leads dst dir' name')
    (apart : dir ++ [name] ≠ dir' ++ [name']) (done : copy_entries src dst w = (.ok (),w')) {n : String}
    (named : isName n = true) {c : Content} (file : w.tree.node (dir ++ [name] ++ [n]) = some (.file c)) :
    w'.tree.node (dir' ++ [name'] ++ [n]) = some (.file c) := by
  rw [copy_entries,Prog.bind_ok_iff] at done
  obtain ⟨entries,w₁,listing,done⟩ := done
  have names := read_dir_names listing
  obtain ⟨listed,rfl⟩ := Fs.observe_ok_iff.mp (io_ok_iff.mp listing)
  rw [Fs.namesAt_forward leads.entry.forward,leads.names] at listed
  have parent : w₁.tree.node (dir ++ [name]) = some .dir := w₁.tree.rooted _ n (by rw [file]; simp)
  rw [parent] at listed
  have member : n ∈ entries := by
    rw [← Except.ok.inj listed,List.mem_filter]
    exact ⟨(w₁.tree.mem_children _ n).mpr (by rw [file]; simp),named⟩
  rw [(copy_each_done leads leads' apart names done).2.2 n member,file]

end Entries

theorem chunk_name_named (i : Nat) : isName (chunk_name i) = true :=
  isName_iff.mpr ⟨(chunk_name_kept i).1,(chunk_name_kept i).2,chunk_name_slash i⟩

/-- A directory of chunks whose files were copied by name. -/
theorem EcHolds.copied {P : Primitives} {t t' : Disk} {q q' : OsPath} {size m : Nat} {data : Bytes}
    {manifest : ChunkManifest} (holds : EcHolds P t q size m data manifest)
    (same : ∀ n c, isName n = true → t.node (q ++ [n]) = some (.file c) → t'.node (q' ++ [n]) = some (.file c)) :
    EcHolds P t' q' size m data manifest := by
  refine ⟨same _ _ (by decide) holds.file,holds.total,holds.chunk_size,holds.count,?_,?_⟩
  · exact fun few i piece here => same _ _ (chunk_name_named i) (holds.stored few i piece here)
  · refine holds.parity.imp id ?_
    rintro ⟨shards,parity,positive,filled,chunks,count,shard,stored⟩
    exact ⟨shards,parity,positive,filled,chunks,count,shard,
      fun i s here => same _ _ (chunk_name_named _) (stored i s here)⟩

/-! ### Stored versions -/

/-- The payload of a version: one file, or a directory of chunks. -/
inductive VersionLies (P : Primitives) (fs : FilesystemStorage) (bucket key version_id : String)
    (cipher : Option FrameCipher) (body : Bytes) (w : World) : Prop where
  | flat (content : Bytes)
      (unchunked : w.tree.node (versionsAt fs bucket key ++ [version_id ++ ".ec"]) ≠ some .dir)
      (file : w.tree.node (versionsAt fs bucket key ++ [version_id ++ ".data"]) = some (.file (.bytes content)))
      (payload : Payload P cipher body content)
  | chunked (data : Bytes) (manifest : ChunkManifest)
      (holds : EcHolds P w.tree (versionsAt fs bucket key ++ [version_id ++ ".ec"]) fs.chunk_size fs.parity_shards data
        manifest)
      (payload : Payload P cipher body data) (few : (dataChunks fs.chunk_size data).length < 2 ^ 32)

/-- A version as it is kept: its sidecar, and the payload the sidecar describes. -/
structure VersionKept (P : Primitives) (fs : FilesystemStorage) (bucket key version_id : String) (record : ObjectMeta)
    (cipher : Option FrameCipher) (ck : Option Bytes) (body : Bytes) (w : World) : Prop where
  recorded : w.tree.node (versionsAt fs bucket key ++ [version_id ++ ".meta.json"]) = some (.file (.json (.object record)))
  live : record.is_delete_marker = false
  dated : record.version_id = some version_id
  described : Described P fs bucket key record cipher ck body
  lies : VersionLies P fs bucket key version_id cipher body w

/-- `get_object_version` succeeds with the metadata of the version and a stream of exactly the body. -/
def VersionGivesBack (P : Primitives) (fs : FilesystemStorage) (bucket key version_id : String) (ck : Option Bytes)
    (body : Bytes) (w : World) : Prop :=
  ∃ reader record, fs.get_object_version P bucket key version_id ck w = (.ok (reader,record),w) ∧
    record.version_id = some version_id ∧ record.size = body.length ∧ ReadsOut P reader body

section Reading
variable {P : Primitives} {fs : FilesystemStorage} {bucket key version_id : String} {record : ObjectMeta}
  {cipher : Option FrameCipher} {ck : Option Bytes} {body : Bytes} {w w' : World}

theorem read_version_meta_ok (accepted : Accepted bucket key) (plain : '/' ∉ version_id.toList)
    (recorded : w.tree.node (versionsAt fs bucket key ++ [version_id ++ ".meta.json"]) =
      some (.file (.json (.object record)))) : fs.read_version_meta bucket key version_id w = (.ok record,w) := by
  have found : (or_not_found (.VersionNotFound version_id) (Fs.read (version_meta_path fs.buckets_dir bucket key
      version_id))) w = (.ok (.json (.object record)),w) :=
    Prog.mapError_ok_iff.mpr (Fs.read_file (version_meta_leads accepted plain) recorded)
  rw [FilesystemStorage.read_version_meta,Prog.bind_of_ok found]
  rfl

theorem version_chunked_eq (accepted : Accepted bucket key) (plain : '/' ∉ version_id.toList) :
    (io (Fs.is_dir (version_ec_dir fs.buckets_dir bucket key version_id)) : Action Bool) w =
      (.ok (w.tree.isDir (versionsAt fs bucket key ++ [version_id ++ ".ec"])),w) := by
  rw [io_ok_iff,Fs.is_dir,Fs.observe_ok_iff,Fs.isDirAt_leads (version_ec_leads accepted plain)]
  exact ⟨rfl,rfl⟩

/-- Opening a kept version gives its body. -/
theorem open_version_yields (sound : P.Sound) (accepted : Accepted bucket key) (plain : '/' ∉ version_id.toList)
    (kept : VersionKept P fs bucket key version_id record cipher ck body w) :
    ∃ reader, fs.open_version P bucket key version_id record ck w = (.ok reader,w) ∧
      Reading.Exactly (ObjectReader.poll_read P) reader body := by
  obtain ⟨_,live,_,described,lies⟩ := kept
  rw [FilesystemStorage.open_version,if_neg (by simp [live])]
  simp only [described.accepts,Prog.lift_ok_bind]
  rw [Prog.bind_of_ok (version_chunked_eq accepted plain)]
  cases lies with
  | chunked data manifest holds payload few =>
    have dir : w.tree.isDir (versionsAt fs bucket key ++ [version_id ++ ".ec"]) = true :=
      Tree.isDir_iff.mpr (w.tree.rooted _ _ (by rw [holds.file]; simp))
    rw [dir,if_pos rfl]
    exact open_chunked_yields _ sound fs.chunk_size_pos described payload (version_ec_leads accepted plain) holds few
  | flat content unchunked file payload =>
    have flat : w.tree.isDir (versionsAt fs bucket key ++ [version_id ++ ".ec"]) = false := by
      rw [Bool.eq_false_iff]
      exact fun dir => unchunked (Tree.isDir_iff.mp dir)
    rw [flat,if_neg (by simp)]
    have leads := @version_data_leads fs _ _ _ accepted plain
    cases cipher with
    | none =>
      rw [(described.plain rfl).1]
      simp only
      rw [Prog.bind_of_ok (open_file_ok _ leads file 0)]
      cases payload
      refine ⟨_,rfl,Reading.Yields.wrap ObjectReader.file ObjectReader.poll_file ?_⟩
      simpa using Reading.FileReader.yields (ε := IoError) ⟨body,0,P.file_grant⟩
    | some c =>
      obtain ⟨enc,has,_⟩ := described.encrypted c rfl
      rw [has]
      exact open_encrypted_file_yields _ sound described has payload leads file

theorem VersionKept.gives_back (sound : P.Sound) (accepted : Accepted bucket key) (plain : '/' ∉ version_id.toList)
    (named : version_id ≠ "null") (kept : VersionKept P fs bucket key version_id record cipher ck body w) :
    VersionGivesBack P fs bucket key version_id ck body w := by
  obtain ⟨reader,opened,yields⟩ := open_version_yields sound accepted plain kept
  refine ⟨reader,record,?_,kept.dated,kept.described.size,readsOut_of_exactly yields⟩
  rw [FilesystemStorage.get_object_version_eq]
  simp only [accepted.bucket,accepted.key,Prog.lift_ok_bind]
  rw [if_neg named,Prog.bind_of_ok (read_version_meta_ok accepted plain kept.recorded),Prog.bind_of_ok opened]
  rfl

/-- A kept version stays as long as its entries are left alone. -/
theorem VersionKept.frame {S G : OsPath → Prop} (kept : VersionKept P fs bucket key version_id record cipher ck body w)
    (frame : Frame S G w w') (outside : ∀ q, StoredVersion fs bucket key version_id q → ¬ S q)
    (rigid : ¬ G (versionsAt fs bucket key ++ [version_id ++ ".ec"])) :
    VersionKept P fs bucket key version_id record cipher ck body w' := by
  have entry : ∀ {n : String}, n ∈ versionNames version_id → ∀ {q}, versionsAt fs bucket key ++ [n] <+: q → ¬ S q := by
    intro n member q below
    exact outside _ (.intro member below)
  refine ⟨?_,kept.live,kept.dated,kept.described,?_⟩
  · exact frame.file (entry (by simp [versionNames]) (List.prefix_refl _)) kept.recorded
  · cases kept.lies with
    | flat content unchunked file payload =>
      refine .flat content ?_ ?_ payload
      · rwa [frame.same (entry (by simp [versionNames]) (List.prefix_refl _)) rigid]
      · exact frame.file (entry (by simp [versionNames]) (List.prefix_refl _)) file
    | chunked data manifest holds payload few =>
      refine .chunked data manifest (holds.moved fun n c file => ?_) payload few
      exact frame.file (entry (n := version_id ++ ".ec") (by simp [versionNames]) (List.prefix_append _ _)) file

end Reading

/-! ### Writing a version -/

section Writing
variable {P : Primitives} {fs : FilesystemStorage} {bucket key upload_id : String} {draws : Draws} {record : ObjectMeta}
  {cipher : Option FrameCipher} {ck : Option Bytes} {body : Bytes} {w w' : World}

/-- Making the versions directory changes nothing but directories above it. -/
theorem create_versions_dir_frame (accepted : Accepted bucket key)
    (done : io (Fs.create_dir_all (versions_dir fs.buckets_dir bucket key)) w = (.ok (),w')) :
    Frame (fun _ => False) (fun q => q <+: versionsAt fs bucket key) w w' := by
  have frames : Frames (fun _ => False) (fun q => q <+: versionsAt fs bucket key)
      (io (Fs.create_dir_all (versions_dir fs.buckets_dir bucket key))) := by
    refine Frames.io (Fs.frames_create_dir_all (accepted.versions_forward fs) fun q above => .inr ?_)
    rwa [accepted.versions_canon fs] at above
  have frame := frames w
  rwa [done] at frame

theorem version_entry_not_above (name : String) : ¬ versionsAt fs bucket key ++ [name] <+: versionsAt fs bucket key := by
  intro above
  have short := above.length_le
  simp at short

/-- No current file lies in the versions directory. -/
theorem current_ne_version (accepted : Accepted bucket key) {n : String} (member : n ∈ ownNames key) (name : String) :
    home fs bucket key ++ [n] ≠ versionsAt fs bucket key ++ [name] := by
  intro same
  exact @current_apart fs _ _ accepted [name] (same ▸ .intro member (List.prefix_refl _))

theorem versionNames_ne {version_id : String} {a b : String} (other : a ≠ b) :
    versionsAt fs bucket key ++ [version_id ++ a] ≠ versionsAt fs bucket key ++ [version_id ++ b] := by
  intro same
  rw [List.append_cancel_left_eq,List.singleton_inj] at same
  exact other (String.append_right_inj _ |>.mp same)

/-- The version of a flat object. Under the id that was drawn there must be no directory of chunks yet. -/
theorem write_version_keeps (accepted : Accepted bucket key)
    (written : Written P fs bucket key (some draws.version_id) cipher ck body false record w)
    (fresh : w.tree.node (versionsAt fs bucket key ++ [draws.version_id ++ ".ec"]) ≠ some .dir)
    (done : fs.write_version bucket key record (object_path fs.buckets_dir bucket key) w = (.ok (),w')) :
    VersionKept P fs bucket key draws.version_id record cipher ck body w' := by
  obtain ⟨⟨_,described,lies⟩,version,live,_⟩ := written
  cases lies with
  | flat content spelled file payload =>
    have plain := draws.version_id_slash
    simp only [FilesystemStorage.write_version,version,Prog.bind_ok_iff,io_ok_iff] at done
    obtain ⟨_,w₁,made,_,w₂,copied,wrote⟩ := done
    have frame := create_versions_dir_frame accepted (io_ok_iff.mpr made)
    obtain ⟨c,found,data⟩ := Fs.copy_done (accepted.object_leads spelled) (version_data_leads accepted plain) copied
    have side := (Fs.write_done (version_meta_leads accepted plain) wrote).1
    have same : c = .bytes content := by
      rw [show home fs bucket key ++ [objectName key] = objectAt fs bucket key from rfl,frame.file id file] at found
      simpa using found.symm
    refine ⟨side.here,live,version,described,.flat content ?_ ?_ payload⟩
    · rw [side.other (versionNames_ne (by decide)),data.other (versionNames_ne (by decide)),
        frame.same id (version_entry_not_above _)]
      exact fresh
    · rw [side.other (versionNames_ne (by decide)),data.here,same]

/-- The version of an object in chunks. -/
theorem write_version_chunked_keeps (sound : P.Sound) (accepted : Accepted bucket key)
    (written : Written P fs bucket key (some draws.version_id) cipher ck body true record w)
    (few : Countable fs cipher.isSome body.length)
    (done : fs.write_version_chunked bucket key record w = (.ok (),w')) :
    VersionKept P fs bucket key draws.version_id record cipher ck body w' := by
  obtain ⟨⟨_,described,lies⟩,version,live,_⟩ := written
  cases lies with
  | chunked data manifest holds payload =>
    have plain := draws.version_id_slash
    have chunks := @version_ec_leads fs _ _ _ accepted plain
    simp only [FilesystemStorage.write_version_chunked,version,Prog.bind_ok_iff,io_ok_iff] at done
    obtain ⟨_,w₁,made,_,w₂,made',_,w₃,copied,wrote⟩ := done
    have frame := create_versions_dir_frame accepted (io_ok_iff.mpr made)
    have frame' : Frame (fun q => versionsAt fs bucket key ++ [draws.version_id ++ ".ec"] <+: q)
        (fun q => q <+: versionsAt fs bucket key) w₁ w₂ := by
      have frames : Frames (fun q => versionsAt fs bucket key ++ [draws.version_id ++ ".ec"] <+: q)
          (fun q => q <+: versionsAt fs bucket key)
          (Fs.create_dir_all (version_ec_dir fs.buckets_dir bucket key draws.version_id)) := by
        refine Fs.frames_create_dir_all chunks.entry.forward fun q above => ?_
        rw [chunks.names,List.prefix_concat_iff] at above
        exact above.imp (fun same => by rw [same]) id
      have ran := frames w₁
      rwa [made'] at ran
    have member : ecName key ∈ ownNames key := by simp [ownNames]
    have apart : home fs bucket key ++ [ecName key] ≠ versionsAt fs bucket key ++ [draws.version_id ++ ".ec"] :=
      current_ne_version accepted member _
    have side := (Fs.write_done (version_meta_leads accepted plain) wrote).1
    refine ⟨side.here,live,version,described,.chunked data manifest (holds.copied fun n c named file => ?_) payload ?_⟩
    · have outside : ¬ versionsAt fs bucket key ++ [draws.version_id ++ ".ec"] <+: ecAt fs bucket key ++ [n] := by
        rintro ⟨rest,same⟩
        refine @current_apart fs _ _ accepted ([draws.version_id ++ ".ec"] ++ rest) ⟨ecName key,member,?_⟩
        rw [← List.append_assoc,same]
        exact List.prefix_append _ _
      have kept := frame'.file outside (frame.file id file)
      rw [side.other fun same => ?_]
      · exact copy_entries_done accepted.ec_leads chunks apart copied named kept
      · have short := congrArg List.length same
        simp at short
    · rw [length_dataChunks fs.chunk_size_pos,length_payload sound described payload]
      exact few

theorem finish_put_keeps {write : Action Unit} {result : PutResult} (version : record.version_id = some draws.version_id)
    (keeps : ∀ w₁, write w = (.ok (),w₁) → VersionKept P fs bucket key draws.version_id record cipher ck body w₁)
    (done : fs.finish_put bucket record write w = (.ok result,w')) :
    VersionKept P fs bucket key draws.version_id record cipher ck body w' := by
  simp only [FilesystemStorage.finish_put,FilesystemStorage.keep_version,version,Option.isSome_some,if_true,
    Prog.bind_ok_iff,pure_ok_iff] at done
  obtain ⟨_,w₁,wrote,_,w₂,indexed,_,rfl⟩ := done
  have frame : Frame (fun _ => False) (fun _ => False) w₁ (fs.index_upsert bucket record w₁).2 := index_upsert_frames record w₁
  rw [indexed] at frame
  exact (keeps w₁ wrote).frame frame (fun _ _ => id) id

/-- A flat store leaves the versions alone. -/
theorem store_flat_fresh (accepted : Accepted bucket key) {content_type : String} {body : ByteStream}
    {checksum : ChecksumRequest} {version_id : Option String} {sealing : Option (EncryptionMeta × FrameCipher)}
    (done : fs.store_flat P draws bucket key content_type body checksum version_id sealing w = (.ok record,w'))
    (name : String) : w'.tree.node (versionsAt fs bucket key ++ [name]) = w.tree.node (versionsAt fs bucket key ++ [name]) := by
  have frame : Frame (Touched fs bucket key [objectName key,metaName key] (tempNames draws) []) (Opened fs bucket key) w
      (fs.store_flat P draws bucket key content_type body checksum version_id sealing w).2 :=
    store_flat_frames accepted (by simp) (by simp) w
  rw [done] at frame
  refine frame.same (fun touched => ?_) (opened_version_entry accepted accepted (.refl key))
  have mine : ∀ n ∈ [objectName key,metaName key], n ∈ ownNames key := by simp [ownNames]
  exact absurd (touched_version_entry accepted accepted (.refl key) mine touched).2 (by simp)

/-- A versioned put keeps the version whose id it returns. The id is new: there is no directory of chunks under it. -/
theorem put_object_keeps (sound : P.Sound) {content_type : String} {body : ByteStream} {checksum : ChecksumRequest}
    {encryption : Option EncryptionRequest} {declared_size : Option Nat} {result : PutResult}
    (file : ends_with key "/" = false) (numbered : versioned fs bucket w = true)
    (fresh : w.tree.node (versionsAt fs bucket key ++ [draws.version_id ++ ".ec"]) ≠ some .dir)
    (few : coded fs bucket w = true → Countable fs encryption.isSome body.body.length)
    (done : fs.put_object P draws bucket key content_type body checksum encryption declared_size w = (.ok result,w')) :
    ∃ record cipher, result = FilesystemStorage.put_result record ∧
      VersionKept P fs bucket key draws.version_id record cipher (encryption.bind EncryptionRequest.customer_key) body.body
        w' := by
  have given : versionId fs draws bucket w = some draws.version_id := by rw [versionId,numbered,if_pos rfl]
  simp only [FilesystemStorage.put_object,Prog.bind_ok_iff,lift_ok_iff] at done
  obtain ⟨_,_,⟨valid,rfl⟩,_,_,⟨valid',rfl⟩,_,_,unlocked,_,_,⟨_,rfl⟩,done⟩ := done
  have accepted : Accepted bucket key := ⟨valid,valid'⟩
  have quiet := (FilesystemStorage.ensure_can_overwrite_quiet _ bucket key).state unlocked
  subst quiet
  rw [if_neg (by simp [file]),Prog.bind_ok_iff] at done
  obtain ⟨answer,_,asked,done⟩ := done
  obtain ⟨rfl,rfl⟩ := effective_erasure_coding_done valid asked
  have whole : (fs.wrap_upload_reader draws body).failure = none →
      (fs.wrap_upload_reader draws body).body = body.body ∧ body.failure = none := wrap_upload_reader_whole
  split at done
  next on =>
    cases encryption with
    | some req =>
      simp only [FilesystemStorage.put_object_chunked_encrypted,Prog.bind_ok_iff,lift_ok_iff] at done
      obtain ⟨_,_,⟨_,rfl⟩,record,_,stored,finished⟩ := done
      obtain ⟨ended,cipher,written⟩ := store_chunked_encrypted_done sound accepted stored
      rw [given,(whole ended).1] at written
      have same := (finish_put_done accepted written
        (write_version_chunked_frames accepted (.inr written.version) fun _ => id) finished).2
      exact ⟨record,some cipher,same,finish_put_keeps written.version
        (fun _ wrote => write_version_chunked_keeps sound accepted written (few on) wrote) finished⟩
    | none =>
      simp only [FilesystemStorage.put_object_chunked,Prog.bind_ok_iff,lift_ok_iff] at done
      obtain ⟨_,_,⟨_,rfl⟩,record,_,stored,finished⟩ := done
      obtain ⟨ended,written⟩ := store_chunked_done accepted stored
      rw [given,(whole ended).1] at written
      have same := (finish_put_done accepted written
        (write_version_chunked_frames accepted (.inr written.version) fun _ => id) finished).2
      exact ⟨record,none,same,finish_put_keeps written.version
        (fun _ wrote => write_version_chunked_keeps sound accepted written (few on) wrote) finished⟩
  next off =>
    simp only [FilesystemStorage.put_object_flat,Prog.bind_ok_iff,next_version_id_eq valid,Prod.mk.injEq,
      Except.ok.injEq] at done
    obtain ⟨_,_,⟨rfl,rfl⟩,sealing,w₁,started,record,w₂,stored,finished⟩ := done
    obtain ⟨sameDisk,_,unsealed,keyed⟩ := start_sealing_done sound started
    obtain ⟨ended,written⟩ := store_flat_done sound accepted unsealed keyed stored
    have untouched := store_flat_fresh accepted stored (draws.version_id ++ ".ec")
    rw [if_pos numbered,(whole ended).1] at written
    have same := (finish_put_done accepted written
      (write_version_frames accepted (.inr written.version) fun _ => id) finished).2
    refine ⟨record,sealing.map Prod.snd,same,finish_put_keeps written.version (fun _ wrote => ?_) finished⟩
    refine write_version_keeps accepted written ?_ wrote
    rwa [untouched,sameDisk.tree]

theorem finish_complete_keeps (accepted : Accepted bucket key) (upload : NamesUpload upload_id) {write : Action Unit}
    {result : PutResult} (version : record.version_id = some draws.version_id)
    (keeps : ∀ w₁, write w = (.ok (),w₁) → VersionKept P fs bucket key draws.version_id record cipher ck body w₁)
    (done : fs.finish_complete bucket upload_id record write w = (.ok result,w')) :
    VersionKept P fs bucket key draws.version_id record cipher ck body w' := by
  simp only [FilesystemStorage.finish_complete,FilesystemStorage.keep_version,version,Option.isSome_some,if_true,
    Prog.bind_ok_iff,pure_ok_iff,io_ok_iff] at done
  obtain ⟨_,w₁,wrote,_,w₂,removed,_,w₃,indexed,_,rfl⟩ := done
  have frame : Frame (fun q => uploadAt fs bucket upload_id <+: q) (fun _ => False) w₁
      (Fs.remove_dir_all (upload_dir fs.buckets_dir bucket upload_id) w₁).2 :=
    remove_upload_frames accepted.validBucket upload (fun _ => id) w₁
  have frame' : Frame (fun _ => False) (fun _ => False) w₂ (fs.index_upsert bucket record w₂).2 := index_upsert_frames record w₂
  rw [removed] at frame
  rw [indexed] at frame'
  refine ((keeps w₁ wrote).frame frame ?_ id).frame frame' (fun _ _ => id) id
  rintro q ⟨n,_,rest,rfl⟩ inside
  rw [List.append_assoc] at inside
  exact version_not_in_upload accepted.validKey inside

theorem store_completed_fresh {upload : MultipartUploadMeta} (accepted : Accepted bucket upload.key)
    {selected : List PartMeta} {dek : Option Bytes} {version_id : Option String}
    {sealing : Option (EncryptionMeta × Bytes × Bytes)}
    (done : fs.store_completed P draws bucket upload_id upload selected dek version_id sealing w = (.ok record,w'))
    (name : String) : w'.tree.node (versionsAt fs bucket upload.key ++ [name]) =
      w.tree.node (versionsAt fs bucket upload.key ++ [name]) := by
  have frame : Frame (Touched fs bucket upload.key [objectName upload.key,metaName upload.key] (tempNames draws) [])
      (Opened fs bucket upload.key) w
      (fs.store_completed P draws bucket upload_id upload selected dek version_id sealing w).2 :=
    store_completed_frames rfl accepted (by simp) (by simp) w
  rw [done] at frame
  refine frame.same (fun touched => ?_) (opened_version_entry accepted accepted (.refl upload.key))
  have mine : ∀ n ∈ [objectName upload.key,metaName upload.key], n ∈ ownNames upload.key := by simp [ownNames]
  exact absurd (touched_version_entry accepted accepted (.refl upload.key) mine touched).2 (by simp)

/-- So does a completion. -/
theorem complete_multipart_upload_keeps (sound : P.Sound) {upload : MultipartUploadMeta}
    {uploaded : List (PartMeta × Bytes)} {parts : List (Nat × String)} {customer_key : Option Bytes} {result : PutResult}
    (stored : UploadStored P fs bucket upload_id upload w)
    (asked : uploaded.map (fun u => u.1.part_number) = parts.map Prod.fst)
    (kept : ∀ u ∈ uploaded, PartStored P fs bucket upload_id upload customer_key u.1 u.2 w)
    (numbered : versioned fs bucket w = true)
    (fresh : w.tree.node (versionsAt fs bucket upload.key ++ [draws.version_id ++ ".ec"]) ≠ some .dir)
    (few : coded fs bucket w = true →
      Countable fs upload.encryption_spec.isSome (uploaded.map Prod.snd).flatten.length)
    (done : fs.complete_multipart_upload P draws bucket upload_id parts customer_key w = (.ok result,w')) :
    ∃ record cipher, result = FilesystemStorage.put_result record ∧
      VersionKept P fs bucket upload.key draws.version_id record cipher (readingKey upload customer_key)
        (uploaded.map Prod.snd).flatten w' := by
  have given : versionId fs draws bucket w = some draws.version_id := by rw [versionId,numbered,if_pos rfl]
  simp only [FilesystemStorage.complete_multipart_upload,Prog.bind_ok_iff,lift_ok_iff] at done
  obtain ⟨_,_,⟨valid,rfl⟩,_,w,⟨_,rfl⟩,done⟩ := done
  have validBucket := validBucket_of_validate valid
  have names := stored.names
  have accepted : Accepted bucket upload.key := ⟨valid,stored.key⟩
  have labelled := labelled_of_stored kept
  split at done
  next => cases done
  next =>
    rw [Prog.bind_of_ok (read_upload_meta_stored validBucket stored)] at done
    simp only [Prog.bind_ok_iff,lift_ok_iff] at done
    obtain ⟨_,_,unlocked,selected,w₁,selecting,_,_,⟨_,rfl⟩,_,w₂,⟨_,rfl⟩,answer,w₃,asks,done⟩ := done
    have quiet := (FilesystemStorage.ensure_can_overwrite_quiet _ bucket upload.key).state unlocked
    subst quiet
    obtain ⟨rfl,rfl⟩ := select_parts_done validBucket names asked (fun u member => (kept u member).shown) selecting
    obtain ⟨rfl,rfl⟩ := effective_erasure_coding_done valid asks
    split at done
    next on =>
      cases has : upload.encryption_spec with
      | some spec =>
        rw [has] at done few
        simp only [Prog.bind_ok_iff,lift_ok_iff,FilesystemStorage.complete_multipart_chunked_encrypted] at done
        obtain ⟨_,_,⟨_,rfl⟩,_,w₄,⟨_,rfl⟩,record,w₅,completed,finished⟩ := done
        obtain ⟨dek,keyed⟩ : ∃ dek, fs.upload_key P (some spec) customer_key = .ok dek :=
          store_completed_chunked_encrypted_key completed
        have gathers := gathers_of_stored sound validBucket stored kept (by rw [has]; exact keyed)
        obtain ⟨_,cipher,written⟩ :=
          store_completed_chunked_encrypted_done sound accepted labelled keyed gathers completed
        rw [given] at written
        have same := (finish_complete_done accepted names written
          (write_version_chunked_frames accepted (.inr written.version) fun _ => id) finished).2
        refine ⟨record,some cipher,same,?_⟩
        rw [readingKey,has]
        exact finish_complete_keeps accepted names written.version
          (fun _ wrote => write_version_chunked_keeps sound accepted written (few on) wrote) finished
      | none =>
        rw [has] at done few
        simp only [Prog.bind_ok_iff,FilesystemStorage.complete_multipart_chunked] at done
        obtain ⟨record,w₅,completed,finished⟩ := done
        have gathers := gathers_of_stored sound validBucket stored kept (by rw [has]; rfl)
        have plain : ∀ u ∈ uploaded, u.1.encrypted = false := by
          intro u member
          rw [(kept u member).encrypted,has]
          rfl
        obtain ⟨_,written⟩ := store_completed_chunked_done sound accepted labelled gathers plain completed
        rw [given] at written
        have same := (finish_complete_done accepted names written
          (write_version_chunked_frames accepted (.inr written.version) fun _ => id) finished).2
        refine ⟨record,none,same,?_⟩
        rw [readingKey,has]
        exact finish_complete_keeps accepted names written.version
          (fun _ wrote => write_version_chunked_keeps sound accepted written (few on) wrote) finished
    next off =>
      simp only [FilesystemStorage.complete_multipart_flat,Prog.bind_ok_iff,lift_ok_iff,next_version_id_eq valid,
        Prod.mk.injEq,Except.ok.injEq] at done
      obtain ⟨_,_,⟨_,rfl⟩,_,_,⟨_,rfl⟩,dek,w₄,⟨keyed,rfl⟩,sealing,w₅,began,_,_,⟨rfl,rfl⟩,record,w₆,completed,finished⟩ := done
      obtain ⟨disk,opens,seals⟩ := completion_sealing_done sound began
      have gathers := (gathers_of_stored sound validBucket stored kept keyed).moved fun n =>
        congrArg (fun t : Disk => t.node (partAt fs bucket upload_id n)) disk.tree
      have id_eq : (if versioned fs bucket w₅ then some draws.version_id else none) = some draws.version_id := by
        have same : versioned fs bucket w₅ = versioned fs bucket w₄ := by
          rw [versioned,versioned,bucketRecord_congr (congrArg (fun t : Disk => t.node _) disk.tree)]
        rw [same,numbered,if_pos rfl]
      rw [id_eq] at completed
      have unsealed : sealing = none → readingKey upload customer_key = none := by
        intro none
        rw [none] at opens
        rw [readingKey,Option.isSome_eq_false_iff.mp opens.symm |> Option.isNone_iff_eq_none.mp]
        rfl
      have sealed : ∀ enc dek nonce aad, sealing = some (enc,dek,nonce) →
          Keyed P fs (readingKey upload customer_key) aad enc { key := dek, nonce_prefix := nonce, aad } := by
        intro enc dek nonce aad began
        have encrypted : upload.encryption_spec.isSome = true := by rw [← opens,began]; rfl
        obtain ⟨spec,has⟩ := Option.isSome_iff_exists.mp encrypted
        rw [readingKey,has]
        exact seals enc dek nonce aad began
      obtain ⟨_,written⟩ := store_completed_done sound accepted labelled unsealed sealed gathers completed
      have same := (finish_complete_done accepted names written
        (write_version_frames accepted (.inr written.version) fun _ => id) finished).2
      refine ⟨record,_,same,finish_complete_keeps accepted names written.version
        (fun _ wrote => write_version_keeps accepted written ?_ wrote) finished⟩
      rwa [store_completed_fresh accepted completed,disk.tree]

end Writing

end Maxio
