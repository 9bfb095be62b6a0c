import Maxio.ObjectReads

/-!
The files of a key's current object, and what `get_object` and `get_object_range` make of them.
-/

set_option linter.unusedSimpArgs false

namespace Maxio
open FileTree (Node Tree)
open Reading
open FrameDecryptor (Stream cipherLength)

/-! ### Places -/

section Places
variable (fs : FilesystemStorage) (bucket key : String)

/-- The directory of a key. -/
def home : OsPath := base fs.buckets_dir bucket ++ stem key
/-- The payload file in the flat layout. -/
def objectAt : OsPath := home fs bucket key ++ [objectName key]
/-- The sidecar. -/
def metaAt : OsPath := home fs bucket key ++ [metaName key]
/-- The directory of chunks. -/
def ecAt : OsPath := home fs bucket key ++ [ecName key]

end Places

/-- Bucket and key are ones the storage accepts. -/
structure Accepted (bucket key : String) : Prop where
  bucket : validate_bucket_name bucket = .ok ()
  key : validate_key key = .ok ()

namespace Accepted
variable {fs : FilesystemStorage} {bucket key : String} (accepted : Accepted bucket key)
include accepted

theorem validBucket : ValidBucket bucket := validBucket_of_validate accepted.bucket
theorem validKey : ValidKey key := valid_of_validate accepted.key

theorem plain_home : PlainDir (home fs bucket key) :=
  Maxio.plain_home fs.plain accepted.validBucket accepted.validKey

theorem home_ne : home fs bucket key ≠ [] := by simp [home,base]

theorem meta_leads : Leads (meta_path fs.buckets_dir bucket key) (home fs bucket key) (metaName key) :=
  meta_path_leads fs.plain accepted.validBucket accepted.validKey

theorem ec_leads : Leads (ec_dir fs.buckets_dir bucket key) (home fs bucket key) (ecName key) :=
  ec_dir_leads fs.plain accepted.validBucket accepted.validKey

theorem object_leads (named : ends_with key "/" = true ∨ skipped (leaf key) = false) :
    Leads (object_path fs.buckets_dir bucket key) (home fs bucket key) (objectName key) :=
  object_path_leads fs.plain accepted.validBucket accepted.validKey named

end Accepted

/-! ### Reading the current object -/

section Reading
variable {P : Primitives} {fs : FilesystemStorage} {bucket key : String} {record : ObjectMeta}
  {cipher : Option FrameCipher} {ck : Option Bytes} {body : Bytes} {w : World}

/-- The sidecar of the key holds `record`. -/
def Shows (fs : FilesystemStorage) (bucket key : String) (record : ObjectMeta) (w : World) : Prop :=
  w.tree.node (metaAt fs bucket key) = some (.file (.json (.object record)))

theorem read_object_meta_ok (accepted : Accepted bucket key) (shows' : Shows fs bucket key record w) :
    fs.read_object_meta bucket key w = (.ok record,w) := by
  have read : (or_not_found (.NotFound key) (Fs.read (meta_path fs.buckets_dir bucket key))) w =
      (.ok (.json (.object record)),w) :=
    Prog.mapError_ok_iff.mpr (Fs.read_file accepted.meta_leads shows')
  simp only [FilesystemStorage.read_object_meta]
  rw [Prog.bind_of_ok read]
  rfl

theorem is_chunked_path_eq (accepted : Accepted bucket key) :
    FilesystemStorage.is_chunked_path (ec_dir fs.buckets_dir bucket key) w =
      (.ok (w.tree.isDir (ecAt fs bucket key)),w) := by
  have read : Fs.is_dir (ec_dir fs.buckets_dir bucket key) w = (.ok (w.tree.isDir (ecAt fs bucket key)),w) := by
    rw [Fs.is_dir,Fs.observe_ok_iff,Fs.isDirAt_leads accepted.ec_leads]
    exact ⟨rfl,rfl⟩
  simp only [FilesystemStorage.is_chunked_path,unwrap_or]
  rw [Prog.bind_of_ok (attempt_ok_iff.mpr read)]
  rfl

/-- How a payload is laid out for a key. -/
inductive Stored (P : Primitives) (fs : FilesystemStorage) (bucket key : String) (cipher : Option FrameCipher)
    (body : Bytes) (w : World) : Prop where
  | flat (content : Bytes) (named : ends_with key "/" = true ∨ skipped (leaf key) = false)
      (free : w.tree.node (ecAt fs bucket key) ≠ some .dir)
      (file : w.tree.node (objectAt fs bucket key) = some (.file (.bytes content)))
      (payload : Payload P cipher body content)
  | chunked (data : Bytes) (manifest : ChunkManifest)
      (holds : EcHolds P w.tree (ecAt fs bucket key) fs.chunk_size fs.parity_shards data manifest)
      (payload : Payload P cipher body data) (few : (dataChunks fs.chunk_size data).length < 2 ^ 32)

private theorem dir_of_holds {t : Disk} {q : OsPath} {size m : Nat} {data : Bytes} {manifest : ChunkManifest}
    (holds : EcHolds P t q size m data manifest) : t.isDir q = true :=
  Tree.isDir_iff.mpr (t.rooted q _ (by rw [holds.file]; simp))

/-- A whole read of a stored object gives its body. -/
theorem get_object_yields (sound : P.Sound) (accepted : Accepted bucket key) (shows' : Shows fs bucket key record w)
    (described : Described P fs bucket key record cipher ck body) (stored : Stored P fs bucket key cipher body w) :
    ∃ reader, fs.get_object P bucket key ck w = (.ok (reader,record),w) ∧
      Exactly (ObjectReader.poll_read P) reader body := by
  simp only [FilesystemStorage.get_object,accepted.bucket,accepted.key,Prog.lift_ok_bind]
  rw [Prog.bind_of_ok (read_object_meta_ok accepted shows')]
  simp only [described.accepts,Prog.lift_ok_bind]
  rw [Prog.bind_of_ok (is_chunked_path_eq accepted)]
  cases stored with
  | chunked data manifest holds payload few =>
    rw [dir_of_holds holds,if_pos rfl]
    obtain ⟨reader,opened,yields⟩ := open_chunked_yields (.NotFound key) sound fs.chunk_size_pos described
      payload accepted.ec_leads holds few
    rw [show manifest_path fs.buckets_dir bucket key = join (ec_dir fs.buckets_dir bucket key) "manifest.json" from rfl,
      Prog.bind_of_ok opened]
    exact ⟨reader,rfl,yields⟩
  | flat content named free file payload =>
    have flat : w.tree.isDir (ecAt fs bucket key) = false := by
      rw [Bool.eq_false_iff]
      exact fun dir => free (Tree.isDir_iff.mp dir)
    rw [flat,if_neg (by simp)]
    cases cipher with
    | none =>
      rw [(described.plain rfl).1]
      simp only
      rw [Prog.bind_of_ok (open_file_ok _ (accepted.object_leads named) file 0)]
      cases payload
      split
      · exact ⟨_,rfl,ObjectReader.yields_in_memory _⟩
      · refine ⟨_,rfl,Yields.wrap ObjectReader.file ObjectReader.poll_file ?_⟩
        simpa using FileReader.yields (ε := IoError) ⟨body,0,P.file_grant⟩
    | some c =>
      obtain ⟨enc,has,_⟩ := described.encrypted c rfl
      rw [has]
      obtain ⟨reader,opened,yields⟩ := open_encrypted_file_yields (.NotFound key) sound described has
        payload (accepted.object_leads named) file
      simp only
      rw [Prog.bind_of_ok opened]
      exact ⟨reader,rfl,yields⟩

private theorem range_slice {α : Type} (data : List α) (offset length : Nat) (within : offset + length ≤ data.length) :
    ((data.drop offset).take length).length = length := by
  rw [List.length_take,List.length_drop]
  omega

theorem ciphertext_start_le {offset length : Nat} (within : offset + length ≤ body.length) :
    offset / FRAME_CHUNK_SIZE * (FRAME_CHUNK_SIZE + FRAME_OVERHEAD) ≤ cipherLength FRAME_CHUNK_SIZE body.length := by
  have floor := Nat.div_mul_le_self offset FRAME_CHUNK_SIZE
  have count : offset / FRAME_CHUNK_SIZE ≤ (body.length + FRAME_CHUNK_SIZE - 1) / FRAME_CHUNK_SIZE :=
    Nat.div_le_div_right (by have := frame_chunk_pos; omega)
  have := Nat.mul_le_mul_left FRAME_OVERHEAD count
  rw [Nat.mul_add,Nat.mul_comm _ FRAME_OVERHEAD,cipherLength]
  omega

/-- A range read of a stored object gives that part of its body. -/
theorem get_object_range_yields (sound : P.Sound) (accepted : Accepted bucket key)
    (shows' : Shows fs bucket key record w) (described : Described P fs bucket key record cipher ck body)
    (stored : Stored P fs bucket key cipher body w) (offset length : Nat) (within : offset + length ≤ body.length) :
    ∃ reader, fs.get_object_range P bucket key offset length ck w = (.ok (reader,record),w) ∧
      Exactly (ObjectReader.poll_read P) reader ((body.drop offset).take length) := by
  simp only [FilesystemStorage.get_object_range,accepted.bucket,accepted.key,Prog.lift_ok_bind]
  rw [Prog.bind_of_ok (read_object_meta_ok accepted shows')]
  simp only [described.accepts,Prog.lift_ok_bind]
  rw [Prog.bind_of_ok (is_chunked_path_eq accepted)]
  cases stored with
  | chunked data manifest holds payload few =>
    rw [dir_of_holds holds,if_pos rfl]
    have honest := holds.honest fs.chunk_size_pos accepted.ec_leads few
    rw [show manifest_path fs.buckets_dir bucket key = join (ec_dir fs.buckets_dir bucket key) "manifest.json" from rfl,
      Prog.bind_of_ok (read_manifest_ok _ accepted.ec_leads holds.file),Prog.ask_bind_apply]
    cases cipher with
    | none =>
      cases payload
      rw [(described.plain rfl).1]
      have owes := VerifiedChunkReader.owes_with_range honest offset length within
      obtain ⟨r,ready,yields⟩ := preflight_reader honest owes (range_idle _ _ _ _ _)
      simp only [FilesystemStorage.preflight_chunk_reader,ready,Except.mapError,Prog.lift_ok_bind]
      exact ⟨_,rfl,Yields.wrap ObjectReader.chunks ObjectReader.poll_chunks yields⟩
    | some c =>
      obtain ⟨enc,has,chunk,dek,aad,eight⟩ := described.encrypted c rfl
      obtain ⟨frames,sealed,rfl⟩ := payload
      rw [has]
      simp only [dek,Prog.lift_ok_bind,chunk,described.size,← aad,FrameDecryptor.ciphertext_offset]
      have total := length_frames sound eight sealed
      have start := ciphertext_start_le within
      rw [← total] at start
      have size : manifest.total_size = frames.flatten.length := holds.total
      have owes := VerifiedChunkReader.owes_with_range honest
        (offset / FRAME_CHUNK_SIZE * (FRAME_CHUNK_SIZE + FRAME_OVERHEAD))
        (manifest.total_size - offset / FRAME_CHUNK_SIZE * (FRAME_CHUNK_SIZE + FRAME_OVERHEAD)) (by omega)
      obtain ⟨r,ready,yields⟩ := preflight_reader honest owes (range_idle _ _ _ _ _)
      simp only [FilesystemStorage.preflight_chunk_reader,ready,Except.mapError,Prog.lift_ok_bind]
      rw [List.take_of_length_le (by rw [List.length_drop]; omega)] at yields
      exact ⟨_,rfl,Yields.wrap ObjectReader.decrypted_chunks ObjectReader.poll_decrypted_chunks
        (FrameDecryptor.yields_for_range (sealed_honest sound eight sealed _)
          (VerifiedChunkReader.poll_read_fits P) yields offset length rfl)⟩
  | flat content named free file payload =>
    have flat : w.tree.isDir (ecAt fs bucket key) = false := by
      rw [Bool.eq_false_iff]
      exact fun dir => free (Tree.isDir_iff.mp dir)
    rw [flat,if_neg (by simp)]
    cases cipher with
    | none =>
      rw [(described.plain rfl).1]
      simp only
      rw [Prog.bind_of_ok (open_file_ok _ (accepted.object_leads named) file offset)]
      cases payload
      split
      · have whole := range_slice body offset length within
        have exact' : FilesystemStorage.read_exact ⟨body,offset,P.file_grant⟩ length =
            .ok ((body.drop offset).take length) := by
          unfold FilesystemStorage.read_exact
          simp only
          rw [if_neg (by rw [whole]; omega)]
        simp only [exact',Prog.lift_ok_bind]
        exact ⟨_,rfl,ObjectReader.yields_in_memory _⟩
      · refine ⟨_,rfl,Yields.wrap ObjectReader.limited ObjectReader.poll_limited ?_⟩
        exact Take.yields (FileReader.yields (ε := IoError) ⟨body,offset,P.file_grant⟩) FileReader.poll_read_fits
          length
    | some c =>
      obtain ⟨enc,has,chunk,dek,aad,eight⟩ := described.encrypted c rfl
      obtain ⟨frames,sealed,rfl⟩ := payload
      rw [has]
      simp only [dek,Prog.lift_ok_bind,chunk,described.size,← aad,FrameDecryptor.ciphertext_offset]
      rw [Prog.bind_of_ok (open_file_ok _ (accepted.object_leads named) file _)]
      refine ⟨_,rfl,Yields.wrap ObjectReader.decrypted_file ObjectReader.poll_decrypted_file ?_⟩
      exact FrameDecryptor.yields_for_range (sealed_honest sound eight sealed _) FileReader.poll_read_fits
        (FileReader.yields (ε := IoError) ⟨frames.flatten,_,P.file_grant⟩) offset length rfl

/-- The same directory, with chunks that a `u32` cannot count. -/
theorem get_object_short (sound : P.Sound) (accepted : Accepted bucket key) (shows' : Shows fs bucket key record w)
    (described : Described P fs bucket key record cipher ck body) {data : Bytes} {manifest : ChunkManifest}
    (holds : EcHolds P w.tree (ecAt fs bucket key) fs.chunk_size fs.parity_shards data manifest)
    (payload : Payload P cipher body data) (many : 2 ^ 32 ≤ (dataChunks fs.chunk_size data).length)
    {reader : ObjectReader} {record' : ObjectMeta} {w' : World}
    (done : fs.get_object P bucket key ck w = (.ok (reader,record'),w')) :
    ∃ n, n < body.length ∧ AtMost (ObjectReader.poll_read P) reader n := by
  simp only [FilesystemStorage.get_object,accepted.bucket,accepted.key,Prog.lift_ok_bind] at done
  rw [Prog.bind_of_ok (read_object_meta_ok accepted shows')] at done
  simp only [described.accepts,Prog.lift_ok_bind] at done
  rw [Prog.bind_of_ok (is_chunked_path_eq accepted),dir_of_holds holds,if_pos rfl,Prog.bind_ok_iff] at done
  obtain ⟨opened,_,first,second⟩ := done
  rw [pure_ok_iff] at second
  obtain ⟨same,_⟩ := second
  cases same
  exact open_chunked_short _ sound fs.chunk_size_pos described payload accepted.ec_leads holds many first

end Reading
end Maxio
