import Maxio.FrameFormat
import Maxio.PublishSpec
import Maxio.Versions

/-!
What the readers of a stored object hand over, from what its files hold.
-/

set_option linter.unusedSimpArgs false

namespace Maxio
open FileTree (Node Tree)
open Reading
open FrameDecryptor (Stream cipherLength)

section
variable {P : Primitives}

/-! ### The readers -/

namespace ObjectReader

theorem poll_cursor (f : FileReader UInt8) (cap : Nat) :
    poll_read P (.cursor f) cap = (f.poll_read cap).map fun r => (r.1,.cursor r.2) := rfl

theorem poll_file (f : FileReader UInt8) (cap : Nat) :
    poll_read P (.file f) cap = (f.poll_read cap).map fun r => (r.1,.file r.2) := rfl

theorem poll_limited (f : Take (FileReader UInt8)) (cap : Nat) :
    poll_read P (.limited f) cap = (Take.poll_read FileReader.poll_read f cap).map fun r => (r.1,.limited r.2) := by
  simp only [poll_read]
  rcases Take.poll_read FileReader.poll_read f cap with e | r <;> rfl

theorem poll_chunks (r : VerifiedChunkReader) (cap : Nat) :
    poll_read P (.chunks r) cap = (r.poll_read P cap).map fun r => (r.1,.chunks r.2) := by
  simp only [poll_read]
  rcases r.poll_read P cap with e | r <;> rfl

theorem poll_decrypted_file (d : FrameDecryptor (FileReader UInt8)) (cap : Nat) :
    poll_read P (.decrypted_file d) cap =
      (FrameDecryptor.poll_read P FileReader.poll_read d cap).map fun r => (r.1,.decrypted_file r.2) := by
  simp only [poll_read]
  rcases FrameDecryptor.poll_read P FileReader.poll_read d cap with e | r <;> rfl

theorem poll_decrypted_chunks (d : FrameDecryptor VerifiedChunkReader) (cap : Nat) :
    poll_read P (.decrypted_chunks d) cap =
      (FrameDecryptor.poll_read P (VerifiedChunkReader.poll_read P) d cap).map fun r => (r.1,.decrypted_chunks r.2) := by
  simp only [poll_read]
  rcases FrameDecryptor.poll_read P (VerifiedChunkReader.poll_read P) d cap with e | r <;> rfl

theorem yields_in_memory (data : Bytes) : Exactly (poll_read P) (in_memory data) data := by
  have inner := FileReader.yields (ε := IoError) ⟨data,0,fun _ => data.length⟩
  exact Yields.wrap cursor poll_cursor inner

end ObjectReader

/-! ### Payload and metadata -/

/-- The metadata fits the payload: it gives the size, and the key `ck` opens it. -/
structure Described (P : Primitives) (fs : FilesystemStorage) (bucket key : String) (record : ObjectMeta)
    (cipher : Option FrameCipher) (ck : Option Bytes) (body : Bytes) : Prop where
  size : record.size = body.length
  plain : cipher = none → record.encryption = none ∧ ck = none
  encrypted : ∀ c, cipher = some c → ∃ enc, record.encryption = some enc ∧ enc.chunk_size = FRAME_CHUNK_SIZE ∧
    fs.verified_dek P record enc ck = .ok c.key ∧ c.aad = build_frame_aad P bucket key record.version_id ∧
    c.nonce_prefix.length = 8

section Open
variable {fs : FilesystemStorage} {bucket key : String} {record : ObjectMeta} {cipher : Option FrameCipher}
  {ck : Option Bytes} {body content : Bytes} {path dir : OsPath} {name : String} (missing : StorageError) {w : World}

theorem Described.accepts (described : Described P fs bucket key record cipher ck body) :
    reject_sse_c_on_plaintext record ck.isSome = .ok () := by
  unfold reject_sse_c_on_plaintext
  cases cipher with
  | none => simp [(described.plain rfl).2]
  | some c =>
    obtain ⟨enc,has,_⟩ := described.encrypted c rfl
    simp [has]

theorem open_file_ok (leads : Leads path dir name) (file : w.tree.node (dir ++ [name]) = some (.file (.bytes content)))
    (offset : Nat) :
    FilesystemStorage.open_file P path missing offset w = (.ok ⟨content,offset,P.file_grant⟩,w) := by
  have read : (or_not_found missing (Fs.read path)) w = (.ok (.bytes content),w) :=
    Prog.mapError_ok_iff.mpr (Fs.read_file leads file)
  simp only [FilesystemStorage.open_file]
  rw [Prog.bind_of_ok read]
  rfl

theorem read_manifest_ok {manifest : ChunkManifest} (leads : Leads path dir name)
    (file : w.tree.node (dir ++ [name] ++ ["manifest.json"]) = some (.file (.json (.manifest manifest)))) :
    FilesystemStorage.read_manifest (join path "manifest.json") missing w = (.ok manifest,w) := by
  have read : (or_not_found missing (Fs.read (join path "manifest.json"))) w = (.ok (.json (.manifest manifest)),w) :=
    Prog.mapError_ok_iff.mpr (Fs.read_file leads.manifest file)
  simp only [FilesystemStorage.read_manifest]
  rw [Prog.bind_of_ok read]
  rfl

/-- The stream of a ciphertext that starts with frame zero. -/
theorem whole_stream (sound : P.Sound) {c : FrameCipher} {frames : List Bytes}
    (eight : c.nonce_prefix.length = 8) (sealed : Sealed P c (Chunking.pieces FRAME_CHUNK_SIZE body) frames) :
    Stream.Honest P ⟨c.key,c.aad,FRAME_CHUNK_SIZE,body,0,frames.flatten⟩ False False := by
  simpa using sealed_honest sound eight sealed 0

theorem open_encrypted_file_yields (sound : P.Sound) {c : FrameCipher} {enc : EncryptionMeta}
    (described : Described P fs bucket key record (some c) ck body) (has : record.encryption = some enc)
    (payload : Payload P (some c) body content) (leads : Leads path dir name)
    (file : w.tree.node (dir ++ [name]) = some (.file (.bytes content))) :
    ∃ reader, fs.open_encrypted_file P bucket key path missing record enc ck w = (.ok reader,w) ∧
      Exactly (ObjectReader.poll_read P) reader body := by
  obtain ⟨enc',has',chunk,dek,aad,eight⟩ := described.encrypted c rfl
  rw [has] at has'
  cases has'
  obtain ⟨frames,sealed,rfl⟩ := payload
  have honest := whole_stream sound eight sealed
  have inner : Yields (FileReader.poll_read : Poll _ IoError _) False False
      (⟨frames.flatten,0,P.file_grant⟩ : FileReader UInt8) frames.flatten := by
    simpa using FileReader.yields (ε := IoError) ⟨frames.flatten,0,P.file_grant⟩
  rcases ready : FrameDecryptor.preflight P FileReader.poll_read
      (.new (⟨frames.flatten,0,P.file_grant⟩ : FileReader UInt8) c.key body.length FRAME_CHUNK_SIZE c.aad) with e | d
  · have := FrameDecryptor.preflight_fails honest FileReader.poll_read_fits inner rfl ready
    exact absurd this (by simp)
  · refine ⟨.decrypted_file d,?_,?_⟩
    · simp only [FilesystemStorage.open_encrypted_file,dek]
      rw [Prog.lift_ok_bind,Prog.bind_of_ok (open_file_ok missing leads file 0),chunk,described.size,← aad]
      simp only [FilesystemStorage.preflight_frame_decryptor,ready,Except.mapError]
      rfl
    · exact Yields.wrap ObjectReader.decrypted_file ObjectReader.poll_decrypted_file
        (FrameDecryptor.yields_new honest FileReader.poll_read_fits inner rfl ready)

section Chunked
variable {data : Bytes} {manifest : ChunkManifest} {size m : Nat}

theorem preflight_reader (honest : VerifiedChunkReader.Source.Honest P ⟨w.tree,path,manifest⟩ data False)
    {r : VerifiedChunkReader} {out : Bytes} (owes : VerifiedChunkReader.Owes ⟨w.tree,path,manifest⟩ data r out)
    (idle : r.state ≠ .Serving) : ∃ r', r.preflight P = .ok r' ∧
      Yields (VerifiedChunkReader.poll_read P) False False r' out := by
  rcases ready : r.preflight P with e | r'
  · exact absurd (VerifiedChunkReader.preflight_fails honest owes ready) id
  · exact ⟨r',rfl,_,VerifiedChunkReader.delivers honest,VerifiedChunkReader.owes_preflight honest owes idle ready⟩

theorem new_idle (disk : Disk) (path : OsPath) (manifest : ChunkManifest) :
    (VerifiedChunkReader.new disk path manifest).state ≠ .Serving := by
  simp only [VerifiedChunkReader.new]
  split <;> simp

theorem range_idle (disk : Disk) (path : OsPath) (manifest : ChunkManifest) (offset length : Nat) :
    (VerifiedChunkReader.with_range disk path manifest offset length).state ≠ .Serving := by
  simp only [VerifiedChunkReader.with_range]
  split <;> simp

/-- Reading a directory whose chunks a `u32` can count gives the body. -/
theorem open_chunked_yields (sound : P.Sound) (positive : 0 < size)
    (described : Described P fs bucket key record cipher ck body) (payload : Payload P cipher body data)
    (leads : Leads path dir name) (holds : EcHolds P w.tree (dir ++ [name]) size m data manifest)
    (few : (dataChunks size data).length < 2 ^ 32) :
    ∃ reader, fs.open_chunked P bucket key path (join path "manifest.json") missing record ck w = (.ok reader,w) ∧
      Exactly (ObjectReader.poll_read P) reader body := by
  have honest := holds.honest positive leads few
  have owes := VerifiedChunkReader.owes_new honest
  obtain ⟨r,ready,yields⟩ := preflight_reader honest owes (new_idle _ _ _)
  simp only [FilesystemStorage.open_chunked]
  rw [Prog.bind_of_ok (read_manifest_ok missing leads holds.file),Prog.ask_bind_apply]
  simp only [FilesystemStorage.preflight_chunk_reader,ready,Except.mapError]
  cases cipher with
  | none =>
    rw [(described.plain rfl).1]
    cases payload
    exact ⟨.chunks r,rfl,Yields.wrap ObjectReader.chunks ObjectReader.poll_chunks yields⟩
  | some c =>
    obtain ⟨enc,has,chunk,dek,aad,eight⟩ := described.encrypted c rfl
    obtain ⟨frames,sealed,rfl⟩ := payload
    have stream := whole_stream sound eight sealed
    rw [has]
    simp only [dek,chunk,described.size,← aad]
    rcases ready' : FrameDecryptor.preflight P (VerifiedChunkReader.poll_read P)
        (.new r c.key body.length FRAME_CHUNK_SIZE c.aad) with e | d
    · have := FrameDecryptor.preflight_fails stream (VerifiedChunkReader.poll_read_fits P) yields rfl ready'
      exact absurd this (by simp)
    · refine ⟨.decrypted_chunks d,?_,?_⟩
      · simp only [Prog.lift_ok_bind,FilesystemStorage.preflight_frame_decryptor,ready',Except.mapError]
        rfl
      · exact Yields.wrap ObjectReader.decrypted_chunks ObjectReader.poll_decrypted_chunks
          (FrameDecryptor.yields_new stream (VerifiedChunkReader.poll_read_fits P) yields rfl ready')

/-- With more chunks than that, whatever reader comes back stops before the last byte. -/
theorem open_chunked_short (sound : P.Sound) (positive : 0 < size)
    (described : Described P fs bucket key record cipher ck body) (payload : Payload P cipher body data)
    (leads : Leads path dir name) (holds : EcHolds P w.tree (dir ++ [name]) size m data manifest)
    (many : 2 ^ 32 ≤ (dataChunks size data).length) {reader : ObjectReader} {w' : World}
    (done : fs.open_chunked P bucket key path (join path "manifest.json") missing record ck w = (.ok reader,w')) :
    ∃ n, n < body.length ∧ AtMost (ObjectReader.poll_read P) reader n := by
  obtain ⟨short,count,bound⟩ := holds.short_read positive many path
  have limits : Limits (VerifiedChunkReader.poll_read P) (VerifiedChunkReader.Caps ⟨w.tree,path,manifest⟩) :=
    VerifiedChunkReader.limits short
  have caps : VerifiedChunkReader.Caps ⟨w.tree,path,manifest⟩ (.new w.tree path manifest)
      (max manifest.chunk_count 1 * manifest.chunk_size) := VerifiedChunkReader.caps_new count
  have bounded : ∀ r, (VerifiedChunkReader.new w.tree path manifest).preflight P = .ok r →
      AtMost (VerifiedChunkReader.poll_read P) r (max manifest.chunk_count 1 * manifest.chunk_size) := by
    intro r ready
    refine ⟨_,limits,VerifiedChunkReader.caps_preflight short caps (fun _ => ?_) (new_idle _ _ _) ready⟩
    simp [VerifiedChunkReader.new]
  simp only [FilesystemStorage.open_chunked] at done
  rw [Prog.bind_of_ok (read_manifest_ok missing leads holds.file),Prog.ask_bind_apply] at done
  simp only [FilesystemStorage.preflight_chunk_reader,FilesystemStorage.preflight_frame_decryptor] at done
  cases cipher with
  | none =>
    rw [(described.plain rfl).1] at done
    simp only [Prog.bind_ok_iff,lift_ok_iff,pure_ok_iff,except_mapError_ok] at done
    obtain ⟨r,_,⟨ready,rfl⟩,rfl,_⟩ := done
    cases payload
    exact ⟨_,bound,AtMost.wrap ObjectReader.chunks ObjectReader.poll_chunks (bounded r ready)⟩
  | some c =>
    obtain ⟨enc,has,chunk,dek,aad,eight⟩ := described.encrypted c rfl
    obtain ⟨frames,sealed,rfl⟩ := payload
    rw [has] at done
    simp only [dek,chunk,described.size,← aad,Prog.lift_ok_bind,Prog.bind_ok_iff,lift_ok_iff,pure_ok_iff,
      except_mapError_ok] at done
    obtain ⟨r,_,⟨ready,rfl⟩,d,_,⟨opened,rfl⟩,rfl,_⟩ := done
    have within := bounded r ready
    rw [length_frames sound eight sealed] at bound
    have final := FrameDecryptor.atMost_new (P := P) sound.opened (VerifiedChunkReader.poll_read_fits P) within
      frame_chunk_pos bound opened
    refine ⟨body.length - 1,?_,AtMost.wrap ObjectReader.decrypted_chunks ObjectReader.poll_decrypted_chunks final⟩
    by_contra none
    have empty : body.length = 0 := by omega
    rw [empty,cipherLength] at bound
    simp only [Nat.zero_add,Nat.div_eq_of_lt (show FRAME_CHUNK_SIZE - 1 < FRAME_CHUNK_SIZE by decide)] at bound
    omega

end Chunked
end Open
end
end Maxio
