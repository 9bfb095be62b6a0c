import Maxio.Damage
import Maxio.PutSeals

/-!
Encrypted objects whose payload file was replaced: reads give bytes of the object from where they start, as far as they
get, and never anything else.
-/

set_option linter.unusedSimpArgs false

namespace Maxio
open FileTree (Node Tree)
open Reading
open FrameDecryptor (Stream openFrame)

/-! ### Sequences of puts -/

/-- One call of `put_object`. -/
structure PutCall where
  draws : Draws
  bucket : String
  key : String
  content_type : String
  body : ByteStream
  checksum : ChecksumRequest
  encryption : Option EncryptionRequest
  declared_size : Option Nat

namespace PutCall

def run (P : Primitives) (fs : FilesystemStorage) (call : PutCall) : Action PutResult :=
  fs.put_object P call.draws call.bucket call.key call.content_type call.body call.checksum call.encryption
    call.declared_size

/-- The customer key sent along. -/
def customer_key (call : PutCall) : Option Bytes := call.encryption.bind EncryptionRequest.customer_key

/-- An encryption the call can make. -/
def Makes (P : Primitives) (fs : FilesystemStorage) (call : PutCall) (s : Sealing) : Prop :=
  ∃ version_id, PutSeals P fs call.draws call.bucket call.key call.encryption
    (fs.wrap_upload_reader call.draws call.body).body version_id s

end PutCall

/-- The state after a sequence of puts, whether or not they succeed. -/
def after_puts (P : Primitives) (fs : FilesystemStorage) : List PutCall → World → World
  | [],w => w
  | call :: rest,w => after_puts P fs rest (call.run P fs w).2

/-- Every put draws a data key that no other put draws, that wraps no data key and that was not in use before. -/
structure FreshKeys (fs : FilesystemStorage) (calls : List PutCall) (old : List Sealing) : Prop where
  distinct : (calls.map fun call => call.draws.dek).Nodup
  unused : ∀ call ∈ calls, ∀ s ∈ old, s.key ≠ call.draws.dek
  wrapless : ∀ call ∈ calls, ∀ other ∈ calls, ¬ WrapsWith fs other.customer_key call.draws.dek

section Puts
variable {P : Primitives} {fs : FilesystemStorage}

theorem after_puts_append (front back : List PutCall) (w : World) :
    after_puts P fs (front ++ back) w = after_puts P fs back (after_puts P fs front w) := by
  induction front generalizing w with
  | nil => rfl
  | cons call rest ih => exact ih _

theorem PutCall.run_seals (fs : FilesystemStorage) (sound : P.Sound) (call : PutCall) :
    SealsAs (PutSeals P fs call.draws call.bucket call.key call.encryption
      (fs.wrap_upload_reader call.draws call.body).body) (call.run P fs) :=
  put_object_seals sound call.content_type call.body call.checksum call.encryption call.declared_size

/-- Every recorded encryption was there before or was made by one of the puts. -/
theorem after_puts_sealings (sound : P.Sound) (calls : List PutCall) (w : World) {s : Sealing}
    (member : s ∈ (after_puts P fs calls w).sealings) : s ∈ w.sealings ∨ ∃ call ∈ calls, call.Makes P fs s := by
  induction calls generalizing w with
  | nil => exact .inl member
  | cons call rest ih =>
    rcases ih _ member with before | ⟨other,listed,made⟩
    · obtain ⟨version_id,adds⟩ := call.run_seals fs sound w
      rcases adds.mem before with made | old
      · exact .inr ⟨call,by simp,version_id,made⟩
      · exact .inl old
    · exact .inr ⟨other,by simp [listed],made⟩

theorem make_frame_nonce_drawn {draws : Draws} {aad : Nat → Bytes} {i : Nat} {message : Bytes} {s : Sealing}
    (issued : Issued (drawnCipher draws aad) i message s) :
    i < 2 ^ 32 ∧ s = ⟨true,draws.dek, draws.nonce_prefix ++ le_bytes 4 i,aad i,message⟩ := by
  obtain ⟨nonce,made,rfl⟩ := issued
  obtain ⟨rfl,small⟩ := make_frame_nonce_ok draws.prefix_length made
  exact ⟨small,rfl⟩

/-- Under the data key of a put no other put encrypts. -/
theorem FreshKeys.own {earlier later : List PutCall} {call : PutCall} {old : List Sealing}
    (fresh : FreshKeys fs (earlier ++ call :: later) old) {other : PutCall} (listed : other ∈ earlier ++ later)
    {s : Sealing} (made : other.Makes P fs s) : s.key ≠ call.draws.dek := by
  intro key
  have member : call ∈ earlier ++ call :: later := by simp
  have listed' : other ∈ earlier ++ call :: later := by
    rw [List.mem_append,List.mem_cons]
    exact (List.mem_append.mp listed).imp_right .inr
  obtain ⟨version_id,⟨_,wraps⟩ | ⟨i,message,_,issued⟩⟩ := made
  · rw [key] at wraps
    exact fresh.wrapless call member other listed' wraps
  · obtain ⟨_,rfl⟩ := make_frame_nonce_drawn issued
    have distinct := fresh.distinct
    rw [List.map_append,List.map_cons,List.nodup_middle,List.nodup_cons,← List.map_append] at distinct
    exact distinct.1 (List.mem_map.mpr ⟨other,listed,key⟩)

end Puts

/-! ### Reading a replaced payload -/

/-- What AES-GCM promises about one key: a frame anywhere in the file that opens under the key was made by an encryption
    on record, with the same nonce and additional data. -/
def NoForgery (P : Primitives) (key : Bytes) (log : List Sealing) (file : Bytes) : Prop :=
  ∀ nonce aad sealed message, nonce ++ sealed <:+: file → P.decrypt key nonce aad sealed = some message →
    ∃ s ∈ log, s.key = key ∧ s.nonce = nonce ∧ s.aad = aad ∧ P.encrypt key nonce aad s.message = some sealed

/-- Read to its end or to an error, with buffers of any positive capacities, the stream gives these bytes from the start
    on, as far as it gets. -/
def ReadsWithin (P : Primitives) (reader : ObjectReader) (out : Bytes) : Prop :=
  ∀ caps : Nat → Nat, (∀ n, 0 < caps n) → ∀ turns, out.length < turns →
    ∃ emitted e, read_to_end (ObjectReader.poll_read P) caps turns 0 reader = some (emitted,e) ∧ emitted <+: out

/-- Every whole or range read that starts gives only bytes of the body it asks for. -/
def GivesOnly (P : Primitives) (fs : FilesystemStorage) (bucket key : String) (ck : Option Bytes) (body : Bytes)
    (w : World) : Prop :=
  (∀ reader record w', fs.get_object P bucket key ck w = (.ok (reader,record),w') → ReadsWithin P reader body) ∧
    ∀ offset length reader record w', fs.get_object_range P bucket key offset length ck w = (.ok (reader,record),w') →
      ReadsWithin P reader ((body.drop offset).take length)

theorem readsWithin_of_yields {P : Primitives} {reader : ObjectReader} {out : Bytes} {mayFail mayStop : Prop}
    (yields : Yields (ObjectReader.poll_read P) mayFail mayStop reader out) : ReadsWithin P reader out := by
  intro caps positive turns enough
  obtain ⟨emitted,e,ran,within,_⟩ := yields.read caps positive turns 0 enough
  exact ⟨emitted,e,ran,within⟩

section Frames
variable {P : Primitives} {cipher : FrameCipher} {body bytes : Bytes} {frames : List Bytes}

theorem build_frame_aad_index (injective : Function.Injective P.sha256) {bucket key : String} {version_id : Option String}
    {i j : Nat} (same : build_frame_aad P bucket key version_id i = build_frame_aad P bucket key version_id j) :
    i % 2 ^ 64 = j % 2 ^ 64 := by
  have text := injective same
  rw [List.append_right_inj] at text
  have counted := congrArg from_le_bytes text
  rw [from_le_bytes_le_bytes,from_le_bytes_le_bytes] at counted
  simpa using counted

theorem openFrame_ok {key : Bytes} {aad : Nat → Bytes} {i : Nat} {frame p : Bytes}
    (opened : openFrame P key aad i frame = .ok p) :
    P.decrypt key (frame.take 12) (aad i) (frame.drop 12) = some p := by
  unfold openFrame at opened
  split at opened
  · cases opened
  · split at opened
    · cases opened
    · split at opened
      next plaintext decrypted =>
        injection opened with opened
        rw [decrypted,opened]
      next => cases opened

/-- A file put in place of the frames of a body opens, frame by frame, to that body or not at all: what opens as frame
    `i` was encrypted as frame `i`, since the additional data holds the index. -/
theorem replaced_honest (sound : P.Sound) (eight : cipher.nonce_prefix.length = 8)
    (sealed : Sealed P cipher (Chunking.pieces FRAME_CHUNK_SIZE body) frames)
    (counts : ∀ i j, i < 2 ^ 32 → j < 2 ^ 32 → cipher.aad i = cipher.aad j → i = j) {log : List Sealing}
    (own : ∀ s ∈ log, s.key = cipher.key → FrameOf cipher body s) (authentic : NoForgery P cipher.key log bytes)
    (start : Nat) :
    Stream.Honest P ⟨cipher.key,cipher.aad,FRAME_CHUNK_SIZE,body,start,
      bytes.drop (start * (FRAME_CHUNK_SIZE + FRAME_OVERHEAD))⟩ True True := by
  refine ⟨frame_chunk_pos,?_,fun _ _ _ _ _ _ => trivial,fun _ _ _ _ => ⟨trivial,trivial⟩⟩
  intro i p _ inside _ opened
  have here : (Chunking.pieces FRAME_CHUNK_SIZE body)[i]? = some (pieceOf FRAME_CHUNK_SIZE body i) := by
    rw [Chunking.getElem?_pieces frame_chunk_pos,if_pos inside]
    rfl
  have small : i < 2 ^ 32 := by
    have within : i < frames.length := by
      rw [sealed.length]
      exact (List.getElem?_eq_some_iff.mp here).1
    have made := sealed.frame i _ _ here (List.getElem?_eq_getElem within)
    unfold sealFrame at made
    split at made
    next nonce spelled => exact (make_frame_nonce_ok eight spelled).2
    next => cases made
  have decrypted := openFrame_ok opened
  have part : (Stream.frame ⟨cipher.key,cipher.aad,FRAME_CHUNK_SIZE,body,start,
      bytes.drop (start * (FRAME_CHUNK_SIZE + FRAME_OVERHEAD))⟩ i) <:+: bytes :=
    ((List.take_prefix _ _).isInfix.trans (List.drop_suffix _ _).isInfix).trans (List.drop_suffix _ _).isInfix
  obtain ⟨s,member,key,_,aad,encrypted⟩ := authentic _ _ _ _ (by rw [List.take_append_drop]; exact part) decrypted
  have message : p = s.message := by
    have again := sound.aead _ _ _ _ _ encrypted
    rw [decrypted] at again
    exact Option.some.inj again
  obtain ⟨j,message',there,nonce,made,rfl⟩ := own s member key
  obtain rfl : j = i := counts j i (make_frame_nonce_ok eight made).2 small aad
  rw [here] at there
  rw [message]
  exact (Option.some.inj there).symm

end Frames

/-! ### The object as it was put -/

section Stored
variable {P : Primitives} {fs : FilesystemStorage} {bucket key : String} {draws : Draws} {w w' : World}

/-- The encryption metadata of a stored object is what was prepared for it, with the MAC filled in. -/
theorem store_flat_encryption {content_type : String} {body : ByteStream} {checksum : ChecksumRequest}
    {version_id : Option String} {enc : EncryptionMeta} {cipher : FrameCipher} {record : ObjectMeta}
    (done : fs.store_flat P draws bucket key content_type body checksum version_id (some (enc,cipher)) w =
      (.ok record,w')) : ∃ mac, record.encryption = some { enc with sidecar_mac := mac } := by
  simp only [FilesystemStorage.store_flat,Common.with_guard,Prog.bind_ok_iff,Prog.guarded_ok_iff,pure_ok_iff] at done
  obtain ⟨_,_,_,_,_,_,_,_,_,_,_,_,_,_,_,lock,_,_,_,_,_,rfl,_⟩ := done
  cases lock <;> exact ⟨_,rfl⟩

/-- What an encrypted put in the flat layout leaves behind, and what it encrypted. -/
structure PutSealed (P : Primitives) (fs : FilesystemStorage) (draws : Draws) (bucket key : String)
    (req : EncryptionRequest) (body : Bytes) (version_id : Option String) (record : ObjectMeta) (w w' : World) : Prop where
  accepted : Accepted bucket key
  written : Written P fs bucket key version_id (some (drawnCipher draws (build_frame_aad P bucket key version_id)))
    req.customer_key body false record w'
  prepared : ∃ enc mac w₁ w₂, fs.prepare_encryption P draws req w₁ = (.ok enc,w₂) ∧
    record.encryption = some { enc with sidecar_mac := mac }
  sealed : Adds (PutSeals P fs draws bucket key (some req) body version_id) w w'

theorem put_object_flat_sealed (sound : P.Sound) {content_type : String} {body : ByteStream} {checksum : ChecksumRequest}
    {req : EncryptionRequest} {declared_size : Option Nat} {result : PutResult} (file : ends_with key "/" = false)
    (flat : coded fs bucket w = false)
    (done : fs.put_object P draws bucket key content_type body checksum (some req) declared_size w = (.ok result,w')) :
    ∃ record, PutSealed P fs draws bucket key req body.body (versionId fs draws bucket w) record w w' := by
  simp only [FilesystemStorage.put_object,Prog.bind_ok_iff,lift_ok_iff] at done
  obtain ⟨_,_,⟨valid,same₁⟩,_,_,⟨valid',same₂⟩,_,_,unlocked,_,_,⟨_,same₃⟩,done⟩ := done
  have accepted : Accepted bucket key := ⟨valid,valid'⟩
  rw [same₂,same₁] at unlocked
  rw [same₃,(FilesystemStorage.ensure_can_overwrite_quiet _ bucket key).state unlocked,if_neg (by simp [file]),
    Prog.bind_ok_iff] at done
  obtain ⟨answer,_,asked,done⟩ := done
  obtain ⟨rfl,same⟩ := effective_erasure_coding_done valid asked
  rw [same,if_neg (by simp [flat]),FilesystemStorage.put_object_flat,Prog.bind_of_ok (next_version_id_eq valid draws),
    ← versionId] at done
  have adds := store_sealed_flat_seals fs draws bucket key sound content_type (fs.wrap_upload_reader draws body) checksum
    (some req)
    (versionId fs draws bucket w) w
  rw [done] at adds
  simp only [FilesystemStorage.start_sealing,Prog.bind_ok_iff,pure_ok_iff] at done
  obtain ⟨_,_,⟨⟨enc,cipher⟩,w₁,started,rfl,rfl⟩,record,_,stored,finished⟩ := done
  obtain ⟨keyed,same⟩ := start_encryption_done sound started
  have drawn := start_encryption_drawn sound _ _ _ started
  obtain ⟨mac,encryption⟩ := store_flat_encryption stored
  obtain ⟨ended,written⟩ := store_flat_done sound accepted (fun none => by cases none)
    (fun enc' c' given => by cases given; exact keyed) stored
  have kept := (finish_put_done accepted written
    (write_version_frames accepted (@Written.dated _ _ _ _ _ _ _ _ _ _ _ w written) fun _ => id) finished).1
  obtain ⟨whole,_⟩ := wrap_upload_reader_whole ended
  rw [whole] at kept adds
  simp only [FilesystemStorage.start_encryption,Prog.bind_ok_iff,Prog.mapError_ok_iff,lift_ok_iff,pure_ok_iff,
    Prod.mk.injEq] at started
  obtain ⟨enc',w₂,prepared,_,_,_,_,_,_,⟨rfl,_⟩,_⟩ := started
  refine ⟨record,accepted,?_,⟨enc,mac,_,w₂,prepared,encryption⟩,adds⟩
  rw [← show cipher = _ from drawn]
  exact kept

/-- Whatever customer key a reader sends, the data key it gets is the one that was drawn. -/
theorem PutSealed.resolved (sound : P.Sound) {req : EncryptionRequest} {body : Bytes} {version_id : Option String}
    {record : ObjectMeta} (put : PutSealed P fs draws bucket key req body version_id record w w') {ck : Option Bytes}
    (faithful : ∀ k k', ck = some k → req.customer_key = some k' → P.md5 k = P.md5 k' → k = k') {enc : EncryptionMeta}
    (has : record.encryption = some enc) {dek : Bytes} (verified : fs.verified_dek P record enc ck = .ok dek) :
    dek = draws.dek := by
  obtain ⟨enc',mac,w₁,w₂,prepared,written⟩ := put.prepared
  rw [has] at written
  cases written
  obtain ⟨customer,mode,resolves⟩ := resolve_dek_prepared sound prepared
  have opened : fs.resolve_dek P enc' ck = .ok dek := by
    unfold FilesystemStorage.verified_dek at verified
    rcases resolved : fs.resolve_dek P enc' ck with e | found
    · rw [show fs.resolve_dek P { enc' with sidecar_mac := mac } ck = .error e from resolved] at verified
      cases verified
    · rw [show fs.resolve_dek P { enc' with sidecar_mac := mac } ck = .ok found from resolved] at verified
      simp only [bind,Except.bind] at verified
      split at verified
      · cases verified
      · exact congrArg _ (Except.ok.inj verified)
  -- a reader of an object under a customer key has to send a key of the stored digest
  have own : req.mode = .SseC → ck = req.customer_key := by
    intro sse
    obtain ⟨k',given,digest⟩ := customer sse
    unfold FilesystemStorage.resolve_dek at opened
    simp only [mode,sse,digest] at opened
    cases ck with
    | none => simp [FilesystemStorage.required,bind,Except.bind] at opened
    | some k =>
      simp only [FilesystemStorage.required,bind,Except.bind] at opened
      have same : P.b64_encode (P.md5 k) = P.b64_encode (P.md5 k') := by
        by_contra other
        simp [other] at opened
      have decoded := congrArg P.b64_decode same
      rw [sound.base64,sound.base64] at decoded
      rw [given,faithful k k' rfl given (Option.some.inj decoded)]
  rw [resolves ck own] at opened
  exact (Except.ok.inj opened).symm

/-- The metadata says how the object is to be read: its size and frame size, and the cipher's additional data. -/
theorem PutSealed.metadata {req : EncryptionRequest} {body : Bytes} {version_id : Option String} {record : ObjectMeta}
    (put : PutSealed P fs draws bucket key req body version_id record w w') :
    ∃ enc, record.encryption = some enc ∧ enc.chunk_size = FRAME_CHUNK_SIZE ∧ record.size = body.length ∧
      record.version_id = version_id := by
  obtain ⟨enc,has,chunk,_⟩ := put.written.landed.described.encrypted _ rfl
  exact ⟨enc,has,chunk,put.written.landed.described.size,put.written.version⟩

end Stored

/-! ### Reads -/

section Reads
variable {P : Primitives} {fs : FilesystemStorage} {bucket key : String} {draws : Draws} {req : EncryptionRequest}
  {body bytes : Bytes} {version_id : Option String} {record : ObjectMeta} {w₁ w₂ w : World} {ck : Option Bytes}

theorem file_yields (bytes : Bytes) (offset : Nat) :
    Yields (FileReader.poll_read : Poll _ IoError _) True False (⟨bytes,offset,P.file_grant⟩ : FileReader UInt8)
      (bytes.drop offset) :=
  (FileReader.yields (ε := IoError) ⟨bytes,offset,P.file_grant⟩).mono False.elim id

/-- The payload file was replaced; the sidecar is as the put left it and there are no chunks. -/
structure Replaced (fs : FilesystemStorage) (bucket key : String) (bytes : Bytes) (w w' : World) : Prop where
  intact : w'.tree.node (metaAt fs bucket key) = w.tree.node (metaAt fs bucket key)
  file : w'.tree.node (objectAt fs bucket key) = some (.file (.bytes bytes))
  flat : w'.tree.node (ecAt fs bucket key) ≠ some .dir

/-- Every read that starts decrypts the replaced file with the key that was drawn. -/
theorem PutSealed.gives_only (sound : P.Sound)
    (put : PutSealed P fs draws bucket key req body version_id record w₁ w₂) (replaced : Replaced fs bucket key bytes w₂ w)
    (faithful : ∀ k k', ck = some k → req.customer_key = some k' → P.md5 k = P.md5 k' → k = k')
    (honest : ∀ start, Stream.Honest P ⟨draws.dek,build_frame_aad P bucket key version_id,FRAME_CHUNK_SIZE,body,start,
      bytes.drop (start * (FRAME_CHUNK_SIZE + FRAME_OVERHEAD))⟩ True True) :
    GivesOnly P fs bucket key ck body w := by
  obtain ⟨enc,has,chunk,size,version⟩ := put.metadata
  have shown : Shows fs bucket key record w := replaced.intact.trans put.written.landed.shows'
  have named : ends_with key "/" = true ∨ skipped (leaf key) = false := by
    cases put.written.landed.lies with
    | flat content named file payload => exact named
  have leads := (put.accepted.object_leads named : Leads (object_path fs.buckets_dir bucket key) _ _)
  have accepts : reject_sse_c_on_plaintext record ck.isSome = .ok () := by simp [reject_sse_c_on_plaintext,has]
  have unchunked : w.tree.isDir (ecAt fs bucket key) = false := by
    rw [Bool.eq_false_iff]
    exact fun dir => replaced.flat (Tree.isDir_iff.mp dir)
  constructor
  · intro reader record' w' done
    simp only [FilesystemStorage.get_object,put.accepted.bucket,put.accepted.key,Prog.lift_ok_bind] at done
    rw [Prog.bind_of_ok (read_object_meta_ok put.accepted shown),accepts,Prog.lift_ok_bind,
      Prog.bind_of_ok (is_chunked_path_eq put.accepted),unchunked,if_neg (by simp),has] at done
    simp only [FilesystemStorage.open_encrypted_file,Prog.bind_ok_iff,lift_ok_iff,pure_ok_iff,
      FilesystemStorage.preflight_frame_decryptor,except_mapError_ok] at done
    obtain ⟨_,_,⟨dek,_,⟨verified,rfl⟩,file,_,opened,d,_,⟨ready,_⟩,rfl,_⟩,⟨rfl,_⟩,_⟩ := done
    rw [open_file_ok _ leads replaced.file 0,Prod.mk.injEq,Except.ok.injEq] at opened
    obtain ⟨rfl,_⟩ := opened
    obtain rfl := put.resolved sound faithful has verified
    rw [size,chunk,version] at ready
    have stream := honest 0
    have yields := FrameDecryptor.yields_new stream FileReader.poll_read_fits
      (by simpa using file_yields (P := P) bytes 0) rfl ready
    exact readsWithin_of_yields (Yields.wrap ObjectReader.decrypted_file ObjectReader.poll_decrypted_file yields)
  · intro offset length reader record' w' done
    simp only [FilesystemStorage.get_object_range,put.accepted.bucket,put.accepted.key,Prog.lift_ok_bind] at done
    rw [Prog.bind_of_ok (read_object_meta_ok put.accepted shown),accepts,Prog.lift_ok_bind,
      Prog.bind_of_ok (is_chunked_path_eq put.accepted),unchunked,if_neg (by simp),has] at done
    simp only [Prog.bind_ok_iff,lift_ok_iff,pure_ok_iff] at done
    obtain ⟨dek,_,⟨verified,rfl⟩,file,_,opened,⟨rfl,_⟩,_⟩ := done
    rw [open_file_ok _ leads replaced.file,Prod.mk.injEq,Except.ok.injEq] at opened
    obtain ⟨rfl,_⟩ := opened
    obtain rfl := put.resolved sound faithful has verified
    rw [size,chunk,version]
    have yields := FrameDecryptor.yields_for_range (honest (offset / FRAME_CHUNK_SIZE)) FileReader.poll_read_fits
      (file_yields (P := P) bytes _) offset length rfl
    exact readsWithin_of_yields (Yields.wrap ObjectReader.decrypted_file ObjectReader.poll_decrypted_file yields)

end Reads

/-! ### Any store of encrypted objects -/

/-- Tamper evidence: after any sequence of puts with fresh data keys, whatever replaces the payload file of an object
    that one of them encrypted in the flat layout, reads give bytes of that object only, from where they start on. -/
theorem replaced_payload_gives_only {P : Primitives} {fs : FilesystemStorage} (sound : P.Sound)
    (injective : Function.Injective P.sha256) {earlier later : List PutCall} {call : PutCall} {req : EncryptionRequest}
    {result : PutResult} {w₀ w w' : World} {bytes : Bytes} {ck : Option Bytes}
    (fresh : FreshKeys fs (earlier ++ call :: later) w₀.sealings) (encrypted : call.encryption = some req)
    (file : ends_with call.key "/" = false) (flat : coded fs call.bucket (after_puts P fs earlier w₀) = false)
    (stored : call.run P fs (after_puts P fs earlier w₀) = (.ok result,w))
    (replaced : Replaced fs call.bucket call.key bytes w w')
    (authentic : NoForgery P call.draws.dek (after_puts P fs (earlier ++ call :: later) w₀).sealings bytes)
    (faithful : ∀ k k', ck = some k → call.customer_key = some k' → P.md5 k = P.md5 k' → k = k') :
    GivesOnly P fs call.bucket call.key ck call.body.body w' := by
  rw [PutCall.customer_key,encrypted] at faithful
  rw [PutCall.run,encrypted] at stored
  obtain ⟨record,put⟩ := put_object_flat_sealed sound file flat stored
  refine put.gives_only sound replaced faithful fun start => ?_
  have member : call ∈ earlier ++ call :: later := by simp
  -- whatever was encrypted under this data key is a frame of this object
  have own : ∀ s ∈ (after_puts P fs (earlier ++ call :: later) w₀).sealings, s.key = call.draws.dek →
      FrameOf (drawnCipher call.draws (build_frame_aad P call.bucket call.key
        (versionId fs call.draws call.bucket (after_puts P fs earlier w₀)))) call.body.body s := by
    intro s recorded key
    rw [after_puts_append,after_puts,PutCall.run,encrypted,stored] at recorded
    rcases after_puts_sealings sound later _ recorded with before | ⟨other,listed,made⟩
    · rcases put.sealed.mem before with (⟨_,wraps⟩ | frame) | older
      · rw [key] at wraps
        refine absurd ?_ (fresh.wrapless call member call member)
        rw [PutCall.customer_key,encrypted]
        exact wraps
      · exact frame
      · rcases after_puts_sealings sound earlier _ older with oldest | ⟨other,listed,made⟩
        · exact absurd key (fresh.unused call member s oldest)
        · exact absurd key (fresh.own (List.mem_append_left _ listed) made)
    · exact absurd key (fresh.own (List.mem_append_right _ listed) made)
  obtain ⟨frames,sealed⟩ : ∃ frames, Sealed P (drawnCipher call.draws (build_frame_aad P call.bucket call.key
      (versionId fs call.draws call.bucket (after_puts P fs earlier w₀))))
      (Chunking.pieces FRAME_CHUNK_SIZE call.body.body) frames := by
    cases put.written.landed.lies with
    | flat content named file payload =>
      obtain ⟨frames,sealed,_⟩ := payload
      exact ⟨frames,sealed⟩
  refine replaced_honest sound call.draws.prefix_length sealed (fun i j small small' same => ?_) own authentic start
  have counted := build_frame_aad_index injective same
  omega

namespace Sample

def master : Bytes := List.replicate 32 7
def data_key : Bytes := List.replicate 32 1
def wrap_nonce : Bytes := List.replicate 12 3
def frame_nonce : Bytes := List.replicate 8 2 ++ List.replicate 4 0

/-- The additional data of frame zero of `logs/a`, and of frame zero of parts 1 and 2 of the upload `u000000`: what is
    hashed, and its SHA-256 digest. -/
def identities : List (Bytes × Bytes) :=
  [(utf8 "logs" ++ [0] ++ utf8 "a" ++ [0] ++ [0] ++ List.replicate 8 0,
      [0xa5,0x22,0x85,0xbd,0x55,0xf2,0x0c,0x80,0x49,0xf9,0xd1,0x54,0x53,0xf7,0x45,0xe3,
        0x3f,0x11,0xf8,0x8c,0x0b,0x81,0xb3,0xe6,0x2c,0xe2,0x61,0x2a,0x9f,0x5e,0x3f,0x1c]),
    (utf8 "PART" ++ [0] ++ utf8 "u000000" ++ [0] ++ [1,0,0,0] ++ [0] ++ List.replicate 8 0,
      [0x0d,0xcf,0x76,0x5e,0x36,0x0b,0x1a,0x3c,0x72,0xb2,0xf8,0x96,0x72,0xea,0xc3,0x03,
        0xa2,0x0b,0x09,0x37,0xa7,0xdf,0x12,0x2c,0x6b,0x20,0xd9,0xd1,0x0c,0x92,0xe0,0x72]),
    (utf8 "PART" ++ [0] ++ utf8 "u000000" ++ [0] ++ [2,0,0,0] ++ [0] ++ List.replicate 8 0,
      [0x20,0x33,0x33,0x22,0x72,0x7f,0xa0,0x31,0x8b,0xbc,0x7a,0xc8,0xce,0x62,0x71,0xc9,
        0xd0,0x77,0xbc,0x27,0x52,0x8f,0x04,0x29,0x4a,0x28,0x09,0xc1,0x78,0xad,0xb6,0x44])]

def sha256 (data : Bytes) : Bytes := (identities.lookup data).getD (List.replicate 33 0 ++ data)

def frame_aad : Bytes := build_frame_aad { primitives with sha256 } "logs" "a" none 0
def part_aad (part_number : Nat) : Bytes := build_part_aad { primitives with sha256 } "u000000" part_number 0

def abd : Bytes := [0x61,0x62,0x64]

def wrapped : Bytes :=
  [0x24,0xff,0xa2,0x02,0x5b,0x29,0x5f,0x43,0x7b,0x41,0x42,0x5d,0xea,0x56,0xfe,0x0d,0xec,0x3d,0xe1,0xee,0xb5,0x94,0x95,0x71,
    0x2e,0xdf,0x86,0xb0,0xe2,0xe4,0x41,0xb9,0x76,0xef,0x7c,0xdf,0x0e,0xd1,0x74,0x6d,0xb3,0x09,0xff,0x2d,0xb1,0xc2,0xd4,0x3f]

def ciphertext : Bytes :=
  [0xd1,0xa6,0xf0,0xdc,0x4f,0x76,0x4d,0xbc,0x5c,0x34,0x74,0xa7,0x76,0xc0,0xfa,0x82,0x9f,0xf3,0x2e]

/-- AES-256-GCM of the data key under the master key `k1`, and of the frames. -/
def ciphertexts : List (Sealing × Bytes) :=
  [(⟨false,master,wrap_nonce,utf8 "k1",data_key⟩,wrapped),(⟨true,data_key,frame_nonce,frame_aad,abc⟩,ciphertext),
    (⟨true,data_key,frame_nonce,part_aad 1,abc⟩,
      [0xd1,0xa6,0xf0,0xbe,0x3e,0x47,0xfc,0xa3,0x5f,0x92,0x91,0x61,0x04,0xf6,0x88,0x56,0xb6,0x14,0x89]),
    (⟨true,data_key,frame_nonce,part_aad 2,abd⟩,
      [0xd1,0xa6,0xf7,0xf9,0xf7,0xac,0x86,0xf7,0x9a,0xea,0xfc,0x95,0xff,0xd4,0xf2,0x41,0x77,0x9c,0x1a])]

example : wrapped.length = data_key.length + 16 ∧ ciphertext.length = abc.length + 16 := by decide +kernel

/-- The encryption metadata of `logs/a`, before the MAC. -/
def sealed_meta : ObjectMeta :=
  new_object_meta "a" "text/plain" 3 (quoted "900150983cd24fb0d6963f7d28e17f72") "1970-01-01T00:00:00+00:00" none none none
    none (some {
      algorithm := "AES256", mode := .SseS3, key_id := some "k1", kms_key_id := none
      wrapped_dek := some "JP+iAlspX0N7QUJd6lb+Dew94e61lJVxLt+GsOLkQbl273zfDtF0bbMJ/y2xwtQ/"
      wrap_nonce := some "AwMDAwMDAwMDAwMD", customer_key_md5 := none, nonce_prefix := "AgICAgICAgI="
      chunk_size := 65536, sidecar_mac := "" })

def sealed_json : Bytes := utf8 ("\x7b\"content_type\":\"text/plain\",\"encryption\":\x7b\"algorithm\":\"AES256\"," ++
  "\"chunk_size\":65536,\"key_id\":\"k1\",\"mode\":\"sse_s3\",\"nonce_prefix\":\"AgICAgICAgI=\"," ++
  "\"sidecar_mac\":\"\",\"wrap_nonce\":\"AwMDAwMDAwMDAwMD\"," ++
  "\"wrapped_dek\":\"JP+iAlspX0N7QUJd6lb+Dew94e61lJVxLt+GsOLkQbl273zfDtF0bbMJ/y2xwtQ/\"\x7d," ++
  "\"etag\":\"\\\"900150983cd24fb0d6963f7d28e17f72\\\"\",\"key\":\"a\"," ++
  "\"last_modified\":\"1970-01-01T00:00:00+00:00\",\"size\":3\x7d")

/-- Its HMAC-SHA256 under the data key. -/
def sealed_mac : Bytes :=
  [0xb8,0x9f,0xc9,0xe6,0xf2,0x5b,0x29,0x47,0xe7,0x30,0x32,0x72,0x02,0x4d,0x2b,0x36,
    0x78,0x15,0x5b,0x37,0x59,0xe3,0x17,0x3f,0xd4,0xef,0xd9,0xa1,0x3d,0x51,0x03,0xcf]

/-- The base64 texts of what the metadata holds. -/
def base64_texts : List (Bytes × String) :=
  [(wrapped,"JP+iAlspX0N7QUJd6lb+Dew94e61lJVxLt+GsOLkQbl273zfDtF0bbMJ/y2xwtQ/"),(wrap_nonce,"AwMDAwMDAwMDAwMD"),
    (List.replicate 8 2,"AgICAgICAgI=")]

/-- Primitives with the true values of all that encrypting and reading `logs/a` and writing those parts computes.
    Elsewhere the digest keeps its input, and the tag of a ciphertext is zero. -/
def vault : Primitives := { primitives with
  md5 := fun data => if data = abd then
      [0x49,0x11,0xe5,0x16,0xe5,0xaa,0x21,0xd3,0x27,0x51,0x2e,0x0c,0x8b,0x19,0x76,0x16]
    else primitives.md5 data
  sha256 := sha256
  hmac_sha256 := fun key data => if key = data_key ∧ data = sealed_json then sealed_mac else resize (key ++ data) 32
  canonical_json := fun record => if record = sealed_meta then sealed_json else utf8 "\x7b\x7d"
  b64_encode := fun data => (base64_texts.lookup data).getD (hex_encode data)
  b64_decode := fun text => match base64_texts.find? fun entry => entry.2 = text with
    | some entry => some entry.1
    | none => hex_decode text
  encrypt := fun key nonce aad message =>
    match ciphertexts.find? fun e => (e.1.key,e.1.nonce,e.1.aad,e.1.message) = (key,nonce,aad,message) with
    | some e => some e.2
    | none => some (message ++ zero_tag)
  decrypt := fun key nonce aad sealed =>
    match ciphertexts.find? fun e => (e.1.key,e.1.nonce,e.1.aad,e.2) = (key,nonce,aad,sealed) with
    | some e => some e.1.message
    | none => if zero_tag <:+ sealed then some (sealed.take (sealed.length - 16)) else none }

theorem vault_sound : vault.Sound := by
  have consistent : Consistent ciphertexts := ⟨by decide +kernel,by decide +kernel,by decide +kernel⟩
  have readable : Readable base64_texts := ⟨by decide +kernel,by decide +kernel⟩
  have mac : ∀ key data, (vault.hmac_sha256 key data).length = 32 := by
    intro key data
    simp only [vault]
    split
    · rfl
    · exact primitives_sound.mac key data
  exact (tabled_sound mac consistent readable : (tabled vault ciphertexts base64_texts).Sound)

theorem lookup_mem {table : List (Bytes × Bytes)} {data digest : Bytes} (found : table.lookup data = some digest) :
    (data,digest) ∈ table := by
  obtain ⟨front,back,rfl,_⟩ := List.lookup_eq_some_iff.mp found
  simp

/-- A digest from a table of 32-byte values, elsewhere the data behind 33 zeros. -/
theorem padded_injective {table : List (Bytes × Bytes)} (short : ∀ e ∈ table, e.2.length = 32)
    (apart : ∀ e ∈ table, ∀ e' ∈ table, e.2 = e'.2 → e.1 = e'.1) :
    Function.Injective fun data => (table.lookup data).getD (List.replicate 33 0 ++ data) := by
  intro left right same
  simp only at same
  cases first : table.lookup left with
  | none =>
    cases second : table.lookup right with
    | none =>
      rw [first,second] at same
      exact List.append_cancel_left same
    | some digest =>
      have length := short _ (lookup_mem second)
      rw [first,second] at same
      simp [← show _ = digest from same] at length
  | some digest =>
    cases second : table.lookup right with
    | none =>
      have length := short _ (lookup_mem first)
      rw [first,second] at same
      simp [show digest = _ from same] at length
    | some digest' =>
      rw [first,second] at same
      exact apart _ (lookup_mem first) _ (lookup_mem second) same

theorem vault_sha256_injective : Function.Injective vault.sha256 :=
  padded_injective (by decide +kernel) (by decide +kernel)

theorem three_positive : 0 < 3 := by decide

/-- The flat layout. -/
def flat : FilesystemStorage := storage false 3 three_positive

def sealed_call : PutCall where
  draws := draws 0
  bucket := "logs"
  key := "a"
  content_type := "text/plain"
  body := stream abc abc_filled abc_fits
  checksum := none
  encryption := some .sse_s3
  declared_size := none

/-- The payload of `logs/a` with a byte appended. -/
def tampered : Bytes := frame_nonce ++ ciphertext ++ [0xff]

theorem tampered_authentic (log : List Sealing)
    (recorded : ⟨true,data_key,frame_nonce,frame_aad,abc⟩ ∈ log) :
    NoForgery vault data_key log tampered := by
  have own : ∀ e ∈ ciphertexts, e.1.key = data_key → e.2 <:+: tampered →
      e.1 = ⟨true,data_key,frame_nonce,frame_aad,abc⟩ := by decide +kernel
  intro nonce aad sealed message inside opened
  have part : sealed <:+: tampered := (List.suffix_append _ _).isInfix.trans inside
  simp only [vault] at opened
  split at opened
  next e found =>
    have listed := List.mem_of_find?_eq_some found
    have same := List.find?_some found
    simp only [decide_eq_true_eq,Prod.mk.injEq] at same
    obtain ⟨key,rfl,rfl,rfl⟩ := same
    have this := own e listed key part
    refine ⟨e.1,this ▸ recorded,key,rfl,rfl,?_⟩
    have sealed : ∀ e ∈ ciphertexts, vault.encrypt e.1.key e.1.nonce e.1.aad e.1.message = some e.2 := by decide +kernel
    rw [← key]
    exact sealed e listed
  next =>
    split at opened
    next ends => exact absurd (ends.isInfix.trans part) (by decide +kernel)
    next => cases opened

/-- The store after the put and the change to the payload file. -/
def tampered_world : World := (Fs.write ["data","logs","a"] (.bytes tampered) (sealed_call.run vault flat (world false)).2).2

/-- What the put and the change come to. The text under the MAC is spelled out first, so that its bytes are computed
    one by one. -/
theorem sealed_call_runs : (sealed_call.run vault flat (world false)).1.isOk = true ∧
    ⟨true,data_key,frame_nonce,frame_aad,abc⟩ ∈ (sealed_call.run vault flat (world false)).2.sealings ∧
    tampered_world.tree.node (metaAt flat "logs" "a") =
      (sealed_call.run vault flat (world false)).2.tree.node (metaAt flat "logs" "a") ∧
    tampered_world.tree.node (objectAt flat "logs" "a") = some (.file (.bytes tampered)) ∧
    tampered_world.tree.node (ecAt flat "logs" "a") ≠ some .dir := by
  rw [tampered_world,vault,sealed_json,utf8_append,utf8_append,utf8_append,utf8_append,utf8_append]
  repeat rw [utf8_ofList]
  decide +kernel

end Sample

theorem tampered_abc_gives_only :
    (Sample.sealed_call.run Sample.vault Sample.flat (Sample.world false)).1.isOk = true ∧
      GivesOnly Sample.vault Sample.flat "logs" "a" none Sample.abc Sample.tampered_world := by
  obtain ⟨ok,recorded,intact,file,single⟩ := Sample.sealed_call_runs
  refine ⟨ok,?_⟩
  obtain ⟨result,w,stored⟩ := Sample.isOk_spec ok
  have state : (Sample.sealed_call.run Sample.vault Sample.flat (Sample.world false)).2 = w := by rw [stored]
  have fresh : FreshKeys Sample.flat ([] ++ Sample.sealed_call :: []) (Sample.world false).sealings := by
    refine ⟨by simp,?_,?_⟩
    · intro call _ s old
      have nothing : (Sample.world false).sealings = [] := by decide +kernel
      rw [nothing] at old
      cases old
    · intro call listed other listed' wraps
      simp only [List.nil_append,List.mem_singleton] at listed listed'
      subst listed listed'
      rcases wraps with ⟨id,member⟩ | ⟨kms,configured,_⟩ | given
      · have keys : ∀ entry ∈ Sample.flat.keyring.keys, entry.2 ≠ Sample.sealed_call.draws.dek := by decide +kernel
        exact keys _ member rfl
      · cases configured
      · cases given
  have replaced : Replaced Sample.flat "logs" "a" Sample.tampered w Sample.tampered_world := by
    rw [← state]
    exact ⟨intact,file,single⟩
  exact @replaced_payload_gives_only Sample.vault Sample.flat Sample.vault_sound Sample.vault_sha256_injective [] []
    Sample.sealed_call .sse_s3 result (Sample.world false) w Sample.tampered_world Sample.tampered none fresh rfl
    (by decide +kernel) (by decide +kernel) stored replaced (Sample.tampered_authentic _ recorded) (fun _ _ none => by cases none)

end Maxio
