import Maxio.Bodies
import Maxio.CompletionSpec
import Maxio.Openings
import Maxio.Tamper
import Maxio.UploadRequests

/-!
Copying an object, or a range of it, into a part of an upload: the keys of both sides, and when every copy is served.
-/

set_option linter.unusedSimpArgs false

namespace Maxio
open Reading (AtMost Exactly FileReader Limits Poll Take Turn)

/-! ### The keys in the headers -/

def invalid_encryption_algorithm : S3Error :=
  .refused "The encryption request you specified is not valid. Supported value: AES256."

/-- The headers a customer's key comes in, and the answers to a bad one. -/
structure KeyHeaders where
  algorithm : String
  key : String
  missing : String
  no_base64 : String
  bad_length : String

section
variable (P : Primitives)

/-- The key in headers of these names, if there is an algorithm. -/
def KeyHeaders.extract (names : KeyHeaders) (headers : HeaderMap) : Except S3Error (Option Bytes) :=
  match (headers.get names.algorithm).bind to_str with
  | none => .ok none
  | some algo =>
    if algo ≠ "AES256".toList then .error invalid_encryption_algorithm
    else match (headers.get names.key).bind to_str with
      | none => .error (.invalid_argument names.missing)
      | some key_b64 => match P.b64_decode (String.ofList key_b64) with
        | none => .error (.invalid_argument names.no_base64)
        | some raw => if raw.length ≠ 32 then .error (.invalid_argument names.bad_length) else .ok (some raw)

/-- The key of the object a copy is made from. -/
def extract_copy_source_customer_key : HeaderMap → Except S3Error (Option Bytes) := KeyHeaders.extract P {
  algorithm := "x-amz-copy-source-server-side-encryption-customer-algorithm"
  key := "x-amz-copy-source-server-side-encryption-customer-key"
  missing := "missing x-amz-copy-source-server-side-encryption-customer-key"
  no_base64 := "invalid copy-source SSE-C key base64"
  bad_length := "copy-source SSE-C key must be 32 bytes" }

def extract_customer_key : HeaderMap → Except S3Error (Option Bytes) := KeyHeaders.extract P {
  algorithm := "x-amz-server-side-encryption-customer-algorithm"
  key := "x-amz-server-side-encryption-customer-key"
  missing := "missing x-amz-server-side-encryption-customer-key"
  no_base64 := "invalid SSE-C key base64"
  bad_length := "SSE-C key must be 32 bytes" }

/-- A key that is taken has 32 bytes. -/
theorem KeyHeaders.extract_length {names : KeyHeaders} {headers : HeaderMap} {key : Bytes}
    (taken : names.extract P headers = .ok (some key)) : key.length = 32 := by
  unfold extract at taken
  split at taken
  next => cases taken
  next =>
    split at taken
    next => cases taken
    next =>
      split at taken
      next => cases taken
      next =>
        split at taken
        next => cases taken
        next raw decoded =>
          by_cases long : raw.length = 32
          · rw [if_neg (by simp [long])] at taken
            cases taken
            exact long
          · rw [if_pos long] at taken
            cases taken

end

/-- An upload request with the keys in these headers. -/
def UploadMessage.with_keys (P : Primitives) (headers : HeaderMap) (message : UploadMessage) : UploadMessage :=
  { message with customer_key := extract_customer_key P headers }

/-! ### How much a reader has left -/

namespace FrameDecryptor
variable {σ : Type} {P : Primitives} {poll : Poll σ IoError UInt8}

theorem update_frame_target_remaining (d : FrameDecryptor σ) : d.update_frame_target.remaining = d.remaining := by
  unfold update_frame_target
  dsimp only
  split
  · rfl
  · rfl

theorem open_frame_remaining {d d' : FrameDecryptor σ} (opened : d.open_frame P = .ok d') :
    d'.remaining = d.remaining := by
  unfold open_frame at opened
  split at opened
  next => cases opened
  next =>
    dsimp only at opened
    split at opened
    next => cases opened
    next =>
      split at opened
      next =>
        cases opened
        exact update_frame_target_remaining _
      next => cases opened

theorem fill_frame_remaining {d d' : FrameDecryptor σ} (filled : d.fill_frame poll = .again d') :
    d'.remaining = d.remaining := by
  unfold fill_frame at filled
  split at filled
  next => cases filled
  next =>
    split at filled
    next => cases filled
    next => cases filled
  next =>
    cases filled
    rfl

theorem at_most_remaining (d : FrameDecryptor σ) : AtMost (poll_read P poll) d d.remaining := by
  refine ⟨fun d n => d.remaining ≤ n,Reading.spin_limits ?_ ?_,le_refl _⟩
  · intro s s' n cap _ within more
    unfold turn at more
    dsimp only at more
    have kept : s'.remaining = s.skip.remaining := by
      split at more
      next => cases more
      next =>
        split at more
        next => cases more
        next =>
          split at more
          next =>
            split at more
            next next opened =>
              cases more
              exact open_frame_remaining opened
            next => cases more
          next => exact fill_frame_remaining more
    rw [kept,skip_remaining]
    exact within
  · intro s n cap piece s' _ within ended
    unfold turn at ended
    dsimp only at ended
    rw [← skip_remaining s] at within
    split at ended
    next =>
      simp only [Turn.ready.injEq,Except.ok.injEq,Prod.mk.injEq] at ended
      obtain ⟨rfl,rfl⟩ := ended
      have length : ((s.skip.out_buf.drop s.skip.out_pos).take (s.skip.available cap)).length = s.skip.available cap := by
        rw [List.length_take,List.length_drop,available]
        omega
      have few : s.skip.available cap ≤ s.skip.remaining := by
        rw [available]
        omega
      rw [length]
      exact ⟨few.trans within,Nat.sub_le_sub_right within _⟩
    next =>
      split at ended
      next =>
        simp only [Turn.ready.injEq,Except.ok.injEq,Prod.mk.injEq] at ended
        obtain ⟨rfl,rfl⟩ := ended
        exact ⟨Nat.zero_le _,within⟩
      next =>
        split at ended
        next =>
          split at ended
          next => cases ended
          next => cases ended
        next =>
          unfold fill_frame at ended
          split at ended
          next => cases ended
          next =>
            split at ended
            next =>
              simp only [Turn.ready.injEq,Except.ok.injEq,Prod.mk.injEq] at ended
              obtain ⟨rfl,rfl⟩ := ended
              exact ⟨Nat.zero_le _,within⟩
            next => cases ended
          next => cases ended

end FrameDecryptor

namespace VerifiedChunkReader
variable {P : Primitives}

theorem at_most_remaining (r : VerifiedChunkReader) : AtMost (poll_read P) r r.remaining := by
  refine ⟨fun r n => r.remaining ≤ n,Reading.spin_limits ?_ ?_,le_refl _⟩
  · intro s s' n cap _ within more
    unfold turn at more
    split at more
    next => cases more
    next =>
      split at more
      next => cases more
      next =>
        split at more
        next loaded load =>
          cases more
          rw [load_chunk_sync_eq] at load
          split at load
          next =>
            cases load
            exact within
          next => cases load
        next => cases more
    next =>
      dsimp only at more
      split at more
      next =>
        cases more
        exact within
      next => cases more
  · intro s n cap piece s' _ within ended
    unfold turn at ended
    split at ended
    next =>
      simp only [Turn.ready.injEq,Except.ok.injEq,Prod.mk.injEq] at ended
      obtain ⟨rfl,rfl⟩ := ended
      exact ⟨Nat.zero_le _,within⟩
    next =>
      split at ended
      next =>
        simp only [Turn.ready.injEq,Except.ok.injEq,Prod.mk.injEq] at ended
        obtain ⟨rfl,rfl⟩ := ended
        exact ⟨Nat.zero_le _,within⟩
      next =>
        split at ended
        next => cases ended
        next => cases ended
    next =>
      dsimp only at ended
      split at ended
      next => cases ended
      next =>
        simp only [Turn.ready.injEq,Except.ok.injEq,Prod.mk.injEq] at ended
        obtain ⟨rfl,rfl⟩ := ended
        rw [List.length_take]
        dsimp only
        omega

end VerifiedChunkReader

theorem file_at_most_rest (f : FileReader UInt8) :
    AtMost (FileReader.poll_read : Poll _ IoError _) f (f.data.length - f.pos) := by
  refine ⟨fun f n => f.data.length - f.pos ≤ n,?_,le_refl _⟩
  intro s n cap piece s' _ within polled
  simp only [FileReader.poll_read,Except.ok.injEq,Prod.mk.injEq] at polled
  obtain ⟨rfl,rfl⟩ := polled
  have short : ((s.data.drop s.pos).take (min cap (s.grant s.pos + 1))).length ≤ s.data.length - s.pos := by
    rw [List.length_take,List.length_drop]
    omega
  dsimp only
  omega

theorem take_at_most_limit (t : Take (FileReader UInt8)) :
    AtMost (Take.poll_read (FileReader.poll_read : Poll _ IoError _)) t t.limit := by
  refine ⟨fun t n => t.limit ≤ n,?_,le_refl _⟩
  intro s n cap piece s' _ within polled
  unfold Take.poll_read at polled
  split at polled
  next =>
    cases polled
    exact ⟨Nat.zero_le _,within⟩
  next =>
    split at polled
    next => cases polled
    next given =>
      cases polled
      have short := FileReader.poll_read_fits _ _ _ _ given
      dsimp only
      omega

namespace ObjectReader
variable {P : Primitives}

theorem at_most_left (reader : ObjectReader) : AtMost (poll_read P) reader reader.left := by
  cases reader with
  | cursor f => exact AtMost.wrap ObjectReader.cursor (fun _ _ => rfl) (file_at_most_rest f)
  | file f => exact AtMost.wrap ObjectReader.file poll_file (file_at_most_rest f)
  | limited t => exact AtMost.wrap ObjectReader.limited poll_limited (take_at_most_limit t)
  | chunks r => exact AtMost.wrap ObjectReader.chunks poll_chunks r.at_most_remaining
  | decrypted_file d => exact AtMost.wrap ObjectReader.decrypted_file poll_decrypted_file d.at_most_remaining
  | decrypted_chunks d => exact AtMost.wrap ObjectReader.decrypted_chunks poll_decrypted_chunks d.at_most_remaining

/-- An upload that is fed from a reader gets all that comes out of it. -/
theorem stream_exactly {reader : ObjectReader} {out : Bytes} (yields : Exactly (poll_read P) reader out) :
    (reader_stream P reader).failure = none ∧ (reader_stream P reader).body = out := by
  have enough : out.length ≤ reader.left := (readsOut_of_exactly yields).length_le reader.at_most_left
  obtain ⟨pieces,read,whole⟩ := read_pieces_exactly (show 0 < IO_BUFFER_SIZE by decide) (reader.left + 1) yields (by omega)
  simp only [reader_stream,ByteStream.body,read]
  exact ⟨trivial,whole⟩

/-- No more than that, of a reader that stops short. -/
theorem stream_at_most {reader : ObjectReader} {n : Nat} (bounded : AtMost (poll_read P) reader n) :
    (reader_stream P reader).body.length ≤ n := by
  have pieces : ∀ turns (reader : ObjectReader) n, AtMost (poll_read P) reader n →
      (read_pieces (poll_read P) IO_BUFFER_SIZE turns reader).1.flatten.length ≤ n := by
    intro turns
    induction turns with
    | zero => simp [read_pieces]
    | succ turns ih =>
      intro reader n bounded
      rw [read_pieces]
      rcases polled : poll_read P reader IO_BUFFER_SIZE with e | ⟨piece,reader'⟩
      · simp
      · cases piece with
        | nil => simp
        | cons b bs =>
          obtain ⟨short,next⟩ := bounded.step (by decide) polled
          have later := ih reader' _ next
          dsimp only
          rw [List.flatten_cons,List.length_append]
          omega
  exact pieces _ reader n bounded

end ObjectReader

/-! ### Keys that open the same object -/

/-- What the one key opens the other opens: a plain object is read without a key, and only under SSE-C does it matter
    which one is sent. -/
def OpensAlike (record : ObjectMeta) (key key' : Option Bytes) : Prop := match record.encryption with
  | none => key' = none
  | some enc => enc.mode = .SseC → key' = key

section Keys
variable {P : Primitives} {fs : FilesystemStorage} {bucket key : String} {record : ObjectMeta}
  {cipher : Option FrameCipher} {ck ck' : Option Bytes} {body : Bytes} {w w' : World}

theorem resolve_dek_any {enc : EncryptionMeta} (managed : enc.mode ≠ .SseC) :
    fs.resolve_dek P enc ck' = fs.resolve_dek P enc ck := by
  unfold FilesystemStorage.resolve_dek
  cases mode : enc.mode with
  | SseC => exact absurd mode managed
  | SseS3 => rfl
  | SseKms => rfl

/-- A customer's key that opens an object has the digest in its record. -/
theorem resolve_dek_digest {enc : EncryptionMeta} {dek : Bytes} {stored : String} (customer : enc.mode = .SseC)
    (digest : enc.customer_key_md5 = some stored) (resolved : fs.resolve_dek P enc ck = .ok dek) :
    ∃ k, ck = some k ∧ P.b64_encode (P.md5 k) = stored := by
  unfold FilesystemStorage.resolve_dek at resolved
  rw [customer,digest] at resolved
  cases ck with
  | none => cases resolved
  | some k =>
    refine ⟨k,rfl,?_⟩
    by_contra other
    simp only [FilesystemStorage.required,bind,Except.bind,ne_eq,other,not_false_eq_true,if_true] at resolved
    cases resolved

theorem verified_dek_resolves {enc : EncryptionMeta} {dek : Bytes} (verified : fs.verified_dek P record enc ck = .ok dek) :
    fs.resolve_dek P enc ck = .ok dek := by
  unfold FilesystemStorage.verified_dek at verified
  rcases resolved : fs.resolve_dek P enc ck with e | found
  · rw [resolved] at verified
    cases verified
  · rw [resolved] at verified
    simp only [bind,Except.bind] at verified
    split at verified
    next => cases verified
    next =>
      cases verified
      rfl

theorem Described.alike (described : Described P fs bucket key record cipher ck body)
    (alike : OpensAlike record ck ck') : Described P fs bucket key record cipher ck' body := by
  refine ⟨described.size,fun plain => ?_,fun c sealed => ?_⟩
  · obtain ⟨has,_⟩ := described.plain plain
    rw [OpensAlike,has] at alike
    exact ⟨has,alike⟩
  · obtain ⟨enc,has,chunk,verified,rest⟩ := described.encrypted c sealed
    refine ⟨enc,has,chunk,?_,rest⟩
    rw [OpensAlike,has] at alike
    by_cases customer : enc.mode = .SseC
    · rw [alike customer]
      exact verified
    · rw [FilesystemStorage.verified_dek,resolve_dek_any customer]
      exact verified

theorem Landed.alike {coded : Bool} (landed : Landed P fs bucket key record cipher ck body coded w)
    (alike : OpensAlike record ck ck') : Landed P fs bucket key record cipher ck' body coded w :=
  ⟨landed.shows',landed.described.alike alike,landed.lies⟩

theorem unkeyed_of_accepted (accepted : reject_sse_c_on_plaintext record ck.isSome = .ok ())
    (plain : record.encryption = none) : ck = none := by
  unfold reject_sse_c_on_plaintext at accepted
  rw [plain] at accepted
  cases ck with
  | none => rfl
  | some k => cases accepted

/-- The key was one for the object: none for a plain one, one that gives the data key for any other. -/
structure KeyServes (P : Primitives) (fs : FilesystemStorage) (record : ObjectMeta) (ck : Option Bytes) : Prop where
  plain : record.encryption = none → ck = none
  sealed : ∀ enc, record.encryption = some enc → ∃ dek, fs.verified_dek P record enc ck = .ok dek

theorem open_object_keyed {reader : ObjectReader}
    (opened : fs.open_object P bucket key record ck w = (.ok reader,w')) : KeyServes P fs record ck := by
  simp only [FilesystemStorage.open_object,Prog.bind_ok_iff,lift_ok_iff] at opened
  obtain ⟨_,_,⟨accepted,rfl⟩,chunked,_,_,opened⟩ := opened
  refine ⟨unkeyed_of_accepted accepted,fun enc has => ?_⟩
  split at opened
  next =>
    simp only [FilesystemStorage.open_chunked,Prog.bind_ok_iff,has] at opened
    obtain ⟨_,_,_,_,_,_,dek,_,verified,_⟩ := opened
    exact ⟨dek,(lift_ok_iff.mp verified).1⟩
  next =>
    simp only [has,FilesystemStorage.open_encrypted_file,Prog.bind_ok_iff] at opened
    obtain ⟨dek,_,verified,_⟩ := opened
    exact ⟨dek,(lift_ok_iff.mp verified).1⟩

theorem open_range_keyed {offset length : Nat} {reader : ObjectReader}
    (opened : fs.open_range P bucket key record offset length ck w = (.ok reader,w')) : KeyServes P fs record ck := by
  simp only [FilesystemStorage.open_range,Prog.bind_ok_iff,lift_ok_iff] at opened
  obtain ⟨_,_,⟨accepted,rfl⟩,chunked,_,_,opened⟩ := opened
  refine ⟨unkeyed_of_accepted accepted,fun enc has => ?_⟩
  split at opened
  next =>
    simp only [has,Prog.bind_ok_iff] at opened
    obtain ⟨_,_,_,_,_,_,dek,_,verified,_⟩ := opened
    exact ⟨dek,(lift_ok_iff.mp verified).1⟩
  next =>
    simp only [has,Prog.bind_ok_iff] at opened
    obtain ⟨dek,_,verified,_⟩ := opened
    exact ⟨dek,(lift_ok_iff.mp verified).1⟩

/-- Two keys for one object open alike, as long as they do not have one digest. -/
theorem opensAlike_of_keyed (sound : P.Sound) (described : Described P fs bucket key record cipher ck body)
    (digest : ∀ enc, record.encryption = some enc → enc.mode = .SseC → enc.customer_key_md5 ≠ none)
    (apart : ∀ k k', ck = some k → ck' = some k' → P.md5 k = P.md5 k' → k = k')
    (serves : KeyServes P fs record ck') : OpensAlike record ck ck' := by
  unfold OpensAlike
  cases has : record.encryption with
  | none => exact serves.plain has
  | some enc =>
    intro customer
    obtain ⟨dek',verified'⟩ := serves.sealed enc has
    obtain ⟨stored,kept⟩ := Option.ne_none_iff_exists'.mp (digest enc has customer)
    obtain ⟨k',rfl,same'⟩ := resolve_dek_digest customer kept (verified_dek_resolves verified')
    cases cipher with
    | none =>
      obtain ⟨none,_⟩ := described.plain rfl
      rw [has] at none
      cases none
    | some c =>
      obtain ⟨enc',has',_,verified,_⟩ := described.encrypted c rfl
      rw [has,Option.some.injEq] at has'
      subst has'
      obtain ⟨k,rfl,same⟩ := resolve_dek_digest customer kept (verified_dek_resolves verified)
      have digests : P.md5 k = P.md5 k' := by
        have texts := congrArg P.b64_decode (same.trans same'.symm)
        rw [sound.base64,sound.base64,Option.some.injEq] at texts
        exact texts
      rw [apart k k' rfl rfl digests]

end Keys

/-! ### Copies -/

/-- A copy into a part: where from and where to, with the keys of both sides. -/
structure PartCopy where
  src_bucket : String
  src_key : String
  source_key : Option Bytes
  bucket : String
  upload_id : String
  part_number : Nat
  part_key : Option Bytes

/-- The part of the source a request asks for. -/
def requested (body : Bytes) : Option (Nat × Nat) → Bytes
  | none => body
  | some (start,last) => (body.drop start).take (last - start + 1)

theorem parse_copy_source_range_within {header : Option Text} {size start last : Nat}
    (ranged : parse_copy_source_range header size = .ok (some (start,last))) : start + (last - start + 1) ≤ size := by
  unfold parse_copy_source_range at ranged
  split at ranged
  next => cases ranged
  next =>
    split at ranged
    next => cases ranged
    next =>
      split at ranged
      next => cases ranged
      next =>
        split at ranged
        next => cases ranged
        next =>
          split at ranged
          next => cases ranged
          next =>
            split at ranged
            next => cases ranged
            next within =>
              cases ranged
              omega

namespace PartCopy
section
variable (P : Primitives) (fs : FilesystemStorage) (draws : Draws) (copy : PartCopy)

/-- A request for the copy. The key of the source is in the headers for the source, the key of the upload in those of
    every request. -/
structure Asks (params : Params) (headers : HeaderMap) (message : UploadMessage) (w : World) : Prop where
  copy_source : message.copy_source = .ok (copy.src_bucket,copy.src_key)
  upload_id : upload_id_param params = .ok copy.upload_id
  part_number : Maxio.part_number params = .ok copy.part_number
  source_key : extract_copy_source_customer_key P headers = .ok copy.source_key
  part_key : extract_customer_key P headers = .ok copy.part_key
  bucket : fs.ensure_bucket_exists copy.bucket w = (.ok (),w)

/-- The source is an object of these bytes, to be read with the key of the source; under SSE-C its record has the digest
    of the key. -/
structure Source (record : ObjectMeta) (cipher : Option FrameCipher) (body : Bytes) (coded : Bool) (w : World) :
    Prop where
  accepted : Accepted copy.src_bucket copy.src_key
  landed : Landed P fs copy.src_bucket copy.src_key record cipher copy.source_key body coded w
  single : coded = false → w.tree.node (ecAt fs copy.src_bucket copy.src_key) ≠ some .dir
  digest : ∀ enc, record.encryption = some enc → enc.mode = .SseC → enc.customer_key_md5 ≠ none

/-- The upload takes these bytes with its key, in whatever pieces they come. -/
def Takes (message : UploadMessage) (data : Bytes) (w : World) : Prop :=
  ∀ stream : ByteStream, stream.failure = none → stream.body = data → ∃ part w',
    fs.upload_part P draws copy.bucket copy.upload_id copy.part_number stream message.checksum copy.part_key
      message.declared_size w = (.ok part,w')

/-- Every request for the copy whose bytes the upload takes succeeds and stores what it asks for. -/
def Served (record : ObjectMeta) (upload : MultipartUploadMeta) (body : Bytes) (w : World) : Prop :=
  ∀ params headers message range, copy.Asks P fs params headers message w →
    parse_copy_source_range message.copy_source_range body.length = .ok range →
    copy.Takes P fs draws message (requested body range) w →
    ∃ part w', UploadRequest.handle_upload_part_copy P fs draws params (message.with_keys P headers) copy.bucket w =
        (.ok (.copied part.etag record.last_modified),w') ∧
      part.part_number = copy.part_number ∧
      PartStored P fs copy.bucket copy.upload_id upload copy.part_key part (requested body range) w'

/-- The reading half of the handler. -/
def read_source (range : Option (Nat × Nat)) : Action (ObjectReader × ObjectMeta) := match range with
  | none => fs.get_object P copy.src_bucket copy.src_key copy.part_key
  | some (start,last) => fs.get_object_range P copy.src_bucket copy.src_key start (last - start + 1) copy.part_key

end

section
variable {P : Primitives} {fs : FilesystemStorage} {draws : Draws} {copy : PartCopy} {record : ObjectMeta}
  {cipher : Option FrameCipher} {upload : MultipartUploadMeta} {body : Bytes} {coded : Bool} {w w' : World}
  {params : Params} {headers : HeaderMap} {message : UploadMessage} {range : Option (Nat × Nat)}

/-- The handler reads the source with the key of the upload. -/
theorem handle_ok_iff (source : copy.Source P fs record cipher body coded w)
    (asks : copy.Asks P fs params headers message w)
    (ranged : parse_copy_source_range message.copy_source_range body.length = .ok range) {answer : UploadAnswer} :
    UploadRequest.handle_upload_part_copy P fs draws params (message.with_keys P headers) copy.bucket w =
        (.ok answer,w') ↔
      ∃ reader record' part, copy.read_source P fs range w = (.ok (reader,record'),w) ∧
        fs.upload_part P draws copy.bucket copy.upload_id copy.part_number (reader_stream P reader) message.checksum
          copy.part_key message.declared_size w = (.ok part,w') ∧
        answer = .copied part.etag record.last_modified := by
  have found : (stored (fs.head_object copy.src_bucket copy.src_key)) w = (.ok record,w) := by
    rw [stored,Prog.mapError_ok_iff,FilesystemStorage.head_object,source.accepted.bucket,source.accepted.key,
      Prog.lift_ok_bind,Prog.lift_ok_bind]
    exact read_object_meta_ok source.accepted source.landed.shows'
  have quiet : Quiet (copy.read_source P fs range) := by
    cases range with
    | none => exact get_object_quiet _
    | some bounds => exact get_object_range_quiet _ _ _
  unfold UploadRequest.handle_upload_part_copy UploadMessage.with_keys
  simp only [asks.copy_source,asks.upload_id,asks.part_number,asks.part_key,Prog.lift_ok_bind]
  rw [Prog.bind_of_ok asks.bucket,Prog.bind_of_ok found,source.landed.described.size,ranged,Prog.lift_ok_bind]
  -- whichever of the two reads it is, what it gives goes into the upload
  cases range
  all_goals
    simp only [stored,Prog.bind_ok_iff,Prog.mapError_ok_iff,pure_ok_iff]
    constructor
    · rintro ⟨⟨reader,record'⟩,w₁,opened,part,w₂,uploaded,rfl,rfl⟩
      have same := quiet.state opened
      subst same
      exact ⟨reader,record',part,opened,uploaded,rfl⟩
    · rintro ⟨reader,record',part,opened,uploaded,rfl⟩
      exact ⟨(reader,record'),w,opened,part,w',uploaded,rfl,rfl⟩

/-- A part that was stored is there. -/
theorem part_done (stored : UploadStored P fs copy.bucket copy.upload_id upload w) {stream : ByteStream}
    {checksum : ChecksumRequest} {declared_size : Option Nat} {part : PartMeta}
    (done : fs.upload_part P draws copy.bucket copy.upload_id copy.part_number stream checksum copy.part_key declared_size w =
      (.ok part,w')) :
    part.part_number = copy.part_number ∧
      PartStored P fs copy.bucket copy.upload_id upload copy.part_key part stream.body w' := by
  have accepted : validate_bucket_name copy.bucket = .ok () := by
    simp only [FilesystemStorage.upload_part,Prog.bind_ok_iff,lift_ok_iff] at done
    obtain ⟨_,_,⟨accepted,_⟩,_⟩ := done
    exact accepted
  have valid := validBucket_of_validate accepted
  exact upload_part_done valid stored.names (read_upload_meta_stored valid stored) done

/-- With a key that opens the source every request is served. -/
theorem served_of_alike (sound : P.Sound) (source : copy.Source P fs record cipher body coded w)
    (stored : UploadStored P fs copy.bucket copy.upload_id upload w)
    (alike : OpensAlike record copy.source_key copy.part_key)
    (few : coded = true → Countable fs cipher.isSome body.length) : copy.Served P fs draws record upload body w := by
  intro params headers message range asks ranged takes
  have landed := source.landed.alike alike
  have there := landed.stored sound source.single few
  obtain ⟨reader,opened,yields⟩ : ∃ reader, copy.read_source P fs range w = (.ok (reader,record),w) ∧
      Exactly (ObjectReader.poll_read P) reader (requested body range) := by
    cases range with
    | none => exact get_object_yields sound source.accepted landed.shows' landed.described there
    | some bounds =>
      obtain ⟨start,last⟩ := bounds
      exact get_object_range_yields sound source.accepted landed.shows' landed.described there start (last - start + 1)
        (parse_copy_source_range_within ranged)
  obtain ⟨clean,whole⟩ := ObjectReader.stream_exactly yields
  obtain ⟨part,w',done⟩ := takes _ clean whole
  obtain ⟨numbered,kept⟩ := part_done stored done
  rw [whole] at kept
  exact ⟨part,w',(handle_ok_iff source asks ranged).mpr ⟨reader,record,part,opened,done,rfl⟩,numbered,kept⟩

/-- A whole copy that is made tells that the key of the upload opens the source, and that the source can be counted. -/
theorem alike_of_served (sound : P.Sound) (source : copy.Source P fs record cipher body coded w)
    (stored : UploadStored P fs copy.bucket copy.upload_id upload w)
    (apart : ∀ k k', copy.source_key = some k → copy.part_key = some k' → P.md5 k = P.md5 k' → k = k')
    (asks : copy.Asks P fs params headers message w)
    (ranged : parse_copy_source_range message.copy_source_range body.length = .ok none)
    (takes : copy.Takes P fs draws message body w) (served : copy.Served P fs draws record upload body w) :
    OpensAlike record copy.source_key copy.part_key ∧ (coded = true → Countable fs cipher.isSome body.length) := by
  obtain ⟨part,w',handled,numbered,kept⟩ := served params headers message none asks ranged takes
  obtain ⟨reader,record',part',opened,done,_⟩ := (handle_ok_iff source asks ranged).mp handled
  have shown := source.landed.shows'
  have alike : OpensAlike record copy.source_key copy.part_key := by
    have read := opened
    rw [read_source,FilesystemStorage.get_object_eq] at read
    simp only [source.accepted.bucket,source.accepted.key,Prog.lift_ok_bind] at read
    rw [Prog.bind_of_ok (read_object_meta_ok source.accepted shown),Prog.bind_ok_iff] at read
    obtain ⟨inner,_,opens,_⟩ := read
    exact opensAlike_of_keyed sound source.landed.described source.digest apart (open_object_keyed opens)
  refine ⟨alike,?_⟩
  rintro rfl
  by_contra many
  obtain ⟨shown',described,lies⟩ := source.landed.alike alike
  cases lies with
  | chunked data manifest holds payload =>
    rw [Countable,← length_payload sound described payload,← length_dataChunks fs.chunk_size_pos,not_lt] at many
    obtain ⟨n,fewer,bounded⟩ := get_object_short sound source.accepted shown' described holds payload many opened
    have short := ObjectReader.stream_at_most bounded
    -- the part that was made is the part that is there
    obtain ⟨numbered',kept'⟩ := part_done stored done
    have same : part = part' := by
      have here := kept.shown
      have here' := kept'.shown
      rw [numbered] at here
      rw [numbered',here] at here'
      simpa using here'
    have size := kept.size
    rw [same,kept'.size,requested] at size
    omega

end
end PartCopy

namespace Sample

def letter : Bytes := [0x61]

theorem letter_filled : letter ≠ [] := by decide
theorem letter_fits : letter.length ≤ IO_BUFFER_SIZE := by decide

/-- The MD5 digest of the key of 32 ones. -/
def data_key_md5 : Bytes := [0xe0,0x5b,0xa7,0x95,0xfe,0xce,0xb0,0xb1,0x74,0x1c,0xbf,0xaf,0x29,0x4f,0x9f,0x92]

/-- The ciphertexts of `vault`, and part 1 of the upload `u000000` when it is one letter. -/
def copied_ciphertexts : List (Sealing × Bytes) := ciphertexts ++
  [(⟨true,data_key,frame_nonce,part_aad 1,letter⟩,
    [0xd1,0xad,0x27,0x46,0x34,0xc9,0x8f,0xa0,0xd6,0x01,0xc2,0x44,0xf7,0xc8,0xbd,0x70,0x2b])]

def copied_texts : List (Bytes × String) := base64_texts ++
  [(data_key,"AQEBAQEBAQEBAQEBAQEBAQEBAQEBAQEBAQEBAQEBAQE="),(data_key_md5,"4Funlf7OsLF0HL+vKU+fkg==")]

/-- `vault`, with the true values for the letter and for a customer's key of 32 ones. -/
def copying : Primitives := tabled { vault with
  md5 := fun data => if data = data_key then data_key_md5
    else if data = letter then [0x0c,0xc1,0x75,0xb9,0xc0,0xf1,0xb6,0xa8,0x31,0xc3,0x99,0xe2,0x69,0x77,0x26,0x61]
    else vault.md5 data } copied_ciphertexts copied_texts

theorem copying_sound : copying.Sound := by
  refine tabled_sound vault_sound.mac ⟨?_,?_,?_⟩ ⟨?_,?_⟩
  all_goals decide +kernel

/-- An upload of `b`, under the key of 32 ones or without encryption. -/
def letter_upload (encrypted : Bool) : MultipartUploadMeta where
  upload_id := "u000000"
  bucket := "logs"
  key := "b"
  content_type := "text/plain"
  initiated := "1970-01-01T00:00:00+00:00"
  checksum_algorithm := none
  encryption_spec := if encrypted then some {
    mode := .SseC, customer_key_md5 := some "4Funlf7OsLF0HL+vKU+fkg==", upload_dek_wrapped := none
    upload_dek_wrap_nonce := none, upload_dek_key_id := none, kms_key_id := none
    upload_nonce_prefix := "AgICAgICAgI=" } else none

/-- The upload is created, and the letter is stored as `a`, without encryption. -/
def before_copy (encrypted : Bool) : Action PutResult := do
  let _ ← flat.create_multipart_upload copying (draws 0) "logs" "b" "text/plain" none
    ((letter_upload encrypted).encryption_spec.map fun spec => { spec with upload_nonce_prefix := "" })
  flat.put_object copying (draws 1) "logs" "a" "text/plain" (stream letter letter_filled letter_fits) none none none

def letter_copy (encrypted : Bool) : PartCopy where
  src_bucket := "logs"
  src_key := "a"
  source_key := none
  bucket := "logs"
  upload_id := "u000000"
  part_number := 1
  part_key := if encrypted then some data_key else none

def copy_query : Params := [("uploadId".toList,"u000000".toList),("partNumber".toList,"1".toList)]

def key_headers (encrypted : Bool) : HeaderMap := if encrypted then
    [("x-amz-server-side-encryption-customer-algorithm".toList,utf8 "AES256"),
      ("x-amz-server-side-encryption-customer-key".toList,utf8 "AQEBAQEBAQEBAQEBAQEBAQEBAQEBAQEBAQEBAQEBAQE=")]
  else []

def copy_message : UploadMessage where
  checksum := none
  customer_key := .ok none
  body := .error malformed_xml
  declared_size := none
  complete_body := .error malformed_xml
  copy_source := .ok ("logs","a")
  copy_source_range := none

/-- A letter comes in one piece. -/
theorem letter_in_one {given : ByteStream} (clean : given.failure = none) (whole : given.body = letter) :
    given = stream letter letter_filled letter_fits := by
  obtain ⟨reads,failure,nonempty,fits⟩ := given
  have one : reads = [letter] := by
    cases reads with
    | nil => cases whole
    | cons piece rest =>
      have filled := nonempty piece (by simp)
      cases piece with
      | nil => exact absurd rfl filled
      | cons b bs =>
        simp only [ByteStream.body,List.flatten_cons,letter,List.cons_append,List.cons.injEq,List.append_eq_nil_iff,
          List.flatten_eq_nil_iff] at whole
        obtain ⟨rfl,rfl,empty⟩ := whole
        cases rest with
        | nil => rfl
        | cons next _ => exact absurd (empty next (by simp)) (nonempty next (by simp))
  dsimp only at clean
  subst clean
  subst one
  rfl

/-- What the copy of the letter starts from. -/
structure ReadyToCopy (encrypted : Bool) (record : ObjectMeta) (w : World) : Prop where
  source : (letter_copy encrypted).Source copying flat record none letter false w
  upload : UploadStored copying flat "logs" "u000000" (letter_upload encrypted) w
  asks : (letter_copy encrypted).Asks copying flat copy_query (key_headers encrypted) copy_message w
  takes : (letter_copy encrypted).Takes copying flat (draws 2) copy_message letter w

theorem ready_to_copy (encrypted : Bool) : ∃ record, ReadyToCopy encrypted record (before_copy encrypted (world false)).2 := by
  have file : ends_with "a" "/" = false := file_a
  have ok : (before_copy encrypted (world false)).1.isOk = true := by
    cases encrypted <;> decide +kernel
  obtain ⟨result,w,done⟩ := isOk_spec ok
  have put := done
  simp only [before_copy,Prog.bind_ok_iff] at put
  obtain ⟨_,w₀,_,put⟩ := put
  obtain ⟨accepted,_,record,cipher,unsealed,written,_⟩ := put_object_done copying_sound file put
  have plain : cipher = none := by simpa using unsealed
  subst plain
  have held : (w.tree.node (ecAt flat "logs" "a") = none ∧
      w.tree.node (uploadRecordAt flat "logs" "u000000") = some (.file (.json (.upload (letter_upload encrypted)))) ∧
      (flat.head_bucket "logs" w).1 = .ok true ∧
      (flat.upload_part copying (draws 2) "logs" "u000000" 1 (stream letter letter_filled letter_fits) none
        (letter_copy encrypted).part_key none w).1.isOk = true) := by
    rw [show w = (before_copy encrypted (world false)).2 by rw [done]]
    cases encrypted <;> decide +kernel
  obtain ⟨vacant,recorded,there,takes⟩ := held
  have in_one_file : coded flat "logs" w₀ = false := rfl
  rw [in_one_file] at written
  have named : validate_key "b" = .ok () := by decide +kernel
  have query : upload_id_param copy_query = .ok "u000000" ∧ part_number copy_query = .ok 1 := by decide +kernel
  rw [done]
  refine ⟨record,⟨accepted,written.landed,fun _ => ?_,fun enc has => ?_⟩,⟨namesUpload_drawn (draws 0),recorded,named,?_⟩,
    ⟨rfl,query.1,query.2,?_,?_,?_⟩,?_⟩
  · rw [show ecAt flat (letter_copy encrypted).src_bucket (letter_copy encrypted).src_key = ecAt flat "logs" "a" from rfl,vacant]
    simp
  · rw [(written.landed.described.plain rfl).1] at has
    cases has
  · intro spec has
    cases encrypted with
    | false => cases has
    | true =>
      cases has
      exact ⟨List.replicate 8 2,by decide +kernel,rfl⟩
  · cases encrypted <;> decide +kernel
  · cases encrypted <;> decide +kernel
  · have quiet : Quiet (flat.head_bucket "logs") := Quiet.bind (Quiet.lift _) fun _ => Quiet.io (Quiet.observe _)
    have found : stored (flat.head_bucket "logs") w = (.ok true,w) :=
      Prog.mapError_ok_iff.mpr (Prod.ext there (quiet w))
    exact Prog.bind_of_ok found
  · intro given clean whole
    rw [letter_in_one clean whole]
    obtain ⟨part,w',took⟩ := isOk_spec takes
    exact ⟨part,w',took⟩

end Sample

/-- Copies of a stored object into the parts of an upload, whatever the encryption of both. They are made exactly when the
    customer's key for the upload, which is the only one looked at, opens the source. -/
theorem part_copies_served_iff {P : Primitives} {fs : FilesystemStorage} {draws : Draws} {copy : PartCopy}
    {record : ObjectMeta} {cipher : Option FrameCipher} {upload : MultipartUploadMeta} {body : Bytes} {coded : Bool}
    {w : World} (sound : P.Sound) (source : copy.Source P fs record cipher body coded w)
    (stored : UploadStored P fs copy.bucket copy.upload_id upload w)
    (apart : ∀ k k', copy.source_key = some k → copy.part_key = some k' → P.md5 k = P.md5 k' → k = k')
    (possible : ∃ params headers message, copy.Asks P fs params headers message w ∧ message.copy_source_range = none ∧
      copy.Takes P fs draws message body w) :
    copy.Served P fs draws record upload body w ↔
      OpensAlike record copy.source_key copy.part_key ∧ (coded = true → Countable fs cipher.isSome body.length) := by
  constructor
  · intro served
    obtain ⟨params,headers,message,asks,unranged,takes⟩ := possible
    refine PartCopy.alike_of_served sound source stored apart asks ?_ takes served
    rw [unranged]
    rfl
  · rintro ⟨alike,few⟩
    exact PartCopy.served_of_alike sound source stored alike few

/-- Without encryption on either side the letter is copied. -/
theorem letter_copied : ∃ record, (Sample.letter_copy false).Served Sample.copying Sample.flat (Sample.draws 2) record
    (Sample.letter_upload false) Sample.letter (Sample.before_copy false (Sample.world false)).2 := by
  obtain ⟨record,ready⟩ := Sample.ready_to_copy false
  refine ⟨record,(part_copies_served_iff Sample.copying_sound ready.source ready.upload nofun
    ⟨_,_,_,ready.asks,rfl,ready.takes⟩).mpr ⟨?_,nofun⟩⟩
  obtain ⟨plain,_⟩ := ready.source.landed.described.plain rfl
  rw [OpensAlike,plain]
  rfl

/-- An object without encryption is not copied into an upload under SSE-C: the key for the upload is taken for one of the
    source, and refused. -/
theorem plain_source_refused : ∃ record,
    Sample.ReadyToCopy true record (Sample.before_copy true (Sample.world false)).2 ∧
      ¬ (Sample.letter_copy true).Served Sample.copying Sample.flat (Sample.draws 2) record (Sample.letter_upload true)
        Sample.letter (Sample.before_copy true (Sample.world false)).2 := by
  obtain ⟨record,ready⟩ := Sample.ready_to_copy true
  refine ⟨record,ready,fun served => ?_⟩
  obtain ⟨alike,_⟩ := PartCopy.alike_of_served Sample.copying_sound ready.source ready.upload nofun ready.asks rfl
    ready.takes served
  obtain ⟨plain,_⟩ := ready.source.landed.described.plain rfl
  rw [OpensAlike,plain] at alike
  cases alike

end Maxio
