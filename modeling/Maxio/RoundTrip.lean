import Maxio.Progress

/-!
Reading back what was put: whole reads and range reads, in every layout, and the number of chunks from which on
they stop short.
-/

set_option linter.unusedSimpArgs false

namespace Maxio
open FileTree (Node Tree)
open Reading
open FrameDecryptor (cipherLength)

/-! ### Counting chunks -/

/-- Length of the payload of a body of `n` bytes: frames add to it. -/
def storedLength (encrypted : Bool) (n : Nat) : Nat := if encrypted then cipherLength FRAME_CHUNK_SIZE n else n

/-- How many chunks a payload of `n` bytes is cut into; an empty one has one chunk. -/
def chunkCount (chunk_size n : Nat) : Nat := max 1 ((n + chunk_size - 1) / chunk_size)

/-- The chunks of an object of `n` bytes can be counted in a `u32`. -/
def Countable (fs : FilesystemStorage) (encrypted : Bool) (n : Nat) : Prop :=
  chunkCount fs.chunk_size (storedLength encrypted n) < 2 ^ 32

instance (fs : FilesystemStorage) (encrypted : Bool) (n : Nat) : Decidable (Countable fs encrypted n) :=
  inferInstanceAs (Decidable (_ < _))

theorem length_dataChunks {size : Nat} (positive : 0 < size) (data : Bytes) :
    (dataChunks size data).length = chunkCount size data.length := by
  unfold dataChunks chunkCount
  by_cases empty : data = []
  · rw [if_pos empty,empty,List.length_nil,Nat.zero_add,Nat.div_eq_of_lt (by omega)]
    rfl
  · have filled : 0 < data.length := List.length_pos_iff.mpr empty
    have one : 1 ≤ (data.length + size - 1) / size := (Nat.one_le_div_iff positive).mpr (by omega)
    rw [if_neg empty,length_pieces positive,Nat.max_eq_right one]

section Layouts
variable {P : Primitives} {fs : FilesystemStorage} {bucket key : String} {record : ObjectMeta}
  {cipher : Option FrameCipher} {ck : Option Bytes} {body : Bytes} {w : World}

theorem length_payload (sound : P.Sound) (described : Described P fs bucket key record cipher ck body) {data : Bytes}
    (payload : Payload P cipher body data) : data.length = storedLength cipher.isSome body.length := by
  cases cipher with
  | none =>
    cases payload
    rfl
  | some c =>
    obtain ⟨_,_,_,_,_,eight⟩ := described.encrypted c rfl
    obtain ⟨frames,sealed,rfl⟩ := payload
    exact length_frames sound eight sealed

/-- With few enough chunks an object can be read back, whatever its layout. -/
theorem Landed.stored (sound : P.Sound) {coded : Bool} (landed : Landed P fs bucket key record cipher ck body coded w)
    (single : coded = false → w.tree.node (ecAt fs bucket key) ≠ some .dir)
    (few : coded = true → Countable fs cipher.isSome body.length) : Stored P fs bucket key cipher body w := by
  obtain ⟨_,described,lies⟩ := landed
  cases lies with
  | flat content named file payload => exact .flat content named (single rfl) file payload
  | chunked data manifest holds payload =>
    refine .chunked data manifest holds payload ?_
    rw [length_dataChunks fs.chunk_size_pos,length_payload sound described payload]
    exact few rfl

/-! ### Whole reads -/

/-- Read to its end with buffers of any positive capacities, the stream gives exactly these bytes. -/
def ReadsOut (P : Primitives) (reader : ObjectReader) (out : Bytes) : Prop :=
  ∀ caps : Nat → Nat, (∀ n, 0 < caps n) → ∀ turns, out.length < turns →
    read_to_end (ObjectReader.poll_read P) caps turns 0 reader = some (out,none)

theorem readsOut_of_exactly {reader : ObjectReader} {out : Bytes}
    (yields : Exactly (ObjectReader.poll_read P) reader out) : ReadsOut P reader out :=
  fun caps positive turns enough => yields.read_exactly caps positive turns 0 enough

theorem ReadsOut.length_le {reader : ObjectReader} {out : Bytes} {n : Nat} (reads : ReadsOut P reader out)
    (bounded : AtMost (ObjectReader.poll_read P) reader n) : out.length ≤ n := by
  have whole := reads (fun _ => 1) (fun _ => Nat.one_pos) (out.length + 1) (by omega)
  exact bounded.read _ (fun _ => Nat.one_pos) _ _ whole

/-- `get_object` succeeds with metadata of the body's size and a stream of exactly the body. -/
def GivesBack (P : Primitives) (fs : FilesystemStorage) (bucket key : String) (ck : Option Bytes) (body : Bytes)
    (w : World) : Prop :=
  ∃ reader record, fs.get_object P bucket key ck w = (.ok (reader,record),w) ∧ record.size = body.length ∧
    ReadsOut P reader body

theorem Landed.gives_back (sound : P.Sound) (accepted : Accepted bucket key) {coded : Bool}
    (landed : Landed P fs bucket key record cipher ck body coded w)
    (single : coded = false → w.tree.node (ecAt fs bucket key) ≠ some .dir)
    (few : coded = true → Countable fs cipher.isSome body.length) : GivesBack P fs bucket key ck body w := by
  obtain ⟨reader,done,yields⟩ := get_object_yields sound accepted landed.shows' landed.described
    (landed.stored sound single few)
  exact ⟨reader,record,done,landed.described.size,readsOut_of_exactly yields⟩

/-- With more chunks than a `u32` can count, no whole read gives all of the body. -/
theorem Landed.short (sound : P.Sound) (accepted : Accepted bucket key)
    (landed : Landed P fs bucket key record cipher ck body true w) (many : ¬ Countable fs cipher.isSome body.length)
    {reader : ObjectReader} {record' : ObjectMeta} {w' : World} {out : Bytes}
    (done : fs.get_object P bucket key ck w = (.ok (reader,record'),w')) (reads : ReadsOut P reader out) :
    out.length < body.length := by
  obtain ⟨shown,described,lies⟩ := landed
  cases lies with
  | chunked data manifest holds payload =>
    rw [Countable,← length_payload sound described payload,← length_dataChunks fs.chunk_size_pos,not_lt] at many
    obtain ⟨n,fewer,bounded⟩ := get_object_short sound accepted shown described holds payload many done
    exact (reads.length_le bounded).trans_lt fewer

theorem Landed.gives_back_iff (sound : P.Sound) (accepted : Accepted bucket key) {coded : Bool}
    (landed : Landed P fs bucket key record cipher ck body coded w)
    (single : coded = false → w.tree.node (ecAt fs bucket key) ≠ some .dir) :
    GivesBack P fs bucket key ck body w ↔ (coded = true → Countable fs cipher.isSome body.length) := by
  constructor
  · rintro ⟨reader,record',done,_,reads⟩ rfl
    by_contra many
    exact absurd (landed.short sound accepted many done reads) (lt_irrefl _)
  · exact landed.gives_back sound accepted single

/-! ### Range reads -/

/-- `get_object` hands out the metadata of the sidecar. -/
theorem get_object_record (accepted : Accepted bucket key) (shown : Shows fs bucket key record w)
    {reader : ObjectReader} {record' : ObjectMeta} {w' : World}
    (done : fs.get_object P bucket key ck w = (.ok (reader,record'),w')) : record' = record := by
  simp only [FilesystemStorage.get_object,accepted.bucket,accepted.key,Prog.lift_ok_bind] at done
  rw [Prog.bind_of_ok (read_object_meta_ok accepted shown),Prog.bind_ok_iff] at done
  obtain ⟨_,_,_,done⟩ := done
  rw [Prog.bind_ok_iff] at done
  obtain ⟨chunked,_,_,done⟩ := done
  cases chunked with
  | true =>
    rw [if_pos rfl,Prog.bind_ok_iff] at done
    obtain ⟨_,_,_,done⟩ := done
    rw [pure_ok_iff,Prod.mk.injEq] at done
    exact done.1.2
  | false =>
    rw [if_neg (by simp)] at done
    cases has : record.encryption with
    | some enc =>
      rw [has] at done
      simp only [Prog.bind_ok_iff,pure_ok_iff,Prod.mk.injEq] at done
      obtain ⟨_,_,_,⟨_,same⟩,_⟩ := done
      exact same
    | none =>
      rw [has] at done
      simp only [Prog.bind_ok_iff] at done
      obtain ⟨_,_,_,done⟩ := done
      split at done <;> exact (Prod.mk.inj (pure_ok_iff.mp done).1).2

/-- Whole and range reads succeed, and every range read within the object's size gives that part of what the whole
    read gives. -/
def RangesAreSlices (P : Primitives) (fs : FilesystemStorage) (bucket key : String) (ck : Option Bytes) (w : World) :
    Prop :=
  ∃ reader record whole, fs.get_object P bucket key ck w = (.ok (reader,record),w) ∧ ReadsOut P reader whole ∧
    ∀ offset length, offset + length ≤ record.size → offset + length ≤ whole.length ∧
      ∃ part, fs.get_object_range P bucket key offset length ck w = (.ok (part,record),w) ∧
        ReadsOut P part ((whole.drop offset).take length)

theorem Landed.ranges_are_slices (sound : P.Sound) (accepted : Accepted bucket key) {coded : Bool}
    (landed : Landed P fs bucket key record cipher ck body coded w)
    (single : coded = false → w.tree.node (ecAt fs bucket key) ≠ some .dir)
    (few : coded = true → Countable fs cipher.isSome body.length) : RangesAreSlices P fs bucket key ck w := by
  have stored := landed.stored sound single few
  obtain ⟨reader,done,yields⟩ := get_object_yields sound accepted landed.shows' landed.described stored
  refine ⟨reader,record,body,done,readsOut_of_exactly yields,fun offset length within => ?_⟩
  rw [landed.described.size] at within
  obtain ⟨part,opened,slice⟩ := get_object_range_yields sound accepted landed.shows' landed.described stored offset
    length within
  exact ⟨within,part,opened,readsOut_of_exactly slice⟩

end Layouts

/-! ### After a put -/

section Put
variable {P : Primitives} {fs : FilesystemStorage} {bucket key : String} {draws : Draws} {w w' : World}

/-- The key's own places are not on the way to its directories. -/
theorem own_not_opened {n : String} (accepted : Accepted bucket key) (member : n ∈ ownNames key) :
    ¬ Opened fs bucket key (home fs bucket key ++ [n]) := by
  intro opened
  have spelled : home fs bucket key ++ [n] = base fs.buckets_dir bucket ++ (stem key ++ [n]) := by simp [home]
  rw [spelled] at opened
  obtain ⟨_,above | above⟩ := opened_cases opened
  · have length := above.length_le
    simp at length
  · have start : (names key).dropLast ++ [".versions"] <+: versionsRel key := by
      rw [versionsRel]
      exact List.prefix_append_right_inj _ |>.mpr (by simp)
    have short : (names key).dropLast.length ≤ (stem key).length := by
      rw [names_eq,List.length_dropLast,List.length_append]
      have one : (canon [leaf key]).length ≤ 1 := List.length_filter_le _ _
      omega
    have within : (names key).dropLast ++ [".versions"] <+: stem key ++ [n] := by
      apply List.prefix_of_prefix_length_le start above
      rw [List.length_append,List.length_append,List.length_singleton,List.length_singleton]
      omega
    rcases List.mem_append.mp (within.subset (show ".versions" ∈ _ by simp)) with inside | last
    · exact names_ne_top accepted.validKey _ (stem_subset _ inside) (by decide)
    · exact ownNames_ne_top accepted.validKey n member (by rw [← List.mem_singleton.mp last]; decide)

theorem ecName_ne_objectName : ecName key ≠ objectName key := by
  unfold ecName objectName
  split
  · exact append_ne_of_not_suffix (by decide)
  · intro same
    have chars := congrArg (fun s : String => s.toList.length) same
    simp only [String.toList_append,List.length_append] at chars
    have three : ".ec".toList.length = 3 := by decide
    omega

/-- A put in the flat layout leaves a directory of chunks alone. -/
theorem put_object_flat_chunks (accepted : Accepted bucket key) {content_type : String} {body : ByteStream}
    {checksum : ChecksumRequest} {encryption : Option EncryptionRequest} {declared_size : Option Nat}
    {result : PutResult} (file : ends_with key "/" = false) (flat : coded fs bucket w = false)
    (done : fs.put_object P draws bucket key content_type body checksum encryption declared_size w = (.ok result,w')) :
    w'.tree.node (ecAt fs bucket key) = w.tree.node (ecAt fs bucket key) := by
  simp only [FilesystemStorage.put_object,Prog.bind_ok_iff,lift_ok_iff] at done
  obtain ⟨_,_,⟨_,rfl⟩,_,_,⟨_,rfl⟩,_,_,unlocked,_,_,⟨_,rfl⟩,done⟩ := done
  have quiet := (FilesystemStorage.ensure_can_overwrite_quiet _ bucket key).state unlocked
  subst quiet
  rw [if_neg (by simp [file]),Prog.bind_ok_iff] at done
  obtain ⟨answer,w₀,asked,done⟩ := done
  obtain ⟨rfl,rfl⟩ := effective_erasure_coding_done accepted.bucket asked
  rw [flat,if_neg (by simp)] at done
  have frame : Frame (Touched fs bucket key [objectName key,metaName key] (tempNames draws)
      (versionNames draws.version_id)) (Opened fs bucket key) w₀ (fs.put_object_flat P draws bucket key content_type
        (fs.wrap_upload_reader draws body) checksum encryption w₀).2 :=
    put_object_flat_frames accepted (by simp) (by simp) (fun _ => id) w₀
  rw [done] at frame
  have member : ecName key ∈ ownNames key := by simp [ownNames]
  refine frame.same (own_untouched accepted member ?_ ecName_fresh (List.prefix_refl _)) (own_not_opened accepted member)
  simp only [List.mem_cons,List.not_mem_nil,or_false,not_or]
  exact ⟨ecName_ne_objectName,ecName_ne_metaName⟩

/-- A put that succeeds has asked the bucket for its layout. -/
theorem put_object_layout {content_type : String} {body : ByteStream} {checksum : ChecksumRequest}
    {encryption : Option EncryptionRequest} {declared_size : Option Nat} {result : PutResult}
    (file : ends_with key "/" = false)
    (done : fs.put_object P draws bucket key content_type body checksum encryption declared_size w = (.ok result,w')) :
    (fs.effective_erasure_coding bucket w).1 = .ok (coded fs bucket w) := by
  simp only [FilesystemStorage.put_object,Prog.bind_ok_iff,lift_ok_iff] at done
  obtain ⟨_,_,⟨valid,rfl⟩,_,_,⟨_,rfl⟩,_,_,unlocked,_,_,⟨_,rfl⟩,done⟩ := done
  have quiet := (FilesystemStorage.ensure_can_overwrite_quiet _ bucket key).state unlocked
  subst quiet
  rw [if_neg (by simp [file]),Prog.bind_ok_iff] at done
  obtain ⟨answer,_,asked,_⟩ := done
  rw [asked,(effective_erasure_coding_done valid asked).1]

/-- Put and get. Of a key without a directory of chunks from before, what is read back after a successful put is the
    body that was put, unless it was stored in more chunks than a `u32` can count. -/
theorem put_get_round_trip_iff (sound : P.Sound) {content_type : String} {body : ByteStream}
    {checksum : ChecksumRequest} {encryption : Option EncryptionRequest} {declared_size : Option Nat}
    {result : PutResult} (file : ends_with key "/" = false) (vacant : w.tree.node (ecAt fs bucket key) ≠ some .dir)
    (done : fs.put_object P draws bucket key content_type body checksum encryption declared_size w = (.ok result,w')) :
    GivesBack P fs bucket key (encryption.bind EncryptionRequest.customer_key) body.body w' ↔
      ((fs.effective_erasure_coding bucket w).1 = .ok true → Countable fs encryption.isSome body.body.length) := by
  obtain ⟨accepted,_,record,cipher,sealed,written,_⟩ := put_object_done sound file done
  rw [put_object_layout file done,Except.ok.injEq,← sealed]
  refine written.landed.gives_back_iff sound accepted fun flat => ?_
  rw [put_object_flat_chunks accepted file flat done]
  exact vacant

end Put

namespace Sample

def abc : Bytes := [0x61,0x62,0x63]

/-- A digest given by a table, and made up elsewhere. -/
def digest (length : Nat) (table : List (Bytes × Bytes)) (data : Bytes) : Bytes :=
  (table.lookup data).getD (resize data length)

/-- Primitives with the true MD5 and SHA-256 digests of the bodies stored below, and a cipher without secrecy. -/
def primitives : Primitives where
  md5 := digest 16 [(abc,[0x90,0x01,0x50,0x98,0x3c,0xd2,0x4f,0xb0,0xd6,0x96,0x3f,0x7d,0x28,0xe1,0x7f,0x72])]
  sha256 := digest 32
    [(abc,[0xba,0x78,0x16,0xbf,0x8f,0x01,0xcf,0xea,0x41,0x41,0x40,0xde,0x5d,0xae,0x22,0x23,
        0xb0,0x03,0x61,0xa3,0x96,0x17,0x7a,0x9c,0xb4,0x10,0xff,0x61,0xf2,0x00,0x15,0xad]),
      ([0],[0x6e,0x34,0x0b,0x9c,0xff,0xb3,0x7a,0x98,0x9c,0xa5,0x44,0xe6,0xbb,0x78,0x0a,0x2c,
        0x78,0x90,0x1d,0x3f,0xb3,0x37,0x38,0x76,0x85,0x11,0xa3,0x06,0x17,0xaf,0xa0,0x1d])]
  hmac_sha256 key data := resize (key ++ data) 32
  checksum _ data := data
  b64_encode := hex_encode
  b64_decode := hex_decode
  encrypt _ _ _ message := some (message ++ List.replicate 16 0)
  decrypt _ _ _ sealed := if 16 ≤ sealed.length then some (sealed.take (sealed.length - 16)) else none
  rs_new k m := if k = 0 then .error "TooFewDataShards" else if m = 0 then .error "TooFewParityShards" else .ok ()
  -- with one data shard every parity shard is a copy of it
  rs_encode k m shards := match k,shards with
    | 1,[shard] => .ok (List.replicate m shard)
    | _,_ => .error "IncorrectShardSize"
  rs_reconstruct k _ shards := match k,shards.find? Option.isSome with
    | 1,some shard => .ok (shards.map fun _ => shard)
    | _,_ => .error "TooFewShardsPresent"
  json _ := utf8 "\x7b\x7d"
  canonical_json _ := utf8 "\x7b\x7d"
  parse_from_rfc3339 _ := none
  format_time _ := "1970-01-01T00:00:00+00:00"
  file_grant _ := 4095

example : (primitives.md5 abc).length = 16 ∧ (primitives.sha256 abc).length = 32 := by decide +kernel

theorem primitives_sound : primitives.Sound where
  base64 := hex_decode_encode
  aead key nonce aad message sealed done := by
    cases done
    simp [primitives]
  tag key nonce aad message sealed done := by
    cases done
    simp [primitives]
  opened key nonce aad sealed message done := by
    simp only [primitives,Option.ite_none_right_eq_some,Option.some.injEq] at done
    rw [← done.2,List.length_take]
    omega
  mac key data := by
    simp only [primitives,resize,List.length_append,List.length_take,List.length_replicate]
    omega

def zero_tag : Bytes := List.replicate 16 0

theorem zero_tag_take {sealed : Bytes} (ends : zero_tag <:+ sealed) :
    sealed = sealed.take (sealed.length - 16) ++ zero_tag := by
  obtain ⟨front,rfl⟩ := ends
  rw [List.length_append,show zero_tag.length = 16 from rfl,Nat.add_sub_cancel,List.take_left]

/-- Primitives whose AES-GCM and base64 are given by tables. Elsewhere the tag of a ciphertext is zero, and base64 is
    replaced by hexadecimal. -/
def tabled (base : Primitives) (ciphertexts : List (Sealing × Bytes)) (texts : List (Bytes × String)) : Primitives :=
  { base with
    b64_encode := fun data => (texts.lookup data).getD (hex_encode data)
    b64_decode := fun text => match texts.find? fun entry => entry.2 = text with
      | some entry => some entry.1
      | none => hex_decode text
    encrypt := fun key nonce aad message =>
      match ciphertexts.find? fun e => (e.1.key,e.1.nonce,e.1.aad,e.1.message) = (key,nonce,aad,message) with
      | some e => some e.2
      | none => some (message ++ zero_tag)
    decrypt := fun key nonce aad sealed =>
      match ciphertexts.find? fun e => (e.1.key,e.1.nonce,e.1.aad,e.2) = (key,nonce,aad,sealed) with
      | some e => some e.1.message
      | none => if zero_tag <:+ sealed then some (sealed.take (sealed.length - 16)) else none }

/-- A table of ciphertexts that opens one way, with tags other than zero. -/
structure Consistent (ciphertexts : List (Sealing × Bytes)) : Prop where
  one : ∀ e ∈ ciphertexts, ∀ e' ∈ ciphertexts, (e.1.key,e.1.nonce,e.1.aad,e.2) =
    (e'.1.key,e'.1.nonce,e'.1.aad,e'.2) → e.1.message = e'.1.message
  tagged : ∀ e ∈ ciphertexts, ¬ zero_tag <:+ e.2
  long : ∀ e ∈ ciphertexts, e.2.length = e.1.message.length + 16

/-- A table of texts that reads one way, none of them hexadecimal. -/
structure Readable (texts : List (Bytes × String)) : Prop where
  back : ∀ e ∈ texts, (texts.find? fun entry => entry.2 = e.2).map Prod.fst = some e.1
  apart : ∀ e ∈ texts, hex_decode e.2 = none

section
variable {base : Primitives} {ciphertexts : List (Sealing × Bytes)} {texts : List (Bytes × String)}

theorem tabled_base64 (readable : Readable texts) (data : Bytes) :
    (tabled base ciphertexts texts).b64_decode ((tabled base ciphertexts texts).b64_encode data) = some data := by
  simp only [tabled]
  cases listed : texts.lookup data with
  | some text =>
    obtain ⟨front,back,rfl,_⟩ := List.lookup_eq_some_iff.mp listed
    have found := readable.back (data,text) (by simp)
    rw [Option.map_eq_some_iff] at found
    obtain ⟨entry,there,same⟩ := found
    rw [Option.getD_some,there]
    exact congrArg some same
  | none =>
    have absent : texts.find? (fun entry => entry.2 = hex_encode data) = none := by
      rw [List.find?_eq_none]
      intro entry member same
      have undecodable := readable.apart entry member
      rw [of_decide_eq_true same,hex_decode_encode] at undecodable
      cases undecodable
    rw [Option.getD_none,absent]
    exact hex_decode_encode data

theorem tabled_aead (consistent : Consistent ciphertexts) {key nonce aad message sealed : Bytes}
    (done : (tabled base ciphertexts texts).encrypt key nonce aad message = some sealed) :
    (tabled base ciphertexts texts).decrypt key nonce aad sealed = some message := by
  simp only [tabled] at done ⊢
  split at done
  next e found =>
    have listed := List.mem_of_find?_eq_some found
    have same := List.find?_some found
    simp only [decide_eq_true_eq,Prod.mk.injEq] at same
    obtain ⟨rfl,rfl,rfl,rfl⟩ := same
    cases done
    split
    next e' found' =>
      have same := List.find?_some found'
      rw [decide_eq_true_eq] at same
      rw [consistent.one e' (List.mem_of_find?_eq_some found') e listed same]
    next none =>
      have out := List.find?_eq_none.mp none e listed
      simp at out
  next =>
    cases done
    split
    next e' found' =>
      have same := List.find?_some found'
      simp only [decide_eq_true_eq,Prod.mk.injEq] at same
      refine absurd ?_ (consistent.tagged e' (List.mem_of_find?_eq_some found'))
      rw [same.2.2.2]
      exact List.suffix_append _ _
    next =>
      rw [if_pos (List.suffix_append _ _)]
      simp [zero_tag]

theorem tabled_sound (mac : ∀ key data, (base.hmac_sha256 key data).length = 32) (consistent : Consistent ciphertexts)
    (readable : Readable texts) : (tabled base ciphertexts texts).Sound where
  base64 := tabled_base64 readable
  aead _ _ _ _ _ := tabled_aead consistent
  tag key nonce aad message sealed done := by
    simp only [tabled] at done
    split at done
    next e found =>
      have same := List.find?_some found
      simp only [decide_eq_true_eq,Prod.mk.injEq] at same
      cases done
      rw [consistent.long e (List.mem_of_find?_eq_some found),same.2.2.2]
    next =>
      cases done
      simp [zero_tag]
  opened key nonce aad sealed message done := by
    simp only [tabled] at done
    split at done
    next e found =>
      have same := List.find?_some found
      simp only [decide_eq_true_eq,Prod.mk.injEq] at same
      cases done
      rw [← same.2.2.2,consistent.long e (List.mem_of_find?_eq_some found)]
    next =>
      split at done
      next ends =>
        cases done
        have whole := congrArg List.length (zero_tag_take ends)
        rw [List.length_append] at whole
        exact whole
      next => cases done
  mac := mac

end

/-- The storage below `/data`, with the given layout and chunk size and no parity. -/
def storage (erasure_coding : Bool) (chunk_size : Nat) (positive : 0 < chunk_size) : FilesystemStorage where
  buckets_dir := ["data"]
  erasure_coding := erasure_coding
  chunk_size := chunk_size
  parity_shards := 0
  keyring := { keys := [("k1",List.replicate 32 7)], active_id := "k1" }
  kms := none
  quota := { max_object_bytes := 0, min_free_disk_bytes := 0 }
  metadata_index := false
  chunk_size_pos := positive
  plain := by decide

def settings (versioning : Bool) : BucketMeta where
  name := "logs"
  created_at := "1970-01-01T00:00:00+00:00"
  region := "us-east-1"
  versioning := versioning
  cors_rules := none
  encryption_config := none
  public_read := false
  public_list := false
  bucket_policy := none
  erasure_coding := none
  lifecycle_rules := none
  tenant_id := none
  logging_target_bucket := none
  logging_target_prefix := none
  notification_config := none
  object_lock_enabled := false
  object_lock_config := none

/-- The empty tree. -/
def empty : Disk where
  node p := if p = [] then some .dir else none
  paths := [[]]
  root := rfl
  listed p present := by
    by_cases root : p = []
    · simp [root]
    · simp [root] at present
  rooted p n present := by simp at present

/-- A world that holds the bucket `logs` and nothing else. -/
def world (versioning : Bool) : World :=
  (do Fs.create_dir_all ["data","logs"]
      Fs.write ["data","logs",".bucket.json"] (.json (.bucket (settings versioning))) : Io Unit).run
    { tree := empty, rows := [], sealings := [] } |>.2

/-- The names and times of the `n`-th call. -/
def draws (n : Nat) : Draws where
  dek := List.replicate 32 1
  nonce_prefix := List.replicate 8 2
  wrap_nonce := List.replicate 12 3
  micros := n
  rand_suffix := 0
  now := 0
  tmp_payload := "p" ++ chunk_name n
  tmp_meta := "m" ++ chunk_name n
  backup_payload := "q" ++ chunk_name n
  backup_meta := "n" ++ chunk_name n
  upload_id := "u" ++ chunk_name n
  available_disk_bytes _ := none
  dek_length := rfl
  prefix_length := rfl
  wrap_length := rfl
  spelled name member := by
    have letter : ∃ c : Char, c.isAlpha = true ∧ name.toList = c :: (chunk_name n).toList := by
      simp only [List.mem_cons,List.not_mem_nil,or_false] at member
      rcases member with rfl | rfl | rfl | rfl | rfl <;> exact ⟨_,rfl,by rw [String.toList_append]; rfl⟩
    obtain ⟨c,alpha,chars⟩ := letter
    refine ⟨fun empty => by simp [empty] at chars,fun d inside => .inl ?_⟩
    rw [chars,List.mem_cons] at inside
    rcases inside with rfl | digit
    · simp [Char.isAlphanum,alpha]
    · simp [Char.isAlphanum,chunk_name_digits n d digit]
  distinct := by
    have apart : ∀ a b : String, a.toList ≠ b.toList → a ++ chunk_name n ≠ b ++ chunk_name n := by
      intro a b other same
      have chars := congrArg String.toList same
      rw [String.toList_append,String.toList_append,List.append_left_inj] at chars
      exact other chars
    simp only [List.nodup_cons,List.mem_cons,List.not_mem_nil,or_false,not_or,not_false_eq_true,List.nodup_nil,and_true]
    refine ⟨⟨?_,?_,?_⟩,⟨?_,?_⟩,?_⟩ <;> exact apart _ _ (by decide)

/-- A stream of one read. -/
def stream (data : Bytes) (filled : data ≠ []) (fits : data.length ≤ IO_BUFFER_SIZE) : ByteStream where
  reads := [data]
  failure := none
  nonempty := by simpa using filled
  fits := by simpa using fits

theorem abc_filled : abc ≠ [] := by decide
theorem abc_fits : abc.length ≤ IO_BUFFER_SIZE := by decide
theorem zero_filled : ([0] : Bytes) ≠ [] := by simp
theorem zero_fits : ([0] : Bytes).length ≤ IO_BUFFER_SIZE := by decide

/-- Four gibibytes of zeros, read in buffers of full size. -/
def zeros : ByteStream where
  reads := List.replicate (2 ^ 14) (List.replicate (2 ^ 18) 0)
  failure := none
  nonempty piece member := by
    rw [List.eq_of_mem_replicate member,← List.length_pos_iff,List.length_replicate]
    decide
  fits piece member := by
    rw [List.eq_of_mem_replicate member,List.length_replicate]
    decide

theorem length_zeros : zeros.body.length = 2 ^ 32 := by
  rw [ByteStream.body,zeros,List.length_flatten,List.map_replicate,List.length_replicate,List.sum_replicate_nat]
  norm_num

theorem isOk_spec {σ ε α : Type} {r : Except ε α × σ} (ok : r.1.isOk = true) : ∃ a s, r = (.ok a,s) := by
  obtain ⟨e | a,s⟩ := r
  · cases ok
  · exact ⟨a,s,rfl⟩

/-- Chunks of one byte and no parity. -/
def bytewise : FilesystemStorage := storage true 1 (by decide)

/-- With chunks of one byte, four gibibytes have one chunk more than a `u32` can count. -/
theorem zeros_uncountable : ¬ Countable bytewise false zeros.body.length := by
  rw [Countable,length_zeros]
  decide

/-- Chunks of four bytes and no parity. -/
abbrev in_fours : FilesystemStorage := storage true 4 (by decide)

theorem file_a : ends_with "a" "/" = false := by decide +kernel

theorem in_chunks : coded in_fours "logs" (world false) = true ∧ coded bytewise "logs" (world false) = true := by
  decide +kernel

/-- Storing `abc` in one chunk succeeds. -/
theorem put_abc : ∃ result w', in_fours.put_object primitives (draws 0) "logs" "a" "text/plain"
    (stream abc (by decide) (by decide)) none none none (world false) = (.ok result,w') := by
  refine isOk_spec ?_
  decide +kernel

/-- Storing the zeros in chunks of one byte succeeds. -/
theorem put_zeros : ∃ result w', bytewise.put_object primitives (draws 0) "logs" "a" "text/plain" zeros none none none
    (world false) = (.ok result,w') := by
  have settled : bucketRecord bytewise "logs" (world false) = some (settings false) := by decide +kernel
  refine put_object_chunked_succeeds ⟨by decide +kernel,by decide +kernel⟩ (by decide +kernel) rfl rfl rfl rfl settled
    rfl rfl (by decide +kernel) (by decide +kernel) ?_ rfl
  unfold Unused
  decide +kernel

example : in_fours.chunk_size = abc.length + 1 ∧ bytewise.chunk_size = 1 := by decide +kernel

end Sample

theorem put_get_round_trip_abc :
    ∃ result w', (Sample.storage true 4 (by decide)).put_object Sample.primitives (Sample.draws 0) "logs" "a"
        "text/plain" (Sample.stream Sample.abc (by decide) (by decide)) none none none (Sample.world false) =
          (.ok result,w') ∧
      GivesBack Sample.primitives (Sample.storage true 4 (by decide)) "logs" "a" none Sample.abc w' := by
  obtain ⟨result,w',done⟩ := Sample.put_abc
  refine ⟨result,w',done,?_⟩
  exact (put_get_round_trip_iff Sample.primitives_sound Sample.file_a (by decide +kernel) done).mpr
    fun _ => by decide +kernel

/-- The round trip fails for the zeros, although they were stored. -/
theorem put_get_zeros_fails :
    ∃ result w', Sample.bytewise.put_object Sample.primitives (Sample.draws 0) "logs" "a" "text/plain" Sample.zeros none
        none none (Sample.world false) = (.ok result,w') ∧
      (Sample.world false).tree.node (ecAt Sample.bytewise "logs" "a") = none ∧
      ¬ GivesBack Sample.primitives Sample.bytewise "logs" "a" none Sample.zeros.body w' := by
  obtain ⟨result,w',done⟩ := Sample.put_zeros
  refine ⟨result,w',done,by decide +kernel,fun back => ?_⟩
  obtain ⟨accepted,_,record,cipher,sealed,written,_⟩ := put_object_done Sample.primitives_sound Sample.file_a done
  have on := Sample.in_chunks.2
  have flat : ∀ b, b = true → b = false → w'.tree.node (ecAt Sample.bytewise "logs" "a") ≠ some .dir := by
    intro b yes no
    rw [yes] at no
    cases no
  have few := (written.landed.gives_back_iff Sample.primitives_sound accepted (flat _ on)).mp back on
  rw [sealed] at few
  exact Sample.zeros_uncountable few

end Maxio
