import Maxio.RoundTrip
import Maxio.UploadSpec

/-!
The four ways an upload is completed: flat or in chunks, plain or encrypted. What they store is the concatenation of the
parts, and what they say about it depends on the parts alone.
-/

set_option linter.unusedSimpArgs false

namespace Maxio
open FileTree (Node Tree)
open Reading

/-! ### What a completed object says about its parts -/

/-- The checksum of the checksums of the parts; a part without one is left out. -/
def compositeChecksum (P : Primitives) (algorithm : Option ChecksumAlgorithm) (uploaded : List (PartMeta × Bytes)) :
    Option ChecksumAlgorithm × Option String := match algorithm with
  | none => (none,none)
  | some algo =>
    let sums := (uploaded.filterMap fun u => u.1.checksum_algorithm.map fun own => P.checksum own u.2).flatten
    if sums = [] then (some algo,none)
    else (some algo,some (P.b64_encode (P.checksum algo sums) ++ "-" ++ toString uploaded.length))

/-- The metadata of an object that was put together from parts with the given plain texts. -/
structure Completes (P : Primitives) (algorithm : Option ChecksumAlgorithm) (uploaded : List (PartMeta × Bytes))
    (record : ObjectMeta) : Prop where
  size : record.size = (uploaded.map Prod.snd).flatten.length
  etag : record.etag =
    quoted (hex_encode (P.md5 (uploaded.map fun u => P.md5 u.2).flatten) ++ "-" ++ toString uploaded.length)
  part_sizes : record.part_sizes = some (uploaded.map fun u => u.2.length)
  checksum : (record.checksum_algorithm,record.checksum_value) = compositeChecksum P algorithm uploaded

section Completion
variable {P : Primitives} {fs : FilesystemStorage} {bucket upload_id : String} {upload : MultipartUploadMeta}
  {uploaded : List (PartMeta × Bytes)} {draws : Draws} {w w' : World}

theorem Completes.sealed {algorithm : Option ChecksumAlgorithm} {record : ObjectMeta} (dek : Option Bytes)
    (completes : Completes P algorithm uploaded record) : Completes P algorithm uploaded (with_sidecar_mac P dek record) := by
  obtain ⟨size,etag,part_sizes,checksum⟩ := completes
  unfold with_sidecar_mac
  split
  · exact ⟨size,etag,part_sizes,checksum⟩
  · exact ⟨size,etag,part_sizes,checksum⟩

/-- Each part says of itself what `upload_part` says of its text. -/
structure Labelled (P : Primitives) (uploaded : List (PartMeta × Bytes)) : Prop where
  size : ∀ u ∈ uploaded, u.1.size = u.2.length
  etag : ∀ u ∈ uploaded, u.1.etag = quoted (hex_encode (P.md5 u.2))
  checksum : ∀ u ∈ uploaded,
    u.1.checksum_value = u.1.checksum_algorithm.map fun algo => P.b64_encode (P.checksum algo u.2)

theorem composite_checksum_eq (sound : P.Sound) (labelled : Labelled P uploaded) (algorithm : Option ChecksumAlgorithm) :
    FilesystemStorage.composite_checksum P algorithm (uploaded.map Prod.fst) = compositeChecksum P algorithm uploaded := by
  cases algorithm with
  | none => rfl
  | some algo =>
    have raw : (uploaded.map Prod.fst).filterMap (fun part => part.checksum_value.bind P.b64_decode) =
        uploaded.filterMap fun u => u.1.checksum_algorithm.map fun own => P.checksum own u.2 := by
      rw [List.filterMap_map]
      refine List.filterMap_congr fun u member => ?_
      rw [Function.comp_apply,labelled.checksum u member]
      cases u.1.checksum_algorithm with
      | none => rfl
      | some own => exact sound.base64 _
    simp only [FilesystemStorage.composite_checksum,compositeChecksum,raw,List.length_map]

theorem completed_meta_completes (sound : P.Sound) (labelled : Labelled P uploaded) {size : Nat}
    (whole : size = (uploaded.map Prod.snd).flatten.length) (version_id storage_format : Option String)
    (encryption : Option EncryptionMeta) :
    Completes P upload.checksum_algorithm uploaded (FilesystemStorage.completed_meta P draws upload (uploaded.map Prod.fst)
      (uploaded.map fun u => P.md5 u.2).flatten size version_id storage_format encryption) := by
  refine ⟨whole,?_,?_,composite_checksum_eq sound labelled _⟩
  · show FilesystemStorage.multipart_etag P _ (uploaded.map Prod.fst).length = _
    rw [List.length_map]
    rfl
  · show some ((uploaded.map Prod.fst).map PartMeta.size) = _
    rw [List.map_map]
    exact congrArg some (List.map_congr_left labelled.size)

/-- The metadata of a completed object describes an encrypted payload of its size. -/
theorem completed_meta_sealed (sound : P.Sound) {selected : List PartMeta} {digests body : Bytes} {size : Nat}
    {version_id storage_format : Option String} {enc : EncryptionMeta} {ck : Option Bytes} {cipher : FrameCipher}
    (whole : size = body.length) (keyed : Keyed P fs ck (build_frame_aad P bucket upload.key version_id) enc cipher) :
    Described P fs bucket upload.key (with_sidecar_mac P (some cipher.key)
      (FilesystemStorage.completed_meta P draws upload selected digests size version_id storage_format (some enc)))
      (some cipher) ck body :=
  described_sealed sound whole rfl keyed

/-- The version id, the key and the kind of a completed object. -/
theorem completed_meta_identity (dek : Option Bytes) (selected : List PartMeta) (digests : Bytes) (size : Nat)
    (version_id storage_format : Option String) (encryption : Option EncryptionMeta) :
    let record := with_sidecar_mac P dek
      (FilesystemStorage.completed_meta P draws upload selected digests size version_id storage_format encryption)
    record.version_id = version_id ∧ record.is_delete_marker = false ∧ record.key = upload.key := by
  unfold with_sidecar_mac
  split <;> exact ⟨rfl,rfl,rfl⟩

/-! ### Gathering the parts -/

/-- The selected records are those of the parts. -/
theorem select_parts_done (valid : ValidBucket bucket) (names : NamesUpload upload_id) {parts : List (Nat × String)}
    {selected : List PartMeta} (asked : uploaded.map (fun u => u.1.part_number) = parts.map Prod.fst)
    (shown : ∀ u ∈ uploaded, w.tree.node (partRecordAt fs bucket upload_id u.1.part_number) =
      some (.file (.json (.part u.1))))
    (done : fs.select_parts bucket upload_id parts w = (.ok selected,w')) : selected = uploaded.map Prod.fst ∧ w' = w := by
  induction parts generalizing uploaded selected w' with
  | nil =>
    rw [List.map_nil,List.map_eq_nil_iff] at asked
    rw [asked]
    exact pure_ok_iff.mp done
  | cons part rest ih =>
    obtain ⟨number,requested⟩ := part
    cases uploaded with
    | nil => cases asked
    | cons u others =>
      rw [List.map_cons,List.map_cons,List.cons.injEq] at asked
      obtain ⟨rfl,asked⟩ := asked
      have read : fs.read_part_meta bucket upload_id u.1.part_number w = (.ok u.1,w) := by
        have found : or_not_found (.InvalidKey ("missing part " ++ toString u.1.part_number))
            (Fs.read (part_meta_path fs.buckets_dir bucket upload_id u.1.part_number)) w = (.ok (.json (.part u.1)),w) :=
          Prog.mapError_ok_iff.mpr (Fs.read_file (part_record_leads valid names _) (shown u (by simp)))
        rw [FilesystemStorage.read_part_meta,Prog.bind_of_ok found]
        rfl
      rw [FilesystemStorage.select_parts,Prog.bind_of_ok read] at done
      split at done
      next => cases done
      next =>
        split at done
        next => cases done
        next =>
          rw [Prog.bind_ok_iff] at done
          obtain ⟨records,w₁,more,done⟩ := done
          obtain ⟨rfl,rfl⟩ := ih asked (fun u' member => shown u' (by simp [member])) more
          exact pure_ok_iff.mp done

/-- Every part can be read back, as long as its file is left alone. -/
def Gathers (P : Primitives) (fs : FilesystemStorage) (bucket upload_id : String) (dek : Option Bytes)
    (uploaded : List (PartMeta × Bytes)) (w₀ : World) : Prop :=
  ∀ u ∈ uploaded, ∀ w, w.tree.node (partAt fs bucket upload_id u.1.part_number) =
      w₀.tree.node (partAt fs bucket upload_id u.1.part_number) →
    ∃ pieces, fs.part_reads P bucket upload_id dek u.1 w = (.ok (pieces,none),w) ∧ pieces.flatten = u.2

theorem Gathers.moved {dek : Option Bytes} {w₀ w₁ : World} (gathers : Gathers P fs bucket upload_id dek uploaded w₀)
    (same : ∀ n, w₁.tree.node (partAt fs bucket upload_id n) = w₀.tree.node (partAt fs bucket upload_id n)) :
    Gathers P fs bucket upload_id dek uploaded w₁ :=
  fun u member w kept => gathers u member w (kept.trans (same _))

/-- A writer that is fed the parts, one after the other, takes in their concatenation. -/
theorem pump_parts_ok {α : Type} {write : α → Bytes → Action α} {dek : Option Bytes} {w₀ : World}
    (labelled : ∀ u ∈ uploaded, u.1.etag = quoted (hex_encode (P.md5 u.2)))
    (gathers : Gathers P fs bucket upload_id dek uploaded w₀) (I : Bytes → α → World → Prop)
    (kept : ∀ body a w n, I body a w →
      w.tree.node (partAt fs bucket upload_id n) = w₀.tree.node (partAt fs bucket upload_id n))
    (step : ∀ body a w piece a' w', I body a w → write a piece w = (.ok a',w') → I (body ++ piece) a' w')
    (body digests : Bytes) {start last : α} {digests' : Bytes} (begins : I body start w)
    (done : fs.pump_parts P bucket upload_id dek write start digests (uploaded.map Prod.fst) w = (.ok (last,digests'),w')) :
    I (body ++ (uploaded.map Prod.snd).flatten) last w' ∧
      digests' = digests ++ (uploaded.map fun u => P.md5 u.2).flatten := by
  induction uploaded generalizing w start body digests with
  | nil =>
    rw [List.map_nil,FilesystemStorage.pump_parts,pure_ok_iff,Prod.mk.injEq] at done
    obtain ⟨⟨rfl,rfl⟩,rfl⟩ := done
    simpa using begins
  | cons u rest ih =>
    obtain ⟨pieces,read,whole⟩ := gathers u (by simp) w (kept _ _ _ _ begins)
    rw [List.map_cons,FilesystemStorage.pump_parts,Prog.bind_of_ok read] at done
    dsimp only at done
    rw [Prog.bind_ok_iff] at done
    obtain ⟨a,w₁,pumped,done⟩ := done
    obtain ⟨_,next⟩ := pump_ok I step body begins pumped
    have tag : hex_decode (trim_quotes u.1.etag) = some (P.md5 u.2) := by
      rw [labelled u (by simp),trim_quotes_quoted (hex_encode_quote _),hex_decode_encode]
    rw [tag] at done
    obtain ⟨took,summed⟩ := ih (fun u' member => labelled u' (by simp [member]))
      (fun u' member => gathers u' (by simp [member])) (body ++ pieces.flatten) (digests ++ P.md5 u.2) next done
    rw [whole] at took
    exact ⟨by simpa using took,by simpa using summed⟩

/-! ### The three stores -/

/-- The file of a part lies apart from all that a key can touch. -/
theorem part_untouched {key : String} (accepted : Accepted bucket key) {own stored : List String}
    (apart : ∀ n ∈ own, n ∉ topNames) (number : Nat) :
    ¬ Touched fs bucket key own (tempNames draws) stored (partAt fs bucket upload_id number) ∧
      ¬ Opened fs bucket key (partAt fs bucket upload_id number) := by
  have spelled : partAt fs bucket upload_id number =
      base fs.buckets_dir bucket ++ ".uploads" :: [upload_id,toString number] := by
    simp [partAt,uploadAt]
  rw [spelled]
  exact uploads_untouched accepted accepted.validBucket apart _

/-- The file of a part is no chunk in the temporary directory of a key. -/
theorem part_ne_chunk {key : String} (accepted : Accepted bucket key) (number i : Nat) :
    partAt fs bucket upload_id number ≠ home fs bucket key ++ [tempName draws.tmp_payload] ++ [chunk_name i] := by
  intro same
  have untouched := @part_untouched fs bucket upload_id draws _ accepted [] [] (by simp) number
  exact untouched.1 (.inl ⟨tempName draws.tmp_payload,by simp [tempNames],by rw [same]; exact List.prefix_append _ _⟩)

/-- The key of a completed object is the one that was drawn for it. -/
theorem completion_keyed (sound : P.Sound) {req : EncryptionRequest} {enc : EncryptionMeta} {ck : Option Bytes}
    {dek nonce : Bytes} {failed : StorageError} {aad : Nat → Bytes}
    (prepared : fs.prepare_encryption P draws req w = (.ok enc,w')) (resolved : fs.resolve_dek P enc ck = .ok dek)
    (decoded : FilesystemStorage.required failed (P.b64_decode enc.nonce_prefix) = .ok nonce) :
    Keyed P fs ck aad enc { key := dek, nonce_prefix := nonce, aad } := by
  refine ⟨(prepare_encryption_done prepared).1,resolved,rfl,?_⟩
  show nonce.length = 8
  rw [prepared_nonce sound prepared decoded,draws.prefix_length]

theorem completion_sealing_done (sound : P.Sound) {spec : Option UploadEncryptionSpec} {ck : Option Bytes}
    {sealing : Option (EncryptionMeta × Bytes × Bytes)}
    (done : fs.completion_sealing P draws spec ck w = (.ok sealing,w')) :
    SameDisk w w' ∧ sealing.isSome = spec.isSome ∧ ∀ enc dek nonce aad, sealing = some (enc,dek,nonce) →
      Keyed P fs ck aad enc { key := dek, nonce_prefix := nonce, aad } := by
  cases spec with
  | none =>
    obtain ⟨rfl,rfl⟩ := pure_ok_iff.mp done
    exact ⟨⟨rfl,rfl⟩,rfl,fun _ _ _ _ none => by cases none⟩
  | some s =>
    simp only [FilesystemStorage.completion_sealing,Prog.bind_ok_iff,lift_ok_iff,Prog.mapError_ok_iff,pure_ok_iff] at done
    obtain ⟨req,_,⟨_,rfl⟩,enc,w₁,prepared,dek,_,⟨resolved,rfl⟩,nonce,_,⟨decoded,rfl⟩,rfl,rfl⟩ := done
    refine ⟨(prepare_encryption_done prepared).2.2,rfl,fun _ _ _ aad given => ?_⟩
    cases given
    exact completion_keyed sound prepared resolved decoded

/-- The cipher of a completed object. -/
def sealingCipher (P : Primitives) (bucket key : String) (version_id : Option String)
    (sealing : Option (EncryptionMeta × Bytes × Bytes)) : Option FrameCipher := sealing.map fun s =>
  { key := s.2.1, nonce_prefix := s.2.2, aad := build_frame_aad P bucket key version_id }

section Stores
variable (sound : P.Sound) (accepted : Accepted bucket upload.key) (labelled : Labelled P uploaded)
include sound accepted labelled

/-- The flat store of a completion. -/
theorem store_completed_done {version_id : Option String} {ck dek : Option Bytes} {record : ObjectMeta}
    {sealing : Option (EncryptionMeta × Bytes × Bytes)} (unsealed : sealing = none → ck = none)
    (keyed : ∀ enc dek nonce aad, sealing = some (enc,dek,nonce) →
      Keyed P fs ck aad enc { key := dek, nonce_prefix := nonce, aad })
    (gathers : Gathers P fs bucket upload_id dek uploaded w)
    (done : fs.store_completed P draws bucket upload_id upload (uploaded.map Prod.fst) dek version_id sealing w =
      (.ok record,w')) :
    Completes P upload.checksum_algorithm uploaded record ∧
      Written P fs bucket upload.key version_id (sealingCipher P bucket upload.key version_id sealing) ck
        (uploaded.map Prod.snd).flatten false record w' := by
  have leads := accepted.temp_object_leads fs draws.tmp_payload_slash
  simp only [FilesystemStorage.store_completed,Common.with_guard,Prog.bind_ok_iff,Prog.guarded_ok_iff,io_ok_iff,
    pure_ok_iff] at done
  obtain ⟨_,w₁,made,_,w₂,created,⟨fw,digests⟩,w₃,pumped,fw',w₄,finished,_,w₅,published,rfl,rfl⟩ := done
  obtain ⟨sets,_,_⟩ := Fs.write_done leads created
  have holding : Holding (objectDir fs bucket upload.key ++ [tempName draws.tmp_payload]) [] w₁ w₂ := ⟨sets.rows,sets.tree⟩
  -- neither the directory nor the temporary file is in the way of a part
  have frame : Frame (Touched fs bucket upload.key [] (tempNames draws) []) (Opened fs bucket upload.key) w w₁ := by
    have ran : Frame (Touched fs bucket upload.key [] (tempNames draws) []) (Opened fs bucket upload.key) w
        (Fs.create_dir_all (objectDir fs bucket upload.key) w).2 :=
      Fs.frames_create_dir_all (accepted.objectDir_forward fs) (opened_objectDir accepted) w
    rwa [show Fs.create_dir_all (objectDir fs bucket upload.key) w = _ from made] at ran
  have untouched := fun number => @part_untouched fs bucket upload_id draws _ accepted [] [] (by simp) number
  have apart : ∀ n, partAt fs bucket upload_id n ≠ objectDir fs bucket upload.key ++ [tempName draws.tmp_payload] := by
    intro n same
    exact (untouched n).1 (.inr (.inl ⟨tempName draws.tmp_payload,by simp [tempNames],by rw [same]⟩))
  have reads := gathers.moved fun n => frame.same (untouched n).1 (untouched n).2
  obtain ⟨took,rfl⟩ := pump_parts_ok labelled.etag reads (fun body fw w =>
      FlatWriter.Took P (sealingCipher P bucket upload.key version_id sealing) _ w₁ body fw w)
    (fun body fw w n took => took.elsewhere (apart n))
    (fun _ _ _ _ _ _ took done => FlatWriter.write_done leads took done) [] [] (FlatWriter.took_new holding) pumped
  obtain ⟨size,content,payload,held⟩ := FlatWriter.finish_done leads took finished
  have named := accepted.named_of_not_dotted fs (publish_undotted published)
  have same := accepted.objectDir_of_named fs named
  rw [same] at held leads
  have here : w₄.tree.node (home fs bucket upload.key ++ [tempName draws.tmp_payload]) = some (.file (.bytes content)) := by
    rw [held.tree,if_pos rfl]
  obtain ⟨shown,moved⟩ := publish_done accepted (accepted.object_leads named) leads objectName_ne_metaName
    (fun uuid _ => objectName_ne_tempName accepted.validKey named) (by simp [here]) published
  have file := moved []
  simp only [List.append_nil] at file
  rw [List.nil_append] at size payload
  refine ⟨(completed_meta_completes sound labelled size _ _ _).sealed _,
    ⟨shown,?_,.flat content named (file.trans here) payload⟩,?_,?_,?_⟩
  · cases sealing with
    | none =>
      rw [unsealed rfl]
      exact described_plain size rfl
    | some pair => exact completed_meta_sealed sound size (keyed pair.1 pair.2.1 pair.2.2 _ rfl)
  · exact (completed_meta_identity _ _ _ _ _ _ _).1
  · exact (completed_meta_identity _ _ _ _ _ _ _).2.1
  · exact (completed_meta_identity _ _ _ _ _ _ _).2.2

/-- A plain completion in chunks. -/
theorem store_completed_chunked_done {record : ObjectMeta}
    (gathers : Gathers P fs bucket upload_id none uploaded w) (plain : ∀ u ∈ uploaded, u.1.encrypted = false)
    (done : fs.store_completed_chunked P draws bucket upload_id upload (uploaded.map Prod.fst) w = (.ok record,w')) :
    Completes P upload.checksum_algorithm uploaded record ∧ Written P fs bucket upload.key (versionId fs draws bucket w)
      none none (uploaded.map Prod.snd).flatten true record w' := by
  obtain ⟨w₁,done,frame⟩ := in_temp_ec_dir_done accepted done
  have leads := accepted.temp_ec_leads fs draws.tmp_payload_slash
  have same : (uploaded.map Prod.fst).map (fun part => { part with encrypted := false }) = uploaded.map Prod.fst := by
    rw [List.map_map]
    refine List.map_congr_left fun u member => ?_
    have own := plain u member
    obtain ⟨⟨number,etag,size,modified,algorithm,value,encrypted,ciphertext_size⟩,text⟩ := u
    cases own
    rfl
  simp only [same,Prog.bind_ok_iff,pure_ok_iff] at done
  obtain ⟨id,w₂,chosen,⟨⟨total,cw⟩,digests⟩,w₃,pumped,cw',w₄,finished,format,w₅,manifested,_,w₆,published,rfl,rfl⟩ := done
  rw [next_version_id_eq accepted.bucket,temp_versioned accepted frame,Prod.mk.injEq,Except.ok.injEq] at chosen
  obtain ⟨rfl,rfl⟩ := chosen
  have untouched := fun number => @part_untouched fs bucket upload_id draws _ accepted [] [] (by simp) number
  have reads := gathers.moved fun n => frame.same (untouched n).1 (untouched n).2
  obtain ⟨took,rfl⟩ := pump_parts_ok labelled.etag reads (fun body acc w => acc.1 = body.length ∧
      acc.2.Took P (home fs bucket upload.key ++ [tempName draws.tmp_payload]) w₁ fs.chunk_size body w)
    (fun _ _ _ n took => took.2.wrote.outside.tree _ fun i => part_ne_chunk accepted n i)
    (fun _ _ _ _ _ _ took done => write_plain_done leads fs.chunk_size_pos took done) [] []
    ⟨rfl,ChunkWriter.took_new ⟨rfl,fun _ _ => rfl⟩⟩ pumped
  rw [List.nil_append] at took
  have fin := ChunkWriter.finish_done leads fs.chunk_size_pos took.2 finished
  obtain ⟨⟨manifest,holds⟩,_⟩ := write_manifest_done fs leads fin took.1 manifested
  obtain ⟨shown,stored⟩ := publish_chunks_done accepted holds published
  refine ⟨completed_meta_completes sound labelled took.1 _ _ _,
    ⟨shown,described_plain took.1 rfl,.chunked _ manifest stored rfl⟩,rfl,rfl,rfl⟩

/-- An encrypted completion in chunks. -/
theorem store_completed_chunked_encrypted_done {spec : UploadEncryptionSpec} {ck dek : Option Bytes} {record : ObjectMeta}
    (keyed : fs.upload_key P (some spec) ck = .ok dek) (gathers : Gathers P fs bucket upload_id dek uploaded w)
    (done : fs.store_completed_chunked_encrypted P draws bucket upload_id upload spec (uploaded.map Prod.fst) ck w =
      (.ok record,w')) :
    Completes P upload.checksum_algorithm uploaded record ∧ ∃ cipher, Written P fs bucket upload.key
      (versionId fs draws bucket w) (some cipher) ck (uploaded.map Prod.snd).flatten true record w' := by
  obtain ⟨w₁,done,frame⟩ := in_temp_ec_dir_done accepted done
  have leads := accepted.temp_ec_leads fs draws.tmp_payload_slash
  simp only [Prog.bind_ok_iff,pure_ok_iff,lift_ok_iff,Prog.mapError_ok_iff,except_mapError_ok] at done
  obtain ⟨id,w₂,chosen,udek,_,⟨opened,rfl⟩,req,_,⟨_,rfl⟩,enc,_,prepared,dek',_,⟨resolved,rfl⟩,nonce,w₃,⟨decoded,rfl⟩,
    ⟨sw,digests⟩,w₄,pumped,sw',w₅,finished,format,w₆,manifested,_,w₇,published,rfl,rfl⟩ := done
  rw [next_version_id_eq accepted.bucket,temp_versioned accepted frame,Prod.mk.injEq,Except.ok.injEq] at chosen
  obtain ⟨rfl,rfl⟩ := chosen
  have opens : dek = some udek := by
    simp only [FilesystemStorage.upload_key,opened,bind,Except.bind] at keyed
    cases keyed
    rfl
  subst opens
  have untouched := fun number => @part_untouched fs bucket upload_id draws _ accepted [] [] (by simp) number
  have reads := gathers.moved fun n => (congrArg (fun t : Disk => t.node _) (prepare_encryption_done prepared).2.2.tree).trans
    (frame.same (untouched n).1 (untouched n).2)
  let cipher : FrameCipher :=
    { key := dek', nonce_prefix := nonce, aad := build_frame_aad P bucket upload.key (versionId fs draws bucket w) }
  have sealed' : Keyed P fs ck (build_frame_aad P bucket upload.key (versionId fs draws bucket w)) enc cipher :=
    completion_keyed sound prepared resolved decoded
  obtain ⟨took,rfl⟩ := pump_parts_ok labelled.etag reads (fun body sw u =>
      SealedWriter.Took P cipher (home fs bucket upload.key ++ [tempName draws.tmp_payload]) w₃ fs.chunk_size body sw u)
    (fun _ _ _ n took => took.outside.tree _ fun i => part_ne_chunk accepted n i)
    (fun _ _ _ _ _ _ took done => SealedWriter.write_done leads fs.chunk_size_pos took done) [] []
    (SealedWriter.took_new ⟨rfl,fun _ _ => rfl⟩) pumped
  rw [List.nil_append] at took
  obtain ⟨size,frames,sealed,fin⟩ := SealedWriter.finish_done leads fs.chunk_size_pos took finished
  obtain ⟨⟨manifest,holds⟩,_⟩ := write_manifest_done fs leads fin fin.written manifested
  obtain ⟨shown,stored⟩ := publish_chunks_done accepted holds published
  refine ⟨(completed_meta_completes sound labelled size _ _ _).sealed _,cipher,
    ⟨shown,completed_meta_sealed sound size sealed',.chunked frames.flatten manifest stored ⟨frames,sealed,rfl⟩⟩,?_,?_,?_⟩
  · exact (completed_meta_identity _ _ _ _ _ _ _).1
  · exact (completed_meta_identity _ _ _ _ _ _ _).2.1
  · exact (completed_meta_identity _ _ _ _ _ _ _).2.2

end Stores

/-! ### After publication -/

theorem pump_parts_frames {S G : OsPath → Prop} {α : Type} {write : α → Bytes → Action α} {dek : Option Bytes}
    (step : ∀ a piece, Frames S G (write a piece)) (a : α) (digests : Bytes) (parts : List PartMeta) :
    Frames S G (fs.pump_parts P bucket upload_id dek write a digests parts) := by
  induction parts generalizing a digests with
  | nil => exact Frames.pure _
  | cons part rest ih =>
    refine Frames.bind (part_reads_quiet dek part).frames fun read => ?_
    refine Frames.bind (pump_frames _ _ _ step) fun a' => ?_
    cases hex_decode (trim_quotes part.etag) with
    | none => exact Frames.fail _
    | some raw => exact ih a' _

theorem store_completed_frames {key : String} (same : upload.key = key) (accepted : Accepted bucket key)
    {own stored : List String} {selected : List PartMeta} {dek : Option Bytes} {version_id : Option String}
    {sealing : Option (EncryptionMeta × Bytes × Bytes)} (file : objectName key ∈ own) (side : metaName key ∈ own) :
    Frames (Touched fs bucket key own (tempNames draws) stored) (Opened fs bucket key)
      (fs.store_completed P draws bucket upload_id upload selected dek version_id sealing) := by
  subst same
  have leads := accepted.temp_object_leads fs draws.tmp_payload_slash
  have inside : ∀ q, canon (temp_sibling_path (object_path fs.buckets_dir bucket upload.key) draws.tmp_payload) <+: q →
      Touched fs bucket upload.key own (tempNames draws) stored q := by
    intro q below
    rw [leads.names] at below
    exact .inr (.inl ⟨tempName draws.tmp_payload,by simp [tempNames],below⟩)
  have here := inside _ (List.prefix_refl _)
  refine Frames.bind (Frames.io (Fs.frames_create_dir_all (accepted.objectDir_forward fs) (opened_objectDir accepted)))
    fun _ => Frames.with_guard ?_ leads.entry inside
  refine Frames.bind (Frames.io (Fs.frames_write leads.entry.forward (fun _ => here) _)) fun _ => ?_
  refine Frames.bind (pump_parts_frames (fun fw piece => flat_write_frames leads.entry.forward here _ fw piece) _ _ _)
    fun fw => ?_
  refine Frames.bind (flat_finish_frames leads.entry.forward here _ _) fun _ => ?_
  exact Frames.bind (publish_frames accepted side (covered_object accepted file) (fun dir => by cases dir) leads.entry.forward inside
    (opened_objectDir accepted)) fun _ => Frames.pure _

/-- What the end of a completion can touch: stored versions of the key, and the upload. -/
def Tidied (fs : FilesystemStorage) (bucket key upload_id : String) (draws : Draws) (q : OsPath) : Prop :=
  Touched fs bucket key [] (tempNames draws) (versionNames draws.version_id) q ∨ uploadAt fs bucket upload_id <+: q

theorem remove_upload_frames {S G : OsPath → Prop} (valid : ValidBucket bucket) (names : NamesUpload upload_id)
    (inside : ∀ q, uploadAt fs bucket upload_id <+: q → S q) :
    Frames S G (Fs.remove_dir_all (upload_dir fs.buckets_dir bucket upload_id)) := by
  have plain := @uploadAt_plain fs _ _ valid names
  rw [upload_dir_eq valid names]
  refine Fs.frames_remove_dir_all (fun s member => (plain s member).2) ?_ fun _ q below => inside q ?_
  · intro last
    have dot : upload_id = "." := by simpa [uploadAt] using last
    have kept := names.kept
    rw [dot] at kept
    cases kept
  · rwa [canon_of_plain fun s member => (plain s member).1] at below

theorem finish_complete_frames {key : String} (valid : ValidBucket bucket) (names : NamesUpload upload_id)
    {record : ObjectMeta} {write : Action Unit} (frames : Frames (Touched fs bucket key [] (tempNames draws)
      (versionNames draws.version_id)) (Opened fs bucket key) write) :
    Frames (Tidied fs bucket key upload_id draws) (Opened fs bucket key)
      (fs.finish_complete bucket upload_id record write) := by
  refine Frames.bind (keep_version_frames (frames.mono (fun _ => .inl) fun _ => .inr)) fun _ => ?_
  refine Frames.bind (Frames.io (remove_upload_frames valid names fun _ => .inr)) fun _ => ?_
  exact Frames.bind (index_upsert_frames record) fun _ => Frames.pure _

/-- The places of a key are not in the upload. -/
theorem own_untidied {key : String} (accepted : Accepted bucket key) {n : String} (member : n ∈ ownNames key)
    (fresh : n ∉ tempNames draws) {q : OsPath} (below : home fs bucket key ++ [n] <+: q) :
    ¬ Tidied fs bucket key upload_id draws q := by
  rintro (touched | under)
  · exact own_untouched accepted member (by simp) fresh below touched
  · have own : ∀ s ∈ stem key ++ [n], s ≠ ".uploads" := by
      rintro s inside rfl
      rcases List.mem_append.mp inside with early | last
      · exact names_ne_top accepted.validKey _ (stem_subset _ early) (by decide)
      · exact ownNames_ne_top accepted.validKey n member (by rw [← List.mem_singleton.mp last]; decide)
    have first : base fs.buckets_dir bucket ++ [".uploads"] <+: base fs.buckets_dir bucket ++ (stem key ++ [n]) := by
      refine List.prefix_of_prefix_length_le ?_ (show _ <+: q from ?_) (by simp)
      · exact (by simp [uploadAt] : _ <+: uploadAt fs bucket upload_id).trans under
      · rwa [← List.append_assoc]
    rw [List.prefix_append_right_inj] at first
    exact own _ (first.subset (by simp)) rfl

/-- The end of a completion leaves the current object alone, and the result repeats its metadata. -/
theorem finish_complete_done {key : String} (accepted : Accepted bucket key) (names : NamesUpload upload_id)
    {version_id : Option String} {cipher : Option FrameCipher} {ck : Option Bytes} {body : Bytes} {coded : Bool}
    {record : ObjectMeta} {write : Action Unit} {result : PutResult}
    (written : Written P fs bucket key version_id cipher ck body coded record w)
    (frames : Frames (Touched fs bucket key [] (tempNames draws) (versionNames draws.version_id)) (Opened fs bucket key)
      write)
    (done : fs.finish_complete bucket upload_id record write w = (.ok result,w')) :
    Written P fs bucket key version_id cipher ck body coded record w' ∧ result = FilesystemStorage.put_result record := by
  have frame : Frame _ _ w (fs.finish_complete bucket upload_id record write w).2 :=
    finish_complete_frames accepted.validBucket names frames w
  rw [done] at frame
  refine ⟨written.frame accepted frame fun n member fresh q below => own_untidied accepted member fresh below,?_⟩
  simp only [FilesystemStorage.finish_complete,Prog.bind_ok_iff,pure_ok_iff] at done
  obtain ⟨_,_,_,_,_,_,_,_,_,same,_⟩ := done
  exact same

/-! ### Completions -/

/-- Parts that are as `upload_part` left them can be gathered. -/
theorem gathers_of_stored (sound : P.Sound) (valid : ValidBucket bucket) {ck dek : Option Bytes} (stored : UploadStored P fs bucket upload_id upload w)
    (kept : ∀ u ∈ uploaded, PartStored P fs bucket upload_id upload ck u.1 u.2 w)
    (keyed : fs.upload_key P upload.encryption_spec ck = .ok dek) : Gathers P fs bucket upload_id dek uploaded w :=
  fun u member _ same => part_reads_done sound valid stored.names stored.eight (kept u member) keyed same

theorem labelled_of_stored {ck : Option Bytes}
    (kept : ∀ u ∈ uploaded, PartStored P fs bucket upload_id upload ck u.1 u.2 w) : Labelled P uploaded :=
  ⟨fun u member => (kept u member).size,fun u member => (kept u member).etag,fun u member => (kept u member).checksum⟩

theorem read_upload_meta_stored (valid : ValidBucket bucket) (stored : UploadStored P fs bucket upload_id upload w) :
    fs.read_upload_meta bucket upload_id w = (.ok upload,w) := by
  have found : or_not_found (.UploadNotFound upload_id) (Fs.read (upload_meta_path fs.buckets_dir bucket upload_id)) w =
      (.ok (.json (.upload upload)),w) :=
    Prog.mapError_ok_iff.mpr (Fs.read_file (upload_record_leads valid stored.names) stored.shown)
  rw [FilesystemStorage.read_upload_meta,Prog.bind_of_ok found]
  rfl

/-- The customer key an object is read with: that of its upload, if it was encrypted. -/
def readingKey (upload : MultipartUploadMeta) (customer_key : Option Bytes) : Option Bytes :=
  upload.encryption_spec.bind fun _ => customer_key

theorem store_completed_chunked_encrypted_key {spec : UploadEncryptionSpec} {selected : List PartMeta} {ck : Option Bytes}
    {record : ObjectMeta}
    (done : fs.store_completed_chunked_encrypted P draws bucket upload_id upload spec selected ck w = (.ok record,w')) :
    ∃ dek, fs.upload_key P (some spec) ck = .ok dek := by
  simp only [FilesystemStorage.store_completed_chunked_encrypted,FilesystemStorage.in_temp_ec_dir,Common.with_guard,
    Prog.bind_ok_iff,Prog.guarded_ok_iff,lift_ok_iff] at done
  obtain ⟨_,_,_,_,_,_,_,_,_,dek,_,⟨resolved,_⟩,_⟩ := done
  refine ⟨some dek,?_⟩
  rw [FilesystemStorage.upload_key,resolved]
  rfl

/-- A completion that succeeds has stored the concatenation of the parts, in the layout of the bucket. -/
theorem complete_multipart_upload_done (sound : P.Sound) {parts : List (Nat × String)} {customer_key : Option Bytes}
    {result : PutResult} (stored : UploadStored P fs bucket upload_id upload w)
    (asked : uploaded.map (fun u => u.1.part_number) = parts.map Prod.fst)
    (kept : ∀ u ∈ uploaded, PartStored P fs bucket upload_id upload customer_key u.1 u.2 w)
    (done : fs.complete_multipart_upload P draws bucket upload_id parts customer_key w = (.ok result,w')) :
    Accepted bucket upload.key ∧ (fs.effective_erasure_coding bucket w).1 = .ok (coded fs bucket w) ∧
      ∃ record cipher, cipher.isSome = upload.encryption_spec.isSome ∧
        Written P fs bucket upload.key (versionId fs draws bucket w) cipher (readingKey upload customer_key)
          (uploaded.map Prod.snd).flatten (coded fs bucket w) record w' ∧
        Completes P upload.checksum_algorithm uploaded record ∧ result = FilesystemStorage.put_result record ∧
        (coded fs bucket w = false → w'.tree.node (ecAt fs bucket upload.key) = w.tree.node (ecAt fs bucket upload.key)) := by
  simp only [FilesystemStorage.complete_multipart_upload,Prog.bind_ok_iff,lift_ok_iff] at done
  obtain ⟨_,_,⟨valid,rfl⟩,_,w,⟨_,rfl⟩,done⟩ := done
  have validBucket := validBucket_of_validate valid
  have names := stored.names
  have accepted : Accepted bucket upload.key := ⟨valid,stored.key⟩
  have labelled := labelled_of_stored kept
  split at done
  next => cases done
  next =>
    rw [Prog.bind_of_ok (read_upload_meta_stored validBucket stored)] at done
    simp only [Prog.bind_ok_iff,lift_ok_iff] at done
    obtain ⟨_,_,unlocked,selected,w₁,selecting,_,_,⟨_,rfl⟩,_,w₂,⟨_,rfl⟩,answer,w₃,asks,done⟩ := done
    have quiet := (FilesystemStorage.ensure_can_overwrite_quiet _ bucket upload.key).state unlocked
    subst quiet
    obtain ⟨rfl,rfl⟩ := select_parts_done validBucket names asked (fun u member => (kept u member).shown) selecting
    obtain ⟨rfl,rfl⟩ := effective_erasure_coding_done valid asks
    refine ⟨accepted,by rw [asks],?_⟩
    split at done
    next on =>
      rw [on]
      cases has : upload.encryption_spec with
      | some spec =>
        rw [has] at done
        simp only [Prog.bind_ok_iff,lift_ok_iff,FilesystemStorage.complete_multipart_chunked_encrypted] at done
        obtain ⟨_,_,⟨_,rfl⟩,_,w₄,⟨_,rfl⟩,record,w₅,completed,finished⟩ := done
        -- the store resolves the key of the parts itself
        obtain ⟨dek,keyed⟩ : ∃ dek, fs.upload_key P (some spec) customer_key = .ok dek :=
          store_completed_chunked_encrypted_key completed
        have gathers := gathers_of_stored sound validBucket stored kept (by rw [has]; exact keyed)
        obtain ⟨completes,cipher,written⟩ :=
          store_completed_chunked_encrypted_done sound accepted labelled keyed gathers completed
        obtain ⟨lasting,same⟩ := finish_complete_done accepted names written
          (write_version_chunked_frames accepted written.dated fun _ => id) finished
        refine ⟨record,some cipher,rfl,?_,completes,same,fun flat => absurd flat (by simp)⟩
        rwa [readingKey,has]
      | none =>
        rw [has] at done
        simp only [Prog.bind_ok_iff,FilesystemStorage.complete_multipart_chunked] at done
        obtain ⟨record,w₅,completed,finished⟩ := done
        have gathers := gathers_of_stored sound validBucket stored kept (by rw [has]; rfl)
        have plain : ∀ u ∈ uploaded, u.1.encrypted = false := by
          intro u member
          rw [(kept u member).encrypted,has]
          rfl
        obtain ⟨completes,written⟩ := store_completed_chunked_done sound accepted labelled gathers plain completed
        obtain ⟨lasting,same⟩ := finish_complete_done accepted names written
          (write_version_chunked_frames accepted written.dated fun _ => id) finished
        refine ⟨record,none,rfl,?_,completes,same,fun flat => absurd flat (by simp)⟩
        rwa [readingKey,has]
    next off =>
      rw [Bool.not_eq_true] at off
      rw [off]
      simp only [FilesystemStorage.complete_multipart_flat,Prog.bind_ok_iff,lift_ok_iff,next_version_id_eq valid,
        Prod.mk.injEq,Except.ok.injEq] at done
      obtain ⟨_,_,⟨_,rfl⟩,_,_,⟨_,rfl⟩,dek,w₄,⟨keyed,rfl⟩,sealing,w₅,began,_,_,⟨rfl,rfl⟩,record,w₆,completed,finished⟩ := done
      obtain ⟨disk,opens,seals⟩ := completion_sealing_done sound began
      have gathers := (gathers_of_stored sound validBucket stored kept keyed).moved fun n =>
        congrArg (fun t : Disk => t.node (partAt fs bucket upload_id n)) disk.tree
      have id_eq : (if versioned fs bucket w₅ then some draws.version_id else none) = versionId fs draws bucket w₄ := by
        rw [versionId,versioned,versioned,bucketRecord_congr (congrArg (fun t : Disk => t.node _) disk.tree)]
      rw [id_eq] at completed
      have unsealed : sealing = none → readingKey upload customer_key = none := by
        intro none
        rw [none] at opens
        rw [readingKey,Option.isSome_eq_false_iff.mp opens.symm |> Option.isNone_iff_eq_none.mp]
        rfl
      have sealed : ∀ enc dek nonce aad, sealing = some (enc,dek,nonce) →
          Keyed P fs (readingKey upload customer_key) aad enc { key := dek, nonce_prefix := nonce, aad } := by
        intro enc dek nonce aad given
        have encrypted : upload.encryption_spec.isSome = true := by rw [← opens,given]; rfl
        obtain ⟨spec,has⟩ := Option.isSome_iff_exists.mp encrypted
        rw [readingKey,has]
        exact seals enc dek nonce aad given
      obtain ⟨completes,written⟩ := store_completed_done sound accepted labelled unsealed sealed gathers completed
      obtain ⟨lasting,same⟩ := finish_complete_done accepted names written
        (write_version_frames accepted written.dated fun _ => id) finished
      refine ⟨record,_,?_,lasting,completes,same,fun _ => ?_⟩
      · rw [sealingCipher,Option.isSome_map,opens]
      · -- neither the store nor the end of the completion touches the directory of chunks
        have member : ecName upload.key ∈ ownNames upload.key := by simp [ownNames]
        have stores : Frame (Touched fs bucket upload.key [objectName upload.key,metaName upload.key] (tempNames draws) [])
            (Opened fs bucket upload.key) w₅ (fs.store_completed P draws bucket upload_id upload (uploaded.map Prod.fst) dek
              (versionId fs draws bucket w₄) sealing w₅).2 :=
          store_completed_frames rfl accepted (by simp) (by simp) w₅
        have ends : Frame (Tidied fs bucket upload.key upload_id draws) (Opened fs bucket upload.key) w₆
            (fs.finish_complete bucket upload_id record (fs.write_version bucket upload.key record
              (object_path fs.buckets_dir bucket upload.key)) w₆).2 :=
          finish_complete_frames validBucket names (write_version_frames accepted written.dated fun _ => id) w₆
        rw [completed] at stores
        rw [finished] at ends
        rw [ecAt,ends.same (own_untidied accepted member ecName_fresh (List.prefix_refl _)) (own_not_opened accepted member),
          stores.same (own_untouched accepted member ?_ ecName_fresh (List.prefix_refl _)) (own_not_opened accepted member),
          disk.tree]
        simp only [List.mem_cons,List.not_mem_nil,or_false,not_or]
        exact ⟨ecName_ne_objectName,ecName_ne_metaName⟩

/-- The four ways of completing an upload agree. Whatever the layout of the bucket and whether or not the upload is
    encrypted, what a completion that succeeds says of the object is determined by the parts. What is read back is their
    concatenation, unless it was stored in more chunks than a `u32` can count; a directory of chunks from before hides a
    flat object. -/
theorem completions_agree_iff (sound : P.Sound) {parts : List (Nat × String)} {customer_key : Option Bytes}
    {result : PutResult} (stored : UploadStored P fs bucket upload_id upload w)
    (asked : uploaded.map (fun u => u.1.part_number) = parts.map Prod.fst)
    (kept : ∀ u ∈ uploaded, PartStored P fs bucket upload_id upload customer_key u.1 u.2 w)
    (done : fs.complete_multipart_upload P draws bucket upload_id parts customer_key w = (.ok result,w')) :
    (∃ record, Shows fs bucket upload.key record w' ∧ result = FilesystemStorage.put_result record ∧
      Completes P upload.checksum_algorithm uploaded record) ∧
    ((¬ (fs.effective_erasure_coding bucket w).1 = .ok true → w.tree.node (ecAt fs bucket upload.key) ≠ some .dir) →
      (GivesBack P fs bucket upload.key (readingKey upload customer_key) (uploaded.map Prod.snd).flatten w' ↔
        ((fs.effective_erasure_coding bucket w).1 = .ok true →
          Countable fs upload.encryption_spec.isSome (uploaded.map Prod.snd).flatten.length))) := by
  obtain ⟨accepted,layout,record,cipher,sealed,written,completes,same,chunks⟩ :=
    complete_multipart_upload_done sound stored asked kept done
  refine ⟨⟨record,written.landed.shows',same,completes⟩,fun vacant => ?_⟩
  rw [layout,Except.ok.injEq] at vacant ⊢
  rw [← sealed]
  refine written.landed.gives_back_iff sound accepted fun flat => ?_
  rw [chunks flat]
  exact vacant (by simp [flat])

end Completion

namespace Sample

/-- Primitives with the true MD5 digests of the bodies and of the part digests below. -/
def completing : Primitives := { primitives with
  md5 := digest 16 [
    (abc,[0x90,0x01,0x50,0x98,0x3c,0xd2,0x4f,0xb0,0xd6,0x96,0x3f,0x7d,0x28,0xe1,0x7f,0x72]),
    ([0],[0x93,0xb8,0x85,0xad,0xfe,0x0d,0xa0,0x89,0xcd,0xf6,0x34,0x90,0x4f,0xd5,0x9f,0x71]),
    ([0x90,0x01,0x50,0x98,0x3c,0xd2,0x4f,0xb0,0xd6,0x96,0x3f,0x7d,0x28,0xe1,0x7f,0x72],
      [0xaf,0x5d,0xa9,0xf4,0x5a,0xf7,0xa3,0x00,0xe3,0xad,0xed,0x97,0x2f,0x8f,0xf6,0x87])] }

theorem completing_sound : completing.Sound :=
  ⟨primitives_sound.base64,primitives_sound.aead,primitives_sound.tag,primitives_sound.opened,primitives_sound.mac⟩

theorem fourfold_positive : 0 < 4 := by decide

/-- Chunks of four bytes. -/
def fourfold : FilesystemStorage := storage true 4 fourfold_positive

/-- An upload of `a` with one part is begun. -/
def upload_abc : Action Unit := do
  let _ ← fourfold.create_multipart_upload completing (draws 1) "logs" "a" "text/plain" none none
  let _ ← fourfold.upload_part completing (draws 2) "logs" (draws 1).upload_id 1 (stream abc abc_filled abc_fits) none
    none none

/-- `a` is stored in chunks, then the bucket is switched to the flat layout. -/
def put_and_switch : Action Unit := do
  let _ ← fourfold.put_object completing (draws 0) "logs" "a" "text/plain" (stream [0] (by decide) (by decide)) none none
    none
  fourfold.set_bucket_erasure_coding "logs" (some false)

def begun : MultipartUploadMeta where
  upload_id := (draws 1).upload_id
  bucket := "logs"
  key := "a"
  content_type := "text/plain"
  initiated := "1970-01-01T00:00:00+00:00"
  checksum_algorithm := none
  encryption_spec := none

def part_of_abc : PartMeta where
  part_number := 1
  etag := "\"900150983cd24fb0d6963f7d28e17f72\""
  size := 3
  last_modified := "1970-01-01T00:00:00+00:00"
  checksum_algorithm := none
  checksum_value := none
  encrypted := false
  ciphertext_size := none

/-- What `a` reads as, in eight reads of eight bytes. -/
def read_back (w : World) : Option (Bytes × Option IoError) := match fourfold.get_object completing "logs" "a" none w with
  | (.ok (reader,_),_) => read_to_end (ObjectReader.poll_read completing) (fun _ => 8) 8 0 reader
  | _ => none

theorem read_back_of_gives {body : Bytes} {w : World} (back : GivesBack completing fourfold "logs" "a" none body w)
    (short : body.length < 8) : read_back w = some (body,none) := by
  obtain ⟨reader,record,opened,_,reads⟩ := back
  rw [read_back,opened]
  exact reads (fun _ => 8) (fun _ => by decide) 8 short

/-- The upload and its part are in place. -/
def Begun (w : World) : Prop :=
  UploadStored completing fourfold "logs" begun.upload_id begun w ∧
    PartStored completing fourfold "logs" begun.upload_id begun none part_of_abc abc w

theorem begun_of_files {w : World}
    (files : w.tree.node (uploadRecordAt fourfold "logs" begun.upload_id) = some (.file (.json (.upload begun))) ∧
      w.tree.node (partRecordAt fourfold "logs" begun.upload_id 1) = some (.file (.json (.part part_of_abc))) ∧
      w.tree.node (partAt fourfold "logs" begun.upload_id 1) = some (.file (.bytes abc))) : Begun w := by
  obtain ⟨upload,part,payload⟩ := files
  exact ⟨⟨namesUpload_drawn (draws 1),upload,by decide +kernel,by simp [begun]⟩,
    ⟨part,⟨none,abc,rfl,payload,rfl⟩,rfl,by decide +kernel,rfl,rfl⟩⟩

theorem begun_abc : Begun (upload_abc (world false)).2 := begun_of_files (by decide +kernel)

end Sample

theorem completions_agree_abc :
    ∃ result w', Sample.fourfold.complete_multipart_upload Sample.completing (Sample.draws 3) "logs" Sample.begun.upload_id
        [(1,Sample.part_of_abc.etag)] none (Sample.upload_abc (Sample.world false)).2 = (.ok result,w') ∧
      result.etag = "\"af5da9f45af7a300e3aded972f8ff687-1\"" ∧
      GivesBack Sample.completing Sample.fourfold "logs" "a" none Sample.abc w' := by
  have ok : (Sample.fourfold.complete_multipart_upload Sample.completing (Sample.draws 3) "logs" Sample.begun.upload_id
      [(1,Sample.part_of_abc.etag)] none (Sample.upload_abc (Sample.world false)).2).1.isOk = true := by
    decide +kernel
  obtain ⟨result,w',done⟩ := Sample.isOk_spec ok
  have begun := Sample.begun_abc
  obtain ⟨⟨record,_,rfl,completes⟩,reads⟩ := @completions_agree_iff _ _ _ _ _ [(Sample.part_of_abc,Sample.abc)] _ _ _
    Sample.completing_sound _ _ _ begun.1 (by decide) (by simpa using begun.2) done
  refine ⟨_,w',done,completes.etag.trans (by decide +kernel),?_⟩
  exact (reads fun flat => absurd (by decide +kernel) flat).mpr fun _ => by decide +kernel

/-- A flat completion of a key that was stored in chunks before succeeds, and the chunks are what is read. -/
theorem chunks_hide_completion :
    ∃ result w', Sample.Begun (Sample.upload_abc (Sample.put_and_switch (Sample.world false)).2).2 ∧
      Sample.fourfold.complete_multipart_upload Sample.completing (Sample.draws 3) "logs" Sample.begun.upload_id
        [(1,Sample.part_of_abc.etag)] none (Sample.upload_abc (Sample.put_and_switch (Sample.world false)).2).2 =
          (.ok result,w') ∧
      ¬ GivesBack Sample.completing Sample.fourfold "logs" "a" none Sample.abc w' := by
  have begun : Sample.Begun (Sample.upload_abc (Sample.put_and_switch (Sample.world false)).2).2 :=
    Sample.begun_of_files (by decide +kernel)
  have ran : (Sample.fourfold.complete_multipart_upload Sample.completing (Sample.draws 3) "logs" Sample.begun.upload_id
      [(1,Sample.part_of_abc.etag)] none (Sample.upload_abc (Sample.put_and_switch (Sample.world false)).2).2).1.isOk =
        true ∧
      Sample.read_back (Sample.fourfold.complete_multipart_upload Sample.completing (Sample.draws 3) "logs"
        Sample.begun.upload_id [(1,Sample.part_of_abc.etag)] none
          (Sample.upload_abc (Sample.put_and_switch (Sample.world false)).2).2).2 = some ([0],none) := by
    decide +kernel
  obtain ⟨ok,reads⟩ := ran
  obtain ⟨result,w',done⟩ := Sample.isOk_spec ok
  refine ⟨result,w',begun,done,fun back => ?_⟩
  rw [done,Sample.read_back_of_gives back (by decide)] at reads
  exact absurd reads (by decide)

end Maxio
