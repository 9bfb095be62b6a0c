import Maxio.CompletionSpec

/-!
The checksum of a completed upload against the checksums of its parts. Parts choose their checksums one by one; the
completion collects whatever it finds and counts every part.
-/

namespace Maxio

/-- The composite value of parts that all carry the algorithm of the upload. -/
def compositeValue (P : Primitives) (algo : ChecksumAlgorithm) (uploaded : List (PartMeta × Bytes)) : String :=
  P.b64_encode (P.checksum algo (uploaded.map fun u => P.checksum algo u.2).flatten) ++ "-" ++ toString uploaded.length

/-- A recorded value covers every part, and there is none when a part cannot be covered. -/
structure CoversParts (P : Primitives) (algo : ChecksumAlgorithm) (uploaded : List (PartMeta × Bytes))
    (value : Option String) : Prop where
  right : ∀ v, value = some v → v = compositeValue P algo uploaded
  whole : (∃ u ∈ uploaded, u.1.checksum_algorithm ≠ some algo) → value = none

section
variable {P : Primitives} {algo : ChecksumAlgorithm} {uploaded : List (PartMeta × Bytes)}

/-- The checksums a completion collects. -/
def collected (P : Primitives) (uploaded : List (PartMeta × Bytes)) : Bytes :=
  (uploaded.filterMap fun u => u.1.checksum_algorithm.map fun own => P.checksum own u.2).flatten

theorem compositeChecksum_eq : compositeChecksum P (some algo) uploaded =
    if collected P uploaded = [] then (some algo,none)
    else (some algo,some (P.b64_encode (P.checksum algo (collected P uploaded)) ++ "-" ++ toString uploaded.length)) := rfl

/-- Parts that all carry one algorithm are collected in full. -/
theorem collected_uniform (uniform : ∀ u ∈ uploaded, u.1.checksum_algorithm = some algo) :
    collected P uploaded = (uploaded.map fun u => P.checksum algo u.2).flatten := by
  unfold collected
  induction uploaded with
  | nil => rfl
  | cons u rest ih =>
    rw [List.filterMap_cons,uniform u (by simp),Option.map_some,List.map_cons,List.flatten_cons,List.flatten_cons,
      ih fun u' member => uniform u' (by simp [member])]

/-- Nothing is collected exactly when no part has a checksum. -/
theorem collected_nil_iff (filled : ∀ algo data, P.checksum algo data ≠ []) :
    collected P uploaded = [] ↔ ∀ u ∈ uploaded, u.1.checksum_algorithm = none := by
  unfold collected
  rw [List.flatten_eq_nil_iff]
  constructor
  · intro empty u member
    cases own : u.1.checksum_algorithm with
    | none => rfl
    | some algo =>
      have listed : P.checksum algo u.2 ∈
          uploaded.filterMap fun u => u.1.checksum_algorithm.map fun own => P.checksum own u.2 :=
        List.mem_filterMap.mpr ⟨u,member,by rw [own,Option.map_some]⟩
      exact absurd (empty _ listed) (filled algo u.2)
  · intro bare sum listed
    obtain ⟨u,member,made⟩ := List.mem_filterMap.mp listed
    rw [bare u member] at made
    cases made

/-- The composite value covers the parts when all of them carry the algorithm of the upload, or none has a checksum. -/
theorem composite_covers_parts_iff (filled : ∀ algo data, P.checksum algo data ≠ []) :
    CoversParts P algo uploaded (compositeChecksum P (some algo) uploaded).2 ↔
      (∀ u ∈ uploaded, u.1.checksum_algorithm = some algo) ∨ ∀ u ∈ uploaded, u.1.checksum_algorithm = none := by
  by_cases bare : collected P uploaded = []
  · rw [compositeChecksum_eq,if_pos bare]
    refine iff_of_true ⟨fun v none => (Option.some_ne_none v none.symm).elim,fun _ => rfl⟩ (.inr ?_)
    exact (collected_nil_iff filled).mp bare
  · rw [compositeChecksum_eq,if_neg bare]
    have some_carries : ¬ ∀ u ∈ uploaded, u.1.checksum_algorithm = none :=
      fun none => bare ((collected_nil_iff filled).mpr none)
    constructor
    · intro covers
      left
      by_contra mixed
      push Not at mixed
      exact Option.some_ne_none _ (covers.whole mixed)
    · rintro (uniform | none)
      · refine ⟨fun v recorded => ?_,fun ⟨u,member,other⟩ => absurd (uniform u member) other⟩
        rw [Option.some.injEq,collected_uniform uniform] at recorded
        exact recorded.symm
      · exact absurd none some_carries

end

/-- However an upload with a checksum algorithm is completed, the value recorded for the object covers its parts if and
    only if they all carry that algorithm or none of them has a checksum. -/
theorem composite_covers_iff {P : Primitives} {fs : FilesystemStorage} {bucket upload_id : String}
    {upload : MultipartUploadMeta} {uploaded : List (PartMeta × Bytes)} {draws : Draws} {w w' : World}
    {parts : List (Nat × String)} {customer_key : Option Bytes} {result : PutResult} {algo : ChecksumAlgorithm}
    (sound : P.Sound) (filled : ∀ algo data, P.checksum algo data ≠ [])
    (stored : UploadStored P fs bucket upload_id upload w) (created : upload.checksum_algorithm = some algo)
    (asked : uploaded.map (fun u => u.1.part_number) = parts.map Prod.fst)
    (kept : ∀ u ∈ uploaded, PartStored P fs bucket upload_id upload customer_key u.1 u.2 w)
    (done : fs.complete_multipart_upload P draws bucket upload_id parts customer_key w = (.ok result,w')) :
    ∃ record, Shows fs bucket upload.key record w' ∧ result = FilesystemStorage.put_result record ∧
      record.checksum_algorithm = some algo ∧ (CoversParts P algo uploaded record.checksum_value ↔
        (∀ u ∈ uploaded, u.1.checksum_algorithm = some algo) ∨ ∀ u ∈ uploaded, u.1.checksum_algorithm = none) := by
  obtain ⟨_,_,record,_,_,written,completes,same,_⟩ := complete_multipart_upload_done sound stored asked kept done
  have recorded := completes.checksum
  rw [created] at recorded
  have value : record.checksum_value = (compositeChecksum P (some algo) uploaded).2 := congrArg Prod.snd recorded
  have named : record.checksum_algorithm = some algo := by
    have first := congrArg Prod.fst recorded
    rw [compositeChecksum_eq] at first
    split at first
    · exact first
    · exact first
  refine ⟨record,written.landed.shows',same,named,?_⟩
  rw [value]
  exact composite_covers_parts_iff filled

namespace Sample

def sha_of_abc : Bytes := [0xba,0x78,0x16,0xbf,0x8f,0x01,0xcf,0xea,0x41,0x41,0x40,0xde,0x5d,0xae,0x22,0x23,
  0xb0,0x03,0x61,0xa3,0x96,0x17,0x7a,0x9c,0xb4,0x10,0xff,0x61,0xf2,0x00,0x15,0xad]

def sha_of_sha : Bytes := [0x4f,0x8b,0x42,0xc2,0x2d,0xd3,0x72,0x9b,0x51,0x9b,0xa6,0xf6,0x8d,0x2d,0xa7,0xcc,
  0x5b,0x2d,0x60,0x6d,0x05,0xda,0xed,0x5a,0xd5,0x12,0x8c,0xc0,0x3e,0x6c,0x63,0x58]

def crc_of_abc : Bytes := [0x35,0x24,0x41,0xc2]

def sha_of_crc : Bytes := [0xca,0x4d,0x80,0xde,0x1e,0x88,0xb2,0x99,0x99,0x2e,0x5f,0x83,0xc3,0x57,0xd5,0xd2,
  0xcd,0x0a,0x13,0x8f,0x99,0x9e,0xb3,0x4b,0x31,0x94,0x40,0x83,0x2d,0x00,0xe2,0x0f]

/-- The base64 of the digests above. -/
def sum_texts : List (Bytes × String) :=
  [(sha_of_abc,"ungWv48Bz+pBQUDeXa4iI7ADYaOWF3qctBD/YfIAFa0="),(sha_of_sha,"T4tCwi3TcptRm6b2jS2nzFstYG0F2u1a1RKMwD5sY1g="),
    (crc_of_abc,"NSRBwg=="),(sha_of_crc,"yk2A3h6IspmZLl+Dw1fV0s0KE4+ZnrNLMZRAgy0A4g8=")]

/-- Primitives with the true checksums of `abc` and of its checksums. -/
def summing : Primitives := tabled { completing with
  checksum := fun
    | .SHA256 => digest 32 [(abc,sha_of_abc),(sha_of_abc,sha_of_sha),(crc_of_abc,sha_of_crc)]
    | .SHA1 => digest 20 []
    | _ => digest 4 [(abc,crc_of_abc)] } [] sum_texts

theorem summing_sound : summing.Sound :=
  tabled_sound completing_sound.mac ⟨by simp,by simp,by simp⟩ ⟨by decide +kernel,by decide +kernel⟩

theorem digest_filled {length : Nat} (positive : 0 < length) {table : List (Bytes × Bytes)}
    (filled : ∀ e ∈ table, e.2 ≠ []) (data : Bytes) : digest length table data ≠ [] := by
  unfold digest
  cases listed : table.lookup data with
  | none =>
    have long : (resize data length).length = length := by
      simp only [resize,List.length_append,List.length_take,List.length_replicate]
      omega
    intro empty
    rw [Option.getD_none] at empty
    rw [empty,List.length_nil] at long
    omega
  | some sum =>
    obtain ⟨front,back,rfl,_⟩ := List.lookup_eq_some_iff.mp listed
    exact filled (data,sum) (by simp)

theorem summing_filled (algo : ChecksumAlgorithm) (data : Bytes) : summing.checksum algo data ≠ [] := by
  cases algo with
  | SHA256 => exact digest_filled (by decide) (by decide) data
  | SHA1 => exact @digest_filled 20 (by decide) [] (by simp) data
  | CRC32 => exact digest_filled (by decide) (by decide) data
  | CRC32C => exact digest_filled (by decide) (by decide) data

/-- An upload of `a` that names SHA-256, with one part that carries a checksum of its own choice. -/
def upload_summed (own : ChecksumAlgorithm) : Action Unit := do
  let _ ← fourfold.create_multipart_upload summing (draws 1) "logs" "a" "text/plain" (some .SHA256) none
  let _ ← fourfold.upload_part summing (draws 2) "logs" (draws 1).upload_id 1 (stream abc abc_filled abc_fits)
    (some (own,none)) none none

def begun_summed : MultipartUploadMeta := { begun with checksum_algorithm := some .SHA256 }

def part_summed (own : ChecksumAlgorithm) : PartMeta := { part_of_abc with
  checksum_algorithm := some own
  checksum_value := some (summing.b64_encode (summing.checksum own abc)) }

/-- The upload and its part are in place. -/
structure BegunSummed (own : ChecksumAlgorithm) (w : World) : Prop where
  upload : UploadStored summing fourfold "logs" begun.upload_id begun_summed w
  part : PartStored summing fourfold "logs" begun.upload_id begun_summed none (part_summed own) abc w

theorem begunSummed_of_files {own : ChecksumAlgorithm} {w : World}
    (files : w.tree.node (uploadRecordAt fourfold "logs" begun.upload_id) =
        some (.file (.json (.upload begun_summed))) ∧
      w.tree.node (partRecordAt fourfold "logs" begun.upload_id 1) = some (.file (.json (.part (part_summed own)))) ∧
      w.tree.node (partAt fourfold "logs" begun.upload_id 1) = some (.file (.bytes abc))) : BegunSummed own w := by
  obtain ⟨upload,part,payload⟩ := files
  exact ⟨⟨namesUpload_drawn (draws 1),upload,by decide +kernel,by simp [begun_summed,begun]⟩,
    ⟨part,⟨none,abc,rfl,payload,rfl⟩,rfl,show part_of_abc.etag = _ by decide +kernel,rfl,rfl⟩⟩

/-- Completing the upload with its part. -/
def complete_summed (own : ChecksumAlgorithm) : Except StorageError PutResult × World :=
  fourfold.complete_multipart_upload summing (draws 3) "logs" begun.upload_id [(1,part_of_abc.etag)] none
    (upload_summed own (world false)).2

theorem begun_summed_sha : BegunSummed .SHA256 (upload_summed .SHA256 (world false)).2 :=
  begunSummed_of_files (by decide +kernel)

theorem begun_summed_crc : BegunSummed .CRC32 (upload_summed .CRC32 (world false)).2 :=
  begunSummed_of_files (by decide +kernel)

end Sample

theorem composite_covers_abc :
    ∃ record w', Sample.complete_summed .SHA256 = (.ok (FilesystemStorage.put_result record),w') ∧
      CoversParts Sample.summing .SHA256 [(Sample.part_summed .SHA256,Sample.abc)] record.checksum_value := by
  have ok : (Sample.complete_summed .SHA256).1.isOk = true := by decide +kernel
  obtain ⟨result,w',done⟩ := Sample.isOk_spec ok
  obtain ⟨record,_,rfl,_,covers⟩ := @composite_covers_iff _ _ _ _ _ [(Sample.part_summed .SHA256,Sample.abc)] _ _ _ _ _ _ _
    Sample.summing_sound Sample.summing_filled Sample.begun_summed_sha.upload rfl (by decide)
    (by simpa using Sample.begun_summed_sha.part) done
  exact ⟨record,w',done,covers.mpr (.inl (by simp [Sample.part_summed]))⟩

/-- A part with a CRC-32 completes an upload that names SHA-256, and a composite value is recorded: the SHA-256 of the
    CRC-32. -/
theorem composite_of_other_algorithm :
    ∃ record w', Sample.BegunSummed .CRC32 (Sample.upload_summed .CRC32 (Sample.world false)).2 ∧
      Sample.complete_summed .CRC32 = (.ok (FilesystemStorage.put_result record),w') ∧
      record.checksum_value = some "yk2A3h6IspmZLl+Dw1fV0s0KE4+ZnrNLMZRAgy0A4g8=-1" ∧
      ¬ CoversParts Sample.summing .SHA256 [(Sample.part_summed .CRC32,Sample.abc)] record.checksum_value := by
  have ok : (Sample.complete_summed .CRC32).1.isOk = true := by decide +kernel
  obtain ⟨result,w',done⟩ := Sample.isOk_spec ok
  obtain ⟨_,_,record,_,_,_,completes,same,_⟩ := @complete_multipart_upload_done _ _ _ _ _
    [(Sample.part_summed .CRC32,Sample.abc)] _ _ _ Sample.summing_sound _ _ _ Sample.begun_summed_crc.upload (by decide)
    (by simpa using Sample.begun_summed_crc.part) done
  have value : record.checksum_value = some "yk2A3h6IspmZLl+Dw1fV0s0KE4+ZnrNLMZRAgy0A4g8=-1" :=
    (congrArg Prod.snd completes.checksum).trans (by decide +kernel)
  refine ⟨record,w',Sample.begun_summed_crc,by rw [done,same],value,fun covers => ?_⟩
  rw [covers.whole ⟨_,List.mem_singleton_self _,by simp [Sample.part_summed]⟩] at value
  cases value

end Maxio
