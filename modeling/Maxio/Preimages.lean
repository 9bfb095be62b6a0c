import Maxio.Crypto
import Maxio.HttpSpec
import Maxio.MetadataIndex

/-!
What is hashed to bind a frame to its place: fields with a zero byte behind each. The parts come apart again, since a bucket
and a version have no zero byte and the numbers at the end are of fixed width.
-/

namespace Maxio

/-! ### Fields with zero bytes between -/

namespace Joined

/-- What stands before the first zero byte, and what follows it. -/
theorem front {a b s t : Bytes} (clear : 0 ∉ a) (clear' : 0 ∉ b) (same : a ++ [0] ++ s = b ++ [0] ++ t) : a = b ∧ s = t := by
  induction a generalizing b with
  | nil =>
    cases b with
    | nil => simpa using same
    | cons y others =>
      have first := congrArg List.head? same
      simp at first
      simp [← first] at clear'
  | cons x rest ih =>
    cases b with
    | nil =>
      have first := congrArg List.head? same
      simp at first
      simp [first] at clear
    | cons y others =>
      simp only [List.cons_append,List.cons.injEq] at same
      obtain ⟨first,later⟩ := same
      obtain ⟨rfl,rest_same⟩ := ih (fun member => clear (List.mem_cons_of_mem x member))
        (fun member => clear' (List.mem_cons_of_mem y member)) later
      exact ⟨by rw [first],rest_same⟩

/-- What stands behind the last zero byte, and what is before it. -/
theorem back {a b s t : Bytes} (clear : 0 ∉ a) (clear' : 0 ∉ b) (same : s ++ [0] ++ a = t ++ [0] ++ b) : s = t ∧ a = b := by
  have reversed := congrArg List.reverse same
  simp only [List.reverse_append,← List.append_assoc] at reversed
  simp only [List.reverse_singleton,List.append_assoc] at reversed
  have ⟨ends,starts⟩ := front (by simpa using clear) (by simpa using clear') (by simpa using reversed :
    a.reverse ++ [0] ++ s.reverse = b.reverse ++ [0] ++ t.reverse)
  exact ⟨List.reverse_injective starts,List.reverse_injective ends⟩

/-- What is left and right of a place from the end. -/
theorem fixed {s t a b : Bytes} (width : a.length = b.length) (same : s ++ a = t ++ b) : s = t ∧ a = b :=
  List.append_inj' same width

end Joined

/-- A number comes back from its bytes if it fits them. -/
theorem le_bytes_injective (width : Nat) {m n : Nat} (small : m < 256 ^ width) (small' : n < 256 ^ width)
    (same : le_bytes width m = le_bytes width n) : m = n := by
  have values := congrArg from_le_bytes same
  rwa [from_le_bytes_le_bytes,from_le_bytes_le_bytes,Nat.mod_eq_of_lt small,Nat.mod_eq_of_lt small'] at values

theorem utf8_injective {s t : String} (same : utf8 s = utf8 t) : s = t := by
  have forth := (utf8_prefix_iff s t).mp (by rw [same])
  have back := (utf8_prefix_iff t s).mp (by rw [same])
  exact String.ext (forth.eq_of_length_le back.length_le)

/-- A text of ASCII characters other than NUL. -/
def NulFree (s : String) : Prop := ∀ c ∈ s.toList, 0 < c.toNat ∧ c.toNat < 128

theorem NulFree.clear {s : String} (nul_free : NulFree s) : 0 ∉ utf8 s := by
  intro member
  obtain ⟨c,listed,byte⟩ := List.mem_flatMap.mp member
  obtain ⟨positive,small⟩ := nul_free c listed
  rw [utf8EncodeChar_ascii small,List.mem_singleton] at byte
  have value := congrArg UInt8.toNat byte
  rw [UInt8.toNat_ofNat'] at value
  simp at value
  omega

theorem nul_of_toNat {c : Char} (zero : c.toNat = 0) : c = Char.ofNat 0 := by
  rw [← zero,Char.ofNat_toNat]

theorem bucket_nul_free {bucket : String} (valid : is_valid_bucket_name bucket) : NulFree bucket := by
  have text : is_valid_bucket_name (String.ofList bucket.toList) := by rwa [String.ofList_toList]
  intro c member
  have name := (valid_bucket_chars text).2 c member
  refine ⟨Nat.pos_of_ne_zero fun zero => ?_,(plain_of_nameChar name).1⟩
  rw [nul_of_toNat zero] at name
  exact absurd name (by decide)

private theorem digitChar_nul_free : ∀ d < 16, 0 < (Nat.digitChar d).toNat ∧ (Nat.digitChar d).toNat < 128 := by decide

theorem padded_nul_free {base : Nat} (large : 1 < base) (small : base ≤ 16) (width n : Nat) : NulFree (padded base width n) := by
  intro c member
  rw [padded,String.toList_ofList,List.mem_append] at member
  rcases member with zero | digit
  · rw [List.eq_of_mem_replicate zero]
    decide
  · obtain ⟨d,less,rfl⟩ := toDigits_digitChar large n c digit
    exact digitChar_nul_free d (by omega)

theorem version_nul_free (micros rand_suffix : Nat) : NulFree (generate_version_id micros rand_suffix) := by
  intro c member
  rw [generate_version_id,String.toList_append,String.toList_append,List.mem_append,List.mem_append] at member
  rcases member with (time | dash) | random
  · exact padded_nul_free (by decide) (by decide) 16 micros c time
  · rw [List.mem_singleton.mp dash]
    decide
  · exact padded_nul_free (by decide) (by decide) 8 rand_suffix c random

/-! ### Frames of objects and of parts -/

/-- What `build_frame_aad` hashes. -/
def frame_preimage (bucket key : String) (version_id : Option String) (chunk_index : Nat) : Bytes :=
  utf8 bucket ++ [0] ++ utf8 key ++ [0] ++ utf8 (version_id.getD "") ++ [0] ++ le_bytes 8 chunk_index

/-- What `build_part_aad` hashes. -/
def part_preimage (upload_id : String) (part_number chunk_index : Nat) : Bytes :=
  utf8 "PART" ++ [0] ++ utf8 upload_id ++ [0] ++ le_bytes 4 part_number ++ [0] ++ le_bytes 8 chunk_index

/-- A version id as the storage makes them, or none. -/
def Generated (version_id : Option String) : Prop :=
  ∀ id ∈ version_id, id = "" ∨ ∃ micros rand_suffix, micros < 2 ^ 64 ∧ rand_suffix < 2 ^ 32 ∧
    id = generate_version_id micros rand_suffix

theorem Generated.clear {version_id : Option String} (generated : Generated version_id) : 0 ∉ utf8 (version_id.getD "") := by
  cases version_id with
  | none => exact List.not_mem_nil
  | some id =>
    rcases generated id rfl with rfl | ⟨micros,rand_suffix,-,-,rfl⟩
    · exact List.not_mem_nil
    · exact (version_nul_free micros rand_suffix).clear

theorem frame_preimage_injective {bucket bucket' key key' : String} {version_id version_id' : Option String} {i i' : Nat}
    (valid : is_valid_bucket_name bucket) (valid' : is_valid_bucket_name bucket') (generated : Generated version_id)
    (generated' : Generated version_id') (small : i < 2 ^ 64) (small' : i' < 2 ^ 64)
    (same : frame_preimage bucket key version_id i = frame_preimage bucket' key' version_id' i') :
    bucket = bucket' ∧ key = key' ∧ version_id.getD "" = version_id'.getD "" ∧ i = i' := by
  obtain ⟨fields,index⟩ := Joined.fixed (by simp) same
  obtain ⟨front,version⟩ := Joined.back generated.clear generated'.clear (List.append_cancel_right fields)
  obtain ⟨buckets,keys⟩ := Joined.front (bucket_nul_free valid).clear (bucket_nul_free valid').clear front
  exact ⟨utf8_injective buckets,utf8_injective keys,utf8_injective version,le_bytes_injective 8 small small' index⟩

theorem part_preimage_injective {upload_id upload_id' : String} {part_number part_number' i i' : Nat}
    (part : part_number < 2 ^ 32) (part' : part_number' < 2 ^ 32) (small : i < 2 ^ 64) (small' : i' < 2 ^ 64)
    (same : part_preimage upload_id part_number i = part_preimage upload_id' part_number' i') :
    upload_id = upload_id' ∧ part_number = part_number' ∧ i = i' := by
  obtain ⟨fields,index⟩ := Joined.fixed (by simp) same
  obtain ⟨front,numbers⟩ := Joined.fixed (by simp) (List.append_cancel_right fields)
  have ids : utf8 upload_id = utf8 upload_id' := by
    have texts := List.append_cancel_right front
    rwa [List.append_right_inj] at texts
  exact ⟨utf8_injective ids,le_bytes_injective 4 part part' numbers,le_bytes_injective 8 small small' index⟩

/-- A frame of an object is never taken for a frame of a part: no bucket is called as the parts are marked. -/
theorem frame_preimage_ne_part {bucket : String} (valid : is_valid_bucket_name bucket) (key : String)
    (version_id : Option String) (i : Nat) (upload_id : String) (part_number j : Nat) :
    frame_preimage bucket key version_id i ≠ part_preimage upload_id part_number j := by
  intro same
  have upper : NulFree "PART" := by
    have letters : "PART".toList = ['P','A','R','T'] := rfl
    intro c member
    rw [letters] at member
    fin_cases member <;> decide
  simp only [frame_preimage,part_preimage,List.append_assoc] at same
  rw [← List.append_assoc,← List.append_assoc (utf8 "PART")] at same
  have bucket_same := utf8_injective (Joined.front (bucket_nul_free valid).clear upper.clear same).1
  rw [bucket_same] at valid
  exact absurd valid (by decide)

/-- What is hashed for a frame tells the object or part, its version and the index, and which of the two it is. -/
theorem aad_preimages_separated :
    (∀ (P : Primitives) bucket key version_id i,
        build_frame_aad P bucket key version_id i = P.sha256 (frame_preimage bucket key version_id i)) ∧
      (∀ (P : Primitives) upload_id part_number i,
        build_part_aad P upload_id part_number i = P.sha256 (part_preimage upload_id part_number i)) ∧
      (∀ bucket bucket' key key' version_id version_id' i i', is_valid_bucket_name bucket → is_valid_bucket_name bucket' →
        Generated version_id → Generated version_id' → i < 2 ^ 64 → i' < 2 ^ 64 →
        frame_preimage bucket key version_id i = frame_preimage bucket' key' version_id' i' →
        bucket = bucket' ∧ key = key' ∧ version_id.getD "" = version_id'.getD "" ∧ i = i') ∧
      (∀ upload_id upload_id' part_number part_number' i i', part_number < 2 ^ 32 → part_number' < 2 ^ 32 → i < 2 ^ 64 →
        i' < 2 ^ 64 → part_preimage upload_id part_number i = part_preimage upload_id' part_number' i' →
        upload_id = upload_id' ∧ part_number = part_number' ∧ i = i') ∧
      ∀ bucket key version_id i upload_id part_number j, is_valid_bucket_name bucket →
        frame_preimage bucket key version_id i ≠ part_preimage upload_id part_number j := by
  refine ⟨fun _ _ _ _ _ => rfl,fun _ _ _ _ => rfl,?_,?_,?_⟩
  · intro bucket bucket' key key' version_id version_id' i i' valid valid' generated generated' small small' same
    exact frame_preimage_injective valid valid' generated generated' small small' same
  · intro upload_id upload_id' part_number part_number' i i' part part' small small' same
    exact part_preimage_injective part part' small small' same
  · intro bucket key version_id i upload_id part_number j valid
    exact frame_preimage_ne_part valid key version_id i upload_id part_number j

theorem aad_preimages_separated_logs : frame_preimage "logs" "a" none 0 ≠ part_preimage "u" 1 0 :=
  aad_preimages_separated.2.2.2.2 "logs" "a" none 0 "u" 1 0 (by decide)

end Maxio
