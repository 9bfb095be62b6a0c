import Maxio.ChunkSpec

/-!
The frames of a body as a ciphertext: its length, where each frame is in it, and that it decrypts to the body.
-/

set_option linter.unusedSimpArgs false

namespace Maxio
open FrameDecryptor (Stream openFrame cipherLength)

theorem frame_chunk_pos : 0 < FRAME_CHUNK_SIZE := by decide

/-- Dropping whole pieces of one length from a concatenation. -/
theorem drop_flatten_of_length {size : Nat} (pieces : List Bytes) (i : Nat)
    (full : ∀ j piece, j < i → pieces[j]? = some piece → piece.length = size) (within : i ≤ pieces.length) :
    pieces.flatten.drop (i * size) = (pieces.drop i).flatten := by
  induction i generalizing pieces with
  | zero => simp
  | succ i ih =>
    cases pieces with
    | nil => simp at within
    | cons piece rest =>
      have first := full 0 piece (by omega) (by simp)
      rw [List.flatten_cons,Nat.succ_mul,Nat.add_comm,← List.drop_drop,List.drop_left' first,List.drop_succ_cons]
      exact ih rest (fun j p below found => full (j + 1) p (by omega) (by simpa using found)) (by simpa using within)

section
variable {P : Primitives} {cipher : FrameCipher} {body : Bytes} {frames : List Bytes}

theorem make_frame_nonce_ok { nonce_prefix nonce : Bytes} {i : Nat} (eight : nonce_prefix.length = 8)
    (made : make_frame_nonce nonce_prefix i = .ok nonce) :
    nonce = nonce_prefix ++ le_bytes 4 i ∧ i < 2 ^ 32 := by
  unfold make_frame_nonce at made
  rw [if_neg (by omega),if_pos eight] at made
  split at made
  next => cases made
  next small =>
    injection made with made
    exact ⟨made.symm,by omega⟩

/-- A frame of the length its plaintext gives it, that opens to that plaintext. -/
theorem sealFrame_spec (sound : P.Sound) (eight : cipher.nonce_prefix.length = 8) {i : Nat} {piece frame : Bytes}
    (made : sealFrame P cipher i piece = some frame) :
    frame.length = 12 + piece.length + 16 ∧ openFrame P cipher.key cipher.aad i frame = .ok piece := by
  unfold sealFrame at made
  split at made
  next nonce spelled =>
    obtain ⟨rfl,small⟩ := make_frame_nonce_ok eight spelled
    simp only [Option.map_eq_some_iff] at made
    obtain ⟨ct,encrypted,rfl⟩ := made
    have twelve : (cipher.nonce_prefix ++ le_bytes 4 i).length = 12 := by simp [eight]
    have size := sound.tag _ _ _ _ _ encrypted
    refine ⟨by rw [List.length_append,twelve,size]; omega,?_⟩
    unfold openFrame
    rw [if_neg (by rw [List.length_append,twelve]; omega),List.take_left' twelve,List.drop_left' twelve,if_neg,
      sound.aead _ _ _ _ _ encrypted]
    rintro ⟨_,different⟩
    apply different
    rw [List.drop_left' eight,from_le_bytes_le_bytes]
    exact Nat.mod_eq_of_lt (by norm_num; omega)
  next => cases made

theorem frameLength_eq (i : Nat) (inside : i * FRAME_CHUNK_SIZE < body.length) :
    frameLength FRAME_CHUNK_SIZE body.length i = 12 + (pieceOf FRAME_CHUNK_SIZE body i).length + 16 := by
  rw [frameLength,if_neg (by omega),VerifiedChunkReader.length_chunkOf,Nat.min_comm]

section Sealed
variable (sound : P.Sound) (eight : cipher.nonce_prefix.length = 8)
  (sealed : Sealed P cipher (Chunking.pieces FRAME_CHUNK_SIZE body) frames)
include sound eight sealed

private theorem frame_of {i : Nat} (inside : i * FRAME_CHUNK_SIZE < body.length) :
    ∃ frame, frames[i]? = some frame ∧ frame.length = frameLength FRAME_CHUNK_SIZE body.length i ∧
      openFrame P cipher.key cipher.aad i frame = .ok (pieceOf FRAME_CHUNK_SIZE body i) := by
  have piece : (Chunking.pieces FRAME_CHUNK_SIZE body)[i]? = some (pieceOf FRAME_CHUNK_SIZE body i) := by
    rw [Chunking.getElem?_pieces frame_chunk_pos,if_pos inside]
    rfl
  have within : i < frames.length := by
    rw [sealed.length]
    exact (List.getElem?_eq_some_iff.mp piece).1
  have here : frames[i]? = some frames[i] := List.getElem?_eq_getElem within
  obtain ⟨length,opens⟩ := sealFrame_spec sound eight (sealed.frame i _ _ piece here)
  exact ⟨_,here,by rw [length,frameLength_eq i inside],opens⟩

/-- The bytes in the place of frame `i` are frame `i`. -/
theorem frame_at {i : Nat} (inside : i * FRAME_CHUNK_SIZE < body.length) :
    ((frames.flatten.drop (i * (FRAME_CHUNK_SIZE + FRAME_OVERHEAD))).take
      (frameLength FRAME_CHUNK_SIZE body.length i)).length = frameLength FRAME_CHUNK_SIZE body.length i ∧
    openFrame P cipher.key cipher.aad i ((frames.flatten.drop (i * (FRAME_CHUNK_SIZE + FRAME_OVERHEAD))).take
      (frameLength FRAME_CHUNK_SIZE body.length i)) = .ok (pieceOf FRAME_CHUNK_SIZE body i) := by
  obtain ⟨frame,here,length,opens⟩ := frame_of sound eight sealed inside
  have within := (List.getElem?_eq_some_iff.mp here).1
  have before : ∀ j piece, j < i → frames[j]? = some piece → piece.length = FRAME_CHUNK_SIZE + FRAME_OVERHEAD := by
    intro j piece earlier found
    have next : (j + 1) * FRAME_CHUNK_SIZE ≤ i * FRAME_CHUNK_SIZE := Nat.mul_le_mul_right _ earlier
    rw [Nat.add_mul,Nat.one_mul] at next
    obtain ⟨other,there,size,_⟩ := frame_of sound eight sealed (i := j) (by omega)
    rw [found] at there
    cases there
    rw [size,frameLength,if_neg (by omega),Nat.min_eq_right (by omega),FRAME_OVERHEAD]
    omega
  rw [drop_flatten_of_length frames i before (by omega),List.drop_eq_getElem_cons within,List.flatten_cons]
  have same : frames[i] = frame := (List.getElem?_eq_some_iff.mp here).2
  rw [same,List.take_left' length]
  exact ⟨length,opens⟩

theorem length_frames : frames.flatten.length = cipherLength FRAME_CHUNK_SIZE body.length := by
  have count : frames.length = (body.length + FRAME_CHUNK_SIZE - 1) / FRAME_CHUNK_SIZE := by
    rw [sealed.length,length_pieces frame_chunk_pos]
  have each : ∀ (i : Nat) (frame piece : Bytes), frames[i]? = some frame →
      (Chunking.pieces FRAME_CHUNK_SIZE body)[i]? = some piece → frame.length = piece.length + FRAME_OVERHEAD := by
    intro i frame piece found there
    have := (sealFrame_spec sound eight (sealed.frame i piece frame there found)).1
    simp only [FRAME_OVERHEAD]
    omega
  have total : frames.flatten.length =
      (Chunking.pieces FRAME_CHUNK_SIZE body).flatten.length + FRAME_OVERHEAD * frames.length := by
    have lengths := sealed.length
    generalize Chunking.pieces FRAME_CHUNK_SIZE body = pieces at each lengths
    clear count sealed
    induction frames generalizing pieces with
    | nil =>
      have : pieces = [] := List.length_eq_zero_iff.mp lengths.symm
      simp [this]
    | cons frame rest ih =>
      cases pieces with
      | nil => simp at lengths
      | cons piece pieces =>
        have first := each 0 frame piece (by simp) (by simp)
        have others := ih pieces (fun i f p found there => each (i + 1) f p (by simpa using found) (by simpa using there))
          (by simpa using lengths)
        simp only [List.flatten_cons,List.length_append,List.length_cons,Nat.mul_add,Nat.mul_one]
        omega
  rw [total,Chunking.flatten_pieces frame_chunk_pos,count,cipherLength]

/-- The ciphertext from some frame on is a stream that decrypts to the body. -/
theorem sealed_honest (start : Nat) :
    Stream.Honest P ⟨cipher.key,cipher.aad,FRAME_CHUNK_SIZE,body,start,
      frames.flatten.drop (start * (FRAME_CHUNK_SIZE + FRAME_OVERHEAD))⟩ False False := by
  have place : ∀ i, start ≤ i →
      (frames.flatten.drop (start * (FRAME_CHUNK_SIZE + FRAME_OVERHEAD))).drop
        ((i - start) * (FRAME_CHUNK_SIZE + FRAME_OVERHEAD)) =
      frames.flatten.drop (i * (FRAME_CHUNK_SIZE + FRAME_OVERHEAD)) := by
    intro i after
    rw [List.drop_drop,← Nat.add_mul,Nat.add_sub_cancel' after]
  refine ⟨frame_chunk_pos,?_,?_,?_⟩
  · intro i p after inside _ opened
    simp only [Stream.frame,Stream.offset,place i after] at opened
    rw [(frame_at sound eight sealed inside).2] at opened
    injection opened with opened
    exact opened.symm
  · intro i e after inside _ failed
    simp only [Stream.frame,Stream.offset,place i after] at failed
    rw [(frame_at sound eight sealed inside).2] at failed
    cases failed
  · intro i after inside short
    have whole := (frame_at sound eight sealed inside).1
    rw [List.length_take,List.length_drop] at whole
    have positive := FrameDecryptor.frameLength_pos.mpr inside
    have fits : i * (FRAME_CHUNK_SIZE + FRAME_OVERHEAD) + frameLength FRAME_CHUNK_SIZE body.length i ≤
        frames.flatten.length := by
      simp only at positive
      omega
    simp only [Stream.offset,List.length_drop,Nat.sub_mul] at short
    have := Nat.mul_le_mul_right (FRAME_CHUNK_SIZE + FRAME_OVERHEAD) after
    simp only at this
    omega

end Sealed
end
end Maxio
