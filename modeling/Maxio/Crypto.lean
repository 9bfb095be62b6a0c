import Maxio.Fs
import Maxio.Primitives
import Maxio.Reading

/-!
The encrypted frame format, `[nonce: 12][ciphertext: N][tag: 16]`, and the reader that decrypts it.
-/

namespace Maxio
open Reading (Poll Turn)

/-- Plaintext bytes per encryption frame. -/
def FRAME_CHUNK_SIZE : Nat := 65536

/-- Bytes of overhead added per frame (nonce and GCM tag). -/
def FRAME_OVERHEAD : Nat := 12 + 16

section Frames
variable (P : Primitives)

/-- Additional data of one frame of an object: the digest of its identity and the frame's index. -/
def build_frame_aad (bucket key : String) (version_id : Option String) (chunk_index : Nat) : Bytes :=
  P.sha256 (utf8 bucket ++ [0] ++ utf8 key ++ [0] ++ utf8 (version_id.getD "") ++ [0] ++ le_bytes 8 chunk_index)

/-- Additional data of one frame of a part of an upload. -/
def build_part_aad (upload_id : String) (part_number chunk_index : Nat) : Bytes :=
  P.sha256 (utf8 "PART" ++ [0] ++ utf8 upload_id ++ [0] ++ le_bytes 4 part_number ++ [0] ++ le_bytes 8 chunk_index)

def make_frame_nonce ( nonce_prefix : Bytes) (chunk_index : Nat) : Except StorageError Bytes :=
  if nonce_prefix.length = 4 then .ok ( nonce_prefix ++ le_bytes 8 chunk_index)
  else if nonce_prefix.length = 8 then
    if chunk_index > 2 ^ 32 - 1 then
      .error (.EncryptionError "object has too many encrypted frames for nonce format")
    else .ok ( nonce_prefix ++ le_bytes 4 chunk_index)
  else .error (.EncryptionError "nonce_prefix must be 4 or 8 bytes")

/-- Call AES-GCM and keep a record of the call. -/
def aes_encrypt (frame : Bool) (failed : StorageError) (key nonce aad message : Bytes) : Action Bytes :=
  match P.encrypt key nonce aad message with
  | some sealed => do
    Prog.tell fun w => { w with sealings := ⟨frame,key,nonce,aad,message⟩ :: w.sealings }
    pure sealed
  | none => Prog.fail failed

/-- Encrypt one frame: the bytes `[nonce || ciphertext || tag]`. -/
def encrypt_frame_to_vec (key nonce_prefix : Bytes) (chunk_index : Nat) (plaintext aad : Bytes) :
    Action Bytes := do
  let nonce ← Prog.lift (make_frame_nonce nonce_prefix chunk_index)
  let ciphertext ← aes_encrypt P true (.EncryptionError "frame encryption failed") key nonce aad plaintext
  pure (nonce ++ ciphertext)

end Frames

structure FrameDecryptor (σ : Type) where
  inner : σ
  key : Bytes
  aad_builder : Nat → Bytes
  /-- Total plaintext size of the object, needed to size the last frame. -/
  plaintext_size : Nat
  chunk_size : Nat
  /-- Index of the next frame to read. -/
  chunk_index : Nat
  /-- Plaintext bytes to skip at the start of a range. -/
  skip_bytes : Nat
  /-- Plaintext bytes still to emit. -/
  remaining : Nat
  /-- The filled part of the frame buffer. -/
  frame_buf : Bytes
  /-- Bytes expected in the current frame; zero when there are no more frames. -/
  frame_target : Nat
  out_buf : Bytes
  out_pos : Nat
  done : Bool

namespace FrameDecryptor
variable {σ : Type}

def update_frame_target (d : FrameDecryptor σ) : FrameDecryptor σ :=
  let bytes_before := d.chunk_index * d.chunk_size
  if bytes_before ≥ d.plaintext_size then { d with frame_target := 0 }
  else { d with frame_target := 12 + min (d.plaintext_size - bytes_before) d.chunk_size + 16 }

def for_range_internal (inner : σ) (key : Bytes) (plaintext_size chunk_size start_frame remaining skip_bytes : Nat)
    (aad_builder : Nat → Bytes) : FrameDecryptor σ :=
  let done := plaintext_size = 0 || remaining = 0
  let d : FrameDecryptor σ := {
    inner, key, aad_builder, plaintext_size, chunk_size, chunk_index := start_frame, skip_bytes, remaining,
    frame_buf := [], frame_target := 0, out_buf := [], out_pos := 0, done }
  if done then d else d.update_frame_target

/-- A decryptor for a whole object. -/
def new (inner : σ) (key : Bytes) (plaintext_size chunk_size : Nat) (aad_builder : Nat → Bytes) :
    FrameDecryptor σ := for_range_internal inner key plaintext_size chunk_size 0 plaintext_size 0 aad_builder

/-- A decryptor for a range; the inner source already stands at `ciphertext_offset`. -/
def for_range (inner : σ) (key : Bytes) (plaintext_size chunk_size offset length : Nat)
    (aad_builder : Nat → Bytes) : FrameDecryptor σ :=
  for_range_internal inner key plaintext_size chunk_size (offset / chunk_size) length (offset % chunk_size)
    aad_builder

def ciphertext_offset (chunk_size offset : Nat) : Nat := offset / chunk_size * (chunk_size + FRAME_OVERHEAD)

/-- Drop plaintext that lies before the requested range. -/
def skip (d : FrameDecryptor σ) : FrameDecryptor σ :=
  if d.out_pos < d.out_buf.length ∧ d.skip_bytes > 0 then
    let skip := min d.skip_bytes (d.out_buf.length - d.out_pos)
    { d with out_pos := d.out_pos + skip, skip_bytes := d.skip_bytes - skip }
  else d

/-- How much of the decrypted frame a read with this capacity hands over. -/
def available (d : FrameDecryptor σ) (cap : Nat) : Nat :=
  min (min (d.out_buf.length - d.out_pos) d.remaining) cap

section Polling
variable (P : Primitives) (poll : Poll σ IoError UInt8)

/-- Authenticate and decrypt the complete frame in the buffer. -/
def open_frame (d : FrameDecryptor σ) : Except IoError (FrameDecryptor σ) :=
  if d.frame_buf.length < 12 then
    .error (.custom .InvalidData "ciphertext frame too short to contain a nonce")
  else
    let nonce := d.frame_buf.take 12
    let stored_idx_v1 := from_le_bytes (nonce.drop 4)
    let stored_idx_v2 := from_le_bytes (nonce.drop 8)
    if stored_idx_v1 ≠ d.chunk_index ∧ stored_idx_v2 ≠ d.chunk_index then
      .error (.custom .InvalidData ("frame index mismatch: expected " ++ toString d.chunk_index ++ ", got " ++
        toString stored_idx_v1))
    else match P.decrypt d.key nonce (d.aad_builder d.chunk_index) (d.frame_buf.drop 12) with
      | some plaintext => .ok (update_frame_target
          { d with out_buf := plaintext, out_pos := 0, chunk_index := d.chunk_index + 1, frame_buf := [] })
      | none => .error (.custom .InvalidData "AES-GCM decryption failed: authentication error")

/-- Read more ciphertext into the frame buffer. -/
def fill_frame (d : FrameDecryptor σ) : Turn (FrameDecryptor σ) IoError UInt8 :=
  match poll d.inner (d.frame_target - d.frame_buf.length) with
  | .error e => .ready (.error e)
  | .ok ([],inner) =>
    if d.frame_buf.length = 0 then .ready (.ok ([],{ d with inner, done := true }))
    else .ready (.error (.custom .UnexpectedEof "truncated encrypted frame"))
  | .ok (piece,inner) => .again { d with inner, frame_buf := d.frame_buf ++ piece }

/-- One turn of the loop in `poll_read`. -/
def turn (d₀ : FrameDecryptor σ) (cap : Nat) : Turn (FrameDecryptor σ) IoError UInt8 :=
  let d := d₀.skip
  if d.available cap > 0 then
    let n := d.available cap
    .ready (.ok ((d.out_buf.drop d.out_pos).take n,
      { d with out_pos := d.out_pos + n, remaining := d.remaining - n }))
  else if d.done || d.remaining = 0 || d.frame_target = 0 then .ready (.ok ([],d))
  else if d.frame_buf.length = d.frame_target then match d.open_frame P with
    | .ok next => .again next
    | .error e => .ready (.error e)
  else d.fill_frame poll

/-- Each frame needs at most as many reads as it has bytes, and one turn to decrypt it. -/
def turns (d : FrameDecryptor σ) : Nat := (d.plaintext_size + 2) * (d.chunk_size + FRAME_OVERHEAD + 2)

def poll_read : Poll (FrameDecryptor σ) IoError UInt8 := fun d cap =>
  Reading.spin (turn P poll) (.other "decryptor does not terminate") cap d.turns d

/-- Decrypt the first plaintext byte and rewind. -/
def preflight (d : FrameDecryptor σ) : Except IoError (FrameDecryptor σ) :=
  if d.plaintext_size = 0 ∨ d.remaining = 0 then .ok d
  else match poll_read P poll d 1 with
    | .error e => .error e
    | .ok ([],_) => .error (.custom .InvalidData "encrypted object truncated before first plaintext byte")
    | .ok (_,d') => .ok { d' with out_pos := d.out_pos, remaining := d.remaining }

end Polling
end FrameDecryptor
end Maxio
