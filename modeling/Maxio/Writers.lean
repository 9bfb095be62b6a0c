import Maxio.Chunking
import Maxio.Storage

/-!
The loops that write a payload: flat or in chunks, plain or as encrypted frames. Each takes the pieces its input
is read in, whatever their lengths.
-/

namespace Maxio

/-- Data key and nonce prefix of the frames of one object or part. -/
structure FrameCipher where
  key : Bytes
  nonce_prefix : Bytes
  aad : Nat → Bytes

/-- Write every piece of a stream, then fail with the stream's own error if it has one. -/
def pump {α : Type} (write : α → Bytes → Action α) (failed : IoError → StorageError) (reads : List Bytes)
    (failure : Option IoError) (start : α) : Action α := do
  let last ← Prog.fold write start reads
  match failure with
  | some e => Prog.fail (failed e)
  | none => pure last

section
variable (P : Primitives)

/-! ### One file -/

/-- A `BufWriter` of `IO_BUFFER_SIZE` bytes on the file at `path`: bytes not yet on disk. -/
def buf_write_all (path : OsPath) (pending data : Bytes) : Action Bytes := do
  let pending ← if pending.length + data.length > IO_BUFFER_SIZE then do
      io (Fs.append path pending)
      pure []
    else pure pending
  if data.length ≥ IO_BUFFER_SIZE then do
    io (Fs.append path data)
    pure pending
  else pure (pending ++ data)

structure FlatWriter where
  pending : Bytes
  size : Nat
  frame_buf : Bytes
  chunk_index : Nat

namespace FlatWriter

def new : FlatWriter := { pending := [], size := 0, frame_buf := [], chunk_index := 0 }

/-- Encrypt one frame and write it: `[nonce:12B][ciphertext||tag:16B]`. -/
def write_encrypted_frame (path : OsPath) (cipher : FrameCipher) (w : FlatWriter) (plaintext : Bytes) :
    Action FlatWriter := do
  let frame ← encrypt_frame_to_vec P cipher.key cipher.nonce_prefix w.chunk_index plaintext
    (cipher.aad w.chunk_index)
  let pending ← buf_write_all path w.pending (frame.take 12)
  let pending ← buf_write_all path pending (frame.drop 12)
  pure { w with pending, chunk_index := w.chunk_index + 1 }

/-- The body of the read loop. -/
def write (path : OsPath) (cipher : Option FrameCipher) (w : FlatWriter) (piece : Bytes) :
    Action FlatWriter := do
  let size := w.size + piece.length
  match cipher with
  | none => do
    let pending ← buf_write_all path w.pending piece
    pure { w with pending, size }
  | some cipher =>
    let buf := w.frame_buf ++ piece
    Prog.fold (write_encrypted_frame P path cipher)
      { w with size, frame_buf := Chunking.rest FRAME_CHUNK_SIZE buf } (Chunking.full FRAME_CHUNK_SIZE buf)

/-- Flush the trailing partial frame and the buffer. -/
def finish (path : OsPath) (cipher : Option FrameCipher) (w : FlatWriter) : Action FlatWriter := do
  let w ← match cipher with
    | some cipher => if w.frame_buf = [] then pure w else write_encrypted_frame P path cipher w w.frame_buf
    | none => pure w
  io (Fs.append path w.pending)
  pure { w with pending := [] }

end FlatWriter

/-! ### Chunks -/

structure ChunkWriter where
  chunk_buf : Bytes
  chunk_index : Nat
  chunks : List ChunkInfo
  written : Nat

def write_chunk_file (path : OsPath) (index : Nat) (data : Bytes) : Action ChunkInfo := do
  io (Fs.write path (.bytes data))
  pure { index, size := data.length, sha256 := hex_encode (P.sha256 data), kind := .Data }

def write_chunk_to_dir (dir : OsPath) (index : Nat) (data : Bytes) : Action ChunkInfo :=
  write_chunk_file P (join dir (chunk_name index)) index data

namespace ChunkWriter

def new : ChunkWriter := { chunk_buf := [], chunk_index := 0, chunks := [], written := 0 }

def write_chunk (dir : OsPath) (w : ChunkWriter) (data : Bytes) : Action ChunkWriter := do
  let ci ← write_chunk_to_dir P dir w.chunk_index data
  pure { w with chunks := w.chunks ++ [ci], chunk_index := u32 (w.chunk_index + 1), written := w.written + data.length }

/-- Append to the chunk buffer and write the full chunks in it. -/
def feed (dir : OsPath) (chunk_size : Nat) (w : ChunkWriter) (data : Bytes) : Action ChunkWriter :=
  let buf := w.chunk_buf ++ data
  Prog.fold (write_chunk P dir) { w with chunk_buf := Chunking.rest chunk_size buf } (Chunking.full chunk_size buf)

/-- Write what is left in the buffer; an empty object still gets one chunk. -/
def finish (dir : OsPath) (w : ChunkWriter) : Action ChunkWriter := do
  let w ← if w.chunk_buf = [] then pure w else do
    let w ← write_chunk P dir w w.chunk_buf
    pure { w with chunk_buf := [] }
  if w.chunks = [] then do
    let ci ← write_chunk_to_dir P dir 0 []
    pure { w with chunks := [ci] }
  else pure w

end ChunkWriter

/-- The state of an encrypt-then-chunk writer. -/
structure SealedWriter where
  size : Nat
  frame_buf : Bytes
  frame_index : Nat
  chunks : ChunkWriter

namespace SealedWriter

def new : SealedWriter := { size := 0, frame_buf := [], frame_index := 0, chunks := .new }

/-- Encrypt one frame into the chunk buffer and write the full chunks. -/
def write_frame (dir : OsPath) (chunk_size : Nat) (cipher : FrameCipher) (w : SealedWriter) (plaintext : Bytes) :
    Action SealedWriter := do
  let ct ← encrypt_frame_to_vec P cipher.key cipher.nonce_prefix w.frame_index plaintext (cipher.aad w.frame_index)
  let chunks ← w.chunks.feed P dir chunk_size ct
  pure { w with frame_index := w.frame_index + 1, chunks }

def write (dir : OsPath) (chunk_size : Nat) (cipher : FrameCipher) (w : SealedWriter) (piece : Bytes) :
    Action SealedWriter :=
  let buf := w.frame_buf ++ piece
  Prog.fold (write_frame P dir chunk_size cipher)
    { w with size := w.size + piece.length, frame_buf := Chunking.rest FRAME_CHUNK_SIZE buf }
    (Chunking.full FRAME_CHUNK_SIZE buf)

def finish (dir : OsPath) (chunk_size : Nat) (cipher : FrameCipher) (w : SealedWriter) : Action SealedWriter := do
  let w ← if w.frame_buf = [] then pure w else write_frame P dir chunk_size cipher w w.frame_buf
  let chunks ← w.chunks.finish P dir
  pure { w with frame_buf := [], chunks }

end SealedWriter

/-- The plain chunk writer counts what it reads. -/
def write_plain (dir : OsPath) (chunk_size : Nat) (w : Nat × ChunkWriter) (piece : Bytes) :
    Action (Nat × ChunkWriter) := do
  let chunks ← w.2.feed P dir chunk_size piece
  pure (w.1 + piece.length,chunks)

/-! ### Parity and manifest -/

/-- Read the data chunks back, padded to the shard size. -/
def read_shards_back (dir : OsPath) (shard_size : Nat) : List ChunkInfo → Action (List Bytes)
  | [] => pure []
  | ci :: rest => do
    let content ← io (Fs.read (join dir (chunk_name ci.index)))
    let shards ← read_shards_back dir shard_size rest
    pure (resize (P.bytes content) shard_size :: shards)

/-- Write the parity shards with the indices that follow the data chunks. -/
def write_parity (dir : OsPath) : Nat → List Bytes → Action (List ChunkInfo)
  | _,[] => pure []
  | index,shard :: rest => do
    let ci ← write_chunk_file P (join dir (chunk_name index)) index shard
    let infos ← write_parity dir (index + 1) rest
    pure ({ ci with kind := .Parity } :: infos)

namespace FilesystemStorage
variable (fs : FilesystemStorage)

def compute_and_write_parity_from (dir : OsPath) (data_chunks : List ChunkInfo) : Action (List ChunkInfo) := do
  let k := data_chunks.length
  let m := fs.parity_shards
  if k + m > 255 then
    Prog.fail (.InvalidKey ("too many shards: " ++ toString k ++ " data + " ++ toString m ++ " parity = " ++
      toString (k + m) ++ " > 255 (GF(2^8) limit). Increase --chunk-size"))
  else
    let shards ← read_shards_back P dir fs.chunk_size data_chunks
    Prog.lift ((P.rs_new k m).mapError fun e => .InvalidKey ("Reed-Solomon init error: " ++ e))
    let parity ← Prog.lift ((P.rs_encode k m shards).mapError fun e =>
      .InvalidKey ("Reed-Solomon encode error: " ++ e))
    write_parity P dir k parity

/-- Parity shards if configured (not for empty objects) and the manifest; the storage format. -/
def write_manifest (dir : OsPath) (w : ChunkWriter) (total_size : Nat) (plaintext_size : Option Nat) :
    Action String := do
  let data_chunk_count := u32 w.chunks.length
  let has_parity : Bool := fs.parity_shards > 0 && total_size > 0
  let parity ← if has_parity then fs.compute_and_write_parity_from P dir w.chunks else pure []
  let manifest : ChunkManifest := {
    version := if has_parity then 2 else 1
    total_size
    chunk_size := fs.chunk_size
    chunk_count := data_chunk_count
    chunks := w.chunks ++ parity
    parity_shards := if has_parity then some fs.parity_shards else none
    shard_size := if has_parity then some fs.chunk_size else none
    plaintext_size }
  io (Fs.write (join dir "manifest.json") (.json (.manifest manifest)))
  pure (if has_parity then "chunked-v2" else "chunked-v1")

end FilesystemStorage
end
end Maxio
