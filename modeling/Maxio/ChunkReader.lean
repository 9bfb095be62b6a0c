import Maxio.Fs
import Maxio.Primitives
import Maxio.Reading

/-!
The reader of erasure-coded objects: it loads chunk after chunk, checks each against the manifest and falls back
to Reed-Solomon reconstruction. Chunk numbers are `u32` in the source, so they wrap at `2 ^ 32`.
-/

namespace Maxio
open Reading (Poll Turn)

/-- A value cut to 32 bits by `as u32` or by wrapping addition. -/
def u32 (n : Nat) : Nat := n % 2 ^ 32

/-- `Vec::resize(n, 0)`. -/
def resize (data : Bytes) (n : Nat) : Bytes := data.take n ++ List.replicate (n - data.length) 0

/-- The bytes of a file's content. -/
def Primitives.bytes (P : Primitives) : Content → Bytes
  | .bytes data => data
  | .json record => P.json record

inductive ReaderState where
  | NeedLoad
  | Serving
  | Done
  deriving DecidableEq, Repr

structure VerifiedChunkReader where
  /-- The tree the chunk files are read from. -/
  disk : Disk
  chunks_dir : OsPath
  manifest : ChunkManifest
  current_chunk : Nat
  end_chunk : Nat
  skip_bytes : Nat
  remaining : Nat
  buf : Bytes
  buf_pos : Nat
  state : ReaderState

namespace VerifiedChunkReader

/-- A reader of the whole object. -/
def new (disk : Disk) (chunks_dir : OsPath) (manifest : ChunkManifest) : VerifiedChunkReader where
  disk := disk
  chunks_dir := chunks_dir
  manifest := manifest
  current_chunk := 0
  end_chunk := manifest.chunk_count - 1
  skip_bytes := 0
  remaining := manifest.total_size
  buf := []
  buf_pos := 0
  state := if manifest.total_size = 0 then .Done else .NeedLoad

/-- A reader of the bytes from `offset` to `offset + length`. -/
def with_range (disk : Disk) (chunks_dir : OsPath) (manifest : ChunkManifest) (offset length : Nat) :
    VerifiedChunkReader :=
  if length = 0 ∨ manifest.total_size = 0 then
    { disk, chunks_dir, manifest, current_chunk := 0, end_chunk := 0, skip_bytes := 0, remaining := 0,
      buf := [], buf_pos := 0, state := .Done }
  else
    { disk, chunks_dir, manifest
      current_chunk := u32 (offset / manifest.chunk_size)
      end_chunk := u32 ((offset + length - 1) / manifest.chunk_size)
      skip_bytes := offset % manifest.chunk_size
      remaining := length, buf := [], buf_pos := 0, state := .NeedLoad }

section Polling
variable (P : Primitives)

/-- Read one chunk file and check its size and digest. -/
def read_chunk (r : VerifiedChunkReader) (chunk_info : ChunkInfo) : Except IoError Bytes :=
  let chunk := toString r.current_chunk
  match Fs.readAt r.disk (join r.chunks_dir (chunk_name r.current_chunk)) with
  | .error kind => .error (.custom kind ("failed to read chunk " ++ chunk ++ ": " ++ IoError.osText kind))
  | .ok content =>
    let data := P.bytes content
    if data.length ≠ chunk_info.size then
      .error (.custom .InvalidData ("chunk " ++ chunk ++ " size mismatch: expected " ++ toString chunk_info.size ++
        ", got " ++ toString data.length))
    else if hex_encode (P.sha256 data) ≠ chunk_info.sha256 then
      .error (.custom .InvalidData ("checksum mismatch on chunk " ++ chunk ++ ": expected " ++ chunk_info.sha256 ++
        ", got " ++ hex_encode (P.sha256 data)))
    else .ok data

/-- A shard for reconstruction: absent when the file is missing or its digest differs. -/
def read_shard (disk : Disk) (chunks_dir : OsPath) (shard_size : Nat) (chunk_info : ChunkInfo) (i : Nat) :
    Option Bytes :=
  match Fs.readAt disk (join chunks_dir (chunk_name i)) with
  | .error _ => none
  | .ok content =>
    let data := P.bytes content
    if hex_encode (P.sha256 data) ≠ chunk_info.sha256 then none else some (resize data shard_size)

/-- The shards `i`, `i+1`, ... of the manifest, `count` of them. -/
def read_shards (disk : Disk) (chunks_dir : OsPath) (manifest : ChunkManifest) (shard_size : Nat) :
    Nat → Nat → Except IoError (List (Option Bytes))
  | _,0 => .ok []
  | i,count + 1 => match manifest.chunks[i]? with
    | none => .error (.custom .InvalidData ("manifest missing shard " ++ toString i ++ " (" ++
        toString manifest.chunks.length ++ " entries)"))
    | some chunk_info => do
      let rest ← read_shards disk chunks_dir manifest shard_size (i + 1) count
      .ok (read_shard P disk chunks_dir shard_size chunk_info i :: rest)

def try_reconstruct_data_chunk (disk : Disk) (chunks_dir : OsPath) (manifest : ChunkManifest)
    (target_index : Nat) : Except IoError Bytes := do
  let k := manifest.chunk_count
  let m := manifest.parity_shards.getD 0
  let shard_size := manifest.shard_size.getD manifest.chunk_size
  (P.rs_new k m).mapError fun e => .other ("RS init error: " ++ e)
  let shards ← read_shards P disk chunks_dir manifest shard_size 0 (k + m)
  let present := shards.countP Option.isSome
  if present < k then
    .error (.custom .InvalidData ("too many missing/corrupt shards: only " ++ toString present ++ " of " ++
      toString k ++ " required shards available (" ++ toString (k + m - present) ++ " missing)"))
  else
    let shards ← (P.rs_reconstruct k m shards).mapError fun e => .other ("RS reconstruction failed: " ++ e)
    match shards[target_index]?,manifest.chunks[target_index]? with
    | some (some reconstructed),some chunk_info => .ok (reconstructed.take chunk_info.size)
    | _,_ => .error (.other "reconstruction produced None for target shard")

def load_chunk_sync (r : VerifiedChunkReader) : Except IoError VerifiedChunkReader :=
  match r.manifest.chunks[r.current_chunk]? with
  | none => .error (.custom .InvalidData ("manifest missing chunk " ++ toString r.current_chunk ++ " (" ++
      toString r.manifest.chunks.length ++ " entries)"))
  | some chunk_info =>
    let serve (data : Bytes) : VerifiedChunkReader :=
      { r with buf := data, buf_pos := r.skip_bytes, skip_bytes := 0, state := .Serving }
    match r.read_chunk P chunk_info with
    | .ok data => .ok (serve data)
    | .error original_err =>
      if r.manifest.parity_shards.getD 0 > 0 then
        match try_reconstruct_data_chunk P r.disk r.chunks_dir r.manifest r.current_chunk with
        | .ok data => .ok (serve data)
        | .error e => .error e
      else .error original_err

/-- Verify the first chunk before streaming starts. -/
def preflight (r : VerifiedChunkReader) : Except IoError VerifiedChunkReader :=
  if r.state = .Done then .ok r else r.load_chunk_sync P

/-- One turn of the loop in `poll_read`. -/
def turn (r : VerifiedChunkReader) (cap : Nat) : Turn VerifiedChunkReader IoError UInt8 :=
  match r.state with
  | .Done => .ready (.ok ([],r))
  | .NeedLoad =>
    if r.current_chunk > r.end_chunk ∨ r.remaining = 0 then .ready (.ok ([],{ r with state := .Done }))
    else match r.load_chunk_sync P with
      | .ok loaded => .again loaded
      | .error e => .ready (.error e)
  | .Serving =>
    let available := r.buf.drop r.buf_pos
    if available = [] then .again { r with current_chunk := u32 (r.current_chunk + 1), state := .NeedLoad }
    else
      let to_copy := min (min available.length cap) r.remaining
      let remaining := r.remaining - to_copy
      .ready (.ok (available.take to_copy,
        { r with buf_pos := r.buf_pos + to_copy, remaining, state := if remaining = 0 then .Done else .Serving }))

/-- No read goes through more chunks than there are chunk numbers. -/
def turns : Nat := 2 ^ 33 + 4

def poll_read : Poll VerifiedChunkReader IoError UInt8 := fun r cap =>
  Reading.spin (turn P) (.other "chunk reader does not terminate") cap turns r

end Polling
end VerifiedChunkReader
end Maxio
