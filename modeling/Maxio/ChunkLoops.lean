import Maxio.Loops
import Maxio.Pieces
import Maxio.ChunkReader
import Maxio.WriterProgress
import Maxio.Tamper

/-!
The loops that cut an object into chunks, statement by statement and for every chunk size the configuration admits:
those of `put_object_chunked` and of its encrypted twin, and of the completion of a multipart upload, plain and
encrypted. Chunk size zero is admitted.
-/

namespace Maxio
open Loops

/-! ### The loops -/

/-- Where a loop stands. -/
inductive LoopPhase where
  /-- Before the next read of the input. -/
  | reading
  /-- At `while frame_buf.len() >= FRAME_CHUNK_SIZE`. -/
  | framing
  /-- At `while chunk_buf.len() >= self.chunk_size`, before or after the end of the input. -/
  | draining (last : Bool)
  /-- At the write of what is left of the chunk buffer. -/
  | flushing
  deriving DecidableEq, Repr

structure WriteLoop where
  phase : LoopPhase
  /-- What the coming reads give, up to the end of the input. -/
  reads : List Bytes
  frame_buf : Bytes
  frame_index : Nat
  chunk_buf : Bytes
  /-- The chunks written. -/
  chunks : List Bytes

/-- What the loops depend on: the configured chunk size, how a frame is encrypted if the object is, whether the input
    ends with an error, and which of the writes of chunks succeed. -/
structure LoopSetting where
  chunk_size : Nat
  encrypt : Option (Nat → Bytes → Option Bytes)
  failure : Bool
  write_ok : Nat → Bool

/-- All chunks were written, or the function returned an error. -/
inductive LoopResult where
  | written (chunks : List Bytes)
  | failed
  deriving DecidableEq, Repr

namespace WriteLoop

def start (reads : List Bytes) : WriteLoop where
  phase := .reading
  reads := reads
  frame_buf := []
  frame_index := 0
  chunk_buf := []
  chunks := []

variable (cfg : LoopSetting)

/-- The chunks at the end: what is left, and one empty chunk for an object without any. -/
def last_chunks (s : WriteLoop) : List Bytes :=
  let chunks := if s.chunk_buf = [] then s.chunks else s.chunks ++ [s.chunk_buf]
  if chunks = [] then [[]] else chunks

/-- One step of the loops. -/
def next (s : WriteLoop) : WriteLoop ⊕ LoopResult :=
  match s.phase with
  | .reading => match s.reads with
    | piece :: reads => match cfg.encrypt with
      | none => .inl { s with reads, chunk_buf := s.chunk_buf ++ piece, phase := .draining false }
      | some _ => .inl { s with reads, frame_buf := s.frame_buf ++ piece, phase := .framing }
    | [] =>
      if cfg.failure then .inr .failed
      else match cfg.encrypt with
        | none => .inl { s with phase := .flushing }
        | some encrypt =>
          if s.frame_buf = [] then .inl { s with phase := .draining true }
          else match encrypt s.frame_index s.frame_buf with
            | some ct => .inl { s with frame_buf := [], chunk_buf := s.chunk_buf ++ ct, phase := .draining true }
            | none => .inr .failed
  | .framing =>
    if FRAME_CHUNK_SIZE ≤ s.frame_buf.length then
      match cfg.encrypt.bind fun encrypt => encrypt s.frame_index (s.frame_buf.take FRAME_CHUNK_SIZE) with
      | some ct => .inl { s with
          frame_buf := s.frame_buf.drop FRAME_CHUNK_SIZE, frame_index := s.frame_index + 1
          chunk_buf := s.chunk_buf ++ ct, phase := .draining false }
      | none => .inr .failed
    else .inl { s with phase := .reading }
  | .draining last =>
    if cfg.chunk_size ≤ s.chunk_buf.length then
      if cfg.write_ok s.chunks.length then .inl { s with
        chunk_buf := s.chunk_buf.drop cfg.chunk_size, chunks := s.chunks ++ [s.chunk_buf.take cfg.chunk_size] }
      else .inr .failed
    else if last then .inl { s with phase := .flushing }
    else if cfg.encrypt.isSome then .inl { s with phase := .framing }
    else .inl { s with phase := .reading }
  | .flushing =>
    if s.chunk_buf = [] ∧ s.chunks ≠ [] then .inr (.written s.chunks)
    else if cfg.write_ok s.chunks.length then .inr (.written s.last_chunks)
    else .inr .failed

end WriteLoop

/-- The reads of the parts of an upload, in order, up to the first part that cannot be opened, read to its end or
    verified, and whether there is one. -/
def parts_input : List (List Bytes × Bool) → List Bytes × Bool
  | [] => ([],false)
  | (reads,true) :: _ => (reads,true)
  | (reads,false) :: rest =>
    let (more,failure) := parts_input rest
    (reads ++ more,failure)

/-- A chunked write: the function with the reads its loop makes, and the cipher of an encrypted object. -/
inductive ChunkedWrite where
  | put_object_chunked (body : List Bytes) (failure : Bool)
  | put_object_chunked_encrypted (cipher : FrameCipher) (body : List Bytes) (failure : Bool)
  | complete_multipart_chunked (parts : List (List Bytes × Bool))
  | complete_multipart_chunked_encrypted (cipher : FrameCipher) (parts : List (List Bytes × Bool))

namespace ChunkedWrite

def cipher : ChunkedWrite → Option FrameCipher
  | put_object_chunked .. => none
  | put_object_chunked_encrypted cipher .. => some cipher
  | complete_multipart_chunked .. => none
  | complete_multipart_chunked_encrypted cipher .. => some cipher

def input : ChunkedWrite → List Bytes × Bool
  | put_object_chunked body failure => (body,failure)
  | put_object_chunked_encrypted _ body failure => (body,failure)
  | complete_multipart_chunked parts => parts_input parts
  | complete_multipart_chunked_encrypted _ parts => parts_input parts

variable (P : Primitives)

/-- What the loop of this write depends on. -/
def setting (write : ChunkedWrite) (chunk_size : Nat) (write_ok : Nat → Bool) : LoopSetting where
  chunk_size := chunk_size
  encrypt := write.cipher.map fun cipher => sealFrame P cipher
  failure := write.input.2
  write_ok := write_ok

/-- Before the first read. -/
def start (write : ChunkedWrite) : WriteLoop := .start write.input.1

/-- The size of an object or, if it is encrypted, of its ciphertext. -/
def total_size (write : ChunkedWrite) (chunks : List Bytes) : Nat :=
  match write.cipher with
  | none => write.input.1.flatten.length
  | some _ => chunks.flatten.length

/-- The manifest written after the loop. -/
def manifest (write : ChunkedWrite) (chunk_size parity_shards : Nat) (chunks : List Bytes) (parity : List ChunkInfo) :
    ChunkManifest :=
  let total_size := write.total_size chunks
  let has_parity : Bool := parity_shards > 0 && total_size > 0
  { version := if has_parity then 2 else 1
    total_size, chunk_size
    chunk_count := u32 chunks.length
    chunks := (chunks.mapIdx fun i data =>
      { index := u32 i, size := data.length, sha256 := hex_encode (P.sha256 data), kind := .Data }) ++ parity
    parity_shards := if has_parity then some parity_shards else none
    shard_size := if has_parity then some chunk_size else none
    plaintext_size := write.cipher.map fun _ => write.input.1.flatten.length }

end ChunkedWrite

/-- Division of `u64`, which panics on zero. -/
def checked_div (a b : Nat) : Option Nat := if b = 0 then none else some (a / b)

def checked_rem (a b : Nat) : Option Nat := if b = 0 then none else some (a % b)

/-- `VerifiedChunkReader::with_range`, or nothing where it divides by zero. -/
def VerifiedChunkReader.with_range_checked (disk : Disk) (chunks_dir : OsPath) (manifest : ChunkManifest)
    (offset length : Nat) : Option VerifiedChunkReader :=
  if length = 0 ∨ manifest.total_size = 0 then some (with_range disk chunks_dir manifest offset length)
  else do
    let start_chunk ← checked_div offset manifest.chunk_size
    let end_chunk ← checked_div (offset + length - 1) manifest.chunk_size
    let skip_bytes ← checked_rem offset manifest.chunk_size
    pure {
      disk, chunks_dir, manifest, current_chunk := u32 start_chunk, end_chunk := u32 end_chunk, skip_bytes
      remaining := length, buf := [], buf_pos := 0, state := .NeedLoad }

/-- The loop ends whichever writes succeed, and a reader over the manifest of what it wrote never divides by zero. -/
structure ChunkedWrite.Ends (P : Primitives) (write : ChunkedWrite) (chunk_size parity_shards : Nat) : Prop where
  ends : ∀ write_ok, Loops.Ends (WriteLoop.next (write.setting P chunk_size write_ok)) write.start
  readable : ∀ write_ok chunks, EndsWith (WriteLoop.next (write.setting P chunk_size write_ok)) write.start
    (.written chunks) → ∀ parity disk dir offset length,
      (VerifiedChunkReader.with_range_checked disk dir (write.manifest P chunk_size parity_shards chunks parity) offset
        length).isSome = true

/-- The input is over before a chunk could be due: it has no bytes, or, for an encrypted object, it fails before its
    first full frame. -/
def ChunkedWrite.NothingDue (write : ChunkedWrite) : Prop :=
  match write.cipher with
  | none => write.input.1 = []
  | some _ => write.input.2 = true ∧ write.input.1.flatten.length < FRAME_CHUNK_SIZE

/-! ### A positive chunk size -/

namespace WriteLoop

/-- Reads left, with the end of the input. -/
def pending (s : WriteLoop) : Nat :=
  match s.phase with
  | .draining true => 0
  | .flushing => 0
  | _ => s.reads.length + 1

def rank : LoopPhase → Nat
  | .flushing => 0
  | .reading => 1
  | .framing => 2
  | .draining _ => 3

/-- Each loop has its own share in the measure: the reads, the frame buffer, the chunk buffer. -/
def measure (s : WriteLoop) : Nat × Nat × Nat × Nat :=
  (s.pending,s.frame_buf.length,s.chunk_buf.length,rank s.phase)

def Less : Nat × Nat × Nat × Nat → Nat × Nat × Nat × Nat → Prop :=
  Prod.Lex (· < ·) (Prod.Lex (· < ·) (Prod.Lex (· < ·) (· < ·)))

theorem less_wf : WellFounded Less :=
  (Prod.lex ⟨_,wellFounded_lt⟩ (Prod.lex ⟨_,wellFounded_lt⟩ (Prod.lex ⟨_,wellFounded_lt⟩ ⟨_,wellFounded_lt⟩))).wf

theorem less_iff (a b c d a' b' c' d' : Nat) : Less (a,b,c,d) (a',b',c',d') ↔
    a < a' ∨ a = a' ∧ (b < b' ∨ b = b' ∧ (c < c' ∨ c = c' ∧ d < d')) := by
  simp [Less,Prod.lex_def]

/-- With a positive chunk size every step takes something away. -/
theorem next_less {cfg : LoopSetting} (positive : 0 < cfg.chunk_size) {s s' : WriteLoop}
    (went : next cfg s = .inl s') : Less s'.measure s.measure := by
  have frame := frame_chunk_pos
  rw [measure,measure,less_iff]
  unfold next at went
  cases phase : s.phase with
  | reading =>
    simp only [phase] at went
    cases reads : s.reads with
    | nil =>
      simp only [reads] at went
      split at went
      next => cases went
      next =>
        split at went
        next =>
          cases went
          simp [pending,phase]
        next encrypt =>
          split at went
          next =>
            cases went
            simp [pending,phase]
          next =>
            split at went
            next =>
              cases went
              simp [pending,phase]
            next => cases went
    | cons piece reads' =>
      simp only [reads] at went
      split at went
      next =>
        cases went
        simp [pending,phase,reads]
      next =>
        cases went
        simp [pending,phase,reads]
  | framing =>
    simp only [phase] at went
    split at went
    next full =>
      split at went
      next =>
        cases went
        simp [pending,phase]
        omega
      next => cases went
    next =>
      cases went
      simp [pending,phase,rank]
  | draining last =>
    simp only [phase] at went
    split at went
    next full =>
      split at went
      next =>
        cases went
        cases last <;> simp [pending,phase] <;> omega
      next => cases went
    next =>
      split at went
      next is_last =>
        cases went
        simp [pending,phase,rank,is_last]
      next not_last =>
        simp only [Bool.not_eq_true] at not_last
        split at went
        next =>
          cases went
          simp [pending,phase,rank,not_last]
        next =>
          cases went
          simp [pending,phase,rank,not_last]
  | flushing =>
    simp only [phase] at went
    split at went
    next => cases went
    next => split at went <;> cases went

theorem ends_of_positive {cfg : LoopSetting} (positive : 0 < cfg.chunk_size) (s : WriteLoop) : Ends (next cfg) s :=
  ends_of_measure less_wf measure (I := fun _ => True) (fun _ _ _ went => ⟨trivial,next_less positive went⟩) s trivial

/-! ### Chunk size zero -/

/-- At the drain loop a chunk size of zero never lets go. -/
theorem draining_endless {cfg : LoopSetting} (zero : cfg.chunk_size = 0) (writes : ∀ i, cfg.write_ok i = true)
    {s : WriteLoop} {last : Bool} (phase : s.phase = .draining last) : ¬ Ends (next cfg) s := by
  refine endless (fun s => ∃ last, s.phase = .draining last) ?_ s ⟨last,phase⟩
  rintro s ⟨last,phase⟩
  refine ⟨{ s with
    chunk_buf := s.chunk_buf.drop cfg.chunk_size
    chunks := s.chunks ++ [s.chunk_buf.take cfg.chunk_size] },?_,last,phase⟩
  unfold next
  simp [phase,zero,writes]

variable {cfg : LoopSetting} {encrypt : Nat → Bytes → Option Bytes}

theorem next_piece (sealing : cfg.encrypt = some encrypt) {s : WriteLoop} (phase : s.phase = .reading) {piece : Bytes}
    {reads : List Bytes} (more : s.reads = piece :: reads) :
    next cfg s = .inl { s with reads, frame_buf := s.frame_buf ++ piece, phase := .framing } := by
  unfold next
  simp [phase,more,sealing]

theorem next_short {s : WriteLoop} (phase : s.phase = .framing) (short : s.frame_buf.length < FRAME_CHUNK_SIZE) :
    next cfg s = .inl { s with phase := .reading } := by
  unfold next
  simp only [phase]
  rw [if_neg (by omega)]

/-- An encrypted object of chunk size zero, with its frame buffer not yet full and nothing encrypted. -/
theorem sealing_endless (sealing : cfg.encrypt = some encrypt) (zero : cfg.chunk_size = 0)
    (writes : ∀ i, cfg.write_ok i = true)
    (capable : ∀ piece : Bytes, piece.length ≤ FRAME_CHUNK_SIZE → ∃ frame, encrypt 0 piece = some frame)
    {s : WriteLoop} (phase : s.phase = .reading) (first : s.frame_index = 0)
    (short : s.frame_buf.length < FRAME_CHUNK_SIZE)
    (due : cfg.failure = false ∨ FRAME_CHUNK_SIZE ≤ s.frame_buf.length + s.reads.flatten.length) :
    ¬ Ends (next cfg) s := by
  induction reads : s.reads generalizing s with
  | nil =>
    have clean : cfg.failure = false := by
      refine due.resolve_right ?_
      rw [reads]
      simp
      omega
    by_cases empty : s.frame_buf = []
    · have went : next cfg s = .inl { s with phase := .draining true } := by
        unfold next
        simp [phase,reads,clean,sealing,empty]
      rw [ends_iff went]
      exact draining_endless zero writes rfl
    · obtain ⟨frame,made⟩ := capable s.frame_buf (by omega)
      have went : next cfg s = .inl { s with
          frame_buf := [], chunk_buf := s.chunk_buf ++ frame, phase := .draining true } := by
        unfold next
        simp [phase,reads,clean,sealing,empty,first,made]
      rw [ends_iff went]
      exact draining_endless zero writes rfl
  | cons piece more ih =>
    rw [ends_iff (next_piece sealing phase reads)]
    by_cases full : FRAME_CHUNK_SIZE ≤ (s.frame_buf ++ piece).length
    · obtain ⟨frame,made⟩ := capable ((s.frame_buf ++ piece).take FRAME_CHUNK_SIZE) (by simp)
      have went : next cfg { s with reads := more, frame_buf := s.frame_buf ++ piece, phase := .framing } = .inl { s with
          reads := more, frame_buf := (s.frame_buf ++ piece).drop FRAME_CHUNK_SIZE, frame_index := s.frame_index + 1
          chunk_buf := s.chunk_buf ++ frame, phase := .draining false } := by
        unfold next
        simp only [sealing,Option.bind_some,first,made]
        rw [if_pos full]
      rw [ends_iff went]
      exact draining_endless zero writes rfl
    · rw [ends_iff (next_short rfl (by simpa using full))]
      refine ih rfl first (by simpa using full) ?_ rfl
      rw [reads] at due
      simpa [Nat.add_assoc] using due

/-- An encrypted object whose input fails before a frame is full fails. -/
theorem sealing_fails (sealing : cfg.encrypt = some encrypt) (failure : cfg.failure = true) {s : WriteLoop}
    (phase : s.phase = .reading) (short : s.frame_buf.length + s.reads.flatten.length < FRAME_CHUNK_SIZE)
    (result : LoopResult) : EndsWith (next cfg) s result ↔ result = .failed := by
  induction reads : s.reads generalizing s with
  | nil =>
    refine ends_with_now ?_
    unfold next
    simp [phase,reads,failure]
  | cons piece more ih =>
    rw [reads] at short
    simp only [List.flatten_cons,List.length_append] at short
    rw [ends_with_iff (next_piece sealing phase reads),
      ends_with_iff (next_short rfl (by simp only [List.length_append]; omega))]
    exact ih rfl (by simp only [List.length_append]; omega) rfl

/-! ### What a plain write leaves -/

/-- The chunks written and due are the full pieces of what was read, and the rest is in the buffer. -/
structure Cut (n : Nat) (body : Bytes) (s : WriteLoop) : Prop where
  chunks : s.chunks ++ Chunking.full n s.chunk_buf = Chunking.full n (body.take (body.length - s.reads.flatten.length))
  buffer : Chunking.rest n s.chunk_buf = Chunking.rest n (body.take (body.length - s.reads.flatten.length))
  ahead : ∃ front, body = front ++ s.reads.flatten
  settled : s.phase = .reading ∨ s.phase = .flushing → s.chunk_buf.length < n
  finished : s.phase = .flushing → s.reads = []

theorem Cut.next {n : Nat} {body : Bytes} (positive : 0 < n) (size : cfg.chunk_size = n) (plain : cfg.encrypt = none)
    {s s' : WriteLoop} (cut : Cut n body s) (open' : s.phase ≠ .framing ∧ s.phase ≠ .draining true)
    (went : WriteLoop.next cfg s = .inl s') :
    Cut n body s' ∧ s'.phase ≠ .framing ∧ s'.phase ≠ .draining true := by
  obtain ⟨front,ahead⟩ := cut.ahead
  unfold WriteLoop.next at went
  cases phase : s.phase with
  | reading =>
    have short := cut.settled (.inl phase)
    simp only [phase] at went
    cases reads : s.reads with
    | nil =>
      simp only [reads,plain] at went
      split at went
      next => cases went
      next =>
        cases went
        have chunks := cut.chunks
        have buffer := cut.buffer
        have ahead := cut.ahead
        rw [reads] at chunks buffer ahead
        exact ⟨⟨chunks,buffer,ahead,fun _ => short,fun _ => rfl⟩,by simp,by simp⟩
    | cons piece more =>
      simp only [reads,plain] at went
      cases went
      rw [reads,List.flatten_cons] at ahead
      have before : body.take (body.length - s.reads.flatten.length) = front := by
        rw [ahead,reads]
        simp
      have after : body.take (body.length - more.flatten.length) = front ++ piece := by
        rw [ahead]
        simp [← List.append_assoc]
      have chunks := cut.chunks
      have buffer := cut.buffer
      rw [before,Chunking.full_short positive short,List.append_nil] at chunks
      rw [before,Chunking.rest_short positive short] at buffer
      refine ⟨⟨?_,?_,⟨front ++ piece,by rw [ahead,List.append_assoc]⟩,by simp,by simp⟩,by simp,by simp⟩
      · simp only
        rw [after,Chunking.full_append positive front,← buffer,chunks]
      · simp only
        rw [after,Chunking.rest_append positive front,← buffer]
  | framing => exact absurd phase open'.1
  | draining last =>
    have not_last : last = false := by
      cases last with
      | false => rfl
      | true => exact absurd phase open'.2
    subst not_last
    simp only [phase,plain,size,Option.isSome_none,Bool.false_eq_true,if_false] at went
    split at went
    next full =>
      split at went
      next =>
        cases went
        have head := Chunking.full_cons positive full
        have rest := Chunking.rest_cons positive full
        refine ⟨⟨?_,?_,cut.ahead,by simp,by simp⟩,by simp,by simp⟩
        · rw [← cut.chunks,head]
          simp
        · rw [← cut.buffer,rest]
      next => cases went
    next short =>
      cases went
      exact ⟨⟨cut.chunks,cut.buffer,cut.ahead,fun _ => by simpa using short,by simp⟩,by simp,by simp⟩
  | flushing =>
    simp only [phase] at went
    split at went
    next => cases went
    next => split at went <;> cases went

/-- A plain write leaves the pieces of its body, and one empty chunk for an empty one. -/
theorem plain_written (positive : 0 < cfg.chunk_size) (plain : cfg.encrypt = none) {reads chunks : List Bytes}
    (written : EndsWith (WriteLoop.next cfg) (start reads) (.written chunks)) :
    chunks = Chunking.pages cfg.chunk_size reads.flatten := by
  have first : Cut cfg.chunk_size reads.flatten (start reads) :=
    ⟨by simp [start],by simp [start],⟨[],rfl⟩,by simp [start,positive],by simp [start]⟩
  obtain ⟨s,⟨cut,no_frames⟩,ended⟩ := EndsWith.last (I := fun s => Cut cfg.chunk_size reads.flatten s ∧
      s.phase ≠ .framing ∧ s.phase ≠ .draining true)
    (fun s s' inv went => inv.1.next positive rfl plain inv.2 went) written ⟨first,by simp [start],by simp [start]⟩
  have phase : s.phase = .flushing := by
    unfold WriteLoop.next at ended
    cases phase : s.phase with
    | reading =>
      simp only [phase,plain] at ended
      split at ended
      next => cases ended
      next => split at ended <;> cases ended
    | framing => exact absurd phase no_frames.1
    | draining last =>
      simp only [phase,plain] at ended
      split at ended
      next => split at ended <;> cases ended
      next => split at ended <;> cases ended
    | flushing => rfl
  have short := cut.settled (.inr phase)
  have full := cut.chunks
  have rest := cut.buffer
  rw [cut.finished phase,List.flatten_nil,List.length_nil,Nat.sub_zero,List.take_length] at full rest
  rw [Chunking.full_short positive short,List.append_nil] at full
  rw [Chunking.rest_short positive short] at rest
  have result : chunks = s.last_chunks := by
    unfold WriteLoop.next at ended
    simp only [phase] at ended
    split at ended
    next kept =>
      cases ended
      simp [last_chunks,kept.1,kept.2]
    next =>
      split at ended
      next =>
        cases ended
        rfl
      next => cases ended
  rw [result,last_chunks,full,rest,Chunking.pages]
  by_cases empty : reads.flatten = []
  · simp [empty]
  · have some_piece : Chunking.pieces cfg.chunk_size reads.flatten ≠ [] := by
      intro none
      have joined := Chunking.flatten_pieces positive reads.flatten
      rw [none] at joined
      exact empty joined.symm
    rw [if_neg empty]
    unfold Chunking.pieces at some_piece ⊢
    by_cases left : Chunking.rest cfg.chunk_size reads.flatten = []
    · simp only [left,if_true,List.append_nil] at some_piece ⊢
      exact if_neg some_piece
    · simp [left]

end WriteLoop

/-! ### Every chunk size -/

theorem VerifiedChunkReader.with_range_checked_eq (disk : Disk) (dir : OsPath) (manifest : ChunkManifest)
    (offset length : Nat) (safe : 0 < manifest.chunk_size ∨ manifest.total_size = 0) :
    with_range_checked disk dir manifest offset length = some (with_range disk dir manifest offset length) := by
  unfold with_range_checked
  by_cases nothing : length = 0 ∨ manifest.total_size = 0
  · rw [if_pos nothing]
  · have positive : manifest.chunk_size ≠ 0 := by omega
    rw [if_neg nothing]
    simp only [checked_div,checked_rem,positive,if_false,with_range]
    rw [if_neg nothing]
    rfl

/-- The loops of a chunked write end, whichever writes succeed, and what they wrote is read without a division by
    zero, if and only if the chunk size is positive or the input is over before a chunk is due. -/
theorem chunked_write_ends_iff (P : Primitives) (write : ChunkedWrite) (chunk_size parity_shards : Nat)
    (capable : ∀ cipher, write.cipher = some cipher → Capable P cipher) :
    write.Ends P chunk_size parity_shards ↔ 0 < chunk_size ∨ write.NothingDue := by
  constructor
  · intro ends
    rcases Nat.eq_zero_or_pos chunk_size with zero | positive
    · right
      have here := ends.ends fun _ => true
      by_contra due
      revert here
      cases cipher : write.cipher with
      | none =>
        have some_read : write.input.1 ≠ [] := by simpa [ChunkedWrite.NothingDue,cipher] using due
        obtain ⟨piece,reads,split⟩ := List.exists_cons_of_ne_nil some_read
        have went : WriteLoop.next (write.setting P chunk_size fun _ => true) write.start =
            .inl { write.start with reads, chunk_buf := piece, phase := .draining false } := by
          unfold WriteLoop.next
          simp [ChunkedWrite.start,WriteLoop.start,ChunkedWrite.setting,cipher,split]
        rw [Loops.ends_iff went]
        exact WriteLoop.draining_endless zero (fun _ => rfl) rfl
      | some c =>
        have first := capable c cipher 0 (by norm_num)
        refine @WriteLoop.sealing_endless _ (sealFrame P c) (by simp [ChunkedWrite.setting,cipher]) zero
          (fun _ => rfl) first _ rfl rfl frame_chunk_pos ?_
        simp only [ChunkedWrite.NothingDue,cipher,not_and,not_lt] at due
        cases failure : write.input.2 with
        | false => exact .inl failure
        | true => exact .inr (by simpa [ChunkedWrite.start,WriteLoop.start] using due failure)
    · exact .inl positive
  · rintro (positive | idle)
    · refine ⟨fun write_ok => WriteLoop.ends_of_positive positive _,?_⟩
      intro write_ok chunks _ parity disk dir offset length
      rw [VerifiedChunkReader.with_range_checked_eq _ _ _ _ _ (.inl positive)]
      rfl
    · cases cipher : write.cipher with
      | none =>
        have empty : write.input.1 = [] := by simpa [ChunkedWrite.NothingDue,cipher] using idle
        refine ⟨fun write_ok => ?_,?_⟩
        · cases failure : write.input.2 with
          | true =>
            refine ⟨.failed,Loops.ends_with_result ?_⟩
            unfold WriteLoop.next
            simp [ChunkedWrite.start,WriteLoop.start,ChunkedWrite.setting,empty,failure]
          | false =>
            have went : WriteLoop.next (write.setting P chunk_size write_ok) write.start =
                .inl { write.start with phase := .flushing } := by
              unfold WriteLoop.next
              simp [ChunkedWrite.start,WriteLoop.start,ChunkedWrite.setting,empty,failure,cipher]
            rw [Loops.ends_iff went]
            cases ok : write_ok 0 with
            | true =>
              refine ⟨.written [[]],Loops.ends_with_result ?_⟩
              unfold WriteLoop.next
              simp [ChunkedWrite.start,WriteLoop.start,ChunkedWrite.setting,ok,WriteLoop.last_chunks]
            | false =>
              refine ⟨.failed,Loops.ends_with_result ?_⟩
              unfold WriteLoop.next
              simp [ChunkedWrite.start,WriteLoop.start,ChunkedWrite.setting,ok]
        · intro write_ok chunks _ parity disk dir offset length
          have none_read : (write.manifest P chunk_size parity_shards chunks parity).total_size = 0 := by
            simp [ChunkedWrite.manifest,ChunkedWrite.total_size,cipher,empty]
          rw [VerifiedChunkReader.with_range_checked_eq _ _ _ _ _ (.inr none_read)]
          rfl
      | some c =>
        simp only [ChunkedWrite.NothingDue,cipher] at idle
        have fails : ∀ write_ok result, EndsWith (WriteLoop.next (write.setting P chunk_size write_ok)) write.start result ↔
            result = .failed := by
          intro write_ok result
          refine @WriteLoop.sealing_fails _ (sealFrame P c) (by simp [ChunkedWrite.setting,cipher]) idle.1 _ rfl ?_ result
          simpa [ChunkedWrite.start,WriteLoop.start] using idle.2
        refine ⟨fun write_ok => ⟨_,(fails write_ok _).mpr rfl⟩,?_⟩
        intro write_ok chunks written
        have impossible := (fails write_ok _).mp written
        cases impossible

namespace Sample

/-- The cipher of `logs/a`. -/
def logs_a_cipher : FrameCipher := ⟨data_key,List.replicate 8 2,build_frame_aad vault "logs" "a" none⟩

theorem vault_encrypts (key nonce aad message : Bytes) : (vault.encrypt key nonce aad message).isSome = true := by
  simp only [vault]
  split <;> rfl

end Sample

/-- An encrypted object of three bytes in chunks of four. -/
theorem chunked_write_of_abc_ends :
    (ChunkedWrite.put_object_chunked_encrypted Sample.logs_a_cipher [Sample.abc] false).Ends Sample.vault 4 1 := by
  refine (chunked_write_ends_iff Sample.vault _ 4 1 ?_).mpr (.inl (by decide))
  intro cipher same
  obtain rfl : Sample.logs_a_cipher = cipher := Option.some.inj same
  exact capable_of_encrypts (fun key nonce aad message _ => Sample.vault_encrypts key nonce aad message) (by decide)

/-- With chunk size zero the first bytes of a body start a loop that writes empty chunks for ever. -/
theorem zero_chunk_size_never_ends : ¬ (ChunkedWrite.put_object_chunked [Sample.abc] false).Ends Sample.vault 0 0 := by
  intro ends
  have here := ends.ends fun _ => true
  have went : WriteLoop.next ((ChunkedWrite.put_object_chunked [Sample.abc] false).setting Sample.vault 0 fun _ => true)
      (ChunkedWrite.put_object_chunked [Sample.abc] false).start =
      .inl { WriteLoop.start [] with chunk_buf := Sample.abc, phase := .draining false } := rfl
  rw [Loops.ends_iff went] at here
  exact WriteLoop.draining_endless rfl (fun _ => rfl) rfl here

end Maxio
