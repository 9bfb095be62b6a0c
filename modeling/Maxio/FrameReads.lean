import Maxio.ChunkReads
import Maxio.Crypto

/-!
What comes out of a `FrameDecryptor`: the plaintext in order, as long as the frames that open hold what was
encrypted in their place, and not all of it when ciphertext is missing.
-/

set_option linter.unusedSimpArgs false

namespace Maxio
open Reading

/-- Piece `i` of the data, in pieces of the given size. -/
abbrev pieceOf (size : Nat) (data : Bytes) (i : Nat) : Bytes := VerifiedChunkReader.chunkOf size data i

/-- Length of frame `i` of a plaintext of the given size; zero after the last frame. -/
def frameLength (chunk_size plaintext_size i : Nat) : Nat :=
  if i * chunk_size ≥ plaintext_size then 0 else 12 + min (plaintext_size - i * chunk_size) chunk_size + 16

namespace FrameDecryptor
variable {σ : Type} (P : Primitives)

/-- Check the index of frame `i` and decrypt it. -/
def openFrame (key : Bytes) (aad : Nat → Bytes) (i : Nat) (frame : Bytes) : Except IoError Bytes :=
  if frame.length < 12 then .error (.custom .InvalidData "ciphertext frame too short to contain a nonce")
  else if from_le_bytes ((frame.take 12).drop 4) ≠ i ∧ from_le_bytes ((frame.take 12).drop 8) ≠ i then
    .error (.custom .InvalidData ("frame index mismatch: expected " ++ toString i ++ ", got " ++
      toString (from_le_bytes ((frame.take 12).drop 4))))
  else match P.decrypt key (frame.take 12) (aad i) (frame.drop 12) with
    | some plaintext => .ok plaintext
    | none => .error (.custom .InvalidData "AES-GCM decryption failed: authentication error")

theorem open_frame_eq (d : FrameDecryptor σ) :
    d.open_frame P = match openFrame P d.key d.aad_builder d.chunk_index d.frame_buf with
      | .ok plaintext => .ok (update_frame_target
          { d with out_buf := plaintext, out_pos := 0, chunk_index := d.chunk_index + 1, frame_buf := [] })
      | .error e => .error e := by
  unfold open_frame openFrame
  split
  · rfl
  · dsimp only
    split
    · rfl
    · rcases P.decrypt d.key (d.frame_buf.take 12) (d.aad_builder d.chunk_index) (d.frame_buf.drop 12) <;> rfl

/-- The target is the length of the next frame; nothing else changes. -/
theorem update_frame_target_eq (d : FrameDecryptor σ) :
    d.update_frame_target = { d with frame_target := frameLength d.chunk_size d.plaintext_size d.chunk_index } := by
  unfold update_frame_target frameLength
  dsimp only
  split <;> rfl

/-- What a decryptor reads from: key and additional data, the plaintext that was encrypted, the frame the stream
    starts with and the bytes of the stream. -/
structure Stream where
  key : Bytes
  aad : Nat → Bytes
  chunk_size : Nat
  plain : Bytes
  start : Nat
  bytes : Bytes

/-- Where frame `i` starts in the stream. -/
def Stream.offset (st : Stream) (i : Nat) : Nat := (i - st.start) * (st.chunk_size + FRAME_OVERHEAD)

/-- The bytes in the place of frame `i`. -/
def Stream.frame (st : Stream) (i : Nat) : Bytes :=
  (st.bytes.drop (st.offset i)).take (frameLength st.chunk_size st.plain.length i)

/-- A frame that is complete and opens holds what was encrypted there. -/
structure Stream.Honest (st : Stream) (mayFail mayStop : Prop) : Prop where
  positive : 0 < st.chunk_size
  right : ∀ i p, st.start ≤ i → i * st.chunk_size < st.plain.length →
    (st.frame i).length = frameLength st.chunk_size st.plain.length i →
    openFrame P st.key st.aad i (st.frame i) = .ok p → p = pieceOf st.chunk_size st.plain i
  opens : ∀ i e, st.start ≤ i → i * st.chunk_size < st.plain.length →
    (st.frame i).length = frameLength st.chunk_size st.plain.length i →
    openFrame P st.key st.aad i (st.frame i) = .error e → mayFail
  short : ∀ i, st.start ≤ i → i * st.chunk_size < st.plain.length →
    st.bytes.length < st.offset i + frameLength st.chunk_size st.plain.length i → mayStop ∧ mayFail

/-- The decryptor stands at position `x` of the plaintext, counted with what it still has to skip. -/
structure At (poll : Poll σ IoError UInt8) (mayFail : Prop) (st : Stream) (d : FrameDecryptor σ) (x : Nat) : Prop where
  key : d.key = st.key
  aad : d.aad_builder = st.aad
  size : d.plaintext_size = st.plain.length
  chunk : d.chunk_size = st.chunk_size
  ahead : st.start ≤ d.chunk_index
  target : d.done = false → d.frame_target = frameLength st.chunk_size st.plain.length d.chunk_index
  short : d.frame_target ≤ st.chunk_size + FRAME_OVERHEAD
  finished : d.done = true → st.plain.length ≤ x ∨ d.remaining = 0
  filled : d.frame_buf.length ≤ d.frame_target
  buffered : (d.out_buf = [] ∧ d.out_pos = 0 ∧ x = d.chunk_index * st.chunk_size + d.skip_bytes) ∨
    (st.start < d.chunk_index ∧ d.out_buf = pieceOf st.chunk_size st.plain (d.chunk_index - 1) ∧
      (d.chunk_index - 1) * st.chunk_size < st.plain.length ∧ d.out_pos ≤ d.out_buf.length ∧
      x = (d.chunk_index - 1) * st.chunk_size + d.out_pos + d.skip_bytes)
  inner : ∃ rest, Yields poll mayFail False d.inner rest ∧
    (d.chunk_index * st.chunk_size < st.plain.length →
      d.frame_buf ++ rest = st.bytes.drop (st.offset d.chunk_index))

section Delivery
variable {P} {poll : Poll σ IoError UInt8} {mayFail mayStop : Prop} {st : Stream}

theorem frameLength_pos {chunk_size plaintext_size i : Nat} :
    frameLength chunk_size plaintext_size i ≠ 0 ↔ i * chunk_size < plaintext_size := by
  unfold frameLength
  split <;> omega

theorem frameLength_le (chunk_size plaintext_size i : Nat) :
    frameLength chunk_size plaintext_size i ≤ chunk_size + FRAME_OVERHEAD := by
  unfold frameLength FRAME_OVERHEAD
  split <;> omega

theorem At.skip {d : FrameDecryptor σ} {x : Nat} (at' : At poll mayFail st d x) : At poll mayFail st d.skip x := by
  unfold FrameDecryptor.skip
  split
  next waste =>
    refine ⟨at'.key,at'.aad,at'.size,at'.chunk,at'.ahead,at'.target,at'.short,at'.finished,at'.filled,?_,at'.inner⟩
    rcases at'.buffered with ⟨empty,start,_⟩ | ⟨ahead,piece,inside,short,same⟩
    · simp [empty] at waste
    · refine .inr ⟨ahead,piece,inside,?_,?_⟩ <;> simp only <;> omega
  next => exact at'

/-- After `skip`, either nothing is left to skip or the buffer is used up. -/
theorem skip_spent (d : FrameDecryptor σ) : d.skip.skip_bytes = 0 ∨ d.skip.out_buf.length ≤ d.skip.out_pos := by
  unfold FrameDecryptor.skip
  split
  next waste => simp only; omega
  next kept => omega

@[simp] theorem skip_remaining (d : FrameDecryptor σ) : d.skip.remaining = d.remaining := by
  unfold FrameDecryptor.skip
  split <;> rfl

@[simp] theorem skip_done (d : FrameDecryptor σ) : d.skip.done = d.done := by
  unfold FrameDecryptor.skip
  split <;> rfl

/-- With the buffer used up, the next plaintext byte is the first of the next frame. -/
private theorem At.exhausted {d : FrameDecryptor σ} {x : Nat} (at' : At poll mayFail st d x)
    (spent : d.out_buf.length ≤ d.out_pos) :
    (st.plain.length ≤ x) ∨ x = d.chunk_index * st.chunk_size + d.skip_bytes := by
  rcases at'.buffered with ⟨_,_,same⟩ | ⟨ahead,piece,inside,short,same⟩
  · exact .inr same
  · have size := congrArg List.length piece
    rw [VerifiedChunkReader.length_chunkOf] at size
    obtain ⟨c,next⟩ : ∃ c, d.chunk_index = c + 1 := ⟨d.chunk_index - 1,by omega⟩
    rw [next] at inside same size ⊢
    simp only [Nat.add_sub_cancel,Nat.add_mul,Nat.one_mul] at inside same size ⊢
    omega

private theorem At.served {d : FrameDecryptor σ} {x : Nat} (at' : At poll mayFail st d x)
    (noSkip : d.skip_bytes = 0) (n : Nat) (some' : 0 < n) (fits : n ≤ d.out_buf.length - d.out_pos)
    (within : n ≤ d.remaining) :
    (d.out_buf.drop d.out_pos).take n = (st.plain.drop x).take n ∧ n ≤ st.plain.length - x ∧
      At poll mayFail st { d with out_pos := d.out_pos + n, remaining := d.remaining - n } (x + n) := by
  rcases at'.buffered with ⟨empty,_,_⟩ | ⟨ahead,piece,inside,short,same⟩
  · simp [empty] at fits; omega
  · have size := congrArg List.length piece
    rw [VerifiedChunkReader.length_chunkOf] at size
    rw [noSkip,Nat.add_zero] at same
    refine ⟨?_,?_,at'.key,at'.aad,at'.size,at'.chunk,at'.ahead,at'.target,at'.short,?_,at'.filled,.inr ?_,at'.inner⟩
    · rw [piece,same]
      simp only [pieceOf,VerifiedChunkReader.chunkOf]
      rw [List.drop_take,List.take_take,List.drop_drop]
      congr 1
      omega
    · omega
    · intro done
      rcases at'.finished done with out | out
      · exact .inl (by omega)
      · exact .inr (by simp only; omega)
    · refine ⟨ahead,piece,inside,?_,?_⟩ <;> simp only <;> omega

private theorem At.opened (honest : st.Honest P mayFail mayStop) {d d' : FrameDecryptor σ} {x : Nat}
    (at' : At poll mayFail st d x) (spent : d.out_buf.length ≤ d.out_pos) (active : d.done = false)
    (more : d.frame_target ≠ 0) (full : d.frame_buf.length = d.frame_target) (done : d.open_frame P = .ok d') :
    At poll mayFail st d' x ∧ d'.chunk_index = d.chunk_index + 1 ∧ d'.remaining = d.remaining ∧
      d'.frame_buf = [] ∧ d'.out_pos = 0 ∧ d'.skip_bytes = d.skip_bytes := by
  have target := at'.target active
  have inside : d.chunk_index * st.chunk_size < st.plain.length := frameLength_pos.mp (target ▸ more)
  obtain ⟨rest,yields,stream⟩ := at'.inner
  have read : st.frame d.chunk_index = d.frame_buf := by
    rw [Stream.frame,← stream inside,List.take_left' (by rw [full,target])]
  rw [open_frame_eq] at done
  split at done
  next p opened =>
    injection done with done
    rw [update_frame_target_eq] at done
    rw [at'.key,at'.aad] at opened
    have right := honest.right _ _ at'.ahead inside (by rw [read,full,target]) (read ▸ opened)
    have positive := honest.positive
    have position : x = d.chunk_index * st.chunk_size + d.skip_bytes := by
      rcases at'.buffered with ⟨_,_,same⟩ | ⟨ahead,piece,before,short,same⟩
      · exact same
      · have size := congrArg List.length piece
        rw [VerifiedChunkReader.length_chunkOf] at size
        obtain ⟨c,next⟩ : ∃ c, d.chunk_index = c + 1 := ⟨d.chunk_index - 1,by omega⟩
        rw [next] at before same size inside ⊢
        simp only [Nat.add_sub_cancel,Nat.add_mul,Nat.one_mul] at before same size inside ⊢
        omega
    subst done
    refine ⟨⟨at'.key,at'.aad,at'.size,at'.chunk,?_,?_,?_,?_,?_,.inr ?_,rest,yields,?_⟩,rfl,rfl,rfl,rfl,rfl⟩
    · simp only
      have := at'.ahead
      omega
    · intro _
      simp only [at'.chunk,at'.size]
    · simp only [at'.chunk]
      exact frameLength_le _ _ _
    · exact at'.finished
    · simp
    · simp only [Nat.add_sub_cancel]
      have := at'.ahead
      exact ⟨by omega,right,inside,by omega,by omega⟩
    · intro following
      simp only [List.nil_append] at following ⊢
      have whole : frameLength st.chunk_size st.plain.length d.chunk_index = st.chunk_size + FRAME_OVERHEAD := by
        rw [Nat.add_mul,Nat.one_mul] at following
        rw [frameLength,if_neg (by omega)]
        simp only [FRAME_OVERHEAD]
        omega
      have step : st.offset (d.chunk_index + 1) = st.offset d.chunk_index + d.frame_buf.length := by
        rw [full,target,whole,Stream.offset,Stream.offset,Nat.succ_sub at'.ahead,Nat.succ_mul]
      rw [step,← List.drop_drop,← stream inside,List.drop_left]
  next => cases done

private theorem At.more (fits : ∀ s cap piece s', poll s cap = .ok (piece,s') → piece.length ≤ cap)
    {d : FrameDecryptor σ} {x : Nat} (at' : At poll mayFail st d x)
    (open' : d.frame_buf.length ≠ d.frame_target) {piece : Bytes} {inner : σ}
    (given : poll d.inner (d.frame_target - d.frame_buf.length) = .ok (piece,inner)) (nonempty : piece ≠ []) :
    At poll mayFail st { d with inner, frame_buf := d.frame_buf ++ piece } x := by
  have filled := at'.filled
  obtain ⟨rest,yields,stream⟩ := at'.inner
  obtain ⟨tail,rfl,next⟩ := yields.gives (by omega) given nonempty
  have short := fits _ _ _ _ given
  refine ⟨at'.key,at'.aad,at'.size,at'.chunk,at'.ahead,at'.target,at'.short,at'.finished,?_,at'.buffered,tail,next,?_⟩
  · simp only [List.length_append]
    omega
  · intro inside
    simpa using stream inside

/-- Each frame takes one turn for every read and one to open it. -/
def frameMeasure (d : FrameDecryptor σ) : Nat :=
  (d.plaintext_size + 1 - d.chunk_index) * (d.chunk_size + FRAME_OVERHEAD + 2) +
    (d.frame_target - d.frame_buf.length)

theorem frameMeasure_skip (d : FrameDecryptor σ) : frameMeasure d.skip = frameMeasure d := by
  unfold FrameDecryptor.skip
  split <;> rfl

/-- Going round again keeps the position and makes the measure smaller. -/
private theorem At.again (honest : st.Honest P mayFail mayStop)
    (fits : ∀ s cap piece s', poll s cap = .ok (piece,s') → piece.length ≤ cap)
    {d d' : FrameDecryptor σ} {x cap : Nat} (positive : 0 < cap) (at' : At poll mayFail st d x)
    (round : turn P poll d cap = .again d') :
    (At poll mayFail st d' x ∧ d'.remaining = d.remaining) ∧ frameMeasure d' < frameMeasure d := by
  rw [← frameMeasure_skip d]
  have skipped := at'.skip
  unfold turn at round
  simp only at round
  split at round
  next => cases round
  next nothing =>
    split at round
    next => cases round
    next busy =>
      simp only [Bool.or_eq_true,decide_eq_true_eq,not_or,Bool.not_eq_true] at busy
      obtain ⟨⟨active,wanted⟩,more⟩ := busy
      have spent : d.skip.out_buf.length ≤ d.skip.out_pos := by
        simp only [available] at nothing
        omega
      have inside : d.skip.chunk_index * st.chunk_size < st.plain.length :=
        frameLength_pos.mp (skipped.target active ▸ more)
      have bound : d.skip.chunk_index < d.skip.plaintext_size + 1 := by
        rw [skipped.size]
        have := Nat.le_mul_of_pos_right d.skip.chunk_index honest.positive
        omega
      split at round
      next full =>
        split at round
        next next done =>
          injection round with round
          subst round
          obtain ⟨next,index,same,empty,_⟩ := skipped.opened honest spent active more full done
          have short := next.short
          refine ⟨⟨next,by rw [same,skip_remaining]⟩,?_⟩
          simp only [frameMeasure,index,empty,next.size,next.chunk,skipped.size,skipped.chunk,FRAME_OVERHEAD] at *
          obtain ⟨k,split'⟩ : ∃ k, st.plain.length + 1 - d.skip.chunk_index = k + 1 :=
            ⟨st.plain.length - d.skip.chunk_index,by omega⟩
          rw [split',show st.plain.length + 1 - (d.skip.chunk_index + 1) = k by omega,Nat.add_mul,Nat.one_mul]
          simp only [List.length_nil]
          omega
        next => cases round
      next open' =>
        unfold fill_frame at round
        split at round
        next => cases round
        next => split at round <;> cases round
        next piece inner ended given =>
          injection round with round
          subst round
          have nonempty : piece ≠ [] := by
            rintro rfl
            exact ended rfl
          have filled := skipped.filled
          refine ⟨⟨skipped.more fits open' given nonempty,by simp⟩,?_⟩
          have long : 0 < piece.length := List.length_pos_iff.mpr nonempty
          simp only [frameMeasure,List.length_append]
          omega

theorem frameMeasure_lt (d : FrameDecryptor σ) (short : d.frame_target ≤ d.chunk_size + FRAME_OVERHEAD) :
    frameMeasure d < d.turns := by
  simp only [frameMeasure,turns,FRAME_OVERHEAD] at *
  have : (d.plaintext_size + 1 - d.chunk_index) * (d.chunk_size + (12 + 16) + 2) ≤
      (d.plaintext_size + 1) * (d.chunk_size + (12 + 16) + 2) := Nat.mul_le_mul_right _ (by omega)
  rw [show d.plaintext_size + 2 = d.plaintext_size + 1 + 1 by omega,Nat.add_mul _ 1]
  omega

/-- A turn that returns. -/
private theorem At.ready (honest : st.Honest P mayFail mayStop)
    {d : FrameDecryptor σ} {x cap : Nat} (positive : 0 < cap) (at' : At poll mayFail st d x)
    {result : Except IoError (Bytes × FrameDecryptor σ)} (round : turn P poll d cap = .ready result) :
    (∃ e, result = .error e ∧ mayFail) ∨
    (∃ d', result = .ok ([],d') ∧ ((st.plain.drop x).take d.remaining = [] ∨ mayStop)) ∨
    ∃ piece d', result = .ok (piece,d') ∧ piece ≠ [] ∧ piece = (st.plain.drop x).take piece.length ∧
      piece.length ≤ d.remaining ∧ d'.remaining = d.remaining - piece.length ∧
      d'.done = false ∧ At poll mayFail st d' (x + piece.length) := by
  have skipped := at'.skip
  rw [← skip_remaining d]
  unfold turn at round
  simp only at round
  split at round
  next something =>
    injection round with round
    have fits' : d.skip.available cap ≤ d.skip.out_buf.length - d.skip.out_pos ∧
        d.skip.available cap ≤ d.skip.remaining := by
      simp only [available]
      omega
    have noSkip : d.skip.skip_bytes = 0 := by
      rcases skip_spent d with none | spent
      · exact none
      · omega
    obtain ⟨same,within,next⟩ := skipped.served noSkip _ something fits'.1 fits'.2
    have length : ((d.skip.out_buf.drop d.skip.out_pos).take (d.skip.available cap)).length =
        d.skip.available cap := by
      rw [List.length_take,List.length_drop]
      omega
    refine .inr (.inr ⟨_,_,round.symm,?_,?_,?_,?_,?_,?_⟩)
    · exact List.length_pos_iff.mp (by omega)
    · rw [length,same]
    · rw [length]; exact fits'.2
    · rw [length]
    · rw [Bool.eq_false_iff]
      intro done
      have := skipped.finished done
      omega
    · rw [length]; exact next
  next nothing =>
    have spent : d.skip.out_buf.length ≤ d.skip.out_pos ∨ d.skip.remaining = 0 := by
      simp only [available] at nothing
      omega
    split at round
    next idle =>
      injection round with round
      refine .inr (.inl ⟨_,round.symm,.inl ?_⟩)
      simp only [Bool.or_eq_true,decide_eq_true_eq] at idle
      by_cases finished : d.skip.done = true
      · rcases skipped.finished finished with out | out
        · rw [List.drop_eq_nil_of_le out,List.take_nil]
        · rw [out,List.take_zero]
      · rcases spent with spent | none
        · rcases idle with (impossible | none) | last
          · exact absurd impossible finished
          · rw [none,List.take_zero]
          · have target := skipped.target (by simpa using finished)
            have past : ¬ d.skip.chunk_index * st.chunk_size < st.plain.length :=
              fun inside => frameLength_pos.mpr inside (target ▸ last)
            rw [List.drop_eq_nil_of_le,List.take_nil]
            rcases skipped.exhausted spent with out | same
            · exact out
            · omega
        · rw [none,List.take_zero]
    next busy =>
      simp only [Bool.or_eq_true,decide_eq_true_eq,not_or,Bool.not_eq_true] at busy
      obtain ⟨⟨active,wanted⟩,more⟩ := busy
      have target := skipped.target active
      have inside : d.skip.chunk_index * st.chunk_size < st.plain.length := frameLength_pos.mp (target ▸ more)
      obtain ⟨rest,yields,stream⟩ := skipped.inner
      split at round
      next full =>
        split at round
        next => cases round
        next e failed =>
          injection round with round
          refine .inl ⟨e,round.symm,?_⟩
          have read : st.frame d.skip.chunk_index = d.skip.frame_buf := by
            rw [Stream.frame,← stream inside,List.take_left' (by rw [full,target])]
          rw [open_frame_eq,skipped.key,skipped.aad] at failed
          split at failed
          next => cases failed
          next e' refused =>
            exact honest.opens _ _ skipped.ahead inside (by rw [read,full,target]) (read ▸ refused)
      next open' =>
        have filled := skipped.filled
        -- the stream ends inside of this frame
        have ended : rest = [] → mayStop ∧ mayFail := by
          rintro rfl
          refine honest.short _ skipped.ahead inside ?_
          have length := congrArg List.length (stream inside)
          simp only [List.append_nil,List.length_drop] at length
          rw [← target]
          have : d.skip.frame_buf.length < d.skip.frame_target := by omega
          omega
        unfold fill_frame at round
        split at round
        next e polled =>
          injection round with round
          exact .inl ⟨e,round.symm,yields.fails (by omega) polled⟩
        next inner polled =>
          have short := ended ((yields.stops (by omega) polled).resolve_right id)
          split at round
          · injection round with round
            exact .inr (.inl ⟨_,round.symm,.inr short.1⟩)
          · injection round with round
            exact .inl ⟨_,round.symm,short.2⟩
        next => cases round

/-- One read: an error that is allowed, the end, or the next bytes of the plaintext. -/
theorem At.polled (honest : st.Honest P mayFail mayStop)
    (fits : ∀ s cap piece s', poll s cap = .ok (piece,s') → piece.length ≤ cap)
    {d : FrameDecryptor σ} {x cap : Nat} (positive : 0 < cap) (at' : At poll mayFail st d x) :
    (∃ e, poll_read P poll d cap = .error e ∧ mayFail) ∨
    (∃ d', poll_read P poll d cap = .ok ([],d') ∧ ((st.plain.drop x).take d.remaining = [] ∨ mayStop)) ∨
    ∃ piece d', poll_read P poll d cap = .ok (piece,d') ∧ piece ≠ [] ∧ piece = (st.plain.drop x).take piece.length ∧
      piece.length ≤ d.remaining ∧ d'.remaining = d.remaining - piece.length ∧
      d'.done = false ∧ At poll mayFail st d' (x + piece.length) := by
  obtain ⟨s,⟨here,same⟩,ready⟩ : ∃ s, (At poll mayFail st s x ∧ s.remaining = d.remaining) ∧
      turn P poll s cap = .ready (poll_read P poll d cap) := spin_ready frameMeasure
    (fun s s' inv more => by
      obtain ⟨⟨next,kept⟩,less⟩ := inv.1.again honest fits positive more
      exact ⟨⟨next,kept.trans inv.2⟩,less⟩)
    d.turns d (frameMeasure_lt d (by rw [at'.chunk]; exact at'.short)) ⟨at',rfl⟩
  rcases here.ready honest positive ready with failed | ended | ⟨piece,d',given,nonempty,same',within,left,active,next⟩
  · exact .inl failed
  · exact .inr (.inl (same ▸ ended))
  · exact .inr (.inr ⟨piece,d',given,nonempty,same',same ▸ within,same ▸ left,active,next⟩)

theorem delivers (honest : st.Honest P mayFail mayStop)
    (fits : ∀ s cap piece s', poll s cap = .ok (piece,s') → piece.length ≤ cap) :
    Delivers (poll_read P poll) mayFail mayStop
      fun d out => ∃ x, At poll mayFail st d x ∧ out = (st.plain.drop x).take d.remaining := by
  refine ⟨?_,?_,?_⟩
  · rintro d out cap e positive ⟨x,here,rfl⟩ polled
    rcases here.polled honest fits positive with ⟨_,_,may⟩ | ⟨_,ok,_⟩ | ⟨_,_,ok,_⟩
    · exact may
    · rw [ok] at polled; cases polled
    · rw [ok] at polled; cases polled
  · rintro d out cap d' positive ⟨x,here,rfl⟩ polled
    rcases here.polled honest fits positive with ⟨_,failed,_⟩ | ⟨_,_,ended⟩ | ⟨_,_,ok,nonempty,_⟩
    · rw [failed] at polled; cases polled
    · exact ended
    · rw [ok] at polled
      cases polled
      exact absurd rfl nonempty
  · rintro d out cap piece d' positive ⟨x,here,rfl⟩ polled nonempty
    rcases here.polled honest fits positive with ⟨_,failed,_⟩ | ⟨_,ok,_⟩ | ⟨_,_,ok,_,same,within,left,_,next⟩
    · rw [failed] at polled; cases polled
    · rw [ok] at polled
      cases polled
      exact absurd rfl nonempty
    · rw [ok] at polled
      cases polled
      refine ⟨_,?_,_,next,rfl⟩
      rw [left]
      conv_lhs => rw [← Nat.add_sub_cancel' within,List.take_add,List.drop_drop,← same]

/-! Where the decryptors start. -/

theorem at_start (honest : st.Honest P mayFail mayStop) {inner : σ}
    (yields : Yields poll mayFail False inner st.bytes) (skip remaining : Nat) :
    At poll mayFail st (for_range_internal inner st.key st.plain.length st.chunk_size st.start remaining skip st.aad)
      (st.start * st.chunk_size + skip) := by
  have positive := honest.positive
  unfold for_range_internal
  dsimp only
  split
  next passed =>
    refine ⟨rfl,rfl,rfl,rfl,le_rfl,?_,Nat.zero_le _,fun _ => ?_,by simp,.inl ⟨rfl,rfl,rfl⟩,st.bytes,yields,?_⟩
    · simp only [passed]
      simp
    · simp only [Bool.or_eq_true,decide_eq_true_eq] at passed
      exact passed.imp_left fun empty => by omega
    · simp [Stream.offset]
  next busy =>
    rw [update_frame_target_eq]
    refine ⟨rfl,rfl,rfl,rfl,le_rfl,fun _ => rfl,frameLength_le _ _ _,?_,Nat.zero_le _,.inl ⟨rfl,rfl,rfl⟩,
      st.bytes,yields,?_⟩
    · intro done
      exact absurd done busy
    · simp [Stream.offset]

/-- A decryptor of a range hands over that part of the plaintext. -/
theorem yields_for_range (honest : st.Honest P mayFail mayStop)
    (fits : ∀ s cap piece s', poll s cap = .ok (piece,s') → piece.length ≤ cap) {inner : σ}
    (yields : Yields poll mayFail False inner st.bytes) (offset length : Nat)
    (start : st.start = offset / st.chunk_size) :
    Yields (poll_read P poll) mayFail mayStop
      (for_range inner st.key st.plain.length st.chunk_size offset length st.aad)
      ((st.plain.drop offset).take length) := by
  refine ⟨_,delivers honest fits,offset,?_,?_⟩
  · have here := at_start honest yields (offset % st.chunk_size) length
    rwa [start,Nat.div_add_mod'] at here
  · congr 1
    unfold for_range for_range_internal
    dsimp only
    split
    · rfl
    · rw [update_frame_target_eq]

/-- A read of one byte from a decryptor that skips nothing leaves the buffer at its second byte. -/
private theorem poll_first {d d' : FrameDecryptor σ} {piece : Bytes} (start : d.out_pos = 0)
    (noSkip : d.skip_bytes = 0) (polled : poll_read P poll d 1 = .ok (piece,d')) (nonempty : piece ≠ []) :
    piece.length = 1 ∧ d'.out_pos = 1 := by
  unfold poll_read at polled
  generalize d.turns = count at polled
  induction count generalizing d with
  | zero => simp [spin] at polled
  | succ count ih =>
    have same : d.skip = d := by
      unfold FrameDecryptor.skip
      rw [if_neg (by omega)]
    rw [spin] at polled
    split at polled
    next result ready =>
      subst polled
      unfold turn at ready
      simp only [same] at ready
      split at ready
      next some' =>
        simp only [Turn.ready.injEq,Except.ok.injEq,Prod.mk.injEq] at ready
        obtain ⟨rfl,rfl⟩ := ready
        have one : d.available 1 = 1 := by
          simp only [available] at some' ⊢
          omega
        have long : 1 ≤ d.out_buf.length - d.out_pos := by
          simp only [available] at some'
          omega
        simp only [one,List.length_take,List.length_drop]
        omega
      next =>
        split at ready
        next =>
          simp only [Turn.ready.injEq,Except.ok.injEq,Prod.mk.injEq] at ready
          exact absurd ready.1.symm nonempty
        next =>
          split at ready
          next => split at ready <;> simp at ready
          next =>
            unfold fill_frame at ready
            split at ready
            next => simp at ready
            next =>
              split at ready
              · simp only [Turn.ready.injEq,Except.ok.injEq,Prod.mk.injEq] at ready
                exact absurd ready.1.symm nonempty
              · simp at ready
            next => cases ready
    next next more =>
      have kept : next.out_pos = 0 ∧ next.skip_bytes = 0 := by
        unfold turn at more
        simp only [same] at more
        split at more
        next => cases more
        next =>
          split at more
          next => cases more
          next =>
            split at more
            next =>
              split at more
              next opened done =>
                injection more with more
                rw [open_frame_eq] at done
                split at done
                next =>
                  injection done with done
                  rw [update_frame_target_eq] at done
                  subst more done
                  exact ⟨rfl,noSkip⟩
                next => cases done
              next => cases more
            next =>
              unfold fill_frame at more
              split at more
              next => cases more
              next => split at more <;> cases more
              next =>
                injection more with more
                subst more
                exact ⟨start,noSkip⟩
      exact ih kept.1 kept.2 polled

/-- A preflight leaves the decryptor as it was, or decrypts the first frame and rewinds. -/
theorem preflight_ok {d d' : FrameDecryptor σ} (start : d.out_pos = 0) (noSkip : d.skip_bytes = 0)
    (ready : d.preflight P poll = .ok d') :
    (d' = d ∧ (d.plaintext_size = 0 ∨ d.remaining = 0)) ∨
    ∃ piece p, poll_read P poll d 1 = .ok (piece,p) ∧ piece.length = 1 ∧ p.out_pos = 1 ∧
      d' = { p with out_pos := 0, remaining := d.remaining } := by
  unfold preflight at ready
  split at ready
  next nothing => injection ready with ready; exact .inl ⟨ready.symm,nothing⟩
  next =>
    split at ready
    next => cases ready
    next => cases ready
    next piece p notEmpty polled =>
      injection ready with ready
      have nonempty : piece ≠ [] := by
        rintro rfl
        exact notEmpty rfl
      obtain ⟨one,first⟩ := poll_first start noSkip polled nonempty
      exact .inr ⟨piece,p,polled,one,first,by rw [← ready,start]⟩

theorem yields_new (honest : st.Honest P mayFail mayStop)
    (fits : ∀ s cap piece s', poll s cap = .ok (piece,s') → piece.length ≤ cap) {inner : σ}
    (yields : Yields poll mayFail False inner st.bytes) (start : st.start = 0) {d : FrameDecryptor σ}
    (ready : preflight P poll (new inner st.key st.plain.length st.chunk_size st.aad) = .ok d) :
    Yields (poll_read P poll) mayFail mayStop d st.plain := by
  have here := at_start honest yields 0 st.plain.length
  rw [start,Nat.zero_mul,Nat.add_zero] at here
  have fresh : (new inner st.key st.plain.length st.chunk_size st.aad).out_pos = 0 ∧
      (new inner st.key st.plain.length st.chunk_size st.aad).skip_bytes = 0 ∧
      (new inner st.key st.plain.length st.chunk_size st.aad).remaining = st.plain.length := by
    unfold new for_range_internal
    dsimp only
    split
    · exact ⟨rfl,rfl,rfl⟩
    · rw [update_frame_target_eq]
      exact ⟨rfl,rfl,rfl⟩
  refine ⟨_,delivers honest fits,0,?_⟩
  rcases preflight_ok fresh.1 fresh.2.1 ready with ⟨rfl,_⟩ | ⟨piece,p,polled,one,first,rfl⟩
  · exact ⟨here,by simp [fresh.2.2]⟩
  · refine ⟨?_,by simp [fresh.2.2]⟩
    rcases here.polled honest fits (show 0 < 1 by decide) with ⟨_,failed,_⟩ | ⟨_,ok,_⟩ | ⟨_,_,ok,_,_,_,_,active,next⟩
    · rw [new,failed] at polled; cases polled
    · rw [new,ok] at polled
      cases polled
      simp at one
    · rw [new,ok] at polled
      cases polled
      rw [one] at next
      -- the first byte came from the first frame, so the buffer holds that frame
      refine ⟨next.key,next.aad,next.size,next.chunk,next.ahead,next.target,next.short,?_,next.filled,.inr ?_,next.inner⟩
      · simp [active]
      · rcases next.buffered with ⟨_,zero,_⟩ | ⟨ahead,same,inside,short,position⟩
        · omega
        · refine ⟨ahead,same,inside,Nat.zero_le _,?_⟩
          simp only
          omega

/-- A preflight of an honest stream fails only where a read may. -/
theorem preflight_fails (honest : st.Honest P mayFail mayStop)
    (fits : ∀ s cap piece s', poll s cap = .ok (piece,s') → piece.length ≤ cap) {inner : σ}
    (yields : Yields poll mayFail False inner st.bytes) (start : st.start = 0) {e : IoError}
    (failed : preflight P poll (new inner st.key st.plain.length st.chunk_size st.aad) = .error e) :
    mayFail ∨ mayStop := by
  have here := at_start honest yields 0 st.plain.length
  rw [start,Nat.zero_mul,Nat.add_zero] at here
  have whole : (new inner st.key st.plain.length st.chunk_size st.aad).remaining = st.plain.length := by
    unfold new for_range_internal
    dsimp only
    split
    · rfl
    · rw [update_frame_target_eq]
  have size : (new inner st.key st.plain.length st.chunk_size st.aad).plaintext_size = st.plain.length := here.size
  unfold preflight at failed
  rw [size,whole] at failed
  split at failed
  next => cases failed
  next something =>
    rcases here.polled honest fits (show 0 < 1 by decide) with ⟨_,_,may⟩ | ⟨_,ok,ended⟩ | ⟨_,_,ok,nonempty,_⟩
    · exact .inl may
    · rcases ended with nothing | may
      · change List.take (new inner st.key st.plain.length st.chunk_size st.aad).remaining _ = _ at nothing
        rw [whole,List.drop_zero,List.take_length] at nothing
        simp [nothing] at something
      · exact .inr may
    · rw [new,ok] at failed
      split at failed
      next refused => cases refused
      next empty => cases empty; exact absurd rfl nonempty
      next => cases failed

end Delivery

/-! ### Missing ciphertext -/

/-- Length of the ciphertext of `n` bytes. -/
def cipherLength (chunk_size n : Nat) : Nat := n + FRAME_OVERHEAD * ((n + chunk_size - 1) / chunk_size)

theorem cipherLength_step {chunk_size n : Nat} (positive : 0 < chunk_size) (some' : 0 < n) :
    cipherLength chunk_size n =
      min n chunk_size + FRAME_OVERHEAD + cipherLength chunk_size (n - chunk_size) := by
  have count : (n + chunk_size - 1) / chunk_size = (n - chunk_size + chunk_size - 1) / chunk_size + 1 := by
    by_cases long : chunk_size ≤ n
    · rw [show n + chunk_size - 1 = n - chunk_size + chunk_size - 1 + chunk_size by omega,
        Nat.add_div_right _ positive]
    · rw [show n - chunk_size = 0 by omega,show n + chunk_size - 1 = n - 1 + chunk_size by omega,
        Nat.add_div_right _ positive,Nat.div_eq_of_lt (by omega),Nat.div_eq_of_lt (by omega)]
  simp only [cipherLength,count,Nat.mul_add,Nat.mul_one]
  omega

/-- Less ciphertext is left than the rest of the plaintext needs, so at most `n` more bytes come out. -/
structure Lacks (poll : Poll σ IoError UInt8) (d : FrameDecryptor σ) (n : Nat) : Prop where
  positive : 0 < d.chunk_size
  target : d.done = false → d.frame_target = frameLength d.chunk_size d.plaintext_size d.chunk_index
  filled : d.frame_buf.length ≤ d.frame_target
  missing : ∃ left, AtMost poll d.inner left ∧
    d.frame_buf.length + left < cipherLength d.chunk_size (d.plaintext_size - d.chunk_index * d.chunk_size)
  bound : d.out_buf.length - d.out_pos + (d.plaintext_size - d.chunk_index * d.chunk_size - 1) ≤ n

section Missing
variable {P} {poll : Poll σ IoError UInt8}

private theorem Lacks.skip {d : FrameDecryptor σ} {n : Nat} (lacks : Lacks poll d n) : Lacks poll d.skip n := by
  unfold FrameDecryptor.skip
  split
  next =>
    refine ⟨lacks.positive,lacks.target,lacks.filled,lacks.missing,?_⟩
    have bound := lacks.bound
    simp only
    omega
  next => exact lacks

private theorem Lacks.opened (opens : ∀ key nonce aad sealed message, P.decrypt key nonce aad sealed = some message →
      sealed.length = message.length + 16) {d d' : FrameDecryptor σ} {n : Nat} (lacks : Lacks poll d n)
    (active : d.done = false) (more : d.frame_target ≠ 0) (full : d.frame_buf.length = d.frame_target)
    (done : d.open_frame P = .ok d') : Lacks poll d' n := by
  have target := lacks.target active
  have inside : d.chunk_index * d.chunk_size < d.plaintext_size := frameLength_pos.mp (target ▸ more)
  have positive := lacks.positive
  rw [open_frame_eq] at done
  split at done
  next p opened =>
    injection done with done
    rw [update_frame_target_eq] at done
    have size : p.length = min (d.plaintext_size - d.chunk_index * d.chunk_size) d.chunk_size := by
      unfold openFrame at opened
      split at opened
      next => cases opened
      next =>
        split at opened
        next => cases opened
        next =>
          split at opened
          next message decrypted =>
            injection opened with opened
            have length := opens _ _ _ _ _ decrypted
            rw [List.length_drop,full,target,frameLength,if_neg (by omega)] at length
            rw [← opened]
            omega
          next => cases opened
    have bound := lacks.bound
    have step := cipherLength_step positive (n := d.plaintext_size - d.chunk_index * d.chunk_size) (by omega)
    obtain ⟨left,within,few⟩ := lacks.missing
    rw [full,target,frameLength,if_neg (by omega),step] at few
    subst done
    refine ⟨positive,fun _ => rfl,by simp,⟨left,within,?_⟩,?_⟩
    · simp only [List.length_nil,Nat.add_mul,Nat.one_mul,Nat.sub_add_eq,FRAME_OVERHEAD] at few ⊢
      omega
    · simp only [size,Nat.add_mul,Nat.one_mul]
      -- the last byte needs a frame beyond this one
      have beyond : d.chunk_size < d.plaintext_size - d.chunk_index * d.chunk_size := by
        by_contra final
        rw [show d.plaintext_size - d.chunk_index * d.chunk_size - d.chunk_size = 0 by omega] at few
        simp only [cipherLength,Nat.zero_add,Nat.div_eq_of_lt (show chunk_size d - 1 < d.chunk_size by omega),
          FRAME_OVERHEAD] at few
        omega
      omega
  next => cases done

theorem limits (opens : ∀ key nonce aad sealed message, P.decrypt key nonce aad sealed = some message →
      sealed.length = message.length + 16)
    (fits : ∀ s cap piece s', poll s cap = .ok (piece,s') → piece.length ≤ cap) :
    Limits (poll_read P poll) (Lacks poll) := by
  refine spin_limits ?_ ?_
  · intro d d' n cap positive lacks round
    have skipped := lacks.skip
    unfold turn at round
    simp only at round
    split at round
    next => cases round
    next =>
      split at round
      next => cases round
      next busy =>
        simp only [Bool.or_eq_true,decide_eq_true_eq,not_or,Bool.not_eq_true] at busy
        obtain ⟨⟨active,_⟩,more⟩ := busy
        split at round
        next full =>
          split at round
          next opened done =>
            injection round with round
            exact round ▸ skipped.opened opens active more full done
          next => cases round
        next open' =>
          unfold fill_frame at round
          split at round
          next => cases round
          next => split at round <;> cases round
          next piece inner _ given =>
            injection round with round
            subst round
            have filled := skipped.filled
            obtain ⟨left,within,few⟩ := skipped.missing
            obtain ⟨short,next⟩ := within.step (by omega) given
            have fit := fits _ _ _ _ given
            refine ⟨skipped.positive,skipped.target,?_,⟨_,next,?_⟩,skipped.bound⟩
            · simp only [List.length_append]
              omega
            · simp only [List.length_append]
              omega
  · intro d n cap piece d' positive lacks given
    have skipped := lacks.skip
    have bound := skipped.bound
    unfold turn at given
    simp only at given
    split at given
    next some' =>
      simp only [Turn.ready.injEq,Except.ok.injEq,Prod.mk.injEq] at given
      obtain ⟨rfl,rfl⟩ := given
      have fit : d.skip.available cap ≤ d.skip.out_buf.length - d.skip.out_pos := by
        simp only [available]
        omega
      simp only [List.length_take,List.length_drop]
      refine ⟨by omega,skipped.positive,skipped.target,skipped.filled,skipped.missing,?_⟩
      simp only
      omega
    next =>
      split at given
      next =>
        simp only [Turn.ready.injEq,Except.ok.injEq,Prod.mk.injEq] at given
        obtain ⟨rfl,rfl⟩ := given
        exact ⟨by simp,by simpa using skipped⟩
      next busy =>
        simp only [Bool.or_eq_true,decide_eq_true_eq,not_or,Bool.not_eq_true] at busy
        split at given
        next => split at given <;> simp at given
        next open' =>
          have filled := skipped.filled
          unfold fill_frame at given
          split at given
          next => simp at given
          next inner polled =>
            split at given
            · simp only [Turn.ready.injEq,Except.ok.injEq,Prod.mk.injEq] at given
              obtain ⟨rfl,rfl⟩ := given
              obtain ⟨left,within,few⟩ := skipped.missing
              have next := (within.step (by omega) polled).2
              refine ⟨by simp,skipped.positive,by simp,filled,⟨_,next,?_⟩,by simpa using bound⟩
              simp only [List.length_nil]
              omega
            · simp at given
          next => cases given

/-- A decryptor of a whole object that cannot read all of the ciphertext does not reach the last byte. -/
theorem atMost_new (opens : ∀ key nonce aad sealed message, P.decrypt key nonce aad sealed = some message →
      sealed.length = message.length + 16)
    (fits : ∀ s cap piece s', poll s cap = .ok (piece,s') → piece.length ≤ cap) {inner : σ} {left : Nat}
    (within : AtMost poll inner left) {key : Bytes} {plaintext_size chunk_size : Nat} {aad : Nat → Bytes}
    (positive : 0 < chunk_size) (few : left < cipherLength chunk_size plaintext_size) {d : FrameDecryptor σ}
    (ready : preflight P poll (new inner key plaintext_size chunk_size aad) = .ok d) :
    AtMost (poll_read P poll) d (plaintext_size - 1) := by
  have something : 0 < plaintext_size := by
    by_contra none
    have zero : plaintext_size = 0 := by omega
    rw [zero,cipherLength,Nat.zero_add,Nat.zero_add,Nat.div_eq_of_lt (by omega)] at few
    omega
  have fresh : new inner key plaintext_size chunk_size aad = {
      inner, key, aad_builder := aad, plaintext_size, chunk_size, chunk_index := 0, skip_bytes := 0,
      remaining := plaintext_size, frame_buf := [], frame_target := frameLength chunk_size plaintext_size 0,
      out_buf := [], out_pos := 0, done := false } := by
    have busy : (decide (plaintext_size = 0) || decide (plaintext_size = 0)) = false := by
      simp only [Bool.or_self,decide_eq_false_iff_not]
      omega
    unfold new for_range_internal
    simp only [busy]
    rw [if_neg (by simp),update_frame_target_eq]
  have lacks : Lacks poll (new inner key plaintext_size chunk_size aad) (plaintext_size - 1) := by
    rw [fresh]
    refine ⟨positive,fun _ => rfl,by simp,⟨left,within,by simpa using few⟩,?_⟩
    simp
  rcases preflight_ok (by rw [fresh]) (by rw [fresh]) ready with ⟨rfl,_⟩ | ⟨piece,p,polled,one,first,rfl⟩
  · exact ⟨_,limits opens fits,lacks⟩
  · obtain ⟨short,next⟩ := limits opens fits _ _ _ _ _ (by decide) lacks polled
    refine ⟨_,limits opens fits,next.positive,next.target,next.filled,next.missing,?_⟩
    have bound := next.bound
    simp only
    omega

end Missing
end FrameDecryptor
end Maxio
