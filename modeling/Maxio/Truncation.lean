import Maxio.Endings
import Maxio.FrameReads
import Maxio.Tamper

/-!
What a `FrameDecryptor` hands spent of any stream at all, and how it ends. A stream that ends where a frame should
begin ends the plaintext as well, without an error.
-/

namespace Maxio.FrameDecryptor
open Reading
variable {σ : Type}

/-- Frame by frame from frame `i` on: the plaintext of the frames that open and how reading ends, for a stream of
    these bytes that itself ends with `source`. -/
inductive Decrypts (P : Primitives) (key : Bytes) (aad : Nat → Bytes) (chunk_size plaintext_size : Nat)
    (source : Option IoError) : Nat → Bytes → Bytes → Option IoError → Prop
  | past {i : Nat} {bytes : Bytes} (spent : plaintext_size ≤ i * chunk_size) :
    Decrypts P key aad chunk_size plaintext_size source i bytes [] none
  | between {i : Nat} (inside : i * chunk_size < plaintext_size) (clean : source = none) :
    Decrypts P key aad chunk_size plaintext_size source i [] [] none
  | within {i : Nat} {bytes : Bytes} (inside : i * chunk_size < plaintext_size) (some' : bytes ≠ [])
    (short : bytes.length < frameLength chunk_size plaintext_size i) (clean : source = none) :
    Decrypts P key aad chunk_size plaintext_size source i bytes []
      (some (.custom .UnexpectedEof "truncated encrypted frame"))
  | broken {i : Nat} {bytes : Bytes} {e : IoError} (inside : i * chunk_size < plaintext_size)
    (short : bytes.length < frameLength chunk_size plaintext_size i) (failed : source = some e) :
    Decrypts P key aad chunk_size plaintext_size source i bytes [] (some e)
  | refused {i : Nat} {bytes : Bytes} {e : IoError} (inside : i * chunk_size < plaintext_size)
    (whole : frameLength chunk_size plaintext_size i ≤ bytes.length)
    (closed : openFrame P key aad i (bytes.take (frameLength chunk_size plaintext_size i)) = .error e) :
    Decrypts P key aad chunk_size plaintext_size source i bytes [] (some e)
  | opened {i : Nat} {bytes piece out : Bytes} {ending : Option IoError} (inside : i * chunk_size < plaintext_size)
    (whole : frameLength chunk_size plaintext_size i ≤ bytes.length)
    (found : openFrame P key aad i (bytes.take (frameLength chunk_size plaintext_size i)) = .ok piece)
    (next : Decrypts P key aad chunk_size plaintext_size source (i + 1)
      (bytes.drop (frameLength chunk_size plaintext_size i)) out ending) :
    Decrypts P key aad chunk_size plaintext_size source i bytes (piece ++ out) ending

section Frames
variable {P : Primitives} {key : Bytes} {aad : Nat → Bytes} {chunk_size plaintext_size : Nat} {source : Option IoError}

/-- Every stream decrypts somehow. -/
theorem decrypts_total (positive : 0 < chunk_size) (i : Nat) (bytes : Bytes) :
    ∃ out ending, Decrypts P key aad chunk_size plaintext_size source i bytes out ending := by
  induction left : plaintext_size - i generalizing i bytes with
  | zero =>
    have spent := Nat.le_mul_of_pos_right i positive
    exact ⟨[],none,.past (by omega)⟩
  | succ left ih =>
    by_cases spent : plaintext_size ≤ i * chunk_size
    · exact ⟨[],none,.past spent⟩
    · have inside : i * chunk_size < plaintext_size := by omega
      by_cases short : bytes.length < frameLength chunk_size plaintext_size i
      · cases source with
        | some e => exact ⟨[],some e,.broken inside short rfl⟩
        | none =>
          by_cases empty : bytes = []
          · subst empty
            exact ⟨[],none,.between inside rfl⟩
          · exact ⟨[],_,.within inside empty short rfl⟩
      · cases found : openFrame P key aad i (bytes.take (frameLength chunk_size plaintext_size i)) with
        | error e => exact ⟨[],some e,.refused inside (by omega) found⟩
        | ok piece =>
          obtain ⟨out,ending,next⟩ := ih (i + 1) (bytes.drop (frameLength chunk_size plaintext_size i)) (by omega)
          exact ⟨piece ++ out,ending,.opened inside (by omega) found next⟩

/-- After the last frame nothing comes. -/
theorem Decrypts.spent {i : Nat} {bytes out : Bytes} {ending : Option IoError}
    (decrypts : Decrypts P key aad chunk_size plaintext_size source i bytes out ending)
    (spent : plaintext_size ≤ i * chunk_size) : out = [] ∧ ending = none := by
  cases decrypts with
  | past => exact ⟨rfl,rfl⟩
  | between inside => omega
  | within inside => omega
  | broken inside => omega
  | refused inside => omega
  | opened inside => omega

/-- A complete frame is opened, and what it opens to comes first. -/
theorem Decrypts.whole {i : Nat} {frame rest out : Bytes} {ending : Option IoError}
    (decrypts : Decrypts P key aad chunk_size plaintext_size source i (frame ++ rest) out ending)
    (inside : i * chunk_size < plaintext_size) (full : frame.length = frameLength chunk_size plaintext_size i) :
    (∃ e, openFrame P key aad i frame = .error e ∧ out = [] ∧ ending = some e) ∨
    ∃ piece tail, openFrame P key aad i frame = .ok piece ∧ out = piece ++ tail ∧
      Decrypts P key aad chunk_size plaintext_size source (i + 1) rest tail ending := by
  have long : 0 < frameLength chunk_size plaintext_size i := Nat.pos_of_ne_zero (frameLength_pos.mpr inside)
  generalize same : frame ++ rest = bytes at decrypts
  cases decrypts with
  | past spent => omega
  | between =>
    simp only [List.append_eq_nil_iff] at same
    rw [same.1,List.length_nil] at full
    omega
  | within _ _ short =>
    rw [← same,List.length_append] at short
    omega
  | broken _ short =>
    rw [← same,List.length_append] at short
    omega
  | refused _ _ closed =>
    rw [← same,List.take_left' full] at closed
    exact .inl ⟨_,closed,rfl,rfl⟩
  | opened _ _ found next =>
    rw [← same,List.take_left' full] at found
    rw [← same,List.drop_left' full] at next
    exact .inr ⟨_,_,found,rfl,next⟩

/-- A stream that ends inside of a frame, or before it. -/
theorem Decrypts.cut {i : Nat} {bytes out : Bytes} {ending : Option IoError}
    (decrypts : Decrypts P key aad chunk_size plaintext_size source i bytes out ending)
    (inside : i * chunk_size < plaintext_size) (short : bytes.length < frameLength chunk_size plaintext_size i) :
    out = [] ∧ (∀ e, source = some e → ending = some e) ∧ (source = none → bytes = [] → ending = none) ∧
      (source = none → bytes ≠ [] → ending = some (.custom .UnexpectedEof "truncated encrypted frame")) := by
  cases decrypts with
  | past => omega
  | between _ clean => simp [clean]
  | within _ some' _ clean => simp [clean,some']
  | broken _ _ failed => simp [failed]
  | refused _ whole => omega
  | opened _ whole => omega

/-- The stream ends, with an end of file, where frame `j` should begin, and the frames from `start` to there open. -/
def EndsBefore (P : Primitives) (key : Bytes) (aad : Nat → Bytes) (chunk_size plaintext_size start j : Nat)
    (bytes : Bytes) (source : Option IoError) : Prop :=
  source = none ∧ bytes.length = (j - start) * (chunk_size + FRAME_OVERHEAD) ∧
    ∀ i, start ≤ i → i < j → ∃ piece, openFrame P key aad i
      ((bytes.drop ((i - start) * (chunk_size + FRAME_OVERHEAD))).take (frameLength chunk_size plaintext_size i)) =
        .ok piece

/-- A frame before another is a full one. -/
theorem frameLength_before {i j : Nat} (before : i < j) (inside : j * chunk_size < plaintext_size) :
    frameLength chunk_size plaintext_size i = chunk_size + FRAME_OVERHEAD := by
  have next := Nat.mul_le_mul_right chunk_size (show i + 1 ≤ j from before)
  rw [Nat.add_mul,Nat.one_mul] at next
  unfold frameLength FRAME_OVERHEAD
  rw [if_neg (by omega)]
  omega

theorem openFrame_length (opens : ∀ key nonce aad sealed message, P.decrypt key nonce aad sealed = some message →
      sealed.length = message.length + 16) {i : Nat} {frame piece : Bytes}
    (found : openFrame P key aad i frame = .ok piece) : frame.length = 12 + piece.length + 16 := by
  unfold openFrame at found
  split at found
  next => cases found
  next long =>
    split at found
    next => cases found
    next =>
      split at found
      next message decrypted =>
        injection found with found
        have length := opens _ _ _ _ _ decrypted
        rw [List.length_drop] at length
        rw [← found]
        omega
      next => cases found

/-- Fewer than `n` bytes of what is left come, without an error, exactly when the stream ends before one of the frames
    that hold them. -/
theorem Decrypts.silent_iff (opens : ∀ key nonce aad sealed message, P.decrypt key nonce aad sealed = some message →
      sealed.length = message.length + 16) {i : Nat} {bytes out : Bytes}
    {ending : Option IoError} (decrypts : Decrypts P key aad chunk_size plaintext_size source i bytes out ending)
    (n : Nat) (within : n ≤ plaintext_size - i * chunk_size) :
    ending = none ∧ out.length < n ↔
      ∃ j, i ≤ j ∧ j * chunk_size < i * chunk_size + n ∧
        EndsBefore P key aad chunk_size plaintext_size i j bytes source := by
  have inside_of : ∀ {i j n : Nat}, j * chunk_size < i * chunk_size + n → n ≤ plaintext_size - i * chunk_size →
      i ≤ j → j * chunk_size < plaintext_size := by
    intro i j n below within after
    have := Nat.mul_le_mul_right chunk_size after
    omega
  have full_before : ∀ {i j : Nat}, i < j → chunk_size + FRAME_OVERHEAD ≤ (j - i) * (chunk_size + FRAME_OVERHEAD) := by
    intro i j before
    exact Nat.le_mul_of_pos_left _ (by omega)
  induction decrypts generalizing n with
  | past spent =>
    constructor
    · rintro ⟨_,less⟩
      omega
    · rintro ⟨j,after,below,_⟩
      have := Nat.mul_le_mul_right chunk_size after
      omega
  | @between i inside clean =>
    constructor
    · rintro ⟨_,less⟩
      refine ⟨i,Nat.le_refl _,by simpa using less,clean,by simp,?_⟩
      intro k after before
      omega
    · rintro ⟨j,after,below,_⟩
      have := Nat.mul_le_mul_right chunk_size after
      exact ⟨rfl,by simp only [List.length_nil]; omega⟩
  | @within i bytes inside some' short clean =>
    constructor
    · rintro ⟨impossible,_⟩
      cases impossible
    · rintro ⟨j,after,below,_,length,_⟩
      have long := List.length_pos_iff.mpr some'
      rcases Nat.eq_or_lt_of_le after with rfl | before
      · simp at length
        exact absurd length some'
      · rw [frameLength_before before (inside_of below within after)] at short
        have := full_before before
        omega
  | broken inside short failed =>
    constructor
    · rintro ⟨impossible,_⟩
      cases impossible
    · rintro ⟨j,_,_,clean,_⟩
      rw [failed] at clean
      cases clean
  | @refused i bytes e inside whole closed =>
    constructor
    · rintro ⟨impossible,_⟩
      cases impossible
    · rintro ⟨j,after,below,_,length,open'⟩
      have long := Nat.pos_of_ne_zero (frameLength_pos.mpr inside)
      rcases Nat.eq_or_lt_of_le after with rfl | before
      · simp at length
        simp [length] at whole
        omega
      · obtain ⟨piece,found⟩ := open' i (Nat.le_refl _) before
        rw [Nat.sub_self,Nat.zero_mul,List.drop_zero,closed] at found
        cases found
  | @opened i bytes piece out ending inside whole found next ih =>
    have long := Nat.pos_of_ne_zero (frameLength_pos.mpr inside)
    have size := openFrame_length opens found
    rw [List.length_take,Nat.min_eq_left whole] at size
    by_cases first : n ≤ piece.length
    · constructor
      · rintro ⟨_,less⟩
        simp only [List.length_append] at less
        omega
      · rintro ⟨j,after,below,_,length,_⟩
        have short := frameLength_le chunk_size plaintext_size i
        have same : j = i := by
          by_contra other
          have next := Nat.mul_le_mul_right chunk_size (show i + 1 ≤ j by omega)
          rw [Nat.add_mul,Nat.one_mul] at next
          simp only [FRAME_OVERHEAD] at short
          omega
        subst same
        simp at length
        simp [length] at whole
        omega
    · -- more than this frame is wanted, so it is a full one
      have full : frameLength chunk_size plaintext_size i = chunk_size + FRAME_OVERHEAD := by
        simp only [frameLength,FRAME_OVERHEAD] at size ⊢
        rw [if_neg (by omega)] at size ⊢
        omega
      have exact : piece.length = chunk_size := by
        simp only [FRAME_OVERHEAD] at full
        omega
      have later := ih (n - chunk_size) (by rw [Nat.add_mul,Nat.one_mul]; omega)
      have place : ∀ k, i + 1 ≤ k → (bytes.drop (frameLength chunk_size plaintext_size i)).drop
          ((k - (i + 1)) * (chunk_size + FRAME_OVERHEAD)) = bytes.drop ((k - i) * (chunk_size + FRAME_OVERHEAD)) := by
        intro k after
        rw [List.drop_drop,full]
        congr 1
        rw [show k - i = 1 + (k - (i + 1)) by omega,Nat.add_mul,Nat.one_mul]
      constructor
      · rintro ⟨clean,less⟩
        rw [List.length_append] at less
        obtain ⟨j,after,below,none,length,open'⟩ := later.mp ⟨clean,by omega⟩
        rw [Nat.add_mul,Nat.one_mul] at below
        refine ⟨j,by omega,by omega,none,?_,?_⟩
        · rw [List.length_drop,full] at length
          rw [full] at whole
          rw [show j - i = j - (i + 1) + 1 by omega,Nat.add_mul,Nat.one_mul]
          omega
        · intro k from_i before
          rcases Nat.eq_or_lt_of_le from_i with rfl | beyond
          · exact ⟨piece,by rwa [Nat.sub_self,Nat.zero_mul,List.drop_zero]⟩
          · obtain ⟨p,at_k⟩ := open' k beyond before
            exact ⟨p,by rwa [place k beyond] at at_k⟩
      · rintro ⟨j,after,below,none,length,open'⟩
        have beyond : i + 1 ≤ j := by
          rcases Nat.eq_or_lt_of_le after with rfl | before
          · simp at length
            simp [length] at whole
            omega
          · exact before
        have ended : EndsBefore P key aad chunk_size plaintext_size (i + 1) j
            (bytes.drop (frameLength chunk_size plaintext_size i)) source := by
          refine ⟨none,?_,?_⟩
          · rw [List.length_drop,length,full,show j - i = j - (i + 1) + 1 by omega,Nat.add_mul,Nat.one_mul]
            omega
          · intro k from_next before
            obtain ⟨p,at_k⟩ := open' k (by omega) before
            exact ⟨p,by rwa [place k from_next]⟩
        obtain ⟨clean,less⟩ := later.mpr ⟨j,beyond,by rw [Nat.add_mul,Nat.one_mul]; omega,ended⟩
        exact ⟨clean,by rw [List.length_append]; omega⟩

end Frames

/-! ### Every read -/

/-- What is still to come of a decryptor: the text before skipping and the ending. -/
structure Owes (P : Primitives) (poll : Poll σ IoError UInt8) (source : Option IoError) (d : FrameDecryptor σ)
    (text : Bytes) (ending : Option IoError) : Prop where
  positive : 0 < d.chunk_size
  target : d.done = false → d.frame_target = frameLength d.chunk_size d.plaintext_size d.chunk_index
  short : d.frame_target ≤ d.chunk_size + FRAME_OVERHEAD
  filled : d.frame_buf.length ≤ d.frame_target
  coming : ∃ rest tail, Emits poll d.inner rest source ∧ text = d.out_buf.drop d.out_pos ++ tail ∧
    (d.done = false → Decrypts P d.key d.aad_builder d.chunk_size d.plaintext_size source d.chunk_index
      (d.frame_buf ++ rest) tail ending) ∧
    (d.done = true → tail = [] ∧ ending = none)

/-- The same after skipping and cutting off. -/
def Owed (P : Primitives) (poll : Poll σ IoError UInt8) (source : Option IoError) (d : FrameDecryptor σ)
    (out : Bytes) (ending : Option IoError) : Prop :=
  ∃ text e, Owes P poll source d text e ∧ out = (text.drop d.skip_bytes).take d.remaining ∧
    ending = if d.remaining ≤ text.length - d.skip_bytes then none else e

section Reads
variable {P : Primitives} {poll : Poll σ IoError UInt8} {source : Option IoError}

theorem Owed.skip {d : FrameDecryptor σ} {out : Bytes} {ending : Option IoError}
    (owed : Owed P poll source d out ending) : Owed P poll source d.skip out ending := by
  unfold FrameDecryptor.skip
  split
  next waste =>
    obtain ⟨text,e,⟨positive,target,short,filled,rest,tail,emits,same,coming,finished⟩,rfl,rfl⟩ := owed
    have fits : min d.skip_bytes (d.out_buf.length - d.out_pos) ≤ (d.out_buf.drop d.out_pos).length := by
      rw [List.length_drop]
      exact Nat.min_le_right _ _
    refine ⟨text.drop (min d.skip_bytes (d.out_buf.length - d.out_pos)),e,
      ⟨positive,target,short,filled,rest,tail,emits,?_,coming,finished⟩,?_,?_⟩
    · rw [same,List.drop_append_of_le_length fits,List.drop_drop]
    · simp only [List.drop_drop]
      congr 2
      omega
    · simp only [List.length_drop]
      congr 2
      omega
  next => exact owed

/-- With the buffer used up or nothing wanted, everything to come is in frames not opened yet. -/
theorem Owes.spent {d : FrameDecryptor σ} {text : Bytes} {ending : Option IoError}
    (owes : Owes P poll source d text ending) (spent : d.out_buf.length ≤ d.out_pos) :
    ∃ rest, Emits poll d.inner rest source ∧
      (d.done = false → Decrypts P d.key d.aad_builder d.chunk_size d.plaintext_size source d.chunk_index
        (d.frame_buf ++ rest) text ending) ∧ (d.done = true → text = [] ∧ ending = none) := by
  obtain ⟨rest,tail,emits,same,coming,finished⟩ := owes.coming
  rw [List.drop_eq_nil_of_le spent,List.nil_append] at same
  subst same
  exact ⟨rest,emits,coming,finished⟩

/-- Going round again owes the same and takes a step. -/
theorem Owed.again (fits : ∀ s cap piece s', poll s cap = .ok (piece,s') → piece.length ≤ cap)
    {d d' : FrameDecryptor σ} {out : Bytes} {ending : Option IoError} {cap : Nat} (positive : 0 < cap)
    (owed : Owed P poll source d out ending) (round : turn P poll d cap = .again d') :
    Owed P poll source d' out ending ∧ frameMeasure d' < frameMeasure d := by
  rw [← frameMeasure_skip d]
  have skipped := owed.skip
  unfold turn at round
  simp only at round
  split at round
  next => cases round
  next nothing =>
    split at round
    next => cases round
    next busy =>
      simp only [Bool.or_eq_true,decide_eq_true_eq,not_or,Bool.not_eq_true] at busy
      obtain ⟨⟨active,wanted⟩,more⟩ := busy
      have spent : d.skip.out_buf.length ≤ d.skip.out_pos := by
        simp only [available] at nothing
        omega
      obtain ⟨text,e,owes,rfl,rfl⟩ := skipped
      have target := owes.target active
      have inside : d.skip.chunk_index * d.skip.chunk_size < d.skip.plaintext_size :=
        frameLength_pos.mp (target ▸ more)
      obtain ⟨rest,emits,coming,_⟩ := owes.spent spent
      split at round
      next full =>
        split at round
        next next done =>
          injection round with round
          subst round
          rw [open_frame_eq] at done
          split at done
          next piece found =>
            injection done with done
            rw [update_frame_target_eq] at done
            rcases (coming active).whole inside (full.trans target) with ⟨_,closed,_⟩ | ⟨p,tail,opened,rfl,onward⟩
            · rw [found] at closed
              cases closed
            · rw [found] at opened
              injection opened with opened
              subst opened done
              refine ⟨⟨piece ++ tail,e,⟨owes.positive,fun _ => rfl,frameLength_le _ _ _,Nat.zero_le _,rest,tail,emits,
                by simp,fun _ => by simpa using onward,fun finished => ?_⟩,rfl,rfl⟩,?_⟩
              · exact absurd (active.symm.trans finished) (by decide)
              · have bound := Nat.le_mul_of_pos_right d.skip.chunk_index owes.positive
                have next_short := frameLength_le d.skip.chunk_size d.skip.plaintext_size (d.skip.chunk_index + 1)
                simp only [frameMeasure,FRAME_OVERHEAD,List.length_nil] at next_short ⊢
                obtain ⟨k,split'⟩ : ∃ k, d.skip.plaintext_size + 1 - d.skip.chunk_index = k + 1 :=
                  ⟨d.skip.plaintext_size - d.skip.chunk_index,by omega⟩
                rw [split',show d.skip.plaintext_size + 1 - (d.skip.chunk_index + 1) = k by omega,Nat.add_mul,
                  Nat.one_mul]
                omega
          next => cases done
        next => cases round
      next open' =>
        have filled := owes.filled
        unfold fill_frame at round
        split at round
        next => cases round
        next => split at round <;> cases round
        next piece inner ended given =>
          injection round with round
          subst round
          have nonempty : piece ≠ [] := by
            rintro rfl
            exact ended rfl
          have long : 0 < piece.length := List.length_pos_iff.mpr nonempty
          obtain ⟨tail,rfl,onward⟩ := emits.gives (by omega) given nonempty
          have few := fits _ _ _ _ given
          refine ⟨⟨text,e,⟨owes.positive,owes.target,owes.short,?_,tail,text,onward,?_,?_,?_⟩,rfl,rfl⟩,?_⟩
          · simp only [List.length_append]
            omega
          · simp only [List.drop_eq_nil_of_le spent,List.nil_append]
          · intro _
            simpa using coming active
          · intro finished
            exact absurd (active.symm.trans finished) (by decide)
          · simp only [frameMeasure,List.length_append]
            omega

/-- A turn that returns hands over the next bytes, or the ending when nothing is left. -/
theorem Owed.ready {d : FrameDecryptor σ} {out : Bytes} {ending : Option IoError} {cap : Nat} (positive : 0 < cap)
    (owed : Owed P poll source d out ending) {result : Except IoError (Bytes × FrameDecryptor σ)}
    (round : turn P poll d cap = .ready result) :
    (∃ e, result = .error e ∧ out = [] ∧ ending = some e) ∨
    (∃ d', result = .ok ([],d') ∧ out = [] ∧ ending = none) ∨
    ∃ piece d' rest, result = .ok (piece,d') ∧ piece ≠ [] ∧ out = piece ++ rest ∧ Owed P poll source d' rest ending := by
  have skipped := owed.skip
  have drained := skip_spent d
  unfold turn at round
  simp only at round
  generalize d.skip = s at skipped drained round
  obtain ⟨text,e,owes,rfl,rfl⟩ := skipped
  split at round
  next something =>
    injection round with round
    have fits' : s.available cap ≤ s.out_buf.length - s.out_pos ∧
        s.available cap ≤ s.remaining := by
      simp only [available]
      omega
    have noSkip : s.skip_bytes = 0 := by
      rcases drained with none | spent
      · exact none
      · omega
    obtain ⟨rest,tail,emits,same,coming,finished⟩ := owes.coming
    have held : s.available cap ≤ (s.out_buf.drop s.out_pos).length := by
      rw [List.length_drop]
      exact fits'.1
    have piece : (s.out_buf.drop s.out_pos).take (s.available cap) =
        text.take (s.available cap) := by
      rw [same,List.take_append_of_le_length held]
    refine .inr (.inr ⟨_,_,(text.drop (s.available cap)).take (s.remaining - s.available cap),
      round.symm,?_,?_,?_⟩)
    · apply List.length_pos_iff.mp
      rw [List.length_take]
      omega
    · rw [piece,noSkip,List.drop_zero]
      conv_lhs => rw [← Nat.add_sub_cancel' fits'.2,List.take_add]
    · refine ⟨text.drop (s.available cap),e,⟨owes.positive,owes.target,owes.short,owes.filled,rest,tail,emits,?_,
        coming,finished⟩,by simp [noSkip],?_⟩
      · rw [same,List.drop_append_of_le_length held,List.drop_drop]
      · have long : s.available cap ≤ text.length := by
          rw [same,List.length_append]
          omega
        simp only [noSkip,List.length_drop,Nat.sub_zero]
        congr 1
        rw [eq_iff_iff]
        constructor <;> intro <;> omega
  next nothing =>
    have spent : s.out_buf.length ≤ s.out_pos ∨ s.remaining = 0 := by
      simp only [available] at nothing
      omega
    by_cases wanted : s.remaining = 0
    · rw [if_pos (by simp [wanted])] at round
      injection round with round
      exact .inr (.inl ⟨_,round.symm,by simp [wanted],by simp [wanted]⟩)
    · have spent := spent.resolve_right wanted
      obtain ⟨rest,emits,coming,finished⟩ := owes.spent spent
      -- when no frame gives anything more, the ending is that of the frames
      have none_left : ∀ {ending : Option IoError}, text = [] → e = ending →
          (text.drop s.skip_bytes).take s.remaining = [] ∧
            (if s.remaining ≤ text.length - s.skip_bytes then none else e) = ending := by
        rintro ending rfl rfl
        refine ⟨by simp,if_neg ?_⟩
        simp only [List.length_nil,Nat.zero_sub]
        omega
      split at round
      next idle =>
        injection round with round
        simp only [Bool.or_eq_true,decide_eq_true_eq,wanted,or_false] at idle
        refine .inr (.inl ⟨_,round.symm,?_⟩)
        by_cases active : s.done = true
        · exact none_left (finished active).1 (finished active).2
        · have active : s.done = false := by simpa using active
          have last := idle.resolve_left (by simp [active])
          have past : s.plaintext_size ≤ s.chunk_index * s.chunk_size := by
            by_contra inside
            exact frameLength_pos.mpr (by omega) (owes.target active ▸ last)
          obtain ⟨empty,clean⟩ := (coming active).spent past
          exact none_left empty clean
      next busy =>
        simp only [Bool.or_eq_true,decide_eq_true_eq,not_or,Bool.not_eq_true] at busy
        obtain ⟨⟨active,_⟩,more⟩ := busy
        have target := owes.target active
        have inside : s.chunk_index * s.chunk_size < s.plaintext_size :=
          frameLength_pos.mp (target ▸ more)
        split at round
        next full =>
          split at round
          next => cases round
          next e' failed =>
            injection round with round
            rw [open_frame_eq] at failed
            split at failed
            next => cases failed
            next e'' closed =>
              injection failed with failed
              subst failed
              rcases (coming active).whole inside (full.trans target) with ⟨_,again,empty,ended⟩ | ⟨_,_,opened,_⟩
              · rw [closed] at again
                injection again with again
                subst again
                exact .inl ⟨_,round.symm,none_left empty ended⟩
              · rw [closed] at opened
                cases opened
        next open' =>
          have filled := owes.filled
          have cut : rest = [] → (s.frame_buf ++ rest).length <
              frameLength s.chunk_size s.plaintext_size s.chunk_index := by
            rintro rfl
            rw [List.append_nil,← target]
            omega
          unfold fill_frame at round
          split at round
          next e' polled =>
            injection round with round
            obtain ⟨none,broken⟩ := emits.fails (by omega) polled
            obtain ⟨empty,ended,_⟩ := (coming active).cut inside (cut none)
            exact .inl ⟨_,round.symm,none_left empty (ended _ broken)⟩
          next inner polled =>
            obtain ⟨none,clean⟩ := emits.stops (by omega) polled
            obtain ⟨empty,_,between,within⟩ := (coming active).cut inside (cut none)
            subst none
            rw [List.append_nil] at between within
            split at round
            next bare =>
              injection round with round
              exact .inr (.inl ⟨_,round.symm,none_left empty (between clean (List.length_eq_zero_iff.mp bare))⟩)
            next some' =>
              injection round with round
              refine .inl ⟨_,round.symm,none_left empty (within clean ?_)⟩
              exact fun bare => some' (List.length_eq_zero_iff.mpr bare)
          next => cases round

/-- A decryptor hands over what it owes. -/
theorem owed_emitting (fits : ∀ s cap piece s', poll s cap = .ok (piece,s') → piece.length ≤ cap) :
    Emitting (poll_read P poll) (Owed P poll source) := by
  have polled : ∀ (d : FrameDecryptor σ) (out : Bytes) (ending : Option IoError) (cap : Nat), 0 < cap →
      Owed P poll source d out ending →
      (∃ e, poll_read P poll d cap = .error e ∧ out = [] ∧ ending = some e) ∨
      (∃ d', poll_read P poll d cap = .ok ([],d') ∧ out = [] ∧ ending = none) ∨
      ∃ piece d' rest, poll_read P poll d cap = .ok (piece,d') ∧ piece ≠ [] ∧ out = piece ++ rest ∧
        Owed P poll source d' rest ending := by
    intro d out ending cap positive owed
    have short : d.frame_target ≤ d.chunk_size + FRAME_OVERHEAD := by
      obtain ⟨_,_,owes,_⟩ := owed
      exact owes.short
    obtain ⟨s,here,ready⟩ : ∃ s, Owed P poll source s out ending ∧
        turn P poll s cap = .ready (poll_read P poll d cap) := spin_ready frameMeasure
      (fun s s' inv more => inv.again fits positive more) d.turns d (frameMeasure_lt d short) owed
    exact here.ready positive ready
  refine ⟨?_,?_,?_⟩
  · intro d out ending cap e positive owed given
    rcases polled d out ending cap positive owed with ⟨_,same,ended⟩ | ⟨_,ok,_⟩ | ⟨_,_,_,ok,_⟩
    · rw [same] at given; cases given; exact ended
    · rw [ok] at given; cases given
    · rw [ok] at given; cases given
  · intro d out ending cap d' positive owed given
    rcases polled d out ending cap positive owed with ⟨_,failed,_⟩ | ⟨_,_,ended⟩ | ⟨_,_,_,ok,nonempty,_⟩
    · rw [failed] at given; cases given
    · exact ended
    · rw [ok] at given
      cases given
      exact absurd rfl nonempty
  · intro d out ending cap piece d' positive owed given nonempty
    rcases polled d out ending cap positive owed with ⟨_,failed,_⟩ | ⟨_,ok,_⟩ | ⟨_,_,rest,ok,_,same,next⟩
    · rw [failed] at given; cases given
    · rw [ok] at given
      cases given
      exact absurd rfl nonempty
    · rw [ok] at given
      cases given
      exact ⟨rest,same,next⟩

/-- What the decryptor of a range owes at the start. -/
theorem for_range_emits (fits : ∀ s cap piece s', poll s cap = .ok (piece,s') → piece.length ≤ cap) {inner : σ}
    {bytes : Bytes} (emits : Emits poll inner bytes source) (key : Bytes) (aad : Nat → Bytes)
    {plaintext_size chunk_size : Nat} (positive : 0 < chunk_size) (offset length : Nat) (sized : 0 < plaintext_size)
    (wanted : 0 < length) :
    ∃ text e, Decrypts P key aad chunk_size plaintext_size source (offset / chunk_size) bytes text e ∧
      Emits (poll_read P poll) (for_range inner key plaintext_size chunk_size offset length aad)
        ((text.drop (offset % chunk_size)).take length)
        (if length ≤ text.length - offset % chunk_size then none else e) := by
  obtain ⟨text,e,decrypts⟩ :
      ∃ text e, Decrypts P key aad chunk_size plaintext_size source (offset / chunk_size) bytes text e :=
    decrypts_total positive _ _
  refine ⟨text,e,decrypts,Owed P poll source,owed_emitting fits,?_⟩
  have busy : (decide (plaintext_size = 0) || decide (length = 0)) = false := by
    simp only [Bool.or_eq_false_iff,decide_eq_false_iff_not]
    omega
  unfold for_range for_range_internal
  simp only [busy]
  rw [if_neg (by simp),update_frame_target_eq]
  exact ⟨text,e,⟨positive,fun _ => rfl,frameLength_le _ _ _,Nat.zero_le _,bytes,text,emits,rfl,fun _ => decrypts,
    fun finished => absurd finished (by simp)⟩,rfl,rfl⟩

/-- A decryptor of nothing hands over nothing. -/
theorem for_range_nothing (inner : σ) (key : Bytes) (aad : Nat → Bytes) (plaintext_size chunk_size offset : Nat)
    (caps : Nat → Nat) : Reads (poll_read P poll) caps
      (for_range inner key plaintext_size chunk_size offset 0 aad) ([],none) := by
  refine ⟨1,?_⟩
  obtain ⟨count,enough⟩ : ∃ k, (for_range inner key plaintext_size chunk_size offset 0 aad).turns = k + 1 :=
    ⟨_,(Nat.succ_pred_eq_of_pos (Nat.mul_pos (by omega) (by omega))).symm⟩
  have finished : (for_range inner key plaintext_size chunk_size offset 0 aad).done = true := by
    simp [for_range,for_range_internal]
  have none_wanted : (for_range inner key plaintext_size chunk_size offset 0 aad).remaining = 0 := by
    simp [for_range,for_range_internal]
  rw [read_to_end,poll_read,enough,spin]
  have none_available : ∀ d : FrameDecryptor σ, d.remaining = 0 → d.available (caps 0) = 0 := by
    intro d none
    simp [available,none]
  have round : turn P poll (for_range inner key plaintext_size chunk_size offset 0 aad) (caps 0) =
      .ready (.ok ([],(for_range inner key plaintext_size chunk_size offset 0 aad).skip)) := by
    unfold turn
    simp only
    rw [if_neg (by rw [none_available _ (by rw [skip_remaining,none_wanted])]; omega),if_pos (by simp [finished])]
  rw [round]

end Reads

/-! ### Truncated streams -/

/-- The stream ends, with an end of file, exactly where a frame that holds wanted bytes should begin, and the frames
    before that open. -/
def EndsBetweenFrames (P : Primitives) (key : Bytes) (aad : Nat → Bytes) (chunk_size plaintext_size offset length : Nat)
    (bytes : Bytes) (source : Option IoError) : Prop :=
  0 < length ∧ ∃ j, offset / chunk_size ≤ j ∧ j * chunk_size < offset + length ∧
    EndsBefore P key aad chunk_size plaintext_size (offset / chunk_size) j bytes source

/-- Whatever the capacities, reading to the end of file without an error gave as many bytes as promised. -/
def ReportsTruncation (P : Primitives) (poll : Poll σ IoError UInt8) (d : FrameDecryptor σ) (promised : Nat) : Prop :=
  ∀ caps : Nat → Nat, (∀ n, 0 < caps n) → ∀ emitted, Reads (poll_read P poll) caps d (emitted,none) →
    emitted.length = promised

theorem for_range_reports_iff {P : Primitives} {poll : Poll σ IoError UInt8} {source : Option IoError}
    (opens : ∀ key nonce aad sealed message, P.decrypt key nonce aad sealed = some message →
      sealed.length = message.length + 16)
    (fits : ∀ s cap piece s', poll s cap = .ok (piece,s') → piece.length ≤ cap) {inner : σ} {bytes : Bytes}
    (emits : Emits poll inner bytes source) (key : Bytes) (aad : Nat → Bytes) {plaintext_size chunk_size : Nat}
    (positive : 0 < chunk_size) {offset length : Nat} (inside : offset + length ≤ plaintext_size) :
    ReportsTruncation P poll (for_range inner key plaintext_size chunk_size offset length aad) length ↔
      ¬ EndsBetweenFrames P key aad chunk_size plaintext_size offset length bytes source := by
  rcases Nat.eq_zero_or_pos length with rfl | wanted
  · refine iff_of_true (fun caps positive emitted read => ?_) fun ends => by simpa using ends.1
    obtain ⟨turns,given⟩ := read
    obtain ⟨turns',nothing⟩ : Reads (poll_read P poll) caps
        (for_range inner key plaintext_size chunk_size offset 0 aad) ([],none) :=
      for_range_nothing inner key aad plaintext_size chunk_size offset caps
    have longer := read_to_end_mono given (Nat.le_max_left turns turns')
    rw [read_to_end_mono nothing (Nat.le_max_right turns turns')] at longer
    simp only [Option.some.injEq,Prod.mk.injEq] at longer
    simp [← longer.1]
  · have sized : 0 < plaintext_size := by omega
    obtain ⟨text,e,decrypts,emitted⟩ := for_range_emits (P := P) fits emits key aad positive offset length sized wanted
    have place := Nat.div_add_mod' offset chunk_size
    have silent := decrypts.silent_iff opens (offset % chunk_size + length) (by omega)
    have cut : e = none ∧ text.length < offset % chunk_size + length ↔
        EndsBetweenFrames P key aad chunk_size plaintext_size offset length bytes source := by
      rw [silent,EndsBetweenFrames,← Nat.add_assoc,place]
      exact ⟨fun ends => ⟨wanted,ends⟩,fun ends => ends.2⟩
    rw [← cut]
    constructor
    · rintro reports ⟨clean,short⟩
      have one : ∀ n, 0 < (fun _ => 1 : Nat → Nat) n := fun _ => Nat.one_pos
      have read := (emitted.reads_iff one _).mpr rfl
      rw [clean,ite_self] at read
      have all := reports (fun _ => 1) (fun _ => Nat.one_pos) _ read
      rw [List.length_take,List.length_drop] at all
      omega
    · intro whole caps positive out read
      obtain ⟨same,ending⟩ := Prod.mk.inj ((emitted.reads_iff positive _).mp read)
      rw [same,List.length_take,List.length_drop]
      by_cases long : length ≤ text.length - offset % chunk_size
      · exact Nat.min_eq_left long
      · rw [if_neg long] at ending
        exact absurd ⟨ending.symm,by omega⟩ whole

/-- A decryptor reports every truncation of what was promised if and only if its stream does not end exactly between
    two frames, the next of which is wanted. -/
theorem truncation_reported_iff {P : Primitives} {poll : Poll σ IoError UInt8} {source : Option IoError}
    (opens : ∀ key nonce aad sealed message, P.decrypt key nonce aad sealed = some message →
      sealed.length = message.length + 16)
    (fits : ∀ s cap piece s', poll s cap = .ok (piece,s') → piece.length ≤ cap) {inner : σ} {bytes : Bytes}
    (emits : Emits poll inner bytes source) (key : Bytes) (aad : Nat → Bytes) (plaintext_size chunk_size : Nat)
    (positive : 0 < chunk_size) :
    (ReportsTruncation P poll (new inner key plaintext_size chunk_size aad) plaintext_size ↔
      ¬ EndsBetweenFrames P key aad chunk_size plaintext_size 0 plaintext_size bytes source) ∧
    ∀ offset length, offset + length ≤ plaintext_size →
      (ReportsTruncation P poll (for_range inner key plaintext_size chunk_size offset length aad) length ↔
        ¬ EndsBetweenFrames P key aad chunk_size plaintext_size offset length bytes source) := by
  have whole : new inner key plaintext_size chunk_size aad =
      for_range inner key plaintext_size chunk_size 0 plaintext_size aad := by
    simp [new,for_range]
  constructor
  · rw [whole]
    exact for_range_reports_iff opens fits emits key aad positive (by omega)
  · exact fun offset length inside => for_range_reports_iff opens fits emits key aad positive inside

namespace Sample
open Maxio.Sample

/-- A file of the given bytes, open at its start. -/
def opened_file (bytes : Bytes) : FileReader UInt8 := ⟨bytes,0,vault.file_grant⟩

def file_poll : Poll (FileReader UInt8) IoError UInt8 := FileReader.poll_read

theorem opened_file_emits (bytes : Bytes) : Emits file_poll (opened_file bytes) bytes none :=
  (FileReader.yields (opened_file bytes)).emits

/-- The additional data of the frames of `logs/a`. -/
def logs_a_aad : Nat → Bytes := build_frame_aad vault "logs" "a" none

/-- The payload file of `logs/a`. -/
def payload : Bytes := frame_nonce ++ ciphertext

end Sample

/-- An object of three bytes whose payload file is intact. -/
theorem intact_payload_reports :
    ReportsTruncation Maxio.Sample.vault Sample.file_poll
      (new (Sample.opened_file Sample.payload) Maxio.Sample.data_key 3 FRAME_CHUNK_SIZE Sample.logs_a_aad) 3 := by
  refine (truncation_reported_iff Maxio.Sample.vault_sound.opened FileReader.poll_read_fits
    (Sample.opened_file_emits Sample.payload) Maxio.Sample.data_key Sample.logs_a_aad 3 FRAME_CHUNK_SIZE
    (by decide)).1.mpr ?_
  rintro ⟨_,j,_,below,_,length,_⟩
  obtain rfl : j = 0 := by
    simp only [FRAME_CHUNK_SIZE] at below
    omega
  exact absurd length (by decide)

/-- The same object after its payload file was cut to nothing: reading ends with no bytes and no error. -/
theorem emptied_payload_unreported :
    ¬ ReportsTruncation Maxio.Sample.vault Sample.file_poll
      (new (Sample.opened_file []) Maxio.Sample.data_key 3 FRAME_CHUNK_SIZE Sample.logs_a_aad) 3 := by
  intro reports
  have read : read_to_end (poll_read Maxio.Sample.vault Sample.file_poll) (fun _ => 1) 1 0
      (new (Sample.opened_file []) Maxio.Sample.data_key 3 FRAME_CHUNK_SIZE Sample.logs_a_aad) = some ([],none) := by
    decide +kernel
  exact absurd (reports (fun _ => 1) (fun _ => Nat.one_pos) [] ⟨1,read⟩) (by decide)

end Maxio.FrameDecryptor
