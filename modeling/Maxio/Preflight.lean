import Maxio.Truncation

/-!
What a preflight leaves of a `FrameDecryptor`. It puts back the position in the buffer and the bytes still wanted, but
not the bytes to skip, so a range that does not begin with a frame is read from the beginning of its frame.
-/

namespace Maxio.FrameDecryptor
open Reading
variable {σ : Type}

/-- Every frame from the start of the stream on is complete and opens to its piece of the plaintext. -/
structure WellFormed (P : Primitives) (st : Stream) : Prop where
  positive : 0 < st.chunk_size
  frame : ∀ i, st.start ≤ i → i * st.chunk_size < st.plain.length →
    (st.frame i).length = frameLength st.chunk_size st.plain.length i ∧
    openFrame P st.key st.aad i (st.frame i) = .ok (pieceOf st.chunk_size st.plain i)

/-- The decryptor can be read after a preflight, and whatever the capacities, the result is the one without it. -/
def PreflightTransparent (P : Primitives) (poll : Poll σ IoError UInt8) (d : FrameDecryptor σ) : Prop :=
  ∃ d', preflight P poll d = .ok d' ∧ ∀ caps : Nat → Nat, (∀ n, 0 < caps n) →
    ∀ result, Reads (poll_read P poll) caps d' result ↔ Reads (poll_read P poll) caps d result

section
variable {P : Primitives} {poll : Poll σ IoError UInt8} {st : Stream}

theorem WellFormed.honest (formed : WellFormed P st) : st.Honest P False False where
  positive := formed.positive
  right i p after inside _ opened := by
    rw [(formed.frame i after inside).2] at opened
    injection opened with opened
    exact opened.symm
  opens i e after inside _ failed := by
    rw [(formed.frame i after inside).2] at failed
    cases failed
  short i after inside short := by
    have whole := (formed.frame i after inside).1
    rw [Stream.frame,List.length_take,List.length_drop] at whole
    have positive := frameLength_pos.mpr inside
    omega

/-- The ciphertext of a body from some frame on is well formed. -/
theorem sealed_well_formed {cipher : FrameCipher} {body : Bytes} {frames : List Bytes} (sound : P.Sound)
    (eight : cipher.nonce_prefix.length = 8)
    (sealed : Sealed P cipher (Chunking.pieces FRAME_CHUNK_SIZE body) frames) (start : Nat) :
    WellFormed P ⟨cipher.key,cipher.aad,FRAME_CHUNK_SIZE,body,start,
      frames.flatten.drop (start * (FRAME_CHUNK_SIZE + FRAME_OVERHEAD))⟩ where
  positive := frame_chunk_pos
  frame i after inside := by
    have place : (frames.flatten.drop (start * (FRAME_CHUNK_SIZE + FRAME_OVERHEAD))).drop
        ((i - start) * (FRAME_CHUNK_SIZE + FRAME_OVERHEAD)) =
        frames.flatten.drop (i * (FRAME_CHUNK_SIZE + FRAME_OVERHEAD)) := by
      rw [List.drop_drop,← Nat.add_mul,Nat.add_sub_cancel' after]
    simp only [Stream.frame,Stream.offset,place]
    exact frame_at sound eight sealed inside

/-- The result of a read comes from its last turn. -/
theorem spin_last {τ ε β : Type} {turn : τ → Nat → Turn τ ε β} {stuck : ε} {cap count : Nat} {s : τ}
    {result : List β × τ} (ended : spin turn stuck cap count s = .ok result) :
    ∃ s', turn s' cap = .ready (.ok result) := by
  induction count generalizing s with
  | zero => simp [spin] at ended
  | succ count ih =>
    rw [spin] at ended
    split at ended
    next last => exact ⟨s,by rw [last,ended]⟩
    next => exact ih ended

/-- A read that hands over something leaves nothing to skip and stands inside of the buffer. -/
theorem poll_read_stands {d d' : FrameDecryptor σ} {cap : Nat} {piece : Bytes}
    (polled : poll_read P poll d cap = .ok (piece,d')) (nonempty : piece ≠ []) :
    d'.skip_bytes = 0 ∧ piece.length ≤ d'.out_pos ∧ piece.length ≤ cap := by
  obtain ⟨s,last⟩ := spin_last polled
  have drained := skip_spent s
  unfold turn at last
  simp only at last
  generalize s.skip = s' at drained last
  split at last
  next something =>
    simp only [Turn.ready.injEq,Except.ok.injEq,Prod.mk.injEq] at last
    obtain ⟨rfl,rfl⟩ := last
    have fits : s'.available cap ≤ s'.out_buf.length - s'.out_pos ∧ s'.available cap ≤ cap := by
      simp only [available]
      omega
    refine ⟨?_,?_,?_⟩
    · rcases drained with none | spent
      · exact none
      · omega
    · simp only [List.length_take,List.length_drop]
      omega
    · simp only [List.length_take,List.length_drop]
      omega
  next =>
    split at last
    next =>
      simp only [Turn.ready.injEq,Except.ok.injEq,Prod.mk.injEq] at last
      exact absurd last.1.symm nonempty
    next =>
      split at last
      next => split at last <;> simp at last
      next =>
        unfold fill_frame at last
        split at last
        next => simp at last
        next =>
          split at last
          · simp only [Turn.ready.injEq,Except.ok.injEq,Prod.mk.injEq] at last
            exact absurd last.1.symm nonempty
          · simp at last
        next => cases last

/-- What a decryptor of a range starts with. -/
theorem for_range_fields (inner : σ) (key : Bytes) (aad : Nat → Bytes) (plaintext_size chunk_size offset length : Nat) :
    (for_range inner key plaintext_size chunk_size offset length aad).plaintext_size = plaintext_size ∧
    (for_range inner key plaintext_size chunk_size offset length aad).remaining = length ∧
    (for_range inner key plaintext_size chunk_size offset length aad).out_pos = 0 := by
  unfold for_range for_range_internal
  dsimp only
  split
  · exact ⟨rfl,rfl,rfl⟩
  · rw [update_frame_target_eq]
    exact ⟨rfl,rfl,rfl⟩

/-- After a preflight the range is read from the start of the frame it begins in. -/
theorem preflight_rewinds (formed : WellFormed P st)
    (fits : ∀ s cap piece s', poll s cap = .ok (piece,s') → piece.length ≤ cap) {inner : σ}
    (yields : Exactly poll inner st.bytes) {offset length : Nat} (start : st.start = offset / st.chunk_size)
    (inside : offset < st.plain.length) (wanted : 0 < length) :
    ∃ d', preflight P poll (for_range inner st.key st.plain.length st.chunk_size offset length st.aad) = .ok d' ∧
      Exactly (poll_read P poll) d' ((st.plain.drop (offset / st.chunk_size * st.chunk_size)).take length) := by
  have honest := formed.honest
  have positive := formed.positive
  have here := at_start honest (yields.mono id id) (offset % st.chunk_size) length
  rw [start,Nat.div_add_mod'] at here
  change At poll False st (for_range inner st.key st.plain.length st.chunk_size offset length st.aad) offset at here
  obtain ⟨size,remaining,fresh⟩ := for_range_fields inner st.key st.aad st.plain.length st.chunk_size offset length
  generalize for_range inner st.key st.plain.length st.chunk_size offset length st.aad = d at here size remaining fresh
  rcases here.polled honest fits (show 0 < 1 by decide) with ⟨_,_,impossible⟩ | ⟨_,_,ended⟩ | ⟨piece,p,polled,nonempty,same,few,left,active,next⟩
  · exact impossible.elim
  · have nothing := ended.resolve_right id
    rw [remaining,List.take_eq_nil_iff,List.drop_eq_nil_iff] at nothing
    omega
  · obtain ⟨no_skip,stands,few⟩ := poll_read_stands polled nonempty
    have long := List.length_pos_iff.mpr nonempty
    have one : piece.length = 1 := by omega
    refine ⟨{ p with out_pos := d.out_pos, remaining := d.remaining },?_,?_⟩
    · unfold preflight
      rw [if_neg (by omega),polled]
      cases piece with
      | nil => exact absurd rfl nonempty
      | cons b piece => rfl
    · refine ⟨_,delivers honest fits,offset / st.chunk_size * st.chunk_size,?_,by rw [remaining]⟩
      rw [one] at next stands
      refine ⟨next.key,next.aad,next.size,next.chunk,next.ahead,next.target,next.short,?_,next.filled,.inr ?_,next.inner⟩
      · simp [active]
      · rcases next.buffered with ⟨_,zero,_⟩ | ⟨ahead,same,before,short,position⟩
        · omega
        · have size := congrArg List.length same
          rw [VerifiedChunkReader.length_chunkOf] at size
          rw [no_skip,Nat.add_zero] at position
          have frame : offset / st.chunk_size = p.chunk_index - 1 := by
            rw [show offset = (p.out_pos - 1) + st.chunk_size * (p.chunk_index - 1) by
              rw [Nat.mul_comm]; omega,Nat.add_mul_div_left _ _ positive,Nat.div_eq_of_lt (by omega),Nat.zero_add]
          refine ⟨ahead,same,before,by simp [fresh],?_⟩
          rw [frame,no_skip,fresh]
          rfl

/-- Without anything to read a preflight does nothing. -/
theorem preflight_nothing {d : FrameDecryptor σ} (nothing : d.plaintext_size = 0 ∨ d.remaining = 0) :
    preflight P poll d = .ok d := by
  unfold preflight
  rw [if_pos nothing]

/-- A preflight of a range beyond the end of the object fails. -/
theorem preflight_beyond (formed : WellFormed P st)
    (fits : ∀ s cap piece s', poll s cap = .ok (piece,s') → piece.length ≤ cap) {inner : σ}
    (yields : Exactly poll inner st.bytes) {offset length : Nat} (start : st.start = offset / st.chunk_size)
    (beyond : st.plain.length ≤ offset) (sized : 0 < st.plain.length) (wanted : 0 < length) (d' : FrameDecryptor σ) :
    preflight P poll (for_range inner st.key st.plain.length st.chunk_size offset length st.aad) ≠ .ok d' := by
  have honest := formed.honest
  obtain ⟨size,remaining,_⟩ := for_range_fields inner st.key st.aad st.plain.length st.chunk_size offset length
  have here := at_start honest (yields.mono id id) (offset % st.chunk_size) length
  rw [start,Nat.div_add_mod'] at here
  change At poll False st (for_range inner st.key st.plain.length st.chunk_size offset length st.aad) offset at here
  generalize for_range inner st.key st.plain.length st.chunk_size offset length st.aad = d at here size remaining
  have empty : st.plain.drop offset = [] := List.drop_eq_nil_of_le beyond
  unfold preflight
  rw [if_neg (by omega)]
  rcases here.polled honest fits (show 0 < 1 by decide) with ⟨e,failed,_⟩ | ⟨p,ended,_⟩ | ⟨piece,p,_,nonempty,same,_⟩
  · rw [failed]
    simp
  · rw [ended]
    simp
  · rw [empty,List.take_nil] at same
    exact absurd same nonempty

/-- A preflight of the range is transparent if and only if nothing is wanted, or the wanted bytes are those from the
    start of the frame the range begins in. -/
theorem for_range_preflight_iff (formed : WellFormed P st)
    (fits : ∀ s cap piece s', poll s cap = .ok (piece,s') → piece.length ≤ cap) {inner : σ}
    (yields : Exactly poll inner st.bytes) {offset length : Nat} (start : st.start = offset / st.chunk_size) :
    PreflightTransparent P poll (for_range inner st.key st.plain.length st.chunk_size offset length st.aad) ↔
      st.plain.length = 0 ∨ length = 0 ∨ offset < st.plain.length ∧
        (st.plain.drop (offset / st.chunk_size * st.chunk_size)).take length = (st.plain.drop offset).take length := by
  obtain ⟨size,remaining,_⟩ := for_range_fields inner st.key st.aad st.plain.length st.chunk_size offset length
  by_cases nothing : st.plain.length = 0 ∨ length = 0
  · refine iff_of_true ⟨_,preflight_nothing (by rwa [size,remaining]),fun _ _ _ => Iff.rfl⟩ ?_
    rcases nothing with empty | none
    · exact .inl empty
    · exact .inr (.inl none)
  · have sized : 0 < st.plain.length := by omega
    have wanted : 0 < length := by omega
    by_cases inside : offset < st.plain.length
    · obtain ⟨d',ready,rewound⟩ := preflight_rewinds formed fits yields start inside wanted
      have plain : Exactly (poll_read P poll)
          (for_range inner st.key st.plain.length st.chunk_size offset length st.aad)
          ((st.plain.drop offset).take length) :=
        yields_for_range formed.honest fits (yields.mono id id) offset length start
      constructor
      · rintro ⟨other,ready',same⟩
        rw [ready] at ready'
        injection ready' with ready'
        subst ready'
        have read := (same (fun _ => 1) (fun _ => Nat.one_pos) _).mp
          ((rewound.emits.reads_iff (fun _ => Nat.one_pos) _).mpr rfl)
        have equal := (plain.emits.reads_iff (fun _ => Nat.one_pos) _).mp read
        exact .inr (.inr ⟨inside,(Prod.mk.inj equal).1⟩)
      · rintro (empty | none | ⟨_,equal⟩)
        · omega
        · omega
        · refine ⟨d',ready,fun caps positive result => ?_⟩
          rw [rewound.emits.reads_iff positive,plain.emits.reads_iff positive,equal]
    · refine iff_of_false ?_ (by omega)
      rintro ⟨d',ready,_⟩
      exact preflight_beyond formed fits yields start (by omega) sized wanted d' ready

end

/-- A preflight is transparent for a whole object; for a range it is if and only if nothing is wanted, or the range
    begins inside of the object and the wanted bytes are those from the start of the frame it begins in. -/
theorem preflight_transparent_iff {P : Primitives} {poll : Poll σ IoError UInt8} {st : Stream}
    (formed : WellFormed P st) (fits : ∀ s cap piece s', poll s cap = .ok (piece,s') → piece.length ≤ cap)
    {inner : σ} (yields : Exactly poll inner st.bytes) :
    (st.start = 0 → PreflightTransparent P poll (new inner st.key st.plain.length st.chunk_size st.aad)) ∧
    ∀ offset length, st.start = offset / st.chunk_size →
      (PreflightTransparent P poll (for_range inner st.key st.plain.length st.chunk_size offset length st.aad) ↔
        st.plain.length = 0 ∨ length = 0 ∨ offset < st.plain.length ∧
          (st.plain.drop (offset / st.chunk_size * st.chunk_size)).take length =
            (st.plain.drop offset).take length) := by
  refine ⟨fun first => ?_,fun offset length start => for_range_preflight_iff formed fits yields start⟩
  have whole : new inner st.key st.plain.length st.chunk_size st.aad =
      for_range inner st.key st.plain.length st.chunk_size 0 st.plain.length st.aad := by
    simp [new,for_range]
  rw [whole,for_range_preflight_iff formed fits yields (by simp [first])]
  rcases Nat.eq_zero_or_pos st.plain.length with empty | sized
  · exact .inl empty
  · exact .inr (.inr ⟨sized,by simp⟩)

namespace Sample
open Maxio.Sample

/-- The payload of `logs/a` as a stream of one frame. -/
def logs_a_stream : Stream := ⟨data_key,logs_a_aad,FRAME_CHUNK_SIZE,abc,0,payload⟩

theorem logs_a_formed : WellFormed vault logs_a_stream where
  positive := by decide
  frame i _ inside := by
    obtain rfl : i = 0 := by
      simp only [logs_a_stream,FRAME_CHUNK_SIZE,abc,List.length_cons,List.length_nil] at inside
      omega
    decide +kernel

end Sample

/-- The range from the start of `logs/a` is read unchanged. -/
theorem preflight_of_first_bytes :
    PreflightTransparent Maxio.Sample.vault Sample.file_poll
      (for_range (Sample.opened_file Sample.payload) Maxio.Sample.data_key 3 FRAME_CHUNK_SIZE 0 2
        Sample.logs_a_aad) := by
  have here := (preflight_transparent_iff Sample.logs_a_formed FileReader.poll_read_fits
    (FileReader.yields (Sample.opened_file Sample.payload))).2 0 2 rfl
  exact here.mpr (.inr (.inr ⟨by decide,by decide⟩))

/-- The second byte of `logs/a`, `b`: after a preflight the first one, `a`, is read in its place. -/
theorem preflight_shifts_range :
    ¬ PreflightTransparent Maxio.Sample.vault Sample.file_poll
      (for_range (Sample.opened_file Sample.payload) Maxio.Sample.data_key 3 FRAME_CHUNK_SIZE 1 1
        Sample.logs_a_aad) := by
  rintro ⟨d',ready,same⟩
  have plain : read_to_end (poll_read Maxio.Sample.vault Sample.file_poll) (fun _ => 1) 2 0
      (for_range (Sample.opened_file Sample.payload) Maxio.Sample.data_key 3 FRAME_CHUNK_SIZE 1 1
        Sample.logs_a_aad) = some ([0x62],none) := by decide +kernel
  have after : (preflight Maxio.Sample.vault Sample.file_poll
      (for_range (Sample.opened_file Sample.payload) Maxio.Sample.data_key 3 FRAME_CHUNK_SIZE 1 1
        Sample.logs_a_aad)).toOption.bind (fun d => read_to_end (poll_read Maxio.Sample.vault Sample.file_poll)
          (fun _ => 1) 2 0 d) = some ([0x61],none) := by decide +kernel
  rw [ready] at after
  obtain ⟨turns,read⟩ := (same (fun _ => 1) (fun _ => Nat.one_pos) _).mpr ⟨2,plain⟩
  have first := read_to_end_mono read (Nat.le_max_left turns 2)
  rw [read_to_end_mono after (Nat.le_max_right turns 2)] at first
  cases first

end Maxio.FrameDecryptor
