import Maxio.ChunkReader

/-!
What comes out of a `VerifiedChunkReader`: the bytes of the object in order, as long as every chunk that loads is
the one that was written, and never more than its chunks can hold.
-/

set_option linter.unusedSimpArgs false

namespace Maxio
open Reading

theorem u32_of_lt {n : Nat} (small : n < 2 ^ 32) : u32 n = n := Nat.mod_eq_of_lt small

theorem u32_lt (n : Nat) : u32 n < 2 ^ 32 := Nat.mod_lt _ (by decide)

namespace VerifiedChunkReader
variable (P : Primitives)

/-- The bytes of one chunk, as loading it finds them. -/
def fetch (r : VerifiedChunkReader) : Except IoError Bytes :=
  match r.manifest.chunks[r.current_chunk]? with
  | none => .error (.custom .InvalidData ("manifest missing chunk " ++ toString r.current_chunk ++ " (" ++
      toString r.manifest.chunks.length ++ " entries)"))
  | some chunk_info => match r.read_chunk P chunk_info with
    | .ok data => .ok data
    | .error original_err =>
      if r.manifest.parity_shards.getD 0 > 0 then
        try_reconstruct_data_chunk P r.disk r.chunks_dir r.manifest r.current_chunk
      else .error original_err

theorem load_chunk_sync_eq (r : VerifiedChunkReader) :
    r.load_chunk_sync P = match r.fetch P with
      | .ok data => .ok { r with buf := data, buf_pos := r.skip_bytes, skip_bytes := 0, state := .Serving }
      | .error e => .error e := by
  unfold load_chunk_sync fetch
  rcases r.manifest.chunks[r.current_chunk]? with _ | info
  · rfl
  · dsimp only
    rcases r.read_chunk P info with e | data
    · dsimp only
      split
      · rcases try_reconstruct_data_chunk P r.disk r.chunks_dir r.manifest r.current_chunk with e' | data <;> rfl
      · rfl
    · rfl

/-- Readers of the same files fetch the same chunk. -/
theorem fetch_congr {r r' : VerifiedChunkReader} (disk : r'.disk = r.disk) (dir : r'.chunks_dir = r.chunks_dir)
    (manifest : r'.manifest = r.manifest) (chunk : r'.current_chunk = r.current_chunk) :
    r'.fetch P = r.fetch P := by
  unfold fetch read_chunk
  rw [disk,dir,manifest,chunk]

/-- The source of one object: its files and manifest. -/
structure Source where
  disk : Disk
  chunks_dir : OsPath
  manifest : ChunkManifest

/-- A reader of the source that stands before chunk `i`. -/
def Source.reader (src : Source) (i : Nat) : VerifiedChunkReader where
  disk := src.disk
  chunks_dir := src.chunks_dir
  manifest := src.manifest
  current_chunk := i
  end_chunk := i
  skip_bytes := 0
  remaining := 0
  buf := []
  buf_pos := 0
  state := .NeedLoad

/-- Chunk `i` as a reader of the source fetches it. -/
def Source.chunk (src : Source) (i : Nat) : Except IoError Bytes := (src.reader i).fetch P

def Of (src : Source) (r : VerifiedChunkReader) : Prop :=
  r.disk = src.disk ∧ r.chunks_dir = src.chunks_dir ∧ r.manifest = src.manifest

theorem fetch_of {src : Source} {r : VerifiedChunkReader} (of : Of src r) :
    r.fetch P = src.chunk P r.current_chunk :=
  fetch_congr P of.1 of.2.1 of.2.2 rfl

theorem read_chunk_ok_iff {r : VerifiedChunkReader} {info : ChunkInfo} {data : Bytes} :
    r.read_chunk P info = .ok data ↔
      ∃ content, Fs.readAt r.disk (join r.chunks_dir (chunk_name r.current_chunk)) = .ok content ∧
        data = P.bytes content ∧ data.length = info.size ∧ hex_encode (P.sha256 data) = info.sha256 := by
  unfold read_chunk
  rcases Fs.readAt r.disk (join r.chunks_dir (chunk_name r.current_chunk)) with kind | content
  · simp
  · simp only [Except.ok.injEq,exists_eq_left']
    generalize P.bytes content = found
    split
    next different =>
      refine ⟨fun impossible => (nomatch impossible),?_⟩
      rintro ⟨rfl,same,_⟩
      exact absurd same different
    next same =>
      split
      next different =>
        refine ⟨fun impossible => (nomatch impossible),?_⟩
        rintro ⟨rfl,_,equal⟩
        exact absurd equal different
      next equal =>
        constructor
        · intro read
          injection read with read
          subst read
          exact ⟨rfl,not_not.mp same,not_not.mp equal⟩
        · rintro ⟨rfl,_⟩
          rfl

/-- A fetched chunk was read from its file or reconstructed. -/
theorem Source.chunk_ok {src : Source} {i : Nat} {data : Bytes} (fetched : src.chunk P i = .ok data) :
    ∃ info, src.manifest.chunks[i]? = some info ∧
      ((∃ content, Fs.readAt src.disk (join src.chunks_dir (chunk_name i)) = .ok content ∧
        data = P.bytes content ∧ data.length = info.size ∧ hex_encode (P.sha256 data) = info.sha256) ∨
      (src.manifest.parity_shards.getD 0 > 0 ∧
        try_reconstruct_data_chunk P src.disk src.chunks_dir src.manifest i = .ok data)) := by
  unfold Source.chunk fetch at fetched
  split at fetched
  next => cases fetched
  next info listed =>
    refine ⟨info,listed,?_⟩
    split at fetched
    next data' read =>
      injection fetched with fetched
      subst fetched
      left
      rw [read_chunk_ok_iff] at read
      exact read
    next =>
      split at fetched
      next parity => exact .inr ⟨parity,fetched⟩
      next => cases fetched

/-- A chunk whose file is as the manifest says is fetched from it. -/
theorem Source.chunk_of_file {src : Source} {i : Nat} {info : ChunkInfo} {content : Content}
    (listed : src.manifest.chunks[i]? = some info)
    (read : Fs.readAt src.disk (join src.chunks_dir (chunk_name i)) = .ok content)
    (size : (P.bytes content).length = info.size) (hash : hex_encode (P.sha256 (P.bytes content)) = info.sha256) :
    src.chunk P i = .ok (P.bytes content) := by
  have right : (src.reader i).read_chunk P info = .ok (P.bytes content) := (read_chunk_ok_iff P).mpr ⟨content,read,rfl,size,hash⟩
  unfold Source.chunk fetch
  split
  next missing =>
    have : src.manifest.chunks[i]? = none := missing
    rw [listed] at this
    cases this
  next info' found =>
    have : src.manifest.chunks[i]? = some info' := found
    rw [listed] at this
    cases this
    rw [right]

/-- With parity, a chunk that cannot be fetched could not be reconstructed either. -/
theorem Source.chunk_error {src : Source} {i : Nat} {info : ChunkInfo} {e : IoError} (failed : src.chunk P i = .error e)
    (listed : src.manifest.chunks[i]? = some info) (parity : src.manifest.parity_shards.getD 0 > 0) :
    try_reconstruct_data_chunk P src.disk src.chunks_dir src.manifest i = .error e := by
  unfold Source.chunk fetch at failed
  split at failed
  next missing =>
    have : src.manifest.chunks[i]? = none := missing
    rw [listed] at this
    cases this
  next info' found =>
    split at failed
    next => cases failed
    next =>
      have on : (src.reader i).manifest.parity_shards.getD 0 > 0 := parity
      rw [if_pos on] at failed
      exact failed

/-! ### Delivery -/

/-- Chunk `i` of the data. -/
def chunkOf (size : Nat) (data : Bytes) (i : Nat) : Bytes := (data.drop (i * size)).take size

/-- The source was written for `data`: fewer chunks than a `u32` counts, and a chunk that can be fetched is right. -/
structure Source.Honest (src : Source) (data : Bytes) (mayFail : Prop) : Prop where
  total : src.manifest.total_size = data.length
  positive : 0 < src.manifest.chunk_size
  count : src.manifest.chunk_count < 2 ^ 32
  covers : data.length ≤ src.manifest.chunk_count * src.manifest.chunk_size
  right : ∀ i bytes, i * src.manifest.chunk_size < data.length → src.chunk P i = .ok bytes →
    bytes = chunkOf src.manifest.chunk_size data i
  loads : ∀ i e, i * src.manifest.chunk_size < data.length → src.chunk P i = .error e → mayFail

/-- Where the next byte of a reader is in the data. -/
def position (r : VerifiedChunkReader) : Nat :=
  r.current_chunk * r.manifest.chunk_size + if r.state = .Serving then r.buf_pos else r.skip_bytes

/-- The reader still has to hand over `out`. -/
structure Owes (src : Source) (data : Bytes) (r : VerifiedChunkReader) (out : Bytes) : Prop where
  of : Of src r
  done : r.state = .Done → out = []
  rest : r.state ≠ .Done → out = (data.drop r.position).take r.remaining
  busy : r.state ≠ .Done → 0 < r.remaining
  inside : r.state ≠ .Done → r.position + r.remaining ≤ data.length
  last : r.state ≠ .Done → r.position + r.remaining ≤ (r.end_chunk + 1) * src.manifest.chunk_size
  serving : r.state = .Serving → r.buf = chunkOf src.manifest.chunk_size data r.current_chunk ∧
    r.buf_pos ≤ r.buf.length ∧ r.skip_bytes = 0
  waiting : r.state = .NeedLoad → r.skip_bytes < src.manifest.chunk_size

section Delivery
variable {P} {src : Source} {data : Bytes} {mayFail : Prop}

theorem length_chunkOf (size : Nat) (data : Bytes) (i : Nat) :
    (chunkOf size data i).length = min size (data.length - i * size) := by
  simp [chunkOf]

private theorem Owes.chunk_inside (honest : src.Honest P data mayFail) {r : VerifiedChunkReader} {out : Bytes}
    (owes : Owes src data r out) (active : r.state ≠ .Done) :
    r.current_chunk ≤ r.end_chunk ∧ r.current_chunk * src.manifest.chunk_size < data.length ∧
      r.current_chunk + 1 < 2 ^ 32 + 1 := by
  have busy := owes.busy active
  have inside := owes.inside active
  have last := owes.last active
  have here : r.current_chunk * src.manifest.chunk_size ≤ r.position := by
    unfold position
    rw [owes.of.2.2]
    omega
  have below : r.current_chunk * src.manifest.chunk_size < data.length := by omega
  refine ⟨?_,below,?_⟩
  · have product : r.current_chunk * src.manifest.chunk_size < (r.end_chunk + 1) * src.manifest.chunk_size := by omega
    have := Nat.lt_of_mul_lt_mul_right product
    omega
  · have product := lt_of_lt_of_le below honest.covers
    have := Nat.lt_of_mul_lt_mul_right product
    have := honest.count
    omega

private theorem owes_loaded (honest : src.Honest P data mayFail) {r r' : VerifiedChunkReader} {out : Bytes}
    (owes : Owes src data r out) (waiting : r.state = .NeedLoad) (loaded : r.load_chunk_sync P = .ok r') :
    Owes src data r' out ∧ r'.state = .Serving ∧ r'.current_chunk = r.current_chunk := by
  have active : r.state ≠ .Done := by simp [waiting]
  obtain ⟨_,below,_⟩ := owes.chunk_inside honest active
  rw [load_chunk_sync_eq,fetch_of P owes.of] at loaded
  split at loaded
  next bytes fetched =>
    injection loaded with loaded
    subst loaded
    have right := honest.right _ _ below fetched
    have rest := owes.rest active
    have inside := owes.inside active
    have last := owes.last active
    have busy := owes.busy active
    have small := owes.waiting waiting
    simp only [position,waiting,owes.of.2.2] at rest inside last
    refine ⟨⟨owes.of,by simp,fun _ => ?_,fun _ => busy,fun _ => ?_,fun _ => ?_,fun _ => ?_,by simp⟩,rfl,rfl⟩
    · simpa [position,owes.of.2.2] using rest
    · simpa [position,owes.of.2.2] using inside
    · simpa [position,owes.of.2.2] using last
    · refine ⟨right,?_,rfl⟩
      simp only [right,length_chunkOf]
      simp only [if_neg (show ¬ (ReaderState.NeedLoad = .Serving) by decide)] at inside
      omega
  next => cases loaded

private theorem owes_next (honest : src.Honest P data mayFail) {r : VerifiedChunkReader} {out : Bytes}
    (owes : Owes src data r out) (serving : r.state = .Serving) (empty : r.buf.drop r.buf_pos = []) :
    Owes src data { r with current_chunk := u32 (r.current_chunk + 1), state := .NeedLoad } out ∧
      u32 (r.current_chunk + 1) = r.current_chunk + 1 := by
  have active : r.state ≠ .Done := by simp [serving]
  obtain ⟨_,below,_⟩ := owes.chunk_inside honest active
  obtain ⟨filled,short,noSkip⟩ := owes.serving serving
  have rest := owes.rest active
  have inside := owes.inside active
  have last := owes.last active
  have busy := owes.busy active
  simp only [position,serving,owes.of.2.2,if_true] at rest inside last
  have reached : r.buf_pos = r.buf.length := by
    have := List.drop_eq_nil_iff.mp empty
    omega
  -- a chunk that ends before the data does is a full one
  have whole : r.buf_pos = src.manifest.chunk_size := by
    rw [reached] at inside ⊢
    rw [filled,length_chunkOf] at inside ⊢
    omega
  have product : (r.current_chunk + 1) * src.manifest.chunk_size < data.length := by
    rw [Nat.add_mul,Nat.one_mul]
    omega
  have bound := Nat.lt_of_mul_lt_mul_right (lt_of_lt_of_le product honest.covers)
  have count := honest.count
  have step : u32 (r.current_chunk + 1) = r.current_chunk + 1 := u32_of_lt (by omega)
  have moved : (r.current_chunk + 1) * src.manifest.chunk_size = r.current_chunk * src.manifest.chunk_size + r.buf_pos := by
    rw [Nat.add_mul,Nat.one_mul,whole]
  refine ⟨⟨owes.of,by simp,fun _ => ?_,fun _ => busy,fun _ => ?_,fun _ => ?_,by simp,fun _ => ?_⟩,step⟩
  · simpa [position,owes.of.2.2,step,moved,noSkip] using rest
  · simpa [position,owes.of.2.2,step,moved,noSkip] using inside
  · simpa [position,owes.of.2.2,step,moved,noSkip] using last
  · simpa [noSkip] using honest.positive

private theorem owes_served {r : VerifiedChunkReader} {out : Bytes} (owes : Owes src data r out)
    (serving : r.state = .Serving) (n : Nat) (fits : n ≤ (r.buf.drop r.buf_pos).length) (within : n ≤ r.remaining) :
    ∃ rest, out = (r.buf.drop r.buf_pos).take n ++ rest ∧
      Owes src data { r with
        buf_pos := r.buf_pos + n, remaining := r.remaining - n,
        state := if r.remaining - n = 0 then .Done else .Serving } rest := by
  have active : r.state ≠ .Done := by simp [serving]
  obtain ⟨filled,short,noSkip⟩ := owes.serving serving
  have rest := owes.rest active
  have inside := owes.inside active
  have last := owes.last active
  simp only [position,serving,owes.of.2.2,if_true] at rest inside last
  have size := congrArg List.length filled
  rw [length_chunkOf] at size
  rw [List.length_drop] at fits
  have piece : (r.buf.drop r.buf_pos).take n =
      (data.drop (r.current_chunk * src.manifest.chunk_size + r.buf_pos)).take n := by
    rw [filled,chunkOf,List.drop_take,List.take_take,List.drop_drop]
    congr 1
    omega
  refine ⟨(data.drop (r.current_chunk * src.manifest.chunk_size + r.buf_pos + n)).take (r.remaining - n),?_,?_⟩
  · rw [rest,piece]
    conv_lhs => rw [← Nat.add_sub_cancel' within,List.take_add,List.drop_drop]
  · by_cases finished : r.remaining - n = 0
    · refine ⟨owes.of,?_,?_,?_,?_,?_,?_,?_⟩ <;> simp [finished]
    · refine ⟨owes.of,?_,fun _ => ?_,fun _ => ?_,fun _ => ?_,fun _ => ?_,fun _ => ?_,?_⟩
      · simp [finished]
      · simp [position,finished,owes.of.2.2,Nat.add_assoc]
      · exact Nat.pos_of_ne_zero finished
      · simp only [position,finished,if_false,if_true,owes.of.2.2]
        omega
      · simp only [position,finished,if_false,if_true,owes.of.2.2]
        omega
      · exact ⟨filled,by simp only; omega,noSkip⟩
      · simp [finished]

/-- Every chunk is two turns. -/
private def chunkMeasure (r : VerifiedChunkReader) : Nat :=
  2 * (2 ^ 32 - r.current_chunk) + if r.state = .NeedLoad then 1 else 0

theorem delivers (honest : src.Honest P data mayFail) :
    Delivers (poll_read P) mayFail False (Owes src data) := by
  refine spin_delivers chunkMeasure ?_ ?_ ?_ ?_ ?_
  · intro r out owes
    simp only [chunkMeasure,turns]
    split <;> omega
  · intro r r' out cap positive owes more
    unfold turn at more
    split at more
    next => cases more
    next waiting =>
      split at more
      next => cases more
      next open' =>
        split at more
        next loaded load =>
          injection more with more
          subst more
          obtain ⟨next,serving,same⟩ := owes_loaded honest owes waiting load
          refine ⟨next,?_⟩
          simp [chunkMeasure,waiting,serving,same]
        next => cases more
    next serving =>
      simp only at more
      split at more
      next empty =>
        injection more with more
        subst more
        obtain ⟨next,step⟩ := owes_next honest owes serving empty
        obtain ⟨_,_,bound⟩ := owes.chunk_inside honest (by simp [serving])
        refine ⟨next,?_⟩
        simp only [chunkMeasure,step,serving]
        simp
        omega
      next => cases more
  · intro r out cap e positive owes failed
    unfold turn at failed
    split at failed
    next => simp at failed
    next waiting =>
      split at failed
      next => simp at failed
      next open' =>
        split at failed
        next => cases failed
        next e' load =>
          have active : r.state ≠ .Done := by simp [waiting]
          obtain ⟨_,below,_⟩ := owes.chunk_inside honest active
          rw [load_chunk_sync_eq,fetch_of P owes.of] at load
          split at load
          next => cases load
          next e'' fetched => exact honest.loads _ _ below fetched
    next serving =>
      simp only at failed
      split at failed
      next => cases failed
      next => simp at failed
  · intro r out cap r' positive owes ended
    left
    unfold turn at ended
    split at ended
    next finished => exact owes.done finished
    next waiting =>
      have active : r.state ≠ .Done := by simp [waiting]
      obtain ⟨within,_,_⟩ := owes.chunk_inside honest active
      have busy := owes.busy active
      split at ended
      next closed => omega
      next =>
        split at ended
        next => cases ended
        next => simp at ended
    next serving =>
      have active : r.state ≠ .Done := by simp [serving]
      have busy := owes.busy active
      simp only at ended
      split at ended
      next => cases ended
      next available =>
        exfalso
        simp only [Turn.ready.injEq,Except.ok.injEq,Prod.mk.injEq,List.take_eq_nil_iff] at ended
        have filled : 0 < (r.buf.drop r.buf_pos).length := List.length_pos_iff.mpr available
        rcases ended.1 with none | empty
        · omega
        · exact available empty
  · intro r out cap piece r' positive owes given nonempty
    unfold turn at given
    split at given
    next => simp at given; exact absurd given.1 nonempty
    next waiting =>
      split at given
      next => simp at given; exact absurd given.1 nonempty
      next =>
        split at given
        next => cases given
        next => simp at given
    next serving =>
      simp only at given
      split at given
      next => cases given
      next available =>
        simp only [Turn.ready.injEq,Except.ok.injEq,Prod.mk.injEq] at given
        obtain ⟨rfl,rfl⟩ := given
        exact owes_served owes serving _ (by omega) (by omega)

/-! Where the readers start. -/

theorem owes_new (honest : src.Honest P data mayFail) :
    Owes src data (new src.disk src.chunks_dir src.manifest) data := by
  by_cases empty : data.length = 0
  · have nothing : data = [] := List.length_eq_zero_iff.mp empty
    refine ⟨⟨rfl,rfl,rfl⟩,?_,?_,?_,?_,?_,?_,?_⟩ <;> simp [new,honest.total,nothing]
  · have covers := honest.covers
    have some' : src.manifest.chunk_count ≠ 0 := by
      intro zero
      rw [zero,Nat.zero_mul] at covers
      omega
    have state : (new src.disk src.chunks_dir src.manifest).state = .NeedLoad := by simp [new,honest.total,empty]
    refine ⟨⟨rfl,rfl,rfl⟩,?_,fun _ => ?_,fun _ => ?_,fun _ => ?_,fun _ => ?_,?_,fun _ => honest.positive⟩
    · simp [state]
    · simp [position,state,new,honest.total]
    · simp only [new,honest.total]; omega
    · simp [position,state,new,honest.total]
    · simp only [position,state,new,honest.total]
      simp only [Nat.sub_add_cancel (Nat.pos_of_ne_zero some')]
      simpa using covers
    · simp [state]

theorem owes_with_range (honest : src.Honest P data mayFail) (offset length : Nat)
    (within : offset + length ≤ data.length) :
    Owes src data (with_range src.disk src.chunks_dir src.manifest offset length)
      ((data.drop offset).take length) := by
  unfold with_range
  split
  next nothing =>
    refine ⟨⟨rfl,rfl,rfl⟩,fun _ => ?_,?_,?_,?_,?_,?_,?_⟩
    · rcases nothing with zero | zero
      · simp [zero]
      · have : length = 0 := by rw [honest.total] at zero; omega
        simp [this]
    all_goals simp
  next something =>
    have positive : 0 < length := by omega
    have size := honest.positive
    have small : ∀ x, x < data.length → x / src.manifest.chunk_size < 2 ^ 32 := by
      intro x below
      have covers := honest.covers
      have count := honest.count
      have := Nat.div_lt_of_lt_mul (k := src.manifest.chunk_count) (n := src.manifest.chunk_size) (m := x)
        (by rw [Nat.mul_comm]; omega)
      omega
    have first := u32_of_lt (small offset (by omega))
    have final := u32_of_lt (small (offset + length - 1) (by omega))
    have spelled : offset / src.manifest.chunk_size * src.manifest.chunk_size + offset % src.manifest.chunk_size =
        offset := Nat.div_add_mod' _ _
    refine ⟨⟨rfl,rfl,rfl⟩,by simp,fun _ => ?_,fun _ => positive,fun _ => ?_,fun _ => ?_,by simp,fun _ => ?_⟩
    · simp [position,first,spelled]
    · simp [position,first,spelled,within]
    · simp only [position,first,final]
      have := Nat.lt_mul_div_succ (offset + length - 1) size
      simp only [if_neg (show ¬ (ReaderState.NeedLoad = .Serving) by decide),spelled]
      rw [Nat.mul_comm]
      omega
    · exact Nat.mod_lt _ size

theorem owes_preflight (honest : src.Honest P data mayFail) {r r' : VerifiedChunkReader} {out : Bytes}
    (owes : Owes src data r out) (fresh : r.state ≠ .Serving) (ready : r.preflight P = .ok r') :
    Owes src data r' out := by
  unfold preflight at ready
  split at ready
  next => injection ready with ready; exact ready ▸ owes
  next active =>
    have waiting : r.state = .NeedLoad := by
      rcases state : r.state with _ | _ | _ <;> simp_all
    exact (owes_loaded honest owes waiting ready).1

theorem preflight_fails (honest : src.Honest P data mayFail) {r : VerifiedChunkReader} {out : Bytes} {e : IoError}
    (owes : Owes src data r out) (failed : r.preflight P = .error e) : mayFail := by
  unfold preflight at failed
  split at failed
  next => cases failed
  next active =>
    obtain ⟨_,below,_⟩ := owes.chunk_inside honest active
    rw [load_chunk_sync_eq,fetch_of P owes.of] at failed
    split at failed
    next => cases failed
    next e' fetched => exact honest.loads _ _ below fetched

end Delivery

/-! ### No more than the chunks hold -/

/-- The reader hands over at most `n` more bytes. -/
structure Caps (src : Source) (r : VerifiedChunkReader) (n : Nat) : Prop where
  of : Of src r
  last : r.end_chunk + 1 < 2 ^ 32
  waiting : r.state = .NeedLoad → (r.end_chunk + 1 - r.current_chunk) * src.manifest.chunk_size ≤ n
  serving : r.state = .Serving → r.current_chunk ≤ r.end_chunk ∧
    r.buf.length - r.buf_pos + (r.end_chunk - r.current_chunk) * src.manifest.chunk_size ≤ n

section Bounds
variable {P} {src : Source}

private theorem caps_loaded (short : ∀ i bytes, src.chunk P i = .ok bytes → bytes.length ≤ src.manifest.chunk_size)
    {r r' : VerifiedChunkReader} {n : Nat} (caps : Caps src r n) (waiting : r.state = .NeedLoad)
    (open' : r.current_chunk ≤ r.end_chunk) (loaded : r.load_chunk_sync P = .ok r') : Caps src r' n := by
  rw [load_chunk_sync_eq,fetch_of P caps.of] at loaded
  split at loaded
  next bytes fetched =>
    injection loaded with loaded
    subst loaded
    refine ⟨caps.of,caps.last,by simp,fun _ => ⟨open',?_⟩⟩
    have size := short _ _ fetched
    have bound := caps.waiting waiting
    rw [show r.end_chunk + 1 - r.current_chunk = r.end_chunk - r.current_chunk + 1 by omega,Nat.add_mul,
      Nat.one_mul] at bound
    simp only
    omega
  next => cases loaded

theorem limits (short : ∀ i bytes, src.chunk P i = .ok bytes → bytes.length ≤ src.manifest.chunk_size) :
    Limits (poll_read P) (Caps src) := by
  refine spin_limits ?_ ?_
  · intro r r' n cap positive caps more
    unfold turn at more
    split at more
    next => cases more
    next waiting =>
      split at more
      next => cases more
      next open' =>
        split at more
        next loaded load =>
          injection more with more
          exact more ▸ caps_loaded short caps waiting (by omega) load
        next => cases more
    next serving =>
      simp only at more
      split at more
      next empty =>
        injection more with more
        subst more
        obtain ⟨open',bound⟩ := caps.serving serving
        have last := caps.last
        have step : u32 (r.current_chunk + 1) = r.current_chunk + 1 := u32_of_lt (by omega)
        refine ⟨caps.of,caps.last,fun _ => ?_,by simp⟩
        simp only [step]
        rw [show r.end_chunk + 1 - (r.current_chunk + 1) = r.end_chunk - r.current_chunk by omega]
        omega
      next => cases more
  · intro r n cap piece r' positive caps given
    unfold turn at given
    split at given
    next finished =>
      simp only [Turn.ready.injEq,Except.ok.injEq,Prod.mk.injEq] at given
      obtain ⟨rfl,rfl⟩ := given
      exact ⟨by simp,caps.of,caps.last,by simp [finished],by simp [finished]⟩
    next waiting =>
      split at given
      next =>
        simp only [Turn.ready.injEq,Except.ok.injEq,Prod.mk.injEq] at given
        obtain ⟨rfl,rfl⟩ := given
        exact ⟨by simp,caps.of,caps.last,by simp,by simp⟩
      next =>
        split at given
        next => cases given
        next => simp at given
    next serving =>
      simp only at given
      split at given
      next => cases given
      next available =>
        simp only [Turn.ready.injEq,Except.ok.injEq,Prod.mk.injEq] at given
        obtain ⟨rfl,rfl⟩ := given
        obtain ⟨open',bound⟩ := caps.serving serving
        simp only [List.length_take,List.length_drop]
        refine ⟨by omega,caps.of,caps.last,?_,fun _ => ⟨open',?_⟩⟩
        · intro state
          dsimp only at state
          split at state <;> cases state
        · simp only
          omega

theorem caps_new (small : src.manifest.chunk_count < 2 ^ 32) :
    Caps src (new src.disk src.chunks_dir src.manifest)
      (max src.manifest.chunk_count 1 * src.manifest.chunk_size) := by
  refine ⟨⟨rfl,rfl,rfl⟩,by simp only [new]; omega,fun _ => ?_,?_⟩
  · simp only [new]
    exact Nat.mul_le_mul_right _ (by omega)
  · intro state
    simp only [new] at state
    split at state <;> cases state

theorem caps_preflight (short : ∀ i bytes, src.chunk P i = .ok bytes → bytes.length ≤ src.manifest.chunk_size)
    {r r' : VerifiedChunkReader} {n : Nat} (caps : Caps src r n) (fresh : r.state = .NeedLoad → r.current_chunk ≤ r.end_chunk)
    (idle : r.state ≠ .Serving) (ready : r.preflight P = .ok r') : Caps src r' n := by
  unfold preflight at ready
  split at ready
  next => injection ready with ready; exact ready ▸ caps
  next active =>
    have waiting : r.state = .NeedLoad := by
      rcases state : r.state with _ | _ | _ <;> simp_all
    exact caps_loaded short caps waiting (fresh waiting) ready

end Bounds

/-- A read is never longer than the buffer. -/
theorem poll_read_fits (r : VerifiedChunkReader) (cap : Nat) (piece : Bytes) (r' : VerifiedChunkReader)
    (polled : poll_read P r cap = .ok (piece,r')) : piece.length ≤ cap := by
  unfold poll_read at polled
  generalize turns = count at polled
  induction count generalizing r with
  | zero => simp [spin] at polled
  | succ count ih =>
    rw [spin] at polled
    split at polled
    next result ready =>
      subst polled
      unfold turn at ready
      split at ready
      next => simp at ready; simp [ready.1]
      next =>
        split at ready
        next => simp at ready; simp [ready.1]
        next =>
          split at ready
          next => cases ready
          next => simp at ready
      next =>
        simp only at ready
        split at ready
        next => cases ready
        next =>
          simp only [Turn.ready.injEq,Except.ok.injEq,Prod.mk.injEq] at ready
          rw [← ready.1,List.length_take]
          omega
    next next more => exact ih next polled

end VerifiedChunkReader
end Maxio
