import Maxio.Carrying
import Maxio.ObjectSpec

/-!
Reads of a key in two worlds. What `get_object` and `head_object` answer, and what comes out of the reader they hand
over, is determined by what `stat` finds at the places of the key.
-/

set_option linter.unusedSimpArgs false

namespace Maxio
open FileTree (Node Tree)
open Reading (Poll Turn Carries spin_carries read_to_end)

/-! ### Readers -/

namespace VerifiedChunkReader
variable {P : Primitives} {t : Disk}

/-- The reader on another disk. -/
def on (t : Disk) (r : VerifiedChunkReader) : VerifiedChunkReader := { r with disk := t }

/-- The disk has the same chunk files. -/
def SameChunks (t : Disk) (r : VerifiedChunkReader) : Prop :=
  ∀ i, Fs.readAt t (join r.chunks_dir (chunk_name i)) = Fs.readAt r.disk (join r.chunks_dir (chunk_name i))

theorem read_chunk_on {r : VerifiedChunkReader} (same : SameChunks t r) (ci : ChunkInfo) :
    (r.on t).read_chunk P ci = r.read_chunk P ci := by
  unfold read_chunk
  rw [show (r.on t).disk = t from rfl,show (r.on t).chunks_dir = r.chunks_dir from rfl,
    show (r.on t).current_chunk = r.current_chunk from rfl,same r.current_chunk]

theorem read_shards_on {r : VerifiedChunkReader} (same : SameChunks t r) (size i count : Nat) :
    read_shards P t r.chunks_dir r.manifest size i count = read_shards P r.disk r.chunks_dir r.manifest size i count := by
  induction count generalizing i with
  | zero => rfl
  | succ count ih =>
    have shard : ∀ ci, read_shard P t r.chunks_dir size ci i = read_shard P r.disk r.chunks_dir size ci i := by
      intro ci
      rw [read_shard,read_shard,same i]
    rw [read_shards,read_shards,ih]
    simp only [shard]

theorem load_chunk_sync_on {r : VerifiedChunkReader} (same : SameChunks t r) :
    (r.on t).load_chunk_sync P = (r.load_chunk_sync P).map (on t) := by
  have again : try_reconstruct_data_chunk P t r.chunks_dir r.manifest r.current_chunk =
      try_reconstruct_data_chunk P r.disk r.chunks_dir r.manifest r.current_chunk := by
    unfold try_reconstruct_data_chunk
    simp only [read_shards_on same]
  have shown : ∀ ci, (r.on t).read_chunk P ci = r.read_chunk P ci := read_chunk_on same
  unfold load_chunk_sync
  rw [show (r.on t).disk = t from rfl,show (r.on t).chunks_dir = r.chunks_dir from rfl,
    show (r.on t).manifest = r.manifest from rfl,show (r.on t).current_chunk = r.current_chunk from rfl,again]
  cases r.manifest.chunks[r.current_chunk]? with
  | none => rfl
  | some ci =>
    dsimp only
    rw [shown]
    cases r.read_chunk P ci with
    | ok data => rfl
    | error e =>
      dsimp only
      split
      · cases try_reconstruct_data_chunk P r.disk r.chunks_dir r.manifest r.current_chunk <;> rfl
      · rfl

/-- Loading a chunk changes neither the disk nor the directory. -/
theorem load_chunk_sync_place {r r' : VerifiedChunkReader} (loaded : r.load_chunk_sync P = .ok r') :
    r'.disk = r.disk ∧ r'.chunks_dir = r.chunks_dir := by
  unfold load_chunk_sync at loaded
  split at loaded
  next => cases loaded
  next ci found =>
    dsimp only at loaded
    split at loaded
    next => cases loaded; exact ⟨rfl,rfl⟩
    next =>
      split at loaded
      next =>
        split at loaded
        next => cases loaded; exact ⟨rfl,rfl⟩
        next => cases loaded
      next => cases loaded

theorem SameChunks.moved {r r' : VerifiedChunkReader} (same : SameChunks t r)
    (place : r'.disk = r.disk ∧ r'.chunks_dir = r.chunks_dir) : SameChunks t r' := by
  intro i
  rw [place.1,place.2]
  exact same i

theorem turn_on {r : VerifiedChunkReader} (same : SameChunks t r) (cap : Nat) :
    (r.on t).turn P cap = (r.turn P cap).map (on t) := by
  unfold turn
  rw [load_chunk_sync_on same,show (r.on t).state = r.state from rfl]
  cases r.state with
  | Done => rfl
  | NeedLoad =>
    dsimp only
    rw [show (r.on t).current_chunk = r.current_chunk from rfl,show (r.on t).end_chunk = r.end_chunk from rfl,
      show (r.on t).remaining = r.remaining from rfl]
    split
    · rfl
    · cases r.load_chunk_sync P <;> rfl
  | Serving =>
    dsimp only
    rw [show (r.on t).buf = r.buf from rfl,show (r.on t).buf_pos = r.buf_pos from rfl]
    split <;> rfl

theorem turn_place {r r' : VerifiedChunkReader} {cap : Nat}
    (ran : r.turn P cap = .again r' ∨ ∃ piece, r.turn P cap = .ready (.ok (piece,r'))) :
    r'.disk = r.disk ∧ r'.chunks_dir = r.chunks_dir := by
  unfold turn at ran
  cases state : r.state with
  | Done =>
    simp only [state,reduceCtorEq,Turn.ready.injEq,Except.ok.injEq,Prod.mk.injEq,false_or] at ran
    obtain ⟨_,_,rfl⟩ := ran
    exact ⟨rfl,rfl⟩
  | NeedLoad =>
    simp only [state] at ran
    split at ran
    · simp only [reduceCtorEq,Turn.ready.injEq,Except.ok.injEq,Prod.mk.injEq,false_or] at ran
      obtain ⟨_,_,rfl⟩ := ran
      exact ⟨rfl,rfl⟩
    · cases loaded : r.load_chunk_sync P with
      | ok next =>
        simp only [loaded,Turn.again.injEq,reduceCtorEq,exists_false,or_false] at ran
        exact ran ▸ load_chunk_sync_place loaded
      | error e => simp [loaded] at ran
  | Serving =>
    simp only [state] at ran
    split at ran
    · simp only [reduceCtorEq,Turn.again.injEq,exists_false,or_false] at ran
      rw [← ran]
      exact ⟨rfl,rfl⟩
    · simp only [reduceCtorEq,Turn.ready.injEq,Except.ok.injEq,Prod.mk.injEq,false_or] at ran
      obtain ⟨_,_,rfl⟩ := ran
      exact ⟨rfl,rfl⟩

theorem carries (P : Primitives) (t : Disk) : Carries (poll_read P) (poll_read P) (SameChunks t) (on t) := by
  refine spin_carries (fun _ => rfl) (fun r cap same => turn_on same cap) ?_ ?_
  · exact fun r cap r' same ran => same.moved (turn_place (.inl ran))
  · exact fun r cap piece r' same ran => same.moved (turn_place (.inr ⟨piece,ran⟩))

end VerifiedChunkReader

namespace FrameDecryptor
variable {P : Primitives} {σ τ : Type} {poll : Poll σ IoError UInt8} {poll' : Poll τ IoError UInt8} {f : σ → τ}
  {I : σ → Prop}

/-- The decryptor over the carried source. -/
def carried (f : σ → τ) (d : FrameDecryptor σ) : FrameDecryptor τ where
  inner := f d.inner
  key := d.key
  aad_builder := d.aad_builder
  plaintext_size := d.plaintext_size
  chunk_size := d.chunk_size
  chunk_index := d.chunk_index
  skip_bytes := d.skip_bytes
  remaining := d.remaining
  frame_buf := d.frame_buf
  frame_target := d.frame_target
  out_buf := d.out_buf
  out_pos := d.out_pos
  done := d.done

theorem update_frame_target_carried (d : FrameDecryptor σ) : (d.carried f).update_frame_target = d.update_frame_target.carried f := by
  unfold update_frame_target
  rw [show (d.carried f).chunk_index = d.chunk_index from rfl,show (d.carried f).chunk_size = d.chunk_size from rfl,
    show (d.carried f).plaintext_size = d.plaintext_size from rfl]
  dsimp only
  split <;> rfl

theorem for_range_internal_carried (inner : σ) (key : Bytes) (plaintext_size chunk_size chunk length skip_bytes : Nat)
    (aad_builder : Nat → Bytes) :
    for_range_internal (f inner) key plaintext_size chunk_size chunk length skip_bytes aad_builder =
      (for_range_internal inner key plaintext_size chunk_size chunk length skip_bytes aad_builder).carried f := by
  unfold for_range_internal
  dsimp only
  split
  · rfl
  · rw [← update_frame_target_carried]
    rfl

theorem for_range_internal_inner (inner : σ) (key : Bytes) (plaintext_size chunk_size chunk length skip_bytes : Nat)
    (aad_builder : Nat → Bytes) :
    (for_range_internal inner key plaintext_size chunk_size chunk length skip_bytes aad_builder).inner = inner := by
  unfold for_range_internal
  dsimp only
  split
  · rfl
  · unfold update_frame_target
    dsimp only
    split <;> rfl

theorem new_carried (inner : σ) (key : Bytes) (plaintext_size chunk_size : Nat) (aad_builder : Nat → Bytes) :
    FrameDecryptor.new (f inner) key plaintext_size chunk_size aad_builder =
      (FrameDecryptor.new inner key plaintext_size chunk_size aad_builder).carried f :=
  for_range_internal_carried inner key plaintext_size chunk_size 0 plaintext_size 0 aad_builder

theorem skip_carried (d : FrameDecryptor σ) : (d.carried f).skip = d.skip.carried f := by
  unfold skip
  rw [show (d.carried f).out_pos = d.out_pos from rfl,show (d.carried f).out_buf = d.out_buf from rfl,
    show (d.carried f).skip_bytes = d.skip_bytes from rfl]
  dsimp only
  split <;> rfl

theorem open_frame_carried (d : FrameDecryptor σ) : (d.carried f).open_frame P = (d.open_frame P).map (carried f) := by
  unfold open_frame
  rw [show (d.carried f).frame_buf = d.frame_buf from rfl,show (d.carried f).chunk_index = d.chunk_index from rfl,
    show (d.carried f).key = d.key from rfl,show (d.carried f).aad_builder = d.aad_builder from rfl]
  dsimp only
  split
  · rfl
  · split
    · rfl
    · cases P.decrypt d.key (d.frame_buf.take 12) (d.aad_builder d.chunk_index) (d.frame_buf.drop 12) with
      | none => rfl
      | some plaintext =>
        dsimp only [Except.map]
        rw [← update_frame_target_carried]
        rfl

theorem fill_frame_carried (carries : Carries poll poll' I f) {d : FrameDecryptor σ} (inner : I d.inner) :
    (d.carried f).fill_frame poll' = (d.fill_frame poll).map (carried f) := by
  unfold fill_frame
  rw [show (d.carried f).frame_target = d.frame_target from rfl,show (d.carried f).frame_buf = d.frame_buf from rfl,
    show (d.carried f).inner = f d.inner from rfl,carries.same _ _ inner]
  cases poll d.inner (d.frame_target - d.frame_buf.length) with
  | error e => rfl
  | ok answer =>
    obtain ⟨piece,next⟩ := answer
    cases piece with
    | nil =>
      dsimp only [Except.map]
      split <;> rfl
    | cons b rest => rfl

theorem skip_inner (d : FrameDecryptor σ) : d.skip.inner = d.inner := by
  unfold skip
  split <;> rfl

theorem turn_carried (carries : Carries poll poll' I f) {d : FrameDecryptor σ} (inner : I d.inner) (cap : Nat) :
    (d.carried f).turn P poll' cap = (d.turn P poll cap).map (carried f) := by
  have started : I d.skip.inner := by rwa [skip_inner]
  unfold turn
  rw [skip_carried]
  dsimp only
  rw [show (d.skip.carried f).available cap = d.skip.available cap from rfl,show (d.skip.carried f).done = d.skip.done from rfl,
    show (d.skip.carried f).remaining = d.skip.remaining from rfl,
    show (d.skip.carried f).frame_target = d.skip.frame_target from rfl,
    show (d.skip.carried f).frame_buf = d.skip.frame_buf from rfl,open_frame_carried,fill_frame_carried carries started]
  split
  · rfl
  · split
    · rfl
    · split
      · cases d.skip.open_frame P <;> rfl
      · rfl

/-- Opening a frame leaves the inner source alone. -/
theorem open_frame_inner {d d' : FrameDecryptor σ} (opened : d.open_frame P = .ok d') : d'.inner = d.inner := by
  unfold open_frame at opened
  dsimp only at opened
  split at opened
  next => cases opened
  next =>
    split at opened
    next => cases opened
    next =>
      split at opened
      next =>
        have same := Except.ok.inj opened
        rw [← same,update_frame_target]
        dsimp only
        split <;> rfl
      next => cases opened

theorem turn_inner (carries : Carries poll poll' I f) {d d' : FrameDecryptor σ} {cap : Nat} (inner : I d.inner)
    (ran : d.turn P poll cap = .again d' ∨ ∃ piece, d.turn P poll cap = .ready (.ok (piece,d'))) : I d'.inner := by
  have started : I d.skip.inner := by rwa [skip_inner]
  unfold turn at ran
  dsimp only at ran
  split at ran
  next =>
    simp only [reduceCtorEq,Turn.ready.injEq,Except.ok.injEq,Prod.mk.injEq,false_or] at ran
    obtain ⟨_,_,rfl⟩ := ran
    exact started
  next =>
    split at ran
    next =>
      simp only [reduceCtorEq,Turn.ready.injEq,Except.ok.injEq,Prod.mk.injEq,false_or] at ran
      obtain ⟨_,_,rfl⟩ := ran
      exact started
    next =>
      split at ran
      next =>
        cases opened : d.skip.open_frame P with
        | error e => simp [opened] at ran
        | ok next =>
          simp only [opened,Turn.again.injEq,reduceCtorEq,exists_false,or_false] at ran
          rw [← ran,open_frame_inner opened]
          exact started
      next =>
        unfold fill_frame at ran
        cases polled : poll d.skip.inner (d.skip.frame_target - d.skip.frame_buf.length) with
        | error e => simp [polled] at ran
        | ok answer =>
          obtain ⟨piece,next⟩ := answer
          have kept : I next := carries.kept _ _ _ _ started polled
          rw [polled] at ran
          cases piece with
          | nil =>
            dsimp only at ran
            split at ran
            next =>
              simp only [reduceCtorEq,Turn.ready.injEq,Except.ok.injEq,Prod.mk.injEq,false_or] at ran
              obtain ⟨_,_,rfl⟩ := ran
              exact kept
            next => simp at ran
          | cons b rest =>
            simp only [Turn.again.injEq,reduceCtorEq,exists_false,or_false] at ran
            rw [← ran]
            exact kept

/-- A decryptor over a carried source is carried. -/
theorem carries (P : Primitives) (inner : Carries poll poll' I f) :
    Carries (poll_read P poll) (poll_read P poll') (fun d => I d.inner) (carried f) := by
  refine spin_carries (fun _ => rfl) (fun d cap given => turn_carried inner given cap) ?_ ?_
  · exact fun d cap d' given ran => turn_inner inner given (.inl ran)
  · exact fun d cap piece d' given ran => turn_inner inner given (.inr ⟨piece,ran⟩)

theorem preflight_carried (inner : Carries poll poll' I f) {d : FrameDecryptor σ} (given : I d.inner) :
    (d.carried f).preflight P poll' = (d.preflight P poll).map (carried f) := by
  unfold preflight
  rw [show (d.carried f).plaintext_size = d.plaintext_size from rfl,show (d.carried f).remaining = d.remaining from rfl,
    (carries P inner).same d 1 given]
  split
  · rfl
  · cases poll_read P poll d 1 with
    | error e => rfl
    | ok answer =>
      obtain ⟨piece,next⟩ := answer
      cases piece <;> rfl

theorem preflight_inner (inner : Carries poll poll' I f) {d d' : FrameDecryptor σ} (given : I d.inner)
    (checked : d.preflight P poll = .ok d') : I d'.inner := by
  unfold preflight at checked
  split at checked
  next => cases checked; exact given
  next =>
    cases polled : poll_read P poll d 1 with
    | error e => rw [polled] at checked; cases checked
    | ok answer =>
      obtain ⟨piece,next⟩ := answer
      have kept := (carries P inner).kept d 1 piece next given polled
      rw [polled] at checked
      cases piece with
      | nil => cases checked
      | cons b rest => cases checked; exact kept

end FrameDecryptor

theorem VerifiedChunkReader.preflight_on {P : Primitives} {t : Disk} {r : VerifiedChunkReader} (same : SameChunks t r) :
    (r.on t).preflight P = (r.preflight P).map (on t) := by
  unfold preflight
  rw [show (r.on t).state = r.state from rfl,load_chunk_sync_on same]
  split <;> rfl

theorem VerifiedChunkReader.preflight_place {P : Primitives} {r r' : VerifiedChunkReader}
    (checked : r.preflight P = .ok r') : r'.disk = r.disk ∧ r'.chunks_dir = r.chunks_dir := by
  unfold preflight at checked
  split at checked
  next => cases checked; exact ⟨rfl,rfl⟩
  next => exact load_chunk_sync_place checked

/-! ### Two worlds -/

/-- The outcomes agree: the same error, or values that are related. -/
def SameOutcome {ε α β : Type} (R : α → β → Prop) : Except ε α → Except ε β → Prop
  | .ok a,.ok b => R a b
  | .error e,.error e' => e = e'
  | _,_ => False

theorem SameOutcome.refl {ε α : Type} (r : Except ε α) : SameOutcome (· = ·) r r := by
  cases r <;> exact rfl

/-- Two programs that only look at their worlds, and see the same. -/
structure Alike {ε α β : Type} (w w' : World) (R : α → β → Prop) (m : Prog World ε α) (m' : Prog World ε β) : Prop where
  outcome : SameOutcome R (m w).1 (m' w').1
  state : (m w).2 = w
  state' : (m' w').2 = w'

namespace Alike
variable {ε ε' α α' β β' : Type} {w w' : World} {R : α → α' → Prop}

theorem pure {a : α} {a' : α'} (related : R a a') :
    Alike w w' R (pure a : Prog World ε α) (pure a' : Prog World ε α') := ⟨related,rfl,rfl⟩

theorem fail (e : ε) : Alike w w' R (Prog.fail e) (Prog.fail e) := ⟨rfl,rfl,rfl⟩

theorem lift {r : Except ε α} {r' : Except ε α'} (outcomes : SameOutcome R r r') :
    Alike w w' R (Prog.lift r) (Prog.lift r') := ⟨outcomes,rfl,rfl⟩

theorem lift_same (r : Except ε α) : Alike w w' (· = ·) (Prog.lift r) (Prog.lift r) :=
  lift (SameOutcome.refl r)

theorem bind {S : β → β' → Prop} {m : Prog World ε α} {m' : Prog World ε α'} {f : α → Prog World ε β}
    {f' : α' → Prog World ε β'} (first : Alike w w' R m m')
    (second : ∀ a a', R a a' → m w = (.ok a,w) → Alike w w' S (f a) (f' a')) : Alike w w' S (m >>= f) (m' >>= f') := by
  obtain ⟨outcome,state,state'⟩ := first
  rcases left : m w with ⟨e | a,w₁⟩ <;> rcases right : m' w' with ⟨e' | a',w₂⟩ <;> rw [left,right] at outcome <;>
    rw [left] at state <;> rw [right] at state' <;> dsimp only at state state' <;> subst state <;> subst state'
  · obtain rfl : e = e' := outcome
    exact ⟨by rw [Prog.bind_of_error left,Prog.bind_of_error right]; rfl,by rw [Prog.bind_of_error left],
      by rw [Prog.bind_of_error right]⟩
  · exact outcome.elim
  · exact outcome.elim
  · obtain ⟨rest,kept,kept'⟩ := second a a' outcome left
    exact ⟨by rwa [Prog.bind_of_ok left,Prog.bind_of_ok right],by rwa [Prog.bind_of_ok left],by rwa [Prog.bind_of_ok right]⟩

theorem mapError {m : Prog World ε α} {m' : Prog World ε α'} (f : ε → ε') (inner : Alike w w' R m m') :
    Alike w w' R (Prog.mapError f m) (Prog.mapError f m') := by
  obtain ⟨outcome,state,state'⟩ := inner
  refine ⟨?_,state,state'⟩
  rw [Prog.mapError_apply,Prog.mapError_apply]
  revert outcome
  cases (m w).1 <;> cases (m' w').1 <;> intro outcome
  · exact congrArg f outcome
  · exact outcome
  · exact outcome
  · exact outcome

/-- What is read depends on what `stat` finds. -/
theorem read {p : OsPath} (same : Fs.stat w'.tree p = Fs.stat w.tree p) :
    Alike w w' (· = ·) (Fs.read p) (Fs.read p) := by
  refine ⟨?_,rfl,rfl⟩
  simp only [Fs.read,Fs.observe,Fs.readAt,same]
  exact SameOutcome.refl _

theorem is_dir {p : OsPath} (same : Fs.stat w'.tree p = Fs.stat w.tree p) :
    Alike w w' (· = ·) (FilesystemStorage.is_chunked_path p) (FilesystemStorage.is_chunked_path p) := by
  refine ⟨?_,rfl,rfl⟩
  have looked : Fs.isDirAt w'.tree p = Fs.isDirAt w.tree p := by rw [Fs.isDirAt,Fs.isDirAt,same]
  change SameOutcome _ (Except.ok (Fs.isDirAt w.tree p)) (Except.ok (Fs.isDirAt w'.tree p))
  exact looked.symm

end Alike

/-- Whoever reads from the one reader gets what comes out of the other. -/
def SameRead (P : Primitives) (reader reader' : ObjectReader) : Prop :=
  ∀ caps turns turn, read_to_end (ObjectReader.poll_read P) caps turns turn reader' =
    read_to_end (ObjectReader.poll_read P) caps turns turn reader

/-- Readers that give the same, with the same metadata. -/
def SameObject (P : Primitives) (got got' : ObjectReader × ObjectMeta) : Prop :=
  SameRead P got.1 got'.1 ∧ got'.2 = got.2

/-- `stat` finds the same at the places of the key; at that of the payload, if there is a sidecar. -/
structure SameFiles (fs : FilesystemStorage) (bucket key : String) (t t' : Disk) : Prop where
  side : Fs.stat t' (meta_path fs.buckets_dir bucket key) = Fs.stat t (meta_path fs.buckets_dir bucket key)
  payload : ∀ c, Fs.readAt t (meta_path fs.buckets_dir bucket key) = .ok c →
    Fs.stat t' (object_path fs.buckets_dir bucket key) = Fs.stat t (object_path fs.buckets_dir bucket key)
  chunks : Fs.stat t' (ec_dir fs.buckets_dir bucket key) = Fs.stat t (ec_dir fs.buckets_dir bucket key)
  manifest : Fs.stat t' (manifest_path fs.buckets_dir bucket key) = Fs.stat t (manifest_path fs.buckets_dir bucket key)
  chunk : ∀ i, Fs.stat t' (join (ec_dir fs.buckets_dir bucket key) (chunk_name i)) =
    Fs.stat t (join (ec_dir fs.buckets_dir bucket key) (chunk_name i))

section Answers
variable {P : Primitives} {fs : FilesystemStorage} {bucket key : String} {w w' : World}

theorem read_object_meta_alike (same : SameFiles fs bucket key w.tree w'.tree) :
    Alike w w' (· = ·) (fs.read_object_meta bucket key) (fs.read_object_meta bucket key) := by
  refine Alike.bind (Alike.mapError _ (Alike.read same.side)) ?_
  rintro data _ rfl _
  exact Alike.lift_same _

theorem head_object_alike (same : SameFiles fs bucket key w.tree w'.tree) :
    Alike w w' (· = ·) (fs.head_object bucket key) (fs.head_object bucket key) := by
  refine Alike.bind (Alike.lift_same _) fun _ _ _ _ => Alike.bind (Alike.lift_same _) fun _ _ _ _ => ?_
  exact read_object_meta_alike same

theorem open_file_alike {p : OsPath} (same : Fs.stat w'.tree p = Fs.stat w.tree p) (missing : StorageError)
    (offset : Nat) : Alike w w' (· = ·) (FilesystemStorage.open_file P p missing offset)
      (FilesystemStorage.open_file P p missing offset) := by
  refine Alike.bind (Alike.mapError _ (Alike.read same)) ?_
  rintro data _ rfl _
  exact Alike.pure rfl

theorem sameRead_refl (reader : ObjectReader) : SameRead P reader reader := fun _ _ _ => rfl

theorem sameRead_chunks {r : VerifiedChunkReader} {t : Disk} (same : r.SameChunks t) :
    SameRead P (.chunks r) (.chunks (r.on t)) := by
  intro caps turns turn
  refine (VerifiedChunkReader.carries P t).wrap ObjectReader.chunks ObjectReader.chunks ?_ ?_ caps turns turn same
  · intro s cap
    rw [ObjectReader.poll_read]
    cases s.poll_read P cap <;> rfl
  · intro s cap
    rw [ObjectReader.poll_read]
    cases s.poll_read P cap <;> rfl

theorem sameRead_decrypted {d : FrameDecryptor VerifiedChunkReader} {t : Disk} (same : d.inner.SameChunks t) :
    SameRead P (.decrypted_chunks d) (.decrypted_chunks (d.carried (VerifiedChunkReader.on t))) := by
  intro caps turns turn
  refine (FrameDecryptor.carries P (VerifiedChunkReader.carries P t)).wrap ObjectReader.decrypted_chunks
    ObjectReader.decrypted_chunks ?_ ?_ caps turns turn same
  · intro s cap
    rw [ObjectReader.poll_read]
    cases FrameDecryptor.poll_read P (VerifiedChunkReader.poll_read P) s cap <;> rfl
  · intro s cap
    rw [ObjectReader.poll_read]
    cases FrameDecryptor.poll_read P (VerifiedChunkReader.poll_read P) s cap <;> rfl

theorem read_manifest_alike {p : OsPath} (same : Fs.stat w'.tree p = Fs.stat w.tree p) (missing : StorageError) :
    Alike w w' (· = ·) (FilesystemStorage.read_manifest p missing) (FilesystemStorage.read_manifest p missing) := by
  refine Alike.bind (Alike.mapError _ (Alike.read same)) ?_
  rintro data _ rfl _
  exact Alike.lift_same _

section Chunked
variable {dir : OsPath}

/-- The reader of the second world is that of the first, on the other disk. -/
theorem preflight_chunk_reader_on {r : VerifiedChunkReader} (same : r.SameChunks w'.tree) :
    SameOutcome (fun s s' => s' = s.on w'.tree ∧ s.SameChunks w'.tree) (FilesystemStorage.preflight_chunk_reader P r)
      (FilesystemStorage.preflight_chunk_reader P (r.on w'.tree)) := by
  have moved := VerifiedChunkReader.preflight_on (P := P) same
  unfold FilesystemStorage.preflight_chunk_reader
  rw [moved]
  cases ready : r.preflight P with
  | error e => exact rfl
  | ok s => exact ⟨rfl,same.moved (VerifiedChunkReader.preflight_place ready)⟩

theorem sameChunks_of_stat (chunk : ∀ i, Fs.stat w'.tree (join dir (chunk_name i)) = Fs.stat w.tree (join dir (chunk_name i)))
    {r : VerifiedChunkReader} (place : r.disk = w.tree ∧ r.chunks_dir = dir) : r.SameChunks w'.tree := by
  intro i
  rw [place.1,place.2,Fs.readAt,Fs.readAt,chunk i]

theorem open_chunked_alike {manifest_file : OsPath}
    (manifest : Fs.stat w'.tree manifest_file = Fs.stat w.tree manifest_file)
    (chunk : ∀ i, Fs.stat w'.tree (join dir (chunk_name i)) = Fs.stat w.tree (join dir (chunk_name i)))
    (missing : StorageError) (record : ObjectMeta) (customer_key : Option Bytes) : Alike w w' (SameRead P)
      (fs.open_chunked P bucket key dir manifest_file missing record customer_key)
      (fs.open_chunked P bucket key dir manifest_file missing record customer_key) := by
  refine Alike.bind (read_manifest_alike manifest missing) ?_
  rintro manifest _ rfl _
  have checked := preflight_chunk_reader_on (P := P) (sameChunks_of_stat chunk
    (r := .new w.tree dir manifest) ⟨rfl,rfl⟩)
  have asks : Alike (ε := StorageError) w w' (fun d d' => d = w.tree ∧ d' = w'.tree) (Prog.ask World.tree)
      (Prog.ask World.tree) := ⟨⟨rfl,rfl⟩,rfl,rfl⟩
  refine Alike.bind asks ?_
  rintro _ _ ⟨rfl,rfl⟩ _
  cases record.encryption with
  | none =>
    refine Alike.bind (Alike.lift checked) ?_
    rintro r _ ⟨rfl,kept⟩ _
    exact Alike.pure (sameRead_chunks kept)
  | some enc =>
    refine Alike.bind (Alike.lift_same _) ?_
    rintro dek _ rfl _
    refine Alike.bind (Alike.lift checked) ?_
    rintro r _ ⟨rfl,kept⟩ _
    have carried := VerifiedChunkReader.carries P w'.tree
    have start : VerifiedChunkReader.SameChunks w'.tree (FrameDecryptor.new r dek record.size enc.chunk_size
        (build_frame_aad P bucket key record.version_id)).inner := by
      rw [FrameDecryptor.new,FrameDecryptor.for_range_internal_inner]
      exact kept
    have unsealed : SameOutcome (fun d d' => d' = d.carried (VerifiedChunkReader.on w'.tree) ∧ d.inner.SameChunks w'.tree)
        (FilesystemStorage.preflight_frame_decryptor P (VerifiedChunkReader.poll_read P) (.new r dek record.size
          enc.chunk_size (build_frame_aad P bucket key record.version_id)))
        (FilesystemStorage.preflight_frame_decryptor P (VerifiedChunkReader.poll_read P) (.new (r.on w'.tree) dek
          record.size enc.chunk_size (build_frame_aad P bucket key record.version_id))) := by
      unfold FilesystemStorage.preflight_frame_decryptor
      rw [FrameDecryptor.new_carried,FrameDecryptor.preflight_carried carried start]
      cases ready : FrameDecryptor.preflight P (VerifiedChunkReader.poll_read P) (.new r dek record.size
        enc.chunk_size (build_frame_aad P bucket key record.version_id)) with
      | error e => exact rfl
      | ok d => exact ⟨rfl,FrameDecryptor.preflight_inner carried start ready⟩
    refine Alike.bind (Alike.lift unsealed) ?_
    rintro d _ ⟨rfl,kept'⟩ _
    exact Alike.pure (sameRead_decrypted kept')

end Chunked

theorem open_encrypted_file_alike {p : OsPath} (same : Fs.stat w'.tree p = Fs.stat w.tree p) (missing : StorageError)
    (record : ObjectMeta) (enc : EncryptionMeta) (customer_key : Option Bytes) : Alike w w' (· = ·)
      (fs.open_encrypted_file P bucket key p missing record enc customer_key)
      (fs.open_encrypted_file P bucket key p missing record enc customer_key) := by
  refine Alike.bind (Alike.lift_same _) ?_
  rintro dek _ rfl _
  refine Alike.bind (open_file_alike same _ _) ?_
  rintro file _ rfl _
  refine Alike.bind (Alike.lift_same _) ?_
  rintro d _ rfl _
  exact Alike.pure rfl

/-- What `get_object` answers is determined by the files of the key. -/
theorem get_object_alike (same : SameFiles fs bucket key w.tree w'.tree) (customer_key : Option Bytes) :
    Alike w w' (SameObject P) (fs.get_object P bucket key customer_key) (fs.get_object P bucket key customer_key) := by
  refine Alike.bind (Alike.lift_same _) fun _ _ _ _ => Alike.bind (Alike.lift_same _) fun _ _ _ _ => ?_
  refine Alike.bind (read_object_meta_alike same) ?_
  rintro record _ rfl shown
  have payload : Fs.stat w'.tree (object_path fs.buckets_dir bucket key) =
      Fs.stat w.tree (object_path fs.buckets_dir bucket key) := by
    simp only [FilesystemStorage.read_object_meta,Prog.bind_ok_iff,or_not_found,Prog.mapError_ok_iff] at shown
    obtain ⟨content,_,read,_⟩ := shown
    rw [Fs.read,Fs.observe_ok_iff] at read
    exact same.payload content read.1
  refine Alike.bind (Alike.lift_same _) fun _ _ _ _ => Alike.bind (Alike.is_dir same.chunks) ?_
  rintro chunked _ rfl _
  cases chunked with
  | true =>
    refine Alike.bind (open_chunked_alike same.manifest same.chunk _ record customer_key) ?_
    intro reader reader' reads _
    exact Alike.pure ⟨reads,rfl⟩
  | false =>
    rw [if_neg (by simp)]
    dsimp only
    cases record.encryption with
    | some enc =>
      refine Alike.bind (open_encrypted_file_alike payload _ record enc customer_key) ?_
      rintro reader _ rfl _
      exact Alike.pure ⟨sameRead_refl reader,rfl⟩
    | none =>
      refine Alike.bind (open_file_alike payload _ _) ?_
      rintro file _ rfl _
      split
      · exact Alike.pure ⟨sameRead_refl _,rfl⟩
      · exact Alike.pure ⟨sameRead_refl _,rfl⟩

end Answers
end Maxio
