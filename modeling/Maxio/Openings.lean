import Maxio.MetaUpdates
import Maxio.SameFiles

/-!
What the reading calls open once they have read the sidecar. Two worlds whose payloads look the same open readers that give
the same, and a change of the tags does not matter.
-/

set_option linter.unusedSimpArgs false

namespace Maxio
open Reading (read_to_end)

section
variable (P : Primitives) (fs : FilesystemStorage)

namespace FilesystemStorage

/-- The second half of `get_object`. -/
def open_object (bucket key : String) (record : ObjectMeta) (customer_key : Option Bytes) : Action ObjectReader := do
  Prog.lift (reject_sse_c_on_plaintext record customer_key.isSome)
  let ec := ec_dir fs.buckets_dir bucket key
  if ← is_chunked_path ec then
    fs.open_chunked P bucket key ec (manifest_path fs.buckets_dir bucket key) (.NotFound key) record customer_key
  else
    let obj_path := object_path fs.buckets_dir bucket key
    match record.encryption with
    | some enc => fs.open_encrypted_file P bucket key obj_path (.NotFound key) record enc customer_key
    | none => do
      let file ← open_file P obj_path (.NotFound key) 0
      if record.size ≤ SMALL_OBJECT_THRESHOLD then pure (.in_memory file.data) else pure (.file file)

/-- The second half of `get_object_range`. -/
def open_range (bucket key : String) (record : ObjectMeta) (offset length : Nat) (customer_key : Option Bytes) :
    Action ObjectReader := do
  Prog.lift (reject_sse_c_on_plaintext record customer_key.isSome)
  let aad := build_frame_aad P bucket key record.version_id
  let ec := ec_dir fs.buckets_dir bucket key
  if ← is_chunked_path ec then do
    let manifest ← read_manifest (manifest_path fs.buckets_dir bucket key) (.NotFound key)
    let disk ← Prog.ask World.tree
    match record.encryption with
    | some enc => do
      let dek ← Prog.lift (fs.verified_dek P record enc customer_key)
      let ct_offset := FrameDecryptor.ciphertext_offset enc.chunk_size offset
      let ct_length := manifest.total_size - ct_offset
      let ct_reader ← Prog.lift (preflight_chunk_reader P (.with_range disk ec manifest ct_offset ct_length))
      pure (.decrypted_chunks (.for_range ct_reader dek record.size enc.chunk_size offset length aad))
    | none => do
      let reader ← Prog.lift (preflight_chunk_reader P (.with_range disk ec manifest offset length))
      pure (.chunks reader)
  else
    let obj_path := object_path fs.buckets_dir bucket key
    match record.encryption with
    | some enc => do
      let dek ← Prog.lift (fs.verified_dek P record enc customer_key)
      let file ← open_file P obj_path (.NotFound key) (FrameDecryptor.ciphertext_offset enc.chunk_size offset)
      pure (.decrypted_file (.for_range file dek record.size enc.chunk_size offset length aad))
    | none => do
      let file ← open_file P obj_path (.NotFound key) offset
      if length ≤ SMALL_OBJECT_THRESHOLD then do
        let data ← Prog.lift (read_exact file length)
        pure (.in_memory data)
      else pure (.limited { inner := file, limit := length })

/-- The second half of `get_object_version`, for an id other than `null`. -/
def open_version (bucket key version_id : String) (record : ObjectMeta) (customer_key : Option Bytes) :
    Action ObjectReader :=
  if record.is_delete_marker then Prog.fail (.NotFound key)
  else do
    Prog.lift (reject_sse_c_on_plaintext record customer_key.isSome)
    let missing := StorageError.VersionNotFound version_id
    let ver_ec := version_ec_dir fs.buckets_dir bucket key version_id
    if ← io (Fs.is_dir ver_ec) then
      fs.open_chunked P bucket key ver_ec (join ver_ec "manifest.json") missing record customer_key
    else
      let path := version_data_path fs.buckets_dir bucket key version_id
      match record.encryption with
      | some enc => fs.open_encrypted_file P bucket key path missing record enc customer_key
      | none => do
        let file ← open_file P path missing 0
        pure (.file file)

end FilesystemStorage

/-- A program that pairs what it opens with the record. -/
theorem Prog.bind_pair {σ ε α β γ : Type} (m : Prog σ ε α) (f : α → Prog σ ε β) (record : γ) :
    ((m >>= f) >>= fun b => pure (b,record)) = m >>= fun a => f a >>= fun b => pure (b,record) := by
  funext s
  rw [Prog.bind_apply,Prog.bind_apply,Prog.bind_apply]
  rcases m s with ⟨e | a,s'⟩
  · rfl
  · rfl

theorem Prog.ite_pair {σ ε β γ : Type} {c : Prop} [Decidable c] (m m' : Prog σ ε β) (record : γ) :
    ((if c then m else m') >>= fun b => pure (b,record)) =
      if c then m >>= fun b => pure (b,record) else m' >>= fun b => pure (b,record) := by
  split
  · rfl
  · rfl

namespace FilesystemStorage
variable {P fs} {bucket key version_id : String}

theorem get_object_eq (customer_key : Option Bytes) : fs.get_object P bucket key customer_key = (do
    Prog.lift (validate_bucket_name bucket)
    Prog.lift (validate_key key)
    let record ← fs.read_object_meta bucket key
    let reader ← fs.open_object P bucket key record customer_key
    pure (reader,record)) := by
  unfold get_object
  refine congrArg _ (funext fun _ => congrArg _ (funext fun _ => congrArg _ (funext fun record => ?_)))
  unfold open_object
  simp only [Prog.bind_pair,Prog.ite_pair]
  refine congrArg _ (funext fun _ => congrArg _ (funext fun chunked => ite_congr rfl (fun _ => rfl) fun _ => ?_))
  cases record.encryption with
  | some enc => rfl
  | none =>
    simp only [Prog.bind_pair,Prog.ite_pair]
    rfl

theorem get_object_range_eq (offset length : Nat) (customer_key : Option Bytes) :
    fs.get_object_range P bucket key offset length customer_key = (do
      Prog.lift (validate_bucket_name bucket)
      Prog.lift (validate_key key)
      let record ← fs.read_object_meta bucket key
      let reader ← fs.open_range P bucket key record offset length customer_key
      pure (reader,record)) := by
  unfold get_object_range
  refine congrArg _ (funext fun _ => congrArg _ (funext fun _ => congrArg _ (funext fun record => ?_)))
  unfold open_range
  simp only [Prog.bind_pair,Prog.ite_pair]
  refine congrArg _ (funext fun _ => congrArg _ (funext fun chunked => ite_congr rfl (fun _ => ?_) fun _ => ?_))
  · refine congrArg _ (funext fun manifest => congrArg _ (funext fun disk => ?_))
    cases record.encryption with
    | some enc =>
      simp only [Prog.bind_pair]
      rfl
    | none =>
      simp only [Prog.bind_pair]
      rfl
  · cases record.encryption with
    | some enc =>
      simp only [Prog.bind_pair]
      rfl
    | none =>
      simp only [Prog.bind_pair,Prog.ite_pair]
      rfl

theorem get_object_version_eq (customer_key : Option Bytes) : fs.get_object_version P bucket key version_id customer_key =
    (do
      Prog.lift (validate_bucket_name bucket)
      Prog.lift (validate_key key)
      if version_id = "null" then fs.get_object P bucket key customer_key
      else
        let record ← fs.read_version_meta bucket key version_id
        let reader ← fs.open_version P bucket key version_id record customer_key
        pure (reader,record)) := by
  unfold get_object_version
  refine congrArg _ (funext fun _ => congrArg _ (funext fun _ => ite_congr rfl (fun _ => rfl) fun _ => ?_))
  refine congrArg _ (funext fun record => ?_)
  unfold open_version
  rw [Prog.ite_pair]
  refine ite_congr rfl (fun _ => rfl) fun _ => ?_
  simp only [Prog.bind_pair,Prog.ite_pair]
  refine congrArg _ (funext fun _ => congrArg _ (funext fun chunked => ite_congr rfl (fun _ => rfl) fun _ => ?_))
  cases record.encryption with
  | some enc => rfl
  | none =>
    simp only [Prog.bind_pair]
    rfl

end FilesystemStorage
end

/-! ### Two worlds -/

section Answers
variable {P : Primitives} {fs : FilesystemStorage} {bucket key version_id : String} {w w' : World}

/-- `stat` finds the same at the payload of the key, in whatever form it is stored. -/
structure SamePayload (fs : FilesystemStorage) (bucket key : String) (t t' : Disk) : Prop where
  payload : Fs.stat t' (object_path fs.buckets_dir bucket key) = Fs.stat t (object_path fs.buckets_dir bucket key)
  chunks : Fs.stat t' (ec_dir fs.buckets_dir bucket key) = Fs.stat t (ec_dir fs.buckets_dir bucket key)
  manifest : Fs.stat t' (manifest_path fs.buckets_dir bucket key) = Fs.stat t (manifest_path fs.buckets_dir bucket key)
  chunk : ∀ i, Fs.stat t' (join (ec_dir fs.buckets_dir bucket key) (chunk_name i)) =
    Fs.stat t (join (ec_dir fs.buckets_dir bucket key) (chunk_name i))

/-- The same for the payload of a version. -/
structure SameVersion (fs : FilesystemStorage) (bucket key version_id : String) (t t' : Disk) : Prop where
  payload : Fs.stat t' (version_data_path fs.buckets_dir bucket key version_id) =
    Fs.stat t (version_data_path fs.buckets_dir bucket key version_id)
  chunks : Fs.stat t' (version_ec_dir fs.buckets_dir bucket key version_id) =
    Fs.stat t (version_ec_dir fs.buckets_dir bucket key version_id)
  manifest : Fs.stat t' (join (version_ec_dir fs.buckets_dir bucket key version_id) "manifest.json") =
    Fs.stat t (join (version_ec_dir fs.buckets_dir bucket key version_id) "manifest.json")
  chunk : ∀ i, Fs.stat t' (join (version_ec_dir fs.buckets_dir bucket key version_id) (chunk_name i)) =
    Fs.stat t (join (version_ec_dir fs.buckets_dir bucket key version_id) (chunk_name i))

theorem Alike.mono {ε α α' : Type} {R S : α → α' → Prop} {m : Prog World ε α} {m' : Prog World ε α'}
    (alike : Alike w w' R m m') (weaker : ∀ a a', R a a' → S a a') : Alike w w' S m m' := by
  refine ⟨?_,alike.state,alike.state'⟩
  have outcome := alike.outcome
  revert outcome
  cases (m w).1 <;> cases (m' w').1 <;> intro outcome
  · exact outcome
  · exact outcome
  · exact outcome
  · exact weaker _ _ outcome

/-- The same reader gives the same. -/
theorem Alike.same_reader {m : Action ObjectReader} (alike : Alike w w' (· = ·) m m) : Alike w w' (SameRead P) m m := by
  refine alike.mono ?_
  rintro reader _ rfl
  exact sameRead_refl reader

theorem open_object_alike (same : SamePayload fs bucket key w.tree w'.tree) (record : ObjectMeta)
    (customer_key : Option Bytes) : Alike w w' (SameRead P) (fs.open_object P bucket key record customer_key)
      (fs.open_object P bucket key record customer_key) := by
  refine Alike.bind (Alike.lift_same _) fun _ _ _ _ => Alike.bind (Alike.is_dir same.chunks) ?_
  rintro chunked _ rfl _
  cases chunked with
  | true => exact open_chunked_alike same.manifest same.chunk _ record customer_key
  | false =>
    rw [if_neg (by simp)]
    dsimp only
    cases record.encryption with
    | some enc => exact (open_encrypted_file_alike same.payload _ record enc customer_key).same_reader
    | none =>
      refine Alike.bind (open_file_alike same.payload _ _) ?_
      rintro file _ rfl _
      split
      · exact Alike.pure (sameRead_refl _)
      · exact Alike.pure (sameRead_refl _)

theorem open_version_alike (same : SameVersion fs bucket key version_id w.tree w'.tree) (record : ObjectMeta)
    (customer_key : Option Bytes) : Alike w w' (SameRead P) (fs.open_version P bucket key version_id record customer_key)
      (fs.open_version P bucket key version_id record customer_key) := by
  unfold FilesystemStorage.open_version
  by_cases marker : record.is_delete_marker = true
  · rw [if_pos marker]
    exact Alike.fail _
  rw [if_neg marker]
  have looked : Alike w w' (· = ·) (io (Fs.is_dir (version_ec_dir fs.buckets_dir bucket key version_id)))
      (io (Fs.is_dir (version_ec_dir fs.buckets_dir bucket key version_id))) := by
    refine ⟨?_,rfl,rfl⟩
    have found : Fs.isDirAt w'.tree (version_ec_dir fs.buckets_dir bucket key version_id) =
        Fs.isDirAt w.tree (version_ec_dir fs.buckets_dir bucket key version_id) := by
      rw [Fs.isDirAt,Fs.isDirAt,same.chunks]
    exact found.symm
  refine Alike.bind (Alike.lift_same _) fun _ _ _ _ => Alike.bind looked ?_
  rintro chunked _ rfl _
  cases chunked with
  | true => exact open_chunked_alike same.manifest same.chunk _ record customer_key
  | false =>
    rw [if_neg (by simp)]
    dsimp only
    cases record.encryption with
    | some enc => exact (open_encrypted_file_alike same.payload _ record enc customer_key).same_reader
    | none =>
      refine Alike.bind (open_file_alike same.payload _ _) ?_
      rintro file _ rfl _
      exact Alike.pure (sameRead_refl _)

theorem open_range_alike (same : SamePayload fs bucket key w.tree w'.tree) (record : ObjectMeta) (offset length : Nat)
    (customer_key : Option Bytes) : Alike w w' (SameRead P)
      (fs.open_range P bucket key record offset length customer_key)
      (fs.open_range P bucket key record offset length customer_key) := by
  refine Alike.bind (Alike.lift_same _) fun _ _ _ _ => Alike.bind (Alike.is_dir same.chunks) ?_
  rintro chunked _ rfl _
  cases chunked with
  | true =>
    refine Alike.bind (read_manifest_alike same.manifest _) ?_
    rintro manifest _ rfl _
    have asks : Alike (ε := StorageError) w w' (fun d d' => d = w.tree ∧ d' = w'.tree) (Prog.ask World.tree)
        (Prog.ask World.tree) := ⟨⟨rfl,rfl⟩,rfl,rfl⟩
    refine Alike.bind asks ?_
    rintro _ _ ⟨rfl,rfl⟩ _
    have moved : ∀ o n, VerifiedChunkReader.with_range w'.tree (ec_dir fs.buckets_dir bucket key) manifest o n =
        (VerifiedChunkReader.with_range w.tree (ec_dir fs.buckets_dir bucket key) manifest o n).on w'.tree := by
      intro o n
      unfold VerifiedChunkReader.with_range
      split
      · rfl
      · rfl
    have checked : ∀ o n, SameOutcome (fun s s' => s' = s.on w'.tree ∧ s.SameChunks w'.tree)
        (FilesystemStorage.preflight_chunk_reader P (.with_range w.tree (ec_dir fs.buckets_dir bucket key) manifest o n))
        (FilesystemStorage.preflight_chunk_reader P (.with_range w'.tree (ec_dir fs.buckets_dir bucket key) manifest o n)) := by
      intro o n
      rw [moved]
      refine preflight_chunk_reader_on (sameChunks_of_stat same.chunk ?_)
      unfold VerifiedChunkReader.with_range
      split
      · exact ⟨rfl,rfl⟩
      · exact ⟨rfl,rfl⟩
    cases record.encryption with
    | none =>
      refine Alike.bind (Alike.lift (checked offset length)) ?_
      rintro r _ ⟨rfl,kept⟩ _
      exact Alike.pure (sameRead_chunks kept)
    | some enc =>
      refine Alike.bind (Alike.lift_same _) ?_
      rintro dek _ rfl _
      refine Alike.bind (Alike.lift (checked _ _)) ?_
      rintro r _ ⟨rfl,kept⟩ _
      refine Alike.pure ?_
      rw [FrameDecryptor.for_range,FrameDecryptor.for_range,FrameDecryptor.for_range_internal_carried]
      refine sameRead_decrypted ?_
      rw [FrameDecryptor.for_range_internal_inner]
      exact kept
  | false =>
    rw [if_neg (by simp)]
    dsimp only
    cases record.encryption with
    | some enc =>
      refine Alike.bind (Alike.lift_same _) ?_
      rintro dek _ rfl _
      refine Alike.bind (open_file_alike same.payload _ _) ?_
      rintro file _ rfl _
      exact Alike.pure (sameRead_refl _)
    | none =>
      refine Alike.bind (open_file_alike same.payload _ _) ?_
      rintro file _ rfl _
      split
      · refine Alike.bind (Alike.lift_same _) ?_
        rintro data _ rfl _
        exact Alike.pure (sameRead_refl _)
      · exact Alike.pure (sameRead_refl _)

end Answers
end Maxio
