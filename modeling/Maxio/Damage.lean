import Maxio.RoundTrip

/-!
Erasure-coded objects whose shard files were damaged: a read gives the bytes that were written or fails, and with at
most as many damaged files as there are parity shards it gives them all.
-/

set_option linter.unusedSimpArgs false

namespace Maxio
open FileTree (Node Tree)
open Reading
open FrameDecryptor (Stream)
open VerifiedChunkReader (Source chunkOf)

/-- The behaviour of the Reed-Solomon crate: parity shards are as long as the data shards, and any `k` of the `k + m`
    shards determine the rest. -/
structure Primitives.Mds (P : Primitives) : Prop where
  lengths : ∀ k m n data parity, (∀ shard ∈ data, shard.length = n) → P.rs_encode k m data = .ok parity →
    parity.length = m ∧ ∀ shard ∈ parity, shard.length = n
  recovers : ∀ k m n data parity shards, data.length = k → (∀ shard ∈ data, shard.length = n) →
    P.rs_encode k m data = .ok parity → shards.length = k + m →
    (∀ (i : Nat) (shard : Bytes), shards[i]? = some (some shard) → (data ++ parity)[i]? = some shard) → k ≤ shards.countP Option.isSome →
    P.rs_reconstruct k m shards = .ok ((data ++ parity).map some)

/-! ### Damage -/

/-- Only the first `count` shard files of a directory differ. -/
def Damaged (q : OsPath) (count : Nat) (t t' : Disk) : Prop :=
  ∀ p, (∀ i < count, p ≠ q ++ [chunk_name i]) → t'.node p = t.node p

/-- How many of them differ. -/
def damage (q : OsPath) (count : Nat) (t t' : Disk) : Nat :=
  (List.range count).countP fun i => t'.node (q ++ [chunk_name i]) ≠ t.node (q ++ [chunk_name i])

/-- No shard file holds other bytes of the same SHA-256 digest. -/
def Unforged (P : Primitives) (q : OsPath) (count : Nat) (t t' : Disk) : Prop :=
  ∀ i < count, ∀ written found, t.node (q ++ [chunk_name i]) = some (.file (.bytes written)) →
    t'.node (q ++ [chunk_name i]) = some (.file found) → P.sha256 (P.bytes found) = P.sha256 written →
    P.bytes found = written

/-! ### Shards -/

theorem length_resize (data : Bytes) (n : Nat) : (resize data n).length = n := by
  rw [resize,List.length_append,List.length_take,List.length_replicate]
  omega

theorem resize_of_length {data : Bytes} {n : Nat} (exact' : data.length = n) : resize data n = data := by
  rw [resize,List.take_of_length_le (by omega),exact',Nat.sub_self,List.replicate_zero,List.append_nil]

theorem take_resize {data : Bytes} {n : Nat} (short : data.length ≤ n) : (resize data n).take data.length = data := by
  rw [resize,List.take_of_length_le short,List.take_left]

section Shards
variable {P : Primitives} {t t' : Disk} {path dir : OsPath} {name : String} {manifest : ChunkManifest}

theorem read_shards_eq (size i count : Nat) (inside : i + count ≤ manifest.chunks.length) :
    VerifiedChunkReader.read_shards P t path manifest size i count =
      .ok (((manifest.chunks.drop i).take count).mapIdx fun j info =>
        VerifiedChunkReader.read_shard P t path size info (i + j)) := by
  induction count generalizing i with
  | zero => simp [VerifiedChunkReader.read_shards]
  | succ count ih =>
    have here : i < manifest.chunks.length := by omega
    rw [VerifiedChunkReader.read_shards,List.getElem?_eq_getElem here]
    simp only
    rw [ih (i + 1) (by omega),List.drop_eq_getElem_cons here,List.take_succ_cons,List.mapIdx_cons]
    refine congrArg (fun f => Except.ok (_ :: List.mapIdx f _)) ?_
    funext j info
    rw [Nat.add_assoc,Nat.add_comm 1 j]

theorem read_shard_some {size i : Nat} {info : ChunkInfo} {shard : Bytes} (leads : Leads path dir name)
    (read : VerifiedChunkReader.read_shard P t path size info i = some shard) :
    ∃ content, t.node (dir ++ [name] ++ [chunk_name i]) = some (.file content) ∧
      hex_encode (P.sha256 (P.bytes content)) = info.sha256 ∧ shard = resize (P.bytes content) size := by
  unfold VerifiedChunkReader.read_shard at read
  rw [Fs.readAt_leads (leads.chunk i)] at read
  split at read
  next => cases read
  next content found =>
    obtain file : t.node (dir ++ [name] ++ [chunk_name i]) = some (.file content) := by
      rw [Tree.read] at found
      split at found
      next c here => injection found with found; rw [← found]; exact here
      all_goals cases found
    dsimp only at read
    split at read
    next => cases read
    next same =>
      injection read with read
      exact ⟨content,file,not_not.mp same,read.symm⟩

theorem read_shard_of_file {size i : Nat} {info : ChunkInfo} {data : Bytes} (leads : Leads path dir name)
    (file : t.node (dir ++ [name] ++ [chunk_name i]) = some (.file (.bytes data)))
    (hash : hex_encode (P.sha256 data) = info.sha256) :
    VerifiedChunkReader.read_shard P t path size info i = some (resize data size) := by
  unfold VerifiedChunkReader.read_shard
  rw [Fs.readAt_leads (leads.chunk i),Tree.read,file]
  simp only [Primitives.bytes,hash,ne_eq,not_true_eq_false,if_false]

/-- What was written to the shard files, data chunks first. -/
def shardFiles (P : Primitives) (pieces shards : List Bytes) (manifest : ChunkManifest) : Prop :=
  ∀ (i : Nat) (bytes : Bytes), (pieces ++ shards)[i]? = some bytes →
    ∃ info, manifest.chunks[i]? = some info ∧ info.size = bytes.length ∧ info.sha256 = hex_encode (P.sha256 bytes)

theorem EcHolds.shardFiles {q : OsPath} {size m : Nat} {data : Bytes} (holds : EcHolds P t q size m data manifest)
    {shards : List Bytes} (listed : manifest.chunks = dataInfos P (dataChunks size data) ++
      parityInfos P (dataChunks size data).length shards) :
    Maxio.shardFiles P (dataChunks size data) shards manifest := by
  intro i bytes here
  by_cases early : i < (dataChunks size data).length
  · rw [List.getElem?_append_left early] at here
    exact ⟨_,holds.chunk_info here,rfl,rfl⟩
  · rw [List.getElem?_append_right (by omega)] at here
    refine ⟨chunkInfo P .Parity ((dataChunks size data).length + (i - (dataChunks size data).length)) bytes,?_,rfl,rfl⟩
    rw [listed,List.getElem?_append_right (by simp [dataInfos]; omega)]
    simp [dataInfos,parityInfos,here]

/-- The shards a reader finds. -/
def foundShards (P : Primitives) (t : Disk) (path : OsPath) (size : Nat) (manifest : ChunkManifest) :
    List (Option Bytes) :=
  manifest.chunks.mapIdx fun j info => VerifiedChunkReader.read_shard P t path size info j

section Reconstruction
variable {size m : Nat} {data : Bytes} {shards : List Bytes} (positive : 0 < size) (leads : Leads path dir name)
  (holds : EcHolds P t (dir ++ [name]) size m data manifest) (few : (dataChunks size data).length < 2 ^ 32)
  (parity : Parity P (dataChunks size data).length m size (dataChunks size data) shards)
  (listed : manifest.chunks = dataInfos P (dataChunks size data) ++ parityInfos P (dataChunks size data).length shards)
  (stored : ∀ i shard, shards[i]? = some shard →
    t.node (dir ++ [name] ++ [chunk_name ((dataChunks size data).length + i)]) = some (.file (.bytes shard)))

include listed in
theorem length_listed : manifest.chunks.length = ((dataChunks size data) ++ shards).length := by
  rw [listed]
  simp [dataInfos,parityInfos]

include holds few stored in
/-- Every shard was written to its file. -/
theorem written_shard {i : Nat} {bytes : Bytes} (here : (dataChunks size data ++ shards)[i]? = some bytes) :
    t.node (dir ++ [name] ++ [chunk_name i]) = some (.file (.bytes bytes)) := by
  by_cases early : i < (dataChunks size data).length
  · rw [List.getElem?_append_left early] at here
    exact holds.stored (by omega) i bytes here
  · rw [List.getElem?_append_right (by omega)] at here
    have file := stored _ _ here
    rwa [Nat.add_sub_cancel' (by omega)] at file

include leads holds few listed stored in
/-- A shard that is found is the one that was written, padded. -/
theorem found_right (unforged : Unforged P (dir ++ [name]) manifest.chunks.length t t') {i : Nat} {shard : Bytes}
    (found : (foundShards P t' path size manifest)[i]? = some (some shard)) :
    ((dataChunks size data ++ shards).map fun bytes => resize bytes size)[i]? = some shard := by
  rw [foundShards,List.getElem?_mapIdx,Option.map_eq_some_iff] at found
  obtain ⟨info,entry,read⟩ := found
  have inside : i < manifest.chunks.length := (List.getElem?_eq_some_iff.mp entry).1
  obtain ⟨bytes,here⟩ : ∃ bytes, (dataChunks size data ++ shards)[i]? = some bytes :=
    ⟨_,List.getElem?_eq_getElem (by rw [← length_listed listed]; exact inside)⟩
  obtain ⟨info',entry',_,hash⟩ := holds.shardFiles listed i bytes here
  rw [entry] at entry'
  cases entry'
  obtain ⟨content,file,same,rfl⟩ := read_shard_some leads read
  rw [hash] at same
  have right := unforged i inside bytes content (written_shard holds few stored here) file (hex_encode_injective same)
  rw [List.getElem?_map,here,Option.map_some,right]

include leads holds few listed stored in
/-- A shard whose file was left alone is found. -/
theorem found_intact {i : Nat} (inside : i < manifest.chunks.length)
    (intact : t'.node (dir ++ [name] ++ [chunk_name i]) = t.node (dir ++ [name] ++ [chunk_name i])) :
    ∃ shard, (foundShards P t' path size manifest)[i]? = some (some shard) := by
  obtain ⟨bytes,here⟩ : ∃ bytes, (dataChunks size data ++ shards)[i]? = some bytes :=
    ⟨_,List.getElem?_eq_getElem (by rw [← length_listed listed]; exact inside)⟩
  obtain ⟨info,entry,_,hash⟩ := holds.shardFiles listed i bytes here
  have file := intact.trans (written_shard holds few stored here)
  refine ⟨resize bytes size,?_⟩
  rw [foundShards,List.getElem?_mapIdx,entry,Option.map_some,read_shard_of_file leads file hash.symm]

include leads holds few listed stored in
/-- Every damaged file costs at most one shard. -/
theorem found_count : manifest.chunks.length ≤
    (foundShards P t' path size manifest).countP Option.isSome +
      damage (dir ++ [name]) manifest.chunks.length t t' := by
  have ranged : foundShards P t' path size manifest =
      (List.range manifest.chunks.length).map fun i => ((foundShards P t' path size manifest)[i]?).getD none := by
    apply List.ext_getElem?
    intro i
    by_cases inside : i < manifest.chunks.length
    · have within : i < (foundShards P t' path size manifest).length := by simpa [foundShards] using inside
      rw [List.getElem?_map,List.getElem?_range inside,Option.map_some,List.getElem?_eq_getElem within]
      rfl
    · rw [List.getElem?_eq_none (by simp [foundShards]; omega),List.getElem?_eq_none (by simp; omega)]
  have split := List.length_eq_countP_add_countP (l := List.range manifest.chunks.length)
    (p := fun i => decide (t'.node (dir ++ [name] ++ [chunk_name i]) ≠ t.node (dir ++ [name] ++ [chunk_name i])))
  rw [List.length_range] at split
  have found : (List.range manifest.chunks.length).countP (fun i =>
      decide ¬ decide (t'.node (dir ++ [name] ++ [chunk_name i]) ≠ t.node (dir ++ [name] ++ [chunk_name i])) = true) ≤
      (foundShards P t' path size manifest).countP Option.isSome := by
    conv_rhs => rw [ranged,List.countP_map]
    apply List.countP_mono_left
    intro i member intact
    have untouched : t'.node (dir ++ [name] ++ [chunk_name i]) = t.node (dir ++ [name] ++ [chunk_name i]) := by
      simpa using intact
    obtain ⟨shard,here⟩ := found_intact leads holds few listed stored (List.mem_range.mp member) untouched
    simp [here]
  unfold damage
  omega

include positive in
theorem length_chunk {i : Nat} {piece : Bytes} (here : (dataChunks size data)[i]? = some piece) : piece.length ≤ size := by
  unfold dataChunks at here
  split at here
  next =>
    obtain ⟨_,same⟩ := List.getElem?_eq_some_iff.mp here
    simp only [List.getElem_singleton] at same
    simp [← same]
  next =>
    rw [Chunking.getElem?_pieces positive] at here
    split at here
    next => cases here; simp
    next => cases here

include positive leads holds few parity listed stored in
/-- With enough shards left a data chunk is reconstructed. -/
theorem reconstruct_enough (mds : P.Mds) (unforged : Unforged P (dir ++ [name]) manifest.chunks.length t t')
    (enabled : manifest.parity_shards = some m) (sized : manifest.shard_size = some size) {i : Nat} {piece : Bytes}
    (here : (dataChunks size data)[i]? = some piece)
    (enough : (dataChunks size data).length ≤ (foundShards P t' path size manifest).countP Option.isSome) :
    VerifiedChunkReader.try_reconstruct_data_chunk P t' path manifest i = .ok piece := by
  have padded : ∀ shard ∈ (dataChunks size data).map (fun piece => resize piece size), shard.length = size := by
    intro shard member
    obtain ⟨piece,_,rfl⟩ := List.mem_map.mp member
    exact length_resize piece size
  obtain ⟨length,full⟩ := mds.lengths _ _ _ _ _ padded parity.encoded
  have total : manifest.chunks.length = (dataChunks size data).length + m := by
    rw [length_listed listed,List.length_append,length]
  have same : (dataChunks size data ++ shards).map (fun bytes => resize bytes size) =
      (dataChunks size data).map (fun piece => resize piece size) ++ shards := by
    rw [List.map_append]
    congr 1
    rw [List.map_congr_left fun shard member => resize_of_length (full shard member),List.map_id']
  have count : manifest.chunk_count = (dataChunks size data).length := by rw [holds.count,u32_of_lt few]
  have found : VerifiedChunkReader.read_shards P t' path manifest size 0 ((dataChunks size data).length + m) =
      .ok (foundShards P t' path size manifest) := by
    rw [read_shards_eq size 0 _ (by omega),List.drop_zero,← total,List.take_length]
    simp only [Nat.zero_add]
    rfl
  have recovered := mds.recovers (dataChunks size data).length m size _ _ (foundShards P t' path size manifest) (by simp)
    padded parity.encoded (by simp [foundShards,total])
    (fun j shard seen => same ▸ found_right leads holds few listed stored unforged seen) enough
  have entry := holds.chunk_info here
  have target : (((dataChunks size data).map (fun piece => resize piece size) ++ shards).map some)[i]? =
      some (some (resize piece size)) := by
    rw [List.getElem?_map,List.getElem?_append_left (by simpa using (List.getElem?_eq_some_iff.mp here).1),
      List.getElem?_map,here]
    rfl
  unfold VerifiedChunkReader.try_reconstruct_data_chunk
  simp only [count,enabled,sized,Option.getD_some,parity.ready,found,recovered,target,entry,Except.mapError,bind,
    Except.bind]
  rw [if_neg (by omega)]
  simp only [chunkInfo,take_resize (length_chunk positive here)]

include holds few in
/-- Without enough shards the reconstruction fails. -/
theorem reconstruct_short (enabled : manifest.parity_shards = some m) (sized : manifest.shard_size = some size)
    (total : manifest.chunks.length = (dataChunks size data).length + m)
    (short : (foundShards P t' path size manifest).countP Option.isSome < (dataChunks size data).length) (i : Nat)
    (bytes : Bytes) : VerifiedChunkReader.try_reconstruct_data_chunk P t' path manifest i ≠ .ok bytes := by
  have count : manifest.chunk_count = (dataChunks size data).length := by rw [holds.count,u32_of_lt few]
  have found : VerifiedChunkReader.read_shards P t' path manifest size 0 ((dataChunks size data).length + m) =
      .ok (foundShards P t' path size manifest) := by
    rw [read_shards_eq size 0 _ (by omega),List.drop_zero,← total,List.take_length]
    simp only [Nat.zero_add]
    rfl
  unfold VerifiedChunkReader.try_reconstruct_data_chunk
  simp only [count,enabled,sized,Option.getD_some,found,Except.mapError,bind,Except.bind]
  rcases P.rs_new (dataChunks size data).length m with e | _
  · simp
  · simp only
    rw [if_pos short]
    simp

end Reconstruction

/-- The parity shards of a manifest. -/
def parityOf (manifest : ChunkManifest) : Nat := manifest.parity_shards.getD 0

/-- A damaged directory still serves only what was written, and all of it when no more files are damaged than there
    are parity shards. -/
theorem EcHolds.honest_damaged {size m : Nat} {data : Bytes} (mds : P.Mds) (positive : 0 < size)
    (leads : Leads path dir name) (holds : EcHolds P t (dir ++ [name]) size m data manifest)
    (few : (dataChunks size data).length < 2 ^ 32) (unforged : Unforged P (dir ++ [name]) manifest.chunks.length t t') :
    Source.Honest P ⟨t',path,manifest⟩ data
      (parityOf manifest < damage (dir ++ [name]) manifest.chunks.length t t') := by
  have covers := length_dataChunks_mul positive data
  have count : manifest.chunk_count = (dataChunks size data).length := by rw [holds.count,u32_of_lt few]
  -- a chunk read from its file passed the digest of the manifest
  have from_file : ∀ i piece, (dataChunks size data)[i]? = some piece → ∀ content,
      Fs.readAt t' (join path (chunk_name i)) = .ok content →
      hex_encode (P.sha256 (P.bytes content)) = hex_encode (P.sha256 piece) → P.bytes content = piece := by
    intro i piece here content read hash
    rw [Fs.readAt_leads (leads.chunk i),Tree.read] at read
    split at read
    next c file =>
      injection read with read
      subst read
      have inside : i < manifest.chunks.length := (List.getElem?_eq_some_iff.mp (holds.chunk_info here)).1
      exact unforged i inside piece c (holds.stored (by omega) i piece here) file (hex_encode_injective hash)
    all_goals cases read
  -- a chunk whose file is as it was is fetched from there
  have intact : ∀ i piece, (dataChunks size data)[i]? = some piece →
      t'.node (dir ++ [name] ++ [chunk_name i]) = t.node (dir ++ [name] ++ [chunk_name i]) →
      Source.chunk P ⟨t',path,manifest⟩ i = .ok piece := by
    intro i piece here same
    have file := same.trans (holds.stored (by omega) i piece here)
    have read : Fs.readAt t' (join path (chunk_name i)) = .ok (.bytes piece) := by
      rw [Fs.readAt_leads (leads.chunk i),Tree.read,file]
    exact @VerifiedChunkReader.Source.chunk_of_file P ⟨t',path,manifest⟩ i _ (.bytes piece) (holds.chunk_info here) read
      rfl rfl
  have differs : ∀ i, i < manifest.chunks.length →
      t'.node (dir ++ [name] ++ [chunk_name i]) ≠ t.node (dir ++ [name] ++ [chunk_name i]) →
      0 < damage (dir ++ [name]) manifest.chunks.length t t' := by
    intro i inside other
    exact List.countP_pos_iff.mpr ⟨i,List.mem_range.mpr inside,by simpa using other⟩
  refine ⟨holds.total,by simpa [holds.chunk_size] using positive,by simpa [count] using few,
    by simpa [count,holds.chunk_size] using covers,fun i bytes inside fetched => ?_,fun i e inside failed => ?_⟩
  · simp only [holds.chunk_size] at inside ⊢
    have here := getElem?_dataChunks positive inside
    obtain ⟨info,entry,source⟩ := VerifiedChunkReader.Source.chunk_ok P fetched
    rw [holds.chunk_info here] at entry
    cases entry
    rcases source with ⟨content,read,rfl,_,hash⟩ | ⟨enabled,rebuilt⟩
    · exact from_file i _ here content read hash
    · dsimp only at enabled rebuilt
      rcases holds.parity with ⟨_,none,_⟩ | ⟨shards,parity,_,_,listed,some',sized,stored⟩
      · rw [none] at enabled
        simp at enabled
      · by_cases enough : (dataChunks size data).length ≤ (foundShards P t' path size manifest).countP Option.isSome
        · rw [reconstruct_enough positive leads holds few parity listed stored mds unforged some' sized here enough]
            at rebuilt
          injection rebuilt with rebuilt
          exact rebuilt.symm
        · have length : shards.length = m := (mds.lengths _ _ size _ _ (by simp [length_resize]) parity.encoded).1
          have total : manifest.chunks.length = (dataChunks size data).length + m := by
            rw [length_listed listed,List.length_append,length]
          exact absurd rebuilt (reconstruct_short holds few some' sized total (by omega) i bytes)
  · simp only [holds.chunk_size] at inside
    have here := getElem?_dataChunks positive inside
    have within : i < manifest.chunks.length := (List.getElem?_eq_some_iff.mp (holds.chunk_info here)).1
    by_cases same : t'.node (dir ++ [name] ++ [chunk_name i]) = t.node (dir ++ [name] ++ [chunk_name i])
    · rw [intact i _ here same] at failed
      cases failed
    · rcases holds.parity with ⟨_,none,_⟩ | ⟨shards,parity,enabled,_,listed,some',sized,stored⟩
      · rw [parityOf,none]
        exact differs i within same
      · by_contra enough
        rw [parityOf,some',Option.getD_some,not_lt] at enough
        have length : shards.length = m := (mds.lengths _ _ size _ _ (by simp [length_resize]) parity.encoded).1
        have total : manifest.chunks.length = (dataChunks size data).length + m := by
          rw [length_listed listed,List.length_append,length]
        have found : manifest.chunks.length ≤ (foundShards P t' path size manifest).countP Option.isSome +
            damage (dir ++ [name]) manifest.chunks.length t t' := found_count leads holds few listed stored
        have rebuilt := reconstruct_enough positive leads holds few parity listed stored mds unforged some' sized here
          (by omega)
        have missed := VerifiedChunkReader.Source.chunk_error P failed (holds.chunk_info here)
          (show manifest.parity_shards.getD 0 > 0 by rw [some']; exact enabled)
        dsimp only at missed
        rw [rebuilt] at missed
        cases missed

end Shards

/-! ### Reads -/

theorem FrameDecryptor.Stream.Honest.mono {P : Primitives} {st : Stream} {mayFail mayStop : Prop}
    (honest : st.Honest P False False) : st.Honest P mayFail mayStop where
  positive := honest.positive
  right := honest.right
  opens i e after inside full failed := (honest.opens i e after inside full failed).elim
  short i after inside missing := (honest.short i after inside missing).1.elim

section Reads
variable {P : Primitives} {fs : FilesystemStorage} {bucket key : String} {record : ObjectMeta}
  {cipher : Option FrameCipher} {ck : Option Bytes} {body data : Bytes} {path dir : OsPath} {name : String} {w : World}
  {manifest : ChunkManifest} {mayFail : Prop}

/-- A chunk reader that is about to start: it fails only where it may, and then owes what it did before. -/
theorem preflight_cases (honest : Source.Honest P ⟨w.tree,path,manifest⟩ data mayFail) {r : VerifiedChunkReader}
    {out : Bytes} (owes : VerifiedChunkReader.Owes ⟨w.tree,path,manifest⟩ data r out) (idle : r.state ≠ .Serving) :
    (mayFail ∧ ∃ e, r.preflight P = .error e) ∨ ∃ r', r.preflight P = .ok r' ∧
      Yields (VerifiedChunkReader.poll_read P) mayFail False r' out := by
  rcases ready : r.preflight P with e | r'
  · exact .inl ⟨VerifiedChunkReader.preflight_fails honest owes ready,e,rfl⟩
  · exact .inr ⟨r',rfl,_,VerifiedChunkReader.delivers honest,VerifiedChunkReader.owes_preflight honest owes idle ready⟩

/-- A whole read of a directory of chunks, where fetching a chunk may fail. -/
theorem open_chunked_served (missing : StorageError) (sound : P.Sound)
    (described : Described P fs bucket key record cipher ck body) (payload : Payload P cipher body data)
    (leads : Leads path dir name)
    (file : w.tree.node (dir ++ [name] ++ ["manifest.json"]) = some (.file (.json (.manifest manifest))))
    (honest : Source.Honest P ⟨w.tree,path,manifest⟩ data mayFail) :
    (mayFail ∧ ∃ e, fs.open_chunked P bucket key path (join path "manifest.json") missing record ck w = (.error e,w)) ∨
      ∃ reader, fs.open_chunked P bucket key path (join path "manifest.json") missing record ck w = (.ok reader,w) ∧
        Yields (ObjectReader.poll_read P) mayFail False reader body := by
  simp only [FilesystemStorage.open_chunked]
  rw [Prog.bind_of_ok (read_manifest_ok missing leads file),Prog.ask_bind_apply]
  simp only [FilesystemStorage.preflight_chunk_reader]
  cases cipher with
  | none =>
    rw [(described.plain rfl).1]
    cases payload
    rcases preflight_cases honest (VerifiedChunkReader.owes_new honest) (new_idle _ _ _) with
      ⟨may,e,failed⟩ | ⟨r,ready,yields⟩
    · left
      simp only [failed,Except.mapError]
      exact ⟨may,_,rfl⟩
    · right
      simp only [ready,Except.mapError]
      exact ⟨.chunks r,rfl,Yields.wrap ObjectReader.chunks ObjectReader.poll_chunks yields⟩
  | some c =>
    obtain ⟨enc,has,chunk,dek,aad,eight⟩ := described.encrypted c rfl
    obtain ⟨frames,sealed,rfl⟩ := payload
    have stream : Stream.Honest P ⟨c.key,c.aad,FRAME_CHUNK_SIZE,body,0,frames.flatten⟩ mayFail False := by
      have whole := sealed_honest sound eight sealed 0
      rw [Nat.zero_mul,List.drop_zero] at whole
      exact whole.mono
    rw [has]
    simp only [dek,chunk,described.size,← aad,Prog.lift_ok_bind]
    rcases preflight_cases honest (VerifiedChunkReader.owes_new honest) (new_idle _ _ _) with
      ⟨may,e,failed⟩ | ⟨r,ready,yields⟩
    · left
      simp only [failed,Except.mapError]
      exact ⟨may,_,rfl⟩
    · simp only [ready,Except.mapError,Prog.lift_ok_bind]
      rcases ready' : FrameDecryptor.preflight P (VerifiedChunkReader.poll_read P)
          (.new r c.key body.length FRAME_CHUNK_SIZE c.aad) with e | d
      · left
        have may := FrameDecryptor.preflight_fails stream (VerifiedChunkReader.poll_read_fits P) yields rfl ready'
        simp only [FilesystemStorage.preflight_frame_decryptor,ready',Except.mapError]
        exact ⟨may.resolve_right id,_,rfl⟩
      · right
        simp only [FilesystemStorage.preflight_frame_decryptor,ready',Except.mapError,Prog.lift_ok_bind]
        exact ⟨.decrypted_chunks d,rfl,Yields.wrap ObjectReader.decrypted_chunks ObjectReader.poll_decrypted_chunks
          (FrameDecryptor.yields_new stream (VerifiedChunkReader.poll_read_fits P) yields rfl ready')⟩

/-- The outcome of opening an object for reading: an error where that may be, or a stream of `out` that fails only
    where it may. -/
def Opens (P : Primitives) (run : Except StorageError (ObjectReader × ObjectMeta) × World) (record : ObjectMeta)
    (w : World) (mayFail : Prop) (out : Bytes) : Prop :=
  (mayFail ∧ ∃ e, run = (.error e,w)) ∨
    ∃ reader, run = (.ok (reader,record),w) ∧ Yields (ObjectReader.poll_read P) mayFail False reader out

theorem get_object_served (sound : P.Sound) (accepted : Accepted bucket key) (shown : Shows fs bucket key record w)
    (described : Described P fs bucket key record cipher ck body) (payload : Payload P cipher body data)
    (file : w.tree.node (ecAt fs bucket key ++ ["manifest.json"]) = some (.file (.json (.manifest manifest))))
    (honest : Source.Honest P ⟨w.tree,ec_dir fs.buckets_dir bucket key,manifest⟩ data mayFail) :
    Opens P (fs.get_object P bucket key ck w) record w mayFail body := by
  have dir : w.tree.isDir (ecAt fs bucket key) = true :=
    Tree.isDir_iff.mpr (w.tree.rooted _ _ (by rw [file]; simp))
  simp only [FilesystemStorage.get_object,accepted.bucket,accepted.key,Prog.lift_ok_bind]
  rw [Prog.bind_of_ok (read_object_meta_ok accepted shown)]
  simp only [described.accepts,Prog.lift_ok_bind]
  rw [Prog.bind_of_ok (is_chunked_path_eq accepted),dir,if_pos rfl,
    show manifest_path fs.buckets_dir bucket key = join (ec_dir fs.buckets_dir bucket key) "manifest.json" from rfl]
  rcases open_chunked_served (.NotFound key) sound described payload accepted.ec_leads file honest with
    ⟨may,e,failed⟩ | ⟨reader,opened,yields⟩
  · rw [Prog.bind_of_error failed]
    exact .inl ⟨may,e,rfl⟩
  · rw [Prog.bind_of_ok opened]
    exact .inr ⟨reader,rfl,yields⟩

theorem get_object_range_served (sound : P.Sound) (accepted : Accepted bucket key)
    (shown : Shows fs bucket key record w) (described : Described P fs bucket key record cipher ck body)
    (payload : Payload P cipher body data)
    (file : w.tree.node (ecAt fs bucket key ++ ["manifest.json"]) = some (.file (.json (.manifest manifest))))
    (honest : Source.Honest P ⟨w.tree,ec_dir fs.buckets_dir bucket key,manifest⟩ data mayFail) (offset length : Nat)
    (within : offset + length ≤ body.length) :
    Opens P (fs.get_object_range P bucket key offset length ck w) record w mayFail ((body.drop offset).take length) := by
  have dir : w.tree.isDir (ecAt fs bucket key) = true :=
    Tree.isDir_iff.mpr (w.tree.rooted _ _ (by rw [file]; simp))
  simp only [FilesystemStorage.get_object_range,accepted.bucket,accepted.key,Prog.lift_ok_bind]
  rw [Prog.bind_of_ok (read_object_meta_ok accepted shown)]
  simp only [described.accepts,Prog.lift_ok_bind]
  rw [Prog.bind_of_ok (is_chunked_path_eq accepted),dir,if_pos rfl,
    show manifest_path fs.buckets_dir bucket key = join (ec_dir fs.buckets_dir bucket key) "manifest.json" from rfl,
    Prog.bind_of_ok (read_manifest_ok _ accepted.ec_leads file),Prog.ask_bind_apply]
  cases cipher with
  | none =>
    cases payload
    rw [(described.plain rfl).1]
    simp only [FilesystemStorage.preflight_chunk_reader]
    rcases preflight_cases honest (VerifiedChunkReader.owes_with_range honest offset length within)
        (range_idle _ _ _ _ _) with ⟨may,e,failed⟩ | ⟨r,ready,yields⟩
    · simp only [failed,Except.mapError]
      exact .inl ⟨may,_,rfl⟩
    · simp only [ready,Except.mapError,Prog.lift_ok_bind]
      exact .inr ⟨_,rfl,Yields.wrap ObjectReader.chunks ObjectReader.poll_chunks yields⟩
  | some c =>
    obtain ⟨enc,has,chunk,dek,aad,eight⟩ := described.encrypted c rfl
    obtain ⟨frames,sealed,rfl⟩ := payload
    rw [has]
    simp only [dek,Prog.lift_ok_bind,chunk,described.size,← aad,FrameDecryptor.ciphertext_offset]
    have start := ciphertext_start_le within
    rw [← length_frames sound eight sealed] at start
    have size : manifest.total_size = frames.flatten.length := honest.total
    have owes := VerifiedChunkReader.owes_with_range honest
      (offset / FRAME_CHUNK_SIZE * (FRAME_CHUNK_SIZE + FRAME_OVERHEAD))
      (manifest.total_size - offset / FRAME_CHUNK_SIZE * (FRAME_CHUNK_SIZE + FRAME_OVERHEAD)) (by omega)
    simp only [FilesystemStorage.preflight_chunk_reader]
    rcases preflight_cases honest owes (range_idle _ _ _ _ _) with ⟨may,e,failed⟩ | ⟨r,ready,yields⟩
    · simp only [failed,Except.mapError]
      exact .inl ⟨may,_,rfl⟩
    · simp only [ready,Except.mapError,Prog.lift_ok_bind]
      rw [List.take_of_length_le (by rw [List.length_drop]; omega)] at yields
      exact .inr ⟨_,rfl,Yields.wrap ObjectReader.decrypted_chunks ObjectReader.poll_decrypted_chunks
        (FrameDecryptor.yields_for_range (sealed_honest sound eight sealed _).mono
          (VerifiedChunkReader.poll_read_fits P) yields offset length rfl)⟩

end Reads

/-! ### Damaged objects -/

/-- Parity shards of an object of `n` bytes; an empty one has none. -/
def parityCount (fs : FilesystemStorage) (n : Nat) : Nat := if n = 0 then 0 else fs.parity_shards

/-- Shard files of an object of `n` bytes. -/
def shardCount (fs : FilesystemStorage) (encrypted : Bool) (n : Nat) : Nat :=
  chunkCount fs.chunk_size (storedLength encrypted n) + parityCount fs n

/-- Read to its end with buffers of any positive capacities, the stream gives exactly these bytes, or some of them
    from the start on and then an error. -/
def ReadsOrFails (P : Primitives) (reader : ObjectReader) (out : Bytes) : Prop :=
  ∀ caps : Nat → Nat, (∀ n, 0 < caps n) → ∀ turns, out.length < turns →
    ∃ emitted e, read_to_end (ObjectReader.poll_read P) caps turns 0 reader = some (emitted,e) ∧ emitted <+: out ∧
      (e = none → emitted = out)

/-- Every whole or range read that starts gives the bytes of the body it asks for, or fails. -/
def NeverLies (P : Primitives) (fs : FilesystemStorage) (bucket key : String) (ck : Option Bytes) (body : Bytes)
    (w : World) : Prop :=
  (∀ reader record w', fs.get_object P bucket key ck w = (.ok (reader,record),w') → ReadsOrFails P reader body) ∧
    ∀ offset length, offset + length ≤ body.length → ∀ reader record w',
      fs.get_object_range P bucket key offset length ck w = (.ok (reader,record),w') →
      ReadsOrFails P reader ((body.drop offset).take length)

/-- Every whole or range read gives the bytes of the body it asks for. -/
def Readable (P : Primitives) (fs : FilesystemStorage) (bucket key : String) (ck : Option Bytes) (body : Bytes)
    (w : World) : Prop :=
  GivesBack P fs bucket key ck body w ∧
    ∀ offset length, offset + length ≤ body.length → ∃ reader record,
      fs.get_object_range P bucket key offset length ck w = (.ok (reader,record),w) ∧
      ReadsOut P reader ((body.drop offset).take length)

/-- Whatever happens to the shard files of the object, reads give its bytes or fail; and with at most as many damaged
    files as parity shards they give its bytes. -/
def SurvivesDamage (P : Primitives) (fs : FilesystemStorage) (bucket key : String) (encrypted : Bool)
    (ck : Option Bytes) (body : Bytes) (w : World) : Prop :=
  ∀ t', Damaged (ecAt fs bucket key) (shardCount fs encrypted body.length) w.tree t' →
    Unforged P (ecAt fs bucket key) (shardCount fs encrypted body.length) w.tree t' →
    NeverLies P fs bucket key ck body { w with tree := t' } ∧
      (damage (ecAt fs bucket key) (shardCount fs encrypted body.length) w.tree t' ≤ parityCount fs body.length →
        Readable P fs bucket key ck body { w with tree := t' })

section Survival
variable {P : Primitives} {fs : FilesystemStorage} {bucket key : String} {record : ObjectMeta}
  {cipher : Option FrameCipher} {ck : Option Bytes} {body data : Bytes} {w : World} {manifest : ChunkManifest}

theorem Opens.reads {run : Except StorageError (ObjectReader × ObjectMeta) × World} {mayFail : Prop} {out : Bytes}
    (opens : Opens P run record w mayFail out) {reader : ObjectReader} {record' : ObjectMeta} {w' : World}
    (done : run = (.ok (reader,record'),w')) : ReadsOrFails P reader out := by
  rcases opens with ⟨_,e,failed⟩ | ⟨reader',opened,yields⟩
  · rw [failed] at done
    cases done
  · rw [opened] at done
    cases done
    intro caps positive turns enough
    obtain ⟨emitted,e,ran,within,ended,_⟩ := yields.read caps positive turns 0 enough
    exact ⟨emitted,e,ran,within,fun none => (ended none).resolve_right id⟩

theorem Opens.whole {run : Except StorageError (ObjectReader × ObjectMeta) × World} {mayFail : Prop} {out : Bytes}
    (opens : Opens P run record w mayFail out) (never : ¬ mayFail) :
    ∃ reader, run = (.ok (reader,record),w) ∧ ReadsOut P reader out := by
  rcases opens with ⟨may,_⟩ | ⟨reader,opened,yields⟩
  · exact absurd may never
  · exact ⟨reader,opened,readsOut_of_exactly (yields.mono never id)⟩

theorem storedLength_zero {encrypted : Bool} {n : Nat} : storedLength encrypted n = 0 ↔ n = 0 := by
  unfold storedLength
  split
  · unfold FrameDecryptor.cipherLength
    constructor
    · omega
    · rintro rfl
      decide
  · exact Iff.rfl

theorem parity_of_holds (sound : P.Sound) (mds : P.Mds) (described : Described P fs bucket key record cipher ck body)
    (payload : Payload P cipher body data)
    (holds : EcHolds P w.tree (ecAt fs bucket key) fs.chunk_size fs.parity_shards data manifest) :
    parityOf manifest = parityCount fs body.length ∧
      manifest.chunks.length = shardCount fs cipher.isSome body.length := by
  have length := length_payload sound described payload
  have count := length_dataChunks fs.chunk_size_pos data
  rw [length] at count
  have empty : data = [] ↔ body.length = 0 := by
    rw [← List.length_eq_zero_iff,length,storedLength_zero]
  rcases holds.parity with ⟨listed,none,no⟩ | ⟨shards,parity,positive,filled,listed,some',_⟩
  · have zero : parityCount fs body.length = 0 := by
      unfold parityCount
      split
      · rfl
      · next present => exact no.resolve_right fun gone => present (empty.mp gone)
    refine ⟨by rw [parityOf,none,zero]; rfl,?_⟩
    rw [listed,shardCount,zero,← count]
    simp [dataInfos]
  · have shards_length : shards.length = fs.parity_shards :=
      (mds.lengths _ _ fs.chunk_size _ _ (by simp [length_resize]) parity.encoded).1
    have some'' : parityCount fs body.length = fs.parity_shards := by
      rw [parityCount,if_neg fun gone => filled (empty.mpr gone)]
    refine ⟨by rw [parityOf,some',some'']; rfl,?_⟩
    rw [listed,shardCount,some'',← count]
    simp [dataInfos,parityInfos,shards_length]

theorem chunk_below_ne {n : String} {i : Nat} :
    home fs bucket key ++ [n] ≠ ecAt fs bucket key ++ [chunk_name i] := by
  intro same
  have length := congrArg List.length same
  simp [ecAt] at length

/-- With more chunks than a `u32` can count, not even the undamaged object can be read. -/
theorem Landed.not_survives (sound : P.Sound) (accepted : Accepted bucket key)
    (landed : Landed P fs bucket key record cipher ck body true w) (many : ¬ Countable fs cipher.isSome body.length) :
    ¬ SurvivesDamage P fs bucket key cipher.isSome ck body w := by
  intro survives
  obtain ⟨_,recovers⟩ := survives w.tree (fun _ _ => rfl) fun i _ written found before after _ => by
    rw [before] at after
    cases after
    rfl
  obtain ⟨⟨reader,record',done,_,reads⟩,_⟩ := recovers (by simp [damage])
  exact absurd (landed.short sound accepted many done reads) (lt_irrefl _)

/-- Erasure-coded objects survive any damage to their shards as they should, unless they have more chunks than a
    `u32` can count. -/
theorem survives_damage_iff (sound : P.Sound) (mds : P.Mds) (accepted : Accepted bucket key)
    (landed : Landed P fs bucket key record cipher ck body true w) :
    SurvivesDamage P fs bucket key cipher.isSome ck body w ↔ Countable fs cipher.isSome body.length := by
  constructor
  · intro survives
    by_contra many
    obtain ⟨_,recovers⟩ := survives w.tree (fun _ _ => rfl) fun i _ written found before after _ => by
      rw [before] at after
      cases after
      rfl
    obtain ⟨⟨reader,record',done,_,reads⟩,_⟩ := recovers (by simp [damage])
    exact absurd (landed.short sound accepted many done reads) (lt_irrefl _)
  · intro few t' damaged unforged
    obtain ⟨shown,described,lies⟩ := landed
    cases lies with
    | chunked data manifest holds payload =>
      obtain ⟨parity,count⟩ := parity_of_holds sound mds described payload holds
      rw [← count] at damaged unforged ⊢
      rw [← parity]
      have countable : (dataChunks fs.chunk_size data).length < 2 ^ 32 := by
        rw [length_dataChunks fs.chunk_size_pos,length_payload sound described payload]
        exact few
      have honest := holds.honest_damaged mds fs.chunk_size_pos accepted.ec_leads countable unforged
      have shown' : Shows fs bucket key record { w with tree := t' } :=
        (damaged _ fun i _ => chunk_below_ne).trans shown
      have file : t'.node (ecAt fs bucket key ++ ["manifest.json"]) = some (.file (.json (.manifest manifest))) :=
        (damaged _ fun i _ => manifest_ne_chunk i).trans holds.file
      have whole := get_object_served (w := { w with tree := t' }) sound accepted shown' described payload file honest
      have part := get_object_range_served (w := { w with tree := t' }) sound accepted shown' described payload file
        honest
      refine ⟨⟨fun _ _ _ done => whole.reads done,?_⟩,fun mild => ⟨?_,?_⟩⟩
      · exact fun offset length within _ _ _ done => (part offset length within).reads done
      · obtain ⟨reader,done,reads⟩ := whole.whole (not_lt.mpr mild)
        exact ⟨reader,record,done,described.size,reads⟩
      · intro offset length within
        obtain ⟨reader,done,reads⟩ := (part offset length within).whole (not_lt.mpr mild)
        exact ⟨reader,record,done,reads⟩

end Survival

namespace Sample

theorem primitives_mds : primitives.Mds where
  lengths k m n data parity lengths encoded := by
    simp only [primitives] at encoded
    split at encoded
    next shard =>
      injection encoded with encoded
      rw [← encoded,List.length_replicate]
      refine ⟨rfl,fun s member => ?_⟩
      rw [List.eq_of_mem_replicate member]
      exact lengths shard (by simp)
    next => cases encoded
  recovers k m n data parity shards count lengths encoded length right enough := by
    simp only [primitives] at encoded ⊢
    split at encoded
    next shard =>
      injection encoded with encoded
      subst encoded
      have copies : ∀ (i : Nat) (s : Bytes), shards[i]? = some (some s) → s = shard := by
        intro i s found
        have here := right i s found
        rw [List.singleton_append,← List.replicate_succ] at here
        exact List.eq_of_mem_replicate (List.mem_of_getElem? here)
      obtain ⟨first,member,present⟩ := List.countP_pos_iff.mp (show 0 < shards.countP Option.isSome by omega)
      cases found : shards.find? Option.isSome with
      | none => exact absurd present (by simpa using List.find?_eq_none.mp found first member)
      | some s =>
        obtain ⟨s,rfl⟩ := Option.isSome_iff_exists.mp (List.find?_some found)
        obtain ⟨i,here⟩ := List.mem_iff_getElem?.mp (List.mem_of_find?_eq_some found)
        simp only
        rw [copies i s here,List.map_const',length,List.singleton_append,← List.replicate_succ,List.map_replicate,
          Nat.add_comm]
    next => cases encoded

/-- One parity shard. -/
def mirrored : FilesystemStorage := { storage true 3 (by decide +kernel) with parity_shards := 1 }

end Sample

theorem abc_survives_damage :
    ∃ result w', Sample.mirrored.put_object Sample.primitives (Sample.draws 0) "logs" "a" "text/plain"
        (Sample.stream Sample.abc (by decide) (by decide)) none none none (Sample.world false) = (.ok result,w') ∧
      SurvivesDamage Sample.primitives Sample.mirrored "logs" "a" false none Sample.abc w' := by
  have ok : (Sample.mirrored.put_object Sample.primitives (Sample.draws 0) "logs" "a" "text/plain"
      (Sample.stream Sample.abc (by decide) (by decide)) none none none (Sample.world false)).1.isOk = true := by
    decide +kernel
  obtain ⟨result,w',done⟩ := Sample.isOk_spec ok
  refine ⟨result,w',done,?_⟩
  obtain ⟨accepted,_,record,cipher,sealed,written,_⟩ := put_object_done Sample.primitives_sound Sample.file_a done
  have landed := written.landed
  rw [show coded Sample.mirrored "logs" (Sample.world false) = true by decide +kernel] at landed
  have survives := (survives_damage_iff Sample.primitives_sound Sample.primitives_mds accepted landed).mpr (by
    rw [sealed]
    decide +kernel)
  rw [sealed] at survives
  exact survives

/-- The zeros do not even survive without damage. -/
theorem zeros_lost_without_damage :
    ∃ result w', Sample.bytewise.put_object Sample.primitives (Sample.draws 0) "logs" "a" "text/plain" Sample.zeros none
        none none (Sample.world false) = (.ok result,w') ∧
      ¬ SurvivesDamage Sample.primitives Sample.bytewise "logs" "a" false none Sample.zeros.body w' := by
  obtain ⟨result,w',done⟩ := Sample.put_zeros
  refine ⟨result,w',done,?_⟩
  obtain ⟨accepted,_,record,cipher,sealed,written,_⟩ := put_object_done Sample.primitives_sound Sample.file_a done
  have landed := written.landed
  rw [Sample.in_chunks.2] at landed
  have lost := landed.not_survives Sample.primitives_sound accepted (by
    rw [sealed]
    exact Sample.zeros_uncountable)
  rw [sealed] at lost
  exact lost

end Maxio
