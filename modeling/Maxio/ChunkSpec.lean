import Maxio.WriterSpec

/-!
The directory of an erasure-coded payload: what the chunk writers, the parity step and the manifest leave there,
and what a reader of it gets back.
-/

set_option linter.unusedSimpArgs false

namespace Maxio
open FileTree (Node Tree)

/-- The data chunks of a payload; an empty one has a single empty chunk. -/
def dataChunks (size : Nat) (data : Bytes) : List Bytes := if data = [] then [[]] else Chunking.pieces size data

section
variable (P : Primitives)

def chunkInfo (kind : ChunkKind) (index : Nat) (data : Bytes) : ChunkInfo where
  index := index
  size := data.length
  sha256 := hex_encode (P.sha256 data)
  kind := kind

/-- Manifest entries of the data chunks; their numbers are `u32`. -/
def dataInfos (pieces : List Bytes) : List ChunkInfo := pieces.mapIdx fun i piece => chunkInfo P .Data (u32 i) piece

/-- Manifest entries of the parity shards after `k` data chunks. -/
def parityInfos (k : Nat) (shards : List Bytes) : List ChunkInfo :=
  shards.mapIdx fun i shard => chunkInfo P .Parity (k + i) shard

end

section Writing
variable {P : Primitives} {path dir : OsPath} {name : String} {w₀ : World}

/-- Only files with the names of chunks differ from `w₀`. -/
structure OnlyChunks (q : OsPath) (w₀ w : World) : Prop where
  rows : w.rows = w₀.rows
  tree : ∀ p, (∀ i, p ≠ q ++ [chunk_name i]) → w.tree.node p = w₀.tree.node p

/-- The pieces have been written as chunks. -/
structure ChunkWriter.Wrote (P : Primitives) (q : OsPath) (w₀ : World) (pieces : List Bytes) (cw : ChunkWriter)
    (w : World) : Prop where
  chunks : cw.chunks = dataInfos P pieces
  index : cw.chunk_index = u32 pieces.length
  written : cw.written = pieces.flatten.length
  outside : OnlyChunks q w₀ w
  stored : pieces.length ≤ 2 ^ 32 → ∀ i piece, pieces[i]? = some piece →
    w.tree.node (q ++ [chunk_name i]) = some (.file (.bytes piece))

namespace ChunkWriter

private theorem chunk_path_inj {q : OsPath} {i j : Nat} (same : q ++ [chunk_name i] = q ++ [chunk_name j]) : i = j :=
  chunk_name_injective (List.singleton_inj.mp (List.append_cancel_left same))

theorem write_chunk_done (leads : Leads path dir name) {pieces : List Bytes} {piece : Bytes} {cw cw' : ChunkWriter}
    {w w' : World} (wrote : Wrote P (dir ++ [name]) w₀ pieces cw w)
    (done : write_chunk P path cw piece w = (.ok cw',w')) :
    Wrote P (dir ++ [name]) w₀ (pieces ++ [piece]) cw' w' ∧ cw'.chunk_buf = cw.chunk_buf := by
  simp only [write_chunk,write_chunk_to_dir,write_chunk_file,Prog.bind_ok_iff,io_ok_iff,pure_ok_iff] at done
  obtain ⟨_,_,⟨_,_,written,rfl,rfl⟩,rfl,rfl⟩ := done
  obtain ⟨sets,_,_⟩ := Fs.write_done (leads.chunk cw.chunk_index) written
  refine ⟨⟨?_,?_,?_,⟨sets.rows.trans wrote.outside.rows,fun p other => ?_⟩,fun few i here found => ?_⟩,rfl⟩
  · simp [wrote.chunks,dataInfos,chunkInfo,wrote.index]
  · simp only [wrote.index,u32,List.length_append,List.length_singleton]
    exact Nat.mod_add_mod _ _ _
  · simp [wrote.written]
  · rw [sets.tree,if_neg (other _),wrote.outside.tree p other]
  · have number : cw.chunk_index = pieces.length := by
      rw [wrote.index]
      exact u32_of_lt (by simp only [List.length_append,List.length_singleton] at few; omega)
    simp only [List.length_append,List.length_singleton] at few
    rw [sets.tree,number]
    rcases Nat.lt_trichotomy i pieces.length with before | same | beyond
    · rw [List.getElem?_append_left before] at found
      rw [if_neg fun same => by have := chunk_path_inj same; omega]
      exact wrote.stored (by omega) i here found
    · subst same
      simp only [List.getElem?_append_right le_rfl,Nat.sub_self,List.getElem?_cons_zero,Option.some.injEq] at found
      rw [if_pos rfl,found]
    · rw [List.getElem?_eq_none (by simp; omega)] at found
      cases found

/-- The writer has taken in `data`. -/
structure Took (P : Primitives) (q : OsPath) (w₀ : World) (size : Nat) (data : Bytes) (cw : ChunkWriter)
    (w : World) : Prop where
  buf : cw.chunk_buf = Chunking.rest size data
  wrote : Wrote P q w₀ (Chunking.full size data) cw w

theorem took_new {size : Nat} {q : OsPath} {w : World} (outside : OnlyChunks q w₀ w) : Took P q w₀ size [] new w :=
  ⟨rfl,rfl,rfl,rfl,outside,by simp⟩

theorem feed_done (leads : Leads path dir name) {size : Nat} (positive : 0 < size) {data more : Bytes}
    {cw cw' : ChunkWriter} {w w' : World} (took : Took P (dir ++ [name]) w₀ size data cw w)
    (done : feed P path size cw more w = (.ok cw',w')) : Took P (dir ++ [name]) w₀ size (data ++ more) cw' w' := by
  have wrote := took.wrote
  have loop := Prog.fold_ok (fun past cw₁ w₁ =>
      Wrote P (dir ++ [name]) w₀ (Chunking.full size data ++ past) cw₁ w₁ ∧
        cw₁.chunk_buf = Chunking.rest size (cw.chunk_buf ++ more))
    (fun past cw₁ w₁ p cw₂ w₂ inv step => by
      obtain ⟨next,kept⟩ := write_chunk_done leads inv.1 step
      rw [List.append_assoc] at next
      exact ⟨next,kept.trans inv.2⟩)
    _ [] _ _ _ _ ⟨by
      rw [List.append_nil]
      exact ⟨wrote.chunks,wrote.index,wrote.written,wrote.outside,wrote.stored⟩,rfl⟩ done
  rw [took.buf] at loop
  refine ⟨?_,?_⟩
  · rw [loop.2,← Chunking.rest_append positive]
  · rw [Chunking.full_append positive]
    simpa using loop.1

/-- After `finish`, all data is in chunks. -/
structure Finished (P : Primitives) (q : OsPath) (w₀ : World) (size : Nat) (data : Bytes) (cw : ChunkWriter)
    (w : World) : Prop where
  chunks : cw.chunks = dataInfos P (dataChunks size data)
  written : cw.written = data.length
  outside : OnlyChunks q w₀ w
  stored : (dataChunks size data).length ≤ 2 ^ 32 → ∀ i piece, (dataChunks size data)[i]? = some piece →
    w.tree.node (q ++ [chunk_name i]) = some (.file (.bytes piece))

private theorem pieces_nil_iff {size : Nat} (positive : 0 < size) (data : Bytes) :
    Chunking.pieces size data = [] ↔ data = [] := by
  constructor
  · intro none
    rw [← Chunking.flatten_pieces positive data,none,List.flatten_nil]
  · rintro rfl
    rfl

theorem finish_done (leads : Leads path dir name) {size : Nat} (positive : 0 < size) {data : Bytes}
    {cw cw' : ChunkWriter} {w w' : World} (took : Took P (dir ++ [name]) w₀ size data cw w)
    (done : finish P path cw w = (.ok cw',w')) : Finished P (dir ++ [name]) w₀ size data cw' w' := by
  -- the last, shorter chunk is out; an empty payload is the special case
  have close : ∀ {cw₁ : ChunkWriter} {w₁ : World},
      Wrote P (dir ++ [name]) w₀ (Chunking.pieces size data) cw₁ w₁ →
      (if cw₁.chunks = [] then do
          let ci ← write_chunk_to_dir P path 0 []
          pure { cw₁ with chunks := [ci] }
        else pure cw₁ : Action ChunkWriter) w₁ = (.ok cw',w') →
      Finished P (dir ++ [name]) w₀ size data cw' w' := by
    intro cw₁ w₁ wrote done
    have total := wrote.written
    rw [Chunking.flatten_pieces positive] at total
    split at done
    next none =>
      have empty : data = [] := by
        rw [wrote.chunks,dataInfos,List.mapIdx_eq_nil_iff,pieces_nil_iff positive] at none
        exact none
      subst empty
      simp only [write_chunk_to_dir,write_chunk_file,Prog.bind_ok_iff,io_ok_iff,pure_ok_iff] at done
      obtain ⟨_,_,⟨_,_,written,rfl,rfl⟩,rfl,rfl⟩ := done
      obtain ⟨sets,_,_⟩ := Fs.write_done (leads.chunk 0) written
      refine ⟨?_,total,⟨sets.rows.trans wrote.outside.rows,fun p other => ?_⟩,fun _ i piece found => ?_⟩
      · simp [dataInfos,dataChunks,chunkInfo,u32]
      · rw [sets.tree,if_neg (other 0),wrote.outside.tree p other]
      · cases i with
        | zero =>
          simp only [dataChunks,if_true,List.getElem?_cons_zero,Option.some.injEq] at found
          rw [sets.tree,if_pos rfl,found]
        | succ i => simp [dataChunks] at found
    next some' =>
      rw [pure_ok_iff] at done
      obtain ⟨rfl,rfl⟩ := done
      have filled : data ≠ [] := by
        rintro rfl
        exact some' (by rw [wrote.chunks]; rfl)
      have spelled : dataChunks size data = Chunking.pieces size data := if_neg filled
      exact ⟨by rw [wrote.chunks,spelled],total,wrote.outside,by rw [spelled]; exact wrote.stored⟩
  unfold finish at done
  split at done
  next empty =>
    simp only [Prog.bind_ok_iff] at done
    obtain ⟨cw₁,w₁,first,done⟩ := done
    rw [pure_ok_iff] at first
    obtain ⟨rfl,rfl⟩ := first
    refine close ?_ done
    rw [Chunking.pieces,if_pos (took.buf ▸ empty),List.append_nil]
    exact took.wrote
  next partial' =>
    simp only [Prog.bind_ok_iff] at done
    obtain ⟨cw₁,w₁,last,done⟩ := done
    obtain ⟨next,_⟩ := write_chunk_done leads took.wrote last
    obtain ⟨cw₂,w₂,first,done⟩ := done
    rw [pure_ok_iff] at first
    obtain ⟨rfl,rfl⟩ := first
    refine close ?_ done
    rw [Chunking.pieces,if_neg (took.buf ▸ partial'),← took.buf]
    exact ⟨next.chunks,next.index,next.written,next.outside,next.stored⟩

end ChunkWriter

theorem write_plain_done (leads : Leads path dir name) {size : Nat} (positive : 0 < size) {data piece : Bytes}
    {acc acc' : Nat × ChunkWriter} {w w' : World}
    (took : acc.1 = data.length ∧ acc.2.Took P (dir ++ [name]) w₀ size data w)
    (done : write_plain P path size acc piece w = (.ok acc',w')) :
    acc'.1 = (data ++ piece).length ∧ acc'.2.Took P (dir ++ [name]) w₀ size (data ++ piece) w' := by
  simp only [write_plain,Prog.bind_ok_iff,pure_ok_iff] at done
  obtain ⟨cw,_,fed,rfl,rfl⟩ := done
  exact ⟨by simp [took.1],ChunkWriter.feed_done leads positive took.2 fed⟩

/-! ### Encrypt, then chunk -/

namespace SealedWriter

/-- Frames of the pieces have gone into the chunk writer. -/
structure Wrote (P : Primitives) (cipher : FrameCipher) (q : OsPath) (w₀ : World) (size : Nat)
    (pieces : List Bytes) (sw : SealedWriter) (w : World) : Prop where
  index : sw.frame_index = pieces.length
  content : ∃ frames, Sealed P cipher pieces frames ∧ sw.chunks.Took P q w₀ size frames.flatten w

structure Took (P : Primitives) (cipher : FrameCipher) (q : OsPath) (w₀ : World) (size : Nat) (body : Bytes)
    (sw : SealedWriter) (w : World) : Prop where
  total : sw.size = body.length
  buf : sw.frame_buf = Chunking.rest FRAME_CHUNK_SIZE body
  wrote : Wrote P cipher q w₀ size (Chunking.full FRAME_CHUNK_SIZE body) sw w

private theorem frame_size_pos : 0 < FRAME_CHUNK_SIZE := by decide

theorem write_frame_done (leads : Leads path dir name) {cipher : FrameCipher} {size : Nat} (positive : 0 < size)
    {pieces : List Bytes} {piece : Bytes} {sw sw' : SealedWriter} {w w' : World}
    (wrote : Wrote P cipher (dir ++ [name]) w₀ size pieces sw w)
    (done : write_frame P path size cipher sw piece w = (.ok sw',w')) :
    Wrote P cipher (dir ++ [name]) w₀ size (pieces ++ [piece]) sw' w' ∧ sw'.size = sw.size ∧
      sw'.frame_buf = sw.frame_buf := by
  obtain ⟨frames,sealed,took⟩ := wrote.content
  simp only [write_frame,Prog.bind_ok_iff,pure_ok_iff] at done
  obtain ⟨frame,w₁,encrypted,cw,_,fed,rfl,rfl⟩ := done
  obtain ⟨made,tree,rows⟩ := encrypt_frame_to_vec_done encrypted
  have took₁ : sw.chunks.Took P (dir ++ [name]) w₀ size frames.flatten w₁ := by
    refine ⟨took.buf,took.wrote.chunks,took.wrote.index,took.wrote.written,⟨?_,?_⟩,?_⟩
    · rw [rows,took.wrote.outside.rows]
    · rw [tree]; exact took.wrote.outside.tree
    · rw [tree]; exact took.wrote.stored
  refine ⟨⟨by simp [wrote.index],frames ++ [frame],?_,?_⟩,rfl,rfl⟩
  · exact sealed.concat (by rw [← wrote.index]; exact made)
  · have next := ChunkWriter.feed_done leads positive took₁ fed
    simpa using next

theorem write_done (leads : Leads path dir name) {cipher : FrameCipher} {size : Nat} (positive : 0 < size)
    {body piece : Bytes} {sw sw' : SealedWriter} {w w' : World}
    (took : Took P cipher (dir ++ [name]) w₀ size body sw w)
    (done : write P path size cipher sw piece w = (.ok sw',w')) :
    Took P cipher (dir ++ [name]) w₀ size (body ++ piece) sw' w' := by
  have wrote := took.wrote
  have loop := Prog.fold_ok (fun past sw₁ w₁ =>
      Wrote P cipher (dir ++ [name]) w₀ size (Chunking.full FRAME_CHUNK_SIZE body ++ past) sw₁ w₁ ∧
        sw₁.size = (body ++ piece).length ∧
        sw₁.frame_buf = Chunking.rest FRAME_CHUNK_SIZE (sw.frame_buf ++ piece))
    (fun past sw₁ w₁ p sw₂ w₂ inv step => by
      obtain ⟨next,size,kept⟩ := write_frame_done leads positive inv.1 step
      rw [List.append_assoc] at next
      exact ⟨next,size.trans inv.2.1,kept.trans inv.2.2⟩)
    _ [] _ _ _ _ ⟨by
      rw [List.append_nil]
      exact ⟨wrote.index,wrote.content⟩,by simp [took.total],rfl⟩ done
  obtain ⟨all,total,kept⟩ := loop
  rw [took.buf] at kept all
  refine ⟨total,?_,?_⟩
  · rw [kept,← Chunking.rest_append frame_size_pos]
  · rw [Chunking.full_append frame_size_pos]
    simpa using all

theorem finish_done (leads : Leads path dir name) {cipher : FrameCipher} {size : Nat} (positive : 0 < size)
    {body : Bytes} {sw sw' : SealedWriter} {w w' : World}
    (took : Took P cipher (dir ++ [name]) w₀ size body sw w)
    (done : finish P path size cipher sw w = (.ok sw',w')) :
    sw'.size = body.length ∧ ∃ frames, Sealed P cipher (Chunking.pieces FRAME_CHUNK_SIZE body) frames ∧
      sw'.chunks.Finished P (dir ++ [name]) w₀ size frames.flatten w' := by
  have close : ∀ {sw₁ : SealedWriter} {w₁ : World}, sw₁.size = sw.size →
      Wrote P cipher (dir ++ [name]) w₀ size (Chunking.pieces FRAME_CHUNK_SIZE body) sw₁ w₁ →
      (do let chunks ← sw₁.chunks.finish P path; pure { sw₁ with frame_buf := [], chunks } : Action SealedWriter) w₁ =
        (.ok sw',w') →
      sw'.size = body.length ∧ ∃ frames, Sealed P cipher (Chunking.pieces FRAME_CHUNK_SIZE body) frames ∧
        sw'.chunks.Finished P (dir ++ [name]) w₀ size frames.flatten w' := by
    intro sw₁ w₁ same all done
    simp only [Prog.bind_ok_iff,pure_ok_iff] at done
    obtain ⟨cw,_,finished,rfl,rfl⟩ := done
    obtain ⟨frames,sealed,taken⟩ := all.content
    exact ⟨same.trans took.total,frames,sealed,ChunkWriter.finish_done leads positive taken finished⟩
  unfold finish at done
  split at done
  next empty =>
    rw [Prog.bind_ok_iff] at done
    obtain ⟨sw₁,w₁,first,done⟩ := done
    rw [pure_ok_iff] at first
    obtain ⟨rfl,rfl⟩ := first
    refine close rfl ?_ done
    rw [Chunking.pieces,if_pos (took.buf ▸ empty),List.append_nil]
    exact took.wrote
  next partial' =>
    rw [Prog.bind_ok_iff] at done
    obtain ⟨sw₁,w₁,last,done⟩ := done
    obtain ⟨next,same,_⟩ := write_frame_done leads positive took.wrote last
    refine close same ?_ done
    rw [Chunking.pieces,if_neg (took.buf ▸ partial'),← took.buf]
    exact next

theorem took_new {cipher : FrameCipher} {size : Nat} {q : OsPath} {w : World} (outside : OnlyChunks q w₀ w) :
    Took P cipher q w₀ size [] new w :=
  ⟨rfl,rfl,rfl,[],sealed_nil,ChunkWriter.took_new outside⟩

theorem Took.outside {cipher : FrameCipher} {size : Nat} {q : OsPath} {body : Bytes} {sw : SealedWriter} {w : World}
    (took : Took P cipher q w₀ size body sw w) : OnlyChunks q w₀ w := by
  obtain ⟨_,_,chunks⟩ := took.wrote.content
  exact chunks.wrote.outside

end SealedWriter

/-! ### Parity and manifest -/

/-- The parity shards of a payload, when it has any. -/
structure Parity (P : Primitives) (k m size : Nat) (pieces shards : List Bytes) : Prop where
  few : k + m ≤ 255
  ready : P.rs_new k m = .ok ()
  encoded : P.rs_encode k m (pieces.map fun piece => resize piece size) = .ok shards

/-- A directory holds the chunks of `data`, `m` parity shards and the manifest. -/
structure EcHolds (P : Primitives) (t : Disk) (q : OsPath) (size m : Nat) (data : Bytes) (manifest : ChunkManifest) :
    Prop where
  file : t.node (q ++ ["manifest.json"]) = some (.file (.json (.manifest manifest)))
  total : manifest.total_size = data.length
  chunk_size : manifest.chunk_size = size
  count : manifest.chunk_count = u32 (dataChunks size data).length
  stored : (dataChunks size data).length ≤ 2 ^ 32 → ∀ i piece, (dataChunks size data)[i]? = some piece →
    t.node (q ++ [chunk_name i]) = some (.file (.bytes piece))
  parity : (manifest.chunks = dataInfos P (dataChunks size data) ∧ manifest.parity_shards = none ∧
      (m = 0 ∨ data = [])) ∨
    ∃ shards, Parity P (dataChunks size data).length m size (dataChunks size data) shards ∧ 0 < m ∧ data ≠ [] ∧
      manifest.chunks = dataInfos P (dataChunks size data) ++ parityInfos P (dataChunks size data).length shards ∧
      manifest.parity_shards = some m ∧ manifest.shard_size = some size ∧
      ∀ i shard, shards[i]? = some shard →
        t.node (q ++ [chunk_name ((dataChunks size data).length + i)]) = some (.file (.bytes shard))

theorem read_shards_back_done (leads : Leads path dir name) {size : Nat} {pieces : List Bytes} {w w' : World}
    (start : Nat) (few : start + pieces.length < 2 ^ 32)
    (stored : ∀ i piece, pieces[i]? = some piece →
      w.tree.node (dir ++ [name] ++ [chunk_name (start + i)]) = some (.file (.bytes piece)))
    {shards : List Bytes}
    (done : read_shards_back P path size (pieces.mapIdx fun i piece => chunkInfo P .Data (u32 (start + i)) piece) w =
      (.ok shards,w')) : shards = (pieces.map fun piece => resize piece size) ∧ w' = w := by
  induction pieces generalizing start shards w' with
  | nil =>
    rw [List.mapIdx_nil,read_shards_back,pure_ok_iff] at done
    exact done
  | cons piece rest ih =>
    simp only [List.mapIdx_cons,read_shards_back,Prog.bind_ok_iff,io_ok_iff,pure_ok_iff] at done
    obtain ⟨content,_,loaded,shards',_,more,rfl,rfl⟩ := done
    have here := stored 0 piece (by simp)
    simp only [List.length_cons] at few
    have number : (chunkInfo P .Data (u32 (start + 0)) piece).index = start := u32_of_lt (by omega)
    rw [number] at loaded
    obtain ⟨found,rfl⟩ := Fs.read_done (leads.chunk start) loaded
    rw [Nat.add_zero] at here
    rw [here] at found
    cases found
    have shifted : (rest.mapIdx fun i piece => chunkInfo P .Data (u32 (start + (i + 1))) piece) =
        rest.mapIdx fun i piece => chunkInfo P .Data (u32 (start + 1 + i)) piece := by
      simp only [Nat.add_comm,Nat.add_left_comm]
    rw [shifted] at more
    obtain ⟨rfl,rfl⟩ := ih (start + 1) (by omega)
      (fun i piece found => by
        have next := stored (i + 1) piece (by simpa using found)
        rwa [show start + (i + 1) = start + 1 + i by omega] at next) more
    exact ⟨by simp [Primitives.bytes],rfl⟩

theorem write_parity_nil (path : OsPath) (index : Nat) : write_parity P path index [] = pure [] := rfl

theorem write_parity_cons (path : OsPath) (index : Nat) (shard : Bytes) (rest : List Bytes) :
    write_parity P path index (shard :: rest) = (do
      let ci ← write_chunk_file P (join path (chunk_name index)) index shard
      let infos ← write_parity P path (index + 1) rest
      pure ({ ci with kind := .Parity } :: infos)) := (rfl)

theorem write_parity_done (leads : Leads path dir name) {shards : List Bytes} {w w' : World} (start : Nat)
    {infos : List ChunkInfo} (done : write_parity P path start shards w = (.ok infos,w')) :
    infos = parityInfos P start shards ∧ w'.rows = w.rows ∧
    (∀ p, (∀ i, start ≤ i → p ≠ dir ++ [name] ++ [chunk_name i]) → w'.tree.node p = w.tree.node p) ∧
    ∀ i shard, shards[i]? = some shard →
      w'.tree.node (dir ++ [name] ++ [chunk_name (start + i)]) = some (.file (.bytes shard)) := by
  induction shards generalizing start infos w with
  | nil =>
    rw [write_parity_nil,pure_ok_iff] at done
    obtain ⟨rfl,rfl⟩ := done
    exact ⟨rfl,rfl,fun _ _ => rfl,by simp⟩
  | cons shard rest ih =>
    simp only [write_parity_cons,write_chunk_file,Prog.bind_ok_iff,io_ok_iff,pure_ok_iff] at done
    obtain ⟨_,_,⟨_,w₁,written,rfl,rfl⟩,infos',_,more,rfl,rfl⟩ := done
    obtain ⟨sets,_,_⟩ := Fs.write_done (leads.chunk start) written
    obtain ⟨rfl,rows,outside,stored⟩ := ih (start + 1) more
    refine ⟨?_,rows.trans sets.rows,fun p other => ?_,fun i found here => ?_⟩
    · simp only [parityInfos,List.mapIdx_cons,chunkInfo,Nat.add_zero,List.cons.injEq,true_and]
      simp only [Nat.add_comm,Nat.add_left_comm]
    · rw [outside p fun i later => other i (by omega),sets.tree,if_neg (other start le_rfl)]
    · cases i with
      | zero =>
        simp only [List.getElem?_cons_zero,Option.some.injEq] at here
        have apart : ∀ i, start + 1 ≤ i → dir ++ [name] ++ [chunk_name start] ≠ dir ++ [name] ++ [chunk_name i] := by
          intro i later same
          have := chunk_name_injective (List.singleton_inj.mp (List.append_cancel_left same))
          omega
        rw [Nat.add_zero,outside _ apart,sets.tree,if_pos rfl,here]
      | succ i =>
        have next := stored i found (by simpa using here)
        rwa [show start + 1 + i = start + (i + 1) by omega] at next

/-- Nothing but entries of the directory `q` differs from `w₀`. -/
structure OnlyEntries (q : OsPath) (w₀ w : World) : Prop where
  rows : w.rows = w₀.rows
  tree : ∀ p, (∀ n, p ≠ q ++ [n]) → w.tree.node p = w₀.tree.node p

theorem manifest_ne_chunk {q : OsPath} (i : Nat) : q ++ ["manifest.json"] ≠ q ++ [chunk_name i] := by
  intro same
  exact chunk_name_ne ⟨'m',by decide,by decide⟩ (List.singleton_inj.mp (List.append_cancel_left same)).symm

theorem compute_and_write_parity_from_done (fs : FilesystemStorage) (leads : Leads path dir name) {pieces : List Bytes}
    {w w' : World} (stored : ∀ i piece, pieces[i]? = some piece →
      w.tree.node (dir ++ [name] ++ [chunk_name i]) = some (.file (.bytes piece))) {infos : List ChunkInfo}
    (done : fs.compute_and_write_parity_from P path (dataInfos P pieces) w = (.ok infos,w')) :
    ∃ shards, Parity P pieces.length fs.parity_shards fs.chunk_size pieces shards ∧
      infos = parityInfos P pieces.length shards ∧ w'.rows = w.rows ∧
      (∀ p, (∀ i, pieces.length ≤ i → p ≠ dir ++ [name] ++ [chunk_name i]) → w'.tree.node p = w.tree.node p) ∧
      ∀ i shard, shards[i]? = some shard →
        w'.tree.node (dir ++ [name] ++ [chunk_name (pieces.length + i)]) = some (.file (.bytes shard)) := by
  have count : (dataInfos P pieces).length = pieces.length := List.length_mapIdx
  simp only [FilesystemStorage.compute_and_write_parity_from,count] at done
  split at done
  next => simp at done
  next few =>
    simp only [Prog.bind_ok_iff,lift_ok_iff] at done
    obtain ⟨padded,_,back,_,_,⟨ready,rfl⟩,shards,_,⟨encoded,rfl⟩,written⟩ := done
    have shape : dataInfos P pieces = pieces.mapIdx fun i piece => chunkInfo P .Data (u32 (0 + i)) piece := by
      simp only [dataInfos,Nat.zero_add]
    rw [shape] at back
    obtain ⟨rfl,rfl⟩ := read_shards_back_done leads 0 (by omega) (by simpa using stored) back
    obtain ⟨rfl,rows,outside,new⟩ := write_parity_done leads pieces.length written
    refine ⟨shards,⟨by omega,?_,?_⟩,rfl,rows,outside,new⟩
    · rcases out : P.rs_new pieces.length fs.parity_shards with e | _
      · rw [out] at ready; cases ready
      · rfl
    · rcases out : P.rs_encode pieces.length fs.parity_shards
        (pieces.map fun piece => resize piece fs.chunk_size) with e | found
      · rw [out] at encoded; cases encoded
      · rw [out] at encoded; cases encoded; rfl

theorem write_manifest_done (fs : FilesystemStorage) (leads : Leads path dir name) {data : Bytes} {cw : ChunkWriter}
    {w w' : World} (finished : cw.Finished P (dir ++ [name]) w₀ fs.chunk_size data w) {total : Nat}
    {plaintext_size : Option Nat} {format : String} (whole : total = data.length)
    (done : fs.write_manifest P path cw total plaintext_size w = (.ok format,w')) :
    (∃ manifest, EcHolds P w'.tree (dir ++ [name]) fs.chunk_size fs.parity_shards data manifest) ∧
      OnlyEntries (dir ++ [name]) w₀ w' := by
  subst whole
  have count : cw.chunks.length = (dataChunks fs.chunk_size data).length := by
    rw [finished.chunks]
    exact List.length_mapIdx
  unfold FilesystemStorage.write_manifest at done
  simp only at done
  split at done
  next has =>
    simp only [Bool.and_eq_true,decide_eq_true_eq] at has
    rw [finished.chunks] at done
    simp only [Prog.bind_ok_iff,io_ok_iff,pure_ok_iff] at done
    obtain ⟨infos,w₁,coded,_,_,written,rfl,rfl⟩ := done
    have small : (dataChunks fs.chunk_size data).length ≤ 2 ^ 32 := by
      by_contra many
      simp only [FilesystemStorage.compute_and_write_parity_from,← finished.chunks,count] at coded
      split at coded
      next => simp at coded
      next => omega
    obtain ⟨shards,parity,rfl,rows,outside,new⟩ :=
      compute_and_write_parity_from_done fs leads (finished.stored small) coded
    obtain ⟨sets,_,_⟩ := Fs.write_done leads.manifest written
    refine ⟨⟨_,sets.here,rfl,rfl,?_,fun _ i piece found => ?_,.inr ⟨shards,parity,has.1,?_,rfl,rfl,rfl,fun i shard found => ?_⟩⟩,
      ⟨?_,fun p other => ?_⟩⟩
    · simp only [dataInfos,List.length_mapIdx]
    · rw [sets.tree,if_neg (manifest_ne_chunk i).symm,outside,finished.stored small i piece found]
      intro j later same
      have index := chunk_name_injective (List.singleton_inj.mp (List.append_cancel_left same))
      have inside := (List.getElem?_eq_some_iff.mp found).1
      omega
    · rintro rfl
      simp at has
    · rw [sets.tree,if_neg (manifest_ne_chunk _).symm,new i shard found]
    · rw [sets.rows,rows,finished.outside.rows]
    · rw [sets.tree,if_neg (other _),outside p fun i _ => other _,finished.outside.tree p fun i => other _]
  next hasNot =>
    simp only [Prog.bind_ok_iff,io_ok_iff,pure_ok_iff] at done
    obtain ⟨_,_,⟨rfl,rfl⟩,_,_,written,rfl,rfl⟩ := done
    obtain ⟨sets,_,_⟩ := Fs.write_done leads.manifest written
    simp only [Bool.and_eq_true,decide_eq_true_eq] at hasNot
    refine ⟨⟨_,sets.here,rfl,rfl,?_,fun few i piece found => ?_,.inl ⟨?_,?_,?_⟩⟩,⟨?_,fun p other => ?_⟩⟩
    · rw [count]
    · rw [sets.tree,if_neg (manifest_ne_chunk i).symm,finished.stored few i piece found]
    · simp [finished.chunks]
    · rfl
    · by_cases none : fs.parity_shards = 0
      · exact .inl none
      · right
        apply List.length_eq_zero_iff.mp
        omega
    · rw [sets.rows,finished.outside.rows]
    · rw [sets.tree,if_neg (other _),finished.outside.tree p fun i => other _]

/-! ### Reading back -/

theorem length_pieces {size : Nat} (positive : 0 < size) (data : Bytes) :
    (Chunking.pieces size data).length = (data.length + size - 1) / size := by
  apply Nat.le_antisymm
  · by_contra more
    have beyond := (Chunking.getElem?_pieces positive data ((data.length + size - 1) / size))
    rw [List.getElem?_eq_getElem (by omega)] at beyond
    split at beyond
    next inside =>
      have := Nat.lt_mul_div_succ (data.length + size - 1) positive
      rw [Nat.mul_add,Nat.mul_one,Nat.mul_comm] at this
      omega
    next => cases beyond
  · by_contra fewer
    have at' := Chunking.getElem?_pieces positive data (Chunking.pieces size data).length
    rw [List.getElem?_eq_none le_rfl] at at'
    split at at'
    next => cases at'
    next outside =>
      have := (Nat.le_div_iff_mul_le positive).mp (show (Chunking.pieces size data).length + 1 ≤ (data.length + size - 1) / size by omega)
      rw [Nat.add_mul,Nat.one_mul] at this
      omega

theorem length_dataChunks_mul {size : Nat} (positive : 0 < size) (data : Bytes) :
    data.length ≤ (dataChunks size data).length * size := by
  unfold dataChunks
  split
  next empty => simp [empty]
  next =>
    rw [length_pieces positive]
    have := Nat.lt_mul_div_succ (data.length + size - 1) positive
    rw [Nat.mul_add,Nat.mul_one,Nat.mul_comm] at this
    omega

/-- Chunk `i` that holds data is that part of the data. -/
theorem getElem?_dataChunks {size : Nat} (positive : 0 < size) {data : Bytes} {i : Nat} (inside : i * size < data.length) :
    (dataChunks size data)[i]? = some (VerifiedChunkReader.chunkOf size data i) := by
  have filled : data ≠ [] := by
    rintro rfl
    simp at inside
  rw [dataChunks,if_neg filled,Chunking.getElem?_pieces positive,if_pos inside]
  rfl

theorem getElem?_dataInfos (pieces : List Bytes) (i : Nat) :
    (dataInfos P pieces)[i]? = pieces[i]?.map fun piece => chunkInfo P .Data (u32 i) piece := by
  simp [dataInfos]

namespace EcHolds
variable {t : Disk} {q : OsPath} {size m : Nat} {data : Bytes} {manifest : ChunkManifest}

/-- The manifest lists the data chunks first. -/
theorem chunk_info (holds : EcHolds P t q size m data manifest) {i : Nat} {piece : Bytes}
    (here : (dataChunks size data)[i]? = some piece) :
    manifest.chunks[i]? = some (chunkInfo P .Data (u32 i) piece) := by
  have listed : (dataInfos P (dataChunks size data))[i]? = some (chunkInfo P .Data (u32 i) piece) := by
    rw [getElem?_dataInfos,here]
    rfl
  rcases holds.parity with ⟨chunks,_⟩ | ⟨shards,_,_,_,chunks,_⟩
  · rw [chunks,listed]
  · rw [chunks,List.getElem?_append_left (List.getElem?_eq_some_iff.mp listed).1,listed]

/-- Every chunk of an undamaged directory can be fetched, and is what was written. -/
theorem fetches (leads : Leads path dir name) (holds : EcHolds P t (dir ++ [name]) size m data manifest)
    (few : (dataChunks size data).length ≤ 2 ^ 32) {i : Nat} {piece : Bytes}
    (here : (dataChunks size data)[i]? = some piece) :
    VerifiedChunkReader.Source.chunk P ⟨t,path,manifest⟩ i = .ok piece := by
  have found := holds.stored few i piece here
  have read : Fs.readAt t (join path (chunk_name i)) = .ok (.bytes piece) := by
    rw [Fs.readAt_leads (leads.chunk i),Tree.read,found]
  exact @VerifiedChunkReader.Source.chunk_of_file P ⟨t,path,manifest⟩ i _ (.bytes piece) (holds.chunk_info here) read
    rfl rfl

theorem honest (positive : 0 < size) (leads : Leads path dir name)
    (holds : EcHolds P t (dir ++ [name]) size m data manifest) (few : (dataChunks size data).length < 2 ^ 32) :
    VerifiedChunkReader.Source.Honest P ⟨t,path,manifest⟩ data False := by
  have covers := length_dataChunks_mul positive data
  have count : manifest.chunk_count = (dataChunks size data).length := by rw [holds.count,u32_of_lt few]
  refine ⟨holds.total,by simpa [holds.chunk_size] using positive,?_,?_,fun i bytes inside fetched => ?_,
    fun i e inside failed => ?_⟩
  · simpa [count] using few
  · simpa [count,holds.chunk_size] using covers
  · simp only [holds.chunk_size] at inside ⊢
    rw [holds.fetches leads (by omega) (getElem?_dataChunks positive inside)] at fetched
    injection fetched with fetched
    exact fetched.symm
  · simp only [holds.chunk_size] at inside
    rw [holds.fetches leads (by omega) (getElem?_dataChunks positive inside)] at failed
    cases failed

/-- With more chunks than a `u32` counts, no reader gets to the end of the data. -/
theorem short_read (positive : 0 < size) (holds : EcHolds P t q size m data manifest)
    (many : 2 ^ 32 ≤ (dataChunks size data).length) (path : OsPath) :
    (∀ i bytes, VerifiedChunkReader.Source.chunk P ⟨t,path,manifest⟩ i = .ok bytes →
      bytes.length ≤ manifest.chunk_size) ∧ manifest.chunk_count < 2 ^ 32 ∧
      max manifest.chunk_count 1 * manifest.chunk_size < data.length := by
  have plain : manifest.chunks = dataInfos P (dataChunks size data) ∧ manifest.parity_shards = none := by
    rcases holds.parity with ⟨chunks,none,_⟩ | ⟨_,parity,_⟩
    · exact ⟨chunks,none⟩
    · have := parity.few
      omega
  refine ⟨fun i bytes fetched => ?_,?_,?_⟩
  · obtain ⟨info,listed,source⟩ := VerifiedChunkReader.Source.chunk_ok P fetched
    simp only [plain.1,getElem?_dataInfos] at listed
    rcases here : (dataChunks size data)[i]? with _ | piece
    · simp [here] at listed
    · simp only [here,Option.map_some,Option.some.injEq] at listed
      have sized : bytes.length = piece.length := by
        rcases source with ⟨_,_,_,length,_⟩ | ⟨parity,_⟩
        · rw [length,← listed]
          rfl
        · simp [plain.2] at parity
      rw [sized,holds.chunk_size]
      have filled : data ≠ [] := by
        rintro rfl
        simp [dataChunks] at many
      rw [dataChunks,if_neg filled,Chunking.getElem?_pieces positive] at here
      split at here
      next => cases here; simp
      next => cases here
  · rw [holds.count]
    exact u32_lt _
  · have filled : data ≠ [] := by
      rintro rfl
      simp [dataChunks] at many
    have length : (dataChunks size data).length = (data.length + size - 1) / size := by
      rw [dataChunks,if_neg filled,length_pieces positive]
    rw [holds.chunk_size,holds.count]
    have wraps : max (u32 (dataChunks size data).length) 1 ≤ (dataChunks size data).length - 1 := by
      unfold u32
      omega
    have below := Nat.div_mul_le_self (data.length + size - 1) size
    rw [← length] at below
    calc max (u32 (dataChunks size data).length) 1 * size
        ≤ ((dataChunks size data).length - 1) * size := Nat.mul_le_mul_right _ wraps
      _ < data.length := by
        rw [Nat.sub_mul,Nat.one_mul]
        have := List.length_pos_iff.mpr filled
        omega

end EcHolds
end Writing
end Maxio
