import Maxio.FrameReads
import Maxio.FsSpec
import Maxio.Writers

/-!
What a writer that succeeds has left on disk: the body itself, its frames, or its chunks with a manifest.
-/

set_option linter.unusedSimpArgs false

namespace Maxio
open FileTree (Node)

theorem io_ok_iff {α : Type} {m : Io α} {w w' : World} {a : α} : io m w = (.ok a,w') ↔ m w = (.ok a,w') :=
  Prog.mapError_ok_iff

theorem lift_ok_iff {σ ε α : Type} {r : Except ε α} {s s' : σ} {a : α} :
    (Prog.lift r : Prog σ ε α) s = (.ok a,s') ↔ r = .ok a ∧ s' = s := by
  rw [Prog.lift_apply,Prod.mk.injEq]
  exact and_congr_right fun _ => eq_comm

theorem pure_ok_iff {σ ε α : Type} {a b : α} {s s' : σ} :
    (pure a : Prog σ ε α) s = (.ok b,s') ↔ b = a ∧ s' = s := by
  rw [Prog.pure_apply,Prod.mk.injEq,Except.ok.injEq]
  exact and_congr eq_comm eq_comm

theorem except_mapError_ok {ε ε' α : Type} {x : Except ε α} {f : ε → ε'} {a : α} :
    x.mapError f = .ok a ↔ x = .ok a := by
  cases x <;> simp [Except.mapError]

/-- The file at `q` holds `content`; the rest of the tree is that of `w₀`. -/
structure Holding (q : OsPath) (content : Bytes) (w₀ w : World) : Prop where
  rows : w.rows = w₀.rows
  tree : ∀ p, w.tree.node p = if p = q then some (.file (.bytes content)) else w₀.tree.node p

/-! ### Frames -/

section Frames
variable (P : Primitives)

/-- Frame `i` of a piece of plaintext, if it can be made. -/
def sealFrame (cipher : FrameCipher) (i : Nat) (piece : Bytes) : Option Bytes :=
  match make_frame_nonce cipher.nonce_prefix i with
  | .ok nonce => (P.encrypt cipher.key nonce (cipher.aad i) piece).map fun sealed => nonce ++ sealed
  | .error _ => none

/-- The frames are those of the pieces, numbered from zero. -/
structure Sealed (cipher : FrameCipher) (pieces frames : List Bytes) : Prop where
  length : frames.length = pieces.length
  frame : ∀ i piece frame, pieces[i]? = some piece → frames[i]? = some frame →
    sealFrame P cipher i piece = some frame

variable {P} {cipher : FrameCipher}

theorem sealed_nil : Sealed P cipher [] [] := ⟨rfl,by simp⟩

theorem Sealed.concat {pieces frames : List Bytes} {piece frame : Bytes} (sealed : Sealed P cipher pieces frames)
    (next : sealFrame P cipher pieces.length piece = some frame) :
    Sealed P cipher (pieces ++ [piece]) (frames ++ [frame]) := by
  refine ⟨by simp [sealed.length],fun i p f here there => ?_⟩
  rcases Nat.lt_trichotomy i pieces.length with before | same | beyond
  · rw [List.getElem?_append_left before] at here
    rw [List.getElem?_append_left (by rw [sealed.length]; exact before)] at there
    exact sealed.frame i p f here there
  · subst same
    rw [List.getElem?_append_right le_rfl] at here
    rw [List.getElem?_append_right (by rw [sealed.length]),sealed.length] at there
    simp only [Nat.sub_self,List.getElem?_cons_zero,Option.some.injEq] at here there
    rw [← here,← there,next]
  · rw [List.getElem?_append_right (by omega),List.getElem?_eq_none (by simp; omega)] at here
    cases here

theorem aes_encrypt_ok_iff {frame : Bool} {failed : StorageError} {key nonce aad message sealed : Bytes} {w w' : World} :
    aes_encrypt P frame failed key nonce aad message w = (.ok sealed,w') ↔
      P.encrypt key nonce aad message = some sealed ∧
        w' = { w with sealings := ⟨frame,key,nonce,aad,message⟩ :: w.sealings } := by
  unfold aes_encrypt
  rcases P.encrypt key nonce aad message with _ | ct
  · simp
  · simp only [Prog.bind_ok_iff,Prog.tell_apply,pure_ok_iff,Prod.mk.injEq,Except.ok.injEq,Option.some.injEq]
    constructor
    · rintro ⟨_,_,⟨_,rfl⟩,rfl,rfl⟩
      exact ⟨rfl,rfl⟩
    · rintro ⟨rfl,rfl⟩
      exact ⟨(),_,⟨trivial,rfl⟩,rfl,rfl⟩

/-- Encrypting a frame changes only the record of encryptions. -/
theorem encrypt_frame_to_vec_done {i : Nat} {piece frame : Bytes} {w w' : World}
    (done : encrypt_frame_to_vec P cipher.key cipher.nonce_prefix i piece (cipher.aad i) w = (.ok frame,w')) :
    sealFrame P cipher i piece = some frame ∧ w'.tree = w.tree ∧ w'.rows = w.rows := by
  simp only [encrypt_frame_to_vec,Prog.bind_ok_iff,lift_ok_iff,pure_ok_iff,aes_encrypt_ok_iff] at done
  obtain ⟨nonce,_,⟨made,rfl⟩,sealed,_,⟨produced,rfl⟩,rfl,rfl⟩ := done
  exact ⟨by simp [sealFrame,made,produced],rfl,rfl⟩

end Frames

/-- The bytes that are stored for a body: the body itself, or its frames. -/
def Payload (P : Primitives) (cipher : Option FrameCipher) (body content : Bytes) : Prop := match cipher with
  | none => content = body
  | some c => ∃ frames, Sealed P c (Chunking.pieces FRAME_CHUNK_SIZE body) frames ∧ content = frames.flatten

/-! ### One file -/

section Flat
variable {P : Primitives} {path dir : OsPath} {name : String} (leads : Leads path dir name) {w₀ : World}
include leads

theorem Holding.append {content data : Bytes} {w w' : World} (holding : Holding (dir ++ [name]) content w₀ w)
    (done : Fs.append path data w = (.ok (),w')) : Holding (dir ++ [name]) (content ++ data) w₀ w' := by
  obtain ⟨old,found,sets⟩ := Fs.append_done leads done
  rw [holding.tree,if_pos rfl] at found
  cases found
  refine ⟨sets.rows.trans holding.rows,fun p => ?_⟩
  rw [sets.tree,holding.tree]
  split <;> rfl

theorem buf_write_all_done {pending pending' data disk : Bytes} {w w' : World}
    (holding : Holding (dir ++ [name]) disk w₀ w) (done : buf_write_all path pending data w = (.ok pending',w')) :
    ∃ disk', Holding (dir ++ [name]) disk' w₀ w' ∧ disk' ++ pending' = disk ++ pending ++ data := by
  -- whatever is flushed first, the pending bytes before the data is taken in are accounted for
  have take : ∀ {pending disk : Bytes} {w : World}, Holding (dir ++ [name]) disk w₀ w →
      (IO_BUFFER_SIZE ≤ data.length → pending = []) →
      (if data.length ≥ IO_BUFFER_SIZE then do
          io (Fs.append path data)
          pure pending
        else pure (pending ++ data) : Action Bytes) w = (.ok pending',w') →
      ∃ disk', Holding (dir ++ [name]) disk' w₀ w' ∧ disk' ++ pending' = disk ++ pending ++ data := by
    intro pending disk w holding empty done
    split at done
    next large =>
      simp only [Prog.bind_ok_iff,io_ok_iff,pure_ok_iff] at done
      obtain ⟨_,_,appended,rfl,rfl⟩ := done
      exact ⟨_,holding.append leads appended,by simp [empty large]⟩
    next =>
      rw [pure_ok_iff] at done
      obtain ⟨rfl,rfl⟩ := done
      exact ⟨disk,holding,by rw [List.append_assoc]⟩
  unfold buf_write_all at done
  split at done
  next =>
    simp only [Prog.bind_ok_iff,io_ok_iff,pure_ok_iff] at done
    obtain ⟨_,_,flushed,_,_,⟨rfl,rfl⟩,done⟩ := done
    obtain ⟨disk',holding',same⟩ := take (holding.append leads flushed) (fun _ => rfl) done
    exact ⟨disk',holding',by simpa using same⟩
  next fits =>
    simp only [Prog.bind_ok_iff,pure_ok_iff] at done
    obtain ⟨_,_,⟨rfl,rfl⟩,done⟩ := done
    refine take holding (fun large => ?_) done
    apply List.length_eq_zero_iff.mp
    omega

end Flat

namespace FlatWriter
variable {P : Primitives} {path dir : OsPath} {name : String} {w₀ : World}

/-- Frames of the given pieces have been written. -/
structure Wrote (P : Primitives) (cipher : FrameCipher) (q : OsPath) (w₀ : World) (pieces : List Bytes)
    (fw : FlatWriter) (w : World) : Prop where
  index : fw.chunk_index = pieces.length
  content : ∃ disk frames, Holding q disk w₀ w ∧ Sealed P cipher pieces frames ∧ disk ++ fw.pending = frames.flatten

/-- The writer has taken in `body`. -/
structure Took (P : Primitives) (cipher : Option FrameCipher) (q : OsPath) (w₀ : World) (body : Bytes)
    (fw : FlatWriter) (w : World) : Prop where
  size : fw.size = body.length
  plain : cipher = none → ∃ disk, Holding q disk w₀ w ∧ disk ++ fw.pending = body
  encrypted : ∀ c, cipher = some c → fw.frame_buf = Chunking.rest FRAME_CHUNK_SIZE body ∧
    Wrote P c q w₀ (Chunking.full FRAME_CHUNK_SIZE body) fw w

private theorem frame_size_pos : 0 < FRAME_CHUNK_SIZE := by decide

theorem write_encrypted_frame_done (leads : Leads path dir name) {cipher : FrameCipher} {pieces : List Bytes}
    {piece : Bytes} {fw fw' : FlatWriter} {w w' : World} (wrote : Wrote P cipher (dir ++ [name]) w₀ pieces fw w)
    (done : write_encrypted_frame P path cipher fw piece w = (.ok fw',w')) :
    Wrote P cipher (dir ++ [name]) w₀ (pieces ++ [piece]) fw' w' ∧ fw'.size = fw.size ∧
      fw'.frame_buf = fw.frame_buf := by
  obtain ⟨disk,frames,holding,sealed,same⟩ := wrote.content
  simp only [write_encrypted_frame,Prog.bind_ok_iff,pure_ok_iff] at done
  obtain ⟨frame,w₁,encrypted,pending₁,w₂,head,pending₂,w₃,tail,rfl,rfl⟩ := done
  obtain ⟨made,tree,rows⟩ := encrypt_frame_to_vec_done encrypted
  have holding₁ : Holding (dir ++ [name]) disk w₀ w₁ := ⟨rows.trans holding.rows,fun p => by rw [tree,holding.tree]⟩
  obtain ⟨disk₂,holding₂,same₂⟩ := buf_write_all_done leads holding₁ head
  obtain ⟨disk₃,holding₃,same₃⟩ := buf_write_all_done leads holding₂ tail
  refine ⟨⟨by simp [wrote.index],disk₃,frames ++ [frame],holding₃,?_,?_⟩,rfl,rfl⟩
  · exact sealed.concat (by rw [← wrote.index]; exact made)
  · simp only [List.flatten_append,List.flatten_cons,List.flatten_nil,List.append_nil]
    rw [same₃,same₂,same,List.append_assoc,List.take_append_drop]

theorem write_done (leads : Leads path dir name) {cipher : Option FrameCipher} {body piece : Bytes}
    {fw fw' : FlatWriter} {w w' : World} (took : Took P cipher (dir ++ [name]) w₀ body fw w)
    (done : write P path cipher fw piece w = (.ok fw',w')) :
    Took P cipher (dir ++ [name]) w₀ (body ++ piece) fw' w' := by
  cases cipher with
  | none =>
    simp only [write,Prog.bind_ok_iff,pure_ok_iff] at done
    obtain ⟨pending,_,buffered,rfl,rfl⟩ := done
    obtain ⟨disk,holding,same⟩ := took.plain rfl
    obtain ⟨disk',holding',same'⟩ := buf_write_all_done leads holding buffered
    refine ⟨by simp [took.size],fun _ => ⟨disk',holding',?_⟩,by simp⟩
    rw [same',same]
  | some c =>
    obtain ⟨buf,wrote⟩ := took.encrypted c rfl
    simp only [write] at done
    -- the full frames of the buffer, one after the other
    have loop := Prog.fold_ok (fun past fw₁ w₁ =>
        Wrote P c (dir ++ [name]) w₀ (Chunking.full FRAME_CHUNK_SIZE body ++ past) fw₁ w₁ ∧
          fw₁.size = (body ++ piece).length ∧
          fw₁.frame_buf = Chunking.rest FRAME_CHUNK_SIZE (fw.frame_buf ++ piece))
      (fun past fw₁ w₁ p fw₂ w₂ inv step => by
        obtain ⟨next,size,kept⟩ := write_encrypted_frame_done leads inv.1 step
        rw [List.append_assoc] at next
        exact ⟨next,size.trans inv.2.1,kept.trans inv.2.2⟩)
      _ [] _ _ _ _ ⟨⟨by simpa using wrote.index,by simpa using wrote.content⟩,by simp [took.size],rfl⟩ done
    obtain ⟨all,size,kept⟩ := loop
    refine ⟨size,by simp,fun c' same => ?_⟩
    cases same
    rw [buf] at kept all
    rw [Chunking.full_append frame_size_pos,Chunking.rest_append frame_size_pos]
    exact ⟨kept,by simpa using all⟩

theorem finish_done (leads : Leads path dir name) {cipher : Option FrameCipher} {body : Bytes} {fw fw' : FlatWriter}
    {w w' : World} (took : Took P cipher (dir ++ [name]) w₀ body fw w)
    (done : finish P path cipher fw w = (.ok fw',w')) :
    fw'.size = body.length ∧ ∃ content, Payload P cipher body content ∧ Holding (dir ++ [name]) content w₀ w' := by
  unfold finish at done
  cases cipher with
  | none =>
    simp only [Prog.bind_ok_iff,io_ok_iff,pure_ok_iff] at done
    obtain ⟨_,_,⟨rfl,rfl⟩,_,_,flushed,rfl,rfl⟩ := done
    obtain ⟨disk,holding,same⟩ := took.plain rfl
    exact ⟨took.size,_,rfl,same ▸ holding.append leads flushed⟩
  | some c =>
    obtain ⟨buf,wrote⟩ := took.encrypted c rfl
    have flush : ∀ {fw₁ : FlatWriter} {w₁ : World}, fw₁.size = fw.size →
        Wrote P c (dir ++ [name]) w₀ (Chunking.pieces FRAME_CHUNK_SIZE body) fw₁ w₁ →
        (do io (Fs.append path fw₁.pending); pure { fw₁ with pending := [] } : Action FlatWriter) w₁ = (.ok fw',w') →
        fw'.size = body.length ∧
          ∃ content, Payload P (some c) body content ∧ Holding (dir ++ [name]) content w₀ w' := by
      intro fw₁ w₁ size all done
      simp only [Prog.bind_ok_iff,io_ok_iff,pure_ok_iff] at done
      obtain ⟨_,_,flushed,rfl,rfl⟩ := done
      obtain ⟨disk,frames,holding,sealed,same⟩ := all.content
      exact ⟨size.trans took.size,_,⟨frames,sealed,rfl⟩,same ▸ holding.append leads flushed⟩
    simp only at done
    split at done
    next empty =>
      rw [Prog.bind_ok_iff] at done
      obtain ⟨fw₁,w₁,last,done⟩ := done
      rw [pure_ok_iff] at last
      obtain ⟨rfl,rfl⟩ := last
      refine flush rfl ?_ done
      rw [Chunking.pieces,if_pos (buf ▸ empty),List.append_nil]
      exact wrote
    next partial' =>
      rw [Prog.bind_ok_iff] at done
      obtain ⟨fw₁,w₁,last,done⟩ := done
      obtain ⟨next,size,_⟩ := write_encrypted_frame_done leads wrote last
      refine flush size ?_ done
      rw [Chunking.pieces,if_neg (buf ▸ partial'),← buf]
      exact next

theorem took_new {cipher : Option FrameCipher} {q : OsPath} {w : World} (holding : Holding q [] w₀ w) :
    Took P cipher q w₀ [] new w :=
  ⟨rfl,fun _ => ⟨[],holding,rfl⟩,fun _ _ => ⟨rfl,rfl,[],[],holding,sealed_nil,rfl⟩⟩

/-- The writer changes its own file only. -/
theorem Took.elsewhere {cipher : Option FrameCipher} {q p : OsPath} {body : Bytes} {fw : FlatWriter} {w : World}
    (took : Took P cipher q w₀ body fw w) (apart : p ≠ q) : w.tree.node p = w₀.tree.node p := by
  cases cipher with
  | none =>
    obtain ⟨_,holding,_⟩ := took.plain rfl
    rw [holding.tree,if_neg apart]
  | some c =>
    obtain ⟨_,_,_,_,holding,_⟩ := took.encrypted c rfl
    rw [holding.tree,if_neg apart]

end FlatWriter

/-- A pump that went through has written every piece of a stream that did not fail. -/
theorem pump_ok {α : Type} {write : α → Bytes → Action α} {failed : IoError → StorageError} {reads : List Bytes}
    {failure : Option IoError} {start last : α} {w w' : World} (I : Bytes → α → World → Prop)
    (step : ∀ body a w piece a' w', I body a w → write a piece w = (.ok a',w') → I (body ++ piece) a' w')
    (body : Bytes) (begins : I body start w) (done : pump write failed reads failure start w = (.ok last,w')) :
    failure = none ∧ I (body ++ reads.flatten) last w' := by
  rw [pump,Prog.bind_ok_iff] at done
  obtain ⟨a,w₁,loop,ended⟩ := done
  cases failure with
  | some e => simp at ended
  | none =>
    rw [pure_ok_iff] at ended
    obtain ⟨rfl,rfl⟩ := ended
    refine ⟨rfl,?_⟩
    exact Prog.fold_ok (fun past a w => I (body ++ past.flatten) a w)
      (fun past a w piece a' w' inv wrote => by simpa using step _ a w piece a' w' inv wrote)
      reads [] start last w w' (by simpa using begins) loop

end Maxio
