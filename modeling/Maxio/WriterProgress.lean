import Maxio.Progress

/-!
A writer on a file of its own goes through whenever its frames can be made.
-/

set_option linter.unusedSimpArgs false

namespace Maxio
open FileTree (Node Tree)

/-! ### The file -/

namespace Fs
variable {p dir : OsPath} {name : String} {w : World}

theorem append_succeeds {old : Bytes} (leads : Leads p dir name)
    (file : w.tree.node (dir ++ [name]) = some (.file (.bytes old))) (data : Bytes) :
    ∃ w', append p data w = (.ok (),w') := by
  have parent : w.tree.node dir = some .dir :=
    w.tree.dir_of_prefix (List.prefix_append dir [name]) (by simp) (by simp [file])
  have read : w.tree.read (dir ++ [name]) = .ok (.bytes old) := by
    rw [Tree.read,file]
  obtain ⟨t,written⟩ := Tree.write_ok (t := w.tree) (p := dir ++ [name]) (by simp) (by simpa using parent) (by simp [file])
    (Content.bytes (old ++ data))
  refine ⟨{ w with tree := t },?_⟩
  rw [append_leads leads,change_ok_iff]
  refine ⟨t,?_,rfl⟩
  rw [read]
  exact written

theorem remove_file_succeeds {c : Content} (leads : Leads p dir name)
    (file : w.tree.node (dir ++ [name]) = some (.file c)) : ∃ w', remove_file p w = (.ok (),w') := by
  obtain ⟨t,removed⟩ := Tree.removeFile_ok file
  refine ⟨{ w with tree := t },?_⟩
  rw [remove_file_leads leads,change_ok_iff]
  exact ⟨t,removed,rfl⟩

end Fs

section Flat
variable {P : Primitives} {path dir : OsPath} {name : String} (leads : Leads path dir name) {w₀ w : World} {disk : Bytes}
include leads

theorem Holding.append_succeeds (holding : Holding (dir ++ [name]) disk w₀ w) (data : Bytes) :
    ∃ w', Fs.append path data w = (.ok (),w') ∧ Holding (dir ++ [name]) (disk ++ data) w₀ w' := by
  obtain ⟨w',done⟩ := Fs.append_succeeds leads ((holding.tree _).trans (if_pos rfl)) data
  exact ⟨w',done,holding.append leads done⟩

theorem buf_write_all_succeeds (holding : Holding (dir ++ [name]) disk w₀ w) (pending data : Bytes) :
    ∃ pending' w', buf_write_all path pending data w = (.ok pending',w') := by
  have take : ∀ {disk : Bytes} {w : World} (pending : Bytes), Holding (dir ++ [name]) disk w₀ w → ∃ pending' w',
      (if data.length ≥ IO_BUFFER_SIZE then do
          io (Fs.append path data)
          pure pending
        else pure (pending ++ data) : Action Bytes) w = (.ok pending',w') := by
    intro disk w pending holding
    by_cases large : data.length ≥ IO_BUFFER_SIZE
    · obtain ⟨w',done,_⟩ := holding.append_succeeds leads data
      rw [if_pos large,Prog.bind_of_ok (io_ok_iff.mpr done)]
      exact ⟨_,_,rfl⟩
    · rw [if_neg large]
      exact ⟨_,_,rfl⟩
  unfold buf_write_all
  by_cases full : pending.length + data.length > IO_BUFFER_SIZE
  · obtain ⟨w₁,flushed,holding₁⟩ := holding.append_succeeds leads pending
    rw [if_pos full]
    simp only [Prog.bind_assoc]
    rw [Prog.bind_of_ok (io_ok_iff.mpr flushed),Prog.pure_bind]
    exact take [] holding₁
  · rw [if_neg full,Prog.pure_bind]
    exact take pending holding

end Flat

/-! ### The frames -/

/-- Every frame that the format can number can be made. -/
def Capable (P : Primitives) (cipher : FrameCipher) : Prop :=
  ∀ i < 2 ^ 32, ∀ piece : Bytes, piece.length ≤ FRAME_CHUNK_SIZE → ∃ frame, sealFrame P cipher i piece = some frame

section Frames
variable {P : Primitives} {cipher : FrameCipher}

/-- Messages of the length of a frame are encrypted, and eight bytes of prefix leave four for the index. -/
theorem capable_of_encrypts
    (encrypts : ∀ key nonce aad message : Bytes, message.length ≤ FRAME_CHUNK_SIZE →
      (P.encrypt key nonce aad message).isSome = true)
    (eight : cipher.nonce_prefix.length = 8) : Capable P cipher := by
  intro i below piece short
  have numbered : make_frame_nonce cipher.nonce_prefix i = .ok (cipher.nonce_prefix ++ le_bytes 4 i) := by
    rw [make_frame_nonce,if_neg (by omega),if_pos eight,if_neg (by omega)]
  obtain ⟨sealed,made⟩ := Option.isSome_iff_exists.mp
    (encrypts cipher.key (cipher.nonce_prefix ++ le_bytes 4 i) (cipher.aad i) piece short)
  refine ⟨cipher.nonce_prefix ++ le_bytes 4 i ++ sealed,?_⟩
  rw [sealFrame,numbered]
  simp only [made,Option.map_some]

theorem sealFrame_numbered {i : Nat} {piece frame : Bytes} (eight : cipher.nonce_prefix.length = 8)
    (made : sealFrame P cipher i piece = some frame) : i < 2 ^ 32 := by
  by_contra beyond
  have refused : make_frame_nonce cipher.nonce_prefix i =
      .error (.EncryptionError "object has too many encrypted frames for nonce format") := by
    rw [make_frame_nonce,if_neg (by omega),if_pos eight,if_pos (by omega)]
  rw [sealFrame,refused] at made
  cases made

theorem encrypt_frame_to_vec_succeeds {i : Nat} {piece frame : Bytes} (made : sealFrame P cipher i piece = some frame)
    (w : World) : ∃ w', encrypt_frame_to_vec P cipher.key cipher.nonce_prefix i piece (cipher.aad i) w = (.ok frame,w') := by
  unfold sealFrame at made
  split at made
  next nonce numbered =>
    obtain ⟨sealed,encrypted,rfl⟩ := Option.map_eq_some_iff.mp made
    refine ⟨{ w with sealings := ⟨true,cipher.key,nonce,cipher.aad i,piece⟩ :: w.sealings },?_⟩
    rw [encrypt_frame_to_vec,numbered,Prog.lift_ok_bind,Prog.bind_of_ok (aes_encrypt_ok_iff.mpr ⟨encrypted,rfl⟩)]
    rfl
  next => cases made

end Frames

/-! ### The writer -/

namespace FlatWriter
variable {P : Primitives} {path dir : OsPath} {name : String} (leads : Leads path dir name) {w₀ w : World}
include leads

theorem write_encrypted_frame_succeeds {cipher : FrameCipher} {pieces : List Bytes} {fw : FlatWriter}
    (wrote : Wrote P cipher (dir ++ [name]) w₀ pieces fw w) (capable : Capable P cipher) (room : pieces.length < 2 ^ 32)
    {piece : Bytes} (short : piece.length ≤ FRAME_CHUNK_SIZE) :
    ∃ fw' w', write_encrypted_frame P path cipher fw piece w = (.ok fw',w') := by
  obtain ⟨frame,made⟩ := capable _ room piece short
  rw [← wrote.index] at made
  obtain ⟨w₁,encrypted⟩ := encrypt_frame_to_vec_succeeds made w
  obtain ⟨_,tree,rows⟩ := encrypt_frame_to_vec_done encrypted
  obtain ⟨disk,_,holding,_⟩ := wrote.content
  have holding₁ : Holding (dir ++ [name]) disk w₀ w₁ := ⟨rows.trans holding.rows,fun p => by rw [tree,holding.tree]⟩
  obtain ⟨pending₂,w₂,head⟩ := buf_write_all_succeeds leads holding₁ fw.pending (frame.take 12)
  obtain ⟨_,holding₂,_⟩ := buf_write_all_done leads holding₁ head
  obtain ⟨pending₃,w₃,tail⟩ := buf_write_all_succeeds leads holding₂ pending₂ (frame.drop 12)
  rw [write_encrypted_frame,Prog.bind_of_ok encrypted,Prog.bind_of_ok head,Prog.bind_of_ok tail]
  exact ⟨_,_,rfl⟩

omit leads in
/-- The frames that a body is cut into before its last one. -/
theorem full_below {body : Bytes} (bound : (Chunking.pieces FRAME_CHUNK_SIZE body).length ≤ 2 ^ 32) :
    (Chunking.full FRAME_CHUNK_SIZE body).length ≤ 2 ^ 32 ∧
      (Chunking.rest FRAME_CHUNK_SIZE body ≠ [] → (Chunking.full FRAME_CHUNK_SIZE body).length < 2 ^ 32) := by
  rw [Chunking.pieces,List.length_append] at bound
  refine ⟨by omega,?_⟩
  intro partial'
  rw [if_neg partial',List.length_singleton] at bound
  omega

omit leads in
theorem full_monotone (body more : Bytes) :
    (Chunking.full FRAME_CHUNK_SIZE body).length ≤ (Chunking.full FRAME_CHUNK_SIZE (body ++ more)).length := by
  rw [Chunking.length_full (by decide),Chunking.length_full (by decide),List.length_append]
  exact Nat.div_le_div_right (by omega)

theorem write_succeeds {cipher : Option FrameCipher} {body piece : Bytes} {fw : FlatWriter}
    (took : Took P cipher (dir ++ [name]) w₀ body fw w) (capable : ∀ c, cipher = some c → Capable P c)
    (room : cipher.isSome = true → (Chunking.full FRAME_CHUNK_SIZE (body ++ piece)).length ≤ 2 ^ 32) :
    ∃ fw' w', write P path cipher fw piece w = (.ok fw',w') := by
  cases cipher with
  | none =>
    obtain ⟨disk,holding,_⟩ := took.plain rfl
    obtain ⟨pending,w₁,buffered⟩ := buf_write_all_succeeds leads holding fw.pending piece
    simp only [write]
    rw [Prog.bind_of_ok buffered]
    exact ⟨_,_,rfl⟩
  | some c =>
    obtain ⟨buf,wrote⟩ := took.encrypted c rfl
    have space := room rfl
    rw [Chunking.full_append (by decide),← buf,List.length_append] at space
    have size := Chunking.full_piece_length (n := FRAME_CHUNK_SIZE) (by decide) (fw.frame_buf ++ piece)
    -- the loop over the full frames of the buffer, with the frames before them
    have loop : ∀ (items past : List Bytes) (fw₁ : FlatWriter) (w₁ : World),
        Wrote P c (dir ++ [name]) w₀ past fw₁ w₁ → past.length + items.length ≤ 2 ^ 32 →
        (∀ item ∈ items, item.length = FRAME_CHUNK_SIZE) →
        ∃ fw' w', Prog.fold (write_encrypted_frame P path c) fw₁ items w₁ = (.ok fw',w') := by
      intro items
      induction items with
      | nil => exact fun _ _ _ _ _ _ => ⟨_,_,rfl⟩
      | cons item rest ih =>
        intro past fw₁ w₁ wrote fits whole
        rw [List.length_cons] at fits
        obtain ⟨fw₂,w₂,first⟩ := write_encrypted_frame_succeeds leads wrote (capable c rfl) (by omega)
          (whole item (by simp)).le
        obtain ⟨wrote₂,_,_⟩ := write_encrypted_frame_done leads wrote first
        rw [Prog.fold,Prog.bind_of_ok first]
        apply ih (past ++ [item]) fw₂ w₂ wrote₂
        · simp only [List.length_append,List.length_singleton]
          omega
        · intro other member
          exact whole other (by simp [member])
    exact loop _ _ _ _ ⟨wrote.index,wrote.content⟩ space size

/-- A pump whose whole body can be framed goes through. -/
theorem pump_succeeds {cipher : Option FrameCipher} {failed : IoError → StorageError} (reads : List Bytes) {body : Bytes}
    {fw : FlatWriter} (took : Took P cipher (dir ++ [name]) w₀ body fw w) (capable : ∀ c, cipher = some c → Capable P c)
    (room : cipher.isSome = true → (Chunking.full FRAME_CHUNK_SIZE (body ++ reads.flatten)).length ≤ 2 ^ 32) :
    ∃ fw' w', pump (write P path cipher) failed reads none fw w = (.ok fw',w') ∧
      Took P cipher (dir ++ [name]) w₀ (body ++ reads.flatten) fw' w' := by
  induction reads generalizing body fw w with
  | nil => exact ⟨fw,w,rfl,by simpa using took⟩
  | cons piece rest ih =>
    rw [List.flatten_cons,← List.append_assoc] at room
    have now : cipher.isSome = true → (Chunking.full FRAME_CHUNK_SIZE (body ++ piece)).length ≤ 2 ^ 32 := by
      intro sealed
      exact (full_monotone _ _).trans (room sealed)
    obtain ⟨fw₁,w₁,first⟩ := write_succeeds leads took capable now
    obtain ⟨fw₂,w₂,done,last⟩ := ih (write_done leads took first) room
    refine ⟨fw₂,w₂,?_,by rw [List.flatten_cons,← List.append_assoc]; exact last⟩
    rw [pump,Prog.bind_ok_iff] at done ⊢
    obtain ⟨a,w₃,looped,ended⟩ := done
    exact ⟨a,w₃,by rw [Prog.fold,Prog.bind_of_ok first,looped],ended⟩

theorem finish_succeeds {cipher : Option FrameCipher} {body : Bytes} {fw : FlatWriter}
    (took : Took P cipher (dir ++ [name]) w₀ body fw w) (capable : ∀ c, cipher = some c → Capable P c)
    (room : cipher.isSome = true → (Chunking.pieces FRAME_CHUNK_SIZE body).length ≤ 2 ^ 32) :
    ∃ fw' w', finish P path cipher fw w = (.ok fw',w') := by
  have flush : ∀ (fw₁ : FlatWriter) {w₁ : World} {disk : Bytes}, Holding (dir ++ [name]) disk w₀ w₁ → ∃ fw' w', (do
      io (Fs.append path fw₁.pending)
      pure { fw₁ with pending := [] } : Action FlatWriter) w₁ = (.ok fw',w') := by
    intro fw₁ w₁ disk holding
    obtain ⟨w',flushed,_⟩ := holding.append_succeeds leads fw₁.pending
    rw [Prog.bind_of_ok (io_ok_iff.mpr flushed)]
    exact ⟨_,_,rfl⟩
  unfold finish
  cases cipher with
  | none =>
    obtain ⟨disk,holding,_⟩ := took.plain rfl
    exact flush fw holding
  | some c =>
    obtain ⟨buf,wrote⟩ := took.encrypted c rfl
    dsimp only
    by_cases empty : fw.frame_buf = []
    · obtain ⟨disk,_,holding,_⟩ := wrote.content
      rw [if_pos empty]
      exact flush fw holding
    · have below := (full_below (room rfl)).2 (buf ▸ empty)
      have short : fw.frame_buf.length ≤ FRAME_CHUNK_SIZE := by
        rw [buf,Chunking.length_rest (by decide)]
        exact (Nat.mod_lt _ (by decide)).le
      obtain ⟨fw₁,w₁,last⟩ := write_encrypted_frame_succeeds leads wrote (capable c rfl) below short
      obtain ⟨wrote₁,_,_⟩ := write_encrypted_frame_done leads wrote last
      obtain ⟨disk,_,holding,_⟩ := wrote₁.content
      rw [if_neg empty,Prog.bind_of_ok last]
      exact flush fw₁ holding

end FlatWriter
end Maxio
