import Maxio.StorageSpec
import Maxio.FrameFormat

/-!
Which encryptions an operation can make, whatever its outcome.
-/

set_option linter.unusedSimpArgs false

namespace Maxio
open FileTree (Tree Node)

/-- No upload record appears that was not there before. -/
def Unmade (t t' : Disk) : Prop :=
  ∀ q r, t'.node q = some (.file (.json (.upload r))) → ∃ p, t.node p = some (.file (.json (.upload r)))

/-- Every encryption recorded between two states has the property, and no upload record was made. -/
structure Adds (Q : Sealing → Prop) (w w' : World) : Prop where
  recorded : ∃ new, w'.sealings = new ++ w.sealings ∧ ∀ s ∈ new, Q s
  unmade : Unmade w.tree w'.tree

/-- Every encryption a program makes has the property, and it makes no upload record. -/
abbrev Seals {ε α : Type} (Q : Sealing → Prop) (m : Prog World ε α) : Prop := Prog.Keeps (Adds Q) m

section Rules
variable {Q : Sealing → Prop} {ε ε' α β : Type}

theorem Unmade.refl (t : Disk) : Unmade t t := fun q _ here => ⟨q,here⟩

theorem Unmade.trans {a b c : Disk} (first : Unmade a b) (second : Unmade b c) : Unmade a c := by
  intro q r here
  obtain ⟨p,before⟩ := second q r here
  exact first p r before

theorem Adds.refl (w : World) : Adds Q w w := ⟨⟨[],rfl,by simp⟩,Unmade.refl _⟩

theorem Adds.of_same {w w' : World} (same : w'.sealings = w.sealings) (unmade : Unmade w.tree w'.tree) : Adds Q w w' :=
  ⟨⟨[],by simp [same],by simp⟩,unmade⟩

theorem Adds.trans (a b c : World) (first : Adds Q a b) (second : Adds Q b c) : Adds Q a c := by
  obtain ⟨old,before,early⟩ := first.recorded
  obtain ⟨new,after,late⟩ := second.recorded
  refine ⟨⟨new ++ old,by rw [after,before,List.append_assoc],fun s member => ?_⟩,first.unmade.trans second.unmade⟩
  rcases List.mem_append.mp member with one | two
  · exact late s one
  · exact early s two

theorem Adds.mono {R : Sealing → Prop} {w w' : World} (adds : Adds Q w w') (weaker : ∀ s, Q s → R s) : Adds R w w' := by
  obtain ⟨new,added,all⟩ := adds.recorded
  exact ⟨⟨new,added,fun s member => weaker s (all s member)⟩,adds.unmade⟩

theorem Adds.mem {w w' : World} (adds : Adds Q w w') {s : Sealing} (member : s ∈ w'.sealings) :
    Q s ∨ s ∈ w.sealings := by
  obtain ⟨new,added,all⟩ := adds.recorded
  rw [added,List.mem_append] at member
  exact member.imp_left (all s)

theorem Seals.pure (a : α) : Seals Q (pure a : Prog World ε α) := Prog.Keeps.pure Adds.refl a
theorem Seals.fail (e : ε) : Seals Q (Prog.fail e : Prog World ε α) := Prog.Keeps.fail Adds.refl e
theorem Seals.ask (f : World → α) : Seals Q (Prog.ask f : Prog World ε α) := Prog.Keeps.ask Adds.refl f
theorem Seals.lift (r : Except ε α) : Seals Q (Prog.lift r : Prog World ε α) := Prog.Keeps.lift Adds.refl r

theorem Seals.bind {m : Prog World ε α} {f : α → Prog World ε β} (first : Seals Q m) (second : ∀ a, Seals Q (f a)) :
    Seals Q (m >>= f) := Prog.Keeps.bind Adds.trans first second

theorem Seals.bind_of {m : Prog World ε α} {f : α → Prog World ε β} {G : α → Prop} (first : Seals Q m)
    (gives : Prog.Gives m G) (second : ∀ a, G a → Seals Q (f a)) : Seals Q (m >>= f) :=
  Prog.Keeps.bind_of Adds.trans first gives second

theorem Seals.attempt {m : Prog World ε α} (inner : Seals Q m) :
    Seals Q (Prog.attempt m : Prog World ε' (Except ε α)) := inner
theorem Seals.mapError {f : ε → ε'} {m : Prog World ε α} (inner : Seals Q m) : Seals Q (Prog.mapError f m) := inner
theorem Seals.io {m : Io α} (inner : Seals Q m) : Seals Q (io m) := inner

theorem Seals.ignore {m : Io α} (inner : Seals Q m) : Seals Q (ignore m) :=
  Seals.bind inner.attempt fun _ => Seals.pure ()

theorem Seals.ite {c : Prop} [Decidable c] {m m' : Prog World ε α} (yes : c → Seals Q m) (no : ¬ c → Seals Q m') :
    Seals Q (if c then m else m') := by
  split
  next holds => exact yes holds
  next fails => exact no fails

theorem Seals.fold {f : β → α → Prog World ε β} (items : List α) (step : ∀ acc, ∀ a ∈ items, Seals Q (f acc a))
    (acc : β) : Seals Q (Prog.fold f acc items) := Prog.Keeps.fold Adds.refl Adds.trans items step acc

theorem Seals.each {f : α → Prog World ε Unit} (items : List α) (step : ∀ a ∈ items, Seals Q (f a)) :
    Seals Q (Prog.each f items) := Prog.Keeps.each Adds.refl Adds.trans items step

theorem Seals.tell {f : World → World} (same : ∀ w, (f w).sealings = w.sealings) (tree : ∀ w, (f w).tree = w.tree) :
    Seals Q (Prog.tell f : Prog World ε Unit) :=
  fun w => Adds.of_same (same w) (by rw [Prog.tell_apply,tree]; exact Unmade.refl _)

theorem Quiet.seals {m : Prog World ε α} (quiet : Quiet m) : Seals Q m := by
  intro w
  rw [quiet w]
  exact Adds.refl w

end Rules

/-! ### Calls to the file system -/

namespace Fs
variable {Q : Sealing → Prop}

theorem seals_change {f : Disk → Except FileTree.ErrorKind Disk} (unmade : ∀ t t', f t = .ok t' → Unmade t t') :
    Seals Q (change f) := by
  intro w
  unfold change
  split
  next t done => exact Adds.of_same rfl (unmade w.tree t done)
  next => exact Adds.refl w

theorem bind_done {ε α β : Type} {m : Except ε α} {f : α → Except ε β} {b : β} (done : (m >>= f) = .ok b) :
    ∃ a, m = .ok a ∧ f a = .ok b := by
  cases m with
  | error e => cases done
  | ok a => exact ⟨a,rfl,done⟩

/-- Files only go away. -/
private theorem unmade_of_subset {t t' : Disk} (fewer : ∀ q c, t'.node q = some (.file c) → t.node q = some (.file c)) :
    Unmade t t' := fun q _ here => ⟨q,fewer q _ here⟩

theorem seals_write (p : OsPath) (c : Content) (plain : ∀ r, c ≠ .json (.upload r)) : Seals Q (write p c) := by
  refine seals_change fun t t' done => ?_
  obtain ⟨q,_,written⟩ := bind_done done
  obtain ⟨_,_,_,nodes⟩ := Tree.write_inv written
  intro p' r here
  rw [nodes] at here
  split at here
  · exact absurd (Option.some.inj here) (by simpa using plain r)
  · exact ⟨p',here⟩

theorem seals_append (p : OsPath) (data : Bytes) : Seals Q (append p data) := by
  refine seals_change fun t t' done => ?_
  obtain ⟨old,_,done⟩ := bind_done done
  cases old with
  | json record => cases done
  | bytes old =>
    obtain ⟨q,_,written⟩ := bind_done done
    obtain ⟨_,_,_,nodes⟩ := Tree.write_inv written
    intro p' r here
    rw [nodes] at here
    split at here
    · cases here
    · exact ⟨p',here⟩

theorem seals_remove_file (p : OsPath) : Seals Q (remove_file p) := by
  refine seals_change fun t t' done => unmade_of_subset fun q c here => ?_
  obtain ⟨_,_,removed⟩ := bind_done done
  rw [(Tree.removeFile_inv removed).2] at here
  split at here
  · cases here
  · exact here

theorem seals_remove_dir (p : OsPath) : Seals Q (remove_dir p) := by
  refine seals_change fun t t' done => unmade_of_subset fun q c here => ?_
  obtain ⟨_,_,removed⟩ := bind_done done
  rw [(Tree.removeDir_inv removed).2.2.2] at here
  split at here
  · cases here
  · exact here

theorem seals_remove_dir_all (p : OsPath) : Seals Q (remove_dir_all p) := by
  intro w
  unfold remove_dir_all
  split
  next =>
    split
    next =>
      refine Adds.of_same rfl (unmade_of_subset fun q c here => ?_)
      rw [Tree.node_clear] at here
      split at here
      · cases here
      · exact here
    next => exact Adds.refl w
    next => exact Adds.refl w
  next =>
    refine seals_change (fun t t' done => unmade_of_subset fun q c here => ?_) w
    obtain ⟨_,_,removed⟩ := bind_done done
    rw [(Tree.removeDirAll_inv removed).2.2] at here
    split at here
    · cases here
    · exact here

theorem seals_rename (a b : OsPath) : Seals Q (rename a b) := by
  refine seals_change fun t t' done => ?_
  obtain ⟨qa,_,done⟩ := bind_done done
  obtain ⟨qb,_,moved⟩ := bind_done done
  obtain ⟨_,_,_,_,nodes⟩ := Tree.rename_inv moved
  intro q r here
  rw [nodes] at here
  split at here
  · exact ⟨_,here⟩
  · split at here
    · cases here
    · exact ⟨q,here⟩

theorem seals_read (p : OsPath) : Seals Q (read p) := (Quiet.observe _).seals
theorem seals_try_exists (p : OsPath) : Seals Q (try_exists p) := (Quiet.observe _).seals
theorem seals_is_dir (p : OsPath) : Seals Q (is_dir p) := (Quiet.observe _).seals
theorem seals_read_dir (p : OsPath) : Seals Q (read_dir p) := (Quiet.observe _).seals

private theorem mkdirsAt_unmade {p : OsPath} {t t' : Disk} (done : mkdirsAt p t = .ok t') : Unmade t t' := by
  obtain ⟨q,_,done⟩ := bind_done done
  split at done
  next => cases done; exact Unmade.refl t
  next => cases done
  next =>
    split at done
    next => cases done
    next =>
      refine unmade_of_subset fun q' c here => ?_
      rw [Tree.mkdirs_inv t t' [] q t.root done] at here
      split at here
      · cases here
      · exact here

theorem seals_create_dir_all (p : OsPath) : Seals Q (create_dir_all p) := by
  intro w
  unfold create_dir_all
  split
  · split
    next => exact Adds.refl w
    next => exact Adds.refl w
    next =>
      split
      next t done => exact Adds.of_same rfl (mkdirsAt_unmade done)
      next => exact Adds.refl w
    next => exact Adds.refl w
  · exact seals_change (fun t t' => mkdirsAt_unmade) w

/-- What is read is the content of some file. -/
theorem readAt_file {t : Disk} {p : OsPath} {c : Content} (found : readAt t p = .ok c) :
    ∃ q, t.node q = some (.file c) := by
  obtain ⟨node,located,found⟩ := bind_done found
  cases node with
  | dir => cases found
  | file c' =>
    cases found
    obtain ⟨q,_,located⟩ := bind_done located
    obtain ⟨node,stated,located⟩ := bind_done located
    refine ⟨q,?_⟩
    unfold Tree.stat at stated
    split at stated
    next node' here =>
      cases stated
      rw [here]
      cases node with
      | dir => cases located
      | file c' =>
        dsimp only at located
        split at located
        · cases located
        · cases located
          rfl
    next => cases stated

/-- A copy puts a content in a second place. -/
theorem seals_copy (a b : OsPath) : Seals Q (copy a b) := by
  intro w
  unfold copy
  rw [Prog.bind_apply]
  split
  next c w' read' =>
    rw [Prog.mapError_ok_iff,Fs.read,observe_ok_iff] at read'
    obtain ⟨read',rfl⟩ := read'
    unfold write change
    split
    next t done =>
      refine Adds.of_same rfl fun q r here => ?_
      obtain ⟨q',_,written⟩ := bind_done done
      obtain ⟨_,_,_,nodes⟩ := Tree.write_inv written
      dsimp only at here
      rw [nodes] at here
      split at here
      · cases here
        exact readAt_file read'
      · exact ⟨q,here⟩
    next => exact Adds.refl _
  next e w' read' =>
    have same : Quiet (Prog.mapError copyError (read a)) := Quiet.mapError (Quiet.observe _)
    rw [same.state read']
    exact Adds.refl w

end Fs

namespace Common
variable {Q : Sealing → Prop}

theorem seals_remove_path_if_exists (p : OsPath) (is_dir : Bool) : Seals Q (remove_path_if_exists p is_dir) :=
  Seals.ite (fun _ => (Fs.seals_remove_dir_all p).ignore) fun _ => (Fs.seals_remove_file p).ignore

theorem seals_backup_existing (p : OsPath) (uuid : String) : Seals Q (backup_existing p uuid) := by
  refine Seals.bind (Fs.seals_try_exists p).io fun found => ?_
  exact Seals.ite (fun _ => Seals.bind (Fs.seals_rename _ _).io fun _ => Seals.pure _) fun _ => Seals.pure _

theorem seals_restore_backup (p : OsPath) (backup : Option OsPath) (is_dir : Bool) :
    Seals Q (restore_backup p backup is_dir) := by
  cases backup with
  | none => exact Seals.pure ()
  | some backup => exact Seals.bind (seals_remove_path_if_exists p is_dir) fun _ => (Fs.seals_rename _ _).ignore

theorem seals_cleanup_backup (backup : Option OsPath) (is_dir : Bool) : Seals Q (cleanup_backup backup is_dir) := by
  cases backup with
  | none => exact Seals.pure ()
  | some backup => exact seals_remove_path_if_exists backup is_dir

theorem seals_publish_temp_payload_and_meta (tmp_payload final_payload : OsPath) (payload_is_dir : Bool)
    (tmp_meta final_meta : OsPath) (payload_uuid meta_uuid : String) :
    Seals Q (publish_temp_payload_and_meta tmp_payload final_payload payload_is_dir tmp_meta final_meta payload_uuid
      meta_uuid) := by
  refine Seals.bind (Fs.seals_create_dir_all _).io fun _ => Seals.bind (Fs.seals_create_dir_all _).io fun _ => ?_
  refine Seals.bind (seals_backup_existing _ _) fun payload_backup => ?_
  refine Seals.bind (seals_backup_existing _ _) fun meta_backup => ?_
  refine Seals.bind (Fs.seals_rename _ _).attempt fun moved => ?_
  cases moved with
  | error e =>
    exact Seals.bind (seals_restore_backup _ _ _) fun _ => Seals.bind (seals_restore_backup _ _ _) fun _ => Seals.fail _
  | ok _ =>
    refine Seals.bind (Fs.seals_rename _ _).attempt fun moved => ?_
    cases moved with
    | error e =>
      exact Seals.bind (seals_remove_path_if_exists _ _) fun _ => Seals.bind (seals_restore_backup _ _ _) fun _ =>
        Seals.bind (seals_restore_backup _ _ _) fun _ => Seals.fail _
    | ok _ => exact Seals.bind (seals_cleanup_backup _ _) fun _ => seals_cleanup_backup _ _

theorem seals_with_guard {α : Type} {p : OsPath} {is_dir : Bool} {m : Action α} (inner : Seals Q m) :
    Seals Q (with_guard p is_dir m) :=
  Prog.Keeps.guarded Adds.trans inner (seals_remove_path_if_exists p is_dir)

end Common

/-! ### Frames -/

section Frames
variable {P : Primitives} {Q : Sealing → Prop}

theorem aes_encrypt_seals {frame : Bool} {failed : StorageError} {key nonce aad message : Bytes}
    (may : Q ⟨frame,key,nonce,aad,message⟩) : Seals Q (aes_encrypt P frame failed key nonce aad message) := by
  unfold aes_encrypt
  split
  · refine Seals.bind (fun w => ⟨⟨[_],rfl,?_⟩,Unmade.refl _⟩) fun _ => Seals.pure _
    intro s member
    rw [List.mem_singleton.mp member]
    exact may
  · exact Seals.fail _

/-- The encryption that makes frame `i` of some plaintext. -/
def Issued (cipher : FrameCipher) (i : Nat) (message : Bytes) (s : Sealing) : Prop :=
  ∃ nonce, make_frame_nonce cipher.nonce_prefix i = .ok nonce ∧ s = ⟨true,cipher.key,nonce,cipher.aad i,message⟩

/-- The encryptions of the frames of a body. -/
def FrameOf (cipher : FrameCipher) (body : Bytes) (s : Sealing) : Prop :=
  ∃ i message, (Chunking.pieces FRAME_CHUNK_SIZE body)[i]? = some message ∧ Issued cipher i message s

theorem encrypt_frame_to_vec_seals {cipher : FrameCipher} {i : Nat} {message : Bytes}
    (may : ∀ s, Issued cipher i message s → Q s) :
    Seals Q (encrypt_frame_to_vec P cipher.key cipher.nonce_prefix i message (cipher.aad i)) := by
  refine Seals.bind_of (Seals.lift _) (G := fun nonce => make_frame_nonce cipher.nonce_prefix i = .ok nonce) ?_ ?_
  · intro w nonce w' made
    exact (lift_ok_iff.mp made).1
  · intro nonce made
    exact Seals.bind (aes_encrypt_seals (may _ ⟨nonce,made,rfl⟩)) fun _ => Seals.pure _

/-- The full pieces of a start of some data are the first of its pieces. -/
theorem full_before {start body : Bytes} (before : start <+: body) {i : Nat} {message : Bytes}
    (here : (Chunking.full FRAME_CHUNK_SIZE start)[i]? = some message) :
    (Chunking.pieces FRAME_CHUNK_SIZE body)[i]? = some message := by
  obtain ⟨tail,rfl⟩ := before
  have inside := (List.getElem?_eq_some_iff.mp here).1
  rw [Chunking.pieces,Chunking.full_append frame_chunk_pos,List.append_assoc,List.getElem?_append_left inside]
  exact here

/-- A pump whose writer keeps in step with the bytes it was given. -/
theorem pump_seals {α : Type} {write : α → Bytes → Action α} {failed : IoError → StorageError} {reads : List Bytes}
    {failure : Option IoError} {start : α} (past : Bytes) (I : Bytes → α → Prop) (begins : I past start)
    (step : ∀ front piece a, front ++ piece <+: past ++ reads.flatten → I front a →
      Seals Q (write a piece) ∧ Prog.Gives (write a piece) (I (front ++ piece))) :
    Seals Q (pump write failed reads failure start) ∧
      Prog.Gives (pump write failed reads failure start) (I (past ++ reads.flatten)) := by
  obtain ⟨sealed,gives⟩ := Prog.Keeps.fold_along (R := Adds Q) (f := write) Adds.refl Adds.trans
    (fun front a => I (past ++ front.flatten) a) reads [] start (by simpa using begins) (by
      intro front piece rest a same inv
      rw [List.nil_append] at same
      have := step (past ++ front.flatten) piece a ⟨rest.flatten,by rw [same]; simp⟩ inv
      simpa using this)
  refine ⟨Seals.bind sealed fun last => ?_,Prog.Gives.bind_of gives fun last inv => ?_⟩
  · cases failure with
    | some e => exact Seals.fail _
    | none => exact Seals.pure _
  · cases failure with
    | some e => exact Prog.Gives.fail _
    | none => exact Prog.Gives.pure inv

end Frames

/-! ### One file -/

section Flat
variable {P : Primitives} {Q : Sealing → Prop} {path : OsPath}

theorem buf_write_all_seals (pending data : Bytes) : Seals Q (buf_write_all path pending data) := by
  have rest (pending : Bytes) : Seals Q (if data.length ≥ IO_BUFFER_SIZE then do
      io (Fs.append path data)
      pure pending
    else pure (pending ++ data)) :=
    Seals.ite (fun _ => Seals.bind (Fs.seals_append _ _).io fun _ => Seals.pure _) fun _ => Seals.pure _
  unfold buf_write_all
  dsimp only
  exact Seals.ite (fun _ => Seals.bind (Fs.seals_append _ _).io fun _ => Seals.bind (Seals.pure _) rest)
    fun _ => Seals.bind (Seals.pure _) rest

namespace FlatWriter

/-- The writer has taken in `body` and made its full frames. -/
def Stands (cipher : Option FrameCipher) (body : Bytes) (fw : FlatWriter) : Prop := cipher.isSome →
  fw.chunk_index = (Chunking.full FRAME_CHUNK_SIZE body).length ∧ fw.frame_buf = Chunking.rest FRAME_CHUNK_SIZE body

theorem write_encrypted_frame_seals {cipher : FrameCipher} {fw : FlatWriter} {message : Bytes}
    (may : ∀ s, Issued cipher fw.chunk_index message s → Q s) :
    Seals Q (fw.write_encrypted_frame P path cipher message) :=
  Seals.bind (encrypt_frame_to_vec_seals may) fun _ => Seals.bind (buf_write_all_seals _ _) fun _ =>
    Seals.bind (buf_write_all_seals _ _) fun _ => Seals.pure _

theorem write_encrypted_frame_gives (cipher : FrameCipher) (fw : FlatWriter) (message : Bytes) :
    Prog.Gives (fw.write_encrypted_frame P path cipher message)
      fun fw' => fw'.chunk_index = fw.chunk_index + 1 ∧ fw'.frame_buf = fw.frame_buf :=
  Prog.Gives.bind fun _ => Prog.Gives.bind fun _ => Prog.Gives.bind fun _ => Prog.Gives.pure ⟨rfl,rfl⟩

theorem write_seals {cipher : Option FrameCipher} {past piece body : Bytes} {fw : FlatWriter}
    (may : ∀ c, cipher = some c → ∀ s, FrameOf c body s → Q s) (within : past ++ piece <+: body)
    (stands : Stands cipher past fw) :
    Seals Q (fw.write P path cipher piece) ∧ Prog.Gives (fw.write P path cipher piece) (Stands cipher (past ++ piece)) := by
  cases cipher with
  | none =>
    refine ⟨Seals.bind (buf_write_all_seals _ _) fun _ => Seals.pure _,fun _ _ _ _ some => ?_⟩
    cases some
  | some c =>
    obtain ⟨index,buf⟩ := stands rfl
    have all := Chunking.full_append frame_chunk_pos past piece
    have left := Chunking.rest_append frame_chunk_pos past piece
    rw [← buf] at all left
    -- the frames made here have the indices that follow those already made
    obtain ⟨sealed,gives⟩ := Prog.Keeps.fold_along (R := Adds Q) (f := write_encrypted_frame P path c) Adds.refl Adds.trans
      (fun front (fw' : FlatWriter) => fw'.chunk_index = fw.chunk_index + front.length ∧
        fw'.frame_buf = Chunking.rest FRAME_CHUNK_SIZE (fw.frame_buf ++ piece))
      (Chunking.full FRAME_CHUNK_SIZE (fw.frame_buf ++ piece)) []
      { fw with size := fw.size + piece.length, frame_buf := Chunking.rest FRAME_CHUNK_SIZE (fw.frame_buf ++ piece) }
      ⟨rfl,rfl⟩ (by
        rintro front message rest fw' same ⟨here,kept⟩
        rw [List.nil_append] at same
        constructor
        · refine write_encrypted_frame_seals fun s issued => may c rfl s ⟨fw'.chunk_index,message,?_,issued⟩
          apply full_before within
          rw [all,here,index,List.getElem?_append_right (by omega),Nat.add_sub_cancel_left,same,
            List.getElem?_append_right le_rfl,Nat.sub_self]
          rfl
        · intro w fw'' w' done
          obtain ⟨next,same'⟩ := write_encrypted_frame_gives c fw' message w fw'' w' done
          exact ⟨by rw [next,here,List.length_append]; rfl,same'.trans kept⟩)
    refine ⟨sealed,fun w fw' w' done _ => ?_⟩
    obtain ⟨count,kept⟩ := gives w fw' w' done
    rw [all,left,List.length_append,← index]
    exact ⟨by simpa using count,kept⟩

theorem finish_seals {cipher : Option FrameCipher} {body : Bytes} {fw : FlatWriter}
    (may : ∀ c, cipher = some c → ∀ s, FrameOf c body s → Q s) (stands : Stands cipher body fw) :
    Seals Q (fw.finish P path cipher) := by
  have rest (fw : FlatWriter) : Seals Q (do
      io (Fs.append path fw.pending)
      pure { fw with pending := [] }) :=
    Seals.bind (Fs.seals_append _ _).io fun _ => Seals.pure _
  unfold finish
  cases cipher with
  | none => exact Seals.bind (Seals.pure _) rest
  | some c =>
    obtain ⟨index,buf⟩ := stands rfl
    refine Seals.ite (fun _ => Seals.bind (Seals.pure _) rest) fun filled => Seals.bind ?_ rest
    refine write_encrypted_frame_seals fun s issued => may c rfl s ⟨_,_,?_,issued⟩
    rw [Chunking.pieces,if_neg (buf ▸ filled),index,List.getElem?_append_right le_rfl,Nat.sub_self,buf]
    rfl

theorem stands_new (cipher : Option FrameCipher) : Stands cipher [] new := fun _ => ⟨rfl,rfl⟩

/-- Writing a stream to one file makes frames of its bytes only. -/
theorem pump_write_seals {cipher : Option FrameCipher} (body : ByteStream) (failed : IoError → StorageError)
    (may : ∀ c, cipher = some c → ∀ s, FrameOf c body.body s → Q s) :
    Seals Q (pump (write P path cipher) failed body.reads body.failure new) ∧
      Prog.Gives (pump (write P path cipher) failed body.reads body.failure new) (Stands cipher body.body) :=
  pump_seals [] (Stands cipher) (stands_new _) fun _ _ _ inside stands => write_seals may inside stands

end FlatWriter
end Flat

/-! ### Chunks -/

section Chunks
variable {P : Primitives} {Q : Sealing → Prop} {dir : OsPath} {chunk_size : Nat}

theorem write_chunk_file_seals (path : OsPath) (index : Nat) (data : Bytes) :
    Seals Q (write_chunk_file P path index data) := Seals.bind (Fs.seals_write _ _ (by simp)).io fun _ => Seals.pure _

namespace ChunkWriter

theorem write_chunk_seals (cw : ChunkWriter) (data : Bytes) : Seals Q (cw.write_chunk P dir data) :=
  Seals.bind (write_chunk_file_seals _ _ _) fun _ => Seals.pure _

theorem feed_seals (cw : ChunkWriter) (data : Bytes) : Seals Q (cw.feed P dir chunk_size data) :=
  Seals.fold _ (fun cw piece _ => write_chunk_seals cw piece) _

theorem finish_seals (cw : ChunkWriter) : Seals Q (cw.finish P dir) := by
  have rest (cw : ChunkWriter) : Seals Q (if cw.chunks = [] then do
      let ci ← write_chunk_to_dir P dir 0 []
      pure { cw with chunks := [ci] }
    else pure cw) :=
    Seals.ite (fun _ => Seals.bind (write_chunk_file_seals _ _ _) fun _ => Seals.pure _) fun _ => Seals.pure _
  unfold finish
  exact Seals.ite (fun _ => Seals.bind (Seals.pure _) rest) fun _ =>
    Seals.bind (write_chunk_seals _ _) fun _ => Seals.bind (Seals.pure _) rest

end ChunkWriter

theorem write_plain_seals (cw : Nat × ChunkWriter) (piece : Bytes) : Seals Q (write_plain P dir chunk_size cw piece) :=
  Seals.bind (ChunkWriter.feed_seals _ _) fun _ => Seals.pure _

namespace SealedWriter

/-- The writer has taken in `body` and made its full frames. -/
def Stands (body : Bytes) (sw : SealedWriter) : Prop :=
  sw.frame_index = (Chunking.full FRAME_CHUNK_SIZE body).length ∧ sw.frame_buf = Chunking.rest FRAME_CHUNK_SIZE body

theorem stands_new : Stands [] new := ⟨rfl,rfl⟩

theorem write_frame_seals {cipher : FrameCipher} {sw : SealedWriter} {message : Bytes}
    (may : ∀ s, Issued cipher sw.frame_index message s → Q s) :
    Seals Q (sw.write_frame P dir chunk_size cipher message) :=
  Seals.bind (encrypt_frame_to_vec_seals may) fun _ => Seals.bind (ChunkWriter.feed_seals _ _) fun _ => Seals.pure _

theorem write_frame_gives (cipher : FrameCipher) (sw : SealedWriter) (message : Bytes) :
    Prog.Gives (sw.write_frame P dir chunk_size cipher message)
      fun sw' => sw'.frame_index = sw.frame_index + 1 ∧ sw'.frame_buf = sw.frame_buf :=
  Prog.Gives.bind fun _ => Prog.Gives.bind fun _ => Prog.Gives.pure ⟨rfl,rfl⟩

theorem write_seals {cipher : FrameCipher} {past piece body : Bytes} {sw : SealedWriter}
    (may : ∀ s, FrameOf cipher body s → Q s) (within : past ++ piece <+: body) (stands : Stands past sw) :
    Seals Q (sw.write P dir chunk_size cipher piece) ∧
      Prog.Gives (sw.write P dir chunk_size cipher piece) (Stands (past ++ piece)) := by
  obtain ⟨index,buf⟩ := stands
  have all := Chunking.full_append frame_chunk_pos past piece
  have left := Chunking.rest_append frame_chunk_pos past piece
  rw [← buf] at all left
  obtain ⟨sealed,gives⟩ := Prog.Keeps.fold_along (R := Adds Q) (f := write_frame P dir chunk_size cipher) Adds.refl
    Adds.trans
    (fun front (sw' : SealedWriter) => sw'.frame_index = sw.frame_index + front.length ∧
      sw'.frame_buf = Chunking.rest FRAME_CHUNK_SIZE (sw.frame_buf ++ piece))
    (Chunking.full FRAME_CHUNK_SIZE (sw.frame_buf ++ piece)) []
    { sw with size := sw.size + piece.length, frame_buf := Chunking.rest FRAME_CHUNK_SIZE (sw.frame_buf ++ piece) }
    ⟨rfl,rfl⟩ (by
      rintro front message rest sw' same ⟨here,kept⟩
      rw [List.nil_append] at same
      constructor
      · refine write_frame_seals fun s issued => may s ⟨sw'.frame_index,message,?_,issued⟩
        apply full_before within
        rw [all,here,index,List.getElem?_append_right (by omega),Nat.add_sub_cancel_left,same,
          List.getElem?_append_right le_rfl,Nat.sub_self]
        rfl
      · intro w sw'' w' done
        obtain ⟨next,same'⟩ := write_frame_gives cipher sw' message w sw'' w' done
        exact ⟨by rw [next,here,List.length_append]; rfl,same'.trans kept⟩)
  refine ⟨sealed,fun w sw' w' done => ?_⟩
  obtain ⟨count,kept⟩ := gives w sw' w' done
  rw [Stands,all,left,List.length_append,← index]
  exact ⟨by simpa using count,kept⟩

theorem finish_seals {cipher : FrameCipher} {body : Bytes} {sw : SealedWriter}
    (may : ∀ s, FrameOf cipher body s → Q s) (stands : Stands body sw) :
    Seals Q (sw.finish P dir chunk_size cipher) := by
  obtain ⟨index,buf⟩ := stands
  have rest (sw : SealedWriter) : Seals Q (do
      let chunks ← sw.chunks.finish P dir
      pure { sw with frame_buf := [], chunks }) :=
    Seals.bind (ChunkWriter.finish_seals _) fun _ => Seals.pure _
  unfold finish
  refine Seals.ite (fun _ => Seals.bind (Seals.pure _) rest) fun filled => Seals.bind ?_ rest
  refine write_frame_seals fun s issued => may s ⟨_,_,?_,issued⟩
  rw [Chunking.pieces,if_neg (buf ▸ filled),index,List.getElem?_append_right le_rfl,Nat.sub_self,buf]
  rfl

theorem pump_write_seals {cipher : FrameCipher} (body : ByteStream) (failed : IoError → StorageError)
    (may : ∀ s, FrameOf cipher body.body s → Q s) :
    Seals Q (pump (write P dir chunk_size cipher) failed body.reads body.failure new) ∧
      Prog.Gives (pump (write P dir chunk_size cipher) failed body.reads body.failure new) (Stands body.body) :=
  pump_seals [] Stands stands_new fun _ _ _ inside stands => write_seals may inside stands

end SealedWriter

theorem write_parity_seals (index : Nat) (shards : List Bytes) : Seals Q (write_parity P dir index shards) := by
  induction shards generalizing index with
  | nil => exact Seals.pure _
  | cons shard rest ih =>
    exact Seals.bind (write_chunk_file_seals _ _ _) fun _ => Seals.bind (ih _) fun _ => Seals.pure _

theorem write_manifest_seals {fs : FilesystemStorage} (cw : ChunkWriter) (total_size : Nat) (plaintext_size : Option Nat) :
    Seals Q (fs.write_manifest P dir cw total_size plaintext_size) := by
  have parity : Seals Q (fs.compute_and_write_parity_from P dir cw.chunks) := by
    refine Seals.ite (fun _ => Seals.fail _) fun _ => Seals.bind (read_shards_back_quiet _ _).seals fun _ => ?_
    exact Seals.bind (Seals.lift _) fun _ => Seals.bind (Seals.lift _) fun _ => write_parity_seals _ _
  unfold FilesystemStorage.write_manifest
  dsimp only
  exact Seals.ite (fun _ => Seals.bind parity fun _ => Seals.bind (Fs.seals_write _ _ (by simp)).io fun _ => Seals.pure _)
    fun _ => Seals.bind (Seals.pure _) fun _ => Seals.bind (Fs.seals_write _ _ (by simp)).io fun _ => Seals.pure _

end Chunks

/-! ### Encryptions of a kind that shows only as the run goes on -/

/-- Every run makes only encryptions of one of the kinds. -/
def SealsAs {ι ε α : Type} (Q : ι → Sealing → Prop) (m : Prog World ε α) : Prop := ∀ w, ∃ i, Adds (Q i) w (m w).2

/-- The program encrypts nothing. -/
abbrev Silent {ε α : Type} (m : Prog World ε α) : Prop := Seals (fun _ => False) m

section Kinds
variable {ι ε α β : Type} {Q : ι → Sealing → Prop}

theorem Adds.none {R : Sealing → Prop} {w w' : World} (adds : Adds (fun _ => False) w w') : Adds R w w' :=
  adds.mono fun _ impossible => impossible.elim

theorem Seals.mono {R S : Sealing → Prop} {m : Prog World ε α} (inner : Seals R m) (weaker : ∀ s, R s → S s) : Seals S m :=
  fun w => (inner w).mono weaker

theorem Seals.as {m : Prog World ε α} (i : ι) (inner : Seals (Q i) m) : SealsAs Q m := fun w => ⟨i,inner w⟩

theorem SealsAs.after [Nonempty ι] {m : Prog World ε α} {f : α → Prog World ε β} (first : Silent m)
    (second : ∀ a, SealsAs Q (f a)) : SealsAs Q (m >>= f) := by
  intro w
  have start := first w
  rw [Prog.bind_apply]
  split
  next a w' executed =>
    rw [executed] at start
    obtain ⟨i,adds⟩ := second a w'
    exact ⟨i,Adds.trans _ _ _ start.none adds⟩
  next e w' executed =>
    rw [executed] at start
    exact ⟨Classical.arbitrary ι,start.none⟩

theorem SealsAs.before {m : Prog World ε α} {f : α → Prog World ε β} (first : SealsAs Q m)
    (second : ∀ a, Silent (f a)) : SealsAs Q (m >>= f) := by
  intro w
  obtain ⟨i,adds⟩ := first w
  refine ⟨i,?_⟩
  rw [Prog.bind_apply]
  split
  next a w' executed =>
    rw [executed] at adds
    exact Adds.trans _ _ _ adds (second a w').none
  next e w' executed =>
    rw [executed] at adds
    exact adds

theorem SealsAs.ite {c : Prop} [Decidable c] {m m' : Prog World ε α} (yes : c → SealsAs Q m) (no : ¬ c → SealsAs Q m') :
    SealsAs Q (if c then m else m') := by
  split
  next holds => exact yes holds
  next fails => exact no fails

theorem SealsAs.with_guard {p : OsPath} {is_dir : Bool} {m : Action α} (inner : SealsAs Q m) :
    SealsAs Q (Common.with_guard p is_dir m) := by
  intro w
  obtain ⟨i,adds⟩ := inner w
  refine ⟨i,?_⟩
  unfold Common.with_guard Prog.guarded
  split
  next a w' executed =>
    rw [executed] at adds
    exact adds
  next e w' executed =>
    rw [executed] at adds
    exact Adds.trans _ _ _ adds (Common.seals_remove_path_if_exists p is_dir w')

end Kinds

/-! ### Data keys -/

section Keys
variable {P : Primitives} {fs : FilesystemStorage} {Q : Sealing → Prop}

/-- Keys that wrap data keys: the master keys of the keyring, that of the KMS backend, and a customer's own. -/
def WrapsWith (fs : FilesystemStorage) (customer_key : Option Bytes) (key : Bytes) : Prop :=
  (∃ id, (id,key) ∈ fs.keyring.keys) ∨ (∃ kms, fs.kms = some kms ∧ kms.master_key = key) ∨ customer_key = some key

/-- The wrapping of a data key. -/
def Wraps (fs : FilesystemStorage) (customer_key : Option Bytes) (s : Sealing) : Prop :=
  s.frame = false ∧ WrapsWith fs customer_key s.key

theorem get_key_mem {ring : Keyring} {id : String} {key : Bytes} (found : ring.get_key id = .ok key) :
    (id,key) ∈ ring.keys := by
  unfold Keyring.get_key at found
  split at found
  next entry here =>
    injection found with found
    have named := List.find?_some here
    have member := List.mem_of_find?_eq_some here
    simp only [decide_eq_true_eq] at named
    rw [← found,← named]
    exact member
  next => cases found

theorem wrap_dek_seals {ck : Option Bytes} (may : ∀ s, Wraps fs ck s → Q s) (key_id : String) (dek nonce : Bytes) :
    Seals Q (fs.keyring.wrap_dek P key_id dek nonce) := by
  refine Seals.bind_of (Seals.lift _) (G := fun master => (key_id,master) ∈ fs.keyring.keys) ?_ ?_
  · intro w master w' done
    exact get_key_mem (except_mapError_ok.mp (lift_ok_iff.mp done).1)
  · intro master member
    exact aes_encrypt_seals (may _ ⟨rfl,.inl ⟨key_id,member⟩⟩)

theorem generate_data_key_seals {ck : Option Bytes} (may : ∀ s, Wraps fs ck s → Q s) {kms : LocalKmsBackend}
    (configured : fs.kms = some kms) (key_id : Option String) (dek nonce : Bytes) :
    Seals Q (kms.generate_data_key P key_id dek nonce) :=
  Seals.bind (aes_encrypt_seals (may _ ⟨rfl,.inr (.inl ⟨kms,configured,rfl⟩)⟩)) fun _ => Seals.pure _

theorem prepare_encryption_seals {req : EncryptionRequest} (may : ∀ s, Wraps fs req.customer_key s → Q s)
    (draws : Draws) : Seals Q (fs.prepare_encryption P draws req) := by
  unfold FilesystemStorage.prepare_encryption
  cases mode : req.mode with
  | SseS3 => exact Seals.bind (wrap_dek_seals may _ _ _) fun _ => Seals.pure _
  | SseKms =>
    cases configured : fs.kms with
    | none => exact Seals.fail _
    | some kms => exact Seals.bind (generate_data_key_seals may configured _ _ _) fun _ => Seals.pure _
  | SseC =>
    cases given : req.customer_key with
    | none => exact Seals.fail _
    | some key =>
      exact Seals.bind (aes_encrypt_seals (may _ ⟨rfl,.inr (.inr given)⟩)) fun _ => Seals.pure _

theorem wrapped_key_encode (sound : P.Sound) (failed : String → StorageError) (bad_key bad_nonce short : String)
    {wrapped nonce : Bytes} (twelve : nonce.length = 12) :
    FilesystemStorage.wrapped_key P failed bad_key bad_nonce short (P.b64_encode wrapped) (P.b64_encode nonce) =
      .ok (wrapped,nonce) := by
  simp [FilesystemStorage.wrapped_key,sound.base64,twelve]

theorem unwrap_wrap (sound : P.Sound) {ring : Keyring} {key_id : String} {master nonce dek wrapped : Bytes}
    (found : ring.get_key key_id = .ok master) (long : dek.length = 32)
    (encrypted : P.encrypt master nonce (utf8 key_id) dek = some wrapped) :
    ring.unwrap_dek P key_id wrapped nonce = .ok dek := by
  unfold Keyring.unwrap_dek
  rw [found]
  simp only [bind,Except.bind,sound.aead _ _ _ _ _ encrypted,long]
  rfl

/-- Unwrapping a data key that was just wrapped gives that key. -/
theorem resolve_dek_prepared (sound : P.Sound) {draws : Draws} {req : EncryptionRequest} {enc : EncryptionMeta}
    {w w' : World} (done : fs.prepare_encryption P draws req w = (.ok enc,w')) :
    (req.mode = .SseC → ∃ ck, req.customer_key = some ck ∧ enc.customer_key_md5 = some (P.b64_encode (P.md5 ck))) ∧
      enc.mode = req.mode ∧
      ∀ ck, (req.mode = .SseC → ck = req.customer_key) → fs.resolve_dek P enc ck = .ok draws.dek := by
  unfold FilesystemStorage.prepare_encryption at done
  cases mode : req.mode with
  | SseS3 =>
    simp only [mode,Prog.bind_ok_iff,pure_ok_iff,Keyring.wrap_dek,lift_ok_iff,except_mapError_ok,aes_encrypt_ok_iff] at done
    obtain ⟨wrapped,_,⟨master,_,⟨found,rfl⟩,encrypted,rfl⟩,rfl,rfl⟩ := done
    refine ⟨by simp,rfl,fun ck _ => ?_⟩
    simp only [FilesystemStorage.resolve_dek,FilesystemStorage.encryption_meta,FilesystemStorage.required,bind,Except.bind,
      wrapped_key_encode sound _ _ _ _ draws.wrap_length,unwrap_wrap sound found draws.dek_length encrypted]
    rfl
  | SseKms =>
    simp only [mode] at done
    cases configured : fs.kms with
    | none => simp [configured] at done
    | some kms =>
      simp only [configured,LocalKmsBackend.generate_data_key,Prog.bind_ok_iff,pure_ok_iff,aes_encrypt_ok_iff] at done
      obtain ⟨_,_,⟨wrapped,_,⟨encrypted,rfl⟩,rfl,rfl⟩,rfl,rfl⟩ := done
      refine ⟨by simp,rfl,fun ck _ => ?_⟩
      simp only [FilesystemStorage.resolve_dek,FilesystemStorage.encryption_meta,FilesystemStorage.required,bind,
        Except.bind,wrapped_key_encode sound _ _ _ _ draws.wrap_length,configured,LocalKmsBackend.decrypt_data_key,
        sound.aead _ _ _ _ _ encrypted,draws.dek_length]
      rfl
  | SseC =>
    simp only [mode] at done
    cases given : req.customer_key with
    | none => simp [given] at done
    | some key =>
      simp only [given,Prog.bind_ok_iff,pure_ok_iff,aes_encrypt_ok_iff] at done
      obtain ⟨wrapped,_,⟨encrypted,rfl⟩,rfl,rfl⟩ := done
      refine ⟨fun _ => ⟨key,rfl,rfl⟩,rfl,fun ck same => ?_⟩
      rw [same rfl]
      simp only [FilesystemStorage.resolve_dek,FilesystemStorage.encryption_meta,FilesystemStorage.required,bind,
        Except.bind,wrapped_key_encode sound _ _ _ _ draws.wrap_length,sound.aead _ _ _ _ _ encrypted,draws.dek_length]
      simp

/-- The cipher of a new object is made of what the call drew. -/
def drawnCipher (draws : Draws) (aad : Nat → Bytes) : FrameCipher :=
  { key := draws.dek, nonce_prefix := draws.nonce_prefix, aad }

theorem start_encryption_drawn (sound : P.Sound) {draws : Draws} {req : EncryptionRequest} {aad : Nat → Bytes} :
    Prog.Gives (fs.start_encryption P draws req aad) fun made => made.2 = drawnCipher draws aad := by
  intro w made w' done
  simp only [FilesystemStorage.start_encryption,Prog.bind_ok_iff,Prog.mapError_ok_iff,lift_ok_iff,except_mapError_ok,
    pure_ok_iff] at done
  obtain ⟨enc,w₁,prepared,dek,_,⟨resolved,rfl⟩,nonce,_,⟨decoded,rfl⟩,rfl,rfl⟩ := done
  rw [(resolve_dek_prepared sound prepared).2.2 _ fun _ => rfl] at resolved
  injection resolved with resolved
  rw [drawnCipher,prepared_nonce sound prepared decoded,resolved]

theorem start_encryption_seals {draws : Draws} {req : EncryptionRequest} {aad : Nat → Bytes}
    (may : ∀ s, Wraps fs req.customer_key s → Q s) : Seals Q (fs.start_encryption P draws req aad) :=
  Seals.bind (prepare_encryption_seals may draws).mapError fun _ => Seals.bind (Seals.lift _) fun _ =>
    Seals.bind (Seals.lift _) fun _ => Seals.pure _

end Keys
end Maxio
