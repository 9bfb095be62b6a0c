import Maxio.Footprint
import Maxio.TreeViews

/-!
Which places of the tree the outcome of an operation depends on: in two worlds that show the same there, it ends alike and
leaves the same there.
-/

set_option linter.unusedSimpArgs false

namespace Maxio
open FileTree (Node Tree ErrorKind)
open FileTree.Tree (Agree Agreeing Rooted)

/-- The worlds show the same at the places in `V`. -/
structure SameView (V : OsPath → Prop) (w w' : World) : Prop where
  tree : Agree V w.tree w'.tree
  rows : w'.rows = w.rows
  sealings : w'.sealings = w.sealings

/-- What the program does depends on the places in `V` alone. -/
abbrev Sees {ε α : Type} (V : OsPath → Prop) (m : Prog World ε α) : Prop := Prog.Respects (SameView V) m

section Programs
variable {V : OsPath → Prop} {ε ε' α β : Type}

theorem Sees.io {m : Io α} (inner : Sees V m) : Sees V (io m) := inner.mapError

theorem Sees.ignore {m : Io α} (inner : Sees V m) : Sees V (ignore m) :=
  (Prog.Respects.attempt inner).bind fun _ => Prog.Respects.pure ()

theorem Sees.unwrap_or {m : Prog World ε α} (default : α) (inner : Sees V m) : Sees V (unwrap_or default m) := by
  refine (Prog.Respects.attempt inner).bind fun r => ?_
  cases r with
  | ok a => exact Prog.Respects.pure a
  | error e => exact Prog.Respects.pure default

end Programs

/-! ### Calls -/

namespace Fs
variable {V : OsPath → Prop} (rooted : Rooted V) {t u : Disk} {p a b : OsPath}

section
variable (agree : Agree V t u) (forward : Forward p) (seen : V (canon p))
include rooted agree forward seen

theorem stat_agree : stat u p = stat t p := by
  simp only [stat,locate_forward _ forward,bind,Except.bind]
  rw [agree.stat rooted seen]

theorem entry_agree (busy : ErrorKind) : entry busy u p = entry busy t p := by
  rw [entry,entry,stat_agree rooted agree forward seen,locate_forward t forward,locate_forward u forward]

theorem readAt_agree : readAt u p = readAt t p := by rw [readAt,readAt,stat_agree rooted agree forward seen]

end

theorem sees_observe {α : Type} {f : Disk → Except ErrorKind α} (same : ∀ t u, Agree V t u → f u = f t) :
    Sees V (observe f) := by
  intro w w' alike
  refine ⟨?_,alike⟩
  simp only [observe]
  rw [same _ _ alike.tree]

theorem sees_change {f : Disk → Except ErrorKind Disk} (same : ∀ t u, Agree V t u → Agreeing V (f t) (f u)) :
    Sees V (change f) := by
  intro w w' alike
  have both := same _ _ alike.tree
  unfold change
  cases left : f w.tree <;> cases right : f w'.tree <;> rw [left,right] at both
  · exact ⟨congrArg (fun kind => Except.error (IoError.os kind)) both,alike⟩
  · exact both.elim
  · exact both.elim
  · exact ⟨rfl,both,alike.rows,alike.sealings⟩

include rooted in
/-- A change of an entry of the tree. -/
theorem agreeing_entry {busy : ErrorKind} (f : Disk → OsPath → Except ErrorKind Disk) (agree : Agree V t u)
    (forward : Forward p) (seen : V (canon p)) (step : dotted p = false → Agreeing V (f t (canon p)) (f u (canon p))) :
    Agreeing V (do f t (← entry busy t p)) (do f u (← entry busy u p)) := by
  rw [entry_agree rooted agree forward seen]
  cases found : entry busy t p with
  | error kind => exact rfl
  | ok q =>
    obtain ⟨named,rfl⟩ := entry_ok forward found
    exact step named

section Calls
variable (forward : Forward p) (seen : V (canon p))
include rooted forward seen

theorem sees_read : Sees V (read p) := sees_observe fun _ _ agree => readAt_agree rooted agree forward seen

theorem sees_try_exists : Sees V (try_exists p) :=
  sees_observe fun _ _ agree => by rw [existsAt,existsAt,stat_agree rooted agree forward seen]

theorem sees_is_dir : Sees V (is_dir p) :=
  sees_observe fun _ _ agree => by rw [isDirAt,isDirAt,stat_agree rooted agree forward seen]

theorem sees_read_dir (below : ∀ n, V (canon p ++ [n])) : Sees V (read_dir p) := by
  refine sees_observe fun t u agree => ?_
  simp only [namesAt,locate_forward _ forward,bind,Except.bind]
  rw [agree.stat rooted seen,agree.children below]

theorem writeAt_agree (c : Content) (agree : Agree V t u) : Agreeing V (writeAt p c t) (writeAt p c u) :=
  agreeing_entry rooted (fun t q => t.write q c) agree forward seen fun _ => agree.write rooted seen c

theorem sees_write (c : Content) : Sees V (write p c) :=
  sees_change fun _ _ agree => writeAt_agree rooted forward seen c agree

theorem sees_append (data : Bytes) : Sees V (append p data) := by
  refine sees_change fun t u agree => ?_
  rw [readAt_agree rooted agree forward seen]
  cases readAt t p with
  | error kind => exact rfl
  | ok content =>
    cases content with
    | json _ => exact rfl
    | bytes old => exact writeAt_agree rooted forward seen _ agree

theorem sees_remove_file : Sees V (remove_file p) :=
  sees_change fun _ _ agree => agreeing_entry rooted Tree.removeFile agree forward seen fun _ => agree.removeFile rooted seen

theorem sees_remove_dir (below : dotted p = false → ∀ n, V (canon p ++ [n])) : Sees V (remove_dir p) :=
  sees_change fun _ _ agree =>
    agreeing_entry rooted Tree.removeDir agree forward seen fun named => agree.removeDir rooted seen (below named)

theorem sees_remove_dir_all (last : p.getLast? ≠ some ".") : Sees V (remove_dir_all p) := by
  intro w w' alike
  rw [remove_dir_all,remove_dir_all,if_neg last,if_neg last]
  exact sees_change (fun _ _ agree => agreeing_entry rooted Tree.removeDirAll agree forward seen fun _ => agree.removeDirAll rooted seen)
    w w' alike

theorem mkdirsAt_agree (agree : Agree V t u) : Agreeing V (mkdirsAt p t) (mkdirsAt p u) := by
  simp only [mkdirsAt,locate_forward _ forward,bind,Except.bind]
  rw [agree.node _ seen,agree.missing rooted seen]
  split
  · exact agree
  · exact rfl
  · split
    · exact rfl
    · exact Agree.mkdirs rooted agree seen

theorem sees_create_dir_all : Sees V (create_dir_all p) := by
  intro w w' alike
  rw [create_dir_all,create_dir_all]
  by_cases dot : dotted p = true
  · rw [if_pos dot,if_pos dot,stat_agree rooted alike.tree forward seen]
    have forward' : Forward (parent_dir p) :=
      fun s member => forward s (List.mem_filter.mp (List.mem_of_mem_dropLast member)).1
    have up : canon (parent_dir p) = (canon p).dropLast :=
      canon_of_plain fun s member => kept_of_mem_canon (List.mem_of_mem_dropLast member)
    have seen' : V (canon (parent_dir p)) := by
      rw [up]
      exact rooted _ _ (List.dropLast_prefix _) seen
    have made := mkdirsAt_agree rooted forward' seen' alike.tree
    split
    · exact ⟨rfl,alike⟩
    · exact ⟨rfl,alike⟩
    · cases left : mkdirsAt (parent_dir p) w.tree <;> cases right : mkdirsAt (parent_dir p) w'.tree <;>
        rw [left,right] at made
      · exact ⟨congrArg (fun kind => Except.error (IoError.os kind)) made,alike⟩
      · exact made.elim
      · exact made.elim
      · exact ⟨rfl,made,alike.rows,alike.sealings⟩
    · exact ⟨rfl,alike⟩
  · rw [if_neg dot,if_neg dot]
    exact sees_change (fun _ _ agree => mkdirsAt_agree rooted forward seen agree) w w' alike

end Calls

include rooted in
theorem sees_copy (forward : Forward a) (seen : V (canon a)) (forward' : Forward b) (seen' : V (canon b)) :
    Sees V (copy a b) :=
  Prog.Respects.bind (Prog.Respects.mapError (sees_read rooted forward seen)) fun c => sees_write rooted forward' seen' c

include rooted in
theorem sees_rename (forward : Forward a) (seen : V (canon a)) (forward' : Forward b) (seen' : V (canon b))
    (below : dotted a = false → ∀ r, V (canon a ++ r)) (below' : dotted b = false → ∀ r, V (canon b ++ r)) :
    Sees V (rename a b) := by
  refine sees_change fun t u agree => ?_
  rw [entry_agree rooted agree forward seen,entry_agree rooted agree forward' seen']
  cases found : entry .ResourceBusy t a with
  | error kind => exact rfl
  | ok qa =>
    cases found' : entry .ResourceBusy t b with
    | error kind => exact rfl
    | ok qb =>
      obtain ⟨named,rfl⟩ := entry_ok forward found
      obtain ⟨named',rfl⟩ := entry_ok forward' found'
      exact agree.rename rooted (below named) (below' named')

end Fs

/-! ### Places -/

/-- A place whose whole subtree is seen, if it is one a call can work on. -/
structure Visible (V : OsPath → Prop) (p : OsPath) : Prop where
  forward : Forward p
  here : V (canon p)
  below : dotted p = false → ∀ r, V (canon p ++ r)

theorem Visible.of_leads {V : OsPath → Prop} {p dir : OsPath} {name : String} (leads : Leads p dir name)
    (all : ∀ r, V (dir ++ [name] ++ r)) : Visible V p := by
  refine ⟨leads.entry.forward,?_,fun _ r => ?_⟩
  · rw [leads.names]
    simpa using all []
  · rw [leads.names]
    exact all r

section Operations
variable {V : OsPath → Prop} (rooted : Rooted V)

open Prog (Respects)

theorem remove_path_if_exists_sees {p : OsPath} {is_dir : Bool} (visible : Visible V p)
    (last : is_dir = true → p.getLast? ≠ some ".") (rooted : Rooted V) : Sees V (Common.remove_path_if_exists p is_dir) := by
  unfold Common.remove_path_if_exists
  cases is_dir with
  | true => exact Sees.ignore (Fs.sees_remove_dir_all rooted visible.forward visible.here (last rfl))
  | false => exact Sees.ignore (Fs.sees_remove_file rooted visible.forward visible.here)

include rooted in
theorem with_guard_sees {α : Type} {p : OsPath} {is_dir : Bool} {m : Action α} (inner : Sees V m) (visible : Visible V p)
    (last : p.getLast? ≠ some ".") : Sees V (Common.with_guard p is_dir m) :=
  Respects.guarded inner fun w w' alike =>
    (remove_path_if_exists_sees visible (fun _ => last) rooted w w' alike).2

/-! ### Writers -/

section Writers
variable {P : Primitives}

theorem aes_encrypt_sees (frame : Bool) (failed : StorageError) (key nonce aad message : Bytes) :
    Sees V (aes_encrypt P frame failed key nonce aad message) := by
  unfold aes_encrypt
  split
  · refine Respects.bind (Respects.tell fun w w' alike => ?_) fun _ => Respects.pure _
    exact ⟨alike.tree,alike.rows,congrArg (List.cons _) alike.sealings⟩
  · exact Respects.fail _

theorem encrypt_frame_to_vec_sees (key nonce_prefix : Bytes) (i : Nat) (plaintext aad : Bytes) :
    Sees V (encrypt_frame_to_vec P key nonce_prefix i plaintext aad) :=
  Respects.bind (Respects.lift _) fun _ => Respects.bind (aes_encrypt_sees _ _ _ _ _ _) fun _ => Respects.pure _

theorem pump_sees {α : Type} {write : α → Bytes → Action α} {failed : IoError → StorageError} (reads : List Bytes)
    (failure : Option IoError) (start : α) (step : ∀ a piece, Sees V (write a piece)) :
    Sees V (pump write failed reads failure start) := by
  refine Respects.bind (Respects.fold reads (fun a piece _ => step a piece) start) fun last => ?_
  cases failure with
  | some e => exact Respects.fail _
  | none => exact Respects.pure _

section File
variable {path : OsPath} (forward : Forward path) (seen : V (canon path))
include rooted forward seen

theorem buf_write_all_sees (pending data : Bytes) : Sees V (buf_write_all path pending data) := by
  have append (bytes : Bytes) : Sees V (io (Fs.append path bytes)) := Sees.io (Fs.sees_append rooted forward seen bytes)
  have rest (pending : Bytes) : Sees V (if data.length ≥ IO_BUFFER_SIZE then do
      io (Fs.append path data)
      pure pending
    else pure (pending ++ data)) :=
    Respects.ite (fun _ => Respects.bind (append _) fun _ => Respects.pure _) fun _ => Respects.pure _
  unfold buf_write_all
  dsimp only
  exact Respects.ite (fun _ => Respects.bind (append _) fun _ => Respects.bind (Respects.pure _) rest)
    fun _ => Respects.bind (Respects.pure _) rest

theorem write_encrypted_frame_sees (cipher : FrameCipher) (fw : FlatWriter) (plaintext : Bytes) :
    Sees V (fw.write_encrypted_frame P path cipher plaintext) :=
  Respects.bind (encrypt_frame_to_vec_sees _ _ _ _ _) fun _ => Respects.bind (buf_write_all_sees rooted forward seen _ _) fun _ =>
    Respects.bind (buf_write_all_sees rooted forward seen _ _) fun _ => Respects.pure _

theorem flat_write_sees (cipher : Option FrameCipher) (fw : FlatWriter) (piece : Bytes) :
    Sees V (fw.write P path cipher piece) := by
  unfold FlatWriter.write
  cases cipher with
  | none => exact Respects.bind (buf_write_all_sees rooted forward seen _ _) fun _ => Respects.pure _
  | some c => exact Respects.fold _ (fun fw piece _ => write_encrypted_frame_sees rooted forward seen c fw piece) _

theorem flat_finish_sees (cipher : Option FrameCipher) (fw : FlatWriter) : Sees V (fw.finish P path cipher) := by
  have rest (fw : FlatWriter) : Sees V (do
      io (Fs.append path fw.pending)
      pure { fw with pending := [] }) :=
    Respects.bind (Sees.io (Fs.sees_append rooted forward seen _)) fun _ => Respects.pure _
  unfold FlatWriter.finish
  cases cipher with
  | none => exact Respects.bind (Respects.pure _) rest
  | some c =>
    exact Respects.ite (fun _ => Respects.bind (Respects.pure _) rest)
      fun _ => Respects.bind (write_encrypted_frame_sees rooted forward seen c fw _) rest

end File

section Directory
variable {dir home : OsPath} {name : String} (leads : Leads dir home name) (all : ∀ r, V (home ++ [name] ++ r))
include rooted leads all

theorem write_chunk_file_sees (i index : Nat) (data : Bytes) :
    Sees V (write_chunk_file P (join dir (chunk_name i)) index data) := by
  refine Respects.bind (Sees.io (Fs.sees_write rooted (leads.chunk i).entry.forward ?_ _)) fun _ => Respects.pure _
  rw [(leads.chunk i).names]
  exact all _

theorem write_chunk_sees (cw : ChunkWriter) (data : Bytes) : Sees V (cw.write_chunk P dir data) :=
  Respects.bind (write_chunk_file_sees rooted leads all _ _ _) fun _ => Respects.pure _

theorem feed_sees (size : Nat) (cw : ChunkWriter) (data : Bytes) : Sees V (cw.feed P dir size data) :=
  Respects.fold _ (fun cw piece _ => write_chunk_sees rooted leads all cw piece) _

theorem chunk_finish_sees (cw : ChunkWriter) : Sees V (cw.finish P dir) := by
  have rest (cw : ChunkWriter) : Sees V (if cw.chunks = [] then do
      let ci ← write_chunk_to_dir P dir 0 []
      pure { cw with chunks := [ci] }
    else pure cw) :=
    Respects.ite (fun _ => Respects.bind (write_chunk_file_sees rooted leads all _ _ _) fun _ => Respects.pure _)
      fun _ => Respects.pure _
  unfold ChunkWriter.finish
  exact Respects.ite (fun _ => Respects.bind (Respects.pure _) rest)
    fun _ => Respects.bind (write_chunk_sees rooted leads all _ _) fun _ => Respects.bind (Respects.pure _) rest

theorem write_plain_sees (size : Nat) (acc : Nat × ChunkWriter) (piece : Bytes) : Sees V (write_plain P dir size acc piece) :=
  Respects.bind (feed_sees rooted leads all _ _ _) fun _ => Respects.pure _

theorem sealed_write_frame_sees (size : Nat) (cipher : FrameCipher) (sw : SealedWriter) (plaintext : Bytes) :
    Sees V (sw.write_frame P dir size cipher plaintext) :=
  Respects.bind (encrypt_frame_to_vec_sees _ _ _ _ _) fun _ =>
    Respects.bind (feed_sees rooted leads all _ _ _) fun _ => Respects.pure _

theorem sealed_write_sees (size : Nat) (cipher : FrameCipher) (sw : SealedWriter) (piece : Bytes) :
    Sees V (sw.write P dir size cipher piece) :=
  Respects.fold _ (fun sw piece _ => sealed_write_frame_sees rooted leads all size cipher sw piece) _

theorem sealed_finish_sees (size : Nat) (cipher : FrameCipher) (sw : SealedWriter) :
    Sees V (sw.finish P dir size cipher) := by
  have rest (sw : SealedWriter) : Sees V (do
      let chunks ← sw.chunks.finish P dir
      pure { sw with frame_buf := [], chunks }) :=
    Respects.bind (chunk_finish_sees rooted leads all _) fun _ => Respects.pure _
  unfold SealedWriter.finish
  exact Respects.ite (fun _ => Respects.bind (Respects.pure _) rest)
    fun _ => Respects.bind (sealed_write_frame_sees rooted leads all size cipher sw _) rest

theorem write_parity_sees (index : Nat) (shards : List Bytes) : Sees V (write_parity P dir index shards) := by
  induction shards generalizing index with
  | nil => exact Respects.pure _
  | cons shard rest ih =>
    rw [write_parity_cons]
    exact Respects.bind (write_chunk_file_sees rooted leads all _ _ _) fun _ =>
      Respects.bind (ih (index + 1)) fun _ => Respects.pure _

theorem read_shards_back_sees (size : Nat) (infos : List ChunkInfo) : Sees V (read_shards_back P dir size infos) := by
  induction infos with
  | nil => exact Respects.pure _
  | cons ci rest ih =>
    refine Respects.bind (Sees.io (Fs.sees_read rooted (leads.chunk ci.index).entry.forward ?_)) fun _ =>
      Respects.bind ih fun _ => Respects.pure _
    rw [(leads.chunk ci.index).names]
    exact all _

theorem write_manifest_sees (fs : FilesystemStorage) (cw : ChunkWriter) (total : Nat) (plaintext_size : Option Nat) :
    Sees V (fs.write_manifest P dir cw total plaintext_size) := by
  have parity : Sees V (fs.compute_and_write_parity_from P dir cw.chunks) := by
    refine Respects.ite (fun _ => Respects.fail _) fun _ => ?_
    exact Respects.bind (read_shards_back_sees rooted leads all _ _) fun _ => Respects.bind (Respects.lift _) fun _ =>
      Respects.bind (Respects.lift _) fun _ => write_parity_sees rooted leads all _ _
  have written (manifest : ChunkManifest) (format : String) : Sees V (do
      io (Fs.write (join dir "manifest.json") (.json (.manifest manifest)))
      pure format) := by
    refine Respects.bind (Sees.io (Fs.sees_write rooted leads.manifest.entry.forward ?_ _)) fun _ => Respects.pure _
    rw [leads.manifest.names]
    exact all _
  unfold FilesystemStorage.write_manifest
  exact Respects.ite (fun _ => Respects.bind parity fun _ => written _ _)
    fun _ => Respects.bind (Respects.pure _) fun _ => written _ _

theorem copy_entries_sees {src : OsPath} (visible : Visible V src) (undotted : dotted src = false) :
    Sees V (copy_entries src dir) := by
  have source := visible.below undotted
  refine Respects.bind_of (Sees.io (Fs.sees_read_dir rooted visible.forward visible.here fun n => source [n]))
    fun entries w w' done => Respects.each entries fun n member => ?_
  obtain ⟨kept,ahead,absent⟩ := isName_iff.mp (read_dir_names done n member)
  have entry := leads.child absent kept ahead
  have found : Forward (join src n) ∧ canon (join src n) = canon src ++ [n] := by
    rw [join_name absent]
    exact ⟨(entry_concat visible.forward kept ahead).forward,canon_concat kept⟩
  refine Sees.io (Fs.sees_copy rooted found.1 ?_ entry.entry.forward ?_)
  · rw [found.2]
    exact source [n]
  · rw [entry.names]
    exact all _

end Directory

/-! ### Publication -/

section Publication
variable {p : OsPath} {uuid : String} (place : Visible V p) (temp : Leads (temp_sibling_path p uuid) (parent_dir p) (tempName uuid))
include rooted place

theorem backup_existing_sees (side : Visible V (temp_sibling_path p uuid)) : Sees V (Common.backup_existing p uuid) := by
  refine Respects.bind (Sees.io (Fs.sees_try_exists rooted place.forward place.here)) fun found => ?_
  refine Respects.ite (fun _ => Respects.bind (Sees.io ?_) fun _ => Respects.pure _) fun _ => Respects.pure _
  exact Fs.sees_rename rooted place.forward place.here side.forward side.here place.below side.below

theorem restore_backup_sees {is_dir : Bool} (last : is_dir = true → p.getLast? ≠ some ".") {backup : Option OsPath}
    (side : ∀ b ∈ backup, Visible V b) : Sees V (Common.restore_backup p backup is_dir) := by
  cases backup with
  | none => exact Respects.pure _
  | some b =>
    have visible := side b rfl
    refine Respects.bind (remove_path_if_exists_sees place last rooted) fun _ => Sees.ignore ?_
    exact Fs.sees_rename rooted visible.forward visible.here place.forward place.here visible.below place.below

omit place in
theorem cleanup_backup_sees {is_dir : Bool} {backup : Option OsPath} (side : ∀ b ∈ backup, Visible V b)
    (last : ∀ b ∈ backup, b.getLast? ≠ some ".") : Sees V (Common.cleanup_backup backup is_dir) := by
  cases backup with
  | none => exact Respects.pure _
  | some b => exact remove_path_if_exists_sees (side b rfl) (fun _ => last b rfl) rooted

end Publication

/-- A place with the temporary sibling a publication can make of it. -/
structure Publishable (V : OsPath → Prop) (p : OsPath) (uuid : String) : Prop where
  place : Visible V p
  up : V (canon (parent_dir p))
  backup : Visible V (temp_sibling_path p uuid)
  last : (temp_sibling_path p uuid).getLast? ≠ some "."

include rooted in
theorem publish_temp_sees {tmp_payload final_payload tmp_meta final_meta : OsPath} {payload_is_dir : Bool}
    {payload_uuid meta_uuid : String} (payload : Publishable V final_payload payload_uuid)
    (last : payload_is_dir = true → final_payload.getLast? ≠ some ".") (side : Publishable V final_meta meta_uuid)
    (tmp : Visible V tmp_payload) (tmp' : Visible V tmp_meta) :
    Sees V (Common.publish_temp_payload_and_meta tmp_payload final_payload payload_is_dir tmp_meta final_meta
      payload_uuid meta_uuid) := by
  have up {p : OsPath} (forward : Forward p) : Forward (parent_dir p) :=
    fun s member => forward s (List.mem_filter.mp (List.mem_of_mem_dropLast member)).1
  refine Respects.bind (Sees.io (Fs.sees_create_dir_all rooted (up payload.place.forward) payload.up)) fun _ => ?_
  refine Respects.bind (Sees.io (Fs.sees_create_dir_all rooted (up side.place.forward) side.up)) fun _ => ?_
  refine Respects.bind_of (backup_existing_sees rooted payload.place payload.backup) fun backup _ _ done => ?_
  refine Respects.bind_of (backup_existing_sees rooted side.place side.backup) fun backup' _ _ done' => ?_
  have spelled {p : OsPath} {uuid : String} {backup : Option OsPath} (own : Publishable V p uuid)
      (name : backup = none ∨ backup = some (temp_sibling_path p uuid)) :
      (∀ b ∈ backup, Visible V b) ∧ ∀ b ∈ backup, b.getLast? ≠ some "." := by
    rcases name with rfl | rfl
    · exact ⟨fun _ => nofun,fun _ => nofun⟩
    · constructor
      · rintro _ ⟨⟩
        exact own.backup
      · rintro _ ⟨⟩
        exact own.last
  have own := spelled payload (backup_existing_name done)
  have own' := spelled side (backup_existing_name done')
  have restore (e : IoError) : Sees V (do
      Common.restore_backup final_meta backup' false
      Common.restore_backup final_payload backup payload_is_dir
      Prog.fail (.Io e) : Action Unit) :=
    Respects.bind (restore_backup_sees rooted side.place (fun dir => by cases dir) own'.1) fun _ =>
      Respects.bind (restore_backup_sees rooted payload.place last own.1) fun _ => Respects.fail _
  refine Respects.bind (Respects.attempt (Fs.sees_rename rooted tmp.forward tmp.here payload.place.forward
    payload.place.here tmp.below payload.place.below)) fun moved => ?_
  cases moved with
  | error e => exact restore e
  | ok _ =>
    refine Respects.bind (Respects.attempt (Fs.sees_rename rooted tmp'.forward tmp'.here side.place.forward
      side.place.here tmp'.below side.place.below)) fun moved' => ?_
    cases moved' with
    | error e =>
      exact Respects.bind (remove_path_if_exists_sees payload.place last rooted) fun _ => restore e
    | ok _ =>
      exact Respects.bind (cleanup_backup_sees rooted own.1 own.2) fun _ => cleanup_backup_sees rooted own'.1 own'.2

theorem prepare_encryption_sees (fs : FilesystemStorage) (draws : Draws) (req : EncryptionRequest) :
    Sees V (fs.prepare_encryption P draws req) := by
  unfold FilesystemStorage.prepare_encryption
  cases req.mode with
  | SseS3 =>
    exact Respects.bind (Respects.bind (Respects.lift _) fun _ => aes_encrypt_sees _ _ _ _ _ _) fun _ => Respects.pure _
  | SseKms =>
    cases fs.kms with
    | none => exact Respects.fail _
    | some kms =>
      exact Respects.bind (Respects.bind (aes_encrypt_sees _ _ _ _ _ _) fun _ => Respects.pure _) fun _ => Respects.pure _
  | SseC =>
    cases req.customer_key with
    | none => exact Respects.fail _
    | some ck => exact Respects.bind (aes_encrypt_sees _ _ _ _ _ _) fun _ => Respects.pure _

theorem index_upsert_sees (fs : FilesystemStorage) (bucket : String) (record : ObjectMeta) :
    Sees V (fs.index_upsert bucket record) := by
  have rows (f : List (String × String × ObjectMeta) → List (String × String × ObjectMeta)) :
      Sees V (Prog.tell fun w => { w with rows := f w.rows } : Action Unit) := by
    refine Respects.tell fun w w' alike => ⟨alike.tree,?_,alike.sealings⟩
    exact congrArg f alike.rows
  have remove : Sees V (fs.index_remove bucket record.key) := Respects.ite (fun _ => rows _) fun _ => Respects.pure _
  exact Respects.bind remove fun _ => Respects.ite (fun _ => rows fun all => all ++ [(bucket,record.key,record)])
    fun _ => Respects.pure _

end Writers
end Operations
end Maxio
