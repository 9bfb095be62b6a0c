import Maxio.CompletionSpec
import Maxio.VersionPlaces

/-!
Calls that name a version are confined to the entries of that version, unless the id has a slash in it: the id becomes part
of a path without a check.
-/

set_option linter.unusedSimpArgs false

namespace Maxio
open FileTree (Node Tree)
open FileTree.Tree (Rooted)
open Prog (Respects)

/-! ### Calls on a version -/

/-- A storage call that names a version; what a `get_object_version` hands over is read to its end. -/
inductive VersionCall where
  | get_object_version (customer_key : Option Bytes) (caps : Nat → Nat) (turns : Nat)
  | head_object_version
  | delete_object_version
  | put_object_retention (retention : ObjectLockRetention)
  | get_object_retention
  | put_object_legal_hold (status : LegalHoldStatus)
  | get_object_legal_hold

inductive VersionResult where
  | object (got : ObjectMeta × Option (Bytes × Option IoError))
  | head (record : ObjectMeta)
  | deleted (record : ObjectMeta)
  | locked
  | retention (retention : ObjectLockRetention)
  | legal_hold (status : LegalHoldStatus)

namespace VersionCall
variable (P : Primitives) (fs : FilesystemStorage) (draws : Draws) (bucket key version_id : String)

def run : VersionCall → Action VersionResult
  | get_object_version ck caps turns => do
    let got ← fs.get_object_version P bucket key version_id ck >>= fun got => pure (read_out P caps turns got)
    pure (.object got)
  | head_object_version => do
    let record ← fs.head_object_version bucket key version_id
    pure (.head record)
  | delete_object_version => do
    let record ← fs.delete_object_version P draws bucket key version_id
    pure (.deleted record)
  | put_object_retention retention => do
    fs.put_object_retention bucket key (some version_id) retention
    pure .locked
  | get_object_retention => do
    let retention ← fs.get_object_retention bucket key (some version_id)
    pure (.retention retention)
  | put_object_legal_hold status => do
    fs.put_object_legal_hold bucket key (some version_id) status
    pure .locked
  | get_object_legal_hold => do
    let status ← fs.get_object_legal_hold bucket key (some version_id)
    pure (.legal_hold status)

end VersionCall

section Places
variable (fs : FilesystemStorage) (bucket key version_id : String)

/-- The files of a version: the entries of its id in the versions directory, or for `null` the current files of the key. -/
def VersionFiles (q : OsPath) : Prop :=
  if version_id = "null" then CurrentFiles fs bucket key q else StoredVersion fs bucket key version_id q

/-- The sidecar among them. -/
def sidecarAt : OsPath :=
  if version_id = "null" then metaAt fs bucket key else versionsAt fs bucket key ++ [version_id ++ ".meta.json"]

namespace VersionCall

/-- What the call may change: the sidecar if it sets a lock; the files of the version if it deletes it, and then the
    current files of the key, over which the newest version is restored. -/
def Touches : VersionCall → OsPath → Prop
  | put_object_retention _,q | put_object_legal_hold _,q => q = sidecarAt fs bucket key version_id
  | delete_object_version,q => VersionFiles fs bucket key version_id q ∨ CurrentFiles fs bucket key q
  | _,_ => False

/-- The directories a deletion may make or remove. -/
def Opens : VersionCall → OsPath → Prop
  | delete_object_version,q => Opened fs bucket key q
  | _,_ => False

/-- What the call may look at: the files of the version, the settings of the bucket if it sets a lock, and all that is
    stored of the key if it deletes the version. -/
def Reads (call : VersionCall) (q : OsPath) : Prop :=
  VersionFiles fs bucket key version_id q ∨ match call with
    | put_object_retention _ | put_object_legal_hold _ => q = base fs.buckets_dir bucket ++ [".bucket.json"]
    | delete_object_version => CurrentFiles fs bucket key q ∨ Opened fs bucket key q ∨ versionsAt fs bucket key <+: q
    | _ => False

end VersionCall

/-- The calls with this id are confined to the version. For the reads, the sidecars stored under the key name their
    versions by ids like those the server makes up, and the calls leave that so. -/
structure VersionsConfined (P : Primitives) : Prop where
  touches : ∀ (call : VersionCall) draws w,
    Frame (call.Touches fs bucket key version_id) (call.Opens fs bucket key) w
      (call.run P fs draws bucket key version_id w).2
  reads : ∀ (call : VersionCall) draws w w', StoredPlainly fs bucket key w →
    SameView (OnWay (call.Reads fs bucket key version_id)) w w' →
      (call.run P fs draws bucket key version_id w').1 = (call.run P fs draws bucket key version_id w).1 ∧
        SameView (OnWay (call.Reads fs bucket key version_id)) (call.run P fs draws bucket key version_id w).2
          (call.run P fs draws bucket key version_id w').2
  keeps : ∀ (call : VersionCall) draws w, StoredPlainly fs bucket key w →
    StoredPlainly fs bucket key (call.run P fs draws bucket key version_id w).2
  fails : ∀ (call : VersionCall) draws w,
    (∀ record, w.tree.node (sidecarAt fs bucket key version_id) ≠ some (.file (.json (.object record)))) →
      ∃ e, call.run P fs draws bucket key version_id w = (.error e,w)

end Places

section Confinement
variable {P : Primitives} {fs : FilesystemStorage} {draws : Draws} {bucket key version_id : String} {w w' : World}

/-! ### Changes -/

theorem read_version_meta_quiet : Quiet (fs.read_version_meta bucket key version_id) :=
  Quiet.bind (Quiet.mapError (Quiet.observe _)) fun _ => Quiet.lift _

theorem open_version_quiet (record : ObjectMeta) (customer_key : Option Bytes) :
    Quiet (fs.open_version P bucket key version_id record customer_key) := by
  unfold FilesystemStorage.open_version
  by_cases marker : record.is_delete_marker = true
  · rw [if_pos marker]
    exact Quiet.fail _
  rw [if_neg marker]
  refine Quiet.bind (Quiet.lift _) fun _ => Quiet.bind (Quiet.io (Quiet.observe _)) fun chunked => ?_
  cases chunked with
  | true => exact open_chunked_quiet _ _ _ record customer_key
  | false =>
    rw [if_neg (by simp)]
    dsimp only
    cases record.encryption with
    | some enc => exact open_encrypted_file_quiet _ _ record enc customer_key
    | none => exact Quiet.bind (open_file_quiet _ _ _) fun _ => Quiet.pure _

theorem get_object_version_quiet (customer_key : Option Bytes) :
    Quiet (fs.get_object_version P bucket key version_id customer_key) := by
  rw [FilesystemStorage.get_object_version_eq]
  refine Quiet.bind (Quiet.lift _) fun _ => Quiet.bind (Quiet.lift _) fun _ => ?_
  by_cases null : version_id = "null"
  · rw [if_pos null]
    exact get_object_quiet customer_key
  · rw [if_neg null]
    exact Quiet.bind read_version_meta_quiet fun record => Quiet.bind (open_version_quiet record customer_key) fun _ =>
      Quiet.pure _

theorem head_object_version_quiet : Quiet (fs.head_object_version bucket key version_id) := by
  refine Quiet.bind (Quiet.lift _) fun _ => Quiet.bind (Quiet.lift _) fun _ => ?_
  by_cases null : version_id = "null"
  · rw [if_pos null]
    exact head_object_quiet
  · rw [if_neg null]
    refine Quiet.bind read_version_meta_quiet fun record => ?_
    by_cases marker : record.is_delete_marker = true
    · rw [if_pos marker]
      exact Quiet.fail _
    · rw [if_neg marker]
      exact Quiet.pure _

theorem get_object_retention_quiet (version_id : Option String) : Quiet (fs.get_object_retention bucket key version_id) := by
  refine Quiet.bind read_meta_at_quiet fun record => ?_
  cases record.object_lock_mode with
  | none => exact Quiet.fail _
  | some mode =>
    cases record.retain_until_date with
    | none => exact Quiet.fail _
    | some until_date => exact Quiet.pure _

theorem get_object_legal_hold_quiet (version_id : Option String) : Quiet (fs.get_object_legal_hold bucket key version_id) := by
  refine Quiet.bind read_meta_at_quiet fun record => ?_
  cases record.legal_hold_status with
  | none => exact Quiet.fail _
  | some status => exact Quiet.pure _

/-- The calls that set a lock: `set` is what they do to the record. -/
def FilesystemStorage.set_lock (fs : FilesystemStorage) (bucket key : String) (version_id : Option String)
    (set : ObjectMeta → ObjectMeta) : Action Unit := do
  Prog.lift (validate_bucket_name bucket)
  Prog.lift (validate_key key)
  let settings ← fs.read_bucket_meta bucket
  if !settings.object_lock_enabled then Prog.fail (.InvalidKey "object lock is not enabled for this bucket")
  else
    let record ← fs.read_meta_at bucket key version_id
    fs.write_meta_at bucket key version_id (set record)

theorem put_object_retention_eq (version_id : Option String) (retention : ObjectLockRetention) :
    fs.put_object_retention bucket key version_id retention =
      fs.set_lock bucket key version_id fun record => apply_object_lock record (some retention) := rfl

theorem put_object_legal_hold_eq (version_id : Option String) (status : LegalHoldStatus) :
    fs.put_object_legal_hold bucket key version_id status =
      fs.set_lock bucket key version_id fun record => { record with legal_hold_status := some status } := rfl

/-- A step that only looks, before the rest. -/
theorem ends_after {ε α β : Type} {m : Prog World ε α} {f : α → Prog World ε β} {Q : World → Prop} (quiet : Quiet m)
    (here : Q w) (second : ∀ a, m w = (.ok a,w) → Q (f a w).2) : Q ((m >>= f) w).2 := by
  rcases ran : m w with ⟨e | a,w'⟩
  · have same := quiet.state ran
    subst same
    rw [Prog.bind_of_error ran]
    exact here
  · have same := quiet.state ran
    subst same
    rw [Prog.bind_of_ok ran]
    exact second a ran

/-- A call that sets a lock changes nothing, or it replaces the record it has read. -/
theorem set_lock_cases (version_id : Option String) (set : ObjectMeta → ObjectMeta) :
    (fs.set_lock bucket key version_id set w).2 = w ∨ ∃ record, fs.read_meta_at bucket key version_id w = (.ok record,w) ∧
      Fs.write (meta_file_at fs bucket key version_id) (.json (.object (set record))) w =
        (.ok (),(fs.set_lock bucket key version_id set w).2) := by
  let Q (w' : World) : Prop := w' = w ∨ ∃ record, fs.read_meta_at bucket key version_id w = (.ok record,w) ∧
    Fs.write (meta_file_at fs bucket key version_id) (.json (.object (set record))) w = (.ok (),w')
  show Q (fs.set_lock bucket key version_id set w).2
  refine ends_after (Quiet.lift _) (.inl rfl) fun _ _ => ends_after (Quiet.lift _) (.inl rfl) fun _ _ => ?_
  refine ends_after (FilesystemStorage.read_bucket_meta_quiet bucket) (.inl rfl) fun settings _ => ?_
  split
  next => exact .inl rfl
  next =>
    refine ends_after read_meta_at_quiet (.inl rfl) fun record read => ?_
    rw [write_meta_at_eq]
    rcases wrote : Fs.write (meta_file_at fs bucket key version_id) (.json (.object (set record))) w with ⟨e | _,w'⟩
    · refine .inl ?_
      show (Fs.write (meta_file_at fs bucket key version_id) (.json (.object (set record))) w).2 = w
      rw [wrote]
      exact Fs.change_error wrote
    · refine .inr ⟨record,read,?_⟩
      show Fs.write _ _ w = (Except.ok (),(Fs.write (meta_file_at fs bucket key version_id) (.json (.object (set record))) w).2)
      rw [wrote]

variable (named : validate_bucket_name bucket = .ok ()) (valid : validate_key key = .ok ()) (plain : '/' ∉ version_id.toList)
include named valid plain

theorem meta_file_leads : ∃ dir name, Leads (meta_file_at fs bucket key (some version_id)) dir name ∧
    dir ++ [name] = sidecarAt fs bucket key version_id := by
  have accepted : Accepted bucket key := ⟨named,valid⟩
  unfold meta_file_at sidecarAt
  by_cases null : version_id = "null"
  · simp only [if_pos null]
    exact ⟨_,_,accepted.meta_leads,rfl⟩
  · simp only [if_neg null]
    exact ⟨_,_,version_meta_leads accepted plain,rfl⟩

theorem set_lock_frames (set : ObjectMeta → ObjectMeta) {G : OsPath → Prop} :
    Frames (fun q => q = sidecarAt fs bucket key version_id) G (fs.set_lock bucket key (some version_id) set) := by
  obtain ⟨dir,name,leads,spelled⟩ := @meta_file_leads fs _ _ _ named valid plain
  refine Frames.bind (Frames.lift _) fun _ => Frames.bind (Frames.lift _) fun _ =>
    Frames.bind (FilesystemStorage.read_bucket_meta_quiet bucket).frames fun settings => ?_
  refine Frames.ite (fun _ => Frames.fail _) fun _ => ?_
  refine Frames.bind read_meta_at_quiet.frames fun record => ?_
  rw [write_meta_at_eq]
  refine Frames.io (Fs.frames_write leads.entry.forward (fun _ => ?_) _)
  rw [leads.names,spelled]

theorem delete_object_version_frames :
    Frames (fun q => VersionFiles fs bucket key version_id q ∨ CurrentFiles fs bucket key q) (Opened fs bucket key)
      (fs.delete_object_version P draws bucket key version_id) := by
  have accepted : Accepted bucket key := ⟨named,valid⟩
  have restored : Frames (fun q => VersionFiles fs bucket key version_id q ∨ CurrentFiles fs bucket key q)
      (Opened fs bucket key) (fs.update_current_version bucket key) :=
    (update_current_version_frames accepted).mono (fun _ => .inr) fun _ => .inr
  rw [delete_object_version_eq]
  refine Frames.bind (Frames.lift _) fun _ => Frames.bind (Frames.lift _) fun _ => ?_
  by_cases null : version_id = "null"
  · rw [if_pos null]
    refine Frames.bind (FilesystemStorage.read_object_meta_quiet bucket key).frames fun record => ?_
    refine Frames.ite (fun _ => Frames.fail _) fun _ => ?_
    have removed : Frames (fun q => VersionFiles fs bucket key version_id q ∨ CurrentFiles fs bucket key q)
        (Opened fs bucket key) (fs.remove_current bucket key) :=
      (remove_current_frames accepted).mono (fun _ => .inr) fun _ => .inr
    exact Frames.bind removed fun _ => Frames.bind restored fun _ => Frames.pure _
  · rw [if_neg null]
    refine Frames.bind read_version_meta_quiet.frames fun record => ?_
    refine Frames.ite (fun _ => Frames.fail _) fun _ => ?_
    have removed : Frames (fun q => VersionFiles fs bucket key version_id q ∨ CurrentFiles fs bucket key q)
        (Opened fs bucket key) (fs.remove_version bucket key version_id) := by
      refine (remove_version_frames accepted plain).mono (fun q stored => .inl ?_) fun _ => .inr
      rw [VersionFiles,if_neg null]
      exact stored
    exact Frames.bind removed fun _ => Frames.bind restored fun _ => Frames.pure _

theorem VersionCall.run_frame (call : VersionCall) (w : World) :
    Frame (call.Touches fs bucket key version_id) (call.Opens fs bucket key) w
      (call.run P fs draws bucket key version_id w).2 := by
  cases call with
  | get_object_version ck caps turns =>
    exact Frame.wrapped ((Quiet.bind (get_object_version_quiet ck) fun _ => Quiet.pure _).frames w)
  | head_object_version => exact Frame.wrapped (head_object_version_quiet.frames w)
  | get_object_retention => exact Frame.wrapped ((get_object_retention_quiet _).frames w)
  | get_object_legal_hold => exact Frame.wrapped ((get_object_legal_hold_quiet _).frames w)
  | delete_object_version => exact Frame.wrapped (delete_object_version_frames named valid plain w)
  | put_object_retention retention => exact Frame.wrapped (set_lock_frames named valid plain _ w)
  | put_object_legal_hold status => exact Frame.wrapped (set_lock_frames named valid plain _ w)

/-- The ids of the stored sidecars stay plain when a lock is set. -/
theorem set_lock_keeps {set : ObjectMeta → ObjectMeta} (same : ∀ record, (set record).version_id = record.version_id)
    (plainly : StoredPlainly fs bucket key w) :
    StoredPlainly fs bucket key (fs.set_lock bucket key (some version_id) set w).2 := by
  obtain ⟨dir,name,leads,spelled⟩ := @meta_file_leads fs _ _ _ named valid plain
  rcases @set_lock_cases fs bucket key w (some version_id) set with
    unchanged | ⟨record,read,wrote⟩
  · rw [unchanged]
    exact plainly
  · have sets := (Fs.write_done leads wrote).1
    have found := (Fs.read_done leads (read_meta_at_ok_iff.mp read).2.1).1
    intro n record' vid stored has
    by_cases here : versionsAt fs bucket key ++ [n] = dir ++ [name]
    · rw [here,sets.here] at stored
      obtain rfl : set record = record' := by simpa using stored
      rw [same] at has
      exact plainly n record vid (here ▸ found) has
    · rw [sets.other here] at stored
      exact plainly n record' vid stored has

/-- A deletion only removes what is stored, before it restores a version over the current files. -/
theorem delete_object_version_keeps (plainly : StoredPlainly fs bucket key w) :
    StoredPlainly fs bucket key (fs.delete_object_version P draws bucket key version_id w).2 := by
  have accepted : Accepted bucket key := ⟨named,valid⟩
  have restored {m : Action Unit} (shrinks : Prog.Keeps Shrinks m) (record : ObjectMeta) :
      StoredPlainly fs bucket key ((do
        m
        fs.update_current_version bucket key
        pure record : Action ObjectMeta) w).2 := by
    have after := plainly.shrinks (shrinks w)
    rw [Prog.bind_apply]
    split
    next _ w₁ done =>
      rw [done] at after
      have frame := @Frame.wrapped _ _ _ _ _ _ _ (fun _ => record) (@update_current_version_frames fs _ _ accepted w₁)
      exact after.frame frame fun n => current_apart accepted [n]
    next e w₁ done =>
      rw [done] at after
      exact after
  rw [delete_object_version_eq]
  refine ends_after (Quiet.lift _) plainly fun _ _ => ends_after (Quiet.lift _) plainly fun _ _ => ?_
  by_cases null : version_id = "null"
  · rw [if_pos null]
    refine ends_after (FilesystemStorage.read_object_meta_quiet bucket key) plainly fun record _ => ?_
    split
    next => exact plainly
    next => exact restored (remove_current_shrinks accepted) record
  · rw [if_neg null]
    refine ends_after read_version_meta_quiet plainly fun record _ => ?_
    split
    next => exact plainly
    next => exact restored (remove_version_shrinks accepted plain) record

omit named valid plain in
/-- The last step of a call only wraps up its result. -/
theorem wrapped_state {ε α β : Type} {m : Prog World ε α} {f : α → β} :
    ((m >>= fun a => pure (f a)) w).2 = (m w).2 := by
  rw [Prog.bind_apply]
  rcases m w with ⟨e | a,w'⟩
  · rfl
  · rfl

omit named valid plain in
theorem wrapped_views {V : OsPath → Prop} {ε α β : Type} {m : Prog World ε α} {f : α → β}
    (both : (m w').1 = (m w).1 ∧ SameView V (m w).2 (m w').2) :
    ((m >>= fun a => pure (f a)) w').1 = ((m >>= fun a => pure (f a)) w).1 ∧
      SameView V ((m >>= fun a => pure (f a)) w).2 ((m >>= fun a => pure (f a)) w').2 := by
  obtain ⟨outcome,after⟩ := both
  rw [Prog.bind_apply,Prog.bind_apply]
  rcases left : m w with ⟨e | a,w₁⟩ <;> rcases right : m w' with ⟨e' | a',w₂⟩ <;> rw [left,right] at outcome after
  · exact ⟨congrArg Except.error (Except.error.inj outcome),after⟩
  · cases outcome
  · cases outcome
  · exact ⟨congrArg (fun a => Except.ok (f a)) (Except.ok.inj outcome),after⟩

/-- A call keeps the ids of the stored sidecars plain. -/
theorem VersionCall.run_keeps (call : VersionCall) (plainly : StoredPlainly fs bucket key w) :
    StoredPlainly fs bucket key (call.run P fs draws bucket key version_id w).2 := by
  have frame := @VersionCall.run_frame P fs draws _ _ _ named valid plain call w
  cases call with
  | get_object_version ck caps turns => exact plainly.frame frame fun _ => id
  | head_object_version => exact plainly.frame frame fun _ => id
  | get_object_retention => exact plainly.frame frame fun _ => id
  | get_object_legal_hold => exact plainly.frame frame fun _ => id
  | delete_object_version =>
    rw [VersionCall.run,wrapped_state]
    exact delete_object_version_keeps named valid plain plainly
  | put_object_retention retention =>
    rw [VersionCall.run,wrapped_state]
    exact set_lock_keeps named valid plain (fun record => rfl) plainly
  | put_object_legal_hold status =>
    rw [VersionCall.run,wrapped_state]
    exact set_lock_keeps named valid plain (fun record => rfl) plainly

/-! ### Reads -/

section Reads
variable {V : OsPath → Prop} (rooted : Rooted V) (files : ∀ q, VersionFiles fs bucket key version_id q → V q)

omit named valid plain in
include files in
theorem own_of_files (null : version_id = "null") (n : String) (member : n ∈ ownNames key) (r : OsPath) :
    V (home fs bucket key ++ [n] ++ r) := by
  refine files _ ?_
  rw [VersionFiles,if_pos null]
  exact .intro member (List.prefix_append _ _)

omit named valid plain in
include files in
theorem stored_of_files (other : version_id ≠ "null") (n : String) (member : n ∈ versionNames version_id) (r : OsPath) :
    V (versionsAt fs bucket key ++ [n] ++ r) := by
  refine files _ ?_
  rw [VersionFiles,if_neg other]
  exact .intro member (List.prefix_append _ _)

omit named valid plain in
include rooted in
theorem home_of_own (own : ∀ n ∈ ownNames key, ∀ r, V (home fs bucket key ++ [n] ++ r)) : V (home fs bucket key) := by
  refine rooted _ _ ?_ (own (metaName key) (by simp [ownNames]) [])
  rw [List.append_nil]
  exact List.prefix_append _ _

include rooted files

theorem get_object_version_sees (customer_key : Option Bytes) (caps : Nat → Nat) (turns : Nat) :
    Sees V (fs.get_object_version P bucket key version_id customer_key >>= fun got => pure (read_out P caps turns got)) := by
  have accepted : Accepted bucket key := ⟨named,valid⟩
  rw [FilesystemStorage.get_object_version_eq,named,valid,Prog.lift_ok_bind,Prog.lift_ok_bind]
  by_cases null : version_id = "null"
  · rw [if_pos null]
    have own := own_of_files files null
    exact get_object_sees rooted accepted own (home_of_own rooted own) customer_key caps turns
  · rw [if_neg null]
    exact get_stored_sees rooted accepted plain (stored_of_files files null) customer_key caps turns

theorem head_object_version_sees : Sees V (fs.head_object_version bucket key version_id) := by
  have accepted : Accepted bucket key := ⟨named,valid⟩
  refine Respects.bind (Respects.lift _) fun _ => Respects.bind (Respects.lift _) fun _ => ?_
  by_cases null : version_id = "null"
  · rw [if_pos null]
    refine Respects.bind (Respects.lift _) fun _ => Respects.bind (Respects.lift _) fun _ => ?_
    exact read_object_meta_sees rooted accepted (own_of_files files null)
  · rw [if_neg null]
    refine Respects.bind (read_version_meta_sees rooted accepted plain (stored_of_files files null)) fun record => ?_
    exact Respects.ite (fun _ => Respects.fail _) fun _ => Respects.pure _

theorem read_meta_at_sees : Sees V (fs.read_meta_at bucket key (some version_id)) := by
  have accepted : Accepted bucket key := ⟨named,valid⟩
  refine Respects.bind (Respects.lift _) fun _ => ?_
  dsimp only
  by_cases null : version_id = "null"
  · rw [if_pos null]
    exact read_object_meta_sees rooted accepted (own_of_files files null)
  · rw [if_neg null]
    exact read_version_meta_sees rooted accepted plain (stored_of_files files null)

theorem get_object_retention_sees : Sees V (fs.get_object_retention bucket key (some version_id)) := by
  refine Respects.bind (read_meta_at_sees named valid plain rooted files) fun record => ?_
  cases record.object_lock_mode with
  | none => exact Respects.fail _
  | some mode =>
    cases record.retain_until_date with
    | none => exact Respects.fail _
    | some until_date => exact Respects.pure _

theorem get_object_legal_hold_sees : Sees V (fs.get_object_legal_hold bucket key (some version_id)) := by
  refine Respects.bind (read_meta_at_sees named valid plain rooted files) fun record => ?_
  cases record.legal_hold_status with
  | none => exact Respects.fail _
  | some status => exact Respects.pure _

theorem set_lock_sees (settings : V (base fs.buckets_dir bucket ++ [".bucket.json"])) (set : ObjectMeta → ObjectMeta) :
    Sees V (fs.set_lock bucket key (some version_id) set) := by
  obtain ⟨dir,name,leads,spelled⟩ := @meta_file_leads fs _ _ _ named valid plain
  have place : V (dir ++ [name]) := by
    rw [spelled,sidecarAt]
    refine files _ ?_
    unfold VersionFiles
    by_cases null : version_id = "null"
    · rw [if_pos null,if_pos null]
      exact .intro (n := metaName key) (by simp [ownNames]) (List.prefix_refl _)
    · rw [if_neg null,if_neg null]
      exact .intro (by simp [versionNames]) (List.prefix_refl _)
  refine Respects.bind (Respects.lift _) fun _ => Respects.bind (Respects.lift _) fun _ =>
    Respects.bind (read_bucket_meta_sees rooted (validBucket_of_validate named) settings) fun record => ?_
  refine Respects.ite (fun _ => Respects.fail _) fun _ => ?_
  refine Respects.bind (read_meta_at_sees named valid plain rooted files) fun record => ?_
  rw [write_meta_at_eq]
  refine Sees.io (Fs.sees_write rooted leads.entry.forward ?_ _)
  rw [leads.names]
  exact place

theorem delete_object_version_views (own : ∀ n ∈ ownNames key, ∀ r, V (home fs bucket key ++ [n] ++ r))
    (opened : ∀ q, Opened fs bucket key q → V q) (stored : ∀ r, V (versionsAt fs bucket key ++ r))
    (plainly : StoredPlainly fs bucket key w) (alike : SameView V w w') :
    (fs.delete_object_version P draws bucket key version_id w').1 = (fs.delete_object_version P draws bucket key version_id w).1 ∧
      SameView V (fs.delete_object_version P draws bucket key version_id w).2
        (fs.delete_object_version P draws bucket key version_id w').2 := by
  have accepted : Accepted bucket key := ⟨named,valid⟩
  have restored {m : Action Unit} (shrinks : Prog.Keeps Shrinks m) (sees : Sees V m) (record : ObjectMeta) :
      ((do m; fs.update_current_version bucket key; pure record : Action ObjectMeta) w').1 =
        ((do m; fs.update_current_version bucket key; pure record : Action ObjectMeta) w).1 ∧
      SameView V ((do m; fs.update_current_version bucket key; pure record : Action ObjectMeta) w).2
        ((do m; fs.update_current_version bucket key; pure record : Action ObjectMeta) w').2 := by
    have after := plainly.shrinks (shrinks w)
    obtain ⟨outcome,view⟩ := sees w w' alike
    rw [Prog.bind_apply,Prog.bind_apply]
    rcases left : m w with ⟨e | _,w₁⟩ <;> rcases right : m w' with ⟨e' | _,w₂⟩ <;> rw [left,right] at outcome view <;>
      rw [left] at after
    · exact ⟨congrArg Except.error (Except.error.inj outcome),view⟩
    · cases outcome
    · cases outcome
    · obtain ⟨outcome',view'⟩ := update_current_version_views rooted accepted own opened stored after view
      dsimp only
      rw [Prog.bind_apply,Prog.bind_apply]
      rcases left' : fs.update_current_version bucket key w₁ with ⟨e | _,w₃⟩ <;>
        rcases right' : fs.update_current_version bucket key w₂ with ⟨e' | _,w₄⟩ <;> rw [left',right'] at outcome' view'
      · exact ⟨congrArg Except.error (Except.error.inj outcome'),view'⟩
      · cases outcome'
      · cases outcome'
      · exact ⟨rfl,view'⟩
  rw [delete_object_version_eq,named,valid,Prog.lift_ok_bind,Prog.lift_ok_bind]
  by_cases null : version_id = "null"
  · rw [if_pos null]
    refine SameView.after (FilesystemStorage.read_object_meta_quiet bucket key) (read_object_meta_sees rooted accepted own)
      alike fun record _ => ?_
    split
    next => exact ⟨rfl,alike⟩
    next =>
      exact restored (remove_current_shrinks accepted)
        (remove_current_sees rooted accepted own (home_of_own rooted own)) record
  · rw [if_neg null]
    refine SameView.after read_version_meta_quiet
      (read_version_meta_sees rooted accepted plain (stored_of_files files null)) alike fun record _ => ?_
    split
    next => exact ⟨rfl,alike⟩
    next =>
      exact restored (remove_version_shrinks accepted plain)
        (remove_version_sees rooted accepted opened stored plain) record

end Reads

theorem VersionCall.run_reads (call : VersionCall) (plainly : StoredPlainly fs bucket key w)
    (alike : SameView (OnWay (call.Reads fs bucket key version_id)) w w') :
    (call.run P fs draws bucket key version_id w').1 = (call.run P fs draws bucket key version_id w).1 ∧
      SameView (OnWay (call.Reads fs bucket key version_id)) (call.run P fs draws bucket key version_id w).2
        (call.run P fs draws bucket key version_id w').2 := by
  have rooted := onWay_rooted (call.Reads fs bucket key version_id)
  have files : ∀ q, VersionFiles fs bucket key version_id q → OnWay (call.Reads fs bucket key version_id) q :=
    fun q inside => .of (.inl inside)
  cases call with
  | get_object_version ck caps turns =>
    exact sees_at (Respects.bind (get_object_version_sees named valid plain rooted files ck caps turns)
      fun _ => Respects.pure _) alike
  | head_object_version =>
    exact sees_at (Respects.bind (head_object_version_sees named valid plain rooted files) fun _ => Respects.pure _) alike
  | get_object_retention =>
    exact sees_at (Respects.bind (get_object_retention_sees named valid plain rooted files) fun _ => Respects.pure _) alike
  | get_object_legal_hold =>
    exact sees_at (Respects.bind (get_object_legal_hold_sees named valid plain rooted files) fun _ => Respects.pure _) alike
  | put_object_retention retention =>
    exact sees_at (Respects.bind (set_lock_sees named valid plain rooted files (.of (.inr rfl)) _)
      fun _ => Respects.pure _) alike
  | put_object_legal_hold status =>
    exact sees_at (Respects.bind (set_lock_sees named valid plain rooted files (.of (.inr rfl)) _)
      fun _ => Respects.pure _) alike
  | delete_object_version =>
    refine wrapped_views (delete_object_version_views named valid plain rooted files ?_ ?_ ?_ plainly alike)
    · exact fun n member r => .of (.inr (.inl (.intro member (List.prefix_append _ _))))
    · exact fun q opened => .of (.inr (.inr (.inl opened)))
    · exact fun r => .of (.inr (.inr (.inr (List.prefix_append _ _))))

/-! ### Without a sidecar -/

omit named valid plain in
/-- A step that only looks, before a program that fails. -/
theorem fails_after {ε α β : Type} {m : Prog World ε α} {f : α → Prog World ε β} (quiet : Quiet m)
    (second : ∀ a, m w = (.ok a,w) → ∃ e, f a w = (.error e,w)) : ∃ e, (m >>= f) w = (.error e,w) := by
  rcases ran : m w with ⟨e | a,w'⟩
  · have same := quiet.state ran
    subst same
    exact ⟨e,Prog.bind_of_error ran⟩
  · have same := quiet.state ran
    subst same
    rw [Prog.bind_of_ok ran]
    exact second a ran

omit named valid plain in
theorem fails_first {ε α β : Type} {m : Prog World ε α} {f : α → Prog World ε β} (failed : ∃ e, m w = (.error e,w)) :
    ∃ e, (m >>= f) w = (.error e,w) := by
  obtain ⟨e,ran⟩ := failed
  exact ⟨e,Prog.bind_of_error ran⟩

omit named valid plain in
theorem fails_of_quiet {ε α : Type} {m : Prog World ε α} (quiet : Quiet m) (never : ∀ a, m w ≠ (.ok a,w)) :
    ∃ e, m w = (.error e,w) := by
  rcases ran : m w with ⟨e | a,w'⟩
  · have same := quiet.state ran
    subst same
    exact ⟨e,rfl⟩
  · have same := quiet.state ran
    subst same
    exact absurd ran (never a)

section Missing
variable (missing : ∀ record, w.tree.node (sidecarAt fs bucket key version_id) ≠ some (.file (.json (.object record))))
include missing

theorem read_meta_at_fails : ∃ e, fs.read_meta_at bucket key (some version_id) w = (.error e,w) := by
  refine fails_of_quiet read_meta_at_quiet fun record read => ?_
  obtain ⟨dir,name,leads,spelled⟩ := @meta_file_leads fs _ _ _ named valid plain
  have file := (Fs.read_done leads (read_meta_at_ok_iff.mp read).2.1).1
  rw [spelled] at file
  exact missing record file

theorem read_object_meta_fails (null : version_id = "null") : ∃ e, fs.read_object_meta bucket key w = (.error e,w) := by
  have failed := read_meta_at_fails named valid plain missing
  rw [FilesystemStorage.read_meta_at,valid,Prog.lift_ok_bind] at failed
  simpa only [if_pos null] using failed

theorem read_version_meta_fails (other : version_id ≠ "null") :
    ∃ e, fs.read_version_meta bucket key version_id w = (.error e,w) := by
  have failed := read_meta_at_fails named valid plain missing
  rw [FilesystemStorage.read_meta_at,valid,Prog.lift_ok_bind] at failed
  simpa only [if_neg other] using failed

theorem set_lock_fails (set : ObjectMeta → ObjectMeta) :
    ∃ e, fs.set_lock bucket key (some version_id) set w = (.error e,w) := by
  refine fails_after (Quiet.lift _) fun _ _ => fails_after (Quiet.lift _) fun _ _ => ?_
  refine fails_after (FilesystemStorage.read_bucket_meta_quiet bucket) fun settings _ => ?_
  split
  next => exact ⟨_,rfl⟩
  next => exact fails_first (read_meta_at_fails named valid plain missing)

theorem get_object_version_fails (customer_key : Option Bytes) :
    ∃ e, fs.get_object_version P bucket key version_id customer_key w = (.error e,w) := by
  rw [FilesystemStorage.get_object_version_eq]
  refine fails_after (Quiet.lift _) fun _ _ => fails_after (Quiet.lift _) fun _ _ => ?_
  by_cases null : version_id = "null"
  · rw [if_pos null,FilesystemStorage.get_object_eq]
    refine fails_after (Quiet.lift _) fun _ _ => fails_after (Quiet.lift _) fun _ _ => ?_
    exact fails_first (read_object_meta_fails named valid plain missing null)
  · rw [if_neg null]
    exact fails_first (read_version_meta_fails named valid plain missing null)

theorem head_object_version_fails : ∃ e, fs.head_object_version bucket key version_id w = (.error e,w) := by
  refine fails_after (Quiet.lift _) fun _ _ => fails_after (Quiet.lift _) fun _ _ => ?_
  by_cases null : version_id = "null"
  · rw [if_pos null]
    refine fails_after (Quiet.lift _) fun _ _ => fails_after (Quiet.lift _) fun _ _ => ?_
    exact read_object_meta_fails named valid plain missing null
  · rw [if_neg null]
    exact fails_first (read_version_meta_fails named valid plain missing null)

theorem delete_object_version_fails : ∃ e, fs.delete_object_version P draws bucket key version_id w = (.error e,w) := by
  rw [delete_object_version_eq]
  refine fails_after (Quiet.lift _) fun _ _ => fails_after (Quiet.lift _) fun _ _ => ?_
  by_cases null : version_id = "null"
  · rw [if_pos null]
    exact fails_first (read_object_meta_fails named valid plain missing null)
  · rw [if_neg null]
    exact fails_first (read_version_meta_fails named valid plain missing null)

/-- Without a sidecar for the id, the call fails and changes nothing. -/
theorem VersionCall.run_fails (call : VersionCall) :
    ∃ e, call.run P fs draws bucket key version_id w = (.error e,w) := by
  cases call with
  | get_object_version ck caps turns =>
    exact fails_first (fails_first (get_object_version_fails named valid plain missing ck))
  | head_object_version => exact fails_first (head_object_version_fails named valid plain missing)
  | delete_object_version => exact fails_first (delete_object_version_fails named valid plain missing)
  | put_object_retention retention => exact fails_first (set_lock_fails named valid plain missing _)
  | put_object_legal_hold status => exact fails_first (set_lock_fails named valid plain missing _)
  | get_object_retention => exact fails_first (fails_first (read_meta_at_fails named valid plain missing))
  | get_object_legal_hold => exact fails_first (fails_first (read_meta_at_fails named valid plain missing))

end Missing

/-- The calls with an id that has no slash in it are confined to the version. -/
theorem version_calls_confined : VersionsConfined fs bucket key version_id P where
  touches call _ w := VersionCall.run_frame named valid plain call w
  reads call _ _ _ plainly alike := VersionCall.run_reads named valid plain call plainly alike
  keeps call _ _ plainly := VersionCall.run_keeps named valid plain call plainly
  fails call _ _ missing := VersionCall.run_fails named valid plain missing call

end Confinement

theorem version_calls_confined_two_dots : VersionsConfined Sample.fourfold "logs" "a" ".." Sample.primitives :=
  version_calls_confined (by decide) (by decide) (by decide)

namespace Sample

/-- A version of `key` is put in the versioned bucket. -/
def put_version (key : String) (n : Nat) (body : ByteStream) (w : World) : World :=
  (fourfold.put_object primitives (draws n) "logs" key "text/plain" body none none none w).2

/-- One version of `b` and two of `a`. -/
def three_versions : World :=
  put_version "a" 3 (stream [0] zero_filled zero_fits) (put_version "a" 2 (stream abc abc_filled abc_fits)
    (put_version "b" 1 (stream abc abc_filled abc_fits) (world true)))

def delete_version_of_a (version_id : String) : World :=
  (VersionCall.delete_object_version.run primitives fourfold (draws 4) "logs" "a" version_id three_versions).2

/-- The sidecar of the version of `b`. -/
def version_of_b : OsPath := versionsAt fourfold "logs" "b" ++ [(draws 1).version_id ++ ".meta.json"]

/-- What the three puts and either deletion come to; in one statement, so that the puts are evaluated once. -/
theorem three_versions_run : three_versions.tree.node version_of_b ≠ none ∧
    (delete_version_of_a ("../b/" ++ (draws 1).version_id)).tree.node version_of_b = none ∧
    (delete_version_of_a (draws 3).version_id).tree.node (metaAt fourfold "logs" "a") ≠
      three_versions.tree.node (metaAt fourfold "logs" "a") := by decide +kernel

end Sample

/-- With an id that leads to the versions of another key, a deletion removes one of them; and with the id of the newest
    version, it restores an older version over the current files. -/
theorem version_calls_astray :
    (Sample.three_versions.tree.node Sample.version_of_b ≠ none ∧
      (Sample.delete_version_of_a ("../b/" ++ (Sample.draws 1).version_id)).tree.node Sample.version_of_b = none ∧
      ¬ versionsAt Sample.fourfold "logs" "a" <+: Sample.version_of_b ∧
      ¬ CurrentFiles Sample.fourfold "logs" "a" Sample.version_of_b) ∧
    (Sample.delete_version_of_a (Sample.draws 3).version_id).tree.node (metaAt Sample.fourfold "logs" "a") ≠
        Sample.three_versions.tree.node (metaAt Sample.fourfold "logs" "a") ∧
      ¬ versionsAt Sample.fourfold "logs" "a" <+: metaAt Sample.fourfold "logs" "a" := by
  have own : ∀ n ∈ ownNames "a", ¬ home Sample.fourfold "logs" "a" ++ [n] <+: Sample.version_of_b := by decide +kernel
  obtain ⟨there,gone,restored⟩ := Sample.three_versions_run
  refine ⟨⟨there,gone,by decide +kernel,?_⟩,restored,by decide +kernel⟩
  rintro ⟨n,member,below⟩
  exact own n member below

end Maxio
