import Maxio.Openings
import Maxio.KeyPlaces
import Maxio.UploadConfinement

/-!
Which places the calls on a version change, whatever their outcome, and which they depend on: the entries of the version,
and for a deletion the current files of the key and what is stored of its other versions.
-/

set_option linter.unusedSimpArgs false

namespace Maxio
open FileTree (Node Tree)
open FileTree.Tree (Rooted)
open Prog (Respects)

/-- The current files of a key. -/
def CurrentFiles (fs : FilesystemStorage) (bucket key : String) (q : OsPath) : Prop :=
  Under (home fs bucket key) (ownNames key) q

/-- The entries of one version. -/
def StoredVersion (fs : FilesystemStorage) (bucket key version_id : String) (q : OsPath) : Prop :=
  Under (versionsAt fs bucket key) (versionNames version_id) q

/-- The stored sidecars of the key name versions by ids without a slash, as every id the server makes up is. -/
def StoredPlainly (fs : FilesystemStorage) (bucket key : String) (w : World) : Prop :=
  ∀ name record vid, w.tree.node (versionsAt fs bucket key ++ [name]) = some (.file (.json (.object record))) →
    record.version_id = some vid → '/' ∉ vid.toList

section Version
variable {fs : FilesystemStorage} {bucket key version_id : String} (accepted : Accepted bucket key)
  (plain : '/' ∉ version_id.toList)
include accepted plain

theorem version_meta_leads : Leads (version_meta_path fs.buckets_dir bucket key version_id) (versionsAt fs bucket key)
    (version_id ++ ".meta.json") := accepted.version_entry_leads fs plain (by decide) (by decide)

theorem version_data_leads : Leads (version_data_path fs.buckets_dir bucket key version_id) (versionsAt fs bucket key)
    (version_id ++ ".data") := accepted.version_entry_leads fs plain (by decide) (by decide)

theorem version_ec_leads : Leads (version_ec_dir fs.buckets_dir bucket key version_id) (versionsAt fs bucket key)
    (version_id ++ ".ec") := accepted.version_entry_leads fs plain (by decide) (by decide)

end Version

/-! ### What a deletion changes -/

section Frames
variable {P : Primitives} {fs : FilesystemStorage} {bucket key version_id : String} {G : OsPath → Prop}
  (accepted : Accepted bucket key)
include accepted

theorem current_object (undotted : dotted (object_path fs.buckets_dir bucket key) = false) :
    CurrentFiles fs bucket key (canon (object_path fs.buckets_dir bucket key)) := by
  rw [(accepted.object_leads (accepted.named_of_not_dotted fs undotted)).names]
  exact .intro (by simp [ownNames]) (List.prefix_refl _)

theorem current_meta : CurrentFiles fs bucket key (canon (meta_path fs.buckets_dir bucket key)) := by
  rw [accepted.meta_leads.names]
  exact .intro (by simp [ownNames]) (List.prefix_refl _)

theorem current_ec {q : OsPath} (below : canon (ec_dir fs.buckets_dir bucket key) <+: q) : CurrentFiles fs bucket key q := by
  rw [accepted.ec_leads.names] at below
  exact .intro (by simp [ownNames]) below

theorem remove_ec_frames : Frames (CurrentFiles fs bucket key) G (Fs.remove_dir_all (ec_dir fs.buckets_dir bucket key)) :=
  Fs.frames_remove_dir_all accepted.ec_leads.entry.forward (Fs.last_of_named accepted.ec_leads.entry.named)
    fun _ _ => current_ec accepted

theorem remove_top_level_frames : Frames (CurrentFiles fs bucket key) G (fs.remove_top_level bucket key) := by
  refine Frames.bind (Frames.ignore ?_) fun _ => Frames.bind (Frames.ignore ?_) fun _ => Frames.ignore ?_
  · exact Fs.frames_remove_file (accepted.object_forward fs) (current_object accepted)
  · exact Fs.frames_remove_file accepted.meta_leads.entry.forward fun _ => current_meta accepted
  · exact remove_ec_frames accepted

omit accepted in
theorem opened_below_home {p dir : OsPath} (parent : parent_dir p = dir) (plain : canon dir = dir)
    (above : dir <+: home fs bucket key) (q : OsPath) (up : q <+: canon (parent_dir p)) :
    CurrentFiles fs bucket key q ∨ Opened fs bucket key q := by
  rw [parent,plain] at up
  exact .inr (.inl (up.trans above))

theorem restore_version_frames (record : ObjectMeta) :
    Frames (CurrentFiles fs bucket key) (Opened fs bucket key) (fs.restore_version bucket key record) := by
  have side : Frames (CurrentFiles fs bucket key) (Opened fs bucket key) (do
      io (Fs.create_dir_all (parent_dir (meta_path fs.buckets_dir bucket key)))
      io (Fs.write (meta_path fs.buckets_dir bucket key) (.json (.object record)))) := by
    refine Frames.bind (Frames.io (Fs.frames_create_dir_all ?_ ?_)) fun _ => Frames.io ?_
    · rw [accepted.meta_leads.parent]
      exact accepted.home_forward fs
    · exact opened_below_home accepted.meta_leads.parent (accepted.home_plain_canon fs) (List.prefix_refl _)
    · exact Fs.frames_write accepted.meta_leads.entry.forward (fun _ => current_meta accepted) _
  unfold FilesystemStorage.restore_version
  cases record.version_id with
  | none => exact Frames.fail _
  | some vid =>
    refine Frames.bind (Frames.io (Fs.frames_is_dir _)) fun chunked => ?_
    cases chunked with
    | true =>
      refine Frames.bind (Frames.io (Fs.frames_create_dir_all ?_ ?_)) fun _ => ?_
      · rw [accepted.ec_leads.parent]
        exact accepted.home_forward fs
      · exact opened_below_home accepted.ec_leads.parent (accepted.home_plain_canon fs) (List.prefix_refl _)
      refine Frames.bind (Frames.ignore (remove_ec_frames accepted)) fun _ => ?_
      refine Frames.bind (Frames.io (Fs.frames_create_dir_all accepted.ec_leads.entry.forward fun q above => ?_)) fun _ => ?_
      · rw [accepted.ec_leads.names,List.prefix_concat_iff] at above
        rcases above with same | above
        · exact .inl (.intro (n := ecName key) (by simp [ownNames]) (by rw [same]))
        · exact .inr (.inl above)
      refine Frames.bind (copy_entries_frames accepted.ec_leads fun q below => ?_) fun _ => side
      exact .intro (by simp [ownNames]) below
    | false =>
      refine Frames.bind (Frames.io (Fs.frames_create_dir_all (accepted.objectDir_forward fs) ?_)) fun _ => ?_
      · exact opened_below_home rfl (accepted.objectDir_canon fs) (accepted.objectDir_above fs)
      · exact Frames.bind (Frames.io (Fs.frames_copy _ (accepted.object_forward fs) (current_object accepted)))
          fun _ => side

theorem restore_first_frames (sidecars : List String) :
    Frames (CurrentFiles fs bucket key) (Opened fs bucket key) (fs.restore_first bucket key sidecars) := by
  induction sidecars with
  | nil => exact remove_top_level_frames accepted
  | cons name older ih =>
    refine Frames.bind (Frames.io (Fs.frames_read _)) fun data => Frames.bind (Frames.lift _) fun record => ?_
    exact Frames.ite (fun _ => ih) fun _ => restore_version_frames accepted record

/-- The newest version is restored over the current files. -/
theorem update_current_version_frames :
    Frames (CurrentFiles fs bucket key) (Opened fs bucket key) (fs.update_current_version bucket key) := by
  refine Frames.bind (Frames.unwrap_or _ (Fs.frames_try_exists _)) fun found => ?_
  refine Frames.ite (fun _ => ?_) fun _ => Frames.pure _
  exact Frames.bind (Frames.io (Fs.frames_read_dir _)) fun names => restore_first_frames accepted _

/-- The current files are removed, one after the other. -/
def FilesystemStorage.remove_current (fs : FilesystemStorage) (bucket key : String) : Action Unit := do
  Common.remove_file_if_exists (object_path fs.buckets_dir bucket key)
  Common.remove_file_if_exists (meta_path fs.buckets_dir bucket key)
  Common.remove_dir_all_if_exists (ec_dir fs.buckets_dir bucket key)

/-- What is stored of a version is removed, as far as that goes. -/
def FilesystemStorage.remove_version (fs : FilesystemStorage) (bucket key version_id : String) : Action Unit := do
  ignore (Fs.remove_file (version_meta_path fs.buckets_dir bucket key version_id))
  ignore (Fs.remove_file (version_data_path fs.buckets_dir bucket key version_id))
  ignore (Fs.remove_dir_all (version_ec_dir fs.buckets_dir bucket key version_id))
  ignore (Fs.remove_dir (versions_dir fs.buckets_dir bucket key))

omit accepted in
theorem delete_object_version_eq (draws : Draws) : fs.delete_object_version P draws bucket key version_id = (do
    Prog.lift (validate_bucket_name bucket)
    Prog.lift (validate_key key)
    if version_id = "null" then do
      let record ← fs.read_object_meta bucket key
      if is_object_protected P draws.now record then
        Prog.fail (.ObjectLocked "object is protected by retention or legal hold")
      else
        fs.remove_current bucket key
        fs.update_current_version bucket key
        pure record
    else
      let record ← fs.read_version_meta bucket key version_id
      if is_object_protected P draws.now record then
        Prog.fail (.ObjectLocked "object version is protected by retention or legal hold")
      else
        fs.remove_version bucket key version_id
        fs.update_current_version bucket key
        pure record) := by
  unfold FilesystemStorage.delete_object_version
  simp only [FilesystemStorage.remove_current,FilesystemStorage.remove_version,Prog.bind_assoc]

omit accepted in
theorem if_exists_frames {S : OsPath → Prop} {p : OsPath} {remove : OsPath → Io Unit} (inner : Frames S G (remove p)) :
    Frames S G (do
      match ← Prog.attempt (remove p) with
      | .ok () => pure ()
      | .error e => if e.kind = .NotFound then pure () else Prog.fail (.Io e) : Action Unit) := by
  refine Frames.bind (Frames.attempt inner) fun removed => ?_
  cases removed with
  | ok _ => exact Frames.pure _
  | error e => exact Frames.ite (fun _ => Frames.pure _) fun _ => Frames.fail _

theorem remove_current_frames : Frames (CurrentFiles fs bucket key) G (fs.remove_current bucket key) := by
  refine Frames.bind (if_exists_frames ?_) fun _ => Frames.bind (if_exists_frames ?_) fun _ => if_exists_frames ?_
  · exact Fs.frames_remove_file (accepted.object_forward fs) (current_object accepted)
  · exact Fs.frames_remove_file accepted.meta_leads.entry.forward fun _ => current_meta accepted
  · exact remove_ec_frames accepted

theorem remove_version_frames (plain : '/' ∉ version_id.toList) :
    Frames (StoredVersion fs bucket key version_id) (Opened fs bucket key) (fs.remove_version bucket key version_id) := by
  have side := @version_meta_leads fs _ _ _ accepted plain
  have data := @version_data_leads fs _ _ _ accepted plain
  have chunks := @version_ec_leads fs _ _ _ accepted plain
  refine Frames.bind (Frames.ignore ?_) fun _ => Frames.bind (Frames.ignore ?_) fun _ =>
    Frames.bind (Frames.ignore ?_) fun _ => Frames.ignore ?_
  · refine Fs.frames_remove_file side.entry.forward fun _ => ?_
    rw [side.names]
    exact .intro (by simp [versionNames]) (List.prefix_refl _)
  · refine Fs.frames_remove_file data.entry.forward fun _ => ?_
    rw [data.names]
    exact .intro (by simp [versionNames]) (List.prefix_refl _)
  · refine Fs.frames_remove_dir_all chunks.entry.forward (Fs.last_of_named chunks.entry.named) fun _ q below => ?_
    rw [chunks.names] at below
    exact .intro (by simp [versionNames]) below
  · refine Fs.frames_remove_dir (accepted.versions_forward fs) fun _ => .inr (.inr ?_)
    rw [accepted.versions_canon fs]

end Frames

/-! ### Removals -/

/-- What was there is still the same, or it is gone. -/
def Shrinks (w w' : World) : Prop := ∀ q, w'.tree.node q = w.tree.node q ∨ w'.tree.node q = none

namespace Shrinks

theorem refl (w : World) : Shrinks w w := fun _ => .inl rfl

theorem trans (a b c : World) (first : Shrinks a b) (second : Shrinks b c) : Shrinks a c := by
  intro q
  rcases second q with same | gone
  · rw [same]
    exact first q
  · exact .inr gone

theorem change {p : OsPath} {busy : FileTree.ErrorKind} {f : Disk → OsPath → Except FileTree.ErrorKind Disk}
    (step : ∀ t q t', f t q = .ok t' → ∀ r, t'.node r = t.node r ∨ t'.node r = none) :
    Prog.Keeps Shrinks (Fs.change fun t => do f t (← Fs.entry busy t p)) := by
  intro w
  unfold Fs.change
  cases ran : (do f w.tree (← Fs.entry busy w.tree p) : Except FileTree.ErrorKind Disk) with
  | error kind =>
    simp only [ran]
    exact refl w
  | ok t =>
    simp only [ran]
    cases found : Fs.entry busy w.tree p with
    | error kind =>
      rw [found] at ran
      cases ran
    | ok q =>
      rw [found] at ran
      exact step w.tree q t ran

theorem remove_file (p : OsPath) : Prog.Keeps Shrinks (Fs.remove_file p) := by
  refine change fun t q t' done r => ?_
  rw [(Tree.removeFile_inv done).2 r]
  by_cases same : r = q
  · exact .inr (if_pos same)
  · exact .inl (if_neg same)

theorem remove_dir (p : OsPath) : Prog.Keeps Shrinks (Fs.remove_dir p) := by
  refine change fun t q t' done r => ?_
  rw [(Tree.removeDir_inv done).2.2.2 r]
  by_cases same : r = q
  · exact .inr (if_pos same)
  · exact .inl (if_neg same)

theorem remove_dir_all {p : OsPath} (last : p.getLast? ≠ some ".") : Prog.Keeps Shrinks (Fs.remove_dir_all p) := by
  intro w
  rw [Fs.remove_dir_all,if_neg last]
  refine change (fun t q t' done r => ?_) w
  rw [(Tree.removeDirAll_inv done).2.2 r]
  by_cases below : q <+: r
  · exact .inr (if_pos below)
  · exact .inl (if_neg below)

theorem ignore {m : Io Unit} (inner : Prog.Keeps Shrinks m) : Prog.Keeps Shrinks (ignore m) :=
  Prog.Keeps.bind trans (Prog.Keeps.attempt inner) fun _ => Prog.Keeps.pure refl ()

theorem if_exists {p : OsPath} {remove : OsPath → Io Unit} (inner : Prog.Keeps Shrinks (remove p)) :
    Prog.Keeps Shrinks (do
      match ← Prog.attempt (remove p) with
      | .ok () => pure ()
      | .error e => if e.kind = .NotFound then pure () else Prog.fail (.Io e) : Action Unit) := by
  refine Prog.Keeps.bind trans (Prog.Keeps.attempt inner) fun removed => ?_
  cases removed with
  | ok _ => exact Prog.Keeps.pure refl _
  | error e =>
    dsimp only
    split
    · exact Prog.Keeps.pure refl _
    · exact Prog.Keeps.fail refl _

end Shrinks

section Removals
variable {fs : FilesystemStorage} {bucket key version_id : String} {w w' : World} (accepted : Accepted bucket key)

theorem StoredPlainly.shrinks (plainly : StoredPlainly fs bucket key w) (shrinks : Shrinks w w') :
    StoredPlainly fs bucket key w' := by
  intro name record vid stored named
  rcases shrinks (versionsAt fs bucket key ++ [name]) with same | gone
  · rw [same] at stored
    exact plainly name record vid stored named
  · rw [gone] at stored
    cases stored

theorem StoredPlainly.frame {S G : OsPath → Prop} (plainly : StoredPlainly fs bucket key w) (frame : Frame S G w w')
    (apart : ∀ name, ¬ S (versionsAt fs bucket key ++ [name])) : StoredPlainly fs bucket key w' := by
  intro name record vid stored named
  rcases frame _ (apart name) with same | ⟨_,_,loose⟩
  · rw [same] at stored
    exact plainly name record vid stored named
  · rcases loose with gone | dir
    · rw [gone] at stored
      cases stored
    · rw [dir] at stored
      cases stored

include accepted

theorem remove_current_shrinks : Prog.Keeps Shrinks (fs.remove_current bucket key) := by
  refine Prog.Keeps.bind Shrinks.trans (Shrinks.if_exists (Shrinks.remove_file _)) fun _ => ?_
  refine Prog.Keeps.bind Shrinks.trans (Shrinks.if_exists (Shrinks.remove_file _)) fun _ => ?_
  exact Shrinks.if_exists (Shrinks.remove_dir_all (Fs.last_of_named accepted.ec_leads.entry.named))

theorem remove_version_shrinks (plain : '/' ∉ version_id.toList) :
    Prog.Keeps Shrinks (fs.remove_version bucket key version_id) := by
  have chunks := @version_ec_leads fs _ _ _ accepted plain
  refine Prog.Keeps.bind Shrinks.trans (Shrinks.ignore (Shrinks.remove_file _)) fun _ => ?_
  refine Prog.Keeps.bind Shrinks.trans (Shrinks.ignore (Shrinks.remove_file _)) fun _ => ?_
  refine Prog.Keeps.bind Shrinks.trans (Shrinks.ignore (Shrinks.remove_dir_all (Fs.last_of_named chunks.entry.named)))
    fun _ => ?_
  exact Shrinks.ignore (Shrinks.remove_dir _)

/-- No current file is below the versions directory. -/
theorem current_apart (rest : OsPath) : ¬ CurrentFiles fs bucket key (versionsAt fs bucket key ++ rest) := by
  rintro ⟨n,member,below⟩
  have other : n ≠ ".versions" := by
    rintro rfl
    exact ownNames_ne_top accepted.validKey _ member (by decide)
  have off : ".versions" ∉ names key := offLimits_of_reserved (by decide) key accepted.validKey
  rw [home,versionsAt_eq,List.append_assoc,List.append_assoc,List.prefix_append_right_inj,versionsRel,
    List.append_assoc,List.cons_append] at below
  by_cases kept : skipped (leaf key) = false
  · have front : (names key).dropLast = stem key := by
      rw [names_eq,canon_singleton kept,List.dropLast_concat]
    rw [front,List.prefix_append_right_inj,List.cons_prefix_cons] at below
    exact other below.1
  · have whole : stem key = names key := by
      rw [names_eq]
      simp [canon,kept]
    rw [whole] at below
    rcases List.eq_nil_or_concat (names key) with none | ⟨front,last,spelled⟩
    · rw [none,List.dropLast_nil,List.nil_append,List.nil_append,List.cons_prefix_cons] at below
      exact other below.1
    · rw [List.concat_eq_append] at spelled
      rw [spelled,List.dropLast_concat,List.append_assoc,List.prefix_append_right_inj,List.singleton_append,
        List.cons_prefix_cons] at below
      refine off ?_
      rw [spelled,below.1]
      simp

end Removals

/-! ### What the calls depend on -/

/-- Programs that only look and end alike do so whatever else there is. -/
theorem sees_of_alike {V : OsPath → Prop} {ε α : Type} {m : Prog World ε α} {w w' : World} (same : Alike w w' (· = ·) m m)
    (alike : SameView V w w') : (m w').1 = (m w).1 ∧ SameView V (m w).2 (m w').2 := by
  constructor
  · have outcome := same.outcome
    revert outcome
    cases (m w).1 <;> cases (m w').1 <;> intro outcome
    · exact congrArg Except.error outcome.symm
    · exact outcome.elim
    · exact outcome.elim
    · exact congrArg Except.ok outcome.symm
  · rw [same.state,same.state']
    exact alike

/-- The record and what comes out of the reader. -/
def read_out (P : Primitives) (caps : Nat → Nat) (turns : Nat) (got : ObjectReader × ObjectMeta) :
    ObjectMeta × Option (Bytes × Option IoError) :=
  (got.2,Reading.read_to_end (ObjectReader.poll_read P) caps turns 0 got.1)

theorem read_out_views {P : Primitives} {V : OsPath → Prop} {w w' : World} {m : Action (ObjectReader × ObjectMeta)}
    (same : Alike w w' (SameObject P) m m) (caps : Nat → Nat) (turns : Nat) (alike : SameView V w w') :
    ((m >>= fun got => pure (read_out P caps turns got)) w').1 = ((m >>= fun got => pure (read_out P caps turns got)) w).1 ∧
      SameView V ((m >>= fun got => pure (read_out P caps turns got)) w).2
        ((m >>= fun got => pure (read_out P caps turns got)) w').2 := by
  refine sees_of_alike (Alike.bind same fun got got' both _ => Alike.pure ?_) alike
  rw [read_out,read_out,both.2,both.1]

theorem from_json_object {data : Content} {record : ObjectMeta} (parsed : from_json asObject data = .ok record) :
    data = .json (.object record) := by
  obtain ⟨json,rfl,selected⟩ := from_json_ok.mp parsed
  cases json with
  | object r => rw [show r = record by simpa [asObject] using selected]
  | _ => cases selected

section Views
variable {P : Primitives} {fs : FilesystemStorage} {bucket key version_id : String} {V : OsPath → Prop} {w w' : World}
  (rooted : Rooted V) (accepted : Accepted bucket key)
include rooted accepted

/-! The current files. -/

section Current
variable (own : ∀ n ∈ ownNames key, ∀ r, V (home fs bucket key ++ [n] ++ r)) (dir : V (home fs bucket key))
include own dir

theorem get_object_sees (customer_key : Option Bytes) (caps : Nat → Nat) (turns : Nat) :
    Sees V (fs.get_object P bucket key customer_key >>= fun got => pure (read_out P caps turns got)) := by
  intro w w' alike
  have side := meta_visible accepted own
  have payload := object_visible accepted own dir
  have chunks := ec_visible accepted own
  have inner {p : OsPath} {n : String} (leads : Leads p (home fs bucket key ++ [ecName key]) n) : V (canon p) := by
    rw [leads.names]
    exact own _ (by simp [ownNames]) _
  have same : SameFiles fs bucket key w.tree w'.tree := by
    refine ⟨?_,fun _ _ => ?_,?_,?_,fun i => ?_⟩
    · exact Fs.stat_agree rooted alike.tree side.forward side.here
    · exact Fs.stat_agree rooted alike.tree payload.forward payload.here
    · exact Fs.stat_agree rooted alike.tree chunks.forward chunks.here
    · exact Fs.stat_agree rooted alike.tree accepted.ec_leads.manifest.entry.forward (inner accepted.ec_leads.manifest)
    · exact Fs.stat_agree rooted alike.tree (accepted.ec_leads.chunk i).entry.forward (inner (accepted.ec_leads.chunk i))
  exact read_out_views (get_object_alike same customer_key) caps turns alike

theorem remove_top_level_sees : Sees V (fs.remove_top_level bucket key) := by
  have side := meta_visible accepted own
  have payload := object_visible accepted own dir
  have chunks := ec_visible accepted own
  refine Respects.bind (Sees.ignore ?_) fun _ => Respects.bind (Sees.ignore ?_) fun _ => Sees.ignore ?_
  · exact Fs.sees_remove_file rooted payload.forward payload.here
  · exact Fs.sees_remove_file rooted side.forward side.here
  · exact Fs.sees_remove_dir_all rooted chunks.forward chunks.here (Fs.last_of_named accepted.ec_leads.entry.named)

omit rooted accepted own dir in
theorem if_exists_sees {p : OsPath} {remove : OsPath → Io Unit} (inner : Sees V (remove p)) :
    Sees V (do
      match ← Prog.attempt (remove p) with
      | .ok () => pure ()
      | .error e => if e.kind = .NotFound then pure () else Prog.fail (.Io e) : Action Unit) := by
  refine Respects.bind (Respects.attempt inner) fun removed => ?_
  cases removed with
  | ok _ => exact Respects.pure _
  | error e => exact Respects.ite (fun _ => Respects.pure _) fun _ => Respects.fail _

theorem remove_current_sees : Sees V (fs.remove_current bucket key) := by
  have side := meta_visible accepted own
  have payload := object_visible accepted own dir
  have chunks := ec_visible accepted own
  refine Respects.bind (if_exists_sees ?_) fun _ => Respects.bind (if_exists_sees ?_) fun _ => if_exists_sees ?_
  · exact Fs.sees_remove_file rooted payload.forward payload.here
  · exact Fs.sees_remove_file rooted side.forward side.here
  · exact Fs.sees_remove_dir_all rooted chunks.forward chunks.here (Fs.last_of_named accepted.ec_leads.entry.named)

end Current

/-! The entries of one version. -/

section Stored
variable (plain : '/' ∉ version_id.toList)
  (stored : ∀ n ∈ versionNames version_id, ∀ r, V (versionsAt fs bucket key ++ [n] ++ r))
include plain stored

omit rooted in
theorem version_meta_visible : Visible V (version_meta_path fs.buckets_dir bucket key version_id) :=
  .of_leads (version_meta_leads accepted plain) (stored _ (by simp [versionNames]))

omit rooted in
theorem version_data_visible : Visible V (version_data_path fs.buckets_dir bucket key version_id) :=
  .of_leads (version_data_leads accepted plain) (stored _ (by simp [versionNames]))

omit rooted in
theorem version_ec_visible : Visible V (version_ec_dir fs.buckets_dir bucket key version_id) :=
  .of_leads (version_ec_leads accepted plain) (stored _ (by simp [versionNames]))

theorem read_version_meta_sees : Sees V (fs.read_version_meta bucket key version_id) := by
  have side := version_meta_visible accepted plain stored
  refine Respects.bind (Respects.mapError ?_) fun _ => Respects.lift _
  exact Fs.sees_read rooted side.forward side.here

theorem sameVersion_of_view (alike : SameView V w w') : SameVersion fs bucket key version_id w.tree w'.tree := by
  have data := version_data_visible accepted plain stored
  have chunks := version_ec_visible accepted plain stored
  have leads := @version_ec_leads fs _ _ _ accepted plain
  have inner {p : OsPath} {n : String} (leads : Leads p (versionsAt fs bucket key ++ [version_id ++ ".ec"]) n) :
      V (canon p) := by
    rw [leads.names]
    exact stored _ (by simp [versionNames]) _
  refine ⟨?_,?_,?_,fun i => ?_⟩
  · exact Fs.stat_agree rooted alike.tree data.forward data.here
  · exact Fs.stat_agree rooted alike.tree chunks.forward chunks.here
  · exact Fs.stat_agree rooted alike.tree leads.manifest.entry.forward (inner leads.manifest)
  · exact Fs.stat_agree rooted alike.tree (leads.chunk i).entry.forward (inner (leads.chunk i))

theorem get_stored_sees (customer_key : Option Bytes) (caps : Nat → Nat) (turns : Nat) :
    Sees V ((fs.read_version_meta bucket key version_id >>= fun record =>
      fs.open_version P bucket key version_id record customer_key >>= fun reader => pure (reader,record)) >>= fun got =>
        pure (read_out P caps turns got)) := by
  intro w w' alike
  have same := sameVersion_of_view rooted accepted plain stored alike
  have side := version_meta_visible accepted plain stored
  have recorded : Alike w w' (· = ·) (fs.read_version_meta bucket key version_id)
      (fs.read_version_meta bucket key version_id) := by
    refine Alike.bind (Alike.mapError _ (Alike.read (Fs.stat_agree rooted alike.tree side.forward side.here))) ?_
    rintro data _ rfl _
    exact Alike.lift_same _
  refine read_out_views (Alike.bind recorded ?_) caps turns alike
  rintro record _ rfl _
  refine Alike.bind (open_version_alike same record customer_key) fun reader reader' reads _ => ?_
  exact Alike.pure ⟨reads,rfl⟩

end Stored

/-! The versions of the key. -/

section Versions
variable (own : ∀ n ∈ ownNames key, ∀ r, V (home fs bucket key ++ [n] ++ r)) (opened : ∀ q, Opened fs bucket key q → V q)
  (stored : ∀ r, V (versionsAt fs bucket key ++ r))
include own opened stored

omit own in
theorem remove_version_sees (plain : '/' ∉ version_id.toList) : Sees V (fs.remove_version bucket key version_id) := by
  have entries : ∀ n ∈ versionNames version_id, ∀ r, V (versionsAt fs bucket key ++ [n] ++ r) := by
    intro n _ r
    rw [List.append_assoc]
    exact stored _
  have side := version_meta_visible accepted plain entries
  have data := version_data_visible accepted plain entries
  have chunks := version_ec_visible accepted plain entries
  refine Respects.bind (Sees.ignore ?_) fun _ => Respects.bind (Sees.ignore ?_) fun _ =>
    Respects.bind (Sees.ignore ?_) fun _ => Sees.ignore ?_
  · exact Fs.sees_remove_file rooted side.forward side.here
  · exact Fs.sees_remove_file rooted data.forward data.here
  · exact Fs.sees_remove_dir_all rooted chunks.forward chunks.here
      (Fs.last_of_named (version_ec_leads accepted plain).entry.named)
  · refine Fs.sees_remove_dir rooted (accepted.versions_forward fs) ?_ fun _ n => ?_
    · rw [accepted.versions_canon fs]
      exact opened _ (.inr (List.prefix_refl _))
    · rw [accepted.versions_canon fs]
      exact stored [n]

theorem restore_version_sees {record : ObjectMeta} (plain : ∀ vid, record.version_id = some vid → '/' ∉ vid.toList) :
    Sees V (fs.restore_version bucket key record) := by
  have above := home_seen accepted opened
  have side := meta_visible accepted own
  have payload := object_visible accepted own above
  have chunks := ec_visible accepted own
  have written : Sees V (do
      io (Fs.create_dir_all (parent_dir (meta_path fs.buckets_dir bucket key)))
      io (Fs.write (meta_path fs.buckets_dir bucket key) (.json (.object record)))) := by
    refine Respects.bind (Sees.io (Fs.sees_create_dir_all rooted ?_ ?_)) fun _ => Sees.io ?_
    · rw [accepted.meta_leads.parent]
      exact accepted.home_forward fs
    · rw [accepted.meta_leads.parent,accepted.home_plain_canon fs]
      exact above
    · exact Fs.sees_write rooted side.forward side.here _
  unfold FilesystemStorage.restore_version
  cases named : record.version_id with
  | none => exact Respects.fail _
  | some vid =>
    have free := plain vid named
    have entries : ∀ n ∈ versionNames vid, ∀ r, V (versionsAt fs bucket key ++ [n] ++ r) := by
      intro n _ r
      rw [List.append_assoc]
      exact stored _
    have data := version_data_visible accepted free entries
    have ver_ec := version_ec_visible accepted free entries
    refine Respects.bind (Sees.io (Fs.sees_is_dir rooted ver_ec.forward ver_ec.here)) fun chunked => ?_
    cases chunked with
    | true =>
      refine Respects.bind (Sees.io (Fs.sees_create_dir_all rooted ?_ ?_)) fun _ => ?_
      · rw [accepted.ec_leads.parent]
        exact accepted.home_forward fs
      · rw [accepted.ec_leads.parent,accepted.home_plain_canon fs]
        exact above
      refine Respects.bind (Sees.ignore (Fs.sees_remove_dir_all rooted chunks.forward chunks.here
        (Fs.last_of_named accepted.ec_leads.entry.named))) fun _ => ?_
      refine Respects.bind (Sees.io (Fs.sees_create_dir_all rooted chunks.forward chunks.here)) fun _ => ?_
      exact Respects.bind (copy_entries_sees rooted accepted.ec_leads (own _ (by simp [ownNames])) ver_ec
        (version_ec_leads accepted free).entry.named) fun _ => written
    | false =>
      refine Respects.bind (Sees.io (Fs.sees_create_dir_all rooted (accepted.objectDir_forward fs) ?_)) fun _ => ?_
      · show V (canon (objectDir fs bucket key))
        rw [accepted.objectDir_canon fs]
        exact opened _ (.inl (accepted.objectDir_above fs))
      · exact Respects.bind (Sees.io (Fs.sees_copy rooted data.forward data.here payload.forward payload.here))
          fun _ => written

/-- Only sidecars in the versions directory are looked at, and what is restored is named by one of them. -/
theorem restore_first_views (plainly : StoredPlainly fs bucket key w) (alike : SameView V w w') {sidecars : List String}
    (named : ∀ n ∈ sidecars, isName n = true) :
    (fs.restore_first bucket key sidecars w').1 = (fs.restore_first bucket key sidecars w).1 ∧
      SameView V (fs.restore_first bucket key sidecars w).2 (fs.restore_first bucket key sidecars w').2 := by
  induction sidecars with
  | nil => exact remove_top_level_sees rooted accepted own (home_seen accepted opened) w w' alike
  | cons name older ih =>
    obtain ⟨kept,ahead,absent⟩ := isName_iff.mp (named name (by simp))
    have leads := accepted.version_leads fs absent kept ahead
    have place : V (canon (join (versions_dir fs.buckets_dir bucket key) name)) := by
      rw [leads.names]
      exact stored _
    refine SameView.after (Quiet.io (Quiet.observe _)) (Sees.io (Fs.sees_read rooted leads.entry.forward place)) alike
      fun data read => ?_
    refine SameView.after (Quiet.lift _) (Respects.lift _) alike fun record parsed => ?_
    by_cases marker : record.is_delete_marker = true
    · rw [if_pos marker]
      exact ih fun n member => named n (List.mem_cons_of_mem _ member)
    · rw [if_neg marker]
      refine restore_version_sees rooted accepted own opened stored (fun vid spelled => ?_) w w' alike
      have file := (Fs.read_done leads (io_ok_iff.mp read)).1
      have object : data = .json (.object record) := from_json_object (lift_ok_iff.mp parsed).1
      rw [object] at file
      exact plainly name record vid file spelled

theorem update_current_version_views (plainly : StoredPlainly fs bucket key w) (alike : SameView V w w') :
    (fs.update_current_version bucket key w').1 = (fs.update_current_version bucket key w).1 ∧
      SameView V (fs.update_current_version bucket key w).2 (fs.update_current_version bucket key w').2 := by
  have forward := accepted.versions_forward fs
  have place : V (canon (versions_dir fs.buckets_dir bucket key)) := by
    rw [accepted.versions_canon fs]
    exact opened _ (.inr (List.prefix_refl _))
  rw [FilesystemStorage.update_current_version]
  refine SameView.after (Quiet.unwrap_or _ (Quiet.observe _)) (Sees.unwrap_or _ (Fs.sees_try_exists rooted forward place))
    alike fun found _ => ?_
  by_cases there : found = true
  · rw [if_pos there]
    have listed : Sees V (io (Fs.read_dir (versions_dir fs.buckets_dir bucket key))) := by
      refine Sees.io (Fs.sees_read_dir rooted forward place fun n => ?_)
      rw [accepted.versions_canon fs]
      exact stored [n]
    refine SameView.after (Quiet.io (Quiet.observe _)) listed alike fun entries read => ?_
    refine restore_first_views rooted accepted own opened stored plainly alike fun n member => ?_
    refine read_dir_names read n ?_
    rw [List.mem_reverse,List.mem_insertionSort] at member
    exact (List.mem_filter.mp member).1
  · rw [if_neg there]
    exact ⟨rfl,alike⟩

end Versions
end Views
end Maxio
