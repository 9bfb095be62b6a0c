import Maxio.Buckets
import Maxio.Progress

/-!
What creating and deleting a bucket does, and when it succeeds.
-/

set_option linter.unusedSimpArgs false

namespace Maxio
open FileTree (Node Tree ErrorKind)

/-- Every entry of the tree has a name that a file can have. -/
def Named (t : Disk) : Prop := ∀ q, t.node q ≠ none → ∀ s ∈ q, isName s = true

section Create
variable {fs : FilesystemStorage} {record : BucketMeta} {w : World}

/-- A new bucket: its directory and its settings. -/
structure BucketMade (dir : OsPath) (record : BucketMeta) (w w' : World) : Prop where
  absent : w.tree.node dir = none
  tree : ∀ q, w'.tree.node q = if q = dir ++ [".bucket.json"] then some (.file (.json (.bucket record)))
    else if q = dir then some .dir else w.tree.node q

theorem bucket_leads (fs : FilesystemStorage) {bucket : String} (valid : ValidBucket bucket) :
    Leads (bucket_dir fs.buckets_dir bucket) fs.buckets_dir bucket := by
  rw [bucket_dir_eq valid]
  exact leads_plain fs.plain valid.kept valid.ahead

theorem create_dir_leads {p dir : OsPath} {name : String} (leads : Leads p dir name) :
    Fs.create_dir p = Fs.change fun t => t.mkdir (dir ++ [name]) := by
  funext w
  simp only [Fs.create_dir,Fs.change,Fs.entry_leads leads]
  rfl

/-- A bucket that exists is left alone. -/
theorem create_bucket_exists (valid : validate_bucket_name record.name = .ok ())
    (present : w.tree.node (base fs.buckets_dir record.name) ≠ none) : fs.create_bucket record w = (.ok false,w) := by
  have leads := bucket_leads fs (validBucket_of_validate valid)
  have occupied : w.tree.mkdir (fs.buckets_dir ++ [record.name]) = .error .AlreadyExists := by
    unfold Tree.mkdir
    simp only [List.getLast?_concat]
    rw [if_pos (Option.isSome_iff_ne_none.mpr (show w.tree.node (fs.buckets_dir ++ [record.name]) ≠ none from present))]
  rw [FilesystemStorage.create_bucket,valid,Prog.lift_ok_bind]
  simp only [Prog.bind_apply,Prog.attempt_apply,create_dir_leads leads,Fs.change,occupied]
  rfl

/-- A bucket that does not exist is made where there is a place for buckets. -/
theorem create_bucket_makes (valid : validate_bucket_name record.name = .ok ())
    (absent : w.tree.node (base fs.buckets_dir record.name) = none) (place : w.tree.node fs.buckets_dir = some .dir) :
    ∃ w', fs.create_bucket record w = (.ok true,w') ∧ BucketMade (base fs.buckets_dir record.name) record w w' := by
  have leads := bucket_leads fs (validBucket_of_validate valid)
  obtain ⟨t,made⟩ := Tree.mkdir_ok (t := w.tree) (p := fs.buckets_dir ++ [record.name]) (by simp) (by simpa using place)
    absent
  have effect := (Tree.mkdir_inv made).2.2.2
  have settings : Leads (join (bucket_dir fs.buckets_dir record.name) ".bucket.json")
      (fs.buckets_dir ++ [record.name]) ".bucket.json" := leads.child (by decide) (by decide) (by decide)
  have empty : t.node ((fs.buckets_dir ++ [record.name]) ++ [".bucket.json"]) = none := by
    rw [effect,if_neg (by simp)]
    exact w.tree.none_of_prefix (List.prefix_append _ _) absent
  obtain ⟨w',written⟩ := Fs.write_succeeds (w := { w with tree := t }) settings (by simp [effect])
    (by rw [empty]; simp) (.json (.bucket record))
  obtain ⟨sets,_,_⟩ := Fs.write_done settings written
  refine ⟨w',?_,absent,fun q => ?_⟩
  · rw [FilesystemStorage.create_bucket,valid,Prog.lift_ok_bind]
    simp only [Prog.bind_apply,Prog.attempt_apply,create_dir_leads leads,Fs.change,made,written]
    rfl
  · rw [sets.tree q,effect]
    rfl

/-- Without a place for buckets none is made. -/
theorem create_bucket_fails (absent : w.tree.node (base fs.buckets_dir record.name) = none)
    (none_there : w.tree.node fs.buckets_dir ≠ some .dir) : ∃ e, fs.create_bucket record w = (.error e,w) := by
  rw [FilesystemStorage.create_bucket]
  cases valid : validate_bucket_name record.name with
  | error e => exact ⟨e,rfl⟩
  | ok _ =>
    have leads := bucket_leads fs (validBucket_of_validate valid)
    have missing : w.tree.mkdir (fs.buckets_dir ++ [record.name]) =
        .error (w.tree.missing (fs.buckets_dir ++ [record.name])) := by
      unfold Tree.mkdir
      simp only [List.getLast?_concat,List.dropLast_concat]
      rw [if_neg (by rw [show w.tree.node (fs.buckets_dir ++ [record.name]) = none from absent]; simp),
        dif_neg (by rw [Tree.isDir_iff]; exact none_there)]
    refine ⟨.Io (.os (w.tree.missing (fs.buckets_dir ++ [record.name]))),?_⟩
    rw [Prog.lift_ok_bind]
    simp only [Prog.bind_apply,Prog.attempt_apply,create_dir_leads leads,Fs.change,missing]
    unfold Tree.missing
    split
    · rfl
    · rfl

theorem create_bucket_invalid {e : StorageError} (invalid : validate_bucket_name record.name = .error e) :
    fs.create_bucket record w = (.error e,w) := by
  rw [FilesystemStorage.create_bucket,invalid]
  rfl

end Create

/-! ### Objects in a bucket -/

/-- A directory with an object somewhere below it: a file or a directory of chunks, reached without passing an internal
    name. -/
inductive HoldsObject (t : Disk) : OsPath → Prop where
  | file {dir : OsPath} {name : String} {c : Content} (visible : is_bucket_internal name = false)
      (here : t.node (dir ++ [name]) = some (.file c)) : HoldsObject t dir
  | chunks {dir : OsPath} {name : String} (visible : is_bucket_internal name = false) (chunks : ends_with name ".ec" = true)
      (here : t.node (dir ++ [name]) = some .dir) : HoldsObject t dir
  | inside {dir : OsPath} {name : String} (visible : is_bucket_internal name = false)
      (here : t.node (dir ++ [name]) = some .dir) (below : HoldsObject t (dir ++ [name])) : HoldsObject t dir

/-- The entry is an object, or a directory with an object below it. -/
def Counts (t : Disk) (dir : OsPath) (name : String) : Prop :=
  is_bucket_internal name = false ∧ ((∃ c, t.node (dir ++ [name]) = some (.file c)) ∨
    t.node (dir ++ [name]) = some .dir ∧ (ends_with name ".ec" = true ∨ HoldsObject t (dir ++ [name])))

theorem holdsObject_iff {t : Disk} {dir : OsPath} : HoldsObject t dir ↔ ∃ name, Counts t dir name := by
  constructor
  · rintro (⟨visible,here⟩ | ⟨visible,chunks,here⟩ | ⟨visible,here,below⟩)
    · exact ⟨_,visible,.inl ⟨_,here⟩⟩
    · exact ⟨_,visible,.inr ⟨here,.inl chunks⟩⟩
    · exact ⟨_,visible,.inr ⟨here,.inr below⟩⟩
  · rintro ⟨name,visible,⟨c,here⟩ | ⟨here,chunks | below⟩⟩
    · exact .file visible here
    · exact .chunks visible chunks here
    · exact .inside visible here below

theorem HoldsObject.of_same {t t' : Disk} {dir : OsPath} (holds : HoldsObject t' dir)
    (same : ∀ q, dir <+: q → t'.node q = t.node q) : HoldsObject t dir := by
  induction holds with
  | file visible here =>
    rw [same _ (List.prefix_append _ _)] at here
    exact .file visible here
  | chunks visible chunks here =>
    rw [same _ (List.prefix_append _ _)] at here
    exact .chunks visible chunks here
  | inside visible here below ih =>
    have inner := ih fun q under => same q ((List.prefix_append _ _).trans under)
    rw [same _ (List.prefix_append _ _)] at here
    exact .inside visible here inner

/-- All that lies below the directory is less deep than the given number of levels. -/
def Shallow (t : Disk) (dir : OsPath) (depth : Nat) : Prop :=
  ∀ q, t.node q ≠ none → dir <+: q → q.length < dir.length + depth

theorem shallow_tree_depth (t : Disk) (dir : OsPath) : Shallow t dir (FilesystemStorage.tree_depth t + 1) := by
  intro q present under
  have member : q.length ∈ t.paths.map List.length := List.mem_map_of_mem (t.listed q present)
  have bound : ∀ (lengths : List Nat) (start : Nat), start ≤ lengths.foldl max start ∧
      ∀ n ∈ lengths, n ≤ lengths.foldl max start := by
    intro lengths
    induction lengths with
    | nil => exact fun start => ⟨Nat.le_refl _,fun _ none => (nomatch none)⟩
    | cons m rest ih =>
      intro start
      obtain ⟨above,all⟩ := ih (max start m)
      refine ⟨Nat.le_trans (Nat.le_max_left _ _) above,fun n listed => ?_⟩
      rcases List.mem_cons.mp listed with rfl | other
      · exact Nat.le_trans (Nat.le_max_right _ _) above
      · exact all n other
  have deep := (bound (t.paths.map List.length) 0).2 _ member
  unfold FilesystemStorage.tree_depth
  omega

theorem Shallow.child {t : Disk} {dir : OsPath} {depth : Nat} (shallow : Shallow t dir (depth + 1)) (name : String) :
    Shallow t (dir ++ [name]) depth := by
  intro q present under
  have deep := shallow q present ((List.prefix_append _ _).trans under)
  simp only [List.length_append,List.length_singleton]
  omega

section Objects
variable {w : World} {dir : OsPath}

theorem child_leads (plain : PlainDir dir) {name : String} (named : isName name = true) : Leads (dir ++ [name]) dir name :=
  leads_plain plain (isName_iff.mp named).1 (isName_iff.mp named).2.1

theorem child_plain (plain : PlainDir dir) {name : String} (named : isName name = true) : PlainDir (dir ++ [name]) :=
  PlainDir.append plain fun s member => by
    rw [List.mem_singleton.mp member]
    exact ⟨(isName_iff.mp named).1,(isName_iff.mp named).2.1⟩

/-- The entries of a directory, as a call sees them. -/
theorem read_dir_eq (plain : PlainDir dir) (here : w.tree.node dir = some .dir) :
    Fs.read_dir dir w = (.ok ((w.tree.children dir).filter isName),w) := by
  have forward : Forward dir := fun s member => (plain s member).2
  rw [Fs.read_dir,Fs.observe_ok_iff,Fs.namesAt_forward forward,canon_of_plain fun s member => (plain s member).1,here]
  exact ⟨rfl,rfl⟩

theorem is_dir_child (plain : PlainDir dir) {name : String} (named : isName name = true) :
    (io (Fs.is_dir (dir ++ [name])) : Action Bool) w = (.ok (w.tree.isDir (dir ++ [name])),w) := by
  rw [io,Prog.mapError_apply,Fs.is_dir,Fs.observe,Fs.isDirAt_leads (child_leads plain named)]
  rfl

/-- The search through a directory finds an object exactly when one of the entries is or has one. -/
theorem find_real_eq (plain : PlainDir dir) {enter : OsPath → Action Bool} (names : List String)
    (named : ∀ name ∈ names, isName name = true) (present : ∀ name ∈ names, w.tree.node (dir ++ [name]) ≠ none)
    (enters : ∀ name ∈ names, w.tree.node (dir ++ [name]) = some .dir →
      ∃ b, enter (dir ++ [name]) w = (.ok b,w) ∧ (b = true ↔ HoldsObject w.tree (dir ++ [name]))) :
    ∃ b, find_real enter dir names w = (.ok b,w) ∧ (b = true ↔ ∃ name ∈ names, Counts w.tree dir name) := by
  induction names with
  | nil => exact ⟨false,rfl,by simp⟩
  | cons name rest ih =>
    obtain ⟨b,searched,found⟩ := ih (fun n listed => named n (by simp [listed])) (fun n listed => present n (by simp [listed]))
      fun n listed => enters n (by simp [listed])
    have own := named name (by simp)
    rw [find_real]
    by_cases internal : is_bucket_internal name = true
    · rw [if_pos internal]
      refine ⟨b,searched,found.trans ?_⟩
      simp [Counts,internal]
    · rw [if_neg internal,Prog.bind_of_ok (is_dir_child plain own)]
      have visible : is_bucket_internal name = false := by simpa using internal
      rcases here : w.tree.node (dir ++ [name]) with _ | c | _
      · exact absurd here (present name (by simp))
      · have file : w.tree.isDir (dir ++ [name]) = false := by simp [Tree.isDir,here]
        rw [file]
        refine ⟨true,rfl,iff_of_true rfl ⟨name,by simp,visible,.inl ⟨c,here⟩⟩⟩
      · have folder : w.tree.isDir (dir ++ [name]) = true := by simp [Tree.isDir,here]
        rw [folder]
        by_cases chunks : ends_with name ".ec" = true
        · rw [chunks]
          exact ⟨true,rfl,iff_of_true rfl ⟨name,by simp,visible,.inr ⟨here,.inl chunks⟩⟩⟩
        · obtain ⟨inner,entered,holds⟩ := enters name (by simp) here
          simp only [chunks,Bool.true_and,Bool.false_eq_true,if_false,if_true,Prog.bind_of_ok entered]
          cases inner with
          | true =>
            exact ⟨true,rfl,iff_of_true rfl ⟨name,by simp,visible,.inr ⟨here,.inr (holds.mp rfl)⟩⟩⟩
          | false =>
            refine ⟨b,searched,found.trans ?_⟩
            have empty : ¬ HoldsObject w.tree (dir ++ [name]) := fun full => by cases holds.mpr full
            have bare : ¬ Counts w.tree dir name := by
              rintro ⟨_,⟨c,file⟩ | ⟨_,ec | below⟩⟩
              · rw [here] at file
                cases file
              · exact chunks ec
              · exact empty below
            simp [bare]

theorem has_real_objects_eq (named : Named w.tree) (depth : Nat) (plain : PlainDir dir)
    (here : w.tree.node dir = some .dir) (shallow : Shallow w.tree dir depth) :
    ∃ b, has_real_objects depth dir w = (.ok b,w) ∧ (b = true ↔ HoldsObject w.tree dir) := by
  induction depth generalizing dir with
  | zero =>
    have deep := shallow dir (by rw [here]; simp) List.prefix_rfl
    omega
  | succ depth ih =>
    have listing : (io (Fs.read_dir dir) : Action (List String)) w = (.ok ((w.tree.children dir).filter isName),w) := by
      rw [io,Prog.mapError_apply,read_dir_eq plain here]
      rfl
    rw [has_real_objects,Prog.bind_of_ok listing]
    have child (name : String) : name ∈ (w.tree.children dir).filter isName ↔ w.tree.node (dir ++ [name]) ≠ none := by
      rw [List.mem_filter,Tree.mem_children]
      exact ⟨And.left,fun present => ⟨present,named _ present name (by simp)⟩⟩
    obtain ⟨b,searched,found⟩ := find_real_eq plain ((w.tree.children dir).filter isName)
      (fun name listed => (List.mem_filter.mp listed).2) (fun name listed => (child name).mp listed)
      (fun name listed folder => ih (child_plain plain (List.mem_filter.mp listed).2) folder (shallow.child name))
    refine ⟨b,searched,found.trans ?_⟩
    rw [holdsObject_iff]
    refine ⟨fun ⟨name,_,counts⟩ => ⟨name,counts⟩,fun ⟨name,counts⟩ => ⟨name,(child name).mpr ?_,counts⟩⟩
    rcases counts.2 with ⟨c,file⟩ | ⟨folder,_⟩
    · rw [file]
      simp
    · rw [folder]
      simp

end Objects

/-! ### Emptying a bucket -/

/-- A node is gone with all that was below it. -/
structure Pruned (p : OsPath) (w w' : World) : Prop where
  rows : w'.rows = w.rows
  sealings : w'.sealings = w.sealings
  tree : ∀ q, w'.tree.node q = if p <+: q then none else w.tree.node q

/-- All that was below a directory is gone. -/
structure Emptied (dir : OsPath) (w w' : World) : Prop where
  rows : w'.rows = w.rows
  sealings : w'.sealings = w.sealings
  tree : ∀ q, w'.tree.node q = if dir <+: q ∧ q ≠ dir then none else w.tree.node q

/-- Nothing has come into the tree. -/
def Shrunk (t t' : Disk) : Prop := ∀ q, t'.node q ≠ none → t'.node q = t.node q

theorem Pruned.shrunk {p : OsPath} {w w' : World} (pruned : Pruned p w w') : Shrunk w.tree w'.tree := by
  intro q present
  rw [pruned.tree] at present ⊢
  split at present
  next => exact absurd rfl present
  next outside => rw [if_neg outside]

theorem Shrunk.named {t t' : Disk} (shrunk : Shrunk t t') (named : Named t) : Named t' :=
  fun q present => named q (shrunk q present ▸ present)

theorem Shrunk.shallow {t t' : Disk} {dir : OsPath} {depth : Nat} (shrunk : Shrunk t t') (shallow : Shallow t dir depth) :
    Shallow t' dir depth := fun q present => shallow q (shrunk q present ▸ present)

theorem removeDir_ok {t : Disk} {p : OsPath} (nonroot : p ≠ []) (dir : t.node p = some .dir)
    (bare : ∀ n, t.node (p ++ [n]) = none) : ∃ t', t.removeDir p = .ok t' := by
  have empty : (t.children p).isEmpty = true := by
    rw [List.isEmpty_iff,List.eq_nil_iff_forall_not_mem]
    intro n member
    exact (t.mem_children p n).mp member (bare n)
  unfold Tree.removeDir
  simp [dir,nonroot,empty]

section Purge
variable {dir : OsPath} {name : String} {w : World}

theorem remove_dir_leads {p : OsPath} (leads : Leads p dir name) :
    Fs.remove_dir p = Fs.change fun t => t.removeDir (dir ++ [name]) := by
  funext w
  simp only [Fs.remove_dir,Fs.change,Fs.entry_leads leads]
  rfl

private theorem io_change_ok {f : Disk → Except ErrorKind Disk} {t : Disk} (changed : f w.tree = .ok t) :
    (io (Fs.change f) : Action Unit) w = (.ok (),{ w with tree := t }) := by
  rw [io,Prog.mapError_ok_iff,Fs.change_ok_iff]
  exact ⟨t,changed,rfl⟩

theorem remove_file_prunes {p : OsPath} {c : Content} (leads : Leads p dir name)
    (file : w.tree.node (dir ++ [name]) = some (.file c)) :
    ∃ w', (io (Fs.remove_file p) : Action Unit) w = (.ok (),w') ∧ Pruned (dir ++ [name]) w w' := by
  obtain ⟨t,removed⟩ := Tree.removeFile_ok file
  rw [Fs.remove_file_leads leads]
  refine ⟨_,io_change_ok removed,rfl,rfl,fun q => ?_⟩
  rw [(Tree.removeFile_inv removed).2 q]
  by_cases same : q = dir ++ [name]
  · simp [same]
  · by_cases under : dir ++ [name] <+: q
    · rw [if_neg same,if_pos under,w.tree.none_below_file under (Ne.symm same) file]
    · rw [if_neg same,if_neg under]

theorem remove_dir_all_prunes {p : OsPath} (leads : Leads p dir name) (folder : w.tree.node (dir ++ [name]) = some .dir) :
    ∃ w', (io (Fs.remove_dir_all p) : Action Unit) w = (.ok (),w') ∧ Pruned (dir ++ [name]) w w' := by
  obtain ⟨t,removed⟩ := Tree.removeDirAll_ok (by simp) folder
  rw [Fs.remove_dir_all_leads leads]
  exact ⟨_,io_change_ok removed,rfl,rfl,(Tree.removeDirAll_inv removed).2.2⟩

/-- A directory that was emptied can be removed, and is gone with all that was below it. -/
theorem remove_emptied_dir {p : OsPath} {w₁ : World} (leads : Leads p dir name)
    (folder : w.tree.node (dir ++ [name]) = some .dir) (emptied : Emptied (dir ++ [name]) w w₁) :
    ∃ w', Fs.remove_dir p w₁ = (.ok (),w') ∧ Pruned (dir ++ [name]) w w' := by
  have still : w₁.tree.node (dir ++ [name]) = some .dir := by
    rw [emptied.tree,if_neg (fun below => below.2 rfl),folder]
  have bare : ∀ n, w₁.tree.node (dir ++ [name] ++ [n]) = none := fun n => by
    rw [emptied.tree,if_pos ⟨List.prefix_append _ _,by simp⟩]
  obtain ⟨t,removed⟩ := removeDir_ok (by simp) still bare
  refine ⟨{ w₁ with tree := t },?_,emptied.rows,emptied.sealings,fun q => ?_⟩
  · rw [remove_dir_leads leads,Fs.change_ok_iff]
    exact ⟨t,removed,rfl⟩
  · rw [(Tree.removeDir_inv removed).2.2.2 q]
    by_cases same : q = dir ++ [name]
    · simp [same]
    · rw [if_neg same,emptied.tree]
      exact if_congr (and_iff_left same) rfl rfl

/-- An entry that neither is nor has an object is removed. -/
theorem purge_entry_prunes (plain : PlainDir dir) (named : isName name = true) {enter : OsPath → Action Unit}
    (present : w.tree.node (dir ++ [name]) ≠ none) (bare : ¬ Counts w.tree dir name)
    (enters : w.tree.node (dir ++ [name]) = some .dir → ¬ HoldsObject w.tree (dir ++ [name]) →
      ∃ w', enter (dir ++ [name]) w = (.ok (),w') ∧ Emptied (dir ++ [name]) w w') :
    ∃ w', purge_entry enter dir name w = (.ok (),w') ∧ Pruned (dir ++ [name]) w w' := by
  have leads := child_leads plain named
  rw [purge_entry,Prog.bind_of_ok (is_dir_child plain named)]
  by_cases internal : is_bucket_internal name = true
  · rw [if_pos internal]
    rcases here : w.tree.node (dir ++ [name]) with _ | c | _
    · exact absurd here present
    · rw [if_neg (by simp [Tree.isDir,here])]
      exact remove_file_prunes leads here
    · rw [if_pos (by simp [Tree.isDir,here])]
      exact remove_dir_all_prunes leads here
  · have visible : is_bucket_internal name = false := by simpa using internal
    rw [if_neg internal]
    rcases here : w.tree.node (dir ++ [name]) with _ | c | _
    · exact absurd here present
    · exact absurd ⟨visible,.inl ⟨c,here⟩⟩ bare
    · rw [if_pos (by simp [Tree.isDir,here])]
      obtain ⟨w₁,entered,emptied⟩ := enters here fun below => bare ⟨visible,.inr ⟨here,.inr below⟩⟩
      obtain ⟨w',removed,pruned⟩ := remove_emptied_dir leads here emptied
      refine ⟨w',?_,pruned⟩
      rw [Prog.bind_of_ok entered,io,Prog.mapError_ok_iff]
      exact removed

theorem Counts.of_same {t t' : Disk} (counts : Counts t' dir name)
    (same : ∀ q, dir ++ [name] <+: q → t'.node q = t.node q) : Counts t dir name := by
  obtain ⟨visible,⟨c,file⟩ | ⟨folder,ec | below⟩⟩ := counts
  · exact ⟨visible,.inl ⟨c,same _ List.prefix_rfl ▸ file⟩⟩
  · exact ⟨visible,.inr ⟨same _ List.prefix_rfl ▸ folder,.inl ec⟩⟩
  · exact ⟨visible,.inr ⟨same _ List.prefix_rfl ▸ folder,.inr (below.of_same same)⟩⟩

/-- The entries of a list are removed one after the other. What `enter` needs of the tree stays true on the way,
    since nothing comes into it. -/
theorem purge_entries (enter : OsPath → Action Unit) (plain : PlainDir dir) (depth : Nat) (names : List String)
    (enters : ∀ w' : World, Named w'.tree → Shallow w'.tree dir (depth + 1) → ∀ name ∈ names,
      w'.tree.node (dir ++ [name]) = some .dir → ¬ HoldsObject w'.tree (dir ++ [name]) →
      ∃ w'', enter (dir ++ [name]) w' = (.ok (),w'') ∧ Emptied (dir ++ [name]) w' w'')
    (distinct : names.Nodup) (tree_named : Named w.tree) (shallow : Shallow w.tree dir (depth + 1))
    (present : ∀ name ∈ names, w.tree.node (dir ++ [name]) ≠ none) (bare : ∀ name ∈ names, ¬ Counts w.tree dir name) :
    ∃ w', Prog.each (purge_entry enter dir) names w = (.ok (),w') ∧ w'.rows = w.rows ∧ w'.sealings = w.sealings ∧
      ∀ q, w'.tree.node q = if names.any (fun name => dir ++ [name] <+: q) then none else w.tree.node q := by
  induction names generalizing w with
  | nil => exact ⟨w,rfl,rfl,rfl,fun q => by simp⟩
  | cons name rest ih =>
    have own : isName name = true := tree_named _ (present name (by simp)) name (by simp)
    obtain ⟨w₁,first,pruned⟩ := purge_entry_prunes plain own (present name (by simp)) (bare name (by simp))
      (enters w tree_named shallow name (by simp))
    -- the other entries are as they were
    have others : ∀ other ∈ rest, ∀ q, dir ++ [other] <+: q → w₁.tree.node q = w.tree.node q := by
      intro other listed q under
      rw [pruned.tree,if_neg]
      intro also
      have same := (List.prefix_of_prefix_length_le under also (by simp)).eq_of_length (by simp)
      have : other = name := by simpa using same
      exact (List.nodup_cons.mp distinct).1 (this ▸ listed)
    obtain ⟨w',done,rows,sealings,effect⟩ := ih (fun w' named shallow n listed => enters w' named shallow n (by simp [listed]))
      (List.nodup_cons.mp distinct).2 (pruned.shrunk.named tree_named) (pruned.shrunk.shallow shallow)
      (fun other listed => by rw [others other listed _ List.prefix_rfl]; exact present other (by simp [listed]))
      (fun other listed counts => bare other (by simp [listed]) (counts.of_same (others other listed)))
    refine ⟨w',?_,rows.trans pruned.rows,sealings.trans pruned.sealings,fun q => ?_⟩
    · rw [Prog.each,Prog.bind_of_ok first,done]
    · rw [effect,pruned.tree]
      by_cases here : dir ++ [name] <+: q
      · simp [here]
      · simp [here]

theorem purge_empty_bucket_empties (depth : Nat) (plain : PlainDir dir) (named : Named w.tree)
    (here : w.tree.node dir = some .dir) (shallow : Shallow w.tree dir depth) (bare : ¬ HoldsObject w.tree dir) :
    ∃ w', purge_empty_bucket depth dir w = (.ok (),w') ∧ Emptied dir w w' := by
  induction depth generalizing dir w with
  | zero =>
    have deep := shallow dir (by rw [here]; simp) List.prefix_rfl
    omega
  | succ depth ih =>
    have listing : (io (Fs.read_dir dir) : Action (List String)) w = (.ok ((w.tree.children dir).filter isName),w) := by
      rw [io,Prog.mapError_apply,read_dir_eq plain here]
      rfl
    have child (name : String) : name ∈ (w.tree.children dir).filter isName ↔ w.tree.node (dir ++ [name]) ≠ none := by
      rw [List.mem_filter,Tree.mem_children]
      exact ⟨And.left,fun present => ⟨present,named _ present name (by simp)⟩⟩
    obtain ⟨w',done,rows,sealings,effect⟩ := purge_entries (purge_empty_bucket depth) plain depth
      ((w.tree.children dir).filter isName)
      (fun w' named shallow name listed folder bare =>
        ih (child_plain plain (List.mem_filter.mp listed).2) named folder (shallow.child name) bare)
      ((w.tree.nodup_children dir).filter _) named shallow (fun name listed => (child name).mp listed)
      (fun name _ counts => bare (holdsObject_iff.mpr ⟨name,counts⟩))
    refine ⟨w',?_,rows,sealings,fun q => ?_⟩
    · rw [purge_empty_bucket,Prog.bind_of_ok listing,done]
    · rw [effect]
      simp only [List.any_eq_true,decide_eq_true_eq]
      split
      next listed =>
        obtain ⟨name,_,under⟩ := listed
        have long := under.length_le
        rw [if_pos ⟨(List.prefix_append _ _).trans under,fun same => by simp [same] at long⟩]
      next unlisted =>
        split
        next below =>
          -- what no entry leads to is not there
          obtain ⟨⟨rest,rfl⟩,proper⟩ := below
          cases rest with
          | nil => simp at proper
          | cons name rest =>
            have under : dir ++ [name] <+: dir ++ name :: rest := ⟨rest,by simp⟩
            by_contra present
            refine unlisted ⟨name,(child name).mpr fun absent => ?_,under⟩
            exact present (w.tree.none_of_prefix under absent)
        next => rfl

end Purge

/-! ### Deleting a bucket -/

section Delete
variable {fs : FilesystemStorage} {name : String} {w : World}

theorem delete_bucket_invalid {e : StorageError} (invalid : validate_bucket_name name = .error e) :
    fs.delete_bucket name w = (.error e,w) := by
  rw [FilesystemStorage.delete_bucket,invalid]
  rfl

theorem delete_bucket_absent (valid : validate_bucket_name name = .ok ())
    (place : w.tree.node fs.buckets_dir = some .dir) (absent : w.tree.node (base fs.buckets_dir name) = none) :
    fs.delete_bucket name w = (.ok false,w) := by
  have leads := bucket_leads fs (validBucket_of_validate valid)
  have unseen : (io (Fs.try_exists (bucket_dir fs.buckets_dir name)) : Action Bool) w = (.ok false,w) := by
    rw [io,Prog.mapError_ok_iff,Fs.try_exists_succeeds leads place,
      show w.tree.node (fs.buckets_dir ++ [name]) = none from absent]
    rfl
  rw [FilesystemStorage.delete_bucket,valid,Prog.lift_ok_bind,Prog.bind_of_ok unseen]
  rfl

/-- The bucket is there: the search for objects decides. -/
private theorem delete_bucket_found (valid : validate_bucket_name name = .ok ())
    (present : w.tree.node (base fs.buckets_dir name) ≠ none) :
    fs.delete_bucket name w = (do
      if ← has_real_objects (FilesystemStorage.tree_depth w.tree + 1) (base fs.buckets_dir name) then
        Prog.fail .BucketNotEmpty
      else
        purge_empty_bucket (FilesystemStorage.tree_depth w.tree + 1) (base fs.buckets_dir name)
        match ← Prog.attempt (Fs.remove_dir (base fs.buckets_dir name)) with
        | .ok () => pure true
        | .error e => if e.kind = .DirectoryNotEmpty then Prog.fail .BucketNotEmpty else Prog.fail (.Io e) :
      Action Bool) w := by
  have valid' := validBucket_of_validate valid
  have leads := bucket_leads fs valid'
  have seen : (io (Fs.try_exists (bucket_dir fs.buckets_dir name)) : Action Bool) w = (.ok true,w) := by
    obtain ⟨node,here⟩ := Option.ne_none_iff_exists'.mp present
    rw [io,Prog.mapError_ok_iff,Fs.try_exists_succeeds leads (w.tree.rooted _ _ present),
      show w.tree.node (fs.buckets_dir ++ [name]) = some node from here]
    rfl
  rw [FilesystemStorage.delete_bucket,valid,Prog.lift_ok_bind,Prog.bind_of_ok seen,bucket_dir_eq valid']
  rfl

theorem base_plain (fs : FilesystemStorage) (valid : ValidBucket name) : PlainDir (base fs.buckets_dir name) :=
  PlainDir.append fs.plain fun s member => by
    rw [List.mem_singleton.mp member]
    exact ⟨valid.kept,valid.ahead⟩

/-- A bucket with an object in it stays as it is. -/
theorem delete_bucket_full (valid : validate_bucket_name name = .ok ()) (named : Named w.tree)
    (here : w.tree.node (base fs.buckets_dir name) = some .dir) (holds : HoldsObject w.tree (base fs.buckets_dir name)) :
    fs.delete_bucket name w = (.error .BucketNotEmpty,w) := by
  have plain := base_plain fs (validBucket_of_validate valid)
  obtain ⟨b,searched,found⟩ := has_real_objects_eq named _ plain here (shallow_tree_depth w.tree _)
  rw [found.mpr holds] at searched
  rw [delete_bucket_found valid (by rw [here]; simp),Prog.bind_of_ok searched]
  rfl

/-- A bucket without objects goes with all that is in it. -/
theorem delete_bucket_empty (valid : validate_bucket_name name = .ok ()) (named : Named w.tree)
    (here : w.tree.node (base fs.buckets_dir name) = some .dir) (bare : ¬ HoldsObject w.tree (base fs.buckets_dir name)) :
    ∃ w', fs.delete_bucket name w = (.ok true,w') ∧ Pruned (base fs.buckets_dir name) w w' := by
  have valid' := validBucket_of_validate valid
  have plain := base_plain fs valid'
  obtain ⟨b,searched,found⟩ := has_real_objects_eq named _ plain here (shallow_tree_depth w.tree _)
  have unfound : b = false := by
    cases b with
    | false => rfl
    | true => exact absurd (found.mp rfl) bare
  rw [unfound] at searched
  obtain ⟨w₁,purged,emptied⟩ := purge_empty_bucket_empties _ plain named here (shallow_tree_depth w.tree _) bare
  have leads := bucket_leads fs valid'
  rw [bucket_dir_eq valid'] at leads
  obtain ⟨w',removed,pruned⟩ := remove_emptied_dir leads here emptied
  refine ⟨w',?_,pruned⟩
  rw [delete_bucket_found valid (by rw [here]; simp),Prog.bind_of_ok searched]
  simp only [Bool.false_eq_true,if_false]
  rw [Prog.bind_of_ok purged]
  simp only [Prog.bind_apply,Prog.attempt_apply,removed]
  rfl

/-- A file in the place of a bucket is not deleted. -/
theorem delete_bucket_file {c : Content} (valid : validate_bucket_name name = .ok ())
    (file : w.tree.node (base fs.buckets_dir name) = some (.file c)) : ∃ e, fs.delete_bucket name w = (.error e,w) := by
  have plain := base_plain fs (validBucket_of_validate valid)
  have forward : Forward (base fs.buckets_dir name) := fun s member => (plain s member).2
  have unread : (io (Fs.read_dir (base fs.buckets_dir name)) : Action (List String)) w =
      (.error (.Io (.os .NotADirectory)),w) := by
    rw [io,Prog.mapError_apply,Fs.read_dir,Fs.observe,Fs.namesAt_forward forward,
      canon_of_plain fun s member => (plain s member).1,file]
    rfl
  refine ⟨.Io (.os .NotADirectory),?_⟩
  rw [delete_bucket_found valid (by rw [file]; simp)]
  rw [Prog.bind_of_error]
  rw [has_real_objects,Prog.bind_of_error unread]

end Delete
end Maxio
