import Maxio.BucketSpec
import Maxio.RaftSpec

/-!
A node against its own filesystem and against the other nodes: when the buckets it lists are those it has, and when a
log applies alike on every node. A mutation either fits the local tree, is carried out and has its effect on the
replicated data, or it fails and changes nothing but the position in the log.
-/

namespace Maxio
open FileTree (Node Tree ErrorKind)
open StorageNode

/-! ### One mutation on one node -/

/-- The tree of a node: made of names, with a place for buckets. -/
structure Placed (fs : FilesystemStorage) (t : Disk) : Prop where
  named : Named t
  place : t.node fs.buckets_dir = some .dir

/-- A bucket that does not exist, or is a directory without objects. -/
def Vacant (fs : FilesystemStorage) (t : Disk) (name : String) : Prop :=
  t.node (base fs.buckets_dir name) = none ∨
    t.node (base fs.buckets_dir name) = some .dir ∧ ¬ HoldsObject t (base fs.buckets_dir name)

/-- The mutation can be carried out on the tree: its bucket has a valid name, and one to be deleted has no objects. -/
def Fits (fs : FilesystemStorage) (t : Disk) : StorageMutation → Prop
  | .CreateBucket name _ => validate_bucket_name name = .ok ()
  | .DeleteBucket name => validate_bucket_name name = .ok () ∧ Vacant fs t name
  | .PutShardMap _ _ _ => True

/-- What a mutation has done to the files of a node. -/
inductive Carried (fs : FilesystemStorage) (w : World) : StorageMutation → World → Prop where
  | kept {name region : String} (present : w.tree.node (base fs.buckets_dir name) ≠ none) :
      Carried fs w (.CreateBucket name region) w
  | made {name region created_at : String} {w' : World} (valid : validate_bucket_name name = .ok ())
      (made : BucketMade (base fs.buckets_dir name) (replicated_bucket name region created_at) w w') :
      Carried fs w (.CreateBucket name region) w'
  | missed {name : String} (absent : w.tree.node (base fs.buckets_dir name) = none) : Carried fs w (.DeleteBucket name) w
  | dropped {name : String} {w' : World} (here : w.tree.node (base fs.buckets_dir name) = some .dir)
      (bare : ¬ HoldsObject w.tree (base fs.buckets_dir name)) (gone : Pruned (base fs.buckets_dir name) w w') :
      Carried fs w (.DeleteBucket name) w'
  | mapped {bucket key : String} {map : EcShardPlacement} : Carried fs w (.PutShardMap bucket key map) w

/-- What a mutation does to the replicated data. -/
def SmData.after (sm : SmData) (mutation : StorageMutation) : SmData :=
  { sm with buckets := (mutation.effect sm.contents).1, shard_maps := (mutation.effect sm.contents).2 }

section Mutation
variable {fs : FilesystemStorage} {created_at : String} {node : StorageNode}

private theorem on_filesystem_ok {α : Type} {call : Action α} {a : α} {w : World} (done : call node.world = (.ok a,w)) :
    on_filesystem call node = (.ok a,{ node with world := w }) := by
  rw [on_filesystem,done]
  rfl

private theorem on_filesystem_error {α : Type} {call : Action α} {e : StorageError} (failed : call node.world = (.error e,node.world)) :
    on_filesystem call node = (.error e.text,node) := by
  rw [on_filesystem,failed]
  rfl

/-- A mutation that fits is carried out and has its effect. -/
theorem apply_mutation_fits (created_at : String) (node : StorageNode) (placed : Placed fs node.world.tree)
    (mutation : StorageMutation) (fits : Fits fs node.world.tree mutation) : ∃ w, apply_mutation fs created_at mutation node =
      (.ok (),{ node with world := w, sm := node.sm.after mutation }) ∧ Carried fs node.world mutation w := by
  cases mutation with
  | CreateBucket name region =>
    have valid : validate_bucket_name (replicated_bucket name region created_at).name = .ok () := fits
    by_cases absent : node.world.tree.node (base fs.buckets_dir name) = none
    · obtain ⟨w,created,made⟩ := create_bucket_makes valid absent placed.place
      refine ⟨w,?_,.made fits made⟩
      rw [apply_mutation,Prog.bind_of_ok (on_filesystem_ok created)]
      rfl
    · refine ⟨node.world,?_,.kept absent⟩
      rw [apply_mutation,Prog.bind_of_ok (on_filesystem_ok (create_bucket_exists valid absent))]
      rfl
  | DeleteBucket name =>
    obtain ⟨valid,absent | ⟨here,bare⟩⟩ := fits
    · refine ⟨node.world,?_,.missed absent⟩
      rw [apply_mutation,Prog.bind_of_ok (on_filesystem_ok (delete_bucket_absent valid placed.place absent))]
      rfl
    · obtain ⟨w,deleted,gone⟩ := delete_bucket_empty valid placed.named here bare
      refine ⟨w,?_,.dropped here bare gone⟩
      rw [apply_mutation,Prog.bind_of_ok (on_filesystem_ok deleted)]
      rfl
  | PutShardMap bucket key map => exact ⟨node.world,rfl,.mapped⟩

/-- A mutation that does not fit fails and changes nothing. -/
theorem apply_mutation_misfit (created_at : String) (node : StorageNode) (placed : Placed fs node.world.tree)
    (mutation : StorageMutation) (misfit : ¬ Fits fs node.world.tree mutation) : ∃ e, apply_mutation fs created_at mutation node = (.error e,node) := by
  cases mutation with
  | CreateBucket name region =>
    cases valid : validate_bucket_name name with
    | ok _ => exact absurd valid misfit
    | error e =>
      have failed : fs.create_bucket (replicated_bucket name region created_at) node.world = (.error e,node.world) :=
        create_bucket_invalid valid
      exact ⟨e.text,Prog.bind_of_error (on_filesystem_error failed)⟩
  | DeleteBucket name =>
    cases valid : validate_bucket_name name with
    | error e =>
      exact ⟨e.text,Prog.bind_of_error (on_filesystem_error (delete_bucket_invalid valid))⟩
    | ok _ =>
      rcases here : node.world.tree.node (base fs.buckets_dir name) with _ | c | _
      · exact absurd ⟨valid,.inl here⟩ misfit
      · obtain ⟨e,failed⟩ := delete_bucket_file valid here
        exact ⟨e.text,Prog.bind_of_error (on_filesystem_error failed)⟩
      · have holds : HoldsObject node.world.tree (base fs.buckets_dir name) := by
          by_contra bare
          exact misfit ⟨valid,.inr ⟨here,bare⟩⟩
        have failed := delete_bucket_full valid placed.named here holds
        exact ⟨StorageError.BucketNotEmpty.text,Prog.bind_of_error (on_filesystem_error failed)⟩
  | PutShardMap bucket key map => exact absurd trivial misfit

end Mutation

/-! What a mutation leaves as it was. -/

section Carried
variable {fs : FilesystemStorage} {w w' : World} {mutation : StorageMutation}

theorem base_inj {buckets_dir q : OsPath} {name other : String} (under : base buckets_dir name <+: q)
    (also : base buckets_dir other <+: q) : name = other := by
  have same := (List.prefix_of_prefix_length_le under also (by simp [base])).eq_of_length (by simp [base])
  simpa [base] using same

/-- The bucket a mutation is about. -/
def StorageMutation.target : StorageMutation → Option String
  | .CreateBucket name _ => some name
  | .DeleteBucket name => some name
  | .PutShardMap _ _ _ => none

/-- Only the bucket of the mutation is touched. -/
theorem Carried.elsewhere (carried : Carried fs w mutation w') {q : OsPath}
    (outside : ∀ name, mutation.target = some name → ¬ base fs.buckets_dir name <+: q) :
    w'.tree.node q = w.tree.node q := by
  cases carried with
  | kept present => rfl
  | @made name region created_at w' valid made =>
    have apart := outside name rfl
    rw [made.tree,if_neg,if_neg]
    · rintro rfl
      exact apart List.prefix_rfl
    · rintro rfl
      exact apart (List.prefix_append _ _)
  | missed absent => rfl
  | @dropped name w' here bare gone => rw [gone.tree,if_neg (outside name rfl)]
  | mapped => rfl

theorem Carried.other (carried : Carried fs w mutation w') {name : String} (other : mutation.target ≠ some name)
    {q : OsPath} (under : base fs.buckets_dir name <+: q) : w'.tree.node q = w.tree.node q := by
  refine carried.elsewhere fun target about also => other ?_
  rw [about,base_inj also under]

theorem Carried.placed (carried : Carried fs w mutation w') (placed : Placed fs w.tree) : Placed fs w'.tree := by
  have place : w'.tree.node fs.buckets_dir = some .dir := by
    rw [carried.elsewhere fun name _ under => ?_]
    · exact placed.place
    · have long := under.length_le
      simp [base] at long
  refine ⟨?_,place⟩
  cases carried with
  | kept present => exact placed.named
  | @made name region created_at w' valid made =>
    have valid' := validBucket_of_validate valid
    have own : isName name = true := isName_iff.mpr ⟨valid'.kept,valid'.ahead,valid'.slash⟩
    have prior : ∀ s ∈ fs.buckets_dir, isName s = true := placed.named _ (by rw [placed.place]; simp)
    intro q present
    rw [made.tree] at present
    split at present
    next settings =>
      intro s member
      rw [settings] at member
      simp only [base,List.mem_append,List.mem_singleton] at member
      rcases member with (above | rfl) | rfl
      · exact prior s above
      · exact own
      · decide
    next =>
      split at present
      next folder =>
        intro s member
        rw [folder] at member
        simp only [base,List.mem_append,List.mem_singleton] at member
        rcases member with above | rfl
        · exact prior s above
        · exact own
      next => exact placed.named q present
  | missed absent => exact placed.named
  | dropped here bare gone => exact gone.shrunk.named placed.named
  | mapped => exact placed.named

theorem vacant_congr {t t' : Disk} {name : String} (same : ∀ q, base fs.buckets_dir name <+: q → t'.node q = t.node q) :
    Vacant fs t' name ↔ Vacant fs t name := by
  have holds : HoldsObject t' (base fs.buckets_dir name) ↔ HoldsObject t (base fs.buckets_dir name) :=
    ⟨fun there => there.of_same same,fun there => there.of_same fun q under => (same q under).symm⟩
  unfold Vacant
  rw [same _ List.prefix_rfl,holds]

/-- A new bucket has no objects. -/
theorem BucketMade.bare {dir : OsPath} {record : BucketMeta} (made : BucketMade dir record w w') : ¬ HoldsObject w'.tree dir := by
  rw [holdsObject_iff]
  rintro ⟨name,visible,counts⟩
  have settings : name ≠ ".bucket.json" := by
    rintro rfl
    simp [is_bucket_internal] at visible
  have empty : w'.tree.node (dir ++ [name]) = none := by
    rw [made.tree,if_neg (by simpa using settings),if_neg (by simp)]
    exact w.tree.none_of_prefix (List.prefix_append _ _) made.absent
  rw [empty] at counts
  simp at counts

/-- A mutation that was carried out neither fills a bucket nor empties one that had objects. -/
theorem Carried.vacant (carried : Carried fs w mutation w') (name : String) :
    Vacant fs w'.tree name ↔ Vacant fs w.tree name := by
  by_cases about : mutation.target = some name
  · cases carried with
    | kept present => rfl
    | @made target region created_at w' valid made =>
      obtain rfl : target = name := by simpa [StorageMutation.target] using about
      refine iff_of_true (.inr ⟨?_,made.bare⟩) (.inl made.absent)
      rw [made.tree,if_neg (by simp),if_pos rfl]
    | missed absent => rfl
    | @dropped target w' here bare gone =>
      obtain rfl : target = name := by simpa [StorageMutation.target] using about
      refine iff_of_true (.inl ?_) (.inr ⟨here,bare⟩)
      rw [gone.tree,if_pos List.prefix_rfl]
    | mapped => rfl
  · exact vacant_congr fun q under => carried.other about under

theorem Carried.fits (carried : Carried fs w mutation w') (next : StorageMutation) :
    Fits fs w'.tree next ↔ Fits fs w.tree next := by
  cases next with
  | CreateBucket name region => rfl
  | DeleteBucket name =>
    exact and_congr_right fun _ => carried.vacant name
  | PutShardMap bucket key map => rfl

end Carried

/-! ### A log on one node -/

/-- What an entry does to the replicated data when its mutation is carried out. -/
def SmData.step (sm : SmData) (entry : LogEntry) : SmData := match entry.mutation with
  | some mutation => (note_entry entry sm).after mutation
  | none => note_entry entry sm

/-- What an entry has done to the files of a node. -/
def Stepped (fs : FilesystemStorage) (entry : LogEntry) (w w' : World) : Prop := match entry.mutation with
  | some mutation => Carried fs w mutation w'
  | none => w' = w

section Log
variable {fs : FilesystemStorage} {node : StorageNode}

theorem Stepped.placed {entry : LogEntry} {w w' : World} (stepped : Stepped fs entry w w') (placed : Placed fs w.tree) :
    Placed fs w'.tree := by
  unfold Stepped at stepped
  split at stepped
  next => exact stepped.placed placed
  next => exact stepped ▸ placed

theorem Stepped.fits {entry : LogEntry} {w w' : World} (stepped : Stepped fs entry w w') (next : StorageMutation) :
    Fits fs w'.tree next ↔ Fits fs w.tree next := by
  unfold Stepped at stepped
  split at stepped
  next => exact stepped.fits next
  next => rw [stepped]

private theorem apply_entry_eq {created_at : String} {entry : LogEntry} :
    apply_entry fs created_at entry node = match entry.mutation with
      | some mutation => (do
        apply_mutation fs created_at mutation
        pure { ok := true } : NodeAction MutationResponse) { node with sm := note_entry entry node.sm }
      | none => (.ok { ok := true },{ node with sm := note_entry entry node.sm }) := by
  rw [apply_entry,with_sm,Prog.bind_apply,Prog.tell_apply]
  unfold LogEntry.mutation
  cases entry.payload <;> rfl

/-- An entry whose mutation fits is applied. -/
theorem apply_entry_fits (created_at : String) (placed : Placed fs node.world.tree) (entry : LogEntry)
    (fits : ∀ mutation, entry.mutation = some mutation → Fits fs node.world.tree mutation) :
    ∃ w, apply_entry fs created_at entry node = (.ok { ok := true },{ node with world := w, sm := node.sm.step entry }) ∧
      Stepped fs entry node.world w := by
  rw [apply_entry_eq]
  unfold SmData.step Stepped
  cases about : entry.mutation with
  | none => exact ⟨node.world,rfl,rfl⟩
  | some mutation =>
    obtain ⟨w,applied,carried⟩ := apply_mutation_fits created_at { node with sm := note_entry entry node.sm }
      placed mutation (fits mutation about)
    exact ⟨w,Prog.bind_of_ok applied,carried⟩

/-- An entry whose mutation does not fit stops the log there; it counts as applied. -/
theorem apply_entry_misfit (created_at : String) (placed : Placed fs node.world.tree) (entry : LogEntry)
    {mutation : StorageMutation} (about : entry.mutation = some mutation) (misfit : ¬ Fits fs node.world.tree mutation) :
    ∃ e, apply_entry fs created_at entry node = (.error e,{ node with sm := note_entry entry node.sm }) := by
  obtain ⟨e,failed⟩ := apply_mutation_misfit created_at { node with sm := note_entry entry node.sm }
    placed mutation misfit
  rw [apply_entry_eq,about]
  exact ⟨e,Prog.bind_of_error failed⟩

/-- Every mutation of the log fits the tree. -/
def LogFits (fs : FilesystemStorage) (t : Disk) (log : List LogEntry) : Prop :=
  ∀ entry ∈ log, ∀ mutation, entry.mutation = some mutation → Fits fs t mutation

theorem apply_log_fits (clock : Nat → String) (log : List LogEntry) (placed : Placed fs node.world.tree)
    (fits : LogFits fs node.world.tree log) : ∃ responses w, apply_to_state_machine fs clock log node =
      (.ok responses,{ node with world := w, sm := log.foldl SmData.step node.sm }) := by
  induction log generalizing node with
  | nil => exact ⟨[],node.world,rfl⟩
  | cons entry rest ih =>
    obtain ⟨w,applied,stepped⟩ := apply_entry_fits (clock entry.log_id.index) placed entry (fits entry (by simp))
    have remain : LogFits fs w.tree rest := fun later listed mutation about =>
      (stepped.fits mutation).mpr (fits later (by simp [listed]) mutation about)
    obtain ⟨responses,w',finished⟩ := @ih { node with world := w, sm := node.sm.step entry }
      (stepped.placed placed) remain
    refine ⟨{ ok := true } :: responses,w',?_⟩
    rw [apply_to_state_machine,Prog.bind_of_ok applied,Prog.bind_of_ok finished]
    rfl

theorem apply_log_ok_fits {clock : Nat → String} {log : List LogEntry} (placed : Placed fs node.world.tree)
    {responses : List MutationResponse} {node' : StorageNode}
    (done : apply_to_state_machine fs clock log node = (.ok responses,node')) : LogFits fs node.world.tree log := by
  induction log generalizing node responses node' with
  | nil => exact fun _ none => (nomatch none)
  | cons entry rest ih =>
    have own : ∀ mutation, entry.mutation = some mutation → Fits fs node.world.tree mutation := by
      intro mutation about
      by_contra misfit
      obtain ⟨e,failed⟩ := apply_entry_misfit (clock entry.log_id.index) placed entry about misfit
      rw [apply_to_state_machine,Prog.bind_of_error failed] at done
      cases done
    obtain ⟨w,applied,stepped⟩ := apply_entry_fits (clock entry.log_id.index) placed entry own
    rw [apply_to_state_machine,Prog.bind_of_ok applied] at done
    obtain ⟨responses',node'',finished,_⟩ := Prog.bind_ok_iff.mp done
    have later := ih (stepped.placed placed) finished
    intro other listed mutation about
    rcases List.mem_cons.mp listed with rfl | behind
    · exact own mutation about
    · exact (stepped.fits mutation).mp (later other behind mutation about)

end Log

/-! ### A log on every node -/

/-- The data is what the entries up to the one it names produce. -/
def UpTo (log : List LogEntry) (sm : SmData) : Prop :=
  ∃ applied, applied <+: log ∧ sm.last_applied_log = applied.getLast?.map LogEntry.log_id ∧ sm.contents = replay applied

section Replicas
variable {ι : Type}

/-- A log, entry by entry, on new nodes: it applies on every one of them, leaves the same data everywhere, and no node
    counts an entry as applied that is not. -/
structure AppliesAlike (fs : ι → FilesystemStorage) (clock : ι → Nat → String) (disk : ι → World) (log : List LogEntry) :
    Prop where
  total : ∀ part, part <+: log → ∀ i, ∃ responses node,
    apply_to_state_machine (fs i) (clock i) part (.new (disk i)) = (.ok responses,node)
  alike : ∀ part, part <+: log → ∀ i j, (apply_to_state_machine (fs i) (clock i) part (.new (disk i))).2.sm =
    (apply_to_state_machine (fs j) (clock j) part (.new (disk j))).2.sm
  complete : ∀ part, part <+: log → ∀ i, UpTo part (apply_to_state_machine (fs i) (clock i) part (.new (disk i))).2.sm

theorem step_contents (entry : LogEntry) (sm : SmData) : (sm.step entry).last_applied_log = some entry.log_id ∧
    (sm.step entry).contents = match entry.mutation with
      | some mutation => mutation.effect sm.contents
      | none => sm.contents := by
  obtain ⟨contents,last⟩ := note_entry_contents entry sm
  unfold SmData.step
  cases about : entry.mutation with
  | none => exact ⟨last,contents⟩
  | some mutation => exact ⟨last,congrArg mutation.effect contents⟩

/-- The data after a log is what the log produces, under the name of its last entry. -/
theorem upTo_foldl (log : List LogEntry) : UpTo log (log.foldl SmData.step .default) := by
  refine ⟨log,List.prefix_rfl,?_⟩
  induction log using List.reverseRecOn with
  | nil => exact ⟨rfl,rfl⟩
  | append_singleton past entry ih =>
    obtain ⟨last,contents⟩ := step_contents entry (past.foldl SmData.step .default)
    rw [List.foldl_append,List.foldl_cons,List.foldl_nil,replay_concat]
    refine ⟨by simpa using last,?_⟩
    refine contents.trans ?_
    cases entry.mutation with
    | none => exact ih.2
    | some mutation => exact congrArg mutation.effect ih.2

/-- A log applies alike on all nodes exactly when every mutation in it fits the files each node started with. -/
theorem log_applies_alike_iff (fs : ι → FilesystemStorage) (clock : ι → Nat → String) (disk : ι → World)
    (placed : ∀ i, Placed (fs i) (disk i).tree) (log : List LogEntry) :
    AppliesAlike fs clock disk log ↔ ∀ i, LogFits (fs i) (disk i).tree log := by
  constructor
  · intro applies i
    obtain ⟨responses,node,done⟩ := applies.total log List.prefix_rfl i
    exact apply_log_ok_fits (placed i) done
  · intro fits
    have outcome (part : List LogEntry) (within : part <+: log) (i : ι) : ∃ responses w,
        apply_to_state_machine (fs i) (clock i) part (.new (disk i)) =
          (.ok responses,{ StorageNode.new (disk i) with world := w, sm := part.foldl SmData.step .default }) :=
      apply_log_fits (clock i) part (placed i) fun entry listed => fits i entry (within.subset listed)
    refine ⟨fun part within i => ?_,fun part within i j => ?_,fun part within i => ?_⟩
    · obtain ⟨responses,w,done⟩ := outcome part within i
      exact ⟨responses,_,done⟩
    · obtain ⟨_,w,done⟩ := outcome part within i
      obtain ⟨_,w',done'⟩ := outcome part within j
      rw [done,done']
    · obtain ⟨_,w,done⟩ := outcome part within i
      rw [done]
      exact upTo_foldl part

end Replicas

theorem named_of_paths {t : Disk} (named : ∀ p ∈ t.paths, ∀ s ∈ p, isName s = true) : Named t :=
  fun q present => named q (t.listed q present)

namespace Sample

/-- A disk with an empty bucket `logs`, and one on which the bucket has an object. -/
def disk (stocked : Bool) : World :=
  if stocked then (Fs.write ["data","logs","a"] (.bytes [1])).run (world false) |>.2 else world false

example : (disk true).tree.isDir ["data","logs"] = true := by decide +kernel

theorem disk_placed (stocked : Bool) : Placed node_storage (disk stocked).tree := by
  cases stocked with
  | false => exact ⟨named_of_paths (by decide +kernel),by decide +kernel⟩
  | true => exact ⟨named_of_paths (by decide +kernel),by decide +kernel⟩

def deleted : LogEntry := ⟨⟨1,1⟩,.Normal (.DeleteBucket "logs")⟩

theorem created_fits (stocked : Bool) : LogFits node_storage (disk stocked).tree [created] := by
  intro entry listed mutation about
  rw [List.mem_singleton.mp listed] at about
  cases about
  exact (by decide +kernel : validate_bucket_name "vault" = .ok ())

end Sample

theorem created_applies_alike :
    AppliesAlike (fun _ => Sample.node_storage) (fun _ _ => "") Sample.disk [Sample.created] :=
  (log_applies_alike_iff (fun _ => Sample.node_storage) (fun _ _ => "") Sample.disk Sample.disk_placed
    [Sample.created]).mpr Sample.created_fits

/-- The deletion of a bucket goes through on a node where it is empty, and fails on one where it has an object; both
    count it as applied. -/
theorem deletion_splits_replicas :
    ¬ AppliesAlike (fun _ => Sample.node_storage) (fun _ _ => "") Sample.disk [Sample.deleted] ∧
      (apply_to_state_machine Sample.node_storage (fun _ => "") [Sample.deleted] (.new (Sample.disk false))).1.isOk = true ∧
      (apply_to_state_machine Sample.node_storage (fun _ => "") [Sample.deleted] (.new (Sample.disk true))).1.isOk = false ∧
      (apply_to_state_machine Sample.node_storage (fun _ => "") [Sample.deleted]
        (.new (Sample.disk true))).2.sm.last_applied_log = some ⟨1,1⟩ := by
  have stopped : (apply_to_state_machine Sample.node_storage (fun _ => "") [Sample.deleted]
      (.new (Sample.disk true))).1.isOk = false := by decide +kernel
  refine ⟨fun applies => ?_,by decide +kernel,stopped,by decide +kernel⟩
  obtain ⟨responses,node,done⟩ := applies.total [Sample.deleted] List.prefix_rfl true
  rw [done] at stopped
  cases stopped

/-! ### The buckets of a node -/

/-- The buckets a node lists are the bucket directories it has. -/
def BucketsAgree (fs : FilesystemStorage) (node : StorageNode) : Prop :=
  ∀ name, node.world.tree.node (base fs.buckets_dir name) = some .dir ↔ name ∈ node.sm.buckets

/-- The place for buckets has directories only. -/
def NoStray (fs : FilesystemStorage) (t : Disk) : Prop := ∀ name c, t.node (base fs.buckets_dir name) ≠ some (.file c)

inductive NodeCall where
  | apply_to_state_machine (clock : Nat → String) (entries : List LogEntry)
  | install_snapshot (snapshot : StoredSnapshot)

/-- The node after a call, whatever its outcome. -/
def NodeCall.run (fs : FilesystemStorage) (node : StorageNode) : NodeCall → StorageNode
  | .apply_to_state_machine clock entries => (Maxio.apply_to_state_machine fs clock entries node).2
  | .install_snapshot snapshot => (Maxio.install_snapshot snapshot node).2

/-- What a node keeps through every call. -/
structure Sane (fs : FilesystemStorage) (node : StorageNode) : Prop where
  placed : Placed fs node.world.tree
  clean : NoStray fs node.world.tree

section Buckets
variable {fs : FilesystemStorage} {node : StorageNode}

theorem Carried.clean {mutation : StorageMutation} {w w' : World} (carried : Carried fs w mutation w')
    (clean : NoStray fs w.tree) : NoStray fs w'.tree := by
  intro name c
  by_cases about : mutation.target = some name
  · cases carried with
    | kept present => exact clean name c
    | @made target region created_at w' valid made =>
      obtain rfl : target = name := by simpa [StorageMutation.target] using about
      rw [made.tree,if_neg (by simp),if_pos rfl]
      simp
    | missed absent => exact clean name c
    | @dropped target w' here bare gone =>
      obtain rfl : target = name := by simpa [StorageMutation.target] using about
      rw [gone.tree,if_pos List.prefix_rfl]
      simp
    | mapped => exact clean name c
  · rw [carried.other about List.prefix_rfl]
    exact clean name c

/-- A mutation that was carried out changes the list and the directories alike. -/
theorem Carried.agree {mutation : StorageMutation} {w w' : World} (carried : Carried fs w mutation w')
    (clean : NoStray fs w.tree) {buckets : Finset String} {maps : ShardMaps}
    (agree : ∀ name, w.tree.node (base fs.buckets_dir name) = some .dir ↔ name ∈ buckets) (name : String) :
    w'.tree.node (base fs.buckets_dir name) = some .dir ↔ name ∈ (mutation.effect (buckets,maps)).1 := by
  by_cases about : mutation.target = some name
  · cases carried with
    | @kept target region present =>
      obtain rfl : target = name := by simpa [StorageMutation.target] using about
      have here : w.tree.node (base fs.buckets_dir target) = some .dir := by
        rcases found : w.tree.node (base fs.buckets_dir target) with _ | c | _
        · exact absurd found present
        · exact absurd found (clean target c)
        · rfl
      exact iff_of_true here (Finset.mem_insert_self _ _)
    | @made target region created_at w' valid made =>
      obtain rfl : target = name := by simpa [StorageMutation.target] using about
      refine iff_of_true ?_ (Finset.mem_insert_self _ _)
      rw [made.tree,if_neg (by simp),if_pos rfl]
    | @missed target absent =>
      obtain rfl : target = name := by simpa [StorageMutation.target] using about
      refine iff_of_false ?_ (Finset.notMem_erase _ _)
      rw [absent]
      simp
    | @dropped target w' here bare gone =>
      obtain rfl : target = name := by simpa [StorageMutation.target] using about
      refine iff_of_false ?_ (Finset.notMem_erase _ _)
      rw [gone.tree,if_pos List.prefix_rfl]
      simp
    | mapped => exact agree name
  · rw [carried.other about List.prefix_rfl,agree name]
    cases mutation with
    | CreateBucket target region =>
      have other : name ≠ target := fun same => about (congrArg some same.symm)
      exact (Finset.mem_insert.trans (or_iff_right other)).symm
    | DeleteBucket target =>
      have other : name ≠ target := fun same => about (congrArg some same.symm)
      exact (Finset.mem_erase.trans (and_iff_right other)).symm
    | PutShardMap bucket key map => rfl

/-- Applying entries, to the end or up to one that fails, keeps the list and the directories together. -/
theorem apply_log_agrees (clock : Nat → String) (entries : List LogEntry) (sane : Sane fs node) :
    Sane fs (apply_to_state_machine fs clock entries node).2 ∧
      (BucketsAgree fs node → BucketsAgree fs (apply_to_state_machine fs clock entries node).2) := by
  induction entries generalizing node with
  | nil => exact ⟨sane,id⟩
  | cons entry rest ih =>
    have noted : (note_entry entry node.sm).buckets = node.sm.buckets :=
      congrArg Prod.fst (note_entry_contents entry node.sm).1
    by_cases fits : ∀ mutation, entry.mutation = some mutation → Fits fs node.world.tree mutation
    · obtain ⟨w,applied,stepped⟩ := apply_entry_fits (clock entry.log_id.index) sane.placed entry fits
      have next : Sane fs { node with world := w, sm := node.sm.step entry } ∧
          (BucketsAgree fs node → BucketsAgree fs { node with world := w, sm := node.sm.step entry }) := by
        unfold Stepped at stepped
        unfold SmData.step
        cases about : entry.mutation with
        | none =>
          simp only [about] at stepped ⊢
          subst stepped
          refine ⟨⟨sane.placed,sane.clean⟩,fun agree name => ?_⟩
          rw [noted]
          exact agree name
        | some mutation =>
          simp only [about] at stepped ⊢
          refine ⟨⟨stepped.placed sane.placed,stepped.clean sane.clean⟩,fun agree => ?_⟩
          refine stepped.agree sane.clean fun name => ?_
          rw [noted]
          exact agree name
      obtain ⟨sane',kept⟩ := ih next.1
      have spelled : (apply_to_state_machine fs clock (entry :: rest) node).2 =
          (apply_to_state_machine fs clock rest { node with world := w, sm := node.sm.step entry }).2 := by
        rw [apply_to_state_machine,Prog.bind_of_ok applied,Prog.bind_apply]
        split <;> simp_all
      rw [spelled]
      exact ⟨sane',fun agree => kept (next.2 agree)⟩
    · push Not at fits
      obtain ⟨mutation,about,misfit⟩ := fits
      obtain ⟨e,failed⟩ := apply_entry_misfit (clock entry.log_id.index) sane.placed entry about misfit
      rw [apply_to_state_machine,Prog.bind_of_error failed]
      refine ⟨⟨sane.placed,sane.clean⟩,fun agree name => ?_⟩
      rw [noted]
      exact agree name

theorem NodeCall.run_sane (sane : Sane fs node) (call : NodeCall) : Sane fs (call.run fs node) := by
  cases call with
  | apply_to_state_machine clock entries => exact (apply_log_agrees clock entries sane).1
  | install_snapshot snapshot =>
    rw [NodeCall.run,Maxio.install_snapshot]
    cases snapshot.data <;> exact ⟨sane.placed,sane.clean⟩

/-- The data a call installs. -/
def NodeCall.installed : NodeCall → Option SmData
  | .apply_to_state_machine _ _ => none
  | .install_snapshot snapshot => match snapshot.data with
    | .json sm => some sm
    | .malformed => none

/-- A call that installs nothing keeps list and directories together; one that installs data makes its list the list
    of the node and leaves the directories. -/
theorem NodeCall.run_agrees (sane : Sane fs node) (agree : BucketsAgree fs node) (call : NodeCall) :
    BucketsAgree fs (call.run fs node) ↔ ∀ sm, call.installed = some sm →
      ∀ name, node.world.tree.node (base fs.buckets_dir name) = some .dir ↔ name ∈ sm.buckets := by
  cases call with
  | apply_to_state_machine clock entries =>
    exact iff_of_true ((apply_log_agrees clock entries sane).2 agree) fun _ none => (nomatch none)
  | install_snapshot snapshot =>
    rw [NodeCall.run,Maxio.install_snapshot,NodeCall.installed]
    cases snapshot.data with
    | malformed => exact iff_of_true agree fun _ none => (nomatch none)
    | json sm =>
      constructor
      · rintro after _ same
        cases same
        exact after
      · exact fun before => before sm rfl

end Buckets

/-- Through a sequence of calls a node lists the buckets it has, exactly when it does so at the start and every
    snapshot that is installed lists the buckets the node has by then. -/
theorem buckets_agree_iff {fs : FilesystemStorage} {node : StorageNode} (sane : Sane fs node) (calls : List NodeCall) :
    (∀ done, done <+: calls → BucketsAgree fs (done.foldl (NodeCall.run fs) node)) ↔
      BucketsAgree fs node ∧ ∀ done call rest sm, calls = done ++ call :: rest → call.installed = some sm →
        ∀ name, (done.foldl (NodeCall.run fs) node).world.tree.node (base fs.buckets_dir name) = some .dir ↔
          name ∈ sm.buckets := by
  have kept (done : List NodeCall) : Sane fs (done.foldl (NodeCall.run fs) node) := by
    induction done using List.reverseRecOn with
    | nil => exact sane
    | append_singleton done call ih =>
      rw [List.foldl_append]
      exact call.run_sane ih
  constructor
  · intro agree
    refine ⟨agree [] (List.nil_prefix),fun done call rest sm split => ?_⟩
    have before := agree done (split ▸ List.prefix_append _ _)
    have after := agree (done ++ [call]) (split ▸ ⟨rest,by simp⟩)
    rw [List.foldl_append] at after
    exact (call.run_agrees (kept done) before).mp after sm
  · rintro ⟨start,listed⟩ done within
    induction done using List.reverseRecOn with
    | nil => exact start
    | append_singleton done call ih =>
      obtain ⟨rest,split⟩ := within
      have before := ih ((List.prefix_append _ _).trans ⟨rest,split⟩)
      rw [List.foldl_append]
      refine (call.run_agrees (kept done) before).mpr fun sm => listed done call rest sm ?_
      rw [← split]
      simp

namespace Sample

/-- A disk with a place for buckets and none in it. -/
def bare : World := (Fs.create_dir_all ["data"]).run { tree := empty, rows := [], sealings := [] } |>.2

theorem bare_empty (name : String) : bare.tree.node (base node_storage.buckets_dir name) = none := by
  by_contra present
  have listed := bare.tree.listed _ present
  have paths : bare.tree.paths.all (fun p => p.length ≤ 1) = true := by decide +kernel
  have short := List.all_eq_true.mp paths _ listed
  simp [base,node_storage,storage] at short

theorem bare_sane : Sane node_storage (.new bare) :=
  ⟨⟨named_of_paths (by decide +kernel),by decide +kernel⟩,fun name c => by
    rw [show (StorageNode.new bare).world.tree.node (base node_storage.buckets_dir name) = none from bare_empty name]
    simp⟩

theorem bare_agrees : BucketsAgree node_storage (.new bare) := fun name => by
  rw [show (StorageNode.new bare).world.tree.node (base node_storage.buckets_dir name) = none from bare_empty name]
  simp [StorageNode.new,SmData.default]

/-- The snapshot of a node with one bucket. -/
def vault_snapshot : StoredSnapshot where
  about := ⟨some ⟨1,1⟩,⟨none,[]⟩,"1-1-1"⟩
  data := .json { SmData.default with last_applied_log := some ⟨1,1⟩, buckets := {"vault"} }

end Sample

/-- A new node that applies the creation of a bucket lists the bucket and has it. -/
theorem created_buckets_agree :
    BucketsAgree Sample.node_storage ((NodeCall.apply_to_state_machine (fun _ => "") [Sample.created]).run
      Sample.node_storage (.new Sample.bare)) := by
  have all := (buckets_agree_iff Sample.bare_sane [.apply_to_state_machine (fun _ => "") [Sample.created]]).mpr
    ⟨Sample.bare_agrees,fun done call rest sm split installed => by
      have listed : call ∈ [NodeCall.apply_to_state_machine (fun _ => "") [Sample.created]] := by
        rw [split]
        simp
      rw [List.mem_singleton.mp listed] at installed
      cases installed⟩
  exact all _ List.prefix_rfl

/-- A new node that catches up by a snapshot lists a bucket it does not have. -/
theorem snapshot_lists_missing_bucket :
    (install_snapshot Sample.vault_snapshot (.new Sample.bare)).1.isOk = true ∧
      ¬ BucketsAgree Sample.node_storage
        ((NodeCall.install_snapshot Sample.vault_snapshot).run Sample.node_storage (.new Sample.bare)) := by
  refine ⟨rfl,fun agree => ?_⟩
  have here := (agree "vault").mpr (Finset.mem_singleton_self _)
  rw [show ((NodeCall.install_snapshot Sample.vault_snapshot).run Sample.node_storage (.new Sample.bare)).world.tree.node
    (base Sample.node_storage.buckets_dir "vault") = none from Sample.bare_empty "vault"] at here
  cases here

end Maxio
