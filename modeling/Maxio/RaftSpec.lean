import Maxio.RaftStore
import Maxio.RoundTrip

/-!
The replicated data of a node: snapshots against the log, and shard maps against the life of their buckets.
-/

namespace Maxio
open StorageNode

/-! ### The data as the log makes it -/

/-- Buckets and shard maps. -/
abbrev Contents := Finset String × ShardMaps

def SmData.contents (sm : SmData) : Contents := (sm.buckets,sm.shard_maps)

/-- What a mutation does to the replicated data. -/
def StorageMutation.effect : StorageMutation → Contents → Contents
  | .CreateBucket name _,(buckets,maps) => (insert name buckets,maps)
  | .DeleteBucket name,(buckets,maps) => (buckets.erase name,maps)
  | .PutShardMap bucket key map,(buckets,maps) => (buckets,maps.insert (shard_map_id bucket key) map)

/-- The mutation of an entry, if it has one. -/
def LogEntry.mutation (entry : LogEntry) : Option StorageMutation := match entry.payload with
  | .Normal mutation => some mutation
  | _ => none

/-- What the entries of a log produce. -/
def replay (entries : List LogEntry) : Contents :=
  (entries.filterMap LogEntry.mutation).foldl (fun contents mutation => mutation.effect contents) (∅,∅)

theorem replay_concat (entries : List LogEntry) (entry : LogEntry) :
    replay (entries ++ [entry]) = match entry.mutation with
      | some mutation => mutation.effect (replay entries)
      | none => replay entries := by
  unfold replay
  rw [List.filterMap_append,List.foldl_append]
  cases has : entry.mutation with
  | none => simp [has]
  | some mutation => simp [has]

section Steps
variable {fs : FilesystemStorage} {created_at : String} {node node' : StorageNode}

/-- A call on the filesystem, then a change of the data. -/
theorem filesystem_then {α : Type} (call : Action α) (f : SmData → SmData) (node : StorageNode) :
    (∃ node', (do let _ ← on_filesystem call; with_sm f : NodeAction Unit) node = (.ok (),node') ∧ node'.sm = f node.sm) ∨
      ∃ e node', (do let _ ← on_filesystem call; with_sm f : NodeAction Unit) node = (.error e,node') ∧
        node'.sm = node.sm := by
  rw [Prog.bind_apply]
  cases executed : on_filesystem call node with
  | mk result between =>
    have same : between.sm = node.sm := by
      rw [show between = (on_filesystem call node).2 by rw [executed]]
      rfl
    cases result with
    | error e => exact .inr ⟨e,between,rfl,same⟩
    | ok a => exact .inl ⟨{ between with sm := f between.sm },rfl,by rw [same]⟩

/-- A mutation that succeeds has its effect and leaves the rest of the data alone; one that fails has none. -/
theorem apply_mutation_sm (fs : FilesystemStorage) (created_at : String) (mutation : StorageMutation) (node : StorageNode) :
    (∃ node', apply_mutation fs created_at mutation node = (.ok (),node') ∧
        node'.sm.contents = mutation.effect node.sm.contents ∧
        node'.sm.last_applied_log = node.sm.last_applied_log) ∨
      ∃ e node', apply_mutation fs created_at mutation node = (.error e,node') ∧ node'.sm = node.sm := by
  cases mutation with
  | CreateBucket name region =>
    rcases filesystem_then (fs.create_bucket (replicated_bucket name region created_at))
      (fun sm => { sm with buckets := insert name sm.buckets }) node with ⟨node',done,data⟩ | failed
    · exact .inl ⟨node',done,by rw [data]; rfl,by rw [data]⟩
    · exact .inr failed
  | DeleteBucket name =>
    rcases filesystem_then (fs.delete_bucket name) (fun sm => { sm with buckets := sm.buckets.erase name }) node with
      ⟨node',done,data⟩ | failed
    · exact .inl ⟨node',done,by rw [data]; rfl,by rw [data]⟩
    · exact .inr failed
  | PutShardMap bucket key map => exact .inl ⟨_,rfl,rfl,rfl⟩

theorem note_entry_contents (entry : LogEntry) (sm : SmData) :
    (note_entry entry sm).contents = sm.contents ∧ (note_entry entry sm).last_applied_log = some entry.log_id := by
  unfold note_entry
  cases entry.payload <;> exact ⟨rfl,rfl⟩

/-- An entry that is applied has its effect. -/
theorem apply_entry_done {entry : LogEntry} {response : MutationResponse}
    (done : apply_entry fs created_at entry node = (.ok response,node')) :
    node'.sm.last_applied_log = some entry.log_id ∧ node'.sm.contents = match entry.mutation with
      | some mutation => mutation.effect node.sm.contents
      | none => node.sm.contents := by
  obtain ⟨contents,last⟩ := note_entry_contents entry node.sm
  rw [apply_entry,with_sm,Prog.bind_apply,Prog.tell_apply] at done
  unfold LogEntry.mutation
  cases payload : entry.payload with
  | Normal mutation =>
    rw [payload] at done
    rcases apply_mutation_sm fs created_at mutation { node with sm := note_entry entry node.sm } with
      ⟨after,applied,effect,kept⟩ | ⟨e,after,failed,_⟩
    · simp only [Prog.bind_of_ok applied,Prog.pure_apply,Prod.mk.injEq] at done
      obtain ⟨_,rfl⟩ := done
      exact ⟨kept.trans last,effect.trans (congrArg _ contents)⟩
    · simp only [Prog.bind_of_error failed] at done
      cases done
  | Blank =>
    rw [payload] at done
    cases done
    exact ⟨last,contents⟩
  | Membership mem =>
    rw [payload] at done
    cases done
    exact ⟨last,contents⟩

/-- A log that is applied to the end leaves what it produces. -/
theorem apply_to_state_machine_done {clock : Nat → String} (log : List LogEntry) {before : List LogEntry}
    (start : node.sm.contents = replay before) {responses : List MutationResponse}
    (done : apply_to_state_machine fs clock log node = (.ok responses,node')) :
    node'.sm.contents = replay (before ++ log) := by
  induction log generalizing node before responses with
  | nil =>
    cases done
    simpa using start
  | cons entry rest ih =>
    simp only [apply_to_state_machine,Prog.bind_ok_iff] at done
    obtain ⟨response,between,applied,responses',last,rest_applied,finished⟩ := done
    cases finished
    have effect := (apply_entry_done applied).2
    rw [start,← replay_concat] at effect
    have produced := ih effect rest_applied
    rw [List.append_assoc] at produced
    exact produced

end Steps

/-! ### Snapshots during application -/

/-- Where the task that applies entries stands when the lock is free: between two entries, between noting an entry and
    carrying out its mutation, or stopped by a mutation that failed. -/
inductive Applying where
  | idle
  | noted (mutation : StorageMutation)
  | stopped (mutation : StorageMutation)

/-- A node that applies a log, with the entries it has noted and those to come. -/
structure Applier where
  node : StorageNode
  past : List LogEntry
  coming : List LogEntry
  applying : Applying

/-- The steps of `apply_to_state_machine` between which the lock is free, and the snapshots taken there. -/
inductive Applier.Step (fs : FilesystemStorage) : Applier → Applier → Prop where
  /-- The lock is taken, the entry is noted, and the lock is given up. -/
  | note (s : Applier) (entry : LogEntry) (rest : List LogEntry) (free : s.applying = .idle) (next : s.coming = entry :: rest) :
      Step fs s {
        node := { s.node with sm := note_entry entry s.node.sm }, past := s.past ++ [entry], coming := rest
        applying := match entry.mutation with
          | some mutation => .noted mutation
          | none => .idle }
  | mutate (s : Applier) (mutation : StorageMutation) (created_at : String) (node : StorageNode)
      (busy : s.applying = .noted mutation) (done : apply_mutation fs created_at mutation s.node = (.ok (),node)) :
      Step fs s { s with node := node, applying := .idle }
  | fail (s : Applier) (mutation : StorageMutation) (created_at e : String) (node : StorageNode)
      (busy : s.applying = .noted mutation) (done : apply_mutation fs created_at mutation s.node = (.error e,node)) :
      Step fs s { s with node := node, applying := .stopped mutation }
  | snapshot (s : Applier) : Step fs s { s with node := (build_snapshot s.node).2 }

/-- Every order of steps from a new node on. -/
inductive Applier.Reaches (fs : FilesystemStorage) (log : List LogEntry) : Applier → Prop where
  | start (world : World) : Reaches fs log ⟨.new world,[],log,.idle⟩
  | step {s s' : Applier} (before : Reaches fs log s) (step : s.Step fs s') : Reaches fs log s'

/-- The snapshot holds what the entries up to the one it names produce. -/
def StoredSnapshot.Cuts (log : List LogEntry) (snapshot : StoredSnapshot) : Prop :=
  ∃ sm, snapshot.data = .json sm ∧ sm.contents = replay (match snapshot.about.last_log_id with
    | some last => log.filter fun entry => entry.log_id.index ≤ last.index
    | none => [])

namespace Applier
variable {fs : FilesystemStorage} {log : List LogEntry}

/-- The mutation that was noted and is not carried out. -/
def owed (s : Applier) : Option StorageMutation := match s.applying with
  | .idle => none
  | .noted mutation => some mutation
  | .stopped mutation => some mutation

/-- The data is what the noted entries produce, up to the mutation that is owed. -/
structure Inv (log : List LogEntry) (s : Applier) : Prop where
  split : log = s.past ++ s.coming
  last : s.node.sm.last_applied_log = s.past.getLast?.map LogEntry.log_id
  contents : replay s.past = match s.owed with
    | some mutation => mutation.effect s.node.sm.contents
    | none => s.node.sm.contents

theorem build_snapshot_sm (node : StorageNode) : (build_snapshot node).2.sm = node.sm := rfl

theorem Inv.step {s s' : Applier} (inv : s.Inv log) (step : s.Step fs s') : s'.Inv log := by
  cases step with
  | note entry rest free next =>
    obtain ⟨contents,last⟩ := note_entry_contents entry s.node.sm
    have settled : replay s.past = s.node.sm.contents := by
      have all := inv.contents
      rw [owed,free] at all
      exact all
    refine ⟨?_,?_,?_⟩
    · rw [inv.split,next]
      simp
    · simpa using last
    · rw [replay_concat,settled]
      unfold owed
      dsimp only
      cases entry.mutation with
      | none => exact contents.symm
      | some mutation => exact congrArg mutation.effect contents.symm
  | mutate mutation created_at node busy done =>
    have all := inv.contents
    rw [owed,busy] at all
    rcases apply_mutation_sm fs created_at mutation s.node with ⟨node',applied,effect,kept⟩ | ⟨e,node',failed,_⟩
    · rw [done] at applied
      cases applied
      exact ⟨inv.split,kept.trans inv.last,all.trans effect.symm⟩
    · rw [done] at failed
      cases failed
  | fail mutation created_at e node busy done =>
    have all := inv.contents
    rw [owed,busy] at all
    rcases apply_mutation_sm fs created_at mutation s.node with ⟨node',applied,_⟩ | ⟨e',node',failed,same⟩
    · rw [done] at applied
      cases applied
    · rw [done] at failed
      cases failed
      exact ⟨inv.split,by rw [same]; exact inv.last,by rw [same]; exact all⟩
  | snapshot => exact ⟨inv.split,inv.last,inv.contents⟩

theorem Reaches.inv {s : Applier} (reaches : Reaches fs log s) : s.Inv log := by
  induction reaches with
  | start world => exact ⟨rfl,rfl,rfl⟩
  | step before step ih => exact ih.step step

/-- The entries up to the last one noted are those noted. -/
theorem past_of_index {past coming : List LogEntry} {last : LogEntry}
    (ordered : ((past ++ [last]) ++ coming).Pairwise fun a b => a.log_id.index < b.log_id.index) :
    ((past ++ [last]) ++ coming).filter (fun entry => entry.log_id.index ≤ last.log_id.index) = past ++ [last] := by
  rw [List.pairwise_append] at ordered
  obtain ⟨front,_,across⟩ := ordered
  rw [List.filter_append]
  have early : (past ++ [last]).filter (fun entry => entry.log_id.index ≤ last.log_id.index) = past ++ [last] := by
    rw [List.filter_eq_self]
    intro entry listed
    rw [List.pairwise_append] at front
    rcases List.mem_append.mp listed with old | new
    · have before := front.2.2 entry old last (List.mem_singleton_self _)
      simpa using Nat.le_of_lt before
    · rw [List.mem_singleton.mp new]
      simp
  have late : coming.filter (fun entry => entry.log_id.index ≤ last.log_id.index) = [] := by
    rw [List.filter_eq_nil_iff]
    intro entry listed
    have after := across last (by simp) entry listed
    simpa using after
  rw [early,late,List.append_nil]

end Applier

/-- A snapshot taken anywhere during the application of a log is what the log produces up to the entry the snapshot
    names, exactly when no mutation that changes anything has been noted without being carried out. -/
theorem snapshot_cuts_iff {fs : FilesystemStorage} {log : List LogEntry} {s : Applier} (reaches : s.Reaches fs log)
    (ordered : log.Pairwise fun a b => a.log_id.index < b.log_id.index) {snapshot : StoredSnapshot} {node : StorageNode}
    (built : build_snapshot s.node = (.ok snapshot,node)) :
    snapshot.Cuts log ↔ ∀ mutation, s.owed = some mutation → mutation.effect s.node.sm.contents = s.node.sm.contents := by
  have inv := reaches.inv
  have named : snapshot.data = .json s.node.sm ∧ snapshot.about.last_log_id = s.node.sm.last_applied_log := by
    simp only [build_snapshot] at built
    cases built
    exact ⟨rfl,rfl⟩
  have upto : (match s.node.sm.last_applied_log with
      | some last => log.filter fun entry => entry.log_id.index ≤ last.index
      | none => []) = s.past := by
    rw [inv.last]
    rcases List.eq_nil_or_concat s.past with none | ⟨front,last,ends⟩
    · rw [none]
      rfl
    · rw [List.concat_eq_append] at ends
      have split := inv.split
      rw [ends] at split ⊢
      rw [split] at ordered ⊢
      simpa using Applier.past_of_index ordered
  unfold StoredSnapshot.Cuts
  rw [named.1,named.2,upto,inv.contents]
  constructor
  · rintro ⟨sm,same,cut⟩ mutation owed
    cases same
    rw [owed] at cut
    exact cut.symm
  · intro settled
    refine ⟨_,rfl,?_⟩
    cases owed : s.owed with
    | none => rfl
    | some mutation => exact (settled mutation owed).symm

namespace Sample

/-- The storage of a node: flat, below `/data`. -/
def node_storage : FilesystemStorage := storage false 1024 (by decide +kernel)

def placement : EcShardPlacement := ⟨"vault","a",1,0,[(0,"storage-1")]⟩

def created : LogEntry := ⟨⟨1,1⟩,.Normal (.CreateBucket "vault" "us-east-1")⟩
def placed : LogEntry := ⟨⟨1,1⟩,.Normal (.PutShardMap "vault" "a" placement)⟩

/-- The entry is noted, and its mutation is still to come. -/
def halfway (entry : LogEntry) (mutation : StorageMutation) : Applier where
  node := { StorageNode.new (world false) with sm := note_entry entry .default }
  past := [entry]
  coming := []
  applying := .noted mutation

theorem halfway_reached : (halfway created (.CreateBucket "vault" "us-east-1")).Reaches node_storage [created] ∧
    (halfway placed (.PutShardMap "vault" "a" placement)).Reaches node_storage [placed] :=
  ⟨.step (.start (world false)) (.note _ created [] rfl rfl),.step (.start (world false)) (.note _ placed [] rfl rfl)⟩

/-- The mutation has been carried out. -/
def settled : Applier where
  node := (apply_mutation node_storage "" (.PutShardMap "vault" "a" placement)
    (halfway placed (.PutShardMap "vault" "a" placement)).node).2
  past := [placed]
  coming := []
  applying := .idle

/-- The snapshot a node builds. -/
def snapshot_of (s : Applier) : StoredSnapshot where
  about := ⟨s.node.sm.last_applied_log,s.node.sm.last_membership,(match s.node.sm.last_applied_log with
    | some last => toString last.leader_id ++ "-" ++ toString last.index ++ "-" ++ toString (s.node.snapshot_idx + 1)
    | none => "--" ++ toString (s.node.snapshot_idx + 1))⟩
  data := .json s.node.sm

end Sample

/-- A snapshot taken after a shard map was put. -/
theorem settled_snapshot_cuts : (Sample.snapshot_of Sample.settled).Cuts [Sample.placed] :=
  (snapshot_cuts_iff (.step Sample.halfway_reached.2 (.mutate _ _ "" _ rfl rfl)) (by decide) rfl).mpr
    fun _ none => (nomatch none)

/-- A snapshot taken while the creation of a bucket is noted and not carried out names that entry and lacks the
    bucket. -/
theorem halfway_snapshot_lacks_bucket :
    (Sample.halfway Sample.created (.CreateBucket "vault" "us-east-1")).Reaches Sample.node_storage [Sample.created] ∧
      (build_snapshot (Sample.halfway Sample.created (.CreateBucket "vault" "us-east-1")).node).1 =
        .ok (Sample.snapshot_of (Sample.halfway Sample.created (.CreateBucket "vault" "us-east-1"))) ∧
      ¬ (Sample.snapshot_of (Sample.halfway Sample.created (.CreateBucket "vault" "us-east-1"))).Cuts [Sample.created] := by
  refine ⟨Sample.halfway_reached.1,rfl,?_⟩
  rintro ⟨sm,same,cut⟩
  cases same
  have buckets : (∅ : Finset String) = {"vault"} := congrArg Prod.fst cut
  exact absurd buckets (by decide)

/-! ### Shard maps and their buckets -/

/-- The last shard map put for a bucket and key, with no deletion of the bucket after it. -/
def LatestMap (mutations : List StorageMutation) (bucket key : String) (map : EcShardPlacement) : Prop :=
  ∃ front back, mutations = front ++ .PutShardMap bucket key map :: back ∧
    (∀ map', .PutShardMap bucket key map' ∉ back) ∧ .DeleteBucket bucket ∉ back

/-- Shard maps are found under the bucket and key they were put for, as long as the bucket lives, and nowhere else. -/
structure ShardMapsScoped (mutations : List StorageMutation) (node : StorageNode) : Prop where
  latest : ∀ bucket key map, node.shard_map bucket key = some map ↔ LatestMap mutations bucket key map
  apart : ∀ bucket key bucket' key', (bucket,key) ≠ (bucket',key') →
    shard_map_id bucket key = shard_map_id bucket' key' → node.shard_map bucket key = none

/-- No bucket is deleted while it has shard maps that are not put again later. -/
def NoneOrphaned (mutations : List StorageMutation) : Prop :=
  ∀ front back bucket key map, mutations = front ++ .DeleteBucket bucket :: back →
    .PutShardMap bucket key map ∈ front → ∃ map', .PutShardMap bucket key map' ∈ back

/-- Shard maps are put for buckets and keys without slashes. -/
def SlashFree (mutations : List StorageMutation) : Prop :=
  ∀ bucket key map, .PutShardMap bucket key map ∈ mutations → '/' ∉ bucket.toList ∧ '/' ∉ key.toList

section ShardMaps

theorem shard_map_id_toList (bucket key : String) :
    (shard_map_id bucket key).toList = bucket.toList ++ '/' :: key.toList := by
  simp [shard_map_id,String.toList_append]

/-- With one slash the id tells bucket and key. -/
theorem shard_map_id_injective {bucket key bucket' key' : String} (plain : '/' ∉ bucket.toList)
    (plain' : '/' ∉ key.toList) (same : shard_map_id bucket key = shard_map_id bucket' key') :
    bucket' = bucket ∧ key' = key := by
  have chars := congrArg String.toList same
  rw [shard_map_id_toList,shard_map_id_toList,List.append_eq_append_iff] at chars
  rcases chars with ⟨gap,front,back⟩ | ⟨gap,front,back⟩
  · cases gap with
    | nil =>
      rw [List.append_nil] at front
      injection back with _ back
      exact ⟨String.toList_injective front,String.toList_injective back.symm⟩
    | cons c gap =>
      injection back with slash back
      refine absurd ?_ plain'
      rw [back]
      simp
  · cases gap with
    | nil =>
      rw [List.append_nil] at front
      injection back with _ back
      exact ⟨String.toList_injective front.symm,String.toList_injective back⟩
    | cons c gap =>
      injection back with slash back
      refine absurd ?_ plain
      rw [front,← slash]
      simp

/-- With a slash in the bucket or in the key another pair has the same id. -/
theorem shard_map_id_shared {bucket key : String} (slash : '/' ∈ bucket.toList ∨ '/' ∈ key.toList) :
    ∃ bucket' key', (bucket,key) ≠ (bucket',key') ∧ shard_map_id bucket key = shard_map_id bucket' key' := by
  rcases slash with inside | inside
  · obtain ⟨front,back,spelled⟩ := List.append_of_mem inside
    refine ⟨String.ofList front,String.ofList (back ++ '/' :: key.toList),fun same => ?_,?_⟩
    · have longer := congrArg (fun pair : String × String => pair.1.toList.length) same
      simp [spelled] at longer
    · apply String.toList_injective
      rw [shard_map_id_toList,shard_map_id_toList,spelled]
      simp
  · obtain ⟨front,back,spelled⟩ := List.append_of_mem inside
    refine ⟨String.ofList (bucket.toList ++ '/' :: front),String.ofList back,fun same => ?_,?_⟩
    · have longer := congrArg (fun pair : String × String => pair.1.toList.length) same
      simp at longer
    · apply String.toList_injective
      rw [shard_map_id_toList,shard_map_id_toList,spelled]
      simp

/-- What is found under an id is the last map put under it. -/
theorem lookup_replayed (mutations : List StorageMutation) (id : String) (map : EcShardPlacement) :
    (mutations.foldl (fun contents mutation => mutation.effect contents) ((∅,∅) : Contents)).2.lookup id = some map ↔
      ∃ front bucket key back, mutations = front ++ .PutShardMap bucket key map :: back ∧ shard_map_id bucket key = id ∧
        ∀ bucket' key' map', .PutShardMap bucket' key' map' ∈ back → shard_map_id bucket' key' ≠ id := by
  induction mutations using List.reverseRecOn with
  | nil => simp
  | append_singleton past mutation ih =>
    rw [List.foldl_append,List.foldl_cons,List.foldl_nil]
    -- a mutation that puts no map under the id changes nothing
    have other (unchanged : (mutation.effect (past.foldl (fun contents mutation => mutation.effect contents) (∅,∅))).2.lookup id =
          (past.foldl (fun contents mutation => mutation.effect contents) ((∅,∅) : Contents)).2.lookup id)
        (elsewhere : ∀ bucket key map, mutation = .PutShardMap bucket key map → shard_map_id bucket key ≠ id) :
        (mutation.effect (past.foldl (fun contents mutation => mutation.effect contents) (∅,∅))).2.lookup id = some map ↔
          ∃ front bucket key back, past ++ [mutation] = front ++ .PutShardMap bucket key map :: back ∧
            shard_map_id bucket key = id ∧
            ∀ bucket' key' map', .PutShardMap bucket' key' map' ∈ back → shard_map_id bucket' key' ≠ id := by
      rw [unchanged,ih]
      constructor
      · rintro ⟨front,bucket,key,back,split,named,last⟩
        refine ⟨front,bucket,key,back ++ [mutation],by rw [split]; simp,named,fun bucket' key' map' listed => ?_⟩
        rcases List.mem_append.mp listed with old | new
        · exact last bucket' key' map' old
        · exact elsewhere bucket' key' map' (List.mem_singleton.mp new).symm
      · rintro ⟨front,bucket,key,back,split,named,last⟩
        rcases List.eq_nil_or_concat back with rfl | ⟨back',ends,rfl⟩
        · obtain ⟨_,same⟩ := List.append_inj' split rfl
          exact absurd named (elsewhere bucket key map (List.singleton_inj.mp same))
        · rw [List.concat_eq_append,← List.cons_append,← List.append_assoc] at split
          obtain ⟨front_same,_⟩ := List.append_inj' split rfl
          refine ⟨front,bucket,key,back',front_same,named,fun bucket' key' map' listed => ?_⟩
          exact last bucket' key' map' (by rw [List.concat_eq_append]; exact List.mem_append_left _ listed)
    cases mutation with
    | CreateBucket name region => exact other rfl (fun _ _ _ none => (nomatch none))
    | DeleteBucket name => exact other rfl (fun _ _ _ none => (nomatch none))
    | PutShardMap bucket key map' =>
      by_cases named : shard_map_id bucket key = id
      · rw [StorageMutation.effect,← named,Finmap.lookup_insert]
        constructor
        · intro same
          cases same
          exact ⟨past,bucket,key,[],rfl,rfl,fun _ _ _ none => (nomatch none)⟩
        · rintro ⟨front,bucket',key',back,split,_,last⟩
          rcases List.eq_nil_or_concat back with rfl | ⟨back',ends,rfl⟩
          · obtain ⟨_,same⟩ := List.append_inj' split rfl
            cases List.singleton_inj.mp same
            rfl
          · rw [List.concat_eq_append,← List.cons_append,← List.append_assoc] at split
            obtain ⟨_,same⟩ := List.append_inj' split rfl
            refine absurd rfl (last bucket key map' ?_)
            rw [List.concat_eq_append,← List.singleton_inj.mp same]
            simp
      · refine other ?_ fun bucket' key' map'' same => ?_
        · rw [StorageMutation.effect]
          exact Finmap.lookup_insert_of_ne _ (fun same => named same.symm)
        · cases same
          exact named

/-- A map put under an id leaves something to be found there. -/
theorem lookup_put {mutations : List StorageMutation} {bucket key : String} {map : EcShardPlacement}
    (listed : .PutShardMap bucket key map ∈ mutations) :
    ∃ map', (mutations.foldl (fun contents mutation => mutation.effect contents) ((∅,∅) : Contents)).2.lookup
      (shard_map_id bucket key) = some map' := by
  induction mutations using List.reverseRecOn with
  | nil => cases listed
  | append_singleton past mutation ih =>
    rw [List.foldl_append,List.foldl_cons,List.foldl_nil]
    rcases List.mem_append.mp listed with old | new
    · obtain ⟨map',found⟩ := ih old
      cases mutation with
      | CreateBucket name region => exact ⟨map',found⟩
      | DeleteBucket name => exact ⟨map',found⟩
      | PutShardMap bucket' key' map'' =>
        rw [StorageMutation.effect]
        by_cases same : shard_map_id bucket key = shard_map_id bucket' key'
        · exact ⟨map'',by rw [same]; exact Finmap.lookup_insert _⟩
        · exact ⟨map',by rw [← found]; exact Finmap.lookup_insert_of_ne _ same⟩
    · rw [← List.mem_singleton.mp new]
      exact ⟨map,Finmap.lookup_insert _⟩

/-- Two ways to split one list at different elements: one of them comes first. -/
theorem splits_apart {α : Type} {front back front' back' : List α} {a b : α} (other : a ≠ b)
    (same : front ++ a :: back = front' ++ b :: back') : b ∈ back ∨ a ∈ back' := by
  rw [List.append_eq_append_iff] at same
  rcases same with ⟨gap,_,rest⟩ | ⟨gap,_,rest⟩
  · cases gap with
    | nil =>
      injection rest with equal _
      exact absurd equal other
    | cons c gap =>
      injection rest with _ rest
      left
      rw [rest]
      simp
  · cases gap with
    | nil =>
      injection rest with equal _
      exact absurd equal.symm other
    | cons c gap =>
      injection rest with _ rest
      right
      rw [rest]
      simp

end ShardMaps

/-- After a log that applies, shard maps follow the life of their buckets exactly when no bucket was deleted while it had
    shard maps that were not put again, and no shard map was put for a bucket or key with a slash. -/
theorem shard_maps_scoped_iff {fs : FilesystemStorage} {clock : Nat → String} {log : List LogEntry} {world : World}
    {responses : List MutationResponse} {node : StorageNode}
    (done : apply_to_state_machine fs clock log (.new world) = (.ok responses,node)) :
    ShardMapsScoped (log.filterMap LogEntry.mutation) node ↔
      NoneOrphaned (log.filterMap LogEntry.mutation) ∧ SlashFree (log.filterMap LogEntry.mutation) := by
  have produced : node.sm.contents = replay ([] ++ log) := apply_to_state_machine_done log rfl done
  generalize mutations_eq : log.filterMap LogEntry.mutation = mutations
  have found (bucket key : String) : node.shard_map bucket key =
      (mutations.foldl (fun contents mutation => mutation.effect contents) ((∅,∅) : Contents)).2.lookup
        (shard_map_id bucket key) := by
    have maps : node.sm.shard_maps = (replay log).2 := congrArg Prod.snd produced
    rw [shard_map,maps,replay,mutations_eq]
  constructor
  · intro confined
    constructor
    · intro front back bucket key map split listed
      have put : StorageMutation.PutShardMap bucket key map ∈ mutations := by
        rw [split]
        exact List.mem_append_left _ listed
      obtain ⟨map',there⟩ := lookup_put put
      rw [← found] at there
      obtain ⟨front',back',split',last,alive⟩ := (confined.latest bucket key map').mp there
      rw [split] at split'
      rcases splits_apart (by simp) split' with again | deleted
      · exact ⟨map',again⟩
      · exact absurd deleted alive
    · intro bucket key map listed
      obtain ⟨map',there⟩ := lookup_put listed
      rw [← found] at there
      rw [← not_or]
      intro slash
      obtain ⟨bucket',key',other,same⟩ := shard_map_id_shared slash
      rw [confined.apart bucket key bucket' key' other same] at there
      cases there
  · rintro ⟨kept,plain⟩
    constructor
    · intro bucket key map
      rw [found,lookup_replayed]
      constructor
      · rintro ⟨front,bucket',key',back,split,named,last⟩
        obtain ⟨plain₁,plain₂⟩ := plain bucket' key' map (by rw [split]; simp)
        obtain ⟨rfl,rfl⟩ := shard_map_id_injective plain₁ plain₂ named
        refine ⟨front,back,split,fun map' listed => last _ _ map' listed rfl,fun deleted => ?_⟩
        obtain ⟨before,after,rfl⟩ := List.append_of_mem deleted
        obtain ⟨map',again⟩ := kept (front ++ .PutShardMap bucket key map :: before) after bucket key map
          (by rw [split]; simp) (by simp)
        exact last bucket key map' (by simp [again]) rfl
      · rintro ⟨front,back,split,last,_⟩
        refine ⟨front,bucket,key,back,split,rfl,fun bucket' key' map' listed same => ?_⟩
        obtain ⟨plain₁,plain₂⟩ := plain bucket' key' map' (by rw [split]; simp [listed])
        obtain ⟨rfl,rfl⟩ := shard_map_id_injective plain₁ plain₂ same
        exact last map' listed
    · intro bucket key bucket' key' other same
      cases there : node.shard_map bucket key with
      | none => rfl
      | some map =>
        rw [found,lookup_replayed] at there
        obtain ⟨front,bucket₁,key₁,back,split,named,_⟩ := there
        obtain ⟨plain₁,plain₂⟩ := plain bucket₁ key₁ map (by rw [split]; simp)
        obtain ⟨rfl,rfl⟩ := shard_map_id_injective plain₁ plain₂ named
        obtain ⟨rfl,rfl⟩ := shard_map_id_injective plain₁ plain₂ same
        exact absurd rfl other

namespace Sample

/-- A shard map is put, and its bucket is deleted and made again. -/
def recreated : List LogEntry :=
  [⟨⟨1,1⟩,.Normal (.CreateBucket "vault" "us-east-1")⟩,
    ⟨⟨1,2⟩,.Normal (.PutShardMap "vault" "a" placement)⟩,⟨⟨1,3⟩,.Normal (.DeleteBucket "vault")⟩,
    ⟨⟨1,4⟩,.Normal (.CreateBucket "vault" "us-east-1")⟩]

/-- The node after a log. -/
def applied (log : List LogEntry) : StorageNode :=
  (apply_to_state_machine node_storage (fun _ => "") log (.new (world false))).2

theorem placed_kept : NoneOrphaned [.PutShardMap "vault" "a" placement] ∧ SlashFree [.PutShardMap "vault" "a" placement] := by
  constructor
  · intro front back bucket key map split
    have listed : StorageMutation.DeleteBucket bucket ∈ [StorageMutation.PutShardMap "vault" "a" placement] := by
      rw [split]
      simp
    simp at listed
  · intro bucket key map listed
    cases List.mem_singleton.mp listed
    decide

end Sample

theorem placed_scoped : ShardMapsScoped [.PutShardMap "vault" "a" Sample.placement] (Sample.applied [Sample.placed]) :=
  (@shard_maps_scoped_iff Sample.node_storage (fun _ => "") [Sample.placed] (Sample.world false) [⟨true⟩]
    (Sample.applied [Sample.placed]) rfl).mpr Sample.placed_kept

/-- The shard map of a deleted bucket is still there when the bucket is made again. -/
theorem recreated_bucket_finds_old_map :
    (apply_to_state_machine Sample.node_storage (fun _ => "") Sample.recreated (.new (Sample.world false))).1.isOk = true ∧
      ¬ ShardMapsScoped (Sample.recreated.filterMap LogEntry.mutation) (Sample.applied Sample.recreated) := by
  refine ⟨by decide +kernel,fun confined => ?_⟩
  have there : (Sample.applied Sample.recreated).shard_map "vault" "a" = some Sample.placement := by decide +kernel
  obtain ⟨front,back,split,_,alive⟩ := (confined.latest "vault" "a" Sample.placement).mp there
  have whole : Sample.recreated.filterMap LogEntry.mutation = [.CreateBucket "vault" "us-east-1"] ++
      .PutShardMap "vault" "a" Sample.placement :: [.DeleteBucket "vault",.CreateBucket "vault" "us-east-1"] := rfl
  have second : Sample.recreated.filterMap LogEntry.mutation = [.CreateBucket "vault" "us-east-1",
      .PutShardMap "vault" "a" Sample.placement] ++ .DeleteBucket "vault" :: [.CreateBucket "vault" "us-east-1"] := rfl
  rw [second] at split
  rcases splits_apart (by simp) split with again | deleted
  · simp at again
  · exact alive deleted

end Maxio
