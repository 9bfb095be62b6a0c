import Maxio.Buckets

/-!
The state machine of the storage tier: committed entries are applied to the replicated data in memory and, for
buckets, to the local filesystem of the node. `apply_to_state_machine` notes an entry as applied under the lock, gives
the lock up, and only then carries the entry out.
-/

namespace Maxio

/-- Where the shards of an object are placed: shard index and node id. -/
structure EcShardPlacement where
  bucket : String
  key : String
  data_shards : Nat
  parity_shards : Nat
  placements : List (Nat × String)
  deriving DecidableEq, Repr

inductive StorageMutation where
  | CreateBucket (name region : String)
  | DeleteBucket (name : String)
  | PutShardMap (bucket key : String) (map : EcShardPlacement)
  deriving DecidableEq, Repr

structure LogId where
  leader_id : Nat
  index : Nat
  deriving DecidableEq, Repr

/-- The voters of each configuration. -/
abbrev Membership := List (List Nat)

structure StoredMembership where
  log_id : Option LogId
  membership : Membership
  deriving DecidableEq, Repr

inductive EntryPayload where
  | Blank
  | Normal (mutation : StorageMutation)
  | Membership (mem : Membership)
  deriving DecidableEq, Repr

structure LogEntry where
  log_id : LogId
  payload : EntryPayload
  deriving DecidableEq, Repr

abbrev ShardMaps := Finmap fun _ : String => EcShardPlacement

structure SmData where
  last_applied_log : Option LogId
  last_membership : StoredMembership
  buckets : Finset String
  shard_maps : ShardMaps

/-- `SmData::default`. -/
def SmData.default : SmData := ⟨none,⟨none,[]⟩,∅,∅⟩

structure SnapshotMeta where
  last_log_id : Option LogId
  last_membership : StoredMembership
  snapshot_id : String

/-- The bytes of a snapshot: the JSON of the data, or something that does not parse. -/
inductive SnapshotData where
  | json (sm : SmData)
  | malformed

structure StoredSnapshot where
  about : SnapshotMeta
  data : SnapshotData

/-- A node: its filesystem, the replicated data, and the snapshot it keeps. -/
structure StorageNode where
  world : World
  sm : SmData
  snapshot_idx : Nat
  current_snapshot : Option StoredSnapshot

/-- `StorageRaftStore::new` on a filesystem. -/
def StorageNode.new (world : World) : StorageNode := ⟨world,.default,0,none⟩

structure MutationResponse where
  ok : Bool

abbrev NodeAction := Prog StorageNode String

/-- The flattened id of a shard map. -/
def shard_map_id (bucket key : String) : String := bucket ++ "/" ++ key

namespace StorageNode

def shard_map (node : StorageNode) (bucket key : String) : Option EcShardPlacement :=
  node.sm.shard_maps.lookup (shard_map_id bucket key)

/-- Change the replicated data under the write lock. -/
def with_sm (f : SmData → SmData) : NodeAction Unit := Prog.tell fun node => { node with sm := f node.sm }

/-- A call on the local filesystem; its error becomes an error of the state machine. -/
def on_filesystem {α : Type} (call : Action α) : NodeAction α := fun node =>
  ((call node.world).1.mapError StorageError.text,{ node with world := (call node.world).2 })

end StorageNode

open StorageNode

/-- The settings of a bucket made by the log. -/
def replicated_bucket (name region created_at : String) : BucketMeta where
  name := name
  created_at := created_at
  region := region
  versioning := false
  cors_rules := none
  encryption_config := none
  public_read := false
  public_list := false
  bucket_policy := none
  erasure_coding := none
  lifecycle_rules := none
  tenant_id := none
  logging_target_bucket := none
  logging_target_prefix := none
  notification_config := none
  object_lock_enabled := false
  object_lock_config := none

section
variable (fs : FilesystemStorage)

def apply_mutation (created_at : String) : StorageMutation → NodeAction Unit
  | .CreateBucket name region => do
    let _ ← on_filesystem (fs.create_bucket (replicated_bucket name region created_at))
    with_sm fun sm => { sm with buckets := insert name sm.buckets }
  | .DeleteBucket name => do
    let _ ← on_filesystem (fs.delete_bucket name)
    with_sm fun sm => { sm with buckets := sm.buckets.erase name }
  | .PutShardMap bucket key map =>
    with_sm fun sm => { sm with shard_maps := sm.shard_maps.insert (shard_map_id bucket key) map }

/-- What is done to an entry before the lock is given up: it counts as applied, and a membership is taken over. -/
def note_entry (entry : LogEntry) (sm : SmData) : SmData :=
  let noted := { sm with last_applied_log := some entry.log_id }
  match entry.payload with
  | .Membership mem => { noted with last_membership := ⟨some entry.log_id,mem⟩ }
  | _ => noted

/-- One entry, applied at the given time. -/
def apply_entry (created_at : String) (entry : LogEntry) : NodeAction MutationResponse := do
  with_sm (note_entry entry)
  match entry.payload with
  | .Normal mutation => do
    apply_mutation fs created_at mutation
    pure { ok := true }
  | _ => pure { ok := true }

/-- `clock` gives the time at which the entry of an index is applied. -/
def apply_to_state_machine (clock : Nat → String) : List LogEntry → NodeAction (List MutationResponse)
  | [] => pure []
  | entry :: rest => do
    let response ← apply_entry fs (clock entry.log_id.index) entry
    let responses ← apply_to_state_machine clock rest
    pure (response :: responses)

end

def build_snapshot : NodeAction StoredSnapshot := do
  let sm ← Prog.ask StorageNode.sm
  Prog.tell fun node => { node with snapshot_idx := node.snapshot_idx + 1 }
  let snapshot_idx ← Prog.ask StorageNode.snapshot_idx
  let snapshot_id := match sm.last_applied_log with
    | some last => toString last.leader_id ++ "-" ++ toString last.index ++ "-" ++ toString snapshot_idx
    | none => "--" ++ toString snapshot_idx
  let snapshot : StoredSnapshot := {
    about := { last_log_id := sm.last_applied_log, last_membership := sm.last_membership, snapshot_id }
    data := .json sm }
  Prog.tell fun node => { node with current_snapshot := some snapshot }
  pure snapshot

def install_snapshot (snapshot : StoredSnapshot) : NodeAction Unit := match snapshot.data with
  | .malformed => Prog.fail "read snapshot: expected value"
  | .json new_sm => Prog.tell fun node => { node with sm := new_sm, current_snapshot := some snapshot }

end Maxio
