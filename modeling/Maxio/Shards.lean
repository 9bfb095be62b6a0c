import Maxio.RoundTrip

/-!
Erasure coded shards across the nodes of a cluster: which node owns which shard, and where a node keeps it. Placement
goes round the nodes, so that no node has more than one shard above any other.
-/

namespace Maxio.Cluster
open FileTree (ErrorKind)

/-! ### Placement -/

/-- Maps each shard index to the storage node that owns it. -/
structure EcShardPlacement where
  bucket : String
  key : String
  data_shards : Nat
  parity_shards : Nat
  placements : List (Nat × String)
deriving DecidableEq

/-- Round robin over `node_ids`; without any there is none to take the first shard. -/
def place_shards (bucket key : String) (data_shards parity_shards : Nat) (node_ids : List String) :
    Option EcShardPlacement := do
  let total := (data_shards + parity_shards) % 2 ^ 32
  let placements ← (List.range total).mapM fun shard => do
    let node ← node_ids[shard % node_ids.length]?
    pure (shard,node)
  pure ⟨bucket,key,data_shards,parity_shards,placements⟩

inductive ShardError where
  /-- `shard {shard_index} not placed` -/
  | not_placed (shard_index : Nat)
  /-- `unknown node {owner}` -/
  | unknown_node (owner : String)
  | io (e : IoError)

/-- The storage of each node, of which only its `data_root` is needed here. -/
structure Nodes where
  entries : List (String × OsPath)
  distinct : (entries.map Prod.fst).Nodup

def Nodes.get (nodes : Nodes) (id : String) : Option OsPath := nodes.entries.lookup id

/-- The node that a placement names for a shard. -/
def owner_of (placement : EcShardPlacement) (shard_index : Nat) : Except ShardError String :=
  match placement.placements.find? (·.1 == shard_index) with
  | some (_,owner) => .ok owner
  | none => .error (.not_placed shard_index)

def data_root_of (nodes : Nodes) (owner : String) : Except ShardError OsPath :=
  match nodes.get owner with
  | some root => .ok root
  | none => .error (.unknown_node owner)

/-! ### Shards on disk -/

def shard_path (data_root : OsPath) (bucket key : String) (shard : Nat) : OsPath :=
  join (join (join (join data_root ".cluster-shards") bucket) key) (padded 10 6 shard)

def checksum_sidecar (shard_file : OsPath) : OsPath :=
  shard_file.dropLast ++ [shard_file.getLastD "shard" ++ ".sha256"]

def shard_checksum_hex (P : Primitives) (data : Bytes) : String := hex_encode (P.sha256 data)

def write_checksum_sidecar (P : Primitives) (shard_file : OsPath) (data : Bytes) : Prog World ShardError Unit := do
  let sidecar := checksum_sidecar shard_file
  Prog.mapError .io (Fs.create_dir_all (parent_dir sidecar))
  let digest := shard_checksum_hex P data
  Prog.mapError .io (Fs.write sidecar (.bytes (utf8 (digest ++ "\n"))))

/-- What `write_shard` does once it has the path. -/
def store_shard (P : Primitives) (path : OsPath) (data : Bytes) : Prog World ShardError Unit := do
  Prog.mapError .io (Fs.create_dir_all (parent_dir path))
  Prog.mapError .io (Fs.write path (.bytes data))
  write_checksum_sidecar P path data

def write_shard (P : Primitives) (nodes : Nodes) (placement : EcShardPlacement) (shard_index : Nat) (data : Bytes) :
    Prog World ShardError Unit := do
  let owner ← Prog.lift (owner_of placement shard_index)
  let root ← Prog.lift (data_root_of nodes owner)
  store_shard P (shard_path root placement.bucket placement.key shard_index) data

/-- What `read_shard` does once it has the owner and the path: a shard that its owner does not have is asked of the others. -/
def load_shard (nodes : Nodes) (placement : EcShardPlacement) (shard_index : Nat) (owner : String) (path : OsPath) :
    Prog World ShardError Content := fun w =>
  match Fs.readAt w.tree path with
  | .ok c => (.ok c,w)
  | .error .NotFound =>
    let found := nodes.entries.findSome? fun (id,peer) =>
      if id = owner then none
      else (Fs.readAt w.tree (shard_path peer placement.bucket placement.key shard_index)).toOption
    match found with
    | some c => (.ok c,w)
    | none => (.error (.io (.os .NotFound)),w)
  | .error kind => (.error (.io (.os kind)),w)

def read_shard (nodes : Nodes) (placement : EcShardPlacement) (shard_index : Nat) : Prog World ShardError Content := do
  let owner ← Prog.lift (owner_of placement shard_index)
  let root ← Prog.lift (data_root_of nodes owner)
  load_shard nodes placement shard_index owner (shard_path root placement.bucket placement.key shard_index)

/-! ### Round robin -/

/-- How many shards a node owns. -/
def shards_on (placement : EcShardPlacement) (node : String) : Nat := placement.placements.countP (·.2 == node)

/-- How many shards are on nodes that are lost. -/
def lost_shards (placement : EcShardPlacement) (lost : Finset String) : Nat :=
  placement.placements.countP fun entry => decide (entry.2 ∈ lost)

theorem countP_range_eq_count (p : Nat → Prop) [DecidablePred p] (n : Nat) :
    (List.range n).countP (fun i => decide (p i)) = n.count p := by
  induction n with
  | zero => rfl
  | succ n ih => rw [List.range_succ,List.countP_append,ih,Nat.count_succ,List.countP_singleton]; simp

/-- Of the numbers below `total`, as many leave one remainder as another, but for one. -/
theorem count_mod {n total j : Nat} (less : j < n) :
    (List.range total).countP (fun i => decide (i % n = j)) = total / n + if j < total % n then 1 else 0 := by
  have same : ∀ i, (i % n = j) = (i ≡ j [MOD n]) := fun i => by rw [Nat.ModEq,Nat.mod_eq_of_lt less]
  rw [countP_range_eq_count]
  simp only [same]
  rw [Nat.count_modEq_card total (Nat.zero_lt_of_lt less) j,Nat.mod_eq_of_lt less]

/-- The node whose turn it is. -/
def turn (node_ids : List String) (i : Nat) : String := node_ids.getD (i % node_ids.length) ""

/-- The placement that goes round the nodes. -/
def round_robin (bucket key : String) (k m : Nat) (node_ids : List String) : EcShardPlacement :=
  ⟨bucket,key,k,m,(List.range (k + m)).map fun i => (i,turn node_ids i)⟩

section
variable {bucket key : String} {k m : Nat} {node_ids : List String}

theorem turn_lt (nonempty : node_ids ≠ []) (i : Nat) : i % node_ids.length < node_ids.length :=
  Nat.mod_lt i (List.length_pos_of_ne_nil nonempty)

theorem turn_eq (nonempty : node_ids ≠ []) (i : Nat) : node_ids[i % node_ids.length]? = some (turn node_ids i) := by
  rw [turn,List.getD_eq_getElem?_getD,List.getElem?_eq_getElem (turn_lt nonempty i),Option.getD_some]

theorem place_shards_eq (nonempty : node_ids ≠ []) (small : k + m < 2 ^ 32) :
    place_shards bucket key k m node_ids = some (round_robin bucket key k m node_ids) := by
  have step : (fun shard => do
      let node ← node_ids[shard % node_ids.length]?
      pure (shard,node)) = fun shard => (pure (shard,turn node_ids shard) : Option (Nat × String)) := by
    funext shard
    rw [turn_eq nonempty]
    rfl
  simp only [place_shards,Nat.mod_eq_of_lt small,step,List.mapM_pure]
  rfl

theorem turn_mem (nonempty : node_ids ≠ []) (i : Nat) : turn node_ids i ∈ node_ids :=
  List.mem_of_getElem? (turn_eq nonempty i)

/-- It is the turn of a node where the index leaves the node's place as remainder. -/
theorem turn_eq_iff (distinct : node_ids.Nodup) {j : Nat} (less : j < node_ids.length) (i : Nat) :
    turn node_ids i = node_ids[j] ↔ i % node_ids.length = j := by
  have nonempty : node_ids ≠ [] := List.ne_nil_of_length_pos (Nat.zero_lt_of_lt less)
  have place := turn_eq nonempty i
  rw [List.getElem?_eq_getElem (turn_lt nonempty i),Option.some.injEq] at place
  rw [← place]
  exact distinct.getElem_inj_iff

theorem shards_on_turn (distinct : node_ids.Nodup) {j : Nat} (less : j < node_ids.length) :
    shards_on (round_robin bucket key k m node_ids) node_ids[j] =
      (k + m) / node_ids.length + if j < (k + m) % node_ids.length then 1 else 0 := by
  rw [shards_on,round_robin,List.countP_map,← count_mod less]
  apply List.countP_congr
  intro i _
  simp [turn_eq_iff distinct less]

/-- Two nodes differ in their shards by one at most. -/
theorem shards_balanced (distinct : node_ids.Nodup) {a b : String} (in_a : a ∈ node_ids) (in_b : b ∈ node_ids) :
    shards_on (round_robin bucket key k m node_ids) a ≤ shards_on (round_robin bucket key k m node_ids) b + 1 := by
  obtain ⟨i,less,rfl⟩ := List.mem_iff_getElem.mp in_a
  obtain ⟨j,less',rfl⟩ := List.mem_iff_getElem.mp in_b
  rw [shards_on_turn distinct less,shards_on_turn distinct less']
  split <;> split <;> omega

/-- No node has more than its share, rounded up. -/
theorem shards_on_le (nonempty : node_ids ≠ []) (distinct : node_ids.Nodup) (node : String) :
    shards_on (round_robin bucket key k m node_ids) node ≤ (k + m + node_ids.length - 1) / node_ids.length := by
  have positive := List.length_pos_of_ne_nil nonempty
  by_cases member : node ∈ node_ids
  · obtain ⟨j,less,rfl⟩ := List.mem_iff_getElem.mp member
    rw [shards_on_turn distinct less]
    apply (Nat.le_div_iff_mul_le positive).mpr
    have parts := Nat.div_add_mod (k + m) node_ids.length
    rw [Nat.mul_comm] at parts
    split <;> rw [Nat.add_mul] <;> omega
  · have none : shards_on (round_robin bucket key k m node_ids) node = 0 := by
      rw [shards_on,List.countP_eq_zero]
      intro entry listed same
      obtain ⟨i,-,rfl⟩ := List.mem_map.mp listed
      rw [beq_iff_eq] at same
      exact member (same ▸ turn_mem nonempty i)
    rw [none]
    exact Nat.zero_le _

/-- Losing nodes loses what each of them had. -/
theorem lost_shards_le (placement : EcShardPlacement) {share : Nat} (few : ∀ node, shards_on placement node ≤ share)
    (lost : Finset String) : lost_shards placement lost ≤ lost.card * share := by
  induction lost using Finset.induction_on with
  | empty => simp [lost_shards]
  | insert node rest new ih =>
    have split : lost_shards placement (insert node rest) ≤ shards_on placement node + lost_shards placement rest := by
      rw [lost_shards,shards_on,lost_shards]
      induction placement.placements with
      | nil => simp
      | cons entry others step =>
        simp only [List.countP_cons,Finset.mem_insert] at step ⊢
        by_cases same : entry.2 = node <;> by_cases member : entry.2 ∈ rest <;> simp [same,member] at step ⊢ <;> omega
    rw [Finset.card_insert_of_notMem new,Nat.succ_mul]
    have := few node
    omega

theorem owner_of_turn (bucket key : String) (node_ids : List String) {i : Nat} (less : i < k + m) :
    owner_of (round_robin bucket key k m node_ids) i = .ok (turn node_ids i) := by
  have found : (List.range (k + m)).find? ((·.1 == i) ∘ fun j => (j,turn node_ids j)) = some i := by
    rw [List.find?_range_eq_some]
    refine ⟨by simp,by simpa using less,fun j before => ?_⟩
    have : j ≠ i := by omega
    simpa using this
  rw [owner_of,round_robin,List.find?_map,found]
  rfl

end

/-- Every index has one owner, no two nodes differ by more than one shard, so that losing nodes loses no more than the share
    of each, and writing and reading a shard both go to its owner. -/
theorem place_shards_balanced (P : Primitives) (bucket key : String) (k m : Nat) (node_ids : List String)
    (nonempty : node_ids ≠ []) (distinct : node_ids.Nodup) (small : k + m < 2 ^ 32) :
    ∃ placement, place_shards bucket key k m node_ids = some placement ∧
      (∀ i < k + m, ∃! node, (i,node) ∈ placement.placements) ∧
      placement.placements.map Prod.fst = List.range (k + m) ∧
      (∀ entry ∈ placement.placements, entry.2 ∈ node_ids) ∧
      (∀ a ∈ node_ids, ∀ b ∈ node_ids, shards_on placement a ≤ shards_on placement b + 1) ∧
      (∀ lost : Finset String,
        lost_shards placement lost ≤ lost.card * ((k + m + node_ids.length - 1) / node_ids.length)) ∧
      ∀ i node root nodes, (i,node) ∈ placement.placements → Nodes.get nodes node = some root →
        (∀ data, write_shard P nodes placement i data = store_shard P (shard_path root bucket key i) data) ∧
        read_shard nodes placement i = load_shard nodes placement i node (shard_path root bucket key i) := by
  refine ⟨round_robin bucket key k m node_ids,place_shards_eq nonempty small,?_,?_,?_,?_,?_,?_⟩
  · intro i less
    refine ⟨turn node_ids i,List.mem_map.mpr ⟨i,List.mem_range.mpr less,rfl⟩,?_⟩
    intro node listed
    obtain ⟨j,-,same⟩ := List.mem_map.mp listed
    cases same
    rfl
  · rw [round_robin,List.map_map]
    exact List.map_id _
  · intro entry listed
    obtain ⟨i,-,rfl⟩ := List.mem_map.mp listed
    exact turn_mem nonempty i
  · exact fun a in_a b in_b => shards_balanced distinct in_a in_b
  · exact lost_shards_le _ (shards_on_le nonempty distinct)
  · intro i node root nodes listed known
    obtain ⟨j,in_range,same⟩ := List.mem_map.mp listed
    cases same
    have owner := owner_of_turn bucket key node_ids (List.mem_range.mp in_range)
    have root_known : data_root_of nodes (turn node_ids i) = .ok root := by rw [data_root_of,known]
    constructor
    · intro data
      rw [write_shard,owner,Prog.lift_ok_bind,root_known,Prog.lift_ok_bind]
      rfl
    · rw [read_shard,owner,Prog.lift_ok_bind,root_known,Prog.lift_ok_bind]
      rfl

theorem place_shards_balanced_three_nodes :
    ∃ placement, place_shards "b" "k" 2 2 ["n1","n2","n3"] = some placement ∧
      (∀ i < 4, ∃! node, (i,node) ∈ placement.placements) ∧
      (∀ a ∈ ["n1","n2","n3"], ∀ b ∈ ["n1","n2","n3"], shards_on placement a ≤ shards_on placement b + 1) ∧
      (∀ lost : Finset String, lost_shards placement lost ≤ lost.card * 2) := by
  obtain ⟨placement,placed,owners,-,-,balanced,lost,-⟩ :=
    place_shards_balanced Sample.primitives "b" "k" 2 2 ["n1","n2","n3"] (by decide) (by decide) (by decide)
  exact ⟨placement,placed,owners,balanced,lost⟩

end Maxio.Cluster
