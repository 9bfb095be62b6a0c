import Maxio.AccessLogs

/-!
Shards that rot. A node that finds a digest of its own wrong rebuilds the shard from what it and its peers have: as long as
one shard of an object goes bad at a time, no scan makes another one bad, and a scan that reaches enough peers makes the bad
one good.
-/

set_option linter.unusedSimpArgs false

namespace Maxio.Cluster
open FileTree (Node Tree ErrorKind)

/-! ### Verifying -/

inductive HealError where
  | shard (e : ShardError)
  | invalid_data
  /-- `no peer shards available to heal shard {corrupt_index}` -/
  | no_peers (corrupt_index : Nat)
  /-- `RS init: {e}` -/
  | init (reason : String)
  /-- `shard index {idx} out of range` -/
  | out_of_range (idx : Nat)
  /-- `need at least {k} shards for reconstruction, have {available}` -/
  | too_few (k available : Nat)
  /-- `RS reconstruct: {e}` -/
  | rebuild (reason : String)
  /-- `reconstruction produced no shard {target}` -/
  | no_shard (target : Nat)

/-- Whether the bytes have the digest of the sidecar; a shard without a sidecar gets one. -/
def verify_shard_checksum (P : Primitives) (shard_file : OsPath) (data : Bytes) : Prog World HealError Bool := do
  match ← Prog.attempt (Fs.read (checksum_sidecar shard_file)) with
  | .ok c => match read_to_string (P.bytes c) with
    | some text =>
      let expected := to_ascii_lower (String.ofList (trim_white_space text.toList))
      pure (decide (shard_checksum_hex P data = expected))
    | none => Prog.fail .invalid_data
  | .error e =>
    if e.kind = .NotFound then do
      Prog.mapError .shard (write_checksum_sidecar P shard_file data)
      pure true
    else Prog.fail (.shard (.io e))

/-! ### Rebuilding -/

/-- The shards at their places, filled up with zeros to the common size. -/
def place_present (total shard_size : Nat) : List (Nat × Bytes) → List (Option Bytes) → Except HealError (List (Option Bytes))
  | [],shards => .ok shards
  | (idx,data) :: rest,shards =>
    if total ≤ idx then .error (.out_of_range idx)
    else place_present total shard_size rest (shards.set idx (some (resize data shard_size)))

def reconstruct_shard (P : Primitives) (data_shards parity_shards shard_size : Nat) (present : List (Nat × Bytes))
    (target : Nat) : Except HealError Bytes := do
  (P.rs_new data_shards parity_shards).mapError HealError.init
  let total := data_shards + parity_shards
  let shards ← place_present total shard_size present (List.replicate total none)
  let available := shards.countP Option.isSome
  if available < data_shards then .error (.too_few data_shards available)
  else do
    let shards ← (P.rs_reconstruct data_shards parity_shards shards).mapError HealError.rebuild
    -- a target beyond the shards is an index out of bounds in the source
    match shards[target]? with
    | some (some shard) => .ok shard
    | _ => .error (.no_shard target)

section Gathering
variable (P : Primitives) (net : Text → Option Bytes) (data_root : OsPath) (placement : EcShardPlacement)
  (local_node_id : String) (peer_urls : Nat → Option Text) (nodes : Option Nodes)

/-- The body of a successful answer to the request. -/
def fetch_shard_http (peer_base_url : Text) (bucket key : String) (shard_index : Nat) : Option Bytes :=
  net (shard_url peer_base_url bucket.toList key.toList shard_index)

/-- A shard of the node itself. -/
def local_shard (idx : Nat) (owner : String) : Prog World HealError (Option Bytes) := do
  if owner = local_node_id then
    match ← Prog.attempt (Fs.read (shard_path data_root placement.bucket placement.key idx)) with
    | .ok c => pure (some (P.bytes c))
    | .error _ => pure none
  else pure none

/-- A shard that the storage of some node at hand has. -/
def node_shard (idx : Nat) : Prog World HealError (Option Bytes) := do
  match nodes with
  | some map => match ← Prog.attempt (read_shard map placement idx) with
    | .ok c => pure (some (P.bytes c))
    | .error _ => pure none
  | none => pure none

/-- A shard that its owner sends. -/
def peer_shard (idx : Nat) (owner : String) : Option Bytes := do
  let node_id ← parseUnsigned (2 ^ 64 - 1) owner
  let base ← peer_urls node_id
  fetch_shard_http net base placement.bucket placement.key idx

def gather_shard (idx : Nat) (owner : String) : Prog World HealError (Option Bytes) := do
  match ← local_shard P data_root placement local_node_id idx owner with
  | some data => pure (some data)
  | none => match ← node_shard P placement nodes idx with
    | some data => pure (some data)
    | none => pure (peer_shard net placement peer_urls idx owner)

def gather_shards (skip_index : Option Nat) : Prog World HealError (List (Nat × Bytes)) :=
  Prog.fold (fun present entry =>
    if skip_index = some entry.1 then pure present
    else do
      let found ← gather_shard P net data_root placement local_node_id peer_urls nodes entry.1 entry.2
      pure (present ++ (found.map fun data => (entry.1,data)).toList)) [] placement.placements

def shard_size_from_present (present : List (Nat × Bytes)) : Nat := (present.map fun entry => entry.2.length).foldl max 0

def heal_local_shard (corrupt_index : Nat) : Prog World HealError Unit := do
  let present ← gather_shards P net data_root placement local_node_id peer_urls nodes (some corrupt_index)
  let shard_size := shard_size_from_present present
  if shard_size = 0 then Prog.fail (.no_peers corrupt_index)
  else do
    let rebuilt ← Prog.lift (reconstruct_shard P placement.data_shards placement.parity_shards shard_size present corrupt_index)
    Prog.mapError .shard (store_shard P (shard_path data_root placement.bucket placement.key corrupt_index) rebuilt)

end Gathering

/-! ### Scanning -/

structure BitrotMetrics where
  shards_scanned : Nat
  corrupt_detected : Nat
  shards_healed : Nat
  scan_errors : Nat
deriving DecidableEq

section Scanning
variable (P : Primitives) (net : Text → Option Bytes) (data_root : OsPath) (local_node_id : String)
  (peer_urls : Nat → Option Text) (nodes : Option Nodes)

/-- Heal a shard whose digest is wrong. -/
def heal_detected (placement : EcShardPlacement) (metrics : BitrotMetrics) (idx : Nat) : Prog World HealError BitrotMetrics := do
  match ← Prog.attempt (heal_local_shard P net data_root placement local_node_id peer_urls nodes idx) with
  | .ok _ => pure { metrics with shards_healed := metrics.shards_healed + 1 }
  | .error _ => pure { metrics with scan_errors := metrics.scan_errors + 1 }

def verify_detected (placement : EcShardPlacement) (metrics : BitrotMetrics) (idx : Nat) (data : Bytes) :
    Prog World HealError BitrotMetrics := do
  match ← Prog.attempt (verify_shard_checksum P (shard_path data_root placement.bucket placement.key idx) data) with
  | .ok true => pure metrics
  | .ok false => do
    let metrics := { metrics with corrupt_detected := metrics.corrupt_detected + 1 }
    heal_detected P net data_root local_node_id peer_urls nodes placement metrics idx
  | .error _ => pure { metrics with scan_errors := metrics.scan_errors + 1 }

def scan_shard (placement : EcShardPlacement) (metrics : BitrotMetrics) (idx : Nat) : Prog World HealError BitrotMetrics := do
  match ← Prog.attempt (Fs.read (shard_path data_root placement.bucket placement.key idx)) with
  | .error _ => pure { metrics with scan_errors := metrics.scan_errors + 1 }
  | .ok c => do
    let metrics := { metrics with shards_scanned := metrics.shards_scanned + 1 }
    verify_detected P net data_root local_node_id peer_urls nodes placement metrics idx (P.bytes c)

def scan_placement (metrics : BitrotMetrics) (placement : EcShardPlacement) : Prog World HealError BitrotMetrics :=
  Prog.fold (fun metrics entry =>
    if entry.2 ≠ local_node_id then pure metrics
    else scan_shard P net data_root local_node_id peer_urls nodes placement metrics entry.1) metrics placement.placements

def scan_placements (placements : List EcShardPlacement) (metrics : BitrotMetrics) : Prog World HealError BitrotMetrics :=
  Prog.fold (scan_placement P net data_root local_node_id peer_urls nodes) metrics placements

end Scanning

/-! ### Digests -/

theorem hexChars_plain (data : Bytes) : ∀ c ∈ hexChars data, is_white_space c = false ∧ c.toLower = c := by
  have digit : ∀ n < 16, is_white_space (hexDigit n) = false ∧ (hexDigit n).toLower = hexDigit n := by decide
  induction data with
  | nil => simp [hexChars]
  | cons b rest ih =>
    intro c member
    have byte := b.toNat_lt
    rcases List.mem_cons.mp member with rfl | member
    · exact digit _ (by omega)
    rcases List.mem_cons.mp member with rfl | member
    · exact digit _ (Nat.mod_lt _ (by decide))
    · exact ih c member

theorem dropWhile_plain {t : Text} (plain : ∀ c ∈ t, is_white_space c = false) : t.dropWhile is_white_space = t := by
  cases t with
  | nil => rfl
  | cons c rest => rw [List.dropWhile_cons_of_neg (by simp [plain c (by simp)])]

theorem trim_line {t : Text} (plain : ∀ c ∈ t, is_white_space c = false) : trim_white_space (t ++ ['\n']) = t := by
  have blank : is_white_space '\n' = true := by decide
  have front : (t ++ ['\n']).dropWhile is_white_space = if t = [] then [] else t ++ ['\n'] := by
    cases t with
    | nil => simp [blank]
    | cons c rest => rw [List.cons_append,List.dropWhile_cons_of_neg (by simp [plain c (by simp)])]; rfl
  unfold trim_white_space
  rw [front]
  by_cases empty : t = []
  · simp [empty]
  · have reversed : ∀ c ∈ t.reverse, is_white_space c = false := fun c member => plain c (List.mem_reverse.mp member)
    rw [if_neg empty,List.reverse_append,List.reverse_singleton,List.singleton_append,
      List.dropWhile_cons_of_pos (by simpa using blank),dropWhile_plain reversed,List.reverse_reverse]

/-- The line of a sidecar is read back as the digest. -/
theorem sidecar_text (P : Primitives) (data : Bytes) :
    to_ascii_lower (String.ofList (trim_white_space (shard_checksum_hex P data ++ "\n").toList)) = shard_checksum_hex P data := by
  have plain := hexChars_plain (P.sha256 data)
  have chars : (shard_checksum_hex P data).toList = hexChars (P.sha256 data) := by
    rw [shard_checksum_hex,hex_encode,String.toList_ofList]
  rw [String.toList_append,chars,show "\n".toList = ['\n'] from rfl,trim_line fun c member => (plain c member).1,to_ascii_lower,
    String.toList_ofList,List.map_congr_left (g := id) fun c member => (plain c member).2,List.map_id,← chars,String.ofList_toList]

/-! ### Rebuilding -/

/-- The shards of an object as they were made, and the nodes that own them. -/
structure Stripe (P : Primitives) (placement : EcShardPlacement) (owner : Nat → Nat) (size : Nat) (shards : List Bytes) :
    Prop where
  count : shards.length = placement.data_shards + placement.parity_shards
  data : 0 < placement.data_shards
  positive : 0 < size
  sized : ∀ shard ∈ shards, shard.length = size
  ready : P.rs_new placement.data_shards placement.parity_shards = .ok ()
  encoded : P.rs_encode placement.data_shards placement.parity_shards (shards.take placement.data_shards) =
    .ok (shards.drop placement.data_shards)
  placed : placement.placements = (List.range shards.length).map fun i => (i,toString (owner i))
  few : shards.length < 2 ^ 32
  ids : ∀ i < shards.length, owner i < 2 ^ 64

section Rebuilding
variable {P : Primitives} {shards : List Bytes} {size : Nat}

theorem place_present_done {present : List (Nat × Bytes)} (genuine : ∀ entry ∈ present, shards[entry.1]? = some entry.2)
    (sized : ∀ shard ∈ shards, shard.length = size) (start : List (Option Bytes)) (long : start.length = shards.length) :
    ∃ placed, place_present shards.length size present start = .ok placed ∧ placed.length = shards.length ∧
      ∀ i, placed[i]? = if i ∈ present.map Prod.fst then shards[i]?.map some else start[i]? := by
  induction present generalizing start with
  | nil => exact ⟨start,rfl,long,by simp⟩
  | cons entry rest ih =>
    have here := genuine entry (by simp)
    have inside : entry.1 < shards.length := (List.getElem?_eq_some_iff.mp here).1
    obtain ⟨placed,done,length,at'⟩ := ih (fun e member => genuine e (by simp [member]))
      (start.set entry.1 (some (resize entry.2 size))) (by simpa using long)
    refine ⟨placed,?_,length,fun i => ?_⟩
    · rw [place_present,if_neg (by omega),done]
    · rw [at']
      by_cases later : i ∈ rest.map Prod.fst
      · simp [later]
      · by_cases same : i = entry.1
        · subst same
          rw [resize_of_length (sized _ (List.mem_of_getElem? here))]
          simp [later,here,List.getElem?_set_self (show entry.1 < start.length by omega)]
        · simp [later,same,List.getElem?_set_ne (Ne.symm same)]

theorem countP_getElem? {α : Type} (items : List (Option α)) :
    items.countP Option.isSome = (List.range items.length).countP fun i => (items[i]?).join.isSome := by
  have spelled : items = (List.range items.length).map fun i => (items[i]?).join := by
    refine List.ext_getElem (by simp) fun i less less' => ?_
    simp [List.getElem?_eq_getElem less]
  conv_lhs => rw [spelled]
  rw [List.countP_map]
  rfl

/-- Rebuilt from shards as they were made a shard is as it was made; and it is rebuilt when there are enough. -/
theorem Stripe.reconstructs (mds : P.Mds) {placement : EcShardPlacement} {owner : Nat → Nat}
    (stripe : Stripe P placement owner size shards) {present : List (Nat × Bytes)}
    (genuine : ∀ entry ∈ present, shards[entry.1]? = some entry.2) {target : Nat} (inside : target < shards.length) :
    (∀ shard, reconstruct_shard P placement.data_shards placement.parity_shards size present target = .ok shard →
      shards[target]? = some shard) ∧
    (placement.data_shards ≤ (List.range shards.length).countP (fun i => decide (i ∈ present.map Prod.fst)) →
      ∃ shard, reconstruct_shard P placement.data_shards placement.parity_shards size present target = .ok shard) := by
  obtain ⟨placed,done,length,at'⟩ := place_present_done genuine stripe.sized
    (List.replicate shards.length none) (by simp)
  have here (i : Nat) (less : i < shards.length) : placed[i]? = if i ∈ present.map Prod.fst then some (shards[i]?) else some none := by
    rw [at']
    by_cases member : i ∈ present.map Prod.fst
    · simp [member,List.getElem?_eq_getElem less]
    · simp [member,less]
  have available : placed.countP Option.isSome =
      (List.range shards.length).countP fun i => decide (i ∈ present.map Prod.fst) := by
    rw [countP_getElem?,length]
    refine List.countP_congr fun i member => ?_
    have less := List.mem_range.mp member
    rw [here i less]
    by_cases found : i ∈ present.map Prod.fst
    · simp [found,List.getElem?_eq_getElem less]
    · simp [found]
  have whole : shards.take placement.data_shards ++ shards.drop placement.data_shards = shards := List.take_append_drop _ _
  have recovered (enough : placement.data_shards ≤ placed.countP Option.isSome) :
      P.rs_reconstruct placement.data_shards placement.parity_shards placed = .ok (shards.map some) := by
    have recovers := mds.recovers placement.data_shards placement.parity_shards size _ _ placed
      (by rw [List.length_take,stripe.count]; omega) (fun shard member => stripe.sized shard (List.mem_of_mem_take member))
      stripe.encoded (by rw [length,stripe.count]) (fun i shard found => ?_) enough
    · rwa [whole] at recovers
    · rw [whole]
      have less : i < shards.length := length ▸ (List.getElem?_eq_some_iff.mp found).1
      rw [here i less] at found
      split at found
      next => simpa using found
      next => simp at found
  have total : placement.data_shards + placement.parity_shards = shards.length := stripe.count.symm
  by_cases few : placed.countP Option.isSome < placement.data_shards
  · have failed : reconstruct_shard P placement.data_shards placement.parity_shards size present target =
        .error (.too_few placement.data_shards (placed.countP Option.isSome)) := by
      rw [reconstruct_shard,stripe.ready,total]
      simp only [Except.mapError,bind,Except.bind,done]
      rw [if_pos few]
    refine ⟨fun shard rebuilt => ?_,fun enough => ?_⟩
    · rw [failed] at rebuilt
      cases rebuilt
    · omega
  · have rebuilt : reconstruct_shard P placement.data_shards placement.parity_shards size present target =
        .ok shards[target] := by
      rw [reconstruct_shard,stripe.ready,total]
      simp only [Except.mapError,bind,Except.bind,done]
      rw [if_neg few,recovered (by omega)]
      simp [List.getElem?_eq_getElem inside]
    refine ⟨fun shard same => ?_,fun _ => ⟨_,rebuilt⟩⟩
    rw [rebuilt] at same
    cases same
    exact List.getElem?_eq_getElem inside

end Rebuilding

/-! ### Shards on disk -/

/-- Where a node keeps the shards of a key. -/
def shardsHome (root : OsPath) (bucket key : String) : OsPath := base (root ++ [".cluster-shards"]) bucket ++ names key

def sideName (i : Nat) : String := chunk_name i ++ ".sha256"

theorem sideName_ne (i j : Nat) : sideName i ≠ chunk_name j := by
  intro same
  have dot : '.' ∈ (chunk_name j).toList := by
    rw [← same,sideName,String.toList_append]
    exact List.mem_append_right _ (by decide)
  exact absurd (chunk_name_digits j _ dot) (by decide)

theorem sideName_injective {i j : Nat} (same : sideName i = sideName j) : i = j := by
  have chars := congrArg String.toList same
  rw [sideName,sideName,String.toList_append,String.toList_append] at chars
  exact chunk_name_injective (String.toList_inj.mp (List.append_cancel_right chars))

section Places
variable {root : OsPath} {bucket key : String} (plain : PlainDir root) (accepted : Accepted bucket key)
include plain accepted

theorem shardsHome_plain : PlainDir (shardsHome root bucket key) := by
  have within : PlainDir (root ++ [".cluster-shards"]) := by
    refine plain.append fun s member => ?_
    rw [List.mem_singleton.mp member]
    decide
  exact (plain_base within accepted.validBucket).append (plainDir_canon accepted.validKey.ahead)

/-- The directory of the shards as it is spelled. -/
theorem shard_path_eq (i : Nat) : ∃ dir, Forward dir ∧ canon dir = shardsHome root bucket key ∧
    shard_path root bucket key i = dir ++ [chunk_name i] := by
  have within : PlainDir (root ++ [".cluster-shards"]) := by
    refine plain.append fun s member => ?_
    rw [List.mem_singleton.mp member]
    decide
  refine ⟨base (root ++ [".cluster-shards"]) bucket ++ split key '/',?_,?_,?_⟩
  · exact (forward_base within accepted.validBucket).append accepted.validKey.ahead
  · rw [canon_append,canon_base within accepted.validBucket]
    rfl
  · have shards : join root ".cluster-shards" = root ++ [".cluster-shards"] := join_name (by decide)
    have last : ∀ dir, join dir (padded 10 6 i) = dir ++ [chunk_name i] := fun dir => join_name (chunk_name_slash i)
    rw [shard_path,last,shards,join_name accepted.validBucket.slash,join_relative accepted.validKey.relative]
    rfl

theorem shard_leads (i : Nat) : Leads (shard_path root bucket key i) (shardsHome root bucket key) (chunk_name i) := by
  obtain ⟨dir,forward,spelled,path⟩ := shard_path_eq plain accepted i
  rw [path,← spelled]
  exact leads_concat forward (chunk_name_kept i).1 (chunk_name_kept i).2

theorem side_leads (i : Nat) :
    Leads (checksum_sidecar (shard_path root bucket key i)) (shardsHome root bucket key) (sideName i) := by
  obtain ⟨dir,forward,spelled,path⟩ := shard_path_eq plain accepted i
  have side : checksum_sidecar (dir ++ [chunk_name i]) = dir ++ [sideName i] := by simp [checksum_sidecar,sideName]
  rw [path,side,← spelled]
  exact leads_concat forward (skipped_append (by decide)) (append_ne_dots (by decide))

end Places

/-- The sidecar of a shard has the digest it was made with, and no other bytes in its file have that digest. -/
structure Marked (P : Primitives) (root : OsPath) (bucket key : String) (i : Nat) (good : Bytes) (w : World) : Prop where
  side : w.tree.node (shardsHome root bucket key ++ [sideName i]) =
    some (.file (.bytes (utf8 (shard_checksum_hex P good ++ "\n"))))
  file : ∃ c, w.tree.node (shardsHome root bucket key ++ [chunk_name i]) = some (.file c) ∧
    (P.sha256 (P.bytes c) = P.sha256 good → P.bytes c = good)

/-- The file of a shard holds it as it was made. -/
def Healthy (P : Primitives) (root : OsPath) (bucket key : String) (i : Nat) (good : Bytes) (w : World) : Prop :=
  ∃ c, w.tree.node (shardsHome root bucket key ++ [chunk_name i]) = some (.file c) ∧ P.bytes c = good

section Disk
variable {P : Primitives} {root : OsPath} {bucket key : String} {i : Nat} {good : Bytes} {w w' : World}
  (plain : PlainDir root) (accepted : Accepted bucket key)
include plain accepted

theorem Marked.verifies (marked : Marked P root bucket key i good w) (data : Bytes) :
    verify_shard_checksum P (shard_path root bucket key i) data w = (.ok (decide (P.sha256 data = P.sha256 good)),w) := by
  have read := Fs.read_file (side_leads plain accepted i) marked.side
  have text : read_to_string (P.bytes (.bytes (utf8 (shard_checksum_hex P good ++ "\n")))) =
      some (shard_checksum_hex P good ++ "\n") := read_to_string_utf8 _
  unfold verify_shard_checksum
  rw [Prog.bind_of_ok (attempt_ok_iff.mpr read)]
  dsimp only
  rw [text]
  dsimp only
  rw [sidecar_text]
  have same : (shard_checksum_hex P data = shard_checksum_hex P good) ↔ P.sha256 data = P.sha256 good :=
    hex_encode_injective.eq_iff
  simp only [same]
  rfl

/-- Storing a shard in its directory replaces its two files and nothing else. -/
theorem store_shard_done (marked : Marked P root bucket key i good w) :
    ∃ w', store_shard P (shard_path root bucket key i) good w = (.ok (),w') ∧
      ∀ q, w'.tree.node q = if q = shardsHome root bucket key ++ [chunk_name i] then some (.file (.bytes good))
        else w.tree.node q := by
  have leads := shard_leads plain accepted i
  have leads' := side_leads plain accepted i
  have dir := shardsHome_plain plain accepted
  have nonroot : shardsHome root bucket key ≠ [] := by simp [shardsHome,base]
  have here : w.tree.node (shardsHome root bucket key) = some .dir :=
    w.tree.dir_of_prefix (List.prefix_append _ [sideName i]) (by simp) (by simp [marked.side])
  obtain ⟨c,file,_⟩ := marked.file
  obtain ⟨w₁,made⟩ := Fs.create_dir_all_again dir nonroot here
  have same₁ := Fs.create_dir_all_present dir nonroot here made
  obtain ⟨w₂,written⟩ := Fs.write_succeeds (w := w₁) leads (by rw [same₁,here]) (by rw [same₁,file]; simp) (.bytes good)
  obtain ⟨sets,_⟩ := Fs.write_done leads written
  have here₂ : w₂.tree.node (shardsHome root bucket key) = some .dir := by
    rw [sets.other fun same => absurd (congrArg List.length same) (by simp),same₁,here]
  have side₂ : w₂.tree.node (shardsHome root bucket key ++ [sideName i]) =
      some (.file (.bytes (utf8 (shard_checksum_hex P good ++ "\n")))) := by
    rw [sets.other (by simpa using sideName_ne i i),same₁,marked.side]
  obtain ⟨w₃,again⟩ := Fs.create_dir_all_again dir nonroot here₂
  have same₃ := Fs.create_dir_all_present dir nonroot here₂ again
  obtain ⟨w₄,sidecar⟩ := Fs.write_succeeds (w := w₃) leads' (by rw [same₃,here₂]) (by rw [same₃,side₂]; simp)
    (.bytes (utf8 (shard_checksum_hex P good ++ "\n")))
  obtain ⟨sets',_⟩ := Fs.write_done leads' sidecar
  refine ⟨w₄,?_,fun q => ?_⟩
  · unfold store_shard write_checksum_sidecar
    dsimp only
    rw [leads.parent,leads'.parent,Prog.bind_of_ok (Prog.mapError_ok_iff.mpr made),
      Prog.bind_of_ok (Prog.mapError_ok_iff.mpr written),Prog.bind_of_ok (Prog.mapError_ok_iff.mpr again)]
    exact Prog.mapError_ok_iff.mpr sidecar
  · rw [sets'.tree,same₃,sets.tree,same₁]
    by_cases side : q = shardsHome root bucket key ++ [sideName i]
    · subst side
      rw [if_pos rfl,if_neg (by simpa using sideName_ne i i),marked.side]
    · rw [if_neg side]

end Disk

/-! ### Gathering -/

/-- What the scanner finds of a shard: its own file, or what a peer sends. -/
def found (P : Primitives) (net : Text → Option Bytes) (root : OsPath) (placement : EcShardPlacement) (local_node_id : String)
    (peer_urls : Nat → Option Text) (w : World) (entry : Nat × String) : Option Bytes :=
  ((if entry.2 = local_node_id then (Fs.readAt w.tree (shard_path root placement.bucket placement.key entry.1)).toOption
    else none).map P.bytes).or (peer_shard net placement peer_urls entry.1 entry.2)

section Gathered
variable {P : Primitives} {net : Text → Option Bytes} {root : OsPath} {placement : EcShardPlacement} {local_node_id : String}
  {peer_urls : Nat → Option Text} {w : World}

theorem local_shard_eq (idx : Nat) (owner : String) : local_shard P root placement local_node_id idx owner w =
    (.ok ((if owner = local_node_id then (Fs.readAt w.tree (shard_path root placement.bucket placement.key idx)).toOption
      else none).map P.bytes),w) := by
  have looked : (Prog.attempt (Fs.read (shard_path root placement.bucket placement.key idx)) :
      Prog World HealError (Except IoError Content)) w =
        (.ok ((Fs.readAt w.tree (shard_path root placement.bucket placement.key idx)).mapError .os),w) := by
    rw [Prog.attempt_apply,Fs.read,Fs.observe]
  unfold local_shard
  by_cases mine : owner = local_node_id
  · rw [if_pos mine,if_pos mine,Prog.bind_of_ok looked]
    generalize Fs.readAt w.tree (shard_path root placement.bucket placement.key idx) = read
    cases read <;> rfl
  · rw [if_neg mine,if_neg mine]
    rfl

theorem gather_shard_eq (idx : Nat) (owner : String) : gather_shard P net root placement local_node_id peer_urls none idx owner w =
    (.ok (found P net root placement local_node_id peer_urls w (idx,owner)),w) := by
  unfold gather_shard
  rw [Prog.bind_of_ok (local_shard_eq idx owner)]
  unfold found
  dsimp only
  cases (if owner = local_node_id then (Fs.readAt w.tree (shard_path root placement.bucket placement.key idx)).toOption
      else none).map P.bytes with
  | some data => rfl
  | none => rfl

theorem gather_shards_eq (skip : Nat) : gather_shards P net root placement local_node_id peer_urls none (some skip) w =
    (.ok (placement.placements.filterMap fun entry => if skip = entry.1 then none
      else (found P net root placement local_node_id peer_urls w entry).map fun data => (entry.1,data)),w) := by
  have all : ∀ (entries : List (Nat × String)) (present : List (Nat × Bytes)), Prog.fold (fun present entry =>
      if some skip = some entry.1 then (pure present : Prog World HealError (List (Nat × Bytes)))
      else do
        let found ← gather_shard P net root placement local_node_id peer_urls none entry.1 entry.2
        pure (present ++ (found.map fun data => (entry.1,data)).toList)) present entries w =
      (.ok (present ++ entries.filterMap fun entry => if skip = entry.1 then none
        else (found P net root placement local_node_id peer_urls w entry).map fun data => (entry.1,data)),w) := by
    intro entries
    induction entries with
    | nil =>
      intro present
      simp [Prog.fold]
    | cons entry rest ih =>
      intro present
      by_cases skipped : skip = entry.1
      · rw [Prog.fold,if_pos (by rw [skipped]),Prog.pure_bind,ih,List.filterMap_cons_none (by simp [skipped])]
      · rw [Prog.fold,if_neg (by simpa using skipped)]
        rw [Prog.bind_assoc,Prog.bind_of_ok (gather_shard_eq entry.1 entry.2),Prog.pure_bind,ih]
        cases here : found P net root placement local_node_id peer_urls w entry with
        | none => simp [skipped,here]
        | some data => simp [skipped,here]
  unfold gather_shards
  rw [all,List.nil_append]

/-- What each node has is what it was given, but for one shard. -/
structure Truthful (P : Primitives) (net : Text → Option Bytes) (root : OsPath) (placement : EcShardPlacement)
    (owner : Nat → Nat) (n : Nat) (peer_urls : Nat → Option Text) (shards : List Bytes) (bad : Nat) (w : World) : Prop where
  own : ∀ i good, shards[i]? = some good → owner i = n → i ≠ bad →
    Healthy P root placement.bucket placement.key i good w
  sent : ∀ i good data, shards[i]? = some good → owner i ≠ n → i ≠ bad →
    peer_shard net placement peer_urls i (toString (owner i)) = some data → data = good

variable {owner : Nat → Nat} {n size bad : Nat} {shards : List Bytes}

theorem Truthful.found_good (plain : PlainDir root) (accepted : Accepted placement.bucket placement.key)
    (truthful : Truthful P net root placement owner n peer_urls shards bad w) {i : Nat} {good data : Bytes}
    (here : shards[i]? = some good) (other : i ≠ bad)
    (got : found P net root placement (toString n) peer_urls w (i,toString (owner i)) = some data) : data = good := by
  unfold found at got
  by_cases mine : owner i = n
  · obtain ⟨c,file,rfl⟩ := truthful.own i good here mine other
    rw [if_pos (by rw [mine]),Fs.readAt_leads (shard_leads plain accepted i)] at got
    simpa [Tree.read,file,Except.toOption] using got.symm
  · have apart : toString (owner i) ≠ toString n := fun same => mine (number_injective same)
    rw [if_neg apart] at got
    exact truthful.sent i good data here mine other got

theorem Truthful.found_own (plain : PlainDir root) (accepted : Accepted placement.bucket placement.key)
    (truthful : Truthful P net root placement owner n peer_urls shards bad w) {i : Nat} (less : i < shards.length)
    (mine : owner i = n) (other : i ≠ bad) :
    (found P net root placement (toString n) peer_urls w (i,toString (owner i))).isSome := by
  obtain ⟨c,file,_⟩ := truthful.own i shards[i] (List.getElem?_eq_getElem less) mine other
  unfold found
  rw [if_pos (by rw [mine]),Fs.readAt_leads (shard_leads plain accepted i)]
  simp [Tree.read,file,Except.toOption]

/-- The shards of others that a node gets hold of. -/
def Reached (net : Text → Option Bytes) (placement : EcShardPlacement) (owner : Nat → Nat) (n : Nat)
    (peer_urls : Nat → Option Text) (bad : Nat) (i : Nat) : Bool :=
  decide (i ≠ bad) && (decide (owner i = n) || (peer_shard net placement peer_urls i (toString (owner i))).isSome)

theorem Truthful.gathered (plain : PlainDir root) (accepted : Accepted placement.bucket placement.key)
    (stripe : Stripe P placement owner size shards)
    (truthful : Truthful P net root placement owner n peer_urls shards bad w) :
    ∃ present, gather_shards P net root placement (toString n) peer_urls none (some bad) w = (.ok present,w) ∧
      (∀ entry ∈ present, shards[entry.1]? = some entry.2) ∧
      ∀ i < shards.length, Reached net placement owner n peer_urls bad i = true → i ∈ present.map Prod.fst := by
  refine ⟨_,gather_shards_eq bad,fun entry member => ?_,fun i less reached => ?_⟩
  · obtain ⟨source,listed,kept⟩ := List.mem_filterMap.mp member
    rw [stripe.placed,List.mem_map] at listed
    obtain ⟨i,inside,rfl⟩ := listed
    have less := List.mem_range.mp inside
    dsimp only at kept
    split at kept
    next => cases kept
    next other =>
      obtain ⟨data,got,rfl⟩ := Option.map_eq_some_iff.mp kept
      have good := truthful.found_good plain accepted (List.getElem?_eq_getElem less) (Ne.symm other) got
      rw [good]
      exact List.getElem?_eq_getElem less
  · simp only [Reached,Bool.and_eq_true,decide_eq_true_eq,Bool.or_eq_true] at reached
    obtain ⟨other,source⟩ := reached
    have some' : (found P net root placement (toString n) peer_urls w (i,toString (owner i))).isSome := by
      by_cases mine : owner i = n
      · exact truthful.found_own plain accepted less mine other
      · have apart : toString (owner i) ≠ toString n := fun same => mine (number_injective same)
        unfold found
        rw [if_neg apart]
        simpa using source.resolve_left mine
    obtain ⟨data,got⟩ := Option.isSome_iff_exists.mp some'
    refine List.mem_map.mpr ⟨(i,data),List.mem_filterMap.mpr ⟨(i,toString (owner i)),?_,?_⟩,rfl⟩
    · rw [stripe.placed]
      exact List.mem_map.mpr ⟨i,List.mem_range.mpr less,rfl⟩
    · rw [if_neg (Ne.symm other),got]
      rfl

end Gathered

/-! ### One scan -/

/-- What a node has of a stripe: a sidecar for each of its shards, and the shards as they were made, but for one. -/
structure Guard (P : Primitives) (root : OsPath) (bucket key : String) (owner : Nat → Nat) (n : Nat) (shards : List Bytes)
    (bad : Nat) (w : World) : Prop where
  marked : ∀ i good, shards[i]? = some good → owner i = n → Marked P root bucket key i good w
  own : ∀ i good, shards[i]? = some good → owner i = n → i ≠ bad → Healthy P root bucket key i good w

theorem shard_size_done {present : List (Nat × Bytes)} {size : Nat} (sized : ∀ entry ∈ present, entry.2.length = size)
    (nonempty : present ≠ []) : shard_size_from_present present = size := by
  have folded : ∀ (rest : List (Nat × Bytes)) (acc : Nat), acc ≤ size → (∀ entry ∈ rest, entry.2.length = size) →
      (rest.map fun entry => entry.2.length).foldl max acc = if rest = [] then acc else size := by
    intro rest
    induction rest with
    | nil => simp
    | cons entry others ih =>
      intro acc small all
      have here := all entry (by simp)
      rw [List.map_cons,List.foldl_cons,here,max_eq_right small,ih size (le_refl _) fun e member => all e (by simp [member])]
      simp
  rw [shard_size_from_present,folded present 0 (Nat.zero_le _) sized,if_neg nonempty]

section Scan
variable {P : Primitives} {net : Text → Option Bytes} {root : OsPath} {placement : EcShardPlacement} {owner : Nat → Nat}
  {n size bad i : Nat} {peer_urls : Nat → Option Text} {shards : List Bytes} {good : Bytes} {w w' : World}

/-- Whether enough of the other shards are within reach. -/
def Enough (net : Text → Option Bytes) (placement : EcShardPlacement) (owner : Nat → Nat) (n : Nat)
    (peer_urls : Nat → Option Text) (count bad : Nat) : Prop :=
  placement.data_shards ≤ (List.range count).countP (Reached net placement owner n peer_urls bad)

variable (mds : P.Mds) (plain : PlainDir root) (accepted : Accepted placement.bucket placement.key)
  (stripe : Stripe P placement owner size shards)
include mds plain accepted stripe

/-- A shard is healed, or left as it is when there are not enough others. -/
theorem heal_local_shard_done (guard : Guard P root placement.bucket placement.key owner n shards bad w)
    (truthful : Truthful P net root placement owner n peer_urls shards bad w) (here : shards[bad]? = some good)
    (mine : owner bad = n) :
    ((∃ e, heal_local_shard P net root placement (toString n) peer_urls none bad w = (.error e,w)) ∧
      ¬ Enough net placement owner n peer_urls shards.length bad) ∨
    ∃ w', heal_local_shard P net root placement (toString n) peer_urls none bad w = (.ok (),w') ∧
      ∀ q, w'.tree.node q = if q = shardsHome root placement.bucket placement.key ++ [chunk_name bad]
        then some (.file (.bytes good)) else w.tree.node q := by
  obtain ⟨present,gathered,genuine,reaches⟩ := truthful.gathered plain accepted stripe
  have less : bad < shards.length := (List.getElem?_eq_some_iff.mp here).1
  have enough (reached : Enough net placement owner n peer_urls shards.length bad) :
      placement.data_shards ≤ (List.range shards.length).countP fun i => decide (i ∈ present.map Prod.fst) := by
    refine Nat.le_trans reached (List.countP_mono_left fun i member got => ?_)
    exact decide_eq_true (reaches i (List.mem_range.mp member) got)
  unfold heal_local_shard
  rw [Prog.bind_of_ok gathered]
  by_cases empty : present = []
  · left
    subst empty
    refine ⟨⟨_,rfl⟩,fun reached => ?_⟩
    have none := enough reached
    rw [List.countP_eq_zero.mpr (by simp)] at none
    have := stripe.data
    omega
  · rw [shard_size_done (fun entry member => stripe.sized _ (List.mem_of_getElem? (genuine entry member))) empty,
      if_neg (by have := stripe.positive; omega)]
    obtain ⟨right,rebuilds⟩ := stripe.reconstructs mds genuine less
    cases rebuilt : reconstruct_shard P placement.data_shards placement.parity_shards size present bad with
    | error e =>
      left
      refine ⟨⟨e,rfl⟩,fun reached => ?_⟩
      obtain ⟨shard,done⟩ := rebuilds (enough reached)
      rw [rebuilt] at done
      cases done
    | ok shard =>
      right
      have same : good = shard := Option.some.inj (here.symm.trans (right shard rebuilt))
      subst same
      obtain ⟨w',stored,effect⟩ := store_shard_done plain accepted (guard.marked bad good here mine)
      exact ⟨w',Prog.mapError_ok_iff.mpr stored,effect⟩

/-- What a scan of one shard of the node does. -/
theorem scan_shard_done (guard : Guard P root placement.bucket placement.key owner n shards bad w)
    (truthful : Truthful P net root placement owner n peer_urls shards bad w) (here : shards[i]? = some good)
    (mine : owner i = n) (metrics : BitrotMetrics) :
    ∃ metrics' w', scan_shard P net root (toString n) peer_urls none placement metrics i w = (.ok metrics',w') ∧
      ((w' = w ∧ (Enough net placement owner n peer_urls shards.length i →
          Healthy P root placement.bucket placement.key i good w)) ∨
        i = bad ∧ ∀ q, w'.tree.node q = if q = shardsHome root placement.bucket placement.key ++ [chunk_name i]
          then some (.file (.bytes good)) else w.tree.node q) := by
  have marked := guard.marked i good here mine
  obtain ⟨c,file,unforged⟩ := marked.file
  have read := Fs.read_file (shard_leads plain accepted i) file
  unfold scan_shard
  rw [Prog.bind_of_ok (attempt_ok_iff.mpr read)]
  dsimp only
  unfold verify_detected
  rw [Prog.bind_of_ok (attempt_ok_iff.mpr (marked.verifies plain accepted (P.bytes c)))]
  by_cases same : P.sha256 (P.bytes c) = P.sha256 good
  · rw [decide_eq_true same]
    exact ⟨_,w,rfl,.inl ⟨rfl,fun _ => ⟨c,file,unforged same⟩⟩⟩
  · rw [decide_eq_false same]
    dsimp only
    have detected : i = bad := by
      by_contra other
      obtain ⟨c',file',right⟩ := guard.own i good here mine other
      rw [file] at file'
      cases file'
      exact same (congrArg P.sha256 right)
    subst detected
    unfold heal_detected
    rcases heal_local_shard_done mds plain accepted stripe guard truthful here mine with ⟨⟨e,failed⟩,short⟩ | ⟨w',healed,effect⟩
    · rw [Prog.bind_of_ok (attempt_ok_iff.mpr failed)]
      exact ⟨_,w,rfl,.inl ⟨rfl,fun enough => absurd enough short⟩⟩
    · rw [Prog.bind_of_ok (attempt_ok_iff.mpr healed)]
      exact ⟨_,w',rfl,.inr ⟨rfl,effect⟩⟩

omit mds plain accepted stripe in
/-- A restored shard is as it was made, and the others are as they were. -/
theorem Guard.restored (guard : Guard P root placement.bucket placement.key owner n shards bad w)
    (here : shards[i]? = some good) (effect : ∀ q, w'.tree.node q =
      if q = shardsHome root placement.bucket placement.key ++ [chunk_name i] then some (.file (.bytes good))
      else w.tree.node q) :
    Guard P root placement.bucket placement.key owner n shards bad w' ∧
      Healthy P root placement.bucket placement.key i good w' ∧
      ∀ j good', shards[j]? = some good' → Healthy P root placement.bucket placement.key j good' w →
        Healthy P root placement.bucket placement.key j good' w' := by
  have side (j : Nat) : w'.tree.node (shardsHome root placement.bucket placement.key ++ [sideName j]) =
      w.tree.node (shardsHome root placement.bucket placement.key ++ [sideName j]) := by
    rw [effect,if_neg (by simpa using sideName_ne j i)]
  have other {j : Nat} (apart : j ≠ i) : w'.tree.node (shardsHome root placement.bucket placement.key ++ [chunk_name j]) =
      w.tree.node (shardsHome root placement.bucket placement.key ++ [chunk_name j]) := by
    rw [effect,if_neg (by simpa using fun same => apart (chunk_name_injective same))]
  have new : w'.tree.node (shardsHome root placement.bucket placement.key ++ [chunk_name i]) = some (.file (.bytes good)) := by
    rw [effect,if_pos rfl]
  have keeps (j : Nat) (good' : Bytes) (there : shards[j]? = some good')
      (healthy : Healthy P root placement.bucket placement.key j good' w) :
      Healthy P root placement.bucket placement.key j good' w' := by
    by_cases same : j = i
    · subst same
      rw [here] at there
      cases there
      exact ⟨_,new,rfl⟩
    · obtain ⟨c,file,right⟩ := healthy
      exact ⟨c,(other same).trans file,right⟩
  refine ⟨⟨fun j good' there mine => ⟨(side j).trans (guard.marked j good' there mine).side,?_⟩,
    fun j good' there mine apart => keeps j good' there (guard.own j good' there mine apart)⟩,⟨_,new,rfl⟩,keeps⟩
  by_cases same : j = i
  · subst same
    rw [here] at there
    cases there
    exact ⟨_,new,fun _ => rfl⟩
  · obtain ⟨c,file,unforged⟩ := (guard.marked j good' there mine).file
    exact ⟨c,(other same).trans file,unforged⟩

/-- So far as a scan has come the shards it has seen are healthy, if there were enough others to heal them. -/
structure Scanned (P : Primitives) (net : Text → Option Bytes) (root : OsPath) (placement : EcShardPlacement)
    (owner : Nat → Nat) (n : Nat) (peer_urls : Nat → Option Text) (shards : List Bytes) (bad : Nat) (w₀ : World)
    (past : List (Nat × String)) (w : World) : Prop where
  guard : Guard P root placement.bucket placement.key owner n shards bad w
  kept : ∀ j good, shards[j]? = some good → Healthy P root placement.bucket placement.key j good w₀ →
    Healthy P root placement.bucket placement.key j good w
  seen : ∀ entry ∈ past, ∀ good, shards[entry.1]? = some good → owner entry.1 = n →
    Enough net placement owner n peer_urls shards.length entry.1 →
    Healthy P root placement.bucket placement.key entry.1 good w

theorem scan_placement_done (guard : Guard P root placement.bucket placement.key owner n shards bad w)
    (sent : ∀ i good data, shards[i]? = some good → owner i ≠ n → i ≠ bad →
      peer_shard net placement peer_urls i (toString (owner i)) = some data → data = good) (metrics : BitrotMetrics) :
    ∃ metrics' w', scan_placement P net root (toString n) peer_urls none metrics placement w = (.ok metrics',w') ∧
      Scanned P net root placement owner n peer_urls shards bad w placement.placements w' := by
  have all : ∀ (entries past : List (Nat × String)) (metrics : BitrotMetrics) (w₁ : World),
      (∀ entry ∈ entries, ∃ i < shards.length, entry = (i,toString (owner i))) →
      Scanned P net root placement owner n peer_urls shards bad w past w₁ →
      ∃ metrics' w', Prog.fold (fun metrics entry =>
        if entry.2 ≠ toString n then (pure metrics : Prog World HealError BitrotMetrics)
        else scan_shard P net root (toString n) peer_urls none placement metrics entry.1) metrics entries w₁ =
          (.ok metrics',w') ∧ Scanned P net root placement owner n peer_urls shards bad w (past ++ entries) w' := by
    intro entries
    induction entries with
    | nil =>
      intro past metrics w₁ _ scanned
      exact ⟨metrics,w₁,rfl,by simpa using scanned⟩
    | cons entry rest ih =>
      intro past metrics w₁ listed scanned
      obtain ⟨i,less,rfl⟩ := listed entry (by simp)
      have here := List.getElem?_eq_getElem less
      have later := fun e member => listed e (List.mem_cons_of_mem _ member)
      by_cases mine : owner i = n
      · have truthful : Truthful P net root placement owner n peer_urls shards bad w₁ := ⟨scanned.guard.own,sent⟩
        obtain ⟨metrics₂,w₂,done,effect⟩ := scan_shard_done mds plain accepted stripe scanned.guard truthful here mine metrics
        have next : Scanned P net root placement owner n peer_urls shards bad w (past ++ [(i,toString (owner i))]) w₂ := by
          rcases effect with ⟨rfl,healed⟩ | ⟨rfl,effect⟩
          · refine ⟨scanned.guard,scanned.kept,fun e member good there mine' enough => ?_⟩
            rcases List.mem_append.mp member with before | last
            · exact scanned.seen e before good there mine' enough
            · rw [List.mem_singleton.mp last] at there enough ⊢
              rw [here] at there
              cases there
              exact healed enough
          · obtain ⟨guard',healthy,keeps⟩ := scanned.guard.restored here effect
            refine ⟨guard',fun j good there was => keeps j good there (scanned.kept j good there was),
              fun e member good there mine' enough => ?_⟩
            rcases List.mem_append.mp member with before | last
            · exact keeps _ good there (scanned.seen e before good there mine' enough)
            · rw [List.mem_singleton.mp last] at there ⊢
              rw [here] at there
              cases there
              exact healthy
        obtain ⟨metrics₃,w₃,rest',scanned'⟩ := ih _ metrics₂ w₂ later next
        refine ⟨metrics₃,w₃,?_,by simpa using scanned'⟩
        rw [Prog.fold,if_neg (by simp [mine]),Prog.bind_of_ok done]
        exact rest'
      · have apart : toString (owner i) ≠ toString n := fun same => mine (number_injective same)
        have next : Scanned P net root placement owner n peer_urls shards bad w (past ++ [(i,toString (owner i))]) w₁ := by
          refine ⟨scanned.guard,scanned.kept,fun e member good there mine' enough => ?_⟩
          rcases List.mem_append.mp member with before | last
          · exact scanned.seen e before good there mine' enough
          · rw [List.mem_singleton.mp last] at mine'
            exact absurd mine' mine
        obtain ⟨metrics₃,w₃,rest',scanned'⟩ := ih _ metrics w₁ later next
        refine ⟨metrics₃,w₃,?_,by simpa using scanned'⟩
        rw [Prog.fold,if_pos apart,Prog.pure_bind]
        exact rest'
  have start : Scanned P net root placement owner n peer_urls shards bad w [] w :=
    ⟨guard,fun _ _ _ healthy => healthy,fun _ none => by cases none⟩
  obtain ⟨metrics',w',done,scanned⟩ := all placement.placements [] metrics w (fun entry member => by
    rw [stripe.placed] at member
    obtain ⟨i,inside,rfl⟩ := List.mem_map.mp member
    exact ⟨i,List.mem_range.mp inside,rfl⟩) start
  exact ⟨metrics',w',done,by simpa using scanned⟩

end Scan

/-! ### Other objects -/

/-- Whatever it meets, the program returns. -/
def Returns {σ ε α : Type} (m : Prog σ ε α) : Prop := ∀ s, ∃ a s', m s = (.ok a,s')

section Others
variable {P : Primitives} {net : Text → Option Bytes} {root : OsPath} {local_node_id : String} {peer_urls : Nat → Option Text}
  {nodes : Option Nodes} {p : EcShardPlacement}

theorem Returns.bind {σ ε α β : Type} {m : Prog σ ε α} {f : α → Prog σ ε β} (first : Returns m) (second : ∀ a, Returns (f a)) :
    Returns (m >>= f) := by
  intro s
  obtain ⟨a,s₁,done⟩ := first s
  obtain ⟨b,s₂,done'⟩ := second a s₁
  exact ⟨b,s₂,by rw [Prog.bind_of_ok done,done']⟩

theorem Returns.attempt {σ ε ε' α : Type} (m : Prog σ ε α) : Returns (Prog.attempt m : Prog σ ε' (Except ε α)) :=
  fun s => ⟨(m s).1,(m s).2,rfl⟩

theorem Returns.pure {σ ε α : Type} (a : α) : Returns (pure a : Prog σ ε α) := fun s => ⟨a,s,rfl⟩

theorem Returns.fold {σ ε α β : Type} {f : β → α → Prog σ ε β} (step : ∀ acc a, Returns (f acc a)) (items : List α) (acc : β) :
    Returns (Prog.fold f acc items) := by
  induction items generalizing acc with
  | nil => exact Returns.pure acc
  | cons a rest ih => exact (step acc a).bind fun acc' => ih acc'

theorem scan_placement_returns (metrics : BitrotMetrics) :
    Returns (scan_placement P net root local_node_id peer_urls nodes metrics p) := by
  refine Returns.fold (fun metrics entry => ?_) _ metrics
  by_cases mine : entry.2 ≠ local_node_id
  · rw [if_pos mine]
    exact Returns.pure metrics
  · rw [if_neg mine]
    refine (Returns.attempt _).bind fun read => ?_
    cases read with
    | error e => exact Returns.pure _
    | ok c =>
      refine (Returns.attempt _).bind fun verified => ?_
      cases verified with
      | error e => exact Returns.pure _
      | ok right =>
        cases right with
        | true => exact Returns.pure _
        | false =>
          refine (Returns.attempt _).bind fun healed => ?_
          cases healed with
          | ok _ => exact Returns.pure _
          | error e => exact Returns.pure _

/-- The files of an object's shards and sidecars. -/
def ShardFile (root : OsPath) (bucket key : String) (q : OsPath) : Prop :=
  ∃ i, q = shardsHome root bucket key ++ [chunk_name i] ∨ q = shardsHome root bucket key ++ [sideName i]

theorem read_shard_quiet (map : Nodes) (idx : Nat) : Quiet (read_shard map p idx) := by
  refine Quiet.bind (Quiet.lift _) fun owner => Quiet.bind (Quiet.lift _) fun dir w => ?_
  unfold load_shard
  generalize Fs.readAt w.tree (shard_path dir p.bucket p.key idx) = read
  cases read with
  | ok c => rfl
  | error kind =>
    cases kind with
    | NotFound =>
      dsimp only
      generalize List.findSome? _ map.entries = found
      cases found <;> rfl
    | _ => rfl

theorem gather_shards_quiet (skip : Option Nat) : Quiet (gather_shards P net root p local_node_id peer_urls nodes skip) := by
  refine Quiet.fold _ (fun present entry _ => ?_) []
  by_cases left : skip = some entry.1
  · rw [if_pos left]
    exact Quiet.pure present
  · rw [if_neg left]
    refine Quiet.bind ?_ fun _ => Quiet.pure _
    have here : Quiet (local_shard P root p local_node_id entry.1 entry.2) := by
      unfold local_shard
      by_cases mine : entry.2 = local_node_id
      · rw [if_pos mine]
        refine Quiet.bind (Quiet.attempt (Quiet.observe _)) fun read => ?_
        cases read with
        | ok c => exact Quiet.pure _
        | error e => exact Quiet.pure _
      · rw [if_neg mine]
        exact Quiet.pure _
    have there : Quiet (node_shard P p nodes entry.1) := by
      unfold node_shard
      cases nodes with
      | none => exact Quiet.pure _
      | some map =>
        refine Quiet.bind (Quiet.attempt (read_shard_quiet map _)) fun read => ?_
        cases read with
        | ok c => exact Quiet.pure _
        | error e => exact Quiet.pure _
    refine Quiet.bind here fun mine => ?_
    cases mine with
    | some data => exact Quiet.pure _
    | none =>
      refine Quiet.bind there fun other => ?_
      cases other with
      | some data => exact Quiet.pure _
      | none => exact Quiet.pure _

variable (plain : PlainDir root) (accepted : Accepted p.bucket p.key)
include plain accepted

theorem write_checksum_sidecar_frames (i : Nat) (data : Bytes) :
    Frames (ShardFile root p.bucket p.key) (fun q => q <+: shardsHome root p.bucket p.key)
      (write_checksum_sidecar P (shard_path root p.bucket p.key i) data) := by
  have leads := side_leads plain accepted i
  have dir := shardsHome_plain plain accepted
  unfold write_checksum_sidecar
  dsimp only
  rw [leads.parent]
  refine (Frames.mapError (Fs.frames_create_dir_all (fun s member => (dir s member).2) fun q above => .inr ?_)).bind fun _ =>
    Frames.mapError (Fs.frames_write leads.entry.forward (fun _ => ?_) _)
  · rwa [canon_of_plain fun s member => (dir s member).1] at above
  · rw [leads.names]
    exact ⟨i,.inr rfl⟩

theorem store_shard_frames (i : Nat) (data : Bytes) :
    Frames (ShardFile root p.bucket p.key) (fun q => q <+: shardsHome root p.bucket p.key)
      (store_shard P (shard_path root p.bucket p.key i) data) := by
  have leads := shard_leads plain accepted i
  have dir := shardsHome_plain plain accepted
  unfold store_shard
  rw [leads.parent]
  refine (Frames.mapError (Fs.frames_create_dir_all (fun s member => (dir s member).2) fun q above => .inr ?_)).bind fun _ =>
    (Frames.mapError (Fs.frames_write leads.entry.forward (fun _ => ?_) _)).bind fun _ =>
      write_checksum_sidecar_frames plain accepted i data
  · rwa [canon_of_plain fun s member => (dir s member).1] at above
  · rw [leads.names]
    exact ⟨i,.inl rfl⟩

/-- A scan changes no files but the shards of the object, and their sidecars. -/
theorem scan_placement_frames (metrics : BitrotMetrics) :
    Frames (ShardFile root p.bucket p.key) (fun q => q <+: shardsHome root p.bucket p.key)
      (scan_placement P net root local_node_id peer_urls nodes metrics p) := by
  refine Frames.fold _ (fun metrics entry _ => ?_) metrics
  refine Frames.ite (fun _ => Frames.pure metrics) fun _ => ?_
  refine (Frames.attempt (Fs.frames_read _)).bind fun read => ?_
  cases read with
  | error e => exact Frames.pure _
  | ok c =>
    have verifies : Frames (ShardFile root p.bucket p.key) (fun q => q <+: shardsHome root p.bucket p.key)
        (verify_shard_checksum P (shard_path root p.bucket p.key entry.1) (P.bytes c)) := by
      refine (Frames.attempt (Fs.frames_read _)).bind fun side => ?_
      cases side with
      | ok content =>
        dsimp only
        cases read_to_string (P.bytes content) with
        | some text => exact Frames.pure _
        | none => exact Frames.fail _
      | error e =>
        refine Frames.ite (fun _ => ?_) fun _ => Frames.fail _
        exact (write_checksum_sidecar_frames plain accepted entry.1 (P.bytes c)).mapError.bind fun _ => Frames.pure _
    refine (Frames.attempt verifies).bind fun verified => ?_
    cases verified with
    | error e => exact Frames.pure _
    | ok right =>
      cases right with
      | true => exact Frames.pure _
      | false =>
        have heals : Frames (ShardFile root p.bucket p.key) (fun q => q <+: shardsHome root p.bucket p.key)
            (heal_local_shard P net root p local_node_id peer_urls nodes entry.1) := by
          refine (gather_shards_quiet _).frames.bind fun present => ?_
          refine Frames.ite (fun _ => Frames.fail _) fun _ => (Frames.lift _).bind fun rebuilt => ?_
          exact (store_shard_frames plain accepted entry.1 rebuilt).mapError
        refine (Frames.attempt heals).bind fun healed => ?_
        cases healed with
        | ok _ => exact Frames.pure _
        | error e => exact Frames.pure _

end Others

/-! ### All placements -/

/-- A placement of another object. -/
def Elsewhere (placement p : EcShardPlacement) : Prop :=
  Accepted p.bucket p.key ∧ (p.bucket ≠ placement.bucket ∨ names p.key ≠ names placement.key)

/-- What holds of a node's disk once it has scanned some of its placements. -/
structure Passed (P : Primitives) (net : Text → Option Bytes) (root : OsPath) (placement : EcShardPlacement)
    (owner : Nat → Nat) (n : Nat) (peer_urls : Nat → Option Text) (shards : List Bytes) (bad : Nat) (w₀ : World)
    (past : List EcShardPlacement) (w : World) : Prop where
  guard : Guard P root placement.bucket placement.key owner n shards bad w
  kept : ∀ i good, shards[i]? = some good → owner i = n → Healthy P root placement.bucket placement.key i good w₀ →
    Healthy P root placement.bucket placement.key i good w
  seen : placement ∈ past → ∀ i good, shards[i]? = some good → owner i = n →
    Enough net placement owner n peer_urls shards.length i → Healthy P root placement.bucket placement.key i good w

section Placements
variable {P : Primitives} {net : Text → Option Bytes} {root : OsPath} {placement : EcShardPlacement} {owner : Nat → Nat}
  {n size bad : Nat} {peer_urls : Nat → Option Text} {shards : List Bytes} {w w₀ w' : World}

theorem Elsewhere.apart {p : EcShardPlacement} (elsewhere : Elsewhere placement p) {q : OsPath}
    (mine : ShardFile root placement.bucket placement.key q) : ¬ ShardFile root p.bucket p.key q := by
  have same {a b : String} (spelled : shardsHome root placement.bucket placement.key ++ [a] =
      shardsHome root p.bucket p.key ++ [b]) : False := by
    have dirs := (List.append_inj' spelled rfl).1
    simp only [shardsHome,base,List.append_assoc,List.append_cancel_left_eq,List.singleton_append,List.cons_append,
      List.nil_append,List.cons.injEq,true_and] at dirs
    exact elsewhere.2.elim (fun other => other dirs.1.symm) fun other => other dirs.2.symm
  rintro ⟨j,there⟩
  obtain ⟨i,here⟩ := mine
  rcases here with rfl | rfl <;> rcases there with there | there <;> exact same there

/-- What leaves the files of a stripe alone leaves its state alone. -/
theorem Guard.same (guard : Guard P root placement.bucket placement.key owner n shards bad w)
    (same : ∀ q c, ShardFile root placement.bucket placement.key q → w.tree.node q = some (.file c) →
      w'.tree.node q = some (.file c)) : Guard P root placement.bucket placement.key owner n shards bad w' := by
  refine ⟨fun i good here mine => ?_,fun i good here mine other => ?_⟩
  · obtain ⟨side,c,file,unforged⟩ := guard.marked i good here mine
    exact ⟨same _ _ ⟨i,.inr rfl⟩ side,c,same _ _ ⟨i,.inl rfl⟩ file,unforged⟩
  · obtain ⟨c,file,right⟩ := guard.own i good here mine other
    exact ⟨c,same _ _ ⟨i,.inl rfl⟩ file,right⟩

variable (mds : P.Mds) (plain : PlainDir root) (accepted : Accepted placement.bucket placement.key)
  (stripe : Stripe P placement owner size shards)
include mds plain accepted stripe

theorem scan_placements_done (placements : List EcShardPlacement)
    (others : ∀ p ∈ placements, p = placement ∨ Elsewhere placement p)
    (sent : ∀ i good data, shards[i]? = some good → owner i ≠ n → i ≠ bad →
      peer_shard net placement peer_urls i (toString (owner i)) = some data → data = good)
    (guard : Guard P root placement.bucket placement.key owner n shards bad w) (metrics : BitrotMetrics) :
    Passed P net root placement owner n peer_urls shards bad w placements
      (scan_placements P net root (toString n) peer_urls none placements metrics w).2 := by
  have all : ∀ (rest past : List EcShardPlacement) (metrics : BitrotMetrics) (w₁ : World),
      (∀ p ∈ rest, p = placement ∨ Elsewhere placement p) →
      Passed P net root placement owner n peer_urls shards bad w past w₁ →
      Passed P net root placement owner n peer_urls shards bad w (past ++ rest)
        (scan_placements P net root (toString n) peer_urls none rest metrics w₁).2 := by
    intro rest
    induction rest with
    | nil =>
      intro past metrics w₁ _ passed
      simpa [scan_placements,Prog.fold] using passed
    | cons p rest ih =>
      intro past metrics w₁ listed passed
      have later := fun p' member => listed p' (List.mem_cons_of_mem _ member)
      rcases listed p (by simp) with rfl | elsewhere
      · obtain ⟨metrics₂,w₂,done,scanned⟩ := scan_placement_done mds plain accepted stripe passed.guard sent metrics
        have next : Passed P net root p owner n peer_urls shards bad w (past ++ [p]) w₂ := by
          refine ⟨scanned.guard,fun i good here mine was => scanned.kept i good here (passed.kept i good here mine was),
            fun _ i good here mine enough => ?_⟩
          have less := (List.getElem?_eq_some_iff.mp here).1
          refine scanned.seen (i,toString (owner i)) ?_ good here mine enough
          rw [stripe.placed]
          exact List.mem_map.mpr ⟨i,List.mem_range.mpr less,rfl⟩
        have whole := ih (past ++ [p]) metrics₂ w₂ later next
        rw [List.append_assoc,List.singleton_append] at whole
        rwa [scan_placements,Prog.fold,Prog.bind_of_ok done]
      · obtain ⟨metrics₂,w₂,done⟩ := @scan_placement_returns P net root (toString n) peer_urls none p metrics w₁
        have frame := @scan_placement_frames P net root (toString n) peer_urls none p plain elsewhere.1 metrics w₁
        rw [done] at frame
        have same : ∀ q c, ShardFile root placement.bucket placement.key q → w₁.tree.node q = some (.file c) →
            w₂.tree.node q = some (.file c) := fun q c mine file => frame.file (elsewhere.apart mine) file
        have next : Passed P net root placement owner n peer_urls shards bad w (past ++ [p]) w₂ := by
          have healthy {i : Nat} {good : Bytes} (was : Healthy P root placement.bucket placement.key i good w₁) :
              Healthy P root placement.bucket placement.key i good w₂ := by
            obtain ⟨c,file,right⟩ := was
            exact ⟨c,same _ _ ⟨i,.inl rfl⟩ file,right⟩
          refine ⟨passed.guard.same same,fun i good here mine was => healthy (passed.kept i good here mine was),
            fun member i good here mine enough => ?_⟩
          rcases List.mem_append.mp member with before | last
          · exact healthy (passed.seen before i good here mine enough)
          · obtain ⟨_,other⟩ := elsewhere
            rw [List.mem_singleton.mp last] at other
            exact absurd rfl (other.elim (fun ne => absurd rfl ne) id)
        have whole := ih (past ++ [p]) metrics₂ w₂ later next
        rw [List.append_assoc,List.singleton_append] at whole
        rwa [scan_placements,Prog.fold,Prog.bind_of_ok done]
  have start : Passed P net root placement owner n peer_urls shards bad w [] w :=
    ⟨guard,fun _ _ _ _ healthy => healthy,fun none => by cases none⟩
  simpa using all placements [] metrics w others start

end Placements

/-! ### A cluster -/

/-- What an answer says is what the node at the address serves. -/
def Serves (P : Primitives) (root : Nat → OsPath) (peers : Nat → Option PeerUrl) (disks : Nat → World)
    (net : Text → Option Bytes) : Prop :=
  ∀ node peer, peers node = some peer → ∀ (bucket key : String) (i : Nat) (data : Bytes),
    fetch_shard_http net peer.text bucket key i = some data →
    ∃ c w', get_shard (root node) (url_query (shard_url peer.text bucket.toList key.toList i)) (disks node) = (.ok c,w') ∧
      P.bytes c = data

/-- What each node is told of its peers. -/
def urls (peers : Nat → Option PeerUrl) (node : Nat) : Option Text := (peers node).map PeerUrl.text

/-- One step of a cluster, as a stripe sees it: a shard rots while the others are as they were made, a node scans its
    placements, or something else happens on a node. -/
inductive RotStep (P : Primitives) (root : Nat → OsPath) (peers : Nat → Option PeerUrl) (placement : EcShardPlacement)
    (owner : Nat → Nat) (shards : List Bytes) : (Nat → World) → (Nat → World) → Prop
  | rots {disks : Nat → World} (i : Nat) (good : Bytes) (c : Content) (w' : World) (here : shards[i]? = some good)
      (alone : ∀ j good', shards[j]? = some good' → j ≠ i →
        Healthy P (root (owner j)) placement.bucket placement.key j good' (disks (owner j)))
      (unforged : P.sha256 (P.bytes c) = P.sha256 good → P.bytes c = good)
      (changed : ∀ q, w'.tree.node q = if q = shardsHome (root (owner i)) placement.bucket placement.key ++ [chunk_name i]
        then some (.file c) else (disks (owner i)).tree.node q) :
      RotStep P root peers placement owner shards disks (Function.update disks (owner i) w')
  | scans {disks : Nat → World} (n : Nat) (net : Text → Option Bytes) (placements : List EcShardPlacement)
      (metrics : BitrotMetrics) (serves : Serves P root peers disks net)
      (others : ∀ p ∈ placements, p = placement ∨ Elsewhere placement p) :
      RotStep P root peers placement owner shards disks (Function.update disks n
        (scan_placements P net (root n) (toString n) (urls peers) none placements metrics (disks n)).2)
  | other {disks : Nat → World} (n : Nat) (w' : World)
      (same : ∀ q, ShardFile (root n) placement.bucket placement.key q → w'.tree.node q = (disks n).tree.node q) :
      RotStep P root peers placement owner shards disks (Function.update disks n w')

section Cluster
variable {P : Primitives} {root : Nat → OsPath} {peers : Nat → Option PeerUrl} {placement : EcShardPlacement}
  {owner : Nat → Nat} {size : Nat} {shards : List Bytes} {disks disks' : Nat → World} {net : Text → Option Bytes} {bad : Nat}

/-- Every node has what it was given of the stripe, but for one shard. -/
def Guarded (P : Primitives) (root : Nat → OsPath) (placement : EcShardPlacement) (owner : Nat → Nat) (shards : List Bytes)
    (bad : Nat) (disks : Nat → World) : Prop :=
  ∀ n, Guard P (root n) placement.bucket placement.key owner n shards bad (disks n)

variable (mds : P.Mds) (plain : ∀ n, PlainDir (root n)) (accepted : Accepted placement.bucket placement.key)
  (stripe : Stripe P placement owner size shards)
  (unchanged : Unchanged placement.bucket.toList ∧ Unchanged placement.key.toList)

include plain accepted stripe unchanged in
/-- Peers send what they were given. -/
theorem Serves.sent (serves : Serves P root peers disks net) (guarded : Guarded P root placement owner shards bad disks)
    (i : Nat) (good data : Bytes) (here : shards[i]? = some good) (other : i ≠ bad)
    (got : peer_shard net placement (urls peers) i (toString (owner i)) = some data) : data = good := by
  have less := (List.getElem?_eq_some_iff.mp here).1
  have ids := stripe.ids i less
  have few := stripe.few
  rw [peer_shard,parseUnsigned_toString (by omega)] at got
  simp only [Option.bind_eq_bind,Option.bind_some,urls,Option.bind_eq_some_iff,Option.map_eq_some_iff] at got
  obtain ⟨_,⟨peer,known,rfl⟩,answered⟩ := got
  obtain ⟨c,w',served,rfl⟩ := serves (owner i) peer known _ _ i data answered
  have asked := (shard_query_iff peer placement.bucket.toList placement.key.toList (show i < 2 ^ 32 by omega)).mpr unchanged
  rw [get_shard,asked] at served
  dsimp only at served
  rw [cluster_shard_path,String.ofList_toList,String.ofList_toList,
    Fs.readAt_leads (shard_leads (plain (owner i)) accepted i)] at served
  obtain ⟨c',file,right⟩ := (guarded (owner i)).own i good here rfl other
  rw [Tree.read,file] at served
  cases served
  exact right

/-- Of a shard that rots the others are healthy. -/
theorem Guarded.rots (guarded : Guarded P root placement owner shards bad disks) {i : Nat} {good : Bytes} {c : Content}
    {w' : World} (here : shards[i]? = some good)
    (alone : ∀ j good', shards[j]? = some good' → j ≠ i →
      Healthy P (root (owner j)) placement.bucket placement.key j good' (disks (owner j)))
    (unforged : P.sha256 (P.bytes c) = P.sha256 good → P.bytes c = good)
    (changed : ∀ q, w'.tree.node q = if q = shardsHome (root (owner i)) placement.bucket placement.key ++ [chunk_name i]
      then some (.file c) else (disks (owner i)).tree.node q) :
    Guarded P root placement owner shards i (Function.update disks (owner i) w') := by
  intro n
  by_cases mine : n = owner i
  · subst mine
    rw [Function.update_self]
    have side (j : Nat) : w'.tree.node (shardsHome (root (owner i)) placement.bucket placement.key ++ [sideName j]) =
        (disks (owner i)).tree.node (shardsHome (root (owner i)) placement.bucket placement.key ++ [sideName j]) := by
      rw [changed,if_neg (by simpa using sideName_ne j i)]
    have apart {j : Nat} (other : j ≠ i) :
        w'.tree.node (shardsHome (root (owner i)) placement.bucket placement.key ++ [chunk_name j]) =
          (disks (owner i)).tree.node (shardsHome (root (owner i)) placement.bucket placement.key ++ [chunk_name j]) := by
      rw [changed,if_neg (by simpa using fun same => other (chunk_name_injective same))]
    refine ⟨fun j good' there mine => ?_,fun j good' there mine other => ?_⟩
    · obtain ⟨sidecar,c',file,kept⟩ := (guarded (owner i)).marked j good' there mine
      refine ⟨(side j).trans sidecar,?_⟩
      by_cases same : j = i
      · subst same
        rw [here] at there
        cases there
        exact ⟨c,by rw [changed,if_pos rfl],unforged⟩
      · exact ⟨c',(apart same).trans file,kept⟩
    · obtain ⟨c',file,right⟩ := alone j good' there other
      rw [mine] at file
      exact ⟨c',(apart other).trans file,right⟩
  · rw [Function.update_of_ne mine]
    refine ⟨(guarded n).marked,fun j good' there mine' other => ?_⟩
    have healthy := alone j good' there other
    rwa [mine'] at healthy

include mds plain accepted stripe unchanged

theorem RotStep.keeps (step : RotStep P root peers placement owner shards disks disks')
    (guarded : Guarded P root placement owner shards bad disks) :
    ∃ bad', Guarded P root placement owner shards bad' disks' := by
  cases step with
  | rots i good c w' here alone unforged changed => exact ⟨i,guarded.rots here alone unforged changed⟩
  | scans n net placements metrics serves others =>
    refine ⟨bad,fun m => ?_⟩
    by_cases mine : m = n
    · subst mine
      rw [Function.update_self]
      exact (scan_placements_done mds (plain m) accepted stripe placements others
        (fun i good data here _ other got => serves.sent plain accepted stripe unchanged guarded i good data here other got)
        (guarded m) metrics).guard
    · rw [Function.update_of_ne mine]
      exact guarded m
  | other n w' same =>
    refine ⟨bad,fun m => ?_⟩
    by_cases mine : m = n
    · subst mine
      rw [Function.update_self]
      exact (guarded m).same fun q c file here => (same q file).trans here
    · rw [Function.update_of_ne mine]
      exact guarded m

end Cluster

namespace Sample
open Maxio.Sample

/-- An object of one data shard and its copy, on nodes 1 and 2. -/
def copied : EcShardPlacement := ⟨"logs","a",1,1,[(0,"1"),(1,"2")]⟩

def stored (i : Nat) : World := (store_shard primitives (shard_path ["data"] "logs" "a" i) abc (world false)).2

def nodes (n : Nat) : World := stored (n - 1)

/-- The shard of node 1 becomes a zero. -/
def rotted : World := (Fs.write (shard_path ["data"] "logs" "a" 0) (.bytes [0]) (stored 0)).2

def second (n : Nat) : Option PeerUrl := if n = 2 then some peer else none

/-- Node 2 answers. -/
def answer (url : Text) : Option Bytes :=
  ((get_shard ["data"] (url_query url) (stored 1)).1.toOption).map primitives.bytes

theorem copied_stripe : Stripe primitives copied (· + 1) 3 [abc,abc] where
  count := rfl
  data := by decide
  positive := by decide
  sized := by decide
  ready := rfl
  encoded := rfl
  placed := by decide
  few := by decide
  ids := by decide

theorem copied_accepted : Accepted copied.bucket copied.key := ⟨by decide +kernel,by decide +kernel⟩

theorem data_plain : PlainDir ["data"] := by
  intro s member
  rw [List.mem_singleton.mp member]
  decide

/-- What is stored is as it was made. -/
theorem stored_good {i : Nat} (small : i < 2) : Marked primitives ["data"] "logs" "a" i abc (stored i) ∧
    Healthy primitives ["data"] "logs" "a" i abc (stored i) := by
  have side : ∀ i < 2, (stored i).tree.node (shardsHome ["data"] "logs" "a" ++ [sideName i]) =
      some (.file (.bytes (utf8 (shard_checksum_hex primitives abc ++ "\n")))) := by decide +kernel
  have file : ∀ i < 2, (stored i).tree.node (shardsHome ["data"] "logs" "a" ++ [chunk_name i]) =
      some (.file (.bytes abc)) := by decide +kernel
  exact ⟨⟨side i small,_,file i small,fun _ => rfl⟩,_,file i small,rfl⟩

theorem answer_serves : Serves primitives (fun _ => ["data"]) second (Function.update nodes 1 rotted) answer := by
  intro node peer known bucket key i data answered
  unfold second at known
  split at known
  next two =>
    subst two
    unfold fetch_shard_http answer at answered
    cases known
    rw [Function.update_of_ne (show (2 : Nat) ≠ 1 by decide),show nodes 2 = stored 1 from rfl]
    generalize get_shard ["data"] (url_query (shard_url peer.text bucket.toList key.toList i)) (stored 1) = got at answered
    obtain ⟨r,w'⟩ := got
    cases r with
    | ok c => exact ⟨c,w',rfl,Option.some.inj answered⟩
    | error e => cases answered
  next => cases known

end Sample

end Maxio.Cluster
