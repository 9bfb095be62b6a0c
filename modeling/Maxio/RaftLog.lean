import Maxio.RaftStore

/-!
The log of the storage tier: entries in memory as JSON texts under their indices, a marker for what was purged, the
vote, and the committed id. Every call that changes it holds the write lock of the log.
-/

namespace Maxio

/-- One end of a range of indices. -/
inductive Bound where
  | Included (index : Nat)
  | Excluded (index : Nat)
  | Unbounded
  deriving DecidableEq, Repr

/-- `RangeBounds<u64>`. -/
structure IndexRange where
  start_bound : Bound
  end_bound : Bound
  deriving DecidableEq, Repr

namespace IndexRange

def contains (range : IndexRange) (index : Nat) : Bool :=
  (match range.start_bound with
    | .Included start => decide (start ≤ index)
    | .Excluded start => decide (start < index)
    | .Unbounded => true) &&
  match range.end_bound with
    | .Included stop => decide (index ≤ stop)
    | .Excluded stop => decide (index < stop)
    | .Unbounded => true

/-- The start is not past the end, and the two are not one excluded index: on any other range `BTreeMap::range`
    panics. -/
def forward (range : IndexRange) : Bool := match range.start_bound,range.end_bound with
  | .Unbounded,_ | _,.Unbounded => true
  | .Excluded start,.Excluded stop => decide (start < stop)
  | .Included start,.Included stop => decide (start ≤ stop)
  | .Included start,.Excluded stop => decide (start ≤ stop)
  | .Excluded start,.Included stop => decide (start ≤ stop)

end IndexRange

/-- `serde_json` on log entries. -/
structure EntryJson where
  to_string : LogEntry → Except String String
  from_str : String → Except String LogEntry

inductive LogFailure where
  | panicked
  | read_logs (error : String)
  | write_log_entry (log_id : LogId) (error : String)
  deriving DecidableEq, Repr

structure Vote where
  leader_id : Nat
  committed : Bool
  deriving DecidableEq, Repr

/-- The part of a `StorageRaftStore` that is the log. -/
structure RaftLog where
  last_purged_log_id : Option LogId
  committed : Option LogId
  log : Std.TreeMap Nat String
  vote : Option Vote

structure LogState where
  last_purged_log_id : Option LogId
  last_log_id : Option LogId
  deriving DecidableEq, Repr

abbrev LogAction := Prog RaftLog LogFailure

namespace RaftLog

def new : RaftLog := ⟨none,none,∅,none⟩

/-- `BTreeMap::range`: the pairs of the range, in the order of their indices. -/
def range (log : Std.TreeMap Nat String) (wanted : IndexRange) : Except LogFailure (List (Nat × String)) :=
  if wanted.forward then .ok (log.toList.filter fun pair => wanted.contains pair.1) else .error .panicked

/-- The keys of the range are collected first, and removed then. -/
def remove_range (wanted : IndexRange) : LogAction Unit := do
  let log ← Prog.ask RaftLog.log
  let pairs ← Prog.lift (range log wanted)
  Prog.each (fun key => Prog.tell fun store => { store with log := store.log.erase key }) (pairs.map Prod.fst)

def save_vote (vote : Vote) : LogAction Unit := Prog.tell fun store => { store with vote := some vote }

def read_vote : LogAction (Option Vote) := Prog.ask RaftLog.vote

def save_committed (committed : Option LogId) : LogAction Unit := Prog.tell fun store => { store with committed }

def read_committed : LogAction (Option LogId) := Prog.ask RaftLog.committed

/-- From the given id on, that id included. -/
def delete_conflict_logs_since (log_id : LogId) : LogAction Unit :=
  remove_range ⟨.Included log_id.index,.Unbounded⟩

/-- Up to the given id, that id included. -/
def purge_logs_upto (log_id : LogId) : LogAction Unit := do
  Prog.tell fun store => { store with last_purged_log_id := some log_id }
  remove_range ⟨.Unbounded,.Included log_id.index⟩

section
variable (serde_json : EntryJson)

def try_get_log_entries (wanted : IndexRange) : LogAction (List LogEntry) := do
  let log ← Prog.ask RaftLog.log
  let pairs ← Prog.lift (range log wanted)
  Prog.fold (fun entries pair => do
    let ent ← Prog.lift ((serde_json.from_str pair.2).mapError .read_logs)
    pure (entries ++ [ent])) [] pairs

/-- A last text that does not parse counts as no last entry. -/
def get_log_state : LogAction LogState := do
  let log ← Prog.ask RaftLog.log
  let last := log.toList.getLast?.bind fun pair => (serde_json.from_str pair.2).toOption.map LogEntry.log_id
  let last_purged ← Prog.ask RaftLog.last_purged_log_id
  pure { last_purged_log_id := last_purged, last_log_id := last.or last_purged }

/-- One turn of the loop of `append_to_log`. -/
def append_entry (entry : LogEntry) : LogAction Unit := do
  let s ← Prog.lift ((serde_json.to_string entry).mapError (.write_log_entry entry.log_id))
  Prog.tell fun store => { store with log := store.log.insert entry.log_id.index s }

def append_to_log (entries : List LogEntry) : LogAction Unit := Prog.each (append_entry serde_json) entries

end

end RaftLog

/-- A call that changes the log. -/
inductive LogCall where
  | append_to_log (entries : List LogEntry)
  | delete_conflict_logs_since (log_id : LogId)
  | purge_logs_upto (log_id : LogId)
  | save_vote (vote : Vote)
  | save_committed (committed : Option LogId)
  deriving DecidableEq, Repr

namespace LogCall
variable (serde_json : EntryJson)

def perform : LogCall → LogAction Unit
  | .append_to_log entries => RaftLog.append_to_log serde_json entries
  | .delete_conflict_logs_since log_id => RaftLog.delete_conflict_logs_since log_id
  | .purge_logs_upto log_id => RaftLog.purge_logs_upto log_id
  | .save_vote vote => RaftLog.save_vote vote
  | .save_committed committed => RaftLog.save_committed committed

/-- The calls one after the other. -/
def perform_all (calls : List LogCall) : LogAction Unit := Prog.each (perform serde_json) calls

end LogCall

end Maxio
