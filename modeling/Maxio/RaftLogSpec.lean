import Maxio.RaftLog

/-!
What the log answers after any run of calls: an entry is present when the call that dealt last with its index was one
that appended it, and the readers show the present entries.
-/

namespace Maxio

namespace LogCall

/-- The call deals with the index, whether it fills or empties it. -/
def Touches (index : Nat) : LogCall → Prop
  | .append_to_log entries => ∃ entry ∈ entries, entry.log_id.index = index
  | .delete_conflict_logs_since log_id => log_id.index ≤ index
  | .purge_logs_upto log_id => index ≤ log_id.index
  | .save_vote _ | .save_committed _ => False

/-- The call truncates or purges the index. -/
def Removes (index : Nat) : LogCall → Prop
  | .delete_conflict_logs_since log_id => log_id.index ≤ index
  | .purge_logs_upto log_id => index ≤ log_id.index
  | _ => False

/-- The call appends the entry, and no other one at its index after it. -/
def Leaves (entry : LogEntry) : LogCall → Prop
  | .append_to_log entries => ∃ earlier later, entries = earlier ++ entry :: later ∧
      ∀ other ∈ later, other.log_id.index ≠ entry.log_id.index
  | _ => False

/-- The entry is the latest appended at its index, and was neither truncated nor purged since. -/
def Present (calls : List LogCall) (entry : LogEntry) : Prop :=
  ∃ before call after, calls = before ++ call :: after ∧ call.Leaves entry ∧
    ∀ later ∈ after, ¬ later.Touches entry.log_id.index

/-- What the last call of a kind was given. -/
def last {α : Type} (read : LogCall → Option α) (calls : List LogCall) : Option α :=
  calls.reverse.findSome? read

def purged : LogCall → Option LogId
  | .purge_logs_upto log_id => some log_id
  | _ => none

def voted : LogCall → Option Vote
  | .save_vote vote => some vote
  | _ => none

def settled : LogCall → Option (Option LogId)
  | .save_committed committed => some committed
  | _ => none

theorem last_cons {α : Type} (read : LogCall → Option α) (call : LogCall) (rest : List LogCall) :
    last read (call :: rest) = (last read rest).or (read call) := by
  unfold last
  rw [List.reverse_cons,List.findSome?_append]
  congr 1
  cases given : read call with
  | none => simp [given]
  | some a => simp [given]

theorem present_nil (entry : LogEntry) : ¬ Present [] entry := by
  rintro ⟨before,call,after,split,_⟩
  exact absurd split (by simp)

theorem present_cons {call : LogCall} {rest : List LogCall} {entry : LogEntry} :
    Present (call :: rest) entry ↔
      Present rest entry ∨ call.Leaves entry ∧ ∀ later ∈ rest, ¬ later.Touches entry.log_id.index := by
  constructor
  · rintro ⟨before,filled,after,split,leaves,kept⟩
    cases before with
    | nil =>
      obtain ⟨rfl,rfl⟩ := List.cons.inj split
      exact .inr ⟨leaves,kept⟩
    | cons first more =>
      obtain ⟨rfl,rfl⟩ := List.cons.inj split
      exact .inl ⟨more,filled,after,rfl,leaves,kept⟩
  · rintro (⟨before,filled,after,rfl,leaves,kept⟩ | ⟨leaves,kept⟩)
    · exact ⟨call :: before,filled,after,rfl,leaves,kept⟩
    · exact ⟨[],call,rest,rfl,leaves,kept⟩

theorem leaves_nil (entry : LogEntry) : ¬ Leaves entry (.append_to_log []) := by
  rintro ⟨earlier,later,split,_⟩
  exact absurd split (by simp)

theorem leaves_cons {first entry : LogEntry} {rest : List LogEntry} :
    Leaves entry (.append_to_log (first :: rest)) ↔ Leaves entry (.append_to_log rest) ∨
      entry = first ∧ ∀ other ∈ rest, other.log_id.index ≠ entry.log_id.index := by
  constructor
  · rintro ⟨earlier,later,split,lasting⟩
    cases earlier with
    | nil =>
      obtain ⟨rfl,rfl⟩ := List.cons.inj split
      exact .inr ⟨rfl,lasting⟩
    | cons one more =>
      obtain ⟨rfl,rfl⟩ := List.cons.inj split
      exact .inl ⟨more,later,rfl,lasting⟩
  · rintro (⟨earlier,later,rfl,lasting⟩ | ⟨rfl,lasting⟩)
    · exact ⟨first :: earlier,later,rfl,lasting⟩
    · exact ⟨[],rest,rfl,lasting⟩

theorem leaves_appended {call : LogCall} {entry : LogEntry} (leaves : call.Leaves entry) :
    ∃ entries, call = .append_to_log entries ∧ entry ∈ entries := by
  cases call with
  | append_to_log entries =>
    obtain ⟨earlier,later,rfl,_⟩ := leaves
    exact ⟨_,rfl,by simp⟩
  | delete_conflict_logs_since log_id => exact absurd leaves (by simp [Leaves])
  | purge_logs_upto log_id => exact absurd leaves (by simp [Leaves])
  | save_vote vote => exact absurd leaves (by simp [Leaves])
  | save_committed committed => exact absurd leaves (by simp [Leaves])

theorem removes_touches {call : LogCall} {index : Nat} (removes : call.Removes index) : call.Touches index := by
  cases call with
  | append_to_log entries => exact absurd removes (by simp [Removes])
  | delete_conflict_logs_since log_id => exact removes
  | purge_logs_upto log_id => exact removes
  | save_vote vote => exact removes
  | save_committed committed => exact removes

theorem removes_leaves_none {call : LogCall} {index : Nat} (removes : call.Removes index) (entry : LogEntry) :
    ¬ call.Leaves entry := by
  intro leaves
  obtain ⟨entries,rfl,_⟩ := leaves_appended leaves
  exact removes

/-- What is present at an index that a call removed was appended after that call. -/
theorem present_after_removal {before after : List LogCall} {removal : LogCall} {entry : LogEntry}
    (removes : removal.Removes entry.log_id.index) (present : Present (before ++ removal :: after) entry) :
    ∃ entries, .append_to_log entries ∈ after ∧ entry ∈ entries := by
  induction before with
  | nil =>
    rcases present_cons.mp present with ⟨_,filled,_,rfl,leaves,_⟩ | ⟨leaves,_⟩
    · obtain ⟨entries,rfl,among⟩ := leaves_appended leaves
      exact ⟨entries,by simp,among⟩
    · exact absurd leaves (removes_leaves_none removes entry)
  | cons first more ih =>
    rcases present_cons.mp present with later | ⟨_,untouched⟩
    · exact ih later
    · exact absurd (removes_touches removes) (untouched removal (by simp))

end LogCall

namespace RaftLog
open LogCall

theorem toList_ordered (log : Std.TreeMap Nat String) : log.toList.Pairwise fun a b => a.1 < b.1 := by
  have ordered := Std.TreeMap.ordered_keys_toList (t := log)
  exact ordered.imp fun before => Nat.compare_eq_lt.mp before

theorem mem_toList {log : Std.TreeMap Nat String} {pair : Nat × String} :
    pair ∈ log.toList ↔ log[pair.1]? = some pair.2 :=
  Std.TreeMap.mem_toList_iff_getElem?_eq_some

theorem range_forward {log : Std.TreeMap Nat String} {wanted : IndexRange} (forward : wanted.forward = true) :
    range log wanted = .ok (log.toList.filter fun pair => wanted.contains pair.1) := if_pos forward

/-- Removing keys one by one empties exactly them. -/
theorem erase_each (keys : List Nat) (store : RaftLog) : ∃ log,
    (Prog.each (fun key => Prog.tell fun store => { store with log := store.log.erase key }) keys : LogAction Unit)
      store = (.ok (),{ store with log }) ∧ ∀ i, log[i]? = if i ∈ keys then none else store.log[i]? := by
  induction keys generalizing store with
  | nil => exact ⟨store.log,rfl,by simp⟩
  | cons key rest ih =>
    obtain ⟨log,done,left⟩ := ih { store with log := store.log.erase key }
    refine ⟨log,done,?_⟩
    intro i
    rw [left i]
    by_cases among : i ∈ rest
    · simp [among]
    · by_cases same : i = key
      · simp [same]
      · have apart : ¬ key = i := fun equal => same equal.symm
        simp [among,same,apart,Std.TreeMap.getElem?_erase]

theorem remove_range_done (wanted : IndexRange) (forward : wanted.forward = true) (store : RaftLog) : ∃ log,
    remove_range wanted store = (.ok (),{ store with log }) ∧
      ∀ i, log[i]? = if wanted.contains i = true then none else store.log[i]? := by
  obtain ⟨log,done,left⟩ := erase_each
    ((store.log.toList.filter fun pair => wanted.contains pair.1).map Prod.fst) store
  refine ⟨log,?_,?_⟩
  · unfold remove_range
    rw [Prog.ask_bind_apply,range_forward forward,Prog.lift_ok_bind,done]
  · intro i
    rw [left i]
    by_cases inside : wanted.contains i = true
    · rw [if_pos inside]
      split
      next _ => rfl
      next outside =>
        -- an index of the range that is not among the keys holds nothing
        by_contra held
        obtain ⟨text,filled⟩ := Option.ne_none_iff_exists'.mp held
        apply outside
        exact List.mem_map.mpr ⟨(i,text),List.mem_filter.mpr ⟨mem_toList.mpr filled,inside⟩,rfl⟩
    · rw [if_neg inside,if_neg]
      intro among
      obtain ⟨pair,kept,rfl⟩ := List.mem_map.mp among
      exact inside (List.mem_filter.mp kept).2

section
variable (serde_json : EntryJson)

/-- The texts of the log are those of the given entries, each under its index. -/
structure Keeps (log : Std.TreeMap Nat String) (held : LogEntry → Prop) : Prop where
  sound : ∀ i text, log[i]? = some text →
    ∃ entry, serde_json.from_str text = .ok entry ∧ entry.log_id.index = i ∧ held entry
  complete : ∀ entry, held entry →
    ∃ text, log[entry.log_id.index]? = some text ∧ serde_json.from_str text = .ok entry

/-- The entry survives being written and read again. -/
def RoundTrips (entry : LogEntry) : Prop :=
  ∃ text, serde_json.to_string entry = .ok text ∧ serde_json.from_str text = .ok entry

variable {serde_json} {log : Std.TreeMap Nat String} {held : LogEntry → Prop}

theorem Keeps.congr {held' : LogEntry → Prop} (keeps : Keeps serde_json log held)
    (same : ∀ entry, held entry ↔ held' entry) : Keeps serde_json log held' := by
  have equal : held = held' := funext fun entry => propext (same entry)
  rw [← equal]
  exact keeps

theorem Keeps.unique {a b : LogEntry} (keeps : Keeps serde_json log held) (first : held a) (second : held b)
    (same : a.log_id.index = b.log_id.index) : a = b := by
  obtain ⟨text,there,reads⟩ := keeps.complete a first
  obtain ⟨text',there',reads'⟩ := keeps.complete b second
  rw [same,there',Option.some.injEq] at there
  rw [there,reads,Except.ok.injEq] at reads'
  exact reads'

theorem Keeps.insert {entry : LogEntry} {text : String} (keeps : Keeps serde_json log held)
    (reads : serde_json.from_str text = .ok entry) :
    Keeps serde_json (log.insert entry.log_id.index text)
      fun other => other = entry ∨ held other ∧ other.log_id.index ≠ entry.log_id.index := by
  constructor
  · intro i found there
    rw [Std.TreeMap.getElem?_insert] at there
    by_cases same : entry.log_id.index = i
    · rw [if_pos (by simp [same]),Option.some.injEq] at there
      exact ⟨entry,by rw [← there,reads],same,.inl rfl⟩
    · rw [if_neg (by simpa using same)] at there
      obtain ⟨other,parses,rfl,old⟩ := keeps.sound i found there
      exact ⟨other,parses,rfl,.inr ⟨old,fun equal => same equal.symm⟩⟩
  · rintro other (rfl | ⟨old,apart⟩)
    · exact ⟨text,by simp,reads⟩
    · obtain ⟨found,there,parses⟩ := keeps.complete other old
      refine ⟨found,?_,parses⟩
      rw [Std.TreeMap.getElem?_insert,if_neg (by simpa using fun equal => apart equal.symm),there]

theorem Keeps.remove {log' : Std.TreeMap Nat String} {gone : Nat → Bool} (keeps : Keeps serde_json log held)
    (left : ∀ i, log'[i]? = if gone i = true then none else log[i]?) :
    Keeps serde_json log' fun entry => held entry ∧ ¬ gone entry.log_id.index = true := by
  constructor
  · intro i text there
    rw [left i] at there
    by_cases removed : gone i = true
    · rw [if_pos removed] at there
      exact absurd there (by simp)
    · rw [if_neg removed] at there
      obtain ⟨entry,parses,rfl,old⟩ := keeps.sound i text there
      exact ⟨entry,parses,rfl,old,removed⟩
  · rintro entry ⟨old,kept⟩
    obtain ⟨text,there,parses⟩ := keeps.complete entry old
    exact ⟨text,by rw [left,if_neg kept,there],parses⟩

/-- Appending fills the indices of the entries, and leaves the others alone. -/
theorem append_to_log_done (entries : List LogEntry) (trips : ∀ entry ∈ entries, RoundTrips serde_json entry)
    (store : RaftLog) (keeps : Keeps serde_json store.log held) : ∃ log,
      append_to_log serde_json entries store = (.ok (),{ store with log }) ∧
      Keeps serde_json log fun entry => Leaves entry (.append_to_log entries) ∨
        held entry ∧ ¬ Touches entry.log_id.index (.append_to_log entries) := by
  induction entries generalizing store held with
  | nil =>
    refine ⟨store.log,rfl,keeps.congr ?_⟩
    intro entry
    simp [leaves_nil,Touches]
  | cons first rest ih =>
    obtain ⟨text,written,reads⟩ := trips first (by simp)
    obtain ⟨log,done,kept⟩ := ih (fun entry among => trips entry (by simp [among]))
      { store with log := store.log.insert first.log_id.index text } (keeps.insert reads)
    refine ⟨log,?_,kept.congr ?_⟩
    · have appended : append_entry serde_json first store =
          (.ok (),{ store with log := store.log.insert first.log_id.index text }) := by
        unfold append_entry
        rw [written]
        rfl
      unfold append_to_log at done ⊢
      rw [Prog.each,Prog.bind_of_ok appended,done]
    · intro entry
      rw [leaves_cons]
      constructor
      · rintro (left | ⟨rfl | ⟨old,apart⟩,untouched⟩)
        · exact .inl (.inl left)
        · refine .inl (.inr ⟨rfl,?_⟩)
          intro other among same
          exact untouched ⟨other,among,same⟩
        · refine .inr ⟨old,?_⟩
          rintro ⟨other,among,same⟩
          rcases List.mem_cons.mp among with rfl | deeper
          · exact apart same.symm
          · exact untouched ⟨other,deeper,same⟩
      · rintro ((left | ⟨rfl,lasting⟩) | ⟨old,untouched⟩)
        · exact .inl left
        · refine .inr ⟨.inl rfl,?_⟩
          rintro ⟨other,among,same⟩
          exact lasting other among same
        · refine .inr ⟨.inr ⟨old,?_⟩,?_⟩
          · intro same
            exact untouched ⟨first,by simp,same.symm⟩
          · rintro ⟨other,among,same⟩
            exact untouched ⟨other,by simp [among],same⟩

/-- What a run of calls has made of a store: its entries, its marker, its vote and its committed id. -/
structure Follows (serde_json : EntryJson) (calls : List LogCall) (held : LogEntry → Prop) (store store' : RaftLog) : Prop where
  keeps : Keeps serde_json store'.log fun entry => Present calls entry ∨
    held entry ∧ ∀ call ∈ calls, ¬ call.Touches entry.log_id.index
  purged : store'.last_purged_log_id = (last purged calls).or store.last_purged_log_id
  voted : store'.vote = (last voted calls).or store.vote
  settled : store'.committed = (last settled calls).getD store.committed

/-- What a call leaves of the present entries. -/
def Kept (call : LogCall) (held : LogEntry → Prop) (entry : LogEntry) : Prop :=
  call.Leaves entry ∨ held entry ∧ ¬ call.Touches entry.log_id.index

/-- The call writes entries that can be read again. -/
def Writable (serde_json : EntryJson) : LogCall → Prop
  | .append_to_log entries => ∀ entry ∈ entries, RoundTrips serde_json entry
  | _ => True

/-- One call. -/
theorem perform_done {call : LogCall} (writable : Writable serde_json call) {store : RaftLog}
    (keeps : Keeps serde_json store.log held) : ∃ store',
      call.perform serde_json store = (.ok (),store') ∧ Keeps serde_json store'.log (Kept call held) ∧
      store'.last_purged_log_id = (LogCall.purged call).or store.last_purged_log_id ∧
      store'.vote = (LogCall.voted call).or store.vote ∧
      store'.committed = (LogCall.settled call).getD store.committed := by
  cases call with
  | append_to_log entries =>
    obtain ⟨log,done,kept⟩ := append_to_log_done entries writable store keeps
    exact ⟨_,done,kept,rfl,rfl,rfl⟩
  | delete_conflict_logs_since log_id =>
    obtain ⟨log,done,left⟩ := remove_range_done ⟨.Included log_id.index,.Unbounded⟩ rfl store
    refine ⟨_,done,(keeps.remove left).congr ?_,rfl,rfl,rfl⟩
    intro entry
    simp [Kept,Leaves,Touches,IndexRange.contains]
  | purge_logs_upto log_id =>
    obtain ⟨log,done,left⟩ := remove_range_done ⟨.Unbounded,.Included log_id.index⟩ rfl
      { store with last_purged_log_id := some log_id }
    refine ⟨_,done,(keeps.remove left).congr ?_,rfl,rfl,rfl⟩
    intro entry
    simp [Kept,Leaves,Touches,IndexRange.contains]
  | save_vote vote =>
    refine ⟨_,rfl,keeps.congr ?_,rfl,rfl,rfl⟩
    intro entry
    simp [Kept,Leaves,Touches]
  | save_committed committed =>
    refine ⟨_,rfl,keeps.congr ?_,rfl,rfl,rfl⟩
    intro entry
    simp [Kept,Leaves,Touches]

/-- A run of calls. -/
theorem perform_all_done (calls : List LogCall) (writable : ∀ call ∈ calls, Writable serde_json call)
    {store : RaftLog} (keeps : Keeps serde_json store.log held) : ∃ store',
      perform_all serde_json calls store = (.ok (),store') ∧ Follows serde_json calls held store store' := by
  induction calls generalizing store held with
  | nil =>
    refine ⟨store,rfl,keeps.congr ?_,rfl,rfl,rfl⟩
    intro entry
    simp [present_nil]
  | cons call rest ih =>
    obtain ⟨middle,first,kept,purged,voted,settled⟩ := perform_done (writable call (by simp)) keeps
    obtain ⟨store',done,follows⟩ := ih (fun other among => writable other (by simp [among])) kept
    refine ⟨store',?_,?_,?_,?_,?_⟩
    · unfold perform_all at done ⊢
      rw [Prog.each,Prog.bind_of_ok first,done]
    · refine follows.keeps.congr ?_
      intro entry
      rw [present_cons,Kept]
      constructor
      · rintro (later | ⟨leaves | ⟨old,untouched⟩,lasting⟩)
        · exact .inl (.inl later)
        · exact .inl (.inr ⟨leaves,lasting⟩)
        · exact .inr ⟨old,List.forall_mem_cons.mpr ⟨untouched,lasting⟩⟩
      · rintro ((later | ⟨leaves,lasting⟩) | ⟨old,untouched⟩)
        · exact .inl later
        · exact .inr ⟨.inl leaves,lasting⟩
        · obtain ⟨first,lasting⟩ := List.forall_mem_cons.mp untouched
          exact .inr ⟨.inr ⟨old,first⟩,lasting⟩
    · rw [follows.purged,purged,last_cons,Option.or_assoc]
    · rw [follows.voted,voted,last_cons,Option.or_assoc]
    · rw [follows.settled,settled,last_cons]
      cases last LogCall.settled rest <;> rfl

/-- The loop of `try_get_log_entries` reads every pair of the range. -/
theorem read_each (keeps : Keeps serde_json log held) (pairs : List (Nat × String))
    (there : ∀ pair ∈ pairs, log[pair.1]? = some pair.2) (read : List LogEntry) (store : RaftLog) : ∃ found,
      (Prog.fold (fun entries pair => do
        let ent ← Prog.lift ((serde_json.from_str pair.2).mapError .read_logs)
        pure (entries ++ [ent])) read pairs : LogAction (List LogEntry)) store = (.ok (read ++ found),store) ∧
      List.Forall₂ (fun pair entry => serde_json.from_str pair.2 = .ok entry ∧ entry.log_id.index = pair.1 ∧
        held entry) pairs found := by
  induction pairs generalizing read with
  | nil => exact ⟨[],by simp [Prog.fold],.nil⟩
  | cons pair rest ih =>
    obtain ⟨entry,parses,place,known⟩ := keeps.sound pair.1 pair.2 (there pair (by simp))
    obtain ⟨found,done,matching⟩ := ih (fun other among => there other (by simp [among])) (read ++ [entry])
    refine ⟨entry :: found,?_,.cons ⟨parses,place,known⟩ matching⟩
    rw [Prog.fold,parses]
    rw [List.append_assoc] at done
    exact done

theorem read_places {pairs : List (Nat × String)} {found : List LogEntry}
    (matching : List.Forall₂ (fun pair entry => serde_json.from_str pair.2 = .ok entry ∧ entry.log_id.index = pair.1 ∧
      held entry) pairs found) : found.map (fun entry => entry.log_id.index) = pairs.map Prod.fst := by
  induction matching with
  | nil => rfl
  | cons one _ ih => rw [List.map_cons,List.map_cons,ih,one.2.1]

theorem try_get_log_entries_done {store : RaftLog} (keeps : Keeps serde_json store.log held)
    {wanted : IndexRange} (forward : wanted.forward = true) : ∃ found,
      try_get_log_entries serde_json wanted store = (.ok found,store) ∧
      found.Pairwise (fun a b => a.log_id.index < b.log_id.index) ∧
      ∀ entry, entry ∈ found ↔ wanted.contains entry.log_id.index = true ∧ held entry := by
  let pairs := store.log.toList.filter fun pair => wanted.contains pair.1
  have stored : ∀ pair ∈ pairs, store.log[pair.1]? = some pair.2 := by
    intro pair among
    exact mem_toList.mp (List.mem_filter.mp among).1
  obtain ⟨found,done,matching⟩ := read_each keeps pairs stored [] store
  refine ⟨found,?_,?_,?_⟩
  · unfold try_get_log_entries
    rw [Prog.ask_bind_apply,range_forward forward,Prog.lift_ok_bind,done,List.nil_append]
  · have places := read_places matching
    have ordered : (pairs.map Prod.fst).Pairwise (· < ·) :=
      List.pairwise_map.mpr ((toList_ordered store.log).filter _)
    rw [← places] at ordered
    exact List.pairwise_map.mp ordered
  · intro entry
    constructor
    · intro among
      obtain ⟨i,inside,rfl⟩ := List.getElem_of_mem among
      have at_i := List.forall₂_iff_get.mp matching
      obtain ⟨_,place,known⟩ := at_i.2 i (by rw [at_i.1]; exact inside) inside
      refine ⟨?_,known⟩
      have chosen := (List.mem_filter.mp (List.get_mem pairs ⟨i,by rw [at_i.1]; exact inside⟩)).2
      rw [List.get_eq_getElem] at place
      rw [place]
      exact chosen
    · rintro ⟨inside,known⟩
      obtain ⟨text,there,parses⟩ := keeps.complete entry known
      have chosen : (entry.log_id.index,text) ∈ pairs :=
        List.mem_filter.mpr ⟨mem_toList.mpr there,inside⟩
      obtain ⟨i,bound,at_i⟩ := List.getElem_of_mem chosen
      have both := List.forall₂_iff_get.mp matching
      obtain ⟨reads,_,_⟩ := both.2 i bound (by rw [← both.1]; exact bound)
      rw [List.get_eq_getElem,at_i,parses,Except.ok.injEq] at reads
      rw [reads]
      exact List.get_mem found _

theorem get_log_state_done {store : RaftLog} (keeps : Keeps serde_json store.log held) : ∃ state,
    get_log_state serde_json store = (.ok state,store) ∧
      state.last_purged_log_id = store.last_purged_log_id ∧
      ((∃ entry, held entry ∧ (∀ other, held other → other.log_id.index ≤ entry.log_id.index) ∧
          state.last_log_id = some entry.log_id) ∨
        (∀ entry, ¬ held entry) ∧ state.last_log_id = store.last_purged_log_id) := by
  refine ⟨_,rfl,rfl,?_⟩
  cases final : store.log.toList.getLast? with
  | none =>
    right
    have empty := List.getLast?_eq_none_iff.mp final
    refine ⟨?_,rfl⟩
    intro entry known
    obtain ⟨text,there,_⟩ := keeps.complete entry known
    have among : (entry.log_id.index,text) ∈ store.log.toList := mem_toList.mpr there
    rw [empty] at among
    exact absurd among (by simp)
  | some pair =>
    left
    obtain ⟨front,shape⟩ := List.getLast?_eq_some_iff.mp final
    have there := mem_toList.mp (show pair ∈ store.log.toList by rw [shape]; simp)
    obtain ⟨entry,parses,place,known⟩ := keeps.sound pair.1 pair.2 there
    refine ⟨entry,known,?_,?_⟩
    · intro other also
      obtain ⟨text,kept,_⟩ := keeps.complete other also
      have among : (other.log_id.index,text) ∈ store.log.toList := mem_toList.mpr kept
      have ordered := toList_ordered store.log
      rw [shape] at among ordered
      rcases List.mem_append.mp among with earlier | last
      · have below := (List.pairwise_append.mp ordered).2.2 _ earlier pair (by simp)
        rw [place]
        exact Nat.le_of_lt below
      · rw [List.mem_singleton] at last
        rw [place,← last]
    · simp [parses,Except.toOption]

end
end RaftLog

open LogCall RaftLog in
/-- The contract of the log store. After any run of calls, a range that `BTreeMap` takes gives exactly the present
    entries of the range in the order of their indices, the state of the log names the last present entry and the
    marker, and an entry at an index that was once truncated or purged is one that was appended afterwards. The
    votes and committed ids that were saved last are read back. -/
theorem log_store_keeps_the_latest_entries (serde_json : EntryJson) (calls : List LogCall)
    (round_trips : ∀ entries, .append_to_log entries ∈ calls → ∀ entry ∈ entries, RoundTrips serde_json entry) :
    ∃ store, perform_all serde_json calls RaftLog.new = (.ok (),store) ∧
      (∀ wanted : IndexRange, wanted.forward = true → ∃ found,
        try_get_log_entries serde_json wanted store = (.ok found,store) ∧
        found.Pairwise (fun a b => a.log_id.index < b.log_id.index) ∧
        ∀ entry, entry ∈ found ↔ wanted.contains entry.log_id.index = true ∧ Present calls entry) ∧
      (∃ state, get_log_state serde_json store = (.ok state,store) ∧
        state.last_purged_log_id = last LogCall.purged calls ∧
        ((∃ entry, Present calls entry ∧
            (∀ other, Present calls other → other.log_id.index ≤ entry.log_id.index) ∧
            state.last_log_id = some entry.log_id) ∨
          (∀ entry, ¬ Present calls entry) ∧ state.last_log_id = last LogCall.purged calls)) ∧
      (∀ before removal after, calls = before ++ removal :: after →
        ∀ entry, removal.Removes entry.log_id.index → Present calls entry →
          ∃ entries, .append_to_log entries ∈ after ∧ entry ∈ entries) ∧
      read_vote store = (.ok (last LogCall.voted calls),store) ∧
      read_committed store = (.ok ((last LogCall.settled calls).getD none),store) := by
  have writable : ∀ call ∈ calls, Writable serde_json call := by
    intro call among
    cases call with
    | append_to_log entries => exact round_trips entries among
    | delete_conflict_logs_since log_id => trivial
    | purge_logs_upto log_id => trivial
    | save_vote vote => trivial
    | save_committed committed => trivial
  have empty : Keeps serde_json RaftLog.new.log fun _ => False := by
    constructor
    · intro i text there
      exact absurd there (by simp [RaftLog.new])
    · intro entry none
      exact none.elim
  obtain ⟨store,done,follows⟩ := perform_all_done calls writable empty
  have keeps : Keeps serde_json store.log (Present calls) := follows.keeps.congr (by simp)
  have purged : store.last_purged_log_id = last LogCall.purged calls := by
    rw [follows.purged,RaftLog.new,Option.or_none]
  refine ⟨store,done,?_,?_,?_,?_,?_⟩
  · intro wanted forward
    exact try_get_log_entries_done keeps forward
  · have state := get_log_state_done keeps
    rw [purged] at state
    exact state
  · rintro before removal after rfl entry removes present
    exact present_after_removal removes present
  · rw [read_vote,Prog.ask_apply,follows.voted,RaftLog.new,Option.or_none]
  · rw [read_committed,Prog.ask_apply,follows.settled,RaftLog.new]

namespace Sample

/-- The JSON of a blank entry. -/
def blank_text (log_id : LogId) : String :=
  "\x7b\"log_id\":\x7b\"leader_id\":\x7b\"term\":" ++ toString log_id.leader_id ++
    ",\"node_id\":1\x7d,\"index\":" ++ toString log_id.index ++ "\x7d,\"payload\":\"Blank\"\x7d"

/-- Blank entries: two of a first term, and one of a second term in the place of the latter. -/
def blanks : List LogEntry := [⟨⟨1,0⟩,.Blank⟩,⟨⟨1,1⟩,.Blank⟩,⟨⟨2,1⟩,.Blank⟩]

def blank_json : EntryJson where
  to_string entry := .ok (blank_text entry.log_id)
  from_str text := match blanks.find? fun entry => blank_text entry.log_id == text with
    | some entry => .ok entry
    | none => .error "expected value"

/-- A follower takes two entries, learns of another leader, and purges the first. -/
def follower_calls : List LogCall := [.append_to_log [⟨⟨1,0⟩,.Blank⟩,⟨⟨1,1⟩,.Blank⟩],
  .delete_conflict_logs_since ⟨1,1⟩,.append_to_log [⟨⟨2,1⟩,.Blank⟩],.purge_logs_upto ⟨1,0⟩]

theorem blanks_round_trip : ∀ entry ∈ blanks, RaftLog.RoundTrips blank_json entry := by
  have reads : ∀ entry ∈ blanks, (blank_json.from_str (blank_text entry.log_id)).toOption = some entry := by
    decide +kernel
  intro entry among
  refine ⟨blank_text entry.log_id,rfl,?_⟩
  have found := reads entry among
  cases parsed : blank_json.from_str (blank_text entry.log_id) with
  | error e => simp [parsed,Except.toOption] at found
  | ok other => simpa [parsed,Except.toOption] using found

end Sample

open LogCall RaftLog Sample in
theorem follower_sees_the_new_leader : ∃ store found,
    perform_all blank_json follower_calls RaftLog.new = (.ok (),store) ∧
      try_get_log_entries blank_json ⟨.Included 0,.Excluded 2⟩ store = (.ok found,store) ∧
      ⟨⟨2,1⟩,.Blank⟩ ∈ found := by
  have trips : ∀ entries, .append_to_log entries ∈ follower_calls → ∀ entry ∈ entries,
      RoundTrips blank_json entry := by
    intro entries among entry member
    apply blanks_round_trip
    simp only [follower_calls,List.mem_cons,LogCall.append_to_log.injEq,reduceCtorEq,List.not_mem_nil,
      false_or,or_false] at among
    rcases among with rfl | rfl
    · rcases List.mem_cons.mp member with rfl | last
      · decide
      · rw [List.mem_singleton.mp last]
        decide
    · rw [List.mem_singleton.mp member]
      decide
  obtain ⟨store,done,reads,_⟩ := log_store_keeps_the_latest_entries blank_json follower_calls trips
  obtain ⟨found,shown,_,exactly⟩ := reads ⟨.Included 0,.Excluded 2⟩ rfl
  refine ⟨store,found,done,shown,(exactly _).mpr ⟨rfl,?_⟩⟩
  have split : follower_calls = follower_calls.take 2 ++ .append_to_log [⟨⟨2,1⟩,.Blank⟩] ::
      [.purge_logs_upto ⟨1,0⟩] := rfl
  refine ⟨_,_,_,split,⟨[],[],rfl,by simp⟩,?_⟩
  intro later among
  rw [List.mem_singleton.mp among]
  simp [Touches]

end Maxio
