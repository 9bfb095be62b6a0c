import Maxio.Actions
import Maxio.Tagging

/-!
A delete of many objects next to the deletes of each of them: which storage calls the keys of a document come to, when the
reader trims them and nobody looks at the versions.
-/

namespace Maxio
open XmlTexts (Solid Token Xml trim shown)

/-! ### Documents -/

/-- An object to delete, or a version of it. -/
structure DeleteEntry where
  key : Text
  version_id : Option Text
  deriving DecidableEq, Repr

def DeleteEntry.element (e : DeleteEntry) : Xml := .node "Object"
  (.leaf "Key" (String.ofList e.key) :: (e.version_id.map fun v => Xml.leaf "VersionId" (String.ofList v)).toList)

def delete_document (entries : List DeleteEntry) : Xml := .node "Delete" (entries.map DeleteEntry.element)

def XmlEvent.marked (event : XmlEvent) : Bool := event ≠ .Other

/-- A body in which the reader finds the elements of the document, whatever else it has. -/
def Renders (Q : QuickXml) (entries : List DeleteEntry) (body : Bytes) : Prop :=
  (Q.read_events (from_utf8_lossy body)).filter XmlEvent.marked =
    ((delete_document entries).tokens.map .of_token).filter XmlEvent.marked

/-! ### The parser -/

/-- The variables of the loop in `delete_objects`. -/
structure KeysParser where
  keys : List Text
  in_key : Bool
  deriving DecidableEq, Repr

def KeysParser.new : KeysParser := { keys := [], in_key := false }

def KeysParser.step (p : KeysParser) : XmlEvent → Except S3Error KeysParser
  | .Start name => if name = "Key" then .ok { p with in_key := true } else .ok p
  | .Text unescaped =>
    if p.in_key then .ok { keys := p.keys ++ [(unescaped.getD "").toList], in_key := false } else .ok p
  | .End name => if name = "Key" then .ok { p with in_key := false } else .ok p
  | .Err => .error malformed_xml
  | .Other => .ok p

def DELETE_BODY_MAX : Nat := 1024 * 1024

/-- The keys of a body. -/
def parse_delete_keys (Q : QuickXml) (body : Bytes) : Except S3Error (List Text) := do
  let bytes ← to_bytes DELETE_BODY_MAX body
  let parser ← (Q.read_events (from_utf8_lossy bytes)).foldlM KeysParser.step .new
  .ok parser.keys

/-- The message with this body. -/
def Message.with_delete_body (Q : QuickXml) (message : Message) (body : Bytes) : Message := { message with
  parse := fun stage => if stage = .body then (parse_delete_keys Q body).map fun _ => () else message.parse stage
  delete_keys := ((parse_delete_keys Q body).toOption).getD [] }

/-! ### What is deleted -/

/-- The deletions among some events. -/
def deletions (log : List Event) : List (Op × Option Text) := log.filterMap fun
  | .call c => if c.op.deletes then some (c.op,c.key) else none
  | _ => none

/-- The parameters of the delete of one object. -/
def DeleteEntry.params (e : DeleteEntry) : Params := (e.version_id.map fun v => ("versionId".toList,v)).toList

/-- The storage call that the delete of one object is for. -/
def DeleteEntry.deletion (e : DeleteEntry) : Op × Option Text :=
  (if e.version_id.isSome then .delete_object_version else .delete_object,some e.key)

theorem deletions_append (front back : List Event) : deletions (front ++ back) = deletions front ++ deletions back :=
  List.filterMap_append

theorem deletions_quiet {log : List Event} (quiet : ∀ e ∈ log, ∀ c, e ≠ .call c) : deletions log = [] := by
  rw [deletions,List.filterMap_eq_nil_iff]
  intro e listed
  cases e with
  | call c => exact absurd rfl (quiet _ listed c)
  | _ => rfl

/-! ### The keys of a document -/

/-- The key that an element comes to, unless it is blank. -/
def read_key (key : Text) : Option Text := if trim key = [] then none else some (trim key)

namespace KeysParser

theorem run_key (keys : List Text) (key : Text) :
    run_tokens step ⟨keys,false⟩ (Xml.leaf "Key" (String.ofList key)).tokens = .ok ⟨keys ++ (read_key key).toList,false⟩ := by
  rw [Xml.tokens,shown,read_key,String.toList_ofList]
  by_cases empty : key.isEmpty = true
  · rw [if_pos empty,if_pos (by rw [List.isEmpty_iff.mp empty]; rfl),Option.toList_none,List.append_nil]
    rfl
  · rw [if_neg empty]
    by_cases blank : trim key = []
    · rw [if_pos blank,if_pos blank,Option.toList_none,List.append_nil]
      rfl
    · rw [if_neg blank,if_neg blank]
      have text : (String.ofList (trim key)).toList = trim key := String.toList_ofList
      simp [run_tokens,XmlEvent.of_token,step,text,pure,Except.pure,bind,Except.bind]

theorem run_version (keys : List Text) (v : String) :
    run_tokens step ⟨keys,false⟩ (Xml.leaf "VersionId" v).tokens = .ok ⟨keys,false⟩ := by
  rw [Xml.tokens,shown]
  split
  · rfl
  · split <;> rfl

theorem run_node {keys keys' : List Text} {name : String} {children : List Xml} (other : name ≠ "Key")
    (inner : run_tokens step ⟨keys,false⟩ (Xml.tokens_of children) = .ok ⟨keys',false⟩) :
    run_tokens step ⟨keys,false⟩ (Xml.node name children).tokens = .ok ⟨keys',false⟩ := by
  apply run_tokens_node rfl ?_ ?_ inner
  · rw [step,if_neg other]
  · rw [step,if_neg other]

theorem run_entry (keys : List Text) (e : DeleteEntry) :
    run_tokens step ⟨keys,false⟩ e.element.tokens = .ok ⟨keys ++ (read_key e.key).toList,false⟩ := by
  apply run_node (by decide)
  rw [Xml.tokens_of,run_tokens_after (run_key keys e.key)]
  cases e.version_id with
  | none => rfl
  | some v =>
    rw [Option.map_some,Option.toList_some,Xml.tokens_of,Xml.tokens_of,List.append_nil]
    exact run_version _ _

theorem run_entries (keys : List Text) (entries : List DeleteEntry) :
    run_tokens step ⟨keys,false⟩ (Xml.tokens_of (entries.map DeleteEntry.element)) =
      .ok ⟨keys ++ entries.filterMap fun e => read_key e.key,false⟩ := by
  induction entries generalizing keys with
  | nil =>
    rw [List.filterMap_nil,List.append_nil]
    rfl
  | cons e rest ih =>
    rw [List.map_cons,Xml.tokens_of,run_tokens_after (run_entry keys e),ih,List.append_assoc]
    cases found : read_key e.key <;> simp [found]

/-- What a reader passes over changes nothing. -/
theorem marked_only (p : KeysParser) (events : List XmlEvent) :
    events.foldlM step p = (events.filter XmlEvent.marked).foldlM step p := by
  induction events generalizing p with
  | nil => rfl
  | cons event rest ih =>
    by_cases other : event = .Other
    · subst other
      rw [List.filter_cons_of_neg (by decide),List.foldlM_cons]
      exact ih p
    · rw [List.filter_cons_of_pos (by simp [XmlEvent.marked,other]),List.foldlM_cons,List.foldlM_cons]
      congr 1
      funext p'
      exact ih p'

end KeysParser

/-- The keys of a body that is not too long are those of its document, trimmed, without the blank ones. -/
theorem parse_delete_keys_eq {Q : QuickXml} {entries : List DeleteEntry} {body : Bytes} (renders : Renders Q entries body)
    (fits : body.length ≤ DELETE_BODY_MAX) :
    parse_delete_keys Q body = .ok (entries.filterMap fun e => read_key e.key) := by
  have read := KeysParser.run_node (show "Delete" ≠ "Key" by decide) (KeysParser.run_entries [] entries)
  rw [run_tokens,List.nil_append] at read
  rw [parse_delete_keys,to_bytes,if_neg (by omega)]
  change (List.foldlM KeysParser.step .new (Q.read_events (from_utf8_lossy body)) >>= _) = _
  rw [KeysParser.marked_only,renders,← KeysParser.marked_only]
  change (List.foldlM KeysParser.step ⟨[],false⟩ ((Xml.node "Delete" (entries.map DeleteEntry.element)).tokens.map _) >>= _) = _
  rw [read]
  rfl

/-! ### The handlers -/

/-- The gates that the request passes, whatever happened before: those of the bucket, and those of these keys. -/
structure LetIn (state : AppState) (request : Request) (ctx : S3RequestContext) (bucket : Text) (keys : List Text) : Prop where
  present : ∀ log, (state.ensure_bucket_exists bucket log).1 = .ok ()
  posts : ∀ log, (state.gates request ctx .POST bucket none [("delete".toList,[])] log).1 = .ok ()
  deletes : ∀ key ∈ keys, ∀ params log, (state.gates request ctx .DELETE bucket (some key) params log).1 = .ok ()

/-- The requests that delete one object each, under the same host. -/
structure SingleDeletes (request : Request) (entries : List DeleteEntry) (single : DeleteEntry → Request) : Prop where
  host : ∀ e ∈ entries, (single e).host = request.host
  params : ∀ e ∈ entries, parse_query (single e).query = e.params

section
variable {α β : Type}

/-- A step without storage calls that goes through. -/
theorem after_quiet {Q : α → Prop} {m : Handler α} (logs : Logs (fun e => ∀ c, e ≠ .call c) Q m) {a : α}
    (passes : ∀ log, (m log).1 = .ok a) (f : α → Handler β) (log : List Event) :
    ∃ log', deletions log' = deletions log ∧ (m >>= f) log = f a log' := by
  obtain ⟨new,added,quiet,-⟩ := logs log
  refine ⟨log ++ new,?_,Prog.bind_of_ok ?_⟩
  · rw [deletions_append,deletions_quiet quiet,List.append_nil]
  · rw [← passes log,← added]

variable {state : AppState} {request : Request} {ctx : S3RequestContext} {bucket : Text} {keys : List Text}

theorem gates_quiet (method : Method) (object_key : Option Text) (params : Params) :
    Logs (fun e => ∀ c, e ≠ .call c) (fun _ => True) (state.gates request ctx method bucket object_key params) :=
  (AppState.gates_log (fun _ _ _ => by simp) fun _ _ => ⟨fun _ => by simp,fun _ _ _ => by simp⟩).mono fun _ _ => trivial

theorem present_quiet : Logs (fun e => ∀ c, e ≠ .call c) (fun _ => True) (state.ensure_bucket_exists bucket) :=
  (AppState.ensure_bucket_exists_logs (fun _ _ _ => by simp) bucket).mono fun _ _ => trivial

theorem each_gate (deletes : ∀ key ∈ keys, ∀ params log,
      (state.gates request ctx .DELETE bucket (some key) params log).1 = .ok ()) (log : List Event) :
    ∃ log', deletions log' = deletions log ∧
      Prog.each (fun key => state.gates request ctx .DELETE bucket (some key) []) keys log = (.ok (),log') := by
  induction keys generalizing log with
  | nil => exact ⟨log,rfl,rfl⟩
  | cons key rest ih =>
    obtain ⟨log₁,same₁,first⟩ := after_quiet (gates_quiet .DELETE (some key) []) (deletes key List.mem_cons_self [])
      (fun _ => Prog.each (fun key => state.gates request ctx .DELETE bucket (some key) []) rest) log
    obtain ⟨log₂,same₂,later⟩ := ih (fun other listed => deletes other (List.mem_cons_of_mem key listed)) log₁
    exact ⟨log₂,same₂.trans same₁,first.trans later⟩

/-- An answer at the end logs nothing. -/
theorem ends_alike (m : Handler α) (b : β) (log : List Event) : ((m >>= fun _ => pure b) log).2 = (m log).2 := by
  rw [Prog.bind_apply]
  split
  next same => rw [same]; rfl
  next same => rw [same]

theorem each_attempt (log : List Event) :
    deletions (Prog.each (fun key => do
      let _ ← state.attempt_call ⟨.delete_object,bucket,some key,.body⟩
      pure ()) keys log).2 = deletions log ++ keys.map fun key => (.delete_object,some key) := by
  induction keys generalizing log with
  | nil => simp [Prog.each]
  | cons key rest ih =>
    have step := ih (log ++ [.call ⟨.delete_object,bucket,some key,.body⟩])
    rw [deletions_append] at step
    rw [List.map_cons,List.append_cons]
    exact step

/-- A call that deletes, with nothing but reads behind it. -/
theorem call_deletions {c : Call} (deletes : c.op.deletes = true) {Q : β → Prop} {f : Unit → Handler β}
    (quiet : Logs (fun e => ∀ c, e ≠ .call c) Q (f ())) (log : List Event) :
    deletions ((state.call c >>= f) log).2 = deletions log ++ [(c.op,c.key)] := by
  have made : deletions [.call c] = [(c.op,c.key)] := by simp [deletions,deletes]
  cases answer : state.outcome log c with
  | error e =>
    have called : state.call c log = (.error (.storage e),log ++ [.call c]) := by
      rw [AppState.call,Prog.bind_of_ok (show state.attempt_call c log = (.ok (state.outcome log c),log ++ [.call c]) from rfl),
        answer]
      rfl
    rw [Prog.bind_of_error called,deletions_append,made]
  | ok u =>
    have called : state.call c log = (.ok (),log ++ [.call c]) := by
      rw [AppState.call,Prog.bind_of_ok (show state.attempt_call c log = (.ok (state.outcome log c),log ++ [.call c]) from rfl),
        answer]
      rfl
    obtain ⟨new,added,silent,-⟩ := quiet (log ++ [.call c])
    rw [Prog.bind_of_ok called,added,deletions_append,deletions_append,made,deletions_quiet silent,List.append_nil]

/-- The delete of one object makes its one call. -/
theorem single_deletions {entries : List DeleteEntry} {single : DeleteEntry → Request}
    (singles : SingleDeletes request entries single) (admits : LetIn state request ctx bucket keys) {e : DeleteEntry}
    (own : e ∈ entries) (listed : e.key ∈ keys) :
    deletions (state.delete_object (single e) ctx bucket e.key []).2 = [e.deletion] := by
  have gate : ∀ params log, (state.gates (single e) ctx .DELETE bucket (some e.key) params log).1 = .ok () := by
    intro params log
    have passes := admits.deletes e.key listed params log
    rwa [AppState.gates,← singles.host e own] at passes
  rw [AppState.delete_object]
  obtain ⟨log₁,same₁,first⟩ := after_quiet present_quiet admits.present _ []
  rw [first]
  obtain ⟨log₂,same₂,second⟩ := after_quiet (gates_quiet .DELETE (some e.key) _) (gate _) _ log₁
  rw [second,singles.params e own]
  have start : deletions log₂ = [] := by rw [same₂,same₁]; rfl
  cases version : e.version_id with
  | some v =>
    have versioned : e.params.contains_key "versionId" = true := by
      simp [DeleteEntry.params,version,Params.contains_key]
    have quiet : Logs (fun e => ∀ c, e ≠ .call c) (fun _ => True) (pure Response.other : Handler Response) := .pure trivial
    have made : deletions ((state.call ⟨.delete_object_version,bucket,some e.key,.path⟩ >>= fun _ => pure Response.other) log₂).2 =
        deletions log₂ ++ [(.delete_object_version,some e.key)] := call_deletions rfl quiet log₂
    rw [if_pos versioned,made,start,DeleteEntry.deletion,version]
    rfl
  | none =>
    have current : e.params.contains_key "versionId" = false := by
      simp [DeleteEntry.params,version,Params.contains_key]
    have quiet : Logs (fun e => ∀ c, e ≠ .call c) (fun _ => True) (do
        let _ ← state.get_bucket_notification bucket
        pure Response.other) := Logs.bind (Logs.reading (fun _ => by simp) bucket _) fun _ _ => .pure trivial
    have made : deletions ((state.call ⟨.delete_object,bucket,some e.key,.path⟩ >>= fun _ => do
        let _ ← state.get_bucket_notification bucket
        pure Response.other) log₂).2 = deletions log₂ ++ [(.delete_object,some e.key)] := call_deletions rfl quiet log₂
    rw [current,if_neg (by decide),made,start,DeleteEntry.deletion,version]
    rfl

/-- A delete of many objects calls for every key that is not blank, trimmed. -/
theorem multi_deletions {Q : QuickXml} {message : Message} {entries : List DeleteEntry} {body : Bytes}
    (renders : Renders Q entries body) (few : entries.length ≤ 1000)
    (admits : LetIn state request ctx bucket keys)
    (listed : ∀ e ∈ entries, ∀ key ∈ read_key e.key, key ∈ keys) :
    deletions (state.delete_objects request (message.with_delete_body Q body) ctx bucket []).2 =
      if body.length ≤ DELETE_BODY_MAX then (entries.filterMap fun e => read_key e.key).map fun key => (.delete_object,some key)
      else [] := by
  obtain ⟨log₁,same₁,first⟩ := after_quiet present_quiet admits.present _ []
  rw [AppState.delete_objects,first]
  obtain ⟨log₂,same₂,second⟩ := after_quiet (gates_quiet .POST none _) admits.posts _ log₁
  rw [second]
  have start : deletions log₂ = [] := by rw [same₂,same₁]; rfl
  by_cases fits : body.length ≤ DELETE_BODY_MAX
  · have parsed := parse_delete_keys_eq renders fits
    have stage : (message.with_delete_body Q body).parse .body = .ok () := by simp [Message.with_delete_body,parsed,Except.map]
    have found : (message.with_delete_body Q body).delete_keys = entries.filterMap fun e => read_key e.key := by
      simp [Message.with_delete_body,parsed,Except.toOption]
    have fewer : (entries.filterMap fun e => read_key e.key).length ≤ 1000 := le_trans (List.length_filterMap_le _ _) few
    rw [stage,Prog.lift_ok_bind,found,if_neg (by omega),if_pos fits]
    have gates : ∀ key ∈ entries.filterMap fun e => read_key e.key, ∀ params log,
        (state.gates request ctx .DELETE bucket (some key) params log).1 = .ok () := by
      intro key held
      obtain ⟨e,own,read⟩ := List.mem_filterMap.mp held
      exact admits.deletes key (listed e own key read)
    obtain ⟨log₃,same₃,third⟩ := each_gate gates log₂
    rw [Prog.bind_of_ok third]
    have attempted := @each_attempt state bucket (entries.filterMap fun e => read_key e.key) log₃
    rw [same₃,start,List.nil_append] at attempted
    rw [← attempted]
    exact congrArg deletions (ends_alike _ _ log₃)
  · have refused : parse_delete_keys Q body = .error (.refused "length limit exceeded") := by
      rw [parse_delete_keys,to_bytes,if_pos (by omega)]
      rfl
    have stage : (message.with_delete_body Q body).parse .body = .error (.refused "length limit exceeded") := by
      simp [Message.with_delete_body,refused,Except.map]
    rw [stage,if_neg fits]
    exact start

/-- The calls that delete objects are those of the deletes of each object. -/
def DeletesNamed (state : AppState) (request : Request) (single : DeleteEntry → Request) (message : Message)
    (ctx : S3RequestContext) (bucket : Text) (entries : List DeleteEntry) : Prop :=
  (deletions (state.delete_objects request message ctx bucket []).2).Perm
    (entries.flatMap fun e => deletions (state.delete_object (single e) ctx bucket e.key []).2)

/-- An object by its current version, whose key begins and ends with no blank. -/
def DeleteEntry.Plain (e : DeleteEntry) : Prop := e.version_id = none ∧ e.key ≠ [] ∧ trim e.key = e.key

theorem equal_of_sums {γ : Type} {l : List γ} {f g : γ → Nat} (below : ∀ a ∈ l, f a ≤ g a)
    (sums : (l.map f).sum = (l.map g).sum) : ∀ a ∈ l, f a = g a := by
  induction l with
  | nil => nofun
  | cons a rest ih =>
    rw [List.forall_mem_cons] at below ⊢
    have later : (rest.map f).sum ≤ (rest.map g).sum := List.sum_le_sum below.2
    rw [List.map_cons,List.map_cons,List.sum_cons,List.sum_cons] at sums
    have here := below.1
    exact ⟨by omega,ih below.2 (by omega)⟩

theorem trim_sublist (key : Text) : (trim key).Sublist key :=
  (List.rdropWhile_prefix _ _).sublist.trans (List.dropWhile_suffix _).sublist

/-- The trimmed keys are the calls that were meant just when nothing was trimmed and no version was meant. -/
theorem read_keys_perm_iff (entries : List DeleteEntry) :
    ((entries.filterMap fun e => read_key e.key).map fun key => (Op.delete_object,some key)).Perm
      (entries.map DeleteEntry.deletion) ↔ ∀ e ∈ entries, e.Plain := by
  constructor
  · intro same
    have lengths := same.length_eq
    rw [List.length_map,List.length_map] at lengths
    have found := List.filterMap_length_eq_length.mp lengths
    have dark : ∀ e ∈ entries, trim e.key ≠ [] := by
      intro e listed blank
      have here := found e listed
      rw [read_key,if_pos blank] at here
      cases here
    have trimmed : (entries.filterMap fun e => read_key e.key) = entries.map fun e => trim e.key := by
      rw [← List.filterMap_eq_map]
      refine List.filterMap_congr fun e listed => ?_
      rw [read_key,if_neg (dark e listed)]
      rfl
    rw [trimmed,List.map_map] at same
    have sums := (same.map fun call => (call.2.getD []).length).sum_eq
    rw [List.map_map,List.map_map] at sums
    have each := equal_of_sums (fun e _ => (trim_sublist e.key).length_le) sums
    intro e listed
    have untouched := (trim_sublist e.key).eq_of_length (each e listed)
    have versionless : e.version_id = none := by
      have call := same.mem_iff.mpr (List.mem_map_of_mem listed)
      obtain ⟨other,-,made⟩ := List.mem_map.mp call
      by_contra versioned
      rw [DeleteEntry.deletion,if_pos (Option.isSome_iff_ne_none.mpr versioned)] at made
      cases (Prod.mk.inj made).1
    exact ⟨versionless,fun empty => dark e listed (by rw [empty]; rfl),untouched⟩
  · intro plain
    have same : ((entries.filterMap fun e => read_key e.key).map fun key => (Op.delete_object,some key)) =
        entries.map DeleteEntry.deletion := by
      rw [List.map_filterMap,← List.filterMap_eq_map]
      refine List.filterMap_congr fun e listed => ?_
      obtain ⟨versionless,nonempty,untouched⟩ := plain e listed
      rw [read_key,untouched,if_neg nonempty]
      simp [DeleteEntry.deletion,versionless]
    rw [same]

/-- What is compared: trimmed keys that are not blank, and the calls that were meant. -/
theorem deletes_named_perm_iff {Q : QuickXml} {single : DeleteEntry → Request} (message : Message)
    {entries : List DeleteEntry} {body : Bytes} (renders : Renders Q entries body) (few : entries.length ≤ 1000)
    (singles : SingleDeletes request entries single)
    (admits : LetIn state request ctx bucket (entries.flatMap fun e => [e.key,trim e.key])) :
    DeletesNamed state request single (message.with_delete_body Q body) ctx bucket entries ↔
      (if body.length ≤ DELETE_BODY_MAX then (entries.filterMap fun e => read_key e.key).map fun key => (Op.delete_object,some key)
        else []).Perm (entries.map DeleteEntry.deletion) := by
  have meant : (entries.flatMap fun e => deletions (state.delete_object (single e) ctx bucket e.key []).2) =
      entries.map DeleteEntry.deletion := by
    rw [List.map_eq_flatMap]
    refine List.flatMap_congr fun e listed => ?_
    exact single_deletions singles admits listed (List.mem_flatMap.mpr ⟨e,listed,List.mem_cons_self⟩)
  have calls := @multi_deletions _ _ _ _ _ _ message _ _ renders few admits fun e listed key read => by
    rw [read_key] at read
    split at read <;> cases read
    exact List.mem_flatMap.mpr ⟨e,listed,by simp⟩
  rw [DeletesNamed,meant,calls]

end

namespace Sample

theorem entry_named (e : DeleteEntry) : e.element.Named := by
  have key : Xml.Plain "Key" := ⟨'K',['e','y'],by decide,by simp⟩
  have version : Xml.Plain "VersionId" := ⟨'V',['e','r','s','i','o','n','I','d'],by decide,by simp⟩
  have object : Xml.Plain "Object" := ⟨'O',['b','j','e','c','t'],by decide,by simp⟩
  refine ⟨object,key,?_⟩
  cases e.version_id with
  | none => trivial
  | some v => exact ⟨version,trivial⟩

theorem document_named (entries : List DeleteEntry) : (delete_document entries).Named := by
  have root : Xml.Plain "Delete" := ⟨'D',['e','l','e','t','e'],by decide,by simp⟩
  refine ⟨root,?_⟩
  induction entries with
  | nil => trivial
  | cons e rest ih => exact ⟨entry_named e,ih⟩

def delete_body (entries : List DeleteEntry) : Bytes := Text.bytes (delete_document entries).render

theorem delete_body_renders (entries : List DeleteEntry) : Renders quick_xml entries (delete_body entries) := by
  have read := (delete_document entries).read_render (document_named entries) []
  rw [List.append_nil,XmlTexts.read,List.append_nil] at read
  have events : quick_xml.read_events (delete_document entries).render =
      (delete_document entries).tokens.map .of_token := congrArg (List.map XmlEvent.of_token) read
  rw [Renders,delete_body,lossy_bytes,events]

/-- `POST /logs?delete`. -/
def delete_request : Request := ⟨.POST,"/logs".toList,"delete".toList,none,none⟩

/-- `DELETE` of an object of `logs`, or of its version `v1`. -/
def single_request (e : DeleteEntry) : Request :=
  ⟨.DELETE,"/logs/".toList ++ e.key,if e.version_id.isSome then "versionId=v1".toList else [],none,none⟩

def alice : S3RequestContext := ⟨some "alice".toList,none,[]⟩

theorem alice_let_in (keys : List Text) :
    LetIn (open_server "s3.local".toList) delete_request alice "logs".toList keys where
  present log := by rw [open_server,server_exists _ _ (by decide +kernel)]
  posts log := by
    obtain ⟨log',passed⟩ := server_gates "s3.local".toList delete_request (show alice.principal = some "alice".toList from rfl)
      (show is_valid_bucket_name (String.ofList "logs".toList) by decide +kernel) .POST none [("delete".toList,[])] log
    rw [passed]
  deletes key _ params log := by
    obtain ⟨log',passed⟩ := server_gates "s3.local".toList delete_request (show alice.principal = some "alice".toList from rfl)
      (show is_valid_bucket_name (String.ofList "logs".toList) by decide +kernel) .DELETE (some key) params log
    rw [passed]

def named_entries : List DeleteEntry := [⟨"a < b".toList,none⟩,⟨"c".toList,none⟩]

/-- A key with a blank in front. -/
def blank_entries : List DeleteEntry := [⟨" c".toList,none⟩]

end Sample

end Maxio
