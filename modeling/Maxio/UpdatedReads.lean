import Maxio.RejectedPuts
import Maxio.Tamper
import Maxio.VersionConfinement

/-!
What the calls that rewrite a sidecar leave to the readers of the object. The MAC of a sidecar passes over the tags but
covers the lock, so that a change of the lock makes an encrypted object unreadable.
-/

set_option linter.unusedSimpArgs false

namespace Maxio
open FileTree (Node Tree)

/-! ### The calls -/

/-- A call that changes the sidecar of an object or of one of its versions. -/
inductive UpdateCall where
  | put_object_tagging (tags : List (String × String))
  | delete_object_tagging
  | put_object_retention (retention : ObjectLockRetention)
  | put_object_legal_hold (status : LegalHoldStatus)

namespace UpdateCall
variable (fs : FilesystemStorage) (bucket key : String) (version_id : Option String)

def run : UpdateCall → Action Unit
  | .put_object_tagging tags => fs.put_object_tagging bucket key tags
  | .delete_object_tagging => fs.delete_object_tagging bucket key
  | .put_object_retention retention => fs.put_object_retention bucket key version_id retention
  | .put_object_legal_hold status => fs.put_object_legal_hold bucket key version_id status

/-- What a call that sets a lock does to the record; the others leave the lock alone. -/
def locks : UpdateCall → ObjectMeta → ObjectMeta
  | .put_object_retention retention,record => apply_object_lock record (some retention)
  | .put_object_legal_hold status,record => { record with legal_hold_status := some status }
  | _,record => record

/-- A lock that is set is the one that the object has. -/
def Repeats (w : World) (call : UpdateCall) : Prop :=
  ∀ record, fs.read_meta_at bucket key version_id w = (.ok record,w) → call.locks record = record

end UpdateCall

/-- Calls that succeed one after the other, each made in a state that it meets. -/
inductive Updates (fs : FilesystemStorage) (bucket key : String) (version_id : Option String)
    (meets : World → UpdateCall → Prop) : List UpdateCall → World → World → Prop
  | none (w : World) : Updates fs bucket key version_id meets [] w w
  | next {call : UpdateCall} {calls : List UpdateCall} {w w₁ w' : World} (met : meets w call)
      (done : call.run fs bucket key version_id w = (.ok (),w₁)) (rest : Updates fs bucket key version_id meets calls w₁ w') :
      Updates fs bucket key version_id meets (call :: calls) w w'

/-! ### What readers find -/

/-- The records differ in their tags at most. -/
def SameButTags (record record' : ObjectMeta) : Prop := record' = { record with tags := record'.tags }

/-- The reader gives the same, and the record comes with the same in it but for the tags. -/
def SameAnswer (P : Primitives) (got got' : ObjectReader × ObjectMeta) : Prop :=
  SameRead P got.1 got'.1 ∧ SameButTags got.2 got'.2

/-- Every read of the key that succeeds in the first world succeeds in the second with the same plaintext. -/
structure StillReadable (P : Primitives) (fs : FilesystemStorage) (bucket key : String) (w w' : World) : Prop where
  get : ∀ customer_key got, fs.get_object P bucket key customer_key w = (.ok got,w) →
    ∃ got', fs.get_object P bucket key customer_key w' = (.ok got',w') ∧ SameAnswer P got got'
  range : ∀ offset length customer_key got, fs.get_object_range P bucket key offset length customer_key w = (.ok got,w) →
    ∃ got', fs.get_object_range P bucket key offset length customer_key w' = (.ok got',w') ∧ SameAnswer P got got'
  version : ∀ id customer_key got, '/' ∉ id.toList → fs.get_object_version P bucket key id customer_key w = (.ok got,w) →
    ∃ got', fs.get_object_version P bucket key id customer_key w' = (.ok got',w') ∧ SameAnswer P got got'

/-- The payloads look the same, and so do the records but for the tags of the current object. -/
structure SameButCurrentTags (fs : FilesystemStorage) (bucket key : String) (w w' : World) : Prop where
  payload : SamePayload fs bucket key w.tree w'.tree
  versions : ∀ id : String, '/' ∉ id.toList → SameVersion fs bucket key id w.tree w'.tree
  current : ∀ record, fs.read_object_meta bucket key w = (.ok record,w) →
    ∃ record', fs.read_object_meta bucket key w' = (.ok record',w') ∧ SameButTags record record'
  stored : ∀ id record, '/' ∉ id.toList → fs.read_version_meta bucket key id w = (.ok record,w) →
    fs.read_version_meta bucket key id w' = (.ok record,w')

section Records
variable {P : Primitives} {fs : FilesystemStorage} {bucket key version_id : String}

/-- The tags of a record do not matter to what is opened. -/
theorem open_object_tags {record record' : ObjectMeta} (same : SameButTags record record') (customer_key : Option Bytes) :
    fs.open_object P bucket key record' customer_key = fs.open_object P bucket key record customer_key := by
  rw [same]
  rfl

theorem open_range_tags {record record' : ObjectMeta} (same : SameButTags record record') (offset length : Nat)
    (customer_key : Option Bytes) : fs.open_range P bucket key record' offset length customer_key =
      fs.open_range P bucket key record offset length customer_key := by
  rw [same]
  rfl

end Records

namespace SameButCurrentTags
variable {P : Primitives} {fs : FilesystemStorage} {bucket key : String} {w w' w'' : World}

theorem refl (w : World) : SameButCurrentTags fs bucket key w w where
  payload := ⟨rfl,rfl,rfl,fun _ => rfl⟩
  versions _ _ := ⟨rfl,rfl,rfl,fun _ => rfl⟩
  current record read := ⟨record,read,rfl⟩
  stored _ _ _ read := read

theorem trans (first : SameButCurrentTags fs bucket key w w') (second : SameButCurrentTags fs bucket key w' w'') :
    SameButCurrentTags fs bucket key w w'' where
  payload := ⟨second.payload.payload.trans first.payload.payload,second.payload.chunks.trans first.payload.chunks,
    second.payload.manifest.trans first.payload.manifest,fun i => (second.payload.chunk i).trans (first.payload.chunk i)⟩
  versions id plain :=
    let one := first.versions id plain
    let two := second.versions id plain
    ⟨two.payload.trans one.payload,two.chunks.trans one.chunks,two.manifest.trans one.manifest,
      fun i => (two.chunk i).trans (one.chunk i)⟩
  current record read := by
    obtain ⟨record',read',same⟩ := first.current record read
    obtain ⟨record'',read'',same'⟩ := second.current record' read'
    refine ⟨record'',read'',?_⟩
    rw [SameButTags,same',same]
  stored id record plain read := second.stored id record plain (first.stored id record plain read)

/-- Opening what is found gives the same, whatever is done with it. -/
theorem opened {open₁ open₂ : Action ObjectReader} {record record' : ObjectMeta} {got : ObjectReader × ObjectMeta}
    (alike : Alike w w' (SameRead P) open₁ open₂) (same : SameButTags record record')
    (done : (open₁ >>= fun reader => pure (reader,record) : Action _) w = (.ok got,w)) :
    ∃ got', (open₂ >>= fun reader => pure (reader,record') : Action _) w' = (.ok got',w') ∧ SameAnswer P got got' := by
  rw [Prog.bind_ok_iff] at done
  obtain ⟨reader,w₁,opens,paired⟩ := done
  obtain ⟨rfl,rfl⟩ := pure_ok_iff.mp paired
  have outcome := alike.outcome
  rw [opens] at outcome
  rcases opens' : open₂ w' with ⟨e | reader',w₂⟩
  · rw [opens'] at outcome
    exact outcome.elim
  · rw [opens'] at outcome
    have state := alike.state'
    rw [opens'] at state
    obtain rfl : w₂ = w' := state
    refine ⟨(reader',record'),?_,outcome,same⟩
    rw [Prog.bind_of_ok opens']
    rfl

theorem get_object (same : SameButCurrentTags fs bucket key w w') (customer_key : Option Bytes)
    {got : ObjectReader × ObjectMeta} (done : fs.get_object P bucket key customer_key w = (.ok got,w)) :
    ∃ got', fs.get_object P bucket key customer_key w' = (.ok got',w') ∧ SameAnswer P got got' := by
  rw [FilesystemStorage.get_object_eq] at done ⊢
  rw [Prog.bind_ok_iff] at done
  obtain ⟨_,_,first,done⟩ := done
  obtain ⟨named,rfl⟩ := lift_ok_iff.mp first
  rw [Prog.bind_ok_iff] at done
  obtain ⟨_,_,second,done⟩ := done
  obtain ⟨valid,rfl⟩ := lift_ok_iff.mp second
  rw [Prog.bind_ok_iff] at done
  obtain ⟨record,w₁,read,done⟩ := done
  have quiet := (FilesystemStorage.read_object_meta_quiet bucket key).state read
  subst quiet
  obtain ⟨record',read',tags⟩ := same.current record read
  have alike := open_object_alike (P := P) same.payload record customer_key
  rw [Prog.bind_of_ok (lift_ok_iff.mpr ⟨named,rfl⟩),Prog.bind_of_ok (lift_ok_iff.mpr ⟨valid,rfl⟩),Prog.bind_of_ok read',open_object_tags tags]
  exact opened alike tags done

theorem get_object_range (same : SameButCurrentTags fs bucket key w w') (offset length : Nat) (customer_key : Option Bytes)
    {got : ObjectReader × ObjectMeta}
    (done : fs.get_object_range P bucket key offset length customer_key w = (.ok got,w)) :
    ∃ got', fs.get_object_range P bucket key offset length customer_key w' = (.ok got',w') ∧ SameAnswer P got got' := by
  rw [FilesystemStorage.get_object_range_eq] at done ⊢
  rw [Prog.bind_ok_iff] at done
  obtain ⟨_,_,first,done⟩ := done
  obtain ⟨named,rfl⟩ := lift_ok_iff.mp first
  rw [Prog.bind_ok_iff] at done
  obtain ⟨_,_,second,done⟩ := done
  obtain ⟨valid,rfl⟩ := lift_ok_iff.mp second
  rw [Prog.bind_ok_iff] at done
  obtain ⟨record,w₁,read,done⟩ := done
  have quiet := (FilesystemStorage.read_object_meta_quiet bucket key).state read
  subst quiet
  obtain ⟨record',read',tags⟩ := same.current record read
  have alike := open_range_alike (P := P) same.payload record offset length customer_key
  rw [Prog.bind_of_ok (lift_ok_iff.mpr ⟨named,rfl⟩),Prog.bind_of_ok (lift_ok_iff.mpr ⟨valid,rfl⟩),Prog.bind_of_ok read',open_range_tags tags]
  exact opened alike tags done

theorem get_object_version (same : SameButCurrentTags fs bucket key w w') {id : String} (plain : '/' ∉ id.toList)
    (customer_key : Option Bytes) {got : ObjectReader × ObjectMeta}
    (done : fs.get_object_version P bucket key id customer_key w = (.ok got,w)) :
    ∃ got', fs.get_object_version P bucket key id customer_key w' = (.ok got',w') ∧ SameAnswer P got got' := by
  rw [FilesystemStorage.get_object_version_eq] at done ⊢
  rw [Prog.bind_ok_iff] at done
  obtain ⟨_,_,first,done⟩ := done
  obtain ⟨named,rfl⟩ := lift_ok_iff.mp first
  rw [Prog.bind_ok_iff] at done
  obtain ⟨_,_,second,done⟩ := done
  obtain ⟨valid,rfl⟩ := lift_ok_iff.mp second
  rw [Prog.bind_of_ok (lift_ok_iff.mpr ⟨named,rfl⟩),Prog.bind_of_ok (lift_ok_iff.mpr ⟨valid,rfl⟩)]
  by_cases null : id = "null"
  · rw [if_pos null] at done ⊢
    exact same.get_object customer_key done
  · rw [if_neg null] at done ⊢
    rw [Prog.bind_ok_iff] at done
    obtain ⟨record,w₁,read,done⟩ := done
    have quiet := read_version_meta_quiet.state read
    subst quiet
    rw [Prog.bind_of_ok (same.stored id record plain read)]
    exact opened (open_version_alike (P := P) (same.versions id plain) record customer_key) rfl done

theorem still_readable (same : SameButCurrentTags fs bucket key w w') : StillReadable P fs bucket key w w' where
  get customer_key _ done := same.get_object customer_key done
  range offset length customer_key _ done := same.get_object_range offset length customer_key done
  version _ customer_key _ plain done := same.get_object_version plain customer_key done

end SameButCurrentTags

/-! ### One call -/

section Steps
variable {P : Primitives} {fs : FilesystemStorage} {bucket key : String} {version_id : Option String} {w w' : World}

/-- What changes at most below the sidecar of the current object leaves everything else to be found. -/
theorem sameButCurrentTags_of_frame (accepted : Accepted bucket key)
    (frame : Frame (fun q => home fs bucket key ++ [metaName key] <+: q) (fun _ => False) w w')
    (current : ∀ record, fs.read_object_meta bucket key w = (.ok record,w) →
      ∃ record', fs.read_object_meta bucket key w' = (.ok record',w') ∧ SameButTags record record') :
    SameButCurrentTags fs bucket key w w' := by
  have found : ∀ {p : OsPath}, Forward p → ¬ home fs bucket key ++ [metaName key] <+: canon p →
      Fs.stat w'.tree p = Fs.stat w.tree p := by
    intro p forward outside
    exact stat_of_frame frame (fun _ _ inside further => inside.trans further) forward outside id
  have sibling : ∀ {p : OsPath} {n : String} (rest : OsPath), Forward p → canon p = home fs bucket key ++ [n] ++ rest →
      n ≠ metaName key → Fs.stat w'.tree p = Fs.stat w.tree p := by
    intro p n rest forward spelled other
    refine found forward fun below => other ?_
    rw [spelled,List.append_assoc,List.prefix_append_right_inj,List.singleton_append,List.cons_prefix_cons] at below
    exact below.1.symm
  have stored : ∀ {p : OsPath} (rest : OsPath), Forward p → canon p = versionsAt fs bucket key ++ rest →
      Fs.stat w'.tree p = Fs.stat w.tree p := by
    intro p rest forward spelled
    refine found forward fun below => @current_apart fs _ _ accepted rest ⟨metaName key,by simp [ownNames],?_⟩
    rw [← spelled]
    exact below
  have chunks := @Accepted.ec_leads fs _ _ accepted
  refine ⟨⟨?_,?_,?_,fun i => ?_⟩,fun id plain => ⟨?_,?_,?_,fun i => ?_⟩,current,?_⟩
  · by_cases named : ends_with key "/" = true ∨ skipped (leaf key) = false
    · have leads := @Accepted.object_leads fs _ _ accepted named
      exact sibling [] leads.entry.forward (by rw [leads.names,List.append_nil]) objectName_ne_metaName
    · rw [not_or,Bool.not_eq_true,Bool.not_eq_false] at named
      refine found (accepted.object_forward fs) fun below => ?_
      rw [object_canon_unnamed accepted named.1 named.2] at below
      have short := below.length_le
      simp at short
  · exact sibling [] chunks.entry.forward (by rw [chunks.names,List.append_nil]) ecName_ne_metaName
  · have leads := chunks.manifest
    exact sibling _ leads.entry.forward leads.names ecName_ne_metaName
  · have leads := chunks.chunk i
    exact sibling _ leads.entry.forward leads.names ecName_ne_metaName
  · have leads := @version_data_leads fs _ _ _ accepted plain
    exact stored _ leads.entry.forward leads.names
  · have leads := @version_ec_leads fs _ _ _ accepted plain
    exact stored _ leads.entry.forward leads.names
  · have leads := (@version_ec_leads fs _ _ _ accepted plain).manifest
    exact stored _ leads.entry.forward (by rw [leads.names,List.append_assoc])
  · have leads := (@version_ec_leads fs _ _ _ accepted plain).chunk i
    exact stored _ leads.entry.forward (by rw [leads.names,List.append_assoc])
  · intro id record plain read
    have leads := @version_meta_leads fs _ _ _ accepted plain
    have same := stored _ leads.entry.forward leads.names
    simp only [FilesystemStorage.read_version_meta,Prog.bind_ok_iff,or_not_found,Prog.mapError_ok_iff,lift_ok_iff] at read ⊢
    obtain ⟨content,_,read,parsed,rfl⟩ := read
    refine ⟨content,w',?_,parsed,rfl⟩
    rw [Fs.read,Fs.observe_ok_iff] at read ⊢
    rw [Fs.readAt,same]
    exact ⟨read.1,rfl⟩

theorem set_tags_done (accepted : Accepted bucket key) {tags : Option (List (String × String))}
    (done : fs.set_tags bucket key tags w = (.ok (),w')) : SameButCurrentTags fs bucket key w w' := by
  simp only [FilesystemStorage.set_tags,Prog.bind_ok_iff,lift_ok_iff,io_ok_iff] at done
  obtain ⟨_,_,⟨_,rfl⟩,record,w₁,read,wrote⟩ := done
  have quiet := (FilesystemStorage.read_object_meta_quiet bucket key).state read
  subst quiet
  have sets := (Fs.write_done accepted.meta_leads wrote).1
  refine sameButCurrentTags_of_frame accepted (fun q outside => .inl (sets.other ?_)) fun record' read' => ?_
  · rintro rfl
    exact outside (List.prefix_refl _)
  · rw [read] at read'
    cases read'
    refine ⟨{ record with tags },?_,rfl⟩
    rw [FilesystemStorage.read_object_meta,or_not_found,
      Prog.bind_of_ok (Prog.mapError_ok_iff.mpr (Fs.read_file accepted.meta_leads sets.here))]
    rfl

/-- A sidecar that is written again as it was. -/
theorem write_same {p dir : OsPath} {name : String} {c : Content} (leads : Leads p dir name)
    (read : Fs.read p w = (.ok c,w)) (wrote : Fs.write p c w = (.ok (),w')) (q : OsPath) :
    w'.tree.node q = w.tree.node q := by
  have sets := (Fs.write_done leads wrote).1
  by_cases here : q = dir ++ [name]
  · rw [here,sets.here,(Fs.read_done leads read).1]
  · exact sets.other here

theorem set_lock_repeats (accepted : Accepted bucket key) (plain : ∀ id, version_id = some id → '/' ∉ id.toList)
    {set : ObjectMeta → ObjectMeta}
    (repeats : ∀ record, fs.read_meta_at bucket key version_id w = (.ok record,w) → set record = record)
    (done : fs.set_lock bucket key version_id set w = (.ok (),w')) : SameButCurrentTags fs bucket key w w' := by
  have leads : ∃ dir name, Leads (meta_file_at fs bucket key version_id) dir name := by
    cases version_id with
    | none => exact ⟨_,_,accepted.meta_leads⟩
    | some id =>
      obtain ⟨dir,name,leads,_⟩ := @meta_file_leads fs _ _ _ accepted.1 accepted.2 (plain id rfl)
      exact ⟨dir,name,leads⟩
  obtain ⟨dir,name,leads⟩ := leads
  have nodes : ∀ q, w'.tree.node q = w.tree.node q := by
    have changed := @set_lock_cases fs bucket key w version_id set
    rw [done] at changed
    rcases changed with rfl | ⟨record,read,wrote⟩
    · exact fun _ => rfl
    · rw [repeats record read] at wrote
      exact write_same leads (read_meta_at_ok_iff.mp read).2.1 wrote
  refine sameButCurrentTags_of_frame accepted (fun q _ => .inl (nodes q)) fun record read => ⟨record,?_,rfl⟩
  simp only [FilesystemStorage.read_object_meta,Prog.bind_ok_iff,or_not_found,Prog.mapError_ok_iff,lift_ok_iff] at read ⊢
  obtain ⟨content,_,read,parsed,rfl⟩ := read
  have file := (Fs.read_done accepted.meta_leads read).1
  exact ⟨content,w',Fs.read_file accepted.meta_leads ((nodes _).trans file),parsed,rfl⟩

/-- A call that leaves the lock as it is leaves the object readable. -/
theorem update_step (accepted : Accepted bucket key) (plain : ∀ id, version_id = some id → '/' ∉ id.toList)
    (call : UpdateCall) (met : call.Repeats fs bucket key version_id w)
    (done : call.run fs bucket key version_id w = (.ok (),w')) : SameButCurrentTags fs bucket key w w' := by
  cases call with
  | put_object_tagging tags => exact set_tags_done accepted done
  | delete_object_tagging => exact set_tags_done accepted done
  | put_object_retention retention => exact set_lock_repeats accepted plain met done
  | put_object_legal_hold status => exact set_lock_repeats accepted plain met done

theorem updates_same (accepted : Accepted bucket key) (plain : ∀ id, version_id = some id → '/' ∉ id.toList)
    {calls : List UpdateCall}
    (updates : Updates fs bucket key version_id (fun w call => call.Repeats fs bucket key version_id w) calls w w') :
    SameButCurrentTags fs bucket key w w' := by
  induction updates with
  | none w => exact .refl w
  | next met done _ ih => exact (update_step accepted plain _ met done).trans ih

/-- After calls that leave the lock of the object as it is, every read gives the plaintext it gave before. -/
theorem updates_keep_readable (named : validate_bucket_name bucket = .ok ()) (valid : validate_key key = .ok ())
    (plain : ∀ id, version_id = some id → '/' ∉ id.toList) {calls : List UpdateCall}
    (updates : Updates fs bucket key version_id (fun w call => call.Repeats fs bucket key version_id w) calls w w') :
    StillReadable P fs bucket key w w' :=
  (updates_same ⟨named,valid⟩ plain updates).still_readable

end Steps

namespace Sample

/-- The metadata of `logs/a` once it is under a legal hold, as the MAC sees it. -/
def held_meta : ObjectMeta := { sealed_meta with legal_hold_status := some .On }

def held_json : Bytes := utf8 ("\x7b\"content_type\":\"text/plain\",\"encryption\":\x7b\"algorithm\":\"AES256\"," ++
  "\"chunk_size\":65536,\"key_id\":\"k1\",\"mode\":\"sse_s3\",\"nonce_prefix\":\"AgICAgICAgI=\"," ++
  "\"sidecar_mac\":\"\",\"wrap_nonce\":\"AwMDAwMDAwMDAwMD\"," ++
  "\"wrapped_dek\":\"JP+iAlspX0N7QUJd6lb+Dew94e61lJVxLt+GsOLkQbl273zfDtF0bbMJ/y2xwtQ/\"\x7d," ++
  "\"etag\":\"\\\"900150983cd24fb0d6963f7d28e17f72\\\"\",\"key\":\"a\"," ++
  "\"last_modified\":\"1970-01-01T00:00:00+00:00\",\"legal_hold_status\":\"ON\",\"size\":3\x7d")

/-- Its HMAC-SHA256 under the data key. -/
def held_mac : Bytes :=
  [0x85,0x71,0xe1,0x36,0x21,0x18,0x44,0x38,0xc5,0x6b,0x83,0xfc,0x98,0xc6,0x6d,0x1f,
    0x13,0xfb,0x13,0x02,0xed,0xa4,0x64,0x95,0xc4,0x9a,0xd3,0x48,0x7e,0xf8,0xab,0x74]

/-- The primitives with their true values for this metadata as well. -/
def held_vault : Primitives := { vault with
  hmac_sha256 := fun key data => if key = data_key ∧ data = held_json then held_mac else vault.hmac_sha256 key data
  canonical_json := fun record => if record = held_meta then held_json else vault.canonical_json record }

/-- The encrypted object `a` in a bucket under object lock. -/
def locked_world : World := (sealed_call.run held_vault flat lockable_world).2

def tagging : List UpdateCall := [.put_object_tagging [("team","logs")],.delete_object_tagging]

/-- The store after a call on `a`. -/
def updated (call : UpdateCall) (w : World) : World := (call.run flat "logs" "a" none w).2

end Sample

theorem tagged_object_readable : StillReadable Sample.held_vault Sample.flat "logs" "a" Sample.locked_world
    (Sample.updated .delete_object_tagging (Sample.updated (.put_object_tagging [("team","logs")]) Sample.locked_world)) := by
  have tagged : ((UpdateCall.put_object_tagging [("team","logs")]).run Sample.flat "logs" "a" none Sample.locked_world).1.isOk =
      true := by decide +kernel
  have cleared : (UpdateCall.delete_object_tagging.run Sample.flat "logs" "a" none
      (Sample.updated (.put_object_tagging [("team","logs")]) Sample.locked_world)).1.isOk = true := by decide +kernel
  obtain ⟨_,w₁,first⟩ := Sample.isOk_spec tagged
  obtain ⟨_,w₂,second⟩ := Sample.isOk_spec cleared
  have state : Sample.updated (.put_object_tagging [("team","logs")]) Sample.locked_world = w₁ := by
    rw [Sample.updated,first]
  have state' : Sample.updated .delete_object_tagging
      (Sample.updated (.put_object_tagging [("team","logs")]) Sample.locked_world) = w₂ := by
    rw [Sample.updated,second]
  rw [state] at second state'
  rw [state,state']
  exact @updates_keep_readable Sample.held_vault Sample.flat "logs" "a" none Sample.locked_world w₂ (by decide +kernel)
    (by decide +kernel) (fun _ none => by cases none) Sample.tagging
    (.next (fun _ _ => rfl) first (.next (fun _ _ => rfl) second (.none _)))

namespace Sample
variable {w w' : World}

theorem updated_once {call : UpdateCall} (succeeds : (call.run flat "logs" "a" none w).1.isOk = true) :
    Updates flat "logs" "a" none (fun _ _ => True) [call] w (updated call w) := by
  obtain ⟨_,w',done⟩ := isOk_spec succeeds
  have state : updated call w = w' := by rw [updated,done]
  rw [state]
  exact .next trivial done (.none _)

theorem unreadable_of_refused (before : (flat.get_object held_vault "logs" "a" none w).1.isOk = true)
    (after : (flat.get_object held_vault "logs" "a" none w').1.isOk = false) :
    ¬ StillReadable held_vault flat "logs" "a" w w' := by
  intro readable
  obtain ⟨got,w₁,reads⟩ := isOk_spec before
  have quiet : w₁ = w := (get_object_quiet (P := held_vault) none).state reads
  subst quiet
  obtain ⟨got',reads',_⟩ := readable.get none got reads
  rw [reads'] at after
  exact Bool.noConfusion (after : true = false)

end Sample

/-- A legal hold on an encrypted object makes it unreadable. -/
theorem held_object_unreadable :
    Updates Sample.flat "logs" "a" none (fun _ _ => True) [.put_object_legal_hold .On] Sample.locked_world
      (Sample.updated (.put_object_legal_hold .On) Sample.locked_world) ∧
    ¬ StillReadable Sample.held_vault Sample.flat "logs" "a" Sample.locked_world
      (Sample.updated (.put_object_legal_hold .On) Sample.locked_world) := by
  refine ⟨Sample.updated_once (by decide +kernel),Sample.unreadable_of_refused ?_ ?_⟩
  · unfold Sample.locked_world Sample.held_vault Sample.vault Sample.sealed_json Sample.held_json
    simp only [utf8_append]
    repeat rw [utf8_ofList]
    decide +kernel
  · unfold Sample.locked_world Sample.held_vault Sample.vault Sample.sealed_json Sample.held_json
    simp only [utf8_append]
    repeat rw [utf8_ofList]
    decide +kernel

end Maxio
