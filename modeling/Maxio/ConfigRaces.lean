import Maxio.BucketConfig
import Maxio.PolicySpec
import Maxio.RaftSpec

/-!
Operations on the settings of one bucket at the same time. No lock is held between the read of `.bucket.json` and the
end of its rewriting, and the file is empty from the moment it is opened for writing until its new text is in it.
-/

namespace Maxio
open FileTree (Node Tree)

/-! ### What a change sets -/

section Changes
variable {from_str : String → Except String Json} {bucket : String}

/-- The settings contain what the operation sets: setting it again changes nothing. -/
def ConfigCall.Contained (from_str : String → Except String Json) (bucket : String) (call : ConfigCall)
    (record : BucketMeta) : Prop := call.change from_str bucket record = .ok record

/-- The field has the same value in both records. -/
def BucketField.Same (r r' : BucketMeta) : BucketField → Prop
  | .versioning => r'.versioning = r.versioning
  | .bucket_policy => r'.bucket_policy = r.bucket_policy
  | .public_read => r'.public_read = r.public_read
  | .public_list => r'.public_list = r.public_list
  | .cors_rules => r'.cors_rules = r.cors_rules
  | .encryption_config => r'.encryption_config = r.encryption_config
  | .lifecycle_rules => r'.lifecycle_rules = r.lifecycle_rules
  | .logging_target_bucket => r'.logging_target_bucket = r.logging_target_bucket
  | BucketField.logging_target_prefix => BucketMeta.logging_target_prefix r' = BucketMeta.logging_target_prefix r
  | .notification_config => r'.notification_config = r.notification_config
  | .object_lock_config => r'.object_lock_config = r.object_lock_config
  | .erasure_coding => r'.erasure_coding = r.erasure_coding

/-- Only the fields of the operation change. -/
theorem ConfigCall.change_others {call : ConfigCall} {r r' : BucketMeta} (changed : call.change from_str bucket r = .ok r') :
    (∀ field, field ∉ call.fields → field.Same r r') ∧ r'.object_lock_enabled = r.object_lock_enabled := by
  cases call with
  | put_bucket_policy policy =>
    rw [change] at changed
    cases effects : FilesystemStorage.policy_effects from_str bucket policy with
    | error e =>
      rw [effects] at changed
      cases changed
    | ok granted =>
      rw [effects] at changed
      cases changed
      exact ⟨fun field outside => by cases field <;> simp_all [fields,BucketField.Same],rfl⟩
  | put_bucket_object_lock config =>
    rw [change] at changed
    split at changed
    · cases changed
      exact ⟨fun field outside => by cases field <;> simp_all [fields,BucketField.Same],rfl⟩
    · cases changed
  | _ =>
    cases changed
    exact ⟨fun field outside => by cases field <;> simp_all [fields,BucketField.Same],rfl⟩

/-- What an operation has set is in the settings. -/
theorem ConfigCall.change_contained {call : ConfigCall} {r r' : BucketMeta}
    (changed : call.change from_str bucket r = .ok r') : call.Contained from_str bucket r' := by
  unfold Contained
  cases call with
  | put_bucket_policy policy =>
    rw [change] at changed ⊢
    cases effects : FilesystemStorage.policy_effects from_str bucket policy with
    | error e =>
      rw [effects] at changed
      cases changed
    | ok granted =>
      rw [effects] at changed
      cases changed
      rfl
  | put_bucket_object_lock config =>
    rw [change] at changed ⊢
    split at changed
    next enabled =>
      cases changed
      rw [if_pos enabled]
    next => cases changed
  | _ =>
    cases changed
    rfl

/-- What an operation sets is still there when only other fields have changed. -/
theorem ConfigCall.Contained.kept {call : ConfigCall} {r r' : BucketMeta} (contained : call.Contained from_str bucket r)
    (same : ∀ field ∈ call.fields, field.Same r r') (lock : r'.object_lock_enabled = r.object_lock_enabled) :
    call.Contained from_str bucket r' := by
  unfold Contained at contained ⊢
  cases r
  cases r'
  cases call with
  | put_bucket_policy policy =>
    rw [change] at contained ⊢
    cases effects : FilesystemStorage.policy_effects from_str bucket policy with
    | error e =>
      rw [effects] at contained
      cases contained
    | ok granted =>
      rw [effects] at contained
      simp_all [fields,BucketField.Same,Except.map]
  | put_bucket_object_lock config =>
    rw [change] at contained ⊢
    split at contained
    next enabled => simp_all [fields,BucketField.Same]
    next => cases contained
  | delete_bucket_logging =>
    have target := same .logging_target_bucket (by simp [fields])
    have start := same BucketField.logging_target_prefix (by simp [fields])
    simp only [BucketField.Same] at target start
    subst target start
    simp only [change,Except.ok.injEq,BucketMeta.mk.injEq,true_and,and_true] at contained ⊢
    exact contained
  | _ => simp_all [fields,BucketField.Same,change]

/-- A change of other fields keeps what an operation has set. -/
theorem ConfigCall.Contained.change {call other : ConfigCall} {r r' : BucketMeta} (contained : call.Contained from_str bucket r)
    (apart : ∀ field ∈ call.fields, field ∉ other.fields) (changed : other.change from_str bucket r = .ok r') :
    call.Contained from_str bucket r' := by
  obtain ⟨others,lock⟩ := change_others changed
  exact contained.kept (fun field mine => others field (apart field mine)) lock

end Changes
/-! ### Interleaved operations -/

/-- How far an operation has come: before its checks, before its read, with the settings it is going to write, with the
    file opened and emptied, or at its end. -/
inductive Phase where
  | waiting
  | checked
  | loaded (record : BucketMeta)
  | truncated (record : BucketMeta)
  | ended (result : Except StorageError Unit)

namespace Phase

/-- The operation has read the file and has not finished writing it. -/
def inside : Phase → Bool
  | .loaded _ => true
  | .truncated _ => true
  | _ => false

/-- The operation has emptied the file and has not filled it again. -/
def emptied : Phase → Bool
  | .truncated _ => true
  | _ => false

end Phase

/-- Operations under way on the settings of one bucket, and what readers have seen of them. -/
structure Session (ι : Type) where
  world : World
  phase : ι → Phase
  seen : List (Except StorageError BucketMeta)

/-- A step of one of the operations, or a reader. `torn` is what is in the file when two texts are written over each
    other. -/
inductive ConfigEvent (ι : Type) where
  | check (i : ι)
  | load (i : ι)
  | truncate (i : ι)
  | fill (i : ι) (torn : Content)
  | observe

section Session
variable {ι : Type} [DecidableEq ι]

/-- All operations are still to come. -/
def Session.start (ι : Type) (w : World) : Session ι := ⟨w,fun _ => .waiting,[]⟩

/-- One operation has made a step. -/
def Session.moved (s : Session ι) (i : ι) (w : World) (phase : Phase) : Session ι :=
  { s with world := w, phase := Function.update s.phase i phase }

variable (fs : FilesystemStorage) (from_str : String → Except String Json) (bucket : String) (calls : ι → ConfigCall)

/-- What the write puts into the opened file. -/
def Session.text (s : Session ι) (record : BucketMeta) (torn : Content) : Content :=
  match s.world.tree.node (bucketMetaAt fs bucket) with
  | some (.file (.bytes [])) => .json (.bucket record)
  | _ => torn

def Session.step (s : Session ι) : ConfigEvent ι → Session ι
  | .check i => match s.phase i with
    | .waiting =>
      let checked := (do Prog.lift (validate_bucket_name bucket); (calls i).check fs from_str bucket : Action Unit) s.world
      s.moved i checked.2 (match checked.1 with
        | .ok () => .checked
        | .error e => .ended (.error e))
    | _ => s
  | .load i => match s.phase i with
    | .checked =>
      let loaded := (do
        let record ← fs.read_bucket_meta bucket
        Prog.lift ((calls i).change from_str bucket record) : Action BucketMeta) s.world
      s.moved i loaded.2 (match loaded.1 with
        | .ok record => .loaded record
        | .error e => .ended (.error e))
    | _ => s
  | .truncate i => match s.phase i with
    | .loaded record =>
      let opened := (io (Fs.write (bucket_meta_path fs.buckets_dir bucket) (.bytes [])) : Action Unit) s.world
      s.moved i opened.2 (match opened.1 with
        | .ok () => .truncated record
        | .error e => .ended (.error e))
    | _ => s
  | .fill i torn => match s.phase i with
    | .truncated record =>
      let filled := (io (Fs.write (bucket_meta_path fs.buckets_dir bucket) (s.text fs bucket record torn)) : Action Unit) s.world
      s.moved i filled.2 (.ended filled.1)
    | _ => s
  | .observe => { s with seen := s.seen ++ [(fs.read_bucket_meta bucket s.world).1] }

/-- An operation reads the file while no other is between its read and the end of its write, and a reader while the file
    is not opened for writing. -/
def Session.Clear (s : Session ι) : ConfigEvent ι → Prop
  | .load _ => ∀ j, (s.phase j).inside = false
  | .observe => ∀ j, (s.phase j).emptied = false
  | _ => True

/-- Every step of the run finds the file clear. -/
def Session.Careful : Session ι → List (ConfigEvent ι) → Prop
  | _,[] => True
  | s,event :: rest => s.Clear event ∧ Session.Careful (s.step fs from_str bucket calls event) rest

/-- No update is lost and no reader is misled: every reader found settings that parse, and once all operations have ended
    the settings contain what each successful one has set. -/
structure Session.Kept (s : Session ι) : Prop where
  parsable : ∀ outcome ∈ s.seen, ∃ record, outcome = .ok record
  contained : (∀ i, ∃ result, s.phase i = .ended result) → ∃ record, bucketRecord fs bucket s.world = some record ∧
    ∀ i, s.phase i = .ended (.ok ()) → (calls i).Contained from_str bucket record

/-- What holds at every step of a careful run: one operation at most is inside, and the file is as the operations that have
    ended left it, or empty while one is writing. -/
structure Session.Inv (s : Session ι) : Prop where
  single : ∀ i j, (s.phase i).inside = true → (s.phase j).inside = true → i = j
  parsable : ∀ outcome ∈ s.seen, ∃ record, outcome = .ok record
  settings : ∃ record, (∀ i, s.phase i = .ended (.ok ()) → (calls i).Contained from_str bucket record) ∧
    (∀ i r, s.phase i = .loaded r ∨ s.phase i = .truncated r → (calls i).change from_str bucket record = .ok r) ∧
    ((∀ i, (s.phase i).emptied = false) → bucketRecord fs bucket s.world = some record) ∧
    (∀ i, (s.phase i).emptied = true → s.world.tree.node (bucketMetaAt fs bucket) = some (.file (.bytes [])))

variable {fs from_str bucket calls} {s : Session ι}

theorem Session.Inv.kept (inv : s.Inv fs from_str bucket calls) : s.Kept fs from_str bucket calls := by
  obtain ⟨record,contained,_,here,_⟩ := inv.settings
  refine ⟨inv.parsable,fun ended => ⟨record,here fun i => ?_,contained⟩⟩
  obtain ⟨result,last⟩ := ended i
  rw [last]
  rfl

theorem bucketRecord_eq {w : World} {record : BucketMeta} (found : bucketRecord fs bucket w = some record) :
    w.tree.node (bucketMetaAt fs bucket) = some (.file (.json (.bucket record))) := by
  unfold bucketRecord at found
  split at found
  next r here =>
    injection found with found
    rw [← found]
    exact here
  next => cases found

theorem bucketRecord_of {w : World} {record : BucketMeta}
    (file : w.tree.node (bucketMetaAt fs bucket) = some (.file (.json (.bucket record)))) :
    bucketRecord fs bucket w = some record := by
  unfold bucketRecord
  rw [file]

/-- An operation that is not inside goes on without touching the file, or gives up. -/
theorem Session.Inv.aside (inv : s.Inv fs from_str bucket calls) {i : ι} (outside : (s.phase i).inside = false)
    {phase : Phase} (still : phase.inside = false) (unended : phase ≠ .ended (.ok ())) :
    (s.moved i s.world phase).Inv fs from_str bucket calls := by
  obtain ⟨record,contained,changed,here,empty⟩ := inv.settings
  have old (j : ι) (inside : ((s.moved i s.world phase).phase j).inside = true) :
      (s.moved i s.world phase).phase j = s.phase j := by
    by_cases same : j = i
    · subst same
      simp only [Session.moved,Function.update_self] at inside
      rw [still] at inside
      cases inside
    · exact Function.update_of_ne same _ _
  have emptied_inside (p : Phase) (emptied : p.emptied = true) : p.inside = true := by
    cases p <;> simp_all [Phase.emptied,Phase.inside]
  refine ⟨fun j k one two => ?_,inv.parsable,record,fun j ended => ?_,fun j r held => ?_,fun none => ?_,fun j emptied => ?_⟩
  · refine inv.single j k ?_ ?_
    · rw [← old j one]
      exact one
    · rw [← old k two]
      exact two
  · by_cases same : j = i
    · subst same
      simp only [Session.moved,Function.update_self] at ended
      exact absurd ended unended
    · refine contained j ?_
      rw [← ended]
      exact (Function.update_of_ne same _ _).symm
  · have inside : ((s.moved i s.world phase).phase j).inside = true := by
      rcases held with loaded | truncated
      · rw [loaded]
        rfl
      · rw [truncated]
        rfl
    rw [old j inside] at held
    exact changed j r held
  · refine here fun j => ?_
    by_cases same : j = i
    · subst same
      cases phase_j : s.phase j <;> simp_all [Phase.emptied,Phase.inside]
    · rw [← none j]
      exact congrArg Phase.emptied (Function.update_of_ne same _ _).symm
  · have inside := emptied_inside _ emptied
    rw [old j inside] at emptied
    exact empty j emptied

theorem ConfigCall.check_quiet (call : ConfigCall) : Quiet (call.check fs from_str bucket) := by
  cases call with
  | put_bucket_policy policy => exact Quiet.bind (Quiet.lift _) fun _ => Quiet.pure _
  | put_bucket_lifecycle rules => exact Quiet.lift _
  | put_bucket_logging target_bucket target_prefix =>
    refine Quiet.bind (Quiet.lift _) fun _ => ?_
    split
    · exact Quiet.fail _
    · refine Quiet.bind (Quiet.bind (Quiet.lift _) fun _ => Quiet.io (Quiet.observe _)) fun found => ?_
      split
      · exact Quiet.fail _
      · exact Quiet.pure _
  | set_bucket_erasure_coding enabled =>
    rw [check]
    split
    · exact Quiet.fail _
    · exact Quiet.pure _
  | _ => exact Quiet.pure _

/-- Writing to a file that is there. -/
theorem write_settings (valid : validate_bucket_name bucket = .ok ()) {w : World} {old : Content}
    (there : w.tree.node (bucketMetaAt fs bucket) = some (.file old)) (c : Content) :
    ∃ w', (io (Fs.write (bucket_meta_path fs.buckets_dir bucket) c) : Action Unit) w = (.ok (),w') ∧
      Fs.Sets (bucketMetaAt fs bucket) (some (.file c)) w w' := by
  have leads : Leads (bucket_meta_path fs.buckets_dir bucket) _ _ := bucket_meta_leads (validBucket_of_validate valid)
  rw [bucketMetaAt] at there
  have parent : w.tree.node (base fs.buckets_dir bucket) = some .dir :=
    w.tree.rooted _ ".bucket.json" (by rw [there]; simp)
  obtain ⟨w',written⟩ := Fs.write_succeeds leads parent (by rw [there]; simp) c
  exact ⟨w',Prog.mapError_ok_iff.mpr written,(Fs.write_done leads written).1⟩

theorem Session.Inv.check (inv : s.Inv fs from_str bucket calls) (i : ι) :
    (s.step fs from_str bucket calls (.check i)).Inv fs from_str bucket calls := by
  rw [Session.step]
  split
  next waiting =>
    have quiet : Quiet (do Prog.lift (validate_bucket_name bucket); (calls i).check fs from_str bucket : Action Unit) :=
      Quiet.bind (Quiet.lift _) fun _ => (calls i).check_quiet
    dsimp only
    rw [quiet s.world]
    refine inv.aside (by rw [waiting]; rfl) ?_ ?_
    · split <;> rfl
    · split <;> simp
  next => exact inv

theorem Session.Inv.load (valid : validate_bucket_name bucket = .ok ()) (inv : s.Inv fs from_str bucket calls) (i : ι)
    (clear : ∀ j, (s.phase j).inside = false) :
    (s.step fs from_str bucket calls (.load i)).Inv fs from_str bucket calls := by
  rw [Session.step]
  split
  next checked =>
    obtain ⟨record,contained,changed,here,empty⟩ := inv.settings
    have unemptied (j : ι) : (s.phase j).emptied = false := by
      have outside := clear j
      cases phase_j : s.phase j <;> simp_all [Phase.emptied,Phase.inside]
    have read := (read_bucket_meta_ok_iff valid).mpr ⟨here unemptied,rfl⟩
    dsimp only
    rw [Prog.bind_of_ok read,Prog.lift_apply]
    cases made : (calls i).change from_str bucket record with
    | error e => exact inv.aside (clear i) rfl (by simp)
    | ok r =>
      have old (j : ι) (other : j ≠ i) : (s.moved i s.world (.loaded r)).phase j = s.phase j :=
        Function.update_of_ne other _ _
      have own : (s.moved i s.world (.loaded r)).phase i = .loaded r := Function.update_self _ _ _
      refine ⟨fun j k one two => ?_,inv.parsable,record,fun j ended => ?_,fun j r' held => ?_,fun _ => here unemptied,
        fun j emptied => ?_⟩
      · have only (l : ι) (inside : ((s.moved i s.world (.loaded r)).phase l).inside = true) : l = i := by
          by_contra other
          rw [old l other,clear l] at inside
          cases inside
        rw [only j one,only k two]
      · have other : j ≠ i := by
          rintro rfl
          rw [own] at ended
          cases ended
        exact contained j (old j other ▸ ended)
      · by_cases same : j = i
        · subst same
          rw [own] at held
          rcases held with loaded | truncated
          · cases loaded
            exact made
          · cases truncated
        · rw [old j same] at held
          exact changed j r' held
      · by_cases same : j = i
        · subst same
          rw [own] at emptied
          cases emptied
        · rw [old j same,unemptied j] at emptied
          cases emptied
  next => exact inv

theorem Session.Inv.truncate (valid : validate_bucket_name bucket = .ok ()) (inv : s.Inv fs from_str bucket calls) (i : ι) :
    (s.step fs from_str bucket calls (.truncate i)).Inv fs from_str bucket calls := by
  rw [Session.step]
  split
  next r loaded =>
    obtain ⟨record,contained,changed,here,empty⟩ := inv.settings
    have only (j : ι) (inside : (s.phase j).inside = true) : j = i := inv.single j i inside (by rw [loaded]; rfl)
    have unemptied (j : ι) : (s.phase j).emptied = false := by
      cases phase_j : s.phase j with
      | truncated r' =>
        have same := only j (by rw [phase_j]; rfl)
        rw [same,loaded] at phase_j
        cases phase_j
      | _ => rfl
    obtain ⟨w,written,sets⟩ := write_settings valid (bucketRecord_eq (here unemptied)) (.bytes [])
    dsimp only
    rw [written]
    have old (j : ι) (other : j ≠ i) : (s.moved i w (.truncated r)).phase j = s.phase j := Function.update_of_ne other _ _
    have own : (s.moved i w (.truncated r)).phase i = .truncated r := Function.update_self _ _ _
    refine ⟨fun j k one two => ?_,inv.parsable,record,fun j ended => ?_,fun j r' held => ?_,fun none => ?_,
      fun j emptied => sets.here⟩
    · have last (l : ι) (inside : ((s.moved i w (.truncated r)).phase l).inside = true) : l = i := by
        by_contra other
        rw [old l other] at inside
        exact other (only l inside)
      rw [last j one,last k two]
    · have other : j ≠ i := by
        rintro rfl
        rw [own] at ended
        cases ended
      exact contained j (old j other ▸ ended)
    · by_cases same : j = i
      · subst same
        rw [own] at held
        rcases held with wrong | truncated
        · cases wrong
        · cases truncated
          exact changed j r (.inl loaded)
      · rw [old j same] at held
        exact changed j r' held
    · have full := none i
      rw [own] at full
      cases full
  next => exact inv

theorem Session.Inv.fill (valid : validate_bucket_name bucket = .ok ())
    (apart : ∀ i j, i ≠ j → ∀ field ∈ (calls i).fields, field ∉ (calls j).fields) (inv : s.Inv fs from_str bucket calls)
    (i : ι) (torn : Content) : (s.step fs from_str bucket calls (.fill i torn)).Inv fs from_str bucket calls := by
  rw [Session.step]
  split
  next r truncated =>
    obtain ⟨record,contained,changed,here,empty⟩ := inv.settings
    have only (j : ι) (inside : (s.phase j).inside = true) : j = i := inv.single j i inside (by rw [truncated]; rfl)
    have emptied := empty i (by rw [truncated]; rfl)
    have made := changed i r (.inr truncated)
    obtain ⟨w,written,sets⟩ := write_settings valid emptied (.json (.bucket r))
    have text : s.text fs bucket r torn = .json (.bucket r) := by
      unfold Session.text
      rw [emptied]
    dsimp only
    rw [text,written]
    have old (j : ι) (other : j ≠ i) : (s.moved i w (.ended (.ok ()))).phase j = s.phase j := Function.update_of_ne other _ _
    have own : (s.moved i w (.ended (.ok ()))).phase i = .ended (.ok ()) := Function.update_self _ _ _
    have outside (j : ι) : ((s.moved i w (.ended (.ok ()))).phase j).inside = false := by
      by_cases same : j = i
      · rw [same,own]
        rfl
      · rw [old j same]
        by_contra inside
        exact same (only j (by simpa using inside))
    refine ⟨fun j k one two => ?_,inv.parsable,r,fun j ended => ?_,fun j r' held => ?_,fun _ => bucketRecord_of sets.here,
      fun j emptied => ?_⟩
    · rw [outside j] at one
      cases one
    · by_cases same : j = i
      · subst same
        exact ConfigCall.change_contained made
      · exact (contained j (old j same ▸ ended)).change (apart j i same) made
    · have idle := outside j
      rcases held with loaded | held
      · rw [loaded] at idle
        cases idle
      · rw [held] at idle
        cases idle
    · have idle := outside j
      cases phase_j : (s.moved i w (.ended (.ok ()))).phase j <;> simp_all [Phase.emptied,Phase.inside]
  next => exact inv

theorem Session.Inv.observe (valid : validate_bucket_name bucket = .ok ()) (inv : s.Inv fs from_str bucket calls)
    (clear : ∀ j, (s.phase j).emptied = false) :
    (s.step fs from_str bucket calls .observe).Inv fs from_str bucket calls := by
  obtain ⟨record,contained,changed,here,empty⟩ := inv.settings
  refine ⟨inv.single,fun outcome listed => ?_,record,contained,changed,here,empty⟩
  rcases List.mem_append.mp listed with before | now
  · exact inv.parsable outcome before
  · refine ⟨record,?_⟩
    rw [List.mem_singleton.mp now,(read_bucket_meta_ok_iff valid).mpr ⟨here clear,rfl⟩]

theorem Session.Inv.step (valid : validate_bucket_name bucket = .ok ())
    (apart : ∀ i j, i ≠ j → ∀ field ∈ (calls i).fields, field ∉ (calls j).fields) (inv : s.Inv fs from_str bucket calls)
    {event : ConfigEvent ι} (clear : s.Clear event) : (s.step fs from_str bucket calls event).Inv fs from_str bucket calls := by
  cases event with
  | check i => exact inv.check i
  | load i => exact inv.load valid i clear
  | truncate i => exact inv.truncate valid i
  | fill i torn => exact inv.fill valid apart i torn
  | observe => exact inv.observe valid clear

end Session

/-- One operation by itself, step by step, is the operation. -/
theorem Session.alone {ι : Type} [DecidableEq ι] {fs : FilesystemStorage} {from_str : String → Except String Json}
    {bucket : String} (calls : ι → ConfigCall) {w : World} {record : BucketMeta}
    (valid : validate_bucket_name bucket = .ok ()) (found : bucketRecord fs bucket w = some record) (i : ι) (torn : Content) :
    let s := [.check i,.load i,.truncate i,.fill i torn].foldl (Session.step fs from_str bucket calls) (.start ι w)
    s.phase i = .ended ((calls i).run fs from_str bucket w).1 ∧
      ∀ q, s.world.tree.node q = ((calls i).run fs from_str bucket w).2.tree.node q := by
  intro s
  have quiet : ((calls i).check fs from_str bucket w).2 = w := (calls i).check_quiet w
  have read := (read_bucket_meta_ok_iff valid).mpr ⟨found,rfl⟩
  have whole : (calls i).run fs from_str bucket w = (do
      (calls i).check fs from_str bucket
      let record ← fs.read_bucket_meta bucket
      let record ← Prog.lift ((calls i).change from_str bucket record)
      fs.write_bucket_meta bucket record : Action Unit) w := by
    rw [ConfigCall.run,FilesystemStorage.update_bucket_meta,valid,Prog.lift_ok_bind]
  rw [whole]
  cases checked : (calls i).check fs from_str bucket w with
  | mk result w' =>
    rw [checked] at quiet
    obtain rfl : w' = w := quiet
    cases result with
    | error e =>
      rw [Prog.bind_of_error checked]
      simp [s,Session.step,Session.start,Session.moved,valid,Prog.lift_ok_bind,checked]
    | ok _ =>
      rw [Prog.bind_of_ok checked,Prog.bind_of_ok read]
      cases made : (calls i).change from_str bucket record with
      | error e =>
        rw [Prog.lift_error_bind,Prog.fail_apply]
        simp [s,Session.step,Session.start,Session.moved,valid,Prog.lift_ok_bind,checked,Prog.bind_of_ok read,made]
      | ok r =>
        obtain ⟨w₁,emptied,empties⟩ := write_settings valid (bucketRecord_eq found) (.bytes [])
        obtain ⟨w₂,filled,fills⟩ := write_settings valid empties.here (.json (.bucket r))
        obtain ⟨w₃,written,writes⟩ := write_settings valid (bucketRecord_eq found) (.json (.bucket r))
        rw [Prog.lift_ok_bind,FilesystemStorage.write_bucket_meta,written]
        have last : s.phase i = .ended (.ok ()) ∧ s.world = w₂ := by
          simp [s,Session.step,Session.start,Session.moved,Session.text,valid,Prog.lift_ok_bind,checked,
            Prog.bind_of_ok read,made,emptied,empties.here,filled]
        refine ⟨last.1,fun q => ?_⟩
        rw [last.2,fills.tree,empties.tree,writes.tree]
        split <;> rfl

/-- In a run in which no operation reads the settings while another is between its read and the end of its write, and no
    one looks at the file while it is opened for writing, no change is lost and every reader sees settings that parse. -/
theorem careful_settings_kept {ι : Type} [DecidableEq ι] {fs : FilesystemStorage} {from_str : String → Except String Json}
    {bucket : String} {calls : ι → ConfigCall} {w : World} {record : BucketMeta}
    (valid : validate_bucket_name bucket = .ok ()) (found : bucketRecord fs bucket w = some record)
    (apart : ∀ i j, i ≠ j → ∀ field ∈ (calls i).fields, field ∉ (calls j).fields) (events : List (ConfigEvent ι))
    (careful : (Session.start ι w).Careful fs from_str bucket calls events) :
    (events.foldl (Session.step fs from_str bucket calls) (.start ι w)).Kept fs from_str bucket calls := by
  have start : (Session.start ι w).Inv fs from_str bucket calls :=
    ⟨fun _ _ inside _ => (nomatch inside),fun _ none => (nomatch none),record,fun _ ended => (nomatch ended),
      fun _ _ held => (by rcases held with held | held <;> cases held),fun _ => found,fun _ emptied => (nomatch emptied)⟩
  suffices every : ∀ s : Session ι, s.Inv fs from_str bucket calls → s.Careful fs from_str bucket calls events →
      (events.foldl (Session.step fs from_str bucket calls) s).Inv fs from_str bucket calls from (every _ start careful).kept
  clear start careful
  induction events with
  | nil => exact fun s inv _ => inv
  | cons event rest ih => exact fun s inv careful => ih _ (inv.step valid apart careful.1) careful.2

namespace Sample

/-- One operation turns versioning on, the other sets the CORS rules. -/
def settings_calls : Bool → ConfigCall
  | false => .set_versioning true
  | true => .put_bucket_cors []

theorem settings_apart : ∀ i j, i ≠ j → ∀ field ∈ (settings_calls i).fields, field ∉ (settings_calls j).fields := by decide

theorem settings_found : bucketRecord node_storage "logs" (world false) = some (settings false) := by decide +kernel

/-- One operation after the other, with readers between them. -/
def in_turn : List (ConfigEvent Bool) :=
  [.check false,.load false,.truncate false,.fill false (.bytes []),.observe,
    .check true,.load true,.truncate true,.fill true (.bytes []),.observe]

/-- Both operations read the file before either writes it. -/
def overlapping : List (ConfigEvent Bool) :=
  [.check false,.check true,.load false,.load true,.truncate false,.fill false (.bytes []),
    .truncate true,.fill true (.bytes [])]

/-- The state after some steps. -/
def session (events : List (ConfigEvent Bool)) : Session Bool :=
  events.foldl (Session.step node_storage policy_from_str "logs" settings_calls) (.start Bool (world false))

theorem in_turn_careful :
    (Session.start Bool (world false)).Careful node_storage policy_from_str "logs" settings_calls in_turn := by
  have clear : ∀ j, ((session []).phase j).inside = false ∧ ((session (in_turn.take 1)).phase j).inside = false ∧
      ((session (in_turn.take 4)).phase j).emptied = false ∧ ((session (in_turn.take 6)).phase j).inside = false ∧
      ((session (in_turn.take 9)).phase j).emptied = false := by decide +kernel
  exact ⟨trivial,fun j => (clear j).2.1,trivial,trivial,fun j => (clear j).2.2.1,trivial,fun j => (clear j).2.2.2.1,
    trivial,trivial,fun j => (clear j).2.2.2.2,trivial⟩

end Sample

theorem in_turn_settings_kept :
    (Sample.session Sample.in_turn).Kept Sample.node_storage Sample.policy_from_str "logs" Sample.settings_calls :=
  careful_settings_kept (by decide +kernel) Sample.settings_found Sample.settings_apart Sample.in_turn Sample.in_turn_careful

/-- Both operations succeed, and the versioning that the first one has turned on is off again. -/
theorem overlapping_loses_versioning :
    (∀ i j, i ≠ j → ∀ field ∈ (Sample.settings_calls i).fields, field ∉ (Sample.settings_calls j).fields) ∧
      (∀ i, (Sample.session Sample.overlapping).phase i = .ended (.ok ())) ∧
      ¬ (Sample.session Sample.overlapping).Kept Sample.node_storage Sample.policy_from_str "logs" Sample.settings_calls := by
  have ended (i : Bool) : (Sample.session Sample.overlapping).phase i = .ended (.ok ()) := by cases i <;> rfl
  refine ⟨Sample.settings_apart,ended,fun kept => ?_⟩
  obtain ⟨record,found,contained⟩ := kept.contained fun i => ⟨_,ended i⟩
  have off : (bucketRecord Sample.node_storage "logs" (Sample.session Sample.overlapping).world).map BucketMeta.versioning =
      some false := by decide +kernel
  rw [found] at off
  have on : record.versioning = true := congrArg BucketMeta.versioning (Except.ok.inj (contained false (ended false))).symm
  rw [Option.map_some,on] at off
  cases off

end Maxio
