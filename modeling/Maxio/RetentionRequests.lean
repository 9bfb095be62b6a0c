import Maxio.BucketConfig
import Maxio.RoundTrip
import Maxio.Versions

/-!
Retention as clients ask for it. The date is stored as a text and parsed again whenever the object is to be protected;
a number of days is added to the clock.
-/

namespace Maxio
open FileTree (Node Tree)

/-! ### Requests -/

structure RetentionXml where
  mode : String
  retain_until_date : Option String
  days : Option UInt32

structure DefaultRetentionXml where
  mode : String
  days : Option UInt32
  years : Option UInt32

structure ObjectLockRuleXml where
  default_retention : Option DefaultRetentionXml

structure ObjectLockConfiguration where
  object_lock_enabled : Option String
  rule : Option ObjectLockRuleXml

/-- How a request on object lock fails. -/
inductive LockFailure where
  | access_denied (message : String)
  | no_such_key (key : String)
  | no_such_version (version_id : String)
  | no_such_bucket (bucket : String)
  | invalid_argument (message : String)
  | internal (e : StorageError)
  /-- No answer: the handler panics. -/
  | panic (message : String)
  deriving DecidableEq, Repr

def map_storage_object_error : StorageError → LockFailure
  | .ObjectLocked msg => .access_denied msg
  | .NotFound key => .no_such_key key
  | .VersionNotFound id => .no_such_version id
  | .InvalidKey msg => .invalid_argument msg
  | other => .internal other

def map_object_lock_error : StorageError → LockFailure
  | .InvalidKey msg => .invalid_argument msg
  | .NotFound name => .no_such_bucket name
  | other => .internal other

/-- `String.toUpper` changes ASCII letters only, as `to_ascii_uppercase` does. -/
def parse_lock_mode (raw : String) : Except LockFailure ObjectLockMode :=
  if raw.toUpper = "GOVERNANCE" then .ok .Governance
  else if raw.toUpper = "COMPLIANCE" then .ok .Compliance
  else .error (.invalid_argument "invalid ObjectLock retention Mode")

/-- `u32::saturating_mul`. -/
def saturating_mul (a b : UInt32) : UInt32 := UInt32.ofNat (min (a.toNat * b.toNat) (2 ^ 32 - 1))

/-- The days of a rule, counting a year as 365. -/
def DefaultRetentionXml.length (r : DefaultRetentionXml) : Option UInt32 :=
  r.days <|> r.years.map fun y => saturating_mul y 365

/-- The settings a configuration asks for. -/
def lock_config (config : ObjectLockConfiguration) : Except LockFailure ObjectLockConfig := do
  let enabled := config.object_lock_enabled.any fun v => Text.eq_ignore_ascii_case v.toList "Enabled".toList
  match config.rule.bind ObjectLockRuleXml.default_retention with
  | none => .ok { enabled, default_retention_mode := none, default_retention_days := none }
  | some r =>
    let mode ← parse_lock_mode r.mode
    .ok { enabled, default_retention_mode := some mode, default_retention_days := r.length.map UInt32.toNat }

section
variable (P : Primitives)

/-- The retention a request asks for; a date is taken as it was sent. -/
def retention_from_xml (now : Int) (xml : RetentionXml) : Except LockFailure ObjectLockRetention := do
  let mode ← parse_lock_mode xml.mode
  match xml.retain_until_date,xml.days with
  | some until_date,_ => .ok { mode, retain_until_date := until_date }
  | none,some days => match add_days now days.toNat with
    | some until_date => .ok { mode, retain_until_date := P.format_time until_date }
    | none => .error (.panic date_overflow.text)
  | none,none => .error (.invalid_argument "Retention must specify RetainUntilDate or Days")

namespace FilesystemStorage
variable (fs : FilesystemStorage)

def read_meta_at (bucket key : String) (version_id : Option String) : Action ObjectMeta := do
  Prog.lift (validate_key key)
  match version_id with
  | some vid => if vid = "null" then fs.read_object_meta bucket key else fs.read_version_meta bucket key vid
  | none => fs.read_object_meta bucket key

def write_meta_at (bucket key : String) (version_id : Option String) (record : ObjectMeta) : Action Unit :=
  match version_id with
  | some vid =>
    if vid = "null" then io (Fs.write (meta_path fs.buckets_dir bucket key) (.json (.object record)))
    else io (Fs.write (version_meta_path fs.buckets_dir bucket key vid) (.json (.object record)))
  | none => io (Fs.write (meta_path fs.buckets_dir bucket key) (.json (.object record)))

def put_object_retention (bucket key : String) (version_id : Option String) (retention : ObjectLockRetention) :
    Action Unit := do
  Prog.lift (validate_bucket_name bucket)
  Prog.lift (validate_key key)
  let settings ← fs.read_bucket_meta bucket
  if !settings.object_lock_enabled then Prog.fail (.InvalidKey "object lock is not enabled for this bucket")
  else
    let record ← fs.read_meta_at bucket key version_id
    fs.write_meta_at bucket key version_id (apply_object_lock record (some retention))

def put_bucket_object_lock (bucket : String) (config : ObjectLockConfig) : Action Unit := do
  Prog.lift (validate_bucket_name bucket)
  let record ← fs.read_bucket_meta bucket
  if !record.object_lock_enabled then Prog.fail (.InvalidKey "object lock must be enabled at bucket creation")
  else fs.write_bucket_meta bucket { record with object_lock_config := some config }

end FilesystemStorage

namespace Api
variable (fs : FilesystemStorage)

def put_object_retention (now : Int) (bucket key : String) (version_id : Option String) (xml : RetentionXml) :
    Prog World LockFailure Unit := do
  let retention ← Prog.lift (retention_from_xml P now xml)
  (fs.put_object_retention bucket key version_id retention).mapError map_storage_object_error

def put_bucket_object_lock (bucket : String) (config : ObjectLockConfiguration) : Prog World LockFailure Unit := do
  let found ← (fs.head_bucket bucket).mapError .internal
  if !found then Prog.fail (.no_such_bucket bucket)
  else
    let config ← Prog.lift (lock_config config)
    (fs.put_bucket_object_lock bucket config).mapError map_object_lock_error

end Api
end

/-- The setting is one of those that every operation on the settings of a bucket reads and writes back. -/
theorem put_bucket_object_lock_eq (fs : FilesystemStorage) (from_str : String → Except String Json) (bucket : String)
    (config : ObjectLockConfig) : fs.put_bucket_object_lock bucket config =
      ConfigCall.run fs from_str bucket (.put_bucket_object_lock config) := by
  funext w
  simp only [FilesystemStorage.put_bucket_object_lock,ConfigCall.run,ConfigCall.check,ConfigCall.change,
    FilesystemStorage.update_bucket_meta]
  cases validate_bucket_name bucket with
  | error e => rfl
  | ok _ =>
    simp only [Prog.lift_ok_bind,Prog.pure_bind]
    refine congrFun (congrArg (fs.read_bucket_meta bucket >>= ·) (funext fun record => ?_)) w
    by_cases enabled : record.object_lock_enabled = true
    · simp [enabled]
    · simp [enabled]

/-! ### Reading back what was written -/

namespace Fs
variable {p : OsPath} {c : Content} {w w' : World}

/-- Where a path leads depends on the directories alone. -/
theorem locateFrom_same_dirs {t t' : Disk} (same : ∀ q, t'.isDir q = t.isDir q) {here q : OsPath}
    (found : locateFrom t here p = .ok q) : locateFrom t' here p = .ok q := by
  induction p generalizing here with
  | nil => exact found
  | cons s rest ih =>
    rw [locateFrom] at found ⊢
    split at found
    next skip => rw [if_pos skip]; exact ih found
    next keep =>
      rw [if_neg keep]
      split at found
      next up =>
        rw [if_pos up]
        split at found
        next dir =>
          rw [if_pos ((same here).trans dir)]
          exact ih found
        next => cases found
      next down => rw [if_neg down]; exact ih found

/-- A path that can be written leads to a place whose name is not special. -/
theorem write_inv (done : write p c w = (.ok (),w')) :
    dotted p = false ∧ ∃ q, locate w.tree p = .ok q ∧ w.tree.write q c = .ok w'.tree := by
  rw [write,change_ok_iff] at done
  obtain ⟨t,written,rfl⟩ := done
  unfold writeAt at written
  obtain ⟨q,entered,wrote⟩ : ∃ q, entry .IsADirectory w.tree p = .ok q ∧ w.tree.write q c = .ok t := by
    cases entered : entry .IsADirectory w.tree p with
    | error e => rw [entered] at written; cases written
    | ok q => rw [entered] at written; exact ⟨q,rfl,written⟩
  unfold entry at entered
  split at entered
  next => split at entered <;> cases entered
  next plain => exact ⟨by simpa using plain,q,entered,wrote⟩

theorem read_of_write (done : write p c w = (.ok (),w')) : read p w' = (.ok c,w') := by
  obtain ⟨plain,q,found,wrote⟩ := write_inv done
  obtain ⟨_,_,free,effect⟩ := Tree.write_inv wrote
  have dirs : ∀ r, w'.tree.isDir r = w.tree.isDir r := by
    intro r
    rw [Bool.eq_iff_iff,Tree.isDir_iff,Tree.isDir_iff,effect r]
    by_cases here : r = q
    · subst here
      simp [free]
    · rw [if_neg here]
  have again : locate w'.tree p = .ok q := locateFrom_same_dirs dirs found
  have node : w'.tree.node q = some (.file c) := by rw [effect,if_pos rfl]
  rw [read,observe_ok_iff]
  refine ⟨?_,rfl⟩
  simp [readAt,stat,again,Tree.stat,node,plain,bind,Except.bind]

/-- What can be read can be replaced. -/
theorem write_of_read {old : Content} (readable : read p w = (.ok old,w')) (new : Content) :
    ∃ w₂, write p new w = (.ok (),w₂) := by
  rw [read,observe_ok_iff] at readable
  obtain ⟨found,_⟩ := readable
  unfold readAt stat at found
  cases located : locate w.tree p with
  | error e => simp [located,bind,Except.bind] at found
  | ok q =>
    cases node : w.tree.node q with
    | none => simp [located,Tree.stat,node,bind,Except.bind] at found
    | some n =>
      cases n with
      | dir => simp [located,Tree.stat,node,bind,Except.bind] at found
      | file c =>
        have plain : dotted p = false := by
          by_contra dots
          rw [Bool.not_eq_false] at dots
          simp [located,Tree.stat,node,bind,Except.bind,dots] at found
        have nonroot : q ≠ [] := by
          rintro rfl
          rw [w.tree.root] at node
          cases node
        have parent : w.tree.node q.dropLast = some .dir := by
          refine w.tree.rooted _ (q.getLast nonroot) ?_
          rw [List.dropLast_append_getLast nonroot,node]
          simp
        obtain ⟨t,wrote⟩ := Tree.write_ok nonroot parent (by simp [node]) new
        refine ⟨{ w with tree := t },?_⟩
        rw [write,change_ok_iff]
        exact ⟨t,by simp [writeAt,entry,plain,located,wrote,bind,Except.bind],rfl⟩

end Fs

/-! ### What is promised -/

/-- The end of the year 9999, and with it of the dates that RFC 3339 can write. -/
def YEAR_10000 : Int := 253402300800000

/-- The documented behaviour of `chrono` on the dates it formats: a year of four digits is read back, and a later one
    gets a sign, which RFC 3339 does not know. -/
structure Primitives.Dates (P : Primitives) : Prop where
  kept : ∀ t, 0 ≤ t → t < YEAR_10000 → P.parse_from_rfc3339 (P.format_time t) = some t
  signed : ∀ t, YEAR_10000 ≤ t → t ≤ MAX_UTC → P.parse_from_rfc3339 (P.format_time t) = none

/-- The date of the record denotes the instant, and until then the record is protected. -/
structure ProtectedUntil (P : Primitives) (record : ObjectMeta) (instant : Int) : Prop where
  denotes : record.retain_until_date.bind P.parse_from_rfc3339 = some instant
  protects : ∀ t < instant, is_object_protected P t record = true

/-- The instant a request asks for, if it denotes one. -/
def RetentionXml.instant (P : Primitives) (now : Int) (xml : RetentionXml) : Option Int :=
  match xml.retain_until_date with
  | some text => P.parse_from_rfc3339 text
  | none => xml.days.map fun days => now + days.toNat * 86400000

/-- A request for retention does not panic, and when it is accepted the record is protected until the instant it asks
    for. -/
structure RetentionUpheld (P : Primitives) (fs : FilesystemStorage) (now : Int) (bucket key : String)
    (version_id : Option String) (xml : RetentionXml) (w : World) : Prop where
  calm : ∀ message, (Api.put_object_retention P fs now bucket key version_id xml w).1 ≠ .error (.panic message)
  enforced : ∀ w', Api.put_object_retention P fs now bucket key version_id xml w = (.ok (),w') →
    ∃ record instant, fs.read_meta_at bucket key version_id w' = (.ok record,w') ∧ xml.instant P now = some instant ∧
      ProtectedUntil P record instant

/-- Default retention for some days does not panic, and the lock it gives a new object protects it for the days. -/
structure DefaultUpheld (P : Primitives) (fs : FilesystemStorage) (now : Int) (bucket : String) (days : Nat) (w : World) :
    Prop where
  calm : ∀ message, (fs.resolve_default_object_lock P now bucket w).1 ≠ .error (.Panic message)
  given : 0 < days → ∃ lock, (fs.resolve_default_object_lock P now bucket w).1 = .ok (some lock)
  enforced : ∀ lock, (fs.resolve_default_object_lock P now bucket w).1 = .ok (some lock) →
    ∀ record, ProtectedUntil P (apply_object_lock record (some lock)) (now + days * 86400000)

/-- The store has a record that can be given retention. -/
def Retainable (fs : FilesystemStorage) (bucket key : String) (version_id : Option String) (w : World) : Prop :=
  validate_bucket_name bucket = .ok () ∧ validate_key key = .ok () ∧ ∃ settings record,
    fs.read_bucket_meta bucket w = (.ok settings,w) ∧ settings.object_lock_enabled = true ∧
      fs.read_meta_at bucket key version_id w = (.ok record,w)

/-- A request in a known mode denotes an instant: its text does, if there is a record it can be stored in, and the days
    lead to no date that cannot be stored. -/
def RetentionXml.Denotes (P : Primitives) (now : Int) (retainable : Prop) (xml : RetentionXml) : Prop :=
  (parse_lock_mode xml.mode).isOk = true → match xml.retain_until_date,xml.days with
    | some text,_ => retainable → P.parse_from_rfc3339 text ≠ none
    | none,some days => now + days.toNat * 86400000 ≤ MAX_UTC ∧
      (retainable → now + days.toNat * 86400000 < YEAR_10000)
    | none,none => True

section
variable {P : Primitives} {fs : FilesystemStorage} {now : Int} {bucket key : String} {version_id : Option String}
  {w w' : World}

/-- A date that denotes an instant protects the record until then. -/
theorem protectedUntil_iff {record : ObjectMeta} {text : String} {instant : Int}
    (has : record.retain_until_date = some text) :
    ProtectedUntil P record instant ↔ P.parse_from_rfc3339 text = some instant := by
  constructor
  · intro protects
    have denotes := protects.denotes
    rwa [has] at denotes
  · intro denotes
    have bound : record.retain_until_date.bind P.parse_from_rfc3339 = some instant := by rw [has]; exact denotes
    refine ⟨bound,fun t before => ?_⟩
    simp [is_object_protected,bound,before]

theorem formatted_iff (dates : P.Dates) {t : Int} (clock : 0 ≤ t) (within : t ≤ MAX_UTC) :
    P.parse_from_rfc3339 (P.format_time t) = some t ↔ t < YEAR_10000 := by
  constructor
  · intro kept
    by_contra late
    rw [dates.signed t (by omega) within] at kept
    cases kept
  · exact dates.kept t clock

/-! Storing a retention. -/

theorem read_meta_at_quiet : Quiet (fs.read_meta_at bucket key version_id) := by
  have version : ∀ vid, Quiet (fs.read_version_meta bucket key vid) := fun vid =>
    Quiet.bind (Quiet.mapError (Quiet.observe _)) fun _ => Quiet.lift _
  refine Quiet.bind (Quiet.lift _) fun _ => ?_
  cases version_id with
  | none => exact FilesystemStorage.read_object_meta_quiet bucket key
  | some vid =>
    dsimp only
    split
    · exact FilesystemStorage.read_object_meta_quiet bucket key
    · exact version vid

/-- The file a retention is stored in. -/
def meta_file_at (fs : FilesystemStorage) (bucket key : String) (version_id : Option String) : OsPath :=
  match version_id with
  | some vid => if vid = "null" then meta_path fs.buckets_dir bucket key else version_meta_path fs.buckets_dir bucket key vid
  | none => meta_path fs.buckets_dir bucket key

theorem write_meta_at_eq (record : ObjectMeta) : fs.write_meta_at bucket key version_id record =
    io (Fs.write (meta_file_at fs bucket key version_id) (.json (.object record))) := by
  unfold FilesystemStorage.write_meta_at meta_file_at
  cases version_id with
  | none => rfl
  | some vid =>
    dsimp only
    split <;> rfl

theorem read_meta_at_ok_iff {record : ObjectMeta} : fs.read_meta_at bucket key version_id w = (.ok record,w') ↔
    validate_key key = .ok () ∧
      Fs.read (meta_file_at fs bucket key version_id) w = (.ok (.json (.object record)),w) ∧ w' = w := by
  have from_file : ∀ (missing : StorageError) (p : OsPath),
      (do let data ← or_not_found missing (Fs.read p)
          Prog.lift (from_json asObject data) : Action ObjectMeta) w = (.ok record,w') ↔
        Fs.read p w = (.ok (.json (.object record)),w) ∧ w' = w := by
    intro missing p
    simp only [Prog.bind_ok_iff,or_not_found,Prog.mapError_ok_iff,lift_ok_iff,from_json_ok]
    constructor
    · rintro ⟨content,w₁,read,⟨json,rfl,parsed⟩,rfl⟩
      have same := (Quiet.observe _ : Quiet (Fs.read p)).state read
      subst same
      cases json with
      | object r => rw [show r = record by simpa [asObject] using parsed] at read; exact ⟨read,rfl⟩
      | _ => cases parsed
    · rintro ⟨read,rfl⟩
      exact ⟨_,_,read,⟨_,rfl,rfl⟩,rfl⟩
  unfold FilesystemStorage.read_meta_at meta_file_at
  simp only [Prog.bind_ok_iff,lift_ok_iff]
  constructor
  · rintro ⟨_,_,⟨valid,rfl⟩,read⟩
    refine ⟨valid,?_⟩
    cases version_id with
    | none => exact (from_file _ _).mp read
    | some vid =>
      dsimp only at read ⊢
      split at read
      next null => rw [if_pos null]; exact (from_file _ _).mp read
      next other => rw [if_neg other]; exact (from_file _ _).mp read
  · rintro ⟨valid,read⟩
    refine ⟨_,_,⟨valid,rfl⟩,?_⟩
    cases version_id with
    | none => exact (from_file _ _).mpr read
    | some vid =>
      dsimp only at read ⊢
      split at read
      next null => rw [if_pos null]; exact (from_file _ _).mpr read
      next other => rw [if_neg other]; exact (from_file _ _).mpr read

/-- The store takes any retention for a record it has, and none otherwise; what it took can be read back. -/
theorem put_object_retention_done {retention : ObjectLockRetention}
    (done : fs.put_object_retention bucket key version_id retention w = (.ok (),w')) :
    Retainable fs bucket key version_id w ∧ ∃ record,
      fs.read_meta_at bucket key version_id w' = (.ok (apply_object_lock record (some retention)),w') := by
  simp only [FilesystemStorage.put_object_retention,Prog.bind_ok_iff,lift_ok_iff] at done
  obtain ⟨_,_,⟨valid,rfl⟩,_,_,⟨valid',rfl⟩,settings,w₁,read,done⟩ := done
  have same := (FilesystemStorage.read_bucket_meta_quiet bucket).state read
  subst same
  split at done
  next => cases done
  next enabled =>
    rw [Prog.bind_ok_iff] at done
    obtain ⟨record,w₂,found,written⟩ := done
    have same := read_meta_at_quiet.state found
    subst same
    refine ⟨⟨valid,valid',settings,record,read,by simpa using enabled,found⟩,record,?_⟩
    rw [write_meta_at_eq,io_ok_iff] at written
    exact read_meta_at_ok_iff.mpr ⟨valid',Fs.read_of_write written,rfl⟩

theorem put_object_retention_succeeds (retainable : Retainable fs bucket key version_id w)
    (retention : ObjectLockRetention) : ∃ w', fs.put_object_retention bucket key version_id retention w = (.ok (),w') := by
  obtain ⟨valid,valid',settings,record,read,enabled,found⟩ := retainable
  obtain ⟨_,readable,_⟩ := read_meta_at_ok_iff.mp found
  obtain ⟨w',written⟩ := Fs.write_of_read readable (.json (.object (apply_object_lock record (some retention))))
  refine ⟨w',?_⟩
  simp only [FilesystemStorage.put_object_retention,valid,valid',Prog.lift_ok_bind]
  rw [Prog.bind_of_ok read]
  simp only [enabled,Bool.not_true,Bool.false_eq_true,if_false]
  rw [Prog.bind_of_ok found,write_meta_at_eq]
  exact io_ok_iff.mpr written

/-! Requests. -/

theorem map_storage_object_error_calm (e : StorageError) (message : String) :
    map_storage_object_error e ≠ .panic message := by
  cases e <;> simp [map_storage_object_error]

section
variable {xml : RetentionXml} {retention : ObjectLockRetention}

theorem put_object_retention_ok_iff (asked : retention_from_xml P now xml = .ok retention) :
    Api.put_object_retention P fs now bucket key version_id xml w = (.ok (),w') ↔
      fs.put_object_retention bucket key version_id retention w = (.ok (),w') := by
  rw [Api.put_object_retention,asked,Prog.lift_ok_bind,Prog.mapError_ok_iff]

/-- A retention that was made of a request is upheld if its text denotes what the request asks for. -/
theorem retentionUpheld_iff (asked : retention_from_xml P now xml = .ok retention) :
    RetentionUpheld P fs now bucket key version_id xml w ↔ (Retainable fs bucket key version_id w →
      ∃ instant, xml.instant P now = some instant ∧ P.parse_from_rfc3339 retention.retain_until_date = some instant) := by
  constructor
  · intro upheld retainable
    obtain ⟨w',done⟩ := put_object_retention_succeeds retainable retention
    obtain ⟨_,record,stored⟩ := put_object_retention_done done
    obtain ⟨record',instant,found,asks,protects⟩ := upheld.enforced w' ((put_object_retention_ok_iff asked).mpr done)
    have same : record' = apply_object_lock record (some retention) := by
      have both := found.symm.trans stored
      simpa using both
    rw [same] at protects
    exact ⟨instant,asks,(protectedUntil_iff rfl).mp protects⟩
  · intro denotes
    refine ⟨fun message panics => ?_,fun w' done => ?_⟩
    · rw [Api.put_object_retention,asked,Prog.lift_ok_bind,Prog.mapError_apply] at panics
      cases outcome : (fs.put_object_retention bucket key version_id retention w).1 with
      | ok _ => rw [outcome] at panics; cases panics
      | error e =>
        rw [outcome] at panics
        exact map_storage_object_error_calm e message (Except.error.inj panics)
    · rw [put_object_retention_ok_iff asked] at done
      obtain ⟨retainable,record,stored⟩ := put_object_retention_done done
      obtain ⟨instant,asks,parsed⟩ := denotes retainable
      exact ⟨_,instant,stored,asks,(protectedUntil_iff rfl).mpr parsed⟩

/-- A request that makes no retention fails, which is all that is asked of it unless it panics. -/
theorem retentionUpheld_of_error {e : LockFailure} (failed : retention_from_xml P now xml = .error e)
    (calm : ∀ message, e ≠ .panic message) : RetentionUpheld P fs now bucket key version_id xml w := by
  have outcome : Api.put_object_retention P fs now bucket key version_id xml w = (.error e,w) := by
    rw [Api.put_object_retention,failed]
    rfl
  refine ⟨fun message panics => ?_,fun w' done => ?_⟩
  · rw [outcome] at panics
    exact calm message (Except.error.inj panics)
  · rw [outcome] at done
    cases done

theorem parse_lock_mode_calm {raw : String} {e : LockFailure} (failed : parse_lock_mode raw = .error e) (message : String) :
    e ≠ .panic message := by
  unfold parse_lock_mode at failed
  split at failed
  next => cases failed
  next =>
    split at failed
    next => cases failed
    next => cases failed; simp

/-- Requests for retention are upheld exactly when they denote an instant that can be stored. -/
theorem retention_upheld_iff (dates : P.Dates) (clock : 0 ≤ now) :
    RetentionUpheld P fs now bucket key version_id xml w ↔
      xml.Denotes P now (Retainable fs bucket key version_id w) := by
  unfold RetentionXml.Denotes
  cases known : parse_lock_mode xml.mode with
  | error e =>
    refine iff_of_true (retentionUpheld_of_error (e := e) ?_ (parse_lock_mode_calm known)) fun ok => by cases ok
    rw [retention_from_xml,known]
    rfl
  | ok mode =>
    refine Iff.trans ?_ (show _ ↔ (_ → _) from ⟨fun h _ => h,fun h => h rfl⟩)
    cases given : xml.retain_until_date with
    | some text =>
      have asked : retention_from_xml P now xml = .ok { mode, retain_until_date := text } := by
        rw [retention_from_xml,known,given]
        rfl
      rw [retentionUpheld_iff asked,RetentionXml.instant,given]
      refine forall_congr' fun _ => ?_
      rw [Option.ne_none_iff_exists']
      exact ⟨fun ⟨instant,asks,_⟩ => ⟨instant,asks⟩,fun ⟨instant,asks⟩ => ⟨instant,asks,asks⟩⟩
    | none =>
      cases counted : xml.days with
      | none =>
        refine iff_of_true (retentionUpheld_of_error (e := .invalid_argument
          "Retention must specify RetainUntilDate or Days") ?_ (by simp)) trivial
        rw [retention_from_xml,known,given,counted]
        rfl
      | some days =>
        by_cases within : now + days.toNat * 86400000 ≤ MAX_UTC
        · have asked : retention_from_xml P now xml =
              .ok { mode, retain_until_date := P.format_time (now + days.toNat * 86400000) } := by
            simp only [retention_from_xml,known,given,counted,add_days,if_pos within]
            rfl
          rw [retentionUpheld_iff asked,RetentionXml.instant,given,counted,Option.map_some]
          dsimp only
          rw [and_iff_right within]
          refine forall_congr' fun _ => ?_
          rw [← formatted_iff dates (by omega) within]
          simp
        · refine iff_of_false (fun upheld => ?_) fun both => within both.1
          refine upheld.calm date_overflow.text ?_
          have failed : retention_from_xml P now xml = .error (.panic date_overflow.text) := by
            simp only [retention_from_xml,known,given,counted,add_days,if_neg within]
            rfl
          rw [Api.put_object_retention,failed]
          rfl

end
/-! Default retention. -/

/-- The days a configuration asks for. -/
def ObjectLockConfiguration.days (config : ObjectLockConfiguration) : Option Nat :=
  ((config.rule.bind ObjectLockRuleXml.default_retention).bind DefaultRetentionXml.length).map UInt32.toNat

theorem lock_config_days {config : ObjectLockConfiguration} {settings : ObjectLockConfig} {days : Nat}
    (made : lock_config config = .ok settings) (asked : config.days = some days) :
    ∃ mode, settings.default_retention_mode = some mode ∧ settings.default_retention_days = some days := by
  unfold ObjectLockConfiguration.days at asked
  unfold lock_config at made
  cases rule : config.rule.bind ObjectLockRuleXml.default_retention with
  | none => simp [rule] at asked
  | some r =>
    rw [rule,Option.bind_some] at asked
    simp only [rule] at made
    cases known : parse_lock_mode r.mode with
    | error e => rw [known] at made; cases made
    | ok mode =>
      rw [known] at made
      have same := Except.ok.inj made
      rw [← same]
      exact ⟨mode,rfl,asked⟩

/-- A configuration that is accepted becomes the setting of the bucket. -/
theorem put_bucket_object_lock_done {config : ObjectLockConfiguration}
    (done : Api.put_bucket_object_lock fs bucket config w = (.ok (),w')) :
    validate_bucket_name bucket = .ok () ∧ ∃ settings record, lock_config config = .ok settings ∧
      bucketRecord fs bucket w' = some record ∧ record.object_lock_enabled = true ∧
        record.object_lock_config = some settings := by
  simp only [Api.put_bucket_object_lock,Prog.bind_ok_iff,Prog.mapError_ok_iff] at done
  obtain ⟨found,w₁,_,done⟩ := done
  split at done
  next => cases done
  next =>
    simp only [Prog.bind_ok_iff,Prog.mapError_ok_iff,lift_ok_iff,FilesystemStorage.put_bucket_object_lock] at done
    obtain ⟨settings,_,⟨made,rfl⟩,_,_,⟨valid,rfl⟩,record,w₂,read,done⟩ := done
    split at done
    next => cases done
    next enabled =>
      refine ⟨valid,settings,{ record with object_lock_config := some settings },made,?_,by simpa using enabled,rfl⟩
      have leads : Leads (bucket_meta_path fs.buckets_dir bucket) _ _ := bucket_meta_leads (validBucket_of_validate valid)
      have written := (Fs.write_done leads (io_ok_iff.mp done)).1.here
      rw [bucketRecord,bucketMetaAt,written]

theorem default_upheld_iff (dates : P.Dates) (clock : 0 ≤ now) (valid : validate_bucket_name bucket = .ok ())
    {record : BucketMeta} {settings : ObjectLockConfig} {mode : ObjectLockMode} {days : Nat}
    (found : bucketRecord fs bucket w = some record) (enabled : record.object_lock_enabled = true)
    (has : record.object_lock_config = some settings) (for_mode : settings.default_retention_mode = some mode)
    (for_days : settings.default_retention_days = some days) :
    DefaultUpheld P fs now bucket days w ↔ days = 0 ∨ now + days * 86400000 < YEAR_10000 := by
  have outcome : fs.resolve_default_object_lock P now bucket w = (if days = 0 then pure none
      else match add_days now days with
        | some until_date => pure (some { mode, retain_until_date := P.format_time until_date })
        | none => Prog.fail date_overflow : Action (Option ObjectLockRetention)) w := by
    unfold FilesystemStorage.resolve_default_object_lock
    rw [Prog.bind_of_ok ((read_bucket_meta_ok_iff valid).mpr ⟨found,rfl⟩)]
    simp only [enabled,Bool.not_true,Bool.false_eq_true,if_false,has,for_mode,for_days] <;> rfl
  by_cases zero : days = 0
  · rw [if_pos zero] at outcome
    refine iff_of_true ⟨fun message => ?_,fun positive => by omega,fun lock given => ?_⟩ (.inl zero)
    · rw [outcome]; simp
    · rw [outcome] at given; cases given
  · rw [if_neg zero] at outcome
    rw [or_iff_right zero]
    by_cases within : now + days * 86400000 ≤ MAX_UTC
    · rw [add_days,if_pos within] at outcome
      rw [← formatted_iff dates (by omega) within]
      constructor
      · intro upheld
        obtain ⟨lock,given⟩ := upheld.given (by omega)
        have protects := upheld.enforced lock given
          (new_object_meta "" "" 0 "" "" none none none none none)
        rw [outcome] at given
        obtain rfl := Option.some.inj (Except.ok.inj given)
        exact (protectedUntil_iff rfl).mp protects
      · intro parsed
        refine ⟨fun message => by rw [outcome]; simp,fun _ => ⟨_,by rw [outcome]; rfl⟩,fun lock given record => ?_⟩
        rw [outcome] at given
        obtain rfl := Option.some.inj (Except.ok.inj given)
        exact (protectedUntil_iff rfl).mpr parsed
    · rw [add_days,if_neg within] at outcome
      refine iff_of_false (fun upheld => upheld.calm _ (by rw [outcome]; rfl)) ?_
      have later : YEAR_10000 ≤ MAX_UTC := by decide
      omega

/-- Accepted retention is enforced exactly when it can be. A request for retention is upheld unless its text denotes no
    instant or its days lead past the year 9999; default retention is upheld for as long as its days, counted from the
    time of the put, end before the year 10000. -/
theorem accepted_retention_enforced_iff (dates : P.Dates) (clock : 0 ≤ now) :
    (∀ (key : String) (version_id : Option String) (xml : RetentionXml) (w : World),
      RetentionUpheld P fs now bucket key version_id xml w ↔
        xml.Denotes P now (Retainable fs bucket key version_id w)) ∧
    ∀ (config : ObjectLockConfiguration) (days : Nat) (w w' later : World),
      Api.put_bucket_object_lock fs bucket config w = (.ok (),w') → config.days = some days →
        bucketRecord fs bucket later = bucketRecord fs bucket w' →
          (DefaultUpheld P fs now bucket days later ↔ days = 0 ∨ now + days * 86400000 < YEAR_10000) := by
  refine ⟨fun key version_id xml w => retention_upheld_iff dates clock,fun config days w w' later done asked same => ?_⟩
  obtain ⟨valid,settings,record,made,found,enabled,has⟩ := put_bucket_object_lock_done done
  obtain ⟨mode,for_mode,for_days⟩ := lock_config_days made asked
  exact default_upheld_iff dates clock valid (same.trans found) enabled has for_mode for_days

end

namespace Sample

/-- Dates written as numbers of milliseconds, but for one day after the epoch and the beginning of 2030. -/
def dated : Primitives := { primitives with
  format_time t :=
    if t = 86400000 then "1970-01-02T00:00:00.000Z"
    else if t < YEAR_10000 then toString t.toNat
    else "+" ++ toString t.toNat
  parse_from_rfc3339 text :=
    if text = "1970-01-02T00:00:00.000Z" then some 86400000
    else if text = "2030-01-01T00:00:00Z" then some 1893456000000
    else if text.toList.head? = some '+' then none
    else (parseUnsigned 253402300800000 text).map Int.ofNat }

example : dated.parse_from_rfc3339 (dated.format_time 86400000) = some 86400000 := by decide +kernel

theorem toString_ne_of_dash {n : Nat} {text : String} (dash : '-' ∈ text.toList) : toString n ≠ text := by
  rintro rfl
  rw [toString_digits] at dash
  exact absurd (Nat.isDigit_of_mem_toDigits (by decide) (by decide) dash) (by decide)

theorem dated_dates : dated.Dates where
  kept t early late := by
    by_cases day : t = 86400000
    · subst day
      decide
    · have unsigned : (toString t.toNat).toList.head? ≠ some '+' := by
        intro plus
        have member := List.mem_of_head? plus
        rw [toString_digits] at member
        exact absurd (Nat.isDigit_of_mem_toDigits (by decide) (by decide) member) (by decide)
      have small : t.toNat ≤ 253402300800000 := by
        unfold YEAR_10000 at late
        omega
      simp only [dated,if_neg day,if_pos late,if_neg (toString_ne_of_dash (n := t.toNat)
        (by decide : '-' ∈ "1970-01-02T00:00:00.000Z".toList)),if_neg (toString_ne_of_dash (n := t.toNat)
        (by decide : '-' ∈ "2030-01-01T00:00:00Z".toList)),if_neg unsigned,parseUnsigned_toString small,Option.map_some,
        Int.ofNat_eq_natCast,Int.toNat_of_nonneg early]
  signed t late _ := by
    have day : t ≠ 86400000 := by
      unfold YEAR_10000 at late
      omega
    have plus : ("+" ++ toString t.toNat).toList.head? = some '+' := by rw [String.toList_append]; rfl
    have other : ∀ text : String, text.toList.head? ≠ some '+' → "+" ++ toString t.toNat ≠ text := by
      rintro text head rfl
      exact head plus
    simp only [dated,if_neg day,if_neg (not_lt.mpr late),if_neg (other "1970-01-02T00:00:00.000Z" (by decide)),
      if_neg (other "2030-01-01T00:00:00Z" (by decide)),if_pos plus]

/-- The bucket under object lock, without default retention. -/
def lockable_world : World :=
  (Fs.write ["data","logs",".bucket.json"] (.json (.bucket { settings false with object_lock_enabled := true }))
    (world false)).2

/-- The object `a` in it. -/
def stored_world : World :=
  (bytewise.put_object dated (draws 0) "logs" "a" "text/plain" (stream abc abc_filled abc_fits) none none none
    lockable_world).2

def until_text (text : String) : RetentionXml := { mode := "compliance", retain_until_date := some text, days := none }

def for_days (days : UInt32) : RetentionXml := { mode := "COMPLIANCE", retain_until_date := none, days := some days }

def request_retention (xml : RetentionXml) : Except LockFailure Unit × World :=
  Api.put_object_retention dated bytewise 0 "logs" "a" none xml stored_world

end Sample

theorem retained_until_2030 : ∃ w' record, Sample.request_retention (Sample.until_text "2030-01-01T00:00:00Z") = (.ok (),w') ∧
    Sample.bytewise.read_meta_at "logs" "a" none w' = (.ok record,w') ∧
      ProtectedUntil Sample.dated record 1893456000000 := by
  have ok : (Sample.request_retention (Sample.until_text "2030-01-01T00:00:00Z")).1.isOk = true := by decide +kernel
  obtain ⟨_,w',done⟩ := Sample.isOk_spec ok
  have upheld := ((@accepted_retention_enforced_iff _ Sample.bytewise _ "logs" Sample.dated_dates (le_refl 0)).1 "a" none
    (Sample.until_text "2030-01-01T00:00:00Z") Sample.stored_world).mpr fun _ _ => by decide
  obtain ⟨record,instant,found,asks,protects⟩ := upheld.enforced w' done
  have same : instant = 1893456000000 := by
    have known : (Sample.until_text "2030-01-01T00:00:00Z").instant Sample.dated 0 = some 1893456000000 := by decide
    rw [asks] at known
    exact Option.some.inj known
  exact ⟨w',record,done,found,same ▸ protects⟩

/-- A text that denotes no instant is accepted, and a number of days makes the handler panic. -/
theorem retention_not_upheld : (Sample.request_retention (Sample.until_text "tomorrow")).1 = .ok () ∧
    ¬ RetentionUpheld Sample.dated Sample.bytewise 0 "logs" "a" none (Sample.until_text "tomorrow") Sample.stored_world ∧
      (Sample.request_retention (Sample.for_days 4294967295)).1 = .error (.panic date_overflow.text) := by
  have accepted : (Sample.request_retention (Sample.until_text "tomorrow")).1 = .ok () := by decide +kernel
  refine ⟨accepted,fun upheld => ?_,by decide +kernel⟩
  obtain ⟨_,w',done⟩ := Sample.isOk_spec (r := Sample.request_retention (Sample.until_text "tomorrow")) (by rw [accepted]; rfl)
  obtain ⟨record,instant,_,asks,_⟩ := upheld.enforced w' done
  have none : (Sample.until_text "tomorrow").instant Sample.dated 0 = none := by decide
  rw [none] at asks
  cases asks

end Maxio
