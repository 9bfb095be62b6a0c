import Maxio.Neighbours

/-!
Access logs. A line about a request is appended to the log object of its bucket and day, an ordinary object in another
bucket: whatever happens on other keys meanwhile, reading the object gives all lines, each once and in the order in which
they were delivered.
-/

set_option linter.unusedSimpArgs false

namespace Maxio
open FileTree (Node Tree)

/-- A line of the access log, before it is spelled out. -/
structure AccessLogEntry where
  timestamp : String
  source_bucket : String
  remote_ip : String
  requester : String
  request_id : String
  operation : String
  key : String
  request_uri : String
  http_status : Nat
  error_code : String
  bytes_sent : Nat
  object_size : Nat
  total_time_ms : Nat
  user_agent : String

def AccessLogEntry.format_line (entry : AccessLogEntry) : String :=
  " ".intercalate [entry.source_bucket,entry.timestamp,entry.remote_ip,entry.requester,entry.request_id,entry.operation,
    entry.key,entry.request_uri,toString entry.http_status,entry.error_code,toString entry.bytes_sent,
    toString entry.object_size,toString entry.total_time_ms,entry.user_agent] ++ "\n"

/-- The key of the log of a bucket for a day. -/
def log_key (start source_bucket date : String) : String :=
  if start = "" then source_bucket ++ "/" ++ date ++ ".log"
  else (if ends_with start "/" then start else start ++ "/") ++ source_bucket ++ "/" ++ date ++ ".log"

namespace FilesystemStorage
variable (P : Primitives) (fs : FilesystemStorage)

/-- The bytes of a file, none when there is no file. -/
def read_or_empty (path : OsPath) : Action Bytes := do
  match ← Prog.attempt (Fs.read path) with
  | .ok content => pure (P.bytes content)
  | .error e => if e.kind = .NotFound then pure [] else Prog.fail (.Io e)

/-- The sidecar of a log object with some content. -/
def log_object_meta (key now : String) (content : Bytes) : ObjectMeta :=
  new_object_meta key "text/plain" content.length (quoted (hex_encode (P.md5 content))) now none none none none none

/-- Append a line to the log object, and write its sidecar. -/
def append_log_line (bucket key now line : String) : Action Unit := do
  let path := object_path fs.buckets_dir bucket key
  io (Fs.create_dir_all (parent_dir path))
  let existing ← read_or_empty P path
  let existing := existing ++ utf8 line
  io (Fs.write path (.bytes existing))
  let side := meta_path fs.buckets_dir bucket key
  io (Fs.create_dir_all (parent_dir side))
  io (Fs.write side (.json (.object (log_object_meta P key now existing))))

/-- Deliver a line, given the day and the time as the clock tells them. -/
def deliver_access_log (date now : String) (entry : AccessLogEntry) : Action Unit := do
  let record ← fs.read_bucket_meta entry.source_bucket
  match record.logging_target_bucket with
  | none => pure ()
  | some target_bucket =>
    if target_bucket = entry.source_bucket then pure ()
    else
      let key := log_key (record.logging_target_prefix.getD "") entry.source_bucket date
      fs.append_log_line P target_bucket key now entry.format_line

end FilesystemStorage

/-! ### One line -/

theorem leaf_append (key tail : String) (absent : '/' ∉ tail.toList) : leaf (key ++ tail) = leaf key ++ tail := by
  have pieces := split_append key tail absent
  rw [split_eq] at pieces
  exact (List.append_inj' pieces rfl).2 |> List.head_eq_of_cons_eq

/-- What the entry of a log says: its bytes, told by their digest. -/
def logged (P : Primitives) (text : Bytes) : StoredObject where
  result := ⟨text.length,quoted (hex_encode (P.md5 text)),none,none,none⟩
  customer_key := none
  body := text

/-- What is kept of a log: nothing yet, or its text with a sidecar that describes it. -/
structure LogKept (P : Primitives) (fs : FilesystemStorage) (bucket key : String) (text : Option Bytes) (w : World) : Prop where
  clear : ∀ q, q <+: home fs bucket key → Loose (w.tree.node q)
  single : w.tree.node (ecAt fs bucket key) ≠ some .dir
  absent : text = none → w.tree.node (metaAt fs bucket key) = none ∧ w.tree.node (objectAt fs bucket key) = none
  present : ∀ bytes, text = some bytes → skipped (leaf key) = false ∧
    w.tree.node (objectAt fs bucket key) = some (.file (.bytes bytes)) ∧ ∃ now, Shows fs bucket key (FilesystemStorage.log_object_meta P key now bytes) w

section Line
variable {P : Primitives} {fs : FilesystemStorage} {bucket key now line : String} {text : Option Bytes} {w w' : World}

theorem LogKept.answers (sound : P.Sound) (accepted : Accepted bucket key)
    (kept : LogKept P fs bucket key text w) : Answers P fs bucket key w (text.map (logged P)) := by
  cases text with
  | none =>
    have read := read_absent accepted kept.clear (kept.absent rfl).1
    refine ⟨fun ck => ?_,?_⟩
    · rw [FilesystemStorage.get_object_eq,accepted.bucket,accepted.key,Prog.lift_ok_bind,Prog.lift_ok_bind,
        Prog.bind_of_error read]
    · rw [FilesystemStorage.head_object,accepted.bucket,accepted.key,Prog.lift_ok_bind,Prog.lift_ok_bind]
      exact read
  | some bytes =>
    obtain ⟨named,file,now,shown⟩ := kept.present bytes rfl
    have described : Described P fs bucket key (FilesystemStorage.log_object_meta P key now bytes) none none bytes :=
      described_plain rfl rfl
    have landed : Landed P fs bucket key _ none none bytes false w :=
      ⟨shown,described,.flat bytes (.inr named) file rfl⟩
    obtain ⟨reader,record,done,size,reads⟩ := landed.gives_back sound accepted (fun _ => kept.single) (fun never => by cases never)
    have same := get_object_record accepted shown done
    subst same
    refine ⟨reader,_,done,?_,rfl,size,reads⟩
    rw [FilesystemStorage.head_object,accepted.bucket,accepted.key,Prog.lift_ok_bind,Prog.lift_ok_bind]
    exact read_object_meta_ok accepted shown

theorem read_or_empty_file {path dir : OsPath} {name : String} (leads : Leads path dir name) {bytes : Bytes}
    (file : w.tree.node (dir ++ [name]) = some (.file (.bytes bytes))) :
    FilesystemStorage.read_or_empty P path w = (.ok bytes,w) := by
  unfold FilesystemStorage.read_or_empty
  rw [Prog.bind_of_ok (attempt_ok_iff.mpr (Fs.read_file leads file))]
  rfl

theorem read_or_empty_absent {path dir : OsPath} {name : String} (leads : Leads path dir name)
    (parent : w.tree.node dir = some .dir) (absent : w.tree.node (dir ++ [name]) = none) :
    FilesystemStorage.read_or_empty P path w = (.ok [],w) := by
  have looked : Fs.read path w = (.error (.os .NotFound),w) := by
    rw [Fs.read,Fs.observe,Fs.readAt_leads leads,Tree.read,absent,Fs.missing_of_parent parent absent]
    rfl
  unfold FilesystemStorage.read_or_empty
  rw [Prog.bind_of_ok (attempt_ok_iff.mpr looked)]
  rfl

theorem LogKept.files (kept : LogKept P fs bucket key text w) :
    w.tree.node (objectAt fs bucket key) ≠ some .dir ∧ w.tree.node (metaAt fs bucket key) ≠ some .dir := by
  cases text with
  | none =>
    obtain ⟨side,payload⟩ := kept.absent rfl
    exact ⟨by simp [payload],by simp [side]⟩
  | some bytes =>
    obtain ⟨_,payload,now,shown⟩ := kept.present bytes rfl
    exact ⟨by simp [payload],by simp [show w.tree.node (metaAt fs bucket key) = _ from shown]⟩

/-- A line is always appended. -/
theorem LogKept.appended (accepted : Accepted bucket key) (named : skipped (leaf key) = false)
    (kept : LogKept P fs bucket key text w) (now line : String) :
    ∃ w', fs.append_log_line P bucket key now line w = (.ok (),w') ∧
      LogKept P fs bucket key (some (text.getD [] ++ utf8 line)) w' := by
  have leads := @Accepted.object_leads fs _ _ accepted (.inr named)
  have plain := @Accepted.plain_home fs _ _ accepted
  have nonroot := @Accepted.home_ne fs bucket key accepted
  have parent : parent_dir (object_path fs.buckets_dir bucket key) = home fs bucket key := leads.parent
  have parent' : parent_dir (meta_path fs.buckets_dir bucket key) = home fs bucket key := accepted.meta_leads.parent
  obtain ⟨above,last,spelled,way⟩ := plainDir_leads plain nonroot
  obtain ⟨w₁,made⟩ := Fs.create_dir_all_succeeds (w := w) way fun q within => kept.clear q (by rwa [spelled])
  have makes := Fs.create_dir_all_done way made
  rw [← spelled] at makes
  have here : w₁.tree.node (home fs bucket key) = some .dir := by
    rw [makes.tree,if_pos (List.prefix_refl _)]
  have same (n : String) : w₁.tree.node (home fs bucket key ++ [n]) = w.tree.node (home fs bucket key ++ [n]) := by
    rw [makes.tree,if_neg fun below => absurd below.length_le (by simp)]
  -- what was there is read whole
  have found : FilesystemStorage.read_or_empty P (object_path fs.buckets_dir bucket key) w₁ = (.ok (text.getD []),w₁) := by
    cases text with
    | none => exact read_or_empty_absent leads here (by rw [same]; exact (kept.absent rfl).2)
    | some bytes => exact read_or_empty_file leads (by rw [same]; exact (kept.present bytes rfl).2.1)
  have files := kept.files
  obtain ⟨w₂,written⟩ := Fs.write_succeeds (w := w₁) leads here (by rw [same]; exact files.1)
    (.bytes (text.getD [] ++ utf8 line))
  obtain ⟨payload,_⟩ := Fs.write_done leads written
  have here₂ : w₂.tree.node (home fs bucket key) = some .dir := by
    rw [payload.other fun same => absurd (congrArg List.length same) (by simp),here]
  obtain ⟨w₃,again⟩ := Fs.create_dir_all_again plain nonroot here₂
  have same₃ := Fs.create_dir_all_present plain nonroot here₂ again
  have side₃ : w₃.tree.node (home fs bucket key ++ [metaName key]) ≠ some .dir := by
    rw [same₃,payload.other (by simpa using objectName_ne_metaName.symm),same]
    exact files.2
  obtain ⟨w₄,sidecar⟩ := Fs.write_succeeds (w := w₃) accepted.meta_leads (by rw [same₃,here₂]) side₃
    (.json (.object (FilesystemStorage.log_object_meta P key now (text.getD [] ++ utf8 line))))
  obtain ⟨side,_⟩ := Fs.write_done accepted.meta_leads sidecar
  refine ⟨w₄,?_,?_,?_,fun none => (by cases none),?_⟩
  · unfold FilesystemStorage.append_log_line
    dsimp only
    rw [parent,parent',Prog.bind_of_ok (io_ok_iff.mpr made),Prog.bind_of_ok found,Prog.bind_of_ok (io_ok_iff.mpr written),
      Prog.bind_of_ok (io_ok_iff.mpr again)]
    exact io_ok_iff.mpr sidecar
  · intro q within
    have shorter := within.length_le
    rw [side.other fun same => absurd (congrArg List.length same) (by simp; omega),same₃,
      payload.other fun same => absurd (congrArg List.length same) (by simp; omega),makes.tree,if_pos within]
    exact .inr rfl
  · rw [ecAt,side.other (by simpa using ecName_ne_metaName),same₃,payload.other (by simpa using ecName_ne_objectName),same]
    exact kept.single
  · intro bytes whole
    cases whole
    refine ⟨named,?_,now,side.here⟩
    rw [objectAt,side.other (by simpa using objectName_ne_metaName),same₃]
    exact payload.here

theorem append_log_line_frames (accepted : Accepted bucket key) (named : skipped (leaf key) = false) (draws : Draws)
    (now line : String) : Frames (Touched fs bucket key (ownNames key) (tempNames draws) []) (Opened fs bucket key)
      (fs.append_log_line P bucket key now line) := by
  have leads := @Accepted.object_leads fs _ _ accepted (.inr named)
  have inside {n : String} (member : n ∈ ownNames key) :
      Touched fs bucket key (ownNames key) (tempNames draws) [] (home fs bucket key ++ [n]) :=
    .inl ⟨n,by simp [member],List.prefix_refl _⟩
  have made {path : OsPath} {n : String} (way : Leads path (home fs bucket key) n) :
      Frames (Touched fs bucket key (ownNames key) (tempNames draws) []) (Opened fs bucket key)
        (io (Fs.create_dir_all (parent_dir path))) := by
    rw [way.parent]
    exact Frames.io (Fs.frames_create_dir_all (accepted.home_forward fs) fun q above => opened_home accepted q above)
  have put {path : OsPath} {n : String} (way : Leads path (home fs bucket key) n) (member : n ∈ ownNames key) (c : Content) :
      Frames (Touched fs bucket key (ownNames key) (tempNames draws) []) (Opened fs bucket key) (io (Fs.write path c)) :=
    Frames.io (Fs.frames_write way.entry.forward (fun _ => by rw [way.names]; exact inside member) c)
  have read (path : OsPath) : Frames (Touched fs bucket key (ownNames key) (tempNames draws) []) (Opened fs bucket key)
      (FilesystemStorage.read_or_empty P path) := by
    refine (Frames.attempt (Fs.frames_read path)).bind fun found => ?_
    cases found with
    | ok content => exact Frames.pure _
    | error e => exact Frames.ite (fun _ => Frames.pure _) fun _ => Frames.fail _
  refine (made leads).bind fun _ => (read _).bind fun content => (put leads (by simp [ownNames]) _).bind fun _ => ?_
  exact (made accepted.meta_leads).bind fun _ => put accepted.meta_leads (by simp [ownNames]) _

end Line

/-! ### Deliveries -/

/-- The log object that a line about a bucket goes to, as the bucket's settings stand. -/
def LogsTo (fs : FilesystemStorage) (source date : String) (w : World) (bucket key : String) : Prop :=
  validate_bucket_name source = .ok () ∧ ∃ record, bucketRecord fs source w = some record ∧
    record.logging_target_bucket = some bucket ∧ bucket ≠ source ∧
    key = log_key (record.logging_target_prefix.getD "") source date

theorem log_key_named (start source date : String) : skipped (leaf (log_key start source date)) = false := by
  have spelled : ∃ front, log_key start source date = front ++ ".log" := by
    unfold log_key
    split
    · exact ⟨_,rfl⟩
    · exact ⟨_,rfl⟩
  obtain ⟨front,same⟩ := spelled
  rw [same,leaf_append _ _ (by decide)]
  have long : 4 ≤ (leaf front ++ ".log").length := by
    rw [String.length_append]
    exact Nat.le_add_left 4 _
  simp only [skipped,Bool.or_eq_false_iff,decide_eq_false_iff_not]
  refine ⟨?_,?_⟩
  · intro empty
    rw [empty] at long
    exact absurd long (by decide)
  · intro dot
    rw [dot] at long
    exact absurd long (by decide)

section Delivery
variable {P : Primitives} {fs : FilesystemStorage} {bucket key date now : String} {entry : AccessLogEntry} {w w' : World}

theorem deliver_eq (valid : validate_bucket_name entry.source_bucket = .ok ()) {record : BucketMeta}
    (found : bucketRecord fs entry.source_bucket w = some record) {target : String}
    (logs : record.logging_target_bucket = some target) (other : target ≠ entry.source_bucket) :
    fs.deliver_access_log P date now entry w = fs.append_log_line P target
      (log_key (record.logging_target_prefix.getD "") entry.source_bucket date) now entry.format_line w := by
  unfold FilesystemStorage.deliver_access_log
  rw [Prog.bind_of_ok ((read_bucket_meta_ok_iff valid).mpr ⟨found,rfl⟩),logs]
  dsimp only
  rw [if_neg other]

theorem LogsTo.deliver (goes : LogsTo fs entry.source_bucket date w bucket key) (now : String) :
    fs.deliver_access_log P date now entry w = fs.append_log_line P bucket key now entry.format_line w := by
  obtain ⟨valid,record,found,logs,other,rfl⟩ := goes
  exact deliver_eq valid found logs other

/-- Nothing happens when the settings name no other bucket, or cannot be read. -/
theorem deliver_nowhere (nowhere : ∀ b k, ¬ LogsTo fs entry.source_bucket date w b k) (now : String) :
    (fs.deliver_access_log P date now entry w).2 = w := by
  rcases read : fs.read_bucket_meta entry.source_bucket w with ⟨e | record,w₁⟩
  · have same := (FilesystemStorage.read_bucket_meta_quiet entry.source_bucket).state read
    subst same
    unfold FilesystemStorage.deliver_access_log
    rw [Prog.bind_of_error read]
  · have same := (FilesystemStorage.read_bucket_meta_quiet entry.source_bucket).state read
    subst same
    have valid : validate_bucket_name entry.source_bucket = .ok () := by
      simp only [FilesystemStorage.read_bucket_meta,Prog.bind_ok_iff,lift_ok_iff] at read
      obtain ⟨_,_,⟨valid,_⟩,_⟩ := read
      exact valid
    obtain ⟨found,_⟩ := (read_bucket_meta_ok_iff valid).mp read
    unfold FilesystemStorage.deliver_access_log
    rw [Prog.bind_of_ok read]
    cases logs : record.logging_target_bucket with
    | none => rfl
    | some target =>
      dsimp only
      by_cases same : target = entry.source_bucket
      · rw [if_pos same]
        rfl
      · exact absurd ⟨valid,record,found,logs,same,rfl⟩ (nowhere target _)

end Delivery

/-! ### Runs -/

/-- One step beside a log object: a line about some bucket is delivered, to it or elsewhere, or a call is made. -/
inductive LogStep (P : Primitives) (fs : FilesystemStorage) (from_str : String → Except String Json) (bucket key : String) :
    List AccessLogEntry × World → List AccessLogEntry × World → Prop
  | delivered {entries : List AccessLogEntry} {w : World} (date now : String) (entry : AccessLogEntry)
      (goes : LogsTo fs entry.source_bucket date w bucket key) : LogStep P fs from_str bucket key (entries,w)
        (entries ++ [entry],(fs.deliver_access_log P date now entry w).2)
  | elsewhere {entries : List AccessLogEntry} {w : World} (date now : String) (entry : AccessLogEntry)
      (apart : ∀ b other, LogsTo fs entry.source_bucket date w b other →
        Accepted b other ∧ (b = bucket → Beside key other)) : LogStep P fs from_str bucket key (entries,w)
        (entries,(fs.deliver_access_log P date now entry w).2)
  | call {entries : List AccessLogEntry} {w : World} (b : String) (draws : Draws) (call : BucketCall)
      (named : validate_bucket_name b = .ok ()) (straight : call.Straight fs b w)
      (beside : b = bucket → call.Beside fs b key w) : LogStep P fs from_str bucket key (entries,w)
        (entries,(call.run P fs from_str b draws w).2)

def LogRun (P : Primitives) (fs : FilesystemStorage) (from_str : String → Except String Json) (bucket key : String) :
    List AccessLogEntry × World → List AccessLogEntry × World → Prop :=
  Relation.ReflTransGen (LogStep P fs from_str bucket key)

/-- The text of a log: its lines one after the other, and no object before the first. -/
def log_text (entries : List AccessLogEntry) : Option Bytes :=
  if entries = [] then none else some (entries.flatMap fun entry => utf8 entry.format_line)

theorem log_text_append (entries : List AccessLogEntry) (entry : AccessLogEntry) :
    log_text (entries ++ [entry]) = some ((log_text entries).getD [] ++ utf8 entry.format_line) := by
  unfold log_text
  by_cases empty : entries = []
  · simp [empty]
  · simp [empty]

section Runs
variable {P : Primitives} {fs : FilesystemStorage} {from_str : String → Except String Json} {bucket key : String}
  {text : Option Bytes} {w w' : World} {s s' : List AccessLogEntry × World}

theorem LogKept.left_alone (kept : LogKept P fs bucket key text w) (left : LeftAlone fs bucket key w w') :
    LogKept P fs bucket key text w' := by
  have same {n : String} (member : n ∈ ownNames key) := left.node member
  refine ⟨left.way kept.clear,?_,fun none => ?_,fun bytes some => ?_⟩
  · rw [ecAt,same (by simp [ownNames])]
    exact kept.single
  · rw [metaAt,objectAt,same (by simp [ownNames]),same (by simp [ownNames])]
    exact kept.absent none
  · obtain ⟨named,file,now,shown⟩ := kept.present bytes some
    refine ⟨named,?_,now,?_⟩
    · rw [objectAt,same (by simp [ownNames])]
      exact file
    · rw [Shows,metaAt,same (by simp [ownNames])]
      exact shown

variable (accepted : Accepted bucket key)
include accepted

theorem LogStep.keeps (step : LogStep P fs from_str bucket key s s') (kept : LogKept P fs bucket key (log_text s.1) s.2) :
    LogKept P fs bucket key (log_text s'.1) s'.2 := by
  cases step with
  | @delivered entries w date now entry goes =>
    obtain ⟨_,record,_,_,_,spelled⟩ := id goes
    have named : skipped (leaf key) = false := spelled ▸ log_key_named _ _ _
    obtain ⟨w',done,kept'⟩ := kept.appended accepted named now entry.format_line
    rw [log_text_append,goes.deliver,done]
    exact kept'
  | @elsewhere entries w date now entry apart =>
    by_cases goes : ∃ b other, LogsTo fs entry.source_bucket date w b other
    · obtain ⟨b,other,goes⟩ := goes
      obtain ⟨accepted',beside⟩ := apart b other goes
      obtain ⟨_,record,_,_,_,spelled⟩ := id goes
      have named : skipped (leaf other) = false := spelled ▸ log_key_named _ _ _
      obtain ⟨draws⟩ := draws_exist
      rw [goes.deliver]
      exact kept.left_alone ⟨_,_,append_log_line_frames accepted' named draws now _ w,
        .touched accepted draws [] accepted' beside fun _ => id⟩
    · rw [deliver_nowhere (by simpa using goes)]
      exact kept
  | call b draws call named straight beside =>
    exact kept.left_alone (call.leaves_alone accepted named straight beside)

theorem LogRun.keeps (run : LogRun P fs from_str bucket key s s') (kept : LogKept P fs bucket key (log_text s.1) s.2) :
    LogKept P fs bucket key (log_text s'.1) s'.2 := by
  induction run with
  | refl => exact kept
  | tail _ step ih => exact step.keeps accepted ih

end Runs

namespace Sample

/-- The bucket `site` beside `logs`, with its log lines sent to `logs`. -/
def logged_world : World :=
  (do Fs.create_dir_all ["data","site"]
      Fs.write ["data","site",".bucket.json"] (.json (.bucket { settings false with
        name := "site"
        logging_target_bucket := some "logs" })) : Io Unit).run (world false) |>.2

/-- A line about a request on a key of `site`. -/
def site_line (key : String) : AccessLogEntry where
  timestamp := "t"
  source_bucket := "site"
  remote_ip := "-"
  requester := "-"
  request_id := "-"
  operation := "-"
  key := key
  request_uri := "-"
  http_status := 200
  error_code := "-"
  bytes_sent := 0
  object_size := 0
  total_time_ms := 0
  user_agent := "-"

def first_delivered : World := (fourfold.deliver_access_log primitives "d" "t" (site_line "a") logged_world).2

/-- An object is written beside the log between two lines. -/
def put_between : World :=
  (BucketCall.run primitives fourfold (fun _ => .error "") "logs" (draws 1)
    (.put_object "a" "text/plain" (stream abc abc_filled abc_fits) none none none) first_delivered).2

def second_delivered : World := (fourfold.deliver_access_log primitives "d" "t" (site_line "b") put_between).2

theorem site_logs {w : World} (told : (bucketRecord fourfold "site" w).map (fun record =>
      (record.logging_target_bucket,record.logging_target_prefix)) = some (some "logs",none)) :
    LogsTo fourfold "site" "d" w "logs" "site/d.log" := by
  obtain ⟨record,found,same⟩ := Option.map_eq_some_iff.mp told
  obtain ⟨target,front⟩ := Prod.mk.inj same
  refine ⟨by decide +kernel,record,found,target,by decide,?_⟩
  rw [front]
  decide +kernel

end Sample

end Maxio
