import Maxio.ObjectMap

/-!
An upload is a map from part numbers to parts. Each number stands for the last part that was sent under it, whatever is
done to the bucket in between, and a completion stores the parts it lists one after another.
-/

set_option linter.unusedSimpArgs false

namespace Maxio
open FileTree (Node Tree)

/-! ### The places of one part -/

section Places
variable {fs : FilesystemStorage} {bucket upload_id : String}

/-- The payload of a part and its record. -/
def PartFiles (fs : FilesystemStorage) (bucket upload_id : String) (number : Nat) (q : OsPath) : Prop :=
  q = partAt fs bucket upload_id number ∨ q = partRecordAt fs bucket upload_id number

theorem number_injective {m n : Nat} (same : toString m = toString n) : m = n := Nat.repr_injective same

theorem record_ne_number (m n : Nat) : toString m ++ ".meta.json" ≠ toString n := by
  intro same
  have dot : '.' ∈ (toString n).toList := by
    rw [← same,String.toList_append]
    exact List.mem_append_right _ (by decide)
  exact absurd (number_digits n _ dot) (by decide)

theorem record_injective {m n : Nat} (same : toString m ++ ".meta.json" = toString n ++ ".meta.json") : m = n := by
  have chars := congrArg String.toList same
  rw [String.toList_append,String.toList_append] at chars
  exact number_injective (String.toList_inj.mp (List.append_cancel_right chars))

theorem number_ne_record (n : Nat) : toString n ≠ ".meta.json" := by
  intro same
  have dot : '.' ∈ (toString n).toList := by rw [same]; decide
  exact absurd (number_digits n _ dot) (by decide)

theorem record_ne_bare (n : Nat) : toString n ++ ".meta.json" ≠ ".meta.json" := by
  intro same
  have chars := congrArg (fun s => s.toList.length) same
  simp only [String.toList_append,List.length_append] at chars
  have filled : (toString n).toList ≠ [] := fun empty => (number_kept n).1 |> fun kept => by
    have blank : toString n = "" := String.toList_inj.mp (by rw [empty]; rfl)
    rw [blank] at kept
    cases kept
  have positive := List.length_pos_iff.mpr filled
  omega

theorem partFiles_apart {m n : Nat} (differ : m ≠ n) {q : OsPath} (mine : PartFiles fs bucket upload_id n q) :
    ¬ PartFiles fs bucket upload_id m q := by
  rintro theirs
  rcases mine with rfl | rfl <;> rcases theirs with same | same <;>
    simp only [partAt,partRecordAt,List.append_cancel_left_eq,List.cons.injEq,and_true] at same
  · exact differ (number_injective same.symm)
  · exact record_ne_number _ _ same.symm
  · exact record_ne_number _ _ same
  · exact differ (record_injective same.symm)

theorem record_not_part (n : Nat) : ¬ PartFiles fs bucket upload_id n (uploadRecordAt fs bucket upload_id) := by
  rintro (same | same) <;>
    simp only [partAt,partRecordAt,uploadRecordAt,List.append_cancel_left_eq,List.cons.injEq,and_true] at same
  · exact number_ne_record n same.symm
  · exact record_ne_bare n same.symm

end Places

section Footprint
variable {P : Primitives} {fs : FilesystemStorage} {bucket upload_id : String} {draws : Draws} {G : OsPath → Prop}
  (valid : ValidBucket bucket) (names : NamesUpload upload_id)
include valid names

theorem part_is_own (number : Nat) :
    PartFiles fs bucket upload_id number (canon (part_path fs.buckets_dir bucket upload_id number)) := by
  rw [(part_leads valid names number).names]
  exact .inl rfl

theorem give_up_part_own {α : Type} (number : Nat) (e : StorageError) : Frames (PartFiles fs bucket upload_id number) G (do
    ignore (Fs.remove_file (part_path fs.buckets_dir bucket upload_id number))
    Prog.fail e : Action α) :=
  Frames.bind (Frames.ignore (Fs.frames_remove_file (part_leads valid names number).entry.forward
    fun _ => part_is_own valid names number)) fun _ => Frames.fail _

theorem write_part_record_own (number : Nat) (body : ByteStream) (algorithm : Option ChecksumAlgorithm)
    (value : Option String) (sealed : Bool) (size : Nat) : Frames (PartFiles fs bucket upload_id number) G
      (fs.write_part_record P draws bucket upload_id number body algorithm value sealed size) := by
  have side := @part_record_leads fs _ _ valid names number
  have own (content : Content) : Frames (PartFiles fs bucket upload_id number) G
      (Fs.write (part_meta_path fs.buckets_dir bucket upload_id number) content) := by
    refine Fs.frames_write side.entry.forward (fun _ => ?_) _
    rw [side.names]
    exact .inr rfl
  unfold FilesystemStorage.write_part_record
  dsimp only
  refine Frames.ite (fun _ => ?_) fun _ => Frames.bind (Frames.pure _) fun _ => ?_
  · refine Frames.bind (Frames.io (Fs.frames_read _)) fun _ => Frames.bind (Frames.pure _) fun _ => ?_
    refine Frames.bind (Frames.attempt (own _)) fun written => ?_
    cases written with
    | error e => exact give_up_part_own valid names number _
    | ok _ => exact Frames.pure _
  · refine Frames.bind (Frames.attempt (own _)) fun written => ?_
    cases written with
    | error e => exact give_up_part_own valid names number _
    | ok _ => exact Frames.pure _

/-- Whatever it answers, `upload_part` changes no other part than its own. -/
theorem upload_part_own (number : Nat) (body : ByteStream) (checksum : ChecksumRequest) (customer_key : Option Bytes)
    (declared_size : Option Nat) :
    Frames (PartFiles fs bucket upload_id number) G
      (fs.upload_part P draws bucket upload_id number body checksum customer_key declared_size) := by
  have forward := (@part_leads fs _ _ valid names number).entry.forward
  have own := @part_is_own fs _ _ valid names number
  rw [fs.upload_part_eq]
  refine Frames.bind (Frames.lift _) fun _ => Frames.bind (Frames.lift _) fun _ => Frames.bind (Frames.lift _) fun _ => ?_
  refine Frames.ite (fun _ => Frames.fail _) fun _ => ?_
  refine Frames.bind (Frames.io (Fs.frames_try_exists _)) fun found => Frames.ite (fun _ => Frames.fail _) fun _ => ?_
  refine Frames.bind (read_upload_meta_quiet _ _).frames fun upload => Frames.bind (Frames.lift _) fun cipher => ?_
  refine Frames.bind (Frames.io (Fs.frames_write forward (fun _ => own) _)) fun _ => ?_
  refine Frames.bind (pump_frames _ _ _ fun fw piece => flat_write_frames forward own _ fw piece) fun fw => ?_
  refine Frames.bind (flat_finish_frames forward own _ fw) fun fw => ?_
  cases check_checksum P checksum (fs.wrap_upload_reader draws body).body with
  | error e => exact give_up_part_own valid names number e
  | ok sum => exact write_part_record_own valid names number _ sum.1 sum.2 _ _

end Footprint

/-! ### The abstract map -/

/-- What a part was last sent with: its record, the customer key, and its bytes. -/
structure SentPart where
  record : PartMeta
  customer_key : Option Bytes
  body : Bytes

abbrev PartMap := Nat → Option SentPart

/-- An open upload, and a map of its parts. -/
structure Assembles (P : Primitives) (fs : FilesystemStorage) (bucket upload_id : String) (upload : MultipartUploadMeta)
    (m : PartMap) (w : World) : Prop where
  begun : UploadStored P fs bucket upload_id upload w
  parts : ∀ n part, m n = some part → part.record.part_number = n ∧
    PartStored P fs bucket upload_id upload part.customer_key part.record part.body w

/-- A call that neither sends a part of the upload nor ends it. -/
def BucketCall.Leaves (upload_id : String) (draws : Draws) : BucketCall → Prop
  | .create_multipart_upload _ _ _ _ => draws.upload_id ≠ upload_id
  | .upload id call => id = upload_id → call = .list_parts
  | _ => True

/-- One call, and what it does to the map. A part that could not be sent is no longer promised; a completion that is turned
    down for another reason than the filesystem leaves the upload open. -/
inductive PartStep (P : Primitives) (fs : FilesystemStorage) (from_str : String → Except String Json)
    (bucket upload_id : String) : PartMap → World → PartMap → World → Prop
  | sent {m : PartMap} {w w' : World} (draws : Draws) {number : Nat} {body : ByteStream} {checksum : ChecksumRequest}
      {customer_key : Option Bytes} {declared_size : Option Nat} {record : PartMeta}
      (done : fs.upload_part P draws bucket upload_id number body checksum customer_key declared_size w = (.ok record,w')) :
      PartStep P fs from_str bucket upload_id m w (Function.update m number (some ⟨record,customer_key,body.body⟩)) w'
  | unsent {m : PartMap} {w w' : World} (draws : Draws) {number : Nat} {body : ByteStream} {checksum : ChecksumRequest}
      {customer_key : Option Bytes} {declared_size : Option Nat} {e : StorageError}
      (failed : fs.upload_part P draws bucket upload_id number body checksum customer_key declared_size w = (.error e,w')) :
      PartStep P fs from_str bucket upload_id m w (Function.update m number none) w'
  | complete_refused {m : PartMap} {w w' : World} (draws : Draws) {parts : List (Nat × String)}
      {customer_key : Option Bytes} {e : StorageError} (other : ¬ e.FromIo)
      (failed : fs.complete_multipart_upload P draws bucket upload_id parts customer_key w = (.error e,w')) :
      PartStep P fs from_str bucket upload_id m w m w'
  | other {m : PartMap} {w : World} (draws : Draws) (call : BucketCall) (straight : call.Straight fs bucket w)
      (leaves : call.Leaves upload_id draws) :
      PartStep P fs from_str bucket upload_id m w m (call.run P fs from_str bucket draws w).2

section Steps
variable {P : Primitives} {fs : FilesystemStorage} {from_str : String → Except String Json} {bucket upload_id : String}
  {upload : MultipartUploadMeta} {m : PartMap} {draws : Draws} {w w' : World}

/-- The files of an upload. -/
def UploadFile (fs : FilesystemStorage) (bucket upload_id : String) (q : OsPath) : Prop :=
  ∃ name, q = uploadAt fs bucket upload_id ++ [name]

theorem UploadStored.same (begun : UploadStored P fs bucket upload_id upload w)
    (same : w'.tree.node (uploadRecordAt fs bucket upload_id) = w.tree.node (uploadRecordAt fs bucket upload_id)) :
    UploadStored P fs bucket upload_id upload w' := ⟨begun.names,same.trans begun.shown,begun.key,begun.eight⟩

theorem PartStored.same {customer_key : Option Bytes} {record : PartMeta} {text : Bytes}
    (stored : PartStored P fs bucket upload_id upload customer_key record text w)
    (same : ∀ q, PartFiles fs bucket upload_id record.part_number q → w'.tree.node q = w.tree.node q) :
    PartStored P fs bucket upload_id upload customer_key record text w' := by
  obtain ⟨shown,⟨cipher,content,made,file,payload⟩,size,etag,encrypted,checksum⟩ := stored
  exact ⟨(same _ (.inr rfl)).trans shown,⟨cipher,content,made,(same _ (.inl rfl)).trans file,payload⟩,size,etag,encrypted,
    checksum⟩

theorem PartFiles.of_upload {number : Nat} {q : OsPath} (mine : PartFiles fs bucket upload_id number q) :
    UploadFile fs bucket upload_id q := by
  rcases mine with rfl | rfl
  · exact ⟨_,rfl⟩
  · exact ⟨_,rfl⟩

theorem Assembles.same (assembles : Assembles P fs bucket upload_id upload m w)
    (same : ∀ q, UploadFile fs bucket upload_id q → w'.tree.node q = w.tree.node q) :
    Assembles P fs bucket upload_id upload m w' := by
  refine ⟨assembles.begun.same (same _ ⟨_,rfl⟩),fun n part some => ?_⟩
  obtain ⟨number,stored⟩ := assembles.parts n part some
  exact ⟨number,stored.same fun q mine => same q mine.of_upload⟩

theorem Assembles.frame {S G : OsPath → Prop} (assembles : Assembles P fs bucket upload_id upload m w)
    (frame : Frame S G w w') (apart : ∀ q, UploadFile fs bucket upload_id q → ¬ S q ∧ ¬ G q) :
    Assembles P fs bucket upload_id upload m w' :=
  assembles.same fun q file => frame.same (apart q file).1 (apart q file).2

/-- Neither does a call on a key reach them, nor one on another upload, nor one on the settings. -/
theorem file_untouched {key : String} (accepted : Accepted bucket key) (draws : Draws) {own stored : List String}
    (top : ∀ n ∈ own, n ∉ topNames) {q : OsPath} (file : UploadFile fs bucket upload_id q) :
    ¬ Touched fs bucket key own (tempNames draws) stored q ∧ ¬ Opened fs bucket key q := by
  obtain ⟨name,rfl⟩ := file
  have apart := @uploads_untouched fs bucket key bucket accepted accepted.validBucket draws own stored top [upload_id,name]
  rwa [uploadAt,List.append_assoc]

theorem file_not_in_other {id : String} (other : id ≠ upload_id) {q : OsPath} (file : UploadFile fs bucket upload_id q) :
    ¬ InUpload fs bucket id q := by
  obtain ⟨name,rfl⟩ := file
  intro inside
  rw [InUpload,uploadAt,uploadAt,List.append_assoc,List.prefix_append_right_inj] at inside
  simp only [List.cons_append,List.nil_append,List.cons_prefix_cons,true_and] at inside
  exact other inside.1

theorem file_not_above {id : String} {q : OsPath} (file : UploadFile fs bucket upload_id q) :
    ¬ q <+: uploadAt fs bucket id := by
  obtain ⟨name,rfl⟩ := file
  intro above
  have short := above.length_le
  simp [uploadAt] at short

theorem file_not_settings {q : OsPath} (file : UploadFile fs bucket upload_id q) :
    q ≠ base fs.buckets_dir bucket ++ [".bucket.json"] := by
  obtain ⟨name,rfl⟩ := file
  intro same
  have lengths := congrArg List.length same
  simp [uploadAt] at lengths

theorem Assembles.of_key {key : String} (accepted : Accepted bucket key) (draws : Draws) {own stored : List String}
    (top : ∀ n ∈ own, n ∉ topNames) (assembles : Assembles P fs bucket upload_id upload m w)
    (frame : Frame (Touched fs bucket key own (tempNames draws) stored) (Opened fs bucket key) w w') :
    Assembles P fs bucket upload_id upload m w' :=
  assembles.frame frame fun _ file => file_untouched accepted draws top file

/-- Another part may come or go. -/
theorem Assembles.others {number : Nat} (assembles : Assembles P fs bucket upload_id upload m w)
    (frame : Frame (PartFiles fs bucket upload_id number) (fun _ => False) w w') :
    UploadStored P fs bucket upload_id upload w' ∧ ∀ n part, n ≠ number → m n = some part →
      part.record.part_number = n ∧ PartStored P fs bucket upload_id upload part.customer_key part.record part.body w' := by
  refine ⟨assembles.begun.same (frame.same (record_not_part number) id),fun n part differ some => ?_⟩
  obtain ⟨numbered,stored⟩ := assembles.parts n part some
  refine ⟨numbered,stored.same fun q mine => ?_⟩
  rw [numbered] at mine
  exact frame.same (partFiles_apart differ.symm mine) id

/-- What a call on a version may change is among the places of the key. -/
theorem VersionCall.touched {key version_id : String} {call : VersionCall} {q : OsPath}
    (touches : call.Touches fs bucket key version_id q) :
    Touched fs bucket key (ownNames key) (tempNames draws) (versionNames version_id) q := by
  have current : CurrentFiles fs bucket key q →
      Touched fs bucket key (ownNames key) (tempNames draws) (versionNames version_id) q :=
    fun inside => .inl (inside.mono fun _ => List.mem_append_left _)
  have side : q = sidecarAt fs bucket key version_id →
      Touched fs bucket key (ownNames key) (tempNames draws) (versionNames version_id) q := by
    rintro rfl
    unfold sidecarAt at current ⊢
    split
    · rw [if_pos ‹_›] at current
      exact current ⟨metaName key,by simp [ownNames],List.prefix_refl _⟩
    · exact .inr (.inr ⟨_,by simp [versionNames],List.prefix_refl _⟩)
  cases call with
  | put_object_retention retention => exact side touches
  | put_object_legal_hold status => exact side touches
  | delete_object_version =>
    rcases touches with inside | inside
    · unfold VersionFiles at inside
      split at inside
      · exact current inside
      · exact .inr (.inr inside)
    · exact current inside
  | get_object_version ck caps turns => exact touches.elim
  | head_object_version => exact touches.elim
  | get_object_retention => exact touches.elim
  | get_object_legal_hold => exact touches.elim

theorem VersionCall.opened {key : String} {call : VersionCall} {q : OsPath} (opens : call.Opens fs bucket key q) :
    Opened fs bucket key q := by
  cases call with
  | delete_object_version => exact opens
  | put_object_retention retention => exact opens.elim
  | put_object_legal_hold status => exact opens.elim
  | get_object_version ck caps turns => exact opens.elim
  | head_object_version => exact opens.elim
  | get_object_retention => exact opens.elim
  | get_object_legal_hold => exact opens.elim

variable (named : validate_bucket_name bucket = .ok ())
include named

theorem Assembles.sent {number : Nat} {body : ByteStream} {checksum : ChecksumRequest} {customer_key : Option Bytes}
    {declared_size : Option Nat} {record : PartMeta} (assembles : Assembles P fs bucket upload_id upload m w)
    (done : fs.upload_part P draws bucket upload_id number body checksum customer_key declared_size w = (.ok record,w')) :
    Assembles P fs bucket upload_id upload (Function.update m number (some ⟨record,customer_key,body.body⟩)) w' := by
  have valid := validBucket_of_validate named
  have own := @upload_part_own P fs bucket upload_id draws (fun _ => False) valid assembles.begun.names number body checksum
    customer_key declared_size w
  rw [done] at own
  obtain ⟨begun,rest⟩ := assembles.others own
  refine ⟨begun,fun n part some => ?_⟩
  by_cases here : n = number
  · subst here
    rw [Function.update_self,Option.some.injEq] at some
    subst some
    exact upload_part_done valid assembles.begun.names (read_upload_meta_stored valid assembles.begun) done
  · rw [Function.update_of_ne here] at some
    exact rest n part here some

theorem Assembles.unsent {number : Nat} {body : ByteStream} {checksum : ChecksumRequest} {customer_key : Option Bytes}
    {declared_size : Option Nat} {e : StorageError} (assembles : Assembles P fs bucket upload_id upload m w)
    (failed : fs.upload_part P draws bucket upload_id number body checksum customer_key declared_size w = (.error e,w')) :
    Assembles P fs bucket upload_id upload (Function.update m number none) w' := by
  have own := @upload_part_own P fs bucket upload_id draws (fun _ => False) (validBucket_of_validate named)
    assembles.begun.names number body checksum customer_key declared_size w
  rw [failed] at own
  obtain ⟨begun,rest⟩ := assembles.others own
  refine ⟨begun,fun n part some => ?_⟩
  by_cases here : n = number
  · rw [here,Function.update_self] at some
    cases some
  · rw [Function.update_of_ne here] at some
    exact rest n part here some

theorem Assembles.recorded (assembles : Assembles P fs bucket upload_id upload m w) {key : String}
    (recorded : UploadCall.Recorded fs bucket upload_id w key) : validate_key key = .ok () := by
  obtain ⟨found,read,rfl⟩ := recorded
  rw [read_upload_meta_stored (validBucket_of_validate named) assembles.begun,Prod.mk.injEq,Except.ok.injEq] at read
  rw [← read.1]
  exact assembles.begun.key

theorem Assembles.other (assembles : Assembles P fs bucket upload_id upload m w) (call : BucketCall)
    (straight : call.Straight fs bucket w) (leaves : call.Leaves upload_id draws) :
    Assembles P fs bucket upload_id upload m (call.run P fs from_str bucket draws w).2 := by
  have top {key : String} (accepted : Accepted bucket key) : ∀ n ∈ ownNames key, n ∉ topNames :=
    ownNames_ne_top accepted.validKey
  have frame := @BucketCall.run_frame P fs from_str bucket draws w call named straight
  cases call with
  | put_object key content_type body checksum encryption size =>
    by_cases valid : validate_key key = .ok ()
    · exact assembles.of_key ⟨named,valid⟩ draws (top ⟨named,valid⟩) frame
    · rwa [BucketCall.run,drop_state,put_refused fun _ => valid]
  | get_object key ck => exact assembles.frame frame fun _ _ => ⟨id,id⟩
  | head_object key => exact assembles.frame frame fun _ _ => ⟨id,id⟩
  | delete_object key =>
    by_cases valid : validate_key key = .ok ()
    · exact assembles.of_key ⟨named,valid⟩ draws (top ⟨named,valid⟩) frame
    · rwa [BucketCall.run,drop_state,delete_refused fun _ => valid]
  | create_multipart_upload key content_type algorithm spec =>
    exact assembles.frame frame fun q file => ⟨file_not_in_other leaves file,file_not_above file⟩
  | upload another call =>
    by_cases same : another = upload_id
    · rw [leaves same] at frame ⊢
      exact assembles.frame (BucketCall.frame_dropped (Frame.wrapped (list_parts_quiet.frames w)))
        fun _ _ => ⟨id,id⟩
    · refine assembles.frame frame fun q file => ⟨?_,?_⟩
      · rintro (inside | ⟨_,key,recorded,touched⟩)
        · exact file_not_in_other same file inside
        · have accepted : Accepted bucket key := ⟨named,straight.2 key recorded⟩
          exact (file_untouched accepted draws (top accepted) file).1 touched
      · rintro ⟨_,key,recorded,opened⟩
        have accepted : Accepted bucket key := ⟨named,straight.2 key recorded⟩
        exact (@file_untouched fs bucket upload_id key accepted draws _ [] (top accepted) q file).2 opened
  | version key version_id call =>
    by_cases valid : validate_key key = .ok ()
    · have accepted : Accepted bucket key := ⟨named,valid⟩
      exact assembles.of_key accepted draws (top accepted) (frame.mono (fun _ => VersionCall.touched)
        fun _ opens => .inr (VersionCall.opened opens))
    · rwa [BucketCall.run,drop_state,BucketCall.version_refused (fun _ => valid) call]
  | update key call =>
    by_cases valid : validate_key key = .ok ()
    · have accepted : Accepted bucket key := ⟨named,valid⟩
      have inside : ∀ q, q = metaAt fs bucket key → Touched fs bucket key (ownNames key) (tempNames draws) [] q := by
        rintro q rfl
        exact .inl ⟨metaName key,by simp [ownNames],List.prefix_refl _⟩
      exact assembles.of_key accepted draws (top accepted) (frame.mono inside fun _ => False.elim)
    · rwa [BucketCall.run,update_refused fun _ => valid]
  | configure call => exact assembles.frame frame fun q file => ⟨file_not_settings file,id⟩

/-- Every step of the store is the step of the map. -/
theorem Assembles.step {m' : PartMap} (assembles : Assembles P fs bucket upload_id upload m w)
    (step : PartStep P fs from_str bucket upload_id m w m' w') : Assembles P fs bucket upload_id upload m' w' := by
  cases step with
  | sent draws done => exact assembles.sent named done
  | unsent draws failed => exact assembles.unsent named failed
  | complete_refused draws other failed =>
    rcases complete_multipart_upload_spares (fun _ => assembles.recorded named) failed other with same | ⟨key,recorded,frame⟩
    · rwa [same]
    · exact assembles.of_key ⟨named,assembles.recorded named recorded⟩ draws (fun _ none => by cases none) frame
  | other draws call straight leaves => exact assembles.other named call straight leaves

end Steps

/-! ### Runs -/

/-- Steps of the store, together with those of the map of the upload. -/
def PartRun (P : Primitives) (fs : FilesystemStorage) (from_str : String → Except String Json) (bucket upload_id : String)
    (start finish : PartMap × World) : Prop :=
  Relation.ReflTransGen (fun s s' => PartStep P fs from_str bucket upload_id s.1 s.2 s'.1 s'.2) start finish

section Runs
variable {P : Primitives} {fs : FilesystemStorage} {from_str : String → Except String Json} {bucket upload_id : String}
  {upload : MultipartUploadMeta} {m m' : PartMap} {draws : Draws} {w w₁ w₂ w' : World}

theorem Assembles.run (named : validate_bucket_name bucket = .ok ()) (assembles : Assembles P fs bucket upload_id upload m w)
    (later : PartRun P fs from_str bucket upload_id (m,w) (m',w')) : Assembles P fs bucket upload_id upload m' w' := by
  have all : ∀ s, PartRun P fs from_str bucket upload_id (m,w) s → Assembles P fs bucket upload_id upload s.1 s.2 := by
    intro s run
    induction run with
    | refl => exact assembles
    | tail _ step ih => exact ih.step named step
  exact all (m',w') later

/-- The parts a completion lists, as they were last sent, all with one customer key. -/
def Lists (m : PartMap) (customer_key : Option Bytes) (parts : List (Nat × String)) (sent : List SentPart) : Prop :=
  List.Forall₂ (fun asked part => m asked.1 = some part ∧ part.customer_key = customer_key) parts sent

theorem Assembles.listed {customer_key : Option Bytes} {parts : List (Nat × String)} {sent : List SentPart}
    (assembles : Assembles P fs bucket upload_id upload m w) (lists : Lists m customer_key parts sent) :
    (sent.map fun part => (part.record,part.body)).map (fun u => u.1.part_number) = parts.map Prod.fst ∧
      ∀ u ∈ sent.map fun part => (part.record,part.body),
        PartStored P fs bucket upload_id upload customer_key u.1 u.2 w := by
  induction lists with
  | nil => simp
  | @cons asked part more others here _ ih =>
    obtain ⟨some,keyed⟩ := here
    obtain ⟨numbered,stored⟩ := assembles.parts _ _ some
    refine ⟨?_,?_⟩
    · simp [numbered,ih.1]
    · rintro u member
      rcases List.mem_cons.mp member with rfl | rest
      · exact keyed ▸ stored
      · exact ih.2 u rest

theorem create_multipart_upload_gives {key content_type : String} {algorithm : Option ChecksumAlgorithm}
    {spec : Option UploadEncryptionSpec} : Prog.Gives
      (fs.create_multipart_upload P draws bucket key content_type algorithm spec) fun upload =>
        upload.key = key ∧ upload.encryption_spec.isSome = spec.isSome := by
  refine Prog.Gives.bind fun _ => Prog.Gives.bind fun _ => Prog.Gives.bind fun _ => ?_
  let Kept (own : Option UploadEncryptionSpec) : Prop := own.isSome = spec.isSome
  cases spec with
  | none =>
    refine Prog.Gives.bind_of (R := Kept) (Prog.Gives.pure rfl) fun own kept => Prog.Gives.bind fun _ => ?_
    exact Prog.Gives.pure ⟨rfl,kept⟩
  | some asked =>
    refine Prog.Gives.bind fun augmented => Prog.Gives.bind_of (R := Kept) (Prog.Gives.pure rfl) fun own kept => ?_
    refine Prog.Gives.bind fun _ => ?_
    exact Prog.Gives.pure ⟨rfl,kept⟩

/-- A completion that succeeds has selected its parts from the upload as it was. -/
theorem complete_selects {parts : List (Nat × String)} {customer_key : Option Bytes} {result : PutResult}
    (done : fs.complete_multipart_upload P draws bucket upload_id parts customer_key w = (.ok result,w')) :
    ∃ selected, fs.select_parts bucket upload_id parts w = (.ok selected,w) := by
  simp only [FilesystemStorage.complete_multipart_upload,Prog.bind_ok_iff,lift_ok_iff] at done
  obtain ⟨_,_,⟨_,rfl⟩,_,_,⟨_,rfl⟩,done⟩ := done
  by_cases empty : parts = []
  · rw [if_pos empty] at done
    cases done
  rw [if_neg empty] at done
  simp only [Prog.bind_ok_iff] at done
  obtain ⟨found,w₁,read,_,w₂,free,selected,w₃,selects,_⟩ := done
  obtain rfl := (read_upload_meta_quiet bucket upload_id).state read
  obtain rfl := (FilesystemStorage.ensure_can_overwrite_quiet _ _ _).state free
  obtain rfl := (select_parts_quiet parts).state selects
  exact ⟨selected,selects⟩

theorem select_parts_etags {parts : List (Nat × String)} :
    Prog.Gives (fs.select_parts bucket upload_id parts) fun selected => selected.map PartMeta.etag = parts.map Prod.snd := by
  induction parts with
  | nil => exact Prog.Gives.pure rfl
  | cons part rest ih =>
    obtain ⟨number,requested⟩ := part
    refine Prog.Gives.bind fun record => ?_
    by_cases other : record.etag ≠ requested
    · rw [if_pos other]
      exact Prog.Gives.fail _
    · rw [if_neg other]
      by_cases small : rest ≠ [] ∧ record.size < 5 * 1024 * 1024
      · rw [if_pos small]
        exact Prog.Gives.fail _
      · rw [if_neg small]
        refine Prog.Gives.bind_of ih fun records named => Prog.Gives.pure ?_
        rw [List.map_cons,List.map_cons,named,not_not.mp other]

end Runs

namespace Sample

/-- An upload of `a` is begun, its first part is sent as one zero and then as `abc`. -/
def begun_upload : Except StorageError MultipartUploadMeta × World :=
  fourfold.create_multipart_upload completing (draws 1) "logs" "a" "text/plain" none none (world false)

def zero_part : Except StorageError PartMeta × World :=
  fourfold.upload_part completing (draws 2) "logs" (draws 1).upload_id 1 (stream [0] zero_filled zero_fits) none none none
    begun_upload.2

def abc_part : Except StorageError PartMeta × World :=
  fourfold.upload_part completing (draws 3) "logs" (draws 1).upload_id 1 (stream abc abc_filled abc_fits) none none none
    zero_part.2

/-- A completion that names the part wrongly, and one that names it by its digest. -/
def misnamed : Except StorageError PutResult × World :=
  fourfold.complete_multipart_upload completing (draws 4) "logs" (draws 1).upload_id [(1,"")] none abc_part.2

def assembled : Except StorageError PutResult × World :=
  fourfold.complete_multipart_upload completing (draws 5) "logs" (draws 1).upload_id [(1,part_of_abc.etag)] none misnamed.2

/-- What an answer says of the key. -/
def told : Except StorageError PutResult → Option String
  | .error (.InvalidKey reason) => some reason
  | _ => none

theorem misnamed_refused : misnamed = (.error (.InvalidKey "etag mismatch for part 1"),misnamed.2) := by
  have answer : told misnamed.1 = some "etag mismatch for part 1" := by decide +kernel
  unfold told at answer
  split at answer
  next reason refused =>
    cases answer
    exact Prod.ext refused rfl
  next => cases answer

end Sample

end Maxio
