import Maxio.Refusals

/-!
An unversioned bucket is a finite map. Of keys none of which lies on the way to another, each is read as it was last
written, or is not found once it was deleted, whatever is done to the others in between.
-/

set_option linter.unusedSimpArgs false

namespace Maxio
open FileTree (Node Tree)

/-! ### What a deletion leaves -/

section Deletion
variable {P : Primitives} {fs : FilesystemStorage} {bucket key : String} {draws : Draws} {w w' : World}

theorem is_versioned_eq (valid : validate_bucket_name bucket = .ok ()) (draws : Draws) :
    (unwrap_or false (fs.is_versioned bucket) : Action Bool) w = (.ok (versioned fs bucket w),w) := by
  have quiet : Quiet (unwrap_or false (fs.is_versioned bucket) : Action Bool) :=
    Quiet.unwrap_or false (FilesystemStorage.is_versioned_quiet bucket)
  have asked := @next_version_id_eq fs bucket w valid draws
  unfold FilesystemStorage.next_version_id at asked
  rcases ran : (unwrap_or false (fs.is_versioned bucket) : Action Bool) w with ⟨e | v,w₁⟩
  · rw [Prog.bind_of_error ran] at asked
    cases asked
  · have same := quiet.state ran
    subst same
    rw [Prog.bind_of_ok ran] at asked
    cases v <;> cases numbered : versioned fs bucket w₁ <;> rw [numbered] at asked <;> first | rfl | cases asked

/-- A removal that may find nothing leaves nothing. -/
theorem remove_file_if_exists_done {p dir : OsPath} {name : String} (leads : Leads p dir name)
    (done : Common.remove_file_if_exists p w = (.ok (),w')) :
    w'.tree.node (dir ++ [name]) = none ∧ ∀ q, q ≠ dir ++ [name] → w'.tree.node q = w.tree.node q := by
  rw [Common.remove_file_if_exists,Prog.bind_ok_iff] at done
  obtain ⟨removed,w₁,tried,done⟩ := done
  rw [attempt_ok_iff] at tried
  cases removed with
  | ok _ =>
    obtain ⟨_,rfl⟩ := pure_ok_iff.mp done
    obtain ⟨sets,_⟩ := Fs.remove_file_done leads tried
    exact ⟨sets.here,fun q other => sets.other other⟩
  | error e =>
    dsimp only at done
    split at done
    next absent =>
      obtain ⟨_,rfl⟩ := pure_ok_iff.mp done
      rw [Fs.remove_file_leads leads] at tried
      have same := Fs.change_error tried
      subst same
      refine ⟨?_,fun _ _ => rfl⟩
      unfold Fs.change at tried
      split at tried
      next => cases tried
      next kind failed =>
        have spelled : kind = .NotFound := by
          rw [← (Except.error.inj (Prod.mk.inj tried).1)] at absent
          exact absent
        subst spelled
        by_contra there
        unfold Tree.removeFile at failed
        rcases here : w'.tree.node (dir ++ [name]) with _ | c | _
        · exact there here
        · simp [here] at failed
        · simp [here] at failed
    next => cases done

/-- The end of a deletion: the sidecar is gone, and no directory of chunks has come. -/
theorem remove_object_done (accepted : Accepted bucket key) {result : DeleteResult}
    (done : fs.remove_object bucket key w = (.ok result,w')) :
    w'.tree.node (metaAt fs bucket key) = none ∧
      (w.tree.node (ecAt fs bucket key) ≠ some .dir → w'.tree.node (ecAt fs bucket key) ≠ some .dir) := by
  simp only [FilesystemStorage.remove_object,FilesystemStorage.remove_current,Prog.bind_ok_iff] at done
  obtain ⟨_,w₃,⟨_,w₁,object,_,w₂,side,chunks⟩,_,w₄,indexed,_,w₅,parents,ended⟩ := done
  obtain ⟨_,rfl⟩ := pure_ok_iff.mp ended
  have removed := (remove_file_if_exists_done accepted.meta_leads side).1
  have shrunk : Shrinks w₂ w₃ := by
    have last := Fs.last_of_named (@Accepted.ec_leads fs _ _ accepted).entry.named
    have kept : Shrinks w₂ (Common.remove_dir_all_if_exists (ec_dir fs.buckets_dir bucket key) w₂).2 :=
      Shrinks.if_exists (Shrinks.remove_dir_all last) w₂
    rwa [chunks] at kept
  have all : Shrinks w w₃ := by
    have kept := @remove_current_shrinks fs _ _ accepted w
    have ran : fs.remove_current bucket key w = (.ok (),w₃) := by
      simp only [FilesystemStorage.remove_current,Prog.bind_ok_iff]
      exact ⟨_,_,object,_,_,side,chunks⟩
    rwa [ran] at kept
  have indexes : Frames (fun _ => False) (fun _ => False) (fs.index_remove bucket key) :=
    Frames.ite (fun _ => Frames.tell fun _ => rfl) fun _ => Frames.pure _
  have index := indexes w₃
  have ups : Frame (fun _ => False) (Opened fs bucket key) w₄ w' := by
    have frames : Frames (fun _ => False) (Opened fs bucket key) (FilesystemStorage.remove_empty_parents
        (bucket_dir fs.buckets_dir bucket) (object_path fs.buckets_dir bucket key).length
        (parent_dir (object_path fs.buckets_dir bucket key))) :=
      remove_empty_parents_frames (accepted.objectDir_plain fs) (fun q below => .inl (below.trans (accepted.objectDir_above fs))) _
    have ran := frames w₄
    rwa [parents] at ran
  rw [indexed] at index
  have after {n : String} (member : n ∈ ownNames key) :
      w'.tree.node (home fs bucket key ++ [n]) = w₃.tree.node (home fs bucket key ++ [n]) := by
    rw [ups.same id (own_not_opened accepted member),index.same id id]
  constructor
  · rw [metaAt,after (by simp [ownNames])]
    rcases shrunk (home fs bucket key ++ [metaName key]) with same | gone
    · rw [same]
      exact removed
    · exact gone
  · intro vacant
    rw [ecAt,after (by simp [ownNames])]
    rcases all (home fs bucket key ++ [ecName key]) with same | gone
    · rwa [same]
    · rw [gone]
      simp

/-- So it is after every deletion in an unversioned bucket that succeeds. -/
theorem delete_object_done (unnumbered : versioned fs bucket w = false) {result : DeleteResult}
    (done : fs.delete_object P draws bucket key w = (.ok result,w')) :
    Accepted bucket key ∧ w'.tree.node (metaAt fs bucket key) = none ∧
      (w.tree.node (ecAt fs bucket key) ≠ some .dir → w'.tree.node (ecAt fs bucket key) ≠ some .dir) := by
  rw [fs.delete_object_eq] at done
  simp only [Prog.bind_ok_iff,lift_ok_iff] at done
  obtain ⟨_,_,⟨valid,rfl⟩,_,_,⟨valid',rfl⟩,v,w₁,asked,done⟩ := done
  rw [is_versioned_eq valid draws,Prod.mk.injEq,Except.ok.injEq] at asked
  obtain ⟨rfl,rfl⟩ := asked
  have accepted : Accepted bucket key := ⟨valid,valid'⟩
  refine ⟨accepted,?_⟩
  rw [unnumbered,if_neg (by simp)] at done
  simp only [Prog.bind_ok_iff] at done
  obtain ⟨present,w₂,looked,done⟩ := done
  have same := object_present_quiet.state looked
  subst same
  cases present with
  | false =>
    obtain ⟨_,rfl⟩ := pure_ok_iff.mp done
    refine ⟨?_,id⟩
    simp only [FilesystemStorage.object_present,Prog.bind_ok_iff,io_ok_iff] at looked
    obtain ⟨found,w₃,side,looked⟩ := looked
    obtain ⟨rfl,there⟩ := Fs.try_exists_done (@Accepted.meta_leads fs _ _ accepted) side
    cases found with
    | true =>
      rw [if_pos rfl] at looked
      obtain ⟨never,_⟩ := pure_ok_iff.mp looked
      cases never
    | false =>
      by_contra present
      exact absurd (there.mpr present) (by simp)
  | true =>
    rw [if_neg (by simp)] at done
    simp only [Prog.bind_ok_iff] at done
    obtain ⟨found,w₃,side,_,w₄,unlocked,done⟩ := done
    have same := (Quiet.io (Quiet.observe _)).state side
    subst same
    have same := (ensure_deletable_quiet found).state unlocked
    subst same
    exact remove_object_done accepted done

end Deletion

/-! ### The files of a key among others -/

section Places
variable {fs : FilesystemStorage} {bucket key other upload_id n : String} {draws : Draws} {own stored : List String}

theorem touched_below {q r : OsPath} (touched : Touched fs bucket key own (tempNames draws) stored q) (below : q <+: r) :
    Touched fs bucket key own (tempNames draws) stored r := by
  rcases touched with ⟨m,member,above⟩ | ⟨m,member,above⟩ | ⟨m,member,above⟩
  · exact .inl ⟨m,member,above.trans below⟩
  · exact .inr (.inl ⟨m,member,above.trans below⟩)
  · exact .inr (.inr ⟨m,member,above.trans below⟩)

/-- The directories above a key are touched only through a current file on the way. -/
theorem home_untouched (accepted : Accepted bucket key) (accepted' : Accepted bucket other)
    (off : ∀ m ∈ own, ¬ stem other ++ [m] <+: stem key) {q : OsPath} (above : q <+: home fs bucket key) :
    ¬ Touched fs bucket other own (tempNames draws) stored q := by
  intro touched
  have whole := touched_below touched above
  have inside : ∀ {m : String}, m ∈ stem key → is_reserved_segment m = false := by
    intro m member
    rw [Bool.eq_false_iff]
    intro reserved
    exact offLimits_of_reserved reserved key accepted.validKey (stem_subset _ member)
  have temp : ∀ {d : OsPath} {m : String}, m ∈ tempNames draws → ¬ d ++ [m] <+: stem key := by
    intro d m member below
    have there : m ∈ stem key := below.subset (by simp)
    have free := inside there
    rw [tempName_reserved member] at free
    cases free
  obtain ⟨_,cases'⟩ := touched_cases accepted' accepted.validBucket whole
  rcases cases' with ⟨m,listed,below⟩ | ⟨m,member,below⟩ | ⟨m,_,below⟩
  · rcases List.mem_append.mp listed with current | member
    · exact off m current below
    · exact temp member below
  · exact temp member below
  · have there : ".versions" ∈ stem key := below.subset (by simp [versionsRel])
    exact absurd (inside there) (by decide)

theorem uploads_top : base fs.buckets_dir bucket ++ [".uploads"] <+: uploadAt fs bucket upload_id := by
  rw [uploadAt,List.prefix_append_right_inj]
  simp

variable (accepted : Accepted bucket key)
include accepted

/-- An internal name at the top of the bucket leads to no file of a key. -/
theorem top_apart (top : n ∈ topNames) : ¬ base fs.buckets_dir bucket ++ [n] <+: home fs bucket key ∧
    ∀ m ∈ ownNames key, ∀ rest, ¬ base fs.buckets_dir bucket ++ [n] <+: home fs bucket key ++ m :: rest := by
  have off : n ∉ stem key := fun member => names_ne_top accepted.validKey n (stem_subset _ member) top
  constructor
  · intro below
    rw [home,List.prefix_append_right_inj] at below
    exact off (below.subset (by simp))
  · intro m member rest below
    rw [home,List.append_assoc,List.prefix_append_right_inj] at below
    rcases spelled : stem key with _ | ⟨first,more⟩
    · rw [spelled,List.nil_append,List.cons_prefix_cons] at below
      exact ownNames_ne_top accepted.validKey m member (below.1 ▸ top)
    · rw [spelled,List.cons_append,List.cons_prefix_cons] at below
      exact off (by simp [spelled,below.1])

/-- No directory that an upload needs is a current file. -/
theorem current_not_above_upload {m : String} (member : m ∈ ownNames key) :
    ¬ home fs bucket key ++ [m] <+: uploadAt fs bucket upload_id := by
  intro above
  rw [home,List.append_assoc,uploadAt,List.prefix_append_right_inj] at above
  rcases spelled : stem key with _ | ⟨first,more⟩
  · rw [spelled,List.nil_append,List.cons_prefix_cons] at above
    exact ownNames_ne_top accepted.validKey m member (by rw [above.1]; decide)
  · rw [spelled,List.cons_append,List.cons_prefix_cons] at above
    exact names_ne_top accepted.validKey first (stem_subset _ (by simp [spelled])) (by rw [above.1]; decide)

end Places

/-! ### The abstract map -/

/-- What is known of an object: what its writer was told, the customer key it is read with, and its bytes. -/
structure StoredObject where
  result : PutResult
  customer_key : Option Bytes
  body : Bytes

abbrev ObjectMap := String → Option StoredObject

/-- Get and head answer as an entry of the map says: with its bytes and what its writer was told, or with `NotFound`. -/
def Answers (P : Primitives) (fs : FilesystemStorage) (bucket key : String) (w : World) : Option StoredObject → Prop
  | none => (∀ ck, fs.get_object P bucket key ck w = (.error (.NotFound key),w)) ∧
    fs.head_object bucket key w = (.error (.NotFound key),w)
  | some entry => ∃ reader record, fs.get_object P bucket key entry.customer_key w = (.ok (reader,record),w) ∧
    fs.head_object bucket key w = (.ok record,w) ∧ FilesystemStorage.put_result record = entry.result ∧
    record.size = entry.body.length ∧ ReadsOut P reader entry.body

/-- Keys that a request may name and that are no folder markers, none of which lies on the way to another. -/
structure Family (keys : Set String) : Prop where
  valid : ∀ key ∈ keys, validate_key key = .ok () ∧ ends_with key "/" = false
  apart : ∀ key ∈ keys, ∀ other ∈ keys, key ≠ other → ¬ names key <+: names other

/-- What the store keeps for a key, by its entry in the map. -/
structure Backs (P : Primitives) (fs : FilesystemStorage) (bucket key : String) (coding : Bool) (entry : Option StoredObject)
    (w : World) : Prop where
  clear : ∀ q, q <+: home fs bucket key → Loose (w.tree.node q)
  single : coding = false → w.tree.node (ecAt fs bucket key) ≠ some .dir
  absent : entry = none → w.tree.node (metaAt fs bucket key) = none
  present : ∀ e, entry = some e → ∃ record cipher,
    Written P fs bucket key record.version_id cipher e.customer_key e.body coding record w ∧
      FilesystemStorage.put_result record = e.result ∧ (coding = true → Countable fs cipher.isSome e.body.length)

/-- An unversioned bucket with one layout, and a map of its objects. -/
structure Refines (P : Primitives) (fs : FilesystemStorage) (bucket : String) (keys : Set String) (coding : Bool)
    (m : ObjectMap) (w : World) : Prop where
  unnumbered : versioned fs bucket w = false
  layout : coded fs bucket w = coding
  backs : ∀ key ∈ keys, Backs P fs bucket key coding (m key) w

section Answering
variable {P : Primitives} {fs : FilesystemStorage} {bucket key : String} {coding : Bool} {entry : Option StoredObject} {w w' : World}

theorem read_absent (accepted : Accepted bucket key) (clear : ∀ q, q <+: home fs bucket key → Loose (w.tree.node q))
    (absent : w.tree.node (metaAt fs bucket key) = none) :
    fs.read_object_meta bucket key w = (.error (.NotFound key),w) := by
  have nothing : w.tree.missing (home fs bucket key ++ [metaName key]) = .NotFound := by
    rw [Tree.missing,if_neg]
    rw [List.any_eq_true]
    rintro ⟨q,within,file⟩
    have loose : Loose (w.tree.node q) := by
      rcases List.prefix_concat_iff.mp ((List.mem_inits _ _).mp within) with same | above
      · rw [same]
        exact .inl absent
      · exact clear q above
    rcases loose with here | here <;> simp [Tree.isFile,here] at file
  have read : (or_not_found (.NotFound key) (Fs.read (meta_path fs.buckets_dir bucket key)) : Action Content) w =
      (.error (.NotFound key),w) := by
    have looked : Fs.read (meta_path fs.buckets_dir bucket key) w = (.error (.os .NotFound),w) := by
      rw [Fs.read,Fs.observe,Fs.readAt_leads accepted.meta_leads,Tree.read]
      rw [metaAt] at absent
      rw [absent,nothing]
      rfl
    rw [or_not_found,Prog.mapError_apply,looked]
    rfl
  rw [FilesystemStorage.read_object_meta,Prog.bind_of_error read]

/-- What is kept for a key answers for it. -/
theorem Backs.answers (sound : P.Sound) (accepted : Accepted bucket key)
    (backs : Backs P fs bucket key coding entry w) : Answers P fs bucket key w entry := by
  cases entry with
  | none =>
    have read := read_absent accepted backs.clear (backs.absent rfl)
    refine ⟨fun ck => ?_,?_⟩
    · rw [FilesystemStorage.get_object_eq,accepted.bucket,accepted.key,Prog.lift_ok_bind,Prog.lift_ok_bind,
        Prog.bind_of_error read]
    · rw [FilesystemStorage.head_object,accepted.bucket,accepted.key,Prog.lift_ok_bind,Prog.lift_ok_bind]
      exact read
  | some e =>
    obtain ⟨record,cipher,written,told,few⟩ := backs.present e rfl
    obtain ⟨reader,record',done,size,reads⟩ := written.landed.gives_back sound accepted backs.single few
    have same := get_object_record accepted written.landed.shows' done
    subst same
    refine ⟨reader,record',done,?_,told,size,reads⟩
    rw [FilesystemStorage.head_object,accepted.bucket,accepted.key,Prog.lift_ok_bind,Prog.lift_ok_bind]
    exact read_object_meta_ok accepted written.landed.shows'

/-- What leaves the files of a key and its directories alone keeps what is known of it. -/
theorem Backs.frame {S G : OsPath → Prop} (draws : Draws) (accepted : Accepted bucket key) (backs : Backs P fs bucket key coding entry w)
    (frame : Frame S G w w') (above : ∀ q, q <+: home fs bucket key → ¬ S q)
    (own : ∀ n ∈ ownNames key, ∀ rest, ¬ S (home fs bucket key ++ n :: rest))
    (rigid : ∀ n ∈ ownNames key, ¬ G (home fs bucket key ++ [n])) : Backs P fs bucket key coding entry w' := by
  have same {n : String} (member : n ∈ ownNames key) :
      w'.tree.node (home fs bucket key ++ [n]) = w.tree.node (home fs bucket key ++ [n]) :=
    frame.same (own n member []) (rigid n member)
  refine ⟨fun q within => ?_,fun flat => ?_,fun none => ?_,fun e some => ?_⟩
  · rcases frame q (above q within) with here | ⟨_,_,loose⟩
    · rw [here]
      exact backs.clear q within
    · exact loose
  · rw [ecAt,same (by simp [ownNames])]
    exact backs.single flat
  · rw [metaAt,same (by simp [ownNames])]
    exact backs.absent none
  · obtain ⟨record,cipher,written,told,few⟩ := backs.present e some
    refine ⟨record,cipher,@Written.frame P fs bucket key draws w w' accepted S G _ _ _ _ _ _ written frame
      (fun n member _ q below => ?_),told,few⟩
    obtain ⟨rest,rfl⟩ := below
    rw [List.append_assoc]
    exact own n member rest

end Answering

/-! ### Steps -/

/-- The calls on a sidecar that set its tags. -/
def UpdateCall.tags : UpdateCall → Bool
  | .put_object_tagging _ | .delete_object_tagging => true
  | _ => false

/-- A call that changes no object of the map: a read, a new upload, a call on an upload that does not complete it, new tags,
    other settings than versioning and the layout. -/
def BucketCall.Passive (fs : FilesystemStorage) (bucket : String) (keys : Set String) (w : World) : BucketCall → Prop
  | .put_object _ _ _ _ _ _ | .delete_object _ => False
  | .get_object _ _ | .head_object _ | .create_multipart_upload _ _ _ _ => True
  | .upload upload_id call => ¬ call.completes ∧ upload_id ≠ "." ∧
    ∀ key, UploadCall.Recorded fs bucket upload_id w key → validate_key key = .ok ()
  | .version _ _ call => call.looks = true
  | .update key call => key ∈ keys ∧ call.tags = true
  | .configure call => BucketField.versioning ∉ call.fields ∧ BucketField.erasure_coding ∉ call.fields

/-- One call, and what it does to the map by its answer. Writes and deletions fail for other reasons than the filesystem. -/
inductive MapStep (P : Primitives) (fs : FilesystemStorage) (from_str : String → Except String Json) (bucket : String)
    (keys : Set String) (coding : Bool) : ObjectMap → World → ObjectMap → World → Prop
  | put {m : ObjectMap} {w w' : World} (draws : Draws) {key content_type : String} {body : ByteStream}
      {checksum : ChecksumRequest} {encryption : Option EncryptionRequest} {declared_size : Option Nat} {result : PutResult}
      (member : key ∈ keys) (few : coding = true → Countable fs encryption.isSome body.body.length)
      (done : fs.put_object P draws bucket key content_type body checksum encryption declared_size w = (.ok result,w')) :
      MapStep P fs from_str bucket keys coding m w
        (Function.update m key (some ⟨result,encryption.bind EncryptionRequest.customer_key,body.body⟩)) w'
  | put_refused {m : ObjectMap} {w w' : World} (draws : Draws) {key content_type : String} {body : ByteStream}
      {checksum : ChecksumRequest} {encryption : Option EncryptionRequest} {declared_size : Option Nat} {e : StorageError}
      (member : key ∈ keys) (other : ¬ e.FromIo)
      (failed : fs.put_object P draws bucket key content_type body checksum encryption declared_size w = (.error e,w')) :
      MapStep P fs from_str bucket keys coding m w m w'
  | complete {m : ObjectMap} {w w' : World} (draws : Draws) {upload_id : String} {upload : MultipartUploadMeta}
      {uploaded : List (PartMeta × Bytes)} {parts : List (Nat × String)} {customer_key : Option Bytes} {result : PutResult}
      (member : upload.key ∈ keys) (begun : UploadStored P fs bucket upload_id upload w)
      (asked : uploaded.map (fun u => u.1.part_number) = parts.map Prod.fst)
      (stored : ∀ u ∈ uploaded, PartStored P fs bucket upload_id upload customer_key u.1 u.2 w)
      (few : coding = true → Countable fs upload.encryption_spec.isSome (uploaded.map Prod.snd).flatten.length)
      (done : fs.complete_multipart_upload P draws bucket upload_id parts customer_key w = (.ok result,w')) :
      MapStep P fs from_str bucket keys coding m w
        (Function.update m upload.key (some ⟨result,readingKey upload customer_key,(uploaded.map Prod.snd).flatten⟩)) w'
  | complete_refused {m : ObjectMap} {w w' : World} (draws : Draws) {upload_id : String} {parts : List (Nat × String)}
      {customer_key : Option Bytes} {e : StorageError}
      (members : ∀ key, UploadCall.Recorded fs bucket upload_id w key → key ∈ keys) (other : ¬ e.FromIo)
      (failed : fs.complete_multipart_upload P draws bucket upload_id parts customer_key w = (.error e,w')) :
      MapStep P fs from_str bucket keys coding m w m w'
  | delete {m : ObjectMap} {w w' : World} (draws : Draws) {key : String} {result : DeleteResult} (member : key ∈ keys)
      (done : fs.delete_object P draws bucket key w = (.ok result,w')) :
      MapStep P fs from_str bucket keys coding m w (Function.update m key none) w'
  | delete_refused {m : ObjectMap} {w w' : World} (draws : Draws) {key : String} {e : StorageError} (other : ¬ e.FromIo)
      (failed : fs.delete_object P draws bucket key w = (.error e,w')) : MapStep P fs from_str bucket keys coding m w m w'
  | passive {m : ObjectMap} {w : World} (draws : Draws) (call : BucketCall) (passive : call.Passive fs bucket keys w) :
      MapStep P fs from_str bucket keys coding m w m (call.run P fs from_str bucket draws w).2

section Steps
variable {P : Primitives} {fs : FilesystemStorage} {from_str : String → Except String Json} {bucket key : String}
  {keys : Set String} {coding : Bool} {m : ObjectMap} {draws : Draws} {w w' : World}

theorem settings_frame (accepted : Accepted bucket key) {own stored : List String} (top : ∀ n ∈ own, n ∉ topNames)
    (frame : Frame (Touched fs bucket key own (tempNames draws) stored) (Opened fs bucket key) w w') :
    bucketRecord fs bucket w' = bucketRecord fs bucket w := by
  obtain ⟨outside,rigid⟩ := @bucketMeta_untouched fs bucket key bucket accepted accepted.validBucket draws own stored top
  exact bucketRecord_congr (frame.same outside rigid)

/-- Places that are neither current files of a key nor directories above them. -/
def Elsewhere (fs : FilesystemStorage) (bucket key : String) (U : OsPath → Prop) : Prop :=
  (∀ q, q <+: home fs bucket key → ¬ U q) ∧ ∀ n ∈ ownNames key, ∀ rest, ¬ U (home fs bucket key ++ n :: rest)

theorem elsewhere_none : Elsewhere fs bucket key fun _ => False := ⟨fun _ _ => id,fun _ _ _ => id⟩

theorem elsewhere_upload (accepted : Accepted bucket key) {upload_id : String} :
    Elsewhere fs bucket key (InUpload fs bucket upload_id) := by
  obtain ⟨up,down⟩ := @top_apart fs bucket key ".uploads" accepted (by decide)
  refine ⟨fun q above inside => ?_,fun n member rest inside => ?_⟩
  · exact up ((uploads_top.trans inside).trans above)
  · exact down n member rest (uploads_top.trans inside)

theorem elsewhere_settings (accepted : Accepted bucket key) :
    Elsewhere fs bucket key fun q => q = base fs.buckets_dir bucket ++ [".bucket.json"] := by
  obtain ⟨up,down⟩ := @top_apart fs bucket key ".bucket.json" accepted (by decide)
  refine ⟨?_,fun n member rest same => ?_⟩
  · rintro q above rfl
    exact up above
  · exact down n member rest (same ▸ List.prefix_refl _)

/-- What happens elsewhere does not matter to a key. -/
theorem Backs.elsewhere {U G : OsPath → Prop} {entry : Option StoredObject} (accepted : Accepted bucket key)
    (backs : Backs P fs bucket key coding entry w) (frame : Frame U G w w') (apart : Elsewhere fs bucket key U)
    (rigid : ∀ n ∈ ownNames key, ¬ G (home fs bucket key ++ [n])) (draws : Draws) :
    Backs P fs bucket key coding entry w' := backs.frame draws accepted frame apart.1 apart.2 rigid

/-- Temporary files next to a key do not matter to it. -/
theorem Backs.temporary {entry : Option StoredObject} (accepted : Accepted bucket key)
    (backs : Backs P fs bucket key coding entry w)
    (frame : Frame (Temporary fs bucket key draws) (Opened fs bucket key) w w') :
    Backs P fs bucket key coding entry w' := by
  refine backs.frame draws accepted frame (fun q above => ?_) (fun n member rest => ?_) fun n => own_not_opened accepted
  · exact home_untouched accepted accepted (fun _ none => by cases none) above
  · exact own_untouched accepted member List.not_mem_nil (own_ne_temp accepted.validKey member) ⟨rest,by simp⟩

/-- The places of a key that lies neither above nor below are not this one's. -/
theorem beside_places {U : OsPath → Prop} {other : String} {own stored : List String} (draws : Draws)
    (accepted : Accepted bucket key) (accepted' : Accepted bucket other) (above : ¬ names other <+: names key)
    (below : ¬ names key <+: names other) (mine : ∀ n ∈ own, n ∈ ownNames other) (apart' : Elsewhere fs bucket key U) :
    (∀ q, q <+: home fs bucket key → ¬ (Touched fs bucket other own (tempNames draws) stored q ∨ U q)) ∧
      (∀ n ∈ ownNames key, ∀ rest,
        ¬ (Touched fs bucket other own (tempNames draws) stored (home fs bucket key ++ n :: rest) ∨
          U (home fs bucket key ++ n :: rest))) ∧
      ∀ n ∈ ownNames key, ¬ Opened fs bucket other (home fs bucket key ++ [n]) := by
  have apart : KeysApart key other := by
    rintro (inside | outside)
    · exact absurd inside above
    · exact absurd outside below
  have names_differ : names other ≠ names key := by
    intro same
    exact above (same ▸ List.prefix_refl _)
  have stem_inside : stem key <+: names key := by
    rw [names_eq]
    exact List.prefix_append _ _
  refine ⟨fun q within => ?_,fun n own rest => ?_,fun n own => ?_⟩
  · rintro (touched | further)
    · refine home_untouched accepted accepted' (fun m listed inside => ?_) within touched
      exact above (own_on_way (mine m listed) accepted.validKey stem_inside inside)
    · exact apart'.1 q within further
  · rintro (touched | further)
    · exact current_untouched accepted accepted' apart names_differ mine own touched
    · exact apart'.2 n own rest further
  · exact current_unopened accepted accepted' apart names_differ own

/-- The directories above a key stay free of files when its own places are changed. -/
theorem Backs.above {U : OsPath → Prop} {own stored : List String} {entry : Option StoredObject}
    (accepted : Accepted bucket key) (apart : Elsewhere fs bucket key U)
    (frame : Frame (fun q => Touched fs bucket key own (tempNames draws) stored q ∨ U q) (Opened fs bucket key) w w')
    (backs : Backs P fs bucket key coding entry w) : ∀ q, q <+: home fs bucket key → Loose (w'.tree.node q) := by
  intro q within
  have outside : ¬ (Touched fs bucket key own (tempNames draws) stored q ∨ U q) := by
    rintro (touched | further)
    · refine home_untouched accepted accepted (fun m _ below => ?_) within touched
      have short := below.length_le
      simp at short
    · exact apart.1 q within further
  rcases frame q outside with here | ⟨_,_,loose⟩
  · rw [here]
    exact backs.clear q within
  · exact loose

/-- A put leaves what it was asked to store. -/
theorem Backs.put {content_type : String} {body : ByteStream} {checksum : ChecksumRequest}
    {encryption : Option EncryptionRequest} {declared_size : Option Nat} {result : PutResult} {entry : Option StoredObject}
    (sound : P.Sound) (file : ends_with key "/" = false) (backs : Backs P fs bucket key coding entry w)
    (layout : coded fs bucket w = coding) (few : coding = true → Countable fs encryption.isSome body.body.length)
    (done : fs.put_object P draws bucket key content_type body checksum encryption declared_size w = (.ok result,w')) :
    Backs P fs bucket key coding (some ⟨result,encryption.bind EncryptionRequest.customer_key,body.body⟩) w' := by
  obtain ⟨accepted,_,record,cipher,sealed,written,told⟩ := put_object_done sound file done
  have frame : Frame (fun q => Touched fs bucket key (ownNames key) (tempNames draws) (versionNames draws.version_id) q ∨
      False) (Opened fs bucket key) w w' := by
    have ran := @put_object_frames P fs bucket key draws content_type body checksum encryption declared_size w
    rw [done] at ran
    exact ran.mono (fun _ => .inl) fun _ => .inr
  refine ⟨backs.above accepted elsewhere_none frame,fun flat => ?_,nofun,fun e stored => ?_⟩
  · rw [put_object_flat_chunks accepted file (layout.trans flat) done]
    exact backs.single flat
  · obtain rfl := Option.some.inj stored
    refine ⟨record,cipher,?_,told.symm,fun on => by rw [sealed]; exact few on⟩
    rw [layout,← written.version] at written
    exact written

/-- A completion leaves the parts it lists. -/
theorem Backs.complete {upload_id : String} {upload : MultipartUploadMeta} {uploaded : List (PartMeta × Bytes)}
    {parts : List (Nat × String)} {customer_key : Option Bytes} {result : PutResult} {entry : Option StoredObject}
    (sound : P.Sound) (backs : Backs P fs bucket upload.key coding entry w) (layout : coded fs bucket w = coding)
    (begun : UploadStored P fs bucket upload_id upload w)
    (asked : uploaded.map (fun u => u.1.part_number) = parts.map Prod.fst)
    (stored : ∀ u ∈ uploaded, PartStored P fs bucket upload_id upload customer_key u.1 u.2 w)
    (few : coding = true → Countable fs upload.encryption_spec.isSome (uploaded.map Prod.snd).flatten.length)
    (done : fs.complete_multipart_upload P draws bucket upload_id parts customer_key w = (.ok result,w')) :
    Backs P fs bucket upload.key coding
      (some ⟨result,readingKey upload customer_key,(uploaded.map Prod.snd).flatten⟩) w' := by
  obtain ⟨accepted,_,record,cipher,sealed,written,_,told,flat_same⟩ :=
    complete_multipart_upload_done sound begun asked stored done
  have read := read_upload_meta_stored accepted.validBucket begun
  have frame := @complete_multipart_upload_frame P fs bucket upload_id draws upload w begun.names read begun.key parts
    customer_key
  rw [done] at frame
  refine ⟨backs.above accepted (elsewhere_upload accepted) frame,fun flat => ?_,nofun,fun e stored => ?_⟩
  · rw [flat_same (layout.trans flat)]
    exact backs.single flat
  · obtain rfl := Option.some.inj stored
    refine ⟨record,cipher,?_,told.symm,fun on => by rw [sealed]; exact few on⟩
    rw [layout,← written.version] at written
    exact written

variable (family : Family keys) (named : validate_bucket_name bucket = .ok ()) (member : key ∈ keys)
include family named member

theorem Family.accepted : Accepted bucket key := ⟨named,(family.valid key member).1⟩

/-- A change of one key's places is no change of another's. -/
theorem Backs.other {U : OsPath → Prop} {other : String} {own stored : List String} {entry : Option StoredObject}
    (member' : other ∈ keys) (differ : key ≠ other) (mine : ∀ n ∈ own, n ∈ ownNames other)
    (apart' : Elsewhere fs bucket key U)
    (frame : Frame (fun q => Touched fs bucket other own (tempNames draws) stored q ∨ U q) (Opened fs bucket other) w w')
    (backs : Backs P fs bucket key coding entry w) : Backs P fs bucket key coding entry w' := by
  have accepted : Accepted bucket key := family.accepted named member
  obtain ⟨above,outside,rigid⟩ := @beside_places fs bucket key _ other own stored draws accepted (family.accepted named member')
    (family.apart other member' key member differ.symm) (family.apart key member other member' differ) mine apart'
  exact backs.frame draws accepted frame above outside rigid

/-- What a step keeps of the map, from what it does to the key it is about. -/
theorem Refines.written {U : OsPath → Prop} {own stored : List String} {entry : Option StoredObject}
    (refines : Refines P fs bucket keys coding m w) (mine : ∀ n ∈ own, n ∈ ownNames key)
    (elsewhere : ∀ other ∈ keys, Elsewhere fs bucket other U)
    (settings : ¬ U (bucketMetaAt fs bucket))
    (frame : Frame (fun q => Touched fs bucket key own (tempNames draws) stored q ∨ U q) (Opened fs bucket key) w w')
    (here : Backs P fs bucket key coding entry w') : Refines P fs bucket keys coding (Function.update m key entry) w' := by
  have accepted : Accepted bucket key := family.accepted named member
  have top : ∀ n ∈ own, n ∉ topNames := fun n listed => ownNames_ne_top accepted.validKey n (mine n listed)
  obtain ⟨outside,rigid⟩ := @bucketMeta_untouched fs bucket key bucket accepted accepted.validBucket draws own stored top
  have record : bucketRecord fs bucket w' = bucketRecord fs bucket w :=
    bucketRecord_congr (frame.same (not_or.mpr ⟨outside,settings⟩) rigid)
  refine ⟨?_,?_,fun other listed => ?_⟩
  · rw [versioned,record]
    exact refines.unnumbered
  · rw [coded,record]
    exact refines.layout
  · by_cases same : other = key
    · subst same
      rw [Function.update_self]
      exact here
    · rw [Function.update_of_ne same]
      exact Backs.other family named listed member same mine (elsewhere other listed) frame (refines.backs other listed)

theorem Refines.put {content_type : String} {body : ByteStream} {checksum : ChecksumRequest}
    {encryption : Option EncryptionRequest} {declared_size : Option Nat} {result : PutResult} (sound : P.Sound)
    (refines : Refines P fs bucket keys coding m w)
    (few : coding = true → Countable fs encryption.isSome body.body.length)
    (done : fs.put_object P draws bucket key content_type body checksum encryption declared_size w = (.ok result,w')) :
    Refines P fs bucket keys coding
      (Function.update m key (some ⟨result,encryption.bind EncryptionRequest.customer_key,body.body⟩)) w' := by
  have frame : Frame (fun q => Touched fs bucket key (ownNames key) (tempNames draws) (versionNames draws.version_id) q ∨
      False) (Opened fs bucket key) w w' := by
    have ran := @put_object_frames P fs bucket key draws content_type body checksum encryption declared_size w
    rw [done] at ran
    exact ran.mono (fun _ => .inl) fun _ => .inr
  exact refines.written family named member (fun _ mine => mine) (fun _ _ => elsewhere_none) id frame
    ((refines.backs key member).put sound (family.valid key member).2 refines.layout few done)

theorem Refines.complete {upload_id : String} {upload : MultipartUploadMeta} {uploaded : List (PartMeta × Bytes)}
    {parts : List (Nat × String)} {customer_key : Option Bytes} {result : PutResult} (sound : P.Sound)
    (same : upload.key = key) (refines : Refines P fs bucket keys coding m w)
    (begun : UploadStored P fs bucket upload_id upload w)
    (asked : uploaded.map (fun u => u.1.part_number) = parts.map Prod.fst)
    (stored : ∀ u ∈ uploaded, PartStored P fs bucket upload_id upload customer_key u.1 u.2 w)
    (few : coding = true → Countable fs upload.encryption_spec.isSome (uploaded.map Prod.snd).flatten.length)
    (done : fs.complete_multipart_upload P draws bucket upload_id parts customer_key w = (.ok result,w')) :
    Refines P fs bucket keys coding
      (Function.update m key (some ⟨result,readingKey upload customer_key,(uploaded.map Prod.snd).flatten⟩)) w' := by
  subst same
  have accepted : Accepted bucket upload.key := family.accepted named member
  have read := read_upload_meta_stored accepted.validBucket begun
  have frame := @complete_multipart_upload_frame P fs bucket upload_id draws upload w begun.names read begun.key parts
    customer_key
  rw [done] at frame
  have apart : ∀ other ∈ keys, Elsewhere fs bucket other (InUpload fs bucket upload_id) := fun other listed =>
    elsewhere_upload (family.accepted named listed)
  refine refines.written family named member (fun _ mine => mine) apart ?_ frame
    ((refines.backs upload.key member).complete sound refines.layout begun asked stored few done)
  intro inside
  have short := List.IsPrefix.length_le inside
  simp [uploadAt,bucketMetaAt] at short

theorem Refines.delete {result : DeleteResult} (refines : Refines P fs bucket keys coding m w)
    (done : fs.delete_object P draws bucket key w = (.ok result,w')) :
    Refines P fs bucket keys coding (Function.update m key none) w' := by
  obtain ⟨accepted,gone,vacant⟩ := delete_object_done refines.unnumbered done
  have frame : Frame (fun q => Touched fs bucket key (ownNames key) (tempNames draws) (versionNames draws.version_id) q ∨
      False) (Opened fs bucket key) w w' := by
    have ran := @delete_object_frames P fs bucket key draws w
    rw [done] at ran
    exact ran.mono (fun _ => .inl) fun _ => .inr
  have before := refines.backs key member
  exact refines.written family named member (fun _ mine => mine) (fun _ _ => elsewhere_none) id frame
    ⟨before.above accepted elsewhere_none frame,fun flat => vacant (before.single flat),fun _ => gone,nofun⟩

/-- Temporary files of one key matter to none. -/
theorem Refines.temporary (refines : Refines P fs bucket keys coding m w)
    (frame : Frame (Temporary fs bucket key draws) (Opened fs bucket key) w w') :
    Refines P fs bucket keys coding m w' := by
  have same : Function.update m key (m key) = m := Function.update_eq_self key m
  rw [← same]
  have frame' : Frame (fun q => Touched fs bucket key [] (tempNames draws) [] q ∨ False) (Opened fs bucket key) w w' :=
    frame.mono (fun _ => .inl) fun _ => .inr
  refine refines.written family named member (fun _ none => by cases none) (fun _ _ => elsewhere_none) id frame' ?_
  exact Backs.temporary (family.accepted named member) (refines.backs key member) frame

end Steps

section Passive
variable {P : Primitives} {fs : FilesystemStorage} {from_str : String → Except String Json} {bucket key : String}
  {keys : Set String} {coding : Bool} {m : ObjectMap} {draws : Draws} {w w' : World}
variable (family : Family keys) (named : validate_bucket_name bucket = .ok ())
include family named

/-- What happens elsewhere matters to no key, as long as the layout and the versioning of the bucket stay. -/
theorem Refines.elsewhere {U G : OsPath → Prop} (draws : Draws) (refines : Refines P fs bucket keys coding m w)
    (frame : Frame U G w w') (apart : ∀ key ∈ keys, Elsewhere fs bucket key U)
    (rigid : ∀ key ∈ keys, ∀ n ∈ ownNames key, ¬ G (home fs bucket key ++ [n]))
    (settings : versioned fs bucket w' = versioned fs bucket w ∧ coded fs bucket w' = coded fs bucket w) :
    Refines P fs bucket keys coding m w' where
  unnumbered := settings.1.trans refines.unnumbered
  layout := settings.2.trans refines.layout
  backs key member := (refines.backs key member).elsewhere (family.accepted named member) frame (apart key member)
    (rigid key member) draws

omit family named in
theorem settings_same {U G : OsPath → Prop} (frame : Frame U G w w') (outside : ¬ U (bucketMetaAt fs bucket))
    (rigid : ¬ G (bucketMetaAt fs bucket)) :
    versioned fs bucket w' = versioned fs bucket w ∧ coded fs bucket w' = coded fs bucket w := by
  have record := bucketRecord_congr (frame.same outside rigid)
  exact ⟨by rw [versioned,versioned,record],by rw [coded,coded,record]⟩

/-- Calls that leave the tree as it is. -/
theorem Refines.still (draws : Draws) (refines : Refines P fs bucket keys coding m w)
    (frame : Frame (fun _ => False) (fun _ => False) w w') : Refines P fs bucket keys coding m w' :=
  refines.elsewhere family named draws frame (fun _ _ => elsewhere_none) (fun _ _ _ _ => id) (settings_same frame id id)

omit family named in
/-- Other tags in the sidecar of an object change nothing else. -/
theorem Written.retagged {version_id : Option String} {cipher : Option FrameCipher} {ck : Option Bytes} {body : Bytes}
    {record : ObjectMeta} {new : Option (List (String × String))}
    (written : Written P fs bucket key version_id cipher ck body coding record w)
    (sets : Fs.Sets (home fs bucket key ++ [metaName key]) (some (.file (.json (.object { record with tags := new })))) w w') :
    Written P fs bucket key version_id cipher ck body coding { record with tags := new } w' := by
  obtain ⟨⟨shown,described,lies⟩,version,live,spelled⟩ := written
  refine ⟨⟨sets.here,⟨described.size,described.plain,described.encrypted⟩,?_⟩,version,live,spelled⟩
  cases lies with
  | flat content named file payload =>
    refine .flat content named ?_ payload
    rw [sets.other fun same => ?_]
    · exact file
    · rw [objectAt,List.append_cancel_left_eq,List.singleton_inj] at same
      exact objectName_ne_metaName same
  | chunked data manifest holds payload =>
    refine .chunked data manifest (holds.moved fun n c file => ?_) payload
    rw [sets.other fun same => ?_]
    · exact file
    · have long := congrArg List.length same
      simp [ecAt] at long

omit family named in
theorem read_object_meta_shows {record : ObjectMeta} (accepted : Accepted bucket key)
    (read : fs.read_object_meta bucket key w = (.ok record,w')) : Shows fs bucket key record w := by
  simp only [FilesystemStorage.read_object_meta,Prog.bind_ok_iff,or_not_found,Prog.mapError_ok_iff,lift_ok_iff] at read
  obtain ⟨data,w₁,found,parsed,_⟩ := read
  have file := (Fs.read_done accepted.meta_leads found).1
  rw [from_json_object parsed] at file
  exact file

omit family named in
/-- Setting tags changes nothing, or it rewrites the sidecar it has read. -/
theorem set_tags_cases (named : validate_bucket_name bucket = .ok ()) (new : Option (List (String × String))) :
    (fs.set_tags bucket key new w).2 = w ∨ ∃ record, Shows fs bucket key record w ∧
      Fs.Sets (home fs bucket key ++ [metaName key]) (some (.file (.json (.object { record with tags := new })))) w
        (fs.set_tags bucket key new w).2 := by
  let Q (w' : World) : Prop := w' = w ∨ ∃ record, Shows fs bucket key record w ∧
    Fs.Sets (home fs bucket key ++ [metaName key]) (some (.file (.json (.object { record with tags := new })))) w w'
  show Q (fs.set_tags bucket key new w).2
  refine ends_after (Quiet.lift _) (.inl rfl) fun _ valid => ?_
  have accepted : Accepted bucket key := ⟨named,(lift_ok_iff.mp valid).1⟩
  refine ends_after (FilesystemStorage.read_object_meta_quiet bucket key) (.inl rfl) fun record read => ?_
  rcases wrote : Fs.write (meta_path fs.buckets_dir bucket key) (.json (.object { record with tags := new })) w with
    ⟨e | _,w'⟩
  · refine .inl ?_
    show (Fs.write (meta_path fs.buckets_dir bucket key) (.json (.object { record with tags := new })) w).2 = w
    rw [wrote]
    exact Fs.change_error wrote
  · refine .inr ⟨record,read_object_meta_shows accepted read,?_⟩
    show Fs.Sets _ _ w (Fs.write (meta_path fs.buckets_dir bucket key) (.json (.object { record with tags := new })) w).2
    rw [wrote]
    exact (Fs.write_done accepted.meta_leads wrote).1

omit family named in
/-- Nor do they change what is known of the object. -/
theorem Backs.retagged {entry : Option StoredObject} {record : ObjectMeta} {new : Option (List (String × String))}
    (backs : Backs P fs bucket key coding entry w) (shown : Shows fs bucket key record w)
    (sets : Fs.Sets (home fs bucket key ++ [metaName key]) (some (.file (.json (.object { record with tags := new })))) w w') :
    Backs P fs bucket key coding entry w' := by
  refine ⟨fun q within => ?_,fun flat => ?_,fun none => ?_,fun e some => ?_⟩
  · rw [sets.other fun same => ?_]
    · exact backs.clear q within
    · have short := (same ▸ within).length_le
      simp at short
  · rw [ecAt,sets.other fun same => ?_]
    · exact backs.single flat
    · rw [List.append_cancel_left_eq,List.singleton_inj] at same
      exact ecName_ne_metaName same
  · rw [Shows,backs.absent none] at shown
    cases shown
  · obtain ⟨record',cipher,written,told,few⟩ := backs.present e some
    have same : record' = record := by
      have read := written.landed.shows'
      rw [Shows,shown] at read
      simpa using read.symm
    subst same
    exact ⟨{ record' with tags := new },cipher,written.retagged sets,told,few⟩

theorem Refines.retagged (member : key ∈ keys) (draws : Draws) (refines : Refines P fs bucket keys coding m w)
    (new : Option (List (String × String))) : Refines P fs bucket keys coding m (fs.set_tags bucket key new w).2 := by
  have accepted : Accepted bucket key := family.accepted named member
  rcases @set_tags_cases fs bucket key w named new with same | ⟨record,shown,sets⟩
  · rwa [same]
  generalize (fs.set_tags bucket key new w).2 = w' at sets ⊢
  have frame : Frame (fun q => Touched fs bucket key [metaName key] (tempNames draws) [] q ∨ False) (Opened fs bucket key)
      w w' := by
    intro q outside
    by_cases here : q = home fs bucket key ++ [metaName key]
    · exact absurd (.inl (.inl ⟨metaName key,by simp,here ▸ List.prefix_refl _⟩)) outside
    · exact .inl (sets.other here)
  have whole : Function.update m key (m key) = m := Function.update_eq_self key m
  rw [← whole]
  exact refines.written family named member (by simp [ownNames]) (fun _ _ => elsewhere_none) id frame
    ((refines.backs key member).retagged shown sets)

omit family in
/-- An operation on the settings changes nothing, or it makes of the settings what it says. -/
theorem configure_cases (call : ConfigCall) : (call.run fs from_str bucket w).2 = w ∨
    ∃ r r', bucketRecord fs bucket w = some r ∧ call.change from_str bucket r = .ok r' ∧
      bucketRecord fs bucket (call.run fs from_str bucket w).2 = some r' := by
  let Q (w' : World) : Prop := w' = w ∨ ∃ r r', bucketRecord fs bucket w = some r ∧
    call.change from_str bucket r = .ok r' ∧ bucketRecord fs bucket w' = some r'
  show Q (call.run fs from_str bucket w).2
  refine ends_after (Quiet.lift _) (.inl rfl) fun _ _ => ends_after (ConfigCall.check_quiet call) (.inl rfl) fun _ _ => ?_
  refine ends_after (FilesystemStorage.read_bucket_meta_quiet bucket) (.inl rfl) fun r read => ?_
  refine ends_after (Quiet.lift _) (.inl rfl) fun r' changed => ?_
  have leads := @bucket_meta_leads fs _ (validBucket_of_validate named)
  rcases wrote : Fs.write (bucket_meta_path fs.buckets_dir bucket) (.json (.bucket r')) w with ⟨e | _,w'⟩
  · refine .inl ?_
    show (Fs.write (bucket_meta_path fs.buckets_dir bucket) (.json (.bucket r')) w).2 = w
    rw [wrote]
    exact Fs.change_error wrote
  · refine .inr ⟨r,r',((read_bucket_meta_ok_iff named).mp read).1,(lift_ok_iff.mp changed).1,?_⟩
    show bucketRecord fs bucket (Fs.write (bucket_meta_path fs.buckets_dir bucket) (.json (.bucket r')) w).2 = some r'
    rw [wrote]
    exact bucketRecord_of (Fs.write_done leads wrote).1.here

theorem Refines.configured (draws : Draws) (refines : Refines P fs bucket keys coding m w) (call : ConfigCall)
    (apart : BucketField.versioning ∉ call.fields ∧ BucketField.erasure_coding ∉ call.fields) :
    Refines P fs bucket keys coding m (call.run fs from_str bucket w).2 := by
  have frame : Frame (fun q => q = base fs.buckets_dir bucket ++ [".bucket.json"]) (fun _ => False) w
      (call.run fs from_str bucket w).2 := config_frames call w
  rcases @configure_cases fs from_str bucket w named call with same | ⟨r,r',before,changed,after⟩
  · rwa [same]
  refine refines.elsewhere family named draws frame (fun key member => ?_) (fun _ _ _ _ => id) ⟨?_,?_⟩
  · exact elsewhere_settings (family.accepted named member)
  · rw [versioned,versioned,before,after]
    exact (ConfigCall.change_others changed).1 .versioning apart.1
  · have same : r'.erasure_coding = r.erasure_coding := (ConfigCall.change_others changed).1 .erasure_coding apart.2
    rw [coded,coded,before,after,Option.elim_some,Option.elim_some,same]

theorem Refines.passive (refines : Refines P fs bucket keys coding m w) (call : BucketCall)
    (passive : call.Passive fs bucket keys w) :
    Refines P fs bucket keys coding m (call.run P fs from_str bucket draws w).2 := by
  cases call with
  | put_object key content_type body checksum encryption size => exact passive.elim
  | delete_object key => exact passive.elim
  | get_object key ck => exact refines.still family named draws (BucketCall.frame_dropped ((get_object_quiet ck).frames w))
  | head_object key => exact refines.still family named draws (BucketCall.frame_dropped (head_object_quiet.frames w))
  | create_multipart_upload key content_type algorithm spec =>
    have frame : Frame (InUpload fs bucket draws.upload_id) (fun q => q <+: uploadAt fs bucket draws.upload_id) w
        ((BucketCall.create_multipart_upload key content_type algorithm spec).run P fs from_str bucket draws w).2 :=
      BucketCall.frame_dropped (create_multipart_upload_frames content_type algorithm spec w)
    refine refines.elsewhere family named draws frame (fun key member => ?_) (fun key member n own => ?_)
      (settings_same frame (fun inside => ?_) fun above => ?_)
    · exact elsewhere_upload (family.accepted named member)
    · exact current_not_above_upload (family.accepted named member) own
    · have short := List.IsPrefix.length_le inside
      simp [uploadAt,bucketMetaAt] at short
    · rw [bucketMetaAt,uploadAt,List.prefix_append_right_inj,List.cons_prefix_cons] at above
      exact absurd above.1 (by decide)
  | upload upload_id call =>
    obtain ⟨ongoing,proper,valid⟩ := passive
    have frame : Frame (InUpload fs bucket upload_id) (fun _ => False) w
        ((BucketCall.upload upload_id call).run P fs from_str bucket draws w).2 := by
      refine (BucketCall.run_frame (.upload upload_id call) named ⟨proper,valid⟩).mono ?_ ?_
      · rintro q (inside | ⟨completes,_⟩)
        · exact inside
        · exact absurd completes ongoing
      · rintro q ⟨completes,_⟩
        exact absurd completes ongoing
    refine refines.elsewhere family named draws frame (fun key member => ?_) (fun _ _ _ _ => id)
      (settings_same frame (fun inside => ?_) id)
    · exact elsewhere_upload (family.accepted named member)
    · have short := List.IsPrefix.length_le inside
      simp [uploadAt,bucketMetaAt] at short
  | version key version_id call =>
    exact refines.still family named draws (BucketCall.frame_dropped ((BucketCall.looks_quiet passive).frames w))
  | update key call =>
    obtain ⟨member,tags⟩ := passive
    cases call with
    | put_object_tagging new => exact refines.retagged family named member draws _
    | delete_object_tagging => exact refines.retagged family named member draws _
    | put_object_retention retention => cases tags
    | put_object_legal_hold status => cases tags
  | configure call => exact refines.configured family named draws call passive

/-- Every step of the store is the step of the map. -/
theorem Refines.step {m' : ObjectMap} (sound : P.Sound) (refines : Refines P fs bucket keys coding m w)
    (step : MapStep P fs from_str bucket keys coding m w m' w') : Refines P fs bucket keys coding m' w' := by
  cases step with
  | put draws member few done => exact refines.put family named member sound few done
  | put_refused draws member other failed =>
    exact refines.temporary family named member (put_object_spares w _ w' failed fun bad => other bad.1)
  | complete draws member begun asked stored few done =>
    exact refines.complete family named member sound rfl begun asked stored few done
  | complete_refused draws members other failed =>
    rcases complete_multipart_upload_spares (fun key recorded => (family.valid key (members key recorded)).1) failed other
      with same | ⟨key,recorded,frame⟩
    · rwa [same]
    · exact refines.temporary family named (members key recorded) frame
  | delete draws member done => exact refines.delete family named member done
  | delete_refused draws other failed => exact refines.still family named draws (delete_object_spares w _ w' failed other)
  | passive draws call passive => exact refines.passive family named call passive

end Passive

/-! ### Runs -/

/-- Steps of the store, together with those of its map. -/
def MapRun (P : Primitives) (fs : FilesystemStorage) (from_str : String → Except String Json) (bucket : String)
    (keys : Set String) (coding : Bool) (start finish : ObjectMap × World) : Prop :=
  Relation.ReflTransGen (fun s s' => MapStep P fs from_str bucket keys coding s.1 s.2 s'.1 s'.2) start finish

section Runs
variable {P : Primitives} {fs : FilesystemStorage} {from_str : String → Except String Json} {bucket : String}
  {keys : Set String} {coding : Bool} {m m' : ObjectMap} {w w' : World}

/-- A bucket with nothing in the places of the keys. -/
theorem Refines.empty (unnumbered : versioned fs bucket w = false)
    (clear : ∀ key ∈ keys, ∀ q, q <+: home fs bucket key → Loose (w.tree.node q))
    (fresh : ∀ key ∈ keys, w.tree.node (metaAt fs bucket key) = none ∧ w.tree.node (ecAt fs bucket key) = none) :
    Refines P fs bucket keys (coded fs bucket w) (fun _ => none) w := by
  refine ⟨unnumbered,rfl,fun key member => ⟨clear key member,fun _ => ?_,fun _ => (fresh key member).1,nofun⟩⟩
  rw [(fresh key member).2]
  exact nofun

theorem Refines.run (sound : P.Sound) (family : Family keys) (named : validate_bucket_name bucket = .ok ())
    (refines : Refines P fs bucket keys coding m w) (later : MapRun P fs from_str bucket keys coding (m,w) (m',w')) :
    Refines P fs bucket keys coding m' w' := by
  have all : ∀ s, MapRun P fs from_str bucket keys coding (m,w) s → Refines P fs bucket keys coding s.1 s.2 := by
    intro s run
    induction run with
    | refl => exact refines
    | tail _ step ih => exact ih.step family named sound step
  exact all (m',w') later

end Runs

namespace Sample

/-- `abc` is put as `a`. -/
def first_put : Except StorageError PutResult × World :=
  fourfold.put_object primitives (draws 1) "logs" "a" "text/plain" (stream abc abc_filled abc_fits) none none none (world false)

/-- Then one zero as `b`. -/
def second_put : Except StorageError PutResult × World :=
  fourfold.put_object primitives (draws 2) "logs" "b" "text/plain" (stream [0] zero_filled zero_fits) none none none first_put.2

/-- Then `b` is deleted. -/
def put_deleted : Except StorageError DeleteResult × World :=
  fourfold.delete_object primitives (draws 3) "logs" "b" second_put.2

theorem outcome_of_isOk {E α : Type} {x : Except E α × World} (done : x.1.isOk = true) : ∃ a, x = (.ok a,x.2) := by
  rcases x with ⟨e | a,w⟩
  · cases done
  · exact ⟨a,rfl⟩

theorem letters : Family {"a","b"} := by
  constructor
  · rintro key (rfl | rfl) <;> decide +kernel
  · rintro key (rfl | rfl) other (rfl | rfl) differ <;> first | exact absurd rfl differ | decide +kernel

/-- A place with nothing but a settings file in it is free for new keys. -/
theorem letter_free : ∀ key ∈ ({"a","b"} : Set String),
    (∀ q, q <+: home fourfold "logs" key → Loose ((world false).tree.node q)) ∧
    (world false).tree.node (metaAt fourfold "logs" key) = none ∧ (world false).tree.node (ecAt fourfold "logs" key) = none := by
  have above : ∀ q ∈ ["data","logs"].inits, Loose ((world false).tree.node q) := by
    unfold Loose
    decide +kernel
  rintro key (rfl | rfl)
  · exact ⟨fun q within => above q ((List.mem_inits _ _).mpr within),by decide +kernel,by decide +kernel⟩
  · exact ⟨fun q within => above q ((List.mem_inits _ _).mpr within),by decide +kernel,by decide +kernel⟩

/-- The run of these calls, and what it makes of the empty map. -/
theorem letter_run : ∃ result result', first_put.1 = .ok result ∧
    MapRun primitives fourfold (fun _ => .error "") "logs" {"a","b"} (coded fourfold "logs" (world false))
      (fun _ => none,world false) (Function.update (Function.update (Function.update (fun _ => none) "a"
        (some ⟨result,none,abc⟩)) "b" (some ⟨result',none,[0]⟩)) "b" none,put_deleted.2) := by
  obtain ⟨result,first⟩ := outcome_of_isOk (x := first_put) (by decide +kernel)
  obtain ⟨result',second⟩ := outcome_of_isOk (x := second_put) (by decide +kernel)
  obtain ⟨_,third⟩ := outcome_of_isOk (x := put_deleted) (by decide +kernel)
  let Step := MapStep primitives fourfold (fun _ => .error "") "logs" {"a","b"} (coded fourfold "logs" (world false))
  let one : ObjectMap := Function.update (fun _ => none) "a" (some ⟨result,none,abc⟩)
  let two : ObjectMap := Function.update one "b" (some ⟨result',none,[0]⟩)
  have put_a : Step (fun _ => none) (world false) one first_put.2 := .put (draws 1) (.inl rfl) (fun _ => by decide) first
  have put_b : Step one first_put.2 two second_put.2 := .put (draws 2) (.inr rfl) (fun _ => by decide) second
  have delete_b : Step two second_put.2 (Function.update two "b" none) put_deleted.2 :=
    .delete (draws 3) (.inr rfl) third
  exact ⟨result,result',congrArg Prod.fst first,
    .tail (b := (two,second_put.2)) (.tail (b := (one,first_put.2)) (.single put_a) put_b) delete_b⟩

end Sample

end Maxio
