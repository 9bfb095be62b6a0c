import Maxio.UploadViews

/-!
Calls on an upload id are confined to its directory: what they can change, and what they depend on. The accepted id `.`
names the directory of all uploads instead.
-/

set_option linter.unusedSimpArgs false

namespace Maxio
open FileTree (Node Tree)

/-! ### Calls on an upload -/

/-- A storage call that names an upload. -/
inductive UploadCall where
  | upload_part (part_number : Nat) (body : ByteStream) (checksum : ChecksumRequest) (customer_key : Option Bytes)
      (declared_size : Option Nat)
  | list_parts
  | complete_multipart_upload (parts : List (Nat × String)) (customer_key : Option Bytes)
  | abort_multipart_upload

inductive UploadResult where
  | part (record : PartMeta)
  | parts (upload : MultipartUploadMeta) (parts : List PartMeta)
  | completed (result : PutResult)
  | aborted

namespace UploadCall
variable (P : Primitives) (fs : FilesystemStorage) (draws : Draws) (bucket upload_id : String)

def run : UploadCall → Action UploadResult
  | upload_part n body checksum ck size => do
    let record ← fs.upload_part P draws bucket upload_id n body checksum ck size
    pure (.part record)
  | list_parts => do
    let (upload,parts) ← fs.list_parts bucket upload_id
    pure (.parts upload parts)
  | complete_multipart_upload parts ck => do
    let result ← fs.complete_multipart_upload P draws bucket upload_id parts ck
    pure (.completed result)
  | abort_multipart_upload => do
    fs.abort_multipart_upload bucket upload_id
    pure .aborted

/-- Whether the call may make an object. -/
def completes : UploadCall → Prop
  | complete_multipart_upload _ _ => True
  | _ => False

/-- The key in the record of the upload. -/
def Recorded (w : World) (key : String) : Prop :=
  ∃ upload, fs.read_upload_meta bucket upload_id w = (.ok upload,w) ∧ upload.key = key

/-- What the call may change: the directory of the upload, and if it completes the upload the places of its key. -/
def Touches (call : UploadCall) (w : World) (q : OsPath) : Prop :=
  InUpload fs bucket upload_id q ∨ call.completes ∧ ∃ key, Recorded fs bucket upload_id w key ∧
    Touched fs bucket key (ownNames key) (tempNames draws) (versionNames draws.version_id) q

/-- Directories of the key that a completion may make. -/
def Opens (call : UploadCall) (w : World) (q : OsPath) : Prop :=
  call.completes ∧ ∃ key, Recorded fs bucket upload_id w key ∧ Opened fs bucket key q

/-- What the call may look at: what it may change, and on completion the settings of the bucket. -/
def Reads (call : UploadCall) (w : World) (q : OsPath) : Prop :=
  call.Touches fs draws bucket upload_id w q ∨ call.Opens fs bucket upload_id w q ∨
    call.completes ∧ q = base fs.buckets_dir bucket ++ [".bucket.json"]

end UploadCall

/-- Another upload, the directory of all uploads, or that of the bucket. -/
def ElsewhereInBucket (fs : FilesystemStorage) (bucket upload_id : String) (q : OsPath) : Prop :=
  q = base fs.buckets_dir bucket ∨ q = base fs.buckets_dir bucket ++ [".uploads"] ∨
    ∃ other, other ≠ upload_id ∧ uploadAt fs bucket other <+: q

/-- The calls with this id are confined to the upload of this id, in every state in which the record of the upload names
    a key that a request could have named. -/
structure Confined (P : Primitives) (fs : FilesystemStorage) (bucket upload_id : String) : Prop where
  touches : ∀ (call : UploadCall) draws w,
    (∀ key, UploadCall.Recorded fs bucket upload_id w key → validate_key key = .ok ()) →
      Frame (call.Touches fs draws bucket upload_id w) (call.Opens fs bucket upload_id w) w
        (call.run P fs draws bucket upload_id w).2
  reads : ∀ (call : UploadCall) draws w w',
    (∀ key, UploadCall.Recorded fs bucket upload_id w key → validate_key key = .ok ()) →
      SameView (OnWay (call.Reads fs draws bucket upload_id w)) w w' →
        (call.run P fs draws bucket upload_id w').1 = (call.run P fs draws bucket upload_id w).1 ∧
          SameView (OnWay (call.Reads fs draws bucket upload_id w)) (call.run P fs draws bucket upload_id w).2
            (call.run P fs draws bucket upload_id w').2
  spares : ∀ (call : UploadCall) draws w,
    (∀ key, UploadCall.Recorded fs bucket upload_id w key → validate_key key = .ok ()) →
      ∀ q, ElsewhereInBucket fs bucket upload_id q →
        (call.run P fs draws bucket upload_id w).2.tree.node q = w.tree.node q

section Confinement
variable {P : Primitives} {fs : FilesystemStorage} {bucket upload_id : String} {draws : Draws} {w w' : World}

/-- The last step of a call only wraps up its result. -/
theorem Frame.wrapped {ε α β : Type} {S G : OsPath → Prop} {m : Prog World ε α} {f : α → β}
    (frame : Frame S G w (m w).2) : Frame S G w ((m >>= fun a => pure (f a)) w).2 := by
  rw [Prog.bind_apply]
  split
  next a w' done => rwa [done] at frame
  next e w' done => rwa [done] at frame

/-- Alike in two states after a step that leaves them. -/
theorem SameView.after {V : OsPath → Prop} {ε α β : Type} {m : Prog World ε α} {f : α → Prog World ε β} (quiet : Quiet m)
    (first : Sees V m) (alike : SameView V w w')
    (second : ∀ a, m w = (.ok a,w) → (f a w').1 = (f a w).1 ∧ SameView V (f a w).2 (f a w').2) :
    ((m >>= f) w').1 = ((m >>= f) w).1 ∧ SameView V ((m >>= f) w).2 ((m >>= f) w').2 := by
  have outcome := (first w w' alike).1
  rcases left : m w with ⟨e | a,w₁⟩ <;> rcases right : m w' with ⟨e' | a',w₂⟩ <;> rw [left,right] at outcome <;>
    have same := quiet.state left <;> have same' := quiet.state right <;> subst same <;> subst same'
  · rw [Prog.bind_of_error left,Prog.bind_of_error right]
    exact ⟨congrArg Except.error (Except.error.inj outcome),alike⟩
  · cases outcome
  · cases outcome
  · obtain rfl := Except.ok.inj outcome
    rw [Prog.bind_of_ok left,Prog.bind_of_ok right]
    exact second _ left

theorem sees_at {V : OsPath → Prop} {ε α : Type} {m : Prog World ε α} (sees : Sees V m) (alike : SameView V w w') :
    (m w').1 = (m w).1 ∧ SameView V (m w).2 (m w').2 := sees w w' alike

variable (named : validate_bucket_name bucket = .ok ()) (names : NamesUpload upload_id)
include named names

theorem UploadCall.run_frame (call : UploadCall)
    (keys : ∀ key, UploadCall.Recorded fs bucket upload_id w key → validate_key key = .ok ()) :
    Frame (call.Touches fs draws bucket upload_id w) (call.Opens fs bucket upload_id w) w
      (call.run P fs draws bucket upload_id w).2 := by
  have valid := validBucket_of_validate named
  have within {α : Type} {m : Action α} (frames : Frames (InUpload fs bucket upload_id) (fun _ => False) m) :
      Frame (call.Touches fs draws bucket upload_id w) (call.Opens fs bucket upload_id w) w (m w).2 :=
    (frames w).mono (fun _ => .inl) fun _ => False.elim
  cases call with
  | upload_part n body checksum ck size => exact Frame.wrapped (within (upload_part_frames valid names n body checksum ck size))
  | list_parts => exact Frame.wrapped (within list_parts_quiet.frames)
  | abort_multipart_upload => exact Frame.wrapped (within (abort_multipart_upload_frames valid names))
  | complete_multipart_upload parts ck =>
    refine Frame.wrapped ?_
    rcases read : fs.read_upload_meta bucket upload_id w with ⟨e | upload,w₁⟩
    · -- without a record the completion ends before it has done anything
      refine Frame.after (Quiet.lift _) fun _ _ => Frame.after (Quiet.lift _) fun _ _ => ?_
      split
      next => exact Frame.refl w
      next =>
        refine Frame.after (read_upload_meta_quiet _ _) fun upload found => ?_
        rw [read] at found
        cases found
    · have same := (read_upload_meta_quiet bucket upload_id).state read
      subst same
      have recorded : UploadCall.Recorded fs bucket upload_id w₁ upload.key := ⟨upload,read,rfl⟩
      refine (complete_multipart_upload_frame names read (keys _ recorded) parts ck).mono ?_ fun q opened => ?_
      · rintro q (touched | below)
        · exact .inr ⟨trivial,_,recorded,touched⟩
        · exact .inl below
      · exact .inr ⟨trivial,_,recorded,opened⟩

theorem UploadCall.run_reads (call : UploadCall)
    (keys : ∀ key, UploadCall.Recorded fs bucket upload_id w key → validate_key key = .ok ())
    (alike : SameView (OnWay (call.Reads fs draws bucket upload_id w)) w w') :
    (call.run P fs draws bucket upload_id w').1 = (call.run P fs draws bucket upload_id w).1 ∧
      SameView (OnWay (call.Reads fs draws bucket upload_id w)) (call.run P fs draws bucket upload_id w).2
        (call.run P fs draws bucket upload_id w').2 := by
  have valid := validBucket_of_validate named
  have rooted := onWay_rooted (call.Reads fs draws bucket upload_id w)
  have seen : ∀ q, InUpload fs bucket upload_id q → OnWay (call.Reads fs draws bucket upload_id w) q :=
    fun q inside => .of (.inl (.inl inside))
  cases call with
  | upload_part n body checksum ck size =>
    exact sees_at (Prog.Respects.bind (upload_part_sees rooted valid names seen n body checksum ck size)
      fun _ => Prog.Respects.pure _) alike
  | list_parts =>
    exact sees_at (Prog.Respects.bind (list_parts_sees rooted valid names seen) fun _ => Prog.Respects.pure _) alike
  | abort_multipart_upload =>
    exact sees_at (Prog.Respects.bind (abort_multipart_upload_sees rooted valid names seen) fun _ => Prog.Respects.pure _) alike
  | complete_multipart_upload parts ck =>
    have wrapped : ∀ {m : Action PutResult} {V : OsPath → Prop},
        (m w').1 = (m w).1 ∧ SameView V (m w).2 (m w').2 →
          ((m >>= fun result => pure (UploadResult.completed result)) w').1 =
            ((m >>= fun result => pure (UploadResult.completed result)) w).1 ∧
          SameView V ((m >>= fun result => pure (UploadResult.completed result)) w).2
            ((m >>= fun result => pure (UploadResult.completed result)) w').2 := by
      rintro m V ⟨outcome,after⟩
      rw [Prog.bind_apply,Prog.bind_apply]
      rcases left : m w with ⟨e | a,w₁⟩ <;> rcases right : m w' with ⟨e' | a',w₂⟩ <;> rw [left,right] at outcome after
      · exact ⟨congrArg Except.error (Except.error.inj outcome),after⟩
      · cases outcome
      · cases outcome
      · exact ⟨congrArg (fun a => Except.ok (UploadResult.completed a)) (Except.ok.inj outcome),after⟩
    refine wrapped ?_
    refine SameView.after (Quiet.lift _) (Prog.Respects.lift _) alike fun _ _ => ?_
    refine SameView.after (Quiet.lift _) (Prog.Respects.lift _) alike fun _ _ => ?_
    split
    next => exact ⟨rfl,alike⟩
    next =>
      refine SameView.after (read_upload_meta_quiet _ _) (read_upload_meta_sees rooted valid names seen) alike
        fun upload read => ?_
      have recorded : UploadCall.Recorded fs bucket upload_id w upload.key := ⟨upload,read,rfl⟩
      refine complete_recorded_sees rooted names seen ⟨named,keys _ recorded⟩ ?_ (fun q touched => ?_) (fun q opened => ?_)
        parts ck w w' alike
      · exact .of (.inr (.inr ⟨trivial,rfl⟩))
      · exact .of (.inl (.inr ⟨trivial,_,recorded,touched⟩))
      · exact .of (.inr (.inl ⟨trivial,_,recorded,opened⟩))

omit named in
/-- A record that can be read stands in the directory of the upload. -/
theorem recorded_stands {key : String} (valid : ValidBucket bucket) (recorded : UploadCall.Recorded fs bucket upload_id w key) :
    w.tree.node (uploadRecordAt fs bucket upload_id) ≠ none := by
  obtain ⟨upload,read,_⟩ := recorded
  simp only [FilesystemStorage.read_upload_meta,Prog.bind_ok_iff,or_not_found,Prog.mapError_ok_iff] at read
  obtain ⟨content,_,found,_⟩ := read
  have shown := (Fs.read_done (upload_record_leads valid names) found).1
  rw [uploadRecordAt,shown]
  exact Option.some_ne_none _

/-- Neither another upload nor the directory of all uploads is changed. -/
theorem UploadCall.run_spares_uploads (call : UploadCall)
    (keys : ∀ key, UploadCall.Recorded fs bucket upload_id w key → validate_key key = .ok ()) {rest : OsPath}
    (apart : ¬ [upload_id] <+: rest) :
    (call.run P fs draws bucket upload_id w).2.tree.node (base fs.buckets_dir bucket ++ ".uploads" :: rest) =
      w.tree.node (base fs.buckets_dir bucket ++ ".uploads" :: rest) := by
  have outside : ∀ key, UploadCall.Recorded fs bucket upload_id w key →
      ¬ Touched fs bucket key (ownNames key) (tempNames draws) (versionNames draws.version_id)
        (base fs.buckets_dir bucket ++ ".uploads" :: rest) ∧
      ¬ Opened fs bucket key (base fs.buckets_dir bucket ++ ".uploads" :: rest) := by
    intro key recorded
    have accepted : Accepted bucket key := ⟨named,keys key recorded⟩
    exact uploads_untouched accepted accepted.validBucket (ownNames_ne_top accepted.validKey) rest
  refine (UploadCall.run_frame named names call keys).same ?_ ?_
  · rintro (below | ⟨_,key,recorded,touched⟩)
    · rw [InUpload,uploadAt,List.prefix_append_right_inj,List.cons_prefix_cons] at below
      exact apart below.2
    · exact (outside key recorded).1 touched
  · rintro ⟨_,key,recorded,opened⟩
    exact (outside key recorded).2 opened

/-- Neither another upload nor the directories above are changed. -/
theorem UploadCall.run_spares (call : UploadCall)
    (keys : ∀ key, UploadCall.Recorded fs bucket upload_id w key → validate_key key = .ok ()) {q : OsPath}
    (elsewhere : ElsewhereInBucket fs bucket upload_id q) :
    (call.run P fs draws bucket upload_id w).2.tree.node q = w.tree.node q := by
  have valid := validBucket_of_validate named
  have above := @UploadCall.run_spares_uploads P fs bucket upload_id draws w named names call keys [] (by simp)
  rcases elsewhere with rfl | rfl | ⟨other,apart,below⟩
  · have outside : ¬ call.Touches fs draws bucket upload_id w (base fs.buckets_dir bucket) := by
      rintro (below | ⟨_,key,recorded,touched⟩)
      · have short := List.IsPrefix.length_le below
        simp only [uploadAt,List.length_append,List.length_cons,List.length_nil] at short
        omega
      · rw [← List.append_nil (base fs.buckets_dir bucket)] at touched
        obtain ⟨_,⟨n,_,under⟩ | ⟨n,_,under⟩ | ⟨n,_,under⟩⟩ := touched_cases ⟨named,keys key recorded⟩ valid touched
        all_goals simp at under
    rcases (@UploadCall.run_frame P _ _ _ draws _ named names call keys) _ outside with same | ⟨⟨_,key,recorded,_⟩,_,_⟩
    · exact same
    · -- the bucket's directory holds that of the uploads, before and after
      have stands := recorded_stands names valid recorded
      have root : w.tree.node (base fs.buckets_dir bucket ++ [".uploads"]) = some .dir := by
        refine w.tree.dir_of_prefix (List.IsPrefix.trans ?_ (List.prefix_append _ _)) ?_ stands
        · exact List.prefix_append_right_inj _ |>.mpr (by simp)
        · simp [uploadRecordAt,uploadAt]
      have before := w.tree.rooted (base fs.buckets_dir bucket) ".uploads" (by rw [root]; simp)
      have after := (call.run P fs draws bucket upload_id w).2.tree.rooted (base fs.buckets_dir bucket) ".uploads"
        (by rw [above,root]; simp)
      rw [before,after]
  · exact above
  · obtain ⟨rest,rfl⟩ := below
    have spelled : uploadAt fs bucket other ++ rest = base fs.buckets_dir bucket ++ ".uploads" :: other :: rest := by
      simp [uploadAt]
    rw [spelled]
    refine UploadCall.run_spares_uploads named names call keys fun within => apart ?_
    exact (List.cons_prefix_cons.mp within).1.symm

end Confinement

/-! ### The directory of all uploads -/

section Dot
variable {P : Primitives} {fs : FilesystemStorage} {bucket : String} {draws : Draws} {w : World}

theorem upload_dir_dot (valid : ValidBucket bucket) :
    upload_dir fs.buckets_dir bucket "." = base fs.buckets_dir bucket ++ [".uploads","."] ∧
      Forward (upload_dir fs.buckets_dir bucket ".") ∧
        canon (upload_dir fs.buckets_dir bucket ".") = base fs.buckets_dir bucket ++ [".uploads"] := by
  have spelled : upload_dir fs.buckets_dir bucket "." = base fs.buckets_dir bucket ++ [".uploads","."] := by
    rw [upload_dir,uploads_dir,bucket_dir_eq valid,join_name (by decide),join_name (by decide)]
    simp
  have plain := plain_base fs.plain valid
  refine ⟨spelled,?_,?_⟩
  · rw [spelled]
    intro s member
    rcases List.mem_append.mp member with inner | last
    · exact (plain s inner).2
    · simp only [List.mem_cons,List.not_mem_nil,or_false] at last
      rcases last with rfl | rfl <;> decide
  · rw [spelled,canon_append,canon_of_plain fun s member => (plain s member).1]
    rfl

/-- An abort of the upload `.` fails, but not before all uploads are gone. -/
theorem abort_dot (named : validate_bucket_name bucket = .ok ())
    (there : w.tree.node (base fs.buckets_dir bucket ++ [".uploads"]) = some .dir) (rest : OsPath) (below : rest ≠ []) :
    ((UploadCall.abort_multipart_upload).run P fs draws bucket "." w).2.tree.node
      (base fs.buckets_dir bucket ++ ".uploads" :: rest) = none := by
  obtain ⟨spelled,forward,names⟩ := @upload_dir_dot fs bucket (validBucket_of_validate named)
  have found : Fs.stat w.tree (upload_dir fs.buckets_dir bucket ".") = .ok .dir := by
    simp only [Fs.stat,locate_forward _ forward,names,Tree.stat,bind,Except.bind]
    rw [there]
  have asked : Fs.try_exists (upload_dir fs.buckets_dir bucket ".") w = (.ok true,w) := by
    rw [Fs.try_exists,Fs.observe_ok_iff,Fs.existsAt,found]
    exact ⟨rfl,rfl⟩
  have cleared : Fs.remove_dir_all (upload_dir fs.buckets_dir bucket ".") w =
      (.error (.os .InvalidInput),{ w with tree := w.tree.clear (base fs.buckets_dir bucket ++ [".uploads"]) }) := by
    rw [Fs.remove_dir_all,if_pos (by rw [spelled]; simp),found,locate_forward _ forward,names]
  have ran : ((UploadCall.abort_multipart_upload).run P fs draws bucket "." w).2 =
      { w with tree := w.tree.clear (base fs.buckets_dir bucket ++ [".uploads"]) } := by
    have issued : validate_upload_id "." = .ok () := by decide +kernel
    have failed : fs.abort_multipart_upload bucket "." w =
        (.error (.Io (.os .InvalidInput)),{ w with tree := w.tree.clear (base fs.buckets_dir bucket ++ [".uploads"]) }) := by
      rw [FilesystemStorage.abort_multipart_upload,named,issued,Prog.lift_ok_bind,Prog.lift_ok_bind,
        Prog.bind_of_ok (io_ok_iff.mpr asked)]
      show io (Fs.remove_dir_all (upload_dir fs.buckets_dir bucket ".")) w = _
      rw [io,Prog.mapError_apply,cleared]
      rfl
    rw [UploadCall.run,Prog.bind_of_error failed]
  rw [ran,FileTree.Tree.node_clear,if_pos]
  refine ⟨?_,?_⟩
  · exact List.prefix_append_right_inj _ |>.mpr (by simp)
  · simpa using below.symm

/-- For every accepted id but the dot, the calls with this id are confined to its directory. -/
theorem upload_calls_confined_iff {upload_id : String} (named : validate_bucket_name bucket = .ok ())
    (issued : validate_upload_id upload_id = .ok ()) : Confined P fs bucket upload_id ↔ upload_id ≠ "." := by
  have valid := validBucket_of_validate named
  constructor
  · rintro confined rfl
    -- a bucket with one other upload
    have leads : Leads (uploadAt fs bucket "x") (base fs.buckets_dir bucket ++ [".uploads"]) "x" := by
      have above : PlainDir (base fs.buckets_dir bucket ++ [".uploads"]) :=
        (plain_base fs.plain valid).append fun s member => by rw [List.mem_singleton.mp member]; decide
      have spelled : uploadAt fs bucket "x" = (base fs.buckets_dir bucket ++ [".uploads"]) ++ ["x"] := by simp [uploadAt]
      rw [spelled]
      exact leads_plain above (by decide) (by decide)
    obtain ⟨w,made⟩ := @Fs.create_dir_all_succeeds (uploadAt fs bucket "x") _ _
      { tree := Sample.empty, rows := [], sealings := [] } leads fun q _ => by
        by_cases root : q = []
        · exact .inr (by simp [Sample.empty,root])
        · exact .inl (by simp [Sample.empty,root])
    have makes := Fs.create_dir_all_done leads made
    have root : w.tree.node (base fs.buckets_dir bucket ++ [".uploads"]) = some .dir := by
      rw [makes.tree,if_pos (List.prefix_append _ _)]
    have other : w.tree.node (uploadAt fs bucket "x") = some .dir := by
      rw [makes.tree,if_pos (by simp [uploadAt])]
    have gone := @abort_dot P fs bucket (Sample.draws 0) w named root ["x"] (by simp)
    have kept := confined.spares .abort_multipart_upload (Sample.draws 0) w (fun key recorded => ?_) (uploadAt fs bucket "x")
      (.inr (.inr ⟨"x",by decide,List.prefix_refl _⟩))
    · rw [other,uploadAt,gone] at kept
      cases kept
    · -- the file `.meta.json` in the directory of all uploads is missing
      obtain ⟨upload,read,_⟩ := recorded
      simp only [FilesystemStorage.read_upload_meta,Prog.bind_ok_iff,or_not_found,Prog.mapError_ok_iff] at read
      obtain ⟨content,_,found,_⟩ := read
      obtain ⟨_,forward,spelled⟩ := @upload_dir_dot fs bucket valid
      have place : Leads (upload_meta_path fs.buckets_dir bucket ".") (base fs.buckets_dir bucket ++ [".uploads"])
          ".meta.json" := by
        rw [upload_meta_path,join_name (by decide),← spelled]
        exact leads_concat forward (by decide) (by decide)
      have shown := (Fs.read_done place found).1
      rw [makes.tree,if_neg (by simp [uploadAt])] at shown
      simp [Sample.empty] at shown
  · intro proper
    have names := namesUpload_of_validate issued proper
    exact ⟨fun call draws w keys => UploadCall.run_frame named names call keys,
      fun call draws w w' keys alike => UploadCall.run_reads named names call keys alike,
      fun call draws w keys q elsewhere => UploadCall.run_spares named names call keys elsewhere⟩

end Dot

theorem upload_calls_confined_abc : Confined Sample.completing Sample.fourfold "logs" Sample.begun.upload_id :=
  (upload_calls_confined_iff (by decide +kernel) (by decide +kernel)).mpr (by decide +kernel)

/-- The id `.` is accepted, and an abort with it takes the upload of `a` away. -/
theorem abort_of_dot : ∃ w, Sample.Begun w ∧ validate_upload_id "." = .ok () ∧
    ((UploadCall.abort_multipart_upload).run Sample.completing Sample.fourfold (Sample.draws 3) "logs" "." w).2.tree.node
      (uploadRecordAt Sample.fourfold "logs" Sample.begun.upload_id) = none ∧
    ¬ Confined Sample.completing Sample.fourfold "logs" "." := by
  have begun := Sample.begun_abc
  have gone : ((UploadCall.abort_multipart_upload).run Sample.completing Sample.fourfold (Sample.draws 3) "logs" "."
      (Sample.upload_abc (Sample.world false)).2).2.tree.node
        (uploadRecordAt Sample.fourfold "logs" Sample.begun.upload_id) = none := by
    decide +kernel
  refine ⟨_,begun,by decide +kernel,gone,fun confined => ?_⟩
  have unread : (Sample.fourfold.read_upload_meta "logs" "." (Sample.upload_abc (Sample.world false)).2).1.isOk = false := by
    decide +kernel
  have kept := confined.spares .abort_multipart_upload (Sample.draws 3) (Sample.upload_abc (Sample.world false)).2
    (fun key recorded => ?_) (uploadRecordAt Sample.fourfold "logs" Sample.begun.upload_id)
    (.inr (.inr ⟨Sample.begun.upload_id,by decide +kernel,List.prefix_append _ _⟩))
  · rw [gone,begun.1.shown] at kept
    cases kept
  · obtain ⟨upload,read,_⟩ := recorded
    rw [read] at unread
    cases unread

end Maxio
