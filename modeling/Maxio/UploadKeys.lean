import Maxio.Retention
import Maxio.UploadFootprint

/-!
Requests with an `uploadId`. The path names the key that a request was permitted for, the record of the upload names the
key that is written; none of the five handlers compares the two.
-/

set_option linter.unusedSimpArgs false

namespace Maxio
open FileTree (Node Tree)

/-! ### What the handlers can touch -/

section Handlers
variable {P : Primitives} {fs : FilesystemStorage} {bucket key upload_id : String} {upload : MultipartUploadMeta}
  {draws : Draws} {params : Params} {message : UploadMessage} {w : World}

theorem ensure_bucket_exists_quiet : Quiet (fs.ensure_bucket_exists bucket) := by
  refine Quiet.bind (Quiet.mapError (head_bucket_quiet bucket)) fun found => ?_
  split
  · exact Quiet.pure _
  · exact Quiet.fail _

/-- Whatever a request with an upload id does, it touches the directory of the upload, and if it completes the upload the
    places of the key in the record. -/
theorem UploadRequest.handle_frame (uploaded : UploadStored P fs bucket upload_id upload w)
    (named : upload_id_param params = .ok upload_id) (valid : ValidBucket bucket) (request : UploadRequest) :
    Frame (CompletionTouched fs bucket upload.key upload_id draws) (Opened fs bucket upload.key) w
      (request.handle P fs draws params message bucket key w).2 := by
  have names := uploaded.names
  have within {α : Type} {m : Action α} (frames : Frames (InUpload fs bucket upload_id) (Opened fs bucket upload.key) m) :
      Frame (CompletionTouched fs bucket upload.key upload_id draws) (Opened fs bucket upload.key) w (stored m w).2 :=
    (frames w).mono (fun _ => .inr) fun _ => .inr
  have given {id : String} {w' : World}
      (found : (Prog.lift (upload_id_param params) : UploadHandler String) w = (.ok id,w')) : id = upload_id := by
    have same := (lift_ok_iff.mp found).1
    rw [named] at same
    exact (Except.ok.inj same).symm
  have last {α β : Type} {m : UploadHandler α} {f : α → β}
      (frame : Frame (CompletionTouched fs bucket upload.key upload_id draws) (Opened fs bucket upload.key) w (m w).2) :
      Frame (CompletionTouched fs bucket upload.key upload_id draws) (Opened fs bucket upload.key) w
        ((m >>= fun a => pure (f a)) w).2 := by
    rw [Prog.bind_apply]
    split
    next a w' done => rwa [done] at frame
    next e w' done => rwa [done] at frame
  cases request with
  | upload_part =>
    refine Frame.after ensure_bucket_exists_quiet fun _ _ => Frame.after (Quiet.lift _) fun id found => ?_
    rw [given found]
    refine Frame.after (Quiet.lift _) fun n _ => Frame.after (Quiet.lift _) fun ck _ => ?_
    refine Frame.after (Quiet.lift _) fun body _ => ?_
    exact last (within (upload_part_frames valid names n body _ ck _))
  | upload_part_copy =>
    refine Frame.after (Quiet.lift _) fun source _ => Frame.after (Quiet.lift _) fun id found => ?_
    rw [given found]
    refine Frame.after (Quiet.lift _) fun n _ => Frame.after ensure_bucket_exists_quiet fun _ _ => ?_
    refine Frame.after (Quiet.mapError head_object_quiet) fun src_meta _ => Frame.after (Quiet.lift _) fun range _ => ?_
    refine Frame.after (Quiet.lift _) fun ck _ => ?_
    cases range with
    | none =>
      refine Frame.after (Quiet.mapError (get_object_quiet ck)) fun reader _ => ?_
      exact last (within (upload_part_frames valid names n _ _ ck _))
    | some range =>
      refine Frame.after (Quiet.mapError (get_object_range_quiet _ _ ck)) fun reader _ => ?_
      exact last (within (upload_part_frames valid names n _ _ ck _))
  | list_parts =>
    refine Frame.after ensure_bucket_exists_quiet fun _ _ => Frame.after (Quiet.lift _) fun id _ => ?_
    exact Frame.after (Quiet.mapError list_parts_quiet) fun _ _ => Frame.refl w
  | complete_multipart_upload =>
    refine Frame.after ensure_bucket_exists_quiet fun _ _ => Frame.after (Quiet.lift _) fun id found => ?_
    rw [given found]
    refine Frame.after (Quiet.lift _) fun events _ => Frame.after (Quiet.lift _) fun parts _ => ?_
    refine Frame.after (Quiet.lift _) fun ck _ => last ?_
    exact complete_multipart_upload_frame names (read_upload_meta_stored valid uploaded) uploaded.key parts ck
  | abort_multipart_upload =>
    refine Frame.after ensure_bucket_exists_quiet fun _ _ => Frame.after (Quiet.lift _) fun id found => ?_
    rw [given found]
    exact last (within (abort_multipart_upload_frames valid names))

/-- Only a listing lists parts. -/
theorem UploadRequest.handle_lists {request : UploadRequest} (other : request ≠ .list_parts) :
    Prog.Gives (request.handle P fs draws params message bucket key) fun answer =>
      ∀ b k id parts, answer ≠ .listed b k id parts := by
  cases request with
  | upload_part =>
    refine Prog.Gives.bind fun _ => Prog.Gives.bind fun _ => Prog.Gives.bind fun _ => Prog.Gives.bind fun _ => ?_
    exact Prog.Gives.bind fun _ => Prog.Gives.bind fun _ => Prog.Gives.pure fun _ _ _ _ => nofun
  | upload_part_copy =>
    refine Prog.Gives.bind fun source => Prog.Gives.bind fun _ => Prog.Gives.bind fun _ => Prog.Gives.bind fun _ => ?_
    refine Prog.Gives.bind fun _ => Prog.Gives.bind fun range => Prog.Gives.bind fun _ => ?_
    cases range with
    | none => exact Prog.Gives.bind fun _ => Prog.Gives.bind fun _ => Prog.Gives.pure fun _ _ _ _ => nofun
    | some range => exact Prog.Gives.bind fun _ => Prog.Gives.bind fun _ => Prog.Gives.pure fun _ _ _ _ => nofun
  | list_parts => exact absurd rfl other
  | complete_multipart_upload =>
    refine Prog.Gives.bind fun _ => Prog.Gives.bind fun _ => Prog.Gives.bind fun _ => Prog.Gives.bind fun _ => ?_
    exact Prog.Gives.bind fun _ => Prog.Gives.bind fun _ => Prog.Gives.pure fun _ _ _ _ => nofun
  | abort_multipart_upload =>
    refine Prog.Gives.bind fun _ => Prog.Gives.bind fun _ => Prog.Gives.bind fun _ => Prog.Gives.pure fun _ _ _ _ => nofun

/-! ### Bound to its key -/

/-- What is asked of the requests with this upload id on the path of a key: they succeed only on the path of the upload's
    key, the key they tell is that of the path, and apart from the upload they touch no places but those of that key. -/
structure BoundToKey (P : Primitives) (fs : FilesystemStorage) (bucket upload_id : String) (upload : MultipartUploadMeta)
    (key : String) (w : World) : Prop where
  succeeds : ∀ (request : UploadRequest) draws params message answer w', upload_id_param params = .ok upload_id →
    request.handle P fs draws params message bucket key w = (.ok answer,w') → key = upload.key
  discloses : ∀ (request : UploadRequest) draws params message shown parts w', upload_id_param params = .ok upload_id →
    request.handle P fs draws params message bucket key w = (.ok (.listed bucket shown upload_id parts),w') → shown = key
  touches : ∀ (request : UploadRequest) draws params message, upload_id_param params = .ok upload_id →
    Frame (CompletionTouched fs bucket key upload_id draws) (Opened fs bucket key) w
      (request.handle P fs draws params message bucket key w).2

end Handlers

namespace Sample

/-- The query of a request with an upload id. -/
def upload_query (upload_id : String) : Params := [("uploadId".toList,upload_id.toList)]

theorem upload_query_id (upload_id : String) : upload_id_param (upload_query upload_id) = .ok upload_id := by
  have found : (upload_query upload_id).get "uploadId" = some upload_id.toList :=
    congrArg (Option.map Prod.snd) (List.find?_cons_of_pos (decide_eq_true rfl))
  rw [upload_id_param,found]
  exact congrArg Except.ok String.ofList_toList

/-- A message without a body, but for the list of a completion. -/
def completing_message (events : List XmlEvent) : UploadMessage where
  checksum := none
  customer_key := .ok none
  body := .error malformed_xml
  declared_size := none
  complete_body := .ok events
  copy_source := .error malformed_xml
  copy_source_range := none

end Sample

section Bound
variable {P : Primitives} {fs : FilesystemStorage} {bucket key upload_id : String} {upload : MultipartUploadMeta} {w : World}

/-- An upload that is there can be aborted. -/
theorem abort_multipart_upload_succeeds (named : validate_bucket_name bucket = .ok ())
    (issued : validate_upload_id upload_id = .ok ()) (uploaded : UploadStored P fs bucket upload_id upload w) :
    ∃ w', fs.abort_multipart_upload bucket upload_id w = (.ok (),w') := by
  have valid := validBucket_of_validate named
  have leads : Leads (upload_dir fs.buckets_dir bucket upload_id) (base fs.buckets_dir bucket ++ [".uploads"]) upload_id := by
    have above : PlainDir (base fs.buckets_dir bucket ++ [".uploads"]) :=
      (plain_base fs.plain valid).append fun s member => by rw [List.mem_singleton.mp member]; decide
    have spelled : uploadAt fs bucket upload_id = (base fs.buckets_dir bucket ++ [".uploads"]) ++ [upload_id] := by
      simp [uploadAt]
    rw [upload_dir_eq valid uploaded.names,spelled]
    exact leads_plain above uploaded.names.kept uploaded.names.ahead
  have spelled : (base fs.buckets_dir bucket ++ [".uploads"]) ++ [upload_id] = uploadAt fs bucket upload_id := by
    simp [uploadAt]
  have present : w.tree.node (uploadRecordAt fs bucket upload_id) ≠ none := by simp [uploaded.shown]
  have dir : w.tree.node ((base fs.buckets_dir bucket ++ [".uploads"]) ++ [upload_id]) = some .dir := by
    rw [spelled]
    exact w.tree.dir_of_prefix (List.prefix_append _ _) (by simp [uploadRecordAt]) present
  have parent : w.tree.node (base fs.buckets_dir bucket ++ [".uploads"]) = some .dir :=
    w.tree.rooted _ upload_id (by rw [dir]; simp)
  have asked : io (Fs.try_exists (upload_dir fs.buckets_dir bucket upload_id)) w = (.ok true,w) := by
    rw [io_ok_iff,Fs.try_exists_succeeds leads parent,dir]
    rfl
  have nonroot : (base fs.buckets_dir bucket ++ [".uploads"]) ++ [upload_id] ≠ [] := by simp
  obtain ⟨t,removed⟩ := FileTree.Tree.removeDirAll_ok nonroot dir
  refine ⟨{ w with tree := t },?_⟩
  have gone : Fs.remove_dir_all (upload_dir fs.buckets_dir bucket upload_id) w = (.ok (),{ w with tree := t }) := by
    rw [Fs.remove_dir_all_leads leads,Fs.change_ok_iff]
    exact ⟨t,removed,rfl⟩
  simp only [FilesystemStorage.abort_multipart_upload,Prog.bind_ok_iff,lift_ok_iff]
  exact ⟨(),w,⟨named,rfl⟩,(),w,⟨issued,rfl⟩,true,w,asked,io_ok_iff.mpr gone⟩

/-- The requests with an upload id are bound to the upload's key on the path of that key, and on no other path. -/
theorem bound_to_key_iff (named : validate_bucket_name bucket = .ok ()) (exists' : fs.head_bucket bucket w = (.ok true,w))
    (issued : validate_upload_id upload_id = .ok ()) (uploaded : UploadStored P fs bucket upload_id upload w) :
    BoundToKey P fs bucket upload_id upload key w ↔ key = upload.key := by
  have valid := validBucket_of_validate named
  constructor
  · intro bound
    obtain ⟨w',aborted⟩ := abort_multipart_upload_succeeds named issued uploaded
    have answered : UploadRequest.abort_multipart_upload.handle P fs (Sample.draws 0) (Sample.upload_query upload_id)
        (Sample.completing_message []) bucket key w = (.ok .aborted,w') := by
      simp only [UploadRequest.handle,UploadRequest.handle_abort_multipart_upload,FilesystemStorage.ensure_bucket_exists,
        Sample.upload_query_id,Prog.bind_ok_iff,lift_ok_iff,stored,Prog.mapError_ok_iff,pure_ok_iff]
      exact ⟨(),w,⟨true,w,exists',rfl⟩,upload_id,w,⟨rfl,rfl⟩,(),w',aborted,trivial,rfl⟩
    exact bound.succeeds _ _ _ _ _ _ (Sample.upload_query_id upload_id) answered
  · rintro rfl
    refine ⟨fun _ _ _ _ _ _ _ _ => rfl,fun request draws params message shown parts w' asked done => ?_,
      fun request draws params message asked => UploadRequest.handle_frame uploaded asked valid request⟩
    by_cases lists : request = .list_parts
    · subst lists
      simp only [UploadRequest.handle,UploadRequest.handle_list_parts,asked,Prog.bind_ok_iff,lift_ok_iff,
        Except.ok.injEq,stored,Prog.mapError_ok_iff,pure_ok_iff] at done
      obtain ⟨_,w₁,there,_,_,⟨rfl,rfl⟩,⟨found,parts'⟩,w₂,listed,same,rfl⟩ := done
      have unchanged := ensure_bucket_exists_quiet.state there
      subst unchanged
      have read : found = upload := by
        simp only [FilesystemStorage.list_parts,Prog.bind_ok_iff,lift_ok_iff,pure_ok_iff] at listed
        obtain ⟨_,_,⟨_,rfl⟩,_,_,⟨_,rfl⟩,record,_,reads,_,_,_,_,_,_,same,_⟩ := listed
        rw [read_upload_meta_stored valid uploaded,Prod.mk.injEq,Except.ok.injEq] at reads
        rw [(Prod.mk.inj same).1,← reads.1]
      rw [read] at same
      cases same
      rfl
    · exact absurd rfl (UploadRequest.handle_lists lists _ _ _ done bucket shown upload_id parts)

end Bound

namespace Sample

/-- The events of a part list that names the one part. -/
def list_of_abc : List XmlEvent :=
  [.Start "CompleteMultipartUpload",.Start "Part",.Start "PartNumber",.Text (some "1"),.End "PartNumber",.Start "ETag",
    .Text (some part_of_abc.etag),.End "ETag",.End "Part",.End "CompleteMultipartUpload"]

/-- The completion of the upload on the path of a key. -/
def complete_at (key : String) (w : World) : Except S3Error UploadAnswer × World :=
  UploadRequest.complete_multipart_upload.handle completing fourfold (draws 3) (upload_query begun.upload_id)
    (completing_message list_of_abc) "logs" key w

/-- Whether there is an object under a key. -/
def holds_object (key : String) (w : World) : Bool := (w.tree.node (metaAt fourfold "logs" key)).isSome

end Sample

theorem bound_to_key_abc :
    BoundToKey Sample.completing Sample.fourfold "logs" Sample.begun.upload_id Sample.begun "a"
      (Sample.upload_abc (Sample.world false)).2 := by
  have begun := Sample.begun_abc
  have there : Sample.fourfold.head_bucket "logs" (Sample.upload_abc (Sample.world false)).2 =
      (.ok true,(Sample.upload_abc (Sample.world false)).2) :=
    Prod.ext (by decide +kernel) (head_bucket_quiet "logs" _)
  exact (bound_to_key_iff (by decide +kernel) there (by decide +kernel) begun.1).mpr rfl

/-- An upload that was begun for `a` is completed on the path of `b`: the object `a` is written. -/
theorem completed_on_another_path : ∃ w, Sample.Begun w ∧ Sample.begun.key = "a" ∧ Sample.holds_object "a" w = false ∧
    (Sample.complete_at "b" w).1.isOk = true ∧ Sample.holds_object "a" (Sample.complete_at "b" w).2 = true ∧
    ¬ BoundToKey Sample.completing Sample.fourfold "logs" Sample.begun.upload_id Sample.begun "b" w := by
  have begun := Sample.begun_abc
  have ok : (Sample.complete_at "b" (Sample.upload_abc (Sample.world false)).2).1.isOk = true := by decide +kernel
  refine ⟨_,begun,rfl,by decide +kernel,ok,by decide +kernel,fun bound => ?_⟩
  obtain ⟨answer,w',done⟩ := Sample.isOk_spec ok
  have same := bound.succeeds _ _ _ _ answer w' (Sample.upload_query_id _) done
  exact absurd same (by decide)

end Maxio
