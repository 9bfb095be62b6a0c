import Maxio.UploadFootprint
import Maxio.Views

/-!
What the operations on an upload depend on: the directory of the upload, and for a completion the settings of the bucket
and the places of the key in the upload's record.
-/

set_option linter.unusedSimpArgs false

namespace Maxio
open FileTree (Node Tree)
open FileTree.Tree (Rooted)
open Prog (Respects)

/-- In `S` or on the way to a place in `S`. -/
def OnWay (S : OsPath → Prop) (q : OsPath) : Prop := ∃ r, S (q ++ r)

theorem onWay_rooted (S : OsPath → Prop) : Rooted (OnWay S) := by
  rintro p q ⟨rest,rfl⟩ ⟨r,inside⟩
  exact ⟨rest ++ r,by rwa [← List.append_assoc]⟩

theorem OnWay.of {S : OsPath → Prop} {q : OsPath} (inside : S q) : OnWay S q := ⟨[],by rwa [List.append_nil]⟩

/-! ### A key -/

section Key
variable {P : Primitives} {fs : FilesystemStorage} {bucket key : String} {draws : Draws} {V : OsPath → Prop}
  (rooted : Rooted V)

section Settings
variable (valid : ValidBucket bucket) (settings : V (base fs.buckets_dir bucket ++ [".bucket.json"]))
include rooted valid settings

theorem read_bucket_meta_sees : Sees V (fs.read_bucket_meta bucket) := by
  have leads := @bucket_meta_leads fs _ valid
  refine Respects.bind (Respects.lift _) fun _ => Respects.bind (Respects.mapError ?_) fun _ => Respects.lift _
  exact Fs.sees_read rooted leads.entry.forward (by rw [leads.names]; exact settings)

theorem next_version_id_sees : Sees V (fs.next_version_id draws bucket) := by
  refine Respects.bind (Sees.unwrap_or _ ?_) fun versioned => ?_
  · exact Respects.bind (read_bucket_meta_sees rooted valid settings) fun _ => Respects.pure _
  · exact Respects.ite (fun _ => Respects.pure _) fun _ => Respects.pure _

theorem effective_erasure_coding_sees : Sees V (fs.effective_erasure_coding bucket) :=
  Respects.ite (fun _ => Respects.bind (read_bucket_meta_sees rooted valid settings) fun _ => Respects.pure _)
    fun _ => Respects.pure _

end Settings

variable (accepted : Accepted bucket key)

section Own
variable (own : ∀ n ∈ ownNames key, ∀ r, V (home fs bucket key ++ [n] ++ r))
include accepted own

theorem meta_visible : Visible V (meta_path fs.buckets_dir bucket key) :=
  .of_leads accepted.meta_leads (own _ (by simp [ownNames]))

theorem ec_visible : Visible V (ec_dir fs.buckets_dir bucket key) :=
  .of_leads accepted.ec_leads (own _ (by simp [ownNames]))

theorem object_visible (dir : V (home fs bucket key)) : Visible V (object_path fs.buckets_dir bucket key) := by
  refine ⟨accepted.object_forward fs,?_,fun undotted r => ?_⟩
  · by_cases named : ends_with key "/" = true ∨ skipped (leaf key) = false
    · rw [(accepted.object_leads named).names]
      simpa using own (objectName key) (by simp [ownNames]) []
    · rw [accepted.object_spelled fs named]
      exact dir
  · rw [(accepted.object_leads (accepted.named_of_not_dotted fs undotted)).names]
    exact own _ (by simp [ownNames]) r

include rooted

theorem read_object_meta_sees : Sees V (fs.read_object_meta bucket key) := by
  have visible := meta_visible accepted own
  refine Respects.bind (Respects.mapError ?_) fun _ => Respects.lift _
  exact Fs.sees_read rooted visible.forward visible.here

theorem ensure_can_overwrite_sees (now : Int) : Sees V (fs.ensure_can_overwrite P now bucket key) := by
  have visible := meta_visible accepted own
  refine Respects.bind (Sees.unwrap_or _ (Fs.sees_try_exists rooted visible.forward visible.here)) fun found => ?_
  exact Respects.ite (fun _ => Respects.bind (read_object_meta_sees rooted accepted own) fun _ => Respects.lift _)
    fun _ => Respects.pure _

end Own

variable
  (touched : ∀ q, Touched fs bucket key (ownNames key) (tempNames draws) (versionNames draws.version_id) q → V q)
  (opened : ∀ q, Opened fs bucket key q → V q)

section
include touched

theorem own_seen (n : String) (member : n ∈ ownNames key) (r : OsPath) : V (home fs bucket key ++ [n] ++ r) :=
  touched _ (.inl ⟨n,List.mem_append_left _ member,List.prefix_append _ _⟩)

theorem temp_seen {n : String} (member : n ∈ tempNames draws) (r : OsPath) : V (home fs bucket key ++ [n] ++ r) :=
  touched _ (.inl ⟨n,List.mem_append_right _ member,List.prefix_append _ _⟩)

theorem object_temp_seen {n : String} (member : n ∈ tempNames draws) (r : OsPath) :
    V (objectDir fs bucket key ++ [n] ++ r) :=
  touched _ (.inr (.inl ⟨n,member,List.prefix_append _ _⟩))

theorem version_seen {n : String} (member : n ∈ versionNames draws.version_id) (r : OsPath) :
    V (versionsAt fs bucket key ++ [n] ++ r) :=
  touched _ (.inr (.inr ⟨n,member,List.prefix_append _ _⟩))

end

include rooted accepted touched opened

omit rooted touched in
theorem home_seen : V (home fs bucket key) := opened _ (.inl (List.prefix_refl _))

omit rooted in
theorem object_publishable : Publishable V (object_path fs.buckets_dir bucket key) draws.backup_payload := by
  have leads := accepted.temp_object_leads fs draws.backup_payload_slash
  refine ⟨object_visible accepted (own_seen touched) (home_seen accepted opened),?_,?_,Fs.last_of_named leads.entry.named⟩
  · show V (canon (objectDir fs bucket key))
    rw [accepted.objectDir_canon fs]
    exact opened _ (.inl (accepted.objectDir_above fs))
  · exact .of_leads leads (object_temp_seen touched (by simp [tempNames]))

omit rooted in
theorem ec_publishable : Publishable V (ec_dir fs.buckets_dir bucket key) draws.backup_payload := by
  have leads := accepted.temp_ec_leads fs draws.backup_payload_slash
  refine ⟨ec_visible accepted (own_seen touched),?_,?_,Fs.last_of_named leads.entry.named⟩
  · rw [accepted.ec_leads.parent,accepted.home_plain_canon fs]
    exact home_seen accepted opened
  · exact .of_leads leads (temp_seen touched (by simp [tempNames]))

omit rooted in
theorem meta_publishable : Publishable V (meta_path fs.buckets_dir bucket key) draws.backup_meta := by
  have leads := accepted.temp_meta_leads fs draws.backup_meta_slash
  refine ⟨meta_visible accepted (own_seen touched),?_,?_,Fs.last_of_named leads.entry.named⟩
  · rw [accepted.meta_leads.parent,accepted.home_plain_canon fs]
    exact home_seen accepted opened
  · exact .of_leads leads (temp_seen touched (by simp [tempNames]))

theorem publish_sees {tmp final : OsPath} {is_dir : Bool} {record : ObjectMeta}
    (payload : Publishable V final draws.backup_payload) (last : is_dir = true → final.getLast? ≠ some ".")
    (tmp_visible : Visible V tmp) : Sees V (fs.publish draws bucket key tmp final is_dir record) := by
  have leads := accepted.temp_meta_leads fs draws.tmp_meta_slash
  have side : Visible V (temp_sibling_path (meta_path fs.buckets_dir bucket key) draws.tmp_meta) :=
    .of_leads leads (temp_seen touched (by simp [tempNames]))
  refine Respects.bind (Sees.io (Fs.sees_create_dir_all rooted ?_ ?_)) fun _ => ?_
  · rw [accepted.meta_leads.parent]
    exact accepted.home_forward fs
  · rw [accepted.meta_leads.parent,accepted.home_plain_canon fs]
    exact home_seen accepted opened
  · refine with_guard_sees rooted ?_ side (Fs.last_of_named leads.entry.named)
    refine Respects.bind (Sees.io (Fs.sees_write rooted side.forward side.here _)) fun _ => ?_
    exact publish_temp_sees rooted payload last (meta_publishable accepted touched opened) tmp_visible side

theorem in_temp_ec_dir_sees {α : Type} {write : OsPath → Action α}
    (inner : ∀ tmp, Leads tmp (home fs bucket key) (tempName draws.tmp_payload) → Sees V (write tmp)) :
    Sees V (fs.in_temp_ec_dir draws bucket key write) := by
  have leads := accepted.temp_ec_leads fs draws.tmp_payload_slash
  have visible : Visible V (temp_sibling_path (ec_dir fs.buckets_dir bucket key) draws.tmp_payload) :=
    .of_leads leads (temp_seen touched (by simp [tempNames]))
  refine with_guard_sees rooted ?_ visible (Fs.last_of_named leads.entry.named)
  refine Respects.bind (Sees.io (Fs.sees_create_dir_all rooted ?_ ?_)) fun _ => ?_
  · rw [accepted.ec_leads.parent]
    exact accepted.home_forward fs
  · rw [accepted.ec_leads.parent,accepted.home_plain_canon fs]
    exact home_seen accepted opened
  · exact Respects.bind (Sees.io (Fs.sees_create_dir_all rooted visible.forward visible.here)) fun _ => inner _ leads

omit touched rooted in
theorem versions_seen : V (canon (versions_dir fs.buckets_dir bucket key)) := by
  rw [accepted.versions_canon fs]
  exact opened _ (.inr (List.prefix_refl _))

theorem write_version_sees {record : ObjectMeta} (dated : Dated draws record) :
    Sees V (fs.write_version bucket key record (object_path fs.buckets_dir bucket key)) := by
  unfold FilesystemStorage.write_version
  rcases dated with none | some'
  · rw [none]
    exact Respects.fail _
  · rw [some']
    have data := accepted.version_entry_leads fs draws.version_id_slash (by decide : '/' ∉ ".data".toList) (by decide)
    have side := accepted.version_entry_leads fs draws.version_id_slash (by decide : '/' ∉ ".meta.json".toList) (by decide)
    have data_seen := Visible.of_leads data (version_seen touched (by simp [versionNames]))
    have side_seen := Visible.of_leads side (version_seen touched (by simp [versionNames]))
    have object := object_visible accepted (own_seen touched) (home_seen accepted opened)
    refine Respects.bind (Sees.io (Fs.sees_create_dir_all rooted (accepted.versions_forward fs)
      (versions_seen accepted opened))) fun _ => ?_
    refine Respects.bind (Sees.io (Fs.sees_copy rooted object.forward object.here data_seen.forward data_seen.here))
      fun _ => ?_
    exact Sees.io (Fs.sees_write rooted side_seen.forward side_seen.here _)

theorem write_version_chunked_sees {record : ObjectMeta} (dated : Dated draws record) :
    Sees V (fs.write_version_chunked bucket key record) := by
  unfold FilesystemStorage.write_version_chunked
  rcases dated with none | some'
  · rw [none]
    exact Respects.fail _
  · rw [some']
    have chunks := accepted.version_entry_leads fs draws.version_id_slash (by decide : '/' ∉ ".ec".toList) (by decide)
    have side := accepted.version_entry_leads fs draws.version_id_slash (by decide : '/' ∉ ".meta.json".toList) (by decide)
    have all := @version_seen fs _ _ draws V touched _ (by simp [versionNames] : draws.version_id ++ ".ec" ∈ _)
    have chunks_seen := Visible.of_leads chunks all
    have side_seen := Visible.of_leads side (version_seen touched (by simp [versionNames]))
    refine Respects.bind (Sees.io (Fs.sees_create_dir_all rooted (accepted.versions_forward fs)
      (versions_seen accepted opened))) fun _ => ?_
    refine Respects.bind (Sees.io (Fs.sees_create_dir_all rooted chunks_seen.forward chunks_seen.here)) fun _ => ?_
    refine Respects.bind (copy_entries_sees rooted chunks all (ec_visible accepted (own_seen touched))
      accepted.ec_leads.entry.named) fun _ => ?_
    exact Sees.io (Fs.sees_write rooted side_seen.forward side_seen.here _)

end Key

/-! ### An upload -/

section Upload
variable {P : Primitives} {fs : FilesystemStorage} {bucket upload_id : String} {draws : Draws} {V : OsPath → Prop}
  (rooted : Rooted V) (valid : ValidBucket bucket) (names : NamesUpload upload_id)
  (upload_seen : ∀ q, InUpload fs bucket upload_id q → V q)
include rooted valid names upload_seen

omit rooted in
theorem upload_entry_visible {name : String} {p : OsPath} (leads : Leads p (uploadAt fs bucket upload_id) name) : Visible V p :=
  .of_leads leads fun r => upload_seen _ (by rw [List.append_assoc]; exact List.prefix_append _ _)

omit rooted in
theorem upload_dir_visible : Visible V (upload_dir fs.buckets_dir bucket upload_id) := by
  have plain := @uploadAt_plain fs _ _ valid names
  have spelled := canon_of_plain fun s member => (plain s member).1
  rw [upload_dir_eq valid names]
  refine ⟨fun s member => (plain s member).2,?_,fun _ r => ?_⟩
  · rw [spelled]
    exact upload_seen _ (List.prefix_refl _)
  · rw [spelled]
    exact upload_seen _ (List.prefix_append _ _)

theorem remove_upload_sees : Sees V (Fs.remove_dir_all (upload_dir fs.buckets_dir bucket upload_id)) := by
  have visible := upload_dir_visible valid names upload_seen
  refine Fs.sees_remove_dir_all rooted visible.forward visible.here ?_
  rw [upload_dir_eq valid names]
  intro last
  have dot : upload_id = "." := by simpa [uploadAt] using last
  have kept := names.kept
  rw [dot] at kept
  cases kept

theorem read_upload_meta_sees : Sees V (fs.read_upload_meta bucket upload_id) := by
  have visible := upload_entry_visible valid names upload_seen (upload_record_leads valid names)
  refine Respects.bind (Respects.mapError ?_) fun _ => Respects.lift _
  exact Fs.sees_read rooted visible.forward visible.here

theorem read_part_sees (number : Nat) : Sees V (Fs.read (part_path fs.buckets_dir bucket upload_id number)) := by
  have visible := upload_entry_visible valid names upload_seen (part_leads valid names number)
  exact Fs.sees_read rooted visible.forward visible.here

theorem write_part_record_sees (number : Nat) (body : ByteStream) (algorithm : Option ChecksumAlgorithm)
    (value : Option String) (sealed : Bool) (size : Nat) :
    Sees V (fs.write_part_record P draws bucket upload_id number body algorithm value sealed size) := by
  have part := upload_entry_visible valid names upload_seen (part_leads valid names number)
  have side := upload_entry_visible valid names upload_seen (part_record_leads valid names number)
  unfold FilesystemStorage.write_part_record
  dsimp only
  refine Respects.ite (fun _ => ?_) fun _ => Respects.bind (Respects.pure _) fun _ => ?_
  · refine Respects.bind (Sees.io (read_part_sees rooted valid names upload_seen number)) fun _ =>
      Respects.bind (Respects.pure _) fun _ => ?_
    refine Respects.bind (Respects.attempt (Fs.sees_write rooted side.forward side.here _)) fun written => ?_
    cases written with
    | error e =>
      exact Respects.bind (Sees.ignore (Fs.sees_remove_file rooted part.forward part.here)) fun _ => Respects.fail _
    | ok _ => exact Respects.pure _
  · refine Respects.bind (Respects.attempt (Fs.sees_write rooted side.forward side.here _)) fun written => ?_
    cases written with
    | error e =>
      exact Respects.bind (Sees.ignore (Fs.sees_remove_file rooted part.forward part.here)) fun _ => Respects.fail _
    | ok _ => exact Respects.pure _

theorem write_part_sees (number : Nat) (body : ByteStream) (checksum : ChecksumRequest) (cipher : Option FrameCipher) :
    Sees V (fs.write_part P draws bucket upload_id number body checksum cipher) := by
  have part := upload_entry_visible valid names upload_seen (part_leads valid names number)
  refine Respects.bind (Sees.io (Fs.sees_write rooted part.forward part.here _)) fun _ => ?_
  refine Respects.bind (pump_sees _ _ _ fun fw piece => flat_write_sees rooted part.forward part.here _ fw piece) fun fw => ?_
  refine Respects.bind (flat_finish_sees rooted part.forward part.here _ fw) fun fw => ?_
  cases check_checksum P checksum body.body with
  | error e =>
    exact Respects.bind (Sees.ignore (Fs.sees_remove_file rooted part.forward part.here)) fun _ => Respects.fail _
  | ok sum => exact write_part_record_sees rooted valid names upload_seen number body sum.1 sum.2 _ _

theorem upload_part_sees (number : Nat) (body : ByteStream) (checksum : ChecksumRequest) (customer_key : Option Bytes)
    (declared_size : Option Nat) :
    Sees V (fs.upload_part P draws bucket upload_id number body checksum customer_key declared_size) := by
  have dir := upload_dir_visible valid names upload_seen
  rw [fs.upload_part_eq]
  refine Respects.bind (Respects.lift _) fun _ => Respects.bind (Respects.lift _) fun _ =>
    Respects.bind (Respects.lift _) fun _ => ?_
  refine Respects.ite (fun _ => Respects.fail _) fun _ => ?_
  refine Respects.bind (Sees.io (Fs.sees_try_exists rooted dir.forward dir.here)) fun found =>
    Respects.ite (fun _ => Respects.fail _) fun _ => ?_
  refine Respects.bind (read_upload_meta_sees rooted valid names upload_seen) fun upload =>
    Respects.bind (Respects.lift _) fun cipher => ?_
  exact write_part_sees rooted valid names upload_seen number _ checksum cipher

theorem list_parts_sees : Sees V (fs.list_parts bucket upload_id) := by
  have dir := upload_dir_visible valid names upload_seen
  have plain := @uploadAt_plain fs _ _ valid names
  have spelled : canon (upload_dir fs.buckets_dir bucket upload_id) = uploadAt fs bucket upload_id := by
    rw [upload_dir_eq valid names,canon_of_plain fun s member => (plain s member).1]
  refine Respects.bind (Respects.lift _) fun _ => Respects.bind (Respects.lift _) fun _ => ?_
  refine Respects.bind (read_upload_meta_sees rooted valid names upload_seen) fun upload => ?_
  refine Respects.bind_of (Sees.io (Fs.sees_read_dir rooted dir.forward dir.here fun n => ?_)) fun entries w w' done => ?_
  · rw [spelled]
    exact upload_seen _ (List.prefix_append _ _)
  · refine Respects.bind (Respects.fold _ (fun parts name member => ?_) _) fun parts => Respects.pure _
    obtain ⟨kept,ahead,absent⟩ := isName_iff.mp (read_dir_names done name member)
    have entry := upload_entry_visible valid names upload_seen (upload_entry_leads valid names absent kept ahead)
    refine Respects.bind ?_ fun more => Respects.pure _
    unfold FilesystemStorage.listed_part
    refine Respects.ite (fun _ => Respects.pure _) fun _ => ?_
    refine Respects.bind (Sees.io (Fs.sees_read rooted entry.forward entry.here)) fun data => ?_
    cases from_json asPart data with
    | ok record => exact Respects.pure _
    | error e => exact Respects.pure _

theorem abort_multipart_upload_sees : Sees V (fs.abort_multipart_upload bucket upload_id) := by
  have dir := upload_dir_visible valid names upload_seen
  refine Respects.bind (Respects.lift _) fun _ => Respects.bind (Respects.lift _) fun _ => ?_
  refine Respects.bind (Sees.io (Fs.sees_try_exists rooted dir.forward dir.here)) fun found =>
    Respects.ite (fun _ => Respects.fail _) fun _ => ?_
  exact Sees.io (remove_upload_sees rooted valid names upload_seen)

theorem select_parts_sees (parts : List (Nat × String)) : Sees V (fs.select_parts bucket upload_id parts) := by
  induction parts with
  | nil => exact Respects.pure _
  | cons part rest ih =>
    have side := upload_entry_visible valid names upload_seen (part_record_leads valid names part.1)
    refine Respects.bind (Respects.bind (Respects.mapError ?_) fun _ => Respects.lift _) fun record => ?_
    · exact Fs.sees_read rooted side.forward side.here
    · refine Respects.ite (fun _ => Respects.fail _) fun _ => Respects.ite (fun _ => Respects.fail _) fun _ => ?_
      exact Respects.bind ih fun _ => Respects.pure _

theorem part_reads_sees (upload_dek : Option Bytes) (part : PartMeta) :
    Sees V (fs.part_reads P bucket upload_id upload_dek part) := by
  have read := read_part_sees rooted valid names upload_seen part.part_number
  unfold FilesystemStorage.part_reads
  dsimp only
  refine Respects.ite (fun _ => ?_) fun _ => Respects.bind (Sees.io read) fun _ => Respects.pure _
  cases upload_dek with
  | none => exact Respects.fail _
  | some dek => exact Respects.bind (Sees.io read) fun _ => Respects.pure _

theorem pump_parts_sees {α : Type} {write : α → Bytes → Action α} {dek : Option Bytes}
    (step : ∀ a piece, Sees V (write a piece)) (a : α) (digests : Bytes) (parts : List PartMeta) :
    Sees V (fs.pump_parts P bucket upload_id dek write a digests parts) := by
  induction parts generalizing a digests with
  | nil => exact Respects.pure _
  | cons part rest ih =>
    refine Respects.bind (part_reads_sees rooted valid names upload_seen dek part) fun read => ?_
    refine Respects.bind (pump_sees _ _ _ step) fun a' => ?_
    cases hex_decode (trim_quotes part.etag) with
    | none => exact Respects.fail _
    | some raw => exact ih a' _

end Upload

/-! ### Completions -/

section Completion
variable {P : Primitives} {fs : FilesystemStorage} {bucket upload_id : String} {upload : MultipartUploadMeta} {draws : Draws}
  {V : OsPath → Prop} (rooted : Rooted V) (names : NamesUpload upload_id)
  (upload_seen : ∀ q, InUpload fs bucket upload_id q → V q) (accepted : Accepted bucket upload.key)
  (settings : V (base fs.buckets_dir bucket ++ [".bucket.json"]))
  (touched : ∀ q, Touched fs bucket upload.key (ownNames upload.key) (tempNames draws) (versionNames draws.version_id) q → V q)
  (opened : ∀ q, Opened fs bucket upload.key q → V q)
include rooted names upload_seen accepted settings touched opened

theorem store_completed_chunked_sees (selected : List PartMeta) :
    Sees V (fs.store_completed_chunked P draws bucket upload_id upload selected) := by
  have valid := accepted.validBucket
  refine in_temp_ec_dir_sees rooted accepted touched opened fun tmp leads => ?_
  have all := @temp_seen fs _ _ draws V touched _ (by simp [tempNames] : tempName draws.tmp_payload ∈ _)
  refine Respects.bind (next_version_id_sees rooted valid settings) fun id => ?_
  refine Respects.bind (pump_parts_sees rooted valid names upload_seen
    (fun acc piece => write_plain_sees rooted leads all _ acc piece) _ _ _) fun acc => ?_
  refine Respects.bind (chunk_finish_sees rooted leads all _) fun cw => ?_
  refine Respects.bind (write_manifest_sees rooted leads all fs _ _ _) fun _ => ?_
  refine Respects.bind (publish_sees rooted accepted touched opened (ec_publishable accepted touched opened)
    (fun _ => Fs.last_of_named accepted.ec_leads.entry.named) (.of_leads leads all)) fun _ => Respects.pure _

theorem store_completed_chunked_encrypted_sees (spec : UploadEncryptionSpec) (selected : List PartMeta)
    (customer_key : Option Bytes) :
    Sees V (fs.store_completed_chunked_encrypted P draws bucket upload_id upload spec selected customer_key) := by
  have valid := accepted.validBucket
  refine in_temp_ec_dir_sees rooted accepted touched opened fun tmp leads => ?_
  have all := @temp_seen fs _ _ draws V touched _ (by simp [tempNames] : tempName draws.tmp_payload ∈ _)
  refine Respects.bind (next_version_id_sees rooted valid settings) fun id => ?_
  refine Respects.bind (Respects.lift _) fun upload_dek => Respects.bind (Respects.lift _) fun req => ?_
  refine Respects.bind (Respects.mapError (prepare_encryption_sees fs draws req)) fun enc => ?_
  refine Respects.bind (Respects.lift _) fun dek => Respects.bind (Respects.lift _) fun nonce => ?_
  refine Respects.bind (pump_parts_sees rooted valid names upload_seen
    (fun sw piece => sealed_write_sees rooted leads all _ _ sw piece) _ _ _) fun sw => ?_
  refine Respects.bind (sealed_finish_sees rooted leads all _ _ _) fun sw => ?_
  refine Respects.bind (write_manifest_sees rooted leads all fs _ _ _) fun _ => ?_
  refine Respects.bind (publish_sees rooted accepted touched opened (ec_publishable accepted touched opened)
    (fun _ => Fs.last_of_named accepted.ec_leads.entry.named) (.of_leads leads all)) fun _ => Respects.pure _

omit settings in
theorem store_completed_sees (selected : List PartMeta) (dek : Option Bytes) (version_id : Option String)
    (sealing : Option (EncryptionMeta × Bytes × Bytes)) :
    Sees V (fs.store_completed P draws bucket upload_id upload selected dek version_id sealing) := by
  have leads := accepted.temp_object_leads fs draws.tmp_payload_slash
  have tmp : Visible V (temp_sibling_path (object_path fs.buckets_dir bucket upload.key) draws.tmp_payload) :=
    .of_leads leads (object_temp_seen touched (by simp [tempNames]))
  have payload := object_publishable accepted touched opened
  refine Respects.bind (Sees.io (Fs.sees_create_dir_all rooted (accepted.objectDir_forward fs) payload.up)) fun _ => ?_
  refine with_guard_sees rooted ?_ tmp (Fs.last_of_named leads.entry.named)
  refine Respects.bind (Sees.io (Fs.sees_write rooted tmp.forward tmp.here _)) fun _ => ?_
  refine Respects.bind (pump_parts_sees rooted accepted.validBucket names upload_seen
    (fun fw piece => flat_write_sees rooted tmp.forward tmp.here _ fw piece) _ _ _) fun fw => ?_
  refine Respects.bind (flat_finish_sees rooted tmp.forward tmp.here _ _) fun _ => ?_
  exact Respects.bind (publish_sees rooted accepted touched opened payload (fun dir => by cases dir) tmp)
    fun _ => Respects.pure _

omit settings touched opened in
theorem finish_complete_sees {record : ObjectMeta} {write : Action Unit} (kept : Sees V write) :
    Sees V (fs.finish_complete bucket upload_id record write) := by
  refine Respects.bind (Respects.ite (fun _ => kept) fun _ => Respects.pure _) fun _ => ?_
  refine Respects.bind (Sees.io (remove_upload_sees rooted accepted.validBucket names upload_seen)) fun _ => ?_
  exact Respects.bind (index_upsert_sees fs bucket record) fun _ => Respects.pure _

/-- What a completion does once it has read the record of the upload. -/
theorem complete_recorded_sees (parts : List (Nat × String)) (customer_key : Option Bytes) : Sees V (do
    fs.ensure_can_overwrite P draws.now bucket upload.key
    let selected ← fs.select_parts bucket upload_id parts
    Prog.lift (fs.quota.check_object_size (selected.map PartMeta.size).sum)
    Prog.lift (fs.quota.check_disk_reserve (draws.available_disk_bytes 0))
    if ← fs.effective_erasure_coding bucket then
      match upload.encryption_spec with
      | some spec => do
        Prog.lift (FilesystemStorage.check_customer_key P spec customer_key)
        Prog.lift (FilesystemStorage.check_encrypted_flags true selected)
        fs.complete_multipart_chunked_encrypted P draws bucket upload_id upload spec selected customer_key
      | none => fs.complete_multipart_chunked P draws bucket upload_id upload selected
    else fs.complete_multipart_flat P draws bucket upload_id upload selected customer_key) := by
  have valid := accepted.validBucket
  refine Respects.bind (ensure_can_overwrite_sees rooted accepted (own_seen touched) _) fun _ => ?_
  refine Respects.bind (select_parts_sees rooted valid names upload_seen parts) fun selected => ?_
  refine Respects.bind (Respects.lift _) fun _ => Respects.bind (Respects.lift _) fun _ => ?_
  refine Respects.bind (effective_erasure_coding_sees rooted valid settings) fun coded => ?_
  cases coded with
  | true =>
    cases upload.encryption_spec with
    | some spec =>
      refine Respects.bind (Respects.lift _) fun _ => Respects.bind (Respects.lift _) fun _ => ?_
      refine Respects.bind_of (store_completed_chunked_encrypted_sees rooted names upload_seen accepted settings touched opened
        spec selected customer_key) fun record w w' done => ?_
      exact finish_complete_sees rooted names upload_seen accepted (write_version_chunked_sees rooted accepted touched opened
        (store_completed_chunked_encrypted_gives _ _ _ w record w' done))
    | none =>
      refine Respects.bind_of (store_completed_chunked_sees rooted names upload_seen accepted settings touched opened
        selected) fun record w w' done => ?_
      exact finish_complete_sees rooted names upload_seen accepted (write_version_chunked_sees rooted accepted touched opened
        (store_completed_chunked_gives _ w record w' done))
  | false =>
    refine Respects.bind (Respects.lift _) fun _ => Respects.bind (Respects.lift _) fun _ =>
      Respects.bind (Respects.lift _) fun dek => ?_
    have began : Sees V (fs.completion_sealing P draws upload.encryption_spec customer_key) := by
      cases upload.encryption_spec with
      | none => exact Respects.pure _
      | some spec =>
        refine Respects.bind (Respects.lift _) fun req => ?_
        refine Respects.bind (Respects.mapError (prepare_encryption_sees fs draws req)) fun enc => ?_
        exact Respects.bind (Respects.lift _) fun _ => Respects.bind (Respects.lift _) fun _ => Respects.pure _
    refine Respects.bind began fun sealing => ?_
    refine Respects.bind_of (next_version_id_sees rooted valid settings) fun version_id _ _ chosen => ?_
    refine Respects.bind_of (store_completed_sees rooted names upload_seen accepted touched opened selected dek version_id
      sealing) fun record w w' done => ?_
    refine finish_complete_sees rooted names upload_seen accepted (write_version_sees rooted accepted touched opened ?_)
    unfold Dated
    rw [store_completed_gives _ _ _ _ w record w' done]
    exact FilesystemStorage.next_version_id_done chosen

end Completion
end Maxio
