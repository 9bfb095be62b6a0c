import Maxio.Tamper
import Maxio.UploadSpec

/-!
Nonces of AES-GCM over whole runs of uploads and puts. An upload draws one nonce prefix for all its parts, and every part
counts its frames from zero.
-/

set_option linter.unusedSimpArgs false

namespace Maxio
open FileTree (Node Tree)

/-- After a step that leaves the state as it is. -/
theorem Quiet.then {ε α β : Type} {m : Prog World ε α} {f : α → Prog World ε β} {R : World → World → Prop} (quiet : Quiet m)
    {w₀ w : World} (failed : R w₀ w) (next : ∀ a, m w = (.ok a,w) → R w₀ (f a w).2) : R w₀ ((m >>= f) w).2 := by
  have same := quiet w
  rw [Prog.bind_apply]
  split
  next a w' executed =>
    rw [executed] at same
    obtain rfl : w' = w := same
    exact next a executed
  next e w' executed =>
    rw [executed] at same
    obtain rfl : w' = w := same
    exact failed

/-! ### Parts -/

/-- One call of `upload_part`. -/
structure PartCall where
  draws : Draws
  bucket : String
  upload_id : String
  part_number : Nat
  body : ByteStream
  checksum : ChecksumRequest
  customer_key : Option Bytes
  declared_size : Option Nat

namespace PartCall

def run (P : Primitives) (fs : FilesystemStorage) (call : PartCall) : Action PartMeta :=
  fs.upload_part P call.draws call.bucket call.upload_id call.part_number call.body call.checksum call.customer_key
    call.declared_size

/-- The bytes of the part, as far as the quota lets them through. -/
def bytes (fs : FilesystemStorage) (call : PartCall) : Bytes := (fs.wrap_upload_reader call.draws call.body).body

/-- The call passes its checks in the given state, finds an encrypted upload, and gets the key of that upload. -/
structure Encrypts (P : Primitives) (fs : FilesystemStorage) (call : PartCall) (upload : MultipartUploadMeta)
    (cipher : FrameCipher) (w : World) : Prop where
  bucket : validate_bucket_name call.bucket = .ok ()
  upload_id : validate_upload_id call.upload_id = .ok ()
  admitted : fs.check_upload_start call.draws call.declared_size = .ok ()
  number : ¬ (call.part_number = 0 ∨ call.part_number > 10000)
  found : fs.read_upload_meta call.bucket call.upload_id w = (.ok upload,w)
  sealing : ∃ spec, upload.encryption_spec = some spec ∧
    fs.part_cipher P spec call.upload_id call.part_number call.customer_key = .ok cipher

end PartCall

section Parts
variable {P : Primitives} {fs : FilesystemStorage}

/-- Writing a part makes frames of its body only, whatever is then done with the writer. -/
theorem write_part_seals {Q : Sealing → Prop} (cipher : Option FrameCipher) {path : OsPath} (body : ByteStream) {α : Type}
    {rest : FlatWriter → Action α} (may : ∀ c, cipher = some c → ∀ s, FrameOf c body.body s → Q s)
    (ends : ∀ fw, Seals Q (rest fw)) : Seals Q (do
      io (Fs.write path (.bytes []))
      let fw ← pump (FlatWriter.write P path cipher) map_read_quota_error body.reads body.failure FlatWriter.new
      let fw ← fw.finish P path cipher
      rest fw) := by
  refine Seals.bind (Fs.seals_write _ _ (by simp)).io fun _ => ?_
  exact Seals.bind_of (FlatWriter.pump_write_seals body _ may).1 (FlatWriter.pump_write_seals body _ may).2
    fun fw here => Seals.bind (FlatWriter.finish_seals may here) ends

/-- What the encryptions of a part call can be. -/
def PartSeals (P : Primitives) (fs : FilesystemStorage) (call : PartCall) (w w' : World) : Prop :=
  Adds (fun _ => False) w w' ∨
    ∃ upload cipher, call.Encrypts P fs upload cipher w ∧ Adds (FrameOf cipher (call.bytes fs)) w w'

/-- Whatever its outcome, a part call encrypts nothing, or frames of its body under the key of the upload it finds. -/
theorem upload_part_seals (P : Primitives) (fs : FilesystemStorage) (call : PartCall) (w : World) : PartSeals P fs call w (call.run P fs w).2 := by
  have nothing : PartSeals P fs call w w := .inl (Adds.refl w)
  refine (Quiet.lift _).then nothing fun _ valid => (Quiet.lift _).then nothing fun _ valid' => ?_
  refine (Quiet.lift _).then nothing fun _ admitted => ?_
  split
  next => exact nothing
  next number =>
    refine (Quiet.io (Quiet.observe _)).then nothing fun present _ => ?_
    split
    next => exact nothing
    next =>
      refine (read_upload_meta_quiet _ _).then nothing fun upload found => ?_
      -- once the part is written, nothing is encrypted any more
      rcases encrypted : upload.encryption_spec with _ | spec
      on_goal 1 => refine .inl (write_part_seals none (fs.wrap_upload_reader call.draws call.body)
        (fun _ none => by cases none) (fun fw => ?_) w)
      on_goal 2 =>
        refine (Quiet.lift _).then nothing fun cipher made => .inr ⟨upload,cipher,⟨(lift_ok_iff.mp valid).1,
          (lift_ok_iff.mp valid').1,(lift_ok_iff.mp admitted).1,number,found,spec,encrypted,(lift_ok_iff.mp made).1⟩,?_⟩
        refine write_part_seals (some cipher) (fs.wrap_upload_reader call.draws call.body)
          (fun c given s frame => by cases given; exact frame) (fun fw => ?_) w
      all_goals
        dsimp only
        rcases check_checksum P call.checksum (fs.wrap_upload_reader call.draws call.body).body with e | ⟨algo,value⟩
        · exact Seals.bind (Fs.seals_remove_file _).ignore fun _ => Seals.fail _
        · refine Seals.ite (fun _ => Seals.bind (Fs.seals_read _).io fun _ => Seals.bind (Seals.pure _) fun size => ?_)
            fun _ => Seals.bind (Seals.pure _) fun size => ?_
          all_goals
            refine Seals.bind (Fs.seals_write _ _ (by simp)).attempt fun written => ?_
            cases written with
            | error e => exact Seals.bind (Fs.seals_remove_file _).ignore fun _ => Seals.fail _
            | ok _ => exact Seals.pure _

end Parts

/-! ### Completions and puts -/

/-- The encryptions of a call that draws a data key and a nonce prefix of its own: wrappings, and the frames of some body
    under some additional data. -/
def DrawnSeals (draws : Draws) (made : (Nat → Bytes) × Bytes) (s : Sealing) : Prop :=
  s.frame = false ∨ FrameOf (drawnCipher draws made.1) made.2 s

section Completion
variable {P : Primitives} {fs : FilesystemStorage} {draws : Draws} {bucket upload_id : String}

/-- Reading the parts into a writer that keeps in step with the bytes it was given: it is given some body. -/
theorem pump_parts_seals (P : Primitives) (fs : FilesystemStorage) (bucket upload_id : String) {α : Type} {Q : Bytes → Sealing → Prop} {write : α → Bytes → Action α} (I : Bytes → α → Prop)
    (step : ∀ body front piece a, front ++ piece <+: body → I front a →
      Seals (Q body) (write a piece) ∧ Prog.Gives (write a piece) (I (front ++ piece)))
    (upload_dek : Option Bytes) (parts : List PartMeta) (past digests : Bytes) (a : α) (here : I past a) (w : World) :
    ∃ body, past <+: body ∧
      Adds (Q body) w (fs.pump_parts P bucket upload_id upload_dek write a digests parts w).2 ∧
      ∀ result w', fs.pump_parts P bucket upload_id upload_dek write a digests parts w = (.ok result,w') →
        I body result.1 := by
  induction parts generalizing past digests a w with
  | nil =>
    refine ⟨past,List.prefix_rfl,Adds.refl w,fun result w' done => ?_⟩
    cases done
    exact here
  | cons part rest ih =>
    rw [FilesystemStorage.pump_parts]
    have quiet := (part_reads_quiet upload_dek part : Quiet (fs.part_reads P bucket upload_id upload_dek part)) w
    rcases read : fs.part_reads P bucket upload_id upload_dek part w with ⟨e | ⟨reads,failure⟩,w₁⟩
    · rw [read] at quiet
      obtain rfl : w₁ = w := quiet
      rw [Prog.bind_of_error read]
      exact ⟨past,List.prefix_rfl,Adds.refl w₁,fun _ _ done => by cases done⟩
    · rw [read] at quiet
      obtain rfl : w₁ = w := quiet
      rw [Prog.bind_of_ok read]
      dsimp only
      have pumped (body : Bytes) (within : past ++ reads.flatten <+: body) :
          Seals (Q body) (pump write StorageError.Io reads failure a) ∧
            Prog.Gives (pump write StorageError.Io reads failure a) (I (past ++ reads.flatten)) :=
        pump_seals past I here fun front piece a inside => step body front piece a (inside.trans within)
      rcases ran : pump write StorageError.Io reads failure a w₁ with ⟨e | a',w₂⟩
      · rw [Prog.bind_of_error ran]
        have adds := (pumped _ List.prefix_rfl).1 w₁
        rw [ran] at adds
        exact ⟨past ++ reads.flatten,List.prefix_append _ _,adds,fun _ _ done => by cases done⟩
      · rw [Prog.bind_of_ok ran]
        have stands := (pumped _ List.prefix_rfl).2 w₁ a' w₂ ran
        cases decoded : hex_decode (trim_quotes part.etag) with
        | none =>
          have adds := (pumped _ List.prefix_rfl).1 w₁
          rw [ran] at adds
          exact ⟨past ++ reads.flatten,List.prefix_append _ _,adds,fun _ _ done => by simp at done⟩
        | some raw_md5 =>
          -- the body is known only when the other parts have been read
          obtain ⟨body,within,adds,ended⟩ := ih _ (digests ++ raw_md5) a' stands w₂
          have first := (pumped body within).1 w₁
          rw [ran] at first
          exact ⟨body,(List.prefix_append _ _).trans within,Adds.trans _ _ _ first adds,ended⟩

theorem finish_complete_seals {Q : Sealing → Prop} {record : ObjectMeta} {write : Action Unit} (inner : Seals Q write) :
    Seals Q (fs.finish_complete bucket upload_id record write) :=
  Seals.bind (keep_version_seals inner) fun _ => Seals.bind (Fs.seals_remove_dir_all _).io fun _ =>
    Seals.bind (index_upsert_seals _) fun _ => Seals.pure _

/-- What follows the parts under the same body. -/
theorem SealsAs.parts {α β : Type} {Q : (Nat → Bytes) × Bytes → Sealing → Prop} {write : α → Bytes → Action α}
    (I : Bytes → α → Prop) (aad : Nat → Bytes)
    (step : ∀ body front piece a, front ++ piece <+: body → I front a →
      Seals (Q (aad,body)) (write a piece) ∧ Prog.Gives (write a piece) (I (front ++ piece)))
    {upload_dek : Option Bytes} {parts : List PartMeta} {start : α} (begins : I [] start) {rest : α × Bytes → Action β}
    (ends : ∀ body result, I body result.1 → Seals (Q (aad,body)) (rest result)) :
    SealsAs Q (fs.pump_parts P bucket upload_id upload_dek write start [] parts >>= rest) := by
  intro w
  obtain ⟨body,_,adds,ended⟩ := pump_parts_seals P fs bucket upload_id (Q := fun body => Q (aad,body)) I step upload_dek parts [] [] start begins w
  refine ⟨(aad,body),?_⟩
  rw [Prog.bind_apply]
  split
  next result w' executed =>
    rw [executed] at adds
    exact Adds.trans _ _ _ adds (ends body result (ended result w' executed) w')
  next e w' executed =>
    rw [executed] at adds
    exact adds

/-- A writer that encrypts nothing. -/
theorem SealsAs.plain_parts {α β : Type} {Q : (Nat → Bytes) × Bytes → Sealing → Prop} {write : α → Bytes → Action α}
    (step : ∀ a piece, Silent (write a piece)) {upload_dek : Option Bytes} {parts : List PartMeta} {start : α}
    {rest : α × Bytes → Action β} (ends : ∀ result, Silent (rest result)) :
    SealsAs Q (fs.pump_parts P bucket upload_id upload_dek write start [] parts >>= rest) := by
  refine SealsAs.parts (fun _ _ => True) (fun _ => []) (fun body front piece a _ _ => ⟨?_,fun _ _ _ _ => trivial⟩) trivial
    fun body result _ => ?_
  · exact (step a piece).mono fun _ none => none.elim
  · exact (ends result).mono fun _ none => none.elim

theorem store_completed_chunked_seals (upload : MultipartUploadMeta) (selected : List PartMeta) :
    SealsAs (DrawnSeals draws) (fs.store_completed_chunked P draws bucket upload_id upload selected) := by
  refine SealsAs.with_guard ?_
  refine SealsAs.after (Fs.seals_create_dir_all _).io fun _ => SealsAs.after (Fs.seals_create_dir_all _).io fun _ => ?_
  refine SealsAs.after (FilesystemStorage.next_version_id_quiet _ _).seals fun _ => ?_
  refine SealsAs.plain_parts (fun _ _ => write_plain_seals _ _) fun result => ?_
  exact Seals.bind (ChunkWriter.finish_seals _) fun _ => Seals.bind (write_manifest_seals _ _ _) fun _ =>
    Seals.bind (publish_seals _ _ _ _) fun _ => Seals.pure _

theorem completion_request_key {spec : UploadEncryptionSpec} {ck : Option Bytes} {req : EncryptionRequest}
    (made : FilesystemStorage.completion_request spec ck = .ok req) : req.mode = .SseC → ck = req.customer_key := by
  intro sse
  unfold FilesystemStorage.completion_request at made
  cases mode : spec.mode with
  | SseS3 =>
    rw [mode] at made
    cases made
    cases sse
  | SseKms =>
    rw [mode] at made
    cases made
    cases sse
  | SseC =>
    rw [mode] at made
    cases ck with
    | none => cases made
    | some key =>
      cases made
      rfl

theorem prepare_encryption_drawn {i : (Nat → Bytes) × Bytes} (req : EncryptionRequest) :
    Seals (DrawnSeals draws i) (fs.prepare_encryption P draws req) :=
  prepare_encryption_seals (fun _ wraps => .inl wraps.1) draws

/-- A step whose encryptions fit whatever comes after it. -/
theorem SealsAs.after_any {α β : Type} {Q : (Nat → Bytes) × Bytes → Sealing → Prop} {m : Action α} {f : α → Action β}
    {G : α → Prop} (first : ∀ i, Seals (Q i) m) (gives : Prog.Gives m G) (next : ∀ a, G a → SealsAs Q (f a)) :
    SealsAs Q (m >>= f) := by
  intro w
  rw [Prog.bind_apply]
  split
  next a w' executed =>
    obtain ⟨i,adds⟩ := next a (gives w a w' executed) w'
    have start := first i w
    rw [executed] at start
    exact ⟨i,Adds.trans _ _ _ start adds⟩
  next e w' executed =>
    have start := first ((fun _ => []),[]) w
    rw [executed] at start
    exact ⟨_,start⟩

/-- What is prepared opens to the key and nonce prefix that were drawn. -/
theorem prepare_encryption_opens (sound : P.Sound) {req : EncryptionRequest} {ck : Option Bytes}
    (key : req.mode = .SseC → ck = req.customer_key) :
    Prog.Gives ((fs.prepare_encryption P draws req).mapError encryption_error) fun enc =>
      fs.resolve_dek P enc ck = .ok draws.dek ∧ P.b64_decode enc.nonce_prefix = some draws.nonce_prefix := by
  intro w enc w' done
  rw [Prog.mapError_ok_iff] at done
  refine ⟨(resolve_dek_prepared sound done).2.2 ck key,?_⟩
  rw [(prepare_encryption_done done).2.1,sound.base64]

theorem store_completed_chunked_encrypted_seals (sound : P.Sound) (upload : MultipartUploadMeta)
    (spec : UploadEncryptionSpec) (selected : List PartMeta) (ck : Option Bytes) :
    SealsAs (DrawnSeals draws)
      (fs.store_completed_chunked_encrypted P draws bucket upload_id upload spec selected ck) := by
  refine SealsAs.with_guard ?_
  refine SealsAs.after (Fs.seals_create_dir_all _).io fun _ => SealsAs.after (Fs.seals_create_dir_all _).io fun _ => ?_
  refine SealsAs.after (FilesystemStorage.next_version_id_quiet _ _).seals fun version_id => ?_
  refine SealsAs.after (Seals.lift _) fun upload_dek => ?_
  cases made : FilesystemStorage.completion_request spec ck with
  | error e => exact Seals.as ((fun _ => []),[]) (Seals.fail _)
  | ok req =>
    rw [Prog.lift_ok_bind]
    refine SealsAs.after_any (fun i => (prepare_encryption_drawn req).mapError)
      (prepare_encryption_opens sound (completion_request_key made)) ?_
    rintro enc ⟨resolved,decoded⟩
    simp only [resolved,decoded,Except.mapError,FilesystemStorage.required,Prog.lift_ok_bind]
    refine SealsAs.parts SealedWriter.Stands (build_frame_aad P bucket upload.key version_id)
      (fun body front piece sw within stands => ?_) SealedWriter.stands_new fun body result stands => ?_
    · exact SealedWriter.write_seals (fun s frame => .inr frame) within stands
    · exact Seals.bind (SealedWriter.finish_seals (fun s frame => .inr frame) stands) fun _ =>
        Seals.bind (write_manifest_seals _ _ _) fun _ => Seals.bind (publish_seals _ _ _ _) fun _ => Seals.pure _

theorem completion_sealing_seals (encryption_spec : Option UploadEncryptionSpec) (ck : Option Bytes)
    (i : (Nat → Bytes) × Bytes) :
    Seals (DrawnSeals draws i) (fs.completion_sealing P draws encryption_spec ck) := by
  cases encryption_spec with
  | none => exact Seals.pure _
  | some spec =>
    exact Seals.bind (Seals.lift _) fun req => Seals.bind (prepare_encryption_drawn req).mapError fun _ =>
      Seals.bind (Seals.lift _) fun _ => Seals.bind (Seals.lift _) fun _ => Seals.pure _

theorem completion_sealing_drawn (sound : P.Sound) (encryption_spec : Option UploadEncryptionSpec) (ck : Option Bytes) :
    Prog.Gives (fs.completion_sealing P draws encryption_spec ck) fun sealing =>
      ∀ s, sealing = some s → s.2 = (draws.dek, draws.nonce_prefix) := by
  cases encryption_spec with
  | none =>
    refine Prog.Gives.pure fun s given => ?_
    cases given
  | some spec =>
    refine Prog.Gives.bind_of (R := fun req => req.mode = .SseC → ck = req.customer_key) ?_ fun req key => ?_
    · intro w req w' done
      exact completion_request_key (lift_ok_iff.mp done).1
    · refine Prog.Gives.bind_of (prepare_encryption_opens sound key) ?_
      rintro enc ⟨resolved,decoded⟩
      simp only [resolved,decoded,FilesystemStorage.required,Prog.lift_ok_bind]
      refine Prog.Gives.pure fun s given => ?_
      cases given
      rfl

theorem store_completed_seals (upload : MultipartUploadMeta) (selected : List PartMeta) (upload_dek : Option Bytes)
    (version_id : Option String) {sealing : Option (EncryptionMeta × Bytes × Bytes)}
    (drawn : ∀ s, sealing = some s → s.2 = (draws.dek, draws.nonce_prefix)) :
    SealsAs (DrawnSeals draws)
      (fs.store_completed P draws bucket upload_id upload selected upload_dek version_id sealing) := by
  refine SealsAs.after (Fs.seals_create_dir_all _).io fun _ => SealsAs.with_guard ?_
  refine SealsAs.after (Fs.seals_write _ _ (by simp)).io fun _ => ?_
  have may : ∀ body c, (sealing.map fun s =>
      FrameCipher.mk s.2.1 s.2.2 (build_frame_aad P bucket upload.key version_id)) = some c → ∀ s, FrameOf c body s →
      DrawnSeals draws (build_frame_aad P bucket upload.key version_id,body) s := by
    intro body c given s frame
    obtain ⟨pair,held,rfl⟩ := Option.map_eq_some_iff.mp given
    have same := drawn pair held
    rw [Prod.ext_iff] at same
    rw [show pair.2.1 = _ from same.1,show pair.2.2 = _ from same.2] at frame
    exact .inr frame
  refine SealsAs.parts (FlatWriter.Stands _) (build_frame_aad P bucket upload.key version_id)
    (fun body front piece fw within stands => FlatWriter.write_seals (may body) within stands) (FlatWriter.stands_new _)
    fun body result stands => ?_
  exact Seals.bind (FlatWriter.finish_seals (may body) stands) fun _ =>
    Seals.bind (publish_seals _ _ _ _) fun _ => Seals.pure _

/-- Whatever its outcome, a completion wraps its data key and encrypts the frames of one body under that key. -/
theorem complete_multipart_upload_seals (fs : FilesystemStorage) (draws : Draws) (bucket upload_id : String) (sound : P.Sound) (parts : List (Nat × String)) (ck : Option Bytes) :
    SealsAs (DrawnSeals draws) (fs.complete_multipart_upload P draws bucket upload_id parts ck) := by
  have silent (e : StorageError) : SealsAs (DrawnSeals draws) (Prog.fail e : Action PutResult) :=
    Seals.as ((fun _ => []),[]) (Seals.fail _)
  refine SealsAs.after (Seals.lift _) fun _ => SealsAs.after (Seals.lift _) fun _ => ?_
  refine SealsAs.ite (fun _ => silent _) fun _ => ?_
  refine SealsAs.after (read_upload_meta_quiet _ _).seals fun upload => ?_
  refine SealsAs.after (FilesystemStorage.ensure_can_overwrite_quiet _ _ _).seals fun _ => ?_
  refine SealsAs.after (select_parts_quiet _).seals fun selected => ?_
  refine SealsAs.after (Seals.lift _) fun _ => SealsAs.after (Seals.lift _) fun _ => ?_
  refine SealsAs.after (FilesystemStorage.effective_erasure_coding_quiet _).seals fun coded => ?_
  refine SealsAs.ite (fun _ => ?_) fun _ => ?_
  · cases upload.encryption_spec with
    | none =>
      exact SealsAs.before (store_completed_chunked_seals upload selected) fun _ =>
        finish_complete_seals (write_version_chunked_seals _)
    | some spec =>
      exact SealsAs.after (Seals.lift _) fun _ => SealsAs.after (Seals.lift _) fun _ =>
        SealsAs.before (store_completed_chunked_encrypted_seals sound upload spec selected ck) fun _ =>
          finish_complete_seals (write_version_chunked_seals _)
  · refine SealsAs.after (Seals.lift _) fun _ => SealsAs.after (Seals.lift _) fun _ => ?_
    refine SealsAs.after (Seals.lift _) fun upload_dek => ?_
    refine SealsAs.after_any (completion_sealing_seals _ _) (completion_sealing_drawn sound _ _) fun sealing drawn => ?_
    refine SealsAs.after (FilesystemStorage.next_version_id_quiet _ _).seals fun version_id => ?_
    exact SealsAs.before (store_completed_seals upload selected upload_dek version_id drawn) fun _ =>
      finish_complete_seals (write_version_seals _ _)

theorem put_object_drawn (fs : FilesystemStorage) (sound : P.Sound) (call : PutCall) : SealsAs (DrawnSeals call.draws) (call.run P fs) := by
  intro w
  obtain ⟨version_id,adds⟩ := call.run_seals fs sound w
  refine ⟨(build_frame_aad P call.bucket call.key version_id,(fs.wrap_upload_reader call.draws call.body).body),?_⟩
  exact adds.mono fun s made => made.imp_left And.left

end Completion

/-! ### New uploads -/

/-- An upload record a call can have written: it names the upload, and its parts are to be encrypted under the nonce prefix
    the call drew. -/
structure CreatedBy (P : Primitives) (draws : Draws) (bucket : String) (upload : MultipartUploadMeta) : Prop where
  bucket : upload.bucket = bucket
  upload_id : upload.upload_id = draws.upload_id
  prefixed : ∀ spec, upload.encryption_spec = some spec → spec.upload_nonce_prefix = P.b64_encode draws.nonce_prefix

section Creation
variable {P : Primitives} {fs : FilesystemStorage} {draws : Draws} {bucket : String}

theorem augment_spec_seals (spec : UploadEncryptionSpec) :
    Seals (fun s => s.frame = false) (fs.augment_spec P draws spec) := by
  have may : ∀ s, Wraps fs none s → s.frame = false := fun s wraps => wraps.1
  unfold FilesystemStorage.augment_spec
  dsimp only
  cases spec.mode with
  | SseS3 => exact Seals.bind (wrap_dek_seals may _ _ _) fun _ => Seals.pure _
  | SseKms =>
    cases configured : fs.kms with
    | none => exact Seals.fail _
    | some kms => exact Seals.bind (generate_data_key_seals may configured _ _ _) fun _ => Seals.pure _
  | SseC => exact Seals.pure _

/-- Creating an upload encrypts no frame, and makes at most one record. -/
structure Creates (P : Primitives) (draws : Draws) (bucket : String) (w w' : World) : Prop where
  frameless : ∀ s ∈ w'.sealings, s.frame = true → s ∈ w.sealings
  records : ∀ q upload, w'.tree.node q = some (.file (.json (.upload upload))) →
    (∃ p, w.tree.node p = some (.file (.json (.upload upload)))) ∨ CreatedBy P draws bucket upload

theorem Adds.creates {w w' : World} (adds : Adds (fun s => s.frame = false) w w') : Creates P draws bucket w w' := by
  refine ⟨fun s member frame => ?_,fun q upload here => .inl (adds.unmade q upload here)⟩
  rcases adds.mem member with made | old
  · rw [made] at frame
    cases frame
  · exact old

theorem Creates.after {w w₁ w' : World} (adds : Adds (fun s => s.frame = false) w w₁)
    (creates : Creates P draws bucket w₁ w') : Creates P draws bucket w w' := by
  have before : Creates P draws bucket w w₁ := adds.creates
  refine ⟨fun s member frame => before.frameless s (creates.frameless s member frame) frame,fun q upload here => ?_⟩
  rcases creates.records q upload here with ⟨p,old⟩ | made
  · exact before.records p upload old
  · exact .inr made

theorem Creates.bind {α β : Type} {m : Action α} {f : α → Action β} {G : α → Prop}
    (first : Seals (fun s => s.frame = false) m) (gives : Prog.Gives m G)
    (next : ∀ a w, G a → Creates P draws bucket w (f a w).2) (w : World) : Creates P draws bucket w ((m >>= f) w).2 := by
  have adds := first w
  rw [Prog.bind_apply]
  split
  next a w' executed =>
    rw [executed] at adds
    exact Creates.after adds (next a w' (gives w a w' executed))
  next e w' executed =>
    rw [executed] at adds
    exact adds.creates

/-- The last step of a creation writes the record. -/
theorem write_record_creates {path : OsPath} {upload : MultipartUploadMeta} (created : CreatedBy P draws bucket upload)
    (w : World) : Creates P draws bucket w
      ((do io (Fs.write path (.json (.upload upload))); pure upload : Action MultipartUploadMeta) w).2 := by
  rw [Prog.bind_apply]
  have same : Creates P draws bucket w w := (Adds.refl w).creates
  have state : Creates P draws bucket w (io (Fs.write path (.json (.upload upload))) w).2 := by
    simp only [io,Prog.mapError_apply,Fs.write,Fs.change]
    split
    next t done =>
      refine ⟨fun s member _ => member,fun q upload' here => ?_⟩
      obtain ⟨q',_,written⟩ := Fs.bind_done done
      obtain ⟨_,_,_,nodes⟩ := Tree.write_inv written
      dsimp only at here
      rw [nodes] at here
      split at here
      · cases here
        exact .inr created
      · exact .inl ⟨q,here⟩
    next => exact same
  split
  next a w' executed => rw [executed] at state; exact state
  next e w' executed => rw [executed] at state; exact state

theorem create_multipart_upload_creates (key content_type : String) (checksum_algorithm : Option ChecksumAlgorithm)
    (encryption_spec : Option UploadEncryptionSpec) (w : World) :
    Creates P draws bucket w
      (fs.create_multipart_upload P draws bucket key content_type checksum_algorithm encryption_spec w).2 := by
  refine Creates.bind (Seals.lift _) (fun _ _ _ _ => trivial) (fun _ w _ => ?_) w
  refine Creates.bind (Seals.lift _) (fun _ _ _ _ => trivial) (fun _ w _ => ?_) w
  refine Creates.bind (Fs.seals_create_dir_all _).io (fun _ _ _ _ => trivial) (fun _ w _ => ?_) w
  cases encryption_spec with
  | none =>
    refine write_record_creates ?_ w
    exact ⟨rfl,rfl,fun spec given => by cases given⟩
  | some spec =>
    refine Creates.bind (augment_spec_seals spec) (augment_spec_prefixed spec) (fun spec' w prefixed => ?_) w
    refine write_record_creates ?_ w
    exact ⟨rfl,rfl,fun spec given => by cases given; exact prefixed⟩

end Creation

/-! ### Runs -/

/-- A call that can encrypt. -/
inductive SealingCall where
  | create (draws : Draws) (bucket key content_type : String) (checksum_algorithm : Option ChecksumAlgorithm)
      (encryption_spec : Option UploadEncryptionSpec)
  | part (call : PartCall)
  | complete (draws : Draws) (bucket upload_id : String) (parts : List (Nat × String)) (customer_key : Option Bytes)
  | put (call : PutCall)

namespace SealingCall

/-- The state a call leaves behind, whether or not it succeeds. -/
def after (P : Primitives) (fs : FilesystemStorage) : SealingCall → World → World
  | .create draws bucket key content_type algorithm spec,w =>
    (fs.create_multipart_upload P draws bucket key content_type algorithm spec w).2
  | .part call,w => (call.run P fs w).2
  | .complete draws bucket upload_id parts customer_key,w =>
    (fs.complete_multipart_upload P draws bucket upload_id parts customer_key w).2
  | .put call,w => (call.run P fs w).2

/-- The nonce prefix a call generates. -/
def drawn : SealingCall → List Bytes
  | .create draws .. => [draws.nonce_prefix]
  | .part _ => []
  | .complete draws .. => [draws.nonce_prefix]
  | .put call => [call.draws.nonce_prefix]

end SealingCall

/-- The state after a run. -/
def after_calls (P : Primitives) (fs : FilesystemStorage) : List SealingCall → World → World
  | [],w => w
  | call :: rest,w => after_calls P fs rest (call.after P fs w)

/-- No two different frames were encrypted under one key with one nonce. -/
def NoncesUnique (w : World) : Prop :=
  ∀ s ∈ w.sealings, ∀ s' ∈ w.sealings, s.frame = true → s'.frame = true → s.key = s'.key → s.nonce = s'.nonce → s = s'

/-- Before anything was encrypted or any upload begun. -/
structure Untouched (w : World) : Prop where
  sealings : w.sealings = []
  uploads : ∀ q upload, w.tree.node q ≠ some (.file (.json (.upload upload)))

/-- The second call repeats the first: it names the same part, and the frames of the two agree as far as both go. -/
structure PartCall.Repeats (fs : FilesystemStorage) (call call' : PartCall) : Prop where
  upload_id : call.upload_id = call'.upload_id
  number : call.part_number = call'.part_number
  frames : ∀ (i : Nat) (message message' : Bytes), (Chunking.pieces FRAME_CHUNK_SIZE (call.bytes fs))[i]? = some message →
    (Chunking.pieces FRAME_CHUNK_SIZE (call'.bytes fs))[i]? = some message' → message = message'

/-- No encrypted upload of the run receives two parts with any bytes in them, except for one part sent again. -/
def PartsApart (P : Primitives) (fs : FilesystemStorage) (calls : List SealingCall) (w₀ : World) : Prop :=
  ∀ front middle back call call' upload upload' cipher cipher',
    calls = front ++ .part call :: (middle ++ .part call' :: back) →
    call.Encrypts P fs upload cipher (after_calls P fs front w₀) →
    call'.Encrypts P fs upload' cipher' (after_calls P fs (front ++ .part call :: middle) w₀) →
    upload.bucket = upload'.bucket → upload.upload_id = upload'.upload_id →
    call.bytes fs = [] ∨ call'.bytes fs = [] ∨ call.Repeats fs call'

section Runs
variable {P : Primitives} {fs : FilesystemStorage} {w₀ : World}

theorem after_calls_append (front back : List SealingCall) (w : World) :
    after_calls P fs (front ++ back) w = after_calls P fs back (after_calls P fs front w) := by
  induction front generalizing w with
  | nil => rfl
  | cons call rest ih => exact ih _

/-- The frames of one call: under which cipher, of which bytes, and for a part call the upload it found. -/
structure FrameOrigin where
  cipher : FrameCipher
  body : Bytes
  part : Option (PartCall × MultipartUploadMeta)

/-- Two origins never give two different frames of one nonce. -/
def FrameOrigin.Compatible (o o' : FrameOrigin) : Prop := o.cipher.nonce_prefix = o'.cipher.nonce_prefix →
  ∀ (i : Nat) (message message' : Bytes), (Chunking.pieces FRAME_CHUNK_SIZE o.body)[i]? = some message →
    (Chunking.pieces FRAME_CHUNK_SIZE o'.body)[i]? = some message' → o.cipher.aad i = o'.cipher.aad i ∧ message = message'

/-- Where the frames of a run come from: a put or completion with a prefix of its own, or a part call under the prefix its
    upload was created with. -/
inductive FrameOrigin.From (P : Primitives) (fs : FilesystemStorage) (w₀ : World) (past : List SealingCall) : FrameOrigin → Prop where
  | complete (draws : Draws) (bucket upload_id : String) (parts : List (Nat × String)) (customer_key : Option Bytes)
      (aad : Nat → Bytes) (body : Bytes) (listed : .complete draws bucket upload_id parts customer_key ∈ past) :
      From P fs w₀ past ⟨drawnCipher draws aad,body,none⟩
  | put (call : PutCall) (aad : Nat → Bytes) (body : Bytes) (listed : .put call ∈ past) :
      From P fs w₀ past ⟨drawnCipher call.draws aad,body,none⟩
  | part (front back : List SealingCall) (call : PartCall) (upload : MultipartUploadMeta) (cipher : FrameCipher)
      (draws : Draws) (bucket key content_type : String) (algorithm : Option ChecksumAlgorithm)
      (spec : Option UploadEncryptionSpec) (split : past = front ++ .part call :: back)
      (encrypts : call.Encrypts P fs upload cipher (after_calls P fs front w₀))
      (listed : .create draws bucket key content_type algorithm spec ∈ past) (created : CreatedBy P draws bucket upload)
      (prefixed : cipher.nonce_prefix = draws.nonce_prefix) : From P fs w₀ past ⟨cipher,call.bytes fs,some (call,upload)⟩

/-- What is known after a run: every upload record was written by one of its creations, and every frame has an origin. -/
structure Ledger (P : Primitives) (fs : FilesystemStorage) (w₀ : World) (past : List SealingCall) (w : World) : Prop where
  uploads : ∀ q upload, w.tree.node q = some (.file (.json (.upload upload))) →
    ∃ draws bucket key content_type algorithm spec, .create draws bucket key content_type algorithm spec ∈ past ∧
      CreatedBy P draws bucket upload
  frames : ∃ origins : List FrameOrigin, (∀ s ∈ w.sealings, s.frame = true → ∃ o ∈ origins, FrameOf o.cipher o.body s) ∧
    (∀ o ∈ origins, o.From P fs w₀ past) ∧ ∀ o ∈ origins, ∀ o' ∈ origins, o.Compatible o'

theorem FrameOrigin.From.append {past : List SealingCall} {o : FrameOrigin} (source : o.From P fs w₀ past) (call : SealingCall) :
    o.From P fs w₀ (past ++ [call]) := by
  cases source with
  | complete draws bucket upload_id parts customer_key aad body listed =>
    exact .complete draws bucket upload_id parts customer_key aad body (List.mem_append_left _ listed)
  | put call aad body listed => exact .put call aad body (List.mem_append_left _ listed)
  | part front back call' upload cipher draws bucket key content_type algorithm spec split encrypts listed created prefixed =>
    refine .part front (back ++ [call]) call' upload cipher draws bucket key content_type algorithm spec ?_ encrypts
      (List.mem_append_left _ listed) created prefixed
    rw [split,List.append_assoc,List.cons_append]

theorem FrameOrigin.Compatible.symm {o o' : FrameOrigin} (compatible : o.Compatible o') : o'.Compatible o := by
  intro same i message message' here there
  obtain ⟨aad,equal⟩ := compatible same.symm i message' message there here
  exact ⟨aad.symm,equal.symm⟩

theorem FrameOrigin.Compatible.refl (o : FrameOrigin) : o.Compatible o := by
  intro _ i message message' here there
  rw [here] at there
  exact ⟨rfl,Option.some.inj there⟩

/-- Every prefix in use was drawn by a call of the run. -/
theorem FrameOrigin.From.listed {past : List SealingCall} {o : FrameOrigin} (source : o.From P fs w₀ past) :
    ∃ call ∈ past, o.cipher.nonce_prefix ∈ call.drawn := by
  cases source with
  | complete draws bucket upload_id parts customer_key aad body listed => exact ⟨_,listed,by simp [SealingCall.drawn,drawnCipher]⟩
  | put call aad body listed => exact ⟨_,listed,by simp [SealingCall.drawn,drawnCipher]⟩
  | part front back call upload cipher draws bucket key content_type algorithm spec split encrypts listed created prefixed =>
    exact ⟨_,listed,by simp [SealingCall.drawn,prefixed]⟩

theorem FrameOrigin.From.eight {past : List SealingCall} {o : FrameOrigin} (source : o.From P fs w₀ past) :
    o.cipher.nonce_prefix.length = 8 := by
  cases source with
  | complete draws => exact draws.prefix_length
  | put call => exact call.draws.prefix_length
  | part front back call upload cipher draws bucket key content_type algorithm spec split encrypts listed created prefixed =>
    rw [show (FrameOrigin.mk cipher (call.bytes fs) (some (call,upload))).cipher = cipher from rfl,prefixed]
    exact draws.prefix_length

/-- No two calls of a run draw one prefix. -/
theorem drawn_once {calls : List SealingCall} (distinct : (calls.flatMap SealingCall.drawn).Nodup) {call call' : SealingCall}
    (listed : call ∈ calls) (listed' : call' ∈ calls) {drew : Bytes} (by_one : drew ∈ call.drawn) (by_other : drew ∈ call'.drawn) :
    call = call' := by
  by_contra other
  have : Std.Symm (Function.onFun List.Disjoint SealingCall.drawn) := ⟨fun _ _ disjoint => disjoint.symm⟩
  exact (List.nodup_flatMap.mp distinct).2.forall listed listed' other by_one by_other

/-- A call that adds no frame. -/
theorem Ledger.keep {past : List SealingCall} {w w' : World} (ledger : Ledger P fs w₀ past w) (call : SealingCall)
    (frameless : ∀ s ∈ w'.sealings, s.frame = true → s ∈ w.sealings)
    (uploads : ∀ q upload, w'.tree.node q = some (.file (.json (.upload upload))) →
      ∃ draws bucket key content_type algorithm spec,
        .create draws bucket key content_type algorithm spec ∈ past ++ [call] ∧ CreatedBy P draws bucket upload) :
    Ledger P fs w₀ (past ++ [call]) w' := by
  obtain ⟨origins,covers,sources,compatible⟩ := ledger.frames
  refine ⟨uploads,origins,fun s member frame => covers s (frameless s member frame) frame,?_,compatible⟩
  exact fun o listed => (sources o listed).append call

/-- A call that adds the frames of one more origin. -/
theorem Ledger.extend {past : List SealingCall} {w w' : World} (ledger : Ledger P fs w₀ past w) (call : SealingCall)
    (o : FrameOrigin) (source : o.From P fs w₀ (past ++ [call])) (adds : Adds (fun s => s.frame = true → FrameOf o.cipher o.body s) w w')
    (fits : ∀ o' : FrameOrigin, o'.From P fs w₀ past → o.Compatible o') : Ledger P fs w₀ (past ++ [call]) w' := by
  obtain ⟨origins,covers,sources,compatible⟩ := ledger.frames
  refine ⟨fun q upload here => ?_,o :: origins,fun s member frame => ?_,fun o' listed => ?_,fun o₁ listed₁ o₂ listed₂ => ?_⟩
  · obtain ⟨p,old⟩ := adds.unmade q upload here
    obtain ⟨draws,bucket,key,content_type,algorithm,spec,listed,created⟩ := ledger.uploads p upload old
    exact ⟨draws,bucket,key,content_type,algorithm,spec,List.mem_append_left _ listed,created⟩
  · rcases adds.mem member with made | old
    · exact ⟨o,List.mem_cons_self,made frame⟩
    · obtain ⟨o',listed,of⟩ := covers s old frame
      exact ⟨o',List.mem_cons_of_mem _ listed,of⟩
  · rcases List.mem_cons.mp listed with rfl | old
    · exact source
    · exact (sources o' old).append call
  · rcases List.mem_cons.mp listed₁ with rfl | old₁
    · rcases List.mem_cons.mp listed₂ with rfl | old₂
      · exact FrameOrigin.Compatible.refl _
      · exact fits o₂ (sources o₂ old₂)
    · rcases List.mem_cons.mp listed₂ with rfl | old₂
      · exact (fits o₁ (sources o₁ old₁)).symm
      · exact compatible o₁ old₁ o₂ old₂

/-- A call with a prefix of its own. -/
theorem Ledger.drawn {past : List SealingCall} {w w' : World} (ledger : Ledger P fs w₀ past w) (call : SealingCall)
    (distinct : ((past ++ [call]).flatMap SealingCall.drawn).Nodup) {draws : Draws} (draw : call.drawn = [draws.nonce_prefix])
    {made : (Nat → Bytes) × Bytes} (source : FrameOrigin.From P fs w₀ (past ++ [call]) ⟨drawnCipher draws made.1,made.2,none⟩)
    (adds : Adds (DrawnSeals draws made) w w') : Ledger P fs w₀ (past ++ [call]) w' := by
  refine ledger.extend call _ source (adds.mono fun s sealed frame => ?_) fun o' earlier same => ?_
  · rcases sealed with wraps | of
    · rw [wraps] at frame
      cases frame
    · exact of
  · obtain ⟨other,listed,drew⟩ := earlier.listed
    rw [← same] at drew
    rw [List.flatMap_append,List.nodup_append] at distinct
    exact absurd rfl (distinct.2.2 draws.nonce_prefix (List.mem_flatMap.mpr ⟨other,listed,drew⟩) draws.nonce_prefix
      (by simp [draw]))

theorem read_upload_meta_found {bucket upload_id : String} {upload : MultipartUploadMeta} {w w' : World}
    (read : fs.read_upload_meta bucket upload_id w = (.ok upload,w')) :
    ∃ q, w.tree.node q = some (.file (.json (.upload upload))) := by
  simp only [FilesystemStorage.read_upload_meta,or_not_found,Prog.bind_ok_iff,Prog.mapError_ok_iff,lift_ok_iff] at read
  obtain ⟨data,_,here,parsed,_⟩ := read
  obtain ⟨q,node⟩ := Fs.readAt_file (Fs.observe_ok_iff.mp here).1
  refine ⟨q,?_⟩
  rw [node]
  unfold from_json at parsed
  split at parsed
  next record =>
    cases record with
    | upload m => cases parsed; rfl
    | _ => cases parsed
  next => cases parsed

/-- The frames of a part call against those of an earlier one, or of a put or completion. -/
theorem part_fits {past : List SealingCall} {call : PartCall} {upload : MultipartUploadMeta}
    {cipher : FrameCipher} (distinct : (past.flatMap SealingCall.drawn).Nodup)
    (apart : PartsApart P fs (past ++ [.part call]) w₀) (encrypts : call.Encrypts P fs upload cipher (after_calls P fs past w₀))
    {draws : Draws} {bucket key content_type : String} {algorithm : Option ChecksumAlgorithm}
    {spec : Option UploadEncryptionSpec} (listed : .create draws bucket key content_type algorithm spec ∈ past)
    (created : CreatedBy P draws bucket upload) (prefixed : cipher.nonce_prefix = draws.nonce_prefix) {o : FrameOrigin}
    (earlier : o.From P fs w₀ past) : FrameOrigin.Compatible ⟨cipher,call.bytes fs,some (call,upload)⟩ o := by
  intro same i message message' here there
  have drew : draws.nonce_prefix ∈ (SealingCall.create draws bucket key content_type algorithm spec).drawn := by
    simp [SealingCall.drawn]
  have shared : o.cipher.nonce_prefix = draws.nonce_prefix := same.symm.trans prefixed
  cases earlier with
  | complete draws' bucket' upload_id parts customer_key aad body listed' =>
    cases drawn_once distinct listed listed' drew (by rw [← shared]; simp [SealingCall.drawn,drawnCipher])
  | put call' aad body listed' =>
    cases drawn_once distinct listed listed' drew (by rw [← shared]; simp [SealingCall.drawn,drawnCipher])
  | part front back call' upload' cipher' draws' bucket' key' content_type' algorithm' spec' split encrypts' listed' created'
      prefixed' =>
    cases drawn_once distinct listed listed' drew (by rw [← shared]; simp [SealingCall.drawn,prefixed'])
    have run : past ++ [.part call] = front ++ .part call' :: (back ++ .part call :: []) := by
      rw [split,List.append_assoc,List.cons_append]
    have before : past = front ++ .part call' :: back := split
    rw [before] at encrypts
    rcases apart front back [] call' call upload' upload cipher' cipher run encrypts' encrypts
      (created'.bucket.trans created.bucket.symm) (created'.upload_id.trans created.upload_id.symm) with
      empty | empty | repeated
    · rw [show (FrameOrigin.mk cipher' (call'.bytes fs) (some (call',upload'))).body = [] from empty] at there
      simp [Chunking.pieces] at there
    · rw [show (FrameOrigin.mk cipher (call.bytes fs) (some (call,upload))).body = [] from empty] at here
      simp [Chunking.pieces] at here
    · obtain ⟨_,_,made⟩ := encrypts.sealing
      obtain ⟨_,_,made'⟩ := encrypts'.sealing
      refine ⟨?_,(repeated.frames i message' message there here).symm⟩
      show cipher.aad i = cipher'.aad i
      rw [(part_cipher_ok made).2.2,(part_cipher_ok made').2.2,repeated.upload_id,repeated.number]

/-- One more call of a run. -/
theorem Ledger.step (sound : P.Sound) {past : List SealingCall} (call : SealingCall)
    (distinct : ((past ++ [call]).flatMap SealingCall.drawn).Nodup) (apart : PartsApart P fs (past ++ [call]) w₀)
    (ledger : Ledger P fs w₀ past (after_calls P fs past w₀)) :
    Ledger P fs w₀ (past ++ [call]) (call.after P fs (after_calls P fs past w₀)) := by
  have kept : ∀ q upload, (after_calls P fs past w₀).tree.node q = some (.file (.json (.upload upload))) →
      ∃ draws bucket key content_type algorithm spec,
        .create draws bucket key content_type algorithm spec ∈ past ++ [call] ∧ CreatedBy P draws bucket upload := by
    intro q upload here
    obtain ⟨draws,bucket,key,content_type,algorithm,spec,listed,created⟩ := ledger.uploads q upload here
    exact ⟨draws,bucket,key,content_type,algorithm,spec,List.mem_append_left _ listed,created⟩
  cases call with
  | create draws bucket key content_type algorithm spec =>
    have creates : Creates P draws bucket (after_calls P fs past w₀)
        (fs.create_multipart_upload P draws bucket key content_type algorithm spec (after_calls P fs past w₀)).2 :=
      create_multipart_upload_creates key content_type algorithm spec (after_calls P fs past w₀)
    refine ledger.keep _ creates.frameless fun q upload here => ?_
    rcases creates.records q upload here with ⟨p,old⟩ | created
    · exact kept p upload old
    · exact ⟨draws,bucket,key,content_type,algorithm,spec,by simp,created⟩
  | part call =>
    rcases upload_part_seals P fs call (after_calls P fs past w₀) with adds | ⟨upload,cipher,encrypts,adds⟩
    · refine ledger.keep _ (fun s member _ => ?_) fun q upload here => ?_
      · exact (adds.mem member).resolve_left id
      · obtain ⟨p,old⟩ := adds.unmade q upload here
        exact kept p upload old
    · -- the upload was created in this run, with the prefix the part is encrypted under
      obtain ⟨q,here⟩ := read_upload_meta_found encrypts.found
      obtain ⟨draws,bucket,key,content_type,algorithm,spec,listed,created⟩ := ledger.uploads q upload here
      obtain ⟨own,has,made⟩ := encrypts.sealing
      have prefixed : cipher.nonce_prefix = draws.nonce_prefix := by
        have decoded := (part_cipher_ok made).2.1
        rw [created.prefixed own has,sound.base64] at decoded
        exact (Option.some.inj decoded).symm
      refine ledger.extend _ ⟨cipher,call.bytes fs,some (call,upload)⟩ ?_ (adds.mono fun s of _ => of) fun o earlier => ?_
      · exact .part past [] call upload cipher draws bucket key content_type algorithm spec rfl encrypts
          (List.mem_append_left _ listed) created prefixed
      · rw [List.flatMap_append] at distinct
        exact part_fits distinct.of_append_left apart encrypts listed created prefixed earlier
  | complete draws bucket upload_id parts customer_key =>
    obtain ⟨made,adds⟩ := complete_multipart_upload_seals fs draws bucket upload_id sound parts customer_key
      (after_calls P fs past w₀)
    exact ledger.drawn _ distinct rfl (.complete draws bucket upload_id parts customer_key made.1 made.2 (by simp)) adds
  | put call =>
    obtain ⟨made,adds⟩ := put_object_drawn fs sound call (after_calls P fs past w₀)
    exact ledger.drawn _ distinct rfl (.put call made.1 made.2 (by simp)) adds

theorem PartsApart.front {front back : List SealingCall} (apart : PartsApart P fs (front ++ back) w₀) :
    PartsApart P fs front w₀ := by
  intro start middle finish call call' upload upload' cipher cipher' split encrypts encrypts'
  refine apart start middle (finish ++ back) call call' upload upload' cipher cipher' ?_ encrypts encrypts'
  rw [split,List.append_assoc,List.cons_append,List.append_assoc,List.cons_append]

/-- The ledger of a whole run, by induction on its length. -/
theorem Ledger.of_run (sound : P.Sound) (untouched : Untouched w₀) (calls : List SealingCall)
    (distinct : (calls.flatMap SealingCall.drawn).Nodup) (apart : PartsApart P fs calls w₀) :
    Ledger P fs w₀ calls (after_calls P fs calls w₀) := by
  induction calls using List.reverseRecOn with
  | nil =>
    refine ⟨fun q upload here => absurd here (untouched.uploads q upload),[],fun s member _ => ?_,by simp,by simp⟩
    rw [show (after_calls P fs [] w₀).sealings = [] from untouched.sealings] at member
    cases member
  | append_singleton past call ih =>
    have before := ih (by rw [List.flatMap_append] at distinct; exact distinct.of_append_left) apart.front
    rw [after_calls_append]
    exact before.step sound call distinct apart

theorem Ledger.unique {past : List SealingCall} {w : World} (ledger : Ledger P fs w₀ past w) : NoncesUnique w := by
  obtain ⟨origins,covers,sources,compatible⟩ := ledger.frames
  intro s member s' member' frame frame' key nonce
  obtain ⟨o,listed,i,message,here,n,made,rfl⟩ := covers s member frame
  obtain ⟨o',listed',i',message',there,n',made',rfl⟩ := covers s' member' frame'
  have eight := (sources o listed).eight
  have eight' := (sources o' listed').eight
  obtain ⟨rfl,small⟩ := make_frame_nonce_ok eight made
  obtain ⟨rfl,small'⟩ := make_frame_nonce_ok eight' made'
  -- a nonce spells out its prefix and its counter
  obtain ⟨same,counter⟩ := List.append_inj (nonce : o.cipher.nonce_prefix ++ le_bytes 4 i = _ ++ le_bytes 4 i') (by omega)
  have counted := congrArg from_le_bytes counter
  rw [from_le_bytes_le_bytes,from_le_bytes_le_bytes] at counted
  obtain rfl : i = i' := by omega
  obtain ⟨aad,equal⟩ := compatible o listed o' listed' same i message message' here there
  rw [show o.cipher.key = o'.cipher.key from key,same,aad,equal]

end Runs

/-- No frame of a run shares its key and nonce with a different one, provided that no encrypted upload is sent two parts
    with any bytes in them, except for one part sent again. -/
theorem nonces_unique {P : Primitives} {fs : FilesystemStorage} {w₀ : World} (sound : P.Sound) (untouched : Untouched w₀)
    (calls : List SealingCall) (distinct : (calls.flatMap SealingCall.drawn).Nodup)
    (apart : PartsApart P fs calls w₀) : NoncesUnique (after_calls P fs calls w₀) :=
  (Ledger.of_run sound untouched calls distinct apart).unique

namespace Sample

theorem world_untouched : Untouched (world false) := by
  refine ⟨rfl,fun q upload here => ?_⟩
  have known : ∀ p ∈ (world false).tree.paths, (world false).tree.node p = some .dir ∨
      (world false).tree.node p = some (.file (.json (.bucket (settings false)))) := by decide +kernel
  rcases known q ((world false).tree.listed q (by rw [here]; exact Option.some_ne_none _)) with dir | bucket
  · rw [dir] at here
    cases here
  · rw [bucket] at here
    cases here

/-- An upload to `logs/a` with server-side encryption. -/
def creation : SealingCall := .create (draws 0) "logs" "a" "text/plain" none (some {
  mode := .SseS3, customer_key_md5 := none, upload_dek_wrapped := none, upload_dek_wrap_nonce := none
  upload_dek_key_id := none, kms_key_id := none, upload_nonce_prefix := "" })

def part (number : Nat) (body : Bytes) (filled : body ≠ []) (small : body.length ≤ IO_BUFFER_SIZE) : PartCall where
  draws := draws 0
  bucket := "logs"
  upload_id := "u000000"
  part_number := number
  body := stream body filled small
  checksum := none
  customer_key := none
  declared_size := none

def first_part : PartCall := part 1 abc abc_filled abc_fits
def second_part : PartCall := part 2 abd (by decide +kernel) (by decide +kernel)

end Sample

/-- One part sent twice: its frame is encrypted twice, and both times it is the same. -/
theorem part_again_nonces_unique :
    NoncesUnique (after_calls Sample.vault Sample.flat
      [Sample.creation,.part Sample.first_part,.part Sample.first_part] (Sample.world false)) := by
  refine nonces_unique Sample.vault_sound Sample.world_untouched _ (by decide) ?_
  intro front middle back call call' upload upload' cipher cipher' split _ _ _ _
  have only (other : PartCall) (listed : SealingCall.part other ∈
      [Sample.creation,.part Sample.first_part,.part Sample.first_part]) :
      other = Sample.first_part := by
    simpa [Sample.creation] using listed
  rw [only call (by rw [split]; simp),only call' (by rw [split]; simp)]
  refine .inr (.inr ⟨rfl,rfl,fun i message message' here there => ?_⟩)
  rw [here] at there
  exact Option.some.inj there

/-- Two parts of one upload: both begin with frame zero of the upload's prefix. -/
theorem two_parts_share_nonce : Untouched (Sample.world false) ∧
    ([Sample.creation,.part Sample.first_part,.part Sample.second_part].flatMap SealingCall.drawn).Nodup ∧
    ¬ NoncesUnique (after_calls Sample.vault Sample.flat
      [Sample.creation,.part Sample.first_part,.part Sample.second_part] (Sample.world false)) := by
  refine ⟨Sample.world_untouched,by decide,fun unique => ?_⟩
  have first : ⟨true,Sample.data_key,Sample.frame_nonce,Sample.part_aad 1,Sample.abc⟩ ∈ (after_calls Sample.vault Sample.flat
      [Sample.creation,.part Sample.first_part,.part Sample.second_part] (Sample.world false)).sealings := by
    decide +kernel
  have second : ⟨true,Sample.data_key,Sample.frame_nonce,Sample.part_aad 2,Sample.abd⟩ ∈ (after_calls Sample.vault Sample.flat
      [Sample.creation,.part Sample.first_part,.part Sample.second_part] (Sample.world false)).sealings := by
    decide +kernel
  have same := unique _ first _ second rfl rfl rfl rfl
  cases (congrArg Sealing.message same : Sample.abc = Sample.abd)

end Maxio
