import Maxio.Multipart
import Maxio.PutSpec

/-!
Where an upload keeps its record and its parts, what `upload_part` leaves there, and what a completion reads back.
-/

set_option linter.unusedSimpArgs false

namespace Maxio
open FileTree (Node Tree)
open Reading
open FrameDecryptor (Stream)

/-! ### Places -/

section Places
variable (fs : FilesystemStorage) (bucket upload_id : String)

/-- The directory of an upload. -/
def uploadAt : OsPath := base fs.buckets_dir bucket ++ [".uploads",upload_id]
/-- The record of an upload. -/
def uploadRecordAt : OsPath := uploadAt fs bucket upload_id ++ [".meta.json"]
/-- The file of a part. -/
def partAt (number : Nat) : OsPath := uploadAt fs bucket upload_id ++ [toString number]
/-- The record of a part. -/
def partRecordAt (number : Nat) : OsPath := uploadAt fs bucket upload_id ++ [toString number ++ ".meta.json"]

end Places

/-- An upload id that names a directory. -/
structure NamesUpload (upload_id : String) : Prop where
  slash : '/' ∉ upload_id.toList
  kept : skipped upload_id = false
  ahead : upload_id ≠ ".."

theorem number_digits (n : Nat) : ∀ c ∈ (toString n).toList, c.isDigit = true := by
  intro c member
  rw [show toString n = Nat.repr n from rfl,Nat.repr,String.toList_ofList] at member
  exact Nat.isDigit_of_mem_toDigits (by decide) (by decide) member

theorem number_slash (n : Nat) : '/' ∉ (toString n).toList := by
  intro slash
  exact absurd (number_digits n _ slash) (by decide)

theorem number_kept (n : Nat) : skipped (toString n) = false ∧ toString n ≠ ".." := by
  have dotless : '.' ∉ (toString n).toList := fun dot => absurd (number_digits n _ dot) (by decide)
  have spelled : toString n ≠ "" := by
    intro empty
    have none : (toString n).toList = [] := by rw [empty]; rfl
    rw [show toString n = Nat.repr n from rfl,Nat.repr,String.toList_ofList] at none
    exact Nat.toDigits_ne_nil none
  refine ⟨?_,fun dots => dotless (by rw [dots]; decide)⟩
  unfold skipped
  simp only [decide_eq_false_iff_not,Bool.or_eq_false_iff]
  exact ⟨spelled,fun dot => dotless (by rw [dot]; decide)⟩

section Leads
variable {fs : FilesystemStorage} {bucket upload_id : String} (valid : ValidBucket bucket) (names : NamesUpload upload_id)
include valid names

theorem uploadAt_plain : PlainDir (uploadAt fs bucket upload_id) := by
  refine (plain_base fs.plain valid).append fun s member => ?_
  simp only [List.mem_cons,List.not_mem_nil,or_false] at member
  rcases member with rfl | rfl
  · decide
  · exact ⟨names.kept,names.ahead⟩

theorem upload_dir_eq : upload_dir fs.buckets_dir bucket upload_id = uploadAt fs bucket upload_id := by
  have top : uploads_dir fs.buckets_dir bucket = base fs.buckets_dir bucket ++ [".uploads"] := by
    rw [uploads_dir,bucket_dir_eq valid,join_name (by decide)]
  rw [upload_dir,top,join_name names.slash,uploadAt,List.append_assoc,List.singleton_append]

theorem upload_entry_leads {name : String} (slash : '/' ∉ name.toList) (kept : skipped name = false) (ahead : name ≠ "..") :
    Leads (join (upload_dir fs.buckets_dir bucket upload_id) name) (uploadAt fs bucket upload_id) name := by
  rw [upload_dir_eq valid names,join_name slash]
  exact leads_plain (uploadAt_plain valid names) kept ahead

theorem upload_record_leads :
    Leads (upload_meta_path fs.buckets_dir bucket upload_id) (uploadAt fs bucket upload_id) ".meta.json" :=
  upload_entry_leads valid names (by decide) (by decide) (by decide)

theorem part_leads (n : Nat) :
    Leads (part_path fs.buckets_dir bucket upload_id n) (uploadAt fs bucket upload_id) (toString n) :=
  upload_entry_leads valid names (number_slash n) (number_kept n).1 (number_kept n).2

theorem part_record_leads (n : Nat) :
    Leads (part_meta_path fs.buckets_dir bucket upload_id n) (uploadAt fs bucket upload_id)
      (toString n ++ ".meta.json") := by
  refine upload_entry_leads valid names ?_ (skipped_append (by decide)) (append_ne_dots (by decide))
  rw [String.toList_append,List.mem_append,not_or]
  exact ⟨number_slash n,by decide⟩

end Leads

/-- No operation on a key reaches into the uploads of a bucket. -/
theorem uploads_untouched {fs : FilesystemStorage} {bucket key other : String} (accepted : Accepted bucket key)
    (valid : ValidBucket other) {draws : Draws} {own stored : List String} (apart : ∀ n ∈ own, n ∉ topNames) (rest : OsPath) :
    ¬ Touched fs bucket key own (tempNames draws) stored (base fs.buckets_dir other ++ ".uploads" :: rest) ∧
      ¬ Opened fs bucket key (base fs.buckets_dir other ++ ".uploads" :: rest) := by
  have named : ∀ n ∈ names key, n ≠ ".uploads" := by
    rintro n member rfl
    exact names_ne_top accepted.validKey _ member (by decide)
  -- a place starts with a segment of the key or with its own name
  have first : ∀ {dir : OsPath} {n : String}, (∀ s ∈ dir, s ≠ ".uploads") → n ≠ ".uploads" →
      ¬ dir ++ [n] <+: ".uploads" :: rest := by
    intro dir n inner own below
    cases dir with
    | nil => exact own (List.cons_prefix_cons.mp below).1
    | cons d ds => exact inner d (by simp) (List.cons_prefix_cons.mp below).1
  have temp : ∀ n ∈ tempNames draws, n ≠ ".uploads" := by
    rintro n member rfl
    exact tempNames_ne_top _ member (by decide)
  have versions : versionsRel key = ((names key).dropLast ++ [".versions"]) ++ (names key).getLast?.toList := by
    simp [versionsRel]
  constructor
  · intro touched
    obtain ⟨_,cases'⟩ := touched_cases accepted valid touched
    rcases cases' with ⟨n,member,below⟩ | ⟨n,member,below⟩ | ⟨n,_,below⟩
    · refine first (fun s inside => named s (stem_subset s inside)) ?_ below
      rcases List.mem_append.mp member with inside | inside
      · rintro rfl
        exact apart _ inside (by decide)
      · exact temp n inside
    · refine first (fun s inside => named s ?_) (temp n member) below
      unfold objectRel at inside
      split at inside
      · exact inside
      · exact List.mem_of_mem_dropLast inside
    · rw [versions,List.append_assoc,List.append_assoc,← List.append_assoc] at below
      exact first (fun s inside => named s (List.mem_of_mem_dropLast inside)) (by decide)
        ((List.prefix_append _ _).trans below)
  · intro opened
    obtain ⟨_,above | above⟩ := opened_cases opened
    · exact named _ (stem_subset _ (above.subset (by simp))) rfl
    · have inside : ".uploads" ∈ versionsRel key := above.subset (by simp)
      rw [versions,List.mem_append,List.mem_append,Option.mem_toList] at inside
      rcases inside with (early | dots) | last
      · exact named _ (List.mem_of_mem_dropLast early) rfl
      · exact absurd dots (by decide)
      · exact named _ (List.mem_of_getLast? last) rfl

/-! ### Reading a part back -/

/-- A source that is read with one buffer gives all it has. -/
theorem read_pieces_exactly {σ : Type} {poll : Poll σ IoError UInt8} {cap : Nat} (positive : 0 < cap) (turns : Nat) {s : σ}
    {out : Bytes} (yields : Exactly poll s out) (enough : out.length < turns) :
    ∃ pieces, read_pieces poll cap turns s = (pieces,none) ∧ pieces.flatten = out := by
  induction turns generalizing s out with
  | zero => omega
  | succ turns ih =>
    rw [read_pieces]
    rcases polled : poll s cap with e | ⟨piece,s'⟩
    · exact absurd (yields.fails positive polled) (by simp)
    · cases piece with
      | nil =>
        have ended := (yields.stops positive polled).resolve_right (by simp)
        exact ⟨[],rfl,by simp [ended]⟩
      | cons b bs =>
        obtain ⟨rest,rfl,more⟩ := yields.gives positive polled (by simp)
        rw [List.length_append,List.length_cons] at enough
        obtain ⟨pieces,read,whole⟩ := ih more (by omega)
        refine ⟨(b :: bs) :: pieces,?_,by rw [List.flatten_cons,whole]⟩
        simp only [read]

theorem hex_encode_quote (data : Bytes) : '"' ∉ (hex_encode data).toList := by
  have digit : ∀ n < 16, hexDigit n ≠ '"' := by decide
  rw [hex_encode,String.toList_ofList]
  induction data with
  | nil => simp [hexChars]
  | cons b rest ih =>
    have bound := b.toNat_lt
    simp only [hexChars,List.mem_cons,not_or]
    exact ⟨(digit _ (by omega)).symm,(digit _ (Nat.mod_lt _ (by decide))).symm,ih⟩

theorem trim_quotes_quoted {s : String} (plain : '"' ∉ s.toList) : trim_quotes (quoted s) = s := by
  have drops : ∀ {cs tail : List Char}, '"' ∉ cs → cs ≠ [] → (cs ++ tail).dropWhile (· = '"') = cs ++ tail := by
    intro cs tail absent filled
    cases cs with
    | nil => exact absurd rfl filled
    | cons c rest =>
      rw [List.mem_cons,not_or] at absent
      exact List.dropWhile_cons_of_neg (by simpa using Ne.symm absent.1)
  have spelled : (quoted s).toList = '"' :: (s.toList ++ ['"']) := by
    rw [quoted,String.toList_append,String.toList_append]
    rfl
  have quote : ∀ cs : List Char, ('"' :: cs).dropWhile (· = '"') = cs.dropWhile (· = '"') := by
    intro cs
    exact List.dropWhile_cons_of_pos (by simp)
  apply String.toList_inj.mp
  rw [trim_quotes,String.toList_ofList,spelled,quote]
  by_cases empty : s.toList = []
  · rw [empty]
    rfl
  · have back := @drops s.toList.reverse [] (by simpa using plain) (by simpa using empty)
    rw [List.append_nil] at back
    rw [drops plain empty,List.reverse_append,List.reverse_singleton,List.singleton_append,quote,back,List.reverse_reverse]

/-! ### Uploads and their parts -/

/-- The record of an upload, as `create_multipart_upload` leaves it. -/
structure UploadStored (P : Primitives) (fs : FilesystemStorage) (bucket upload_id : String) (upload : MultipartUploadMeta)
    (w : World) : Prop where
  names : NamesUpload upload_id
  shown : w.tree.node (uploadRecordAt fs bucket upload_id) = some (.file (.json (.upload upload)))
  key : validate_key upload.key = .ok ()
  eight : ∀ spec, upload.encryption_spec = some spec →
    ∃ nonce, P.b64_decode spec.upload_nonce_prefix = some nonce ∧ nonce.length = 8

/-- The cipher a part of an upload is stored with, if any. -/
def partCipher (P : Primitives) (fs : FilesystemStorage) (upload : MultipartUploadMeta) (upload_id : String)
    (ck : Option Bytes) (number : Nat) : Except StorageError (Option FrameCipher) := match upload.encryption_spec with
  | some spec => (fs.part_cipher P spec upload_id number ck).map some
  | none => .ok none

/-- A part with its record, as `upload_part` leaves them. -/
structure PartStored (P : Primitives) (fs : FilesystemStorage) (bucket upload_id : String) (upload : MultipartUploadMeta)
    (ck : Option Bytes) (record : PartMeta) (text : Bytes) (w : World) : Prop where
  shown : w.tree.node (partRecordAt fs bucket upload_id record.part_number) = some (.file (.json (.part record)))
  file : ∃ cipher content, partCipher P fs upload upload_id ck record.part_number = .ok cipher ∧
    w.tree.node (partAt fs bucket upload_id record.part_number) = some (.file (.bytes content)) ∧
    Payload P cipher text content
  size : record.size = text.length
  etag : record.etag = quoted (hex_encode (P.md5 text))
  encrypted : record.encrypted = upload.encryption_spec.isSome
  checksum : record.checksum_value = record.checksum_algorithm.map fun algo => P.b64_encode (P.checksum algo text)

section Parts
variable {P : Primitives} {fs : FilesystemStorage} {bucket upload_id : String} {upload : MultipartUploadMeta}
  {draws : Draws} {w w' : World}

theorem check_checksum_ok {checksum : ChecksumRequest} {text : Bytes} {algorithm : Option ChecksumAlgorithm}
    {value : Option String} (passed : check_checksum P checksum text = .ok (algorithm,value)) :
    value = algorithm.map fun algo => P.b64_encode (P.checksum algo text) := by
  unfold check_checksum at passed
  split at passed
  next =>
    cases passed
    rfl
  next algo expected =>
    dsimp only at passed
    split at passed
    next =>
      split at passed
      next => cases passed
      next =>
        cases passed
        rfl
    next =>
      cases passed
      rfl

theorem part_cipher_ok {spec : UploadEncryptionSpec} {number : Nat} {ck : Option Bytes} {cipher : FrameCipher}
    (made : fs.part_cipher P spec upload_id number ck = .ok cipher) :
    fs.resolve_upload_dek P spec ck = .ok cipher.key ∧ P.b64_decode spec.upload_nonce_prefix = some cipher.nonce_prefix ∧
      cipher.aad = build_part_aad P upload_id number := by
  unfold FilesystemStorage.part_cipher at made
  simp only [bind,Except.bind] at made
  split at made
  next => cases made
  next dek resolved =>
    split at made
    next => cases made
    next nonce decoded =>
      split at made
      next => cases made
      next =>
        cases made
        exact ⟨resolved,required_ok decoded,rfl⟩

theorem read_upload_meta_quiet (bucket upload_id : String) : Quiet (fs.read_upload_meta bucket upload_id) :=
  Quiet.bind (Quiet.mapError (Quiet.observe _)) fun _ => Quiet.lift _

theorem select_parts_quiet (parts : List (Nat × String)) : Quiet (fs.select_parts bucket upload_id parts) := by
  induction parts with
  | nil => exact Quiet.pure _
  | cons part rest ih =>
    refine Quiet.bind (Quiet.bind (Quiet.mapError (Quiet.observe _)) fun _ => Quiet.lift _) fun record => ?_
    split
    · exact Quiet.fail _
    · split
      · exact Quiet.fail _
      · exact Quiet.bind ih fun _ => Quiet.pure _

theorem part_reads_quiet (upload_dek : Option Bytes) (part : PartMeta) :
    Quiet (fs.part_reads P bucket upload_id upload_dek part) := by
  unfold FilesystemStorage.part_reads
  dsimp only
  split
  · cases upload_dek with
    | none => exact Quiet.fail _
    | some dek => exact Quiet.bind (Quiet.io (Quiet.observe _)) fun _ => Quiet.pure _
  · exact Quiet.bind (Quiet.io (Quiet.observe _)) fun _ => Quiet.pure _

/-- The second half of `upload_part`: write the payload, then the record. -/
private theorem write_part_done (valid : ValidBucket bucket) (names : NamesUpload upload_id) {number : Nat}
    {body : ByteStream} {checksum : ChecksumRequest} {ck : Option Bytes} {record : PartMeta} {cipher : Option FrameCipher}
    (made : partCipher P fs upload upload_id ck number = .ok cipher) (sealing : cipher.isSome = upload.encryption_spec.isSome)
    (done : (do
      io (Fs.write (part_path fs.buckets_dir bucket upload_id number) (.bytes []))
      let fw ← pump (FlatWriter.write P (part_path fs.buckets_dir bucket upload_id number) cipher) map_read_quota_error
        body.reads body.failure FlatWriter.new
      let fw ← fw.finish P (part_path fs.buckets_dir bucket upload_id number) cipher
      match check_checksum P checksum body.body with
      | .error e => do
        ignore (Fs.remove_file (part_path fs.buckets_dir bucket upload_id number))
        Prog.fail e
      | .ok (checksum_algorithm,checksum_value) => do
        let ciphertext_size ← if cipher.isSome then do
            let content ← io (Fs.read (part_path fs.buckets_dir bucket upload_id number))
            pure (some (P.bytes content).length)
          else pure none
        let record : PartMeta := {
          part_number := number, etag := quoted (hex_encode (P.md5 body.body)), size := fw.size,
          last_modified := P.format_time draws.now, checksum_algorithm, checksum_value,
          encrypted := cipher.isSome, ciphertext_size }
        match ← Prog.attempt (Fs.write (part_meta_path fs.buckets_dir bucket upload_id number)
            (.json (.part record))) with
        | .error e => do
          ignore (Fs.remove_file (part_path fs.buckets_dir bucket upload_id number))
          Prog.fail (.Io e)
        | .ok () => pure record : Action PartMeta) w = (.ok record,w')) :
    body.failure = none ∧ record.part_number = number ∧ PartStored P fs bucket upload_id upload ck record body.body w' := by
  simp only [Prog.bind_ok_iff,io_ok_iff] at done
  obtain ⟨_,w₁,created,fw,w₂,pumped,fw',w₃,finished,done⟩ := done
  have leads := @part_leads fs _ _ valid names number
  obtain ⟨sets,_,_⟩ := Fs.write_done leads created
  obtain ⟨ended,took⟩ := pump_ok (fun body fw w' => FlatWriter.Took P cipher _ w body fw w')
    (fun _ _ _ _ _ _ took done => FlatWriter.write_done leads took done) []
    (FlatWriter.took_new ⟨sets.rows,sets.tree⟩) pumped
  obtain ⟨size,content,payload,held⟩ := FlatWriter.finish_done leads took finished
  rcases checked : check_checksum P checksum body.body with e | ⟨algorithm,value⟩
  · rw [checked] at done
    simp only [Prog.bind_ok_iff] at done
    obtain ⟨_,_,_,impossible⟩ := done
    cases impossible
  rw [checked] at done
  have recorded : ∀ {record' : PartMeta} {w₄ : World}, (do
      match ← Prog.attempt (Fs.write (part_meta_path fs.buckets_dir bucket upload_id number) (.json (.part record'))) with
      | .error e => do
        ignore (Fs.remove_file (part_path fs.buckets_dir bucket upload_id number))
        Prog.fail (.Io e)
      | .ok () => pure record' : Action PartMeta) w₄ = (.ok record,w') →
      record = record' ∧ Fs.write (part_meta_path fs.buckets_dir bucket upload_id number) (.json (.part record')) w₄ =
        (.ok (),w') := by
    intro record' w₄ done
    rw [Prog.bind_ok_iff] at done
    obtain ⟨written,w₅,wrote,done⟩ := done
    cases written with
    | error e =>
      simp only [Prog.bind_ok_iff] at done
      obtain ⟨_,_,_,impossible⟩ := done
      cases impossible
    | ok _ =>
      obtain ⟨rfl,rfl⟩ := pure_ok_iff.mp done
      exact ⟨rfl,attempt_ok_iff.mp wrote⟩
  -- the record and its place, whether or not the ciphertext was measured
  have written : ∃ ciphertext_size : Option Nat, record = {
      part_number := number, etag := quoted (hex_encode (P.md5 body.body)), size := fw'.size,
      last_modified := P.format_time draws.now, checksum_algorithm := algorithm, checksum_value := value, encrypted := cipher.isSome, ciphertext_size } ∧
      Fs.write (part_meta_path fs.buckets_dir bucket upload_id number) (.json (.part record)) w₃ = (.ok (),w') := by
    dsimp only at done
    split at done
    next =>
      rw [Prog.bind_ok_iff] at done
      obtain ⟨measured,w₄,read,done⟩ := done
      have same : w₄ = w₃ := (Quiet.io (Quiet.observe _)).state read
      subst same
      obtain ⟨rfl,wrote⟩ := recorded done
      exact ⟨_,rfl,wrote⟩
    next =>
      obtain ⟨rfl,wrote⟩ := recorded done
      exact ⟨_,rfl,wrote⟩
  obtain ⟨ciphertext_size,rfl,wrote⟩ := written
  obtain ⟨sets',_,_⟩ := Fs.write_done (part_record_leads valid names number) wrote
  refine ⟨ended,rfl,sets'.here,⟨cipher,content,made,?_,payload⟩,size,rfl,sealing,check_checksum_ok checked⟩
  have apart : partAt fs bucket upload_id number ≠
      uploadAt fs bucket upload_id ++ [toString number ++ ".meta.json"] := by
    intro same
    have name := List.singleton_inj.mp (List.append_cancel_left same)
    have dot : '.' ∈ (toString number).toList := by
      rw [name,String.toList_append]
      exact List.mem_append_right _ (by decide)
    exact absurd (number_digits number _ dot) (by decide)
  rw [sets'.other apart,partAt,held.tree,if_pos rfl]

theorem upload_part_done (valid : ValidBucket bucket) (names : NamesUpload upload_id) {number : Nat} {body : ByteStream}
    {checksum : ChecksumRequest} {ck : Option Bytes} {declared_size : Option Nat} {record : PartMeta}
    (opened : fs.read_upload_meta bucket upload_id w = (.ok upload,w))
    (done : fs.upload_part P draws bucket upload_id number body checksum ck declared_size w = (.ok record,w')) :
    record.part_number = number ∧ PartStored P fs bucket upload_id upload ck record body.body w' := by
  simp only [FilesystemStorage.upload_part,Prog.bind_ok_iff,lift_ok_iff] at done
  obtain ⟨_,_,⟨_,rfl⟩,_,_,⟨_,rfl⟩,_,w,⟨_,rfl⟩,done⟩ := done
  split at done
  next => cases done
  next =>
    rw [Prog.bind_ok_iff] at done
    obtain ⟨present,w₁,asked,done⟩ := done
    have same : w₁ = w := (Quiet.io (Quiet.observe _)).state asked
    subst same
    split at done
    next => cases done
    next =>
      rw [Prog.bind_of_ok opened] at done
      have whole : (fs.wrap_upload_reader draws body).failure = none ∧ record.part_number = number ∧
          PartStored P fs bucket upload_id upload ck record (fs.wrap_upload_reader draws body).body w' := by
        cases has : upload.encryption_spec with
        | none =>
          rw [has] at done
          exact write_part_done valid names (by simp [partCipher,has]) (by simp [has]) done
        | some spec =>
          rw [has] at done
          dsimp only at done
          rw [Prog.bind_ok_iff] at done
          obtain ⟨cipher,w₂,keyed,done⟩ := done
          obtain ⟨made,rfl⟩ := lift_ok_iff.mp keyed
          have keyed : partCipher P fs upload upload_id ck number = .ok (some cipher) := by
            rw [partCipher,has]
            dsimp only
            rw [made]
            rfl
          exact write_part_done valid names keyed (by simp [has]) done
      obtain ⟨ended,numbered,stored⟩ := whole
      rw [(wrap_upload_reader_whole ended).1] at stored
      exact ⟨numbered,stored⟩

theorem augment_spec_prefixed (spec : UploadEncryptionSpec) :
    Prog.Gives (fs.augment_spec P draws spec) fun spec' => spec'.upload_nonce_prefix = P.b64_encode draws.nonce_prefix := by
  unfold FilesystemStorage.augment_spec
  dsimp only
  cases spec.mode with
  | SseS3 => exact Prog.Gives.bind fun _ => Prog.Gives.pure rfl
  | SseKms =>
    cases fs.kms with
    | none => exact Prog.Gives.fail _
    | some kms => exact Prog.Gives.bind fun _ => Prog.Gives.pure rfl
  | SseC => exact Prog.Gives.pure rfl

/-- A drawn id names a directory. -/
theorem namesUpload_drawn (draws : Draws) : NamesUpload draws.upload_id := by
  obtain ⟨nonempty,chars⟩ := draws.spelled draws.upload_id (by simp)
  have dotless : '.' ∉ draws.upload_id.toList := fun dot => absurd (chars _ dot) (by decide)
  refine ⟨draws.upload_id_slash,?_,fun dots => dotless (by rw [dots]; decide)⟩
  unfold skipped
  simp only [decide_eq_false_iff_not,Bool.or_eq_false_iff]
  exact ⟨nonempty,fun dot => dotless (by rw [dot]; decide)⟩

theorem create_multipart_upload_done (sound : P.Sound) {key content_type : String}
    {algorithm : Option ChecksumAlgorithm} {spec : Option UploadEncryptionSpec}
    (done : fs.create_multipart_upload P draws bucket key content_type algorithm spec w = (.ok upload,w')) :
    upload.upload_id = draws.upload_id ∧ UploadStored P fs bucket draws.upload_id upload w' := by
  simp only [FilesystemStorage.create_multipart_upload,Prog.bind_ok_iff,lift_ok_iff,io_ok_iff] at done
  obtain ⟨_,_,⟨valid,rfl⟩,_,_,⟨accepted,rfl⟩,_,w₁,_,done⟩ := done
  have written : ∀ {own : Option UploadEncryptionSpec} {w₂ : World}, (∀ s, own = some s →
      ∃ nonce, P.b64_decode s.upload_nonce_prefix = some nonce ∧ nonce.length = 8) → (do
        io (Fs.write (upload_meta_path fs.buckets_dir bucket draws.upload_id) (.json (.upload {
          upload_id := draws.upload_id, bucket, key, content_type, initiated := P.format_time draws.now,
          checksum_algorithm := algorithm, encryption_spec := own })))
        pure {
          upload_id := draws.upload_id, bucket, key, content_type, initiated := P.format_time draws.now,
          checksum_algorithm := algorithm, encryption_spec := own } : Action MultipartUploadMeta) w₂ = (.ok upload,w') →
      upload.upload_id = draws.upload_id ∧ UploadStored P fs bucket draws.upload_id upload w' := by
    intro own w₂ eight done
    simp only [Prog.bind_ok_iff,io_ok_iff,pure_ok_iff] at done
    obtain ⟨_,_,wrote,rfl,rfl⟩ := done
    obtain ⟨sets,_,_⟩ := Fs.write_done (upload_record_leads (validBucket_of_validate valid) (namesUpload_drawn draws)) wrote
    exact ⟨rfl,namesUpload_drawn draws,sets.here,accepted,eight⟩
  cases spec with
  | none => exact written (fun _ none => by cases none) done
  | some s =>
    dsimp only at done
    rw [Prog.bind_ok_iff] at done
    obtain ⟨own,w₂,augmented,done⟩ := done
    refine written (fun s' given => ?_) done
    cases given
    have drawn : own.upload_nonce_prefix = P.b64_encode draws.nonce_prefix := augment_spec_prefixed s _ _ _ augmented
    exact ⟨draws.nonce_prefix,by rw [drawn,sound.base64],draws.prefix_length⟩

/-- What `part_reads` gives for a part that is still there. -/
theorem part_reads_done (sound : P.Sound) (valid : ValidBucket bucket) (names : NamesUpload upload_id)
    (eight : ∀ spec, upload.encryption_spec = some spec →
      ∃ nonce, P.b64_decode spec.upload_nonce_prefix = some nonce ∧ nonce.length = 8)
    {ck dek : Option Bytes} {record : PartMeta} {text : Bytes}
    (stored : PartStored P fs bucket upload_id upload ck record text w)
    (keyed : fs.upload_key P upload.encryption_spec ck = .ok dek)
    (same : w'.tree.node (partAt fs bucket upload_id record.part_number) =
      w.tree.node (partAt fs bucket upload_id record.part_number)) :
    ∃ pieces, fs.part_reads P bucket upload_id dek record w' = (.ok (pieces,none),w') ∧ pieces.flatten = text := by
  obtain ⟨cipher,content,made,file,payload⟩ := stored.file
  have read : (io (Fs.read (part_path fs.buckets_dir bucket upload_id record.part_number)) : Action Content) w' =
      (.ok (.bytes content),w') :=
    io_ok_iff.mpr (Fs.read_file (part_leads valid names _) (same.trans file))
  have inner : Exactly (FileReader.poll_read : Poll _ IoError _) (⟨content,0,P.file_grant⟩ : FileReader UInt8) content := by
    simpa using FileReader.yields (ε := IoError) ⟨content,0,P.file_grant⟩
  unfold partCipher at made
  unfold FilesystemStorage.part_reads
  cases has : upload.encryption_spec with
  | none =>
    rw [has] at made
    cases made
    obtain rfl : content = text := payload
    have plain : record.encrypted = false := by rw [stored.encrypted,has]; rfl
    obtain ⟨pieces,whole,flat⟩ := read_pieces_exactly (show 0 < IO_BUFFER_SIZE by decide) (content.length + 1) inner
      (Nat.lt_succ_self _)
    refine ⟨pieces,?_,flat⟩
    dsimp only
    rw [plain,if_neg (by simp),Prog.bind_of_ok read]
    simp only [Prog.pure_apply]
    rw [← whole]
    rfl
  | some spec =>
    rw [has] at made keyed
    dsimp only at made
    rcases cut : fs.part_cipher P spec upload_id record.part_number ck with e | c
    · rw [cut] at made
      cases made
    rw [cut] at made
    cases made
    obtain ⟨resolved,decoded,aad⟩ := part_cipher_ok cut
    obtain ⟨nonce,decoded',length⟩ := eight spec has
    rw [decoded] at decoded'
    cases decoded'
    have opens : dek = some c.key := by
      simp only [FilesystemStorage.upload_key,resolved,bind,Except.bind] at keyed
      cases keyed
      rfl
    obtain ⟨frames,sealed,rfl⟩ := payload
    have yields := FrameDecryptor.yields_for_range (whole_stream sound length sealed) FileReader.poll_read_fits inner 0
      text.length (Nat.zero_div _).symm
    simp only [List.drop_zero,List.take_length] at yields
    have sealed' : record.encrypted = true := by rw [stored.encrypted,has]; rfl
    obtain ⟨pieces,whole,flat⟩ := read_pieces_exactly (show 0 < IO_BUFFER_SIZE by decide) (text.length + 1) yields
      (Nat.lt_succ_self _)
    refine ⟨pieces,?_,flat⟩
    dsimp only
    rw [sealed',if_pos rfl,opens]
    dsimp only
    rw [Prog.bind_of_ok read]
    simp only [Prog.pure_apply]
    rw [← whole,← aad,stored.size]
    rfl

end Parts

end Maxio
