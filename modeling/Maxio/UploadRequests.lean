import Maxio.BucketConfig
import Maxio.ChunkReads
import Maxio.Handlers
import Maxio.Multipart

/-!
The handlers of the requests that carry an `uploadId`, and the storage calls they make. What the headers come to, and the
events the XML reader finds in a body, are given with the request.
-/

namespace Maxio
open Reading (Poll Take FileReader spin)

/-! ### Listing the parts -/

namespace FilesystemStorage
variable (fs : FilesystemStorage)

/-- One entry of an upload's directory: the record of a part, if the name is that of a record and it can be parsed. -/
def listed_part (dir : OsPath) (name : String) : Action (List PartMeta) :=
  if !ends_with name ".meta.json" || name = ".meta.json" then pure []
  else do
    let data ← io (Fs.read (join dir name))
    match from_json asPart data with
    | .ok record => pure [record]
    | .error _ => pure []

def list_parts (bucket upload_id : String) : Action (MultipartUploadMeta × List PartMeta) := do
  Prog.lift (validate_bucket_name bucket)
  Prog.lift (validate_upload_id upload_id)
  let record ← fs.read_upload_meta bucket upload_id
  let dir := upload_dir fs.buckets_dir bucket upload_id
  let names ← io (Fs.read_dir dir)
  let parts ← Prog.fold (fun found name => do
    let more ← listed_part dir name
    pure (found ++ more)) [] names
  pure (record,parts.mergeSort fun a b => a.part_number ≤ b.part_number)

end FilesystemStorage

/-! ### Feeding a reader into an upload -/

namespace FrameDecryptor
variable {σ : Type} {P : Primitives} {poll : Poll σ IoError UInt8}

theorem poll_read_fits (d : FrameDecryptor σ) (cap : Nat) (piece : Bytes) (d' : FrameDecryptor σ)
    (polled : d.poll_read P poll cap = .ok (piece,d')) : piece.length ≤ cap := by
  unfold poll_read at polled
  generalize d.turns = count at polled
  induction count generalizing d with
  | zero => cases polled
  | succ count ih =>
    rw [spin] at polled
    split at polled
    next result ready =>
      subst polled
      unfold turn at ready
      dsimp only at ready
      split at ready
      next =>
        simp only [Reading.Turn.ready.injEq,Except.ok.injEq,Prod.mk.injEq] at ready
        rw [← ready.1,List.length_take,available]
        omega
      next =>
        split at ready
        next =>
          simp only [Reading.Turn.ready.injEq,Except.ok.injEq,Prod.mk.injEq] at ready
          simp [← ready.1]
        next =>
          split at ready
          next =>
            split at ready
            next => cases ready
            next => cases ready
          next =>
            unfold fill_frame at ready
            split at ready
            next => cases ready
            next =>
              split at ready
              next =>
                simp only [Reading.Turn.ready.injEq,Except.ok.injEq,Prod.mk.injEq] at ready
                simp [← ready.1]
              next => cases ready
            next => cases ready
    next next again => exact ih next polled

end FrameDecryptor

namespace ObjectReader

theorem poll_read_fits {P : Primitives} (r : ObjectReader) (cap : Nat) (piece : Bytes) (r' : ObjectReader)
    (polled : r.poll_read P cap = .ok (piece,r')) : piece.length ≤ cap := by
  have inner : ∀ {σ : Type} {into : σ → ObjectReader} {answer : Except IoError (Bytes × σ)},
      (∀ piece s, answer = .ok (piece,s) → piece.length ≤ cap) →
      (do let (piece,s) ← answer; .ok (piece,into s)) = Except.ok (piece,r') → piece.length ≤ cap := by
    intro σ into answer fits polled
    cases answer with
    | error e => cases polled
    | ok found =>
      obtain ⟨found,s⟩ := found
      cases polled
      exact fits _ s rfl
  cases r with
  | cursor f => exact inner (fun piece s => f.poll_read_fits cap piece s) polled
  | file f => exact inner (fun piece s => f.poll_read_fits cap piece s) polled
  | limited f =>
    refine inner (fun piece s answered => ?_) polled
    unfold Take.poll_read at answered
    split at answered
    next =>
      cases answered
      exact Nat.zero_le _
    next =>
      split at answered
      next => cases answered
      next given =>
        cases answered
        have short := FileReader.poll_read_fits _ _ _ _ given
        omega
  | chunks r => exact inner (fun piece s => r.poll_read_fits P cap piece s) polled
  | decrypted_file d => exact inner (fun piece s => d.poll_read_fits cap piece s) polled
  | decrypted_chunks d => exact inner (fun piece s => d.poll_read_fits cap piece s) polled

/-- No more bytes than these come out of a reader. -/
def left : ObjectReader → Nat
  | .cursor f | .file f => f.data.length - f.pos
  | .limited f => f.limit
  | .chunks r => r.remaining
  | .decrypted_file d => d.remaining
  | .decrypted_chunks d => d.remaining

end ObjectReader

theorem read_pieces_nonempty {σ : Type} {poll : Poll σ IoError UInt8} {cap turns : Nat} {s : σ} :
    ∀ piece ∈ (read_pieces poll cap turns s).1, piece ≠ [] := by
  induction turns generalizing s with
  | zero => simp [read_pieces]
  | succ turns ih =>
    rw [read_pieces]
    rcases poll s cap with e | ⟨piece,s'⟩
    · simp
    · cases piece with
      | nil => simp
      | cons b bs =>
        intro p member
        rcases List.mem_cons.mp member with rfl | later
        · simp
        · exact ih p later

theorem read_pieces_fits {σ : Type} {poll : Poll σ IoError UInt8} {cap turns : Nat} {s : σ}
    (fits : ∀ s piece s', poll s cap = .ok (piece,s') → piece.length ≤ cap) :
    ∀ piece ∈ (read_pieces poll cap turns s).1, piece.length ≤ cap := by
  induction turns generalizing s with
  | zero => simp [read_pieces]
  | succ turns ih =>
    rw [read_pieces]
    rcases polled : poll s cap with e | ⟨piece,s'⟩
    · simp
    · cases piece with
      | nil => simp
      | cons b bs =>
        intro p member
        rcases List.mem_cons.mp member with rfl | later
        · exact fits s _ s' polled
        · exact ih p later

/-- The pieces a reader is read in with the buffer of an upload. -/
def reader_stream (P : Primitives) (reader : ObjectReader) : ByteStream where
  reads := (read_pieces (ObjectReader.poll_read P) IO_BUFFER_SIZE (reader.left + 1) reader).1
  failure := (read_pieces (ObjectReader.poll_read P) IO_BUFFER_SIZE (reader.left + 1) reader).2
  nonempty := read_pieces_nonempty
  fits := read_pieces_fits fun s piece s' => s.poll_read_fits IO_BUFFER_SIZE piece s'

/-! ### The body of a completion -/

/-- What the XML reader comes across: a start or an end tag, a text with what it unescapes to, an error, or anything
    else. -/
inductive XmlEvent where
  | Start (name : String)
  | End (name : String)
  | Text (unescaped : Option String)
  | Err
  | Other
  deriving DecidableEq, Repr

def malformed_xml : S3Error := .refused "The XML you provided was not well-formed."

/-- The variables of the loop in `parse_complete_parts`. -/
structure PartsParser where
  parts : List (Nat × String)
  in_part : Bool
  in_part_number : Bool
  in_etag : Bool
  part_number : Option Nat
  etag : Option String
  deriving DecidableEq, Repr

/-- An ETag in quotes, whether or not it came with them. -/
def normalized_etag (value : String) : String :=
  if starts_with value "\"" && ends_with value "\"" then value else "\"" ++ value ++ "\""

namespace PartsParser

def new : PartsParser :=
  { parts := [], in_part := false, in_part_number := false, in_etag := false, part_number := none, etag := none }

def step (p : PartsParser) : XmlEvent → Except S3Error PartsParser
  | .Start name =>
    if name = "Part" then .ok { p with in_part := true, part_number := none, etag := none }
    else if name = "PartNumber" ∧ p.in_part then .ok { p with in_part_number := true }
    else if name = "ETag" ∧ p.in_part then .ok { p with in_etag := true }
    else .ok p
  | .Text unescaped =>
    if p.in_part_number then match unescaped with
      | none => .error malformed_xml
      | some value => match parseUnsigned (2 ^ 32 - 1) value with
        | none => .error (.invalid_part "invalid part number")
        | some n => .ok { p with part_number := some n, in_part_number := false }
    else if p.in_etag then match unescaped with
      | none => .error malformed_xml
      | some value => .ok { p with etag := some (normalized_etag value), in_etag := false }
    else .ok p
  | .End name =>
    if name = "PartNumber" then .ok { p with in_part_number := false }
    else if name = "ETag" then .ok { p with in_etag := false }
    else if name = "Part" then match p.part_number,p.etag with
      | some n,some tag => .ok { p with parts := p.parts ++ [(n,tag)], in_part := false }
      | _,_ => .error malformed_xml
    else .ok p
  | .Err => .error malformed_xml
  | .Other => .ok p

end PartsParser

/-- The part list of a body, from the events up to its end. -/
def parse_complete_parts (events : List XmlEvent) : Except S3Error (List (Nat × String)) := do
  let parser ← events.foldlM PartsParser.step .new
  .ok parser.parts

/-! ### The handlers -/

/-- The rest of an upload request: its copy source, and what its headers and its body come to. -/
structure UploadMessage where
  checksum : ChecksumRequest
  customer_key : Except S3Error (Option Bytes)
  body : Except S3Error ByteStream
  declared_size : Option Nat
  complete_body : Except S3Error (List XmlEvent)
  copy_source : Except S3Error (String × String)
  copy_source_range : Option Text

inductive UploadAnswer where
  | part (record : PartMeta)
  | copied (etag last_modified : String)
  | listed (bucket key upload_id : String) (parts : List PartMeta)
  | completed (bucket key etag : String) (result : PutResult)
  | aborted
  deriving DecidableEq, Repr

/-- The requests with an `uploadId`. -/
inductive UploadRequest where
  | upload_part | upload_part_copy | list_parts | complete_multipart_upload | abort_multipart_upload
  deriving DecidableEq, Repr

/-- `parse_copy_source_range`: first and last byte. -/
def parse_copy_source_range (header : Option Text) (src_size : Nat) : Except S3Error (Option (Nat × Nat)) :=
  match header with
  | none => .ok none
  | some header => match strip_start (String.ofList header) "bytes=" with
    | none => .error (.invalid_argument "invalid x-amz-copy-source-range format")
    | some spec => match Text.split_once '-' spec.toList with
      | none => .error (.invalid_argument "invalid x-amz-copy-source-range format")
      | some (start_str,end_str) => match parseUnsigned (2 ^ 64 - 1) (String.ofList start_str) with
        | none => .error (.invalid_argument "invalid range start")
        | some start => match parseUnsigned (2 ^ 64 - 1) (String.ofList end_str) with
          | none => .error (.invalid_argument "invalid range end")
          | some last => if start > last ∨ last ≥ src_size then .error .invalid_range else .ok (some (start,last))

section
variable (P : Primitives) (fs : FilesystemStorage) (draws : Draws)

abbrev UploadHandler (α : Type) := Prog World S3Error α

/-- A storage call whose error is turned into one of the front end. -/
def stored {α : Type} (m : Action α) : UploadHandler α := m.mapError .storage

namespace FilesystemStorage

def ensure_bucket_exists (bucket : String) : UploadHandler Unit := do
  if ← stored (fs.head_bucket bucket) then pure () else Prog.fail (.no_such_bucket bucket.toList)

end FilesystemStorage

/-- `params.get("uploadId")`. -/
def upload_id_param (params : Params) : Except S3Error String := match params.get "uploadId" with
  | none => .error (.invalid_argument "missing uploadId")
  | some text => .ok (String.ofList text)

namespace UploadRequest
variable (params : Params) (message : UploadMessage) (bucket key : String)

/-- `multipart::upload_part`, which takes no notice of the key. -/
def handle_upload_part : UploadHandler UploadAnswer := do
  fs.ensure_bucket_exists bucket
  let upload_id ← Prog.lift (upload_id_param params)
  let n ← Prog.lift (part_number params)
  let customer_key ← Prog.lift message.customer_key
  let body ← Prog.lift message.body
  let record ← stored (fs.upload_part P draws bucket upload_id n body message.checksum customer_key message.declared_size)
  pure (.part record)

/-- `object::upload_part_copy`, after the gates of both sides; it takes no notice of the key either. -/
def handle_upload_part_copy : UploadHandler UploadAnswer := do
  let (src_bucket,src_key) ← Prog.lift message.copy_source
  let upload_id ← Prog.lift (upload_id_param params)
  let n ← Prog.lift (part_number params)
  fs.ensure_bucket_exists bucket
  let src_meta ← stored (fs.head_object src_bucket src_key)
  let range ← Prog.lift (parse_copy_source_range message.copy_source_range src_meta.size)
  let customer_key ← Prog.lift message.customer_key
  let (reader,_) ← match range with
    | none => stored (fs.get_object P src_bucket src_key customer_key)
    | some (start,last) => stored (fs.get_object_range P src_bucket src_key start (last - start + 1) customer_key)
  let record ← stored (fs.upload_part P draws bucket upload_id n (reader_stream P reader) message.checksum customer_key
    message.declared_size)
  pure (.copied record.etag src_meta.last_modified)

/-- `multipart::list_parts`: the key of the answer is that of the upload. -/
def handle_list_parts : UploadHandler UploadAnswer := do
  fs.ensure_bucket_exists bucket
  let upload_id ← Prog.lift (upload_id_param params)
  let (upload,parts) ← stored (fs.list_parts bucket upload_id)
  pure (.listed bucket upload.key upload_id parts)

/-- `multipart::complete_multipart_upload`: the key of the path only goes into the answer. -/
def handle_complete_multipart_upload : UploadHandler UploadAnswer := do
  fs.ensure_bucket_exists bucket
  let upload_id ← Prog.lift (upload_id_param params)
  let events ← Prog.lift message.complete_body
  let parts ← Prog.lift (parse_complete_parts events)
  let customer_key ← Prog.lift message.customer_key
  let result ← stored (fs.complete_multipart_upload P draws bucket upload_id parts customer_key)
  pure (.completed bucket key result.etag result)

/-- `multipart::abort_multipart_upload`. -/
def handle_abort_multipart_upload : UploadHandler UploadAnswer := do
  fs.ensure_bucket_exists bucket
  let upload_id ← Prog.lift (upload_id_param params)
  stored (fs.abort_multipart_upload bucket upload_id)
  pure .aborted

/-- A request on the path `bucket`/`key`. -/
def handle : UploadRequest → UploadHandler UploadAnswer
  | .upload_part => handle_upload_part P fs draws params message bucket
  | .upload_part_copy => handle_upload_part_copy P fs draws params message bucket
  | .list_parts => handle_list_parts fs params bucket
  | .complete_multipart_upload => handle_complete_multipart_upload P fs draws params message bucket key
  | .abort_multipart_upload => handle_abort_multipart_upload fs params bucket

end UploadRequest
end
end Maxio
