import Maxio.SignedHeaders
import Maxio.Networks
import Maxio.Server

/-!
From the body of an upload request to the reader that storage is handed: the raw body, or the chunks of a streaming
signature. The hash of the payload is signed, and not compared with the body.
-/

namespace Maxio

/-! ### Readers -/

/-- A `Cursor` on bytes in memory. -/
def ByteStream.cursor (data : Bytes) : ByteStream where
  reads := Chunking.pieces IO_BUFFER_SIZE data
  failure := none
  nonempty piece member := (Chunking.pieces_length (by decide) data piece member).1
  fits piece member := (Chunking.pieces_length (by decide) data piece member).2

theorem ByteStream.body_cursor (data : Bytes) : (ByteStream.cursor data).body = data :=
  Chunking.flatten_pieces (by decide) data

/-- `S3Error::internal`: the cause is logged, not sent. -/
def internal : S3Error := .refused "We encountered an internal error. Please try again."

def bad_digest : S3Error := .refused "The Content-MD5 you specified did not match what we received."

/-! ### Chunks -/

/-- `read_line`: up to and with the first line break, or all there is; and the rest. -/
def read_line (data : Bytes) (failure : Option IoError) : Except S3Error (Text × Bytes) :=
  let line := data.takeWhile fun b => b ≠ 10
  let next : Except S3Error (Bytes × Bytes) := match data.dropWhile fun b => b ≠ 10 with
    | b :: rest => .ok (line ++ [b],rest)
    | [] => if failure.isSome then .error internal else .ok (line,[])
  next.bind fun (line,rest) => match from_utf8 line with
    | some text => .ok (text,rest)
    | none => .error internal

/-- `usize::from_str_radix(.., 16)`. -/
def from_str_radix_16 (s : Text) : Option Nat :=
  let unsigned := match s with
    | '+' :: rest => rest
    | s => s
  let (found,rest) := digits 16 unsigned
  let value := found.foldl (fun n d => n * 16 + d) 0
  if found.isEmpty ∨ ¬ rest.isEmpty ∨ 2 ^ 64 ≤ value then none else some value

/-- The size in the line before a chunk. -/
def chunk_size (line : Text) : Option Nat :=
  let line := (line.reverse.dropWhile fun c => c = '\r' ∨ c = '\n').reverse
  from_str_radix_16 (str_trim (Text.first_piece ';' line))

/-- The loop over the chunks. No vector has `2 ^ 63` bytes: making one panics. The two bytes after a chunk are read and
    not looked at, and a failure met there is forgotten. -/
def decode_chunks : Nat → Bytes → Option IoError → Bytes → Option (Except S3Error Bytes)
  | 0,_,_,decoded => some (.ok decoded)
  | turns + 1,data,failure,decoded => match read_line data failure with
    | .error e => some (.error e)
    | .ok ([],_) => some (.ok decoded)
    | .ok (line,rest) => match chunk_size line with
      | none => some (.error internal)
      | some 0 => some (.ok decoded)
      | some size =>
        if 2 ^ 63 ≤ size then none
        else if rest.length < size then some (.error internal)
        else
          let after := rest.drop size
          let failure := if after.length < 2 then none else failure
          decode_chunks turns (after.drop 2) failure (decoded ++ rest.take size)

/-! ### From a request to storage -/

def is_aws_chunked (headers : HeaderMap) : Bool :=
  (headers.get "x-amz-content-sha256").bind to_str = some "STREAMING-AWS4-HMAC-SHA256-PAYLOAD".toList

/-- Every turn of the loop takes a byte at least, so that the bytes and one are turns enough. -/
def body_to_reader (headers : HeaderMap) (body : ByteStream) : Option (Except S3Error ByteStream) :=
  if is_aws_chunked headers then
    (decode_chunks (body.body.length + 1) body.body body.failure []).map fun decoded => decoded.map .cursor
  else some (.ok body)

def content_type (headers : HeaderMap) : Text :=
  ((headers.get "content-type").bind to_str).getD "application/octet-stream".toList

def content_md5 (headers : HeaderMap) : Option Text := (headers.get "content-md5").bind to_str

/-- `ChecksumAlgorithm::from_header_str`. -/
def from_header_str (s : Text) : Option ChecksumAlgorithm :=
  let upper := s.map Char.toUpper
  if upper = "CRC32".toList then some .CRC32
  else if upper = "CRC32C".toList then some .CRC32C
  else if upper = "SHA1".toList then some .SHA1
  else if upper = "SHA256".toList then some .SHA256
  else none

def checksum_pairs : List (String × ChecksumAlgorithm) :=
  [("x-amz-checksum-crc32",.CRC32),("x-amz-checksum-crc32c",.CRC32C),("x-amz-checksum-sha1",.SHA1),
   ("x-amz-checksum-sha256",.SHA256)]

def extract_checksum (headers : HeaderMap) : ChecksumRequest :=
  match checksum_pairs.findSome? fun (header,algo) => ((headers.get header).bind to_str).map fun val => (algo,val) with
  | some (algo,val) => some (algo,some (String.ofList val))
  | none => (((headers.get "x-amz-checksum-algorithm").bind to_str).bind from_header_str).map fun algo => (algo,none)

def parse_content_length (headers : HeaderMap) : Option Nat :=
  ((headers.get "content-length").bind to_str).bind fun s => parseUnsigned (2 ^ 64 - 1) (String.ofList s)

/-- What an upload hands to storage of its headers and its body. -/
structure Upload where
  reader : ByteStream
  checksum : ChecksumRequest
  declared_size : Option Nat

/-- The reader `put_object` goes on with when a body was sent with its MD5, which is read as a whole first. -/
def checked_md5 (P : Primitives) (headers : HeaderMap) (reader : ByteStream) : Except S3Error ByteStream :=
  match content_md5 headers with
  | none => .ok reader
  | some expected_md5 =>
    if reader.failure.isSome then .error internal
    else if P.b64_encode (P.md5 reader.body) ≠ String.ofList expected_md5 then .error bad_digest
    else .ok (.cursor reader.body)

/-- `put_object`, from the body to the call of storage. -/
def put_object_upload (P : Primitives) (headers : HeaderMap) (body : ByteStream) : Option (Except S3Error Upload) :=
  (body_to_reader headers body).map fun read => do
    let reader ← checked_md5 P headers (← read)
    return ⟨reader,extract_checksum headers,parse_content_length headers⟩

/-- `upload_part`, from the body to the call of storage. -/
def upload_part_upload (headers : HeaderMap) (body : ByteStream) : Option (Except S3Error Upload) :=
  (body_to_reader headers body).map fun read => do
    return ⟨← read,extract_checksum headers,parse_content_length headers⟩

/-! ### The hash of the payload -/

/-- A SHA-256 in hexadecimal. -/
def HexHash (t : Text) : Prop := t.length = 64 ∧ ∀ c ∈ t, (hexValue c).isSome

instance (t : Text) : Decidable (HexHash t) := inferInstanceAs (Decidable (_ ∧ _))

theorem length_hexChars (data : Bytes) : (hexChars data).length = 2 * data.length := by
  induction data with
  | nil => rfl
  | cons b rest ih =>
    rw [hexChars,List.length_cons,List.length_cons,ih,List.length_cons]
    ring

theorem hexChars_hex (data : Bytes) : ∀ c ∈ hexChars data, (hexValue c).isSome := by
  have digit : ∀ n < 16, (hexValue (hexDigit n)).isSome := by decide
  induction data with
  | nil => simp [hexChars]
  | cons b rest ih =>
    have high : b.toNat / 16 < 16 := by
      have := b.toNat_lt
      omega
    intro c member
    rw [hexChars,List.mem_cons,List.mem_cons] at member
    rcases member with rfl | rfl | later
    · exact digit _ high
    · exact digit _ (Nat.mod_lt _ (by decide))
    · exact ih c later

/-- Every digest of SHA-256 is written so. -/
theorem hexHash_hexChars {digest : Bytes} (long : digest.length = 32) : HexHash (hexChars digest) := by
  refine ⟨?_,hexChars_hex digest⟩
  rw [length_hexChars,long]

theorem HexHash.not_chunked {headers : HeaderMap} (hashed : HexHash (payload_hash headers)) :
    is_aws_chunked headers = false := by
  by_cases chunked : is_aws_chunked headers = true
  · rw [is_aws_chunked,decide_eq_true_eq] at chunked
    have long := hashed.1
    rw [payload_hash,chunked] at long
    exact absurd long (by decide)
  · simpa using chunked

theorem HexHash.body_to_reader {headers : HeaderMap} (hashed : HexHash (payload_hash headers)) (body : ByteStream) :
    body_to_reader headers body = some (.ok body) := by
  rw [Maxio.body_to_reader,hashed.not_chunked]
  rfl

theorem checked_md5_body {P : Primitives} {headers : HeaderMap} {body reader : ByteStream}
    (checked : checked_md5 P headers body = .ok reader) :
    reader.body = body.body ∧ reader.failure = body.failure := by
  unfold checked_md5 at checked
  split at checked
  next =>
    cases checked
    exact ⟨rfl,rfl⟩
  next =>
    split_ifs at checked with ended
    cases checked
    exact ⟨ByteStream.body_cursor _,(Option.not_isSome_iff_eq_none.mp ended).symm⟩

theorem checked_md5_ok_iff {P : Primitives} {headers : HeaderMap} {body : ByteStream} :
    (∃ reader, checked_md5 P headers body = .ok reader) ↔ ∀ expected, content_md5 headers = some expected →
      body.failure = none ∧ P.b64_encode (P.md5 body.body) = String.ofList expected := by
  cases named : content_md5 headers with
  | none => simp [checked_md5,named]
  | some expected =>
    simp only [checked_md5,named,Option.some.injEq,forall_eq']
    cases ended : body.failure with
    | some e => simp
    | none =>
      by_cases same : P.b64_encode (P.md5 body.body) = String.ofList expected
      · simp [same]
      · simp [same]

/-- What the handlers read of the headers of an upload, apart from the hash of the payload. -/
def SameButHash (headers headers' : HeaderMap) : Prop :=
  ∀ name, name ≠ "x-amz-content-sha256" → headers.get name = headers'.get name

namespace SameButHash
variable {headers headers' : HeaderMap} (same : SameButHash headers headers')

include same

theorem content_md5 : content_md5 headers = content_md5 headers' := by
  rw [Maxio.content_md5,Maxio.content_md5,same _ (by decide)]

theorem checked_md5 (P : Primitives) (body : ByteStream) : checked_md5 P headers body = checked_md5 P headers' body := by
  rw [Maxio.checked_md5,Maxio.checked_md5,same.content_md5]

theorem extract_checksum : extract_checksum headers = extract_checksum headers' := by
  have other : ∀ pair ∈ checksum_pairs, pair.1 ≠ "x-amz-content-sha256" := by decide
  have first : ∀ pairs ⊆ checksum_pairs,
      pairs.findSome? (fun (header,algo) => ((headers.get header).bind to_str).map fun val => (algo,val)) =
        pairs.findSome? fun (header,algo) => ((headers'.get header).bind to_str).map fun val => (algo,val) := by
    intro pairs inside
    induction pairs with
    | nil => rfl
    | cons pair rest ih =>
      have here := same pair.1 (other pair (inside List.mem_cons_self))
      have later := ih fun p member => inside (List.mem_cons_of_mem _ member)
      obtain ⟨header,algo⟩ := pair
      simp only [List.findSome?_cons,here,later]
  rw [Maxio.extract_checksum,Maxio.extract_checksum,first _ (List.Subset.refl _),
    same "x-amz-checksum-algorithm" (by decide)]

theorem parse_content_length : parse_content_length headers = parse_content_length headers' := by
  rw [Maxio.parse_content_length,Maxio.parse_content_length,same _ (by decide)]

end SameButHash

theorem HexHash.upload_part_upload {headers : HeaderMap} (hashed : HexHash (payload_hash headers)) (body : ByteStream) :
    upload_part_upload headers body =
      some (.ok ⟨body,extract_checksum headers,parse_content_length headers⟩) := by
  rw [Maxio.upload_part_upload,hashed.body_to_reader]
  rfl

theorem HexHash.put_object_upload {headers : HeaderMap} (hashed : HexHash (payload_hash headers)) (P : Primitives)
    (body : ByteStream) : put_object_upload P headers body = some ((checked_md5 P headers body).map fun reader =>
      ⟨reader,extract_checksum headers,parse_content_length headers⟩) := by
  rw [Maxio.put_object_upload,hashed.body_to_reader,Option.map_some]
  cases checked : checked_md5 P headers body with
  | error e => simp [checked,bind,Except.bind,Except.map]
  | ok reader => simp [checked,bind,Except.bind,Except.map,pure,Except.pure]

/-- The signature is not part of what is signed. -/
theorem computed_signature_unsigned (P : Primitives) (method uri query : Text) (headers : HeaderMap)
    (parsed : ParsedAuth) (signature secret_key : Text) :
    computed_signature P method uri query headers { parsed with signature := signature } secret_key =
      computed_signature P method uri query headers parsed secret_key := rfl

namespace Sample

/-- The SHA-256 of a zero byte. -/
def zero_hash : Text := hexChars (primitives.sha256 [0])

/-- An upload into `logs`, signed with the hash of a zero byte. -/
def upload_headers : HeaderMap :=
  [("host".toList,utf8 "maxio.test"),("x-amz-date".toList,utf8 "20260101T000000Z"),
   ("content-type".toList,utf8 "text/plain"),("x-amz-content-sha256".toList,zero_hash.bytes)]

def upload_unsigned : ParsedAuth :=
  ⟨"maxioadmin".toList,"20260101".toList,"us-east-1".toList,
   ["host".toList,"x-amz-content-sha256".toList,"x-amz-date".toList],[]⟩

def upload_auth : ParsedAuth := { upload_unsigned with
  signature := computed_signature primitives "PUT".toList "/logs/a".toList [] upload_headers upload_unsigned
    "secret".toList }

theorem upload_accepted : verify_signature primitives "PUT".toList "/logs/a".toList [] upload_headers upload_auth
    "secret".toList = true := by
  rw [verify_signature_iff,upload_auth]
  exact computed_signature_unsigned ..

theorem upload_payload : payload_hash upload_headers = zero_hash := by decide +kernel

theorem upload_hashed : HexHash (payload_hash upload_headers) := by
  rw [upload_payload]
  exact hexHash_hexChars (by decide +kernel)

theorem upload_handed_on : put_object_upload primitives upload_headers (stream abc (by decide) (by decide)) =
    some (.ok ⟨stream abc (by decide) (by decide),none,none⟩) := by
  have unnamed : content_md5 upload_headers = none := by decide +kernel
  have unchecked : extract_checksum upload_headers = none := by decide +kernel
  have undeclared : parse_content_length upload_headers = none := by decide +kernel
  rw [upload_hashed.put_object_upload,checked_md5,unnamed,unchecked,undeclared]
  rfl

end Sample

end Maxio
