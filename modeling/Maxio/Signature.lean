import Maxio.CanonicalQuery
import Maxio.Keys

/-!
Requests signed in a header: the parsed `Authorization` header, the text that is signed, and the check of the signature.
-/

namespace Maxio

/-! ### Headers -/

/-- The headers of a request, with names in lower case and every value on its own. -/
abbrev HeaderMap := List (Text × Bytes)

namespace HeaderMap

/-- `HeaderMap::get_all`. -/
def get_all (headers : HeaderMap) (name : Text) : List Bytes :=
  (headers.filter fun header => header.1 = name.map Char.toLower).map Prod.snd

/-- `HeaderMap::get`: the first value. -/
def get (headers : HeaderMap) (name : String) : Option Bytes := (headers.get_all name.toList).head?

end HeaderMap

def visible_ascii (b : UInt8) : Bool := 32 ≤ b && b < 127 || b = 9

/-- `HeaderValue::to_str`. -/
def to_str (value : Bytes) : Option Text :=
  if value.all visible_ascii then some (value.map fun b => Char.ofNat b.toNat) else none

/-! ### The header -/

structure ParsedAuth where
  access_key : Text
  date : Text
  region : Text
  signed_headers : List Text
  signature : Text
  deriving DecidableEq, Repr

/-- `str::strip_prefix`. -/
def strip_front (front t : Text) : Option Text := if front.isPrefixOf t then some (t.drop front.length) else none

/-- The last part with this name, without the name. -/
def last_part (name : String) (parts : List Text) : Option Text := (parts.filterMap (strip_front name.toList)).getLast?

def parse_authorization_header (header : Text) : Except String ParsedAuth :=
  match strip_front "AWS4-HMAC-SHA256 ".toList header with
  | none => .error "Invalid auth algorithm"
  | some header =>
    let parts := (splitChars ',' header).map Text.trim
    match last_part "Credential=" parts,last_part "SignedHeaders=" parts,last_part "Signature=" parts with
    | none,_,_ => .error "Missing Credential"
    | some _,none,_ => .error "Missing SignedHeaders"
    | some _,some _,none => .error "Missing Signature"
    | some credential,some signed_headers,some signature => match splitChars '/' credential with
      | access_key :: date :: region :: _ :: _ :: _ =>
        .ok ⟨access_key,date,region,splitChars ';' signed_headers,signature⟩
      | _ => .error "Invalid Credential format"

/-! ### The signed text -/

def canonical_uri (uri : Text) : Text :=
  let path := Text.first_piece '?' uri
  if path = [] ∨ path = ['/'] then ['/']
  else ['/'].intercalate ((splitChars '/' path).map fun s => utf8_percent_encode (decode_utf8_lossy s) S3_URI_ENCODE)

/-- What is signed of one header: its readable values, joined and trimmed. -/
def signed_value (headers : HeaderMap) (name : Text) : Text :=
  Text.trim ([','].intercalate ((headers.get_all name).filterMap to_str))

def canonical_headers (headers : HeaderMap) (signed_headers : List Text) : Text :=
  signed_headers.flatMap fun name => name ++ ':' :: signed_value headers name ++ ['\n']

def payload_hash (headers : HeaderMap) : Text :=
  ((headers.get "x-amz-content-sha256").bind to_str).getD "UNSIGNED-PAYLOAD".toList

def build_canonical_request (method uri query_string : Text) (headers : HeaderMap) (parsed : ParsedAuth) : Text :=
  ['\n'].intercalate [method,canonical_uri uri,canonical_query_string query_string,
    canonical_headers headers parsed.signed_headers,[';'].intercalate parsed.signed_headers,payload_hash headers]

section
variable (P : Primitives)

def build_string_to_sign (canonical_request timestamp : Text) (parsed : ParsedAuth) : Text :=
  let scope := parsed.date ++ '/' :: parsed.region ++ "/s3/aws4_request".toList
  let canonical_hash := hexChars (P.sha256 canonical_request.bytes)
  ['\n'].intercalate ["AWS4-HMAC-SHA256".toList,timestamp,scope,canonical_hash]

def derive_signing_key (secret_key date region : Text) : Bytes :=
  let key : Text := "AWS4".toList ++ secret_key
  let date_key := P.hmac_sha256 key.bytes date.bytes
  let date_region_key := P.hmac_sha256 date_key region.bytes
  let date_region_service_key := P.hmac_sha256 date_region_key (Text.bytes "s3".toList)
  P.hmac_sha256 date_region_service_key (Text.bytes "aws4_request".toList)

/-! ### The check -/

def request_timestamp (headers : HeaderMap) : Text := ((headers.get "x-amz-date").bind to_str).getD []

/-- The signature of a request under a key. -/
def computed_signature (method uri query_string : Text) (headers : HeaderMap) (parsed : ParsedAuth)
    (secret_key : Text) : Text :=
  let canonical_request := build_canonical_request method uri query_string headers parsed
  let string_to_sign := build_string_to_sign P canonical_request (request_timestamp headers) parsed
  hexChars (P.hmac_sha256 (derive_signing_key P secret_key parsed.date parsed.region) string_to_sign.bytes)

def verify_signature (method uri query_string : Text) (headers : HeaderMap) (parsed : ParsedAuth) (secret_key : Text) :
    Bool :=
  constant_time_eq (computed_signature P method uri query_string headers parsed secret_key).bytes parsed.signature.bytes

end
end Maxio
