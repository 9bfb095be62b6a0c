import Maxio.EventSpoolSpec
import Maxio.Listing
import Maxio.Loops
import Maxio.Pieces
import Maxio.Policy
import Maxio.Server

/-!
`ListObjects` and `ListObjectsV2`: one page of the objects the storage lists, and a client that asks for page after
page. A page is cut by the number of objects before they are grouped by the delimiter.
-/

namespace Maxio

/-! ### Parameters -/

/-- `str::parse::<i64>`: at most one sign, then decimal digits. -/
def parse_i64 (raw : Text) : Option Int :=
  let (negative,unsigned) := match raw with
    | '-' :: rest => (true,rest)
    | '+' :: rest => (false,rest)
    | _ => (false,raw)
  let (found,rest) := digits 10 unsigned
  let value : Int := found.foldl (fun n d => n * 10 + d) 0
  let n := if negative then -value else value
  if found = [] ∨ rest ≠ [] ∨ n < -2 ^ 63 ∨ 2 ^ 63 ≤ n then none else some n

def parse_max_keys (params : Params) : Except S3Error Nat := match params.get "max-keys" with
  | none => .ok 1000
  | some raw => match parse_i64 raw with
    | none => .error (.invalid_argument "Invalid value for max-keys")
    | some n =>
      if n < 0 then .error (.invalid_argument "Invalid value for max-keys")
      else .ok (min n.toNat 1000)

example : (parse_max_keys [("max-keys".toList,"5000".toList)]).toOption = some 1000 := by decide
example : (parse_max_keys [("max-keys".toList,"-1".toList)]).toOption = none := by decide +kernel

/-! ### Grouping -/

/-- The order of strings: by their bytes. -/
def strLt (a b : String) : Prop := utf8 a < utf8 b

instance : DecidableRel strLt := fun a b => inferInstanceAs (Decidable (utf8 a < utf8 b))

structure ObjectEntry where
  key : String
  last_modified : String
  etag : String
  size : Nat
  storage_class : String
  deriving DecidableEq, Repr

structure CommonPrefix where
  stem : String
  deriving DecidableEq, Repr

def object_entry (o : ObjectMeta) : ObjectEntry :=
  { key := o.key, last_modified := o.last_modified, etag := o.etag, size := o.size, storage_class := "STANDARD" }

/-- A text through the end of the first place where `delim` stands in it. -/
def through_first (delim : Text) : Text → Option Text
  | [] => if delim = [] then some [] else none
  | c :: rest =>
    if delim.isPrefixOf (c :: rest) then some delim else (through_first delim rest).map fun found => c :: found

/-- The common prefix a key is grouped under. A listed key starts with the prefix up to the case of ASCII letters, so
that as many characters are cut off as bytes. -/
def common_prefix (stem delim : Text) (key : String) : Option String :=
  (through_first delim (key.toList.drop stem.length)).map fun found => String.ofList (stem ++ found)

/-- `common_prefix` for the delimiter of a request, if it has one. -/
def grouped (stem : Text) (delimiter : Option Text) (o : ObjectMeta) : Option String :=
  delimiter.bind fun delim => common_prefix stem delim o.key

/-- The objects that stand for themselves, and the common prefixes of the others: an ordered set. -/
def split_by_delimiter (page : List ObjectMeta) (stem : Text) (delimiter : Option Text) :
    List ObjectEntry × List CommonPrefix :=
  ((page.filter fun o => (grouped stem delimiter o).isNone).map object_entry,
    ((page.filterMap (grouped stem delimiter)).dedup.insertionSort strLe).map CommonPrefix.mk)

/-! ### One page -/

/-- What both versions compute alike: the page behind `start`, and its last key when more objects follow. -/
structure ListPage where
  is_truncated : Bool
  last_key : Option String
  contents : List ObjectEntry
  common_prefixes : List CommonPrefix
  deriving DecidableEq, Repr

def is_behind (start : Option String) (o : ObjectMeta) : Bool := match start with
  | some start => strLt start o.key
  | none => true

def list_page (all_objects : List ObjectMeta) (start : Option String) (max_keys : Nat) (stem : Text)
    (delimiter : Option Text) : ListPage :=
  let filtered := all_objects.filter (is_behind start)
  let is_truncated := decide (max_keys < filtered.length)
  let page := filtered.take max_keys
  let (contents,common_prefixes) := split_by_delimiter page stem delimiter
  { is_truncated := is_truncated
    last_key := if is_truncated then page.getLast?.map ObjectMeta.key else none
    contents := contents
    common_prefixes := common_prefixes }

/-- The `prefix` parameter. -/
def Params.stem (params : Params) : Text := (params.get "prefix").getD []

structure ListBucketResult where
  name : String
  stem : Text
  key_count : Nat
  max_keys : Nat
  is_truncated : Bool
  contents : List ObjectEntry
  common_prefixes : List CommonPrefix
  continuation_token : Option Text
  next_continuation_token : Option Text
  delimiter : Option Text
  start_after : Option Text
  deriving DecidableEq, Repr

structure ListBucketResultV1 where
  name : String
  stem : Text
  marker : Text
  next_marker : Option Text
  max_keys : Nat
  is_truncated : Bool
  contents : List ObjectEntry
  common_prefixes : List CommonPrefix
  delimiter : Option Text
  deriving DecidableEq, Repr

section
variable (P : Primitives)

/-- The token of a key. -/
def encode_token (key : String) : Text := (P.b64_encode (utf8 key)).toList

/-- The key a token stands for; a token that is no base64 of UTF-8 is ignored. -/
def decode_token (token : Text) : Option String := (P.b64_decode (String.ofList token)).bind read_to_string

def effective_start (params : Params) : Option String :=
  ((params.get "continuation-token").bind (decode_token P)).or ((params.get "start-after").map String.ofList)

/-- `list_objects_v2` on the objects the storage listed under the prefix. -/
def list_objects_v2 (all_objects : List ObjectMeta) (bucket : String) (params : Params) :
    Except S3Error ListBucketResult := do
  let max_keys ← parse_max_keys params
  let page := list_page all_objects (effective_start P params) max_keys params.stem (params.get "delimiter")
  pure
    { name := bucket
      stem := params.stem
      key_count := page.contents.length + page.common_prefixes.length
      max_keys := max_keys
      is_truncated := page.is_truncated
      contents := page.contents
      common_prefixes := page.common_prefixes
      continuation_token := params.get "continuation-token"
      next_continuation_token := page.last_key.map (encode_token P)
      delimiter := params.get "delimiter"
      start_after := params.get "start-after" }

end

def marker_start (params : Params) : Option String := (params.get "marker").map String.ofList

/-- `list_objects_v1` on the objects the storage listed under the prefix. -/
def list_objects_v1 (all_objects : List ObjectMeta) (bucket : String) (params : Params) :
    Except S3Error ListBucketResultV1 := do
  let max_keys ← parse_max_keys params
  let page := list_page all_objects (marker_start params) max_keys params.stem (params.get "delimiter")
  pure
    { name := bucket
      stem := params.stem
      marker := (params.get "marker").getD []
      next_marker := page.last_key.map String.toList
      max_keys := max_keys
      is_truncated := page.is_truncated
      contents := page.contents
      common_prefixes := page.common_prefixes
      delimiter := params.get "delimiter" }

/-! ### Page after page -/

/-- The parameters with one of them set. -/
def Params.set (params : Params) (name : String) (value : Text) : Params :=
  params.filter (fun entry => entry.1 ≠ name.toList) ++ [(name.toList,value)]

/-- A client that hands the token of one answer to the next request, under the name `carrier`. -/
structure Pager (Answer : Type) where
  answer : Params → Except S3Error Answer
  is_truncated : Answer → Bool
  next_token : Answer → Option Text
  carrier : String

/-- Ask for one more page, unless the last one was the end or came without a token. -/
def Pager.turn {Answer : Type} (pager : Pager Answer) (s : Params × List Answer) :
    (Params × List Answer) ⊕ Except S3Error (List Answer) :=
  match pager.answer s.1 with
  | .error e => .inr (.error e)
  | .ok a =>
    let answers := s.2 ++ [a]
    match pager.is_truncated a,pager.next_token a with
    | true,some token => .inl (s.1.set pager.carrier token,answers)
    | _,_ => .inr (.ok answers)

def pager_v2 (P : Primitives) (all_objects : List ObjectMeta) (bucket : String) : Pager ListBucketResult :=
  { answer := list_objects_v2 P all_objects bucket
    is_truncated := ListBucketResult.is_truncated
    next_token := ListBucketResult.next_continuation_token
    carrier := "continuation-token" }

def pager_v1 (all_objects : List ObjectMeta) (bucket : String) : Pager ListBucketResultV1 :=
  { answer := list_objects_v1 all_objects bucket
    is_truncated := ListBucketResultV1.is_truncated
    next_token := ListBucketResultV1.next_marker
    carrier := "marker" }

end Maxio
