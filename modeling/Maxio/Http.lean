import Maxio.Primitives

/-!
The text of a request: percent escapes, form-encoded queries, and how the S3 router cuts a path. A text is the
list of its characters.
-/

namespace Maxio

abbrev Text := List Char

namespace Text

/-- `str::trim_start_matches` for one character. -/
def trim_start (c : Char) (t : Text) : Text := t.dropWhile fun x => x = c

/-- `str::split_once` on one character. -/
def split_once (sep : Char) : Text → Option (Text × Text)
  | [] => none
  | c :: rest => if c = sep then some ([],rest) else (split_once sep rest).map fun cut => (c :: cut.1,cut.2)

/-- The text before the first separator: `split(sep).next()`. -/
def first_piece (sep : Char) (t : Text) : Text := t.takeWhile fun x => x ≠ sep

/-- `str::eq_ignore_ascii_case`. -/
def eq_ignore_ascii_case (s t : Text) : Bool := s.map Char.toLower = t.map Char.toLower

/-- `str::trim` of a header value, whose characters are printable ASCII, blank or tab. -/
def trim (t : Text) : Text :=
  let blank (c : Char) : Bool := c.isWhitespace
  ((t.dropWhile blank).reverse.dropWhile blank).reverse

def bytes (t : Text) : Bytes := t.flatMap String.utf8EncodeChar

end Text

/-! ### Percent escapes -/

def hex_value (b : UInt8) : Option UInt8 :=
  if 0x30 ≤ b ∧ b ≤ 0x39 then some (b - 0x30)
  else if 0x41 ≤ b ∧ b ≤ 0x46 then some (b - 0x37)
  else if 0x61 ≤ b ∧ b ≤ 0x66 then some (b - 0x57)
  else none

/-- `percent_decode`: an escape with two hex digits becomes its byte, everything else stays. -/
def percent_decode : Bytes → Bytes
  | [] => []
  | [b] => [b]
  | [b,c] => [b,c]
  | b :: h :: l :: rest =>
    if b = 0x25 then
      match hex_value h,hex_value l with
      | some x,some y => (16 * x + y) :: percent_decode rest
      | _,_ => b :: percent_decode (h :: l :: rest)
    else b :: percent_decode (h :: l :: rest)

/-! ### UTF-8 -/

def continuation (b : UInt8) : Bool := 0x80 ≤ b && b ≤ 0xBF

/-- Second bytes that may follow the first byte of a sequence of three. -/
def second_of_three (first second : UInt8) : Bool :=
  if first = 0xE0 then 0xA0 ≤ second && second ≤ 0xBF
  else if first = 0xED then 0x80 ≤ second && second ≤ 0x9F
  else continuation second

/-- Second bytes that may follow the first byte of a sequence of four. -/
def second_of_four (first second : UInt8) : Bool :=
  if first = 0xF0 then 0x90 ≤ second && second ≤ 0xBF
  else if first = 0xF4 then 0x80 ≤ second && second ≤ 0x8F
  else continuation second

def low_bits (b : UInt8) : Nat := b.toNat % 64

/-- `String::from_utf8_lossy`: each longest broken sequence becomes one replacement character. -/
def from_utf8_lossy : Bytes → Text
  | [] => []
  | a :: rest =>
    if a < 0x80 then Char.ofNat a.toNat :: from_utf8_lossy rest
    else if 0xC2 ≤ a ∧ a ≤ 0xDF then
      match rest with
      | b :: after =>
        if continuation b then Char.ofNat (a.toNat % 32 * 64 + low_bits b) :: from_utf8_lossy after
        else '\uFFFD' :: from_utf8_lossy (b :: after)
      | [] => ['\uFFFD']
    else if 0xE0 ≤ a ∧ a ≤ 0xEF then
      match rest with
      | b :: c :: after =>
        if second_of_three a b then
          if continuation c then
            Char.ofNat (a.toNat % 16 * 4096 + low_bits b * 64 + low_bits c) :: from_utf8_lossy after
          else '\uFFFD' :: from_utf8_lossy (c :: after)
        else '\uFFFD' :: from_utf8_lossy (b :: c :: after)
      | [b] => if second_of_three a b then ['\uFFFD'] else '\uFFFD' :: from_utf8_lossy [b]
      | [] => ['\uFFFD']
    else if 0xF0 ≤ a ∧ a ≤ 0xF4 then
      match rest with
      | b :: c :: d :: after =>
        if second_of_four a b then
          if continuation c then
            if continuation d then
              Char.ofNat (a.toNat % 8 * 262144 + low_bits b * 4096 + low_bits c * 64 + low_bits d) ::
                from_utf8_lossy after
            else '\uFFFD' :: from_utf8_lossy (d :: after)
          else '\uFFFD' :: from_utf8_lossy (c :: d :: after)
        else '\uFFFD' :: from_utf8_lossy (b :: c :: d :: after)
      | [b,c] =>
        if second_of_four a b then
          if continuation c then ['\uFFFD'] else '\uFFFD' :: from_utf8_lossy [c]
        else '\uFFFD' :: from_utf8_lossy [b,c]
      | [b] => if second_of_four a b then ['\uFFFD'] else '\uFFFD' :: from_utf8_lossy [b]
      | [] => ['\uFFFD']
    else '\uFFFD' :: from_utf8_lossy rest

/-- `str::from_utf8`: a text only for the bytes that encode it. -/
def from_utf8 (data : Bytes) : Option Text :=
  if (from_utf8_lossy data).bytes = data then some (from_utf8_lossy data) else none

/-- `percent_decode_str(..).decode_utf8()`. -/
def decode_utf8 (t : Text) : Option Text := from_utf8 (percent_decode t.bytes)

/-- `percent_decode_str(..).decode_utf8_lossy()`. -/
def decode_utf8_lossy (t : Text) : Text := from_utf8_lossy (percent_decode t.bytes)

/-! ### Queries -/

/-- Parameters of a query after decoding, in the order of the query. -/
abbrev Params := List (Text × Text)

namespace Params

def contains_key (params : Params) (name : String) : Bool := params.any fun entry => entry.1 = name.toList

/-- `HashMap::get`: of two parameters with one name the last one was kept. -/
def get (params : Params) (name : String) : Option Text :=
  (params.reverse.find? fun entry => entry.1 = name.toList).map Prod.snd

/-- The entries of the hash map the parameters were collected into. -/
def entries : Params → Params
  | [] => []
  | entry :: rest => if rest.any fun later => later.1 = entry.1 then entries rest else entry :: entries rest

end Params

/-- `form_urlencoded`: a plus sign is a blank. -/
def form_decode (t : Text) : Text := decode_utf8_lossy (t.map fun c => if c = '+' then ' ' else c)

/-- The name and the value of one piece of a query. -/
def form_pair (piece : Text) : Text × Text := match Text.split_once '=' piece with
  | some (name,value) => (form_decode name,form_decode value)
  | none => (form_decode piece,[])

/-- What the `Query` extractor makes of a query string. -/
def parse_query (query : Text) : Params := ((splitChars '&' query).filter fun piece => piece ≠ []).map form_pair

/-- `query_has_key` and `has_query_key`: the raw name of some piece, case aside. -/
def query_has_key (query : Text) (key : String) : Bool :=
  (splitChars '&' query).any fun piece => Text.eq_ignore_ascii_case (Text.first_piece '=' piece) key.toList

/-! ### Routes -/

/-- A path as the router of the S3 interface matches it, before its parameters are decoded. -/
inductive Route where
  | root
  | bucket (segment : Text)
  | object (segment rest : Text)
  deriving DecidableEq, Repr

/-- `/`, `/{bucket}`, `/{bucket}/` and `/{bucket}/{*key}`; no parameter is empty. -/
def route : Text → Option Route
  | '/' :: path => match Text.split_once '/' path with
    | none => if path = [] then some .root else some (.bucket path)
    | some (segment,rest) =>
      if segment = [] then none
      else if rest = [] then some (.bucket segment)
      else some (.object segment rest)
  | _ => none

example : route "/logs/a/b".toList = some (.object "logs".toList "a/b".toList) := by decide
example : route "/logs/".toList = some (.bucket "logs".toList) := by decide +kernel

end Maxio
