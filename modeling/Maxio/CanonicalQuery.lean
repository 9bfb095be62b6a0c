import Maxio.Escapes

/-!
The canonical query string of a signature: what it is made of, and which queries share one.
-/

namespace Maxio

/-! ### Percent encoding -/

/-- `is_ascii_alphanumeric`. -/
def ascii_alphanumeric (b : UInt8) : Bool :=
  0x30 ≤ b && b ≤ 0x39 || 0x41 ≤ b && b ≤ 0x5A || 0x61 ≤ b && b ≤ 0x7A

/-- The bytes that are escaped: every one but letters, digits and `-`, `_`, `.`, `~`. -/
def S3_URI_ENCODE (b : UInt8) : Bool := !(ascii_alphanumeric b || [0x2D,0x5F,0x2E,0x7E].contains b)

def upper_hex (n : Nat) : Char := if n < 10 then Char.ofNat (48 + n) else Char.ofNat (55 + n)

def percent_encode_byte (b : UInt8) : Text := ['%',upper_hex (b.toNat / 16),upper_hex (b.toNat % 16)]

/-- `utf8_percent_encode`. -/
def utf8_percent_encode (t : Text) (ascii_set : UInt8 → Bool) : Text :=
  t.bytes.flatMap fun b => if ascii_set b then percent_encode_byte b else [Char.ofNat b.toNat]

/-! ### The canonical query string -/

/-- Names and values after percent-decoding, in the order of the query. -/
def decoded_pairs (qs : Text) : Params :=
  ((splitChars '&' qs).filter fun piece => piece ≠ []).map fun piece =>
    (decode_utf8_lossy (raw_pair piece).1,decode_utf8_lossy (raw_pair piece).2)

/-- The order of pairs of strings, which are compared by their bytes. -/
def pairLe (p q : Text × Text) : Prop := p.1.bytes < q.1.bytes ∨ p.1.bytes = q.1.bytes ∧ p.2.bytes ≤ q.2.bytes

instance : DecidableRel pairLe := fun p q =>
  inferInstanceAs (Decidable (p.1.bytes < q.1.bytes ∨ p.1.bytes = q.1.bytes ∧ p.2.bytes ≤ q.2.bytes))

/-- A pair as one piece of a query. -/
def written_pair (ascii_set : UInt8 → Bool) (pair : Text × Text) : Text :=
  utf8_percent_encode pair.1 ascii_set ++ '=' :: utf8_percent_encode pair.2 ascii_set

def written_query (ascii_set : UInt8 → Bool) (pairs : Params) : Text := ['&'].intercalate (pairs.map (written_pair ascii_set))

def canonical_query_string (qs : Text) : Text :=
  if qs = [] then []
  else written_query S3_URI_ENCODE ((decoded_pairs qs).insertionSort pairLe)

example : canonical_query_string "prefix=a%2fb&list-type=2&acl".toList = "acl=&list-type=2&prefix=a%2Fb".toList := by
  decide +kernel

/-! ### Joining and cutting -/

theorem splitChars_whole {sep : Char} {t : Text} (outside : sep ∉ t) : splitChars sep t = [t] := by
  induction t with
  | nil => rfl
  | cons c rest ih =>
    simp only [List.mem_cons,not_or] at outside
    rw [splitChars,if_neg (Ne.symm outside.1),ih outside.2]

/-- Cutting undoes joining. -/
theorem splitChars_intercalate {sep : Char} {pieces : List Text} (some : pieces ≠ [])
    (outside : ∀ piece ∈ pieces, sep ∉ piece) : splitChars sep ([sep].intercalate pieces) = pieces := by
  induction pieces with
  | nil => exact absurd rfl some
  | cons piece rest ih =>
    cases rest with
    | nil =>
      have single : [sep].intercalate [piece] = piece := by simp [List.intercalate,List.intersperse]
      rw [single]
      exact splitChars_whole (outside piece (by simp))
    | cons next more =>
      have joined : [sep].intercalate (piece :: next :: more) = piece ++ sep :: [sep].intercalate (next :: more) := by
        simp [List.intercalate,List.intersperse]
      rw [joined,splitChars_append_sep,splitChars_whole (outside piece (by simp)),
        ih (by simp) fun other member => outside other (by simp [member])]
      rfl

theorem raw_pair_joined {name : Text} (outside : '=' ∉ name) (value : Text) :
    raw_pair (name ++ '=' :: value) = (name,value) := by
  rw [raw_pair,Text.split_once_some.mpr ⟨rfl,outside⟩]
  rfl

/-! ### What an encoder writes -/

/-- An encoder that leaves only ASCII bytes as they are, and none that means something in a query. -/
structure QuerySet where
  escapes : UInt8 → Bool
  ascii : ∀ b, escapes b = false → b.toNat < 128
  special : escapes 0x25 = true ∧ escapes 0x26 = true ∧ escapes 0x3D = true

/-- The bytes of an encoded byte. -/
def encoded_byte (ascii_set : UInt8 → Bool) (b : UInt8) : Bytes :=
  if ascii_set b then (percent_encode_byte b).map fun c => UInt8.ofNat c.toNat else [b]

theorem upper_hex_value : ∀ n : Fin 16, hex_value (UInt8.ofNat (upper_hex n).toNat) = some (UInt8.ofNat n) := by decide

theorem upper_hex_plain : ∀ n : Fin 16, (upper_hex n).toNat < 128 ∧ upper_hex n ≠ '&' ∧ upper_hex n ≠ '=' ∧
    upper_hex n ≠ '+' := by decide

theorem percent_encode_byte_plain (b : UInt8) {c : Char} (member : c ∈ percent_encode_byte b) :
    c.toNat < 128 ∧ c ≠ '&' ∧ c ≠ '=' ∧ c ≠ '+' := by
  have small := b.toNat_lt
  simp only [percent_encode_byte,List.mem_cons,List.not_mem_nil,or_false] at member
  rcases member with rfl | rfl | rfl
  · decide
  · exact upper_hex_plain ⟨b.toNat / 16,by omega⟩
  · exact upper_hex_plain ⟨b.toNat % 16,by omega⟩

namespace QuerySet
variable (set : QuerySet)

theorem encoded_ascii {t : Text} {c : Char} (member : c ∈ utf8_percent_encode t set.escapes) :
    c.toNat < 128 ∧ c ≠ '&' ∧ c ≠ '=' := by
  obtain ⟨b,_,made⟩ := List.mem_flatMap.mp member
  split at made
  next =>
    obtain ⟨small,joint,equals,_⟩ := percent_encode_byte_plain b made
    exact ⟨small,joint,equals⟩
  next kept =>
    have small := set.ascii b (by simpa using kept)
    rw [List.mem_singleton.mp made]
    have value : (Char.ofNat b.toNat).toNat = b.toNat := by
      rw [Char.toNat_ofNat,if_pos (.inl (by omega))]
    refine ⟨by omega,?_,?_⟩
    · intro same
      have byte : b = 0x26 := UInt8.toNat_inj.mp (value.symm.trans (congrArg Char.toNat same))
      rw [byte,set.special.2.1] at kept
      exact kept rfl
    · intro same
      have byte : b = 0x3D := UInt8.toNat_inj.mp (value.symm.trans (congrArg Char.toNat same))
      rw [byte,set.special.2.2] at kept
      exact kept rfl

theorem bytes_ascii {t : Text} (ascii : ∀ c ∈ t, c.toNat < 128) : t.bytes = t.map fun c => UInt8.ofNat c.toNat := by
  induction t with
  | nil => rfl
  | cons c rest ih =>
    rw [Text.bytes,List.flatMap_cons,utf8EncodeChar_ascii (ascii c (by simp))]
    exact congrArg _ (ih fun d member => ascii d (by simp [member]))

theorem encoded_bytes (t : Text) :
    (utf8_percent_encode t set.escapes).bytes = t.bytes.flatMap (encoded_byte set.escapes) := by
  rw [bytes_ascii fun c member => (set.encoded_ascii member).1,utf8_percent_encode,List.map_flatMap]
  congr 1
  funext b
  unfold encoded_byte
  split
  next => rfl
  next kept =>
    have small := set.ascii b (by simpa using kept)
    rw [List.map_singleton,Char.toNat_ofNat,if_pos (.inl (by omega)),UInt8.ofNat_toNat]

/-- An encoded byte is decoded to itself. -/
theorem percent_decode_byte (b : UInt8) (rest : Bytes) :
    percent_decode (encoded_byte set.escapes b ++ rest) = b :: percent_decode rest := by
  unfold encoded_byte
  split
  next =>
    have small := b.toNat_lt
    have high := upper_hex_value ⟨b.toNat / 16,by omega⟩
    have low := upper_hex_value ⟨b.toNat % 16,by omega⟩
    have value : 16 * UInt8.ofNat (b.toNat / 16) + UInt8.ofNat (b.toNat % 16) = b := by
      apply UInt8.toNat_inj.mp
      rw [UInt8.toNat_add,UInt8.toNat_mul,byte_toNat (by omega),byte_toNat (by omega)]
      change (16 * (b.toNat / 16) % 256 + b.toNat % 16) % 256 = b.toNat
      omega
    simp only [percent_encode_byte,List.map_cons,List.map_nil,List.cons_append,List.nil_append]
    rw [show UInt8.ofNat '%'.toNat = 0x25 from rfl,percent_decode,if_pos rfl]
    simp only at high low
    rw [high,low]
    simp only
    rw [value]
  next kept =>
    refine percent_decode_cons ?_ rest
    rintro rfl
    rw [set.special.1] at kept
    exact kept rfl

theorem percent_decode_encoded (t : Text) :
    percent_decode (utf8_percent_encode t set.escapes).bytes = t.bytes := by
  rw [encoded_bytes]
  induction t.bytes with
  | nil => rfl
  | cons b rest ih => rw [List.flatMap_cons,percent_decode_byte,ih]

theorem decode_encoded (t : Text) : decode_utf8_lossy (utf8_percent_encode t set.escapes) = t := by
  rw [decode_utf8_lossy,percent_decode_encoded,lossy_bytes]

/-! ### Written pairs -/

theorem raw_pair_written (pair : Text × Text) : raw_pair (written_pair set.escapes pair) =
    (utf8_percent_encode pair.1 set.escapes,utf8_percent_encode pair.2 set.escapes) :=
  raw_pair_joined (fun member => (set.encoded_ascii member).2.2 rfl) _

theorem written_pair_joint (pair : Text × Text) : '&' ∉ written_pair set.escapes pair := by
  intro member
  rcases List.mem_append.mp member with first | second
  · exact (set.encoded_ascii first).2.1 rfl
  · rcases List.mem_cons.mp second with equals | value
    · exact absurd equals (by decide)
    · exact (set.encoded_ascii value).2.1 rfl

/-- The pieces of a written query are its written pairs. -/
theorem pieces_written (pairs : Params) :
    (splitChars '&' (written_query set.escapes pairs)).filter (fun piece => piece ≠ []) =
      pairs.map (written_pair set.escapes) := by
  cases pairs with
  | nil => rfl
  | cons pair rest =>
    rw [written_query,splitChars_intercalate (by simp)]
    · refine List.filter_eq_self.mpr fun piece member => ?_
      obtain ⟨source,_,rfl⟩ := List.mem_map.mp member
      simp [written_pair]
    · intro piece member
      obtain ⟨source,_,rfl⟩ := List.mem_map.mp member
      exact set.written_pair_joint source

theorem decoded_written (pairs : Params) : decoded_pairs (written_query set.escapes pairs) = pairs := by
  rw [decoded_pairs,pieces_written,List.map_map]
  conv_rhs => rw [← List.map_id pairs]
  refine List.map_congr_left fun pair _ => ?_
  rw [Function.comp_apply,raw_pair_written,decode_encoded,decode_encoded]
  rfl

/-- The extractor decodes a written query by the other standard. -/
theorem parse_written (pairs : Params) : parse_query (written_query set.escapes pairs) = pairs.map fun pair =>
    (form_decode (utf8_percent_encode pair.1 set.escapes),form_decode (utf8_percent_encode pair.2 set.escapes)) := by
  rw [parse_query,pieces_written,List.map_map]
  refine List.map_congr_left fun pair _ => ?_
  rw [Function.comp_apply,form_pair_eq,raw_pair_written]

end QuerySet

/-! ### The encoders -/

/-- The encoder of the canonical query string. -/
def uri_set : QuerySet where
  escapes := S3_URI_ENCODE
  ascii b kept := by
    have all : ∀ b : Fin 256, S3_URI_ENCODE (UInt8.ofNat b) = false → b.val < 128 := by decide +kernel
    have here := all ⟨b.toNat,b.toNat_lt⟩
    simp only [UInt8.ofNat_toNat] at here
    exact here kept
  special := by decide

/-- The same encoder but for plus signs, which stay. -/
def plus_set : QuerySet where
  escapes b := b != 0x2B && S3_URI_ENCODE b
  ascii b kept := by
    rw [Bool.and_eq_false_iff] at kept
    rcases kept with plus | kept
    · rw [bne_eq_false_iff_eq.mp plus]
      decide
    · exact uri_set.ascii b kept
  special := by decide

theorem uri_plusless (t : Text) : '+' ∉ utf8_percent_encode t S3_URI_ENCODE := by
  intro member
  obtain ⟨b,_,made⟩ := List.mem_flatMap.mp member
  split at made
  next => exact (percent_encode_byte_plain b made).2.2.2 rfl
  next kept =>
    have small := uri_set.ascii b (Bool.eq_false_iff.mpr kept)
    have value : (Char.ofNat b.toNat).toNat = b.toNat := by
      rw [Char.toNat_ofNat,if_pos (.inl (by omega))]
    have byte : b = 0x2B :=
      UInt8.toNat_inj.mp (value.symm.trans (congrArg Char.toNat (List.mem_singleton.mp made).symm))
    rw [byte] at kept
    exact kept (by decide)

theorem form_decode_uri (t : Text) : form_decode (utf8_percent_encode t S3_URI_ENCODE) = t := by
  rw [(form_decode_eq_iff _).mpr (uri_plusless t)]
  exact uri_set.decode_encoded t

theorem count_plus_byte (b : UInt8) : (encoded_byte plus_set.escapes b).count 0x2B = [b].count 0x2B := by
  by_cases plus : b = 0x2B
  · rw [plus]
    decide
  · unfold encoded_byte
    split
    next =>
      rw [List.count_eq_zero_of_not_mem (l := [b]) (by simpa using Ne.symm plus),List.count_eq_zero]
      intro member
      obtain ⟨c,made,same⟩ := List.mem_map.mp member
      obtain ⟨small,_,_,other⟩ := percent_encode_byte_plain b made
      have value := congrArg UInt8.toNat same
      rw [byte_toNat (by omega)] at value
      exact other (Char.toNat_inj.mp value)
    next => rfl

/-- Written with plus signs, a text comes out of the form decoding without any. -/
theorem form_decode_plus (t : Text) : '+' ∉ form_decode (utf8_percent_encode t plus_set.escapes) := by
  have count := percent_decode_blanks (utf8_percent_encode t plus_set.escapes).bytes
  rw [plus_set.percent_decode_encoded,← bytes_blanks] at count
  have kept : (utf8_percent_encode t plus_set.escapes).bytes.count 0x2B = t.bytes.count 0x2B := by
    rw [plus_set.encoded_bytes]
    induction t.bytes with
    | nil => rfl
    | cons b rest ih =>
      rw [List.flatMap_cons,List.count_append,count_plus_byte,ih,← List.count_append]
      rfl
  have none : (form_decode (utf8_percent_encode t plus_set.escapes)).count '+' = 0 := by
    rw [form_decode,decode_utf8_lossy,count_lossy (by decide) (by decide)]
    change List.count 0x2B _ = 0
    omega
  exact List.count_eq_zero.mp none

/-! ### Queries with one canonical string -/

theorem bytes_inj {s t : Text} : s.bytes = t.bytes ↔ s = t := by
  constructor
  · intro same
    rw [← lossy_bytes s,same,lossy_bytes]
  · rintro rfl
    rfl

theorem pairLe_antisymm {p q : Text × Text} (le : pairLe p q) (ge : pairLe q p) : p = q := by
  rcases le with less | ⟨names,values⟩
  · rcases ge with more | ⟨names,_⟩
    · exact absurd more (List.lt_asymm less)
    · rw [names] at less
      exact absurd less (List.lt_irrefl _)
  · rcases ge with more | ⟨_,values'⟩
    · rw [names] at more
      exact absurd more (List.lt_irrefl _)
    · exact Prod.ext (bytes_inj.mp names) (bytes_inj.mp (List.le_antisymm values values'))

theorem bytes_lt_of_ne {s t : Bytes} (le : s ≤ t) (ne : s ≠ t) : s < t := by
  by_contra more
  exact ne (List.le_antisymm le (List.not_lt.mp more))

instance : Std.Total pairLe := ⟨fun p q => by
  unfold pairLe
  by_cases names : p.1.bytes = q.1.bytes
  · have values := List.le_total p.2.bytes q.2.bytes
    rw [names]
    exact values.imp (fun le => .inr ⟨rfl,le⟩) fun le => .inr ⟨rfl,le⟩
  · rcases List.le_total p.1.bytes q.1.bytes with le | le
    · exact .inl (.inl (bytes_lt_of_ne le names))
    · exact .inr (.inl (bytes_lt_of_ne le (Ne.symm names)))⟩

instance : IsTrans (Text × Text) pairLe := ⟨fun p q r first second => by
  rcases first with less | ⟨names,values⟩
  · rcases second with less' | ⟨names',_⟩
    · exact .inl (List.lt_trans less less')
    · exact .inl (names' ▸ less)
  · rcases second with less' | ⟨names',values'⟩
    · exact .inl (names ▸ less')
    · exact .inr ⟨names.trans names',List.le_trans values values'⟩⟩

theorem sorted_pairs_unique {pairs pairs' : Params} :
    pairs.insertionSort pairLe = pairs'.insertionSort pairLe ↔ pairs.Perm pairs' := by
  constructor
  · intro same
    exact (List.perm_insertionSort pairLe pairs).symm.trans (same ▸ List.perm_insertionSort pairLe pairs')
  · intro same
    refine List.Perm.eq_of_pairwise (fun p q _ _ => pairLe_antisymm) (List.pairwise_insertionSort pairLe pairs)
      (List.pairwise_insertionSort pairLe pairs') ?_
    exact (List.perm_insertionSort pairLe pairs).trans (same.trans (List.perm_insertionSort pairLe pairs').symm)

theorem canonical_query_string_eq (qs : Text) :
    canonical_query_string qs = written_query S3_URI_ENCODE ((decoded_pairs qs).insertionSort pairLe) := by
  unfold canonical_query_string
  split
  next empty =>
    rw [empty]
    rfl
  next => rfl

/-- The canonical query string says the decoded pairs and nothing about their order. -/
theorem canonical_query_string_inj {qs qs' : Text} :
    canonical_query_string qs' = canonical_query_string qs ↔ (decoded_pairs qs').Perm (decoded_pairs qs) := by
  rw [canonical_query_string_eq,canonical_query_string_eq,← sorted_pairs_unique]
  constructor
  · intro same
    have decoded := congrArg decoded_pairs same
    exact (uri_set.decoded_written _).symm.trans (decoded.trans (uri_set.decoded_written _))
  · intro same
    rw [same]

/-- Some query with the same canonical string decodes to the pairs the signature is over. -/
theorem canonical_written (set : QuerySet) (qs : Text) :
    canonical_query_string (written_query set.escapes (decoded_pairs qs)) = canonical_query_string qs :=
  canonical_query_string_inj.mpr (.of_eq (set.decoded_written _))

/-! ### The parameters of the handlers -/

/-- Whether names and values, percent-decoded, are free of plus signs. -/
def Plusless (pairs : Params) : Prop := ∀ pair ∈ pairs, '+' ∉ pair.1 ∧ '+' ∉ pair.2

theorem plus_decoded {t : Text} (plus : '+' ∈ t) : '+' ∈ decode_utf8_lossy t := by
  have raw := List.count_pos_iff.mpr ((mem_bytes_iff (c := '+') (by decide) (by decide) t).mpr plus)
  have count := percent_decode_blanks t.bytes
  change 0 < List.count 0x2B _ at raw
  rw [decode_utf8_lossy,mem_lossy_iff (by decide) (by decide),← List.count_pos_iff]
  change 0 < List.count 0x2B _
  omega

/-- Without plus signs the two standards decode alike. -/
theorem parse_query_plusless {qs : Text} (plusless : Plusless (decoded_pairs qs)) :
    parse_query qs = decoded_pairs qs := by
  unfold parse_query decoded_pairs
  refine List.map_congr_left fun piece member => ?_
  obtain ⟨name,value⟩ := plusless _ (List.mem_map.mpr ⟨piece,member,rfl⟩)
  rw [form_pair_eq,(form_decode_eq_iff _).mpr fun plus => name (plus_decoded plus),
    (form_decode_eq_iff _).mpr fun plus => value (plus_decoded plus)]

/-- A canonical query string stands for one set of parameters exactly when no decoded name or value has a plus sign. -/
theorem query_bound_iff (qs : Text) :
    (∀ qs', canonical_query_string qs' = canonical_query_string qs → (parse_query qs').Perm (parse_query qs)) ↔
      ∀ piece ∈ splitChars '&' qs, '+' ∉ decode_utf8_lossy (raw_pair piece).1 ∧
        '+' ∉ decode_utf8_lossy (raw_pair piece).2 := by
  have pieces : (∀ piece ∈ splitChars '&' qs, '+' ∉ decode_utf8_lossy (raw_pair piece).1 ∧
      '+' ∉ decode_utf8_lossy (raw_pair piece).2) ↔ Plusless (decoded_pairs qs) := by
    constructor
    · intro free pair member
      obtain ⟨piece,listed,rfl⟩ := List.mem_map.mp member
      exact free piece (List.mem_of_mem_filter listed)
    · intro free piece member
      by_cases empty : piece = []
      · subst empty
        rw [raw_pair_nil,decode_utf8_lossy_eq_nil.mpr rfl]
        simp
      · exact free _ (List.mem_map.mpr ⟨piece,List.mem_filter.mpr ⟨member,by simpa using empty⟩,rfl⟩)
  rw [pieces]
  constructor
  · intro bound pair member
    -- the canonical string keeps plus signs, the other spelling turns them into blanks
    have same := bound _ (canonical_written uri_set qs)
    have same' := bound _ (canonical_written plus_set qs)
    rw [uri_set.parse_written] at same
    rw [plus_set.parse_written] at same'
    have both := (same.trans same'.symm).subset (List.mem_map.mpr ⟨pair,member,rfl⟩)
    obtain ⟨other,_,made⟩ := List.mem_map.mp both
    have name := congrArg Prod.fst made
    have value := congrArg Prod.snd made
    simp only at name value
    change _ = form_decode (utf8_percent_encode pair.1 S3_URI_ENCODE) at name
    change _ = form_decode (utf8_percent_encode pair.2 S3_URI_ENCODE) at value
    rw [form_decode_uri] at name value
    exact ⟨name ▸ form_decode_plus _,value ▸ form_decode_plus _⟩
  · intro plusless qs' same
    have pairs := canonical_query_string_inj.mp same
    have plusless' : Plusless (decoded_pairs qs') := fun pair member => plusless pair (pairs.subset member)
    rw [parse_query_plusless plusless,parse_query_plusless plusless']
    exact pairs

/-- One signature for a value with a plus sign and for the same value with a blank. -/
theorem plus_and_blank_share_signature :
    canonical_query_string "prefix=a+b".toList = canonical_query_string "prefix=a%2Bb".toList ∧
    parse_query "prefix=a+b".toList = [("prefix".toList,"a b".toList)] ∧
    parse_query "prefix=a%2Bb".toList = [("prefix".toList,"a+b".toList)] ∧
    ¬ (parse_query "prefix=a+b".toList).Perm (parse_query "prefix=a%2Bb".toList) := by
  decide +kernel

end Maxio
