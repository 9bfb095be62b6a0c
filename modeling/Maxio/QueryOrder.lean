import Maxio.CanonicalQuery

/-!
The canonical query string next to its specification, which sorts the pairs once they are encoded.
-/

namespace Maxio

/-! ### The specification -/

def unreserved : Text := "ABCDEFGHIJKLMNOPQRSTUVWXYZabcdefghijklmnopqrstuvwxyz0123456789-_.~".toList

/-- Every byte escaped that is not of an unreserved character. -/
def uri_encode (t : Text) : Text := utf8_percent_encode t fun b => !unreserved.contains (Char.ofNat b.toNat)

/-- The pairs encoded, then sorted by name and value. -/
def sigv4_query_string (pairs : Params) : Text :=
  ['&'].intercalate (((pairs.map fun pair => (uri_encode pair.1,uri_encode pair.2)).insertionSort pairLe).map
    fun pair => pair.1 ++ '=' :: pair.2)

/-- A text stands for these bytes: an escape for its byte, every other character for its own. -/
inductive Escaped : Text → Bytes → Prop where
  | done : Escaped [] []
  | char {c : Char} {t : Text} {data : Bytes} (other : c ≠ '%') (rest : Escaped t data) :
      Escaped (c :: t) (String.utf8EncodeChar c ++ data)
  | escape {h l : Char} {x y : UInt8} {t : Text} {data : Bytes} (ascii : h.toNat < 128 ∧ l.toNat < 128)
      (high : hex_value (UInt8.ofNat h.toNat) = some x) (low : hex_value (UInt8.ofNat l.toNat) = some y)
      (rest : Escaped t data) : Escaped ('%' :: h :: l :: t) ((16 * x + y) :: data)

/-- A piece of a query sends a pair, without a value only where it is empty. -/
inductive Sends : Text → Text × Text → Prop where
  | pair {name value k v : Text} (named : Escaped name k.bytes) (joint : '&' ∉ name) (equals : '=' ∉ name)
      (valued : Escaped value v.bytes) (joint' : '&' ∉ value) : Sends (name ++ '=' :: value) (k,v)
  | bare {name k : Text} (named : Escaped name k.bytes) (joint : '&' ∉ name) (equals : '=' ∉ name) (some : name ≠ []) :
      Sends name (k,[])

/-- A query sends these pairs, in some order. -/
def SendsAll (query : Text) (pairs : Params) : Prop :=
  ∃ pieces order, List.Forall₂ Sends pieces order ∧ order.Perm pairs ∧ query = ['&'].intercalate pieces

/-- Where the texts first differ, the smaller byte is unreserved and the larger one is escaped. -/
def Crosses (s t : Bytes) : Prop := ∃ common a b rest rest', s = common ++ a :: rest ∧ t = common ++ b :: rest' ∧
  a < b ∧ S3_URI_ENCODE a = false ∧ S3_URI_ENCODE b = true

/-- No two names cross, and no two values of one name. -/
def NothingCrosses (pairs : Params) : Prop := ∀ p ∈ pairs, ∀ q ∈ pairs,
  ¬ Crosses p.1.bytes q.1.bytes ∧ (p.1 = q.1 → ¬ Crosses p.2.bytes q.2.bytes)

/-! ### Sent pairs -/

theorem percent_decode_append {front : Bytes} (none : 0x25 ∉ front) (rest : Bytes) :
    percent_decode (front ++ rest) = front ++ percent_decode rest := by
  induction front with
  | nil => rfl
  | cons b more ih =>
    simp only [List.mem_cons,not_or] at none
    rw [List.cons_append,percent_decode_cons (Ne.symm none.1),ih none.2,List.cons_append]

theorem Escaped.decoded {t : Text} {data : Bytes} (escaped : Escaped t data) : percent_decode t.bytes = data := by
  induction escaped with
  | done => rfl
  | @char c t data other rest ih =>
    have none : (0x25 : UInt8) ∉ String.utf8EncodeChar c := by
      have single : Text.bytes [c] = String.utf8EncodeChar c := by simp [Text.bytes]
      rw [← single]
      intro member
      have found := (mem_bytes_iff (c := '%') (by decide) (by decide) [c]).mp member
      exact other (List.mem_singleton.mp found).symm
    rw [Text.bytes,List.flatMap_cons,percent_decode_append none]
    exact congrArg _ ih
  | @escape h l x y t data ascii high low rest ih =>
    have bytes : Text.bytes ('%' :: h :: l :: t) = 0x25 :: UInt8.ofNat h.toNat :: UInt8.ofNat l.toNat :: t.bytes := by
      simp only [Text.bytes,List.flatMap_cons]
      rw [utf8EncodeChar_ascii ascii.1,utf8EncodeChar_ascii ascii.2]
      rfl
    rw [bytes,percent_decode,if_pos rfl,high,low]
    simp only
    rw [ih]

theorem Escaped.text {t decoded : Text} (escaped : Escaped t decoded.bytes) : decode_utf8_lossy t = decoded := by
  rw [decode_utf8_lossy,escaped.decoded,lossy_bytes]

theorem Sends.decoded {piece : Text} {pair : Text × Text} (sends : Sends piece pair) :
    (decode_utf8_lossy (raw_pair piece).1,decode_utf8_lossy (raw_pair piece).2) = pair := by
  cases sends with
  | pair named joint equals valued joint' => rw [raw_pair_joined equals,named.text,valued.text]
  | bare named joint equals some =>
    rw [raw_pair,Text.split_once_none.mpr equals,Option.getD_none,named.text,decode_utf8_lossy_eq_nil.mpr rfl]

theorem Sends.piece {piece : Text} {pair : Text × Text} (sends : Sends piece pair) : '&' ∉ piece ∧ piece ≠ [] := by
  cases sends with
  | pair named joint equals valued joint' => simp [joint,joint']
  | bare named joint equals some => exact ⟨joint,some⟩

theorem SendsAll.decoded {query : Text} {pairs : Params} (sends : SendsAll query pairs) :
    (decoded_pairs query).Perm pairs := by
  obtain ⟨pieces,order,each,same,rfl⟩ := sends
  have whole : ∀ piece ∈ pieces, '&' ∉ piece ∧ piece ≠ [] := by
    clear same
    induction each with
    | nil => simp
    | cons sent _ ih =>
      intro piece member
      rcases List.mem_cons.mp member with rfl | later
      · exact sent.piece
      · exact ih piece later
  have cut : (splitChars '&' (['&'].intercalate pieces)).filter (fun piece => piece ≠ []) = pieces := by
    cases pieces with
    | nil => rfl
    | cons first more =>
      rw [splitChars_intercalate (by simp) fun piece member => (whole piece member).1]
      exact List.filter_eq_self.mpr fun piece member => by simpa using (whole piece member).2
  have decoded : decoded_pairs (['&'].intercalate pieces) = order := by
    rw [decoded_pairs,cut]
    clear whole cut same
    induction each with
    | nil => rfl
    | cons sent _ ih => rw [List.map_cons,sent.decoded,ih]
  rw [decoded]
  exact same

/-! ### The order of encoded bytes -/

section

theorem append_lt_append (front : Bytes) {s t : Bytes} : front ++ s < front ++ t ↔ s < t := by
  induction front with
  | nil => rfl
  | cons b rest ih =>
    rw [List.cons_append,List.cons_append,List.cons_lt_cons_iff,ih]
    constructor
    · rintro (less | ⟨_,less⟩)
      · exact absurd less (UInt8.lt_irrefl b)
      · exact less
    · exact fun less => .inr ⟨rfl,less⟩

theorem upper_hex_lt : ∀ m n : Fin 16, m < n →
    UInt8.ofNat (upper_hex m).toNat < UInt8.ofNat (upper_hex n).toNat := by decide

theorem percent_lt_unreserved {b : UInt8} (kept : S3_URI_ENCODE b = false) : 0x25 < b := by
  have all : ∀ b : Fin 256, S3_URI_ENCODE (UInt8.ofNat b) = false → 0x25 < UInt8.ofNat b := by decide +kernel
  have here := all ⟨b.toNat,b.toNat_lt⟩
  simp only [UInt8.ofNat_toNat] at here
  exact here kept

theorem encoded_byte_escaped {b : UInt8} (escaped : S3_URI_ENCODE b = true) (rest : Bytes) :
    encoded_byte S3_URI_ENCODE b ++ rest = 0x25 :: UInt8.ofNat (upper_hex (b.toNat / 16)).toNat ::
      UInt8.ofNat (upper_hex (b.toNat % 16)).toNat :: rest := by
  rw [encoded_byte,if_pos escaped]
  rfl

theorem encoded_byte_kept {b : UInt8} (kept : S3_URI_ENCODE b = false) (rest : Bytes) :
    encoded_byte S3_URI_ENCODE b ++ rest = b :: rest := by
  rw [encoded_byte,if_neg (by simp [kept])]
  rfl

/-- Different bytes keep their order, unless only the larger one is escaped. -/
theorem encoded_byte_lt {a b : UInt8} (less : a < b) (keeps : S3_URI_ENCODE a = false → S3_URI_ENCODE b = false)
    (s t : Bytes) : encoded_byte S3_URI_ENCODE a ++ s < encoded_byte S3_URI_ENCODE b ++ t := by
  cases larger : S3_URI_ENCODE b with
  | false =>
    rw [encoded_byte_kept larger]
    cases smaller : S3_URI_ENCODE a with
    | false =>
      rw [encoded_byte_kept smaller,List.cons_lt_cons_iff]
      exact .inl less
    | true =>
      rw [encoded_byte_escaped smaller,List.cons_lt_cons_iff]
      exact .inl (percent_lt_unreserved larger)
  | true =>
    have smaller : S3_URI_ENCODE a = true := by
      cases kept : S3_URI_ENCODE a with
      | true => rfl
      | false =>
        rw [keeps kept] at larger
        cases larger
    have small := a.toNat_lt
    have small' := b.toNat_lt
    have number : a.toNat < b.toNat := UInt8.lt_iff_toNat_lt.mp less
    rw [encoded_byte_escaped smaller,encoded_byte_escaped larger,List.cons_lt_cons_iff,List.cons_lt_cons_iff,
      List.cons_lt_cons_iff]
    refine .inr ⟨rfl,?_⟩
    by_cases high : a.toNat / 16 = b.toNat / 16
    · rw [high]
      have low : a.toNat % 16 < b.toNat % 16 := by omega
      exact .inr ⟨rfl,.inl (upper_hex_lt ⟨a.toNat % 16,by omega⟩ ⟨b.toNat % 16,by omega⟩ low)⟩
    · have high : a.toNat / 16 < b.toNat / 16 := by omega
      exact .inl (upper_hex_lt ⟨a.toNat / 16,by omega⟩ ⟨b.toNat / 16,by omega⟩ high)

theorem Crosses.cons (c : UInt8) {s t : Bytes} (crosses : Crosses s t) : Crosses (c :: s) (c :: t) := by
  obtain ⟨common,a,b,rest,rest',rfl,rfl,differ⟩ := crosses
  exact ⟨c :: common,a,b,rest,rest',rfl,rfl,differ⟩

theorem Crosses.lt {s t : Bytes} (crosses : Crosses s t) : s < t := by
  obtain ⟨common,a,b,rest,rest',rfl,rfl,less,_⟩ := crosses
  rw [append_lt_append,List.cons_lt_cons_iff]
  exact .inl less

/-- Texts that do not cross keep their order. -/
theorem encoded_lt {s t : Bytes} (less : s < t) (apart : ¬ Crosses s t) :
    s.flatMap (encoded_byte S3_URI_ENCODE) < t.flatMap (encoded_byte S3_URI_ENCODE) := by
  induction s generalizing t with
  | nil =>
    cases t with
    | nil => exact absurd less (List.lt_irrefl [])
    | cons b rest' =>
      rw [List.flatMap_nil,List.flatMap_cons]
      cases larger : S3_URI_ENCODE b with
      | false =>
        rw [encoded_byte_kept larger]
        exact List.nil_lt_cons _ _
      | true =>
        rw [encoded_byte_escaped larger]
        exact List.nil_lt_cons _ _
  | cons a rest ih =>
    cases t with
    | nil => exact absurd less (List.not_lt_nil _)
    | cons b rest' =>
      rw [List.flatMap_cons,List.flatMap_cons]
      rcases List.cons_lt_cons_iff.mp less with first | ⟨rfl,later⟩
      · refine encoded_byte_lt first (fun kept => ?_) _ _
        cases larger : S3_URI_ENCODE b with
        | false => rfl
        | true => exact absurd ⟨[],a,b,rest,rest',rfl,rfl,first,kept,larger⟩ apart
      · rw [append_lt_append]
        exact ih later fun crosses => apart (crosses.cons a)

/-- Texts that cross change places. -/
theorem Crosses.encoded {s t : Bytes} (crosses : Crosses s t) :
    t.flatMap (encoded_byte S3_URI_ENCODE) < s.flatMap (encoded_byte S3_URI_ENCODE) := by
  obtain ⟨common,a,b,rest,rest',rfl,rfl,_,kept,escaped⟩ := crosses
  rw [List.flatMap_append,List.flatMap_append,append_lt_append,List.flatMap_cons,List.flatMap_cons,
    encoded_byte_kept kept,encoded_byte_escaped escaped,List.cons_lt_cons_iff]
  exact .inl (percent_lt_unreserved kept)

end

/-! ### Sorting before and after -/

/-- Mapping after sorting sorts the mapped list exactly when the map keeps the order. -/
theorem insertionSort_map_iff {α β : Type} {r : α → α → Prop} {r' : β → β → Prop} [DecidableRel r] [DecidableRel r']
    [Std.Total r] [IsTrans α r] [Std.Total r'] [IsTrans β r'] (antisymm : ∀ a b, r a b → r b a → a = b)
    (antisymm' : ∀ a b, r' a b → r' b a → a = b) (f : α → β) (xs : List α) :
    (xs.insertionSort r).map f = (xs.map f).insertionSort r' ↔ ∀ a ∈ xs, ∀ b ∈ xs, r a b → r' (f a) (f b) := by
  have sorted := List.pairwise_insertionSort r xs
  have same := List.perm_insertionSort r xs
  constructor
  · intro mapped a member b member' le
    have image := List.pairwise_insertionSort r' (xs.map f)
    rw [← mapped,List.pairwise_map] at image
    have refl (c : β) : r' c c := (Std.Total.total c c).elim id id
    obtain ⟨i,inside,rfl⟩ := List.mem_iff_getElem.mp (same.mem_iff.mpr member)
    obtain ⟨j,inside',rfl⟩ := List.mem_iff_getElem.mp (same.mem_iff.mpr member')
    rcases Nat.lt_trichotomy i j with before | rfl | after
    · exact List.pairwise_iff_getElem.mp image i j inside inside' before
    · exact refl _
    · have ge := List.pairwise_iff_getElem.mp sorted j i inside' inside after
      rw [antisymm _ _ le ge]
      exact refl _
  · intro keeps
    refine List.Perm.eq_of_pairwise (fun a b _ _ => antisymm' a b) ?_ (List.pairwise_insertionSort r' (xs.map f)) ?_
    · rw [List.pairwise_map]
      exact sorted.imp_of_mem fun member member' le => keeps _ (same.mem_iff.mp member) _ (same.mem_iff.mp member') le
    · exact (same.map f).trans (List.perm_insertionSort r' (xs.map f)).symm

theorem uri_encode_eq (t : Text) : uri_encode t = utf8_percent_encode t S3_URI_ENCODE := by
  have all : ∀ b : Fin 256, (!unreserved.contains (Char.ofNat b.val)) = S3_URI_ENCODE (UInt8.ofNat b) := by
    unfold unreserved
    rw [String.toList_ofList]
    decide +kernel
  have sets : (fun b : UInt8 => !unreserved.contains (Char.ofNat b.toNat)) = S3_URI_ENCODE := by
    funext b
    have here := all ⟨b.toNat,b.toNat_lt⟩
    simp only [UInt8.ofNat_toNat] at here
    exact here
  rw [uri_encode,sets]

theorem uri_encode_bytes (t : Text) : (uri_encode t).bytes = t.bytes.flatMap (encoded_byte S3_URI_ENCODE) := by
  rw [uri_encode_eq]
  exact uri_set.encoded_bytes t

/-- A pair with both parts encoded. -/
def encoded_pair (pair : Text × Text) : Text × Text := (uri_encode pair.1,uri_encode pair.2)

theorem encoded_pair_le {p q : Text × Text} (le : pairLe p q) (names : ¬ Crosses p.1.bytes q.1.bytes)
    (values : p.1 = q.1 → ¬ Crosses p.2.bytes q.2.bytes) : pairLe (encoded_pair p) (encoded_pair q) := by
  unfold pairLe encoded_pair
  simp only [uri_encode_bytes]
  rcases le with less | ⟨same,le⟩
  · exact .inl (encoded_lt less names)
  · refine .inr ⟨congrArg _ same,?_⟩
    by_cases equal : p.2.bytes = q.2.bytes
    · rw [equal]
      exact List.le_refl _
    · exact List.le_of_lt (encoded_lt (bytes_lt_of_ne le equal) (values (bytes_inj.mp same)))

/-- The order of pairs is kept exactly where nothing crosses. -/
theorem order_kept_iff (pairs : Params) :
    (∀ p ∈ pairs, ∀ q ∈ pairs, pairLe p q → pairLe (encoded_pair p) (encoded_pair q)) ↔ NothingCrosses pairs := by
  constructor
  · intro keeps p member q member'
    constructor
    · intro crosses
      have kept := keeps p member q member' (.inl crosses.lt)
      unfold pairLe encoded_pair at kept
      simp only [uri_encode_bytes] at kept
      rcases kept with less | ⟨same,_⟩
      · exact absurd crosses.encoded (List.lt_asymm less)
      · have more := crosses.encoded
        rw [same] at more
        exact absurd more (List.lt_irrefl _)
    · intro same crosses
      have kept := keeps p member q member' (.inr ⟨congrArg _ same,List.le_of_lt crosses.lt⟩)
      unfold pairLe encoded_pair at kept
      simp only [uri_encode_bytes,same] at kept
      rcases kept with less | ⟨_,le⟩
      · exact absurd less (List.lt_irrefl _)
      · exact absurd crosses.encoded (List.not_lt.mpr le)
  · intro nothing p member q member' le
    exact encoded_pair_le le (nothing p member q member').1 (nothing p member q member').2

/-! ### The two texts -/

/-- Encoded pairs as a query. -/
def joined (pairs : Params) : Text := ['&'].intercalate (pairs.map fun pair => pair.1 ++ '=' :: pair.2)

theorem written_eq (pairs : Params) : written_query S3_URI_ENCODE pairs = joined (pairs.map encoded_pair) := by
  rw [written_query,joined,List.map_map]
  congr 1
  refine List.map_congr_left fun pair _ => ?_
  rw [written_pair,Function.comp_apply,encoded_pair,uri_encode_eq,uri_encode_eq]

theorem joined_pairs {pairs : Params} (plain : ∀ pair ∈ pairs, '&' ∉ pair.1 ∧ '=' ∉ pair.1 ∧ '&' ∉ pair.2) :
    ((splitChars '&' (joined pairs)).filter fun piece => piece ≠ []).map raw_pair = pairs := by
  cases pairs with
  | nil => rfl
  | cons pair rest =>
    rw [joined,splitChars_intercalate (by simp),List.filter_eq_self.mpr,List.map_map]
    · conv_rhs => rw [← List.map_id (pair :: rest)]
      exact List.map_congr_left fun p member => raw_pair_joined (plain p member).2.1 p.2
    · intro piece member
      obtain ⟨p,_,rfl⟩ := List.mem_map.mp member
      simp
    · intro piece member
      obtain ⟨p,listed,rfl⟩ := List.mem_map.mp member
      obtain ⟨name,_,value⟩ := plain p listed
      simp [name,value]

theorem encoded_plain {pairs : Params} {pair : Text × Text} (member : pair ∈ pairs.map encoded_pair) :
    '&' ∉ pair.1 ∧ '=' ∉ pair.1 ∧ '&' ∉ pair.2 := by
  obtain ⟨source,_,rfl⟩ := List.mem_map.mp member
  simp only [encoded_pair,uri_encode_eq]
  exact ⟨fun found => (uri_set.encoded_ascii found).2.1 rfl,fun found => (uri_set.encoded_ascii found).2.2 rfl,
    fun found => (uri_set.encoded_ascii found).2.1 rfl⟩

/-- A query has the canonical string of the specification exactly when no two of its pairs cross. -/
theorem canonical_query_string_iff {query : Text} {pairs : Params} (sends : SendsAll query pairs) :
    canonical_query_string query = sigv4_query_string pairs ↔ NothingCrosses pairs := by
  have canonical : canonical_query_string query = joined ((pairs.insertionSort pairLe).map encoded_pair) := by
    rw [canonical_query_string_eq,sorted_pairs_unique.mpr sends.decoded,written_eq]
  have specified : sigv4_query_string pairs = joined ((pairs.map encoded_pair).insertionSort pairLe) := rfl
  rw [canonical,specified,← order_kept_iff,
    ← insertionSort_map_iff (fun _ _ => pairLe_antisymm) (fun _ _ => pairLe_antisymm) encoded_pair pairs]
  constructor
  · intro texts
    have pieces := congrArg (fun t => ((splitChars '&' t).filter fun piece => piece ≠ []).map raw_pair) texts
    rw [joined_pairs fun _ => encoded_plain,joined_pairs] at pieces
    · exact pieces
    · exact fun pair member => encoded_plain ((List.mem_insertionSort pairLe).mp member)
  · intro lists
    rw [lists]

namespace Sample

theorem escaped_chars {t : Text} (plain : '%' ∉ t) : Escaped t t.bytes := by
  induction t with
  | nil => exact .done
  | cons c rest ih =>
    simp only [List.mem_cons,not_or] at plain
    rw [Text.bytes,List.flatMap_cons]
    exact .char (Ne.symm plain.1) (ih plain.2)

theorem sends_plain {name value : Text} (plain : '%' ∉ name ++ value) (joint : '&' ∉ name ++ value) (equals : '=' ∉ name) :
    Sends (name ++ '=' :: value) (name,value) := by
  rw [List.mem_append,not_or] at plain joint
  exact .pair (escaped_chars plain.1) joint.1 equals (escaped_chars plain.2) joint.2

/-- The colon of a name is sent escaped. -/
theorem sends_colon : Sends "a%3A=1".toList ("a:".toList,"1".toList) := by
  have escape : Escaped ['%','3','A'] [16 * 3 + 10] := .escape (by decide) (by decide) (by decide) .done
  have named : Escaped ['a','%','3','A'] (String.utf8EncodeChar 'a' ++ [16 * 3 + 10]) := .char (by decide) escape
  have bytes : String.utf8EncodeChar 'a' ++ [16 * 3 + 10] = Text.bytes "a:".toList := by decide
  rw [bytes] at named
  exact .pair named (by decide) (by decide) (escaped_chars (t := "1".toList) (by decide)) (by decide)

theorem sends_both : SendsAll "a%3A=1&a1=2".toList [("a:".toList,"1".toList),("a1".toList,"2".toList)] :=
  ⟨["a%3A=1".toList,"a1=2".toList],_,.cons sends_colon (.cons (@sends_plain "a1".toList "2".toList
    (by decide) (by decide) (by decide)) .nil),.refl _,by decide⟩

end Sample

theorem colon_sorted_astray : SendsAll "a%3A=1&a1=2".toList [("a:".toList,"1".toList),("a1".toList,"2".toList)] ∧
    canonical_query_string "a%3A=1&a1=2".toList = "a1=2&a%3A=1".toList ∧
    sigv4_query_string [("a:".toList,"1".toList),("a1".toList,"2".toList)] = "a%3A=1&a1=2".toList :=
  ⟨Sample.sends_both,by decide +kernel,by decide +kernel⟩

theorem colon_canonical_iff : canonical_query_string "a%3A=1&a1=2".toList =
    sigv4_query_string [("a:".toList,"1".toList),("a1".toList,"2".toList)] ↔
      NothingCrosses [("a:".toList,"1".toList),("a1".toList,"2".toList)] :=
  canonical_query_string_iff Sample.sends_both

end Maxio
