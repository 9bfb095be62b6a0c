import Maxio.Http
import Maxio.KeyPaths

/-!
Facts about cutting and decoding the text of a request.
-/

namespace Maxio

/-! ### Cutting texts -/

namespace Text

theorem split_once_none {sep : Char} {t : Text} : split_once sep t = none ↔ sep ∉ t := by
  induction t with
  | nil => simp [split_once]
  | cons c rest ih =>
    by_cases same : c = sep
    · simp [split_once,same]
    · simp [split_once,same,ih,Ne.symm same]

theorem split_once_some {sep : Char} {t before after : Text} :
    split_once sep t = some (before,after) ↔ t = before ++ sep :: after ∧ sep ∉ before := by
  induction t generalizing before with
  | nil => simp [split_once]
  | cons c rest ih =>
    by_cases same : c = sep
    · cases before with
      | nil => simp [split_once,same]
      | cons b more => simp only [split_once,same,if_true]; grind
    · cases before with
      | nil => simp [split_once,same]
      | cons b more =>
        rw [split_once,if_neg same,Option.map_eq_some_iff]
        constructor
        · rintro ⟨cut,found,whole⟩
          obtain ⟨⟨rfl,rfl⟩,rfl⟩ : (c = b ∧ cut.1 = more) ∧ cut.2 = after := by simpa using whole
          obtain ⟨rfl,outside⟩ := ih.mp found
          simp [outside,Ne.symm same]
        · rintro ⟨whole,outside⟩
          grind

theorem trim_start_cons {c d : Char} {t : Text} (other : d ≠ c) : trim_start c (d :: t) = d :: t := by
  simp [trim_start,other]

theorem trim_start_same (c : Char) (t : Text) : trim_start c (c :: t) = trim_start c t := by
  simp [trim_start]

/-- What is left after trimming does not begin with the trimmed character. -/
theorem trim_start_head {c : Char} {t rest : Text} : trim_start c t ≠ c :: rest := by
  induction t with
  | nil => simp [trim_start]
  | cons d more ih =>
    by_cases same : d = c
    · rw [same,trim_start_same]
      exact ih
    · rw [trim_start_cons same]
      simp [same]

theorem first_piece_split {sep : Char} {before after : Text} (outside : sep ∉ before) :
    first_piece sep (before ++ sep :: after) = before := by
  rw [first_piece,List.takeWhile_append_of_pos]
  · simp
  · intro c member
    simp only [ne_eq,decide_eq_true_eq]
    rintro rfl
    exact outside member

theorem first_piece_whole {sep : Char} {t : Text} (outside : sep ∉ t) : first_piece sep t = t := by
  induction t with
  | nil => rfl
  | cons c rest ih =>
    simp only [List.mem_cons,not_or] at outside
    have later := ih outside.2
    rw [first_piece] at later ⊢
    rw [List.takeWhile_cons_of_pos (by simpa using Ne.symm outside.1),later]

end Text

/-! ### Bucket names -/

/-- A character of a valid bucket name. -/
def isNameChar (c : Char) : Bool := c.isLower || c.isDigit || c = '-' || c = '.'

theorem valid_bucket_chars {bucket : Text} (valid : is_valid_bucket_name (String.ofList bucket)) :
    bucket ≠ [] ∧ ∀ c ∈ bucket, isNameChar c := by
  simp only [is_valid_bucket_name,Bool.and_eq_true,decide_eq_true_eq,String.toList_ofList] at valid
  obtain ⟨⟨⟨⟨⟨⟨long,_⟩,letters⟩,first⟩,_⟩,_⟩,_⟩ := valid
  refine ⟨?_,fun c member => List.all_eq_true.mp letters c member⟩
  rintro rfl
  exact absurd first (by decide)

theorem slash_not_mem_valid {bucket : Text} (valid : is_valid_bucket_name (String.ofList bucket)) : '/' ∉ bucket := by
  intro member
  exact absurd ((valid_bucket_chars valid).2 _ member) (by decide)

/-! ### Decoding what holds no escape -/

/-- An ASCII character other than the percent sign. -/
def Plain (c : Char) : Prop := c.toNat < 128 ∧ c ≠ '%'

theorem utf8EncodeChar_ascii {c : Char} (small : c.toNat < 128) :
    String.utf8EncodeChar c = [UInt8.ofNat c.toNat] := by
  have bound : c.val.toNat ≤ 127 := Nat.le_of_lt_succ small
  have size : c.utf8Size = 1 := by
    have low : c.val ≤ 0x7f := UInt32.le_iff_toNat_le.mpr bound
    simp [Char.utf8Size,low]
  rw [String.utf8EncodeChar_eq_singleton size]
  rfl

theorem bytes_plain {t : Text} (plain : ∀ c ∈ t, Plain c) : t.bytes = t.map fun c => UInt8.ofNat c.toNat := by
  induction t with
  | nil => rfl
  | cons c rest ih =>
    rw [Text.bytes,List.flatMap_cons,utf8EncodeChar_ascii (plain c (by simp)).1]
    exact congrArg _ (ih fun d member => plain d (by simp [member]))

/-- The byte of a plain character, as a number. -/
theorem toNat_plain {c : Char} (plain : Plain c) : (UInt8.ofNat c.toNat).toNat = c.toNat := by
  rw [UInt8.toNat_ofNat']
  exact Nat.mod_eq_of_lt (by have := plain.1; omega)

theorem plain_ne_percent {c : Char} (plain : Plain c) : UInt8.ofNat c.toNat ≠ 0x25 := by
  intro same
  have value : c.toNat = '%'.toNat := by
    rw [← toNat_plain plain,same]
    rfl
  exact plain.2 (Char.toNat_inj.mp value)

theorem percent_decode_cons {b : UInt8} (other : b ≠ 0x25) (rest : Bytes) :
    percent_decode (b :: rest) = b :: percent_decode rest := by
  match rest with
  | [] => rfl
  | [_] => rfl
  | _ :: _ :: _ => rw [percent_decode,if_neg other]

theorem percent_decode_plain {t : Text} (plain : ∀ c ∈ t, Plain c) :
    percent_decode (t.map fun c => UInt8.ofNat c.toNat) = t.map fun c => UInt8.ofNat c.toNat := by
  induction t with
  | nil => rfl
  | cons c rest ih =>
    rw [List.map_cons,percent_decode_cons (plain_ne_percent (plain c (by simp))),
      ih fun d member => plain d (by simp [member])]

theorem from_utf8_lossy_ascii {a : UInt8} (small : a < 0x80) (rest : Bytes) :
    from_utf8_lossy (a :: rest) = Char.ofNat a.toNat :: from_utf8_lossy rest := by
  conv_lhs => unfold from_utf8_lossy
  rw [if_pos small]

theorem from_utf8_lossy_plain {t : Text} (plain : ∀ c ∈ t, Plain c) :
    from_utf8_lossy (t.map fun c => UInt8.ofNat c.toNat) = t := by
  induction t with
  | nil => rfl
  | cons c rest ih =>
    have here := plain c (by simp)
    have small : UInt8.ofNat c.toNat < 0x80 := by
      rw [UInt8.lt_iff_toNat_lt,toNat_plain here]
      exact here.1
    rw [List.map_cons,from_utf8_lossy_ascii small,toNat_plain here,Char.ofNat_toNat,
      ih fun d member => plain d (by simp [member])]

theorem decode_utf8_lossy_plain {t : Text} (plain : ∀ c ∈ t, Plain c) : decode_utf8_lossy t = t := by
  rw [decode_utf8_lossy,bytes_plain plain,percent_decode_plain plain,from_utf8_lossy_plain plain]

theorem decode_utf8_plain {t : Text} (plain : ∀ c ∈ t, Plain c) : decode_utf8 t = some t := by
  rw [decode_utf8,bytes_plain plain,percent_decode_plain plain,from_utf8,from_utf8_lossy_plain plain,bytes_plain plain,
    if_pos rfl]

theorem percent_decode_length (data : Bytes) : (percent_decode data).length ≤ data.length := by
  fun_induction percent_decode data <;> simp <;> omega

/-- Decoding does not make a text longer. -/
theorem decode_utf8_length {t decoded : Text} (found : decode_utf8 t = some decoded) :
    decoded.bytes.length ≤ t.bytes.length := by
  rw [decode_utf8,from_utf8] at found
  split at found
  next same =>
    rw [← Option.some.inj found,same]
    exact percent_decode_length _
  · simp at found

theorem plain_between {c : Char} {low high : Nat} (above : low ≤ c.toNat) (below : c.toNat ≤ high)
    (range : 37 < low ∧ high < 128) : Plain c := by
  refine ⟨by omega,?_⟩
  rintro rfl
  have : '%'.toNat = 37 := rfl
  omega

theorem plain_of_nameChar {c : Char} (name : isNameChar c) : Plain c := by
  simp only [isNameChar,Bool.or_eq_true,decide_eq_true_eq] at name
  obtain ((lower | digit) | rfl) | rfl := name
  · simp only [Char.isLower,ge_iff_le,Bool.and_eq_true,decide_eq_true_eq,UInt32.le_iff_toNat_le] at lower
    exact plain_between (show 97 ≤ c.toNat from lower.1) (show c.toNat ≤ 122 from lower.2) (by decide)
  · simp only [Char.isDigit,ge_iff_le,Bool.and_eq_true,decide_eq_true_eq,UInt32.le_iff_toNat_le] at digit
    exact plain_between (show 48 ≤ c.toNat from digit.1) (show c.toNat ≤ 57 from digit.2) (by decide)
  · exact ⟨by decide,by decide⟩
  · exact ⟨by decide,by decide⟩

/-- A valid bucket name reads the same after decoding. -/
theorem decode_utf8_valid {bucket : Text} (valid : is_valid_bucket_name (String.ofList bucket)) :
    decode_utf8 bucket = some bucket :=
  decode_utf8_plain fun c member => plain_of_nameChar ((valid_bucket_chars valid).2 c member)

/-! ### Queries and routes -/

theorem mem_of_mem_splitChars {sep : Char} {t piece : List Char} (member : piece ∈ splitChars sep t) :
    ∀ c ∈ piece, c ∈ t := by
  induction t generalizing piece with
  | nil => simp_all [splitChars]
  | cons d rest ih =>
    rw [splitChars] at member
    split at member
    · rcases List.mem_cons.mp member with rfl | later
      · simp
      · exact fun c inside => List.mem_cons_of_mem _ (ih later c inside)
    · cases pieces : splitChars sep rest with
      | nil => simp_all
      | cons first more =>
        simp only [pieces,List.mem_cons] at member
        rcases member with rfl | later
        · intro c inside
          rcases List.mem_cons.mp inside with rfl | inside
          · simp
          · exact List.mem_cons_of_mem _ (ih (by simp [pieces]) c inside)
        · exact fun c inside => List.mem_cons_of_mem _ (ih (by simp [pieces,later]) c inside)

/-- A query without an equals sign has parameters without values. -/
theorem parse_query_unvalued {query : Text} (unvalued : '=' ∉ query) :
    parse_query query = ((splitChars '&' query).filter fun piece => piece ≠ []).map fun piece => (form_decode piece,[]) := by
  rw [parse_query]
  refine List.map_congr_left fun piece member => ?_
  have inside : ∀ c ∈ piece, c ∈ query := mem_of_mem_splitChars (List.mem_of_mem_filter member)
  have uncut : Text.split_once '=' piece = none := Text.split_once_none.mpr fun equals => unvalued (inside _ equals)
  rw [form_pair,uncut]

theorem form_decode_nil : form_decode [] = [] := rfl

/-- A parameter of a query without values is a piece of it. -/
theorem contains_key_unvalued {query : Text} (unvalued : '=' ∉ query) {name : String} (named : name.toList ≠ []) :
    (parse_query query).contains_key name ↔ ∃ piece ∈ splitChars '&' query, form_decode piece = name.toList := by
  rw [parse_query_unvalued unvalued]
  simp only [Params.contains_key,List.any_map,List.any_eq_true,List.mem_filter,Function.comp_apply,decide_eq_true_eq]
  constructor
  · rintro ⟨piece,⟨member,-⟩,decoded⟩
    exact ⟨piece,member,decoded⟩
  · rintro ⟨piece,member,decoded⟩
    refine ⟨piece,⟨member,?_⟩,decoded⟩
    rintro rfl
    exact named (decoded ▸ form_decode_nil)

/-- The route of a path with a slash after its first segment. -/
theorem route_cases {path : Text} {found : Route} (routed : route path = some found) :
    (found = .root ∧ path = ['/']) ∨
    (∃ segment, found = .bucket segment ∧ segment ≠ [] ∧ '/' ∉ segment ∧
      (path = '/' :: segment ∨ path = '/' :: segment ++ ['/'])) ∨
    (∃ segment rest, found = .object segment rest ∧ segment ≠ [] ∧ '/' ∉ segment ∧ rest ≠ [] ∧
      path = '/' :: segment ++ '/' :: rest) := by
  match path with
  | [] => simp [route] at routed
  | c :: path =>
    by_cases slash : c = '/'
    swap
    · rw [route] at routed
      · simp at routed
      · intro rest whole
        exact slash (List.cons.inj whole).1
    subst slash
    rw [route] at routed
    cases cut : Text.split_once '/' path with
    | none =>
      have outside := Text.split_once_none.mp cut
      simp only [cut] at routed
      split at routed
      next empty =>
        left
        simp_all
      next nonempty =>
        right; left
        exact ⟨path,by simpa using routed.symm,nonempty,outside,.inl rfl⟩
    | some pair =>
      obtain ⟨segment,rest⟩ := pair
      obtain ⟨rfl,outside⟩ := Text.split_once_some.mp cut
      simp only [cut] at routed
      split at routed
      · simp at routed
      next nonempty =>
        right
        split at routed
        next done => exact .inl ⟨segment,by simpa using routed.symm,nonempty,outside,.inr (by simp [done])⟩
        next more => exact .inr ⟨segment,rest,by simpa using routed.symm,nonempty,outside,more,by simp⟩

/-! ### Joined queries -/

theorem splitChars_append_sep (sep : Char) (a b : List Char) :
    splitChars sep (a ++ sep :: b) = splitChars sep a ++ splitChars sep b := by
  induction a with
  | nil => simp [splitChars]
  | cons c rest ih =>
    rw [List.cons_append,splitChars,splitChars,ih]
    by_cases same : c = sep
    · simp [same]
    · cases pieces : splitChars sep rest with
      | nil => exact absurd pieces (splitChars_ne_nil sep rest)
      | cons first more => simp [same]

/-- The pieces of a text are pieces of every list of texts joined around it. -/
theorem mem_splitChars_intercalate {sep : Char} {xs : List (List Char)} {x piece : List Char} (listed : x ∈ xs)
    (member : piece ∈ splitChars sep x) : piece ∈ splitChars sep ([sep].intercalate xs) := by
  induction xs with
  | nil => simp at listed
  | cons y rest ih =>
    cases rest with
    | nil =>
      obtain rfl : x = y := by simpa using listed
      simpa [List.intercalate,List.intersperse] using member
    | cons z more =>
      have joined : [sep].intercalate (y :: z :: more) = y ++ sep :: [sep].intercalate (z :: more) := by
        simp [List.intercalate,List.intersperse]
      rw [joined,splitChars_append_sep,List.mem_append]
      rcases List.mem_cons.mp listed with rfl | later
      · exact .inl member
      · exact .inr (ih later)

/-- A text up to its first separator begins its first piece. -/
theorem mem_splitChars_start {sep : Char} (start rest : List Char) (outside : sep ∉ start) :
    ∃ first ∈ splitChars sep rest, start ++ first ∈ splitChars sep (start ++ rest) := by
  obtain ⟨first,more,pieces⟩ := List.exists_cons_of_ne_nil (splitChars_ne_nil sep rest)
  have whole : splitChars sep (start ++ rest) = (start ++ first) :: more := by
    induction start with
    | nil => simpa using pieces
    | cons c start ih =>
      simp only [List.mem_cons,not_or] at outside
      rw [List.cons_append,splitChars,ih outside.2,if_neg (Ne.symm outside.1)]
      rfl
  exact ⟨first,by simp [pieces],by simp [whole]⟩

/-- The raw name of a parameter is found in the query it was written to. -/
theorem query_has_key_of_entry {entries : Params} {name value : Text} {key : String} (listed : (name,value) ∈ entries)
    (joint : '&' ∉ name) (equals : '=' ∉ name) (spelled : Text.eq_ignore_ascii_case name key.toList) :
    query_has_key ("&".toList.intercalate (entries.map fun entry => entry.1 ++ '=' :: entry.2)) key := by
  have written : name ++ '=' :: value ∈ entries.map fun entry => entry.1 ++ '=' :: entry.2 :=
    List.mem_map.mpr ⟨(name,value),listed,rfl⟩
  have single : '&' ∉ name ++ ['='] := by simp [joint]
  obtain ⟨first,-,member⟩ := mem_splitChars_start (name ++ ['=']) value single
  rw [List.append_assoc,List.append_assoc,List.singleton_append,List.singleton_append] at member
  have piece := mem_splitChars_intercalate written member
  rw [query_has_key,List.any_eq_true]
  refine ⟨_,piece,?_⟩
  rwa [Text.first_piece_split equals]

/-- A parameter of the query is an entry of the hash map, with the value that was kept. -/
theorem entry_of_param {params : Params} {name value : Text} (member : (name,value) ∈ params) :
    ∃ kept, (name,kept) ∈ params.entries := by
  induction params generalizing value with
  | nil => simp at member
  | cons entry rest ih =>
    rw [Params.entries]
    split
    next shadowed =>
      rcases List.mem_cons.mp member with rfl | later
      · obtain ⟨⟨other,kept⟩,present,same⟩ := List.any_eq_true.mp shadowed
        obtain rfl : other = name := by simpa using same
        exact ih present
      · exact ih later
    · rcases List.mem_cons.mp member with rfl | later
      · exact ⟨value,by simp⟩
      · obtain ⟨kept,listed⟩ := ih later
        exact ⟨kept,by simp [listed]⟩

/-- A character that becomes a lower case letter is a letter. -/
theorem letter_of_toLower {c : Char} (lower : (c.toLower).isLower) :
    Plain c ∧ c ≠ '+' ∧ c ≠ '&' ∧ c ≠ '=' := by
  have bounds : (65 ≤ c.toNat ∧ c.toNat ≤ 90) ∨ (97 ≤ c.toNat ∧ c.toNat ≤ 122) := by
    by_cases upper : 65 ≤ c.toNat ∧ c.toNat ≤ 90
    · exact .inl upper
    · right
      have same : c.toLower = c := by
        rw [Char.toLower]
        split
        next big => exact absurd (by simpa [Char.le_def,UInt32.le_iff_toNat_le] using big) upper
        · rfl
      rw [same] at lower
      simp only [Char.isLower,ge_iff_le,Bool.and_eq_true,decide_eq_true_eq,UInt32.le_iff_toNat_le] at lower
      exact lower
  have apart : ∀ d : Char, d.toNat < 65 → c ≠ d := by
    rintro d small rfl
    omega
  refine ⟨⟨by omega,apart _ (by decide)⟩,apart _ (by decide),apart _ (by decide),apart _ (by decide)⟩

/-- The spelling of a parameter name that is all letters, up to case. -/
theorem letters_of_spelled {name : Text} {key : String} (letters : ∀ c ∈ key.toList.map Char.toLower, c.isLower)
    (spelled : Text.eq_ignore_ascii_case name key.toList) :
    ∀ c ∈ name, Plain c ∧ c ≠ '+' ∧ c ≠ '&' ∧ c ≠ '=' := by
  intro c member
  have lowered : name.map Char.toLower = key.toList.map Char.toLower := by
    simpa [Text.eq_ignore_ascii_case] using spelled
  refine letter_of_toLower (letters _ ?_)
  rw [← lowered]
  exact List.mem_map_of_mem member

theorem form_decode_letters {name : Text} (letters : ∀ c ∈ name, Plain c ∧ c ≠ '+') : form_decode name = name := by
  have unchanged : (name.map fun c => if c = '+' then ' ' else c) = name := by
    conv_rhs => rw [← List.map_id name]
    exact List.map_congr_left fun c member => if_neg (letters c member).2
  rw [form_decode,unchanged,decode_utf8_lossy_plain fun c member => (letters c member).1]

/-- A parameter that the raw query names, case aside, is among the decoded ones under its own spelling. -/
theorem param_of_query_has_key {query : Text} {key : String} (nonempty : key.toList ≠ [])
    (letters : ∀ c ∈ key.toList.map Char.toLower, c.isLower) (present : query_has_key query key) :
    ∃ name value, (name,value) ∈ parse_query query ∧ Text.eq_ignore_ascii_case name key.toList ∧
      '&' ∉ name ∧ '=' ∉ name := by
  obtain ⟨piece,member,spelled⟩ := List.any_eq_true.mp present
  have plain := letters_of_spelled letters spelled
  have decoded : form_decode (Text.first_piece '=' piece) = Text.first_piece '=' piece :=
    form_decode_letters fun c inside => ⟨(plain c inside).1,(plain c inside).2.1⟩
  have kept : piece ≠ [] := by
    rintro rfl
    have lowered : [] = key.toList.map Char.toLower := by
      simpa [Text.eq_ignore_ascii_case,Text.first_piece] using spelled
    exact nonempty (List.map_eq_nil_iff.mp lowered.symm)
  refine ⟨Text.first_piece '=' piece,(form_pair piece).2,?_,spelled,fun inside => (plain _ inside).2.2.1 rfl,
    fun inside => (plain _ inside).2.2.2 rfl⟩
  refine List.mem_map.mpr ⟨piece,List.mem_filter.mpr ⟨member,by simpa using kept⟩,?_⟩
  rw [form_pair]
  cases cut : Text.split_once '=' piece with
  | none =>
    rw [Text.first_piece_whole (Text.split_once_none.mp cut)] at decoded ⊢
    simp [decoded]
  | some pair =>
    obtain ⟨name,value⟩ := pair
    obtain ⟨rfl,outside⟩ := Text.split_once_some.mp cut
    rw [Text.first_piece_split outside] at decoded ⊢
    simp [decoded]

end Maxio
