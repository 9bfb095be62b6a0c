import Maxio.CanonicalQuery

/-!
The query of a URL that was put together as a text, and what is left of the text once the other side has decoded it. The
escapes that the client adds are undone, those that were in the text before are undone as well.
-/

namespace Maxio

/-! ### The client's query -/

/-- The bytes that the client escapes in a query. -/
def QUERY_ESCAPES (b : UInt8) : Bool := b ≤ 0x20 || 0x7F ≤ b || [0x22,0x23,0x27,0x3C,0x3E].contains b

/-- Tabs and line breaks, which a URL loses wherever they stand. -/
def tab_or_newline (c : Char) : Bool := c = '\t' || c = '\n' || c = '\r'

/-- The query of a URL without blanks around it. -/
def url_query (url : Text) : Text :=
  let url := (url.filter fun c => !tab_or_newline c).takeWhile (· ≠ '#')
  utf8_percent_encode ((url.dropWhile (· ≠ '?')).drop 1) QUERY_ESCAPES

/-! ### Escapes that are added -/

/-- Whether what follows a percent sign makes it an escape. -/
def escape_at : Bytes → Bool
  | h :: l :: _ => (hex_value h).isSome && (hex_value l).isSome
  | _ => false

theorem percent_decode_literal {data : Bytes} (literal : escape_at data = false) :
    percent_decode (0x25 :: data) = 0x25 :: percent_decode data := by
  match data with
  | [] => rfl
  | [_] => rfl
  | h :: l :: rest =>
    rw [percent_decode,if_pos rfl]
    rw [escape_at] at literal
    split
    next x y high low => simp [high,low] at literal
    next => rfl

theorem percent_decode_escape {h l : UInt8} (escape : (hex_value h).isSome && (hex_value l).isSome) :
    ∃ b, ∀ rest, percent_decode (0x25 :: h :: l :: rest) = b :: percent_decode rest := by
  rw [Bool.and_eq_true] at escape
  obtain ⟨x,high⟩ := Option.isSome_iff_exists.mp escape.1
  obtain ⟨y,low⟩ := Option.isSome_iff_exists.mp escape.2
  exact ⟨16 * x + y,fun rest => by rw [percent_decode,if_pos rfl,high,low]⟩

/-- Bytes with escapes in the place of some that are no digits of escapes. -/
inductive EscapedBytes : Bytes → Bytes → Prop where
  | nil : EscapedBytes [] []
  | keep (b : UInt8) {raw written : Bytes} (rest : EscapedBytes raw written) : EscapedBytes (b :: raw) (b :: written)
  | escape (b : UInt8) {raw written : Bytes} (digitless : hex_value b = none) (other : b ≠ 0x25)
      (rest : EscapedBytes raw written) : EscapedBytes (b :: raw) (encoded_byte (fun _ => true) b ++ written)

def all_bytes : QuerySet := ⟨fun _ => true,fun _ kept => absurd kept (by decide),rfl,rfl,rfl⟩

theorem encoded_byte_starts (b : UInt8) (rest : Bytes) :
    ∃ x y, encoded_byte (fun _ => true) b ++ rest = 0x25 :: x :: y :: rest := ⟨_,_,rfl⟩

theorem EscapedBytes.escape_at {raw written : Bytes} (escaped : EscapedBytes raw written) : escape_at written = escape_at raw := by
  have percent : hex_value 0x25 = none := by decide
  cases escaped with
  | nil => rfl
  | escape b digitless other rest =>
    obtain ⟨x,y,starts⟩ := encoded_byte_starts b _
    rw [starts]
    cases rest <;> simp [Maxio.escape_at,digitless,percent]
  | keep b rest =>
    cases rest with
    | nil => rfl
    | keep c more => rfl
    | escape c digitless other more =>
      obtain ⟨x,y,starts⟩ := encoded_byte_starts c _
      rw [starts]
      simp [Maxio.escape_at,digitless,percent]

/-- Added escapes make no difference to what is decoded. -/
theorem percent_decode_escaped {raw written : Bytes} (escaped : EscapedBytes raw written) :
    percent_decode written = percent_decode raw := by
  induction size : raw.length using Nat.strong_induction_on generalizing raw written with
  | _ size ih =>
    cases escaped with
    | nil => rfl
    | escape b digitless other rest =>
      rw [List.length_cons] at size
      rw [percent_decode_cons other,← ih _ (by omega) rest rfl]
      exact all_bytes.percent_decode_byte b _
    | @keep b tail written rest =>
      rw [List.length_cons] at size
      by_cases percent : b = 0x25
      · subst percent
        have same := rest.escape_at
        by_cases escape : escape_at tail
        · cases rest with
          | nil => exact absurd escape (by decide)
          | escape h digitless other more => cases more <;> simp [escape_at,digitless] at escape
          | @keep h tail' _ more =>
            cases more with
            | nil => exact absurd escape (by simp [escape_at])
            | escape l digitless other more => simp [escape_at,digitless] at escape
            | keep l more =>
              obtain ⟨decoded,step⟩ := percent_decode_escape escape
              rw [step,step,ih _ (by simp only [List.length_cons] at size; omega) more rfl]
        · rw [percent_decode_literal (by rw [same]; simpa using escape),percent_decode_literal (by simpa using escape),
            ih _ (by omega) rest rfl]
      · rw [percent_decode_cons percent,percent_decode_cons percent,ih _ (by omega) rest rfl]

/-! ### Pieces of an escaped query -/

theorem query_escapes_kept {b : UInt8} (kept : QUERY_ESCAPES b = false) : b.toNat < 127 ∧ 0x20 < b.toNat := by
  simp only [QUERY_ESCAPES,Bool.or_eq_false_iff,decide_eq_false_iff_not,UInt8.le_iff_toNat_le] at kept
  have low : (0x20 : UInt8).toNat = 0x20 := rfl
  have high : (0x7F : UInt8).toNat = 0x7F := rfl
  omega

/-- No byte that is escaped has a part in an escape or in the form of a query. -/
theorem query_escapes_digitless {b : UInt8} (escaped : QUERY_ESCAPES b = true) :
    hex_value b = none ∧ b ≠ 0x25 ∧ b ≠ 0x2B := by
  revert b
  decide +kernel

/-- What becomes of one character. -/
def encoded_char (c : Char) : Text :=
  (String.utf8EncodeChar c).flatMap fun b => if QUERY_ESCAPES b then percent_encode_byte b else [Char.ofNat b.toNat]

theorem encoded_chars (t : Text) : utf8_percent_encode t QUERY_ESCAPES = t.flatMap encoded_char := by
  rw [utf8_percent_encode,Text.bytes,List.flatMap_assoc]
  rfl

theorem encoded_sep {sep : Char} (mark : sep = '&' ∨ sep = '=') : encoded_char sep = [sep] := by
  rcases mark with rfl | rfl <;> decide +kernel

/-- A separator is written only for itself. -/
theorem sep_not_mem_encoded {c sep : Char} (mark : sep = '&' ∨ sep = '=') (other : c ≠ sep) : sep ∉ encoded_char c := by
  intro member
  obtain ⟨b,listed,made⟩ := List.mem_flatMap.mp member
  split at made
  next =>
    obtain ⟨-,joint,equals,-⟩ := percent_encode_byte_plain b made
    rcases mark with rfl | rfl
    · exact joint rfl
    · exact equals rfl
  next kept =>
    have range := query_escapes_kept (Bool.not_eq_true _ ▸ kept)
    have value : sep.toNat = b.toNat := by
      rw [List.mem_singleton.mp made,Char.toNat_ofNat,if_pos (.inl (by omega))]
    have byte : UInt8.ofNat sep.toNat ∈ Text.bytes [c] := by
      rw [value,UInt8.ofNat_toNat,Text.bytes,List.flatMap_singleton]
      exact listed
    rw [mem_bytes_iff (by omega) (by omega),List.mem_singleton] at byte
    exact other byte.symm

section
variable {sep : Char} {f : Char → Text} (own : f sep = [sep]) (outside : ∀ c, c ≠ sep → sep ∉ f c)

theorem splitChars_outside {start : Text} (clear : sep ∉ start) (t : Text) :
    splitChars sep (start ++ t) = (splitChars sep t).modifyHead (start ++ ·) := by
  induction start with
  | nil => cases pieces : splitChars sep t <;> simp [pieces]
  | cons c rest ih =>
    simp only [List.mem_cons,not_or] at clear
    rw [List.cons_append,splitChars,if_neg (Ne.symm clear.1),ih clear.2]
    cases pieces : splitChars sep t with
    | nil => exact absurd pieces (splitChars_ne_nil sep t)
    | cons first more => rfl

include own outside in
/-- Rewriting the characters between separators leaves the cuts where they are. -/
theorem splitChars_flatMap (t : Text) :
    splitChars sep (t.flatMap f) = (splitChars sep t).map fun piece => piece.flatMap f := by
  induction t with
  | nil => rfl
  | cons c rest ih =>
    rw [List.flatMap_cons,splitChars]
    by_cases same : c = sep
    · rw [same,own,if_pos rfl,List.singleton_append,splitChars,if_pos rfl,ih]
      rfl
    · rw [splitChars_outside (outside c same),if_neg same,ih]
      cases pieces : splitChars sep rest with
      | nil => exact absurd pieces (splitChars_ne_nil sep rest)
      | cons first more => simp

include own outside in
theorem split_once_flatMap (t : Text) : Text.split_once sep (t.flatMap f) =
    (Text.split_once sep t).map fun cut => (cut.1.flatMap f,cut.2.flatMap f) := by
  have clear {piece : Text} (none : sep ∉ piece) : sep ∉ piece.flatMap f := by
    intro member
    obtain ⟨c,listed,inside⟩ := List.mem_flatMap.mp member
    exact outside c (fun same => none (same ▸ listed)) inside
  cases found : Text.split_once sep t with
  | none => exact Text.split_once_none.mpr (clear (Text.split_once_none.mp found))
  | some cut =>
    obtain ⟨rfl,before⟩ := Text.split_once_some.mp found
    apply Text.split_once_some.mpr
    exact ⟨by rw [List.flatMap_append,List.flatMap_cons,own]; rfl,clear before⟩

end

theorem encoded_char_nonempty (c : Char) : encoded_char c ≠ [] := by
  intro none
  have bytes : String.utf8EncodeChar c ≠ [] := by
    intro empty
    have back : from_utf8_lossy (String.utf8EncodeChar c ++ []) = c :: from_utf8_lossy [] := lossy_char [] c
    simp [empty,from_utf8_lossy] at back
  obtain ⟨b,rest,first⟩ := List.exists_cons_of_ne_nil bytes
  rw [encoded_char,first,List.flatMap_cons,List.append_eq_nil_iff] at none
  have step := none.1
  split at step <;> cases step

theorem encoded_char_ascii {c d : Char} (member : d ∈ encoded_char c) : d.toNat < 128 := by
  obtain ⟨b,-,made⟩ := List.mem_flatMap.mp member
  split at made
  next => exact (percent_encode_byte_plain b made).1
  next kept =>
    have range := query_escapes_kept (Bool.not_eq_true _ ▸ kept)
    rw [List.mem_singleton.mp made,Char.toNat_ofNat,if_pos (.inl (by omega))]
    omega

theorem encoded_bytes (t : Text) : Text.bytes (t.flatMap encoded_char) = t.bytes.flatMap (encoded_byte QUERY_ESCAPES) := by
  have ascii : ∀ d ∈ t.flatMap encoded_char, d.toNat < 128 := by
    intro d member
    obtain ⟨c,-,made⟩ := List.mem_flatMap.mp member
    exact encoded_char_ascii made
  rw [QuerySet.bytes_ascii ascii,← encoded_chars,utf8_percent_encode,List.map_flatMap]
  congr 1
  funext b
  unfold encoded_byte
  split
  next => rfl
  next kept =>
    have range := query_escapes_kept (Bool.not_eq_true _ ▸ kept)
    rw [List.map_singleton,Char.toNat_ofNat,if_pos (.inl (by omega)),UInt8.ofNat_toNat]

/-- An escape has no plus sign. -/
theorem escape_plusless (b : UInt8) :
    (encoded_byte (fun _ => true) b).map blank_for_plus = encoded_byte (fun _ => true) b := by
  conv_rhs => rw [← List.map_id (encoded_byte _ b)]
  apply List.map_congr_left
  intro d member
  obtain ⟨c,made,rfl⟩ := List.mem_map.mp member
  obtain ⟨small,-,-,plus⟩ := percent_encode_byte_plain b made
  apply if_neg
  intro same
  have value := congrArg UInt8.toNat same
  rw [byte_toNat (by omega)] at value
  exact plus (Char.toNat_inj.mp value)

theorem escaped_query (data : Bytes) :
    EscapedBytes (data.map blank_for_plus) ((data.flatMap (encoded_byte QUERY_ESCAPES)).map blank_for_plus) := by
  induction data with
  | nil => exact .nil
  | cons b rest ih =>
    rw [List.map_cons,List.flatMap_cons,List.map_append]
    by_cases escaped : QUERY_ESCAPES b
    · obtain ⟨digitless,other,plus⟩ := query_escapes_digitless escaped
      have written : (encoded_byte QUERY_ESCAPES b).map blank_for_plus = encoded_byte (fun _ => true) b := by
        have same : encoded_byte QUERY_ESCAPES b = encoded_byte (fun _ => true) b := by
          rw [encoded_byte,if_pos escaped]
          rfl
        rw [same,escape_plusless]
      rw [written,blank_for_plus,if_neg plus]
      exact .escape b digitless other ih
    · have written : encoded_byte QUERY_ESCAPES b = [b] := if_neg escaped
      rw [written]
      exact .keep _ ih

theorem form_decode_encoded (t : Text) : form_decode (t.flatMap encoded_char) = form_decode t := by
  rw [form_decode,form_decode,decode_utf8_lossy,decode_utf8_lossy,bytes_blanks,bytes_blanks,encoded_bytes,
    percent_decode_escaped (escaped_query t.bytes)]

theorem form_pair_encoded (piece : Text) : form_pair (piece.flatMap encoded_char) = form_pair piece := by
  rw [form_pair,form_pair,split_once_flatMap (encoded_sep (.inr rfl)) (fun c => sep_not_mem_encoded (.inr rfl))]
  cases Text.split_once '=' piece with
  | none => simp only [Option.map_none,form_decode_encoded]
  | some cut => simp only [Option.map_some,form_decode_encoded]

/-- The escapes of the client are undone. -/
theorem parse_query_encoded (t : Text) : parse_query (utf8_percent_encode t QUERY_ESCAPES) = parse_query t := by
  have joint := splitChars_flatMap (encoded_sep (.inl rfl)) (fun c => sep_not_mem_encoded (.inl rfl)) t
  have empty : ((fun piece : Text => decide (piece ≠ [])) ∘ fun piece => piece.flatMap encoded_char) =
      fun piece => decide (piece ≠ []) := by
    funext piece
    cases piece with
    | nil => rfl
    | cons c rest => simp [encoded_char_nonempty c]
  rw [parse_query,parse_query,encoded_chars,joint,List.filter_map,List.map_map,empty]
  exact List.map_congr_left fun piece _ => form_pair_encoded piece

/-! ### What decoding leaves as it is -/

/-- Whether no percent sign begins an escape. -/
def escape_free : Bytes → Bool
  | [] => true
  | b :: rest => !(b = 0x25 && escape_at rest) && escape_free rest

/-- A text that stands in a query for itself. -/
structure Unchanged (t : Text) : Prop where
  clear : ∀ c ∈ t, c ∉ ['&','#','+','\t','\n','\r']
  escapes : escape_free t.bytes = true

instance (t : Text) : Decidable (Unchanged t) :=
  decidable_of_iff ((t.all fun c => decide (c ∉ ['&','#','+','\t','\n','\r'])) = true ∧ escape_free t.bytes = true)
    ⟨fun both => ⟨by simpa using both.1,both.2⟩,fun unchanged => ⟨by simpa using unchanged.clear,unchanged.escapes⟩⟩

/-! ### Characters below 128 in all -/

/-- The characters below 128 but for NUL. -/
def low_chars : Text := (List.range 127).map fun n => Char.ofNat (n + 1)

def low_bytes : Bytes := low_chars.map fun c => UInt8.ofNat c.toNat

/-- How many of a text's characters are below 128. -/
def low_count (t : Text) : Nat := t.countP fun c => decide (c ∈ low_chars)

def low_byte_count (data : Bytes) : Nat := data.countP fun b => decide (b ∈ low_bytes)

theorem sum_indicator {α : Type} [DecidableEq α] {cs : List α} (distinct : cs.Nodup) (x : α) :
    (cs.map fun c => if x == c then 1 else 0).sum = if x ∈ cs then 1 else 0 := by
  induction cs with
  | nil => rfl
  | cons c rest ih =>
    obtain ⟨new,later⟩ := List.nodup_cons.mp distinct
    rw [List.map_cons,List.sum_cons,ih later]
    by_cases same : x = c
    · subst same
      simp [new]
    · simp [same]

theorem countP_mem_eq_sum {α : Type} [DecidableEq α] {cs : List α} (distinct : cs.Nodup) (xs : List α) :
    xs.countP (fun x => decide (x ∈ cs)) = (cs.map fun c => xs.count c).sum := by
  induction xs with
  | nil => simp
  | cons x rest ih =>
    simp only [List.countP_cons,List.count_cons,List.sum_map_add,sum_indicator distinct,ih,decide_eq_true_eq]

theorem mem_low_chars {c : Char} : c ∈ low_chars ↔ c.toNat < 128 ∧ c.toNat ≠ 0 := by
  have value (n : Nat) (small : n < 127) : (Char.ofNat (n + 1)).toNat = n + 1 := by
    rw [Char.toNat_ofNat,if_pos (.inl (by omega))]
  constructor
  · intro member
    obtain ⟨n,listed,rfl⟩ := List.mem_map.mp member
    have small := List.mem_range.mp listed
    rw [value n small]
    omega
  · rintro ⟨small,nonzero⟩
    refine List.mem_map.mpr ⟨c.toNat - 1,List.mem_range.mpr (by omega),?_⟩
    rw [Nat.sub_add_cancel (by omega),Char.ofNat_toNat]

theorem low_chars_nodup : low_chars.Nodup := by
  apply List.Nodup.map_on _ List.nodup_range
  intro m in_m n in_n same
  have small := List.mem_range.mp in_m
  have small' := List.mem_range.mp in_n
  have values := congrArg Char.toNat same
  rw [Char.toNat_ofNat,if_pos (.inl (by omega)),Char.toNat_ofNat,if_pos (.inl (by omega))] at values
  omega

theorem low_bytes_nodup : low_bytes.Nodup := by
  apply List.Nodup.map_on _ low_chars_nodup
  intro c in_c d in_d same
  have small := mem_low_chars.mp in_c
  have small' := mem_low_chars.mp in_d
  have values := congrArg UInt8.toNat same
  rw [byte_toNat (by omega),byte_toNat (by omega)] at values
  exact Char.toNat_inj.mp values

/-- They come out of the bytes as they went in. -/
theorem low_count_lossy (data : Bytes) : low_count (from_utf8_lossy data) = low_byte_count data := by
  rw [low_count,low_byte_count,countP_mem_eq_sum low_chars_nodup,countP_mem_eq_sum low_bytes_nodup,low_bytes,
    List.map_map]
  congr 1
  apply List.map_congr_left
  intro c member
  obtain ⟨small,nonzero⟩ := mem_low_chars.mp member
  exact count_lossy small nonzero data

theorem low_count_bytes (t : Text) : low_byte_count t.bytes = low_count t := by
  rw [← low_count_lossy,lossy_bytes]

theorem hex_value_low {b : UInt8} (digit : (hex_value b).isSome = true) : b ∈ low_bytes := by
  revert b
  decide +kernel

theorem hex_value_low_percent : (0x25 : UInt8) ∈ low_bytes := by decide +kernel

theorem low_byte_count_cons (b : UInt8) (rest : Bytes) :
    low_byte_count (b :: rest) = low_byte_count rest + if b ∈ low_bytes then 1 else 0 := by
  rw [low_byte_count,List.countP_cons,low_byte_count]
  simp

/-- Each escape takes three of them and gives one at most. -/
theorem percent_decode_low (data : Bytes) :
    low_byte_count (percent_decode data) ≤ low_byte_count data ∧
      (escape_free data = false → low_byte_count (percent_decode data) < low_byte_count data) ∧
      (escape_free data = true → percent_decode data = data) := by
  fun_induction percent_decode data with
  | case1 => simp [escape_free]
  | case2 b => simp [escape_free,escape_at]
  | case3 b c => simp [escape_free,escape_at]
  | case4 h l rest x y low high ih =>
    have percent : 0x25 ∈ low_bytes := hex_value_low_percent
    have escape : escape_free (0x25 :: h :: l :: rest) = false := by simp [escape_free,escape_at,low,high]
    have count : low_byte_count (0x25 :: h :: l :: rest) = low_byte_count rest + 3 := by
      rw [low_byte_count_cons,low_byte_count_cons,low_byte_count_cons,if_pos percent,
        if_pos (hex_value_low (by rw [low]; rfl)),if_pos (hex_value_low (by rw [high]; rfl))]
    have less : low_byte_count ((16 * x + y) :: percent_decode rest) ≤ low_byte_count rest + 1 := by
      rw [low_byte_count_cons]
      have := ih.1
      split <;> omega
    rw [escape,count]
    exact ⟨by omega,fun _ => by omega,fun free => absurd free (by decide)⟩
  | case5 h l rest broken ih =>
    have literal : escape_at (h :: l :: rest) = false := by
      rw [escape_at,Bool.and_eq_false_iff]
      by_contra both
      rw [not_or,Bool.not_eq_false,Bool.not_eq_false] at both
      obtain ⟨x,high⟩ := Option.isSome_iff_exists.mp both.1
      obtain ⟨y,low⟩ := Option.isSome_iff_exists.mp both.2
      exact broken x y high low
    have free : escape_free (0x25 :: h :: l :: rest) = escape_free (h :: l :: rest) := by
      rw [escape_free,literal,Bool.and_false,Bool.not_false,Bool.true_and]
    rw [free,low_byte_count_cons,low_byte_count_cons 0x25 (h :: l :: rest)]
    exact ⟨by omega,fun some => by have := ih.2.1 some; omega,fun none => by rw [ih.2.2 none]⟩
  | case6 b h l rest other ih =>
    have free : escape_free (b :: h :: l :: rest) = escape_free (h :: l :: rest) := by
      rw [escape_free,decide_eq_false other,Bool.false_and,Bool.not_false,Bool.true_and]
    rw [free,low_byte_count_cons,low_byte_count_cons b (h :: l :: rest)]
    exact ⟨by omega,fun some => by have := ih.2.1 some; omega,fun none => by rw [ih.2.2 none]⟩

theorem low_byte_count_blanks (data : Bytes) : low_byte_count (data.map blank_for_plus) = low_byte_count data := by
  have blank : 0x20 ∈ low_bytes := by decide +kernel
  have plus : 0x2B ∈ low_bytes := by decide +kernel
  induction data with
  | nil => rfl
  | cons b rest ih =>
    rw [List.map_cons,low_byte_count_cons,low_byte_count_cons,ih,blank_for_plus]
    by_cases same : b = 0x2B
    · rw [if_pos same,if_pos blank,same,if_pos plus]
    · rw [if_neg same]

theorem low_count_form_decode (t : Text) : low_count (form_decode t) ≤ low_count t := by
  rw [form_decode,decode_utf8_lossy,low_count_lossy,bytes_blanks]
  have step := (percent_decode_low (t.bytes.map blank_for_plus)).1
  rwa [low_byte_count_blanks,low_count_bytes] at step

/-- A text that decodes to itself has no escapes and no plus signs. -/
theorem form_decode_self_iff (t : Text) : form_decode t = t ↔ '+' ∉ t ∧ escape_free t.bytes = true := by
  have kept (none : '+' ∉ t) : t.bytes.map blank_for_plus = t.bytes := by
    conv_rhs => rw [← List.map_id t.bytes]
    apply List.map_congr_left
    intro b member
    apply if_neg
    rintro rfl
    exact none ((mem_bytes_iff (c := '+') (by decide) (by decide) t).mp member)
  constructor
  · intro same
    have steps := percent_decode_low (t.bytes.map blank_for_plus)
    have count := congrArg low_count same
    have whole : low_count t = low_byte_count (t.bytes.map blank_for_plus) := by
      rw [low_byte_count_blanks,low_count_bytes]
    rw [form_decode,decode_utf8_lossy,low_count_lossy,bytes_blanks,whole] at count
    have free : escape_free (t.bytes.map blank_for_plus) = true := by
      by_contra some
      have := steps.2.1 (by simpa using some)
      omega
    have plusless : '+' ∉ t := by
      rw [form_decode,decode_utf8_lossy,bytes_blanks,steps.2.2 free,← bytes_blanks,lossy_bytes] at same
      intro plus
      rw [← same] at plus
      obtain ⟨c,-,made⟩ := List.mem_map.mp plus
      split at made
      next => exact absurd made (by decide)
      next other => exact other made
    rw [kept plusless] at free
    exact ⟨plusless,free⟩
  · rintro ⟨plusless,free⟩
    rw [form_decode,decode_utf8_lossy,bytes_blanks,kept plusless,(percent_decode_low t.bytes).2.2 free,lossy_bytes]

/-- What is cut away from a text does not come back when the rest is decoded. -/
theorem nothing_cut {t cut : Text} {marks : List Char} (low : ∀ c ∈ marks, c ∈ low_chars)
    (sub : cut.Sublist (t.filter fun c => decide (c ∉ marks))) (same : form_decode cut = t) : ∀ c ∈ t, c ∉ marks := by
  intro c member mark
  have count := low_count_form_decode cut
  rw [same] at count
  have less : low_count cut ≤ low_count (t.filter fun c => decide (c ∉ marks)) := sub.countP_le
  have gone : 0 < low_count (t.filter fun c => decide (c ∈ marks)) := by
    apply List.countP_pos_iff.mpr
    exact ⟨c,List.mem_filter.mpr ⟨member,by simpa using mark⟩,by simpa using low c mark⟩
  have parts : low_count t = low_count (t.filter fun c => decide (c ∈ marks)) +
      low_count (t.filter fun c => decide (c ∉ marks)) := by
    have split := List.countP_eq_countP_filter_add t (fun c => decide (c ∈ low_chars)) fun c => decide (c ∈ marks)
    simpa [low_count] using split
  omega

end Maxio
