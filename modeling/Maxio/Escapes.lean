import Maxio.HttpSpec

/-!
What survives the way through percent escapes and UTF-8: every text that was encoded, and every character below 128.
-/

namespace Maxio

/-! ### UTF-8 -/

section

theorem byte_toNat {n : Nat} (small : n < 256) : (UInt8.ofNat n).toNat = n := by
  rw [UInt8.toNat_ofNat']
  exact Nat.mod_eq_of_lt small

theorem not_small {n : Nat} (high : 128 ≤ n) (small : n < 256) : ¬ UInt8.ofNat n < 0x80 := by
  rw [UInt8.lt_iff_toNat_lt,byte_toNat small]
  exact Nat.not_lt.mpr high

theorem byte_between {n low high : Nat} (small : n < 256) (fits : low < 256) (fits' : high < 256) :
    UInt8.ofNat low ≤ UInt8.ofNat n ∧ UInt8.ofNat n ≤ UInt8.ofNat high ↔ low ≤ n ∧ n ≤ high := by
  rw [UInt8.le_iff_toNat_le,UInt8.le_iff_toNat_le,byte_toNat small,byte_toNat fits,byte_toNat fits']

/-- Every byte after the first of a character. -/
theorem continuation_low (n : Nat) : continuation (UInt8.ofNat (n % 64 + 128)) = true := by
  have within := (@byte_between (n % 64 + 128) 128 191 (by omega) (by omega) (by omega)).mpr (by omega)
  rw [continuation,Bool.and_eq_true,decide_eq_true_eq,decide_eq_true_eq]
  exact within

theorem low_bits_low (n : Nat) : low_bits (UInt8.ofNat (n % 64 + 128)) = n % 64 := by
  rw [low_bits,byte_toNat (by omega)]
  omega

variable {c : Char} (rest : Bytes)

theorem lossy_two (low : 0x80 ≤ c.toNat) (high : c.toNat ≤ 0x7ff) :
    from_utf8_lossy (UInt8.ofNat (c.toNat / 64 % 32 + 192) :: UInt8.ofNat (c.toNat % 64 + 128) :: rest) =
      c :: from_utf8_lossy rest := by
  have first : 0xC2 ≤ UInt8.ofNat (c.toNat / 64 % 32 + 192) ∧ UInt8.ofNat (c.toNat / 64 % 32 + 192) ≤ 0xDF :=
    (@byte_between (c.toNat / 64 % 32 + 192) 194 223 (by omega) (by omega) (by omega)).mpr (by omega)
  have value : (UInt8.ofNat (c.toNat / 64 % 32 + 192)).toNat % 32 * 64 + low_bits (UInt8.ofNat (c.toNat % 64 + 128)) =
      c.toNat := by
    rw [byte_toNat (by omega),low_bits_low]
    omega
  conv_lhs => unfold from_utf8_lossy
  rw [if_neg (not_small (by omega) (by omega)),if_pos first]
  simp only [continuation_low,if_true,value,Char.ofNat_toNat]

theorem lossy_three (low : 0x800 ≤ c.toNat) (high : c.toNat ≤ 0xffff) :
    from_utf8_lossy (UInt8.ofNat (c.toNat / 4096 % 16 + 224) :: UInt8.ofNat (c.toNat / 64 % 64 + 128) ::
      UInt8.ofNat (c.toNat % 64 + 128) :: rest) = c :: from_utf8_lossy rest := by
  have early : ¬ (0xC2 ≤ UInt8.ofNat (c.toNat / 4096 % 16 + 224) ∧ UInt8.ofNat (c.toNat / 4096 % 16 + 224) ≤ 0xDF) :=
    fun both => absurd ((@byte_between (c.toNat / 4096 % 16 + 224) 194 223 (by omega) (by omega) (by omega)).mp both)
      (by omega)
  have first : 0xE0 ≤ UInt8.ofNat (c.toNat / 4096 % 16 + 224) ∧ UInt8.ofNat (c.toNat / 4096 % 16 + 224) ≤ 0xEF :=
    (@byte_between (c.toNat / 4096 % 16 + 224) 224 239 (by omega) (by omega) (by omega)).mpr (by omega)
  have value : (UInt8.ofNat (c.toNat / 4096 % 16 + 224)).toNat % 16 * 4096 +
      low_bits (UInt8.ofNat (c.toNat / 64 % 64 + 128)) * 64 + low_bits (UInt8.ofNat (c.toNat % 64 + 128)) =
        c.toNat := by
    rw [byte_toNat (by omega),low_bits_low,low_bits_low]
    omega
  have second : second_of_three (UInt8.ofNat (c.toNat / 4096 % 16 + 224)) (UInt8.ofNat (c.toNat / 64 % 64 + 128)) := by
    unfold second_of_three
    split
    next same =>
      -- a shorter sequence would do for a smaller character
      have zero : c.toNat / 4096 % 16 + 224 = 224 := by
        rw [← @byte_toNat (c.toNat / 4096 % 16 + 224) (by omega),same]
        rfl
      have within := (@byte_between (c.toNat / 64 % 64 + 128) 160 191 (by omega) (by omega) (by omega)).mpr (by omega)
      rw [Bool.and_eq_true,decide_eq_true_eq,decide_eq_true_eq]
      exact within
    next =>
      split
      next same =>
        -- no character is a surrogate
        have surrogate : c.toNat / 4096 % 16 + 224 = 237 := by
          rw [← @byte_toNat (c.toNat / 4096 % 16 + 224) (by omega),same]
          rfl
        have valid : c.toNat < 0xd800 ∨ 0xdfff < c.toNat ∧ c.toNat < 0x110000 := c.valid
        have within := (@byte_between (c.toNat / 64 % 64 + 128) 128 159 (by omega) (by omega) (by omega)).mpr (by omega)
        rw [Bool.and_eq_true,decide_eq_true_eq,decide_eq_true_eq]
        exact within
      next => exact continuation_low _
  conv_lhs => unfold from_utf8_lossy
  rw [if_neg (not_small (by omega) (by omega)),if_neg early,if_pos first]
  simp only [second,continuation_low,if_true,value,Char.ofNat_toNat]

theorem lossy_four (low : 0x10000 ≤ c.toNat) :
    from_utf8_lossy (UInt8.ofNat (c.toNat / 262144 % 8 + 240) :: UInt8.ofNat (c.toNat / 4096 % 64 + 128) ::
      UInt8.ofNat (c.toNat / 64 % 64 + 128) :: UInt8.ofNat (c.toNat % 64 + 128) :: rest) =
        c :: from_utf8_lossy rest := by
  have valid : c.toNat < 0xd800 ∨ 0xdfff < c.toNat ∧ c.toNat < 0x110000 := c.valid
  have small : c.toNat / 262144 % 8 + 240 < 256 := by omega
  have early : ¬ (0xC2 ≤ UInt8.ofNat (c.toNat / 262144 % 8 + 240) ∧ UInt8.ofNat (c.toNat / 262144 % 8 + 240) ≤ 0xDF) :=
    fun both => absurd ((@byte_between _ 194 223 small (by omega) (by omega)).mp both) (by omega)
  have early' : ¬ (0xE0 ≤ UInt8.ofNat (c.toNat / 262144 % 8 + 240) ∧ UInt8.ofNat (c.toNat / 262144 % 8 + 240) ≤ 0xEF) :=
    fun both => absurd ((@byte_between _ 224 239 small (by omega) (by omega)).mp both) (by omega)
  have first : 0xF0 ≤ UInt8.ofNat (c.toNat / 262144 % 8 + 240) ∧ UInt8.ofNat (c.toNat / 262144 % 8 + 240) ≤ 0xF4 :=
    (@byte_between _ 240 244 small (by omega) (by omega)).mpr (by omega)
  have value : (UInt8.ofNat (c.toNat / 262144 % 8 + 240)).toNat % 8 * 262144 +
      low_bits (UInt8.ofNat (c.toNat / 4096 % 64 + 128)) * 4096 +
      low_bits (UInt8.ofNat (c.toNat / 64 % 64 + 128)) * 64 + low_bits (UInt8.ofNat (c.toNat % 64 + 128)) =
        c.toNat := by
    rw [byte_toNat small,low_bits_low,low_bits_low,low_bits_low]
    omega
  have second : second_of_four (UInt8.ofNat (c.toNat / 262144 % 8 + 240)) (UInt8.ofNat (c.toNat / 4096 % 64 + 128)) := by
    unfold second_of_four
    split
    next same =>
      have zero : c.toNat / 262144 % 8 + 240 = 240 := by
        rw [← byte_toNat small,same]
        rfl
      have within := (@byte_between (c.toNat / 4096 % 64 + 128) 144 191 (by omega) (by omega) (by omega)).mpr (by omega)
      rw [Bool.and_eq_true,decide_eq_true_eq,decide_eq_true_eq]
      exact within
    next =>
      split
      next same =>
        have last : c.toNat / 262144 % 8 + 240 = 244 := by
          rw [← byte_toNat small,same]
          rfl
        have within := (@byte_between (c.toNat / 4096 % 64 + 128) 128 143 (by omega) (by omega) (by omega)).mpr (by omega)
        rw [Bool.and_eq_true,decide_eq_true_eq,decide_eq_true_eq]
        exact within
      next => exact continuation_low _
  conv_lhs => unfold from_utf8_lossy
  rw [if_neg (not_small (by omega) small),if_neg early,if_neg early',if_pos first]
  simp only [second,continuation_low,if_true,value,Char.ofNat_toNat]

/-- One encoded character is read as that character. -/
theorem lossy_char (c : Char) : from_utf8_lossy (String.utf8EncodeChar c ++ rest) = c :: from_utf8_lossy rest := by
  fun_cases String.utf8EncodeChar c with
  | case1 v low =>
    have small : c.toNat < 0x80 := Nat.lt_succ_of_le low
    change from_utf8_lossy (UInt8.ofNat c.toNat :: rest) = _
    rw [from_utf8_lossy_ascii,byte_toNat (by omega),Char.ofNat_toNat]
    rw [UInt8.lt_iff_toNat_lt,byte_toNat (by omega)]
    exact small
  | case2 v high low =>
    have high : ¬ c.toNat ≤ 127 := high
    exact lossy_two rest (by omega) low
  | case3 v _ high low =>
    have high : ¬ c.toNat ≤ 2047 := high
    exact lossy_three rest (by omega) low
  | case4 v _ _ high =>
    have high : ¬ c.toNat ≤ 65535 := high
    exact lossy_four rest (by omega)

end

/-- A text's own bytes are read back. -/
theorem lossy_bytes_append (t : Text) (rest : Bytes) : from_utf8_lossy (t.bytes ++ rest) = t ++ from_utf8_lossy rest := by
  induction t with
  | nil => rfl
  | cons c more ih =>
    rw [Text.bytes,List.flatMap_cons,List.append_assoc,lossy_char]
    exact congrArg (c :: ·) ih

theorem lossy_bytes (t : Text) : from_utf8_lossy t.bytes = t := by
  have whole := lossy_bytes_append t []
  rwa [List.append_nil,show from_utf8_lossy [] = [] from by simp [from_utf8_lossy],List.append_nil] at whole

/-! ### Characters below 128 -/

section
variable {a b : UInt8}

theorem high_byte_ne {d : UInt8} (small : d < 0x80) (high : 0x80 ≤ a) : a ≠ d := by
  rintro rfl
  rw [UInt8.le_iff_toNat_le] at high
  rw [UInt8.lt_iff_toNat_lt] at small
  omega

theorem two_high (first : 0xC2 ≤ a ∧ a ≤ 0xDF) : 128 ≤ a.toNat % 32 * 64 + low_bits b := by
  rw [UInt8.le_iff_toNat_le,UInt8.le_iff_toNat_le] at first
  have low : 194 ≤ a.toNat := first.1
  have high : a.toNat ≤ 223 := first.2
  omega

theorem three_high {c : UInt8} (first : 0xE0 ≤ a ∧ a ≤ 0xEF) (second : second_of_three a b) :
    128 ≤ a.toNat % 16 * 4096 + low_bits b * 64 + low_bits c := by
  rw [UInt8.le_iff_toNat_le,UInt8.le_iff_toNat_le] at first
  have low : 224 ≤ a.toNat := first.1
  have high : a.toNat ≤ 239 := first.2
  unfold second_of_three at second
  by_cases shortest : a = 0xE0
  · rw [if_pos shortest,Bool.and_eq_true,decide_eq_true_eq,decide_eq_true_eq,UInt8.le_iff_toNat_le,
      UInt8.le_iff_toNat_le] at second
    have above : 160 ≤ b.toNat := second.1
    have below : b.toNat ≤ 191 := second.2
    rw [low_bits]
    omega
  · have other : a.toNat ≠ 224 := fun same => shortest (UInt8.toNat_inj.mp same)
    omega

theorem four_high {c d : UInt8} (first : 0xF0 ≤ a ∧ a ≤ 0xF4) (second : second_of_four a b) :
    128 ≤ a.toNat % 8 * 262144 + low_bits b * 4096 + low_bits c * 64 + low_bits d := by
  rw [UInt8.le_iff_toNat_le,UInt8.le_iff_toNat_le] at first
  have low : 240 ≤ a.toNat := first.1
  have high : a.toNat ≤ 244 := first.2
  unfold second_of_four at second
  by_cases shortest : a = 0xF0
  · rw [if_pos shortest,Bool.and_eq_true,decide_eq_true_eq,decide_eq_true_eq,UInt8.le_iff_toNat_le,
      UInt8.le_iff_toNat_le] at second
    have above : 144 ≤ b.toNat := second.1
    have below : b.toNat ≤ 191 := second.2
    rw [low_bits]
    omega
  · have other : a.toNat ≠ 240 := fun same => shortest (UInt8.toNat_inj.mp same)
    omega

theorem ofNat_high_ne {n : Nat} {c : Char} (high : 128 ≤ n) (small : c.toNat < 128) (nonzero : c.toNat ≠ 0) :
    Char.ofNat n ≠ c := by
  rintro rfl
  by_cases valid : n.isValidChar
  · rw [Char.toNat_ofNat,if_pos valid] at small
    omega
  · rw [Char.toNat_ofNat,if_neg valid] at nonzero
    exact nonzero rfl

theorem high_of_second_of_three {x y : UInt8} (second : second_of_three x y) : 0x80 ≤ y := by
  unfold second_of_three continuation at second
  grind
theorem high_of_second_of_four {x y : UInt8} (second : second_of_four x y) : 0x80 ≤ y := by
  unfold second_of_four continuation at second
  grind

theorem high_of_continuation {y : UInt8} (more : continuation y) : 0x80 ≤ y := by
  unfold continuation at more
  grind

/-- One character for some bytes, all of them above 127. -/
theorem count_high {c out : Char} {made : Text} {read rest : Bytes} (small : c.toNat < 128) (other : out ≠ c)
    (high : ∀ b ∈ read, 0x80 ≤ b) (same : made.count c = rest.count (UInt8.ofNat c.toNat)) :
    (out :: made).count c = (read ++ rest).count (UInt8.ofNat c.toNat) := by
  have low : UInt8.ofNat c.toNat < 0x80 := by
    rw [UInt8.lt_iff_toNat_lt,byte_toNat (by omega)]
    exact small
  have outside : UInt8.ofNat c.toNat ∉ read := fun member => high_byte_ne low (high _ member) rfl
  rw [List.count_cons_of_ne other,List.count_append,List.count_eq_zero_of_not_mem outside,same,Nat.zero_add]

theorem count_lossy {c : Char} (small : c.toNat < 128) (nonzero : c.toNat ≠ 0) (data : Bytes) :
    (from_utf8_lossy data).count c = data.count (UInt8.ofNat c.toNat) := by
  have unknown : '\uFFFD' ≠ c := ofNat_high_ne (n := 0xFFFD) (by omega) small nonzero
  have skip (made : Text) (read rest : Bytes) (high : ∀ b ∈ read, 0x80 ≤ b)
      (same : made.count c = rest.count (UInt8.ofNat c.toNat)) :
      ('\uFFFD' :: made).count c = (read ++ rest).count (UInt8.ofNat c.toNat) := count_high small unknown high same
  fun_induction from_utf8_lossy data with
  | case1 => rfl
  | case2 a rest low ih =>
    have byte : a.toNat < 128 := UInt8.lt_iff_toNat_lt.mp low
    have same : (Char.ofNat a.toNat == c) = (a == UInt8.ofNat c.toNat) := by
      rw [Bool.eq_iff_iff,beq_iff_eq,beq_iff_eq]
      constructor
      · rintro rfl
        rw [Char.toNat_ofNat,if_pos (.inl (by omega)),UInt8.ofNat_toNat]
      · rintro rfl
        rw [byte_toNat (by omega),Char.ofNat_toNat]
    rw [List.count_cons,List.count_cons,ih,same]
  | case3 a high first b rest more ih =>
    exact @count_high c _ _ [a,b] _ small (ofNat_high_ne (two_high first) small nonzero)
      (by grind [high_of_continuation]) ih
  | case6 a high early first b d rest second more ih =>
    exact @count_high c _ _ [a,b,d] _ small (ofNat_high_ne (three_high first second) small nonzero)
      (by grind [high_of_continuation,high_of_second_of_three]) ih
  | case12 a high early early' first b d e rest second third more ih =>
    exact @count_high c _ _ [a,b,d,e] _ small (ofNat_high_ne (four_high first second) small nonzero)
      (by grind [high_of_continuation,high_of_second_of_four]) ih
  | case4 a high first b rest broken ih => exact skip _ [a] _ (by grind) ih
  | case5 a high => exact skip [] [a] [] (by grind) rfl
  | case7 a high early first b d rest second broken ih => exact skip _ [a,b] _ (by grind [high_of_second_of_three]) ih
  | case8 a high early first b d rest broken ih => exact skip _ [a] _ (by grind) ih
  | case9 a high early first b second => exact skip [] [a,b] [] (by grind [high_of_second_of_three]) rfl
  | case10 a high early first b broken ih => exact skip _ [a] _ (by grind) ih
  | case11 a high => exact skip [] [a] [] (by grind) rfl
  | case13 a high early early' first b d e rest second third broken ih =>
    exact skip _ [a,b,d] _ (by grind [high_of_second_of_four,high_of_continuation]) ih
  | case14 a high early early' first b d e rest second broken ih =>
    exact skip _ [a,b] _ (by grind [high_of_second_of_four]) ih
  | case15 a high early early' first b d e rest broken ih => exact skip _ [a] _ (by grind) ih
  | case16 a high early early' first b d second third =>
    exact skip [] [a,b,d] [] (by grind [high_of_second_of_four,high_of_continuation]) rfl
  | case17 a high early early' first b d second broken ih =>
    exact skip _ [a,b] _ (by grind [high_of_second_of_four]) ih
  | case18 a high early early' first b d broken ih => exact skip _ [a] _ (by grind) ih
  | case19 a high early early' first b second => exact skip [] [a,b] [] (by grind [high_of_second_of_four]) rfl
  | case20 a high early early' first b broken ih => exact skip _ [a] _ (by grind) ih
  | case21 a high => exact skip [] [a] [] (by grind) rfl
  | case22 a rest high early early' last ih => exact skip _ [a] _ (by grind) ih

end
/-- A character below 128 is in a text when its byte is in the bytes. -/
theorem mem_bytes_iff {c : Char} (small : c.toNat < 128) (nonzero : c.toNat ≠ 0) (t : Text) :
    UInt8.ofNat c.toNat ∈ t.bytes ↔ c ∈ t := by
  rw [← List.count_pos_iff,← List.count_pos_iff,← count_lossy small nonzero,lossy_bytes]

theorem mem_lossy_iff {c : Char} (small : c.toNat < 128) (nonzero : c.toNat ≠ 0) (data : Bytes) :
    c ∈ from_utf8_lossy data ↔ UInt8.ofNat c.toNat ∈ data := by
  rw [← List.count_pos_iff,← List.count_pos_iff,count_lossy small nonzero]

theorem bytes_append (s t : Text) : Text.bytes (s ++ t) = s.bytes ++ t.bytes := List.flatMap_append

/-! ### Nothing becomes nothing -/

theorem bytes_eq_nil {t : Text} : t.bytes = [] ↔ t = [] := by
  constructor
  · intro none
    rw [← lossy_bytes t,none]
    simp [from_utf8_lossy]
  · rintro rfl
    rfl

theorem percent_decode_eq_nil {data : Bytes} : percent_decode data = [] ↔ data = [] := by
  fun_cases percent_decode data <;> simp_all

theorem from_utf8_lossy_eq_nil {data : Bytes} : from_utf8_lossy data = [] ↔ data = [] := by
  fun_cases from_utf8_lossy data <;> simp_all

theorem decode_utf8_lossy_eq_nil {t : Text} : decode_utf8_lossy t = [] ↔ t = [] := by
  rw [decode_utf8_lossy,from_utf8_lossy_eq_nil,percent_decode_eq_nil,bytes_eq_nil]

theorem form_decode_eq_nil {t : Text} : form_decode t = [] ↔ t = [] := by
  rw [form_decode,decode_utf8_lossy_eq_nil,List.map_eq_nil_iff]

/-! ### Plus signs -/

/-- The byte of a plus sign as that of a blank. -/
def blank_for_plus (b : UInt8) : UInt8 := if b = 0x2B then 0x20 else b

theorem bytes_blanks (t : Text) :
    Text.bytes (t.map fun c => if c = '+' then ' ' else c) = t.bytes.map blank_for_plus := by
  induction t with
  | nil => rfl
  | cons c rest ih =>
    rw [List.map_cons,Text.bytes,List.flatMap_cons,Text.bytes,List.flatMap_cons,List.map_append]
    congr 1
    by_cases plus : c = '+'
    · rw [if_pos plus,plus]
      decide
    · rw [if_neg plus]
      have outside : (0x2B : UInt8) ∉ String.utf8EncodeChar c := by
        have single : Text.bytes [c] = String.utf8EncodeChar c := by simp [Text.bytes]
        rw [← single]
        intro member
        have found := (mem_bytes_iff (c := '+') (by decide) (by decide) [c]).mp member
        exact plus (List.mem_singleton.mp found).symm
      symm
      calc (String.utf8EncodeChar c).map blank_for_plus
          = (String.utf8EncodeChar c).map id := by
            refine List.map_congr_left fun b member => if_neg ?_
            rintro rfl
            exact outside member
        _ = String.utf8EncodeChar c := List.map_id _

theorem hex_value_blank (b : UInt8) : hex_value (blank_for_plus b) = hex_value b := by
  by_cases plus : b = 0x2B
  · rw [plus]
    decide
  · rw [blank_for_plus,if_neg plus]

theorem hex_not_plus {b x : UInt8} (digit : hex_value b = some x) : b ≠ 0x2B := by
  rintro rfl
  rw [show hex_value 0x2B = none by decide] at digit
  cases digit

theorem blank_for_plus_ne (b : UInt8) : blank_for_plus b ≠ 0x2B := by
  unfold blank_for_plus
  split
  next => decide
  next other => exact other

/-- Every plus sign that is written as itself is missing after the form decoding, and no other one. -/
theorem percent_decode_blanks (data : Bytes) :
    (percent_decode (data.map blank_for_plus)).count 0x2B + data.count 0x2B = (percent_decode data).count 0x2B := by
  have one (b : UInt8) (made made' rest : Bytes) (same : made.count 0x2B + rest.count 0x2B = made'.count 0x2B) :
      (blank_for_plus b :: made).count 0x2B + (b :: rest).count 0x2B = (b :: made').count 0x2B := by
    rw [List.count_cons_of_ne (blank_for_plus_ne b),List.count_cons,List.count_cons]
    omega
  fun_induction percent_decode data with
  | case1 => rfl
  | case2 b => exact one b [] [] [] rfl
  | case3 b c => exact one b _ [c] [c] (one c [] [] [] rfl)
  | case4 h l rest x y low high ih =>
    rw [List.map_cons,List.map_cons,List.map_cons,percent_decode,show blank_for_plus 0x25 = 0x25 from rfl,if_pos rfl,
      hex_value_blank,hex_value_blank,high,low]
    simp only
    rw [List.count_cons,List.count_cons (l := percent_decode rest),← ih,List.count_cons_of_ne (by decide),
      List.count_cons_of_ne (hex_not_plus high),List.count_cons_of_ne (hex_not_plus low)]
    omega
  | case5 h l rest broken ih =>
    have kept : percent_decode ((0x25 :: h :: l :: rest).map blank_for_plus) =
        0x25 :: percent_decode ((h :: l :: rest).map blank_for_plus) := by
      rw [List.map_cons,List.map_cons,List.map_cons,percent_decode,show blank_for_plus 0x25 = 0x25 from rfl,if_pos rfl,
        hex_value_blank,hex_value_blank]
      split
      next x y high low => exact absurd low (broken x y high)
      next => rfl
    rw [kept]
    exact one 0x25 _ _ _ ih
  | case6 b h l rest other ih =>
    have kept : percent_decode ((b :: h :: l :: rest).map blank_for_plus) =
        blank_for_plus b :: percent_decode ((h :: l :: rest).map blank_for_plus) := by
      rw [List.map_cons]
      refine percent_decode_cons ?_ _
      unfold blank_for_plus
      split
      next => decide
      next => exact other
    rw [kept]
    exact one b _ _ _ ih

theorem form_decode_eq_iff (t : Text) : form_decode t = decode_utf8_lossy t ↔ '+' ∉ t := by
  constructor
  · intro same plus
    have count := percent_decode_blanks t.bytes
    rw [← bytes_blanks] at count
    have lost := congrArg (List.count '+') same
    rw [form_decode,decode_utf8_lossy,decode_utf8_lossy,count_lossy (by decide) (by decide),
      count_lossy (by decide) (by decide)] at lost
    have some := List.count_pos_iff.mpr ((mem_bytes_iff (c := '+') (by decide) (by decide) t).mpr plus)
    change List.count 0x2B _ = List.count 0x2B _ at lost
    change 0 < List.count 0x2B _ at some
    omega
  · intro none
    have unchanged : (t.map fun c => if c = '+' then ' ' else c) = t := by
      conv_rhs => rw [← List.map_id t]
      refine List.map_congr_left fun c member => if_neg ?_
      rintro rfl
      exact none member
    rw [form_decode,unchanged]

/-! ### Pieces of a query -/

/-- Name and value of a piece as they are written. -/
def raw_pair (piece : Text) : Text × Text := (Text.split_once '=' piece).getD (piece,[])

theorem form_pair_eq (piece : Text) :
    form_pair piece = (form_decode (raw_pair piece).1,form_decode (raw_pair piece).2) := by
  unfold form_pair raw_pair
  cases Text.split_once '=' piece with
  | none => rfl
  | some cut => rfl

theorem raw_pair_nil : raw_pair [] = ([],[]) := rfl

theorem raw_pair_name (piece : Text) : (raw_pair piece).1 = Text.first_piece '=' piece := by
  unfold raw_pair
  cases found : Text.split_once '=' piece with
  | none => exact (Text.first_piece_whole (Text.split_once_none.mp found)).symm
  | some cut =>
    obtain ⟨whole,outside⟩ := Text.split_once_some.mp (show _ = some (cut.1,cut.2) from found)
    rw [whole,Text.first_piece_split outside]
    rfl

/-- A parameter is a piece whose name decodes to it. -/
theorem contains_key_iff {query : Text} {name : String} (named : name.toList ≠ []) :
    (parse_query query).contains_key name ↔
      ∃ piece ∈ splitChars '&' query, form_decode (raw_pair piece).1 = name.toList := by
  unfold Params.contains_key parse_query
  simp only [List.any_map,List.any_eq_true,List.mem_filter,Function.comp_apply,decide_eq_true_eq,form_pair_eq]
  constructor
  · rintro ⟨piece,⟨member,_⟩,same⟩
    exact ⟨piece,member,same⟩
  · rintro ⟨piece,member,same⟩
    refine ⟨piece,⟨member,?_⟩,same⟩
    rintro rfl
    rw [raw_pair_nil,form_decode_eq_nil.mpr rfl] at same
    exact named same.symm

/-! ### Texts without escapes -/

theorem percent_decode_unescaped {data : Bytes} (none : 0x25 ∉ data) : percent_decode data = data := by
  induction data with
  | nil => rfl
  | cons b rest ih =>
    simp only [List.mem_cons,not_or] at none
    rw [percent_decode_cons (Ne.symm none.1),ih none.2]

theorem decode_unescaped {t : Text} (none : '%' ∉ t) : decode_utf8_lossy t = t := by
  have bytes : (0x25 : UInt8) ∉ t.bytes := fun member => none ((mem_bytes_iff (by decide) (by decide) t).mp member)
  rw [decode_utf8_lossy,percent_decode_unescaped bytes,lossy_bytes]

/-- Without escapes only blanks can come out changed. -/
theorem form_decode_unescaped {t decoded : Text} (none : '%' ∉ t) (unblank : ' ' ∉ decoded)
    (same : form_decode t = decoded) : t = decoded := by
  have blanks : '%' ∉ t.map fun c => if c = '+' then ' ' else c := by
    rw [List.mem_map]
    rintro ⟨c,member,found⟩
    split at found
    next => exact absurd found (by decide)
    next => exact none (found ▸ member)
  rw [form_decode,decode_unescaped blanks] at same
  have plusless : '+' ∉ t := by
    intro plus
    refine unblank (same ▸ List.mem_map.mpr ⟨'+',plus,rfl⟩)
  rw [← decode_unescaped none,← (form_decode_eq_iff t).mpr plusless,form_decode,decode_unescaped blanks,same]

end Maxio
