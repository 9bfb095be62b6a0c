import Maxio.HttpSpec
import Maxio.Networks
import Maxio.Signature

/-!
The `Range` header: the code that reads it, the ranges it stands for, and when the two agree.
-/

namespace Maxio

/-! ### The code -/

/-- `str::parse::<u64>`. -/
def parse_u64 (t : Text) : Option Nat := parseUnsigned (2 ^ 64 - 1) (String.ofList t)

/-- The positions of the first and of the last byte; nothing for a header that is ignored. -/
def parse_range (header : Text) (file_size : Nat) : Except Unit (Option (Nat × Nat)) :=
  match strip_front "bytes=".toList (str_trim header) with
  | none => .ok none
  | some s =>
    let spec := str_trim s
    if ',' ∈ spec then .ok none
    else match Text.split_once '-' spec with
      | none => .ok none
      | some (start_str,end_str) =>
        if file_size = 0 then .error ()
        else if start_str = [] then match parse_u64 end_str with
          | none => .error ()
          | some suffix => if suffix = 0 then .error () else .ok (some (file_size - suffix,file_size - 1))
        else if end_str = [] then match parse_u64 start_str with
          | none => .error ()
          | some start => if start ≥ file_size then .error () else .ok (some (start,file_size - 1))
        else match parse_u64 start_str with
          | none => .error ()
          | some start => match parse_u64 end_str with
            | none => .error ()
            | some last =>
              if start ≥ file_size then .error ()
              else if start > min last (file_size - 1) then .error ()
              else .ok (some (start,min last (file_size - 1)))

/-! ### Ranges of bytes -/

/-- A single byte range: `N-M`, `N-` and `-N`. -/
inductive ByteRange where
  | between (first last : Nat) (ordered : first ≤ last)
  | starting (first : Nat)
  | ending (length : Nat)

def decimal (digits : Text) : Nat := digits.foldl (fun acc c => acc * 10 + (c.toNat - '0'.toNat)) 0

structure Digits (t : Text) : Prop where
  some_digit : t ≠ []
  only : ∀ c ∈ t, c.isDigit = true

/-- The header that asks for the range, character by character. -/
inductive ByteRange.Written : ByteRange → Text → Prop
  | between {n m : Text} (first : Digits n) (last : Digits m) (ordered : decimal n ≤ decimal m) :
    Written (.between (decimal n) (decimal m) ordered) ("bytes=".toList ++ (n ++ '-' :: m))
  | starting {n : Text} (first : Digits n) : Written (.starting (decimal n)) ("bytes=".toList ++ (n ++ ['-']))
  | ending {n : Text} (length : Digits n) : Written (.ending (decimal n)) ("bytes=".toList ++ '-' :: n)

/-- The bytes of a file that the range stands for, if there are any: what lies past the end is cut off. -/
def ByteRange.positions (size : Nat) : ByteRange → Option (Nat × Nat)
  | .between first last _ => if first < size then some (first,min last (size - 1)) else none
  | .starting first => if first < size then some (first,size - 1) else none
  | .ending length => if length = 0 ∨ size = 0 then none else some (size - length,size - 1)

/-- What the header asks for, told apart from what it cannot have and from what is no range. -/
structure RangeContract (header : Text) (size : Nat) (result : Except Unit (Option (Nat × Nat))) : Prop where
  satisfied : ∀ start last, result = .ok (some (start,last)) ↔
    ∃ range : ByteRange, range.Written header ∧ range.positions size = some (start,last)
  unsatisfiable : result = .error () ↔ ∃ range : ByteRange, range.Written header ∧ range.positions size = none
  ignored : result = .ok none ↔ ¬ ∃ range : ByteRange, range.Written header

/-- No number that decides about the range is too large for 64 bits. -/
def ByteRange.Fits (size : Nat) : ByteRange → Prop
  | .between first last _ => last < 2 ^ 64 ∨ size ≤ first
  | .starting _ => True
  | .ending length => length < 2 ^ 64 ∨ size = 0

instance (size : Nat) : (range : ByteRange) → Decidable (range.Fits size)
  | .between first last _ => inferInstanceAs (Decidable (last < 2 ^ 64 ∨ size ≤ first))
  | .starting _ => inferInstanceAs (Decidable True)
  | .ending length => inferInstanceAs (Decidable (length < 2 ^ 64 ∨ size = 0))

/-- Behind `bytes=` stand two texts with a dash between them and no comma, blanks aside. -/
def Dashed (header : Text) : Prop :=
  ∃ s, strip_front "bytes=".toList (str_trim header) = some s ∧ ',' ∉ str_trim s ∧ '-' ∈ str_trim s

theorem ByteRange.positions_within {range : ByteRange} {size start last : Nat}
    (found : range.positions size = some (start,last)) : start ≤ last ∧ last < size := by
  cases range with
  | between first past ordered =>
    by_cases inside : first < size
    · rw [positions,if_pos inside] at found
      simp only [Option.some.injEq,Prod.mk.injEq] at found
      omega
    · simp [positions,inside] at found
  | starting first =>
    by_cases inside : first < size
    · rw [positions,if_pos inside] at found
      simp only [Option.some.injEq,Prod.mk.injEq] at found
      omega
    · simp [positions,inside] at found
  | ending length =>
    by_cases nothing : length = 0 ∨ size = 0
    · simp [positions,nothing] at found
    · rw [positions,if_neg nothing] at found
      simp only [Option.some.injEq,Prod.mk.injEq] at found
      omega

/-! ### Numbers -/

theorem Digits.unsigned {t : Text} (digits : Digits t) : ∀ rest, t ≠ '+' :: rest := by
  intro rest same
  have plus := digits.only '+' (by rw [same]; simp)
  exact absurd plus (by decide)

theorem parseUnsigned_digits {max : Nat} {t : Text} (digits : Digits t) :
    parseUnsigned max (String.ofList t) = if decimal t ≤ max then some (decimal t) else none := by
  unfold parseUnsigned
  rw [String.toList_ofList]
  split
  next rest => exact absurd rfl (digits.unsigned rest)
  next =>
    dsimp only
    rw [if_pos ⟨digits.some_digit,List.all_eq_true.mpr digits.only⟩]
    rfl

theorem parse_u64_digits {t : Text} (digits : Digits t) :
    parse_u64 t = if decimal t < 2 ^ 64 then some (decimal t) else none := by
  rw [parse_u64,parseUnsigned_digits digits]
  by_cases fits : decimal t < 2 ^ 64
  · rw [if_pos fits,if_pos (by omega)]
  · rw [if_neg fits,if_neg (by omega)]

theorem digit_not_white {c : Char} (digit : c.isDigit = true) : white_space c = false := by
  have bounds : 48 ≤ c.toNat ∧ c.toNat ≤ 57 := by
    unfold Char.isDigit at digit
    rw [Bool.and_eq_true,decide_eq_true_eq,decide_eq_true_eq,ge_iff_le,UInt32.le_iff_toNat_le,UInt32.le_iff_toNat_le] at digit
    exact digit
  unfold white_space
  simp only [Bool.or_eq_false_iff,Bool.and_eq_false_iff,decide_eq_false_iff_not]
  omega

theorem str_trim_of_dark {t : Text} (dark : ∀ c ∈ t, white_space c = false) : str_trim t = t := by
  have kept {u : Text} (same : ∀ c ∈ u, white_space c = false) : u.dropWhile white_space = u := by
    cases u with
    | nil => rfl
    | cons c rest => rw [List.dropWhile_cons,same c (by simp)]; rfl
  unfold str_trim
  rw [kept dark,kept (fun c member => dark c (List.mem_reverse.mp member)),List.reverse_reverse]

theorem strip_front_append (front rest : Text) : strip_front front (front ++ rest) = some rest := by
  simp [strip_front]

/-! ### Headers as they are written -/

/-- A header without blanks, comma or second dash. -/
def dashed_header (before after : Text) : Text := "bytes=".toList ++ (before ++ '-' :: after)

/-- Digits only, or nothing. -/
def OnlyDigits (t : Text) : Prop := ∀ c ∈ t, c.isDigit = true

theorem only_digits_nil : OnlyDigits [] := by simp [OnlyDigits]

theorem OnlyDigits.free {t : Text} (only : OnlyDigits t) {c : Char} (other : c.isDigit = false) : c ∉ t := by
  intro member
  have digit := only c member
  rw [other] at digit
  exact absurd digit (by decide)

theorem OnlyDigits.dark {t : Text} (only : OnlyDigits t) : ∀ c ∈ t, white_space c = false :=
  fun c member => digit_not_white (only c member)

theorem dash_dark {before after : Text} (first : OnlyDigits before) (last : OnlyDigits after) :
    ∀ c ∈ before ++ '-' :: after, white_space c = false := by
  intro c member
  rw [List.mem_append,List.mem_cons] at member
  obtain inside | rfl | inside := member
  · exact first.dark c inside
  · decide
  · exact last.dark c inside

theorem dashed_header_dark {before after : Text} (first : OnlyDigits before) (last : OnlyDigits after) :
    ∀ c ∈ dashed_header before after, white_space c = false := by
  intro c member
  obtain inside | inside := List.mem_append.mp member
  · have front : ("bytes=".toList.all fun c => !white_space c) = true := rfl
    simpa using List.all_eq_true.mp front c inside
  · exact dash_dark first last c inside

/-- What the code cuts out of a header that is written as a range. -/
theorem dashed_header_cut {before after : Text} (first : OnlyDigits before) (last : OnlyDigits after) :
    strip_front "bytes=".toList (str_trim (dashed_header before after)) = some (before ++ '-' :: after) ∧
      str_trim (before ++ '-' :: after) = before ++ '-' :: after ∧ ',' ∉ before ++ '-' :: after ∧
      Text.split_once '-' (before ++ '-' :: after) = some (before,after) := by
  refine ⟨?_,str_trim_of_dark (dash_dark first last),?_,?_⟩
  · rw [str_trim_of_dark (dashed_header_dark first last),dashed_header,strip_front_append]
  · rw [List.mem_append,List.mem_cons]
    rintro (inside | comma | inside)
    · exact first.free (by decide) inside
    · exact absurd comma (by decide)
    · exact last.free (by decide) inside
  · exact Text.split_once_some.mpr ⟨rfl,first.free (by decide)⟩

/-- A written range has digits on both sides of its dash. -/
theorem ByteRange.Written.parts {range : ByteRange} {header : Text} (written : range.Written header) :
    ∃ before after, header = dashed_header before after ∧ OnlyDigits before ∧ OnlyDigits after ∧
      ((before ≠ [] ∧ after ≠ [] ∧ ∃ ordered, range = .between (decimal before) (decimal after) ordered) ∨
        (before ≠ [] ∧ after = [] ∧ range = .starting (decimal before)) ∨
        (before = [] ∧ after ≠ [] ∧ range = .ending (decimal after))) := by
  cases written with
  | @between n m first last ordered =>
    exact ⟨n,m,rfl,first.only,last.only,.inl ⟨first.some_digit,last.some_digit,ordered,rfl⟩⟩
  | @starting n first => exact ⟨n,[],rfl,first.only,only_digits_nil,.inr (.inl ⟨first.some_digit,rfl,rfl⟩)⟩
  | @ending n length => exact ⟨[],n,rfl,only_digits_nil,length.only,.inr (.inr ⟨rfl,length.some_digit,rfl⟩)⟩

theorem dashed_header_injective {n m n' m' : Text} (first : OnlyDigits n) (last : OnlyDigits m) (first' : OnlyDigits n')
    (last' : OnlyDigits m') (same : dashed_header n m = dashed_header n' m') : n = n' ∧ m = m' := by
  have cut := (dashed_header_cut first last).2.2.2
  rw [List.append_cancel_left same,(dashed_header_cut first' last').2.2.2] at cut
  simp only [Option.some.injEq,Prod.mk.injEq] at cut
  exact ⟨cut.1.symm,cut.2.symm⟩

/-- One header asks for one range. -/
theorem ByteRange.Written.unique {range other : ByteRange} {header : Text} (written : range.Written header)
    (again : other.Written header) : range = other := by
  obtain ⟨n,m,rfl,first,last,cases⟩ := written.parts
  obtain ⟨n',m',same,first',last',cases'⟩ := again.parts
  obtain ⟨rfl,rfl⟩ := dashed_header_injective first last first' last' same
  obtain ⟨before,after,_,rfl⟩ | ⟨before,after,rfl⟩ | ⟨before,after,rfl⟩ := cases
  · obtain ⟨_,_,_,rfl⟩ | ⟨_,none,_⟩ | ⟨none,_,_⟩ := cases'
    · rfl
    · exact absurd none after
    · exact absurd none before
  · obtain ⟨_,some,_⟩ | ⟨_,_,rfl⟩ | ⟨none,_,_⟩ := cases'
    · exact absurd after some
    · rfl
    · exact absurd none before
  · obtain ⟨some,_⟩ | ⟨some,_⟩ | ⟨_,_,rfl⟩ := cases'
    · exact absurd before some
    · exact absurd before some
    · rfl

/-! ### What the code makes of a header -/

/-- The code from the cut on. -/
theorem parse_range_cut {header s before after : Text} {size : Nat}
    (front : strip_front "bytes=".toList (str_trim header) = some s) (single : ',' ∉ str_trim s)
    (cut : Text.split_once '-' (str_trim s) = some (before,after)) :
    parse_range header size =
      if size = 0 then .error ()
      else if before = [] then match parse_u64 after with
        | none => .error ()
        | some suffix => if suffix = 0 then .error () else .ok (some (size - suffix,size - 1))
      else if after = [] then match parse_u64 before with
        | none => .error ()
        | some start => if start ≥ size then .error () else .ok (some (start,size - 1))
      else match parse_u64 before with
        | none => .error ()
        | some start => match parse_u64 after with
          | none => .error ()
          | some last =>
            if start ≥ size then .error ()
            else if start > min last (size - 1) then .error ()
            else .ok (some (start,min last (size - 1))) := by
  unfold parse_range
  rw [front]
  dsimp only
  rw [if_neg single,cut]

theorem Dashed.cut {header : Text} (dashed : Dashed header) : ∃ s before after,
    strip_front "bytes=".toList (str_trim header) = some s ∧ ',' ∉ str_trim s ∧
      Text.split_once '-' (str_trim s) = some (before,after) := by
  obtain ⟨s,front,single,dash⟩ := dashed
  cases cut : Text.split_once '-' (str_trim s) with
  | none => exact absurd dash (Text.split_once_none.mp cut)
  | some pair => exact ⟨s,pair.1,pair.2,front,single,cut⟩

theorem parse_range_dashed {header : Text} {size : Nat} (dashed : Dashed header) : parse_range header size ≠ .ok none := by
  obtain ⟨s,before,after,front,single,cut⟩ := dashed.cut
  rw [parse_range_cut front single cut]
  intro ignored
  split_ifs at ignored <;> grind

theorem parse_range_other {header : Text} {size : Nat} (other : ¬ Dashed header) : parse_range header size = .ok none := by
  unfold parse_range
  cases front : strip_front "bytes=".toList (str_trim header) with
  | none => rfl
  | some s =>
    dsimp only
    by_cases single : ',' ∈ str_trim s
    · rw [if_pos single]
    · have undashed : '-' ∉ str_trim s := fun dash => other ⟨s,front,single,dash⟩
      rw [if_neg single,Text.split_once_none.mpr undashed]

/-- The positions found are in the file, whatever the header. -/
theorem parse_range_within {header : Text} {size start last : Nat}
    (found : parse_range header size = .ok (some (start,last))) : start ≤ last ∧ last < size := by
  by_cases dashed : Dashed header
  · obtain ⟨s,before,after,front,single,cut⟩ := dashed.cut
    rw [parse_range_cut front single cut] at found
    split_ifs at found <;> grind
  · rw [parse_range_other dashed] at found
    exact absurd found (by simp)

theorem ByteRange.positions_empty (range : ByteRange) : range.positions 0 = none := by
  cases range <;> simp [positions]

theorem parse_range_written {range : ByteRange} {header : Text} {size : Nat} (bounded : size < 2 ^ 64)
    (written : range.Written header) : parse_range header size = match range.positions size with
      | none => .error ()
      | some place => if range.Fits size then .ok (some place) else .error () := by
  obtain ⟨before,after,rfl,first,last,cases⟩ := written.parts
  obtain ⟨front,kept,single,cut⟩ := dashed_header_cut first last
  rw [parse_range_cut front (by rwa [kept]) (by rwa [kept])]
  by_cases empty : size = 0
  · rw [if_pos empty,empty,range.positions_empty]
  · rw [if_neg empty]
    obtain ⟨given,given',ordered,rfl⟩ | ⟨given,rfl,rfl⟩ | ⟨rfl,given,rfl⟩ := cases
    · rw [if_neg given,if_neg given',parse_u64_digits ⟨given,first⟩,parse_u64_digits ⟨given',last⟩]
      by_cases inside : decimal before < size
      · have fits : ByteRange.Fits size (.between (decimal before) (decimal after) ordered) ↔ decimal after < 2 ^ 64 :=
          or_iff_left (by omega)
        simp only [ByteRange.positions,if_pos inside,if_pos (by omega : decimal before < 2 ^ 64),fits]
        by_cases small : decimal after < 2 ^ 64
        · simp only [if_pos small,ge_iff_le]
          rw [if_neg (by omega),if_neg (by omega)]
        · simp only [if_neg small]
      · simp only [ByteRange.positions,if_neg inside]
        by_cases small : decimal before < 2 ^ 64
        · simp only [if_pos small,ge_iff_le,if_pos (by omega : size ≤ decimal before)]
          split <;> rfl
        · simp only [if_neg small]
    · rw [if_neg given,if_pos rfl,parse_u64_digits ⟨given,first⟩]
      by_cases inside : decimal before < size
      · have fits : ByteRange.Fits size (.starting (decimal before)) := trivial
        simp only [ByteRange.positions,if_pos inside,if_pos (by omega : decimal before < 2 ^ 64),if_pos fits,ge_iff_le,
          if_neg (by omega : ¬ size ≤ decimal before)]
      · simp only [ByteRange.positions,if_neg inside]
        by_cases small : decimal before < 2 ^ 64
        · simp only [if_pos small,ge_iff_le,if_pos (by omega : size ≤ decimal before)]
        · simp only [if_neg small]
    · rw [if_pos rfl,parse_u64_digits ⟨given,last⟩]
      have fits : ByteRange.Fits size (.ending (decimal after)) ↔ decimal after < 2 ^ 64 := or_iff_left empty
      simp only [ByteRange.positions,or_iff_left empty,fits]
      by_cases small : decimal after < 2 ^ 64
      · simp only [if_pos small]
        by_cases zero : decimal after = 0
        · rw [if_pos zero,if_pos zero]
        · rw [if_neg zero,if_neg zero]
      · have positive : decimal after ≠ 0 := by omega
        simp only [if_neg small,if_neg positive]

theorem ByteRange.Written.dashed {range : ByteRange} {header : Text} (written : range.Written header) : Dashed header := by
  obtain ⟨n,m,rfl,first,last,_⟩ := written.parts
  obtain ⟨front,kept,single,_⟩ := dashed_header_cut first last
  exact ⟨_,front,by rwa [kept],by rw [kept]; simp⟩

/-- A range without a place in the file has no number that is too large. -/
theorem ByteRange.fits_of_none {range : ByteRange} {size : Nat} (nowhere : range.positions size = none) :
    range.Fits size := by
  cases range with
  | between first last ordered =>
    by_cases inside : first < size
    · simp [positions,inside] at nowhere
    · exact .inr (by omega)
  | starting first => trivial
  | ending length =>
    by_cases nothing : length = 0 ∨ size = 0
    · obtain zero | empty := nothing
      · exact .inl (by omega)
      · exact .inr empty
    · simp [positions,nothing] at nowhere

theorem range_contract_of_fits {range : ByteRange} {header : Text} {size : Nat} (bounded : size < 2 ^ 64)
    (written : range.Written header) (fits : range.Fits size) : RangeContract header size (parse_range header size) := by
  have result := parse_range_written bounded written
  simp only [if_pos fits] at result
  have only {other : ByteRange} (again : other.Written header) : other = range := again.unique written
  constructor
  · intro start last
    constructor
    · intro found
      refine ⟨range,written,?_⟩
      rw [result] at found
      cases place : range.positions size with
      | none => simp [place] at found
      | some at_place => simpa [place] using found
    · rintro ⟨other,again,place⟩
      obtain rfl := only again
      rw [result,place]
  · constructor
    · intro refused
      refine ⟨range,written,?_⟩
      rw [result] at refused
      cases place : range.positions size with
      | none => rfl
      | some at_place => simp [place] at refused
    · rintro ⟨other,again,nowhere⟩
      obtain rfl := only again
      rw [result,nowhere]
  · exact iff_of_false (parse_range_dashed written.dashed) fun none => none ⟨range,written⟩

theorem range_contract_of_other {header : Text} {size : Nat} (other : ¬ Dashed header) :
    RangeContract header size (parse_range header size) := by
  have unwritten : ¬ ∃ range : ByteRange, range.Written header := fun ⟨_,written⟩ => other written.dashed
  rw [parse_range_other other]
  constructor
  · exact fun start last => iff_of_false (by simp) fun ⟨range,written,_⟩ => unwritten ⟨range,written⟩
  · exact iff_of_false (by simp) fun ⟨range,written,_⟩ => unwritten ⟨range,written⟩
  · exact iff_of_true rfl unwritten

/-- The header is read by its contract exactly when what is dashed is a range, written without blanks and within
    64 bits. -/
theorem parse_range_contract_iff (header : Text) (size : Nat) (bounded : size < 2 ^ 64) :
    (RangeContract header size (parse_range header size) ↔
      (Dashed header → ∃ range : ByteRange, range.Written header ∧ range.Fits size)) ∧
    ∀ start last, parse_range header size = .ok (some (start,last)) → start ≤ last ∧ last < size := by
  refine ⟨⟨fun kept dashed => ?_,fun plain => ?_⟩,fun _ _ => parse_range_within⟩
  · by_cases valid : ∃ range : ByteRange, range.Written header
    · obtain ⟨range,written⟩ := valid
      refine ⟨range,written,?_⟩
      cases place : range.positions size with
      | none => exact range.fits_of_none place
      | some at_place =>
        -- the contract wants the positions, which the code gives for small numbers only
        have found := (kept.satisfied at_place.1 at_place.2).mpr ⟨range,written,place⟩
        by_cases fits : range.Fits size
        · exact fits
        · rw [parse_range_written bounded written,place] at found
          simp [fits] at found
    · exact absurd (kept.ignored.mpr valid) (parse_range_dashed dashed)
  · by_cases dashed : Dashed header
    · obtain ⟨range,written,fits⟩ := plain dashed
      exact range_contract_of_fits bounded written fits
    · exact range_contract_of_other dashed

theorem parse_range_contract_first_bytes :
    (RangeContract "bytes=0-3".toList 10 (parse_range "bytes=0-3".toList 10) ↔
      (Dashed "bytes=0-3".toList → ∃ range : ByteRange, range.Written "bytes=0-3".toList ∧ range.Fits 10)) ∧
    ∀ start last, parse_range "bytes=0-3".toList 10 = .ok (some (start,last)) → start ≤ last ∧ last < 10 :=
  parse_range_contract_iff "bytes=0-3".toList 10 (by decide)

/-- A header that is no range is refused and not ignored. -/
theorem letters_refused : ¬ RangeContract "bytes=abc-".toList 10 (parse_range "bytes=abc-".toList 10) := by
  intro kept
  have refused : parse_range "bytes=abc-".toList 10 = .error () := by decide +kernel
  obtain ⟨range,written,_⟩ := kept.unsatisfiable.mp refused
  obtain ⟨before,after,same,first,last,_⟩ := written.parts
  have cut := (dashed_header_cut first last).2.2.2
  have rest : "abc-".toList = before ++ '-' :: after := @List.append_cancel_left Char "bytes=".toList _ _ same
  rw [← rest,(by decide : Text.split_once '-' "abc-".toList = some ("abc".toList,[]))] at cut
  obtain ⟨rfl,rfl⟩ : "abc".toList = before ∧ [] = after := by simpa using cut
  exact absurd (first 'a' (by decide)) (by decide)

example : parse_range " bytes=-4".toList 10 = .ok (some (6,9)) := by decide +kernel

end Maxio
