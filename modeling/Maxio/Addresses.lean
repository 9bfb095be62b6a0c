import Maxio.Policy

/-!
How addresses are written, and that every address is read back from its own text.
-/

namespace Maxio

/-! ### Writing -/

/-- `Ipv4Addr::octets`. -/
def octets_v4 (bits : BitVec 32) : List Nat :=
  [bits.toNat / 16777216,bits.toNat / 65536 % 256,bits.toNat / 256 % 256,bits.toNat % 256]

/-- `Ipv4Addr::fmt`. -/
def fmt_v4 (bits : BitVec 32) : Text := ['.'].intercalate ((octets_v4 bits).map (Nat.toDigits 10))

/-- `Ipv6Addr::segments`. -/
def segments (bits : BitVec 128) : List Nat := (List.range 8).map fun i => bits.toNat / 65536 ^ (7 - i) % 65536

structure Span where
  start : Nat
  len : Nat
  deriving DecidableEq, Repr

/-- The longest run of zero segments, and of two the first; `current` is the run that is being read. -/
def longest_zeroes : List Nat → Nat → (longest current : Span) → Span
  | [],_,longest,_ => longest
  | segment :: rest,i,longest,current =>
    if segment = 0 then
      let current := { start := if current.len = 0 then i else current.start, len := current.len + 1 }
      longest_zeroes rest (i + 1) (if longest.len < current.len then current else longest) current
    else longest_zeroes rest (i + 1) longest ⟨0,0⟩

/-- Segments with colons between them. -/
def fmt_subslice (chunk : List Nat) : Text := [':'].intercalate (chunk.map (Nat.toDigits 16))

/-- `Ipv6Addr::fmt`. -/
def fmt_v6 (bits : BitVec 128) : Text :=
  if bits.toNat / 4294967296 = 0xffff then "::ffff:".toList ++ fmt_v4 (BitVec.ofNat 32 bits.toNat)
  else
    let zeroes := longest_zeroes (segments bits) 0 ⟨0,0⟩ ⟨0,0⟩
    if 1 < zeroes.len then
      fmt_subslice ((segments bits).take zeroes.start) ++ "::".toList ++
        fmt_subslice ((segments bits).drop (zeroes.start + zeroes.len))
    else fmt_subslice (segments bits)

/-- `IpAddr::to_string`. -/
def IpAddr.to_string : IpAddr → Text
  | .V4 bits => fmt_v4 bits
  | .V6 bits => fmt_v6 bits

example : IpAddr.to_string (.V6 (BitVec.ofNat 128 (0x20010db8 * 2 ^ 96 + 1))) = "2001:db8::1".toList := by decide +kernel

/-! ### Numbers -/

section
variable {radix : Nat}

/-- A text that no digit starts. -/
def Stops (radix : Nat) (t : Text) : Prop := ∀ c rest, t = c :: rest → to_digit radix c = none

/-- The digits of a number, the most significant one first. -/
theorem to_digit_digitChar {d : Nat} (below : d < radix) (small : radix ≤ 16) :
    to_digit radix (Nat.digitChar d) = some d := by
  have all : ∀ d < 16, (to_digit 16 (Nat.digitChar d)) = some d := by decide
  have here := all d (by omega)
  unfold to_digit at here ⊢
  rw [Option.filter_eq_some_iff] at here ⊢
  exact ⟨here.1,by simpa using below⟩

/-- The characters are these digits. -/
def Spells (radix : Nat) (s : Text) (ds : List Nat) : Prop := List.Forall₂ (fun c d => to_digit radix c = some d) s ds

theorem digits_append {s t : Text} {ds : List Nat} (spells : Spells radix s ds) (stops : Stops radix t) :
    digits radix (s ++ t) = (ds,t) := by
  induction spells with
  | nil =>
    cases t with
    | nil => rfl
    | cons c rest =>
      rw [List.nil_append,digits,stops c rest rfl]
  | cons digit _ ih =>
    rw [List.cons_append,digits,digit]
    simp only [ih]

theorem Spells.digit {s : Text} {ds : List Nat} (spells : Spells radix s ds) :
    ∀ c ∈ s, ∃ d, to_digit radix c = some d := by
  induction spells with
  | nil => simp
  | cons here _ ih =>
    intro c listed
    rcases List.mem_cons.mp listed with rfl | later
    · exact ⟨_,here⟩
    · exact ih c later

/-- A number is spelled by its digits, without a zero in front. -/
theorem spells_number (above : 1 < radix) (small : radix ≤ 16) (n : Nat) :
    ∃ ds, Spells radix (Nat.toDigits radix n) ds ∧ ds.foldl (fun n d => n * radix + d) 0 = n ∧
      (ds.head? = some 0 → n = 0) := by
  induction n using Nat.strong_induction_on with
  | _ n ih =>
    by_cases below : n < radix
    · rw [Nat.toDigits_of_lt_base below]
      refine ⟨[n],.cons (to_digit_digitChar below small) .nil,by simp,?_⟩
      intro head
      simpa using head
    · have less : n / radix < n := Nat.div_lt_self (by omega) above
      have digit := Nat.mod_lt n (show 0 < radix by omega)
      obtain ⟨ds,spells,value,leading⟩ := ih _ less
      rw [Nat.toDigits_of_base_le above (by omega)]
      refine ⟨ds ++ [n % radix],List.rel_append spells (.cons (to_digit_digitChar digit small) .nil),?_,?_⟩
      · rw [List.foldl_append,value,List.foldl_cons,List.foldl_nil]
        exact Nat.div_add_mod' n radix
      · intro head
        cases ds with
        | nil =>
          have long := spells.length_eq
          have some := @Nat.length_toDigits_pos radix (n / radix)
          rw [long] at some
          exact absurd some (Nat.lt_irrefl 0)
        | cons d rest =>
          have zero := leading (by simpa using head)
          rw [Nat.div_eq_zero_iff] at zero
          omega

/-- A number that is written is read back, up to what stops it. -/
theorem read_number_written (above : 1 < radix) (small : radix ≤ 16) {n max_digits largest : Nat}
    ( allow_zero_prefix : Bool) (fits : n ≤ largest) (short : n < radix ^ max_digits) (some_digits : 0 < max_digits)
    {t : Text} (stops : Stops radix t) :
    read_number radix max_digits largest allow_zero_prefix (Nat.toDigits radix n ++ t) = some (n,t) := by
  obtain ⟨ds,spells,value,leading⟩ := spells_number above small n
  have long : ds.length = (Nat.toDigits radix n).length := spells.length_eq.symm
  have pos := @Nat.length_toDigits_pos radix n
  have count := (Nat.length_toDigits_le_iff above some_digits).mpr short
  have accepted : ¬ (ds.length = 0 ∨ max_digits < ds.length ∨ largest < n) := by omega
  unfold read_number
  simp only [digits_append spells stops,value]
  rw [if_neg accepted,if_neg]
  intro refused
  rw [Bool.and_eq_true,Bool.and_eq_true,decide_eq_true_eq,decide_eq_true_eq] at refused
  have zero := leading refused.1.2
  rw [zero,Nat.toDigits_zero] at long
  have single : ds.length = 1 := long
  omega

end

/-! ### Version 4 -/

theorem stops_nil (radix : Nat) : Stops radix [] := by
  intro c rest same
  cases same

theorem stops_char {radix : Nat} {c : Char} (other : to_digit radix c = none) (rest : Text) : Stops radix (c :: rest) := by
  intro d more same
  cases same
  exact other

theorem read_octet {n : Nat} (small : n < 256) {t : Text} (stops : Stops 10 t) :
    read_number 10 3 255 false (Nat.toDigits 10 n ++ t) = some (n,t) :=
  read_number_written (by decide) (by decide) false (by omega) (by omega) (by decide) stops

theorem fmt_v4_eq (bits : BitVec 32) : fmt_v4 bits = Nat.toDigits 10 (bits.toNat / 16777216) ++
    '.' :: (Nat.toDigits 10 (bits.toNat / 65536 % 256) ++ '.' :: (Nat.toDigits 10 (bits.toNat / 256 % 256) ++
      '.' :: Nat.toDigits 10 (bits.toNat % 256))) := by
  simp [fmt_v4,octets_v4,List.intercalate,List.intersperse]

/-- An address of version 4 is read back, up to what is no digit. -/
theorem read_ipv4_written (bits : BitVec 32) {t : Text} (stops : Stops 10 t) :
    read_ipv4_addr (fmt_v4 bits ++ t) =
      some ((bits.toNat / 16777216,bits.toNat / 65536 % 256,bits.toNat / 256 % 256,bits.toNat % 256),t) := by
  have small := bits.isLt
  have dot (rest : Text) : Stops 10 ('.' :: rest) := stops_char (by decide) rest
  rw [fmt_v4_eq]
  simp only [List.append_assoc,List.cons_append]
  unfold read_ipv4_addr read_separator
  simp only [if_true,if_false,Nat.one_ne_zero,OfNat.ofNat_ne_zero]
  rw [read_octet (by omega) (dot _)]
  simp only [Option.bind_eq_bind,Option.bind_some,if_true]
  rw [read_octet (Nat.mod_lt _ (by decide)) (dot _)]
  simp only [Option.bind_some,if_true]
  rw [read_octet (Nat.mod_lt _ (by decide)) (dot _)]
  simp only [Option.bind_some,if_true]
  rw [read_octet (Nat.mod_lt _ (by decide)) stops]
  rfl

theorem parse_fmt_v4 (bits : BitVec 32) : parse_ip (String.ofList (fmt_v4 bits)) = some (.V4 bits) := by
  have read := read_ipv4_written bits (stops_nil 10)
  rw [List.append_nil] at read
  have value : ((bits.toNat / 16777216 * 256 + bits.toNat / 65536 % 256) * 256 + bits.toNat / 256 % 256) * 256 +
      bits.toNat % 256 = bits.toNat := by omega
  unfold parse_ip
  rw [String.toList_ofList,read]
  simp only [value,BitVec.ofNat_toNat,BitVec.setWidth_eq]
  rfl

/-! ### Version 6 -/

/-- A text that goes on with a colon, or ends. -/
def ColonOrEnd (t : Text) : Prop := t = [] ∨ ∃ rest, t = ':' :: rest

theorem ColonOrEnd.stops {t : Text} (ends : ColonOrEnd t) {radix : Nat} (small : radix ≤ 16) : Stops radix t := by
  rcases ends with rfl | ⟨rest,rfl⟩
  · exact stops_nil radix
  · refine stops_char ?_ rest
    unfold to_digit
    simp

/-- What follows the digits of a text without dots is no dot. -/
theorem digits_no_dot {s t : Text} (dotless : '.' ∉ s) (ends : ColonOrEnd t) (rest : Text) :
    (digits 10 (s ++ t)).2 ≠ '.' :: rest := by
  induction s with
  | nil =>
    rw [List.nil_append,show digits 10 t = ([],t) from digits_append (s := []) .nil (ends.stops (by decide))]
    rcases ends with rfl | ⟨more,rfl⟩
    · simp
    · simp
  | cons c more ih =>
    simp only [List.mem_cons,not_or] at dotless
    rw [List.cons_append,digits]
    cases to_digit 10 c with
    | none => simpa using fun same : c = '.' => absurd same.symm dotless.1
    | some d => exact ih dotless.2

theorem read_number_rest {radix max_digits largest n : Nat} {allow : Bool} {t rest : Text}
    (read : read_number radix max_digits largest allow t = some (n,rest)) : rest = (digits radix t).2 := by
  unfold read_number at read
  simp only at read
  split at read
  next => cases read
  next =>
    split at read
    next => cases read
    next =>
      cases read
      rfl

/-- Without a dot behind its first number a text is no address of version 4. -/
theorem read_ipv4_dotless {s t : Text} (dotless : '.' ∉ s) (ends : ColonOrEnd t) : read_ipv4_addr (s ++ t) = none := by
  unfold read_ipv4_addr read_separator
  simp only [if_true]
  cases read : read_number 10 3 255 false (s ++ t) with
  | none => rfl
  | some found =>
    obtain ⟨n,rest⟩ := found
    have after := read_number_rest read
    simp only [Option.bind_eq_bind,Option.bind_some,Nat.one_ne_zero,if_false]
    cases rest with
    | nil => rfl
    | cons c more =>
      by_cases dot : c = '.'
      · rw [dot] at after
        exact absurd after.symm (digits_no_dot dotless ends more)
      · simp only
        rw [if_neg dot]
        rfl

theorem hex_dotless (n : Nat) : '.' ∉ Nat.toDigits 16 n := by
  intro member
  obtain ⟨ds,spells,_⟩ := @spells_number 16 (by decide) (by decide) n
  obtain ⟨d,found⟩ := spells.digit '.' member
  exact absurd found (by simp [to_digit])

/-- Segments as they are written from a place on, each but the first with a colon in front. -/
def fmt_groups : Nat → List Nat → Text
  | _,[] => []
  | i,g :: rest => (if i = 0 then [] else [':']) ++ (Nat.toDigits 16 g ++ fmt_groups (i + 1) rest)

theorem intercalate_cons (sep : Char) (first : Text) (rest : List Text) :
    [sep].intercalate (first :: rest) = first ++ rest.flatMap fun piece => sep :: piece := by
  induction rest generalizing first with
  | nil => simp [List.intercalate,List.intersperse]
  | cons next more ih =>
    have joined : [sep].intercalate (first :: next :: more) = first ++ sep :: [sep].intercalate (next :: more) := by
      simp [List.intercalate,List.intersperse]
    rw [joined,ih,List.flatMap_cons,List.cons_append]

theorem fmt_groups_later (i : Nat) (gs : List Nat) :
    fmt_groups (i + 1) gs = (gs.map (Nat.toDigits 16)).flatMap fun piece => ':' :: piece := by
  induction gs generalizing i with
  | nil => rfl
  | cons g rest ih =>
    rw [fmt_groups,if_neg (Nat.succ_ne_zero i),ih,List.map_cons,List.flatMap_cons]
    rfl

theorem fmt_subslice_eq (chunk : List Nat) : fmt_subslice chunk = fmt_groups 0 chunk := by
  cases chunk with
  | nil => rfl
  | cons g rest =>
    rw [fmt_subslice,List.map_cons,intercalate_cons,fmt_groups,fmt_groups_later]
    rfl

theorem fmt_groups_colonOrEnd (i : Nat) (gs : List Nat) {t : Text} (ends : ColonOrEnd t) :
    ColonOrEnd (fmt_groups (i + 1) gs ++ t) := by
  cases gs with
  | nil => exact ends
  | cons g rest => exact .inr ⟨_,by rw [fmt_groups,if_neg (Nat.succ_ne_zero i)]; rfl⟩

/-- Separators are read where they are written. -/
theorem read_separator_written {α : Type} (i : Nat) (inner : Text → Option (α × Text)) (t : Text) :
    read_separator ':' i inner ((if i = 0 then [] else [':']) ++ t) = inner t := by
  cases i with
  | zero => rfl
  | succ i => rfl

/-- Segments that are written are read back, and then what follows them. -/
theorem read_groups_written {gs : List Nat} (small : ∀ g ∈ gs, g < 65536) {n : Nat} (fits : gs.length ≤ n) (i : Nat)
    {t : Text} (ends : ColonOrEnd t) : read_groups n i (fmt_groups i gs ++ t) =
      (gs ++ (read_groups (n - gs.length) (i + gs.length) t).1,(read_groups (n - gs.length) (i + gs.length) t).2) := by
  induction gs generalizing n i with
  | nil => simp [fmt_groups]
  | cons g rest ih =>
    obtain ⟨left,rfl⟩ : ∃ left, n = left + 1 := ⟨n - 1,by simp at fits; omega⟩
    have below := small g (by simp)
    have later := fmt_groups_colonOrEnd i rest ends
    have no_ipv4 : (if 0 < left then read_separator ':' i read_ipv4_addr (fmt_groups i (g :: rest) ++ t) else none) = none := by
      rw [fmt_groups,List.append_assoc,List.append_assoc,read_separator_written,
        read_ipv4_dotless (hex_dotless g) later,ite_self]
    have group : read_separator ':' i (read_number 16 4 65535 true) (fmt_groups i (g :: rest) ++ t) =
        some (g,fmt_groups (i + 1) rest ++ t) := by
      rw [fmt_groups,List.append_assoc,List.append_assoc,read_separator_written]
      exact read_number_written (by decide) (by decide) true (by omega) (by omega) (by decide) (later.stops (by decide))
    have after := ih (fun h member => small h (by simp [member])) (by simpa using fits) (i + 1)
    rw [read_groups,no_ipv4]
    simp only
    rw [group]
    simp only
    rw [after,List.length_cons,show left + 1 - (rest.length + 1) = left - rest.length by omega,
      show i + (rest.length + 1) = i + 1 + rest.length by omega]
    rfl

/-- At the end, and at two colons, no group is read. -/
theorem read_groups_stuck (n i : Nat) {t : Text} (stuck : t = [] ∨ ∃ rest, t = ':' :: ':' :: rest) :
    read_groups n i t = ([],false,t) := by
  have none_inner {α : Type} (inner : Text → Option (α × Text)) (empty : inner [] = none)
      (colon : ∀ rest, inner (':' :: rest) = none) : read_separator ':' i inner t = none := by
    rcases stuck with rfl | ⟨rest,rfl⟩
    · cases i with
      | zero => exact empty
      | succ i => rfl
    · cases i with
      | zero => exact colon _
      | succ i => exact colon _
  have ipv4 : read_separator ':' i read_ipv4_addr t = none :=
    none_inner _ (read_ipv4_dotless (s := []) (by simp) (.inl rfl))
      fun rest => read_ipv4_dotless (s := []) (by simp) (.inr ⟨rest,rfl⟩)
  have number : read_separator ':' i (read_number 16 4 65535 true) t = none := by
    refine none_inner _ rfl fun rest => ?_
    have stop : to_digit 16 ':' = none := by decide
    simp [read_number,digits,stop]
  cases n with
  | zero => rfl
  | succ n =>
    rw [read_groups,ipv4,ite_self]
    simp only
    rw [number]

/-! ### Runs of zeroes -/

/-- All segments of the run are zero. -/
def ZeroRun (all : List Nat) (run : Span) : Prop := ∀ j, run.start ≤ j → j < run.start + run.len → all[j]? = some 0

theorem zeroRun_empty (all : List Nat) (start : Nat) : ZeroRun all ⟨start,0⟩ := by
  intro j from_start before
  simp only at from_start before
  omega

/-- The longest run is one; `current` ends where the reading has come to. -/
theorem longest_zeroes_run {all rest : List Nat} {i : Nat} {longest current : Span} (left : all.drop i = rest)
    (zeroes : ZeroRun all longest) (zeroes' : ZeroRun all current)
    (reaches : current.len ≠ 0 → current.start + current.len = i) :
    ZeroRun all (longest_zeroes rest i longest current) := by
  induction rest generalizing i longest current with
  | nil => exact zeroes
  | cons segment rest ih =>
    have here : all[i]? = some segment := by
      have first := congrArg List.head? left
      rwa [List.head?_drop] at first
    have later : all.drop (i + 1) = rest := by
      rw [← List.drop_drop,left]
      rfl
    rw [longest_zeroes]
    by_cases zero : segment = 0
    · rw [if_pos zero]
      have extended : ZeroRun all ⟨if current.len = 0 then i else current.start,current.len + 1⟩ := by
        intro j from_start before
        simp only at from_start before
        by_cases last : j = i
        · rw [last,here,zero]
        · by_cases empty : current.len = 0
          · rw [if_pos empty] at from_start before
            omega
          · rw [if_neg empty] at from_start before
            have ends := reaches empty
            exact zeroes' j from_start (by omega)
      have best : ZeroRun all (if longest.len < current.len + 1 then
          ⟨if current.len = 0 then i else current.start,current.len + 1⟩ else longest) := by
        by_cases longer : longest.len < current.len + 1
        · rw [if_pos longer]
          exact extended
        · rw [if_neg longer]
          exact zeroes
      refine ih later best extended fun _ => ?_
      simp only
      by_cases empty : current.len = 0
      · rw [if_pos empty,empty]
      · rw [if_neg empty]
        have ends := reaches empty
        omega
    · rw [if_neg zero]
      exact ih later zeroes (zeroRun_empty all 0) fun some => absurd rfl some

/-- What is left out of an address are its zeroes. -/
theorem ZeroRun.whole {all : List Nat} {run : Span} (zeroes : ZeroRun all run) :
    all.take run.start ++ List.replicate run.len 0 ++ all.drop (run.start + run.len) = all := by
  have inner : (all.drop run.start).take run.len = List.replicate run.len 0 := by
    apply List.ext_getElem?
    intro j
    rw [List.getElem?_take,List.getElem?_drop,List.getElem?_replicate]
    by_cases inside : j < run.len
    · rw [if_pos inside,if_pos inside]
      exact zeroes _ (by omega) (by omega)
    · rw [if_neg inside,if_neg inside]
  rw [← inner,List.append_assoc,← List.drop_drop,List.take_append_drop,List.take_append_drop]

theorem ZeroRun.within {all : List Nat} {run : Span} (zeroes : ZeroRun all run) (some : 0 < run.len) :
    run.start + run.len ≤ all.length := by
  have last := zeroes (run.start + run.len - 1) (by omega) (by omega)
  obtain ⟨inside,_⟩ := List.getElem?_eq_some_iff.mp last
  omega

/-! ### The round trip -/

theorem segments_length (bits : BitVec 128) : (segments bits).length = 8 := by
  rw [segments,List.length_map,List.length_range]

theorem segments_small (bits : BitVec 128) : ∀ g ∈ segments bits, g < 65536 := by
  intro g member
  obtain ⟨i,_,rfl⟩ := List.mem_map.mp member
  exact Nat.mod_lt _ (by decide)

theorem segments_value (bits : BitVec 128) : (segments bits).foldl (fun n g => n * 65536 + g) 0 = bits.toNat := by
  have small := bits.isLt
  simp only [segments,List.range,List.range.loop,List.map_cons,List.map_nil,List.foldl_cons,List.foldl_nil]
  norm_num
  omega

theorem parse_groups {t : Text} {groups : List Nat} {bits : BitVec 128} (other : read_ipv4_addr t = none)
    (read : read_ipv6_addr t = some (groups,[])) (value : groups.foldl (fun n g => n * 65536 + g) 0 = bits.toNat) :
    parse_ip (String.ofList t) = some (.V6 bits) := by
  unfold parse_ip
  rw [String.toList_ofList,other]
  simp only [read,value,BitVec.ofNat_toNat,BitVec.setWidth_eq]
  rfl

theorem fmt_groups_dotless (gs : List Nat) {t : Text} (ends : ColonOrEnd t) : read_ipv4_addr (fmt_groups 0 gs ++ t) = none := by
  cases gs with
  | nil => exact read_ipv4_dotless (s := []) (by simp) ends
  | cons g rest =>
    rw [fmt_groups,if_pos rfl,List.nil_append,List.append_assoc]
    exact read_ipv4_dotless (hex_dotless g) (fmt_groups_colonOrEnd 0 rest ends)

/-- All eight segments. -/
theorem read_full (bits : BitVec 128) : read_ipv6_addr (fmt_groups 0 (segments bits)) = some (segments bits,[]) := by
  have read := read_groups_written (segments_small bits) (n := 8) (segments_length bits).le 0 (t := []) (.inl rfl)
  rw [List.append_nil,read_groups_stuck _ _ (.inl rfl),List.append_nil] at read
  unfold read_ipv6_addr
  simp only [read,segments_length,if_true]

/-- Segments on both sides of the zeroes that are left out. -/
theorem read_compressed {head tail : List Nat} (small : ∀ g ∈ head,g < 65536) (small' : ∀ g ∈ tail, g < 65536)
    (short : head.length + tail.length < 7) :
    read_ipv6_addr (fmt_groups 0 head ++ ("::".toList ++ fmt_groups 0 tail)) =
      some (head ++ List.replicate (8 - head.length - tail.length) 0 ++ tail,[]) := by
  have colons : "::".toList ++ fmt_groups 0 tail = ':' :: ':' :: fmt_groups 0 tail := rfl
  have before := read_groups_written small (n := 8) (by omega) 0 (t := ':' :: ':' :: fmt_groups 0 tail) (.inr ⟨_,rfl⟩)
  rw [read_groups_stuck _ _ (.inr ⟨_,rfl⟩),List.append_nil] at before
  have after := read_groups_written small' (n := 7 - head.length) (by omega) 0 (t := []) (.inl rfl)
  rw [List.append_nil,read_groups_stuck _ _ (.inl rfl),List.append_nil] at after
  unfold read_ipv6_addr
  simp only [colons,before]
  rw [if_neg (by omega)]
  simp only [Bool.false_eq_true,if_false,after]

/-- An address of version 4 inside one of version 6. -/
theorem read_mapped (bits : BitVec 32) : read_ipv6_addr ("::ffff:".toList ++ fmt_v4 bits) =
    some ([0,0,0,0,0,0xffff,bits.toNat / 16777216 * 256 + bits.toNat / 65536 % 256,
      bits.toNat / 256 % 256 * 256 + bits.toNat % 256],[]) := by
  have start := read_groups_stuck 8 0 (t := "::ffff:".toList ++ fmt_v4 bits) (.inr ⟨_,rfl⟩)
  have group : "ffff:".toList ++ fmt_v4 bits = fmt_groups 0 [0xffff] ++ ':' :: fmt_v4 bits := by
    have digits : Nat.toDigits 16 0xffff = "ffff".toList := by decide
    simp [fmt_groups,digits]
  have first := @read_groups_written [0xffff] (by simp) 7 (by simp) 0 (':' :: fmt_v4 bits) (.inr ⟨_,rfl⟩)
  have rest := read_ipv4_written bits (stops_nil 10)
  rw [List.append_nil] at rest
  have last : read_groups 6 1 (':' :: fmt_v4 bits) = ([bits.toNat / 16777216 * 256 + bits.toNat / 65536 % 256,
      bits.toNat / 256 % 256 * 256 + bits.toNat % 256],true,[]) := by
    rw [read_groups,if_pos (by decide)]
    simp only [read_separator,Nat.one_ne_zero,if_false,if_true,rest]
  rw [← group] at first
  simp only [List.length_singleton,Nat.reduceSub,Nat.zero_add,last] at first
  have spelled : "::ffff:".toList ++ fmt_v4 bits = ':' :: ':' :: ("ffff:".toList ++ fmt_v4 bits) := rfl
  rw [spelled] at start ⊢
  unfold read_ipv6_addr
  simp only [start,List.length_nil]
  rw [if_neg (by decide)]
  simp only [Nat.sub_zero,first]
  rfl

theorem parse_fmt_v6 (bits : BitVec 128) : parse_ip (String.ofList (fmt_v6 bits)) = some (.V6 bits) := by
  have small := bits.isLt
  unfold fmt_v6
  by_cases mapped : bits.toNat / 4294967296 = 0xffff
  · rw [if_pos mapped]
    refine parse_groups (read_ipv4_dotless (s := []) (by simp) (.inr ⟨_,rfl⟩)) (read_mapped _) ?_
    simp only [List.foldl_cons,List.foldl_nil,BitVec.toNat_ofNat]
    omega
  · rw [if_neg mapped]
    have zeroes := @longest_zeroes_run (segments bits) _ 0 _ _ List.drop_zero (zeroRun_empty _ 0) (zeroRun_empty _ 0)
      fun some => absurd rfl some
    have long := segments_length bits
    simp only
    split
    next two =>
      have within := zeroes.within (by omega)
      have whole := zeroes.whole
      rw [fmt_subslice_eq,fmt_subslice_eq,List.append_assoc]
      refine parse_groups (fmt_groups_dotless _ (.inr ⟨_,rfl⟩)) (read_compressed ?_ ?_ ?_) ?_
      · exact fun g member => segments_small bits g (List.mem_of_mem_take member)
      · exact fun g member => segments_small bits g (List.mem_of_mem_drop member)
      · rw [List.length_take,List.length_drop]
        omega
      · rw [List.length_take,List.length_drop,← segments_value bits]
        congr 1
        conv_rhs => rw [← whole]
        congr 3
        omega
    next =>
      rw [fmt_subslice_eq]
      refine parse_groups ?_ (read_full bits) (segments_value bits)
      have dotless := fmt_groups_dotless (segments bits) (t := []) (.inl rfl)
      rwa [List.append_nil] at dotless

/-- Every address is read back from its own text. -/
theorem parse_to_string (ip : IpAddr) : parse_ip (String.ofList ip.to_string) = some ip := by
  cases ip with
  | V4 bits => exact parse_fmt_v4 bits
  | V6 bits => exact parse_fmt_v6 bits

theorem to_string_inj {ip ip' : IpAddr} : ip.to_string = ip'.to_string ↔ ip = ip' := by
  constructor
  · intro same
    have read := parse_to_string ip
    rw [same,parse_to_string] at read
    exact (Option.some.inj read).symm
  · rintro rfl
    rfl

end Maxio
