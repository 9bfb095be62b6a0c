import Maxio.Listing
import Maxio.Wildcards

/-!
The query of the SQLite index for the objects of a bucket under a prefix. The prefix becomes a `LIKE` pattern; as
SQLite compares there, upper and lower case letters of ASCII are the same.
-/

namespace Maxio

/-! ### SQLite -/

/-- Characters that `LIKE` takes for the same. -/
def like_same (c d : Char) : Prop := c.toLower = d.toLower

instance : DecidableRel like_same := fun c d => inferInstanceAs (Decidable (c.toLower = d.toLower))

/-- The pattern of `LIKE ... ESCAPE`; one that ends in the escape character matches nothing. -/
def like_items (escape : Char) : List Char → Option (List (Wildcards.Item Char))
  | [] => some []
  | c :: pattern =>
    if c = escape then match pattern with
      | [] => none
      | d :: pattern => (like_items escape pattern).map (.char d :: ·)
    else if c = '%' then (like_items escape pattern).map (.many :: ·)
    else if c = '_' then (like_items escape pattern).map (.single :: ·)
    else (like_items escape pattern).map (.char c :: ·)

/-- `value LIKE pattern ESCAPE escape`. -/
def like (value pattern : String) (escape : Char) : Bool :=
  match like_items escape pattern.toList with
  | some items => Wildcards.accepts like_same items value.toList
  | none => false

/-- A row of `object_index`: bucket, key and metadata. -/
abbrev IndexRow := String × String × ObjectMeta

/-- `ORDER BY object_key`, by the bytes. -/
def rowLe (a b : IndexRow) : Prop := strLe a.2.1 b.2.1

instance : DecidableRel rowLe := fun a b => inferInstanceAs (Decidable (strLe a.2.1 b.2.1))

/-! ### The query -/

/-- A character of the prefix as the pattern has it. -/
def escape_like_char (ch : Char) : List Char := if ch = '%' ∨ ch = '_' ∨ ch = '\\' then ['\\',ch] else [ch]

def escape_like_prefix (start : String) : String := String.ofList (start.toList.flatMap escape_like_char ++ ['%'])

/-- `MetadataIndex::list`. -/
def MetadataIndex.list (rows : List IndexRow) (bucket start : String) : List ObjectMeta :=
  let found := if start = "" then rows.filter fun row => row.1 = bucket
    else rows.filter fun row => row.1 = bucket && like row.2.1 ( escape_like_prefix start) '\\'
  (found.insertionSort rowLe).map fun row => row.2.2

/-- The key starts with the prefix, byte for byte. -/
def StartsExactly (key start : String) : Prop := utf8 start <+: utf8 key

instance (key start : String) : Decidable (StartsExactly key start) :=
  inferInstanceAs (Decidable (utf8 start <+: utf8 key))

/-- The key starts with the prefix up to the case of ASCII letters. -/
def StartsUpToCase (key start : String) : Prop := starts_with (to_ascii_lower key) (to_ascii_lower start) = true

instance (key start : String) : Decidable (StartsUpToCase key start) :=
  inferInstanceAs (Decidable (starts_with (to_ascii_lower key) (to_ascii_lower start) = true))

/-- The rows of a bucket under a prefix, in byte order of their keys. -/
def ExactRows (rows : List IndexRow) (bucket start : String) (result : List ObjectMeta) : Prop :=
  ∃ found : List IndexRow, found.Perm (rows.filter fun row => row.1 = bucket ∧ StartsExactly row.2.1 start) ∧
    found.Pairwise rowLe ∧ result = found.map fun row => row.2.2

/-! ### The pattern of a prefix -/

theorem like_items_char {escape c : Char} (plain : c ≠ escape) (many : c ≠ '%') (single : c ≠ '_')
    (pattern : List Char) : like_items escape (c :: pattern) = (like_items escape pattern).map (.char c :: ·) := by
  rw [like_items.eq_def]
  simp [plain,many,single]

theorem like_items_prefix (start : List Char) :
    like_items '\\' (start.flatMap escape_like_char ++ ['%']) = some (start.map .char ++ [.many]) := by
  induction start with
  | nil => rfl
  | cons c start ih =>
    by_cases special : c = '%' ∨ c = '_' ∨ c = '\\'
    · simp [escape_like_char,special,like_items,ih]
    · have plain := special
      simp only [not_or] at plain
      simp [escape_like_char,plain.1,plain.2.1,plain.2.2,like_items_char,ih]

/-- The pattern of a prefix accepts the keys that start with it up to case. -/
theorem like_prefix_iff (key start : String) :
    like key ( escape_like_prefix start) '\\' = true ↔ StartsUpToCase key start := by
  have letters : ∀ chars text : List Char, List.Forall₂ like_same chars (text.take chars.length) ↔
      chars.map Char.toLower <+: text.map Char.toLower := by
    intro chars text
    induction chars generalizing text with
    | nil => simp
    | cons c chars ih =>
      cases text with
      | nil =>
        simp only [List.take_nil,List.map_cons,List.map_nil,List.prefix_nil]
        constructor
        · intro none
          cases none
        · intro none
          simp at none
      | cons d text => simp [ih,like_same,List.cons_prefix_cons]
  simp [like, escape_like_prefix, like_items_prefix,Wildcards.accepts_iff,Wildcards.matches_start,letters,StartsUpToCase,
    starts_with,to_ascii_lower]

theorem utf8_prefix_iff (s t : String) : utf8 s <+: utf8 t ↔ s.toList <+: t.toList := by
  constructor
  · rintro ⟨rest,split⟩
    have encoded : s.toList.utf8Encode ++ rest.toByteArray = t.toList.utf8Encode := by
      rw [List.utf8Encode,List.utf8Encode,← List.toByteArray_append]
      exact congrArg List.toByteArray split
    exact List.isPrefix_of_utf8Encode_append_eq_utf8Encode _ encoded
  · rintro ⟨rest,split⟩
    exact ⟨rest.flatMap String.utf8EncodeChar,by rw [utf8,utf8,← split,List.flatMap_append]⟩

/-- Starting byte for byte is starting up to case. -/
theorem StartsExactly.up_to_case {key start : String} (exact : StartsExactly key start) :
    StartsUpToCase key start := by
  obtain ⟨rest,split⟩ := (utf8_prefix_iff start key).mp exact
  simp [StartsUpToCase,starts_with,to_ascii_lower,← split]

theorem starts_exactly_empty (key : String) : StartsExactly key "" := ⟨utf8 key,rfl⟩

theorem starts_up_to_case_empty (key : String) : StartsUpToCase key "" := (starts_exactly_empty key).up_to_case

/-! ### The rows found -/

instance : Std.Total rowLe := ⟨fun a b => List.le_total (utf8 a.2.1) (utf8 b.2.1)⟩

instance : IsTrans IndexRow rowLe := ⟨fun _ _ _ first second => List.le_trans first second⟩

/-- The query keeps the rows of the bucket whose keys start with the prefix up to case. -/
theorem MetadataIndex.list_eq (rows : List IndexRow) (bucket start : String) :
    MetadataIndex.list rows bucket start =
      ((rows.filter fun row => row.1 = bucket ∧ StartsUpToCase row.2.1 start).insertionSort rowLe).map
        fun row => row.2.2 := by
  have same : (if start = "" then rows.filter fun row => row.1 = bucket
      else rows.filter fun row => row.1 = bucket && like row.2.1 ( escape_like_prefix start) '\\') =
      rows.filter fun row => row.1 = bucket ∧ StartsUpToCase row.2.1 start := by
    by_cases empty : start = ""
    · subst empty
      simp [starts_up_to_case_empty]
    · rw [if_neg empty]
      refine List.filter_congr fun row _ => ?_
      rw [Bool.eq_iff_iff]
      simp [like_prefix_iff]
  rw [MetadataIndex.list,same]

/-- The listing from the index is this query over the rows of the world. -/
theorem FilesystemStorage.index_list_eq (bucket start : String) (w : World) :
    FilesystemStorage.index_list bucket start w = (.ok (MetadataIndex.list w.rows bucket start),w) := by
  have same : (w.rows.filter fun row => row.1 = bucket &&
      (start = "" || starts_with (to_ascii_lower row.2.1) (to_ascii_lower start))) =
      w.rows.filter fun row => row.1 = bucket ∧ StartsUpToCase row.2.1 start := by
    refine List.filter_congr fun row _ => ?_
    by_cases empty : start = ""
    · subst empty
      simp [starts_up_to_case_empty]
    · rw [Bool.eq_iff_iff]
      simp only [empty,decide_false,Bool.false_or,Bool.and_eq_true,decide_eq_true_eq]
      rfl
  rw [MetadataIndex.list_eq,← same]
  rfl

/-- The query is exact if and only if no key of the bucket starts with the prefix up to case only. -/
theorem metadata_index_list_exact_iff (rows : List IndexRow) (bucket start : String) :
    ExactRows rows bucket start (MetadataIndex.list rows bucket start) ↔
      ∀ row ∈ rows, row.1 = bucket → StartsUpToCase row.2.1 start → StartsExactly row.2.1 start := by
  rw [MetadataIndex.list_eq]
  have within : (rows.filter fun row => row.1 = bucket ∧ StartsExactly row.2.1 start) =
      (rows.filter fun row => row.1 = bucket ∧ StartsUpToCase row.2.1 start).filter
        fun row => StartsExactly row.2.1 start := by
    rw [List.filter_filter]
    refine List.filter_congr fun row _ => ?_
    rw [Bool.eq_iff_iff]
    simp only [decide_eq_true_eq,Bool.and_eq_true]
    exact ⟨fun ⟨here,exact⟩ => ⟨exact,here,exact.up_to_case⟩,fun ⟨exact,here,_⟩ => ⟨here,exact⟩⟩
  constructor
  · rintro ⟨found,same,_,result⟩ row member here up_to_case
    -- as many rows are found as start exactly
    have count := congrArg List.length result
    rw [List.length_map,List.length_map,List.length_insertionSort,same.length_eq,within] at count
    have all := List.length_filter_eq_length_iff.mp count.symm row
      (List.mem_filter.mpr ⟨member,by simp [here,up_to_case]⟩)
    simpa using all
  · intro exact
    refine ⟨_,?_,List.pairwise_insertionSort _ _,rfl⟩
    refine (List.perm_insertionSort _ _).trans (.of_eq ?_)
    refine List.filter_congr fun row member => ?_
    rw [Bool.eq_iff_iff]
    simp only [decide_eq_true_eq]
    exact ⟨fun ⟨here,up_to_case⟩ => ⟨here,exact row member here up_to_case⟩,
      fun ⟨here,starts⟩ => ⟨here,starts.up_to_case⟩⟩

namespace Sample

/-- The metadata of a small object. -/
def indexed (key : String) : ObjectMeta where
  key := key
  size := 42
  etag := "\"abc\""
  content_type := "text/plain"
  last_modified := "2026-01-01T00:00:00.000Z"
  version_id := none
  is_delete_marker := false
  storage_format := none
  checksum_algorithm := none
  checksum_value := none
  tags := none
  part_sizes := none
  encryption := none
  object_lock_mode := none
  retain_until_date := none
  legal_hold_status := none

def photos : List IndexRow := [("b1","Photos/a.jpg",indexed "Photos/a.jpg")]

end Sample

/-- Under `photos/` the index also reports what is stored under `Photos/`. -/
theorem metadata_index_list_folds_case :
    ¬ ExactRows Sample.photos "b1" "photos/" (MetadataIndex.list Sample.photos "b1" "photos/") := by
  rintro ⟨found,same,_,result⟩
  have none : (Sample.photos.filter fun row => row.1 = "b1" ∧ StartsExactly row.2.1 "photos/") = [] := by decide +kernel
  have listed : (MetadataIndex.list Sample.photos "b1" "photos/").length = 1 := by decide +kernel
  rw [none,List.perm_nil] at same
  rw [result,same] at listed
  simp at listed

end Maxio
