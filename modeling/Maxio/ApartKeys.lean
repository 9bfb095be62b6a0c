import Maxio.Components

/-!
Keys that are apart: neither lies on the way to the other. What an operation on one of them touches and opens is no place of
the other.
-/

set_option linter.unusedSimpArgs false

namespace Maxio
open FileTree (Node Tree)

/-- Neither key lies on the way to the other; two spellings of the same names may both be used. -/
def KeysApart (key other : String) : Prop :=
  names other <+: names key ∨ names key <+: names other → names other = names key

theorem KeysApart.refl (key : String) : KeysApart key key := fun _ => rfl

/-- Where a name stands that occurs before it in neither list. -/
theorem prefix_at {α : Type} {x : α} {d d' t t' : List α} (absent : x ∉ d) (absent' : x ∉ d')
    (below : d' ++ x :: t' <+: d ++ x :: t) : d' = d ∧ t' <+: t := by
  induction d' generalizing d with
  | nil =>
    cases d with
    | nil => simpa using below
    | cons a d =>
      rw [List.nil_append,List.cons_append,List.cons_prefix_cons] at below
      exact absurd (by simp [below.1]) absent
  | cons a d' ih =>
    cases d with
    | nil =>
      rw [List.nil_append,List.cons_append,List.cons_prefix_cons] at below
      exact absurd (by simp [below.1]) absent'
    | cons b d =>
      rw [List.cons_append,List.cons_append,List.cons_prefix_cons] at below
      obtain ⟨rfl,below⟩ := below
      rw [List.mem_cons,not_or] at absent absent'
      obtain ⟨rfl,tail⟩ := ih absent.2 absent'.2 below
      exact ⟨rfl,tail⟩

/-- A path that stops before the name, or goes beyond it. -/
theorem prefix_before {α : Type} {x n : α} {d t p : List α} (other : n ≠ x) (absent : x ∉ p)
    (below : p ++ [n] <+: d ++ x :: t) : p ++ [n] <+: d := by
  induction p generalizing d with
  | nil =>
    cases d with
    | nil =>
      rw [List.nil_append,List.nil_append,List.cons_prefix_cons] at below
      exact absurd below.1 other
    | cons a d =>
      rw [List.nil_append,List.cons_append,List.cons_prefix_cons] at below
      simp [below.1]
  | cons a p ih =>
    rw [List.mem_cons,not_or] at absent
    cases d with
    | nil =>
      rw [List.nil_append,List.cons_append,List.cons_prefix_cons] at below
      exact absurd below.1.symm absent.1
    | cons b d =>
      rw [List.cons_append,List.cons_append,List.cons_prefix_cons] at below
      rw [List.cons_append,List.cons_prefix_cons]
      exact ⟨below.1,ih absent.2 below.2⟩

section Places
variable {fs : FilesystemStorage} {bucket key other name : String} {rest : OsPath}

theorem versions_off (valid : ValidKey key) : ".versions" ∉ names key := offLimits_of_reserved (by decide) key valid

/-- The versions directory, below the bucket, and an entry of it. -/
theorem version_entry_eq (fs : FilesystemStorage) (bucket key name : String) (rest : OsPath) :
    versionsAt fs bucket key ++ name :: rest = base fs.buckets_dir bucket ++
      ((names key).dropLast ++ ".versions" :: ((names key).getLast?.toList ++ name :: rest)) := by
  rw [versionsAt_eq,versionsRel]
  simp

theorem tempName_reserved {draws : Draws} {n : String} (member : n ∈ tempNames draws) : is_reserved_segment n = true := by
  obtain ⟨uuid,_,rfl⟩ := mem_tempNames member
  simp [is_reserved_segment,tempName_starts]

/-- A current file of a key is on the way to another place only if the key is. -/
theorem own_on_way {n : String} (member : n ∈ ownNames other) {p : OsPath} (valid' : ValidKey key)
    (inside : p <+: names key) (below : stem other ++ [n] <+: p) : names other <+: names key := by
  have there : n ∈ names key := (below.trans inside).subset (by simp)
  have free : is_reserved_segment n = false := by
    obtain ⟨segment,kept⟩ := List.mem_filter.mp there
    exact valid'.unreserved n segment (by simpa using kept)
  simp only [ownNames,List.mem_cons,List.not_mem_nil,or_false] at member
  rcases member with rfl | rfl | rfl
  · unfold objectName at free below there
    split at free
    next => exact absurd free (by decide)
    next file =>
      rw [if_neg file] at below there
      have kept : skipped (leaf other) = false := kept_of_mem_canon there
      rw [names_eq,canon_singleton kept]
      exact below.trans inside
  · unfold metaName at free
    split at free
    next => exact absurd free (by decide)
    next => simp [is_reserved_segment,ends_with_append] at free
  · simp [ecName,is_reserved_segment,ends_with_append] at free

/-- Of an entry of the versions directory an operation on a key touches only those it names, and only of its own key. -/
theorem touched_version_entry (accepted : Accepted bucket key) (accepted' : Accepted bucket other)
    (apart : KeysApart key other) {draws : Draws} {own stored : List String} (mine : ∀ n ∈ own, n ∈ ownNames other)
    (touched : Touched fs bucket other own (tempNames draws) stored (versionsAt fs bucket key ++ name :: rest)) :
    names other = names key ∧ name ∈ stored := by
  have off := versions_off accepted.validKey
  have off' := versions_off accepted'.validKey
  have front : (names key).dropLast <+: names key := List.dropLast_prefix _
  have off_front : ".versions" ∉ (names key).dropLast := fun member => off (front.subset member)
  have off_front' : ".versions" ∉ (names other).dropLast := fun member => off' ((List.dropLast_prefix _).subset member)
  have temp_other : ∀ n ∈ tempNames draws, n ≠ ".versions" := by
    rintro n member rfl
    exact tempNames_ne_top _ member (by decide)
  have temp_out : ∀ n ∈ tempNames draws, ∀ p, p <+: names key → n ∉ p := by
    intro n member p inside there
    exact offLimits_of_reserved (tempName_reserved member) key accepted.validKey (inside.subset there)
  rw [version_entry_eq] at touched
  obtain ⟨_,cases'⟩ := touched_cases accepted' accepted.validBucket touched
  rcases cases' with ⟨n,member,below⟩ | ⟨n,member,below⟩ | ⟨n,member,below⟩
  · have stem_off : ".versions" ∉ stem other := fun there => off' (stem_subset _ there)
    rcases List.mem_append.mp member with current | temp
    · have within := prefix_before (fun same => ownNames_ne_top accepted'.validKey n (mine n current) (by rw [same]; decide))
        stem_off below
      have above := own_on_way (mine n current) accepted.validKey front within
      -- a key that lies on the way is none of the keys that are apart
      have same := apart (.inl above)
      have long := within.length_le
      have short : (stem other).length + 1 ≤ (names key).length - 1 := by simpa using long
      have bound : (names other).length ≤ (stem other).length + 1 := by
        rw [names_eq,List.length_append]
        have one : (canon [leaf other]).length ≤ 1 := List.length_filter_le _ _
        omega
      rw [same] at bound
      omega
    · have within := prefix_before (temp_other n temp) stem_off below
      exact absurd (within.subset (by simp)) (temp_out n temp _ front)
  · have rel_off : ".versions" ∉ objectRel other := by
      unfold objectRel
      split
      next => exact off'
      next => exact off_front'
    have within := prefix_before (temp_other n member) rel_off below
    exact absurd (within.subset (by simp)) (temp_out n member _ front)
  · rw [versionsRel,List.append_assoc,List.cons_append] at below
    obtain ⟨dirs,tail⟩ := prefix_at off_front off_front' below
    rcases List.eq_nil_or_concat (names other) with none | ⟨d',l',ends'⟩
    · have same := apart (.inl (by rw [none]; exact List.nil_prefix))
      rw [none] at same tail
      rw [← same] at tail
      refine ⟨none.trans same,?_⟩
      simp only [List.getLast?_nil,Option.toList_none,List.nil_append,List.cons_prefix_cons] at tail
      exact tail.1 ▸ member
    · rw [List.concat_eq_append] at ends'
      rcases List.eq_nil_or_concat (names key) with none | ⟨d,l,ends⟩
      · have same := apart (.inr (by rw [none]; exact List.nil_prefix))
        rw [none,ends'] at same
        simp at same
      · rw [List.concat_eq_append] at ends
        rw [ends',ends,List.getLast?_concat,List.getLast?_concat] at tail
        rw [ends',ends,List.dropLast_concat,List.dropLast_concat] at dirs
        simp only [Option.toList_some,List.singleton_append,List.cons_prefix_cons] at tail
        exact ⟨by rw [ends',ends,dirs,tail.1],tail.2.1 ▸ member⟩

/-- No entry of the versions directory is a directory that an operation opens. -/
theorem opened_version_entry (accepted : Accepted bucket key) (accepted' : Accepted bucket other)
    (apart : KeysApart key other) : ¬ Opened fs bucket other (versionsAt fs bucket key ++ [name]) := by
  intro opened
  have off := versions_off accepted.validKey
  have off' := versions_off accepted'.validKey
  have off_front : ".versions" ∉ (names key).dropLast := fun member => off ((List.dropLast_prefix _).subset member)
  have off_front' : ".versions" ∉ (names other).dropLast := fun member => off' ((List.dropLast_prefix _).subset member)
  rw [version_entry_eq] at opened
  obtain ⟨_,above | above⟩ := opened_cases opened
  · exact off' (stem_subset _ (above.subset (by simp)))
  · rw [versionsRel] at above
    obtain ⟨dirs,tail⟩ := prefix_at off_front' off_front above
    have long := tail.length_le
    rcases List.eq_nil_or_concat (names key) with none | ⟨d,l,ends⟩
    · rw [none] at tail
      have same := apart (.inr (by rw [none]; exact List.nil_prefix))
      rw [same,none] at tail
      simp at tail
    · rw [List.concat_eq_append] at ends
      rw [ends,List.getLast?_concat] at long
      have one : (names other).getLast?.toList.length ≤ 1 := by
        cases (names other).getLast? <;> simp
      simp at long
      omega

/-- No version lies in an upload. -/
theorem version_not_in_upload (valid : ValidKey key) {upload_id : String} :
    ¬ uploadAt fs bucket upload_id <+: versionsAt fs bucket key ++ name :: rest := by
  intro below
  have off : ".uploads" ∉ names key := offLimits_of_reserved (by decide) key valid
  rw [version_entry_eq,uploadAt,List.prefix_append_right_inj] at below
  have first : [] ++ [".uploads"] <+: (names key).dropLast ++ ".versions" :: ((names key).getLast?.toList ++ name :: rest) :=
    (by simp : [] ++ [".uploads"] <+: [".uploads"] ++ [upload_id]).trans below
  exact off ((List.dropLast_prefix _).subset ((prefix_before (by decide) (by simp) first).subset (by simp)))

/-! ### Current files -/

/-- From each current file of a key its names can be read off. -/
theorem own_owner (valid : ValidKey key) {n : String} (member : n ∈ ownNames key) : owner (stem key ++ [n]) = names key := by
  simp only [ownNames,List.mem_cons,List.not_mem_nil,or_false] at member
  rcases member with rfl | rfl | rfl
  · unfold objectName
    by_cases folder : ends_with key "/" = true
    · rw [if_pos folder,stem_eq_names ((ends_with_slash valid.nonempty).mp folder)]
      have read := owner_object valid
      rwa [objectRest,if_pos folder] at read
    · rw [if_neg folder]
      by_cases kept : skipped (leaf key) = false
      · have spelled : stem key ++ [leaf key] = names key := by rw [names_eq,canon_singleton kept]
        have read := owner_object valid
        rw [objectRest,if_neg folder] at read
        rwa [spelled]
      · rw [Bool.not_eq_false] at kept
        have parent : (stem key).getLast? ≠ some ".versions" := by
          intro same
          exact versions_off valid (stem_subset _ (List.mem_of_getLast? same))
        have plain : ∀ text, skipped text = true → ends_with text ".meta.json" = false ∧ ends_with text ".ec" = false ∧
            text ≠ ".versions" := by
          intro text skips
          simp only [skipped,Bool.or_eq_true,decide_eq_true_eq] at skips
          rcases skips with rfl | rfl <;> decide
        obtain ⟨side,chunks,versions⟩ := plain _ kept
        rw [owner_concat,ownerAt,if_neg (by simp [side]),if_neg (by simp [chunks]),if_neg parent,if_neg versions,
          bareName_leaf valid]
  · exact owner_meta valid
  · exact owner_ec valid

/-- The last name of a place is not made up for a temporary file. -/
theorem own_ne_temp (valid : ValidKey key) {draws : Draws} {n : String} (member : n ∈ ownNames key) :
    n ∉ tempNames draws := by
  intro temp
  have starts : starts_with n ".maxio-tmp-" = true := by
    obtain ⟨uuid,_,rfl⟩ := mem_tempNames temp
    exact tempName_starts uuid
  simp only [ownNames,List.mem_cons,List.not_mem_nil,or_false] at member
  rcases member with rfl | rfl | rfl
  · unfold objectName at starts
    by_cases folder : ends_with key "/" = true
    · rw [if_pos folder] at starts
      exact absurd starts (by decide)
    · rw [if_neg folder] at starts
      by_cases kept : skipped (leaf key) = false
      · have free := valid.unreserved _ (leaf_mem_split key) kept
        simp [is_reserved_segment,starts] at free
      · have short : ∀ text, skipped text = true → starts_with text ".maxio-tmp-" = false := by
          intro text skips
          simp only [skipped,Bool.or_eq_true,decide_eq_true_eq] at skips
          rcases skips with rfl | rfl <;> decide
        rw [short _ (by simpa using kept)] at starts
        cases starts
  · exact metaName_fresh temp
  · exact ecName_fresh temp

/-- Two ways to the same place: one goes on where the other ends, or both end there. -/
theorem prefix_turns {α : Type} {d e t : List α} {x y : α} (below : d ++ [x] <+: e ++ y :: t) :
    d ++ [x] <+: e ∨ (d = e ∧ x = y) ∨ e ++ [y] <+: d := by
  induction d generalizing e with
  | nil =>
    cases e with
    | nil =>
      rw [List.nil_append,List.nil_append,List.cons_prefix_cons] at below
      exact .inr (.inl ⟨rfl,below.1⟩)
    | cons b e =>
      rw [List.nil_append,List.cons_append,List.cons_prefix_cons] at below
      exact .inl (by simp [below.1])
  | cons a d ih =>
    cases e with
    | nil =>
      rw [List.cons_append,List.nil_append,List.cons_prefix_cons] at below
      exact .inr (.inr (by simp [below.1]))
    | cons b e =>
      rw [List.cons_append,List.cons_append,List.cons_prefix_cons] at below
      obtain ⟨rfl,below⟩ := below
      rcases ih below with above | ⟨rfl,rfl⟩ | under
      · exact .inl (List.cons_prefix_cons.mpr ⟨rfl,above⟩)
      · exact .inr (.inl ⟨rfl,rfl⟩)
      · exact .inr (.inr (List.cons_prefix_cons.mpr ⟨rfl,under⟩))

section Current
variable (accepted : Accepted bucket key) (accepted' : Accepted bucket other) (apart : KeysApart key other)
  (differ : names other ≠ names key)
include accepted accepted' apart differ

omit accepted in
/-- No current file is on the way to a current file of the other key. -/
theorem own_not_on_way {n : String} (member : n ∈ ownNames key) {p : OsPath} (inside : p <+: names other) :
    ¬ stem key ++ [n] <+: p := by
  intro below
  exact differ (apart (.inr (own_on_way member accepted'.validKey inside below)))

/-- What an operation touches is no current file of a key with other names. -/
theorem current_untouched {draws : Draws} {own stored : List String} (mine : ∀ n ∈ own, n ∈ ownNames other) {n : String}
    (member : n ∈ ownNames key) {rest : OsPath} :
    ¬ Touched fs bucket other own (tempNames draws) stored (home fs bucket key ++ n :: rest) := by
  intro touched
  have stem_inside : ∀ k, stem k <+: names k := fun k => by rw [names_eq]; exact List.prefix_append _ _
  have front : (names other).dropLast <+: names other := List.dropLast_prefix _
  have temp_out : ∀ n ∈ tempNames draws, n ∉ stem key := by
    intro m temp there
    exact offLimits_of_reserved (tempName_reserved temp) key accepted.validKey (stem_subset _ there)
  have temp_below : ∀ m ∈ tempNames draws, ∀ d, d <+: names other → ¬ d ++ [m] <+: stem key ++ n :: rest := by
    intro m temp d within below
    rcases prefix_turns below with above | ⟨_,same⟩ | under
    · exact temp_out m temp (above.subset (by simp))
    · exact own_ne_temp accepted.validKey member (same ▸ temp)
    · exact own_not_on_way accepted' apart differ member within under
  rw [home,List.append_assoc] at touched
  obtain ⟨_,cases'⟩ := touched_cases accepted' accepted.validBucket touched
  rcases cases' with ⟨m,listed,below⟩ | ⟨m,temp,below⟩ | ⟨m,_,below⟩
  · rcases List.mem_append.mp listed with current | temp
    · rcases prefix_turns below with above | ⟨same,rfl⟩ | under
      · exact differ (apart (.inl (own_on_way (mine m current) accepted.validKey (stem_inside key) above)))
      · apply differ
        rw [← own_owner accepted'.validKey (mine m current),same,own_owner accepted.validKey member]
      · exact own_not_on_way accepted' apart differ member (stem_inside other) under
    · exact temp_below m temp _ (stem_inside other) below
  · refine temp_below m temp _ ?_ below
    unfold objectRel
    split
    next => exact List.prefix_refl _
    next => exact front
  · rw [versionsRel,List.append_assoc,List.cons_append] at below
    have first : (names other).dropLast ++ [".versions"] <+: stem key ++ n :: rest := by
      refine List.IsPrefix.trans ?_ below
      simp
    rcases prefix_turns first with above | ⟨_,same⟩ | under
    · exact versions_off accepted.validKey (stem_subset _ (above.subset (by simp)))
    · exact ownNames_ne_top accepted.validKey n member (by rw [← same]; decide)
    · exact own_not_on_way accepted' apart differ member front under

/-- Nor does it make or remove a directory there. -/
theorem current_unopened {n : String} (member : n ∈ ownNames key) : ¬ Opened fs bucket other (home fs bucket key ++ [n]) := by
  intro opened
  rw [home,List.append_assoc] at opened
  have stem_inside : stem other <+: names other := by rw [names_eq]; exact List.prefix_append _ _
  obtain ⟨_,above | above⟩ := opened_cases opened
  · exact own_not_on_way accepted' apart differ member stem_inside above
  · rw [versionsRel] at above
    have within := prefix_before (fun same => ownNames_ne_top accepted.validKey n member (by rw [same]; decide))
      (fun there => versions_off accepted.validKey (stem_subset _ there)) above
    exact own_not_on_way accepted' apart differ member (List.dropLast_prefix _) within

end Current
end Places

end Maxio
