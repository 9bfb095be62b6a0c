import Maxio.Checksums

/-!
The paths of a key: its payload, its sidecar, its chunks and its versions. From each of them the names of the key can be
read off, so keys share a path exactly when they have the same names.
-/

namespace Maxio

/-- A name that no valid key has on its way. -/
def OffLimits (n : String) : Prop := ∀ key, ValidKey key → n ∉ names key

theorem offLimits_of_reserved {n : String} (reserved : is_reserved_segment n = true) : OffLimits n := by
  intro key valid member
  obtain ⟨inside,kept⟩ := List.mem_filter.mp member
  have free := valid.unreserved n inside (by simpa using kept)
  rw [reserved] at free
  cases free

theorem ends_with_append (s tail : String) : ends_with (s ++ tail) tail = true := by
  rw [ends_with,String.toList_append,List.isSuffixOf_iff_suffix]
  exact List.suffix_append _ _

/-- The text without so many characters at its end. -/
def without_end (s tail : String) : String := String.ofList (s.toList.take (s.length - tail.length))

theorem without_end_append (s tail : String) : without_end (s ++ tail) tail = s := by
  rw [without_end,String.length_append,Nat.add_sub_cancel,String.toList_append,← String.length_toList,List.take_left,
    String.ofList_toList]

/-! ### Reading a place -/

/-- The names of a key's last segment: none for a folder marker or a dot. -/
def bareName (s : String) : OsPath := if skipped s = true ∨ s = ".folder" then [] else [s]

/-- The names of the key that has a place at the last of these names. -/
def ownerAt (dir : OsPath) (last : String) : OsPath :=
  if ends_with last ".meta.json" then dir ++ bareName (without_end last ".meta.json")
  else if ends_with last ".ec" then dir ++ bareName (without_end last ".ec")
  else if dir.getLast? = some ".versions" then dir.dropLast ++ [last]
  else if last = ".versions" then dir
  else dir ++ bareName last

/-- The names of the key that has a place at the path, below the directory of its bucket. -/
def owner (p : OsPath) : OsPath := match p.getLast? with
  | some last => ownerAt p.dropLast last
  | none => []

theorem owner_concat (dir : OsPath) (last : String) : owner (dir ++ [last]) = ownerAt dir last := by
  rw [owner,List.getLast?_concat,List.dropLast_concat]

/-- Where the payload, the sidecar, the chunks and the versions of a key are, below the directory of its bucket. -/
def objectRest (key : String) : OsPath := if ends_with key "/" then names key ++ [".folder"] else names key
def metaRest (key : String) : OsPath := stem key ++ [metaName key]
def ecRest (key : String) : OsPath := stem key ++ [ecName key]
def versionsRest (key : String) : OsPath := (names key).dropLast ++ ".versions" :: (names key).getLast?.toList

section Owner
variable {key : String} (valid : ValidKey key)
include valid

theorem bareName_leaf : stem key ++ bareName (leaf key) = names key := by
  rw [names_eq,bareName]
  by_cases skips : skipped (leaf key) = true
  · rw [if_pos (.inl skips)]
    simp [canon,skips]
  · rw [Bool.not_eq_true] at skips
    have other : leaf key ≠ ".folder" := by
      intro same
      have free := valid.unreserved _ (leaf_mem_split key) skips
      rw [same] at free
      exact absurd free (by decide)
    rw [if_neg (by simp [skips,other]),canon_singleton skips]

/-- A name of the key is not read as anything else. -/
theorem ownerAt_plain {dir : OsPath} {last : String} (spelled : names key = dir ++ [last]) :
    ownerAt dir last = names key := by
  have member : last ∈ names key := by simp [spelled]
  obtain ⟨inside,kept⟩ := List.mem_filter.mp member
  have free := valid.unreserved last inside (by simpa using kept)
  simp only [is_reserved_segment,Bool.or_eq_false_iff,decide_eq_false_iff_not] at free
  obtain ⟨⟨⟨⟨⟨⟨side,chunks⟩,_⟩,_⟩,versions⟩,folder⟩,_⟩ := free
  have parent : dir.getLast? ≠ some ".versions" := by
    intro same
    apply offLimits_of_reserved (n := ".versions") (by decide) key valid
    rw [spelled]
    exact List.mem_append_left _ (List.mem_of_getLast? same)
  rw [ownerAt,if_neg (by simp [side]),if_neg (by simp [chunks]),if_neg parent,if_neg versions,bareName,
    if_neg (by simpa [folder] using kept),spelled]

theorem owner_object : owner (objectRest key) = names key := by
  unfold objectRest
  split
  next folder =>
    have parent : (names key).getLast? ≠ some ".versions" := by
      intro same
      exact offLimits_of_reserved (n := ".versions") (by decide) key valid (List.mem_of_getLast? same)
    rw [owner_concat,ownerAt,if_neg (by decide),if_neg (by decide),if_neg parent,if_neg (by decide),bareName,
      if_pos (.inr rfl),List.append_nil]
  next =>
    rcases List.eq_nil_or_concat (names key) with none | ⟨dir,last,spelled⟩
    · rw [none]
      rfl
    · rw [List.concat_eq_append] at spelled
      rw [spelled,owner_concat,ownerAt_plain valid spelled,spelled]

theorem owner_meta : owner (metaRest key) = names key := by
  rw [metaRest,owner_concat,metaName]
  by_cases folder : ends_with key "/" = true
  · have empty := (ends_with_slash valid.nonempty).mp folder
    rw [if_pos folder,ownerAt,if_pos (by decide),← stem_eq_names empty]
    have bare : bareName (without_end ".folder.meta.json" ".meta.json") = [] := by decide
    rw [bare,List.append_nil]
  · rw [if_neg folder,ownerAt,if_pos (ends_with_append _ _),without_end_append,bareName_leaf valid]

theorem owner_ec : owner (ecRest key) = names key := by
  have chunks : ends_with (leaf key ++ ".ec") ".meta.json" = false := by
    rw [Bool.eq_false_iff]
    intro side
    rw [ends_with,List.isSuffixOf_iff_suffix,String.toList_append] at side
    obtain ⟨front,same⟩ := side
    have lasts := congrArg List.getLast? same
    rw [List.getLast?_append,List.getLast?_append] at lasts
    exact absurd lasts (by simp)
  rw [ecRest,owner_concat,ecName,ownerAt,if_neg (by simp [chunks]),if_pos (ends_with_append _ _),without_end_append,
    bareName_leaf valid]

theorem owner_versions : owner (versionsRest key) = names key := by
  rcases List.eq_nil_or_concat (names key) with none | ⟨dir,last,spelled⟩
  · rw [versionsRest,none]
    decide
  · rw [List.concat_eq_append] at spelled
    have member : last ∈ names key := by simp [spelled]
    obtain ⟨inside,kept⟩ := List.mem_filter.mp member
    have free := valid.unreserved last inside (by simpa using kept)
    simp only [is_reserved_segment,Bool.or_eq_false_iff,decide_eq_false_iff_not] at free
    have whole : versionsRest key = (dir ++ [".versions"]) ++ [last] := by
      rw [versionsRest,spelled]
      simp
    rw [whole,owner_concat,ownerAt,if_neg (by simp [free]),if_neg (by simp [free]),if_pos (by simp),
      List.dropLast_concat,spelled]

end Owner

/-! ### The places of a key -/

section Places
variable {fs : FilesystemStorage} {bucket key other : String}

/-- The paths `object_path`, `meta_path`, `ec_dir` and `versions_dir` of a key, without empty and `.` components. -/
def places (fs : FilesystemStorage) (bucket key : String) : List OsPath :=
  [object_path fs.buckets_dir bucket key,meta_path fs.buckets_dir bucket key,ec_dir fs.buckets_dir bucket key,
    versions_dir fs.buckets_dir bucket key].map canon

theorem canon_object_path (accepted : Accepted bucket key) :
    canon (object_path fs.buckets_dir bucket key) = base fs.buckets_dir bucket ++ objectRest key := by
  unfold object_path objectRest
  rw [bucket_dir_eq accepted.validBucket]
  split
  next folder =>
    rw [join_relative (trim_relative accepted.validKey),join_name (by decide),canon_concat (by decide),canon_append,
      canon_base fs.plain accepted.validBucket,canon_split_trim,List.append_assoc]
  next =>
    rw [join_relative accepted.validKey.relative,canon_append,canon_base fs.plain accepted.validBucket]
    rfl

theorem places_eq (accepted : Accepted bucket key) :
    places fs bucket key = [base fs.buckets_dir bucket ++ objectRest key,base fs.buckets_dir bucket ++ metaRest key,
      base fs.buckets_dir bucket ++ ecRest key,base fs.buckets_dir bucket ++ versionsRest key] := by
  have side := @Accepted.meta_leads fs _ _ accepted
  have chunks := @Accepted.ec_leads fs _ _ accepted
  have versions := (versions_dir_leads fs.plain accepted.validBucket accepted.validKey).2
  simp only [places,List.map_cons,List.map_nil,canon_object_path accepted,side.names,chunks.names,versions]
  simp only [home,metaRest,ecRest,versionsHome,versionsRest,List.append_assoc]

/-- From each place of a key its names can be read off. -/
theorem owner_of_mem (accepted : Accepted bucket key) {p : OsPath} (member : p ∈ places fs bucket key) :
    ∃ rest, p = base fs.buckets_dir bucket ++ rest ∧ owner rest = names key := by
  rw [places_eq accepted] at member
  have valid := accepted.validKey
  simp only [List.mem_cons,List.not_mem_nil,or_false] at member
  rcases member with rfl | rfl | rfl | rfl
  · exact ⟨_,rfl,owner_object valid⟩
  · exact ⟨_,rfl,owner_meta valid⟩
  · exact ⟨_,rfl,owner_ec valid⟩
  · exact ⟨_,rfl,owner_versions valid⟩

/-- Two keys share a place exactly when their lists of names are the same. -/
theorem places_disjoint_iff (accepted : Accepted bucket key) (accepted' : Accepted bucket other) :
    List.Disjoint (places fs bucket key) (places fs bucket other) ↔ names key ≠ names other := by
  constructor
  · intro disjoint same
    have mine : base fs.buckets_dir bucket ++ versionsRest key ∈ places fs bucket key := by
      rw [places_eq accepted]
      simp
    have theirs : base fs.buckets_dir bucket ++ versionsRest key ∈ places fs bucket other := by
      have rest : versionsRest key = versionsRest other := by rw [versionsRest,versionsRest,same]
      rw [places_eq accepted',rest]
      simp
    exact disjoint mine theirs
  · intro differ p mine theirs
    obtain ⟨rest,rfl,read⟩ := owner_of_mem accepted mine
    obtain ⟨rest',same,read'⟩ := owner_of_mem accepted' theirs
    apply differ
    rw [← read,← read',List.append_cancel_left same]

end Places

theorem places_of_neighbours : List.Disjoint (places (Sample.storage true 4 Sample.four_positive) "logs" "a/b")
    (places (Sample.storage true 4 Sample.four_positive) "logs" "a") :=
  (places_disjoint_iff ⟨by decide,by decide⟩ ⟨by decide,by decide⟩).mpr (by decide)

/-- A folder marker shares the directory of versions with the file of its name, and a doubled slash changes no path. -/
theorem places_shared :
    (validate_key "a").isOk = true ∧ (validate_key "a/").isOk = true ∧
      ¬ List.Disjoint (places (Sample.storage true 4 Sample.four_positive) "logs" "a")
        (places (Sample.storage true 4 Sample.four_positive) "logs" "a/") ∧
    (validate_key "a/b").isOk = true ∧ (validate_key "a//b").isOk = true ∧
      places (Sample.storage true 4 Sample.four_positive) "logs" "a/b" =
        places (Sample.storage true 4 Sample.four_positive) "logs" "a//b" := by
  refine ⟨by decide,by decide,?_,by decide,by decide,by decide⟩
  intro disjoint
  have shared : ["data","logs",".versions","a"] ∈ places (Sample.storage true 4 Sample.four_positive) "logs" "a" ∧
      ["data","logs",".versions","a"] ∈ places (Sample.storage true 4 Sample.four_positive) "logs" "a/" := by decide
  exact disjoint shared.1 shared.2

/-! ### Inside the bucket -/

/-- The path is strictly below the directory of the bucket, and neither its record nor in its uploads. -/
def InsideBucket (fs : FilesystemStorage) (bucket : String) (p : OsPath) : Prop :=
  ∃ rest, p = canon (bucket_dir fs.buckets_dir bucket) ++ rest ∧ rest ≠ [] ∧ rest ≠ [".bucket.json"] ∧
    ¬ [".uploads"] <+: rest

/-- The path does not go through a directory of versions. -/
def OutsideVersions (fs : FilesystemStorage) (bucket : String) (p : OsPath) : Prop :=
  ∀ rest, p = canon (bucket_dir fs.buckets_dir bucket) ++ rest → ".versions" ∉ rest.dropLast

/-- A key stays inside its bucket. -/
structure StaysInside (fs : FilesystemStorage) (bucket key : String) : Prop where
  places : ∀ p ∈ places fs bucket key, InsideBucket fs bucket p
  object : OutsideVersions fs bucket (canon (object_path fs.buckets_dir bucket key))
  chunks : OutsideVersions fs bucket (canon (ec_dir fs.buckets_dir bucket key))

section Inside
variable {fs : FilesystemStorage} {bucket key : String}

/-- A path that starts with a name of the key, or is a single name that the bucket does not use itself. -/
theorem insideBucket_of_head (accepted : Accepted bucket key) {n : String} {rest : OsPath} (record : n ≠ ".bucket.json")
    (uploads : n ≠ ".uploads") : InsideBucket fs bucket (base fs.buckets_dir bucket ++ n :: rest) := by
  refine ⟨n :: rest,?_,by simp,?_,?_⟩
  · rw [bucket_dir_eq accepted.validBucket,canon_base fs.plain accepted.validBucket]
  · intro same
    exact record (List.cons.inj same).1
  · rintro ⟨after,same⟩
    exact uploads (List.cons.inj same).1.symm

theorem insideBucket_of_names (accepted : Accepted bucket key) {front rest : OsPath} {n : String}
    (part : front <+: names key) (record : n ≠ ".bucket.json") (uploads : n ≠ ".uploads") :
    InsideBucket fs bucket (base fs.buckets_dir bucket ++ (front ++ n :: rest)) := by
  cases front with
  | nil => exact insideBucket_of_head accepted record uploads
  | cons first more =>
    have member : first ∈ names key := part.subset List.mem_cons_self
    refine insideBucket_of_head accepted ?_ ?_
    · rintro rfl
      exact offLimits_of_reserved (by decide) key accepted.validKey member
    · rintro rfl
      exact offLimits_of_reserved (by decide) key accepted.validKey member

theorem metaName_ne_own (key : String) : metaName key ≠ ".bucket.json" ∧ metaName key ≠ ".uploads" := by
  have side : ends_with (metaName key) ".meta.json" = true := by
    unfold metaName
    split
    · decide
    · exact ends_with_append _ _
  constructor
  · intro same
    rw [same] at side
    exact absurd side (by decide)
  · intro same
    rw [same] at side
    exact absurd side (by decide)

theorem ecName_ne_own (key : String) : ecName key ≠ ".bucket.json" ∧ ecName key ≠ ".uploads" := by
  have chunks : ends_with (ecName key) ".ec" = true := ends_with_append _ _
  constructor
  · intro same
    rw [same] at chunks
    exact absurd chunks (by decide)
  · intro same
    rw [same] at chunks
    exact absurd chunks (by decide)

/-- A valid key stays inside its bucket, unless it names no file and is no folder marker. -/
theorem stays_inside_iff (accepted : Accepted bucket key) :
    StaysInside fs bucket key ↔ names key ≠ [] ∨ ends_with key "/" = true := by
  have own : canon (bucket_dir fs.buckets_dir bucket) = base fs.buckets_dir bucket := by
    rw [bucket_dir_eq accepted.validBucket,canon_base fs.plain accepted.validBucket]
  have free : ".versions" ∉ names key := offLimits_of_reserved (by decide) key accepted.validKey
  have above : stem key <+: names key := by
    rw [names_eq]
    exact List.prefix_append _ _
  constructor
  · intro inside
    by_contra neither
    rw [not_or,not_not] at neither
    obtain ⟨none,file⟩ := neither
    obtain ⟨rest,same,below,_⟩ := inside.places (canon (object_path fs.buckets_dir bucket key)) (by simp [places])
    rw [canon_object_path accepted,own,objectRest,if_neg file,none] at same
    exact below (List.append_cancel_left same).symm
  · intro named
    refine ⟨?_,?_,?_⟩
    · intro p member
      rw [places_eq accepted] at member
      simp only [List.mem_cons,List.not_mem_nil,or_false] at member
      rcases member with rfl | rfl | rfl | rfl
      · rw [objectRest]
        split
        next folder => exact insideBucket_of_names accepted (List.prefix_refl _) (by decide) (by decide)
        next file =>
          obtain ⟨dir,last,spelled⟩ := (List.eq_nil_or_concat (names key)).resolve_left (named.resolve_right file)
          rw [List.concat_eq_append] at spelled
          have member : last ∈ names key := by simp [spelled]
          rw [spelled]
          refine insideBucket_of_names accepted ⟨[last],spelled.symm⟩ ?_ ?_
          · rintro rfl
            exact offLimits_of_reserved (by decide) key accepted.validKey member
          · rintro rfl
            exact offLimits_of_reserved (by decide) key accepted.validKey member
      · exact insideBucket_of_names accepted above (metaName_ne_own key).1 (metaName_ne_own key).2
      · exact insideBucket_of_names accepted above (ecName_ne_own key).1 (ecName_ne_own key).2
      · exact insideBucket_of_names accepted (List.dropLast_prefix _) (by decide) (by decide)
    · intro rest same inside
      rw [canon_object_path accepted,own] at same
      rw [← List.append_cancel_left same,objectRest] at inside
      split at inside
      · rw [List.dropLast_concat] at inside
        exact free inside
      · exact free (List.mem_of_mem_dropLast inside)
    · intro rest same inside
      rw [(@Accepted.ec_leads fs _ _ accepted).names,own,home,List.append_assoc] at same
      rw [← List.append_cancel_left same,List.dropLast_concat] at inside
      exact free (above.subset inside)

end Inside

theorem neighbour_inside : StaysInside (Sample.storage true 4 Sample.four_positive) "logs" "a/b" :=
  (stays_inside_iff ⟨by decide,by decide⟩).mpr (.inl (by decide))

/-- The key of one dot is accepted, and its payload would be the directory of the bucket. -/
theorem dot_not_inside : (validate_key ".").isOk = true ∧
    canon (object_path (Sample.storage true 4 Sample.four_positive).buckets_dir "logs" ".") = ["data","logs"] ∧
      ¬ StaysInside (Sample.storage true 4 Sample.four_positive) "logs" "." := by
  refine ⟨by decide,by decide,?_⟩
  intro inside
  obtain ⟨rest,same,below,_⟩ := inside.places ["data","logs"] (by decide)
  have own : canon (bucket_dir (Sample.storage true 4 Sample.four_positive).buckets_dir "logs") = ["data","logs"] := by
    decide
  rw [own] at same
  exact below (List.append_right_eq_self.mp same.symm)

end Maxio
