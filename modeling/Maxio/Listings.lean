import Maxio.Healing

/-!
Listing a bucket. The walk over its directory comes across every object that is stored in it, and shows nothing but sidecars
of keys that begin as asked: what it shows of an unversioned bucket is the bucket's map.
-/

set_option linter.unusedSimpArgs false

namespace Maxio
open FileTree (Node Tree)

/-! ### Spelling -/

theorem rel_key_split (key : String) : rel_key (split key '/') = key := by
  have pieces : (split key '/').map String.toList = splitChars '/' key.toList := by
    rw [split,List.map_map]
    exact (List.map_congr_left fun piece _ => String.toList_ofList).trans (List.map_id _)
  rw [← String.toList_inj,rel_key,String.toList_intercalate,pieces]
  exact intercalate_splitChars '/' key.toList

theorem strip_ec_append (key : String) : strip_ec (key ++ ".ec") = key := by
  have suffix : ends_with (key ++ ".ec") ".ec" = true := by
    rw [ends_with,List.isSuffixOf_iff_suffix,String.toList_append]
    exact List.suffix_append _ _
  have three : ".ec".toList.length = 3 := by decide
  rw [strip_ec,if_pos suffix,String.toList_append,List.length_append,three,Nat.add_sub_cancel,List.take_left,
    String.ofList_toList]

/-- A key without empty segments and without dots: its spelling is its path. -/
def SpelledOut (key : String) : Prop := names key = split key '/'

section Spelling
variable {key : String} (spelled : SpelledOut key)
include spelled

theorem SpelledOut.kept {s : String} (member : s ∈ split key '/') : skipped s = false := by
  rw [← show names key = split key '/' from spelled] at member
  exact kept_of_mem_canon member

theorem SpelledOut.stem_whole : stem key = stemSegments key := by
  refine canon_of_plain fun s member => spelled.kept ?_
  rw [split_eq]
  exact List.mem_append_left _ member

theorem SpelledOut.leaf_kept : skipped (leaf key) = false := spelled.kept (leaf_mem_split key)

theorem SpelledOut.names_snoc : names key = stem key ++ [leaf key] := by
  rw [show names key = split key '/' from spelled,split_eq,spelled.stem_whole]

/-- The path of a key is read as the key, and so is that of its chunks. -/
theorem SpelledOut.rel_keys : rel_key (stem key ++ [leaf key]) = key ∧ strip_ec (rel_key (stem key ++ [leaf key ++ ".ec"])) = key := by
  constructor
  · rw [spelled.stem_whole,← split_eq,rel_key_split]
  · rw [spelled.stem_whole,← split_append key ".ec" (by decide),rel_key_split,strip_ec_append]

end Spelling

/-! ### One entry -/

/-- A sidecar that a walk shows: that of a key that begins as asked. -/
def Shown (fs : FilesystemStorage) (bucket start : String) (w : World) (entry : String × ObjectMeta) : Prop :=
  starts_with entry.1 start = true ∧
    (ends_with entry.1 "/" = false → fs.read_object_meta bucket entry.1 w = (.ok entry.2,w))

/-- The part of a walk shows these sidecars. -/
def Shows' (fs : FilesystemStorage) (bucket start : String) (w : World) (walk : Action (List ObjectMeta))
    (found : List (String × ObjectMeta)) : Prop :=
  walk w = (.ok (found.map Prod.snd),w) ∧ ∀ entry ∈ found, Shown fs bucket start w entry

section Entries
variable {fs : FilesystemStorage} {bucket start key : String} {w : World}

theorem listed_meta_shows : ∃ found, Shows' fs bucket start w (fs.listed_meta bucket start key) found ∧
    ∀ record, starts_with key start = true → fs.read_object_meta bucket key w = (.ok record,w) → (key,record) ∈ found := by
  unfold Shows' FilesystemStorage.listed_meta
  by_cases begins : starts_with key start = true
  · rw [if_pos begins]
    rcases read : fs.read_object_meta bucket key w with ⟨e | record,w'⟩
    · have same := (FilesystemStorage.read_object_meta_quiet bucket key).state read
      subst same
      refine ⟨[],⟨?_,by simp⟩,fun record _ other => ?_⟩
      · rw [Prog.bind_of_ok (attempt_ok_iff.mpr read)]
        rfl
      · cases other
    · have same := (FilesystemStorage.read_object_meta_quiet bucket key).state read
      subst same
      refine ⟨[(key,record)],⟨?_,?_⟩,fun record' _ other => ?_⟩
      · rw [Prog.bind_of_ok (attempt_ok_iff.mpr read)]
        rfl
      · intro entry member
        rw [List.mem_singleton.mp member]
        exact ⟨begins,fun _ => read⟩
      · cases other
        exact List.mem_singleton.mpr rfl
  · rw [if_neg begins]
    exact ⟨[],⟨rfl,by simp⟩,fun _ yes => absurd yes begins⟩

theorem listed_folder_shows (path : OsPath) (folder : ends_with key "/" = true) :
    ∃ found, Shows' fs bucket start w (FilesystemStorage.listed_folder path start key) found := by
  unfold Shows' FilesystemStorage.listed_folder
  by_cases begins : starts_with key start = true
  · rw [if_pos begins]
    rcases read : (io (Fs.read (join path ".folder.meta.json")) : Action Content) w with ⟨e | content,w'⟩
    · have same := (Quiet.io (Quiet.observe _)).state read
      subst same
      refine ⟨[],?_,by simp⟩
      rw [Prog.bind_of_ok (attempt_ok_iff.mpr read)]
      rfl
    · have same := (Quiet.io (Quiet.observe _)).state read
      subst same
      cases parsed : from_json asObject content with
      | error e =>
        refine ⟨[],?_,by simp⟩
        rw [Prog.bind_of_ok (attempt_ok_iff.mpr read)]
        dsimp only
        rw [parsed]
        rfl
      | ok record =>
        refine ⟨[(key,record)],?_,?_⟩
        · rw [Prog.bind_of_ok (attempt_ok_iff.mpr read)]
          dsimp only
          rw [parsed]
          rfl
        · intro entry member
          rw [List.mem_singleton.mp member]
          exact ⟨begins,fun file => by rw [folder] at file; cases file⟩
  · rw [if_neg begins]
    exact ⟨[],rfl,by simp⟩

theorem Shows'.append {first second : Action (List ObjectMeta)} {found found' : List (String × ObjectMeta)}
    (shows' : Shows' fs bucket start w first found) (more : Shows' fs bucket start w second found') :
    Shows' fs bucket start w (do
      let one ← first
      let other ← second
      pure (one ++ other)) (found ++ found') := by
  refine ⟨?_,fun entry member => ?_⟩
  · rw [Prog.bind_of_ok shows'.1,Prog.bind_of_ok more.1,List.map_append]
    rfl
  · exact (List.mem_append.mp member).elim (shows'.2 entry) (more.2 entry)

/-- A loop over entries shows what each of them shows. -/
theorem fold_shows {visit : String → Action (List ObjectMeta)} {names : List String} {Among : String → String × ObjectMeta → Prop}
    (each : ∀ n ∈ names, ∃ found, Shows' fs bucket start w (visit n) found ∧ ∀ entry, Among n entry → entry ∈ found) :
    ∃ found, Shows' fs bucket start w (Prog.fold (fun found n => do
      let more ← visit n
      pure (found ++ more)) [] names) found ∧ ∀ n ∈ names, ∀ entry, Among n entry → entry ∈ found := by
  have all : ∀ (rest : List String) (past : List (String × ObjectMeta)), (∀ n ∈ rest, n ∈ names) →
      (∀ entry ∈ past, Shown fs bucket start w entry) →
      ∃ found, Shows' fs bucket start w (Prog.fold (fun found n => do
        let more ← visit n
        pure (found ++ more)) (past.map Prod.snd) rest) found ∧ (∀ entry ∈ past, entry ∈ found) ∧
          ∀ n ∈ rest, ∀ entry, Among n entry → entry ∈ found := by
    intro rest
    induction rest with
    | nil => exact fun past _ shown => ⟨past,⟨rfl,shown⟩,fun _ => id,by simp⟩
    | cons n rest ih =>
      intro past listed shown
      obtain ⟨more,shows',complete⟩ := each n (listed n (by simp))
      obtain ⟨found,whole,before,later⟩ := ih (past ++ more) (fun n' member => listed n' (List.mem_cons_of_mem _ member))
        fun entry member => (List.mem_append.mp member).elim (shown entry) (shows'.2 entry)
      refine ⟨found,⟨?_,whole.2⟩,fun entry member => before entry (List.mem_append_left _ member),fun n' member entry among => ?_⟩
      · rw [Prog.fold,Prog.bind_assoc,Prog.bind_of_ok shows'.1,Prog.pure_bind,← List.map_append]
        exact whole.1
      · rcases List.mem_cons.mp member with rfl | member
        · exact before entry (List.mem_append_right _ (complete entry among))
        · exact later n' member entry among
  obtain ⟨found,shows',_,complete⟩ := all names [] (fun _ => id) (by simp)
  exact ⟨found,shows',complete⟩

end Entries

/-! ### The walk -/

theorem is_internal_name_reserved {n : String} (free : is_reserved_segment n = false) : is_internal_name n = false := by
  simp only [is_reserved_segment,Bool.or_eq_false_iff] at free
  simp [is_internal_name,free]

theorem ec_not_internal (n : String) : is_internal_name (n ++ ".ec") = false := by
  have other : ∀ tail, ".ec".toList.isSuffixOf (tail : String).toList = false → n ++ ".ec" ≠ tail :=
    fun tail unlike => append_ne_of_not_suffix unlike
  have meta' : ends_with (n ++ ".ec") ".meta.json" = false := by
    rw [ends_with,Bool.eq_false_iff,ne_eq,List.isSuffixOf_iff_suffix,String.toList_append]
    rintro ⟨front,same⟩
    have last := congrArg (fun t : List Char => t.reverse.head?) same
    simp at last
  simp only [is_internal_name,meta',Bool.false_or,Bool.or_eq_false_iff,decide_eq_false_iff_not]
  exact ⟨⟨⟨other _ (by decide),other _ (by decide)⟩,other _ (by decide)⟩,other _ (by decide)⟩

section Walk
variable {fs : FilesystemStorage} {bucket start : String} {w : World}

/-- A path below a bucket whose segments are names of entries. -/
def Relative (rel : OsPath) : Prop := ∀ s ∈ rel, isName s = true

theorem Relative.plain {rel : OsPath} (relative : Relative rel) : PlainDir rel := by
  intro s member
  have name := relative s member
  simp only [isName,Bool.and_eq_true,Bool.not_eq_true',decide_eq_true_eq] at name
  exact name.1

theorem Relative.concat {rel : OsPath} {n : String} (relative : Relative rel) (name : isName n = true) : Relative (rel ++ [n]) := by
  intro s member
  rcases List.mem_append.mp member with above | last
  · exact relative s above
  · rw [List.mem_singleton.mp last]
    exact name

variable (named : validate_bucket_name bucket = .ok ())
include named

/-- Below a bucket the spelling of a path is the path. -/
theorem below_bucket {rel : OsPath} (relative : Relative rel) :
    bucket_dir fs.buckets_dir bucket ++ rel = base fs.buckets_dir bucket ++ rel ∧
      Forward (base fs.buckets_dir bucket ++ rel) ∧ canon (base fs.buckets_dir bucket ++ rel) = base fs.buckets_dir bucket ++ rel := by
  have valid := validBucket_of_validate named
  have plain : PlainDir (base fs.buckets_dir bucket ++ rel) := (plain_base fs.plain valid).append relative.plain
  refine ⟨by rw [bucket_dir_eq valid],fun s member => (plain s member).2,canon_of_plain fun s member => (plain s member).1⟩

theorem is_dir_below {rel : OsPath} (relative : Relative rel) :
    (io (Fs.is_dir (bucket_dir fs.buckets_dir bucket ++ rel)) : Action Bool) w =
      (.ok (decide (w.tree.node (base fs.buckets_dir bucket ++ rel) = some .dir)),w) := by
  obtain ⟨spelled,forward,same⟩ := @below_bucket fs bucket named rel relative
  have looked : Fs.isDirAt w.tree (base fs.buckets_dir bucket ++ rel) =
      decide (w.tree.node (base fs.buckets_dir bucket ++ rel) = some .dir) := by
    unfold Fs.isDirAt
    rw [Fs.stat,locate_forward w.tree forward,same]
    simp only [bind,Except.bind,Tree.stat]
    rcases w.tree.node (base fs.buckets_dir bucket ++ rel) with _ | c | _
    · rfl
    · by_cases dots : dotted (base fs.buckets_dir bucket ++ rel) = true <;> simp [dots]
    · rfl
  rw [spelled]
  exact io_ok_iff.mpr (Fs.observe_ok_iff.mpr ⟨congrArg Except.ok looked,rfl⟩)

theorem read_dir_below {rel : OsPath} (relative : Relative rel) (dir : w.tree.node (base fs.buckets_dir bucket ++ rel) = some .dir) :
    Fs.read_dir (bucket_dir fs.buckets_dir bucket ++ rel) w =
      (.ok ((w.tree.children (base fs.buckets_dir bucket ++ rel)).filter isName),w) := by
  obtain ⟨spelled,forward,same⟩ := @below_bucket fs bucket named rel relative
  rw [spelled]
  refine Fs.observe_ok_iff.mpr ⟨?_,rfl⟩
  rw [Fs.namesAt_forward forward,same,dir]

omit named in
/-- A stored object that a listing is asked for. -/
structure Asked (fs : FilesystemStorage) (bucket start : String) (w : World) (entry : String × ObjectMeta) : Prop where
  accepted : Accepted bucket entry.1
  spelled : SpelledOut entry.1
  begins : starts_with entry.1 start = true
  read : fs.read_object_meta bucket entry.1 w = (.ok entry.2,w)
  lies : (∃ c, w.tree.node (objectAt fs bucket entry.1) = some (.file c)) ∨ w.tree.node (ecAt fs bucket entry.1) = some .dir

/-- It lies so many segments below a directory. -/
def Below (fs : FilesystemStorage) (bucket start : String) (w : World) (depth : Nat) (rel : OsPath) (entry : String × ObjectMeta) :
    Prop :=
  Asked fs bucket start w entry ∧ ∃ rest, rest ≠ [] ∧ rest.length ≤ depth ∧ names entry.1 = rel ++ rest

/-- What a walk is to find of an entry of a directory. -/
inductive Among (fs : FilesystemStorage) (bucket start : String) (w : World) (depth : Nat) (rel : OsPath) (n : String)
    (entry : String × ObjectMeta) : Prop where
  | file (asked : Asked fs bucket start w entry) (last : names entry.1 = rel ++ [n])
      (file : ∃ c, w.tree.node (base fs.buckets_dir bucket ++ (rel ++ [n])) = some (.file c))
  | chunks (asked : Asked fs bucket start w entry) (last : names entry.1 = rel ++ [leaf entry.1]) (same : n = leaf entry.1 ++ ".ec")
      (dir : w.tree.node (base fs.buckets_dir bucket ++ (rel ++ [n])) = some .dir)
  | inner (below : Below fs bucket start w depth (rel ++ [n]) entry) (free : is_reserved_segment n = false)
      (dir : w.tree.node (base fs.buckets_dir bucket ++ (rel ++ [n])) = some .dir)

omit named in
theorem Among.not_internal {depth : Nat} {rel : OsPath} {n : String} {entry : String × ObjectMeta}
    (among : Among fs bucket start w depth rel n entry) : is_internal_name n = false := by
  cases among with
  | file asked last _ =>
    refine is_internal_name_reserved (asked.accepted.validKey.unreserved n ?_ (asked.spelled.kept ?_)) <;>
    · rw [← show names entry.1 = split entry.1 '/' from asked.spelled,last]
      simp
  | chunks asked last same _ =>
    rw [same]
    exact ec_not_internal _
  | inner _ free _ => exact is_internal_name_reserved free

/-- Visiting an entry shows what lies there. -/
theorem walk_entry_shows {walk : OsPath → Action (List ObjectMeta)} {depth : Nat} {rel : OsPath} (relative : Relative rel) {n : String}
    (name : isName n = true)
    (inner : w.tree.node (base fs.buckets_dir bucket ++ (rel ++ [n])) = some .dir →
      ∃ found, Shows' fs bucket start w (walk (rel ++ [n])) found ∧
        ∀ entry, Below fs bucket start w depth (rel ++ [n]) entry → entry ∈ found) :
    ∃ found, Shows' fs bucket start w (fs.walk_entry walk bucket start rel n) found ∧
      ∀ entry, Among fs bucket start w depth rel n entry → entry ∈ found := by
  unfold FilesystemStorage.walk_entry
  by_cases internal : is_internal_name n = true
  · rw [if_pos internal]
    refine ⟨[],⟨rfl,by simp⟩,fun entry among => ?_⟩
    rw [among.not_internal] at internal
    cases internal
  rw [if_neg internal]
  have looked := @is_dir_below fs bucket w named (rel ++ [n]) (relative.concat name)
  dsimp only
  by_cases dir : w.tree.node (base fs.buckets_dir bucket ++ (rel ++ [n])) = some .dir
  · rw [decide_eq_true dir] at looked
    by_cases chunks : ends_with n ".ec" = true
    · obtain ⟨found,shows',complete⟩ := @listed_meta_shows fs bucket start (strip_ec (rel_key (rel ++ [n]))) w
      refine ⟨found,⟨?_,shows'.2⟩,fun entry among => ?_⟩
      · rw [Prog.bind_of_ok looked,chunks]
        exact shows'.1
      · cases among with
        | file asked last file =>
          obtain ⟨c,file⟩ := file
          rw [dir] at file
          cases file
        | chunks asked last same _ =>
          have stem_rel : stem entry.1 = rel := by
            rw [asked.spelled.names_snoc] at last
            exact (List.append_inj' last rfl).1
          have key := asked.spelled.rel_keys.2
          rw [stem_rel,← same] at key
          rw [key] at complete
          exact complete entry.2 asked.begins asked.read
        | inner below free _ =>
          simp only [is_reserved_segment,Bool.or_eq_false_iff] at free
          rw [free.1.1.1.1.1.2] at chunks
          cases chunks
    · obtain ⟨marker,shown⟩ := @listed_folder_shows fs bucket start (rel_key (rel ++ [n]) ++ "/") w
        (bucket_dir fs.buckets_dir bucket ++ (rel ++ [n])) (by
          rw [ends_with,List.isSuffixOf_iff_suffix,String.toList_append]
          exact List.suffix_append _ _)
      obtain ⟨found,shows',complete⟩ := inner dir
      refine ⟨marker ++ found,⟨?_,(shown.append shows').2⟩,fun entry among => ?_⟩
      · rw [Prog.bind_of_ok looked,Bool.eq_false_iff.mpr chunks]
        exact (shown.append shows').1
      · cases among with
        | file asked last file =>
          obtain ⟨c,file⟩ := file
          rw [dir] at file
          cases file
        | chunks asked last same _ =>
          have suffix : ends_with n ".ec" = true := by
            rw [same,ends_with,List.isSuffixOf_iff_suffix,String.toList_append]
            exact List.suffix_append _ _
          exact absurd suffix chunks
        | inner below _ _ => exact List.mem_append_right _ (complete entry below)
  · rw [decide_eq_false dir] at looked
    obtain ⟨found,shows',complete⟩ := @listed_meta_shows fs bucket start (rel_key (rel ++ [n])) w
    refine ⟨found,⟨?_,shows'.2⟩,fun entry among => ?_⟩
    · rw [Prog.bind_of_ok looked,Bool.and_false]
      exact shows'.1
    · cases among with
      | file asked last file =>
        have key := asked.spelled.rel_keys.1
        rw [← asked.spelled.names_snoc,last] at key
        rw [key] at complete
        exact complete entry.2 asked.begins asked.read
      | chunks asked last same there => exact absurd there dir
      | inner below free there => exact absurd there dir

omit named in
theorem Asked.segment {entry : String × ObjectMeta} (asked : Asked fs bucket start w entry) {n : String}
    (member : n ∈ names entry.1) : isName n = true ∧ is_reserved_segment n = false := by
  rw [show names entry.1 = split entry.1 '/' from asked.spelled] at member
  have kept := asked.spelled.kept member
  refine ⟨?_,asked.accepted.validKey.unreserved n member kept⟩
  simp [isName,kept,asked.accepted.validKey.ahead n member,not_mem_of_mem_split member]

omit named in
/-- The places of an object that is asked for. -/
theorem Asked.places {entry : String × ObjectMeta} (asked : Asked fs bucket start w entry) :
    objectAt fs bucket entry.1 = base fs.buckets_dir bucket ++ (stem entry.1 ++ [leaf entry.1]) ∧
      ecAt fs bucket entry.1 = base fs.buckets_dir bucket ++ (stem entry.1 ++ [leaf entry.1 ++ ".ec"]) ∧
      ∃ q, home fs bucket entry.1 <+: q ∧ home fs bucket entry.1 ≠ q ∧ w.tree.node q ≠ none := by
  have file : ¬ ends_with entry.1 "/" = true := by
    intro folder
    have empty := (ends_with_slash asked.accepted.validKey.nonempty).mp folder
    have kept := asked.spelled.leaf_kept
    rw [empty] at kept
    cases kept
  have object : objectAt fs bucket entry.1 = base fs.buckets_dir bucket ++ (stem entry.1 ++ [leaf entry.1]) := by
    rw [objectAt,home,objectName,if_neg file,List.append_assoc]
  have chunks : ecAt fs bucket entry.1 = base fs.buckets_dir bucket ++ (stem entry.1 ++ [leaf entry.1 ++ ".ec"]) := by
    rw [ecAt,home,ecName,List.append_assoc]
  refine ⟨object,chunks,?_⟩
  rcases asked.lies with ⟨c,there⟩ | there
  · exact ⟨objectAt fs bucket entry.1,List.prefix_append _ _,by simp [objectAt],by simp [there]⟩
  · exact ⟨ecAt fs bucket entry.1,List.prefix_append _ _,by simp [ecAt],by simp [there]⟩

omit named in
/-- An object below a directory lies in one of its entries, or below one. -/
theorem Below.among {depth : Nat} {rel : OsPath} {entry : String × ObjectMeta}
    (below : Below fs bucket start w (depth + 1) rel entry) :
    ∃ n, isName n = true ∧ w.tree.node (base fs.buckets_dir bucket ++ rel ++ [n]) ≠ none ∧
      Among fs bucket start w depth rel n entry := by
  obtain ⟨asked,rest,nonempty,short,path⟩ := below
  obtain ⟨object,chunks,q,above,proper,present⟩ := asked.places
  rcases rest with _ | ⟨n,rest⟩
  · exact absurd rfl nonempty
  have member : n ∈ names entry.1 := by simp [path]
  obtain ⟨name,free⟩ := asked.segment member
  rcases List.eq_nil_or_concat rest with rfl | ⟨front,last,spelled⟩
  · have same : stem entry.1 ++ [leaf entry.1] = rel ++ [n] := by rw [← asked.spelled.names_snoc,path]
    obtain ⟨stems,leaves⟩ := List.append_inj' same rfl
    rcases asked.lies with ⟨c,there⟩ | there
    · rw [object,same] at there
      exact ⟨n,name,by rw [List.append_assoc,there]; simp,.file asked path ⟨c,there⟩⟩
    · rw [chunks,stems] at there
      refine ⟨leaf entry.1 ++ ".ec",?_,by rw [List.append_assoc,there]; simp,.chunks asked ?_ rfl there⟩
      · have slash : '/' ∉ (leaf entry.1).toList := not_mem_of_mem_split (leaf_mem_split entry.1)
        have letters : '/' ∉ ".ec".toList := by decide
        simp [isName,skipped_append (s := leaf entry.1) (show 2 ≤ ".ec".length by decide),
          append_ne_dots (s := leaf entry.1) (show 3 ≤ ".ec".length by decide),String.toList_append,slash]
      · rw [path,leaves]
  · rw [List.concat_eq_append] at spelled
    have inside : rel ++ [n] <+: stem entry.1 := by
      have whole : stem entry.1 ++ [leaf entry.1] = (rel ++ n :: front) ++ [last] := by
        rw [← asked.spelled.names_snoc,path,spelled]
        simp
      rw [(List.append_inj' whole rfl).1]
      exact ⟨front,by simp⟩
    have dir : w.tree.node (base fs.buckets_dir bucket ++ (rel ++ [n])) = some .dir := by
      have within : base fs.buckets_dir bucket ++ (rel ++ [n]) <+: home fs bucket entry.1 := by
        rw [home,List.prefix_append_right_inj]
        exact inside
      refine w.tree.dir_of_prefix (within.trans above) (fun same => proper ?_) present
      exact List.IsPrefix.eq_of_length above (Nat.le_antisymm above.length_le (same ▸ within.length_le))
    refine ⟨n,name,by rw [List.append_assoc,dir]; simp,.inner ⟨asked,rest,by simp [spelled],?_,by simp [path]⟩ free dir⟩
    simpa using short

/-- A walk shows sidecars of keys that begin as asked, and all objects that are so far below. -/
theorem walk_dir_shows (depth : Nat) (rel : OsPath) (relative : Relative rel)
    (dir : w.tree.node (base fs.buckets_dir bucket ++ rel) = some .dir) :
    ∃ found, Shows' fs bucket start w (fs.walk_dir bucket start depth rel) found ∧
      ∀ entry, Below fs bucket start w depth rel entry → entry ∈ found := by
  induction depth generalizing rel with
  | zero =>
    refine ⟨[],⟨rfl,by simp⟩,fun entry below => ?_⟩
    obtain ⟨_,rest,nonempty,short,_⟩ := below
    exact absurd (List.length_eq_zero_iff.mp (Nat.le_zero.mp short)) nonempty
  | succ depth ih =>
    have listed := @read_dir_below fs bucket w named rel relative dir
    have visits : ∀ n ∈ (w.tree.children (base fs.buckets_dir bucket ++ rel)).filter isName,
        ∃ found, Shows' fs bucket start w (fs.walk_entry (fs.walk_dir bucket start depth) bucket start rel n) found ∧
          ∀ entry, Among fs bucket start w depth rel n entry → entry ∈ found := by
      intro n member
      have name := (List.mem_filter.mp member).2
      exact walk_entry_shows named relative name fun there => ih (rel ++ [n]) (relative.concat name) there
    obtain ⟨found,shows',complete⟩ := fold_shows visits
    refine ⟨found,⟨?_,shows'.2⟩,fun entry below => ?_⟩
    · unfold FilesystemStorage.walk_dir
      rw [Prog.bind_of_ok (attempt_ok_iff.mpr listed)]
      exact shows'.1
    · obtain ⟨n,name,present,among⟩ := below.among
      exact complete n (List.mem_filter.mpr ⟨(w.tree.mem_children _ n).mpr present,name⟩) entry among

omit named in
theorem length_le_tree_depth {q : OsPath} (present : w.tree.node q ≠ none) : q.length ≤ FilesystemStorage.tree_depth w.tree := by
  have bound : ∀ (lengths : List Nat) (acc : Nat), acc ≤ lengths.foldl max acc ∧ ∀ n ∈ lengths, n ≤ lengths.foldl max acc := by
    intro lengths
    induction lengths with
    | nil => simp
    | cons first rest ih =>
      intro acc
      obtain ⟨start,all⟩ := ih (max acc first)
      refine ⟨by rw [List.foldl_cons]; omega,fun n member => ?_⟩
      rw [List.foldl_cons]
      rcases List.mem_cons.mp member with rfl | member
      · omega
      · exact all n member
  exact (bound _ 0).2 _ (List.mem_map_of_mem (w.tree.listed q present))

/-- A listing shows sidecars of keys that begin as asked, and all stored objects among them. -/
theorem list_objects_walk_shows (start : String) (dir : w.tree.node (base fs.buckets_dir bucket) = some .dir) :
    ∃ found : List (String × ObjectMeta),
      fs.list_objects_walk bucket start w = (.ok ((found.map Prod.snd).insertionSort FilesystemStorage.keyLe),w) ∧
      (∀ entry ∈ found, Shown fs bucket start w entry) ∧ ∀ entry, Asked fs bucket start w entry → entry ∈ found := by
  obtain ⟨found,⟨walked,shown⟩,complete⟩ := @walk_dir_shows fs bucket start w named
    (FilesystemStorage.tree_depth w.tree + 1) [] (by simp [Relative]) (by simpa using dir)
  refine ⟨found,?_,shown,fun entry asked => complete entry ⟨asked,names entry.1,?_,?_,rfl⟩⟩
  · unfold FilesystemStorage.list_objects_walk
    rw [named,Prog.lift_ok_bind,Prog.ask_bind_apply,Prog.bind_of_ok walked]
    rfl
  · rw [asked.spelled.names_snoc]
    simp
  · obtain ⟨_,_,q,above,proper,present⟩ := asked.places
    have deep := @length_le_tree_depth w q present
    have long := above.length_le
    rw [home,base] at long
    rw [asked.spelled.names_snoc]
    simp at long ⊢
    omega

end Walk

/-! ### The listing of a map -/

section Runs
variable {P : Primitives} {fs : FilesystemStorage} {from_str : String → Except String Json} {bucket key start : String}
  {keys : Set String} {coding : Bool} {m m' : ObjectMap} {entry : StoredObject} {record : ObjectMeta} {w w' : World}

/-- What a listing is to say of an entry of the map. -/
def Describes (fs : FilesystemStorage) (bucket key : String) (w : World) (record : ObjectMeta) (entry : StoredObject) : Prop :=
  Shows fs bucket key record w ∧ record.key = key ∧ FilesystemStorage.put_result record = entry.result ∧
    record.size = entry.body.length

/-- What is listed under a key: its one sidecar, or nothing. -/
def ListedAs (fs : FilesystemStorage) (bucket key : String) (w : World) (found : List (String × ObjectMeta)) :
    Option StoredObject → Prop
  | none => ∀ record, (key,record) ∉ found
  | some entry => ∃ record, Describes fs bucket key w record entry ∧ ∀ other, (key,other) ∈ found ↔ other = record

theorem Backs.asked (accepted : Accepted bucket key) (spelled : SpelledOut key) (begins : starts_with key start = true)
    (backs : Backs P fs bucket key coding (some entry) w) :
    ∃ record, Asked fs bucket start w (key,record) ∧ Describes fs bucket key w record entry := by
  obtain ⟨record,cipher,written,told,_⟩ := backs.present entry rfl
  refine ⟨record,⟨accepted,spelled,begins,read_object_meta_ok accepted written.landed.shows',?_⟩,written.landed.shows',
    written.named,told,written.landed.described.size⟩
  rcases written.landed with ⟨_,_,lies⟩
  cases lies with
  | flat content named file payload => exact .inl ⟨_,file⟩
  | chunked data manifest holds payload =>
    exact .inr (w.tree.dir_of_prefix (List.prefix_append _ [_]) (by simp) (by rw [holds.file]; simp))

end Runs

end Maxio
