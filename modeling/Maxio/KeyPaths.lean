import Maxio.Fs

/-!
The places of a key, as lists of names. For a key that passed validation no path of the layout goes through `..`,
so each leads to the names that are left when `.` and empty segments are dropped.
-/

namespace Maxio
open FileTree (Tree ErrorKind)
set_option linter.unusedSimpArgs false

/-- The names a path without `..` leads through. -/
def canon (p : OsPath) : OsPath := p.filter fun s => !skipped s

/-- No segment is `..`. -/
def Forward (p : OsPath) : Prop := ∀ s ∈ p, s ≠ ".."

@[simp] theorem canon_append (p q : OsPath) : canon (p ++ q) = canon p ++ canon q := by simp [canon]

@[simp] theorem canon_nil : canon [] = [] := rfl

theorem canon_singleton {s : String} (kept : skipped s = false) : canon [s] = [s] := by simp [canon,kept]

theorem canon_of_plain {p : OsPath} (plain : ∀ s ∈ p, skipped s = false) : canon p = p :=
  List.filter_eq_self.mpr fun s member => by simp [plain s member]

theorem kept_of_mem_canon {p : OsPath} {s : String} (member : s ∈ canon p) : skipped s = false := by
  simpa using (List.mem_filter.mp member).2

theorem Forward.append {p q : OsPath} (left : Forward p) (right : Forward q) : Forward (p ++ q) := by
  intro s member
  exact (List.mem_append.mp member).elim (left s) (right s)

private theorem locateFrom_forward (t : Disk) (here p : OsPath) (forward : Forward p) :
    locateFrom t here p = .ok (here ++ canon p) := by
  induction p generalizing here with
  | nil => simp [locateFrom]
  | cons s rest ih =>
    have tail : Forward rest := fun s member => forward s (List.mem_cons_of_mem _ member)
    rw [locateFrom]
    by_cases drop : skipped s = true
    · simp [drop,ih _ tail,canon]
    · simp [drop,forward s (by simp),ih _ tail,canon]

theorem locate_forward (t : Disk) {p : OsPath} (forward : Forward p) : locate t p = .ok (canon p) := by
  rw [locate,locateFrom_forward t [] p forward,List.nil_append]

/-- A path to an entry of a directory, spelled without `..`. -/
structure Entry (p : OsPath) : Prop where
  forward : Forward p
  named : dotted p = false

theorem Entry.last {p : OsPath} (entry : Entry p) :
    ∃ dir name, canon p = dir ++ [name] ∧ p.getLast? = some name ∧ skipped name = false := by
  have named := entry.named
  unfold dotted at named
  split at named
  next name last =>
    simp only [Bool.or_eq_false_iff] at named
    have spelled : p = p.dropLast ++ [name] := FileTree.Tree.dropLast_getLast last
    refine ⟨canon p.dropLast,name,?_,last,named.1⟩
    conv_lhs => rw [spelled,canon_append,canon_singleton named.1]
  next => cases named

theorem entry_concat {p : OsPath} {s : String} (forward : Forward p) (kept : skipped s = false)
    (ahead : s ≠ "..") : Entry (p ++ [s]) where
  forward := forward.append (by simpa [Forward] using ahead)
  named := by simp [dotted,kept,ahead]

theorem canon_concat {p : OsPath} {s : String} (kept : skipped s = false) : canon (p ++ [s]) = canon p ++ [s] := by
  rw [canon_append,canon_singleton kept]

theorem parent_dir_concat {p : OsPath} {s : String} (kept : skipped s = false) :
    parent_dir (p ++ [s]) = canon p := by
  have spelled : parent_dir (p ++ [s]) = (canon (p ++ [s])).dropLast := rfl
  rw [spelled,canon_concat kept,List.dropLast_concat]

@[simp] theorem canon_canon (p : OsPath) : canon (canon p) = canon p :=
  canon_of_plain fun _ member => kept_of_mem_canon member

theorem Forward.canon {p : OsPath} (forward : Forward p) : Forward (canon p) :=
  fun s member => forward s (List.mem_filter.mp member).1

/-! ### Splitting -/

theorem splitChars_ne_nil (sep : Char) (cs : List Char) : splitChars sep cs ≠ [] := by
  cases cs with
  | nil => simp [splitChars]
  | cons c rest =>
    rw [splitChars]
    split
    · simp
    · split <;> simp

theorem splitChars_no_sep (sep : Char) (cs : List Char) : ∀ piece ∈ splitChars sep cs, sep ∉ piece := by
  induction cs with
  | nil => simp [splitChars]
  | cons c rest ih =>
    rw [splitChars]
    by_cases same : c = sep
    · simpa [same] using ih
    · rcases pieces : splitChars sep rest with _ | ⟨first,more⟩
      · exact absurd pieces (splitChars_ne_nil sep rest)
      · rw [pieces] at ih
        simp only [same,if_false,List.forall_mem_cons] at ih ⊢
        exact ⟨by simp [Ne.symm same,ih.1],ih.2⟩

/-- Text without separators lengthens the last piece. -/
theorem splitChars_append (sep : Char) (cs tail : List Char) (absent : sep ∉ tail) :
    splitChars sep (cs ++ tail) =
      (splitChars sep cs).dropLast ++ [(splitChars sep cs).getLast (splitChars_ne_nil sep cs) ++ tail] := by
  induction cs with
  | nil =>
    induction tail with
    | nil => simp [splitChars]
    | cons c rest ih =>
      simp only [List.mem_cons,not_or] at absent
      have first := ih absent.2
      simp only [List.nil_append] at first
      simp [splitChars,Ne.symm absent.1,first]
  | cons c rest ih =>
    rw [List.cons_append,splitChars]
    by_cases same : c = sep
    · subst same
      simp only [splitChars,if_true,ih]
      rw [List.dropLast_cons_of_ne_nil (splitChars_ne_nil c rest),
        List.getLast_cons (splitChars_ne_nil c rest),List.cons_append]
    · rcases pieces : splitChars sep rest with _ | ⟨first,more⟩
      · exact absurd pieces (splitChars_ne_nil sep rest)
      · have whole : splitChars sep (c :: rest) = (c :: first) :: more := by simp [splitChars,same,pieces]
        simp only [pieces] at ih
        rw [if_neg same,ih]
        simp only [whole]
        cases more with
        | nil => simp
        | cons next more => simp [List.dropLast,List.getLast_cons]

theorem splitChars_of_not_mem (sep : Char) (cs : List Char) (absent : sep ∉ cs) : splitChars sep cs = [cs] := by
  simpa [splitChars] using splitChars_append sep [] cs absent

theorem splitChars_concat_sep (sep : Char) (cs : List Char) :
    splitChars sep (cs ++ [sep]) = splitChars sep cs ++ [[]] := by
  induction cs with
  | nil => simp [splitChars]
  | cons c rest ih =>
    rw [List.cons_append,splitChars,splitChars,ih]
    by_cases same : c = sep
    · simp [same]
    · rcases pieces : splitChars sep rest with _ | ⟨first,more⟩
      · exact absurd pieces (splitChars_ne_nil sep rest)
      · simp [same]

/-- The segments of a key, the last one apart. -/
def stemSegments (key : String) : OsPath := (split key '/').dropLast

/-- The last segment of a key; empty for a key that ends in a slash. -/
def leaf (key : String) : String := String.ofList ((splitChars '/' key.toList).getLast (splitChars_ne_nil _ _))

theorem split_eq (key : String) : split key '/' = stemSegments key ++ [leaf key] := by
  have pieces := List.dropLast_append_getLast (splitChars_ne_nil '/' key.toList)
  simp only [split,stemSegments,leaf]
  conv_lhs => rw [← pieces]
  simp [List.map_dropLast]

theorem split_append (key tail : String) (absent : '/' ∉ tail.toList) :
    split (key ++ tail) '/' = stemSegments key ++ [leaf key ++ tail] := by
  simp only [split,String.toList_append,splitChars_append '/' _ _ absent,stemSegments,leaf,List.map_append,
    List.map_dropLast,List.map_cons,List.map_nil,String.ofList_append,String.ofList_toList]

theorem split_of_not_mem (s : String) (absent : '/' ∉ s.toList) : split s '/' = [s] := by
  simp [split,splitChars_of_not_mem '/' _ absent]

theorem not_mem_of_mem_split {s key : String} (member : s ∈ split key '/') : '/' ∉ s.toList := by
  obtain ⟨piece,inside,rfl⟩ := List.mem_map.mp member
  simpa using splitChars_no_sep '/' _ piece inside

theorem join_relative {p : OsPath} {s : String} (relative : starts_with s "/" = false) :
    join p s = p ++ split s '/' := by
  simp [join,relative]

theorem starts_with_slash {s : String} : starts_with s "/" = true ↔ s.toList.head? = some '/' := by
  have slash : "/".toList = ['/'] := by decide
  rw [starts_with,slash,List.isPrefixOf_iff_prefix]
  cases s.toList with
  | nil => simp
  | cons c rest =>
    rw [List.cons_prefix_cons,List.head?_cons,Option.some_inj]
    exact ⟨fun both => both.1.symm,fun same => ⟨same.symm,List.nil_prefix⟩⟩

theorem join_name {p : OsPath} {s : String} (absent : '/' ∉ s.toList) : join p s = p ++ [s] := by
  have relative : starts_with s "/" = false := by
    rw [Bool.eq_false_iff,ne_eq,starts_with_slash]
    intro first
    exact absent (List.mem_of_mem_head? first)
  rw [join_relative relative,split_of_not_mem s absent]

/-! ### Keys that passed validation -/

structure ValidKey (key : String) : Prop where
  nonempty : key ≠ ""
  relative : starts_with key "/" = false
  ahead : Forward (split key '/')
  unreserved : ∀ s ∈ split key '/', skipped s = false → is_reserved_segment s = false

private theorem validate_components_ok {comps : List Component} (accepted : validate_components comps = .ok ()) :
    ∀ c ∈ comps, c ≠ .ParentDir ∧ c ≠ .RootDir ∧ ∀ s, c = .Normal s → is_reserved_segment s = false := by
  induction comps with
  | nil => simp
  | cons c rest ih =>
    cases c with
    | RootDir => simp [validate_components] at accepted
    | ParentDir => simp [validate_components] at accepted
    | CurDir => simpa using ih accepted
    | Normal s =>
      simp only [validate_components] at accepted
      split at accepted
      next => cases accepted
      next free =>
        simp only [List.forall_mem_cons]
        exact ⟨by simpa using free,ih accepted⟩

theorem valid_of_validate {key : String} (accepted : validate_key key = .ok ()) : ValidKey key := by
  unfold validate_key at accepted
  split at accepted
  next => cases accepted
  next nonempty =>
    split at accepted
    next => cases accepted
    next =>
      have good := validate_components_ok accepted
      have relative : starts_with key "/" = false := by
        by_contra absolute
        rw [Bool.not_eq_false] at absolute
        exact (good .RootDir (by simp [components,absolute])).2.1 rfl
      have inside : ∀ s ∈ split key '/', skipped s = false → componentOf s ∈ components key := by
        intro s member kept
        have body : componentOf s ∈ ((split key '/').filter fun s => !skipped s).map componentOf :=
          List.mem_map.mpr ⟨s,List.mem_filter.mpr ⟨member,by simp [kept]⟩,rfl⟩
        simp only [components,relative,Bool.false_eq_true,if_false]
        split
        · exact List.mem_cons_of_mem _ body
        · exact body
      have ahead : Forward (split key '/') := by
        intro s member up
        have kept : skipped s = false := by simp [up,skipped]
        exact (good _ (inside s member kept)).1 (by simp [componentOf,up])
      refine ⟨nonempty,relative,ahead,fun s member kept => ?_⟩
      exact (good _ (inside s member kept)).2.2 s (by simp [componentOf,ahead s member])

/-- The directory names above the last segment of a key. -/
def stem (key : String) : OsPath := canon (stemSegments key)

/-- All names of a key. -/
def names (key : String) : OsPath := canon (split key '/')

theorem names_eq (key : String) : names key = stem key ++ canon [leaf key] := by
  rw [names,split_eq,canon_append,stem]

example : names "photos/./vacation.jpg" = ["photos","vacation.jpg"] := by decide +kernel

theorem ends_with_slash {key : String} (nonempty : key ≠ "") : ends_with key "/" = true ↔ leaf key = "" := by
  have slash : "/".toList = ['/'] := by decide
  rw [ends_with,slash,List.isSuffixOf_iff_suffix,leaf]
  rcases List.eq_nil_or_concat key.toList with empty | ⟨front,last,spelled⟩
  · exact absurd (String.toList_inj.mp (by simpa using empty)) nonempty
  · simp only [spelled,List.concat_eq_append]
    by_cases same : last = '/'
    · subst same
      simp [splitChars_concat_sep]
    · have absent : '/' ∉ [last] := by simpa using Ne.symm same
      constructor
      · rintro ⟨before,whole⟩
        exact absurd (List.singleton_inj.mp (List.append_inj' whole rfl).2).symm same
      · intro empty
        simp only [splitChars_append '/' front [last] absent,List.getLast_append_singleton] at empty
        simpa using congrArg String.toList empty

private theorem canon_split_replicate (cs : List Char) (n : Nat) :
    canon ((splitChars '/' (cs ++ List.replicate n '/')).map String.ofList) =
      canon ((splitChars '/' cs).map String.ofList) := by
  induction n with
  | zero => simp
  | succ n ih =>
    rw [List.replicate_succ',← List.append_assoc,splitChars_concat_sep,List.map_append,canon_append,ih]
    simp [canon,skipped]

theorem trim_end_slashes_spelled (key : String) :
    ∃ n, key.toList = (trim_end_slashes key).toList ++ List.replicate n '/' := by
  have parts := List.takeWhile_append_dropWhile (p := (· = '/')) (l := key.toList.reverse)
  refine ⟨(key.toList.reverse.takeWhile (· = '/')).length,?_⟩
  have slashes : key.toList.reverse.takeWhile (· = '/') =
      List.replicate (key.toList.reverse.takeWhile (· = '/')).length '/' := by
    apply List.eq_replicate_of_mem
    intro c member
    simpa using List.mem_takeWhile_imp member
  rw [trim_end_slashes,String.toList_ofList]
  conv_lhs => rw [← List.reverse_reverse key.toList,← parts,List.reverse_append]
  congr 1
  conv_lhs => rw [slashes]
  rw [List.reverse_replicate]

theorem canon_split_trim (key : String) : canon (split (trim_end_slashes key) '/') = names key := by
  obtain ⟨n,spelled⟩ := trim_end_slashes_spelled key
  rw [names,split,split,spelled,canon_split_replicate]

/-! ### The places of a key -/

/-- Whether a name is one of those the storage keeps for itself, by its ending. -/
theorem skipped_append {s tail : String} (long : 2 ≤ tail.length) : skipped (s ++ tail) = false := by
  have size : 2 ≤ (s ++ tail).length := by rw [String.length_append]; omega
  simp only [skipped,Bool.or_eq_false_iff,decide_eq_false_iff_not]
  constructor
  · intro empty
    rw [empty] at size
    exact absurd size (by decide)
  · intro dot
    rw [dot] at size
    exact absurd size (by decide)

theorem append_ne_dots {s tail : String} (long : 3 ≤ tail.length) : s ++ tail ≠ ".." := by
  intro same
  have size : 3 ≤ (s ++ tail).length := by rw [String.length_append]; omega
  rw [same] at size
  exact absurd size (by decide)

structure ValidBucket (bucket : String) : Prop where
  kept : skipped bucket = false
  ahead : bucket ≠ ".."
  slash : '/' ∉ bucket.toList
  start : bucket.toList.head? ≠ some '.'

theorem validBucket_of_validate {bucket : String} (accepted : validate_bucket_name bucket = .ok ()) :
    ValidBucket bucket := by
  have valid : is_valid_bucket_name bucket = true := by
    unfold validate_bucket_name at accepted
    split at accepted
    · assumption
    · cases accepted
  simp only [is_valid_bucket_name,Bool.and_eq_true,decide_eq_true_eq] at valid
  obtain ⟨⟨⟨⟨⟨⟨long,_⟩,letters⟩,first⟩,_⟩,_⟩,_⟩ := valid
  have size : bucket ≠ "" ∧ bucket ≠ "." ∧ bucket ≠ ".." := by
    refine ⟨?_,?_,?_⟩ <;> rintro rfl <;> exact absurd long (by decide)
  refine ⟨by simp [skipped,size],size.2.2,fun slash => ?_,fun dot => ?_⟩
  · have impossible := List.all_eq_true.mp letters _ slash
    exact absurd impossible (by decide)
  · rw [dot] at first
    exact absurd first (by decide)

/-- Where the buckets are: an ordinary absolute path. -/
def PlainDir (dir : OsPath) : Prop := ∀ s ∈ dir, skipped s = false ∧ s ≠ ".."

/-- The directory of a bucket. -/
def base (buckets_dir : OsPath) (bucket : String) : OsPath := buckets_dir ++ [bucket]

/-- Names of the three places of a key in its directory. -/
def objectName (key : String) : String := if ends_with key "/" then ".folder" else leaf key
def metaName (key : String) : String := if ends_with key "/" then ".folder.meta.json" else leaf key ++ ".meta.json"
def ecName (key : String) : String := leaf key ++ ".ec"

section Places
variable {buckets_dir : OsPath} {bucket key : String}

theorem bucket_dir_eq (valid : ValidBucket bucket) : bucket_dir buckets_dir bucket = base buckets_dir bucket := by
  rw [bucket_dir,join_name valid.slash,base]

theorem canon_base (plain : PlainDir buckets_dir) (valid : ValidBucket bucket) :
    canon (base buckets_dir bucket) = base buckets_dir bucket := by
  apply canon_of_plain
  intro s member
  rcases List.mem_append.mp member with above | last
  · exact (plain s above).1
  · rw [List.mem_singleton.mp last]; exact valid.kept

theorem forward_base (plain : PlainDir buckets_dir) (valid : ValidBucket bucket) :
    Forward (base buckets_dir bucket) := by
  intro s member
  rcases List.mem_append.mp member with above | last
  · exact (plain s above).2
  · rw [List.mem_singleton.mp last]; exact valid.ahead

theorem bucket_meta_path_eq (valid : ValidBucket bucket) :
    bucket_meta_path buckets_dir bucket = base buckets_dir bucket ++ [".bucket.json"] := by
  rw [bucket_meta_path,bucket_dir_eq valid,join_name (by decide)]

theorem stem_forward (valid : ValidKey key) : Forward (stemSegments key) := by
  intro s member
  exact valid.ahead s (split_eq key ▸ List.mem_append_left _ member)

theorem leaf_mem_split (key : String) : leaf key ∈ split key '/' := by
  rw [split_eq]
  simp

private theorem relative_append {tail : String} (valid : ValidKey key) :
    starts_with (key ++ tail) "/" = false := by
  rw [Bool.eq_false_iff,ne_eq,starts_with_slash,String.toList_append]
  have first := valid.relative
  rw [Bool.eq_false_iff,ne_eq,starts_with_slash] at first
  have filled : key.toList ≠ [] := fun empty => valid.nonempty (String.toList_inj.mp (by simpa using empty))
  rwa [List.head?_append_of_ne_nil _ filled]

/-- A path made by appending an ending to a key. -/
theorem join_append {p : OsPath} {tail : String} (valid : ValidKey key) (absent : '/' ∉ tail.toList) :
    join p (key ++ tail) = p ++ stemSegments key ++ [leaf key ++ tail] := by
  rw [join_relative (relative_append valid),split_append key tail absent,List.append_assoc]

theorem trim_relative (valid : ValidKey key) : starts_with (trim_end_slashes key) "/" = false := by
  obtain ⟨n,spelled⟩ := trim_end_slashes_spelled key
  have first := valid.relative
  rw [Bool.eq_false_iff,ne_eq,starts_with_slash] at first ⊢
  intro slash
  apply first
  rw [spelled]
  cases front : (trim_end_slashes key).toList with
  | nil => simp [front] at slash
  | cons c rest => simpa [front] using slash

theorem trim_forward (valid : ValidKey key) : Forward (split (trim_end_slashes key) '/') := by
  intro s member up
  have kept : s ∈ canon (split (trim_end_slashes key) '/') :=
    List.mem_filter.mpr ⟨member,by simp [up,skipped]⟩
  rw [canon_split_trim] at kept
  exact valid.ahead s (List.mem_filter.mp kept).1 up

theorem stem_eq_names (folder : leaf key = "") : stem key = names key := by
  rw [names_eq,folder]
  simp [canon,skipped]

end Places

/-- The path leads to the entry `name` of the directory `dir`. -/
structure Leads (p dir : OsPath) (name : String) : Prop where
  entry : Entry p
  names : canon p = dir ++ [name]

theorem Leads.parent {p dir : OsPath} {name : String} (leads : Leads p dir name) : parent_dir p = dir := by
  have spelled : parent_dir p = (canon p).dropLast := rfl
  rw [spelled,leads.names,List.dropLast_concat]

theorem leads_concat {p : OsPath} {name : String} (forward : Forward p) (kept : skipped name = false)
    (ahead : name ≠ "..") : Leads (p ++ [name]) (canon p) name :=
  ⟨entry_concat forward kept ahead,canon_concat kept⟩

theorem leads_plain {dir : OsPath} {name : String} (plain : PlainDir dir) (kept : skipped name = false)
    (ahead : name ≠ "..") : Leads (dir ++ [name]) dir name := by
  have same : canon dir = dir := canon_of_plain fun s member => (plain s member).1
  simpa [same] using leads_concat (p := dir) (fun s member => (plain s member).2) kept ahead

theorem PlainDir.append {p q : OsPath} (left : PlainDir p) (right : PlainDir q) : PlainDir (p ++ q) := by
  intro s member
  exact (List.mem_append.mp member).elim (left s) (right s)

theorem plainDir_canon {p : OsPath} (forward : Forward p) : PlainDir (canon p) :=
  fun s member => ⟨kept_of_mem_canon member,forward s (List.mem_filter.mp member).1⟩

section Layout
variable {buckets_dir : OsPath} {bucket key : String} (plain : PlainDir buckets_dir)
  (validBucket : ValidBucket bucket) (valid : ValidKey key)
include plain validBucket

theorem plain_base : PlainDir (base buckets_dir bucket) := by
  refine plain.append ?_
  intro s member
  rw [List.mem_singleton.mp member]
  exact ⟨validBucket.kept,validBucket.ahead⟩

include valid

/-- The directory that holds the places of a key. -/
theorem plain_home : PlainDir (base buckets_dir bucket ++ stem key) :=
  (plain_base plain validBucket).append (plainDir_canon (stem_forward valid))

private theorem leads_append {tail : String} (absent : '/' ∉ tail.toList) (long : 3 ≤ tail.length) :
    Leads (join (bucket_dir buckets_dir bucket) (key ++ tail)) (base buckets_dir bucket ++ stem key)
      (leaf key ++ tail) := by
  rw [bucket_dir_eq validBucket,join_append valid absent]
  have forward := (forward_base plain validBucket).append (stem_forward valid)
  have leads := leads_concat forward (skipped_append (by omega)) (append_ne_dots (s := leaf key) long)
  rwa [canon_append,canon_base plain validBucket] at leads

private theorem leads_folder {name : String} (folder : ends_with key "/" = true) (absent : '/' ∉ name.toList)
    (kept : skipped name = false) (ahead : name ≠ "..") :
    Leads (join (join (bucket_dir buckets_dir bucket) (trim_end_slashes key)) name)
      (base buckets_dir bucket ++ stem key) name := by
  rw [bucket_dir_eq validBucket,join_relative (trim_relative valid),join_name absent]
  have forward := (forward_base plain validBucket).append (trim_forward valid)
  have leads := leads_concat forward kept ahead
  have empty := (ends_with_slash valid.nonempty).mp folder
  rwa [canon_append,canon_base plain validBucket,canon_split_trim,← stem_eq_names empty] at leads

theorem meta_path_leads :
    Leads (meta_path buckets_dir bucket key) (base buckets_dir bucket ++ stem key) (metaName key) := by
  unfold meta_path metaName
  split
  next folder => exact leads_folder plain validBucket valid folder (by decide) (by decide) (by decide)
  next => exact leads_append plain validBucket valid (by decide) (by decide)

theorem ec_dir_leads :
    Leads (ec_dir buckets_dir bucket key) (base buckets_dir bucket ++ stem key) (ecName key) :=
  leads_append plain validBucket valid (by decide) (by decide)

theorem object_path_leads (named : ends_with key "/" = true ∨ skipped (leaf key) = false) :
    Leads (object_path buckets_dir bucket key) (base buckets_dir bucket ++ stem key) (objectName key) := by
  unfold object_path objectName
  split
  next folder => exact leads_folder plain validBucket valid folder (by decide) (by decide) (by decide)
  next file =>
    have kept := named.resolve_left file
    rw [bucket_dir_eq validBucket,join_relative valid.relative,split_eq,← List.append_assoc]
    have forward := (forward_base plain validBucket).append (stem_forward valid)
    have leads := leads_concat forward kept (valid.ahead _ (leaf_mem_split key))
    rwa [canon_append,canon_base plain validBucket] at leads

omit plain in
/-- A key whose last segment is a dot has no file of its own in the flat layout. -/
theorem object_path_dotted (file : ends_with key "/" = false) (dot : skipped (leaf key) = true) :
    dotted (object_path buckets_dir bucket key) = true := by
  rw [object_path,if_neg (by simp [file]),bucket_dir_eq validBucket,join_relative valid.relative,split_eq,
    ← List.append_assoc,dotted]
  simp [dot]

/-- The directory of the versions of a key. -/
def versionsHome (buckets_dir : OsPath) (bucket key : String) : OsPath :=
  base buckets_dir bucket ++ (names key).dropLast ++ ".versions" :: (names key).getLast?.toList

omit plain validBucket in
/-- The components of a valid key are its names, after a leading dot perhaps. -/
theorem components_eq : ∃ lead, (lead = [] ∨ lead = [Component.CurDir]) ∧
    components key = lead ++ (names key).map Component.Normal := by
  have body : ((split key '/').filter fun s => !skipped s).map componentOf = (names key).map Component.Normal := by
    refine List.map_congr_left fun s member => ?_
    simp [componentOf,valid.ahead s (List.mem_filter.mp member).1]
  simp only [components,valid.relative,Bool.false_eq_true,if_false,body]
  split
  · exact ⟨[.CurDir],.inr rfl,rfl⟩
  · exact ⟨[],.inl rfl,rfl⟩

omit plain validBucket in
theorem forward_names : Forward (names key) := valid.ahead.canon

theorem versions_dir_leads : Forward (versions_dir buckets_dir bucket key) ∧
    canon (versions_dir buckets_dir bucket key) = versionsHome buckets_dir bucket key := by
  obtain ⟨lead,leading,spelled⟩ := components_eq valid
  have forwardBase := forward_base plain validBucket
  have canonBase := canon_base plain validBucket
  have forwardNames := forward_names valid
  have canonNames : canon (names key) = names key := canon_canon _
  have canonLead : canon (lead.map Component.segment) = [] ∧ Forward (lead.map Component.segment) := by
    rcases leading with rfl | rfl
    · exact ⟨rfl,by simp [Forward]⟩
    · exact ⟨rfl,by simp [Forward,Component.segment]⟩
  have versions : Forward [".versions"] ∧ canon [".versions"] = [".versions"] := by simp [Forward,canon,skipped]
  rcases List.eq_nil_or_concat (names key) with empty | ⟨front,last,ends⟩
  · -- only dots: the key itself is the last segment, and leads nowhere
    have name : file_name key = key := by
      rw [file_name,spelled,empty]
      rcases leading with rfl | rfl <;> rfl
    have above : canon ((components key).dropLast.map Component.segment) = [] ∧
        Forward ((components key).dropLast.map Component.segment) := by
      rw [spelled,empty]
      rcases leading with rfl | rfl <;> exact ⟨rfl,by simp [Forward]⟩
    simp only [versions_dir,name,bucket_dir_eq validBucket]
    rw [join_relative valid.relative,join_name (by decide)]
    refine ⟨((forwardBase.append above.2).append versions.1).append valid.ahead,?_⟩
    rw [canon_append,canon_append,canon_append,canonBase,above.1,versions.2]
    simp only [versionsHome,empty]
    have gone : canon (split key '/') = [] := empty
    simp [gone]
  · rw [List.concat_eq_append] at ends
    have slash : '/' ∉ last.toList := by
      have member : last ∈ names key := by simp [ends]
      exact not_mem_of_mem_split (List.mem_filter.mp member).1
    have kept : Forward [last] ∧ canon [last] = [last] ∧ Forward front ∧ canon front = front := by
      rw [ends] at forwardNames canonNames
      have member : skipped last = false := kept_of_mem_canon (p := split key '/') (by
        change last ∈ names key
        simp [ends])
      rw [canon_append,canon_singleton member] at canonNames
      refine ⟨fun s inside => forwardNames s (List.mem_append_right _ inside),canon_singleton member,
        fun s inside => forwardNames s (List.mem_append_left _ inside),(List.append_inj' canonNames rfl).1⟩
    have name : file_name key = last := by
      rw [file_name,spelled,ends,List.map_append,← List.append_assoc]
      simp
    have above : (components key).dropLast.map Component.segment = lead.map Component.segment ++ front := by
      rw [spelled,ends,List.map_append,← List.append_assoc,List.map_singleton,List.dropLast_concat,List.map_append,
        List.map_map]
      congr 1
      conv_rhs => rw [← List.map_id front]
      rfl
    simp only [versions_dir,name,bucket_dir_eq validBucket,above]
    rw [join_name slash,join_name (by decide)]
    refine ⟨((forwardBase.append (canonLead.2.append kept.2.2.1)).append versions.1).append kept.1,?_⟩
    rw [canon_append,canon_append,canon_append,canon_append,canonBase,canonLead.1,kept.2.2.2,versions.2,kept.2.1]
    simp [versionsHome,ends]

end Layout
/-! ### Names of chunks and temporary files -/

theorem chunk_name_digits (i : Nat) : ∀ c ∈ (chunk_name i).toList, c.isDigit = true := by
  intro c member
  simp only [chunk_name,padded,String.toList_ofList,List.mem_append] at member
  rcases member with zero | digit
  · rw [List.eq_of_mem_replicate zero]; decide
  · exact Nat.isDigit_of_mem_toDigits (by decide) (by decide) digit

theorem chunk_name_injective : Function.Injective chunk_name := by
  have read : ∀ i, Nat.ofDigitChars 10 (chunk_name i).toList 0 = i := by
    intro i
    simp [chunk_name,padded,Nat.ofDigitChars_append]
  intro i j same
  rw [← read i,same,read j]

theorem chunk_name_ne {i : Nat} {s : String} (other : ∃ c ∈ s.toList, c.isDigit = false) : chunk_name i ≠ s := by
  rintro rfl
  obtain ⟨c,member,letter⟩ := other
  rw [chunk_name_digits i c member] at letter
  cases letter

theorem chunk_name_slash (i : Nat) : '/' ∉ (chunk_name i).toList := by
  intro slash
  exact absurd (chunk_name_digits i _ slash) (by decide)

theorem chunk_name_kept (i : Nat) : skipped (chunk_name i) = false ∧ chunk_name i ≠ ".." := by
  refine ⟨?_,chunk_name_ne ⟨'.',by decide,by decide⟩⟩
  have dot : chunk_name i ≠ "." := chunk_name_ne ⟨'.',by decide,by decide⟩
  have nonempty : chunk_name i ≠ "" := by
    intro empty
    have length := congrArg (fun s : String => s.toList.length) empty
    simp only [chunk_name,padded,String.toList_ofList,List.length_append,List.length_replicate] at length
    have : "".toList.length = 0 := by decide
    omega
  simp [skipped,dot,nonempty]

theorem toDigits_digitChar {b : Nat} (large : 1 < b) (n : Nat) :
    ∀ c ∈ Nat.toDigits b n, ∃ d < b, c = Nat.digitChar d := by
  induction n using Nat.strongRecOn with
  | _ n ih =>
    intro c member
    rw [Nat.toDigits_eq_if large] at member
    split at member
    next low => exact ⟨n,low,List.mem_singleton.mp member⟩
    next high =>
      rcases List.mem_append.mp member with front | last
      · exact ih (n / b) (Nat.div_lt_self (by omega) large) c front
      · exact ⟨_,Nat.mod_lt _ (by omega),List.mem_singleton.mp last⟩

private theorem digitChar_ne : ∀ d < 16, Nat.digitChar d ≠ '/' ∧ Nat.digitChar d ≠ '.' := by decide

/-- A version id has neither slashes nor dots. -/
theorem generate_version_id_chars (micros rand_suffix : Nat) :
    ∀ c ∈ (generate_version_id micros rand_suffix).toList, c ≠ '/' ∧ c ≠ '.' := by
  intro c member
  simp only [generate_version_id,padded,String.toList_append,String.toList_ofList,List.mem_append] at member
  rcases member with ((zero | digit) | dash) | zero | digit
  · rw [List.eq_of_mem_replicate zero]; decide
  · obtain ⟨d,small,rfl⟩ := toDigits_digitChar (by decide) micros c digit
    exact digitChar_ne d (by omega)
  · rw [List.mem_singleton.mp dash]; decide
  · rw [List.eq_of_mem_replicate zero]; decide
  · obtain ⟨d,small,rfl⟩ := toDigits_digitChar (by decide) rand_suffix c digit
    exact digitChar_ne d small

/-- The name of a temporary sibling. -/
def tempName (uuid : String) : String := ".maxio-tmp-" ++ uuid

theorem tempName_starts (uuid : String) : starts_with (tempName uuid) ".maxio-tmp-" = true := by
  rw [starts_with,tempName,String.toList_append,List.isPrefixOf_iff_prefix]
  exact List.prefix_append _ _

theorem tempName_kept (uuid : String) : skipped (tempName uuid) = false ∧ tempName uuid ≠ ".." := by
  have size : 11 ≤ (tempName uuid).length := by
    rw [tempName,String.length_append]
    have : ".maxio-tmp-".length = 11 := by decide
    omega
  refine ⟨?_,?_⟩
  · simp only [skipped,Bool.or_eq_false_iff,decide_eq_false_iff_not]
    constructor <;> intro same <;> rw [same] at size <;> exact absurd size (by decide)
  · intro same
    rw [same] at size
    exact absurd size (by decide)

theorem tempName_injective : Function.Injective tempName := by
  intro a b same
  have chars := congrArg String.toList same
  rw [tempName,tempName,String.toList_append,String.toList_append,List.append_cancel_left_eq] at chars
  exact String.toList_inj.mp chars

theorem tempName_slash {uuid : String} (plain : '/' ∉ uuid.toList) : '/' ∉ (tempName uuid).toList := by
  rw [tempName,String.toList_append,List.mem_append,not_or]
  exact ⟨by decide,plain⟩

theorem isName_iff {s : String} : isName s = true ↔ skipped s = false ∧ s ≠ ".." ∧ '/' ∉ s.toList := by
  simp [isName,and_assoc]

/-- A temporary sibling of an entry is an entry of the same directory. -/
theorem temp_sibling_leads {p dir : OsPath} {name uuid : String} (leads : Leads p dir name) (plain : PlainDir dir)
    (spelled : '/' ∉ uuid.toList) : Leads (temp_sibling_path p uuid) dir (tempName uuid) := by
  rw [temp_sibling_path,leads.parent]
  change Leads (join dir (tempName uuid)) dir (tempName uuid)
  rw [join_name (tempName_slash spelled)]
  exact leads_plain plain (tempName_kept uuid).1 (tempName_kept uuid).2

/-- An entry of a directory that is itself an entry. -/
theorem Leads.child {p dir : OsPath} {name entry : String} (leads : Leads p dir name) (absent : '/' ∉ entry.toList)
    (kept : skipped entry = false) (ahead : entry ≠ "..") : Leads (join p entry) (dir ++ [name]) entry := by
  rw [join_name absent,← leads.names]
  exact leads_concat leads.entry.forward kept ahead

theorem Leads.chunk {p dir : OsPath} {name : String} (leads : Leads p dir name) (i : Nat) :
    Leads (join p (chunk_name i)) (dir ++ [name]) (chunk_name i) :=
  leads.child (chunk_name_slash i) (chunk_name_kept i).1 (chunk_name_kept i).2

theorem Leads.manifest {p dir : OsPath} {name : String} (leads : Leads p dir name) :
    Leads (join p "manifest.json") (dir ++ [name]) "manifest.json" :=
  leads.child (by decide) (by decide) (by decide)

end Maxio
