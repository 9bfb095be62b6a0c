import Mathlib

/-!
Directory trees with the outcomes of the POSIX calls on them. A tree is a finite map from paths to files
and directories in which every node has a directory above it. Paths are lists of names from the root.
-/

namespace Maxio.FileTree

inductive Node (C : Type) where
  | file (content : C)
  | dir
  deriving DecidableEq, Repr

/-- The kinds of error the calls below can answer with. -/
inductive ErrorKind where
  | NotFound
  | NotADirectory
  | IsADirectory
  | AlreadyExists
  | DirectoryNotEmpty
  | InvalidInput
  | InvalidData
  | UnexpectedEof
  | ResourceBusy
  | Other
  deriving DecidableEq, Repr

structure Tree (N C : Type) where
  node : List N → Option (Node C)
  /-- Every path that exists is in this list, so that a directory can be read. -/
  paths : List (List N)
  root : node [] = some .dir
  listed : ∀ p, node p ≠ none → p ∈ paths
  rooted : ∀ p n, node (p ++ [n]) ≠ none → node p = some .dir

variable {N C : Type}

namespace Tree

/-- Whatever lies on the way to an existing node is a directory. -/
theorem dir_of_prefix (t : Tree N C) {p q : List N} (above : p <+: q) (proper : p ≠ q)
    (present : t.node q ≠ none) : t.node p = some .dir := by
  obtain ⟨rest,rfl⟩ := above
  induction rest using List.reverseRecOn with
  | nil => simp at proper
  | append_singleton rest n ih =>
    have parent : t.node (p ++ rest) = some .dir := t.rooted _ n (by simpa using present)
    by_cases last : rest = []
    · simpa [last] using parent
    · exact ih (by simpa using last) (by simp [parent])

theorem none_of_prefix (t : Tree N C) {p q : List N} (above : p <+: q) (absent : t.node p = none) :
    t.node q = none := by
  by_contra present
  by_cases same : p = q
  · exact present (same ▸ absent)
  · rw [t.dir_of_prefix above same present] at absent
    cases absent

theorem none_below_file (t : Tree N C) {p q : List N} {c : C} (above : p <+: q) (proper : p ≠ q)
    (file : t.node p = some (.file c)) : t.node q = none := by
  by_contra present
  rw [t.dir_of_prefix above proper present] at file
  cases file

def isFile (t : Tree N C) (p : List N) : Bool := match t.node p with
  | some (.file _) => true
  | _ => false

def isDir (t : Tree N C) (p : List N) : Bool := match t.node p with
  | some .dir => true
  | _ => false

theorem isDir_iff {t : Tree N C} {p : List N} : t.isDir p = true ↔ t.node p = some .dir := by
  unfold isDir
  split <;> simp_all

theorem isFile_iff {t : Tree N C} {p : List N} : t.isFile p = true ↔ ∃ c, t.node p = some (.file c) := by
  unfold isFile
  split <;> simp_all

/-- Why a path cannot be reached: a file stands where a directory is needed, or a name is missing. -/
def missing (t : Tree N C) (p : List N) : ErrorKind :=
  if p.inits.any (fun q => t.isFile q) then .NotADirectory else .NotFound

variable [DecidableEq N]

/-- Names of the entries of a directory. -/
def children (t : Tree N C) (p : List N) : List N :=
  (t.paths.filterMap fun q => match q.getLast? with
    | some n => if q.dropLast = p ∧ (t.node q).isSome then some n else none
    | none => none).dedup

omit [DecidableEq N] in
theorem dropLast_getLast {q : List N} {n : N} (last : q.getLast? = some n) : q = q.dropLast ++ [n] := by
  have nonempty : q ≠ [] := by rintro rfl; simp at last
  rw [List.getLast?_eq_getLast_of_ne_nil nonempty] at last
  injection last with last
  exact last ▸ (List.dropLast_append_getLast nonempty).symm

theorem mem_children (t : Tree N C) (p : List N) (n : N) :
    n ∈ t.children p ↔ t.node (p ++ [n]) ≠ none := by
  simp only [children,List.mem_dedup,List.mem_filterMap]
  constructor
  · rintro ⟨q,_,found⟩
    split at found
    next m last =>
      split at found
      next both =>
        injection found with found
        have spelled := dropLast_getLast last
        rw [both.1,found] at spelled
        rw [← spelled]
        exact Option.isSome_iff_ne_none.mp both.2
      next => cases found
    next => cases found
  · intro present
    refine ⟨p ++ [n],t.listed _ present,?_⟩
    simp [Option.isSome_iff_ne_none.mpr present]

theorem nodup_children (t : Tree N C) (p : List N) : (t.children p).Nodup := List.nodup_dedup _

def isEmptyDir (t : Tree N C) (p : List N) : Bool := t.isDir p && (t.children p).isEmpty

/-! ### Changing a tree -/

/-- Put a file at `p ++ [n]`. -/
def setFile (t : Tree N C) (p : List N) (n : N) (c : C)
    (parent : t.node p = some .dir) (free : t.node (p ++ [n]) ≠ some .dir) : Tree N C where
  node q := if q = p ++ [n] then some (.file c) else t.node q
  paths := (p ++ [n]) :: t.paths
  root := by simp [t.root]
  listed q present := by
    by_cases same : q = p ++ [n]
    · simp [same]
    · simp only [same,if_false] at present
      exact List.mem_cons_of_mem _ (t.listed q present)
  rooted q m present := by
    have distinct : q ≠ p ++ [n] := by
      rintro rfl
      by_cases same : p ++ [n] ++ [m] = p ++ [n]
      · simp at same
      · simp only [same,if_false] at present
        exact free (t.rooted _ m present)
    simp only [distinct,if_false]
    by_cases same : q ++ [m] = p ++ [n]
    · rw [(List.append_inj' same rfl).1]; exact parent
    · simp only [same,if_false] at present
      exact t.rooted q m present

/-- Make an empty directory at `p ++ [n]`. -/
def setDir (t : Tree N C) (p : List N) (n : N)
    (parent : t.node p = some .dir) : Tree N C where
  node q := if q = p ++ [n] then some .dir else t.node q
  paths := (p ++ [n]) :: t.paths
  root := by simp [t.root]
  listed q present := by
    by_cases same : q = p ++ [n]
    · simp [same]
    · simp only [same,if_false] at present
      exact List.mem_cons_of_mem _ (t.listed q present)
  rooted q m present := by
    by_cases here : q = p ++ [n]
    · simp [here]
    · simp only [here,if_false]
      by_cases same : q ++ [m] = p ++ [n]
      · rw [(List.append_inj' same rfl).1]; exact parent
      · simp only [same,if_false] at present
        exact t.rooted q m present

/-- Remove `p` and everything below it. -/
def prune (t : Tree N C) (p : List N) (below : p ≠ []) : Tree N C where
  node q := if p <+: q then none else t.node q
  paths := t.paths
  root := by
    have outside : ¬ p <+: [] := fun h => below (List.prefix_nil.mp h)
    simp [outside,t.root]
  listed q present := by
    by_cases under : p <+: q
    · simp [under] at present
    · simp only [under,if_false] at present
      exact t.listed q present
  rooted q m present := by
    by_cases under : p <+: q
    · simp [under.trans (List.prefix_append q [m])] at present
    · by_cases here : p <+: q ++ [m]
      · simp [here] at present
      · simp only [here,if_false] at present
        simp only [under,if_false]
        exact t.rooted q m present

/-- Remove everything below `p`, but not `p`. -/
def clear (t : Tree N C) (p : List N) : Tree N C where
  node q := if p <+: q ∧ p ≠ q then none else t.node q
  paths := t.paths
  root := by
    have kept : ¬ (p <+: [] ∧ p ≠ []) := fun h => h.2 (List.prefix_nil.mp h.1)
    simp only [kept,if_false]
    exact t.root
  listed q present := by
    by_cases under : p <+: q ∧ p ≠ q
    · simp [under] at present
    · simp only [under,if_false] at present
      exact t.listed q present
  rooted q m present := by
    by_cases under : p <+: q ++ [m] ∧ p ≠ q ++ [m]
    · simp [under] at present
    · simp only [under,if_false] at present
      have kept : ¬ (p <+: q ∧ p ≠ q) := by
        rintro ⟨above,-⟩
        refine under ⟨above.trans (List.prefix_append q [m]),fun same => ?_⟩
        have short := above.length_le
        rw [same,List.length_append,List.length_singleton] at short
        omega
      simp only [kept,if_false]
      exact t.rooted q m present

/-- Move what is at `a`, with everything below it, to `b`; what was at `b` disappears. -/
def move (t : Tree N C) (a b : List N) (p : List N) (n : N) (target : b = p ++ [n]) (source : a ≠ [])
    (apart : ¬ a <+: p) (parent : t.node p = some .dir) : Tree N C where
  node q := if b <+: q then t.node (a ++ q.drop b.length) else if a <+: q then none else t.node q
  paths := t.paths ++ t.paths.map fun q => b ++ q.drop a.length
  root := by
    have outside : ¬ b <+: [] := fun h => by simp [List.prefix_nil.mp h] at target
    have outside' : ¬ a <+: [] := fun h => source (List.prefix_nil.mp h)
    simp [outside,outside',t.root]
  listed q present := by
    by_cases under : b <+: q
    · simp only [under,if_true] at present
      refine List.mem_append_right _ (List.mem_map.mpr ⟨_,t.listed _ present,?_⟩)
      rw [List.drop_left]
      exact (List.prefix_append_drop under).symm
    · by_cases moved : a <+: q
      · simp [under,moved] at present
      · simp only [under,moved,if_false] at present
        exact List.mem_append_left _ (t.listed q present)
  rooted q m present := by
    by_cases under : b <+: q
    · have inside : b <+: q ++ [m] := under.trans (List.prefix_append q [m])
      simp only [under,inside,if_true] at present ⊢
      rw [List.drop_append_of_le_length under.length_le,← List.append_assoc] at present
      exact t.rooted _ m present
    · by_cases here : b <+: q ++ [m]
      · -- only `b` itself hangs below a node outside of `b`
        have exact' : q ++ [m] = p ++ [n] := by
          rw [← target]
          exact ((List.prefix_concat_iff.mp here).resolve_right under).symm
        have spelled := (List.append_inj' exact' rfl).1
        simp only [under,spelled ▸ apart,if_false]
        exact spelled ▸ parent
      · by_cases moved : a <+: q ++ [m]
        · simp [here,moved] at present
        · have stays : ¬ a <+: q := fun h => moved (h.trans (List.prefix_append q [m]))
          simp only [here,moved,under,stays,if_false] at present ⊢
          exact t.rooted q m present

@[simp] theorem node_setFile (t : Tree N C) (p : List N) (n : N) (c : C)
    (parent : t.node p = some .dir) (free : t.node (p ++ [n]) ≠ some .dir) (q : List N) :
    (t.setFile p n c parent free).node q = if q = p ++ [n] then some (.file c) else t.node q := rfl

@[simp] theorem node_setDir (t : Tree N C) (p : List N) (n : N) (parent : t.node p = some .dir)
    (q : List N) : (t.setDir p n parent).node q = if q = p ++ [n] then some .dir else t.node q := rfl

@[simp] theorem node_prune (t : Tree N C) (p : List N) (below : p ≠ []) (q : List N) :
    (t.prune p below).node q = if p <+: q then none else t.node q := rfl

@[simp] theorem node_clear (t : Tree N C) (p q : List N) :
    (t.clear p).node q = if p <+: q ∧ p ≠ q then none else t.node q := rfl

@[simp] theorem node_move (t : Tree N C) (a b p : List N) (n : N) (target : b = p ++ [n]) (source : a ≠ [])
    (apart : ¬ a <+: p) (parent : t.node p = some .dir) (q : List N) :
    (t.move a b p n target source apart parent).node q =
      if b <+: q then t.node (a ++ q.drop b.length) else if a <+: q then none else t.node q := rfl

/-! ### The calls -/

/-- `stat`. -/
def stat (t : Tree N C) (p : List N) : Except ErrorKind (Node C) := match t.node p with
  | some node => .ok node
  | none => .error (t.missing p)

/-- Open and read a whole file. -/
def read (t : Tree N C) (p : List N) : Except ErrorKind C := match t.node p with
  | some (.file c) => .ok c
  | some .dir => .error .IsADirectory
  | none => .error (t.missing p)

/-- Create a file or replace its content. -/
def write (t : Tree N C) (p : List N) (c : C) : Except ErrorKind (Tree N C) := match p.getLast? with
  | none => .error .IsADirectory
  | some n =>
    if occupied : t.isDir (p.dropLast ++ [n]) then .error .IsADirectory
    else if parent : t.isDir p.dropLast then
      .ok (t.setFile p.dropLast n c (isDir_iff.mp parent) (fun h => occupied (isDir_iff.mpr h)))
    else .error (t.missing p)

/-- `mkdir`. -/
def mkdir (t : Tree N C) (p : List N) : Except ErrorKind (Tree N C) := match p.getLast? with
  | none => .error .AlreadyExists
  | some n =>
    if (t.node p).isSome then .error .AlreadyExists
    else if parent : t.isDir p.dropLast then .ok (t.setDir p.dropLast n (isDir_iff.mp parent))
    else .error (t.missing p)

/-- Make every missing directory on the way from `p` down through `rest`. -/
def mkdirs (t : Tree N C) (p : List N) : List N → Except ErrorKind (Tree N C)
  | [] => .ok t
  | n :: rest =>
    if t.isDir (p ++ [n]) then t.mkdirs (p ++ [n]) rest
    else match t.mkdir (p ++ [n]) with
      | .ok made => made.mkdirs (p ++ [n]) rest
      | .error e => .error e

/-- `unlink`. -/
def removeFile (t : Tree N C) (p : List N) : Except ErrorKind (Tree N C) := match t.node p with
  | some (.file _) => if below : p ≠ [] then .ok (t.prune p below) else .error .IsADirectory
  | some .dir => .error .IsADirectory
  | none => .error (t.missing p)

/-- `rmdir`. -/
def removeDir (t : Tree N C) (p : List N) : Except ErrorKind (Tree N C) := match t.node p with
  | some (.file _) => .error .NotADirectory
  | some .dir =>
    if below : p ≠ [] then
      if (t.children p).isEmpty then .ok (t.prune p below) else .error .DirectoryNotEmpty
    else .error .ResourceBusy
  | none => .error (t.missing p)

/-- Remove a directory with everything in it. -/
def removeDirAll (t : Tree N C) (p : List N) : Except ErrorKind (Tree N C) := match t.node p with
  | some (.file _) => .error .NotADirectory
  | some .dir => if below : p ≠ [] then .ok (t.prune p below) else .error .ResourceBusy
  | none => .error (t.missing p)

/-- What stands at the target of a rename and would be in its way. -/
def renameBlocked (t : Tree N C) (source : Node C) (b : List N) : Option ErrorKind :=
  match source,t.node b with
  | _,none => none
  | .file _,some (.file _) => none
  | .file _,some .dir => some .IsADirectory
  | .dir,some (.file _) => some .NotADirectory
  | .dir,some .dir => if (t.children b).isEmpty then none else some .DirectoryNotEmpty

/-- `rename`, on files and on directories. -/
def rename (t : Tree N C) (a b : List N) : Except ErrorKind (Tree N C) :=
  match t.node a,last : b.getLast? with
  | none,_ => .error (t.missing a)
  | some _,none => .error .ResourceBusy
  | some source,some n =>
    if parent : t.isDir b.dropLast then
      if a = b then .ok t
      else if nonroot : a ≠ [] then
        if apart : ¬ a <+: b.dropLast then match t.renameBlocked source b with
          | some kind => .error kind
          | none => .ok (t.move a b b.dropLast n (dropLast_getLast last) nonroot apart (isDir_iff.mp parent))
        else .error .InvalidInput
      else .error .ResourceBusy
    else .error (t.missing b)

/-! ### What a successful call leaves behind -/

section Effects
variable {t t' : Tree N C} {p a b : List N} {c : C}

theorem write_inv (done : t.write p c = .ok t') :
    p ≠ [] ∧ t.node p.dropLast = some .dir ∧ t.node p ≠ some .dir ∧
      ∀ q, t'.node q = if q = p then some (.file c) else t.node q := by
  unfold write at done
  split at done
  next => cases done
  next n last =>
    have spelled := dropLast_getLast last
    split at done
    next => cases done
    next free =>
      split at done
      next parent =>
        injection done with done
        rw [← spelled] at free
        refine ⟨by rintro rfl; simp at last,isDir_iff.mp parent,fun h => free (isDir_iff.mpr h),fun q => ?_⟩
        rw [← done,node_setFile,← spelled]
      next => cases done

theorem write_ok (nonroot : p ≠ []) (parent : t.node p.dropLast = some .dir) (free : t.node p ≠ some .dir)
    (c : C) : ∃ t', t.write p c = .ok t' := by
  obtain ⟨n,last⟩ : ∃ n, p.getLast? = some n := ⟨_,List.getLast?_eq_getLast_of_ne_nil nonroot⟩
  have open' : ¬ t.isDir (p.dropLast ++ [n]) = true := by
    rw [← dropLast_getLast last]; exact fun h => free (isDir_iff.mp h)
  unfold write
  simp only [last]
  rw [dif_neg open',dif_pos (isDir_iff.mpr parent)]
  exact ⟨_,rfl⟩

theorem mkdir_inv (done : t.mkdir p = .ok t') :
    p ≠ [] ∧ t.node p.dropLast = some .dir ∧ t.node p = none ∧
      ∀ q, t'.node q = if q = p then some .dir else t.node q := by
  unfold mkdir at done
  split at done
  next => cases done
  next n last =>
    have spelled := dropLast_getLast last
    split at done
    next => cases done
    next free =>
      split at done
      next parent =>
        injection done with done
        refine ⟨by rintro rfl; simp at last,isDir_iff.mp parent,by simpa using free,fun q => ?_⟩
        rw [← done,node_setDir,← spelled]
      next => cases done

theorem mkdir_ok (nonroot : p ≠ []) (parent : t.node p.dropLast = some .dir) (free : t.node p = none) :
    ∃ t', t.mkdir p = .ok t' := by
  obtain ⟨n,last⟩ : ∃ n, p.getLast? = some n := ⟨_,List.getLast?_eq_getLast_of_ne_nil nonroot⟩
  unfold mkdir
  simp [last,free,isDir_iff.mpr parent]

omit [DecidableEq N] in
private theorem prefix_not_deeper (p : List N) (n : N) : ¬ p ++ [n] <+: p := by
  intro above
  have short := above.length_le
  rw [List.length_append,List.length_singleton] at short
  omega

omit [DecidableEq N] in
private theorem prefix_step (p q : List N) (n : N) (rest : List N) :
    (p <+: q ∧ q <+: p ++ n :: rest) ↔ q = p ∨ (p ++ [n] <+: q ∧ q <+: p ++ [n] ++ rest) := by
  constructor
  · rintro ⟨⟨middle,rfl⟩,within⟩
    cases middle with
    | nil => simp
    | cons m middle =>
      rw [List.prefix_append_right_inj,List.cons_prefix_cons] at within
      obtain ⟨rfl,within⟩ := within
      exact .inr ⟨by simp,by simpa using within⟩
  · rintro (rfl | ⟨above,within⟩)
    · simp
    · exact ⟨(List.prefix_append p [n]).trans above,by simpa using within⟩

theorem mkdirs_inv (t t' : Tree N C) (p rest : List N) (start : t.node p = some .dir)
    (done : t.mkdirs p rest = .ok t') (q : List N) :
    t'.node q = if p <+: q ∧ q <+: p ++ rest then some .dir else t.node q := by
  induction rest generalizing t p with
  | nil =>
    injection done with done
    subst done
    by_cases same : q = p
    · simp [same,start]
    · have outside : ¬ (p <+: q ∧ q <+: p ++ []) := by
        rintro ⟨above,below⟩
        rw [List.append_nil] at below
        exact same (below.eq_of_length_le above.length_le)
      rw [if_neg outside]
  | cons n rest ih =>
    rw [mkdirs] at done
    simp only [prefix_step]
    split at done
    next here =>
      rw [ih t (p ++ [n]) (isDir_iff.mp here) done]
      by_cases same : q = p
      · simp [same,start,prefix_not_deeper]
      · simp [same]
    next =>
      split at done
      next made executed =>
        obtain ⟨_,_,_,effect⟩ := mkdir_inv executed
        rw [ih made (p ++ [n]) (by simp [effect]) done,effect]
        by_cases same : q = p
        · simp [same,start,prefix_not_deeper]
        · by_cases new : q = p ++ [n]
          · simp [new]
          · simp [same,new]
      next => cases done

theorem mkdirs_ok (t : Tree N C) (p rest : List N) (start : t.node p = some .dir)
    (clear : ∀ q, q <+: p ++ rest → t.isFile q = false) : ∃ t', t.mkdirs p rest = .ok t' := by
  induction rest generalizing t p with
  | nil => exact ⟨t,rfl⟩
  | cons n rest ih =>
    have spelled : p ++ n :: rest = p ++ [n] ++ rest := by simp
    rw [mkdirs]
    split
    next here => exact ih t (p ++ [n]) (isDir_iff.mp here) (spelled ▸ clear)
    next notDir =>
      have free : t.node (p ++ [n]) = none := by
        have plain := clear (p ++ [n]) (by simp)
        rcases found : t.node (p ++ [n]) with _ | _ | _
        · rfl
        · simp [isFile,found] at plain
        · simp [isDir,found] at notDir
      obtain ⟨made,executed⟩ := mkdir_ok (t := t) (p := p ++ [n]) (by simp) (by simpa using start) free
      obtain ⟨_,_,_,effect⟩ := mkdir_inv executed
      simp only [executed]
      refine ih made (p ++ [n]) (by simp [effect]) fun q above => ?_
      have before := clear q (spelled ▸ above)
      unfold isFile at before ⊢
      rw [effect]
      by_cases new : q = p ++ [n]
      · simp [new]
      · simpa [new] using before

theorem removeFile_inv (done : t.removeFile p = .ok t') :
    (∃ c, t.node p = some (.file c)) ∧ ∀ q, t'.node q = if q = p then none else t.node q := by
  unfold removeFile at done
  split at done
  next c file =>
    split at done
    next below =>
      injection done with done
      refine ⟨⟨c,file⟩,fun q => ?_⟩
      rw [← done,node_prune]
      by_cases same : q = p
      · simp [same]
      · by_cases under : p <+: q
        · simp [under,same,t.none_below_file under (Ne.symm same) file]
        · simp [under,same]
    next => cases done
  next => cases done
  next => cases done

theorem removeFile_ok (file : t.node p = some (.file c)) : ∃ t', t.removeFile p = .ok t' := by
  have below : p ≠ [] := by rintro rfl; rw [t.root] at file; cases file
  unfold removeFile
  simp [file,below]

theorem removeDir_inv (done : t.removeDir p = .ok t') :
    p ≠ [] ∧ t.node p = some .dir ∧ (∀ n, t.node (p ++ [n]) = none) ∧
      ∀ q, t'.node q = if q = p then none else t.node q := by
  unfold removeDir at done
  split at done
  next => cases done
  next dir =>
    split at done
    next below =>
      split at done
      next empty =>
        injection done with done
        have bare : ∀ n, t.node (p ++ [n]) = none := by
          intro n
          by_contra present
          have member := (t.mem_children p n).mpr present
          rw [List.isEmpty_iff.mp empty] at member
          cases member
        refine ⟨below,dir,bare,fun q => ?_⟩
        rw [← done,node_prune]
        by_cases same : q = p
        · simp [same]
        · by_cases under : p <+: q
          · obtain ⟨rest,rfl⟩ := under
            cases rest with
            | nil => simp at same
            | cons n rest =>
              have gone : t.node (p ++ n :: rest) = none :=
                t.none_of_prefix (p := p ++ [n]) (by simp) (bare n)
              simp [gone]
          · simp [under,same]
      next => cases done
    next => cases done
  next => cases done

theorem removeDirAll_inv (done : t.removeDirAll p = .ok t') :
    p ≠ [] ∧ t.node p = some .dir ∧ ∀ q, t'.node q = if p <+: q then none else t.node q := by
  unfold removeDirAll at done
  split at done
  next => cases done
  next dir =>
    split at done
    next below =>
      injection done with done
      exact ⟨below,dir,fun q => by rw [← done,node_prune]⟩
    next => cases done
  next => cases done

theorem removeDirAll_ok (nonroot : p ≠ []) (dir : t.node p = some .dir) : ∃ t', t.removeDirAll p = .ok t' := by
  unfold removeDirAll
  simp [dir,nonroot]

theorem rename_inv (done : t.rename a b = .ok t') :
    t.node a ≠ none ∧ b ≠ [] ∧ t.node b.dropLast = some .dir ∧ (a = b ∨ ¬ a <+: b.dropLast) ∧
      ∀ q, t'.node q =
        if b <+: q then t.node (a ++ q.drop b.length) else if a <+: q then none else t.node q := by
  unfold rename at done
  split at done
  next => cases done
  next => cases done
  next source n present last =>
    have nonroot : b ≠ [] := by rintro rfl; simp at last
    split at done
    next parent =>
      refine ⟨by simp [present],nonroot,isDir_iff.mp parent,?_⟩
      split at done
      next same =>
        injection done with done
        refine ⟨.inl same,fun q => ?_⟩
        by_cases under : b <+: q
        · rw [if_pos under,same,← List.prefix_append_drop under,done]
        · simp [under,same,done]
      next distinct =>
        split at done
        next =>
          split at done
          next apart =>
            split at done
            next => cases done
            next =>
              injection done with done
              exact ⟨.inr apart,fun q => by rw [← done,node_move]⟩
          next => cases done
        next => cases done
    next => cases done

/-- Moving something to a free place whose directory exists succeeds. -/
theorem rename_ok (present : t.node a ≠ none) (nonroot : a ≠ []) (target : b ≠ [])
    (parent : t.node b.dropLast = some .dir) (apart : ¬ a <+: b.dropLast)
    (free : t.node b = none) : ∃ t', t.rename a b = .ok t' := by
  obtain ⟨n,last⟩ : ∃ n, b.getLast? = some n := ⟨_,List.getLast?_eq_getLast_of_ne_nil target⟩
  obtain ⟨source,here⟩ := Option.ne_none_iff_exists'.mp present
  have unblocked : t.renameBlocked source b = none := by
    unfold renameBlocked
    rw [free]
  unfold rename
  split
  next absent => simp [absent] at present
  next absent => rw [last] at absent; cases absent
  next source' n' found _ =>
    rw [here] at found
    cases found
    rw [dif_pos (isDir_iff.mpr parent)]
    split
    · exact ⟨_,rfl⟩
    · rw [unblocked]
      exact ⟨_,rfl⟩

end Effects

end Tree
end Maxio.FileTree
