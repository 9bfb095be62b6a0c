import Maxio.FileTree
import Maxio.Prog

/-!
Two runs side by side: programs that end alike when they are started in states that are alike, and the calls on
directory trees that show the same at some of their paths.
-/

namespace Maxio

/-! ### Programs -/

namespace Prog
variable {σ ε ε' α β : Type} {R : σ → σ → Prop}

/-- Started in related states, the program ends with the same outcome, in related states. -/
def Respects (R : σ → σ → Prop) (m : Prog σ ε α) : Prop := ∀ s s', R s s' → (m s').1 = (m s).1 ∧ R (m s).2 (m s').2

namespace Respects

theorem pure (a : α) : Respects R (pure a : Prog σ ε α) := fun _ _ related => ⟨rfl,related⟩

theorem fail (e : ε) : Respects R (Prog.fail e : Prog σ ε α) := fun _ _ related => ⟨rfl,related⟩

theorem lift (r : Except ε α) : Respects R (Prog.lift r : Prog σ ε α) := fun _ _ related => ⟨rfl,related⟩

theorem tell {f : σ → σ} (step : ∀ s s', R s s' → R (f s) (f s')) : Respects R (Prog.tell f : Prog σ ε Unit) :=
  fun s s' related => ⟨rfl,step s s' related⟩

theorem bind_of {m : Prog σ ε α} {f : α → Prog σ ε β} (first : Respects R m)
    (second : ∀ a s s', m s = (.ok a,s') → Respects R (f a)) : Respects R (m >>= f) := by
  intro s s' related
  obtain ⟨outcome,after⟩ := first s s' related
  rcases left : m s with ⟨e | a,s₁⟩ <;> rcases right : m s' with ⟨e' | a',s₂⟩ <;> rw [left,right] at outcome after
  · rw [bind_of_error left,bind_of_error right]
    exact ⟨congrArg Except.error (Except.error.inj outcome),after⟩
  · cases outcome
  · cases outcome
  · obtain rfl := Except.ok.inj outcome
    rw [bind_of_ok left,bind_of_ok right]
    exact second _ s s₁ left s₁ s₂ after

theorem bind {m : Prog σ ε α} {f : α → Prog σ ε β} (first : Respects R m) (second : ∀ a, Respects R (f a)) :
    Respects R (m >>= f) := first.bind_of fun a _ _ _ => second a

theorem attempt {m : Prog σ ε α} (inner : Respects R m) : Respects R (Prog.attempt m : Prog σ ε' (Except ε α)) := by
  intro s s' related
  obtain ⟨outcome,after⟩ := inner s s' related
  exact ⟨congrArg Except.ok outcome,after⟩

theorem mapError {f : ε → ε'} {m : Prog σ ε α} (inner : Respects R m) : Respects R (Prog.mapError f m) := by
  intro s s' related
  obtain ⟨outcome,after⟩ := inner s s' related
  exact ⟨congrArg (Except.mapError f) outcome,after⟩

theorem guarded {drop : σ → σ} {m : Prog σ ε α} (inner : Respects R m) (dropped : ∀ s s', R s s' → R (drop s) (drop s')) :
    Respects R (Prog.guarded drop m) := by
  intro s s' related
  obtain ⟨outcome,after⟩ := inner s s' related
  unfold Prog.guarded
  rcases left : m s with ⟨e | a,s₁⟩ <;> rcases right : m s' with ⟨e' | a',s₂⟩ <;> rw [left,right] at outcome after
  · exact ⟨congrArg Except.error (Except.error.inj outcome),dropped _ _ after⟩
  · cases outcome
  · cases outcome
  · exact ⟨congrArg Except.ok (Except.ok.inj outcome),after⟩

theorem ite {c : Prop} [Decidable c] {m m' : Prog σ ε α} (yes : c → Respects R m) (no : ¬ c → Respects R m') :
    Respects R (if c then m else m') := by
  split
  next h => exact yes h
  next h => exact no h

theorem fold {f : β → α → Prog σ ε β} (items : List α) (step : ∀ acc, ∀ a ∈ items, Respects R (f acc a)) (acc : β) :
    Respects R (Prog.fold f acc items) := by
  induction items generalizing acc with
  | nil => exact Respects.pure acc
  | cons a rest ih =>
    refine Respects.bind (step acc a (by simp)) fun acc' => ih (fun acc b member => ?_) acc'
    exact step acc b (by simp [member])

theorem each {f : α → Prog σ ε Unit} (items : List α) (step : ∀ a ∈ items, Respects R (f a)) :
    Respects R (Prog.each f items) := by
  induction items with
  | nil => exact Respects.pure ()
  | cons a rest ih => exact Respects.bind (step a (by simp)) fun _ => ih fun b member => step b (by simp [member])

end Respects
end Prog

/-! ### Trees -/

namespace FileTree.Tree
variable {N C : Type} {V : List N → Prop} {t u : Tree N C} {p a b : List N}

/-- The trees show the same at the paths in `V`, and list their entries in the same order. -/
structure Agree (V : List N → Prop) (t u : Tree N C) : Prop where
  node : ∀ q, V q → u.node q = t.node q
  paths : u.paths = t.paths

/-- What is above a path in `V` is in `V`. -/
def Rooted (V : List N → Prop) : Prop := ∀ p q, p <+: q → V q → V p

/-- The same error, or trees that agree. -/
def Agreeing (V : List N → Prop) : Except ErrorKind (Tree N C) → Except ErrorKind (Tree N C) → Prop
  | .ok t,.ok u => Agree V t u
  | .error e,.error e' => e' = e
  | _,_ => False

section
variable [DecidableEq N] {source : Node C} {n : N}

omit source n in
theorem rename_absent (found : t.node a = none) : t.rename a b = .error (t.missing a) := by
  unfold Tree.rename
  split
  next => rfl
  next present _ => rw [found] at present; cases present
  next present _ => rw [found] at present; cases present

theorem rename_root (found : t.node a = some source) (last : b.getLast? = none) : t.rename a b = .error .ResourceBusy := by
  unfold Tree.rename
  split
  next _ absent => rw [found] at absent; cases absent
  next => rfl
  next _ named => rw [last] at named; cases named

theorem rename_eq (found : t.node a = some source) (last : b.getLast? = some n) : t.rename a b =
    if parent : t.isDir b.dropLast then
      if a = b then .ok t
      else if nonroot : a ≠ [] then
        if apart : ¬ a <+: b.dropLast then match t.renameBlocked source b with
          | some kind => .error kind
          | none => .ok (t.move a b b.dropLast n (dropLast_getLast last) nonroot apart (isDir_iff.mp parent))
        else .error .InvalidInput
      else .error .ResourceBusy
    else .error (t.missing b) := by
  unfold Tree.rename
  split
  next _ absent => rw [found] at absent; cases absent
  next _ unnamed => rw [last] at unnamed; cases unnamed
  next source' n' present named =>
    rw [found] at present
    cases present
    rw [last] at named
    cases named
    rfl

end

theorem Agree.refl (V : List N → Prop) (t : Tree N C) : Agree V t t := ⟨fun _ _ => rfl,rfl⟩

namespace Agree
variable (agree : Agree V t u)
include agree

theorem isFile (seen : V p) : u.isFile p = t.isFile p := by rw [Tree.isFile,Tree.isFile,agree.node p seen]

theorem isDir (seen : V p) : u.isDir p = t.isDir p := by rw [Tree.isDir,Tree.isDir,agree.node p seen]

theorem missing (rooted : Rooted V) (seen : V p) : u.missing p = t.missing p := by
  have files : ∀ q ∈ p.inits, u.isFile q = t.isFile q :=
    fun q member => agree.isFile (rooted q p ((List.mem_inits q p).mp member) seen)
  have same : p.inits.any (fun q => u.isFile q) = p.inits.any fun q => t.isFile q := by
    rw [Bool.eq_iff_iff,List.any_eq_true,List.any_eq_true]
    constructor
    · rintro ⟨q,member,file⟩
      exact ⟨q,member,by rwa [← files q member]⟩
    · rintro ⟨q,member,file⟩
      exact ⟨q,member,by rwa [files q member]⟩
  rw [Tree.missing,Tree.missing,same]

theorem stat (rooted : Rooted V) (seen : V p) : u.stat p = t.stat p := by
  rw [Tree.stat,Tree.stat,agree.node p seen,agree.missing rooted seen]

theorem read (rooted : Rooted V) (seen : V p) : u.read p = t.read p := by
  rw [Tree.read,Tree.read,agree.node p seen,agree.missing rooted seen]

variable [DecidableEq N]

theorem children (seen : ∀ n, V (p ++ [n])) : u.children p = t.children p := by
  unfold Tree.children
  rw [agree.paths]
  refine congrArg List.dedup (List.filterMap_congr fun q _ => ?_)
  split
  next n last =>
    by_cases here : q.dropLast = p
    · have spelled := dropLast_getLast last
      rw [here] at spelled
      rw [spelled,agree.node _ (seen n)]
    · simp [here]
  next => rfl

theorem setFile {n : N} {c : C} (parent : t.node p = some .dir) (free : t.node (p ++ [n]) ≠ some .dir)
    (parent' : u.node p = some .dir) (free' : u.node (p ++ [n]) ≠ some .dir) :
    Agree V (t.setFile p n c parent free) (u.setFile p n c parent' free') := by
  refine ⟨fun q seen => ?_,congrArg (List.cons _) agree.paths⟩
  rw [node_setFile,node_setFile,agree.node q seen]

theorem setDir {n : N} (parent : t.node p = some .dir) (parent' : u.node p = some .dir) :
    Agree V (t.setDir p n parent) (u.setDir p n parent') := by
  refine ⟨fun q seen => ?_,congrArg (List.cons _) agree.paths⟩
  rw [node_setDir,node_setDir,agree.node q seen]

theorem prune (below : p ≠ []) : Agree V (t.prune p below) (u.prune p below) := by
  refine ⟨fun q seen => ?_,agree.paths⟩
  rw [node_prune,node_prune,agree.node q seen]

theorem write (rooted : Rooted V) (seen : V p) (c : C) : Agreeing V (t.write p c) (u.write p c) := by
  have up := rooted _ p (List.dropLast_prefix p) seen
  unfold Tree.write
  split
  next => exact rfl
  next n last =>
    have here : V (p.dropLast ++ [n]) := dropLast_getLast last ▸ seen
    have occupied := agree.isDir here
    have parent := agree.isDir up
    by_cases dir : t.isDir (p.dropLast ++ [n]) = true
    · rw [dif_pos dir,dif_pos (occupied.trans dir)]
      exact rfl
    · rw [dif_neg dir,dif_neg (show ¬ u.isDir (p.dropLast ++ [n]) = true by rwa [occupied])]
      by_cases above : t.isDir p.dropLast = true
      · rw [dif_pos above,dif_pos (parent.trans above)]
        exact agree.setFile _ _ _ _
      · rw [dif_neg above,dif_neg (show ¬ u.isDir p.dropLast = true by rwa [parent])]
        exact agree.missing rooted seen

theorem mkdir (rooted : Rooted V) (seen : V p) : Agreeing V (t.mkdir p) (u.mkdir p) := by
  have parent := agree.isDir (rooted _ p (List.dropLast_prefix p) seen)
  unfold Tree.mkdir
  split
  next => exact rfl
  next n last =>
    rw [agree.node p seen]
    split
    · exact rfl
    · by_cases above : t.isDir p.dropLast = true
      · rw [dif_pos above,dif_pos (parent.trans above)]
        exact agree.setDir _ _
      · rw [dif_neg above,dif_neg (show ¬ u.isDir p.dropLast = true by rwa [parent])]
        exact agree.missing rooted seen

omit agree in
theorem mkdirs (rooted : Rooted V) {rest : List N} (agree : Agree V t u) (seen : V (p ++ rest)) :
    Agreeing V (t.mkdirs p rest) (u.mkdirs p rest) := by
  induction rest generalizing t u p with
  | nil => exact agree
  | cons n rest ih =>
    have spelled : p ++ n :: rest = p ++ [n] ++ rest := by simp
    rw [spelled] at seen
    have here := rooted _ _ (List.prefix_append (p ++ [n]) rest) seen
    rw [Tree.mkdirs,Tree.mkdirs,agree.isDir here]
    split
    · exact ih agree seen
    · have made := agree.mkdir rooted here
      cases left : t.mkdir (p ++ [n]) <;> cases right : u.mkdir (p ++ [n]) <;> rw [left,right] at made
      · exact made
      · exact made.elim
      · exact made.elim
      · exact ih made seen

theorem removeFile (rooted : Rooted V) (seen : V p) : Agreeing V (t.removeFile p) (u.removeFile p) := by
  unfold Tree.removeFile
  rw [agree.node p seen]
  split
  · split
    next below => exact agree.prune below
    next => exact rfl
  · exact rfl
  · exact agree.missing rooted seen

theorem removeDir (rooted : Rooted V) (seen : V p) (below : ∀ n, V (p ++ [n])) :
    Agreeing V (t.removeDir p) (u.removeDir p) := by
  unfold Tree.removeDir
  rw [agree.node p seen,agree.children below]
  split
  · exact rfl
  · split
    next nonroot =>
      split
      · exact agree.prune nonroot
      · exact rfl
    next => exact rfl
  · exact agree.missing rooted seen

theorem removeDirAll (rooted : Rooted V) (seen : V p) : Agreeing V (t.removeDirAll p) (u.removeDirAll p) := by
  unfold Tree.removeDirAll
  rw [agree.node p seen]
  split
  · exact rfl
  · split
    next nonroot => exact agree.prune nonroot
    next => exact rfl
  · exact agree.missing rooted seen

theorem move {n : N} {q : List N} (all : ∀ r, V (a ++ r)) (target : b = q ++ [n]) (source : a ≠ [])
    (apart : ¬ a <+: q) (parent : t.node q = some .dir) (parent' : u.node q = some .dir) :
    Agree V (t.move a b q n target source apart parent) (u.move a b q n target source apart parent') := by
  refine ⟨fun r seen => ?_,?_⟩
  · rw [node_move,node_move,agree.node r seen,agree.node _ (all _)]
  · show u.paths ++ u.paths.map _ = t.paths ++ t.paths.map _
    rw [agree.paths]

theorem renameBlocked (seen : V b) (below : ∀ n, V (b ++ [n])) (source : Node C) :
    u.renameBlocked source b = t.renameBlocked source b := by
  unfold Tree.renameBlocked
  rw [agree.node b seen,agree.children below]

theorem rename (rooted : Rooted V) (all : ∀ r, V (a ++ r)) (all' : ∀ r, V (b ++ r)) :
    Agreeing V (t.rename a b) (u.rename a b) := by
  have seen : V a := by simpa using all []
  have seen' : V b := by simpa using all' []
  have parent := agree.isDir (rooted _ b (List.dropLast_prefix b) seen')
  rcases found : t.node a with _ | source
  · have absent : u.node a = none := (agree.node a seen).trans found
    rw [rename_absent found,rename_absent absent]
    exact agree.missing rooted seen
  · have found' : u.node a = some source := (agree.node a seen).trans found
    rcases last : b.getLast? with _ | n
    · rw [rename_root found last,rename_root found' last]
      exact rfl
    · rw [rename_eq found last,rename_eq found' last]
      by_cases above : t.isDir b.dropLast = true
      · rw [dif_pos above,dif_pos (parent.trans above),agree.renameBlocked seen' fun n => all' [n]]
        split
        · exact agree
        · split
          · split
            · split
              · exact rfl
              · exact agree.move all _ _ _ _ _
            · exact rfl
          · exact rfl
      · rw [dif_neg above,dif_neg (show ¬ u.isDir b.dropLast = true by rwa [parent])]
        exact agree.missing rooted seen'

end Agree
end FileTree.Tree
end Maxio
