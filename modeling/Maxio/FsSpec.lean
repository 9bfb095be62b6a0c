import Maxio.Fs
import Maxio.KeyPaths

/-!
What the calls of `Fs` do to the tree: exactly, at a path that leads to an entry, and as a frame, at any path
without `..`: which nodes a call can have changed, whatever its outcome.
-/

set_option linter.unusedSimpArgs false

namespace Maxio
open FileTree (Tree Node ErrorKind)

/-! ### Calls at an entry -/

/-- A node that is missing or a directory. -/
def Loose (node : Option (Node Content)) : Prop := node = none ∨ node = some .dir

namespace Fs

theorem change_ok_iff {f : Disk → Except ErrorKind Disk} {w w' : World} :
    change f w = (.ok (),w') ↔ ∃ t, f w.tree = .ok t ∧ w' = { w with tree := t } := by
  unfold change
  split
  next t done => simp [done,eq_comm]
  next kind failed => simp [failed]

theorem change_error {f : Disk → Except ErrorKind Disk} {w w' : World} {e : IoError}
    (failed : change f w = (.error e,w')) : w' = w := by
  unfold change at failed
  split at failed
  next => simp at failed
  next => exact ((Prod.mk.inj failed).2).symm

theorem observe_ok_iff {α : Type} {f : Disk → Except ErrorKind α} {w w' : World} {a : α} :
    observe f w = (.ok a,w') ↔ f w.tree = .ok a ∧ w' = w := by
  unfold observe
  rcases f w.tree with kind | b <;> simp [Except.mapError,eq_comm]

section Leads
variable {p dir : OsPath} {name : String}

theorem stat_leads (leads : Leads p dir name) (t : Disk) : stat t p = t.stat (dir ++ [name]) := by
  simp only [stat,locate_forward t leads.entry.forward,leads.names,leads.entry.named]
  change (Except.bind (t.stat (dir ++ [name])) _) = _
  rcases t.stat (dir ++ [name]) with kind | _ | _ <;> rfl

theorem entry_leads (leads : Leads p dir name) (busy : ErrorKind) (t : Disk) :
    entry busy t p = .ok (dir ++ [name]) := by
  rw [entry,leads.entry.named,if_neg (by decide),locate_forward t leads.entry.forward,leads.names]

theorem readAt_leads (leads : Leads p dir name) (t : Disk) : readAt t p = t.read (dir ++ [name]) := by
  simp only [readAt,stat_leads leads,Tree.stat,Tree.read]
  rcases t.node (dir ++ [name]) with _ | _ | _ <;> rfl

theorem isDirAt_leads (leads : Leads p dir name) (t : Disk) : isDirAt t p = t.isDir (dir ++ [name]) := by
  simp only [isDirAt,stat_leads leads,Tree.stat,Tree.isDir]
  rcases t.node (dir ++ [name]) with _ | _ | _ <;> rfl

theorem existsAt_leads (leads : Leads p dir name) (t : Disk) :
    existsAt t p = match t.node (dir ++ [name]) with
      | some _ => .ok true
      | none => if t.missing (dir ++ [name]) = .NotFound then .ok false else .error (t.missing (dir ++ [name])) := by
  simp only [existsAt,stat_leads leads,Tree.stat]
  generalize t.missing (dir ++ [name]) = kind
  rcases t.node (dir ++ [name]) with _ | _
  · cases kind <;> rfl
  · rfl

theorem write_leads (leads : Leads p dir name) (c : Content) :
    write p c = change fun t => t.write (dir ++ [name]) c := by
  funext w
  simp only [write,change,writeAt,entry_leads leads]
  rfl

theorem remove_file_leads (leads : Leads p dir name) :
    remove_file p = change fun t => t.removeFile (dir ++ [name]) := by
  funext w
  simp only [remove_file,change,entry_leads leads]
  rfl

theorem last_of_named (named : dotted p = false) : p.getLast? ≠ some "." := by
  intro last
  rw [dotted,last] at named
  cases named

theorem remove_dir_all_leads (leads : Leads p dir name) :
    remove_dir_all p = change fun t => t.removeDirAll (dir ++ [name]) := by
  funext w
  rw [remove_dir_all,if_neg (last_of_named leads.entry.named)]
  simp only [change,entry_leads leads]
  rfl

theorem rename_leads {p' dir' : OsPath} {name' : String} (leads : Leads p dir name) (leads' : Leads p' dir' name') :
    rename p p' = change fun t => t.rename (dir ++ [name]) (dir' ++ [name']) := by
  funext w
  simp only [rename,change,entry_leads leads,entry_leads leads']
  rfl

theorem append_leads (leads : Leads p dir name) (data : Bytes) :
    append p data = change fun t => match t.read (dir ++ [name]) with
      | .ok (.bytes old) => t.write (dir ++ [name]) (.bytes (old ++ data))
      | .ok (.json _) => .error .Other
      | .error kind => .error kind := by
  funext w
  simp only [append,change,readAt_leads leads,writeAt,entry_leads leads]
  rcases w.tree.read (dir ++ [name]) with kind | _ | _ <;> rfl

theorem namesAt_forward (forward : Forward p) (t : Disk) :
    namesAt t p = match t.node (canon p) with
      | some .dir => .ok ((t.children (canon p)).filter isName)
      | some (.file _) => .error .NotADirectory
      | none => .error (t.missing (canon p)) := by
  simp only [namesAt,locate_forward t forward,Tree.stat]
  simp only [bind,Except.bind]
  rcases t.node (canon p) with _ | _ | _ <;> rfl

end Leads

/-! What a successful call has done. -/

section Done
variable {p dir : OsPath} {name : String} {w w' : World}

/-- Only the tree changed, and only at one node. -/
structure Sets (q : OsPath) (node : Option (Node Content)) (w w' : World) : Prop where
  rows : w'.rows = w.rows
  sealings : w'.sealings = w.sealings
  tree : ∀ p, w'.tree.node p = if p = q then node else w.tree.node p

theorem Sets.here {q : OsPath} {node : Option (Node Content)} (sets : Sets q node w w') : w'.tree.node q = node := by
  rw [sets.tree,if_pos rfl]

theorem Sets.other {q p : OsPath} {node : Option (Node Content)} (sets : Sets q node w w') (apart : p ≠ q) :
    w'.tree.node p = w.tree.node p := by
  rw [sets.tree,if_neg apart]

theorem write_done {c : Content} (leads : Leads p dir name) (done : write p c w = (.ok (),w')) :
    Sets (dir ++ [name]) (some (.file c)) w w' ∧ w.tree.node dir = some .dir ∧
      w.tree.node (dir ++ [name]) ≠ some .dir := by
  rw [write_leads leads,change_ok_iff] at done
  obtain ⟨t,written,rfl⟩ := done
  obtain ⟨_,parent,free,effect⟩ := Tree.write_inv written
  exact ⟨⟨rfl,rfl,effect⟩,by simpa using parent,free⟩

theorem write_succeeds (leads : Leads p dir name) (parent : w.tree.node dir = some .dir)
    (free : w.tree.node (dir ++ [name]) ≠ some .dir) (c : Content) : ∃ w', write p c w = (.ok (),w') := by
  obtain ⟨t,written⟩ := Tree.write_ok (t := w.tree) (p := dir ++ [name]) (by simp) (by simpa using parent) free c
  exact ⟨_,by rw [write_leads leads,change_ok_iff]; exact ⟨t,written,rfl⟩⟩

theorem append_done {data : Bytes} (leads : Leads p dir name) (done : append p data w = (.ok (),w')) :
    ∃ old, w.tree.node (dir ++ [name]) = some (.file (.bytes old)) ∧
      Sets (dir ++ [name]) (some (.file (.bytes (old ++ data)))) w w' := by
  rw [append_leads leads,change_ok_iff] at done
  obtain ⟨t,written,rfl⟩ := done
  unfold Tree.read at written
  split at written
  next old found =>
    refine ⟨old,?_,rfl,rfl,(Tree.write_inv written).2.2.2⟩
    split at found
    next c file => injection found with found; rw [file,found]
    next => cases found
    next => cases found
  next => cases written
  next => cases written

theorem remove_file_done (leads : Leads p dir name) (done : remove_file p w = (.ok (),w')) :
    Sets (dir ++ [name]) none w w' ∧ ∃ c, w.tree.node (dir ++ [name]) = some (.file c) := by
  rw [remove_file_leads leads,change_ok_iff] at done
  obtain ⟨t,removed,rfl⟩ := done
  obtain ⟨file,effect⟩ := Tree.removeFile_inv removed
  exact ⟨⟨rfl,rfl,effect⟩,file⟩

/-- A move of everything below one node to another. -/
structure Moves (a b : OsPath) (w w' : World) : Prop where
  rows : w'.rows = w.rows
  sealings : w'.sealings = w.sealings
  tree : ∀ q, w'.tree.node q = if b <+: q then w.tree.node (a ++ q.drop b.length)
    else if a <+: q then none else w.tree.node q

theorem rename_done {p' dir' : OsPath} {name' : String} (leads : Leads p dir name) (leads' : Leads p' dir' name')
    (done : rename p p' w = (.ok (),w')) :
    Moves (dir ++ [name]) (dir' ++ [name']) w w' ∧ w.tree.node (dir ++ [name]) ≠ none := by
  rw [rename_leads leads leads',change_ok_iff] at done
  obtain ⟨t,moved,rfl⟩ := done
  obtain ⟨present,_,_,_,effect⟩ := Tree.rename_inv moved
  exact ⟨⟨rfl,rfl,effect⟩,present⟩

theorem read_done {c : Content} (leads : Leads p dir name) (done : read p w = (.ok c,w')) :
    w.tree.node (dir ++ [name]) = some (.file c) ∧ w' = w := by
  rw [read,observe_ok_iff,readAt_leads leads] at done
  refine ⟨?_,done.2⟩
  unfold Tree.read at done
  split at done
  next found => obtain ⟨same,_⟩ := done; injection same with same; rw [found,same]
  next => cases done.1
  next => cases done.1

theorem read_file {c : Content} (leads : Leads p dir name) (file : w.tree.node (dir ++ [name]) = some (.file c)) :
    read p w = (.ok c,w) := by
  rw [read,observe_ok_iff,readAt_leads leads]
  simp [Tree.read,file]

/-- Missing directories are made; nothing else happens. -/
structure Makes (dir : OsPath) (w w' : World) : Prop where
  rows : w'.rows = w.rows
  sealings : w'.sealings = w.sealings
  tree : ∀ q, w'.tree.node q = if q <+: dir then some .dir else w.tree.node q
  clear : ∀ q, q <+: dir → Loose (w.tree.node q)

private theorem loose_of_not_file {t : Disk} {q : OsPath} (clear : t.isFile q = false) : Loose (t.node q) := by
  unfold Loose
  rcases here : t.node q with _ | _ | _
  · simp
  · simp [Tree.isFile,here] at clear
  · simp

theorem mkdirsAt_done {t t' : Disk} (forward : Forward p) (done : mkdirsAt p t = .ok t') :
    (∀ q, t'.node q = if q <+: canon p then some .dir else t.node q) ∧ ∀ q, q <+: canon p → Loose (t.node q) := by
  simp only [mkdirsAt,locate_forward t forward,bind,Except.bind] at done
  split at done
  next here =>
    injection done with done
    subst done
    have above : ∀ q, q <+: canon p → t.node q = some .dir := by
      intro q within
      by_cases same : q = canon p
      · rw [same,here]
      · exact t.dir_of_prefix within same (by simp [here])
    refine ⟨fun q => ?_,fun q within => .inr (above q within)⟩
    split
    next within => exact above q within
    next => rfl
  next => cases done
  next absent =>
    split at done
    next => cases done
    next reachable =>
      refine ⟨fun q => by simpa using Tree.mkdirs_inv t t' [] (canon p) t.root done q,fun q within => ?_⟩
      refine loose_of_not_file ?_
      by_contra file
      apply reachable
      rw [Tree.missing,if_pos]
      exact List.any_eq_true.mpr ⟨q,(List.mem_inits q (canon p)).mpr within,by simpa using file⟩

theorem create_dir_all_done (leads : Leads p dir name) (done : create_dir_all p w = (.ok (),w')) :
    Makes (dir ++ [name]) w w' := by
  unfold create_dir_all at done
  rw [leads.entry.named,if_neg (by decide),change_ok_iff] at done
  obtain ⟨t,made,rfl⟩ := done
  obtain ⟨effect,clear⟩ := mkdirsAt_done leads.entry.forward made
  rw [leads.names] at effect clear
  exact ⟨rfl,rfl,effect,clear⟩

theorem create_dir_all_succeeds (leads : Leads p dir name) (clear : ∀ q, q <+: dir ++ [name] → Loose (w.tree.node q)) :
    ∃ w', create_dir_all p w = (.ok (),w') := by
  have plain : ∀ q, q <+: dir ++ [name] → w.tree.isFile q = false := by
    intro q within
    rcases clear q within with here | here <;> simp [Tree.isFile,here]
  have made : ∃ t, mkdirsAt p w.tree = .ok t := by
    simp only [mkdirsAt,locate_forward w.tree leads.entry.forward,leads.names,bind,Except.bind]
    split
    next => exact ⟨_,rfl⟩
    next file =>
      have clash := plain (dir ++ [name]) (List.prefix_refl _)
      simp [Tree.isFile,file] at clash
    next =>
      have reachable : w.tree.missing (dir ++ [name]) = .NotFound := by
        rw [Tree.missing,if_neg]
        rw [List.any_eq_true]
        rintro ⟨q,within,file⟩
        rw [plain q ((List.mem_inits _ _).mp within)] at file
        cases file
      rw [reachable]
      exact Tree.mkdirs_ok w.tree [] _ w.tree.root (by simpa using plain)
  obtain ⟨t,made⟩ := made
  refine ⟨{ w with tree := t },?_⟩
  unfold create_dir_all
  rw [leads.entry.named,if_neg (by decide),change_ok_iff]
  exact ⟨t,made,rfl⟩

end Done
end Fs

/-! ### Frames -/

/-- Whatever a run does to the nodes in `S`, it leaves the others as they were, but for directories that come
    and go at the places in `G`. -/
def Frame (S G : OsPath → Prop) (w w' : World) : Prop :=
  ∀ q, ¬ S q → w'.tree.node q = w.tree.node q ∨ (G q ∧ Loose (w.tree.node q) ∧ Loose (w'.tree.node q))

abbrev Frames {ε α : Type} (S G : OsPath → Prop) (m : Prog World ε α) : Prop := Prog.Keeps (Frame S G) m

section
variable {S G : OsPath → Prop}

theorem Frame.refl (w : World) : Frame S G w w := fun _ _ => .inl rfl

theorem Frame.trans (a b c : World) (first : Frame S G a b) (second : Frame S G b c) : Frame S G a c := by
  intro q outside
  rcases first q outside with same | ⟨loose,before,between⟩
  · rcases second q outside with same' | ⟨loose,between,after⟩
    · exact .inl (same'.trans same)
    · exact .inr ⟨loose,same ▸ between,after⟩
  · rcases second q outside with same | ⟨_,_,after⟩
    · exact .inr ⟨loose,before,same ▸ between⟩
    · exact .inr ⟨loose,before,after⟩

theorem Frame.mono {S' G' : OsPath → Prop} {w w' : World} (frame : Frame S G w w') (larger : ∀ q, S q → S' q)
    (looser : ∀ q, G q → S' q ∨ G' q) : Frame S' G' w w' := by
  intro q outside
  rcases frame q (fun inside => outside (larger q inside)) with same | ⟨loose,rest⟩
  · exact .inl same
  · exact .inr ⟨(looser q loose).resolve_left outside,rest⟩

/-- A node outside of both sets is untouched. -/
theorem Frame.same {w w' : World} (frame : Frame S G w w') {q : OsPath} (outside : ¬ S q) (rigid : ¬ G q) :
    w'.tree.node q = w.tree.node q :=
  (frame q outside).resolve_right fun loose => rigid loose.1

/-- A file outside of `S` stays, wherever it is. -/
theorem Frame.file {w w' : World} (frame : Frame S G w w') {q : OsPath} {c : Content} (outside : ¬ S q)
    (file : w.tree.node q = some (.file c)) : w'.tree.node q = some (.file c) := by
  rcases frame q outside with same | ⟨_,loose,_⟩
  · rw [same,file]
  · simp [Loose,file] at loose

theorem Frames.mono {ε α : Type} {S' G' : OsPath → Prop} {m : Prog World ε α} (frames : Frames S G m)
    (larger : ∀ q, S q → S' q) (looser : ∀ q, G q → S' q ∨ G' q) : Frames S' G' m :=
  fun w => (frames w).mono larger looser

/-! Programs. -/

section Programs
variable {ε ε' α β : Type}

theorem Frames.pure (a : α) : Frames S G (pure a : Prog World ε α) := Prog.Keeps.pure Frame.refl a

theorem Frames.fail (e : ε) : Frames S G (Prog.fail e : Prog World ε α) := Prog.Keeps.fail Frame.refl e

theorem Frames.ask (f : World → α) : Frames S G (Prog.ask f : Prog World ε α) := Prog.Keeps.ask Frame.refl f

theorem Frames.lift (r : Except ε α) : Frames S G (Prog.lift r : Prog World ε α) := Prog.Keeps.lift Frame.refl r

theorem Frames.bind {m : Prog World ε α} {f : α → Prog World ε β} (first : Frames S G m)
    (second : ∀ a, Frames S G (f a)) : Frames S G (m >>= f) := Prog.Keeps.bind Frame.trans first second

theorem Frames.attempt {m : Prog World ε α} (inner : Frames S G m) :
    Frames S G (Prog.attempt m : Prog World ε' (Except ε α)) := Prog.Keeps.attempt inner

theorem Frames.mapError {f : ε → ε'} {m : Prog World ε α} (inner : Frames S G m) : Frames S G (Prog.mapError f m) :=
  Prog.Keeps.mapError inner

theorem Frames.fold {f : β → α → Prog World ε β} (items : List α)
    (step : ∀ acc, ∀ a ∈ items, Frames S G (f acc a)) (acc : β) : Frames S G (Prog.fold f acc items) :=
  Prog.Keeps.fold Frame.refl Frame.trans items step acc

theorem Frames.each {f : α → Prog World ε Unit} (items : List α) (step : ∀ a ∈ items, Frames S G (f a)) :
    Frames S G (Prog.each f items) := Prog.Keeps.each Frame.refl Frame.trans items step

theorem Frames.ite {c : Prop} [Decidable c] {m m' : Prog World ε α} (yes : c → Frames S G m)
    (no : ¬ c → Frames S G m') : Frames S G (if c then m else m') := by
  split
  next h => exact yes h
  next h => exact no h

theorem Frames.io {m : Io α} (inner : Frames S G m) : Frames S G (io m) := inner.mapError

theorem Frames.ignore {m : Io α} (inner : Frames S G m) : Frames S G (ignore m) :=
  (Frames.attempt inner).bind fun _ => Frames.pure ()

theorem Frames.unwrap_or {m : Prog World ε α} (default : α) (inner : Frames S G m) :
    Frames S G (unwrap_or default m) := by
  refine (Frames.attempt inner).bind fun r => ?_
  cases r with
  | ok a => exact Frames.pure a
  | error e => exact Frames.pure default

theorem Frames.or_not_found {m : Io α} (missing : StorageError) (inner : Frames S G m) :
    Frames S G (or_not_found missing m) := inner.mapError

/-- A change that leaves the tree alone. -/
theorem Frames.tell {f : World → World} (same : ∀ w, (f w).tree = w.tree) :
    Frames S G (Prog.tell f : Prog World ε Unit) := by
  intro w q _
  simp [same]

end Programs

/-! Calls. -/

namespace Fs
variable {p : OsPath}

theorem entry_ok {busy : ErrorKind} {t : Disk} {q : OsPath} (forward : Forward p) (found : entry busy t p = .ok q) :
    dotted p = false ∧ q = canon p := by
  unfold entry at found
  split at found
  next => split at found <;> cases found
  next plain =>
    rw [locate_forward t forward] at found
    injection found with found
    exact ⟨by simpa using plain,found.symm⟩

theorem frames_observe {α : Type} (f : Disk → Except ErrorKind α) : Frames S G (observe f) :=
  fun w => Frame.refl w

theorem frames_read (p : OsPath) : Frames S G (read p) := frames_observe _
theorem frames_try_exists (p : OsPath) : Frames S G (try_exists p) := frames_observe _
theorem frames_is_dir (p : OsPath) : Frames S G (is_dir p) := frames_observe _
theorem frames_read_dir (p : OsPath) : Frames S G (read_dir p) := frames_observe _

theorem frames_change {f : Disk → Except ErrorKind Disk}
    (step : ∀ t t', f t = .ok t' → ∀ q, ¬ S q → t'.node q = t.node q ∨ (G q ∧ Loose (t.node q) ∧ Loose (t'.node q))) :
    Frames S G (change f) := by
  intro w
  unfold change
  split
  next t done => exact step w.tree t done
  next => exact Frame.refl w

private theorem bind_ok {ε α β : Type} {m : Except ε α} {f : α → Except ε β} {b : β}
    (done : (m >>= f) = .ok b) : ∃ a, m = .ok a ∧ f a = .ok b := by
  cases m with
  | error e => cases done
  | ok a => exact ⟨a,rfl,done⟩

theorem frames_write (forward : Forward p) (inside : dotted p = false → S (canon p)) (c : Content) :
    Frames S G (write p c) := by
  refine frames_change fun t t' done q outside => .inl ?_
  obtain ⟨at',found,done⟩ := bind_ok done
  obtain ⟨named,rfl⟩ := entry_ok forward found
  rw [(Tree.write_inv done).2.2.2 q,if_neg]
  rintro rfl
  exact outside (inside named)

theorem frames_append (forward : Forward p) (inside : dotted p = false → S (canon p)) (data : Bytes) :
    Frames S G (append p data) := by
  refine frames_change fun t t' done q outside => .inl ?_
  obtain ⟨content,_,done⟩ := bind_ok done
  cases content with
  | json _ => cases done
  | bytes old =>
    obtain ⟨at',found,done⟩ := bind_ok done
    obtain ⟨named,rfl⟩ := entry_ok forward found
    rw [(Tree.write_inv done).2.2.2 q,if_neg]
    rintro rfl
    exact outside (inside named)

theorem frames_copy (a : OsPath) (forward : Forward p) (inside : dotted p = false → S (canon p)) :
    Frames S G (copy a p) :=
  Frames.bind (Frames.mapError (frames_read a)) fun c => frames_write forward inside c

theorem frames_remove_file (forward : Forward p) (inside : dotted p = false → S (canon p)) :
    Frames S G (remove_file p) := by
  refine frames_change fun t t' done q outside => .inl ?_
  obtain ⟨at',found,done⟩ := bind_ok done
  obtain ⟨named,rfl⟩ := entry_ok forward found
  rw [(Tree.removeFile_inv done).2 q,if_neg]
  rintro rfl
  exact outside (inside named)

theorem frames_remove_dir (forward : Forward p) (inside : dotted p = false → S (canon p) ∨ G (canon p)) :
    Frames S G (remove_dir p) := by
  refine frames_change fun t t' done q outside => ?_
  obtain ⟨at',found,done⟩ := bind_ok done
  obtain ⟨named,rfl⟩ := entry_ok forward found
  obtain ⟨_,dir,_,effect⟩ := Tree.removeDir_inv done
  by_cases same : q = canon p
  · subst same
    exact .inr ⟨(inside named).resolve_left outside,.inr dir,.inl (by rw [effect,if_pos rfl])⟩
  · exact .inl (by rw [effect,if_neg same])

theorem frames_remove_dir_all (forward : Forward p) (last : p.getLast? ≠ some ".")
    (inside : dotted p = false → ∀ q, canon p <+: q → S q) : Frames S G (remove_dir_all p) := by
  intro w
  rw [remove_dir_all,if_neg last]
  refine frames_change (fun t t' done q outside => .inl ?_) w
  obtain ⟨at',found,done⟩ := bind_ok done
  obtain ⟨named,rfl⟩ := entry_ok forward found
  rw [(Tree.removeDirAll_inv done).2.2 q,if_neg]
  exact fun under => outside (inside named q under)

theorem frames_rename {b : OsPath} (forward : Forward p) (forward' : Forward b)
    (inside : dotted p = false → ∀ q, canon p <+: q → S q)
    (inside' : dotted b = false → ∀ q, canon b <+: q → S q) : Frames S G (rename p b) := by
  refine frames_change fun t t' done q outside => .inl ?_
  obtain ⟨from',found,done⟩ := bind_ok done
  obtain ⟨to',found',done⟩ := bind_ok done
  obtain ⟨named,rfl⟩ := entry_ok forward found
  obtain ⟨named',rfl⟩ := entry_ok forward' found'
  rw [(Tree.rename_inv done).2.2.2.2 q,if_neg,if_neg]
  · exact fun under => outside (inside named q under)
  · exact fun under => outside (inside' named' q under)

private theorem mkdirsAt_frame (forward : Forward p) (inside : ∀ q, q <+: canon p → S q ∨ G q) {t t' : Disk}
    (done : mkdirsAt p t = .ok t') (q : OsPath) (outside : ¬ S q) :
    t'.node q = t.node q ∨ (G q ∧ Loose (t.node q) ∧ Loose (t'.node q)) := by
  obtain ⟨effect,clear⟩ := mkdirsAt_done forward done
  by_cases above : q <+: canon p
  · exact .inr ⟨(inside q above).resolve_left outside,clear q above,.inr (by rw [effect,if_pos above])⟩
  · exact .inl (by rw [effect,if_neg above])

theorem frames_create_dir_all (forward : Forward p) (inside : ∀ q, q <+: canon p → S q ∨ G q) :
    Frames S G (create_dir_all p) := by
  intro w
  unfold create_dir_all
  split
  next =>
    split
    next => exact Frame.refl w
    next => exact Frame.refl w
    next =>
      split
      next t done =>
        refine mkdirsAt_frame (p := parent_dir p) (fun s member => ?_) (fun q above => ?_) done
        · exact forward s (List.mem_filter.mp (List.mem_of_mem_dropLast member)).1
        · have same : canon (parent_dir p) = (canon p).dropLast := by
            have kept : ∀ s ∈ (canon p).dropLast, skipped s = false :=
              fun s member => kept_of_mem_canon (List.mem_of_mem_dropLast member)
            exact canon_of_plain kept
          rw [same] at above
          exact inside q (above.trans (List.dropLast_prefix _))
      next => exact Frame.refl w
    next => exact Frame.refl w
  next => exact frames_change (fun t t' done => mkdirsAt_frame forward inside done) w

end Fs
end
end Maxio
