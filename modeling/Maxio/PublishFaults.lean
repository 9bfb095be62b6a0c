import Maxio.RoundTrip

/-!
Publication when one of its calls on the filesystem fails. What was at the final places is moved aside first, and
moved back when a publishing rename fails; a failure between the two backups is passed on without moving anything
back.
-/

set_option linter.unusedSimpArgs false

namespace Maxio
open FileTree (Node Tree ErrorKind)

/-- The calls that can make a publication fail. -/
inductive PublishOp where
  | create_payload_dir
  | create_meta_dir
  | payload_exists
  | backup_payload
  | meta_exists
  | backup_meta
  | publish_payload
  | publish_meta
  deriving DecidableEq, Repr

/-- The one call that fails whatever is on disk, if there is one, and its error. -/
abbrev Fault := Option (PublishOp × IoError)

namespace Fault

def strikes (fault : Fault) (op : PublishOp) : Prop := fault.map Prod.fst = some op

instance (fault : Fault) (op : PublishOp) : Decidable (fault.strikes op) :=
  inferInstanceAs (Decidable (fault.map Prod.fst = some op))

/-- The call, unless it is the failing one. -/
def on {α : Type} (fault : Fault) (op : PublishOp) (m : Io α) : Io α := match fault with
  | some (failing,e) => if failing = op then Prog.fail e else m
  | none => m

theorem on_struck {α : Type} {fault : Fault} {op : PublishOp} (struck : fault.strikes op) (m : Io α) :
    ∃ e, fault.on op m = Prog.fail e := by
  rcases fault with _ | ⟨failing,e⟩
  · exact absurd struck (by simp [strikes])
  · have same : failing = op := by simpa [strikes] using struck
    exact ⟨e,if_pos same⟩

theorem on_spared {α : Type} {fault : Fault} {op : PublishOp} (spared : ¬ fault.strikes op) (m : Io α) :
    fault.on op m = m := by
  rcases fault with _ | ⟨failing,e⟩
  · rfl
  · have apart : ¬ failing = op := by simpa [strikes] using spared
    exact if_neg apart

theorem strikes_one {fault : Fault} {a b : PublishOp} (first : fault.strikes a) (second : fault.strikes b) : a = b := by
  unfold strikes at first second
  rw [first,Option.some.injEq] at second
  exact second

end Fault

namespace Common

/-- `backup_existing` with its two calls named. -/
def backup_existing_under (fault : Fault) (asks moves : PublishOp) (p : OsPath) (uuid : String) :
    Action (Option OsPath) := do
  if ← io (fault.on asks (Fs.try_exists p)) then
    let backup := temp_sibling_path p uuid
    io (fault.on moves (Fs.rename p backup))
    pure (some backup)
  else pure none

/-- `publish_temp_payload_and_meta` when a call fails. The calls that move things back do not. -/
def publish_temp_payload_and_meta_under (fault : Fault) (tmp_payload final_payload : OsPath) (payload_is_dir : Bool)
    (tmp_meta final_meta : OsPath) (payload_uuid meta_uuid : String) : Action Unit := do
  io (fault.on .create_payload_dir (Fs.create_dir_all (parent_dir final_payload)))
  io (fault.on .create_meta_dir (Fs.create_dir_all (parent_dir final_meta)))
  let payload_backup ← backup_existing_under fault .payload_exists .backup_payload final_payload payload_uuid
  let meta_backup ← backup_existing_under fault .meta_exists .backup_meta final_meta meta_uuid
  match ← Prog.attempt (fault.on .publish_payload (Fs.rename tmp_payload final_payload)) with
  | .error e =>
    restore_backup final_meta meta_backup false
    restore_backup final_payload payload_backup payload_is_dir
    Prog.fail (.Io e)
  | .ok () =>
    match ← Prog.attempt (fault.on .publish_meta (Fs.rename tmp_meta final_meta)) with
    | .error e =>
      remove_path_if_exists final_payload payload_is_dir
      restore_backup final_meta meta_backup false
      restore_backup final_payload payload_backup payload_is_dir
      Prog.fail (.Io e)
    | .ok () =>
      cleanup_backup payload_backup payload_is_dir
      cleanup_backup meta_backup false

/-- Without a failing call this is the publication itself. -/
theorem publish_temp_payload_and_meta_under_none :
    publish_temp_payload_and_meta_under none = publish_temp_payload_and_meta := rfl

section Steps
variable {p dir : OsPath} {name uuid : String} {w : World}

/-- Nothing to remove, nothing done. -/
theorem remove_path_if_exists_absent (leads : Leads p dir name) (absent : w.tree.node (dir ++ [name]) = none)
    (is_dir : Bool) : remove_path_if_exists p is_dir w = (.ok (),w) := by
  have untouched : ∀ m : Io Unit, (∀ w', m w ≠ (.ok (),w')) → (∀ e w', m w = (.error e,w') → w' = w) →
      ignore m w = (.ok (),w) := by
    intro m fails same
    rcases done : m w with ⟨_ | _,w'⟩
    · rw [ignore,Prog.bind_of_ok (attempt_ok_iff.mpr done),same _ _ done]
      rfl
    · exact absurd done (fails w')
  unfold remove_path_if_exists
  cases is_dir
  · rw [if_neg (by decide)]
    apply untouched
    · intro w' done
      obtain ⟨_,c,file⟩ := Fs.remove_file_done leads done
      rw [absent] at file
      cases file
    · intro e w' failed
      rw [Fs.remove_file_leads leads] at failed
      exact Fs.change_error failed
  · rw [if_pos rfl]
    apply untouched
    · intro w' done
      rw [Fs.remove_dir_all_leads leads,Fs.change_ok_iff] at done
      obtain ⟨t,removed,_⟩ := done
      have present := (Tree.removeDirAll_inv removed).2.1
      rw [absent] at present
      cases present
    · intro e w' failed
      rw [Fs.remove_dir_all_leads leads] at failed
      exact Fs.change_error failed

/-- What has the kind it is said to have is removed, with everything below it. -/
theorem remove_path_if_exists_done (leads : Leads p dir name) {node : Node Content} {is_dir : Bool}
    (there : w.tree.node (dir ++ [name]) = some node) (kind : node = .dir ↔ is_dir = true) :
    ∃ w', remove_path_if_exists p is_dir w = (.ok (),w') ∧
      ∀ q, w'.tree.node q = if dir ++ [name] <+: q then none else w.tree.node q := by
  cases node with
  | dir =>
    obtain ⟨t,removed⟩ := Tree.removeDirAll_ok (show dir ++ [name] ≠ [] by simp) there
    obtain ⟨_,_,effect⟩ := Tree.removeDirAll_inv removed
    refine ⟨{ w with tree := t },?_,?_⟩
    · rw [kind.mp rfl,remove_path_if_exists,if_pos rfl,ignore]
      rw [Prog.bind_of_ok (attempt_ok_iff.mpr (show Fs.remove_dir_all p w = _ by
        rw [Fs.remove_dir_all_leads leads,Fs.change_ok_iff.mpr ⟨t,removed,rfl⟩]))]
      rfl
    · exact effect
  | file c =>
    have plain : is_dir = false := by
      cases is_dir
      · rfl
      · exact absurd (kind.mpr rfl) (by simp)
    obtain ⟨t,removed⟩ := Tree.removeFile_ok there
    obtain ⟨_,effect⟩ := Tree.removeFile_inv removed
    refine ⟨{ w with tree := t },?_,?_⟩
    · rw [plain,remove_path_if_exists,if_neg (by decide),ignore]
      rw [Prog.bind_of_ok (attempt_ok_iff.mpr (show Fs.remove_file p w = _ by
        rw [Fs.remove_file_leads leads,Fs.change_ok_iff.mpr ⟨t,removed,rfl⟩]))]
      rfl
    · intro q
      rw [effect q]
      by_cases within : dir ++ [name] <+: q
      · rw [if_pos within]
        by_cases same : q = dir ++ [name]
        · rw [if_pos same]
        · rw [if_neg same]
          exact w.tree.none_below_file within (fun equal => same equal.symm) there
      · rw [if_neg within,if_neg]
        rintro rfl
        exact within (List.prefix_refl _)

/-- What a backup has done: what was there is now under the temporary name, and the other names are as they
    were. -/
structure BackedUp (p dir : OsPath) (name uuid : String) (backup : Option OsPath) (w w' : World) : Prop where
  taken : backup = none ∧ w.tree.node (dir ++ [name]) = none ∨ backup = some (temp_sibling_path p uuid) ∧
    ∀ rest, w'.tree.node (dir ++ [tempName uuid] ++ rest) = w.tree.node (dir ++ [name] ++ rest)
  clear : ∀ rest, w'.tree.node (dir ++ [name] ++ rest) = none
  kept : ∀ q, ¬ dir ++ [name] <+: q → ¬ dir ++ [tempName uuid] <+: q → w'.tree.node q = w.tree.node q

/-- A backup fails by the failing call, or moves what is there aside. -/
theorem backup_existing_under_cases (fault : Fault) (asks moves : PublishOp) (leads : Leads p dir name)
    (plain : PlainDir dir) (spelled : '/' ∉ uuid.toList) (apart : name ≠ tempName uuid)
    (parent : w.tree.node dir = some .dir) (free : w.tree.node (dir ++ [tempName uuid]) = none) :
    (∃ e, backup_existing_under fault asks moves p uuid w = (.error e,w) ∧
      (fault.strikes asks ∨ fault.strikes moves ∧ w.tree.node (dir ++ [name]) ≠ none)) ∨
    ∃ backup w', backup_existing_under fault asks moves p uuid w = (.ok backup,w') ∧
      ¬ (fault.strikes asks ∨ fault.strikes moves ∧ w.tree.node (dir ++ [name]) ≠ none) ∧
      BackedUp p dir name uuid backup w w' := by
  unfold backup_existing_under
  by_cases asked : fault.strikes asks
  · obtain ⟨e,failing⟩ := Fault.on_struck asked (Fs.try_exists p)
    exact .inl ⟨.Io e,by rw [failing]; rfl,.inl asked⟩
  · rw [Fault.on_spared asked]
    have answer := io_ok_iff.mpr (Fs.try_exists_succeeds leads parent)
    cases here : w.tree.node (dir ++ [name]) with
    | none =>
      right
      rw [here] at answer
      refine ⟨none,w,by rw [Prog.bind_of_ok answer]; rfl,by simp [asked],.inl ⟨rfl,here⟩,?_,fun _ _ _ => rfl⟩
      intro rest
      exact w.tree.none_of_prefix (prefix_self_append rest) here
    | some node =>
      rw [here] at answer
      by_cases moved : fault.strikes moves
      · left
        obtain ⟨e,failing⟩ := Fault.on_struck moved (Fs.rename p (temp_sibling_path p uuid))
        refine ⟨.Io e,?_,.inr ⟨moved,by simp⟩⟩
        rw [Prog.bind_of_ok answer,Option.isSome_some,if_pos rfl,failing]
        rfl
      · right
        obtain ⟨w',renamed⟩ := Fs.rename_succeeds leads (temp_sibling_leads leads plain spelled) (by simp [here]) parent
          (fun below => absurd below.length_le (by simp)) free
        have moves' := (Fs.rename_done leads (temp_sibling_leads leads plain spelled) renamed).1
        refine ⟨some (temp_sibling_path p uuid),w',?_,by simp [asked,moved],.inr ⟨rfl,?_⟩,?_,?_⟩
        · rw [Prog.bind_of_ok answer,Option.isSome_some,if_pos rfl,Fault.on_spared moved,
            Prog.bind_of_ok (io_ok_iff.mpr renamed)]
          rfl
        · intro rest
          rw [moves'.tree,if_pos (prefix_self_append rest),List.drop_left]
        · intro rest
          rw [moves'.tree,if_neg (not_prefix_of_ne apart.symm rest),if_pos (prefix_self_append rest)]
        · intro q outside outside'
          rw [moves'.tree,if_neg outside',if_neg outside]

/-- A backup whose place is clear is moved back to it. -/
theorem restore_backup_done {backup : Option OsPath} {w₀ : World} (leads : Leads p dir name) (plain : PlainDir dir)
    (spelled : '/' ∉ uuid.toList) (parent : w.tree.node dir = some .dir)
    (clear : w.tree.node (dir ++ [name]) = none)
    (taken : backup = none ∧ w₀.tree.node (dir ++ [name]) = none ∨ backup = some (temp_sibling_path p uuid) ∧
      ∀ rest, w.tree.node (dir ++ [tempName uuid] ++ rest) = w₀.tree.node (dir ++ [name] ++ rest))
    (is_dir : Bool) : ∃ w', restore_backup p backup is_dir w = (.ok (),w') ∧
      (∀ rest, w'.tree.node (dir ++ [name] ++ rest) = w₀.tree.node (dir ++ [name] ++ rest)) ∧
      ∀ q, ¬ dir ++ [name] <+: q → ¬ dir ++ [tempName uuid] <+: q → w'.tree.node q = w.tree.node q := by
  rcases taken with ⟨rfl,absent⟩ | ⟨rfl,held⟩
  · refine ⟨w,rfl,?_,fun _ _ _ => rfl⟩
    intro rest
    rw [w.tree.none_of_prefix (prefix_self_append rest) clear,w₀.tree.none_of_prefix (prefix_self_append rest) absent]
  · have back := temp_sibling_leads leads plain spelled
    unfold restore_backup
    simp only
    rw [Prog.bind_of_ok (remove_path_if_exists_absent leads clear is_dir)]
    rcases renamed : Fs.rename (temp_sibling_path p uuid) p w with ⟨e | _,w'⟩
    · -- the rename fails only when there is no backup, and then there was nothing to back up
      have same : w' = w := by
        rw [Fs.rename_leads back leads] at renamed
        exact Fs.change_error renamed
      have gone : w.tree.node (dir ++ [tempName uuid]) = none := by
        by_contra present
        obtain ⟨w'',done⟩ := Fs.rename_succeeds back leads present parent (fun below => absurd below.length_le (by simp))
          clear
        rw [done] at renamed
        cases renamed
      subst same
      refine ⟨w',by rw [ignore,Prog.bind_of_ok (attempt_ok_iff.mpr renamed)]; rfl,?_,fun _ _ _ => rfl⟩
      intro rest
      rw [← held rest,w'.tree.none_of_prefix (prefix_self_append rest) clear,
        w'.tree.none_of_prefix (prefix_self_append rest) gone]
    · have moves := (Fs.rename_done back leads renamed).1
      refine ⟨w',by rw [ignore,Prog.bind_of_ok (attempt_ok_iff.mpr renamed)]; rfl,?_,?_⟩
      · intro rest
        rw [moves.tree,if_pos (prefix_self_append rest),List.drop_left,held]
      · intro q outside outside'
        rw [moves.tree,if_neg outside,if_neg outside']

theorem cleanup_backup_ok (backup : Option OsPath) (is_dir : Bool) (w : World) :
    ∃ w', cleanup_backup backup is_dir w = (.ok (),w') := by
  cases backup with
  | none => exact ⟨w,rfl⟩
  | some p => cases is_dir <;> exact ⟨_,rfl⟩

end Steps

section Publish
variable {dir final_payload final_meta tmp_payload tmp_meta : OsPath}
  {payload meta_name tmp tmp_side payload_uuid meta_uuid : String}
  (slots : Slots dir final_payload final_meta tmp_payload tmp_meta payload meta_name tmp tmp_side payload_uuid
    meta_uuid)
include slots

/-- Everything at the two final places is as it was. -/
def Untouched (dir : OsPath) (payload meta_name : String) (w w' : World) : Prop :=
  ∀ n ∈ [payload,meta_name], ∀ rest, w'.tree.node (dir ++ [n] ++ rest) = w.tree.node (dir ++ [n] ++ rest)

/-- Both backups are taken and both places are clear. -/
structure Aside (dir final_payload final_meta : OsPath) (payload meta_name payload_uuid meta_uuid : String)
    (payload_backup meta_backup : Option OsPath) (w w' : World) : Prop where
  parent : w'.tree.node dir = some .dir
  payload_clear : w'.tree.node (dir ++ [payload]) = none
  meta_clear : w'.tree.node (dir ++ [meta_name]) = none
  payload_taken : payload_backup = none ∧ w.tree.node (dir ++ [payload]) = none ∨
    payload_backup = some (temp_sibling_path final_payload payload_uuid) ∧
      ∀ rest, w'.tree.node (dir ++ [tempName payload_uuid] ++ rest) = w.tree.node (dir ++ [payload] ++ rest)
  meta_taken : meta_backup = none ∧ w.tree.node (dir ++ [meta_name]) = none ∨
    meta_backup = some (temp_sibling_path final_meta meta_uuid) ∧
      ∀ rest, w'.tree.node (dir ++ [tempName meta_uuid] ++ rest) = w.tree.node (dir ++ [meta_name] ++ rest)

/-- Moving both backups back makes the places what they were. -/
theorem restores_done {payload_backup meta_backup : Option OsPath} {w w' : World}
    (aside : Aside dir final_payload final_meta payload meta_name payload_uuid meta_uuid payload_backup meta_backup w w')
    (is_dir : Bool) (e : IoError) : ∃ w'', (do
      restore_backup final_meta meta_backup false
      restore_backup final_payload payload_backup is_dir
      Prog.fail (.Io e) : Action Unit) w' = (.error (.Io e),w'') ∧ Untouched dir payload meta_name w w'' := by
  obtain ⟨pm,pt,ps,pb,pc,mt,ms,mb,mc,ts,tb,tc,sb,sc,bc⟩ := slots.names_ne
  have shallow : ∀ n : String, ¬ dir ++ [n] <+: dir := fun n below => absurd below.length_le (by simp)
  obtain ⟨w₁,first,back,kept⟩ := @restore_backup_done _ _ _ _ w' _ w slots.meta_leads slots.plain slots.spelled.2 aside.parent
    aside.meta_clear aside.meta_taken false
  have clear : w₁.tree.node (dir ++ [payload]) = none := by
    have same := kept (dir ++ [payload] ++ []) (not_prefix_of_ne pm.symm []) (not_prefix_of_ne pc.symm [])
    rw [List.append_nil] at same
    rw [same,aside.payload_clear]
  obtain ⟨w₂,second,back',kept'⟩ := @restore_backup_done _ _ _ _ w₁ _ w slots.payload_leads slots.plain
    slots.spelled.1 (by rw [kept _ (shallow _) (shallow _),aside.parent]) clear (by
      rcases aside.payload_taken with none | ⟨some',held⟩
      · exact .inl none
      · refine .inr ⟨some',?_⟩
        intro rest
        rw [kept _ (not_prefix_of_ne mb rest) (not_prefix_of_ne bc.symm rest),held]) is_dir
  refine ⟨w₂,?_,?_⟩
  · rw [Prog.bind_of_ok first,Prog.bind_of_ok second]
    rfl
  · intro n among rest
    rcases List.mem_cons.mp among with rfl | last
    · exact back' rest
    · rw [List.mem_singleton.mp last,kept' _ (not_prefix_of_ne pm rest) (not_prefix_of_ne mb.symm rest),back rest]

omit slots in
/-- A directory that has been made is there, and what was below it is as it was. -/
theorem create_dir_all_kept {q : OsPath} {w w' : World} (plain : PlainDir dir) (nonroot : dir ≠ [])
    (done : Fs.create_dir_all dir w = (.ok (),w')) :
    w'.tree.node dir = some .dir ∧ (¬ q <+: dir → w'.tree.node q = w.tree.node q) := by
  obtain ⟨above,name,spelled,leads⟩ := plainDir_leads plain nonroot
  have makes := Fs.create_dir_all_done leads done
  rw [← spelled] at makes
  constructor
  · rw [makes.tree,if_pos (List.prefix_refl _)]
  · intro outside
    rw [makes.tree,if_neg outside]

omit slots in
/-- A call that fails or is made to fail leaves the tree. -/
theorem on_error_same {α : Type} {fault : Fault} {op : PublishOp} {m : Io α} {e : IoError} {w w' : World}
    (same : ∀ e w', m w = (.error e,w') → w' = w) (failed : fault.on op m w = (.error e,w')) : w' = w := by
  by_cases struck : fault.strikes op
  · obtain ⟨e',failing⟩ := Fault.on_struck struck m
    rw [failing,Prog.fail_apply,Prod.mk.injEq] at failed
    exact failed.2.symm
  · rw [Fault.on_spared struck] at failed
    exact same e w' failed

omit slots in
theorem on_ok_spared {α : Type} {fault : Fault} {op : PublishOp} {m : Io α} {a : α} {w w' : World}
    (done : fault.on op m w = (.ok a,w')) : m w = (.ok a,w') := by
  by_cases struck : fault.strikes op
  · obtain ⟨e,failing⟩ := Fault.on_struck struck m
    rw [failing] at done
    cases done
  · rwa [Fault.on_spared struck] at done

omit slots in
theorem create_dir_error {op : PublishOp} {fault : Fault} {e : IoError} {w w' : World} (plain : PlainDir dir)
    (nonroot : dir ≠ []) (failed : fault.on op (Fs.create_dir_all dir) w = (.error e,w')) :
    w' = w ∧ (w.tree.node dir = some .dir → fault.strikes op) := by
  obtain ⟨above,name,spelled,leads⟩ := plainDir_leads plain nonroot
  constructor
  · apply on_error_same _ failed
    intro e w' failed
    unfold Fs.create_dir_all at failed
    rw [leads.entry.named,if_neg (by decide)] at failed
    exact Fs.change_error failed
  · intro present
    by_contra spared
    rw [Fault.on_spared spared] at failed
    obtain ⟨w'',made⟩ := Fs.create_dir_all_again plain nonroot present
    rw [made] at failed
    cases failed

/-- The failing call is the check for the sidecar, or the rename that moves it aside. -/
def SidecarBackupFails (fault : Fault) (dir : OsPath) (meta_name : String) (w : World) : Prop :=
  fault.strikes .meta_exists ∨ fault.strikes .backup_meta ∧ w.tree.node (dir ++ [meta_name]) ≠ none

/-- From the point where both places are clear on, whatever fails is undone. -/
theorem publish_renames_undone {fault : Fault} {is_dir : Bool} {payload_backup meta_backup : Option OsPath}
    {w w₄ w' : World} {e : StorageError}
    (aside : Aside dir final_payload final_meta payload meta_name payload_uuid meta_uuid payload_backup meta_backup w w₄)
    (kind : ∀ node, w₄.tree.node (dir ++ [tmp]) = some node → (node = .dir ↔ is_dir = true))
    (failed : (do
      match ← Prog.attempt (fault.on .publish_payload (Fs.rename tmp_payload final_payload)) with
      | .error e =>
        restore_backup final_meta meta_backup false
        restore_backup final_payload payload_backup is_dir
        Prog.fail (.Io e)
      | .ok () =>
        match ← Prog.attempt (fault.on .publish_meta (Fs.rename tmp_meta final_meta)) with
        | .error e =>
          remove_path_if_exists final_payload is_dir
          restore_backup final_meta meta_backup false
          restore_backup final_payload payload_backup is_dir
          Prog.fail (.Io e)
        | .ok () =>
          cleanup_backup payload_backup is_dir
          cleanup_backup meta_backup false : Action Unit) w₄ = (.error e,w')) :
    Untouched dir payload meta_name w w' := by
  obtain ⟨pm,pt,ps,pb,pc,mt,ms,mb,mc,ts,tb,tc,sb,sc,bc⟩ := slots.names_ne
  have shallow : ∀ n : String, ¬ dir ++ [n] <+: dir := fun n below => absurd below.length_le (by simp)
  rcases third : fault.on .publish_payload (Fs.rename tmp_payload final_payload) w₄ with ⟨e₅ | _,w₅⟩
  · rw [Prog.bind_of_ok (attempt_ok_iff.mpr third)] at failed
    have same : w₅ = w₄ := by
      apply on_error_same _ third
      intro e w' failed
      rw [Fs.rename_leads slots.tmp_leads slots.payload_leads] at failed
      exact Fs.change_error failed
    subst same
    obtain ⟨w'',restored,untouched⟩ := restores_done slots aside is_dir e₅
    simp only at failed
    rw [restored,Prod.mk.injEq] at failed
    rw [← failed.2]
    exact untouched
  · rw [Prog.bind_of_ok (attempt_ok_iff.mpr third)] at failed
    obtain ⟨moves,there⟩ := Fs.rename_done slots.tmp_leads slots.payload_leads (on_ok_spared third)
    simp only at failed
    rcases fourth : fault.on .publish_meta (Fs.rename tmp_meta final_meta) w₅ with ⟨e₆ | _,w₆⟩
    · rw [Prog.bind_of_ok (attempt_ok_iff.mpr fourth)] at failed
      have same : w₆ = w₅ := by
        apply on_error_same _ fourth
        intro e w' failed
        rw [Fs.rename_leads slots.side_leads slots.meta_leads] at failed
        exact Fs.change_error failed
      subst same
      obtain ⟨node,here⟩ := Option.ne_none_iff_exists'.mp there
      have moved : w₆.tree.node (dir ++ [payload]) = some node := by
        have below := moves.tree (dir ++ [payload] ++ [])
        rw [if_pos (prefix_self_append []),List.drop_left,List.append_nil,List.append_nil,here] at below
        exact below
      obtain ⟨w₇,removed,cleared⟩ := remove_path_if_exists_done slots.payload_leads moved (kind node here)
      simp only at failed
      rw [Prog.bind_of_ok removed] at failed
      have kept : ∀ n rest, payload ≠ n → tmp ≠ n →
          w₇.tree.node (dir ++ [n] ++ rest) = w₄.tree.node (dir ++ [n] ++ rest) := by
        intro n rest apart apart'
        rw [cleared,if_neg (not_prefix_of_ne apart rest),moves.tree,if_neg (not_prefix_of_ne apart rest),
          if_neg (not_prefix_of_ne apart' rest)]
      have aside' : Aside dir final_payload final_meta payload meta_name payload_uuid meta_uuid payload_backup
          meta_backup w w₇ := by
        refine ⟨?_,?_,?_,?_,?_⟩
        · rw [cleared,if_neg (shallow _),moves.tree,if_neg (shallow _),if_neg (shallow _),aside.parent]
        · rw [cleared,if_pos (List.prefix_refl _)]
        · have same := kept meta_name [] pm mt.symm
          rw [List.append_nil] at same
          rw [same,aside.meta_clear]
        · rcases aside.payload_taken with none | ⟨some',held⟩
          · exact .inl none
          · refine .inr ⟨some',?_⟩
            intro rest
            rw [kept _ rest pb tb,held]
        · rcases aside.meta_taken with none | ⟨some',held⟩
          · exact .inl none
          · refine .inr ⟨some',?_⟩
            intro rest
            rw [kept _ rest pc tc,held]
      obtain ⟨w'',restored,untouched⟩ := restores_done slots aside' is_dir e₆
      rw [restored,Prod.mk.injEq] at failed
      rw [← failed.2]
      exact untouched
    · -- both renames went through: what is left to do cannot fail
      rw [Prog.bind_of_ok (attempt_ok_iff.mpr fourth)] at failed
      obtain ⟨w₇,first⟩ := cleanup_backup_ok payload_backup is_dir w₆
      obtain ⟨w₈,second⟩ := cleanup_backup_ok meta_backup false w₇
      simp only at failed
      rw [Prog.bind_of_ok first,second] at failed
      cases failed

/-- A publication that returns an error leaves the final places as they were, unless it is the check for the sidecar
    or the backup of the sidecar that fails while there is a payload: that payload has been moved away. -/
theorem failed_publication_leaves_places_iff {fault : Fault} {is_dir : Bool} {e : StorageError} {w w' : World}
    (kind : ∀ node, w.tree.node (dir ++ [tmp]) = some node → (node = .dir ↔ is_dir = true))
    (free : w.tree.node (dir ++ [tempName payload_uuid]) = none)
    (free' : w.tree.node (dir ++ [tempName meta_uuid]) = none)
    (failed : publish_temp_payload_and_meta_under fault tmp_payload final_payload is_dir tmp_meta final_meta
      payload_uuid meta_uuid w = (.error e,w')) :
    Untouched dir payload meta_name w w' ↔
      ¬ (w.tree.node (dir ++ [payload]) ≠ none ∧ SidecarBackupFails fault dir meta_name w) := by
  obtain ⟨pm,pt,ps,pb,pc,mt,ms,mb,mc,ts,tb,tc,sb,sc,bc⟩ := slots.names_ne
  have shallow : ∀ n : String, ¬ dir ++ [n] <+: dir := fun n below => absurd below.length_le (by simp)
  have deeper : ∀ (n : String) rest, ¬ dir ++ [n] ++ rest <+: dir := fun n rest below =>
    absurd below.length_le (by simp)
  -- a failure elsewhere is not one of the sidecar's backup
  have elsewhere : ∀ op, fault.strikes op → op ≠ .meta_exists → op ≠ .backup_meta →
      ¬ SidecarBackupFails fault dir meta_name w := by
    rintro op struck apart apart' (other | ⟨other,_⟩)
    · exact apart (Fault.strikes_one struck other)
    · exact apart' (Fault.strikes_one struck other)
  have unchanged : ∀ v : World, (∀ n rest, v.tree.node (dir ++ [n] ++ rest) = w.tree.node (dir ++ [n] ++ rest)) →
      Untouched dir payload meta_name w v := fun v same n _ rest => same n rest
  unfold publish_temp_payload_and_meta_under at failed
  rw [slots.payload_leads.parent,slots.meta_leads.parent] at failed
  rcases first : fault.on .create_payload_dir (Fs.create_dir_all dir) w with ⟨e₁ | _,w₁⟩
  · obtain ⟨rfl,struck⟩ := create_dir_error slots.plain slots.nonroot first
    rw [Prog.bind_of_error (show io _ _ = (.error (.Io e₁),_) by rw [io,Prog.mapError_apply,first]; rfl),
      Prod.mk.injEq] at failed
    rw [← failed.2]
    refine iff_of_true (unchanged _ fun _ _ => rfl) ?_
    rintro ⟨present,sidecar⟩
    exact elsewhere _ (struck (w₁.tree.rooted _ _ present)) (by decide) (by decide) sidecar
  rw [Prog.bind_of_ok (io_ok_iff.mpr first)] at failed
  have made : ∀ q, _ := fun q => create_dir_all_kept (q := q) slots.plain slots.nonroot (on_ok_spared first)
  rcases second : fault.on .create_meta_dir (Fs.create_dir_all dir) w₁ with ⟨e₂ | _,w₂⟩
  · obtain ⟨rfl,struck⟩ := create_dir_error slots.plain slots.nonroot second
    rw [Prog.bind_of_error (show io _ _ = (.error (.Io e₂),_) by rw [io,Prog.mapError_apply,second]; rfl),
      Prod.mk.injEq] at failed
    rw [← failed.2]
    refine iff_of_true (unchanged _ fun n rest => (made _).2 (deeper n rest)) ?_
    rintro ⟨_,sidecar⟩
    exact elsewhere _ (struck (made []).1) (by decide) (by decide) sidecar
  rw [Prog.bind_of_ok (io_ok_iff.mpr second)] at failed
  have made' : ∀ q, _ := fun q => create_dir_all_kept (q := q) slots.plain slots.nonroot (on_ok_spared second)
  have same₂ : ∀ n rest, w₂.tree.node (dir ++ [n] ++ rest) = w.tree.node (dir ++ [n] ++ rest) := by
    intro n rest
    rw [(made' _).2 (deeper n rest),(made _).2 (deeper n rest)]
  have here₂ : ∀ n, w₂.tree.node (dir ++ [n]) = w.tree.node (dir ++ [n]) := by
    intro n
    have same := same₂ n []
    rwa [List.append_nil] at same
  rcases backup_existing_under_cases fault .payload_exists .backup_payload slots.payload_leads slots.plain
    slots.spelled.1 pb (made' []).1 (by rw [here₂,free]) with ⟨e₃,third,why⟩ | ⟨payload_backup,w₃,third,_,taken⟩
  · rw [Prog.bind_of_error third,Prod.mk.injEq] at failed
    rw [← failed.2]
    refine iff_of_true (unchanged _ same₂) ?_
    rintro ⟨_,sidecar⟩
    rcases why with struck | ⟨struck,_⟩
    · exact elsewhere _ struck (by decide) (by decide) sidecar
    · exact elsewhere _ struck (by decide) (by decide) sidecar
  rw [Prog.bind_of_ok third] at failed
  have same₃ : ∀ n rest, payload ≠ n → tempName payload_uuid ≠ n →
      w₃.tree.node (dir ++ [n] ++ rest) = w.tree.node (dir ++ [n] ++ rest) := by
    intro n rest apart apart'
    rw [taken.kept _ (not_prefix_of_ne apart rest) (not_prefix_of_ne apart' rest),same₂]
  have here₃ : ∀ n, payload ≠ n → tempName payload_uuid ≠ n →
      w₃.tree.node (dir ++ [n]) = w.tree.node (dir ++ [n]) := by
    intro n apart apart'
    have same := same₃ n [] apart apart'
    rwa [List.append_nil] at same
  have home₃ : w₃.tree.node dir = some .dir := by rw [taken.kept _ (shallow _) (shallow _),(made' []).1]
  rcases backup_existing_under_cases fault .meta_exists .backup_meta slots.meta_leads slots.plain slots.spelled.2 mc
    home₃ (by rw [here₃ _ pc bc,free']) with ⟨e₄,fourth,why⟩ | ⟨meta_backup,w₄,fourth,spared,taken'⟩
  · -- the payload is aside already, and nothing moves it back
    rw [here₃ _ pm mb.symm] at why
    rw [Prog.bind_of_error fourth,Prod.mk.injEq] at failed
    rw [← failed.2]
    have gone := taken.clear []
    rw [List.append_nil] at gone
    by_cases present : w.tree.node (dir ++ [payload]) = none
    · refine iff_of_true ?_ fun both => both.1 present
      intro n among rest
      rcases List.mem_cons.mp among with rfl | last
      · rw [taken.clear,w.tree.none_of_prefix (prefix_self_append rest) present]
      · rw [List.mem_singleton.mp last,same₃ _ rest pm mb.symm]
    · refine iff_of_false ?_ fun not => not ⟨present,why⟩
      intro untouched
      have same := untouched payload (by simp) []
      rw [List.append_nil,gone] at same
      exact present same.symm
  rw [Prog.bind_of_ok fourth] at failed
  rw [here₃ _ pm mb.symm] at spared
  refine iff_of_true ?_ fun both => spared both.2
  have same₄ : ∀ n rest, meta_name ≠ n → tempName meta_uuid ≠ n →
      w₄.tree.node (dir ++ [n] ++ rest) = w₃.tree.node (dir ++ [n] ++ rest) := by
    intro n rest apart apart'
    rw [taken'.kept _ (not_prefix_of_ne apart rest) (not_prefix_of_ne apart' rest)]
  apply publish_renames_undone slots ⟨?_,?_,?_,?_,?_⟩ _ failed
  · rw [taken'.kept _ (shallow _) (shallow _),home₃]
  · have same := same₄ payload [] pm.symm pc.symm
    rw [List.append_nil] at same
    have gone := taken.clear []
    rw [List.append_nil] at gone
    rw [same,gone]
  · have gone := taken'.clear []
    rwa [List.append_nil] at gone
  · rcases taken.taken with ⟨none,absent⟩ | ⟨some',held⟩
    · exact .inl ⟨none,by rw [← here₂,absent]⟩
    · refine .inr ⟨some',?_⟩
      intro rest
      rw [same₄ _ rest mb bc.symm,held,same₂]
  · rcases taken'.taken with ⟨none,absent⟩ | ⟨some',held⟩
    · exact .inl ⟨none,by rw [← here₃ _ pm mb.symm,absent]⟩
    · refine .inr ⟨some',?_⟩
      intro rest
      rw [held,same₃ _ rest pm mb.symm]
  · intro node there
    have same := same₄ tmp [] mt tc.symm
    rw [List.append_nil] at same
    rw [same,here₃ _ pt tb.symm] at there
    exact kind node there

end Publish

namespace Sample
open Maxio.Sample (world)

/-- An object, and a new payload and sidecar ready to take its place. -/
def replacing : World :=
  (do Fs.write ["data","logs","a"] (.bytes [1])
      Fs.write ["data","logs","a.meta.json"] (.bytes [2])
      Fs.write ["data","logs",".maxio-tmp-p"] (.bytes [3])
      Fs.write ["data","logs",".maxio-tmp-m"] (.bytes [4]) : Io Unit).run (world false) |>.2

/-- The publication over the object, with one call that fails. -/
def replace_under (fault : Fault) : Except StorageError Unit × World :=
  publish_temp_payload_and_meta_under fault ["data","logs",".maxio-tmp-p"] ["data","logs","a"] false
    ["data","logs",".maxio-tmp-m"] ["data","logs","a.meta.json"] "q" "n" replacing

theorem replacing_slots : Slots ["data","logs"] ["data","logs","a"] ["data","logs","a.meta.json"]
    ["data","logs",".maxio-tmp-p"] ["data","logs",".maxio-tmp-m"] "a" "a.meta.json" ".maxio-tmp-p" ".maxio-tmp-m"
    "q" "n" := by
  have plain : PlainDir ["data","logs"] := by
    intro s among
    rcases List.mem_cons.mp among with rfl | last
    · exact ⟨by decide,by decide⟩
    · rw [List.mem_singleton.mp last]
      exact ⟨by decide,by decide⟩
  constructor
  · exact plain
  · decide
  · exact leads_plain plain (by decide) (by decide)
  · exact leads_plain plain (by decide) (by decide)
  · exact leads_plain plain (by decide) (by decide)
  · exact leads_plain plain (by decide) (by decide)
  · decide
  · decide

theorem replacing_kind : ∀ node, replacing.tree.node (["data","logs"] ++ [".maxio-tmp-p"]) = some node →
    (node = .dir ↔ false = true) := by
  intro node there
  rw [show replacing.tree.node (["data","logs"] ++ [".maxio-tmp-p"]) = some (.file (.bytes [3])) by decide +kernel,
    Option.some.injEq] at there
  simp [← there]

end Sample

/-- When the rename of the payload fails, the object is moved back. -/
theorem failed_payload_rename_leaves_object :
    ∃ w', Sample.replace_under (some (.publish_payload,.os .Other)) = (.error (.Io (.os .Other)),w') ∧
      Untouched ["data","logs"] "a" "a.meta.json" Sample.replacing w' := by
  have error : (Sample.replace_under (some (.publish_payload,.os .Other))).1 = .error (.Io (.os .Other)) := by
    decide +kernel
  refine ⟨_,Prod.ext error rfl,?_⟩
  refine (failed_publication_leaves_places_iff Sample.replacing_slots Sample.replacing_kind (by decide +kernel)
    (by decide +kernel) (Prod.ext error rfl)).mpr ?_
  rintro ⟨_,struck | ⟨struck,_⟩⟩
  · exact absurd struck (by decide)
  · exact absurd struck (by decide)

/-- When the check for the sidecar fails, the error is returned and the object's payload is gone. -/
theorem failed_sidecar_check_loses_payload :
    (Sample.replace_under (some (.meta_exists,.os .Other))).1 = .error (.Io (.os .Other)) ∧
      Sample.replacing.tree.node ["data","logs","a"] = some (.file (.bytes [1])) ∧
      (Sample.replace_under (some (.meta_exists,.os .Other))).2.tree.node ["data","logs","a"] = none := by
  refine ⟨?_,?_,?_⟩ <;> decide +kernel

end Common
end Maxio
