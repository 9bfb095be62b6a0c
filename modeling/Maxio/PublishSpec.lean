import Maxio.ChunkSpec
import Maxio.ObjectIo

/-!
Publication of a finished payload and its sidecar: what a run that succeeds leaves in the directory of the key,
and that it succeeds when the names it makes up are new.
-/

set_option linter.unusedSimpArgs false

namespace Maxio
open FileTree (Node Tree)

theorem attempt_ok_iff {σ ε ε' α : Type} {m : Prog σ ε α} {s s' : σ} {r : Except ε α} :
    (Prog.attempt m : Prog σ ε' (Except ε α)) s = (.ok r,s') ↔ m s = (r,s') := by
  rw [Prog.attempt_apply,Prod.mk.injEq,Except.ok.injEq]
  rcases m s with ⟨a,b⟩
  rw [Prod.mk.injEq]

/-- Two entries of one directory have nothing below them in common. -/
theorem not_prefix_of_ne {dir : OsPath} {a b : String} (apart : a ≠ b) (rest : OsPath) :
    ¬ dir ++ [a] <+: dir ++ [b] ++ rest := by
  rw [List.append_assoc,List.prefix_append_right_inj,List.singleton_append,List.cons_prefix_cons]
  exact fun both => apart both.1

theorem prefix_self_append {dir : OsPath} {a : String} (rest : OsPath) : dir ++ [a] <+: dir ++ [a] ++ rest :=
  List.prefix_append _ _

/-- An ordinary directory path, as a path to an entry of the directory above. -/
theorem plainDir_leads {dir : OsPath} (plain : PlainDir dir) (nonroot : dir ≠ []) :
    ∃ above name, dir = above ++ [name] ∧ Leads dir above name := by
  rcases List.eq_nil_or_concat dir with rfl | ⟨above,name,spelled⟩
  · exact absurd rfl nonroot
  · rw [List.concat_eq_append] at spelled
    subst spelled
    have last := plain name (by simp)
    exact ⟨above,name,rfl,leads_plain (fun s member => plain s (List.mem_append_left _ member)) last.1 last.2⟩

namespace Fs

/-- Making a directory that is there changes nothing. -/
theorem create_dir_all_present {dir : OsPath} {w w' : World} (plain : PlainDir dir) (nonroot : dir ≠ [])
    (present : w.tree.node dir = some .dir) (done : create_dir_all dir w = (.ok (),w')) (q : OsPath) :
    w'.tree.node q = w.tree.node q := by
  obtain ⟨above,name,spelled,leads⟩ := plainDir_leads plain nonroot
  have makes := create_dir_all_done leads done
  rw [← spelled] at makes
  rw [makes.tree]
  split
  next within =>
    by_cases same : q = dir
    · rw [same,present]
    · exact (w.tree.dir_of_prefix within same (by simp [present])).symm
  next => rfl

theorem try_exists_done {p dir : OsPath} {name : String} {w w' : World} {found : Bool} (leads : Leads p dir name)
    (done : try_exists p w = (.ok found,w')) : w' = w ∧ (found = true ↔ w.tree.node (dir ++ [name]) ≠ none) := by
  rw [try_exists,observe_ok_iff,existsAt_leads leads] at done
  refine ⟨done.2,?_⟩
  rcases here : w.tree.node (dir ++ [name]) with _ | node
  · simp only [here] at done
    split at done
    next => obtain ⟨same,_⟩ := done; injection same with same; simp [← same]
    next => cases done.1
  · simp only [here] at done
    obtain ⟨same,_⟩ := done
    injection same with same
    simp [← same]

end Fs

namespace Common

/-- A backup leaves nothing at the old place. -/
theorem backup_existing_done {p dir : OsPath} {name uuid : String} {w w' : World} {backup : Option OsPath}
    (leads : Leads p dir name) (plain : PlainDir dir) (spelled : '/' ∉ uuid.toList) (apart : name ≠ tempName uuid)
    (done : backup_existing p uuid w = (.ok backup,w')) :
    (backup = none ∨ backup = some (temp_sibling_path p uuid)) ∧
      (∀ rest, w'.tree.node (dir ++ [name] ++ rest) = none) ∧
      ∀ q, ¬ dir ++ [name] <+: q → ¬ dir ++ [tempName uuid] <+: q → w'.tree.node q = w.tree.node q := by
  simp only [backup_existing,Prog.bind_ok_iff,io_ok_iff] at done
  obtain ⟨found,w₁,asked,done⟩ := done
  obtain ⟨rfl,exists'⟩ := Fs.try_exists_done leads asked
  split at done
  next here =>
    simp only [Prog.bind_ok_iff,io_ok_iff,pure_ok_iff] at done
    obtain ⟨_,_,renamed,rfl,rfl⟩ := done
    have moves := (Fs.rename_done leads (temp_sibling_leads leads plain spelled) renamed).1
    refine ⟨.inr rfl,fun rest => ?_,fun q outside outside' => ?_⟩
    · rw [moves.tree,if_neg (not_prefix_of_ne apart.symm rest),if_pos (prefix_self_append rest)]
    · rw [moves.tree,if_neg outside',if_neg outside]
  next absent =>
    rw [pure_ok_iff] at done
    obtain ⟨rfl,rfl⟩ := done
    have gone : w'.tree.node (dir ++ [name]) = none := by
      by_contra present
      exact absent (exists'.mpr present)
    exact ⟨.inl rfl,fun rest => w'.tree.none_of_prefix (prefix_self_append rest) gone,fun _ _ _ => rfl⟩

section Cleanup
variable {S G : OsPath → Prop}

theorem frames_remove_path_if_exists {p : OsPath} (is_dir : Bool) (forward : Forward p)
    (last : is_dir = true → p.getLast? ≠ some ".") (inside : dotted p = false → ∀ q, canon p <+: q → S q) :
    Frames S G (remove_path_if_exists p is_dir) := by
  unfold remove_path_if_exists
  split
  next dir => exact Frames.ignore (Fs.frames_remove_dir_all forward (last dir) inside)
  next => exact Frames.ignore (Fs.frames_remove_file forward fun named => inside named _ (List.prefix_refl _))

theorem frames_cleanup_backup {backup : Option OsPath} (is_dir : Bool)
    (ready : ∀ p, backup = some p → Entry p ∧ ∀ q, canon p <+: q → S q) :
    Frames S G (cleanup_backup backup is_dir) := by
  unfold cleanup_backup
  cases backup with
  | none => exact Frames.pure ()
  | some p =>
    obtain ⟨entry,inside⟩ := ready p rfl
    exact frames_remove_path_if_exists is_dir entry.forward (fun _ => Fs.last_of_named entry.named) fun _ => inside

end Cleanup

/-- The six places of one publication in the directory of a key. -/
structure Slots (dir final_payload final_meta tmp_payload tmp_meta : OsPath)
    (payload meta_name tmp tmp_side payload_uuid meta_uuid : String) : Prop where
  plain : PlainDir dir
  nonroot : dir ≠ []
  payload_leads : Leads final_payload dir payload
  meta_leads : Leads final_meta dir meta_name
  tmp_leads : Leads tmp_payload dir tmp
  side_leads : Leads tmp_meta dir tmp_side
  spelled : '/' ∉ payload_uuid.toList ∧ '/' ∉ meta_uuid.toList
  distinct : [payload,meta_name,tmp,tmp_side,tempName payload_uuid,tempName meta_uuid].Nodup

section Publish
variable {dir final_payload final_meta tmp_payload tmp_meta : OsPath}
  {payload meta_name tmp tmp_side payload_uuid meta_uuid : String}
  (slots : Slots dir final_payload final_meta tmp_payload tmp_meta payload meta_name tmp tmp_side payload_uuid
    meta_uuid)
include slots

theorem Slots.names_ne : payload ≠ meta_name ∧ payload ≠ tmp ∧ payload ≠ tmp_side ∧ payload ≠ tempName payload_uuid ∧
    payload ≠ tempName meta_uuid ∧ meta_name ≠ tmp ∧ meta_name ≠ tmp_side ∧ meta_name ≠ tempName payload_uuid ∧
    meta_name ≠ tempName meta_uuid ∧ tmp ≠ tmp_side ∧ tmp ≠ tempName payload_uuid ∧ tmp ≠ tempName meta_uuid ∧
    tmp_side ≠ tempName payload_uuid ∧ tmp_side ≠ tempName meta_uuid ∧ tempName payload_uuid ≠ tempName meta_uuid := by
  have distinct := slots.distinct
  simp only [List.nodup_cons,List.mem_cons,not_or,List.not_mem_nil,not_false_eq_true,and_true] at distinct
  tauto

/-- What a publication that succeeds has done: payload and sidecar have moved, and what was there is out of the
    way. -/
theorem publish_temp_payload_and_meta_done {is_dir : Bool} {w w' : World} (present : w.tree.node (dir ++ [tmp]) ≠ none)
    (done : publish_temp_payload_and_meta tmp_payload final_payload is_dir tmp_meta final_meta payload_uuid meta_uuid w =
      (.ok (),w')) :
    (∀ rest, w'.tree.node (dir ++ [payload] ++ rest) = w.tree.node (dir ++ [tmp] ++ rest)) ∧
      (∀ rest, w'.tree.node (dir ++ [meta_name] ++ rest) = w.tree.node (dir ++ [tmp_side] ++ rest)) ∧
      (∀ rest, w'.tree.node (dir ++ [tmp] ++ rest) = none) ∧
      (∀ rest, w'.tree.node (dir ++ [tmp_side] ++ rest) = none) ∧
      ∀ q, (∀ n ∈ [payload,meta_name,tmp,tmp_side,tempName payload_uuid,tempName meta_uuid], ¬ dir ++ [n] <+: q) →
        w'.tree.node q = w.tree.node q := by
  obtain ⟨pm,pt,ps,pb,pc,mt,ms,mb,mc,ts,tb,tc,sb,sc,bc⟩ := slots.names_ne
  have home : w.tree.node dir = some .dir := w.tree.rooted _ _ present
  simp only [publish_temp_payload_and_meta,slots.payload_leads.parent,slots.meta_leads.parent,Prog.bind_ok_iff,io_ok_iff,
    attempt_ok_iff] at done
  obtain ⟨_,w₁,made,_,w₂,made',backup,w₃,first,backup',w₄,second,moved,w₅,third,done⟩ := done
  have same₁ := Fs.create_dir_all_present slots.plain slots.nonroot home made
  have same₂ := Fs.create_dir_all_present slots.plain slots.nonroot (by rw [same₁,home]) made'
  obtain ⟨spelled₁,clear₁,kept₁⟩ := backup_existing_done slots.payload_leads slots.plain slots.spelled.1 pb first
  obtain ⟨spelled₂,clear₂,kept₂⟩ := backup_existing_done slots.meta_leads slots.plain slots.spelled.2 mc second
  cases moved with
  | error e =>
    simp only [Prog.bind_ok_iff] at done
    obtain ⟨_,_,_,_,_,_,impossible⟩ := done
    simp at impossible
  | ok _ =>
    simp only [Prog.bind_ok_iff,attempt_ok_iff] at done
    obtain ⟨moved',w₆,fourth,done⟩ := done
    have moves := (Fs.rename_done slots.tmp_leads slots.payload_leads third).1
    cases moved' with
    | error e =>
      simp only [Prog.bind_ok_iff] at done
      obtain ⟨_,_,_,_,_,_,_,_,_,impossible⟩ := done
      simp at impossible
    | ok _ =>
      have moves' := (Fs.rename_done slots.side_leads slots.meta_leads fourth).1
      -- the cleanup only touches the backups
      have cleaned : Frame (fun q => dir ++ [tempName payload_uuid] <+: q ∨ dir ++ [tempName meta_uuid] <+: q)
          (fun _ => False) w₆ w' := by
        have frames : Frames (fun q => dir ++ [tempName payload_uuid] <+: q ∨ dir ++ [tempName meta_uuid] <+: q)
            (fun _ => False) (do cleanup_backup backup is_dir; cleanup_backup backup' false : Action Unit) := by
          refine Frames.bind (frames_cleanup_backup _ ?_) fun _ => frames_cleanup_backup _ ?_
          · rintro p rfl
            rcases spelled₁ with none | some'
            · cases none
            · cases some'
              have leads := temp_sibling_leads slots.payload_leads slots.plain slots.spelled.1
              exact ⟨leads.entry,fun q under => .inl (leads.names ▸ under)⟩
          · rintro p rfl
            rcases spelled₂ with none | some'
            · cases none
            · cases some'
              have leads := temp_sibling_leads slots.meta_leads slots.plain slots.spelled.2
              exact ⟨leads.entry,fun q under => .inr (leads.names ▸ under)⟩
        have ended := frames w₆
        change (do cleanup_backup backup is_dir; cleanup_backup backup' false : Action Unit) w₆ = (.ok (),w') at done
        rw [done] at ended
        exact ended
      have final : ∀ q, ¬ dir ++ [tempName payload_uuid] <+: q → ¬ dir ++ [tempName meta_uuid] <+: q →
          w'.tree.node q = w₆.tree.node q :=
        fun q out out' => cleaned.same (fun inside => inside.elim out out') id
      have before : ∀ q, (∀ n ∈ [payload,meta_name,tempName payload_uuid,tempName meta_uuid], ¬ dir ++ [n] <+: q) →
          w₄.tree.node q = w.tree.node q := by
        intro q outside
        simp only [List.mem_cons,List.not_mem_nil,or_false,forall_eq_or_imp,forall_eq] at outside
        obtain ⟨o₁,o₂,o₃,o₄⟩ := outside
        rw [kept₂ q o₂ o₄,kept₁ q o₁ o₃,same₂,same₁]
      refine ⟨fun rest => ?_,fun rest => ?_,fun rest => ?_,fun rest => ?_,fun q outside => ?_⟩
      · rw [final _ (not_prefix_of_ne pb.symm rest) (not_prefix_of_ne pc.symm rest),moves'.tree,
          if_neg (not_prefix_of_ne pm.symm rest),if_neg (not_prefix_of_ne ps.symm rest),moves.tree,
          if_pos (prefix_self_append rest),List.drop_left,before]
        simp only [List.mem_cons,List.not_mem_nil,or_false,forall_eq_or_imp,forall_eq]
        exact ⟨not_prefix_of_ne pt rest,not_prefix_of_ne mt rest,not_prefix_of_ne tb.symm rest,
          not_prefix_of_ne tc.symm rest⟩
      · rw [final _ (not_prefix_of_ne mb.symm rest) (not_prefix_of_ne mc.symm rest),moves'.tree,
          if_pos (prefix_self_append rest),List.drop_left,moves.tree,if_neg (not_prefix_of_ne ps rest),
          if_neg (not_prefix_of_ne ts rest),before]
        simp only [List.mem_cons,List.not_mem_nil,or_false,forall_eq_or_imp,forall_eq]
        exact ⟨not_prefix_of_ne ps rest,not_prefix_of_ne ms rest,not_prefix_of_ne sb.symm rest,
          not_prefix_of_ne sc.symm rest⟩
      · rw [final _ (not_prefix_of_ne tb.symm rest) (not_prefix_of_ne tc.symm rest),moves'.tree,
          if_neg (not_prefix_of_ne mt rest),if_neg (not_prefix_of_ne ts.symm rest),moves.tree,
          if_neg (not_prefix_of_ne pt rest),if_pos (prefix_self_append rest)]
      · rw [final _ (not_prefix_of_ne sb.symm rest) (not_prefix_of_ne sc.symm rest),moves'.tree,
          if_neg (not_prefix_of_ne ms rest),if_pos (prefix_self_append rest)]
      · simp only [List.mem_cons,List.not_mem_nil,or_false,forall_eq_or_imp,forall_eq] at outside
        obtain ⟨o₁,o₂,o₃,o₄,o₅,o₆⟩ := outside
        rw [final q o₅ o₆,moves'.tree,if_neg o₂,if_neg o₄,moves.tree,if_neg o₁,if_neg o₃,before]
        simp only [List.mem_cons,List.not_mem_nil,or_false,forall_eq_or_imp,forall_eq]
        exact ⟨o₁,o₂,o₅,o₆⟩

end Publish
end Common
end Maxio
