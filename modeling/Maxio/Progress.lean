import Maxio.PutSpec

/-!
Calls that cannot fail where they are made: a publication whose made-up names are new goes through.
-/

set_option linter.unusedSimpArgs false

namespace Maxio
open FileTree (Node Tree ErrorKind)

namespace Fs
variable {p p' dir dir' : OsPath} {name name' : String} {w : World}

theorem missing_of_parent {t : Disk} (parent : t.node dir = some .dir) (absent : t.node (dir ++ [name]) = none) :
    t.missing (dir ++ [name]) = .NotFound := by
  rw [Tree.missing,if_neg]
  rw [List.any_eq_true]
  rintro ⟨q,within,file⟩
  rw [List.mem_inits,List.prefix_concat_iff] at within
  obtain ⟨c,here⟩ := Tree.isFile_iff.mp file
  rcases within with rfl | within
  · rw [absent] at here; cases here
  · by_cases same : q = dir
    · rw [same,parent] at here; cases here
    · rw [t.dir_of_prefix within same (by simp [parent])] at here
      cases here

theorem try_exists_succeeds (leads : Leads p dir name) (parent : w.tree.node dir = some .dir) :
    try_exists p w = (.ok (w.tree.node (dir ++ [name])).isSome,w) := by
  rw [try_exists,observe_ok_iff,existsAt_leads leads]
  refine ⟨?_,rfl⟩
  rcases here : w.tree.node (dir ++ [name]) with _ | node
  · simp [missing_of_parent parent here]
  · rfl

theorem rename_succeeds (leads : Leads p dir name) (leads' : Leads p' dir' name')
    (present : w.tree.node (dir ++ [name]) ≠ none) (parent : w.tree.node dir' = some .dir)
    (apart : ¬ dir ++ [name] <+: dir') (free : w.tree.node (dir' ++ [name']) = none) :
    ∃ w', rename p p' w = (.ok (),w') := by
  obtain ⟨t,moved⟩ := Tree.rename_ok present (by simp) (show dir' ++ [name'] ≠ [] by simp) (by simpa using parent)
    (by simpa using apart) free
  exact ⟨_,by rw [rename_leads leads leads',change_ok_iff]; exact ⟨t,moved,rfl⟩⟩

theorem create_dir_all_again (plain : PlainDir dir) (nonroot : dir ≠ []) (present : w.tree.node dir = some .dir) :
    ∃ w', create_dir_all dir w = (.ok (),w') := by
  obtain ⟨above,last,spelled,leads⟩ := plainDir_leads plain nonroot
  refine create_dir_all_succeeds leads fun q within => .inr ?_
  rw [← spelled] at within
  by_cases same : q = dir
  · rw [same,present]
  · exact w.tree.dir_of_prefix within same (by simp [present])

end Fs

namespace Common
section
variable {dir : OsPath} {w : World}

theorem backup_existing_succeeds {p : OsPath} {name uuid : String} (leads : Leads p dir name) (plain : PlainDir dir)
    (spelled : '/' ∉ uuid.toList) (parent : w.tree.node dir = some .dir)
    (free : w.tree.node (dir ++ [tempName uuid]) = none) : ∃ backup w', backup_existing p uuid w = (.ok backup,w') := by
  unfold backup_existing
  rw [Prog.bind_of_ok (io_ok_iff.mpr (Fs.try_exists_succeeds leads parent))]
  cases here : w.tree.node (dir ++ [name]) with
  | none => exact ⟨none,w,rfl⟩
  | some node =>
    obtain ⟨w',moved⟩ := Fs.rename_succeeds leads (temp_sibling_leads leads plain spelled) (by simp [here]) parent
      (fun below => absurd below.length_le (by simp)) free
    refine ⟨some (temp_sibling_path p uuid),w',?_⟩
    rw [Option.isSome_some,if_pos rfl,Prog.bind_of_ok (io_ok_iff.mpr moved)]
    rfl

/-- With new names for the backups, a publication of what is there goes through. -/
theorem publish_temp_payload_and_meta_succeeds {final_payload final_meta tmp_payload tmp_meta : OsPath}
    {payload meta_name tmp tmp_side payload_uuid meta_uuid : String} (is_dir : Bool)
    (slots : Slots dir final_payload final_meta tmp_payload tmp_meta payload meta_name tmp tmp_side payload_uuid
      meta_uuid)
    (present : w.tree.node (dir ++ [tmp]) ≠ none) (present' : w.tree.node (dir ++ [tmp_side]) ≠ none)
    (free : w.tree.node (dir ++ [tempName payload_uuid]) = none)
    (free' : w.tree.node (dir ++ [tempName meta_uuid]) = none) :
    ∃ w', publish_temp_payload_and_meta tmp_payload final_payload is_dir tmp_meta final_meta payload_uuid meta_uuid w =
      (.ok (),w') := by
  obtain ⟨pm,pt,ps,pb,pc,mt,ms,mb,mc,ts,tb,tc,sb,sc,bc⟩ := slots.names_ne
  have home : w.tree.node dir = some .dir := w.tree.rooted _ _ present
  have single : ∀ {a b : String}, a ≠ b → ¬ dir ++ [a] <+: dir ++ [b] := by
    intro a b apart
    have : ¬ dir ++ [a] <+: dir ++ [b] ++ [] := not_prefix_of_ne apart []
    rwa [List.append_nil] at this
  have shallow : ∀ n : String, ¬ dir ++ [n] <+: dir := fun n below => absurd below.length_le (by simp)
  obtain ⟨w₁,made⟩ := Fs.create_dir_all_again slots.plain slots.nonroot home
  have same₁ := Fs.create_dir_all_present slots.plain slots.nonroot home made
  obtain ⟨w₂,made'⟩ := Fs.create_dir_all_again (w := w₁) slots.plain slots.nonroot (by rw [same₁,home])
  have same₂ := Fs.create_dir_all_present slots.plain slots.nonroot (by rw [same₁,home]) made'
  have same : ∀ q, w₂.tree.node q = w.tree.node q := fun q => by rw [same₂,same₁]
  obtain ⟨backup,w₃,first⟩ := backup_existing_succeeds (w := w₂) slots.payload_leads slots.plain slots.spelled.1
    (by rw [same,home]) (by rw [same,free])
  obtain ⟨_,clear₁,kept₁⟩ := backup_existing_done slots.payload_leads slots.plain slots.spelled.1 pb first
  have here₃ : ∀ n, n ≠ payload → n ≠ tempName payload_uuid → w₃.tree.node (dir ++ [n]) = w.tree.node (dir ++ [n]) := by
    intro n apart apart'
    rw [kept₁ _ (single apart.symm) (single apart'.symm),same]
  have home₃ : w₃.tree.node dir = some .dir := by
    rw [kept₁ _ (shallow _) (shallow _),same,home]
  obtain ⟨backup',w₄,second⟩ := backup_existing_succeeds (w := w₃) slots.meta_leads slots.plain slots.spelled.2 home₃
    (by rw [here₃ _ pc.symm bc.symm,free'])
  obtain ⟨_,clear₂,kept₂⟩ := backup_existing_done slots.meta_leads slots.plain slots.spelled.2 mc second
  have here₄ : ∀ n, n ≠ meta_name → n ≠ tempName meta_uuid → w₄.tree.node (dir ++ [n]) = w₃.tree.node (dir ++ [n]) := by
    intro n apart apart'
    rw [kept₂ _ (single apart.symm) (single apart'.symm)]
  have home₄ : w₄.tree.node dir = some .dir := by rw [kept₂ _ (shallow _) (shallow _),home₃]
  have gone₄ : w₄.tree.node (dir ++ [payload]) = none := by
    have clear := clear₁ []
    rw [List.append_nil] at clear
    rw [here₄ _ pm pc,clear]
  have side₄ : w₄.tree.node (dir ++ [meta_name]) = none := by
    have clear := clear₂ []
    rwa [List.append_nil] at clear
  obtain ⟨w₅,third⟩ := Fs.rename_succeeds (w := w₄) slots.tmp_leads slots.payload_leads
    (by rw [here₄ _ mt.symm tc,here₃ _ pt.symm tb]; exact present) home₄ (shallow _) gone₄
  have moves := (Fs.rename_done slots.tmp_leads slots.payload_leads third).1
  have here₅ : ∀ n, n ≠ payload → n ≠ tmp → w₅.tree.node (dir ++ [n]) = w₄.tree.node (dir ++ [n]) := by
    intro n apart apart'
    rw [moves.tree,if_neg (single apart.symm),if_neg (single apart'.symm)]
  have home₅ : w₅.tree.node dir = some .dir := by
    rw [moves.tree,if_neg (shallow _),if_neg (shallow _),home₄]
  obtain ⟨w₆,fourth⟩ := Fs.rename_succeeds (w := w₅) slots.side_leads slots.meta_leads
    (by rw [here₅ _ ps.symm ts.symm,here₄ _ ms.symm sc,here₃ _ ps.symm sb]; exact present') home₅ (shallow _)
    (by rw [here₅ _ pm.symm mt,side₄])
  have cleanup : ∀ (b : Option OsPath) (d : Bool) (w : World), ∃ w', cleanup_backup b d w = (.ok (),w') := by
    intro b d w
    cases b with
    | none => exact ⟨w,rfl⟩
    | some p => cases d <;> exact ⟨_,rfl⟩
  obtain ⟨w₇,fifth⟩ := cleanup backup is_dir w₆
  obtain ⟨w₈,sixth⟩ := cleanup backup' false w₇
  refine ⟨w₈,?_⟩
  unfold publish_temp_payload_and_meta
  rw [slots.payload_leads.parent,slots.meta_leads.parent,Prog.bind_of_ok (io_ok_iff.mpr made),
    Prog.bind_of_ok (io_ok_iff.mpr made'),Prog.bind_of_ok first,Prog.bind_of_ok second,
    Prog.bind_of_ok (attempt_ok_iff.mpr third)]
  simp only
  rw [Prog.bind_of_ok (attempt_ok_iff.mpr fourth)]
  simp only
  rw [Prog.bind_of_ok fifth,sixth]

end
end Common

/-- The names a call makes up for temporary files are not in use in a directory. -/
def Unused (draws : Draws) (dir : OsPath) (w : World) : Prop := ∀ n ∈ tempNames draws, w.tree.node (dir ++ [n]) = none

section
variable {fs : FilesystemStorage} {bucket key : String} {draws : Draws} {w : World}

/-- Publishing a payload that is there cannot fail. -/
theorem publish_succeeds (accepted : Accepted bucket key) {payload : String} {tmp final : OsPath} {is_dir : Bool}
    {record : ObjectMeta} (final_leads : Leads final (home fs bucket key) payload)
    (tmp_leads : Leads tmp (home fs bucket key) (tempName draws.tmp_payload)) (apart : payload ≠ metaName key)
    (own : ∀ uuid : String, '.' ∉ uuid.toList → payload ≠ tempName uuid)
    (present : w.tree.node (home fs bucket key ++ [tempName draws.tmp_payload]) ≠ none)
    (side : w.tree.node (home fs bucket key ++ [tempName draws.tmp_meta]) ≠ some .dir)
    (free : w.tree.node (home fs bucket key ++ [tempName draws.backup_payload]) = none)
    (free' : w.tree.node (home fs bucket key ++ [tempName draws.backup_meta]) = none) :
    ∃ w', fs.publish draws bucket key tmp final is_dir record w = (.ok (),w') := by
  have slots := publish_slots accepted final_leads tmp_leads apart own
  obtain ⟨_,_,_,_,_,_,_,_,_,ts,tb,tc,sb,sc,bc⟩ := slots.names_ne
  have side_leads := accepted.temp_meta_leads fs draws.tmp_meta_slash
  have parent : w.tree.node (home fs bucket key) = some .dir := w.tree.rooted _ _ present
  obtain ⟨w₁,made⟩ := Fs.create_dir_all_again accepted.plain_home accepted.home_ne parent
  have same := Fs.create_dir_all_present accepted.plain_home accepted.home_ne parent made
  obtain ⟨w₂,written⟩ := Fs.write_succeeds (w := w₁) side_leads (by rw [same,parent]) (by rw [same]; exact side)
    (.json (.object record))
  have sets := (Fs.write_done side_leads written).1
  have other : ∀ n, n ≠ tempName draws.tmp_meta →
      w₂.tree.node (home fs bucket key ++ [n]) = w.tree.node (home fs bucket key ++ [n]) := by
    intro n ne
    rw [sets.other (fun eq => ne (List.singleton_inj.mp (List.append_cancel_left eq))),same]
  obtain ⟨w₃,published⟩ := Common.publish_temp_payload_and_meta_succeeds (w := w₂) is_dir slots
    (by rw [other _ ts]; exact present) (by rw [sets.here]; simp) (by rw [other _ sb.symm,free])
    (by rw [other _ sc.symm,free'])
  refine ⟨w₃,?_⟩
  unfold FilesystemStorage.publish
  simp only [accepted.meta_leads.parent,Common.with_guard]
  rw [Prog.bind_of_ok (io_ok_iff.mpr made),Prog.guarded_ok_iff,Prog.bind_of_ok (io_ok_iff.mpr written)]
  exact published

end

/-! ### Chunks without parity -/

/-- A directory whose entries are all files, in a tree that is otherwise that of `w₀`. -/
structure Ready (q : OsPath) (w₀ w : World) : Prop where
  dir : w.tree.node q = some .dir
  files : ∀ n, w.tree.node (q ++ [n]) ≠ some .dir
  outside : ∀ p, ¬ q <+: p → w.tree.node p = w₀.tree.node p

section Chunks
variable {P : Primitives} {path dir : OsPath} {name : String} {w₀ : World}

theorem write_entry_succeeds {p q : OsPath} {n : String} {w : World} (leads : Leads p q n) (ready : Ready q w₀ w)
    (c : Content) : ∃ w', Fs.write p c w = (.ok (),w') ∧ Ready q w₀ w' := by
  obtain ⟨w',written⟩ := Fs.write_succeeds leads ready.dir (ready.files n) c
  have sets := (Fs.write_done leads written).1
  refine ⟨w',written,?_,fun m => ?_,fun p other => ?_⟩
  · rw [sets.other (by simp),ready.dir]
  · rw [sets.tree]
    split
    · simp
    · exact ready.files m
  · rw [sets.other,ready.outside p other]
    rintro rfl
    exact other (List.prefix_append _ _)

variable (leads : Leads path dir name)
include leads

theorem write_chunk_to_dir_succeeds (i : Nat) (w : World) (piece : Bytes) (ready : Ready (dir ++ [name]) w₀ w) :
    ∃ ci w', write_chunk_to_dir P path i piece w = (.ok ci,w') ∧ Ready (dir ++ [name]) w₀ w' := by
  obtain ⟨w',written,still⟩ := write_entry_succeeds (leads.chunk i) ready (.bytes piece)
  exact ⟨_,w',(Prog.bind_of_ok (io_ok_iff.mpr written)).trans rfl,still⟩

theorem write_chunk_succeeds (cw : ChunkWriter) (w : World) (piece : Bytes) (ready : Ready (dir ++ [name]) w₀ w) :
    ∃ cw' w', cw.write_chunk P path piece w = (.ok cw',w') ∧ Ready (dir ++ [name]) w₀ w' := by
  obtain ⟨ci,w',written,still⟩ := write_chunk_to_dir_succeeds leads cw.chunk_index w piece ready
  exact ⟨_,w',(Prog.bind_of_ok written).trans rfl,still⟩

theorem write_plain_succeeds (size : Nat) (acc : Nat × ChunkWriter) (w : World) (piece : Bytes)
    (ready : Ready (dir ++ [name]) w₀ w) :
    ∃ acc' w', write_plain P path size acc piece w = (.ok acc',w') ∧ Ready (dir ++ [name]) w₀ w' := by
  obtain ⟨cw,w',fed,still⟩ : ∃ cw w', acc.2.feed P path size piece w = (.ok cw,w') ∧ Ready (dir ++ [name]) w₀ w' :=
    Prog.fold_succeeds (fun _ w => Ready (dir ++ [name]) w₀ w) (fun cw w piece => write_chunk_succeeds leads cw w piece) _ _
      w ready
  exact ⟨_,w',(Prog.bind_of_ok fed).trans rfl,still⟩

theorem chunk_finish_succeeds (cw : ChunkWriter) (w : World) (ready : Ready (dir ++ [name]) w₀ w) :
    ∃ cw' w', cw.finish P path w = (.ok cw',w') ∧ Ready (dir ++ [name]) w₀ w' := by
  have close : ∀ (cw : ChunkWriter) (w : World), Ready (dir ++ [name]) w₀ w → ∃ cw' w', (if cw.chunks = [] then do
        let ci ← write_chunk_to_dir P path 0 []
        pure { cw with chunks := [ci] }
      else pure cw : Action ChunkWriter) w = (.ok cw',w') ∧ Ready (dir ++ [name]) w₀ w' := by
    intro cw w ready
    split
    · obtain ⟨ci,w',written,still⟩ := write_chunk_to_dir_succeeds leads 0 w [] ready
      exact ⟨_,w',(Prog.bind_of_ok written).trans rfl,still⟩
    · exact ⟨cw,w,rfl,ready⟩
  unfold ChunkWriter.finish
  dsimp only
  split
  · exact close cw w ready
  · obtain ⟨cw₁,w₁,written,ready₁⟩ := write_chunk_succeeds leads cw w cw.chunk_buf ready
    rw [Prog.bind_of_ok written]
    exact close _ w₁ ready₁

theorem write_manifest_succeeds (fs : FilesystemStorage) (plain : fs.parity_shards = 0) (cw : ChunkWriter) (total : Nat)
    (plaintext_size : Option Nat) (w : World) (ready : Ready (dir ++ [name]) w₀ w) :
    ∃ format w', fs.write_manifest P path cw total plaintext_size w = (.ok format,w') ∧
      Ready (dir ++ [name]) w₀ w' := by
  unfold FilesystemStorage.write_manifest
  simp only [plain,Nat.lt_irrefl,gt_iff_lt,decide_false,Bool.false_and,Bool.false_eq_true,if_false,Prog.pure_bind]
  obtain ⟨w',written,still⟩ := write_entry_succeeds leads.manifest ready (.json (.manifest {
    version := 1, total_size := total, chunk_size := fs.chunk_size, chunk_count := u32 cw.chunks.length
    chunks := cw.chunks ++ [], parity_shards := none, shard_size := none, plaintext_size }))
  exact ⟨_,w',(Prog.bind_of_ok (io_ok_iff.mpr written)).trans rfl,still⟩

end Chunks

section Store
variable {P : Primitives} {fs : FilesystemStorage} {bucket key : String} {draws : Draws} {w : World}

/-- With a new name, the temporary directory is made empty. -/
theorem in_temp_ec_dir_succeeds (accepted : Accepted bucket key) (present : w.tree.node (home fs bucket key) = some .dir)
    (free : w.tree.node (home fs bucket key ++ [tempName draws.tmp_payload]) = none) {α : Type} {write : OsPath → Action α}
    (inner : ∀ w₁, Ready (home fs bucket key ++ [tempName draws.tmp_payload]) w w₁ →
      ∃ a w', write (temp_sibling_path (ec_dir fs.buckets_dir bucket key) draws.tmp_payload) w₁ = (.ok a,w')) :
    ∃ a w', fs.in_temp_ec_dir draws bucket key write w = (.ok a,w') := by
  have leads := accepted.temp_ec_leads fs draws.tmp_payload_slash
  obtain ⟨w₁,made⟩ := Fs.create_dir_all_again accepted.plain_home accepted.home_ne present
  have same₁ := Fs.create_dir_all_present accepted.plain_home accepted.home_ne present made
  have above : ∀ q, q <+: home fs bucket key → w.tree.node q = some .dir := by
    intro q within
    by_cases same : q = home fs bucket key
    · rw [same,present]
    · exact w.tree.dir_of_prefix within same (by simp [present])
  obtain ⟨w₂,made'⟩ := Fs.create_dir_all_succeeds (w := w₁) leads fun q within => by
    rw [same₁]
    rcases List.prefix_concat_iff.mp within with rfl | within
    · exact .inl free
    · exact .inr (above q within)
  have makes := Fs.create_dir_all_done leads made'
  have ready : Ready (home fs bucket key ++ [tempName draws.tmp_payload]) w w₂ := by
    refine ⟨by rw [makes.tree,if_pos (List.prefix_refl _)],fun n => ?_,fun p other => ?_⟩
    · rw [makes.tree,if_neg (fun below => absurd below.length_le (by simp)),same₁,
        w.tree.none_of_prefix (prefix_self_append [n]) free]
      simp
    · rw [makes.tree]
      split
      next within =>
        rcases List.prefix_concat_iff.mp within with rfl | within
        · exact absurd (List.prefix_refl _) other
        · exact (above p within).symm
      next => rw [same₁]
  obtain ⟨a,w',written⟩ := inner w₂ ready
  refine ⟨a,w',?_⟩
  unfold FilesystemStorage.in_temp_ec_dir
  simp only [accepted.ec_leads.parent,Common.with_guard,Prog.guarded_ok_iff]
  rw [Prog.bind_of_ok (io_ok_iff.mpr made),Prog.bind_of_ok (io_ok_iff.mpr made'),written]

/-- In a directory that is there, a stream that does not fail is stored in chunks, however long it is. -/
theorem store_chunked_succeeds (accepted : Accepted bucket key) (plain : fs.parity_shards = 0)
    (present : w.tree.node (home fs bucket key) = some .dir) (unused : Unused draws (home fs bucket key) w)
    (content_type : String) {body : ByteStream} (algo : Option ChecksumAlgorithm) (whole : body.failure = none) :
    ∃ record w', fs.store_chunked P draws bucket key content_type body algo w = (.ok record,w') := by
  have leads := accepted.temp_ec_leads fs draws.tmp_payload_slash
  refine in_temp_ec_dir_succeeds accepted present (unused _ (by simp [tempNames])) fun w₁ ready => ?_
  obtain ⟨acc,w₂,fed,ready₂⟩ := Prog.fold_succeeds
    (fun _ w' => Ready (home fs bucket key ++ [tempName draws.tmp_payload]) w w')
    (fun acc w piece ready => write_plain_succeeds (P := P) leads fs.chunk_size acc w piece ready)
    body.reads (0,ChunkWriter.new) w₁ ready
  obtain ⟨cw,w₃,finished,ready₃⟩ := chunk_finish_succeeds (P := P) leads acc.2 w₂ ready₂
  obtain ⟨format,w₄,manifested,ready₄⟩ := write_manifest_succeeds (P := P) leads fs plain cw acc.1 none w₃ ready₃
  have clear : ∀ n ∈ tempNames draws, n ≠ tempName draws.tmp_payload → w₄.tree.node (home fs bucket key ++ [n]) = none := by
    intro n member apart
    rw [ready₄.outside,unused n member]
    have : ¬ home fs bucket key ++ [tempName draws.tmp_payload] <+: home fs bucket key ++ [n] ++ [] :=
      not_prefix_of_ne apart.symm []
    rwa [List.append_nil] at this
  have distinct := draws.distinct.map tempName_injective
  simp only [List.map_cons,List.map_nil,List.nodup_cons,List.mem_cons,List.not_mem_nil,or_false,not_or] at distinct
  have published : ∀ record, ∃ w', fs.publish draws bucket key
      (temp_sibling_path (ec_dir fs.buckets_dir bucket key) draws.tmp_payload) (ec_dir fs.buckets_dir bucket key) true
      record w₄ = (.ok (),w') := fun record =>
    publish_succeeds accepted accepted.ec_leads leads ecName_ne_metaName (fun _ plain => ecName_ne_tempName plain)
      (by simp [ready₄.dir]) (by rw [clear _ (by simp [tempNames]) (Ne.symm distinct.1.1)]; simp)
      (clear _ (by simp [tempNames]) (Ne.symm distinct.1.2.1)) (clear _ (by simp [tempNames]) (Ne.symm distinct.1.2.2))
  have pumped : pump (write_plain P (temp_sibling_path (ec_dir fs.buckets_dir bucket key) draws.tmp_payload) fs.chunk_size)
      map_read_quota_error body.reads body.failure (0,ChunkWriter.new) w₁ = (.ok acc,w₂) := by
    rw [pump,Prog.bind_of_ok fed,whole]
    rfl
  rw [Prog.bind_of_ok pumped]
  simp only
  rw [Prog.bind_of_ok finished,Prog.bind_of_ok manifested,Prog.bind_of_ok (next_version_id_eq accepted.bucket draws)]
  obtain ⟨w₅,moved⟩ := published _
  exact ⟨_,w₅,(Prog.bind_of_ok moved).trans rfl⟩

/-! A whole put. -/

theorem ensure_can_overwrite_absent (accepted : Accepted bucket key)
    (present : w.tree.node (home fs bucket key) = some .dir) (absent : w.tree.node (metaAt fs bucket key) = none) (now : Int) :
    fs.ensure_can_overwrite P now bucket key w = (.ok (),w) := by
  have found : Fs.try_exists (meta_path fs.buckets_dir bucket key) w = (.ok false,w) := by
    rw [Fs.try_exists_succeeds accepted.meta_leads present,show home fs bucket key ++ [metaName key] = _ from rfl]
    have none : w.tree.node (home fs bucket key ++ [metaName key]) = none := absent
    rw [none]
    rfl
  have asked : (unwrap_or false (Fs.try_exists (meta_path fs.buckets_dir bucket key)) : Action Bool) w = (.ok false,w) := by
    unfold unwrap_or
    rw [Prog.bind_of_ok (attempt_ok_iff.mpr found)]
    rfl
  unfold FilesystemStorage.ensure_can_overwrite
  rw [Prog.bind_of_ok asked]
  rfl

/-- Without limits the quota lets every stream through. -/
theorem quotaReads_unlimited {limits : QuotaLimits} (sizes : limits.max_object_bytes = 0)
    (reserve : limits.min_free_disk_bytes = 0) (available : Nat → Option Nat) (failure : Option IoError) (written : Nat)
    (reads : List Bytes) : (quotaReads limits available failure written reads).2 = failure := by
  induction reads generalizing written with
  | nil => rfl
  | cons piece rest ih =>
    have passed : ∀ n, limits.check_write_progress (available n) n = .ok () := by
      intro n
      simp [QuotaLimits.check_write_progress,QuotaLimits.check_object_size,QuotaLimits.check_disk_reserve,sizes,reserve]
      rfl
    rw [quotaReads]
    simp only [passed]
    exact ih _

/-- Where a bucket stores in chunks without parity and versions, a put of a new key cannot fail. -/
theorem put_object_chunked_succeeds (accepted : Accepted bucket key) (file : ends_with key "/" = false)
    (sizes : fs.quota.max_object_bytes = 0) (reserve : fs.quota.min_free_disk_bytes = 0) (plain : fs.parity_shards = 0)
    (on : fs.erasure_coding = true) {settings : BucketMeta} (found : bucketRecord fs bucket w = some settings)
    (chunks : settings.erasure_coding.getD true = true) (unversioned : settings.versioning = false)
    (present : w.tree.node (home fs bucket key) = some .dir) (absent : w.tree.node (metaAt fs bucket key) = none)
    (unused : Unused draws (home fs bucket key) w) {content_type : String} {body : ByteStream}
    {checksum : ChecksumRequest} {declared : Option Nat} (whole : body.failure = none) :
    ∃ result w', fs.put_object P draws bucket key content_type body checksum none declared w = (.ok result,w') := by
  have start : fs.check_upload_start draws declared = .ok () := by
    cases declared <;> simp [FilesystemStorage.check_upload_start,QuotaLimits.check_declared_size,
      QuotaLimits.check_object_size,QuotaLimits.check_disk_reserve,sizes,reserve] <;> rfl
  have asked : fs.effective_erasure_coding bucket w = (.ok true,w) := by
    unfold FilesystemStorage.effective_erasure_coding
    rw [on,if_pos rfl,Prog.bind_of_ok ((read_bucket_meta_ok_iff accepted.bucket).mpr ⟨found,rfl⟩),chunks]
    rfl
  have through : (fs.wrap_upload_reader draws body).failure = none := by
    rw [FilesystemStorage.wrap_upload_reader,quotaReads_unlimited sizes reserve,whole]
  obtain ⟨record,w₁,stored⟩ := store_chunked_succeeds (P := P) accepted plain present unused content_type
    (checksum.map Prod.fst) through
  have written := (store_chunked_done accepted stored).2
  have undated : record.version_id = none := by
    rw [written.version,versionId,versioned,found]
    simp [unversioned]
  simp only [FilesystemStorage.put_object,accepted.bucket,accepted.key,start,Prog.lift_ok_bind]
  rw [Prog.bind_of_ok (ensure_can_overwrite_absent accepted present absent _),if_neg (by simp [file]),
    Prog.bind_of_ok asked,if_pos rfl]
  simp only [FilesystemStorage.put_object_chunked,accepted.bucket,Prog.lift_ok_bind]
  rw [Prog.bind_of_ok stored]
  simp only [FilesystemStorage.finish_put,FilesystemStorage.keep_version,undated,Option.isSome_none,Bool.false_eq_true,
    if_false,Prog.pure_bind,FilesystemStorage.index_upsert,FilesystemStorage.index_remove]
  split <;> split <;> exact ⟨_,_,rfl⟩

end Store
end Maxio
