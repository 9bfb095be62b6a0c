import Maxio.Replicas

/-!
The deletion of a bucket is all or nothing: an object in it is found before anything is removed, and when there is none
the removal meets nothing that it leaves behind.
-/

namespace Maxio
open FileTree (Node Tree)

/-- Below a directory, past no internal name: a file, or a directory of chunks. -/
structure ObjectAt (t : Disk) (dir rel : OsPath) (name : String) : Prop where
  visible : ∀ s ∈ rel ++ [name], is_bucket_internal s = false
  object : (∃ c, t.node (dir ++ (rel ++ [name])) = some (.file c)) ∨
    t.node (dir ++ (rel ++ [name])) = some .dir ∧ ends_with name ".ec" = true

variable {t : Disk} {dir rel : OsPath} {name : String}

theorem ObjectAt.present (at_path : ObjectAt t dir rel name) : t.node (dir ++ (rel ++ [name])) ≠ none := by
  rcases at_path.object with ⟨c,file⟩ | ⟨folder,_⟩
  · rw [file]
    simp
  · rw [folder]
    simp

/-- One directory further up. -/
theorem ObjectAt.up {s : String} (at_path : ObjectAt t (dir ++ [s]) rel name)
    (visible : is_bucket_internal s = false) : ObjectAt t dir (s :: rel) name where
  visible := by
    intro r member
    rcases List.mem_cons.mp member with rfl | below
    · exact visible
    · exact at_path.visible r below
  object := by
    have object := at_path.object
    rw [List.append_assoc] at object
    exact object

/-- One directory further down. -/
theorem ObjectAt.down {s : String} (at_path : ObjectAt t dir (s :: rel) name) : ObjectAt t (dir ++ [s]) rel name where
  visible := fun r member => at_path.visible r (List.mem_cons_of_mem _ member)
  object := by
    rw [List.append_assoc]
    exact at_path.object

theorem holdsObject_iff_objectAt : HoldsObject t dir ↔ ∃ rel name, ObjectAt t dir rel name := by
  constructor
  · intro holds
    induction holds with
    | file visible here => exact ⟨[],_,by simpa using visible,.inl ⟨_,here⟩⟩
    | chunks visible chunks here => exact ⟨[],_,by simpa using visible,.inr ⟨here,chunks⟩⟩
    | inside visible here below ih =>
      obtain ⟨rel,name,at_path⟩ := ih
      exact ⟨_,name,at_path.up visible⟩
  · rintro ⟨rel,name,at_path⟩
    induction rel generalizing dir with
    | nil =>
      have visible := at_path.visible name (by simp)
      rcases at_path.object with ⟨c,file⟩ | ⟨folder,chunks⟩
      · exact .file visible file
      · exact .chunks visible chunks folder
    | cons s rel ih =>
      have folder : t.node (dir ++ [s]) = some .dir := by
        refine t.dir_of_prefix (q := dir ++ (s :: rel ++ [name])) ⟨rel ++ [name],by simp⟩ ?_ at_path.present
        intro same
        have lengths := congrArg List.length same
        simp at lengths
      exact .inside (at_path.visible s (by simp)) folder (ih at_path.down)

variable {fs : FilesystemStorage} {bucket : String} {w : World}

/-- Deleting a bucket is refused and changes nothing exactly when there is an object in it; otherwise the bucket is gone
with everything in it, and nothing else. -/
theorem delete_bucket_all_or_nothing (valid : validate_bucket_name bucket = .ok ()) (named : Named w.tree)
    (here : w.tree.node (base fs.buckets_dir bucket) = some .dir) :
    (fs.delete_bucket bucket w = (.error .BucketNotEmpty,w) ↔
      ∃ rel name, ObjectAt w.tree (base fs.buckets_dir bucket) rel name) ∧
    ((¬ ∃ rel name, ObjectAt w.tree (base fs.buckets_dir bucket) rel name) →
      ∃ w', fs.delete_bucket bucket w = (.ok true,w') ∧ Pruned (base fs.buckets_dir bucket) w w') := by
  rw [← holdsObject_iff_objectAt]
  refine ⟨⟨fun refused => ?_,delete_bucket_full valid named here⟩,delete_bucket_empty valid named here⟩
  by_contra bare
  obtain ⟨w',deleted,_⟩ := delete_bucket_empty valid named here bare
  rw [refused] at deleted
  cases deleted

theorem delete_stocked_bucket :
    (Sample.node_storage.delete_bucket "logs" (Sample.disk true) = (.error .BucketNotEmpty,Sample.disk true) ↔
      ∃ rel name, ObjectAt (Sample.disk true).tree (base Sample.node_storage.buckets_dir "logs") rel name) ∧
    ((¬ ∃ rel name, ObjectAt (Sample.disk true).tree (base Sample.node_storage.buckets_dir "logs") rel name) →
      ∃ w', Sample.node_storage.delete_bucket "logs" (Sample.disk true) = (.ok true,w') ∧
        Pruned (base Sample.node_storage.buckets_dir "logs") (Sample.disk true) w') :=
  delete_bucket_all_or_nothing (by decide +kernel) (Sample.disk_placed true).named (by decide +kernel)

end Maxio
