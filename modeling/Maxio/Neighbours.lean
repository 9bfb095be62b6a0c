import Maxio.Restarts

/-!
Neighbours of a key: calls on keys that lie beside it, and all calls in other buckets, leave its files and the way to them
alone.
-/

set_option linter.unusedSimpArgs false

namespace Maxio
open FileTree (Node Tree)

/-! ### Places that are avoided -/

/-- Neither the way to the files of a key nor the files themselves are among the places. -/
structure Avoids (fs : FilesystemStorage) (bucket key : String) (S G : OsPath → Prop) : Prop where
  above : ∀ q, q <+: home fs bucket key → ¬ S q
  own : ∀ n ∈ ownNames key, ∀ rest, ¬ S (home fs bucket key ++ n :: rest)
  rigid : ∀ n ∈ ownNames key, ¬ G (home fs bucket key ++ [n])

namespace Avoids
variable {fs : FilesystemStorage} {bucket key b other : String} {S G S' G' : OsPath → Prop}

theorem mono (avoids : Avoids fs bucket key S' G') (small : ∀ q, S q → S' q) (small' : ∀ q, G q → G' q) :
    Avoids fs bucket key S G :=
  ⟨fun q within s => avoids.above q within (small q s),fun n own rest s => avoids.own n own rest (small _ s),
    fun n own g => avoids.rigid n own (small' _ g)⟩

theorem nowhere : Avoids fs bucket key (fun _ => False) fun _ => False := ⟨fun _ _ => id,fun _ _ _ => id,fun _ _ => id⟩

theorem either (first : Avoids fs bucket key S G) (second : Avoids fs bucket key S' G') :
    Avoids fs bucket key (fun q => S q ∨ S' q) fun q => G q ∨ G' q := by
  refine ⟨fun q within s => ?_,fun n own rest s => ?_,fun n own g => ?_⟩
  · exact s.elim (first.above q within) (second.above q within)
  · exact s.elim (first.own n own rest) (second.own n own rest)
  · exact g.elim (first.rigid n own) (second.rigid n own)

/-- Places that depend on something are avoided when they are in each case. -/
theorem each {α : Type} {p : α → Prop} {T H : α → OsPath → Prop} (all : ∀ a, p a → Avoids fs bucket key (T a) (H a)) :
    Avoids fs bucket key (fun q => ∃ a, p a ∧ T a q) fun q => ∃ a, p a ∧ H a q := by
  refine ⟨?_,?_,?_⟩
  · rintro q within ⟨a,holds,s⟩
    exact (all a holds).above q within s
  · rintro n own rest ⟨a,holds,s⟩
    exact (all a holds).own n own rest s
  · rintro n own ⟨a,holds,g⟩
    exact (all a holds).rigid n own g

/-- Nothing in another bucket is in the way. -/
theorem other_bucket (inside : ∀ rest, ¬ S (base fs.buckets_dir bucket ++ rest))
    (opens : ∀ rest, ¬ G (base fs.buckets_dir bucket ++ rest)) (whole : ∀ q r, S q → q <+: r → S r) :
    Avoids fs bucket key S G := by
  refine ⟨fun q within s => ?_,fun n own rest => ?_,fun n own => ?_⟩
  · exact inside (stem key) (whole q _ s within)
  · rw [home,List.append_assoc]
    exact inside _
  · rw [home,List.append_assoc]
    exact opens _

variable (accepted : Accepted bucket key)
include accepted

/-- The places of a key beside this one, or of any key in another bucket. -/
theorem touched {own : List String} (draws : Draws) (stored : List String) (accepted' : Accepted b other)
    (beside : b = bucket → Beside key other) (mine : ∀ n ∈ own, n ∈ ownNames other) :
    Avoids fs bucket key (Touched fs b other own (tempNames draws) stored) (Opened fs b other) := by
  by_cases same : b = bucket
  · subst same
    obtain ⟨above,own,rigid⟩ := @beside_places fs b key _ other own stored draws accepted accepted' (beside rfl).1
      (beside rfl).2 mine elsewhere_none
    exact ⟨fun q within s => above q within (.inl s),fun n member rest s => own n member rest (.inl s),rigid⟩
  · refine other_bucket (fun rest s => ?_) (fun rest g => ?_) fun q r => touched_below
    · exact same (touched_cases accepted' accepted.validBucket s).1
    · exact same (opened_cases g).1.symm

/-- The directory of an upload. -/
theorem upload (b : String) {upload_id : String} :
    Avoids fs bucket key (InUpload fs b upload_id) fun q => q <+: uploadAt fs b upload_id := by
  by_cases same : b = bucket
  · subst same
    obtain ⟨above,own⟩ := @elsewhere_upload fs b key accepted upload_id
    exact ⟨above,own,fun _ own => current_not_above_upload accepted own⟩
  · refine other_bucket (fun rest s => ?_) (fun rest g => ?_) fun q r s below => ?_
    · exact same (base_prefix_iff.mp (uploads_top.trans s)).1
    · rw [uploadAt,base_prefix_iff] at g
      exact same g.1.symm
    · exact List.IsPrefix.trans s below

/-- The settings of a bucket. -/
theorem settings (b : String) : Avoids fs bucket key (fun q => base fs.buckets_dir b ++ [".bucket.json"] <+: q) fun _ => False := by
  by_cases same : b = bucket
  · subst same
    obtain ⟨above,own⟩ := @top_apart fs b key ".bucket.json" accepted (by decide)
    exact ⟨fun q within s => above (s.trans within),own,fun _ _ => id⟩
  · refine other_bucket (fun rest s => ?_) (fun _ => id) fun q r s below => s.trans below
    exact same (base_prefix_iff.mp s).1

end Avoids

/-! ### Calls -/

/-- What happened left the files of a key and the way to them alone. -/
def LeftAlone (fs : FilesystemStorage) (bucket key : String) (w w' : World) : Prop :=
  ∃ S G, Frame S G w w' ∧ Avoids fs bucket key S G

/-- The call is on a key that lies beside this one, or on none. -/
def BucketCall.Beside (fs : FilesystemStorage) (bucket key : String) (w : World) : BucketCall → Prop
  | .put_object other _ _ _ _ _ | .delete_object other | .update other _ => Maxio.Beside key other
  | .upload upload_id call => call.completes → ∀ other, UploadCall.Recorded fs bucket upload_id w other → Maxio.Beside key other
  | .version other _ call => call.looks = true ∨ Maxio.Beside key other
  | _ => True

section Calls
variable {P : Primitives} {fs : FilesystemStorage} {from_str : String → Except String Json} {bucket key b : String}
  {draws : Draws} {w w' : World}

theorem LeftAlone.refl : LeftAlone fs bucket key w w := ⟨_,_,Frame.refl w,.nowhere⟩

theorem LeftAlone.node (left : LeftAlone fs bucket key w w') {n : String} (member : n ∈ ownNames key) :
    w'.tree.node (home fs bucket key ++ [n]) = w.tree.node (home fs bucket key ++ [n]) := by
  obtain ⟨S,G,frame,avoids⟩ := left
  exact frame.same (avoids.own n member []) (avoids.rigid n member)

theorem LeftAlone.way (left : LeftAlone fs bucket key w w') (clear : ∀ q, q <+: home fs bucket key → Loose (w.tree.node q)) :
    ∀ q, q <+: home fs bucket key → Loose (w'.tree.node q) := by
  obtain ⟨S,G,frame,avoids⟩ := left
  intro q within
  rcases frame q (avoids.above q within) with here | ⟨_,_,loose⟩
  · rw [here]
    exact clear q within
  · exact loose

/-- Calls in other buckets, and calls on keys beside this one, leave its files alone. -/
theorem BucketCall.leaves_alone (accepted : Accepted bucket key) (named : validate_bucket_name b = .ok ()) (call : BucketCall)
    (straight : call.Straight fs b w) (beside : b = bucket → call.Beside fs b key w) :
    LeftAlone fs bucket key w (call.run P fs from_str b draws w).2 := by
  have frame := @BucketCall.run_frame P fs from_str b draws w call named straight
  cases call with
  | put_object other content_type body checksum encryption size =>
    by_cases valid : validate_key other = .ok ()
    · exact ⟨_,_,frame,.touched accepted draws _ ⟨named,valid⟩ beside fun _ => id⟩
    · rw [BucketCall.run,drop_state,put_refused fun _ => valid]
      exact .refl
  | delete_object other =>
    by_cases valid : validate_key other = .ok ()
    · exact ⟨_,_,frame,.touched accepted draws _ ⟨named,valid⟩ beside fun _ => id⟩
    · rw [BucketCall.run,drop_state,delete_refused fun _ => valid]
      exact .refl
  | get_object other ck => exact ⟨_,_,frame,.nowhere⟩
  | head_object other => exact ⟨_,_,frame,.nowhere⟩
  | create_multipart_upload other content_type algorithm spec => exact ⟨_,_,frame,.upload accepted b⟩
  | upload upload_id call =>
    refine ⟨_,_,frame,?_⟩
    by_cases completes : call.completes
    · have own := @Avoids.each fs bucket key String _ _ _ fun other
          (recorded : UploadCall.Recorded fs b upload_id w other) =>
        @Avoids.touched fs bucket key b other accepted (ownNames other) draws (versionNames draws.version_id)
          ⟨named,straight.2 other recorded⟩ (fun same => beside same completes other recorded) fun _ => id
      refine ((@Avoids.upload fs bucket key accepted b upload_id).either own).mono (fun q touches => ?_) fun q opens => ?_
      · exact touches.imp id fun further => further.2
      · exact .inr opens.2
    · refine (@Avoids.upload fs bucket key accepted b upload_id).mono (fun q touches => ?_) fun q opens => ?_
      · exact touches.resolve_right fun further => completes further.1
      · exact absurd opens.1 completes
  | version other version_id call =>
    by_cases looks : call.looks = true
    · rw [BucketCall.run,drop_state,BucketCall.looks_quiet looks w]
      exact .refl
    by_cases valid : validate_key other = .ok ()
    · have apart (same : b = bucket) : Maxio.Beside key other := (beside same).resolve_left looks
      refine ⟨_,_,frame,(Avoids.touched accepted draws (versionNames version_id) ⟨named,valid⟩ apart
        fun _ => id).mono (fun q touches => ?_) fun q opens => ?_⟩
      · exact VersionCall.touched touches
      · exact VersionCall.opened opens
    · rw [BucketCall.run,drop_state,BucketCall.version_refused (fun _ => valid) call]
      exact .refl
  | update other call =>
    by_cases valid : validate_key other = .ok ()
    · refine ⟨_,_,frame,(Avoids.touched accepted draws [] ⟨named,valid⟩ beside fun _ => id).mono (fun q touches => ?_)
        fun q opens => opens.elim⟩
      rcases touches with rfl
      exact .inl ⟨metaName other,by simp [ownNames],List.prefix_refl _⟩
    · rw [BucketCall.run,update_refused fun _ => valid]
      exact .refl
  | configure call =>
    refine ⟨_,_,frame,(Avoids.settings accepted b).mono (fun q touches => ?_) fun q opens => opens⟩
    rcases touches with rfl
    exact List.prefix_refl _

end Calls

end Maxio
