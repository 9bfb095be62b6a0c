import Maxio.Checksums
import Maxio.SameFiles

/-!
Puts that are turned down leave the object untouched: whoever reads the key afterwards gets what was there before. And
what a put is turned down for when its body is longer than the storage allows.
-/

set_option linter.unusedSimpArgs false

namespace Maxio
open FileTree (Node Tree)

/-! ### What a frame leaves to be found -/

section Frames
variable {S G : OsPath → Prop} {w w' : World}

/-- A path that is neither touched nor on the way to something that is finds the same. -/
theorem stat_of_frame (frame : Frame S G w w') (closed : ∀ q r, S q → q <+: r → S r) {p : OsPath} (forward : Forward p)
    (outside : ¬ S (canon p)) (rigid : ¬ G (canon p)) : Fs.stat w'.tree p = Fs.stat w.tree p := by
  have node := frame.same outside rigid
  have files : ∀ r, r <+: canon p → w'.tree.isFile r = w.tree.isFile r := by
    intro r above
    have free : ¬ S r := fun inside => outside (closed r _ inside above)
    rcases frame r free with same | ⟨_,before,after⟩
    · rw [Tree.isFile,Tree.isFile,same]
    · have no_file : ∀ t : Disk, Loose (t.node r) → t.isFile r = false := by
        rintro t (none | dir)
        · rw [Tree.isFile,none]
        · rw [Tree.isFile,dir]
      rw [no_file _ before,no_file _ after]
  have missing : w'.tree.missing (canon p) = w.tree.missing (canon p) := by
    have any : (canon p).inits.any (fun r => w'.tree.isFile r) = (canon p).inits.any fun r => w.tree.isFile r := by
      rw [Bool.eq_iff_iff,List.any_eq_true,List.any_eq_true]
      refine exists_congr fun r => and_congr_right fun member => ?_
      rw [files r ((List.mem_inits _ _).mp member)]
    rw [Tree.missing,Tree.missing,any]
  unfold Fs.stat
  rw [locate_forward _ forward,locate_forward _ forward]
  simp only [bind,Except.bind,Tree.stat,node,missing]

end Frames

section Put
variable {P : Primitives} {fs : FilesystemStorage} {bucket key : String} {draws : Draws} {w w' : World}

theorem temporary_closed (q r : OsPath) (inside : Temporary fs bucket key draws q) (below : q <+: r) :
    Temporary fs bucket key draws r := by
  have under : ∀ {dir : OsPath} {entries : List String}, Under dir entries q → Under dir entries r :=
    fun ⟨n,member,start⟩ => ⟨n,member,start.trans below⟩
  exact inside.imp under (Or.imp under under)

theorem opened_above (q r : OsPath) (opened : Opened fs bucket key r) (above : q <+: r) : Opened fs bucket key q :=
  opened.imp above.trans above.trans

/-- A key whose last segment names nothing has its payload path lead to its directory. -/
theorem object_canon_unnamed (accepted : Accepted bucket key) (file : ends_with key "/" = false)
    (dot : skipped (leaf key) = true) : canon (object_path fs.buckets_dir bucket key) = home fs bucket key := by
  rw [object_path,if_neg (by simp [file]),bucket_dir_eq accepted.validBucket,
    join_relative accepted.validKey.relative,canon_append,canon_base fs.plain accepted.validBucket]
  have rest : canon (split key '/') = stem key := by
    have all := names_eq key
    rw [names] at all
    rw [all]
    simp [canon,dot]
  rw [rest]
  rfl

/-- What only makes temporary siblings and directories on the way leaves the files of the key as they were. -/
theorem sameFiles_of_frame (accepted : Accepted bucket key)
    (frame : Frame (Temporary fs bucket key draws) (Opened fs bucket key) w w') :
    SameFiles fs bucket key w.tree w'.tree := by
  have own : ∀ {p : OsPath} {n : String} {rest : OsPath}, Forward p → canon p = home fs bucket key ++ [n] ++ rest →
      n ∈ ownNames key → n ∉ tempNames draws → Fs.stat w'.tree p = Fs.stat w.tree p := by
    intro p n rest forward names member fresh
    have below : home fs bucket key ++ [n] <+: canon p := by
      rw [names]
      exact List.prefix_append _ _
    refine stat_of_frame frame temporary_closed forward ?_ fun opened => ?_
    · exact own_untouched accepted member (by simp) fresh below
    · exact own_not_opened accepted member (opened_above _ _ opened below)
  have leads : ∀ {p : OsPath} {n : String}, Leads p (home fs bucket key) n → n ∈ ownNames key → n ∉ tempNames draws →
      Fs.stat w'.tree p = Fs.stat w.tree p := by
    intro p n leads member fresh
    exact own leads.entry.forward (by rw [leads.names,List.append_nil]) member fresh
  have entry : ∀ {p : OsPath} {n : String}, Leads p (home fs bucket key ++ [ecName key]) n →
      Fs.stat w'.tree p = Fs.stat w.tree p := by
    intro p n leads
    exact own leads.entry.forward leads.names (by simp [ownNames]) ecName_fresh
  have side := leads accepted.meta_leads (by simp [ownNames]) metaName_fresh
  refine ⟨side,fun c shown => ?_,leads accepted.ec_leads (by simp [ownNames]) ecName_fresh,?_,fun i => ?_⟩
  · by_cases named : ends_with key "/" = true ∨ skipped (leaf key) = false
    · exact leads (accepted.object_leads named) (by simp [ownNames]) (objectName_fresh accepted.validKey named)
    · -- the directory of the key is there as long as its sidecar is
      rw [not_or,Bool.not_eq_true,Bool.not_eq_false] at named
      have dir_of : ∀ t : Disk, Fs.readAt t (meta_path fs.buckets_dir bucket key) = .ok c →
          t.node (home fs bucket key) = some .dir := by
        intro t read
        refine t.rooted _ (metaName key) ?_
        rw [Fs.readAt_leads accepted.meta_leads] at read
        intro none
        simp [Tree.read,none] at read
      have shown' : Fs.readAt w'.tree (meta_path fs.buckets_dir bucket key) = .ok c := by
        rw [Fs.readAt,side]
        exact shown
      have canon_eq := @object_canon_unnamed fs _ _ accepted named.1 named.2
      unfold Fs.stat
      rw [locate_forward _ (accepted.object_forward fs),locate_forward _ (accepted.object_forward fs)]
      simp only [bind,Except.bind,Tree.stat,canon_eq,dir_of _ shown,dir_of _ shown']
  · exact entry (accepted.ec_leads.child (by decide) (by decide) (by decide))
  · exact entry (accepted.ec_leads.child (chunk_name_slash i) (chunk_name_kept i).1 (chunk_name_kept i).2)

/-- A put turned down for another reason than a failure of the filesystem: the error is none, or the stream of the body
    was cut by the quota or by an error of its own. -/
def TurnedDown (fs : FilesystemStorage) (draws : Draws) (key : String) (body : ByteStream) (e : StorageError) : Prop :=
  ¬ e.FromIo ∨ (ends_with key "/" = false ∧ (fs.wrap_upload_reader draws body).failure ≠ none)

/-- Readers of the key are answered in the second world as in the first. -/
structure AnsweredAlike (P : Primitives) (fs : FilesystemStorage) (bucket key : String) (w w' : World) : Prop where
  get : ∀ customer_key, SameOutcome (SameObject P) (fs.get_object P bucket key customer_key w).1
    (fs.get_object P bucket key customer_key w').1
  head : (fs.head_object bucket key w').1 = (fs.head_object bucket key w).1

theorem sameOutcome_eq {ε α : Type} {r r' : Except ε α} (same : SameOutcome (· = ·) r r') : r' = r := by
  cases r <;> cases r'
  · exact congrArg Except.error (Eq.symm same)
  · exact same.elim
  · exact same.elim
  · exact congrArg Except.ok (Eq.symm same)

theorem answeredAlike_of_same (same : SameFiles fs bucket key w.tree w'.tree) : AnsweredAlike P fs bucket key w w' :=
  ⟨fun customer_key => (get_object_alike same customer_key).outcome,sameOutcome_eq (head_object_alike same).outcome⟩

/-- Names that are not accepted are turned down by every operation on the key. -/
theorem answeredAlike_of_invalid (invalid : ¬ Accepted bucket key) : AnsweredAlike P fs bucket key w w' := by
  cases named : validate_bucket_name bucket with
  | error e =>
    have both : ∀ {α : Type} (m : Action α) (w : World), (Prog.lift (validate_bucket_name bucket) >>= fun _ => m) w =
        (.error e,w) := by
      intro α m w
      rw [named]
      rfl
    refine ⟨fun customer_key => ?_,?_⟩
    · rw [FilesystemStorage.get_object,both,both]
      exact rfl
    · rw [FilesystemStorage.head_object,both,both]
  | ok _ =>
    cases keyed : validate_key key with
    | error e =>
      have both : ∀ {α : Type} (m : Action α) (w : World), (Prog.lift (validate_bucket_name bucket) >>= fun _ =>
          Prog.lift (validate_key key) >>= fun _ => m) w = (.error e,w) := by
        intro α m w
        rw [named,keyed]
        rfl
      refine ⟨fun customer_key => ?_,?_⟩
      · rw [FilesystemStorage.get_object,both,both]
        exact rfl
      · rw [FilesystemStorage.head_object,both,both]
    | ok _ => exact absurd ⟨named,keyed⟩ invalid

theorem turned_down_answers_alike {content_type : String} {body : ByteStream} {checksum : ChecksumRequest}
    {encryption : Option EncryptionRequest} {declared_size : Option Nat} {e : StorageError}
    (failed : fs.put_object P draws bucket key content_type body checksum encryption declared_size w = (.error e,w'))
    (turned : TurnedDown fs draws key body e) : AnsweredAlike P fs bucket key w w' := by
  by_cases accepted : Accepted bucket key
  · refine answeredAlike_of_same (sameFiles_of_frame accepted (put_object_spares w e w' failed ?_))
    rintro ⟨from_io,spared⟩
    rcases turned with other | ⟨file,cut⟩
    · exact other from_io
    · rcases spared with folder | whole
      · rw [file] at folder
        cases folder
      · exact cut whole
  · exact answeredAlike_of_invalid accepted

/-! ### The limit on the size of an object -/

/-- Where the one program succeeds, the other fails with the error. -/
def FailsInstead {σ ε α β : Type} (e : ε) (m : Prog σ ε α) (m' : Prog σ ε β) : Prop :=
  ∀ s a s₁, m s = (.ok a,s₁) → ∃ s', m' s = (.error e,s')

namespace FailsInstead
variable {σ ε α β γ δ : Type} {e : ε}

/-- The programs begin alike. -/
theorem after {m : Prog σ ε α} {f : α → Prog σ ε β} {f' : α → Prog σ ε γ} (rest : ∀ a, FailsInstead e (f a) (f' a)) :
    FailsInstead e (m >>= f) (m >>= f') := by
  intro s b s₁ done
  obtain ⟨a,s₂,first,last⟩ := Prog.bind_ok_iff.mp done
  obtain ⟨s',failed⟩ := rest a s₂ b s₁ last
  exact ⟨s',by rw [Prog.bind_of_ok first,failed]⟩

/-- Nothing follows the failure. -/
theorem followed {m : Prog σ ε α} {m' : Prog σ ε β} (first : FailsInstead e m m') (f : α → Prog σ ε γ)
    (f' : β → Prog σ ε δ) : FailsInstead e (m >>= f) (m' >>= f') := by
  intro s b s₁ done
  obtain ⟨a,s₂,one,_⟩ := Prog.bind_ok_iff.mp done
  obtain ⟨s',failed⟩ := first s a s₂ one
  exact ⟨s',Prog.bind_of_error failed⟩

theorem guarded {m : Prog σ ε α} {m' : Prog σ ε β} {drop : σ → σ} (inner : FailsInstead e m m') :
    FailsInstead e (Prog.guarded drop m) (Prog.guarded drop m') := by
  intro s b s₁ done
  obtain ⟨s',failed⟩ := inner s b s₁ (Prog.guarded_ok_iff.mp done)
  exact ⟨drop s',by rw [Prog.guarded,failed]⟩

end FailsInstead

/-- The stream is cut short with an error. -/
structure Cuts (body cut : ByteStream) (err : IoError) : Prop where
  begins : cut.reads <+: body.reads
  ends : cut.failure = some err

/-- A writer that takes all pieces takes the first of them, and then the error comes. -/
theorem pump_cut {α : Type} {write : α → Bytes → Action α} {start : α} {body cut : ByteStream} {err : IoError}
    (cuts : Cuts body cut err) : FailsInstead (map_read_quota_error err)
      (pump write map_read_quota_error body.reads body.failure start)
      (pump write map_read_quota_error cut.reads cut.failure start) := by
  obtain ⟨⟨rest,whole⟩,ended⟩ := cuts
  have first : ∀ (early late : List Bytes) (a last : α) (s s₁ : World), Prog.fold write a (early ++ late) s = (.ok last,s₁) →
      ∃ b s', Prog.fold write a early s = (.ok b,s') := by
    intro early
    induction early with
    | nil => exact fun late a last s s₁ _ => ⟨a,s,rfl⟩
    | cons piece early ih =>
      intro late a last s s₁ done
      obtain ⟨b,s₂,one,others⟩ := Prog.bind_ok_iff.mp done
      obtain ⟨c,s',folded⟩ := ih late b last s₂ s₁ others
      exact ⟨c,s',by rw [List.cons_append] at *; exact (Prog.bind_of_ok one).trans folded⟩
  intro s last s₁ done
  obtain ⟨a,s₂,folded,_⟩ := Prog.bind_ok_iff.mp done
  rw [← whole] at folded
  obtain ⟨b,s',took⟩ := first cut.reads rest start a s s₂ folded
  refine ⟨s',?_⟩
  rw [pump,Prog.bind_of_ok took,ended]
  rfl

section
variable {content_type : String} {body cut : ByteStream} {err : IoError} {checksum : ChecksumRequest}

theorem store_chunked_cut (cuts : Cuts body cut err) (algo : Option ChecksumAlgorithm) :
    FailsInstead (map_read_quota_error err) (fs.store_chunked P draws bucket key content_type body algo)
      (fs.store_chunked P draws bucket key content_type cut algo) :=
  .guarded (.after fun _ => .after fun _ => (pump_cut cuts).followed _ _)

theorem store_chunked_encrypted_cut (cuts : Cuts body cut err) (encryption : EncryptionRequest) :
    FailsInstead (map_read_quota_error err)
      (fs.store_chunked_encrypted P draws bucket key content_type body checksum encryption)
      (fs.store_chunked_encrypted P draws bucket key content_type cut checksum encryption) :=
  .guarded (.after fun _ => .after fun _ => .after fun _ => .after fun _ => (pump_cut cuts).followed _ _)

theorem store_flat_cut (cuts : Cuts body cut err) (version_id : Option String)
    (sealing : Option (EncryptionMeta × FrameCipher)) : FailsInstead (map_read_quota_error err)
      (fs.store_flat P draws bucket key content_type body checksum version_id sealing)
      (fs.store_flat P draws bucket key content_type cut checksum version_id sealing) :=
  .after fun _ => .guarded (.after fun _ => (pump_cut cuts).followed _ _)

/-- In every layout a body that is cut short ends the put with the error of the stream. -/
theorem put_in_layout_cut (cuts : Cuts body cut err) (encryption : Option EncryptionRequest) (on : Bool) :
    FailsInstead (map_read_quota_error err) (put_in_layout P fs draws bucket key content_type body checksum encryption on)
      (put_in_layout P fs draws bucket key content_type cut checksum encryption on) := by
  unfold put_in_layout
  cases on with
  | false =>
    exact .after fun version_id => .after fun sealing => (store_flat_cut cuts version_id sealing).followed _ _
  | true =>
    cases encryption with
    | none => exact .after fun _ => (store_chunked_cut cuts _).followed _ _
    | some req => exact .after fun _ => (store_chunked_encrypted_cut cuts req).followed _ _

/-! The quota. -/

/-- The storage with another limit on the size of an object, zero for none. -/
def FilesystemStorage.limited (fs : FilesystemStorage) (max : Nat) : FilesystemStorage :=
  { fs with quota := { fs.quota with max_object_bytes := max } }

theorem quotaReads_within {limits : QuotaLimits} {available : Nat → Option Nat} {failure : Option IoError}
    {written : Nat} {reads : List Bytes} (positive : limits.max_object_bytes ≠ 0)
    (within : written ≤ limits.max_object_bytes)
    (passed : (quotaReads limits available failure written reads).2 = none) :
    written + reads.flatten.length ≤ limits.max_object_bytes := by
  induction reads generalizing written with
  | nil => simpa using within
  | cons piece rest ih =>
    rw [quotaReads] at passed
    dsimp only at passed
    split at passed
    next => cases passed
    next progress =>
      have small : written + piece.length ≤ limits.max_object_bytes := by
        by_contra large
        have refused : limits.check_object_size (written + piece.length) = .error (.ObjectTooLarge limits.max_object_bytes) :=
          if_pos ⟨Nat.pos_of_ne_zero positive,by omega⟩
        rw [QuotaLimits.check_write_progress,refused] at progress
        cases progress
      have total := ih small passed
      rw [List.flatten_cons,List.length_append]
      omega

/-- Where only the size is in the way, the stream is cut with the error that says so. -/
theorem quotaReads_cut {limits : QuotaLimits} {available : Nat → Option Nat} {failure : Option IoError}
    {written : Nat} {reads : List Bytes} (positive : limits.max_object_bytes ≠ 0)
    (within : written ≤ limits.max_object_bytes) (beyond : limits.max_object_bytes < written + reads.flatten.length)
    (passed : (quotaReads { limits with max_object_bytes := 0 } available failure written reads).2 = none) :
    (quotaReads limits available failure written reads).1 <+: reads ∧
      (quotaReads limits available failure written reads).2 = some (quota_io_error (.ObjectTooLarge limits.max_object_bytes)) := by
  induction reads generalizing written with
  | nil =>
    rw [List.flatten_nil,List.length_nil] at beyond
    omega
  | cons piece rest ih =>
    rw [List.flatten_cons,List.length_append] at beyond
    rw [quotaReads] at passed ⊢
    dsimp only at passed ⊢
    by_cases small : written + piece.length ≤ limits.max_object_bytes
    · have taken : limits.check_object_size (written + piece.length) = .ok () := if_neg fun both => by omega
      have same : limits.check_write_progress (available (written + piece.length)) (written + piece.length) =
          { limits with max_object_bytes := 0 : QuotaLimits }.check_write_progress (available (written + piece.length))
            (written + piece.length) := by
        rw [QuotaLimits.check_write_progress,taken]
        rfl
      rw [same]
      split at passed
      next => cases passed
      next progress =>
        obtain ⟨begins,ends⟩ := ih small (by omega) passed
        exact ⟨List.cons_prefix_cons.mpr ⟨rfl,begins⟩,ends⟩
    · have refused : limits.check_object_size (written + piece.length) = .error (.ObjectTooLarge limits.max_object_bytes) :=
        if_pos ⟨Nat.pos_of_ne_zero positive,by omega⟩
      rw [QuotaLimits.check_write_progress,refused]
      exact ⟨List.nil_prefix,rfl⟩

variable {encryption : Option EncryptionRequest} {declared_size : Option Nat} {result : PutResult}

theorem body_within_limit (positive : fs.quota.max_object_bytes ≠ 0) (file : ends_with key "/" = false)
    (done : fs.put_object P draws bucket key content_type body checksum encryption declared_size w = (.ok result,w')) :
    body.body.length ≤ fs.quota.max_object_bytes := by
  have reached := (put_object_reaches file done).2 checksum
  rw [done] at reached
  have passed := put_in_layout_ended _ _ _ reached.symm
  have total := quotaReads_within positive (Nat.zero_le _) passed
  rwa [Nat.zero_add] at total

/-- The size declared for the body, or that of the body of an object that is no folder marker, is beyond the limit. -/
def TooLong (fs : FilesystemStorage) (key : String) (body : ByteStream) (declared_size : Option Nat) : Prop :=
  (∃ n, declared_size = some n ∧ fs.quota.max_object_bytes < n) ∨
    (ends_with key "/" = false ∧ fs.quota.max_object_bytes < body.body.length)

/-- When nothing but the limit is in the way of a put, the put fails with the error that says so. -/
theorem put_object_too_large (positive : fs.quota.max_object_bytes ≠ 0) (fits : fs.quota.max_object_bytes < 2 ^ 64)
    (long : TooLong fs key body declared_size)
    (done : (fs.limited 0).put_object P draws bucket key content_type body checksum encryption declared_size w =
      (.ok result,w')) :
    ∃ w₁, fs.put_object P draws bucket key content_type body checksum encryption declared_size w =
      (.error (.ObjectTooLarge fs.quota.max_object_bytes),w₁) := by
  have unlimited := done
  simp only [FilesystemStorage.put_object,Prog.bind_ok_iff,lift_ok_iff] at done
  obtain ⟨_,w₀,⟨valid,same⟩,_,w₁,⟨valid',same'⟩,_,w₂,unlocked,_,w₃,⟨room,same₃⟩,rest⟩ := done
  have quiet : w₂ = w₁ := (@FilesystemStorage.ensure_can_overwrite_quiet _ (fs.limited 0) _ bucket key).state unlocked
  rw [quiet,same',same] at unlocked
  rw [same₃,quiet,same',same] at rest
  have unlocked' : fs.ensure_can_overwrite P draws.now bucket key w = (.ok (),w) := unlocked
  have reserve : fs.quota.check_disk_reserve (draws.available_disk_bytes 0) = .ok () := by
    cases declared_size <;> exact room
  by_cases declared : ∃ n, declared_size = some n ∧ fs.quota.max_object_bytes < n
  · -- the size that is declared is refused before anything is read
    obtain ⟨n,rfl,large⟩ := declared
    have refused : fs.check_upload_start draws (some n) = .error (.ObjectTooLarge fs.quota.max_object_bytes) := by
      have size : fs.quota.check_object_size n = .error (.ObjectTooLarge fs.quota.max_object_bytes) :=
        if_pos ⟨Nat.pos_of_ne_zero positive,large⟩
      rw [FilesystemStorage.check_upload_start,QuotaLimits.check_declared_size,size]
      rfl
    refine ⟨w,?_⟩
    simp only [FilesystemStorage.put_object,valid,valid',Prog.lift_ok_bind]
    rw [Prog.bind_of_ok unlocked',refused]
    rfl
  · obtain ⟨file,large⟩ := long.resolve_left declared
    have allowed : fs.check_upload_start draws declared_size = .ok () := by
      have size : fs.quota.check_declared_size declared_size = .ok () := by
        cases declared_size with
        | none => rfl
        | some n =>
          refine if_neg fun both => declared ⟨n,rfl,both.2⟩
      rw [FilesystemStorage.check_upload_start,size]
      exact reserve
    have reached := (put_object_reaches file unlimited).2 checksum
    rw [unlimited] at reached
    have ended : ((fs.limited 0).wrap_upload_reader draws body).failure = none := put_in_layout_ended _ _ _ reached.symm
    obtain ⟨begins,ends⟩ := @quotaReads_cut fs.quota _ _ _ _ positive (Nat.zero_le _)
      (by rw [Nat.zero_add]; exact large) ended
    have cuts : Cuts ((fs.limited 0).wrap_upload_reader draws body) (fs.wrap_upload_reader draws body)
        (quota_io_error (.ObjectTooLarge fs.quota.max_object_bytes)) := by
      refine ⟨?_,ends⟩
      have all : ((fs.limited 0).wrap_upload_reader draws body).reads = body.reads := (quotaReads_none ended).1
      rw [all]
      exact begins
    -- the limit plays no part in anything but the stream
    have same_layout : ∀ stream on, put_in_layout P (fs.limited 0) draws bucket key content_type stream checksum encryption on =
        put_in_layout P fs draws bucket key content_type stream checksum encryption on := by
      intro stream on
      unfold put_in_layout
      rfl
    rw [same_layout] at reached
    rw [if_neg (by simp [file]),Prog.bind_ok_iff] at rest
    obtain ⟨answer,w₄,asked,_⟩ := rest
    obtain ⟨rfl,here⟩ := effective_erasure_coding_done valid asked
    rw [here] at asked
    obtain ⟨w₅,failed⟩ := put_in_layout_cut cuts encryption _ _ _ _ reached.symm
    rw [map_read_quota_error_too_large fits] at failed
    refine ⟨w₅,?_⟩
    simp only [FilesystemStorage.put_object,valid,valid',Prog.lift_ok_bind]
    rw [Prog.bind_of_ok unlocked',allowed,Prog.lift_ok_bind,if_neg (by simp [file])]
    have asked' : fs.effective_erasure_coding bucket w = (.ok (coded (fs.limited 0) bucket w),w) := asked
    rw [Prog.bind_of_ok asked']
    exact failed

/-- A put that is turned down is not noticed by those who read the key. A put that succeeds has kept to the limit on the
    size of an object, folder markers apart, whose body is not read; and where only that limit is in the way, the put
    fails with the error that says so. -/
theorem put_object_turned_down (fits : fs.quota.max_object_bytes < 2 ^ 64) :
    (∀ e w', fs.put_object P draws bucket key content_type body checksum encryption declared_size w = (.error e,w') →
      TurnedDown fs draws key body e → AnsweredAlike P fs bucket key w w') ∧
    (fs.quota.max_object_bytes ≠ 0 →
      (∀ result w', ends_with key "/" = false →
        fs.put_object P draws bucket key content_type body checksum encryption declared_size w = (.ok result,w') →
          body.body.length ≤ fs.quota.max_object_bytes) ∧
      (∀ result w', TooLong fs key body declared_size →
        (fs.limited 0).put_object P draws bucket key content_type body checksum encryption declared_size w =
          (.ok result,w') →
          ∃ w₁, fs.put_object P draws bucket key content_type body checksum encryption declared_size w =
            (.error (.ObjectTooLarge fs.quota.max_object_bytes),w₁))) := by
  refine ⟨fun e w' failed turned => turned_down_answers_alike failed turned,fun positive => ⟨?_,?_⟩⟩
  · intro result w' file done
    exact body_within_limit positive file done
  · intro result w' long done
    exact put_object_too_large positive fits long done

end
end Put

namespace Sample

/-- A storage of objects of two bytes at most. -/
def tight (coding : Bool) : FilesystemStorage := (storage coding 4 four_positive).limited 2

/-- A put of `abc` in that storage. -/
def put_tight (coding : Bool) (key : String) : Except StorageError PutResult × World :=
  (tight coding).put_object primitives (draws 0) "logs" key "text/plain" (stream abc abc_filled abc_fits) none none none
    (world false)

example : (tight true).quota.max_object_bytes = 2 := by decide +kernel

end Sample

/-- In chunks `abc` is not taken, and nothing of it is noticed. -/
theorem tight_put_turned_down :
    (∃ w', Sample.put_tight true "a" = (.error (.ObjectTooLarge 2),w')) ∧
      AnsweredAlike Sample.primitives (Sample.tight true) "logs" "a" (Sample.world false)
        (Sample.put_tight true "a").2 := by
  have results := fun w => @put_object_turned_down Sample.primitives (Sample.tight true) "logs" "a" (Sample.draws 0) w
    "text/plain" (Sample.stream Sample.abc Sample.abc_filled Sample.abc_fits) none none none
    (show 2 < 2 ^ 64 by decide)
  obtain ⟨unnoticed,limit⟩ := results (Sample.world false)
  have taken : (((Sample.tight true).limited 0).put_object Sample.primitives (Sample.draws 0) "logs" "a" "text/plain"
      (Sample.stream Sample.abc Sample.abc_filled Sample.abc_fits) none none none (Sample.world false)).1.isOk = true := by
    decide +kernel
  obtain ⟨result,w',done⟩ := Sample.isOk_spec taken
  obtain ⟨w₁,failed⟩ := (limit (by decide)).2 result w' (.inr ⟨by decide,by decide⟩) done
  have refused : Sample.put_tight true "a" = (.error (.ObjectTooLarge 2),w₁) := failed
  refine ⟨⟨w₁,refused⟩,?_⟩
  rw [refused]
  refine unnoticed _ w₁ refused (.inl ?_)
  rintro ⟨err,other⟩
  cases other

/-- A folder marker is put although more than two bytes come with it. -/
theorem folder_put_beyond_limit : (Sample.tight false).quota.max_object_bytes = 2 ∧
    (Sample.stream Sample.abc Sample.abc_filled Sample.abc_fits).body.length = 3 ∧
      (Sample.put_tight false "a/").1.isOk = true := by
  refine ⟨?_,?_,?_⟩ <;> decide +kernel

end Maxio
