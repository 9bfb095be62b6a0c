import Maxio.ObjectReads
import Maxio.PublishSpec
import Maxio.Multipart

/-!
The steps every write begins with: they only read the tree, or only add to the record of encryptions. What they
hand on is enough to read the object back.
-/

set_option linter.unusedSimpArgs false

namespace Maxio
open FileTree (Node Tree)

/-! ### Programs that change nothing -/

/-- The program leaves the state as it is, whatever its outcome. -/
abbrev Quiet {σ ε α : Type} (m : Prog σ ε α) : Prop := Prog.Keeps (fun s s' => s' = s) m

namespace Quiet
variable {σ ε ε' α β : Type}

theorem pure (a : α) : Quiet (pure a : Prog σ ε α) := fun _ => rfl
theorem fail (e : ε) : Quiet (Prog.fail e : Prog σ ε α) := fun _ => rfl
theorem ask (f : σ → α) : Quiet (Prog.ask f : Prog σ ε α) := fun _ => rfl
theorem lift (r : Except ε α) : Quiet (Prog.lift r : Prog σ ε α) := fun _ => rfl

theorem bind {m : Prog σ ε α} {f : α → Prog σ ε β} (first : Quiet m) (second : ∀ a, Quiet (f a)) : Quiet (m >>= f) :=
  Prog.Keeps.bind (fun _ _ _ one two => two.trans one) first second

theorem attempt {m : Prog σ ε α} (inner : Quiet m) : Quiet (Prog.attempt m : Prog σ ε' (Except ε α)) := inner
theorem mapError {f : ε → ε'} {m : Prog σ ε α} (inner : Quiet m) : Quiet (Prog.mapError f m) := inner
theorem io {m : Io α} (inner : Quiet m) : Quiet (io m) := inner
theorem observe (f : Disk → Except FileTree.ErrorKind α) : Quiet (Fs.observe f) := fun _ => rfl

theorem fold {f : β → α → Prog σ ε β} (items : List α) (step : ∀ acc, ∀ a ∈ items, Quiet (f acc a)) (acc : β) :
    Quiet (Prog.fold f acc items) :=
  @Prog.Keeps.fold _ _ _ _ (fun s s' => s' = s) (fun _ => rfl) (fun _ _ _ one two => two.trans one) f items step acc

theorem unwrap_or {m : Prog World ε α} (default : α) (inner : Quiet m) : Quiet (unwrap_or default m) := by
  refine bind (attempt inner) fun r => ?_
  cases r with
  | ok a => exact pure a
  | error e => exact pure default

theorem state {m : Prog σ ε α} (quiet : Quiet m) {s s' : σ} {r : Except ε α} (done : m s = (r,s')) : s' = s := by
  have same := quiet s
  rw [done] at same
  exact same

end Quiet

/-- Whatever keeps the state keeps every part of it. -/
theorem Quiet.frames {ε α : Type} {S G : OsPath → Prop} {m : Prog World ε α} (quiet : Quiet m) : Frames S G m := by
  intro w
  rw [quiet w]
  exact Frame.refl w

namespace FilesystemStorage
variable {P : Primitives} {fs : FilesystemStorage}

theorem read_bucket_meta_quiet (bucket : String) : Quiet (fs.read_bucket_meta bucket) :=
  Quiet.bind (Quiet.lift _) fun _ => Quiet.bind (Quiet.mapError (Quiet.observe _)) fun _ => Quiet.lift _

theorem is_versioned_quiet (bucket : String) : Quiet (fs.is_versioned bucket) :=
  Quiet.bind (read_bucket_meta_quiet bucket) fun _ => Quiet.pure _

theorem effective_erasure_coding_quiet (bucket : String) : Quiet (fs.effective_erasure_coding bucket) := by
  unfold effective_erasure_coding
  split
  · exact Quiet.bind (read_bucket_meta_quiet bucket) fun _ => Quiet.pure _
  · exact Quiet.pure _

theorem read_object_meta_quiet (bucket key : String) : Quiet (fs.read_object_meta bucket key) :=
  Quiet.bind (Quiet.mapError (Quiet.observe _)) fun _ => Quiet.lift _

theorem ensure_can_overwrite_quiet (now : Int) (bucket key : String) :
    Quiet (fs.ensure_can_overwrite P now bucket key) := by
  refine Quiet.bind (Quiet.unwrap_or _ (Quiet.observe _)) fun found => ?_
  split
  · exact Quiet.bind (read_object_meta_quiet bucket key) fun _ => Quiet.lift _
  · exact Quiet.pure _

theorem resolve_default_object_lock_quiet (now : Int) (bucket : String) :
    Quiet (fs.resolve_default_object_lock P now bucket) := by
  refine Quiet.bind (read_bucket_meta_quiet bucket) fun record => ?_
  split
  · exact Quiet.pure _
  · split
    · exact Quiet.pure _
    · split
      · split
        · exact Quiet.pure _
        · split
          · exact Quiet.pure _
          · exact Quiet.fail _
      · exact Quiet.pure _

theorem next_version_id_quiet (draws : Draws) (bucket : String) : Quiet (fs.next_version_id draws bucket) := by
  refine Quiet.bind (Quiet.unwrap_or _ (is_versioned_quiet bucket)) fun versioned => ?_
  split <;> exact Quiet.pure _

theorem next_version_id_done {draws : Draws} {bucket : String} {id : Option String} {w w' : World}
    (done : fs.next_version_id draws bucket w = (.ok id,w')) : id = none ∨ id = some draws.version_id := by
  simp only [next_version_id,Prog.bind_ok_iff] at done
  obtain ⟨versioned,_,_,done⟩ := done
  split at done
  · exact .inr (pure_ok_iff.mp done).1
  · exact .inl (pure_ok_iff.mp done).1

end FilesystemStorage

theorem read_shards_back_quiet {P : Primitives} {dir : OsPath} (size : Nat) (infos : List ChunkInfo) :
    Quiet (read_shards_back P dir size infos) := by
  induction infos with
  | nil => exact Quiet.pure _
  | cons ci rest ih =>
    exact Quiet.bind (Quiet.io (Quiet.observe _)) fun _ => Quiet.bind ih fun _ => Quiet.pure _

/-! ### Reading an object -/

section Readers
variable {P : Primitives} {fs : FilesystemStorage} {bucket key : String}

theorem open_file_quiet (path : OsPath) (missing : StorageError) (offset : Nat) :
    Quiet (FilesystemStorage.open_file P path missing offset) :=
  Quiet.bind (Quiet.mapError (Quiet.observe _)) fun _ => Quiet.pure _

theorem open_chunked_quiet (dir manifest_file : OsPath) (missing : StorageError) (record : ObjectMeta)
    (customer_key : Option Bytes) : Quiet (fs.open_chunked P bucket key dir manifest_file missing record customer_key) := by
  refine Quiet.bind (Quiet.bind (Quiet.mapError (Quiet.observe _)) fun _ => Quiet.lift _) fun manifest => ?_
  refine Quiet.bind (Quiet.ask _) fun disk => ?_
  cases record.encryption with
  | some enc =>
    exact Quiet.bind (Quiet.lift _) fun _ => Quiet.bind (Quiet.lift _) fun _ => Quiet.bind (Quiet.lift _) fun _ =>
      Quiet.pure _
  | none => exact Quiet.bind (Quiet.lift _) fun _ => Quiet.pure _

theorem open_encrypted_file_quiet (path : OsPath) (missing : StorageError) (record : ObjectMeta) (enc : EncryptionMeta)
    (customer_key : Option Bytes) : Quiet (fs.open_encrypted_file P bucket key path missing record enc customer_key) :=
  Quiet.bind (Quiet.lift _) fun _ => Quiet.bind (open_file_quiet path missing 0) fun _ => Quiet.bind (Quiet.lift _) fun _ =>
    Quiet.pure _

theorem get_object_quiet (customer_key : Option Bytes) : Quiet (fs.get_object P bucket key customer_key) := by
  refine Quiet.bind (Quiet.lift _) fun _ => Quiet.bind (Quiet.lift _) fun _ => ?_
  refine Quiet.bind (FilesystemStorage.read_object_meta_quiet bucket key) fun record => ?_
  refine Quiet.bind (Quiet.lift _) fun _ => Quiet.bind (Quiet.unwrap_or _ (Quiet.observe _)) fun chunked => ?_
  split
  · exact Quiet.bind (open_chunked_quiet _ _ _ record customer_key) fun _ => Quiet.pure _
  · dsimp only
    split
    · exact Quiet.bind (open_encrypted_file_quiet _ _ record _ customer_key) fun _ => Quiet.pure _
    · refine Quiet.bind (open_file_quiet _ _ 0) fun file => ?_
      split <;> exact Quiet.pure _

theorem get_object_range_quiet (offset length : Nat) (customer_key : Option Bytes) :
    Quiet (fs.get_object_range P bucket key offset length customer_key) := by
  refine Quiet.bind (Quiet.lift _) fun _ => Quiet.bind (Quiet.lift _) fun _ => ?_
  refine Quiet.bind (FilesystemStorage.read_object_meta_quiet bucket key) fun record => ?_
  refine Quiet.bind (Quiet.lift _) fun _ => Quiet.bind (Quiet.unwrap_or _ (Quiet.observe _)) fun chunked => ?_
  split
  · refine Quiet.bind (Quiet.bind (Quiet.mapError (Quiet.observe _)) fun _ => Quiet.lift _) fun manifest => ?_
    refine Quiet.bind (Quiet.ask _) fun disk => ?_
    cases record.encryption with
    | some enc => exact Quiet.bind (Quiet.lift _) fun _ => Quiet.bind (Quiet.lift _) fun _ => Quiet.pure _
    | none => exact Quiet.bind (Quiet.lift _) fun _ => Quiet.pure _
  · cases record.encryption with
    | some enc =>
      exact Quiet.bind (Quiet.lift _) fun _ => Quiet.bind (open_file_quiet _ _ _) fun _ => Quiet.pure _
    | none =>
      refine Quiet.bind (open_file_quiet _ _ _) fun file => ?_
      split
      · exact Quiet.bind (Quiet.lift _) fun _ => Quiet.pure _
      · exact Quiet.pure _

theorem head_object_quiet : Quiet (fs.head_object bucket key) :=
  Quiet.bind (Quiet.lift _) fun _ => Quiet.bind (Quiet.lift _) fun _ => FilesystemStorage.read_object_meta_quiet bucket key

end Readers

/-! ### Quota -/

theorem quotaReads_none {limits : QuotaLimits} {available : Nat → Option Nat} {failure : Option IoError} {written : Nat}
    {reads : List Bytes} (passed : (quotaReads limits available failure written reads).2 = none) :
    (quotaReads limits available failure written reads).1 = reads ∧ failure = none := by
  induction reads generalizing written with
  | nil => exact ⟨rfl,passed⟩
  | cons piece rest ih =>
    rw [quotaReads] at passed ⊢
    split at passed
    next e refused => cases passed
    next fine =>
      obtain ⟨same,ended⟩ := ih passed
      exact ⟨by simp [same],ended⟩

/-- A stream that came through the quota without an error is the stream itself. -/
theorem wrap_upload_reader_whole {fs : FilesystemStorage} {draws : Draws} {body : ByteStream}
    (passed : (fs.wrap_upload_reader draws body).failure = none) :
    (fs.wrap_upload_reader draws body).body = body.body ∧ body.failure = none := by
  obtain ⟨same,ended⟩ := quotaReads_none passed
  exact ⟨by simp only [ByteStream.body,FilesystemStorage.wrap_upload_reader,same],ended⟩

theorem toString_digits (n : Nat) : (toString n).toList = Nat.toDigits 10 n := by
  rw [show toString n = Nat.repr n from rfl,Nat.repr,String.toList_ofList]

/-- A number is parsed as itself. -/
theorem parseUnsigned_toString {max n : Nat} (within : n ≤ max) : parseUnsigned max (toString n) = some n := by
  have digits : ∀ c ∈ Nat.toDigits 10 n, c.isDigit = true := fun c member =>
    Nat.isDigit_of_mem_toDigits (by decide) (by decide) member
  have unsigned : ∀ rest, Nat.toDigits 10 n ≠ '+' :: rest := by
    intro rest same
    have plus := digits '+' (by rw [same]; simp)
    exact absurd plus (by decide)
  have value : (Nat.toDigits 10 n).foldl (fun acc c => acc * 10 + (c.toNat - '0'.toNat)) 0 = n := by
    have step : (fun (acc : Nat) (c : Char) => acc * 10 + (c.toNat - '0'.toNat)) =
        fun acc c => 10 * acc + (c.toNat - '0'.toNat) := by
      funext acc c
      rw [Nat.mul_comm]
    rw [step,← Nat.ofDigitChars_eq_foldl,Nat.ofDigitChars_ten_toDigits]
  unfold parseUnsigned
  rw [toString_digits]
  split
  next rest same => exact absurd same (unsigned rest)
  next =>
    dsimp only
    rw [if_pos ⟨Nat.toDigits_ne_nil,List.all_eq_true.mpr digits⟩,value,if_pos within]

theorem strip_start_append (start rest : String) : strip_start (start ++ rest) start = some rest := by
  have starts : starts_with (start ++ rest) start = true := by simp [starts_with,String.toList_append]
  rw [strip_start,if_pos starts,String.toList_append,← String.length_toList,List.drop_left,String.ofList_toList]

/-- The limit an upload ran into is read back from the text of the error. -/
theorem map_read_quota_error_too_large {max : Nat} (fits : max < 2 ^ 64) :
    map_read_quota_error (quota_io_error (.ObjectTooLarge max)) = .ObjectTooLarge max := by
  have text : (quota_io_error (.ObjectTooLarge max)).text = "maxio:quota:object-too-large:" ++ toString max := rfl
  unfold map_read_quota_error
  rw [text,strip_start_append,Option.bind_some,parseUnsigned_toString (by omega)]
/-! ### Encryption and the sidecar MAC -/

section Encryption
variable {P : Primitives} {fs : FilesystemStorage}

/-- Only encryptions have been recorded. -/
structure SameDisk (w w' : World) : Prop where
  tree : w'.tree = w.tree
  rows : w'.rows = w.rows

theorem wrap_dek_done {ring : Keyring} {key_id : String} {dek nonce wrapped : Bytes} {w w' : World}
    (done : ring.wrap_dek P key_id dek nonce w = (.ok wrapped,w')) : SameDisk w w' := by
  simp only [Keyring.wrap_dek,Prog.bind_ok_iff,lift_ok_iff,aes_encrypt_ok_iff] at done
  obtain ⟨_,_,⟨_,rfl⟩,_,rfl⟩ := done
  exact ⟨rfl,rfl⟩

theorem prepare_encryption_done {draws : Draws} {req : EncryptionRequest} {enc : EncryptionMeta} {w w' : World}
    (done : fs.prepare_encryption P draws req w = (.ok enc,w')) :
    enc.chunk_size = FRAME_CHUNK_SIZE ∧ enc.nonce_prefix = P.b64_encode draws.nonce_prefix ∧ SameDisk w w' := by
  unfold FilesystemStorage.prepare_encryption at done
  cases mode : req.mode with
  | SseS3 =>
    simp only [mode,Prog.bind_ok_iff,pure_ok_iff] at done
    obtain ⟨_,_,wrapped,rfl,rfl⟩ := done
    exact ⟨rfl,rfl,wrap_dek_done wrapped⟩
  | SseKms =>
    simp only [mode] at done
    cases configured : fs.kms with
    | none => simp [configured] at done
    | some kms =>
      simp only [configured,LocalKmsBackend.generate_data_key,Prog.bind_ok_iff,pure_ok_iff,aes_encrypt_ok_iff] at done
      obtain ⟨_,_,⟨_,_,⟨_,rfl⟩,rfl,rfl⟩,rfl,rfl⟩ := done
      exact ⟨rfl,rfl,rfl,rfl⟩
  | SseC =>
    simp only [mode] at done
    cases given : req.customer_key with
    | none => simp [given] at done
    | some customer_key =>
      simp only [given,Prog.bind_ok_iff,pure_ok_iff,aes_encrypt_ok_iff] at done
      obtain ⟨_,_,⟨_,rfl⟩,rfl,rfl⟩ := done
      exact ⟨rfl,rfl,rfl,rfl⟩

/-- What a prepared cipher has to do with the metadata that is stored with it. -/
structure Keyed (P : Primitives) (fs : FilesystemStorage) (ck : Option Bytes) (aad : Nat → Bytes) (enc : EncryptionMeta)
    (cipher : FrameCipher) : Prop where
  chunk_size : enc.chunk_size = FRAME_CHUNK_SIZE
  key : fs.resolve_dek P enc ck = .ok cipher.key
  aad : cipher.aad = aad
  eight : cipher.nonce_prefix.length = 8

theorem required_ok {α : Type} {e : StorageError} {o : Option α} {a : α}
    (found : FilesystemStorage.required e o = .ok a) : o = some a := by
  cases o with
  | none => cases found
  | some b => injection found with found; rw [found]

theorem prepared_nonce (sound : P.Sound) {draws : Draws} {req : EncryptionRequest} {enc : EncryptionMeta}
    {failed : StorageError} {nonce : Bytes} {w w' : World}
    (done : fs.prepare_encryption P draws req w = (.ok enc,w'))
    (decoded : FilesystemStorage.required failed (P.b64_decode enc.nonce_prefix) = .ok nonce) :
    nonce = draws.nonce_prefix := by
  have found := required_ok decoded
  rw [(prepare_encryption_done done).2.1,sound.base64] at found
  injection found with found
  exact found.symm

theorem start_encryption_done (sound : P.Sound) {draws : Draws} {req : EncryptionRequest} {aad : Nat → Bytes}
    {enc : EncryptionMeta} {cipher : FrameCipher} {w w' : World}
    (done : fs.start_encryption P draws req aad w = (.ok (enc,cipher),w')) :
    Keyed P fs req.customer_key aad enc cipher ∧ SameDisk w w' := by
  simp only [FilesystemStorage.start_encryption,Prog.bind_ok_iff,Prog.mapError_ok_iff,lift_ok_iff,except_mapError_ok,
    pure_ok_iff,Prod.mk.injEq] at done
  obtain ⟨enc',w₁,prepared,dek,_,⟨resolved,rfl⟩,nonce,_,⟨decoded,rfl⟩,⟨rfl,rfl⟩,rfl⟩ := done
  obtain ⟨chunk,_,same⟩ := prepare_encryption_done prepared
  refine ⟨⟨chunk,resolved,rfl,?_⟩,same⟩
  show nonce.length = 8
  rw [prepared_nonce sound prepared decoded,draws.prefix_length]

/-- The MAC and the lock leave what identifies the version alone. -/
theorem with_sidecar_mac_version_id (dek : Option Bytes) (record : ObjectMeta) :
    (with_sidecar_mac P dek record).version_id = record.version_id := by
  unfold with_sidecar_mac
  split <;> rfl

theorem apply_object_lock_version_id (record : ObjectMeta) (lock : Option ObjectLockRetention) :
    (apply_object_lock record lock).version_id = record.version_id := by
  cases lock <;> rfl

private theorem xor_self_foldl (a : Bytes) :
    (List.zipWith (fun x y => x ^^^ y) a a).foldl (fun diff x => diff ||| x) (0 : UInt8) = 0 := by
  induction a with
  | nil => rfl
  | cons b rest ih =>
    rw [List.zipWith_cons_cons,List.foldl_cons,UInt8.xor_self,UInt8.or_zero]
    exact ih

theorem constant_time_eq_refl (a : Bytes) : constant_time_eq a a = true := by
  rw [constant_time_eq,xor_self_foldl]
  simp

theorem compute_sidecar_mac_ne (sound : P.Sound) (dek : Bytes) (record : ObjectMeta) :
    compute_sidecar_mac P dek record ≠ "" := by
  intro empty
  have decoded := hex_decode_encode (P.hmac_sha256 dek (P.canonical_json (mac_input record)))
  rw [show hex_encode (P.hmac_sha256 dek (P.canonical_json (mac_input record))) = "" from empty] at decoded
  have length := sound.mac dek (P.canonical_json (mac_input record))
  have none : hex_decode "" = some [] := by decide
  rw [none] at decoded
  injection decoded with decoded
  rw [← decoded] at length
  simp at length

/-- The sidecar MAC passes its own check. -/
theorem verified_dek_with_sidecar_mac (sound : P.Sound) {ck : Option Bytes} {aad : Nat → Bytes} {enc : EncryptionMeta}
    {cipher : FrameCipher} (keyed : Keyed P fs ck aad enc cipher) {record : ObjectMeta}
    (has : record.encryption = some enc) :
    ∃ enc', (with_sidecar_mac P (some cipher.key) record).encryption = some enc' ∧
      enc'.chunk_size = FRAME_CHUNK_SIZE ∧
      fs.verified_dek P (with_sidecar_mac P (some cipher.key) record) enc' ck = .ok cipher.key := by
  have written : with_sidecar_mac P (some cipher.key) record = { record with
      encryption := some { enc with sidecar_mac := compute_sidecar_mac P cipher.key record } } := by
    simp [with_sidecar_mac,has]
  have resolved : fs.resolve_dek P { enc with sidecar_mac := compute_sidecar_mac P cipher.key record } ck =
      .ok cipher.key := keyed.key
  rw [written]
  refine ⟨_,rfl,keyed.chunk_size,?_⟩
  have stable : compute_sidecar_mac P cipher.key { record with
      encryption := some { enc with sidecar_mac := compute_sidecar_mac P cipher.key record } } =
      compute_sidecar_mac P cipher.key record := by
    simp [compute_sidecar_mac,mac_input,has]
  have verified : verify_sidecar_mac P { record with
      encryption := some { enc with sidecar_mac := compute_sidecar_mac P cipher.key record } } cipher.key = .ok () := by
    simp only [verify_sidecar_mac,stable,constant_time_eq_refl,if_neg (compute_sidecar_mac_ne sound cipher.key record)]
    rfl
  unfold FilesystemStorage.verified_dek
  rw [resolved]
  show (verify_sidecar_mac P _ cipher.key >>= fun _ => Except.ok cipher.key) = _
  rw [verified]
  rfl

end Encryption

end Maxio
