import Maxio.Rejections
import Maxio.RoundTrip

/-!
The checksum a client expects. Where a layout compares it with the computed one, a put with a wrong value is turned
down before anything is published; the layout of plain chunks and folder markers never look at it.
-/

set_option linter.unusedSimpArgs false

namespace Maxio
open FileTree (Node Tree)

section
variable {P : Primitives} {fs : FilesystemStorage} {bucket key : String} {draws : Draws} {w w' : World}
  {content_type : String} {body : ByteStream} {algo : ChecksumAlgorithm} {expected : String}

/-- The text of the computed checksum. -/
def computedChecksum (P : Primitives) (algo : ChecksumAlgorithm) (data : Bytes) : String :=
  P.b64_encode (P.checksum algo data)

/-- The right value changes nothing. -/
theorem check_checksum_right (algo : ChecksumAlgorithm) (data : Bytes) :
    check_checksum P (some (algo,some (computedChecksum P algo data))) data = check_checksum P (some (algo,none)) data := by
  simp [check_checksum,computedChecksum]

theorem check_checksum_wrong {data : Bytes} (wrong : computedChecksum P algo data ≠ expected) :
    ∃ text, check_checksum P (some (algo,some expected)) data = .error (.ChecksumMismatch text) := by
  unfold computedChecksum at wrong
  unfold check_checksum
  simp only
  rw [if_pos wrong]
  exact ⟨_,rfl⟩

/-- A run that ends by turning a put down for its checksum. -/
def Mismatched {α : Type} (r : Except StorageError α × World) : Prop := ∃ text, r.1 = .error (.ChecksumMismatch text)

namespace Mismatched
variable {α β : Type}

/-- No later step changes that. -/
theorem bind {m : Action α} {f : α → Action β} (mismatched : Mismatched (m w)) : Mismatched ((m >>= f) w) := by
  obtain ⟨text,failed⟩ := mismatched
  exact ⟨text,congrArg Prod.fst (Prog.bind_of_error (Prod.ext failed rfl))⟩

theorem after {m : Action α} {f : α → Action β} {a : α} (done : m w = (.ok a,w')) (mismatched : Mismatched (f a w')) :
    Mismatched ((m >>= f) w) := by
  rw [Prog.bind_of_ok done]
  exact mismatched

theorem guarded {drop : World → World} {m : Action α} (mismatched : Mismatched (m w)) :
    Mismatched (Prog.guarded drop m w) := by
  obtain ⟨text,failed⟩ := mismatched
  unfold Prog.guarded
  rw [show m w = (.error (.ChecksumMismatch text),(m w).2) from Prod.ext failed rfl]
  exact ⟨text,rfl⟩

theorem not_ok {r : Except StorageError α × World} {a : α} (mismatched : Mismatched r) : r ≠ (.ok a,w') := by
  rintro rfl
  obtain ⟨text,failed⟩ := mismatched
  cases failed

end Mismatched

theorem store_flat_wrong {version_id : Option String} {sealing : Option (EncryptionMeta × FrameCipher)}
    {record : ObjectMeta}
    (done : fs.store_flat P draws bucket key content_type body (some (algo,none)) version_id sealing w = (.ok record,w'))
    (wrong : computedChecksum P algo body.body ≠ expected) :
    Mismatched (fs.store_flat P draws bucket key content_type body (some (algo,some expected)) version_id sealing w) := by
  simp only [FilesystemStorage.store_flat,Common.with_guard,Prog.bind_ok_iff,Prog.guarded_ok_iff] at done
  obtain ⟨_,w₁,made,_,w₂,created,fw,w₃,pumped,fw',w₄,finished,_⟩ := done
  obtain ⟨text,mismatch⟩ := check_checksum_wrong wrong
  refine .after made (Mismatched.guarded (.after created (.after pumped (.after finished ?_))))
  rw [mismatch]
  exact ⟨text,rfl⟩

theorem store_chunked_encrypted_wrong {encryption : EncryptionRequest} {record : ObjectMeta}
    (done : fs.store_chunked_encrypted P draws bucket key content_type body (some (algo,none)) encryption w =
      (.ok record,w')) (wrong : computedChecksum P algo body.body ≠ expected) :
    Mismatched (fs.store_chunked_encrypted P draws bucket key content_type body (some (algo,some expected)) encryption
      w) := by
  simp only [FilesystemStorage.store_chunked_encrypted,FilesystemStorage.in_temp_ec_dir,Common.with_guard,
    Prog.bind_ok_iff,Prog.guarded_ok_iff] at done
  obtain ⟨_,w₁,made,_,w₂,made',version_id,w₃,dated,sealing,w₄,started,sw,w₅,pumped,sw',w₆,finished,format,w₇,
    manifest,_⟩ := done
  obtain ⟨text,mismatch⟩ := check_checksum_wrong wrong
  refine Mismatched.guarded (.after made (.after made' (.after dated (.after started ?_))))
  refine .after pumped (.after finished (.after manifest ?_))
  rw [mismatch]
  exact ⟨text,rfl⟩

theorem store_flat_right (version_id : Option String) (sealing : Option (EncryptionMeta × FrameCipher))
    (right : computedChecksum P algo body.body = expected) :
    fs.store_flat P draws bucket key content_type body (some (algo,some expected)) version_id sealing =
      fs.store_flat P draws bucket key content_type body (some (algo,none)) version_id sealing := by
  unfold FilesystemStorage.store_flat
  rw [← right,check_checksum_right]

theorem store_chunked_encrypted_right (encryption : EncryptionRequest)
    (right : computedChecksum P algo body.body = expected) :
    fs.store_chunked_encrypted P draws bucket key content_type body (some (algo,some expected)) encryption =
      fs.store_chunked_encrypted P draws bucket key content_type body (some (algo,none)) encryption := by
  unfold FilesystemStorage.store_chunked_encrypted
  rw [← right,check_checksum_right]

/-- Everything but temporary siblings and directories on the way to the key's places is as it was. -/
def StoresNothing (fs : FilesystemStorage) (bucket key : String) (draws : Draws) (w w' : World) : Prop :=
  Frame (Temporary fs bucket key draws) (Opened fs bucket key) w w'

/-- The put looks at the expected value: it is no folder marker, and not stored as plain chunks. -/
def LooksAtChecksum (fs : FilesystemStorage) (bucket key : String) (encryption : Option EncryptionRequest) (w : World) :
    Prop := ends_with key "/" = false ∧ ¬ (coded fs bucket w = true ∧ encryption = none)

/-- What a put of an object that is no folder marker ends in. -/
def put_in_layout (P : Primitives) (fs : FilesystemStorage) (draws : Draws) (bucket key content_type : String)
    (body : ByteStream) (checksum : ChecksumRequest) (encryption : Option EncryptionRequest) (on : Bool) :
    Action PutResult :=
  if on then match encryption with
    | some req => fs.put_object_chunked_encrypted P draws bucket key content_type body checksum req
    | none => fs.put_object_chunked P draws bucket key content_type body (checksum.map Prod.fst)
  else fs.put_object_flat P draws bucket key content_type body checksum encryption

/-- A put that succeeds has reached the writer of its layout, and would have reached it with any checksum. -/
theorem put_object_reaches {checksum : ChecksumRequest} {encryption : Option EncryptionRequest}
    {declared_size : Option Nat} {result : PutResult} (file : ends_with key "/" = false)
    (done : fs.put_object P draws bucket key content_type body checksum encryption declared_size w = (.ok result,w')) :
    Accepted bucket key ∧ ∀ checksum',
      fs.put_object P draws bucket key content_type body checksum' encryption declared_size w =
        put_in_layout P fs draws bucket key content_type (fs.wrap_upload_reader draws body) checksum' encryption
          (coded fs bucket w) w := by
  simp only [FilesystemStorage.put_object,Prog.bind_ok_iff,lift_ok_iff] at done
  obtain ⟨_,_,⟨valid,rfl⟩,_,_,⟨valid',rfl⟩,_,_,unlocked,_,_,⟨room,rfl⟩,done⟩ := done
  have quiet := (FilesystemStorage.ensure_can_overwrite_quiet _ bucket key).state unlocked
  subst quiet
  rw [if_neg (by simp [file]),Prog.bind_ok_iff] at done
  obtain ⟨answer,_,asked,done⟩ := done
  obtain ⟨rfl,rfl⟩ := effective_erasure_coding_done valid asked
  refine ⟨⟨valid,valid'⟩,?_⟩
  intro checksum'
  simp only [FilesystemStorage.put_object,valid,valid',Prog.lift_ok_bind]
  rw [Prog.bind_of_ok unlocked]
  simp only [room,Prog.lift_ok_bind,file,Bool.false_eq_true,if_false]
  rw [Prog.bind_of_ok asked]
  rfl

/-- Where the layout looks at it, the right value changes nothing. -/
theorem put_in_layout_right {encryption : Option EncryptionRequest} {on : Bool}
    (looks : ¬ (on = true ∧ encryption = none)) (right : computedChecksum P algo body.body = expected) :
    put_in_layout P fs draws bucket key content_type body (some (algo,some expected)) encryption on =
      put_in_layout P fs draws bucket key content_type body (some (algo,none)) encryption on := by
  cases on with
  | true =>
    cases encryption with
    | none => exact absurd ⟨rfl,rfl⟩ looks
    | some req =>
      simp only [put_in_layout,if_true,FilesystemStorage.put_object_chunked_encrypted]
      rw [store_chunked_encrypted_right req right]
  | false =>
    simp only [put_in_layout,Bool.false_eq_true,if_false,FilesystemStorage.put_object_flat,store_flat_right _ _ right]

/-- A wrong value turns the put down. -/
theorem put_in_layout_wrong {encryption : Option EncryptionRequest} {on : Bool} {result : PutResult}
    (looks : ¬ (on = true ∧ encryption = none)) (wrong : computedChecksum P algo body.body ≠ expected)
    (done : put_in_layout P fs draws bucket key content_type body (some (algo,none)) encryption on w = (.ok result,w')) :
    Mismatched (put_in_layout P fs draws bucket key content_type body (some (algo,some expected)) encryption on w) := by
  cases on with
  | true =>
    cases encryption with
    | none => exact absurd ⟨rfl,rfl⟩ looks
    | some req =>
      simp only [put_in_layout,if_true,FilesystemStorage.put_object_chunked_encrypted,Prog.bind_ok_iff] at done
      obtain ⟨_,_,named,record,_,stored,_⟩ := done
      exact .after named (.bind (store_chunked_encrypted_wrong stored wrong))
  | false =>
    simp only [put_in_layout,Bool.false_eq_true,if_false,FilesystemStorage.put_object_flat,Prog.bind_ok_iff] at done
    obtain ⟨_,_,dated,sealing,_,started,record,_,stored,_⟩ := done
    exact .after dated (.after started (.bind (store_flat_wrong stored wrong)))

/-- A put in its layout reads the stream to its end before it succeeds. -/
theorem put_in_layout_ended {checksum : ChecksumRequest} {encryption : Option EncryptionRequest} {on : Bool} :
    Prog.Gives (put_in_layout P fs draws bucket key content_type body checksum encryption on)
      fun _ => body.failure = none := by
  intro w result w' done
  cases on with
  | true =>
    cases encryption with
    | none =>
      simp only [put_in_layout,if_true,FilesystemStorage.put_object_chunked,Prog.bind_ok_iff] at done
      obtain ⟨_,_,_,record,_,stored,_⟩ := done
      exact store_chunked_ended _ _ _ stored
    | some req =>
      simp only [put_in_layout,if_true,FilesystemStorage.put_object_chunked_encrypted,Prog.bind_ok_iff] at done
      obtain ⟨_,_,_,record,_,stored,_⟩ := done
      exact store_chunked_encrypted_ended _ _ _ stored
  | false =>
    simp only [put_in_layout,Bool.false_eq_true,if_false,FilesystemStorage.put_object_flat,Prog.bind_ok_iff] at done
    obtain ⟨_,_,_,sealing,_,_,record,_,stored,_⟩ := done
    exact store_flat_ended _ _ _ stored

/-- For a put that succeeds when no value is expected: it is turned down for the expected value, with nothing stored,
    exactly when the computed value is another one, if and only if the put looks at the expected value at all or the
    two agree. -/
theorem checksum_enforced_iff {encryption : Option EncryptionRequest} {declared_size : Option Nat} {result : PutResult}
    (done : fs.put_object P draws bucket key content_type body (some (algo,none)) encryption declared_size w =
      (.ok result,w')) :
    ((∃ text w', fs.put_object P draws bucket key content_type body (some (algo,some expected)) encryption declared_size
          w = (.error (.ChecksumMismatch text),w') ∧ StoresNothing fs bucket key draws w w') ↔
        computedChecksum P algo body.body ≠ expected) ↔
      LooksAtChecksum fs bucket key encryption w ∨ computedChecksum P algo body.body = expected := by
  have stored : ∀ {text w''}, fs.put_object P draws bucket key content_type body (some (algo,some expected)) encryption
      declared_size w = (.error (.ChecksumMismatch text),w'') → StoresNothing fs bucket key draws w w'' := by
    intro text w'' failed
    refine put_object_spares w _ w'' failed ?_
    rintro ⟨⟨err,is_io⟩,_⟩
    cases is_io
  -- a run that ignores the expected value succeeds as the one without it
  have ignored : fs.put_object P draws bucket key content_type body (some (algo,some expected)) encryption declared_size
      w = fs.put_object P draws bucket key content_type body (some (algo,none)) encryption declared_size w →
      ¬ ∃ text w', fs.put_object P draws bucket key content_type body (some (algo,some expected)) encryption
        declared_size w = (.error (.ChecksumMismatch text),w') ∧ StoresNothing fs bucket key draws w w' := by
    rintro same ⟨text,w'',failed,_⟩
    rw [same,done] at failed
    cases failed
  have blind : ∀ {mismatch : Prop}, ¬ LooksAtChecksum fs bucket key encryption w → ¬ mismatch →
      ((mismatch ↔ computedChecksum P algo body.body ≠ expected) ↔
        LooksAtChecksum fs bucket key encryption w ∨ computedChecksum P algo body.body = expected) := by
    intro mismatch unseen never
    constructor
    · intro exactly
      right
      by_contra wrong
      exact never (exactly.mpr wrong)
    · rintro (seen | right)
      · exact absurd seen unseen
      · exact iff_of_false never fun wrong => wrong right
  by_cases folder : ends_with key "/" = true
  · have same : fs.put_object P draws bucket key content_type body (some (algo,some expected)) encryption declared_size
        w = fs.put_object P draws bucket key content_type body (some (algo,none)) encryption declared_size w := by
      simp only [FilesystemStorage.put_object,if_pos folder]
    exact blind (fun looks => by simp [looks.1] at folder) (ignored same)
  · have file : ends_with key "/" = false := by simpa using folder
    obtain ⟨accepted,reaches⟩ := put_object_reaches file done
    have reached := done
    rw [reaches] at reached
    by_cases plain : coded fs bucket w = true ∧ encryption = none
    · have same : fs.put_object P draws bucket key content_type body (some (algo,some expected)) encryption
          declared_size w = fs.put_object P draws bucket key content_type body (some (algo,none)) encryption declared_size
          w := by
        rw [reaches,reaches,plain.1,plain.2]
        simp only [put_in_layout,if_true,Option.map_some]
      exact blind (fun looks => looks.2 plain) (ignored same)
    · have looks : LooksAtChecksum fs bucket key encryption w := ⟨file,plain⟩
      refine iff_of_true ?_ (.inl looks)
      have same := (wrap_upload_reader_whole (put_in_layout_ended _ _ _ reached)).1
      by_cases right : computedChecksum P algo body.body = expected
      · refine iff_of_false (ignored ?_) fun wrong => wrong right
        rw [reaches,reaches,put_in_layout_right plain (by rw [same,right])]
      · refine iff_of_true ?_ right
        have mismatched := put_in_layout_wrong plain (by rw [same]; exact right) reached
        rw [← reaches] at mismatched
        obtain ⟨text,failed⟩ := mismatched
        exact ⟨text,_,Prod.ext failed rfl,stored (Prod.ext failed rfl)⟩

end

namespace Sample

theorem four_positive : 0 < 4 := by decide

/-- A put of `abc` with the checksum value `bad`, or none, in a storage with erasure coding on or off. -/
def put_checked (coding : Bool) (expected : Option String) : Except StorageError PutResult × World :=
  (storage coding 4 four_positive).put_object primitives (draws 0) "logs" "a" "text/plain" (stream abc abc_filled abc_fits)
    (some (.SHA256,expected)) none none (world false)

end Sample

theorem flat_put_checks_abc :
    ∃ text w', Sample.put_checked false (some "bad") = (.error (.ChecksumMismatch text),w') := by
  have ok : (Sample.put_checked false none).1.isOk = true := by decide +kernel
  obtain ⟨result,w',done⟩ := Sample.isOk_spec ok
  have enforced := (@checksum_enforced_iff _ _ _ _ _ _ _ _ _ _ "bad" _ _ _ done).mpr
    (.inl ⟨by decide +kernel,by decide +kernel⟩)
  obtain ⟨text,w',failed,_⟩ := enforced.mpr (by decide +kernel)
  exact ⟨text,w',failed⟩

/-- Plain chunks are stored although the client expects another checksum. -/
theorem chunked_put_ignores_checksum :
    computedChecksum Sample.primitives .SHA256 Sample.abc ≠ "bad" ∧
      (Sample.put_checked true (some "bad")).1.isOk = true ∧
      (Sample.put_checked true (some "bad")).2.tree.node (ecAt (Sample.storage true 4 Sample.four_positive) "logs" "a") =
        some .dir := by
  decide +kernel

end Maxio
