import Maxio.PartCopies
import Maxio.ReadRequests
import Maxio.VersionPlaces

/-!
A part or a range of a version: what GET answers when a version is asked for, and when the answer is cut from that version.
-/

set_option linter.unusedSimpArgs false

namespace Maxio
open Reading (Exactly FileReader)

/-! ### What is asked for and what is answered -/

section
variable (P : Primitives) (H : HttpDates) (params : Params) (headers : HeaderMap)

/-- Where the bytes are that are asked for, of an object with this record: its part of the number in the query, or the
    range of the header, if the conditions let it through. First byte and length. -/
def asked_slice (record : ObjectMeta) : Option (Nat × Nat) := match params.get "partNumber" with
  | some part_num_str => match parse_part_number part_num_str with
    | .error _ => none
    | .ok part_num => match part_place record part_num with
      | .error _ => none
      | .ok place => some (place.offset,place.length)
  | none => match (headers.get "range").bind to_str with
    | none => none
    | some range_str =>
      if check_conditions P H headers record = none then match parse_range range_str record.size with
        | .ok (some (start,last)) => some (start,last - start + 1)
        | _ => none
      else none

/-- A response with this part of the bytes of an object, under the ETag and the size of the object. -/
structure ReadResponse.IsSlice (response : ReadResponse) (record : ObjectMeta) (body : Bytes) (offset length : Nat) : Prop where
  status : response.status = 206
  etag : response.record.etag = record.etag
  size : response.record.size = record.size
  content_length : response.content_length = length
  content_range : response.content_range.map (fun range => (range.first,range.size)) = some (offset,record.size)
  bytes : ∃ reader, response.body = some reader ∧ ReadsOut P reader ((body.drop offset).take length)

end

section
variable (P : Primitives) (H : HttpDates) (fs : FilesystemStorage) (bucket key version_id : String)
  (customer_key : Option Bytes)

/-- A version that GET gives as a whole. -/
structure VersionReads (record : ObjectMeta) (body : Bytes) (w : World) : Prop where
  reads : ∃ whole, fs.get_object_version P bucket key version_id customer_key w = (.ok (whole,record),w) ∧
    ReadsOut P whole body
  size : record.size = body.length
  parts : ∀ sizes, record.part_sizes = some sizes → record.size = sizes.sum

/-- A GET of the version that asks for a slice of it. -/
structure AsksSlice (params : Params) (headers : HeaderMap) (record : ObjectMeta) (offset length : Nat) : Prop where
  version : Api.version_param params = some version_id
  slice : asked_slice P H params headers record = some (offset,length)

/-- The answer is that slice of the version. -/
def SliceAnswered (params : Params) (headers : HeaderMap) (record : ObjectMeta) (body : Bytes) (offset length : Nat)
    (w : World) : Prop :=
  ∃ response w', Api.get_object P H fs bucket key params headers customer_key w = (.ok response,w') ∧
    response.IsSlice P record body offset length

/-- The current object of a key, with the key it is read with. -/
structure CurrentObject where
  record : ObjectMeta
  cipher : Option FrameCipher
  customer_key : Option Bytes
  body : Bytes

/-- The key has no current object, or one that can be read. -/
def HasCurrent (w : World) : Option CurrentObject → Prop
  | none => w.tree.node (metaAt fs bucket key) = none
  | some now => Shows fs bucket key now.record w ∧
      Described P fs bucket key now.record now.cipher now.customer_key now.body ∧
      Stored P fs bucket key now.cipher now.body w ∧
      ∀ enc, now.record.encryption = some enc → enc.mode = .SseC → enc.customer_key_md5 ≠ none

/-- The current object has the ETag, the size and, where the request asks for them, the bytes of the version, and the
    request's key opens it. -/
def CurrentAgrees (params : Params) (headers : HeaderMap) (record : ObjectMeta) (body : Bytes) (offset length : Nat)
    (now : Option CurrentObject) : Prop :=
  ∃ object, now = some object ∧ object.record.etag = record.etag ∧ object.record.size = record.size ∧
    asked_slice P H params headers object.record = some (offset,length) ∧
    OpensAlike object.record object.customer_key customer_key ∧
    (object.body.drop offset).take length = (body.drop offset).take length

end

/-! ### What the handler does -/

section
variable {P : Primitives} {H : HttpDates} {fs : FilesystemStorage} {bucket key version_id : String}
  {customer_key : Option Bytes} {params : Params} {headers : HeaderMap} {record now : ObjectMeta} {body : Bytes}
  {offset length : Nat} {w w' : World}

/-- The slice that is asked for lies in the object. -/
theorem asked_slice_within (parts : ∀ sizes, record.part_sizes = some sizes → record.size = sizes.sum)
    (asked : asked_slice P H params headers record = some (offset,length)) : offset + length ≤ record.size := by
  unfold asked_slice at asked
  split at asked
  next =>
    split at asked
    next => cases asked
    next =>
      split at asked
      next => cases asked
      next found =>
        cases asked
        cases has : record.part_sizes with
        | none =>
          unfold part_place at found
          rw [has] at found
          cases found
        | some sizes => exact place_within has (parts sizes has) found
  next =>
    split at asked
    next => cases asked
    next =>
      split at asked
      next =>
        split at asked
        next ranged =>
          cases asked
          have := parse_range_within ranged
          omega
        next => cases asked
      next => cases asked

/-- A request for a slice of the current object is answered with it. -/
theorem get_object_slice (accepted : Accepted bucket key) (shown : Shows fs bucket key now w)
    (asked : asked_slice P H params headers now = some (offset,length)) {reader : ObjectReader}
    (opened : fs.get_object_range P bucket key offset length customer_key w = (.ok (reader,now),w)) :
    ∃ response, Api.get_object P H fs bucket key params headers customer_key w = (.ok response,w) ∧
      response.status = 206 ∧ response.record = now ∧ response.content_length = length ∧
      response.content_range.map (fun range => (range.first,range.size)) = some (offset,now.size) ∧
      response.body = some reader := by
  have head := stored_head_object accepted shown
  have opened' : stored (fs.get_object_range P bucket key offset length customer_key) w = (.ok (reader,now),w) :=
    Prog.mapError_ok_iff.mpr opened
  unfold asked_slice at asked
  unfold Api.get_object
  cases numbered : params.get "partNumber" with
  | some part_num_str =>
    rw [numbered] at asked
    dsimp only at asked
    cases parsed : parse_part_number part_num_str with
    | error e =>
      rw [parsed] at asked
      cases asked
    | ok part_num =>
      rw [parsed] at asked
      dsimp only at asked
      cases found : part_place now part_num with
      | error e =>
        rw [found] at asked
        cases asked
      | ok place =>
        rw [found] at asked
        cases asked
        simp only [Api.get_object_part,parsed,Prog.lift_ok_bind]
        rw [Prog.bind_of_ok head]
        simp only [found,Prog.lift_ok_bind]
        rw [Prog.bind_of_ok opened']
        exact ⟨_,rfl,rfl,rfl,rfl,rfl,rfl⟩
  | none =>
    rw [numbered] at asked
    dsimp only at asked
    cases header : (headers.get "range").bind to_str with
    | none =>
      rw [header] at asked
      cases asked
    | some range_str =>
      rw [header] at asked
      dsimp only at asked ⊢
      by_cases passes : check_conditions P H headers now = none
      · rw [if_pos passes] at asked
        rcases ranged : parse_range range_str now.size with refused | _ | ⟨start,last⟩
        · rw [ranged] at asked
          cases asked
        · rw [ranged] at asked
          cases asked
        · rw [ranged] at asked
          cases asked
          rw [Prog.bind_of_ok head]
          simp only [passes,ranged]
          rw [Prog.bind_of_ok opened']
          exact ⟨_,rfl,rfl,rfl,rfl,rfl,rfl⟩
      · rw [if_neg passes] at asked
        cases asked

/-- A whole answer has another status. -/
theorem get_object_full_status {response : ReadResponse}
    (answered : Api.get_object_full P H fs bucket key params headers customer_key w = (.ok response,w')) :
    response.status ≠ 206 := by
  unfold Api.get_object_full at answered
  -- the same follows whichever of the two reads it was
  cases version : Api.version_param params
  all_goals
    rw [version,Prog.bind_ok_iff] at answered
    obtain ⟨⟨reader,record⟩,w₁,_,answered⟩ := answered
    dsimp only at answered
    cases passes : check_conditions P H headers record with
    | none =>
      rw [passes] at answered
      obtain ⟨rfl,_⟩ := pure_ok_iff.mp answered
      simp [full_response]
    | some result =>
      rw [passes] at answered
      cases result with
      | NotModified =>
        obtain ⟨rfl,_⟩ := pure_ok_iff.mp answered
        simp [not_modified_response]
      | PreconditionFailed => cases answered

/-- Whatever is answered with a slice was cut from the current object. -/
theorem get_object_sliced {response : ReadResponse}
    (answered : Api.get_object P H fs bucket key params headers customer_key w = (.ok response,w'))
    (content : response.status = 206) : ∃ now offset length reader record,
      fs.head_object bucket key w = (.ok now,w) ∧ asked_slice P H params headers now = some (offset,length) ∧
      fs.get_object_range P bucket key offset length customer_key w = (.ok (reader,record),w) ∧
      response.record = now ∧ response.content_length = length ∧
      response.content_range.map (fun range => (range.first,range.size)) = some (offset,now.size) ∧
      response.body = some reader := by
  unfold Api.get_object at answered
  cases numbered : params.get "partNumber" with
  | some part_num_str =>
    rw [numbered] at answered
    simp only [Api.get_object_part,Prog.bind_ok_iff,lift_ok_iff,stored,Prog.mapError_ok_iff,pure_ok_iff] at answered
    obtain ⟨part_num,_,⟨parsed,rfl⟩,now,w₁,headed,place,_,⟨found,rfl⟩,⟨reader,record⟩,w₂,ranged,rfl,rfl⟩ := answered
    have same := head_object_quiet.state headed
    subst same
    have same := (get_object_range_quiet _ _ _).state ranged
    subst same
    refine ⟨now,place.offset,place.length,reader,record,headed,?_,ranged,rfl,rfl,rfl,rfl⟩
    simp only [asked_slice,numbered,parsed,found]
  | none =>
    rw [numbered] at answered
    cases header : (headers.get "range").bind to_str with
    | none =>
      rw [header] at answered
      exact absurd content (get_object_full_status answered)
    | some range_str =>
      rw [header] at answered
      simp only [Prog.bind_ok_iff,stored,Prog.mapError_ok_iff] at answered
      obtain ⟨now,w₁,headed,answered⟩ := answered
      have same := head_object_quiet.state headed
      subst same
      cases passes : check_conditions P H headers now with
      | some result =>
        cases result with
        | NotModified =>
          rw [passes] at answered
          obtain ⟨rfl,_⟩ := pure_ok_iff.mp answered
          exact absurd content (by simp [not_modified_response])
        | PreconditionFailed =>
          rw [passes] at answered
          cases answered
      | none =>
        rw [passes] at answered
        rcases ranged : parse_range range_str now.size with refused | found
        · rw [ranged] at answered
          cases answered
        · rw [ranged] at answered
          rcases found with none | ⟨start,last⟩
          · exact absurd content (get_object_full_status answered)
          · simp only [Prog.bind_ok_iff,Prog.mapError_ok_iff,pure_ok_iff] at answered
            obtain ⟨⟨reader,record⟩,w₂,opened,rfl,rfl⟩ := answered
            have same := (get_object_range_quiet _ _ _).state opened
            subst same
            refine ⟨now,start,last - start + 1,reader,record,headed,?_,opened,rfl,rfl,rfl,rfl⟩
            simp only [asked_slice,numbered,header,passes,if_true,ranged]

/-- What a reader gives is determined. -/
theorem ReadsOut.unique {reader : ObjectReader} {out out' : Bytes} (reads : ReadsOut P reader out)
    (reads' : ReadsOut P reader out') : out = out' := by
  have one := reads (fun _ => 1) (fun _ => Nat.one_pos) (max out.length out'.length + 1) (by omega)
  have other := reads' (fun _ => 1) (fun _ => Nat.one_pos) (max out.length out'.length + 1) (by omega)
  rw [one] at other
  simpa using other

theorem head_object_of_absent (accepted : Accepted bucket key) (absent : w.tree.node (metaAt fs bucket key) = none)
    (headed : fs.head_object bucket key w = (.ok now,w')) : False := by
  simp only [FilesystemStorage.head_object,accepted.bucket,accepted.key,Prog.lift_ok_bind,
    FilesystemStorage.read_object_meta,Prog.bind_ok_iff] at headed
  obtain ⟨content,_,read,_⟩ := headed
  obtain ⟨there,_⟩ := Fs.read_done accepted.meta_leads (Prog.mapError_ok_iff.mp read)
  rw [show home fs bucket key ++ [metaName key] = metaAt fs bucket key from rfl,absent] at there
  cases there

end

/-- A version that is kept in a plain file can be read. -/
theorem versionReads_of_file {P : Primitives} {fs : FilesystemStorage} {bucket key version_id : String}
    {record : ObjectMeta} {body : Bytes} {w : World} (accepted : Accepted bucket key) (plain : '/' ∉ version_id.toList)
    (named : version_id ≠ "null") (unsealed : record.encryption = none) (live : record.is_delete_marker = false)
    (size : record.size = body.length) (parts : record.part_sizes = none)
    (recorded : w.tree.node (versionsAt fs bucket key ++ [version_id ++ ".meta.json"]) =
      some (.file (.json (.object record))))
    (unchunked : w.tree.node (versionsAt fs bucket key ++ [version_id ++ ".ec"]) = none)
    (file : w.tree.node (versionsAt fs bucket key ++ [version_id ++ ".data"]) = some (.file (.bytes body))) :
    VersionReads P fs bucket key version_id none record body w := by
  refine ⟨⟨.file ⟨body,0,P.file_grant⟩,?_,?_⟩,size,fun sizes has => by rw [parts] at has; cases has⟩
  · have read : fs.read_version_meta bucket key version_id w = (.ok record,w) := by
      have found : (or_not_found (.VersionNotFound version_id) (Fs.read (version_meta_path fs.buckets_dir bucket key
          version_id))) w = (.ok (.json (.object record)),w) :=
        Prog.mapError_ok_iff.mpr (Fs.read_file (version_meta_leads accepted plain) recorded)
      rw [FilesystemStorage.read_version_meta,Prog.bind_of_ok found]
      rfl
    have flat : io (Fs.is_dir (version_ec_dir fs.buckets_dir bucket key version_id)) w = (.ok false,w) := by
      rw [io_ok_iff,Fs.is_dir,Fs.observe_ok_iff,Fs.isDirAt_leads (version_ec_leads accepted plain)]
      refine ⟨congrArg Except.ok ?_,rfl⟩
      rw [Bool.eq_false_iff]
      intro dir
      rw [FileTree.Tree.isDir_iff,unchunked] at dir
      cases dir
    have opened := open_file_ok (P := P) (.VersionNotFound version_id) (version_data_leads accepted plain) file 0
    rw [FilesystemStorage.get_object_version_eq]
    simp only [accepted.bucket,accepted.key,Prog.lift_ok_bind]
    rw [if_neg named,Prog.bind_of_ok read,FilesystemStorage.open_version,if_neg (by simp [live])]
    have taken : reject_sse_c_on_plaintext record (none : Option Bytes).isSome = .ok () := rfl
    simp only [taken,Prog.lift_ok_bind]
    rw [Prog.bind_assoc,Prog.bind_of_ok flat]
    simp only [Bool.false_eq_true,if_false,unsealed]
    rw [Prog.bind_assoc,Prog.bind_of_ok opened]
    rfl
  · refine readsOut_of_exactly (Reading.Yields.wrap ObjectReader.file ObjectReader.poll_file ?_)
    simpa using FileReader.yields (ε := IoError) (⟨body,0,P.file_grant⟩ : FileReader UInt8)

namespace Sample

/-- The record of the `n`-th version of `a`. -/
def version_record (n size : Nat) (md5 : String) : ObjectMeta :=
  new_object_meta "a" "text/plain" size (quoted md5) "1970-01-01T00:00:00+00:00" (some (draws n).version_id) none none none
    none

def abc_version : ObjectMeta := version_record 1 3 "900150983cd24fb0d6963f7d28e17f72"
def zero_version : ObjectMeta := version_record 2 1 "93b885adfe0da089cdf634904fd59f71"

/-- `abc` and then one zero are put as `a` in the versioned bucket. -/
def two_versions : World :=
  ((do let _ ← flat.put_object completing (draws 1) "logs" "a" "text/plain" (stream abc abc_filled abc_fits) none none none
       flat.put_object completing (draws 2) "logs" "a" "text/plain" (stream [0] zero_filled zero_fits) none none none :
    Action PutResult) (world true)).2

/-- The files of one of the versions. -/
def KeptFiles (n : Nat) (record : ObjectMeta) (body : Bytes) : Prop :=
  two_versions.tree.node (versionsAt flat "logs" "a" ++ [(draws n).version_id ++ ".meta.json"]) =
      some (.file (.json (.object record))) ∧
    two_versions.tree.node (versionsAt flat "logs" "a" ++ [(draws n).version_id ++ ".ec"]) = none ∧
    two_versions.tree.node (versionsAt flat "logs" "a" ++ [(draws n).version_id ++ ".data"]) = some (.file (.bytes body))

instance (n : Nat) (record : ObjectMeta) (body : Bytes) : Decidable (KeptFiles n record body) :=
  inferInstanceAs (Decidable (_ ∧ _))

theorem two_versions_kept : KeptFiles 1 abc_version abc ∧ KeptFiles 2 zero_version [0] ∧
    two_versions.tree.node (metaAt flat "logs" "a") = some (.file (.json (.object zero_version))) ∧
    two_versions.tree.node (objectAt flat "logs" "a") = some (.file (.bytes [0])) ∧
    two_versions.tree.node (ecAt flat "logs" "a") = none := by decide +kernel

theorem accepted_a : Accepted "logs" "a" := ⟨by decide +kernel,by decide +kernel⟩

theorem version_reads {n size : Nat} {md5 : String} {body : Bytes} (whole : size = body.length)
    (named : '/' ∉ (draws n).version_id.toList ∧ (draws n).version_id ≠ "null")
    (kept : KeptFiles n (version_record n size md5) body) :
    VersionReads completing flat "logs" "a" (draws n).version_id none (version_record n size md5) body two_versions := by
  obtain ⟨recorded,unchunked,file⟩ := kept
  exact versionReads_of_file accepted_a named.1 named.2 rfl rfl whole rfl recorded unchunked file

def current_zero : CurrentObject := ⟨zero_version,none,none,[0]⟩

theorem has_current_zero : HasCurrent completing flat "logs" "a" two_versions (some current_zero) := by
  obtain ⟨_,_,shown,file,vacant⟩ := two_versions_kept
  refine ⟨shown,described_plain rfl rfl,.flat [0] (.inr (by decide +kernel)) ?_ file rfl,?_⟩
  · rw [vacant]
    simp
  · intro enc has
    cases has

/-- A GET of the `n`-th version. -/
def version_query (n : Nat) : Params := [("versionId".toList,(draws n).version_id.toList)]

def range_headers (range : String) : HeaderMap := [("range".toList,utf8 range)]

end Sample

/-- A slice of a version. GET answers with that of the current object, so that it is right exactly where the two agree. -/
theorem version_slice_answered_iff {P : Primitives} {H : HttpDates} {fs : FilesystemStorage}
    {bucket key version_id : String} {customer_key : Option Bytes} {params : Params} {headers : HeaderMap}
    {record : ObjectMeta} {body : Bytes} {offset length : Nat} {now : Option CurrentObject} {w : World} (sound : P.Sound)
    (accepted : Accepted bucket key) (version : VersionReads P fs bucket key version_id customer_key record body w)
    (asks : AsksSlice P H version_id params headers record offset length) (current : HasCurrent P fs bucket key w now)
    (apart : ∀ object k k', now = some object → object.customer_key = some k → customer_key = some k' →
      P.md5 k = P.md5 k' → k = k') :
    SliceAnswered P H fs bucket key customer_key params headers record body offset length w ↔
      CurrentAgrees P H customer_key params headers record body offset length now := by
  have within := asked_slice_within version.parts asks.slice
  constructor
  · rintro ⟨response,w',answered,slice⟩
    obtain ⟨found,offset',length',reader,record',headed,asked,opened,rfl,same_length,range,given⟩ :=
      get_object_sliced answered slice.status
    cases now with
    | none => exact (head_object_of_absent accepted current headed).elim
    | some object =>
      obtain ⟨shown,described,stored,digest⟩ := current
      have same : response.record = object.record := by
        have head := Prog.mapError_ok_iff.mp (stored_head_object accepted shown)
        rw [headed,Prod.mk.injEq,Except.ok.injEq] at head
        exact head.1
      rw [same] at asked range
      have first := slice.content_range
      rw [range,Option.some.injEq,Prod.mk.injEq] at first
      have count := slice.content_length
      rw [same_length] at count
      obtain ⟨rfl,sizes⟩ := first
      subst count
      have alike : OpensAlike object.record object.customer_key customer_key := by
        have read := opened
        rw [FilesystemStorage.get_object_range_eq] at read
        simp only [accepted.bucket,accepted.key,Prog.lift_ok_bind] at read
        rw [Prog.bind_of_ok (read_object_meta_ok accepted shown),Prog.bind_ok_iff] at read
        obtain ⟨inner,_,opens,_⟩ := read
        exact opensAlike_of_keyed sound described digest (apart object · · rfl) (open_range_keyed opens)
      refine ⟨object,rfl,?_,sizes,asked,alike,?_⟩
      · rw [← same]
        exact slice.etag
      · obtain ⟨part,ranged,yields⟩ := get_object_range_yields sound accepted shown (described.alike alike) stored offset'
          length' (by rw [← described.size,sizes]; exact within)
        rw [opened,Prod.mk.injEq,Except.ok.injEq,Prod.mk.injEq] at ranged
        obtain ⟨⟨rfl,_⟩,_⟩ := ranged
        obtain ⟨reader',given',reads⟩ := slice.bytes
        rw [given,Option.some.injEq] at given'
        subst given'
        exact (readsOut_of_exactly yields).unique reads
  · rintro ⟨object,rfl,etag,size,asked,alike,bytes⟩
    obtain ⟨shown,described,stored,_⟩ := current
    obtain ⟨reader,opened,yields⟩ := get_object_range_yields sound accepted shown (described.alike alike) stored offset
      length (by rw [← described.size,size]; exact within)
    obtain ⟨response,answered,status,same,count,range,given⟩ := get_object_slice accepted shown asked opened
    refine ⟨response,w,answered,status,?_,?_,count,?_,reader,given,?_⟩
    · rw [same,etag]
    · rw [same,size]
    · rw [range,size]
    · rw [← bytes]
      exact readsOut_of_exactly yields

/-- The newest version is the current object, so that its first byte is what is sent. -/
theorem newest_version_sliced : SliceAnswered Sample.completing Sample.http_dates Sample.flat "logs" "a" none
    (Sample.version_query 2) (Sample.range_headers "bytes=0-0") Sample.zero_version [0] 0 1 Sample.two_versions := by
  obtain ⟨_,kept,_⟩ := Sample.two_versions_kept
  have slice : asked_slice Sample.completing Sample.http_dates (Sample.version_query 2) (Sample.range_headers "bytes=0-0")
      Sample.zero_version = some (0,1) := by decide +kernel
  have version : VersionReads Sample.completing Sample.flat "logs" "a" (Sample.draws 2).version_id none Sample.zero_version
      [0] Sample.two_versions := Sample.version_reads rfl (by decide +kernel) kept
  have agrees : CurrentAgrees Sample.completing Sample.http_dates none (Sample.version_query 2)
      (Sample.range_headers "bytes=0-0") Sample.zero_version [0] 0 1 (some Sample.current_zero) :=
    ⟨Sample.current_zero,rfl,rfl,rfl,slice,rfl,rfl⟩
  have unkeyed : ∀ object k k', some Sample.current_zero = some object → object.customer_key = some k → none = some k' →
      Sample.completing.md5 k = Sample.completing.md5 k' → k = k' := by
    intro object k k' _ _ sent
    cases sent
  exact (version_slice_answered_iff Sample.completing_sound Sample.accepted_a version ⟨by decide +kernel,slice⟩
    Sample.has_current_zero unkeyed).mpr agrees

/-- Asked for two bytes of the older version, the handler sends the one byte of the newer. -/
theorem older_version_missed :
    VersionReads Sample.completing Sample.flat "logs" "a" (Sample.draws 1).version_id none Sample.abc_version Sample.abc
        Sample.two_versions ∧
      AsksSlice Sample.completing Sample.http_dates (Sample.draws 1).version_id (Sample.version_query 1)
        (Sample.range_headers "bytes=0-1") Sample.abc_version 0 2 ∧
      ¬ SliceAnswered Sample.completing Sample.http_dates Sample.flat "logs" "a" none (Sample.version_query 1)
        (Sample.range_headers "bytes=0-1") Sample.abc_version Sample.abc 0 2 Sample.two_versions := by
  obtain ⟨kept,_,shown,_⟩ := Sample.two_versions_kept
  refine ⟨Sample.version_reads rfl (by decide +kernel) kept,⟨by decide +kernel,by decide +kernel⟩,?_⟩
  rintro ⟨response,w',answered,slice⟩
  obtain ⟨found,_,_,_,_,headed,_,_,rfl,_⟩ := get_object_sliced answered slice.status
  have head := Prog.mapError_ok_iff.mp (stored_head_object Sample.accepted_a shown)
  rw [headed,Prod.mk.injEq,Except.ok.injEq] at head
  have size := slice.size
  rw [head.1] at size
  exact absurd size (by decide)

end Maxio
