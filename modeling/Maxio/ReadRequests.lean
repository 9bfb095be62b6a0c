import Maxio.CompletionSpec
import Maxio.Conditions
import Maxio.Ranges
import Maxio.UploadRequests

/-!
GET and HEAD of an object: a part of it, a range of it, or all of it, under the conditions of the request. And the parts
of a completed upload, asked for one by one.
-/

namespace Maxio

/-! ### The code -/

/-- `last` is missing where its arithmetic leaves the 64 bits: a debug build panics, a release build wraps around. -/
structure ContentRange where
  first : Nat
  last : Option Nat
  size : Nat
  deriving DecidableEq, Repr

/-- A response. The headers that describe the object are written from its record. -/
structure ReadResponse where
  status : Nat
  record : ObjectMeta
  content_length : Nat
  content_range : Option ContentRange
  /-- x-amz-mp-parts-count -/
  parts_count : Option Nat
  body : Option ObjectReader

/-- Where the bytes of a part are. -/
structure PartPlace where
  offset : Nat
  length : Nat
  total_parts : Nat
  deriving DecidableEq, Repr

def parse_part_number (part_num_str : Text) : Except S3Error Nat :=
  match parseUnsigned (2 ^ 32 - 1) (String.ofList part_num_str) with
  | some part_num => .ok part_num
  | none => .error (.invalid_argument "invalid partNumber")

/-- Found in the same way, and by two copies of the code, for GET and for HEAD. -/
def part_place (record : ObjectMeta) (part_num : Nat) : Except S3Error PartPlace := match record.part_sizes with
  | none => .error (.invalid_argument "object is not a multipart upload")
  | some part_sizes =>
    if part_num = 0 then .error (.invalid_argument "partNumber must be >= 1")
    else match part_sizes[part_num - 1]? with
      | none => .error (.invalid_argument "partNumber exceeds total parts")
      | some length => .ok { offset := (part_sizes.take (part_num - 1)).sum, length, total_parts := part_sizes.length }

/-- `offset + length - 1` of `u64`. -/
def last_position (offset length : Nat) : Option Nat :=
  if 2 ^ 64 ≤ offset + length then none else if offset + length = 0 then none else some (offset + length - 1)

def part_response (record : ObjectMeta) (place : PartPlace) (body : Option ObjectReader) : ReadResponse where
  status := 206
  record := record
  content_length := place.length
  content_range := some { first := place.offset, last := last_position place.offset place.length, size := record.size }
  parts_count := some place.total_parts
  body := body

def not_modified_response (record : ObjectMeta) : ReadResponse where
  status := 304
  record := record
  content_length := 0
  content_range := none
  parts_count := none
  body := none

def full_response (record : ObjectMeta) (body : Option ObjectReader) : ReadResponse where
  status := 200
  record := record
  content_length := record.size
  content_range := none
  parts_count := none
  body := body

def range_response (record : ObjectMeta) (start last : Nat) (reader : ObjectReader) : ReadResponse where
  status := 206
  record := record
  content_length := last - start + 1
  content_range := some { first := start, last := some last, size := record.size }
  parts_count := none
  body := some reader

namespace Api
section
variable (P : Primitives) (H : HttpDates) (fs : FilesystemStorage) (bucket key : String) (params : Params)
  (headers : HeaderMap) (customer_key : Option Bytes)

def version_param : Option String := (params.get "versionId").map String.ofList

/-- `get_object` for a part. -/
def get_object_part (part_num_str : Text) : UploadHandler ReadResponse := do
  let part_num ← Prog.lift (parse_part_number part_num_str)
  let record ← stored (fs.head_object bucket key)
  let place ← Prog.lift (part_place record part_num)
  let (reader,_) ← stored (fs.get_object_range P bucket key place.offset place.length customer_key)
  pure (part_response record place (some reader))

/-- `get_object` where neither a part nor a range is asked for, or the range is ignored. -/
def get_object_full : UploadHandler ReadResponse := do
  let (reader,record) ← match version_param params with
    | some version_id => stored (fs.get_object_version P bucket key version_id customer_key)
    | none => stored (fs.get_object P bucket key customer_key)
  match check_conditions P H headers record with
  | some .NotModified => pure (not_modified_response record)
  | some .PreconditionFailed => Prog.fail .precondition_failed
  | none => pure (full_response record (some reader))

/-- `get_object`, past its gates and its sub-resources. -/
def get_object : UploadHandler ReadResponse := match params.get "partNumber" with
  | some part_num_str => get_object_part P fs bucket key customer_key part_num_str
  | none => match (headers.get "range").bind to_str with
    | none => get_object_full P H fs bucket key params headers customer_key
    | some range_str => do
      let record ← stored (fs.head_object bucket key)
      match check_conditions P H headers record with
      | some .NotModified => pure (not_modified_response record)
      | some .PreconditionFailed => Prog.fail .precondition_failed
      | none => match parse_range range_str record.size with
        | .ok (some (start,last)) => do
          let (reader,_) ← stored (fs.get_object_range P bucket key start (last - start + 1) customer_key)
          pure (range_response record start last reader)
        | .ok none => get_object_full P H fs bucket key params headers customer_key
        | .error () => Prog.fail .invalid_range

/-- `head_object`, past its gates. -/
def head_object : UploadHandler ReadResponse := do
  let record ← match version_param params with
    | some version_id => stored (fs.head_object_version bucket key version_id)
    | none => stored (fs.head_object bucket key)
  match check_conditions P H headers record with
  | some .NotModified => pure (not_modified_response record)
  | some .PreconditionFailed => Prog.fail .precondition_failed
  | none => match params.get "partNumber" with
    | some part_num_str => do
      let part_num ← Prog.lift (parse_part_number part_num_str)
      let place ← Prog.lift (part_place record part_num)
      pure (part_response record place none)
    | none => pure (full_response record none)

end
end Api

/-! ### Parts one by one -/

/-- Intervals from `start` on that follow each other up to the end of the object, each with its length. -/
def Tiling (size : Nat) : Nat → List ReadResponse → Prop
  | start,[] => start = size
  | start,response :: rest => ∃ last, response.content_range = some { first := start, last := some last, size } ∧
      start ≤ last ∧ response.content_length = last + 1 - start ∧ Tiling size (last + 1) rest

/-- The parameters of a request for the part with this number. -/
def asking_part (n : Nat) : Params := [("partNumber".toList,Nat.toDigits 10 n)]

/-- The responses with content, in the order of the numbers, to requests for parts 1 to `n`. -/
def PartAnswers (ask : Nat → UploadHandler ReadResponse) (n : Nat) (w : World) (responses : List ReadResponse) : Prop :=
  List.Forall₂ (fun i response => response.status = 206 ∧ ∃ w', ask (i + 1) w = (.ok response,w')) (List.range n) responses

/-- Asked for part by part, an object is cut into intervals without a gap: HEAD answers for every part, and GET, where
    it answers, says the same. -/
structure PartsPartition (P : Primitives) (H : HttpDates) (fs : FilesystemStorage) (bucket key : String)
    (record : ObjectMeta) (n : Nat) (w : World) : Prop where
  head : ∀ headers, check_conditions P H headers record = none → ∃ responses,
    PartAnswers (fun i => Api.head_object P H fs bucket key (asking_part i) headers) n w responses ∧
      Tiling record.size 0 responses
  get : ∀ headers customer_key responses,
    PartAnswers (fun i => Api.get_object P H fs bucket key (asking_part i) headers customer_key) n w responses →
      Tiling record.size 0 responses

/-! ### Intervals -/

/-- Responses for parts of these sizes, the first of which begins at `start`. -/
def CutInto (size : Nat) : Nat → List Nat → List ReadResponse → Prop
  | _,[],[] => True
  | start,length :: lengths,response :: rest =>
    response.content_range = some { first := start, last := last_position start length, size } ∧
      response.content_length = length ∧ CutInto size (start + length) lengths rest
  | _,_,_ => False

theorem last_position_some {offset length last : Nat} (found : last_position offset length = some last) :
    offset + length < 2 ^ 64 ∧ offset + length = last + 1 := by
  unfold last_position at found
  split_ifs at found with large empty
  rw [Option.some.injEq] at found
  omega

theorem last_position_of_pos {offset length : Nat} (small : offset + length < 2 ^ 64) (positive : offset + length ≠ 0) :
    last_position offset length = some (offset + length - 1) := by
  rw [last_position,if_neg (by omega),if_neg positive]

theorem tiling_of_sizes {size start : Nat} {lengths : List Nat} {responses : List ReadResponse} (small : size < 2 ^ 64)
    (whole : start + lengths.sum = size) (cut : CutInto size start lengths responses) (filled : ∀ n ∈ lengths, n ≠ 0) :
    Tiling size start responses := by
  induction lengths generalizing start responses with
  | nil =>
    cases responses with
    | nil =>
      show start = size
      simpa using whole
    | cons => exact cut.elim
  | cons length rest ih =>
    cases responses with
    | nil => exact cut.elim
    | cons response more =>
      obtain ⟨range,long,next⟩ := cut
      rw [List.sum_cons] at whole
      have positive := filled length (by simp)
      have place : last_position start length = some (start + length - 1) :=
        last_position_of_pos (by omega) (by omega)
      refine ⟨start + length - 1,by rw [range,place],by omega,by omega,?_⟩
      rw [show start + length - 1 + 1 = start + length by omega]
      exact ih (by omega) next fun n member => filled n (by simp [member])

theorem sizes_of_tiling {size start : Nat} {lengths : List Nat} {responses : List ReadResponse}
    (cut : CutInto size start lengths responses) (tiling : Tiling size start responses) :
    (∀ n ∈ lengths, n ≠ 0) ∧ (lengths ≠ [] → size < 2 ^ 64) := by
  induction lengths generalizing start responses with
  | nil => simp
  | cons length rest ih =>
    cases responses with
    | nil => exact cut.elim
    | cons response more =>
      obtain ⟨range,_,next⟩ := cut
      obtain ⟨last,range',ordered,_,later⟩ := tiling
      rw [range] at range'
      obtain ⟨small,ends⟩ := last_position_some (by simpa using range' : last_position start length = some last)
      rw [← ends] at later
      obtain ⟨filled,bounded⟩ := ih next later
      refine ⟨?_,fun _ => ?_⟩
      · intro n member
        obtain rfl | inside := List.mem_cons.mp member
        · omega
        · exact filled n inside
      · cases rest with
        | nil =>
          cases more with
          | nil =>
            have whole : start + length = size := later
            omega
          | cons => exact next.elim
        | cons => exact bounded (by simp)

/-! ### Places of parts -/

section
variable {record : ObjectMeta} {sizes : List Nat}

theorem part_place_iff (has : record.part_sizes = some sizes) {n : Nat} {place : PartPlace} :
    part_place record n = .ok place ↔ ∃ i length, n = i + 1 ∧ sizes[i]? = some length ∧
      place = { offset := (sizes.take i).sum, length, total_parts := sizes.length } := by
  unfold part_place
  simp only [has]
  cases n with
  | zero => simp
  | succ i =>
    rw [if_neg (Nat.succ_ne_zero i),Nat.add_sub_cancel]
    constructor
    · intro found
      cases size : sizes[i]? with
      | none => simp [size] at found
      | some length =>
        simp only [size,Except.ok.injEq] at found
        exact ⟨i,length,rfl,size,found.symm⟩
    · rintro ⟨j,length,same,size,rfl⟩
      obtain rfl : i = j := by omega
      simp only [size]

/-- The response says where a part of the record is. -/
def TellsPart (record : ObjectMeta) (n : Nat) (response : ReadResponse) : Prop :=
  ∃ place body, part_place record n = .ok place ∧ response = part_response record place body

theorem cut_of_answers (has : record.part_sizes = some sizes) {before rest : List Nat} {responses : List ReadResponse}
    (whole : sizes = before ++ rest) (answers : List.Forall₂ (fun i response => TellsPart record (i + 1) response)
      (List.range' before.length rest.length) responses) : CutInto record.size before.sum rest responses := by
  induction rest generalizing before responses with
  | nil =>
    cases answers
    trivial
  | cons length rest ih =>
    rw [List.length_cons,List.range'_succ] at answers
    obtain ⟨response,more,told,later,rfl⟩ := List.forall₂_cons_left_iff.mp answers
    obtain ⟨place,body,found,rfl⟩ := told
    obtain ⟨i,size,same,at_i,rfl⟩ := (part_place_iff has).mp found
    obtain rfl : before.length = i := by omega
    have first : sizes.take before.length = before := by rw [whole,List.take_left']; rfl
    have here : size = length := by
      rw [whole,List.getElem?_append_right (le_refl _),Nat.sub_self] at at_i
      simpa using at_i.symm
    subst here
    refine ⟨by rw [part_response,first],rfl,?_⟩
    have next := @ih (before ++ [size]) more (by simp [whole]) (by simpa using later)
    simpa using next

theorem parse_part_number_digits {n : Nat} :
    parse_part_number (Nat.toDigits 10 n) =
      if n < 2 ^ 32 then .ok n else .error (.invalid_argument "invalid partNumber") := by
  have digits : Digits (Nat.toDigits 10 n) :=
    ⟨Nat.toDigits_ne_nil,fun c member => Nat.isDigit_of_mem_toDigits (by decide) (by decide) member⟩
  have value : decimal (Nat.toDigits 10 n) = n := by
    have step : (fun (acc : Nat) (c : Char) => acc * 10 + (c.toNat - '0'.toNat)) =
        fun acc c => 10 * acc + (c.toNat - '0'.toNat) := by
      funext acc c
      rw [Nat.mul_comm]
    rw [decimal,step,← Nat.ofDigitChars_eq_foldl,Nat.ofDigitChars_ten_toDigits]
  rw [parse_part_number,parseUnsigned_digits digits,value]
  by_cases small : n < 2 ^ 32
  · rw [if_pos small,if_pos (by omega)]
  · rw [if_neg small,if_neg (by omega)]

end

section
variable {P : Primitives} {H : HttpDates} {fs : FilesystemStorage} {bucket key : String} {record : ObjectMeta}
  {headers : HeaderMap} {customer_key : Option Bytes} {w w' : World} {n : Nat} {response : ReadResponse}

theorem get_single_param (name : String) (value : Text) : Params.get [(name.toList,value)] name = some value := by
  simp [Params.get]

theorem get_other_param {name name' : String} (other : name.toList ≠ name'.toList) (value : Text) :
    Params.get [(name.toList,value)] name' = none := by
  simp [Params.get,other]

theorem asking_part_number : (asking_part n).get "partNumber" = some (Nat.toDigits 10 n) :=
  get_single_param "partNumber" _

theorem asking_part_version : Api.version_param (asking_part n) = none := by
  rw [Api.version_param,asking_part,get_other_param (fun same => absurd (congrArg List.length same) (by decide))]
  rfl

theorem stored_head_object (accepted : Accepted bucket key) (shown : Shows fs bucket key record w) :
    stored (fs.head_object bucket key) w = (.ok record,w) := by
  refine Prog.mapError_ok_iff.mpr ?_
  rw [FilesystemStorage.head_object,accepted.bucket,accepted.key]
  exact read_object_meta_ok accepted shown

/-- HEAD of a part is answered from the record alone. -/
theorem head_object_part (accepted : Accepted bucket key) (shown : Shows fs bucket key record w)
    (unconditional : check_conditions P H headers record = none) {place : PartPlace} (small : n < 2 ^ 32)
    (found : part_place record n = .ok place) :
    Api.head_object P H fs bucket key (asking_part n) headers w = (.ok (part_response record place none),w) := by
  unfold Api.head_object
  rw [asking_part_version,asking_part_number]
  simp only
  rw [Prog.bind_of_ok (stored_head_object accepted shown)]
  simp only [unconditional,parse_part_number_digits,if_pos small,Prog.lift_ok_bind,found]
  rfl

/-- An answer to HEAD with content says where the part is. -/
theorem head_object_tells (accepted : Accepted bucket key) (shown : Shows fs bucket key record w)
    (answered : Api.head_object P H fs bucket key (asking_part n) headers w = (.ok response,w'))
    (content : response.status = 206) : n < 2 ^ 32 ∧ TellsPart record n response := by
  unfold Api.head_object at answered
  rw [asking_part_version,asking_part_number] at answered
  simp only at answered
  rw [Prog.bind_of_ok (stored_head_object accepted shown)] at answered
  cases conditions : check_conditions P H headers record with
  | some result =>
    cases result with
    | NotModified =>
      simp only [conditions,pure_ok_iff] at answered
      obtain ⟨rfl,_⟩ := answered
      exact absurd content (by simp [not_modified_response])
    | PreconditionFailed =>
      rw [conditions] at answered
      cases answered
  | none =>
    simp only [conditions,parse_part_number_digits,Prog.bind_ok_iff,lift_ok_iff,pure_ok_iff] at answered
    obtain ⟨number,_,⟨parsed,_⟩,place,_,⟨found,_⟩,rfl,_⟩ := answered
    by_cases small : n < 2 ^ 32
    · rw [if_pos small] at parsed
      obtain rfl : n = number := by simpa using parsed
      exact ⟨small,place,none,found,rfl⟩
    · rw [if_neg small] at parsed
      cases parsed

/-- An answer to GET of a part says the same as one to HEAD. -/
theorem get_object_tells (accepted : Accepted bucket key) (shown : Shows fs bucket key record w)
    (answered : Api.get_object P H fs bucket key (asking_part n) headers customer_key w = (.ok response,w')) :
    TellsPart record n response := by
  unfold Api.get_object at answered
  rw [asking_part_number] at answered
  simp only [Api.get_object_part,Prog.bind_ok_iff,lift_ok_iff,pure_ok_iff] at answered
  obtain ⟨number,_,⟨parsed,rfl⟩,read,_,headed,place,_,⟨found,rfl⟩,_,_,_,rfl,_⟩ := answered
  rw [stored_head_object accepted shown] at headed
  obtain ⟨rfl,rfl⟩ : record = read ∧ _ = _ := by simpa using headed
  rw [parse_part_number_digits] at parsed
  by_cases small : n < 2 ^ 32
  · rw [if_pos small] at parsed
    obtain rfl : n = number := by simpa using parsed
    exact ⟨place,_,found,rfl⟩
  · rw [if_neg small] at parsed
    cases parsed

/-- An object that can be read in ranges is read part by part. -/
theorem get_object_part_answers (accepted : Accepted bucket key) (shown : Shows fs bucket key record w)
    (slices : RangesAreSlices P fs bucket key customer_key w) {place : PartPlace} (small : n < 2 ^ 32)
    (found : part_place record n = .ok place) (within : place.offset + place.length ≤ record.size) :
    ∃ reader part whole, Api.get_object P H fs bucket key (asking_part n) headers customer_key w =
        (.ok (part_response record place (some part)),w) ∧
      fs.get_object P bucket key customer_key w = (.ok (reader,record),w) ∧ ReadsOut P reader whole ∧
      ReadsOut P part ((whole.drop place.offset).take place.length) := by
  obtain ⟨reader,record',whole,opened,reads,slice⟩ := slices
  obtain rfl := get_object_record accepted shown opened
  obtain ⟨_,part,ranged,partial_reads⟩ := slice place.offset place.length within
  have ranged' : stored (fs.get_object_range P bucket key place.offset place.length customer_key) w =
      (.ok (part,record'),w) := Prog.mapError_ok_iff.mpr ranged
  refine ⟨reader,part,whole,?_,opened,reads,partial_reads⟩
  unfold Api.get_object
  rw [asking_part_number]
  simp only [Api.get_object_part,parse_part_number_digits,if_pos small,Prog.lift_ok_bind]
  rw [Prog.bind_of_ok (stored_head_object accepted shown)]
  simp only [found,Prog.lift_ok_bind]
  rw [Prog.bind_of_ok ranged']
  rfl

/-- Every part has a place in the object. -/
theorem place_within {sizes : List Nat} (has : record.part_sizes = some sizes) (whole : record.size = sizes.sum)
    {place : PartPlace} (found : part_place record n = .ok place) : place.offset + place.length ≤ record.size := by
  obtain ⟨i,length,_,at_i,rfl⟩ := (part_place_iff has).mp found
  obtain ⟨inside,rfl⟩ := List.getElem?_eq_some_iff.mp at_i
  have next : (sizes.take (i + 1)).sum = (sizes.take i).sum + sizes[i] := by
    rw [List.take_succ_eq_append_getElem inside,List.sum_append,List.sum_singleton]
  have rest : (sizes.take (i + 1)).sum + (sizes.drop (i + 1)).sum = sizes.sum := List.sum_take_add_sum_drop _ _
  show (sizes.take i).sum + sizes[i] ≤ record.size
  omega

theorem cut_of_part_answers {sizes : List Nat} (has : record.part_sizes = some sizes) {responses : List ReadResponse}
    {ask : Nat → UploadHandler ReadResponse}
    (tells : ∀ i response w', ask (i + 1) w = (.ok response,w') → response.status = 206 → TellsPart record (i + 1) response)
    (answers : PartAnswers ask sizes.length w responses) : CutInto record.size 0 sizes responses := by
  refine @cut_of_answers record sizes has [] sizes responses rfl ?_
  rw [List.length_nil,← List.range_eq_range']
  exact answers.imp fun i response told => tells i response told.2.choose told.2.choose_spec told.1

/-- No condition is met by a request without headers. -/
theorem no_conditions (object : ObjectMeta) : check_conditions P H [] object = none := rfl

/-- Intervals that follow each other are what the parts are asked for exactly when no part is empty, and the numbers
    reach: those of the parts 32 bits, and those of the bytes 64. -/
theorem parts_partition_record_iff (accepted : Accepted bucket key) (shown : Shows fs bucket key record w)
    {sizes : List Nat} (has : record.part_sizes = some sizes) (whole : record.size = sizes.sum) (some_part : sizes ≠ []) :
    PartsPartition P H fs bucket key record sizes.length w ↔
      (∀ n ∈ sizes, n ≠ 0) ∧ sizes.length < 2 ^ 32 ∧ record.size < 2 ^ 64 := by
  constructor
  · intro partition
    obtain ⟨responses,answers,tiling⟩ := partition.head [] (no_conditions record)
    have cut := cut_of_part_answers has (fun i response w' answered content =>
      (head_object_tells accepted shown answered content).2) answers
    obtain ⟨filled,bounded⟩ := sizes_of_tiling cut tiling
    refine ⟨filled,?_,bounded some_part⟩
    -- the last part is answered too, so that its number was read
    obtain ⟨long,each⟩ := List.forall₂_iff_get.mp answers
    have positive := List.length_pos_iff.mpr some_part
    rw [List.length_range] at long
    obtain ⟨content,w',answered⟩ := each (sizes.length - 1) (by rw [List.length_range]; omega) (by omega)
    have small := (head_object_tells accepted shown answered content).1
    simp only [List.get_eq_getElem,List.getElem_range] at small
    omega
  · rintro ⟨filled,few,small⟩
    constructor
    · intro headers unconditional
      have answers : PartAnswers (fun i => Api.head_object P H fs bucket key (asking_part i) headers) sizes.length w
          ((List.range sizes.length).map fun i => part_response record
            { offset := (sizes.take i).sum, length := sizes.getD i 0, total_parts := sizes.length } none) := by
        rw [PartAnswers,List.forall₂_map_right_iff,List.forall₂_same]
        intro i member
        have inside := List.mem_range.mp member
        have found : part_place record (i + 1) = .ok
            { offset := (sizes.take i).sum, length := sizes.getD i 0, total_parts := sizes.length } :=
          (part_place_iff has).mpr ⟨i,_,rfl,by simp [List.getD,inside],rfl⟩
        exact ⟨rfl,w,head_object_part accepted shown unconditional (by omega) found⟩
      have cut := cut_of_part_answers has (fun i response w' answered content =>
        (head_object_tells accepted shown answered content).2) answers
      exact ⟨_,answers,tiling_of_sizes small (by omega) cut filled⟩
    · intro headers customer_key responses answers
      have cut := cut_of_part_answers has (fun i response w' answered _ => get_object_tells accepted shown answered) answers
      exact tiling_of_sizes small (by omega) cut filled

theorem last_position_ne_none {offset length : Nat} :
    last_position offset length ≠ none ↔ offset + length ≠ 0 ∧ offset + length < 2 ^ 64 := by
  constructor
  · intro known
    obtain ⟨last,found⟩ := Option.ne_none_iff_exists'.mp known
    obtain ⟨small,ends⟩ := last_position_some found
    exact ⟨by omega,small⟩
  · rintro ⟨positive,small⟩
    rw [last_position_of_pos small positive]
    simp

/-- No last position is out of the 64 bits unless the first part is empty or the object too large. -/
theorem last_positions_iff {first : Nat} {rest : List Nat} (has : record.part_sizes = some (first :: rest))
    (whole : record.size = (first :: rest).sum) :
    (∀ n place, part_place record n = .ok place → last_position place.offset place.length ≠ none) ↔
      first ≠ 0 ∧ record.size < 2 ^ 64 := by
  constructor
  · intro known
    have start := known 1 _ ((part_place_iff has).mpr ⟨0,first,rfl,rfl,rfl⟩)
    rw [last_position_ne_none] at start
    refine ⟨by simpa using start.1,?_⟩
    -- the last part ends with the object
    have inside : rest.length < (first :: rest).length := by simp
    have final := known _ _ ((part_place_iff has).mpr ⟨rest.length,_,rfl,List.getElem?_eq_getElem inside,rfl⟩)
    rw [last_position_ne_none] at final
    have total : ((first :: rest).take (rest.length + 1)).sum = (first :: rest).sum := by
      rw [List.take_of_length_le (by simp)]
    rw [List.take_succ_eq_append_getElem inside,List.sum_append,List.sum_singleton] at total
    rw [whole,← total]
    exact final.2
  · rintro ⟨filled,small⟩ n place found
    have within := place_within has whole found
    obtain ⟨i,length,_,at_i,rfl⟩ := (part_place_iff has).mp found
    rw [last_position_ne_none]
    refine ⟨?_,lt_of_le_of_lt within small⟩
    cases i with
    | zero =>
      obtain rfl : first = length := by simpa using at_i
      simpa using filled
    | succ j =>
      simp only [List.take_succ_cons,List.sum_cons]
      omega

end

/-- An upload is not completed without parts. -/
theorem complete_none {P : Primitives} {fs : FilesystemStorage} {draws : Draws} {bucket upload_id : String}
    {customer_key : Option Bytes} {result : PutResult} {w w' : World} :
    fs.complete_multipart_upload P draws bucket upload_id [] customer_key w ≠ (.ok result,w') := by
  intro done
  simp only [FilesystemStorage.complete_multipart_upload,Prog.bind_ok_iff,lift_ok_iff] at done
  obtain ⟨_,_,_,_,_,_,done⟩ := done
  cases done

/-- After a completion, GET and HEAD with the numbers of the parts cut the object into intervals exactly when no part
    is empty, there are fewer than `2 ^ 32` parts and fewer than `2 ^ 64` bytes; underflow is met when the first part
    is empty. -/
theorem completed_parts_partition_iff {P : Primitives} {fs : FilesystemStorage} {bucket upload_id : String}
    {upload : MultipartUploadMeta} {uploaded : List (PartMeta × Bytes)} {draws : Draws} {w w' : World} (H : HttpDates)
    (sound : P.Sound) {parts : List (Nat × String)} {customer_key : Option Bytes} {result : PutResult}
    (stored : UploadStored P fs bucket upload_id upload w)
    (asked : uploaded.map (fun u => u.1.part_number) = parts.map Prod.fst)
    (kept : ∀ u ∈ uploaded, PartStored P fs bucket upload_id upload customer_key u.1 u.2 w)
    (done : fs.complete_multipart_upload P draws bucket upload_id parts customer_key w = (.ok result,w')) :
    ∃ record, Shows fs bucket upload.key record w' ∧ result = FilesystemStorage.put_result record ∧
      record.size = (uploaded.map Prod.snd).flatten.length ∧
      (PartsPartition P H fs bucket upload.key record uploaded.length w' ↔
        (∀ u ∈ uploaded, u.2 ≠ []) ∧ uploaded.length < 2 ^ 32 ∧ record.size < 2 ^ 64) ∧
      ((∀ n place, part_place record n = .ok place → last_position place.offset place.length ≠ none) ↔
        (uploaded.map Prod.snd).head? ≠ some [] ∧ record.size < 2 ^ 64) := by
  obtain ⟨accepted,_,record,_,_,written,completes,same,_⟩ := complete_multipart_upload_done sound stored asked kept done
  have shown := written.landed.shows'
  have whole : record.size = (uploaded.map fun u => u.2.length).sum := by
    rw [completes.size,List.length_flatten,List.map_map]
    rfl
  cases uploaded with
  | nil =>
    obtain rfl : parts = [] := by simpa using asked.symm
    exact absurd done complete_none
  | cons u others =>
    have sizes : record.part_sizes = some (u.2.length :: others.map fun u => u.2.length) := completes.part_sizes
    refine ⟨record,shown,same,completes.size,?_,?_⟩
    · have partition := @parts_partition_record_iff P H fs bucket upload.key record w' accepted shown _ sizes whole (by simp)
      have filled : (∀ n ∈ (u :: others).map (fun v => v.2.length), n ≠ 0) ↔ ∀ v ∈ u :: others, v.2 ≠ [] := by
        rw [List.forall_mem_map]
        exact forall₂_congr fun v _ => not_congr List.length_eq_zero_iff
      rw [List.map_cons] at filled
      rw [List.length_cons,List.length_map,filled] at partition
      exact partition
    · rw [last_positions_iff sizes whole]
      simp [List.length_eq_zero_iff]

theorem completed_abc_partition :
    ∃ result w' record, Sample.fourfold.complete_multipart_upload Sample.completing (Sample.draws 3) "logs"
        Sample.begun.upload_id [(1,Sample.part_of_abc.etag)] none (Sample.upload_abc (Sample.world false)).2 =
          (.ok result,w') ∧
      record.size = 3 ∧ PartsPartition Sample.completing Sample.http_dates Sample.fourfold "logs" "a" record 1 w' := by
  have ok : (Sample.fourfold.complete_multipart_upload Sample.completing (Sample.draws 3) "logs" Sample.begun.upload_id
      [(1,Sample.part_of_abc.etag)] none (Sample.upload_abc (Sample.world false)).2).1.isOk = true := by
    decide +kernel
  obtain ⟨result,w',done⟩ := Sample.isOk_spec ok
  obtain ⟨record,_,_,size,partition,_⟩ := @completed_parts_partition_iff _ _ _ _ _ [(Sample.part_of_abc,Sample.abc)] _ _ _
    Sample.http_dates Sample.completing_sound _ _ _ Sample.begun_abc.1 (by decide) (by simpa using Sample.begun_abc.2) done
  have three : record.size = 3 := size
  refine ⟨result,w',record,done,three,partition.mpr ⟨by simp [Sample.abc],by decide,?_⟩⟩
  rw [three]
  decide

namespace Sample

/-- As `completing`, with the true digests of nothing and of its digest. -/
def completing_nothing : Primitives := { primitives with
  md5 := digest 16 [
    ([],[0xd4,0x1d,0x8c,0xd9,0x8f,0x00,0xb2,0x04,0xe9,0x80,0x09,0x98,0xec,0xf8,0x42,0x7e]),
    ([0xd4,0x1d,0x8c,0xd9,0x8f,0x00,0xb2,0x04,0xe9,0x80,0x09,0x98,0xec,0xf8,0x42,0x7e],
      [0x59,0xad,0xb2,0x4e,0xf3,0xcd,0xbe,0x02,0x97,0xf0,0x5b,0x39,0x58,0x27,0x45,0x3f])] }

theorem completing_nothing_sound : completing_nothing.Sound :=
  ⟨primitives_sound.base64,primitives_sound.aead,primitives_sound.tag,primitives_sound.opened,primitives_sound.mac⟩

def no_bytes : ByteStream where
  reads := []
  failure := none
  nonempty := by simp
  fits := by simp

/-- An upload of `a` with one part, which is empty, is begun. -/
def upload_nothing : Action Unit := do
  let _ ← fourfold.create_multipart_upload completing_nothing (draws 1) "logs" "a" "text/plain" none none
  let _ ← fourfold.upload_part completing_nothing (draws 2) "logs" (draws 1).upload_id 1 no_bytes none none none

def empty_part : PartMeta := { part_of_abc with etag := "\"d41d8cd98f00b204e9800998ecf8427e\"", size := 0 }

theorem begun_nothing :
    UploadStored completing_nothing fourfold "logs" begun.upload_id begun (upload_nothing (world false)).2 ∧
      PartStored completing_nothing fourfold "logs" begun.upload_id begun none empty_part []
        (upload_nothing (world false)).2 := by
  have files : (upload_nothing (world false)).2.tree.node (uploadRecordAt fourfold "logs" begun.upload_id) =
        some (.file (.json (.upload begun))) ∧
      (upload_nothing (world false)).2.tree.node (partRecordAt fourfold "logs" begun.upload_id 1) =
        some (.file (.json (.part empty_part))) ∧
      (upload_nothing (world false)).2.tree.node (partAt fourfold "logs" begun.upload_id 1) = some (.file (.bytes [])) ∧
      validate_key begun.key = .ok () ∧ empty_part.etag = quoted (hex_encode (completing_nothing.md5 [])) := by
    decide +kernel
  obtain ⟨upload,part,payload,key,tag⟩ := files
  exact ⟨⟨namesUpload_drawn (draws 1),upload,key,by simp [begun]⟩,⟨part,⟨none,[],rfl,payload,rfl⟩,rfl,tag,rfl,rfl⟩⟩

end Sample

/-- An upload with one part that is empty is completed, and the last byte of the part is sought before the first. -/
theorem empty_part_no_partition :
    ∃ result w' record, Sample.fourfold.complete_multipart_upload Sample.completing_nothing (Sample.draws 3) "logs"
        Sample.begun.upload_id [(1,Sample.empty_part.etag)] none (Sample.upload_nothing (Sample.world false)).2 =
          (.ok result,w') ∧
      Shows Sample.fourfold "logs" "a" record w' ∧ record.part_sizes = some [0] ∧ last_position 0 0 = none ∧
      ¬ PartsPartition Sample.completing_nothing Sample.http_dates Sample.fourfold "logs" "a" record 1 w' := by
  have ok : (Sample.fourfold.complete_multipart_upload Sample.completing_nothing (Sample.draws 3) "logs"
      Sample.begun.upload_id [(1,Sample.empty_part.etag)] none (Sample.upload_nothing (Sample.world false)).2).1.isOk =
        true := by
    decide +kernel
  obtain ⟨result,w',done⟩ := Sample.isOk_spec ok
  obtain ⟨accepted,_,record,_,_,written,completes,_,_⟩ := @complete_multipart_upload_done _ _ _ _ _
    [(Sample.empty_part,[])] _ _ _ Sample.completing_nothing_sound _ _ _ Sample.begun_nothing.1 (by decide)
    (by simpa using Sample.begun_nothing.2) done
  have shown : Shows Sample.fourfold "logs" "a" record w' := written.landed.shows'
  refine ⟨result,w',record,done,shown,completes.part_sizes,rfl,fun partition => ?_⟩
  have filled := ((parts_partition_record_iff accepted shown completes.part_sizes completes.size (by simp)).mp
    partition).1
  exact filled 0 (by simp) rfl

end Maxio
