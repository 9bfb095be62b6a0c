import Maxio.RetentionRequests
import Maxio.Signature
import Maxio.Networks

/-!
Conditional requests: the conditions a client sends, judged by the metadata of the object, and what becomes of a date
that is sent back.
-/

namespace Maxio

/-! ### The code -/

/-- The parts of `chrono` that handle dates of HTTP. Instants are milliseconds since the epoch. -/
structure HttpDates where
  /-- `DateTime::parse_from_str` with the format of the stored dates. -/
  parse_from_str : String → Option Int
  /-- `DateTime::format` of `%a, %d %b %Y %H:%M:%S GMT`. -/
  format : Int → Text
  parse_from_rfc2822 : Text → Option Int

inductive ConditionalResult where
  | NotModified | PreconditionFailed
  deriving DecidableEq, Repr

/-- `str::trim_matches` of one character. -/
def trim_matches (c : Char) (t : Text) : Text := ((t.dropWhile (· = c)).reverse.dropWhile (· = c)).reverse

/-- Returns true if the value of If-Match or If-None-Match matches the tag: `*`, or one of a list of tags, in quotes or
    without. -/
def etag_matches (header_value object_etag : Text) : Bool :=
  let value := str_trim header_value
  value = "*".toList ||
    (splitChars ',' value).any fun part => trim_matches '"' (str_trim part) = trim_matches '"' object_etag

section
variable (P : Primitives) (H : HttpDates)

def parse_http_date (s : Text) : Option Int := H.parse_from_rfc2822 s

def parse_object_date (iso : String) : Option Int := match H.parse_from_str iso with
  | some dt => some dt
  | none => P.parse_from_rfc3339 iso

def to_http_date (iso : String) : Text := match parse_object_date P H iso with
  | some dt => H.format dt
  | none => iso.toList

/-- The object was modified after the date of the header; not so if either date cannot be read. -/
def modified_after (value : Text) (last_modified : String) : Option Bool :=
  match parse_http_date H value,parse_object_date P H last_modified with
  | some threshold,some obj_date => some (threshold < obj_date)
  | _,_ => none

/-- If-Unmodified-Since counts only without If-Match, and If-Modified-Since only without If-None-Match. -/
def check_conditions (headers : HeaderMap) (object : ObjectMeta) : Option ConditionalResult :=
  let failed := match (headers.get "if-match").bind to_str,(headers.get "if-unmodified-since").bind to_str with
    | some value,_ => !etag_matches value object.etag.toList
    | none,some value => modified_after P H value object.last_modified = some true
    | none,none => false
  if failed then some .PreconditionFailed
  else match (headers.get "if-none-match").bind to_str,(headers.get "if-modified-since").bind to_str with
    | some value,_ => if etag_matches value object.etag.toList then some .NotModified else none
    | none,some value => if modified_after P H value object.last_modified = some false then some .NotModified else none
    | none,none => none

/-! ### A date that is sent back -/

/-- The value of Last-Modified the object is served with. -/
def served_date (object : ObjectMeta) : Bytes := (to_http_date P H object.last_modified).bytes

/-- A client that sends the date back is told that nothing has changed. -/
structure DateSentBack (object : ObjectMeta) : Prop where
  not_modified : ∀ headers : HeaderMap, headers.get "if-modified-since" = some (served_date P H object) →
    headers.get "if-none-match" = none → headers.get "if-match" = none → headers.get "if-unmodified-since" = none →
    check_conditions P H headers object = some .NotModified
  not_failed : ∀ headers : HeaderMap, headers.get "if-unmodified-since" = some (served_date P H object) →
    headers.get "if-match" = none → check_conditions P H headers object ≠ some .PreconditionFailed

/-- The documented behaviour of `chrono` on these dates: a stored date has no offset for `parse_from_str` to read, a
    date of HTTP is read back as the second it was written in, and its text is visible ASCII. -/
structure HttpDates.Faithful : Prop where
  no_offset : ∀ t, H.parse_from_str (P.format_time t) = none
  seconds : ∀ t, 0 ≤ t → t < YEAR_10000 → H.parse_from_rfc2822 (H.format t) = some (t / 1000 * 1000)
  visible : ∀ t, 0 ≤ t → t < YEAR_10000 → ∀ c ∈ H.format t, 32 ≤ c.toNat ∧ c.toNat < 127

end

/-- Visible text is read back from the header it is sent in. -/
theorem to_str_bytes {t : Text} (visible : ∀ c ∈ t, 32 ≤ c.toNat ∧ c.toNat < 127) : to_str t.bytes = some t := by
  have ascii : t.bytes = t.map fun c => UInt8.ofNat c.toNat := QuerySet.bytes_ascii fun c member => by
    have bounds := visible c member
    omega
  have value {c : Char} (member : c ∈ t) : (UInt8.ofNat c.toNat).toNat = c.toNat := by
    have bounds := visible c member
    simp only [UInt8.toNat_ofNat']
    omega
  have all_visible : (t.map fun c => UInt8.ofNat c.toNat).all visible_ascii = true := by
    rw [List.all_map,List.all_eq_true]
    intro c member
    have bounds := visible c member
    simp only [Function.comp_apply,visible_ascii,Bool.or_eq_true,Bool.and_eq_true,decide_eq_true_eq,
      UInt8.le_iff_toNat_le,UInt8.lt_iff_toNat_lt,value member]
    exact .inl bounds
  have same : (t.map fun c => UInt8.ofNat c.toNat).map (fun b => Char.ofNat b.toNat) = t := by
    rw [List.map_map]
    refine (List.map_congr_left fun c member => ?_).trans (List.map_id t)
    rw [Function.comp_apply,value member,Char.ofNat_toNat]
    rfl
  rw [to_str,ascii,if_pos all_visible,same]

section
variable {P : Primitives} {H : HttpDates} {object : ObjectMeta} {t : Int}

theorem parse_object_date_stored (faithful : H.Faithful P) (stored : object.last_modified = P.format_time t) :
    parse_object_date P H object.last_modified = P.parse_from_rfc3339 (P.format_time t) := by
  rw [stored,parse_object_date,faithful.no_offset]

/-- The date that was served denotes the second the object was modified in. -/
theorem served_date_read (dates : P.Dates) (faithful : H.Faithful P) (clock : 0 ≤ t) (within : t < YEAR_10000)
    (stored : object.last_modified = P.format_time t) :
    ∃ value, to_str (served_date P H object) = some value ∧
      modified_after P H value object.last_modified = some (decide (t / 1000 * 1000 < t)) := by
  have read := (parse_object_date_stored faithful stored).trans (dates.kept t clock within)
  refine ⟨H.format t,?_,?_⟩
  · rw [served_date,to_http_date,read]
    exact to_str_bytes (faithful.visible t clock within)
  · simp only [modified_after,parse_http_date,faithful.seconds t clock within,read]

theorem second_not_after {t : Int} : ¬ t / 1000 * 1000 < t ↔ t % 1000 = 0 := by omega

/-- A date of a later year is served as it is stored, and judged by no condition. -/
theorem later_date_ignored (dates : P.Dates) (faithful : H.Faithful P) (late : YEAR_10000 ≤ t) (within : t ≤ MAX_UTC)
    (stored : object.last_modified = P.format_time t) (value : Text) :
    modified_after P H value object.last_modified = none := by
  have unread := (parse_object_date_stored faithful stored).trans (dates.signed t late within)
  unfold modified_after
  rw [unread]
  cases parse_http_date H value <;> rfl

section
variable {headers : HeaderMap}

/-- Alone, If-Modified-Since is met by a date that is not before the modification. -/
theorem check_modified_since (no_tag : headers.get "if-none-match" = none) (no_match : headers.get "if-match" = none)
    (no_date : headers.get "if-unmodified-since" = none) : check_conditions P H headers object = some .NotModified ↔
      ∃ value, (headers.get "if-modified-since").bind to_str = some value ∧
        modified_after P H value object.last_modified = some false := by
  unfold check_conditions
  rw [no_match,no_date,no_tag]
  cases (headers.get "if-modified-since").bind to_str with
  | none => simp
  | some value => simp

/-- Only a date before the modification fails If-Unmodified-Since. -/
theorem check_unmodified_since {value : Text} (since : (headers.get "if-unmodified-since").bind to_str = some value)
    (no_match : headers.get "if-match" = none) : check_conditions P H headers object = some .PreconditionFailed ↔
      modified_after P H value object.last_modified = some true := by
  unfold check_conditions
  rw [no_match,since]
  by_cases failed : modified_after P H value object.last_modified = some true
  · simp [failed]
  · simp only [Option.bind_none,failed,decide_false,Bool.false_eq_true,if_false,iff_false]
    split
    next => split_ifs <;> simp
    next => split_ifs <;> simp
    next => simp

end

/-- A request with one header. -/
theorem get_single (name : String) (value : Bytes) (lower : name.toList.map Char.toLower = name.toList) :
    HeaderMap.get [(name.toList,value)] name = some value := by
  simp [HeaderMap.get,HeaderMap.get_all,lower]

/-- Sent back, the date does what it should exactly when the object was modified on a full second, in a year of four
    digits. -/
theorem date_sent_back_iff (dates : P.Dates) (faithful : H.Faithful P) (clock : 0 ≤ t) (within : t ≤ MAX_UTC)
    (stored : object.last_modified = P.format_time t) :
    DateSentBack P H object ↔ t % 1000 = 0 ∧ t < YEAR_10000 := by
  have sent_back (kept : DateSentBack P H object) : ∃ value, to_str (served_date P H object) = some value ∧
      modified_after P H value object.last_modified = some false := by
    have single := get_single "if-modified-since" (served_date P H object) rfl
    have answer := kept.not_modified _ single rfl rfl rfl
    rw [check_modified_since rfl rfl rfl,single] at answer
    exact answer
  by_cases early : t < YEAR_10000
  · obtain ⟨value,text,compared⟩ := served_date_read dates faithful clock early stored
    rw [and_iff_left early,← second_not_after]
    constructor
    · intro kept
      obtain ⟨other,same,not_after⟩ := sent_back kept
      obtain rfl : value = other := Option.some.inj (text.symm.trans same)
      rw [compared] at not_after
      simpa using not_after
    · intro full
      rw [decide_eq_false full] at compared
      constructor
      · intro headers sent no_tag no_match no_date
        rw [check_modified_since no_tag no_match no_date,sent]
        exact ⟨value,text,compared⟩
      · intro headers sent no_match
        rw [ne_eq,check_unmodified_since (by rw [sent]; exact text) no_match,compared]
        simp
  · refine iff_of_false (fun kept => ?_) fun both => early both.2
    obtain ⟨value,_,not_after⟩ := sent_back kept
    rw [later_date_ignored dates faithful (by omega) within stored] at not_after
    cases not_after

end

namespace Sample

/-- Dates of HTTP written as numbers of seconds, but for the beginning of the second day. -/
def http_dates : HttpDates where
  parse_from_str _ := none
  format t := if t / 1000 = 86400 then "Fri, 02 Jan 1970 00:00:00 GMT".toList else (toString (t / 1000).toNat).toList
  parse_from_rfc2822 text :=
    if text = "Fri, 02 Jan 1970 00:00:00 GMT".toList then some 86400000
    else (parseUnsigned 253402300800000 (String.ofList text)).map fun n : Nat => (n : Int) * 1000

theorem http_dates_faithful (P : Primitives) : http_dates.Faithful P where
  no_offset t := rfl
  seconds t early late := by
    by_cases day : t / 1000 = 86400
    · simp only [http_dates,if_pos day,if_true,day]
      rfl
    · have other : (toString (t / 1000).toNat).toList ≠ "Fri, 02 Jan 1970 00:00:00 GMT".toList := by
        intro same
        have comma : ',' ∈ (toString (t / 1000).toNat).toList := by
          rw [same]
          decide
        rw [toString_digits] at comma
        exact absurd (Nat.isDigit_of_mem_toDigits (by decide) (by decide) comma) (by decide)
      have small : (t / 1000).toNat ≤ 253402300800000 := by
        unfold YEAR_10000 at late
        omega
      simp only [http_dates,if_neg day,if_neg other,String.ofList_toList,parseUnsigned_toString small,Option.map_some,
        Option.some.injEq,Int.toNat_of_nonneg (by omega : 0 ≤ t / 1000)]
  visible t early late c member := by
    by_cases day : t / 1000 = 86400
    · have all : ("Fri, 02 Jan 1970 00:00:00 GMT".toList.all fun c => 32 ≤ c.toNat && c.toNat < 127) = true := rfl
      simp only [http_dates,if_pos day] at member
      simpa using List.all_eq_true.mp all c member
    · simp only [http_dates,if_neg day,toString_digits] at member
      have digit := Nat.isDigit_of_mem_toDigits (by decide) (by decide) member
      unfold Char.isDigit at digit
      rw [Bool.and_eq_true,decide_eq_true_eq,decide_eq_true_eq,ge_iff_le,UInt32.le_iff_toNat_le,
        UInt32.le_iff_toNat_le] at digit
      have low : 48 ≤ c.toNat := digit.1
      have high : c.toNat ≤ 57 := digit.2
      omega

/-- As `dated`, with one more date as `chrono` writes it. -/
def dated_fraction : Primitives := { dated with
  format_time t := if t = 86400123 then "1970-01-02T00:00:00.123Z" else dated.format_time t
  parse_from_rfc3339 text :=
    if text = "1970-01-02T00:00:00.123Z" then some 86400123 else dated.parse_from_rfc3339 text }

/-- An object as a put at the given time records it. -/
def object_of (P : Primitives) (t : Int) : ObjectMeta :=
  new_object_meta "a" "text/plain" 3 "\"900150983cd24fb0d6963f7d28e17f72\"" (P.format_time t) none none none none none

end Sample

theorem date_sent_back_full_second : DateSentBack Sample.dated Sample.http_dates (Sample.object_of Sample.dated 86400000) ↔
    (86400000 : Int) % 1000 = 0 ∧ (86400000 : Int) < YEAR_10000 :=
  date_sent_back_iff Sample.dated_dates (Sample.http_dates_faithful _) (by decide) (by decide) rfl

/-- An object modified within a second is modified after the date it was served with. -/
theorem fraction_sent_back : ¬ DateSentBack Sample.dated_fraction Sample.http_dates
    (Sample.object_of Sample.dated_fraction 86400123) := by
  intro kept
  have answer := kept.not_modified
    [("if-modified-since".toList,(to_http_date Sample.dated_fraction Sample.http_dates
      (Sample.object_of Sample.dated_fraction 86400123).last_modified).bytes)] rfl rfl rfl rfl
  have other : check_conditions Sample.dated_fraction Sample.http_dates [("if-modified-since".toList,
      (to_http_date Sample.dated_fraction Sample.http_dates
        (Sample.object_of Sample.dated_fraction 86400123).last_modified).bytes)]
      (Sample.object_of Sample.dated_fraction 86400123) = none := by decide +kernel
  rw [other] at answer
  cases answer

end Maxio
