import Maxio.Escapes
import Maxio.Handlers

/-!
Anonymous reads of public buckets: the query test in front of them and the operations behind it.
-/

namespace Maxio

def query_has_forbidden_public_subresource (query : Text) : Bool :=
  AppState.PUBLIC_BYPASS_FORBIDDEN_QUERY_KEYS.any fun key => query_has_key query key

/-- The test is the second gate of the bypass. -/
theorem is_public_bypass_allowed_forbidden {state : AppState} {request : Request} {vhost : Option VirtualHostContext}
    (forbidden : query_has_forbidden_public_subresource request.query = true) :
    state.is_public_bypass_allowed request vhost = pure false := by
  unfold AppState.is_public_bypass_allowed
  split
  · rfl
  · exact if_pos forbidden

/-! ### Operations -/

/-- A listing, a location or the bytes of an object. -/
def PlainRead : Operation → Prop
  | .get_bucket .location _ | .get_bucket .objects _ | .get_object .bytes _ _ => True
  | _ => False

/-- No parameter names a sub-resource. -/
def PlainNames (params : Params) : Prop :=
  ∀ key ∈ AppState.PUBLIC_BYPASS_FORBIDDEN_QUERY_KEYS, params.contains_key key = false

section
variable {params : Params}

theorem PlainNames.get_object (plain : PlainNames params) (bucket key : Text) :
    get_object_operation params bucket key = .get_object .bytes bucket key := by
  unfold get_object_operation
  rw [plain "retention" (by decide),plain "legal-hold" (by decide),plain "tagging" (by decide),
    plain "uploadId" (by decide)]
  rfl

theorem PlainNames.read_of_bucket (plain : PlainNames params) :
    read_of_bucket params = if params.contains_key "location" then .location else .objects := by
  unfold Maxio.read_of_bucket
  rw [plain "uploads" (by decide),plain "versioning" (by decide),plain "cors" (by decide),plain "encryption" (by decide),
    plain "policy" (by decide),plain "lifecycle" (by decide),plain "object-lock" (by decide),plain "erasure" (by decide),
    plain "logging" (by decide),plain "notification" (by decide),plain "versions" (by decide)]
  rfl

theorem PlainNames.get_bucket (plain : PlainNames params) (vhost : Option VirtualHostContext) (bucket : Text) :
    PlainRead (handle_bucket_get params vhost bucket) := by
  unfold handle_bucket_get
  cases virtual_host_object_key params vhost with
  | some key =>
    have plain' : PlainNames [] := fun _ _ => rfl
    simp only [plain'.get_object]
    trivial
  | none =>
    simp only [plain.read_of_bucket]
    split
    · trivial
    · trivial

end

/-! ### The test -/

/-- Some name is forbidden as it is written, or none is hidden behind an escape. -/
def NothingHidden (query : Text) : Prop :=
  (∃ piece ∈ splitChars '&' query, ∃ key ∈ AppState.PUBLIC_BYPASS_FORBIDDEN_QUERY_KEYS,
    Text.eq_ignore_ascii_case (raw_pair piece).1 key.toList) ∨
  ∀ piece ∈ splitChars '&' query, '%' ∈ (raw_pair piece).1 →
    ∀ key ∈ AppState.PUBLIC_BYPASS_FORBIDDEN_QUERY_KEYS, form_decode (raw_pair piece).1 ≠ key.toList

theorem forbidden_iff (query : Text) : query_has_forbidden_public_subresource query = true ↔
    ∃ piece ∈ splitChars '&' query, ∃ key ∈ AppState.PUBLIC_BYPASS_FORBIDDEN_QUERY_KEYS,
      Text.eq_ignore_ascii_case (raw_pair piece).1 key.toList := by
  unfold query_has_forbidden_public_subresource query_has_key
  simp only [List.any_eq_true,raw_pair_name]
  constructor
  · rintro ⟨key,listed,piece,member,spelled⟩
    exact ⟨piece,member,key,listed,spelled⟩
  · rintro ⟨piece,member,key,listed,spelled⟩
    exact ⟨key,listed,piece,member,spelled⟩

theorem forbidden_key_plain {key : String} (listed : key ∈ AppState.PUBLIC_BYPASS_FORBIDDEN_QUERY_KEYS) :
    key.toList ≠ [] ∧ ' ' ∉ key.toList := by
  have all : ∀ key ∈ AppState.PUBLIC_BYPASS_FORBIDDEN_QUERY_KEYS, key.toList ≠ [] ∧ ' ' ∉ key.toList := by decide
  exact all key listed

/-- A parameter that names a sub-resource is spelled out, or hidden. -/
theorem forbidden_param_cases {query : Text} {key : String} (listed : key ∈ AppState.PUBLIC_BYPASS_FORBIDDEN_QUERY_KEYS)
    (present : (parse_query query).contains_key key) :
    query_has_forbidden_public_subresource query = true ∨
      ∃ piece ∈ splitChars '&' query, '%' ∈ (raw_pair piece).1 ∧ form_decode (raw_pair piece).1 = key.toList := by
  obtain ⟨named,unblank⟩ := forbidden_key_plain listed
  obtain ⟨piece,member,decoded⟩ := (contains_key_iff named).mp present
  by_cases escaped : '%' ∈ (raw_pair piece).1
  · exact .inr ⟨piece,member,escaped,decoded⟩
  · refine .inl ((forbidden_iff query).mpr ⟨piece,member,key,listed,?_⟩)
    rw [form_decode_unescaped escaped unblank decoded]
    exact decide_eq_true rfl

/-- The test keeps the handlers to plain reads exactly where no name of a sub-resource hides behind an escape. -/
theorem public_bypass_plain_iff (query : Text) :
    (query_has_forbidden_public_subresource query = false → PlainNames (parse_query query) ∧
      (∀ vhost bucket, PlainRead (handle_bucket_get (parse_query query) vhost bucket)) ∧
      ∀ bucket key, PlainRead (get_object_operation (parse_query query) bucket key)) ↔ NothingHidden query := by
  constructor
  · intro keeps
    cases passed : query_has_forbidden_public_subresource query with
    | true => exact .inl ((forbidden_iff query).mp passed)
    | false =>
      refine .inr fun piece member _ key listed decoded => ?_
      have present := (contains_key_iff (forbidden_key_plain listed).1).mpr ⟨piece,member,decoded⟩
      rw [(keeps passed).1 key listed] at present
      cases present
  · intro hidden passed
    have unescaped : ∀ piece ∈ splitChars '&' query, '%' ∈ (raw_pair piece).1 →
        ∀ key ∈ AppState.PUBLIC_BYPASS_FORBIDDEN_QUERY_KEYS, form_decode (raw_pair piece).1 ≠ key.toList := by
      refine hidden.resolve_left fun spelled => ?_
      rw [← forbidden_iff,passed] at spelled
      cases spelled
    have plain : PlainNames (parse_query query) := by
      intro key listed
      by_contra present
      rw [Bool.not_eq_false] at present
      obtain refused | ⟨piece,member,escaped,decoded⟩ := forbidden_param_cases listed present
      · rw [passed] at refused
        cases refused
      · exact unescaped piece member escaped key listed decoded
    refine ⟨plain,plain.get_bucket,fun bucket key => ?_⟩
    rw [plain.get_object]
    trivial

/-- One escaped letter takes an anonymous request to the uploads of a bucket. -/
theorem escaped_uploads_reached :
    query_has_forbidden_public_subresource "%75ploads".toList = false ∧
    (parse_query "%75ploads".toList).contains_key "uploads" = true ∧
    handle_bucket_get (parse_query "%75ploads".toList) none "logs".toList = .get_bucket .uploads "logs".toList := by
  decide +kernel

end Maxio
