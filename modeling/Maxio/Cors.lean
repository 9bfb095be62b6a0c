import Maxio.Networks
import Maxio.Signature

/-!
Cross-origin requests: the preflight that is answered from the rules of a bucket, and when all the rules decide about it.
-/

namespace Maxio

/-! ### The code -/

/-- Returns none for /api, /ui and the root. -/
def extract_bucket_from_path (path : Text) : Option Text := (strip_front "/".toList path).bind fun path =>
  let bucket := Text.first_piece '/' path
  if bucket = [] ∨ bucket = "api".toList ∨ bucket = "ui".toList then none else some bucket

def origin_matches (pattern origin : Text) : Bool := pattern = "*".toList || pattern = origin

def header_allowed (allowed : List String) (header : Text) : Bool :=
  allowed.any fun h => h = "*" || Text.eq_ignore_ascii_case h.toList header

/-- The first rule for the origin and the method. -/
def find_matching_rule (rules : List CorsRule) (origin method : Text) : Option CorsRule := rules.find? fun rule =>
  (rule.allowed_origins.any fun p => origin_matches p.toList origin) && rule.allowed_methods.any fun m => m.toList = method

namespace HeaderMap

/-- `HeaderMap::insert`. -/
def insert (headers : HeaderMap) (name : String) (value : Bytes) : HeaderMap :=
  headers.filter (fun header => header.1 ≠ name.toList) ++ [(name.toList,value)]

/-- Inserted if the text makes a header value: `HeaderValue::from_str`. -/
def insert_str (headers : HeaderMap) (name : String) (value : Text) : HeaderMap :=
  if value.bytes.all fun b => 32 ≤ b && b ≠ 127 || b = 9 then headers.insert name value.bytes else headers

/-- Inserted if there is anything to join. -/
def insert_joined (headers : HeaderMap) (name : String) (values : List String) : HeaderMap :=
  if values = [] then headers else headers.insert_str name (", ".intercalate values).toList

end HeaderMap

def apply_cors_headers (headers : HeaderMap) (rule : CorsRule) (origin : Text) : HeaderMap :=
  let headers := headers.insert_str "access-control-allow-origin" origin
  let headers := headers.insert "vary" (Text.bytes "Origin".toList)
  let headers := headers.insert_joined "access-control-allow-methods" rule.allowed_methods
  let headers := headers.insert_joined "access-control-allow-headers" rule.allowed_headers
  let headers := headers.insert_joined "access-control-expose-headers" rule.expose_headers
  match rule.max_age_seconds with
  | some max_age => headers.insert_str "access-control-max-age" (toString max_age).toList
  | none => headers

structure CorsRequest where
  method : Text
  path : Text
  headers : HeaderMap

/-- A response, less its body. -/
structure CorsResponse where
  status : Nat
  headers : HeaderMap
  deriving DecidableEq

def forbidden : CorsResponse := ⟨403,[]⟩

/-- The headers a preflight asks for; none when they are missing or no text. -/
def requested_headers (headers : HeaderMap) : List Text :=
  match (headers.get "access-control-request-headers").bind to_str with
  | some hdrs => (splitChars ',' hdrs).map str_trim
  | none => []

def requested_method (headers : HeaderMap) : Text :=
  ((headers.get "access-control-request-method").bind to_str).getD []

/-- What `with_bucket_cors` answers to OPTIONS. -/
def preflight (rules : List CorsRule) (origin : Text) (headers : HeaderMap) : CorsResponse :=
  match find_matching_rule rules origin (requested_method headers) with
  | some rule =>
    if (requested_headers headers).all (header_allowed rule.allowed_headers) then
      ⟨200,apply_cors_headers [] rule origin⟩
    else forbidden
  | none => forbidden

/-- The rules are those `get_bucket_cors` reads for the bucket, if it reads any. -/
def with_bucket_cors (get_bucket_cors : Text → Option (List CorsRule)) (handler : CorsRequest → CorsResponse)
    (request : CorsRequest) : CorsResponse :=
  match (request.headers.get "origin").bind to_str with
  | none => handler request
  | some origin => match extract_bucket_from_path request.path with
    | none => handler request
    | some bucket => match get_bucket_cors bucket with
      | none => if request.method = "OPTIONS".toList then forbidden else handler request
      | some rules =>
        if request.method = "OPTIONS".toList then preflight rules origin request.headers
        else
          let response := handler request
          match find_matching_rule rules origin request.method with
          | some rule => { response with headers := apply_cors_headers response.headers rule origin }
          | none => response

/-! ### What the rules allow -/

namespace CorsRule

def AllowsOrigin (rule : CorsRule) (origin : Text) : Prop := "*" ∈ rule.allowed_origins ∨ String.ofList origin ∈ rule.allowed_origins

def AllowsMethod (rule : CorsRule) (method : Text) : Prop := String.ofList method ∈ rule.allowed_methods

/-- Every header is in the list, in any case, or all headers are allowed. -/
def AllowsHeaders (rule : CorsRule) (headers : List Text) : Prop :=
  ∀ h ∈ headers, "*" ∈ rule.allowed_headers ∨ ∃ a ∈ rule.allowed_headers, Text.eq_ignore_ascii_case a.toList h

structure Allows (rule : CorsRule) (origin method : Text) (headers : List Text) : Prop where
  origin_allowed : rule.AllowsOrigin origin
  method_allowed : rule.AllowsMethod method
  headers_allowed : rule.AllowsHeaders headers

end CorsRule

/-- The preflight is answered by what the rules allow together. -/
structure DecidedByRules (rules : List CorsRule) (origin : Text) (headers : HeaderMap) : Prop where
  granted : (preflight rules origin headers).status = 200 ↔
    ∃ rule ∈ rules, rule.Allows origin (requested_method headers) (requested_headers headers)
  from_rule : (preflight rules origin headers).status = 200 →
    ∃ rule ∈ rules, rule.Allows origin (requested_method headers) (requested_headers headers) ∧
      (preflight rules origin headers).headers = apply_cors_headers [] rule origin
  appended : (preflight rules origin headers).status = 200 →
    ∀ rule, (preflight (rules ++ [rule]) origin headers).status = 200
  reordered : (preflight rules origin headers).status = 200 →
    ∀ others, rules.Perm others → (preflight others origin headers).status = 200

section
variable {rules : List CorsRule} {rule : CorsRule} {origin : Text} {headers : HeaderMap}

theorem origin_allowed_iff : (rule.allowed_origins.any fun p => origin_matches p.toList origin) = true ↔
    rule.AllowsOrigin origin := by
  rw [List.any_eq_true]
  constructor
  · rintro ⟨p,member,found⟩
    obtain all | same : p.toList = "*".toList ∨ p.toList = origin := by simpa [origin_matches] using found
    · exact .inl (String.toList_inj.mp all ▸ member)
    · exact .inr (by rwa [← same,String.ofList_toList])
  · rintro (all | listed)
    · exact ⟨_,all,by simp [origin_matches]⟩
    · exact ⟨_,listed,by simp [origin_matches]⟩

theorem method_allowed_iff {method : Text} : (rule.allowed_methods.any fun m => m.toList = method) = true ↔
    rule.AllowsMethod method := by
  rw [List.any_eq_true]
  constructor
  · rintro ⟨m,member,found⟩
    have same : m.toList = method := by simpa using found
    rwa [CorsRule.AllowsMethod,← same,String.ofList_toList]
  · exact fun listed => ⟨_,listed,by simp⟩

theorem headers_allowed_iff {asked : List Text} : asked.all (header_allowed rule.allowed_headers) = true ↔
    rule.AllowsHeaders asked := by
  rw [List.all_eq_true]
  refine forall_congr' fun h => imp_congr_right fun _ => ?_
  rw [header_allowed,List.any_eq_true]
  constructor
  · rintro ⟨a,member,found⟩
    obtain all | same := Bool.or_eq_true_iff.mp found
    · exact .inl (of_decide_eq_true all ▸ member)
    · exact .inr ⟨a,member,same⟩
  · rintro (all | ⟨a,member,same⟩)
    · exact ⟨_,all,by simp⟩
    · exact ⟨a,member,by simp [same]⟩

theorem find_matching_rule_test {method : Text} :
    ((rule.allowed_origins.any fun p => origin_matches p.toList origin) &&
      rule.allowed_methods.any fun m => m.toList = method) = true ↔
    rule.AllowsOrigin origin ∧ rule.AllowsMethod method := by
  rw [Bool.and_eq_true,origin_allowed_iff,method_allowed_iff]

/-- A rule that is found allows the origin and the method. -/
theorem find_matching_rule_some {method : Text} (found : find_matching_rule rules origin method = some rule) :
    rule ∈ rules ∧ rule.AllowsOrigin origin ∧ rule.AllowsMethod method := by
  have passed := List.find?_some found
  exact ⟨List.mem_of_find?_eq_some found,find_matching_rule_test.mp passed⟩

theorem find_matching_rule_none {method : Text} :
    find_matching_rule rules origin method = none ↔
      ∀ rule ∈ rules, ¬ (rule.AllowsOrigin origin ∧ rule.AllowsMethod method) := by
  rw [find_matching_rule,List.find?_eq_none]
  exact forall₂_congr fun rule _ => not_congr find_matching_rule_test

/-- The rule for the origin and the method decides about the headers alone. -/
theorem preflight_granted_iff : (preflight rules origin headers).status = 200 ↔
    ∃ rule, find_matching_rule rules origin (requested_method headers) = some rule ∧
      rule.AllowsHeaders (requested_headers headers) := by
  unfold preflight
  cases found : find_matching_rule rules origin (requested_method headers) with
  | none => simp [forbidden]
  | some rule =>
    simp only [Option.some.injEq,exists_eq_left',← headers_allowed_iff]
    by_cases allowed : (requested_headers headers).all (header_allowed rule.allowed_headers) = true
    · simp [allowed]
    · simp [allowed,forbidden]

theorem preflight_headers (found : find_matching_rule rules origin (requested_method headers) = some rule)
    (allowed : rule.AllowsHeaders (requested_headers headers)) :
    (preflight rules origin headers).headers = apply_cors_headers [] rule origin := by
  rw [preflight,found]
  simp only [headers_allowed_iff.mpr allowed,if_true]

theorem find_matching_rule_append {method : Text} (found : find_matching_rule rules origin method = some rule)
    (more : List CorsRule) : find_matching_rule (rules ++ more) origin method = some rule := by
  rw [find_matching_rule] at found
  rw [find_matching_rule,List.find?_append,found]
  rfl

/-- Some rule is found as soon as one allows the origin and the method. -/
theorem find_matching_rule_exists {method : Text} (member : rule ∈ rules)
    (allowed : rule.AllowsOrigin origin ∧ rule.AllowsMethod method) :
    ∃ first, find_matching_rule rules origin method = some first := by
  cases found : find_matching_rule rules origin method with
  | none => exact absurd allowed (find_matching_rule_none.mp found rule member)
  | some first => exact ⟨first,rfl⟩

end

/-- A rule can be moved to the front, where it decides. -/
theorem refused_in_front {rules : List CorsRule} {rule : CorsRule} {origin : Text} {headers : HeaderMap}
    (member : rule ∈ rules) (allowed : rule.AllowsOrigin origin ∧ rule.AllowsMethod (requested_method headers))
    (refused : ¬ rule.AllowsHeaders (requested_headers headers)) :
    ∃ others, rules.Perm others ∧ (preflight others origin headers).status ≠ 200 := by
  obtain ⟨others,moved⟩ : ∃ others, rules.Perm (rule :: others) := by
    obtain ⟨before,after,rfl⟩ := List.append_of_mem member
    exact ⟨before ++ after,List.perm_middle⟩
  refine ⟨_,moved,fun granted => ?_⟩
  obtain ⟨first,found,headers_allowed⟩ := preflight_granted_iff.mp granted
  have passed := find_matching_rule_test.mpr allowed
  rw [find_matching_rule,List.find?_cons,passed] at found
  obtain rfl : rule = first := by simpa using found
  exact refused headers_allowed

/-- All rules decide about a preflight exactly when those for its origin and method agree on its headers, unless none
    allows it at all. -/
theorem preflight_decided_iff (rules : List CorsRule) (origin : Text) (headers : HeaderMap) :
    DecidedByRules rules origin headers ↔
      ((∃ rule ∈ rules, rule.Allows origin (requested_method headers) (requested_headers headers)) →
        ∀ rule ∈ rules, rule.AllowsOrigin origin → rule.AllowsMethod (requested_method headers) →
          rule.AllowsHeaders (requested_headers headers)) := by
  constructor
  · intro decided some_rule rule member for_origin for_method
    by_cases allowed : rule.AllowsHeaders (requested_headers headers)
    · exact allowed
    · obtain ⟨others,moved,refused⟩ := refused_in_front member ⟨for_origin,for_method⟩ allowed
      exact absurd (decided.reordered (decided.granted.mpr some_rule) others moved) refused
  · intro agreed
    have allows : (preflight rules origin headers).status = 200 → ∃ rule ∈ rules,
        rule.Allows origin (requested_method headers) (requested_headers headers) ∧
          (preflight rules origin headers).headers = apply_cors_headers [] rule origin := by
      intro granted
      obtain ⟨rule,found,allowed⟩ := preflight_granted_iff.mp granted
      obtain ⟨member,for_origin,for_method⟩ := find_matching_rule_some found
      exact ⟨rule,member,⟨for_origin,for_method,allowed⟩,preflight_headers found allowed⟩
    have grants {others : List CorsRule} (same : ∀ rule, rule ∈ others ↔ rule ∈ rules)
        (some_rule : ∃ rule ∈ rules, rule.Allows origin (requested_method headers) (requested_headers headers)) :
        (preflight others origin headers).status = 200 := by
      obtain ⟨rule,member,allowed⟩ := some_rule
      obtain ⟨first,found⟩ := find_matching_rule_exists ((same rule).mpr member)
        ⟨allowed.origin_allowed,allowed.method_allowed⟩
      obtain ⟨listed,for_origin,for_method⟩ := find_matching_rule_some found
      exact preflight_granted_iff.mpr ⟨first,found,
        agreed ⟨rule,member,allowed⟩ first ((same first).mp listed) for_origin for_method⟩
    constructor
    · exact ⟨fun granted => (allows granted).imp fun rule both => ⟨both.1,both.2.1⟩,grants fun _ => Iff.rfl⟩
    · exact allows
    · intro granted rule
      obtain ⟨first,found,allowed⟩ := preflight_granted_iff.mp granted
      exact preflight_granted_iff.mpr ⟨first,find_matching_rule_append found [rule],allowed⟩
    · intro granted others moved
      exact grants (fun rule => moved.symm.mem_iff) ((allows granted).imp fun rule both => ⟨both.1,both.2.1⟩)

/-- Two rules for one origin and one method; the second alone allows a header. -/
def narrow_then_wide : List CorsRule :=
  [⟨["*"],["PUT"],[],[],none⟩,⟨["*"],["PUT"],["*"],[],none⟩]

def upload_with_header : HeaderMap :=
  [("access-control-request-method".toList,Text.bytes "PUT".toList),
    ("access-control-request-headers".toList,Text.bytes "x-amz-meta-a".toList)]

/-- The second rule allows all that is asked for, but the first one decides. -/
theorem second_rule_ignored : ¬ DecidedByRules narrow_then_wide "http://a".toList upload_with_header := by
  intro decided
  have refused : (preflight narrow_then_wide "http://a".toList upload_with_header).status = 403 ∧
      requested_method upload_with_header = "PUT".toList := by decide +kernel
  have wide : CorsRule.Allows ⟨["*"],["PUT"],["*"],[],none⟩ "http://a".toList (requested_method upload_with_header)
      (requested_headers upload_with_header) := by
    rw [refused.2]
    exact ⟨.inl (by simp),by simp [CorsRule.AllowsMethod],fun _ _ => .inl (by simp)⟩
  have granted := decided.granted.mpr ⟨_,by simp [narrow_then_wide],wide⟩
  rw [refused.1] at granted
  exact absurd granted (by decide)

end Maxio
