import Maxio.Policy

/-!
The laws of policy evaluation. What a document decides depends only on which of its statements match and on their
effects, so order and repetition do not matter, a new Deny cannot allow and a new Allow cannot lift a Deny.
-/

namespace Maxio

/-! ### Predicates that can panic -/

section Loops
variable {α : Type} {f : α → Option Bool}

theorem any_of_total (items : List α) (total : ∀ a ∈ items, ∃ b, f a = some b) :
    any_of f items = some (items.any fun a => f a = some true) := by
  induction items with
  | nil => rfl
  | cons a rest ih =>
    obtain ⟨b,here⟩ := total a (by simp)
    have later := ih fun x listed => total x (by simp [listed])
    cases b <;> simp [any_of,here,later]

theorem all_of_total (items : List α) (total : ∀ a ∈ items, ∃ b, f a = some b) :
    all_of f items = some (items.all fun a => f a = some true) := by
  induction items with
  | nil => rfl
  | cons a rest ih =>
    obtain ⟨b,here⟩ := total a (by simp)
    have later := ih fun x listed => total x (by simp [listed])
    cases b <;> simp [all_of,here,later]

theorem check_each_ok {check : α → Except String Unit} (items : List α) :
    check_each check items = .ok () ↔ ∀ a ∈ items, check a = .ok () := by
  induction items with
  | nil => simp [check_each]
  | cons a rest ih =>
    rw [check_each]
    cases here : check a with
    | error e => simp [here,bind,Except.bind]
    | ok _ => simp [here,bind,Except.bind,ih]

end Loops

/-! ### Prefixes within the width of their address -/

/-- The network of a pattern has a prefix that fits its kind of address. -/
def InWidth (cidr : String) : Prop :=
  ∀ network length addr prefix_len, Text.split_once '/' cidr.toList = some (network,length) →
    parse_ip (String.ofList network) = some addr → parse_u8 length = some prefix_len →
    match addr with
    | .V4 _ => prefix_len.val ≤ 32
    | .V6 _ => prefix_len.val ≤ 128

/-- All networks a condition names are within the width of their address. -/
def ConditionInWidth (condition : Json) : Prop :=
  ∀ obj operator keys expected cidr, condition.as_object = some obj → (operator,Json.object keys) ∈ Json.members obj →
    ("aws:SourceIp",expected) ∈ Json.members keys → cidr ∈ condition_values expected → InWidth cidr

def CidrsInWidth (policy : BucketPolicy) : Prop :=
  ∀ stmt ∈ policy.statement, ∀ condition, stmt.condition = some condition → ConditionInWidth condition

theorem octets_length (bits : BitVec 128) : (octets bits).length = 16 := List.length_ofFn

theorem ip_in_network_total {ip network : IpAddr} {prefix_len : Fin 256}
    (fits : ∀ bits, network = .V6 bits → prefix_len.val ≤ 128) : ∃ b, ip_in_network ip network prefix_len = some b := by
  cases network with
  | V4 net =>
    cases ip with
    | V4 addr => exact ⟨_,rfl⟩
    | V6 addr => exact ⟨false,rfl⟩
  | V6 net =>
    have within := fits net rfl
    cases ip with
    | V4 addr => exact ⟨false,rfl⟩
    | V6 addr =>
      simp only [ip_in_network]
      rw [if_neg (by omega)]
      split
      · exact ⟨false,rfl⟩
      · split
        · exact ⟨true,rfl⟩
        · -- a remainder is left only below the full width
          have inside : prefix_len.val / 8 < 16 := by omega
          rw [List.getElem?_eq_getElem (by rw [octets_length]; exact inside),
            List.getElem?_eq_getElem (by rw [octets_length]; exact inside)]
          exact ⟨_,rfl⟩

theorem ip_matches_cidr_total {ip cidr : String} (fits : InWidth cidr) : ∃ b, ip_matches_cidr ip cidr = some b := by
  unfold ip_matches_cidr
  split
  · exact ⟨false,rfl⟩
  · split
    next network length cut =>
      split
      next net_addr prefix_len parsed parsed' =>
        refine ip_in_network_total fun bits v6 => ?_
        have within := fits network length net_addr prefix_len cut parsed parsed'
        rwa [v6] at within
      next => exact ⟨false,rfl⟩
    next => exact ⟨_,rfl⟩

theorem condition_key_matches_total {operator key : String} {expected : Json} {req : PolicyRequest} {ctx : PolicyContext}
    (fits : key = "aws:SourceIp" → ∀ cidr ∈ condition_values expected, InWidth cidr) :
    ∃ b, condition_key_matches operator key expected req ctx = some b := by
  unfold condition_key_matches
  split
  next source =>
    split
    · exact ⟨false,rfl⟩
    · exact ⟨_,any_of_total _ fun cidr listed => ip_matches_cidr_total (fits source.1 cidr listed)⟩
  next =>
    repeat' split
    all_goals exact ⟨_,rfl⟩

theorem conditions_match_total {condition : Json} (fits : ConditionInWidth condition) (req : PolicyRequest)
    (ctx : PolicyContext) : ∃ b, conditions_match condition req ctx = some b := by
  unfold conditions_match
  split
  · exact ⟨false,rfl⟩
  next obj object =>
    refine ⟨_,all_of_total _ fun entry listed => ?_⟩
    split
    · exact ⟨false,rfl⟩
    next keys inner =>
      have body : entry = (entry.1,Json.object keys) := by
        obtain ⟨operator,value⟩ := entry
        cases value <;> simp_all [Json.as_object]
      refine ⟨_,all_of_total _ fun field member => condition_key_matches_total fun source cidr => ?_⟩
      refine fits obj entry.1 keys field.2 cidr object (body ▸ listed) ?_
      rw [← source]
      exact member

theorem statement_matches_total {stmt : PolicyStatement} (req : PolicyRequest) (bucket_arn object_arn : String)
    (ctx : PolicyContext) (fits : ∀ condition, stmt.condition = some condition → ConditionInWidth condition) :
    ∃ b, statement_matches_request stmt req bucket_arn object_arn ctx = some b := by
  unfold statement_matches_request
  repeat' split
  · exact ⟨false,rfl⟩
  · exact ⟨false,rfl⟩
  · exact ⟨false,rfl⟩
  next condition has => exact conditions_match_total (fits condition has) req ctx
  · exact ⟨true,rfl⟩

/-! ### Statements that match -/

section Laws
variable (req : PolicyRequest) (ctx : PolicyContext)

/-- The statement is about the request. -/
def Matches (stmt : PolicyStatement) : Prop :=
  statement_matches_request stmt req (bucket_arn req.bucket) req.object_arn ctx = some true

def Denies (stmt : PolicyStatement) : Prop := same_ignoring_case stmt.effect "Deny" = true

def Permits (stmt : PolicyStatement) : Prop := same_ignoring_case stmt.effect "Allow" = true

/-- Some statement matches and has the effect. -/
def SomeMatch (effect : PolicyStatement → Prop) (statements : List PolicyStatement) : Prop :=
  ∃ stmt ∈ statements, Matches req ctx stmt ∧ effect stmt

open Classical in
/-- What the statements decide. -/
noncomputable def decision (statements : List PolicyStatement) : PolicyDecision :=
  if SomeMatch req ctx Denies statements then .Deny else if SomeMatch req ctx Permits statements then .Allow else .ImplicitDeny

/-- A statement that can be evaluated: its effect is one of the two and its networks are within their widths. -/
structure Evaluable (stmt : PolicyStatement) : Prop where
  effect : Permits stmt ∨ Denies stmt
  fits : ∀ condition, stmt.condition = some condition → ConditionInWidth condition

theorem not_permits_of_denies {stmt : PolicyStatement} (denies : Denies stmt) : ¬ Permits stmt := by
  unfold Permits Denies same_ignoring_case Text.eq_ignore_ascii_case at *
  rw [decide_eq_true_eq] at *
  intro allows
  rw [denies] at allows
  exact absurd allows (by decide)

/-- With what has matched before, the statements decide as a whole. -/
theorem evaluate_statements_eq (statements : List PolicyStatement) (evaluable : ∀ stmt ∈ statements, Evaluable stmt)
    (allow_match deny_match : Bool) :
    ∃ allowed denied : Bool, evaluate_statements req req.object_arn ctx statements allow_match deny_match =
        some (.ok (if denied then .Deny else if allowed then .Allow else .ImplicitDeny)) ∧
      (allowed = true ↔ allow_match = true ∨ SomeMatch req ctx Permits statements) ∧
      (denied = true ↔ deny_match = true ∨ SomeMatch req ctx Denies statements) := by
  induction statements generalizing allow_match deny_match with
  | nil => exact ⟨allow_match,deny_match,rfl,by simp [SomeMatch],by simp [SomeMatch]⟩
  | cons stmt rest ih =>
    obtain ⟨effect,fits⟩ := evaluable stmt (by simp)
    have later := ih fun other listed => evaluable other (by simp [listed])
    obtain ⟨b,answer⟩ := statement_matches_total req (bucket_arn req.bucket) req.object_arn ctx fits
    -- whether the first statement adds to what has matched
    have first (wanted : PolicyStatement → Prop) : SomeMatch req ctx wanted (stmt :: rest) ↔
        b = true ∧ wanted stmt ∨ SomeMatch req ctx wanted rest := by
      simp [SomeMatch,Matches,answer]
    rw [evaluate_statements,answer]
    simp only [first]
    cases b with
    | false =>
      obtain ⟨allowed,denied,executed,allows,denies⟩ := later allow_match deny_match
      exact ⟨allowed,denied,executed,by simpa using allows,by simpa using denies⟩
    | true =>
      by_cases denying : Denies stmt
      · obtain ⟨allowed,denied,executed,allows,denies⟩ := later allow_match true
        refine ⟨allowed,denied,?_,?_,?_⟩
        · simpa [show same_ignoring_case stmt.effect "Deny" = true from denying] using executed
        · simpa [not_permits_of_denies denying] using allows
        · simpa [denying] using denies
      · have allowing := effect.resolve_right denying
        obtain ⟨allowed,denied,executed,allows,denies⟩ := later true deny_match
        refine ⟨allowed,denied,?_,?_,?_⟩
        · simpa [show ¬ same_ignoring_case stmt.effect "Deny" = true from denying,
            show same_ignoring_case stmt.effect "Allow" = true from allowing] using executed
        · simpa [allowing] using allows
        · simpa [denying] using denies

theorem evaluate_decides (statements : List PolicyStatement) (evaluable : ∀ stmt ∈ statements, Evaluable stmt) :
    evaluate_statements req req.object_arn ctx statements false false = some (.ok (decision req ctx statements)) := by
  obtain ⟨allowed,denied,executed,allows,denies⟩ := evaluate_statements_eq req ctx statements evaluable false false
  simp only [Bool.false_eq_true,false_or] at allows denies
  classical
  have decided : (if denied then PolicyDecision.Deny else if allowed then .Allow else .ImplicitDeny) =
      decision req ctx statements := if_congr denies rfl (if_congr allows rfl rfl)
  rw [executed,decided]

theorem decision_deny (statements : List PolicyStatement) :
    decision req ctx statements = .Deny ↔ SomeMatch req ctx Denies statements := by
  unfold decision
  split
  · simp [*]
  · split <;> simp [*]

theorem decision_allow (statements : List PolicyStatement) :
    decision req ctx statements = .Allow ↔
      SomeMatch req ctx Permits statements ∧ ¬ SomeMatch req ctx Denies statements := by
  unfold decision
  split
  · simp [*]
  · split <;> simp [*]

theorem decision_implicit (statements : List PolicyStatement) :
    decision req ctx statements = .ImplicitDeny ↔
      ¬ SomeMatch req ctx Permits statements ∧ ¬ SomeMatch req ctx Denies statements := by
  unfold decision
  split
  · simp [*]
  · split <;> simp [*]

theorem decision_congr {statements statements' : List PolicyStatement}
    (allows : SomeMatch req ctx Permits statements ↔ SomeMatch req ctx Permits statements')
    (denies : SomeMatch req ctx Denies statements ↔ SomeMatch req ctx Denies statements') :
    decision req ctx statements = decision req ctx statements' := by
  classical
  exact if_congr denies rfl (if_congr allows rfl rfl)

end Laws

/-! ### Rearranged documents -/

/-- The same principals: the same value, or the same members of the `AWS` list in any order and number. -/
def SamePrincipals (p p' : Json) : Prop := p = p' ∨ ∃ fields fields' items items', p = .object fields ∧ p' = .object fields' ∧
  Json.map_get fields "AWS" = some (.array items) ∧ Json.map_get fields' "AWS" = some (.array items') ∧
  ∀ item, item ∈ items ↔ item ∈ items'

/-- The same statement, up to the order and repetition of its actions, resources and principals. -/
structure SameStatement (s s' : PolicyStatement) : Prop where
  effect : s'.effect = s.effect
  principals : SamePrincipals s.principal s'.principal
  actions : ∀ action, action ∈ actions_list s.action ↔ action ∈ actions_list s'.action
  resources : ∀ resource, resource ∈ resources_list s.resource ↔ resource ∈ resources_list s'.resource
  condition : s'.condition = s.condition

/-- The same statements in any order and number. -/
structure Rearranged (policy policy' : BucketPolicy) : Prop where
  kept : ∀ s ∈ policy.statement, ∃ s' ∈ policy'.statement, SameStatement s s'
  old : ∀ s' ∈ policy'.statement, ∃ s ∈ policy.statement, SameStatement s s'

section Rearranged

theorem any_congr {α : Type} {items items' : List α} (f : α → Bool) (same : ∀ a, a ∈ items ↔ a ∈ items') :
    items.any f = items'.any f := by
  rw [Bool.eq_iff_iff,List.any_eq_true,List.any_eq_true]
  simp only [same]

theorem SamePrincipals.matches {p p' : Json} (same : SamePrincipals p p') (ctx : PolicyContext) :
    principal_matches p' ctx = principal_matches p ctx := by
  rcases same with rfl | ⟨fields,fields',items,items',rfl,rfl,list,list',members⟩
  · rfl
  · have arns (arn : String) : arn ∈ principal_arns (.object fields') ↔ arn ∈ principal_arns (.object fields) := by
      simp [principal_arns,list,list',members]
    have wild : principal_is_wildcard (.object fields') = principal_is_wildcard (.object fields) := by
      simp only [principal_is_wildcard,list,list']
      exact any_congr _ fun item => (members item).symm
    unfold principal_matches
    rw [wild]
    split
    · rfl
    · split
      · rfl
      · exact any_congr _ arns

theorem SameStatement.matches {s s' : PolicyStatement} (same : SameStatement s s') (req : PolicyRequest)
    (arn object_arn : String) (ctx : PolicyContext) :
    statement_matches_request s' req arn object_arn ctx = statement_matches_request s req arn object_arn ctx := by
  have actions : actions_match s'.action req.action = actions_match s.action req.action :=
    any_congr _ fun action => (same.actions action).symm
  have resources : resource_matches_request s'.resource req arn object_arn = resource_matches_request s.resource req arn object_arn :=
    any_congr _ fun resource => (same.resources resource).symm
  unfold statement_matches_request
  rw [same.principals.matches,actions,resources,same.condition]

theorem Rearranged.someMatch {policy policy' : BucketPolicy} (same : Rearranged policy policy') (req : PolicyRequest)
    (ctx : PolicyContext) (wanted : PolicyStatement → Prop)
    (by_effect : ∀ s s' : PolicyStatement, s'.effect = s.effect → (wanted s' ↔ wanted s)) :
    SomeMatch req ctx wanted policy'.statement ↔ SomeMatch req ctx wanted policy.statement := by
  constructor
  · rintro ⟨s',listed,about,has⟩
    obtain ⟨s,there,alike⟩ := same.old s' listed
    refine ⟨s,there,?_,(by_effect s s' alike.effect).mp has⟩
    rwa [Matches,← alike.matches]
  · rintro ⟨s,listed,about,has⟩
    obtain ⟨s',there,alike⟩ := same.kept s listed
    refine ⟨s',there,?_,(by_effect s s' alike.effect).mpr has⟩
    rwa [Matches,alike.matches]

end Rearranged

/-! ### Accepted documents -/

section Accepted
variable {from_str : String → Except String Json} {bucket raw : String}

theorem validate_policy_ok (accepted : validate_policy_v2 from_str bucket raw = .ok ()) :
    ∃ policy, parse_policy from_str raw = .ok policy ∧ ∀ stmt ∈ policy.statement, validate_statement bucket stmt = .ok () := by
  unfold validate_policy_v2 at accepted
  cases parsed : parse_policy from_str raw with
  | error e =>
    rw [parsed] at accepted
    cases accepted
  | ok policy =>
    rw [parsed] at accepted
    simp only [bind,Except.bind] at accepted
    split at accepted
    · cases accepted
    · exact ⟨policy,rfl,(check_each_ok _).mp accepted⟩

theorem validate_statement_effect {stmt : PolicyStatement} (valid : validate_statement bucket stmt = .ok ()) :
    Permits stmt ∨ Denies stmt := by
  unfold validate_statement validate_effect at valid
  by_cases known : (same_ignoring_case stmt.effect "Allow" || same_ignoring_case stmt.effect "Deny") = true
  · simpa [Permits,Denies] using known
  · rw [if_neg known] at valid
    cases valid

theorem evaluate_accepted {policy : BucketPolicy} (accepted : validate_policy_v2 from_str bucket raw = .ok ())
    (parsed : parse_policy from_str raw = .ok policy) (widths : CidrsInWidth policy) :
    ∀ stmt ∈ policy.statement, Evaluable stmt := by
  obtain ⟨policy',parsed',valid⟩ := validate_policy_ok accepted
  rw [parsed] at parsed'
  cases parsed'
  exact fun stmt listed => ⟨validate_statement_effect (valid stmt listed),widths stmt listed⟩

end Accepted

/-- A document that is accepted for the bucket and names only networks within their widths. -/
structure AcceptedPolicy (from_str : String → Except String Json) (bucket raw : String) (policy : BucketPolicy) : Prop where
  parsed : parse_policy from_str raw = .ok policy
  accepted : validate_policy_v2 from_str bucket raw = .ok ()
  widths : CidrsInWidth policy

/-- The laws of evaluation, for a document and the documents made from it. -/
structure EvaluationLaws (from_str : String → Except String Json) (bucket raw : String) (policy : BucketPolicy)
    (req : PolicyRequest) (ctx : PolicyContext) (decided : PolicyDecision) : Prop where
  evaluates : evaluate_policy_v2 from_str raw req ctx = some (.ok decided)
  deny : decided = .Deny ↔ SomeMatch req ctx Denies policy.statement
  allow : decided = .Allow ↔ SomeMatch req ctx Permits policy.statement ∧ ¬ SomeMatch req ctx Denies policy.statement
  implicit : decided = .ImplicitDeny ↔
    ¬ SomeMatch req ctx Permits policy.statement ∧ ¬ SomeMatch req ctx Denies policy.statement
  rearranged : ∀ raw' policy', parse_policy from_str raw' = .ok policy' → Rearranged policy policy' →
    evaluate_policy_v2 from_str raw' req ctx = some (.ok decided)
  more_deny : ∀ raw' policy' front stmt back, AcceptedPolicy from_str bucket raw' policy' →
    policy.statement = front ++ back → policy'.statement = front ++ stmt :: back → Denies stmt → decided ≠ .Allow →
    evaluate_policy_v2 from_str raw' req ctx ≠ some (.ok .Allow)
  more_allow : ∀ raw' policy' front stmt back, AcceptedPolicy from_str bucket raw' policy' →
    policy.statement = front ++ back → policy'.statement = front ++ stmt :: back → Permits stmt → decided = .Deny →
    evaluate_policy_v2 from_str raw' req ctx = some (.ok .Deny)

section Laws
variable {from_str : String → Except String Json} {bucket raw : String} {policy : BucketPolicy}

theorem evaluate_policy_of_evaluable (parsed : parse_policy from_str raw = .ok policy)
    (evaluable : ∀ stmt ∈ policy.statement, Evaluable stmt) (req : PolicyRequest) (ctx : PolicyContext) :
    evaluate_policy_v2 from_str raw req ctx = some (.ok (decision req ctx policy.statement)) := by
  rw [evaluate_policy_v2,parsed]
  exact evaluate_decides req ctx policy.statement evaluable

theorem AcceptedPolicy.evaluates (taken : AcceptedPolicy from_str bucket raw policy) (req : PolicyRequest)
    (ctx : PolicyContext) : evaluate_policy_v2 from_str raw req ctx = some (.ok (decision req ctx policy.statement)) :=
  evaluate_policy_of_evaluable taken.parsed (evaluate_accepted taken.accepted taken.parsed taken.widths) req ctx

/-- A statement that is put in adds what it says when it matches. -/
theorem someMatch_insert (req : PolicyRequest) (ctx : PolicyContext) (wanted : PolicyStatement → Prop)
    (front : List PolicyStatement) (stmt : PolicyStatement) (back : List PolicyStatement) :
    SomeMatch req ctx wanted (front ++ stmt :: back) ↔
      Matches req ctx stmt ∧ wanted stmt ∨ SomeMatch req ctx wanted (front ++ back) := by
  unfold SomeMatch
  simp only [List.mem_append,List.mem_cons]
  constructor
  · rintro ⟨s,before | rfl | after,rest⟩
    · exact .inr ⟨s,.inl before,rest⟩
    · exact .inl rest
    · exact .inr ⟨s,.inr after,rest⟩
  · rintro (rest | ⟨s,before | after,rest⟩)
    · exact ⟨stmt,.inr (.inl rfl),rest⟩
    · exact ⟨s,.inl before,rest⟩
    · exact ⟨s,.inr (.inr after),rest⟩

end Laws

/-- Every accepted document obeys the laws of evaluation, for every request. -/
theorem policy_evaluation_laws {from_str : String → Except String Json} {bucket raw : String} {policy : BucketPolicy}
    (taken : AcceptedPolicy from_str bucket raw policy) (req : PolicyRequest) (ctx : PolicyContext) :
    ∃ decided, EvaluationLaws from_str bucket raw policy req ctx decided := by
  have evaluable := evaluate_accepted taken.accepted taken.parsed taken.widths
  refine ⟨decision req ctx policy.statement,taken.evaluates req ctx,decision_deny _ _ _,decision_allow _ _ _,
    decision_implicit _ _ _,fun raw' policy' parsed same => ?_,fun raw' policy' front stmt back taken' split split' denies kept => ?_,
    fun raw' policy' front stmt back taken' split split' allows denied => ?_⟩
  · have evaluable' : ∀ stmt ∈ policy'.statement, Evaluable stmt := by
      intro s' listed
      obtain ⟨s,there,alike⟩ := same.old s' listed
      obtain ⟨effect,fits⟩ := evaluable s there
      refine ⟨?_,?_⟩
      · unfold Permits Denies
        rw [alike.effect]
        exact effect
      · rw [alike.condition]
        exact fits
    rw [evaluate_policy_of_evaluable parsed evaluable' req ctx]
    have allows := same.someMatch req ctx Permits fun s s' effect => by rw [Permits,effect,Permits]
    have denies := same.someMatch req ctx Denies fun s s' effect => by rw [Denies,effect,Denies]
    rw [decision_congr req ctx allows denies]
  · rw [taken'.evaluates req ctx,split']
    intro allowed
    injection allowed with allowed
    injection allowed with allowed
    rw [decision_allow,someMatch_insert,someMatch_insert,← split] at allowed
    refine kept ((decision_allow req ctx _).mpr ⟨?_,fun some => allowed.2 (.inr some)⟩)
    exact allowed.1.resolve_left fun new => not_permits_of_denies denies new.2
  · rw [taken'.evaluates req ctx,split']
    rw [decision_deny,split] at denied
    rw [(decision_deny req ctx _).mpr ((someMatch_insert req ctx Denies front stmt back).mpr (.inr denied))]

namespace Sample

/-- A policy that lets everyone in one network read the bucket `logs`. -/
def policy_text : String :=
  "\x7b\"Statement\":[\x7b\"Effect\":\"Allow\",\"Principal\":\"*\",\"Action\":\"s3:GetObject\"," ++
  "\"Resource\":\"arn:aws:s3:::logs/*\",\"Condition\":\x7b\"IpAddress\":\x7b\"aws:SourceIp\":\"203.0.113.0/24\"\x7d\x7d\x7d]\x7d"

def source_ip : Json := .object [("IpAddress",.object [("aws:SourceIp",.string "203.0.113.0/24")])]

def policy_json : Json := .object [("Statement",.array [.object [("Effect",.string "Allow"),("Principal",.string "*"),
  ("Action",.string "s3:GetObject"),("Resource",.string "arn:aws:s3:::logs/*"),("Condition",source_ip)]])]

def policy_from_str (raw : String) : Except String Json :=
  if raw = policy_text then .ok policy_json else .error "expected value at line 1 column 1"

def policy : BucketPolicy where
  version := ""
  statement := [{
    effect := "Allow", principal := .string "*", action := .One "s3:GetObject"
    resource := .One "arn:aws:s3:::logs/*", condition := some source_ip }]

theorem members_singleton (name : String) (value : Json) : Json.members [(name,value)] = [(name,value)] := by
  simp [Json.members,Json.map_get]

theorem policy_parsed : parse_policy policy_from_str policy_text = .ok policy := by
  unfold parse_policy policy_from_str
  rw [if_pos rfl]
  rfl

theorem policy_valid : validate_policy_v2 policy_from_str "logs" policy_text = .ok () := by
  unfold validate_policy_v2
  rw [policy_parsed]
  have condition : validate_condition source_ip = .ok () := by
    simp only [validate_condition,source_ip,Json.as_object,members_singleton]
    decide +kernel
  change (do
    validate_statement "logs" _
    .ok () : Except String Unit) = .ok ()
  unfold validate_statement
  simp only [condition]
  decide +kernel

theorem policy_widths : CidrsInWidth policy := by
  intro stmt listed condition has obj operator keys expected cidr object inner source value
  rw [List.mem_singleton.mp listed] at has
  cases has
  cases object
  rw [members_singleton,List.mem_singleton] at inner
  cases inner
  rw [members_singleton,List.mem_singleton] at source
  cases source
  rw [condition_values,List.mem_singleton] at value
  subst value
  intro network length addr prefix_len cut parsed parsed'
  have spelled : Text.split_once '/' "203.0.113.0/24".toList = some ("203.0.113.0".toList,"24".toList) := by decide +kernel
  rw [spelled] at cut
  cases cut
  rw [show parse_ip (String.ofList "203.0.113.0".toList) = some (.V4 (BitVec.ofNat 32 3405803776)) by decide +kernel] at parsed
  rw [show parse_u8 "24".toList = some 24 by decide +kernel] at parsed'
  cases parsed
  cases parsed'
  decide

end Sample

theorem network_policy_laws : ∃ decided, EvaluationLaws Sample.policy_from_str "logs" Sample.policy_text Sample.policy
    ⟨"s3:GetObject","logs",some "a",none⟩ ⟨none,some "203.0.113.10",[],[]⟩ decided :=
  policy_evaluation_laws ⟨Sample.policy_parsed,Sample.policy_valid,Sample.policy_widths⟩ _ _

end Maxio
