import Maxio.Globs
import Maxio.PolicySpec

/-!
The two readings of a bucket policy. A document that the reading for public buckets accepts lets everybody read every
object or list the bucket, statement by statement, and the evaluation of a request decides the same.
-/

namespace Maxio

/-- What an action of an accepted statement names, with the resource it needs. -/
def PublicAction (bucket : String) (resource : PolicyResources) (raw_action : String) : Prop :=
  normalize_action raw_action = "s3:GetObject" ∧ any_resource resource (bucket_arn bucket ++ "/*") = true ∨
    normalize_action raw_action = "s3:ListBucket" ∧ any_resource resource (bucket_arn bucket) = true

/-- A statement of the subset: everybody may do what its actions name. -/
structure PublicStatement (bucket : String) (stmt : PolicyStatement) : Prop where
  condition : stmt.condition = none
  effect : Permits stmt
  principal : principal_is_wildcard stmt.principal = true
  actions : ∀ raw_action ∈ actions_list stmt.action, PublicAction bucket stmt.resource raw_action

/-- Some action of the list is the given one. -/
def Names (action : String) (actions : List String) : Prop := ∃ raw_action ∈ actions, normalize_action raw_action = action

/-- What reading a list of actions adds to the effects. -/
structure Gathered (actions : List String) (effects effects' : PolicyEffects) : Prop where
  read : effects'.public_read = true ↔ effects.public_read = true ∨ Names "s3:GetObject" actions
  list : effects'.public_list = true ↔ effects.public_list = true ∨ Names "s3:ListBucket" actions

section Subset
variable {bucket : String} {effects effects' effects'' : PolicyEffects} {actions more : List String}

theorem names_append {action : String} : Names action (actions ++ more) ↔ Names action actions ∨ Names action more := by
  simp [Names,or_and_right,exists_or]

theorem Gathered.nil (effects : PolicyEffects) : Gathered [] effects effects := ⟨by simp [Names],by simp [Names]⟩

theorem Gathered.append (first : Gathered actions effects effects') (second : Gathered more effects' effects'') :
    Gathered (actions ++ more) effects effects'' := by
  constructor
  · rw [second.read,first.read,names_append,or_assoc]
  · rw [second.list,first.list,names_append,or_assoc]

theorem apply_action_ok {resource : PolicyResources} {raw_action : String}
    (applied : apply_action bucket resource effects raw_action = .ok effects') :
    PublicAction bucket resource raw_action ∧ Gathered [raw_action] effects effects' := by
  unfold apply_action at applied
  by_cases read : normalize_action raw_action = "s3:GetObject"
  · rw [if_pos read] at applied
    by_cases covered : any_resource resource (bucket_arn bucket ++ "/*") = true
    · rw [if_pos covered] at applied
      cases applied
      exact ⟨.inl ⟨read,covered⟩,⟨by simp [Names,read],by simp [Names,read]⟩⟩
    · rw [if_neg covered] at applied
      cases applied
  · rw [if_neg read] at applied
    by_cases list : normalize_action raw_action = "s3:ListBucket"
    · rw [if_pos list] at applied
      by_cases covered : any_resource resource (bucket_arn bucket) = true
      · rw [if_pos covered] at applied
        cases applied
        exact ⟨.inr ⟨list,covered⟩,⟨by simp [Names,list],by simp [Names,list]⟩⟩
      · rw [if_neg covered] at applied
        cases applied
    · rw [if_neg list] at applied
      cases applied

/-- A loop that adds up effects and stops at the first item it refuses. -/
theorem gathered_fold {α : Type} {step : PolicyEffects → α → Except String PolicyEffects} {named : α → List String}
    {P : α → Prop}
    (one : ∀ effects a effects', step effects a = .ok effects' → P a ∧ Gathered (named a) effects effects')
    (items : List α) (done : items.foldlM step effects = .ok effects') :
    (∀ a ∈ items, P a) ∧ Gathered (items.flatMap named) effects effects' := by
  induction items generalizing effects with
  | nil =>
    cases done
    exact ⟨by simp,.nil _⟩
  | cons a rest ih =>
    rw [List.foldlM_cons] at done
    cases first : step effects a with
    | error e =>
      rw [first] at done
      cases done
    | ok effects₁ =>
      rw [first] at done
      obtain ⟨here,adds⟩ := one effects a effects₁ first
      obtain ⟨later,added⟩ := ih done
      exact ⟨List.forall_mem_cons.mpr ⟨here,later⟩,adds.append added⟩

theorem apply_v1_statement_ok {stmt : PolicyStatement} (applied : apply_v1_statement bucket effects stmt = .ok effects') :
    PublicStatement bucket stmt ∧ Gathered (actions_list stmt.action) effects effects' := by
  unfold apply_v1_statement at applied
  by_cases conditional : stmt.condition.isSome = true
  · rw [if_pos conditional] at applied
    cases applied
  rw [if_neg conditional] at applied
  by_cases permits : same_ignoring_case stmt.effect "Allow" = true
  swap
  · rw [if_pos (by simpa using permits)] at applied
    cases applied
  rw [if_neg (by simp [permits])] at applied
  by_cases wildcard : principal_is_wildcard stmt.principal = true
  swap
  · rw [if_pos (by simpa using wildcard)] at applied
    cases applied
  rw [if_neg (by simp [wildcard])] at applied
  obtain ⟨accepted,gathered⟩ := gathered_fold (P := PublicAction bucket stmt.resource)
    (fun _ raw_action _ => @apply_action_ok bucket _ _ stmt.resource raw_action) _ applied
  have whole : (actions_list stmt.action).flatMap (fun raw_action => [raw_action]) = actions_list stmt.action :=
    List.flatMap_singleton' _
  rw [whole] at gathered
  exact ⟨⟨by simpa using conditional,permits,wildcard,accepted⟩,gathered⟩

theorem evaluate_v1_policy_ok {from_str : String → Except String Json} {raw : String}
    (accepted : evaluate_v1_policy from_str bucket raw = .ok effects) :
    ∃ policy, parse_policy from_str raw = .ok policy ∧ (∀ stmt ∈ policy.statement, PublicStatement bucket stmt) ∧
      (effects.public_read = true ↔ ∃ stmt ∈ policy.statement, Names "s3:GetObject" (actions_list stmt.action)) ∧
      (effects.public_list = true ↔ ∃ stmt ∈ policy.statement, Names "s3:ListBucket" (actions_list stmt.action)) := by
  unfold evaluate_v1_policy at accepted
  cases parsed : parse_policy from_str raw with
  | error e =>
    rw [parsed] at accepted
    cases accepted
  | ok policy =>
    rw [parsed] at accepted
    obtain ⟨statements,gathered⟩ := gathered_fold (P := PublicStatement bucket)
      (fun _ stmt _ => @apply_v1_statement_ok bucket _ _ stmt) _ accepted
    have named : ∀ action, Names action (policy.statement.flatMap fun stmt => actions_list stmt.action) ↔
        ∃ stmt ∈ policy.statement, Names action (actions_list stmt.action) := by
      intro action
      simp only [Names,List.mem_flatMap]
      constructor
      · rintro ⟨raw_action,⟨stmt,member,listed⟩,same⟩
        exact ⟨stmt,member,raw_action,listed,same⟩
      · rintro ⟨stmt,member,raw_action,listed,same⟩
        exact ⟨raw_action,⟨stmt,member,listed⟩,same⟩
    refine ⟨policy,rfl,statements,?_,?_⟩
    · rw [gathered.read,named]
      simp
    · rw [gathered.list,named]
      simp

end Subset

/-! ### The same statements, request by request -/

section Requests
variable {bucket : String} {stmt : PolicyStatement}

theorem contains_star (s : String) : contains (s ++ "/*") "*" = true := by
  rw [contains,List.any_eq_true]
  refine ⟨['*'],?_,by decide⟩
  rw [List.mem_tails,String.toList_append]
  exact ⟨s.toList ++ ['/'],by simp⟩

/-- The pattern for all objects of a bucket is matched by the ARN of each of them. -/
theorem object_pattern_matches {key : String} (plain : '*' ∉ key.toList) :
    resource_pattern_matches (bucket_arn bucket ++ "/*") (bucket_arn bucket ++ "/" ++ key) (bucket_arn bucket) = true := by
  unfold resource_pattern_matches
  by_cases same : bucket_arn bucket ++ "/*" = "*" ∨ bucket_arn bucket ++ "/*" = bucket_arn bucket ++ "/" ++ key
  · rw [if_pos same]
  · rw [if_neg same,contains_star,Bool.true_or,if_pos rfl,glob_match_verbatim]
    have pattern : (bucket_arn bucket ++ "/*").toList = ((bucket_arn bucket).toList ++ ['/']) ++ ['*'] := by
      simp [String.toList_append]
    have value : (bucket_arn bucket ++ "/" ++ key).toList = ((bucket_arn bucket).toList ++ ['/']) ++ key.toList := by
      simp [String.toList_append]
    rw [pattern,value,verbatim_append]
    refine .inr (.inr ⟨rfl,?_,key.toList,[],by simp,rfl⟩)
    intro star
    exact plain (List.mem_of_mem_head? star)

/-- An action that the statement names is one it matches, and no other is. -/
theorem PublicStatement.actions_match_iff (stands : PublicStatement bucket stmt) {action : String}
    (normal : normalize_action action = action) :
    actions_match stmt.action action = true ↔ Names action (actions_list stmt.action) := by
  simp only [actions_match,normal,List.any_eq_true,Bool.or_eq_true,decide_eq_true_eq]
  constructor
  · rintro ⟨raw_action,member,every | same⟩
    · rcases stands.actions raw_action member with ⟨read,_⟩ | ⟨list,_⟩
      · rw [every] at read
        exact absurd read (by decide)
      · rw [every] at list
        exact absurd list (by decide)
    · exact ⟨raw_action,member,same⟩
  · rintro ⟨raw_action,member,same⟩
    exact ⟨raw_action,member,.inr same⟩

/-- A resource that is the expected one, or any, matches what the expected one does. -/
theorem resource_matches_of_any {resources : PolicyResources} {expected : String} {req : PolicyRequest}
    {arn object_arn : String} (covered : any_resource resources expected = true)
    (matched : resource_pattern_matches expected (if req.action = "s3:ListBucket" then arn else object_arn) arn = true) :
    resource_matches_request resources req arn object_arn = true := by
  obtain ⟨resource,member,same⟩ := List.any_eq_true.mp covered
  refine List.any_eq_true.mpr ⟨resource,member,?_⟩
  simp only [resource_matches,Bool.or_eq_true,decide_eq_true_eq] at same
  rcases same with rfl | rfl
  · exact matched
  · simp [resource_pattern_matches]

/-- A request that its action's resource covers matches exactly the statements that name its action. -/
theorem PublicStatement.matches_iff (stands : PublicStatement bucket stmt) {req : PolicyRequest} {ctx : PolicyContext}
    (same : req.bucket = bucket) (normal : normalize_action req.action = req.action)
    (covered : Names req.action (actions_list stmt.action) →
      resource_matches_request stmt.resource req (bucket_arn bucket) req.object_arn = true) :
    Matches req ctx stmt ↔ Names req.action (actions_list stmt.action) := by
  have everybody : principal_matches stmt.principal ctx = true := by rw [principal_matches,if_pos stands.principal]
  rw [Matches,statement_matches_request,everybody,same,stands.condition]
  by_cases named : Names req.action (actions_list stmt.action)
  · rw [(stands.actions_match_iff normal).mpr named,covered named]
    simp [named]
  · have other : actions_match stmt.action req.action = false :=
      Bool.eq_false_iff.mpr fun matched => named ((stands.actions_match_iff normal).mp matched)
    simp [other,named]

theorem PublicStatement.reads_iff (stands : PublicStatement bucket stmt) {key : String} (plain : '*' ∉ key.toList)
    ( list_prefix : Option String) (ctx : PolicyContext) :
    Matches ⟨"s3:GetObject",bucket,some key, list_prefix⟩ ctx stmt ↔ Names "s3:GetObject" (actions_list stmt.action) := by
  have normal : normalize_action "s3:GetObject" = "s3:GetObject" := by decide
  refine stands.matches_iff rfl normal ?_
  rintro ⟨raw_action,member,same⟩
  rcases stands.actions raw_action member with ⟨_,covered⟩ | ⟨other,_⟩
  · exact resource_matches_of_any covered (object_pattern_matches plain)
  · have apart : ("s3:GetObject" : String) ≠ "s3:ListBucket" := by decide
    exact absurd (same.symm.trans other) apart

theorem PublicStatement.lists_iff (stands : PublicStatement bucket stmt) ( list_prefix : Option String)
    (ctx : PolicyContext) :
    Matches ⟨"s3:ListBucket",bucket,none, list_prefix⟩ ctx stmt ↔ Names "s3:ListBucket" (actions_list stmt.action) := by
  have normal : normalize_action "s3:ListBucket" = "s3:ListBucket" := by decide
  refine stands.matches_iff rfl normal ?_
  rintro ⟨raw_action,member,same⟩
  rcases stands.actions raw_action member with ⟨other,_⟩ | ⟨_,covered⟩
  · have apart : ("s3:ListBucket" : String) ≠ "s3:GetObject" := by decide
    exact absurd (same.symm.trans other) apart
  · exact resource_matches_of_any covered (by simp [resource_pattern_matches])

theorem PublicStatement.evaluable (stands : PublicStatement bucket stmt) : Evaluable stmt where
  effect := .inl stands.effect
  fits condition set := by
    rw [stands.condition] at set
    cases set

/-- Documents without a Deny allow exactly what some statement matches. -/
theorem public_allow_iff {policy : BucketPolicy} (statements : ∀ stmt ∈ policy.statement, PublicStatement bucket stmt)
    {from_str : String → Except String Json} {raw : String} (parsed : parse_policy from_str raw = .ok policy)
    (req : PolicyRequest) (ctx : PolicyContext) :
    evaluate_policy_v2 from_str raw req ctx = some (.ok .Allow) ↔ ∃ stmt ∈ policy.statement, Matches req ctx stmt := by
  rw [evaluate_policy_of_evaluable parsed (fun stmt member => (statements stmt member).evaluable),Option.some.injEq,
    Except.ok.injEq,decision_allow]
  constructor
  · rintro ⟨⟨stmt,member,matched,_⟩,_⟩
    exact ⟨stmt,member,matched⟩
  · rintro ⟨stmt,member,matched⟩
    refine ⟨⟨stmt,member,matched,(statements stmt member).effect⟩,?_⟩
    rintro ⟨other,listed,_,denies⟩
    exact not_permits_of_denies denies (statements other listed).effect

end Requests

/-- A document that the reading for public buckets accepts is read the same by the evaluation of requests, whoever makes
    them and from where. -/
theorem public_readings_agree {from_str : String → Except String Json} {bucket raw : String} {effects : PolicyEffects}
    (accepted : evaluate_v1_policy from_str bucket raw = .ok effects) {key : String} (plain : '*' ∉ key.toList)
    ( list_prefix : Option String) (ctx : PolicyContext) :
    (effects.public_read = true ↔
      evaluate_policy_v2 from_str raw ⟨"s3:GetObject",bucket,some key, list_prefix⟩ ctx = some (.ok .Allow)) ∧
    (effects.public_list = true ↔
      evaluate_policy_v2 from_str raw ⟨"s3:ListBucket",bucket,none, list_prefix⟩ ctx = some (.ok .Allow)) := by
  obtain ⟨policy,parsed,statements,read,list⟩ := evaluate_v1_policy_ok accepted
  rw [public_allow_iff statements parsed,public_allow_iff statements parsed,read,list]
  constructor
  · exact exists_congr fun stmt => and_congr_right fun member => ((statements stmt member).reads_iff plain _ ctx).symm
  · exact exists_congr fun stmt => and_congr_right fun member => ((statements stmt member).lists_iff _ ctx).symm

namespace Sample

/-- Everybody may read the objects of `logs`, and nobody may list it. -/
def open_text : String :=
  "\x7b\"Statement\":[\x7b\"Effect\":\"Allow\",\"Principal\":\"*\",\"Action\":[\"s3:GetObject\"]," ++
  "\"Resource\":\"arn:aws:s3:::logs/*\"\x7d]\x7d"

def open_json : Json := .object [("Statement",.array [.object [("Effect",.string "Allow"),("Principal",.string "*"),
  ("Action",.array [.string "s3:GetObject"]),("Resource",.string "arn:aws:s3:::logs/*")]])]

def open_from_str (raw : String) : Except String Json :=
  if raw = open_text then .ok open_json else .error "expected value at line 1 column 1"

end Sample

theorem open_readings_agree :
    (true = true ↔ evaluate_policy_v2 Sample.open_from_str Sample.open_text ⟨"s3:GetObject","logs",some "a",none⟩
      ⟨none,some "203.0.113.10",[],[]⟩ = some (.ok .Allow)) ∧
    (false = true ↔ evaluate_policy_v2 Sample.open_from_str Sample.open_text ⟨"s3:ListBucket","logs",none,none⟩
      ⟨none,some "203.0.113.10",[],[]⟩ = some (.ok .Allow)) := by
  have accepted : evaluate_v1_policy Sample.open_from_str "logs" Sample.open_text = .ok ⟨true,false⟩ := by
    simp [evaluate_v1_policy,parse_policy,Sample.open_from_str]
    decide +kernel
  exact public_readings_agree accepted (by decide) none _

end Maxio
