import Maxio.Handlers
import Maxio.HttpSpec

/-!
What the explicit gates judge, and what the exemption for new buckets lets through.
-/

namespace Maxio

/-! ### Explicit gates -/

section
variable {server_host path : Text} {host signature_path : Option Text}

/-- Without a virtual host the judged bucket is a piece of the path. -/
theorem extract_by_path (plain : virtual_bucket server_host host = none) {bucket : Text} {key : Option Text}
    (found : extract_bucket_and_key server_host path host signature_path = some (bucket,key)) :
    bucket ≠ [] ∧ '/' ∉ bucket := by
  rw [extract_bucket_and_key,plain] at found
  simp only at found
  split at found
  · simp at found
  next trimmed =>
    split at found
    next before rest cut =>
      obtain ⟨rfl,-⟩ : before = bucket ∧ _ := by simpa using found
      obtain ⟨whole,outside⟩ := Text.split_once_some.mp cut
      refine ⟨?_,outside⟩
      rintro rfl
      exact Text.trim_start_head whole
    next uncut =>
      obtain ⟨rfl,-⟩ : Text.trim_start '/' path = bucket ∧ _ := by simpa using found
      exact ⟨trimmed,Text.split_once_none.mp uncut⟩

theorem trim_gate_path {bucket key : Text} (named : bucket ≠ []) (whole : '/' ∉ bucket) :
    Text.trim_start '/' (AppState.gate_path bucket (some key)) = bucket ++ '/' :: key := by
  obtain ⟨c,rest,rfl⟩ := List.exists_cons_of_ne_nil named
  have other : c ≠ '/' := fun same => whole (by simp [same])
  rw [AppState.gate_path,List.cons_append,Text.trim_start_same,List.cons_append,Text.trim_start_cons other]

/-- A path put together from a bucket and a key is taken apart again when the bucket holds no slash. -/
theorem extract_gate_path (plain : virtual_bucket server_host host = none) {bucket key : Text} (named : bucket ≠ [])
    (whole : '/' ∉ bucket) :
    extract_bucket_and_key server_host (AppState.gate_path bucket (some key)) host signature_path =
      some (bucket,if key = [] then none else some key) := by
  have cut : Text.split_once '/' (bucket ++ '/' :: key) = some (bucket,key) :=
    Text.split_once_some.mpr ⟨rfl,whole⟩
  rw [extract_bucket_and_key,plain]
  simp only [trim_gate_path named whole]
  rw [cut]
  simp

end

/-- The gate passes its tenant check, then judges one target, with this bucket and this key. -/
def Judges (state : AppState) (ctx : S3RequestContext) (gate : Handler Unit) (bucket key : Text) : Prop :=
  ∀ log log', state.enforce_tenant_bucket ctx bucket log = (.ok (),log') →
    ∃ target new, target.bucket = bucket ∧ target.object_key = some key ∧
      (gate log).2 = log' ++ .judged target :: new ∧
      ∀ e ∈ new, ∃ decision, e = .decided target ctx.principal decision

/-- A bucket that exists throughout, with a policy that is enforced. -/
def EnforcesV2 (state : AppState) (bucket : Text) : Prop :=
  is_valid_bucket_name (String.ofList bucket) ∧ ∀ log, ∃ record policy, state.bucket_record log bucket = .ok record ∧
    record.bucket_policy = some policy ∧ state.policy_requires_v2_enforcement bucket policy

namespace AppState
variable (state : AppState)

theorem get_bucket_policy_run (target : BucketPolicyTarget) (log : List Event) :
    state.get_bucket_policy target log = (.ok ((validate_bucket_name (String.ofList target.bucket)).bind fun _ =>
      (state.bucket_record log target.bucket).map fun record => record.bucket_policy),log ++ [.judged target]) := rfl

/-- How judging a target may go: the policy is read, and a decision, when there is one, is on the target. It lets
the request pass when the bucket's name is valid and no policy that is enforced stands against it. -/
structure Judgement (target : BucketPolicyTarget) (access_key : Option Text) (new : List Event)
    (r : Except S3Error Unit) : Prop where
  logged : new = [.judged target] ∨ ∃ decision, new = [.judged target,.decided target access_key decision]
  named : r = .ok () → is_valid_bucket_name (String.ofList target.bucket)
  allowed : r = .ok () → EnforcesV2 state target.bucket →
    new = [.judged target,.decided target access_key .Allow]

theorem enforce_policy_target_emits (target : BucketPolicyTarget) (access_key : Option Text) (client_ip : Text) :
    Prog.Emits (state.Judgement target access_key) (state.enforce_policy_target target access_key client_ip) := by
  intro log
  rw [enforce_policy_target,Prog.bind_of_ok (state.get_bucket_policy_run target log)]
  by_cases valid : is_valid_bucket_name (String.ofList target.bucket)
  swap
  · simp only [validate_bucket_name,valid,Except.bind]
    exact ⟨[.judged target],rfl,.inl rfl,by simp,by simp⟩
  simp only [validate_bucket_name,valid,if_true,Except.bind]
  cases record : state.bucket_record log target.bucket with
  | error e =>
    have unread : ¬ EnforcesV2 state target.bucket := fun enforces => by
      obtain ⟨found,_,read,_⟩ := enforces.2 log
      simp [record] at read
    cases e <;> exact ⟨[.judged target],rfl,.inl rfl,fun _ => valid,fun _ enforces => absurd enforces unread⟩
  | ok found =>
    simp only [Except.map]
    cases policy : found.bucket_policy with
    | none =>
      have unset : ¬ EnforcesV2 state target.bucket := fun enforces => by
        obtain ⟨again,_,read,set,_⟩ := enforces.2 log
        rw [record,Except.ok.injEq] at read
        rw [← read,policy] at set
        simp at set
      exact ⟨[.judged target],rfl,.inl rfl,fun _ => valid,fun _ enforces => absurd enforces unset⟩
    | some text =>
      simp only
      by_cases required : state.policy_requires_v2_enforcement target.bucket text
      · simp only [required,Bool.not_true,Bool.false_eq_true,if_false]
        cases state.evaluate_policy_v2 text target access_key client_ip with
        | error message => exact ⟨[.judged target],rfl,.inl rfl,by simp,by simp⟩
        | ok decision =>
          simp only [Prog.bind_apply,Prog.tell_apply]
          by_cases allow : decision = .Allow
          · rw [if_pos allow]
            exact ⟨[.judged target,.decided target access_key decision],by simp,.inr ⟨decision,rfl⟩,fun _ => valid,
              fun _ _ => by rw [allow]⟩
          · rw [if_neg allow]
            exact ⟨[.judged target,.decided target access_key decision],by simp,.inr ⟨decision,rfl⟩,by simp,by simp⟩
      · simp only [required,Bool.not_false,if_true]
        refine ⟨[.judged target],rfl,.inl rfl,fun _ => valid,fun _ enforces => ?_⟩
        obtain ⟨again,other,read,set,needed⟩ := enforces.2 log
        rw [record,Except.ok.injEq] at read
        rw [← read,policy,Option.some.injEq] at set
        exact absurd (set ▸ needed) required

variable {state}

/-- A gate judges its arguments as soon as its target is made of them. -/
theorem judges_of_target {host : Option Text} {ctx : S3RequestContext} {method : Method} {path query bucket key : Text}
    {target : BucketPolicyTarget} (made : state.gate_target host ctx method path query = some target)
    (same : target.bucket = bucket ∧ target.object_key = some key) :
    Judges state ctx (do
      state.enforce_tenant_bucket ctx bucket
      state.enforce_bucket_policy_for_target (state.gate_target host ctx method path query) ctx.principal
        ctx.client_ip) bucket key := by
  intro log log' passed
  obtain ⟨new,added,judgement⟩ := state.enforce_policy_target_emits target ctx.principal ctx.client_ip log'
  have run : (do
      state.enforce_tenant_bucket ctx bucket
      state.enforce_bucket_policy_for_target (state.gate_target host ctx method path query) ctx.principal
        ctx.client_ip : Handler Unit) log = state.enforce_policy_target target ctx.principal ctx.client_ip log' := by
    rw [Prog.bind_of_ok passed,made,enforce_bucket_policy_for_target]
  rw [run]
  obtain rfl | ⟨decision,rfl⟩ := judgement.logged
  · exact ⟨target,[],same.1,same.2,added,by simp⟩
  · exact ⟨target,_,same.1,same.2,added,by simp⟩

/-- What a gate judges once a request has passed its tenant check. -/
theorem target_of_judges {host : Option Text} {ctx : S3RequestContext} {method : Method} {path query bucket key : Text}
    {log log' : List Event} (passed : state.enforce_tenant_bucket ctx bucket log = (.ok (),log'))
    (judges : Judges state ctx (do
      state.enforce_tenant_bucket ctx bucket
      state.enforce_bucket_policy_for_target (state.gate_target host ctx method path query) ctx.principal
        ctx.client_ip) bucket key) :
    ∃ target, state.gate_target host ctx method path query = some target ∧ target.bucket = bucket ∧
      target.object_key = some key := by
  obtain ⟨target,new,bucket_eq,key_eq,run,-⟩ := judges log log' passed
  rw [Prog.bind_of_ok passed] at run
  cases made : state.gate_target host ctx method path query with
  | none =>
    rw [made] at run
    simp [enforce_bucket_policy_for_target] at run
  | some judged =>
    obtain ⟨added_log,added,judgement⟩ :=
      state.enforce_policy_target_emits judged ctx.principal ctx.client_ip log'
    rw [made,enforce_bucket_policy_for_target,added] at run
    have same : judged = target := by
      obtain rfl | ⟨decision,rfl⟩ := judgement.logged
      · simp at run
        exact run.1
      · simp at run
        exact run.1
    exact ⟨judged,rfl,same ▸ bucket_eq,same ▸ key_eq⟩

end AppState

/-- The gate's path, its host and the signed path of the request lead back to the gate's bucket and key. -/
def LeadsBack (server_host : Text) (host : Option Text) (vhost : Option VirtualHostContext) (bucket key : Text) : Prop :=
  match virtual_bucket server_host host with
  | some named => named = bucket ∧ ∃ ctx, vhost = some ctx ∧ object_key_from_signature_path ctx.signature_path = some key
  | none => bucket ≠ [] ∧ '/' ∉ bucket ∧ key ≠ []

theorem virtual_bucket_nonempty {server_host bucket : Text} {host : Option Text}
    (named : virtual_bucket server_host host = some bucket) :
    bucket ≠ [] ∧ is_valid_bucket_name (String.ofList bucket) := by
  rw [virtual_bucket,Option.bind_eq_some_iff] at named
  obtain ⟨text,-,named⟩ := named
  simp only [extract_virtual_bucket] at named
  split at named
  · simp at named
  · obtain ⟨found,-,kept⟩ := Option.bind_eq_some_iff.mp named
    split at kept
    · simp at kept
    next nonempty =>
      split at kept
      next valid =>
        obtain rfl : found = bucket := by simpa using kept
        exact ⟨nonempty,valid⟩
      · simp at kept

/-- The bucket and the key that a gate path is taken apart into are its own exactly when it leads back. -/
theorem extract_leads_back {server_host bucket key : Text} {host : Option Text} {vhost : Option VirtualHostContext} :
    extract_bucket_and_key server_host (AppState.gate_path bucket (some key)) host
      (vhost.map VirtualHostContext.signature_path) = some (bucket,some key) ↔
    LeadsBack server_host host vhost bucket key := by
  cases plain : virtual_bucket server_host host with
  | none =>
    simp only [LeadsBack,plain]
    constructor
    · intro found
      obtain ⟨named,whole⟩ := extract_by_path plain found
      rw [extract_gate_path plain named whole] at found
      refine ⟨named,whole,?_⟩
      rintro rfl
      simp at found
    · rintro ⟨named,whole,some_key⟩
      rw [extract_gate_path plain named whole,if_neg some_key]
  | some named =>
    simp only [LeadsBack,plain,extract_bucket_and_key]
    cases vhost with
    | none =>
      simp only [Option.map_none,Option.getD_none,Option.some.injEq,Prod.mk.injEq,reduceCtorEq,false_and,exists_false,
        and_false,iff_false]
      rintro ⟨rfl,found⟩
      obtain ⟨nonempty,valid⟩ := virtual_bucket_nonempty plain
      -- the path a bucket was put in front of is longer than the key
      rw [object_key_from_signature_path,trim_gate_path nonempty (slash_not_mem_valid valid)] at found
      have longer := congrArg (Option.map List.length) found
      simp at longer
      omega
    | some ctx => simp

namespace AppState
variable (state : AppState)

/-- Both gates resolve a target, whose bucket and key are those their path is taken apart into. -/
theorem gate_target_iff {host : Option Text} {ctx : S3RequestContext} {method : Method} {bucket key : Text}
    (acts : method = .GET ∨ method = .DELETE) :
    (∃ target, state.gate_target host ctx method (gate_path bucket (some key)) [] = some target ∧
      target.bucket = bucket ∧ target.object_key = some key) ↔
    LeadsBack state.server_host host ctx.vhost bucket key := by
  have created : is_create_bucket_request method [] (gate_path bucket (some key)) = false := by
    have spelled : Text.eq_ignore_ascii_case method.as_str "PUT".toList = false := by
      obtain rfl | rfl := acts <;> decide
    rw [is_create_bucket_request,spelled]
    rfl
  have acted : ∀ has_object_key, ∃ action, s3_action_for_request method [] has_object_key = some action := by
    intro has_object_key
    obtain rfl | rfl := acts <;> cases has_object_key <;> exact ⟨_,rfl⟩
  rw [← extract_leads_back,gate_target,resolve_policy_target_from_parts,created]
  simp only [Bool.false_eq_true,if_false]
  cases found : extract_bucket_and_key state.server_host (gate_path bucket (some key)) host
      (ctx.vhost.map VirtualHostContext.signature_path) with
  | none => simp
  | some pair =>
    obtain ⟨action,made⟩ := acted pair.2.isSome
    simp [made,Prod.ext_iff]

theorem copy_source_gate_judges (host : Option Text) (ctx : S3RequestContext) (bucket key : Text)
    (back : LeadsBack state.server_host host ctx.vhost bucket key) :
    Judges state ctx (state.enforce_copy_source_gates host ctx bucket key) bucket key := by
  obtain ⟨target,made,same⟩ := (state.gate_target_iff (.inl rfl)).mpr back
  exact judges_of_target made same

/-- A request without parameters has the empty query. -/
theorem query_string_nil : state.query_string [] = [] := by
  have none_left : state.hash_order [] = [] := List.perm_nil.mp (state.shuffled [])
  simp [query_string,Params.entries,none_left]

theorem per_key_gate_judges (host : Option Text) (ctx : S3RequestContext) (bucket key : Text)
    (back : LeadsBack state.server_host host ctx.vhost bucket key) :
    Judges state ctx (state.enforce_s3_bucket_gates host ctx .DELETE bucket (some key) []) bucket key := by
  obtain ⟨target,made,same⟩ := (state.gate_target_iff (.inr rfl)).mpr back
  rw [enforce_s3_bucket_gates,query_string_nil]
  exact judges_of_target made same

theorem leads_back_of_judges {host : Option Text} {ctx : S3RequestContext} {bucket key : Text}
    {log log' : List Event} (passed : state.enforce_tenant_bucket ctx bucket log = (.ok (),log'))
    (judges : Judges state ctx (state.enforce_copy_source_gates host ctx bucket key) bucket key) :
    LeadsBack state.server_host host ctx.vhost bucket key :=
  (state.gate_target_iff (.inl rfl)).mp (target_of_judges passed judges)

end AppState

namespace Sample

/-- The record of a bucket of the given tenant, with the given policy. -/
def bucketOf (tenant_id policy : Option String) : BucketMeta :=
  { name := "", created_at := "", region := "", versioning := false, cors_rules := none, encryption_config := none,
    public_read := false, public_list := false, bucket_policy := policy, erasure_coding := none,
    lifecycle_rules := none, tenant_id := tenant_id, logging_target_bucket := none, logging_target_prefix := none,
    notification_config := none, object_lock_enabled := false, object_lock_config := none }

/-- A server with every bucket there is a name for. Its users all belong to the tenant `blue`, and its policies
allow what they are asked about. -/
def server (server_host : Text) (tenant : Text → String) (policy : Option String) : AppState where
  server_host := server_host
  access_key := "root".toList
  default_tenant := ""
  lookup := fun _ => some ⟨some "blue"⟩
  bucket_exists := fun _ _ => .ok true
  bucket_record := fun _ bucket => .ok (bucketOf (some (tenant bucket)) policy)
  policy_requires_v2_enforcement := fun _ _ => true
  evaluate_policy_v2 := fun _ _ _ _ => .ok .Allow
  outcome := fun _ _ => .ok ()
  hash_order := fun params => params
  shuffled := fun _ => .refl _

end Sample

/-- Whoever makes the request and whatever the store answers, both explicit gates judge exactly their arguments
when, and only when, their path, the `Host` header and the signed path lead back to these. -/
theorem explicit_gates_judge_their_arguments_iff (server_host : Text) (host : Option Text)
    (vhost : Option VirtualHostContext) (bucket key : Text) :
    (∀ (state : AppState) (principal : Option Text) (client_ip : Text), state.server_host = server_host →
      Judges state ⟨principal,vhost,client_ip⟩
        (state.enforce_copy_source_gates host ⟨principal,vhost,client_ip⟩ bucket key) bucket key ∧
      Judges state ⟨principal,vhost,client_ip⟩
        (state.enforce_s3_bucket_gates host ⟨principal,vhost,client_ip⟩ .DELETE bucket (some key) []) bucket key) ↔
    LeadsBack server_host host vhost bucket key := by
  constructor
  · intro judges
    have served := judges (Sample.server server_host (fun _ => "blue") none) none [] rfl
    have passed : (Sample.server server_host (fun _ => "blue") none).enforce_tenant_bucket ⟨none,vhost,[]⟩ bucket [] =
        (.ok (),[]) := rfl
    exact AppState.leads_back_of_judges _ passed served.1
  · rintro back state principal client_ip rfl
    exact ⟨state.copy_source_gate_judges host _ bucket key back,state.per_key_gate_judges host _ bucket key back⟩

namespace Sample

/-- `alice` asks the virtual host of `logs` for `/a`. -/
def hosted : S3RequestContext := ⟨some "alice".toList,some ⟨"logs".toList,"/a".toList⟩,[]⟩

end Sample

/-- A copy from `vault/secret` in a request to the virtual host of `logs` is judged on the key `a` of `logs`. -/
theorem copy_source_judged_elsewhere :
    ¬ Judges (Sample.server "s3.local".toList (fun _ => "blue") none) Sample.hosted
      ((Sample.server "s3.local".toList (fun _ => "blue") none).enforce_copy_source_gates
        (some "logs.s3.local".toList) Sample.hosted "vault".toList "secret".toList)
      "vault".toList "secret".toList := by
  intro judges
  have passed : (Sample.server "s3.local".toList (fun _ => "blue") none).enforce_tenant_bucket Sample.hosted
      "vault".toList [] = (.ok (),[.check .head_bucket "vault".toList,.check .get_bucket_meta "vault".toList]) := by
    decide +kernel
  have back := AppState.leads_back_of_judges _ passed judges
  have named : virtual_bucket (Sample.server "s3.local".toList (fun _ => "blue") none).server_host
      (some "logs.s3.local".toList) = some "logs".toList := by decide +kernel
  rw [LeadsBack,named] at back
  exact absurd back.1 (by decide)

/-! ### The exemption for new buckets -/

/-- Parameters that turn a PUT on a bucket into a write of one of its settings. -/
def setting_names : List String :=
  ["versioning","cors","encryption","policy","lifecycle","erasure","logging","notification","object-lock"]

theorem setting_name_nonempty : ∀ name ∈ setting_names, name.toList ≠ [] := by decide

theorem written_setting_none {params : Params} :
    written_setting params = none ↔ ∀ name ∈ setting_names, params.contains_key name = false := by
  simp only [setting_names,List.forall_mem_cons,List.not_mem_nil,false_implies,implies_true,and_true]
  constructor
  · intro unwritten
    refine ⟨?_,?_,?_,?_,?_,?_,?_,?_,?_⟩ <;>
      (by_contra present
       rw [Bool.not_eq_false] at present
       revert unwritten
       simp only [written_setting,present,if_true]
       repeat' split
       all_goals simp)
  · rintro ⟨h1,h2,h3,h4,h5,h6,h7,h8,h9⟩
    simp [written_setting,h1,h2,h3,h4,h5,h6,h7,h8,h9]

section
variable {server_host : Text} {request : Request}

/-- What the policy check takes for the creation of a bucket has a path of one segment and a query without values. -/
theorem exempt_spec (exempt : is_create_bucket_request request.method request.query request.path) :
    '=' ∉ request.query ∧ Text.trim_start '/' request.path ≠ [] ∧ '/' ∉ Text.trim_start '/' request.path := by
  simp only [is_create_bucket_request,Bool.and_eq_true,decide_eq_true_eq,Bool.not_eq_true',Bool.or_eq_true] at exempt
  obtain ⟨⟨⟨-,unvalued⟩,first⟩,single⟩ := exempt
  refine ⟨?_,?_,by simpa using single⟩
  · rcases unvalued with empty | absent
    · simp [empty]
    · simpa using absent
  · intro empty
    rw [empty] at first
    exact first rfl

theorem exempt_route {found : Route} (exempt : is_create_bucket_request request.method request.query request.path)
    (routed : route request.path = some found) : ∃ segment, found = .bucket segment := by
  obtain ⟨-,nonempty,single⟩ := exempt_spec exempt
  rcases route_cases routed with ⟨-,root⟩ | ⟨segment,rfl,-⟩ | ⟨segment,rest,-,named,whole,-,path⟩
  · rw [root] at nonempty
    exact absurd rfl nonempty
  · exact ⟨segment,rfl⟩
  · obtain ⟨c,more,rfl⟩ := List.exists_cons_of_ne_nil named
    have other : c ≠ '/' := fun same => whole (by simp [same])
    rw [path,List.cons_append,Text.trim_start_same,List.cons_append,Text.trim_start_cons other] at single
    simp at single

theorem put_object_operation_creates (params : Params) (copies : Bool) (bucket key created : Text) :
    put_object_operation params copies bucket key ≠ .create_bucket created := by
  unfold put_object_operation
  repeat' split
  all_goals simp

/-- An exempt request is routed to the creation of a bucket when it names no setting and is no object of a virtual
host. -/
theorem exempt_operation {segment bucket : Text}
    (exempt : is_create_bucket_request request.method request.query request.path) (put : request.method = .PUT)
    (routed : route request.path = some (.bucket segment)) (decoded : decode_utf8 segment = some bucket) :
    (∃ created, s3_router request (apply_virtual_host server_host request) = some (.create_bucket created)) ↔
    (∀ piece ∈ splitChars '&' request.query, ∀ name ∈ setting_names, form_decode piece ≠ name.toList) ∧
      (virtual_bucket server_host request.host = none ∨ ∃ piece ∈ splitChars '&' request.query, piece ≠ []) := by
  obtain ⟨unvalued,nonempty,-⟩ := exempt_spec exempt
  have unnamed : (∀ piece ∈ splitChars '&' request.query, ∀ name ∈ setting_names, form_decode piece ≠ name.toList) ↔
      written_setting (parse_query request.query) = none := by
    rw [written_setting_none]
    constructor
    · intro apart name member
      rw [Bool.eq_false_iff]
      intro present
      obtain ⟨piece,inside,decoded⟩ :=
        (contains_key_unvalued unvalued (setting_name_nonempty name member)).mp present
      exact apart piece inside name member decoded
    · intro absent piece inside name member decoded
      have present := (contains_key_unvalued unvalued (setting_name_nonempty name member)).mpr ⟨piece,inside,decoded⟩
      rw [absent name member] at present
      exact absurd present (by decide)
  have empty : parse_query request.query = [] ↔ ¬ ∃ piece ∈ splitChars '&' request.query, piece ≠ [] := by
    simp [parse_query]
  rw [unnamed,s3_router]
  simp only [routed,decoded,put,bucket_operation,Option.bind_some,Option.some.injEq]
  cases named : virtual_bucket server_host request.host with
  | none =>
    have plain : apply_virtual_host server_host request = none := by rw [apply_virtual_host,named]; rfl
    simp only [plain,handle_bucket_put,virtual_host_object_key]
    cases written_setting (parse_query request.query) <;> simp
  | some vb =>
    have hosted : apply_virtual_host server_host request = some ⟨vb,request.path⟩ := by
      rw [apply_virtual_host,named]; rfl
    simp only [hosted,handle_bucket_put,virtual_host_object_key,object_key_from_signature_path,Option.bind_some,
      if_neg nonempty,reduceCtorEq,false_or]
    by_cases bare : parse_query request.query = []
    · have absent := empty.mp bare
      simp only [bare,ne_eq,not_true_eq_false,if_false,absent,and_false,iff_false,not_exists]
      intro created
      exact put_object_operation_creates _ _ _ _ _
    · simp only [bare,ne_eq,not_false_eq_true,if_true]
      have piece := not_not.mp (mt empty.mpr bare)
      cases written_setting (parse_query request.query) <;> simp [piece]

theorem put_spelled {method : Method} (spelled : Text.eq_ignore_ascii_case method.as_str "PUT".toList) :
    method = .PUT ∨ ∃ name own, method = .extension name own := by
  cases method with
  | PUT => exact .inl rfl
  | extension name own => exact .inr ⟨name,own,rfl⟩
  | _ => exact absurd spelled (by decide)

/-- An exempt request that reaches a handler is a PUT on a bucket. -/
theorem exempt_routed {vhost : Option VirtualHostContext} {operation : Operation}
    (exempt : is_create_bucket_request request.method request.query request.path)
    (found : s3_router request vhost = some operation) :
    ∃ segment bucket, request.method = .PUT ∧ route request.path = some (.bucket segment) ∧
      decode_utf8 segment = some bucket := by
  cases routed : route request.path with
  | none => simp [s3_router,routed] at found
  | some place =>
    obtain ⟨segment,rfl⟩ := exempt_route exempt routed
    rw [s3_router] at found
    simp only [routed,Option.bind_eq_some_iff] at found
    obtain ⟨bucket,decoded,found⟩ := found
    refine ⟨segment,bucket,?_,rfl,decoded⟩
    have spelled : Text.eq_ignore_ascii_case request.method.as_str "PUT".toList := by
      simp only [is_create_bucket_request,Bool.and_eq_true] at exempt
      exact exempt.1.1.1
    rcases put_spelled spelled with put | ⟨name,own,other⟩
    · exact put
    · simp [other,bucket_operation] at found

end

/-- A PUT that the policy check takes for the creation of a bucket, and that the router hands to `handle_bucket_put`,
has no parameter that names a setting, and no virtual host unless it has a parameter. -/
def ExemptsOnlyCreation (server_host : Text) (request : Request) : Prop :=
  is_create_bucket_request request.method request.query request.path → request.method = .PUT →
  ∀ segment bucket, route request.path = some (.bucket segment) → decode_utf8 segment = some bucket →
    (∀ piece ∈ splitChars '&' request.query, ∀ name ∈ setting_names, form_decode piece ≠ name.toList) ∧
    (virtual_bucket server_host request.host = none ∨ ∃ piece ∈ splitChars '&' request.query, piece ≠ [])

/-- Skipping the policy for a new bucket means that a bucket is created, and nothing else, exactly when the query
names no setting and the request is no object of a virtual host. -/
theorem exempt_put_only_creates_iff (server_host : Text) (request : Request) :
    (is_create_bucket_request request.method request.query request.path →
      ∀ operation, s3_router request (apply_virtual_host server_host request) = some operation →
        ∃ bucket, operation = .create_bucket bucket) ↔
    ExemptsOnlyCreation server_host request := by
  constructor
  · intro creates exempt put segment bucket routed decoded
    have found : ∃ operation, s3_router request (apply_virtual_host server_host request) = some operation := by
      rw [s3_router]
      simp [routed,decoded,put,bucket_operation]
    obtain ⟨operation,found⟩ := found
    obtain ⟨created,rfl⟩ := creates exempt operation found
    exact (exempt_operation exempt put routed decoded).mp ⟨created,found⟩
  · intro safe exempt operation found
    obtain ⟨segment,bucket,put,routed,decoded⟩ := exempt_routed exempt found
    obtain ⟨created,again⟩ := (exempt_operation exempt put routed decoded).mpr (safe exempt put segment bucket routed decoded)
    rw [found,Option.some.injEq] at again
    exact ⟨created,again⟩

namespace Sample

/-- `PUT /logs?policy`. -/
def put_policy : Request := ⟨.PUT,"/logs".toList,"policy".toList,none,none⟩

end Sample

/-- `PUT /logs?policy` skips the policy of `logs` and replaces it. -/
theorem exempt_put_writes_policy :
    is_create_bucket_request Sample.put_policy.method Sample.put_policy.query Sample.put_policy.path ∧
    s3_router Sample.put_policy (apply_virtual_host "s3.local".toList Sample.put_policy) =
      some (.put_setting .policy "logs".toList) := by
  decide +kernel

end Maxio
