import Maxio.RequestSpec

/-!
Isolation of tenants: which requests can reach a bucket of another tenant.
-/

namespace Maxio

/-- The user is not the administrator, and the bucket, whenever its record is read, belongs to another tenant. -/
structure Foreign (state : AppState) (access_key bucket : Text) : Prop where
  named : is_valid_bucket_name (String.ofList bucket)
  user : state.is_global_admin access_key = false
  tenant : ∀ log record cred, state.bucket_record log bucket = .ok record → state.lookup access_key = some cred →
    effective_tenant_id record.tenant_id (configured_default_tenant state.default_tenant) ≠
      effective_tenant_id cred.tenant_id (configured_default_tenant state.default_tenant)

/-- Reads and writes of a bucket's settings, objects, locks and uploads. The creation of a bucket that exists does
neither, and what the gates read to come to a decision stays with them. -/
def touches (bucket : Text) : Event → Bool
  | .call c => c.bucket = bucket && c.op ≠ .create_bucket
  | .check .get_bucket_encryption read => read = bucket
  | .check .get_bucket_notification read => read = bucket
  | _ => false

/-- No run touches the bucket, and a run that goes through ends with a value that has the property. -/
abbrev Spares {α : Type} (bucket : Text) (Q : α → Prop) (m : Handler α) : Prop :=
  Logs (fun e => touches bucket e = false) Q m

namespace AppState
variable {state : AppState} {spared : Text}

theorem ensure_bucket_exists_spares (bucket : Text) :
    Spares spared (fun _ => True) (state.ensure_bucket_exists bucket) := by
  refine Logs.bind (Logs.reading (by rfl) _ _) fun answer _ => ?_
  split
  · exact .pure trivial
  · exact .fail _
  · exact .fail _

/-- A tenant check that passes has not been made on a bucket of another tenant. -/
theorem ensure_bucket_access_spares {access_key : Text} (foreign : Foreign state access_key spared) (bucket : Text) :
    Spares spared (fun _ => bucket ≠ spared ∧ is_valid_bucket_name (String.ofList bucket))
      (state.ensure_bucket_access access_key bucket) := by
  have found : Spares spared (fun record => ∀ r, record = some r →
      is_valid_bucket_name (String.ofList bucket) ∧ ∃ log, state.bucket_record log bucket = .ok r)
      (state.find_bucket_meta bucket) := by
    have head : Spares spared (fun answer => answer = .ok true → is_valid_bucket_name (String.ofList bucket))
        (state.head_bucket bucket) := by
      intro log
      refine ⟨[.check .head_bucket bucket],rfl,by simp [touches],?_⟩
      rintro answer ⟨⟩ exists_
      by_contra invalid
      simp [validate_bucket_name,invalid,Except.bind] at exists_
    have record : Spares spared (fun answer => ∀ r, answer = .ok r → ∃ log, state.bucket_record log bucket = .ok r)
        (state.get_bucket_meta bucket) := by
      intro log
      refine ⟨[.check .get_bucket_meta bucket],rfl,by simp [touches],?_⟩
      rintro answer ⟨⟩ r read
      refine ⟨log,?_⟩
      cases valid : validate_bucket_name (String.ofList bucket) with
      | error e => simp [valid,Except.bind] at read
      | ok _ => simpa [valid,Except.bind] using read
    refine Logs.bind head fun answer named => ?_
    split
    · exact .pure (by simp)
    · exact .pure (by simp)
    · exact .fail _
    · refine Logs.bind record fun answer read => ?_
      split
      next r => exact .pure fun r' same => ⟨named rfl,read r' (by simpa using same)⟩
      · exact .pure (by simp)
      · exact .pure (by simp)
      · exact .fail _
  refine Logs.bind found fun record known => ?_
  cases record with
  | none => exact .fail _
  | some r =>
    obtain ⟨valid,log,read⟩ := known r rfl
    simp only
    split
    next allowed =>
      refine .pure ⟨?_,valid⟩
      rintro rfl
      simp only [bucket_access_allowed,foreign.user,Bool.false_eq_true,if_false] at allowed
      cases cred : state.lookup access_key with
      | none => simp [cred] at allowed
      | some cred' =>
        simp only [cred,decide_eq_true_eq] at allowed
        exact foreign.tenant log r cred' read cred allowed
    · exact .fail _

theorem enforce_policy_target_spares (target : BucketPolicyTarget) (access_key : Option Text) (client_ip : Text) :
    Spares spared (fun _ => is_valid_bucket_name (String.ofList target.bucket))
      (state.enforce_policy_target target access_key client_ip) := by
  refine (state.enforce_policy_target_emits target access_key client_ip).mono ?_
  intro new r judgement
  refine ⟨?_,fun _ passed => judgement.named passed⟩
  rcases judgement.logged with rfl | ⟨decision,rfl⟩ <;> simp [touches]

theorem enforce_bucket_policy_for_target_spares (target : Option BucketPolicyTarget) (access_key : Option Text)
    (client_ip : Text) :
    Spares spared (fun _ => ∀ t, target = some t → is_valid_bucket_name (String.ofList t.bucket))
      (state.enforce_bucket_policy_for_target target access_key client_ip) := by
  cases target with
  | none => exact .pure (by simp)
  | some target =>
    refine (enforce_policy_target_spares target access_key client_ip).mono ?_
    rintro _ named t ⟨⟩
    exact named

section Handlers
variable {request : Request} {message : Message} {ctx : S3RequestContext} {access_key : Text}
  (principal : ctx.principal = some access_key) (foreign : Foreign state access_key spared)
include principal foreign

theorem tenant_spares (bucket : Text) : Spares spared (fun _ => bucket ≠ spared)
    (state.enforce_tenant_bucket ctx bucket) := by
  rw [enforce_tenant_bucket,principal]
  exact (ensure_bucket_access_spares foreign bucket).mono fun _ passed => passed.1

theorem gates_spare (host : Option Text) (method : Method) (bucket : Text) (object_key : Option Text)
    (params : Params) : Spares spared (fun _ => bucket ≠ spared)
      (state.enforce_s3_bucket_gates host ctx method bucket object_key params) := by
  refine Logs.bind (tenant_spares principal foreign bucket) fun _ other => ?_
  exact (enforce_bucket_policy_for_target_spares _ _ _).mono fun _ _ => other

theorem copy_source_gates_spare (host : Option Text) (src_bucket src_key : Text) :
    Spares spared (fun _ => src_bucket ≠ spared) (state.enforce_copy_source_gates host ctx src_bucket src_key) := by
  refine Logs.bind (tenant_spares principal foreign src_bucket) fun _ other => ?_
  exact (enforce_bucket_policy_for_target_spares _ _ _).mono fun _ _ => other

theorem copy_gates_spare (bucket key : Text) :
    Spares spared (fun source => bucket ≠ spared ∧ source.1 ≠ spared) (state.copy_gates request ctx bucket key) := by
  refine Logs.bind (gates_spare principal foreign _ _ _ _ _) fun _ other => ?_
  refine Logs.bind (.lift _) fun source _ => ?_
  refine Logs.bind (copy_source_gates_spare principal foreign _ _ _) fun _ away => ?_
  exact .pure ⟨other,away⟩

/-! Handlers that gate themselves. -/

theorem get_bucket_spares (read : BucketRead) (bucket : Text) :
    Spares spared (fun _ => True) (state.get_bucket ctx read bucket) := by
  refine Logs.bind (tenant_spares principal foreign bucket) fun _ other => ?_
  refine Logs.bind (ensure_bucket_exists_spares bucket) fun _ _ => ?_
  split
  · exact Logs.bind (Logs.call (by simp [touches,other])) fun _ _ => .pure trivial
  · exact .pure trivial

theorem head_bucket_handler_spares (bucket : Text) :
    Spares spared (fun _ => True) (state.head_bucket_handler ctx bucket) := by
  refine Logs.bind (tenant_spares principal foreign bucket) fun _ other => ?_
  refine Logs.bind (ensure_bucket_exists_spares bucket) fun _ _ => ?_
  exact Logs.bind (Logs.call (by simp [touches,other])) fun _ _ => .pure trivial

theorem delete_objects_spares (bucket : Text) :
    Spares spared (fun _ => True) (state.delete_objects request message ctx bucket) := by
  refine Logs.bind (ensure_bucket_exists_spares bucket) fun _ _ => ?_
  refine Logs.bind (gates_spare principal foreign _ _ _ _ _) fun _ other => ?_
  refine Logs.bind (.lift _) fun _ _ => ?_
  split
  · exact .fail _
  · refine Logs.bind (.each fun key _ => (gates_spare principal foreign _ _ _ _ _).mono fun _ _ => trivial) fun _ _ => ?_
    refine Logs.bind (.each fun key _ => ?_) fun _ _ => .pure trivial
    exact Logs.bind (Logs.attempt_call (by simp [touches,other])) fun _ _ => .pure trivial

omit principal foreign in
theorem default_encryption_spares {bucket : Text} (other : bucket ≠ spared) :
    Spares spared (fun _ => True) (state.default_encryption message bucket) := by
  unfold default_encryption
  split
  · exact .pure trivial
  · exact Logs.bind (Logs.reading (by simpa [touches] using other) _ _) fun _ _ => .pure trivial

omit principal foreign in
theorem require_default_encryption_spares {bucket : Text} (other : bucket ≠ spared) :
    Spares spared (fun _ => True) (state.require_default_encryption message bucket) := by
  unfold require_default_encryption
  split
  · exact .pure trivial
  · refine Logs.bind (Logs.reading (by simpa [touches] using other) _ _) fun answer _ => ?_
    rcases answer with e | _
    · exact .fail _
    · exact .pure trivial

theorem upload_part_copy_spares (bucket key : Text) :
    Spares spared (fun _ => True) (state.upload_part_copy request message ctx bucket key) := by
  refine Logs.bind (copy_gates_spare principal foreign bucket key) fun source away => ?_
  refine Logs.bind (.lift _) fun _ _ => ?_
  refine Logs.bind (ensure_bucket_exists_spares bucket) fun _ _ => ?_
  refine Logs.bind (Logs.call (by simp [touches,away.2])) fun _ _ => ?_
  refine Logs.bind (.lift _) fun _ _ => Logs.bind (.lift _) fun _ _ => ?_
  refine Logs.bind (Logs.call (by simp [touches,away.2])) fun _ _ => ?_
  exact Logs.bind (Logs.call (by simp [touches,away.1])) fun _ _ => .pure trivial

theorem copy_object_spares (bucket key : Text) :
    Spares spared (fun _ => True) (state.copy_object request message ctx bucket key) := by
  refine Logs.bind (copy_gates_spare principal foreign bucket key) fun source away => ?_
  refine Logs.bind (ensure_bucket_exists_spares bucket) fun _ _ => Logs.bind (.lift _) fun _ _ => ?_
  refine Logs.bind (Logs.call (by simp [touches,away.2])) fun _ _ => ?_
  refine Logs.bind (.lift _) fun _ _ => Logs.bind (.lift _) fun _ _ => ?_
  refine Logs.bind (default_encryption_spares away.1) fun _ _ => ?_
  refine Logs.bind (Logs.call (by simp [touches,away.1])) fun _ _ => ?_
  exact Logs.bind (Logs.call (by simp [touches,away.1])) fun _ _ => .pure trivial

theorem put_object_spares (bucket key : Text) :
    Spares spared (fun _ => True) (state.put_object request message ctx bucket key) := by
  refine Logs.bind (ensure_bucket_exists_spares bucket) fun _ _ => ?_
  refine Logs.bind (gates_spare principal foreign _ _ _ _ _) fun _ other => ?_
  refine Logs.bind (.lift _) fun _ _ => Logs.bind (.lift _) fun _ _ => ?_
  refine Logs.bind (require_default_encryption_spares other) fun _ _ => ?_
  refine Logs.bind (Logs.call (by simp [touches,other])) fun _ _ => ?_
  exact Logs.bind (Logs.reading (by simpa [touches] using other) _ _) fun _ _ => .pure trivial

omit principal foreign in
theorem get_range_spares {bucket : Text} (other : bucket ≠ spared) (key : Text) :
    Spares spared (fun _ => True) (state.get_range message bucket key) := by
  unfold get_range
  split
  · exact .pure trivial
  · refine Logs.bind (Logs.call (by simp [touches,other])) fun _ _ => ?_
    split
    · exact .pure trivial
    · exact .fail _
    · split
      · exact Logs.bind (Logs.call (by simp [touches,other])) fun _ _ => .pure trivial
      · exact .fail _
      · exact .pure trivial

omit principal foreign in
theorem conditional_response_spares (bucket key : Text) :
    Spares spared (fun _ => True) (conditional_response message bucket key) := by
  unfold conditional_response
  split
  · exact .fail _
  · exact .pure trivial

omit principal foreign in
theorem get_bytes_spares {bucket : Text} (other : bucket ≠ spared) (key : Text) :
    Spares spared (fun _ => True) (state.get_bytes request message bucket key) := by
  refine Logs.bind (.lift _) fun _ _ => ?_
  split
  · split
    · exact .fail _
    · refine Logs.bind (Logs.call (by simp [touches,other])) fun _ _ => Logs.bind (.lift _) fun _ _ => ?_
      exact Logs.bind (Logs.call (by simp [touches,other])) fun _ _ => .pure trivial
  · refine Logs.bind (get_range_spares other key) fun served _ => ?_
    cases served with
    | some response => exact .pure trivial
    | none =>
      exact Logs.bind (Logs.call (by simp [touches,other])) fun _ _ => conditional_response_spares bucket key

theorem get_object_spares (read : ObjectRead) (bucket key : Text) :
    Spares spared (fun _ => True) (state.get_object request message ctx read bucket key) := by
  refine Logs.bind (gates_spare principal foreign _ _ _ _ _) fun _ other => ?_
  cases read with
  | parts =>
    refine Logs.bind (ensure_bucket_exists_spares bucket) fun _ _ => ?_
    exact Logs.bind (Logs.call (by simp [touches,other])) fun _ _ => .pure trivial
  | bytes => exact get_bytes_spares other key
  | _ => exact Logs.bind (Logs.call (by simp [touches,other])) fun _ _ => .pure trivial

theorem head_object_spares (bucket key : Text) :
    Spares spared (fun _ => True) (state.head_object request message ctx bucket key) := by
  refine Logs.bind (gates_spare principal foreign _ _ _ _ _) fun _ other => ?_
  refine Logs.bind (Logs.call (by simp [touches,other])) fun _ _ => ?_
  split
  · exact Logs.bind (.lift _) fun _ _ => .pure trivial
  · exact conditional_response_spares bucket key

theorem delete_object_spares (bucket key : Text) :
    Spares spared (fun _ => True) (state.delete_object request ctx bucket key) := by
  refine Logs.bind (ensure_bucket_exists_spares bucket) fun _ _ => ?_
  refine Logs.bind (gates_spare principal foreign _ _ _ _ _) fun _ other => ?_
  split
  · exact Logs.bind (Logs.call (by simp [touches,other])) fun _ _ => .pure trivial
  · refine Logs.bind (Logs.call (by simp [touches,other])) fun _ _ => ?_
    exact Logs.bind (Logs.reading (by simpa [touches] using other) _ _) fun _ _ => .pure trivial

theorem post_object_spares (post : ObjectPost) (bucket key : Text) :
    Spares spared (fun _ => True) (state.post_object request message ctx post bucket key) := by
  refine Logs.bind (gates_spare principal foreign _ _ _ _ _) fun _ other => ?_
  cases post with
  | create_upload =>
    refine Logs.bind (ensure_bucket_exists_spares bucket) fun _ _ => Logs.bind (.lift _) fun _ _ => ?_
    refine Logs.bind (default_encryption_spares other) fun _ _ => ?_
    exact Logs.bind (Logs.call (by simp [touches,other])) fun _ _ => .pure trivial
  | complete_upload =>
    refine Logs.bind (ensure_bucket_exists_spares bucket) fun _ _ => ?_
    refine Logs.bind (.lift _) fun _ _ => Logs.bind (.lift _) fun _ _ => ?_
    exact Logs.bind (Logs.call (by simp [touches,other])) fun _ _ => .pure trivial
  | unsupported => exact .fail _

end Handlers

/-! Handlers that rely on the middleware. -/

/-- The bucket a handler touches without a tenant check of its own. The upload of a part gets that far only with a
part number. -/
def ungated (request : Request) : Operation → Option Text
  | .put_setting _ bucket | .delete_setting _ bucket | .delete_bucket bucket | .put_retention bucket _
  | .put_legal_hold bucket _ | .put_tagging bucket _ | .delete_tagging bucket _ | .abort_upload bucket _ => some bucket
  | .upload_part bucket _ => if (part_number (parse_query request.query)).toBool then some bucket else none
  | _ => none

section
variable {request : Request} {message : Message}

theorem put_setting_spares {bucket : Text} (other : bucket ≠ spared) (setting : Setting) :
    Spares spared (fun _ => True) (state.put_setting message setting bucket) := by
  refine Logs.bind (ensure_bucket_exists_spares bucket) fun _ _ => Logs.bind (.lift _) fun _ _ => ?_
  exact Logs.bind (Logs.call (by simp [touches,other])) fun _ _ => .pure trivial

theorem delete_setting_spares {bucket : Text} (other : bucket ≠ spared) (setting : Setting) :
    Spares spared (fun _ => True) (state.delete_setting setting bucket) := by
  have looked : Spares spared (fun _ => True) (state.ensure_setting_exists setting bucket) := by
    unfold ensure_setting_exists
    split
    · exact Logs.call (by simp [touches,other])
    · exact .pure trivial
  refine Logs.bind (ensure_bucket_exists_spares bucket) fun _ _ => Logs.bind looked fun _ _ => ?_
  exact Logs.bind (Logs.call (by simp [touches,other])) fun _ _ => .pure trivial

theorem put_object_property_spares {bucket : Text} (other : bucket ≠ spared) (op : Op) (key : Text) :
    Spares spared (fun _ => True) (state.put_object_property message op bucket key) := by
  refine Logs.bind (.lift _) fun _ _ => ?_
  exact Logs.bind (Logs.call (by simp [touches,other])) fun _ _ => .pure trivial

theorem upload_part_spares {bucket : Text}
    (other : (part_number (parse_query request.query)).toBool → bucket ≠ spared) :
    Spares spared (fun _ => True) (state.upload_part request message bucket) := by
  refine Logs.bind (ensure_bucket_exists_spares bucket) fun _ _ => ?_
  cases number : part_number (parse_query request.query) with
  | error e => exact Logs.bind (.fail e) fun _ (impossible : False) => impossible.elim
  | ok n =>
    have away : bucket ≠ spared := other (by rw [number]; rfl)
    refine Logs.bind (.lift _) fun _ _ => Logs.bind (.lift _) fun _ _ => ?_
    exact Logs.bind (Logs.call (by simp [touches,away])) fun _ _ => .pure trivial

end

/-- A handler spares a bucket of another tenant unless it relies on the middleware for it. -/
theorem handle_spares {request : Request} {message : Message} {ctx : S3RequestContext} {access_key : Text}
    (principal : ctx.principal = some access_key) (foreign : Foreign state access_key spared) (operation : Operation)
    (away : ungated request operation ≠ some spared) :
    Spares spared (fun _ => True) (state.handle request message ctx operation) := by
  cases operation with
  | list_buckets =>
    rw [handle,principal]
    exact .pure trivial
  | options => exact .pure trivial
  | create_bucket bucket =>
    rw [handle,create_bucket,principal]
    exact Logs.bind (.lift _) fun _ _ => Logs.bind (Logs.call (by simp [touches])) fun _ _ => .pure trivial
  | head_bucket bucket => exact head_bucket_handler_spares principal foreign bucket
  | delete_bucket bucket =>
    have other : bucket ≠ spared := fun same => away (by simp [ungated,same])
    exact Logs.bind (Logs.call (by simp [touches,other])) fun _ _ => .pure trivial
  | put_setting setting bucket => exact put_setting_spares (fun same => away (by simp [ungated,same])) setting
  | delete_setting setting bucket => exact delete_setting_spares (fun same => away (by simp [ungated,same])) setting
  | get_bucket read bucket => exact get_bucket_spares principal foreign read bucket
  | delete_objects bucket => exact delete_objects_spares principal foreign bucket
  | put_retention bucket key => exact put_object_property_spares (fun same => away (by simp [ungated,same])) _ key
  | put_legal_hold bucket key => exact put_object_property_spares (fun same => away (by simp [ungated,same])) _ key
  | put_tagging bucket key => exact put_object_property_spares (fun same => away (by simp [ungated,same])) _ key
  | upload_part bucket key => exact upload_part_spares fun numbered same => away (by simp [ungated,same,numbered])
  | upload_part_copy bucket key => exact upload_part_copy_spares principal foreign bucket key
  | copy_object bucket key => exact copy_object_spares principal foreign bucket key
  | put_object bucket key => exact put_object_spares principal foreign bucket key
  | get_object read bucket key => exact get_object_spares principal foreign read bucket key
  | head_object bucket key => exact head_object_spares principal foreign bucket key
  | delete_tagging bucket key =>
    have other : bucket ≠ spared := fun same => away (by simp [ungated,same])
    exact Logs.bind (Logs.call (by simp [touches,other])) fun _ _ => .pure trivial
  | abort_upload bucket key =>
    have other : bucket ≠ spared := fun same => away (by simp [ungated,same])
    refine Logs.bind (ensure_bucket_exists_spares bucket) fun _ _ => ?_
    exact Logs.bind (Logs.call (by simp [touches,other])) fun _ _ => .pure trivial
  | delete_object bucket key => exact delete_object_spares principal foreign bucket key
  | post_object post bucket key => exact post_object_spares principal foreign post bucket key

theorem ungated_bucket {request : Request} {operation : Operation} {bucket : Text}
    (relies : ungated request operation = some bucket) : operation.bucket = some bucket := by
  cases operation <;> simp_all [ungated,Operation.bucket]

/-- What the middleware has made sure of when it lets a user's request pass. -/
theorem authorise_spares {request : Request} {message : Message} {vhost : Option VirtualHostContext} {access_key : Text}
    (foreign : Foreign state access_key spared) :
    Spares spared (fun _ =>
      (∀ bucket, plan_tenant_scope state.server_host request vhost = some bucket →
        bucket ≠ spared ∧ is_valid_bucket_name (String.ofList bucket)) ∧
      ∀ target, bucket_policy_target_for_request state.server_host request vhost = some target →
        is_valid_bucket_name (String.ofList target.bucket))
      (state.authorise request message vhost (some access_key)) := by
  have scope : Spares spared (fun _ => ∀ bucket, plan_tenant_scope state.server_host request vhost = some bucket →
      bucket ≠ spared ∧ is_valid_bucket_name (String.ofList bucket))
      (state.enforce_tenant_scope request vhost (some access_key)) := by
    unfold enforce_tenant_scope
    cases plan_tenant_scope state.server_host request vhost with
    | none => exact .pure (by simp)
    | some bucket =>
      refine (ensure_bucket_access_spares foreign bucket).mono ?_
      rintro _ passed _ ⟨⟩
      exact passed
  refine Logs.bind scope fun _ checked => ?_
  exact (enforce_bucket_policy_for_target_spares _ _ _).mono fun _ judged => ⟨checked,judged⟩

end AppState

open AppState (ungated)

/-- A request that is handed to a handler without a tenant check of its own is not taken for the creation of a bucket,
or it is refused because its bucket segment, as sent, is no bucket name; and its host names no other bucket. -/
def TenantChecked (server_host : Text) (request : Request) : Prop :=
  ∀ operation bucket, s3_router request (apply_virtual_host server_host request) = some operation →
    ungated request operation = some bucket → is_valid_bucket_name (String.ofList bucket) →
    (is_create_bucket request.method request.query = false ∨
      (is_create_bucket_request request.method request.query request.path = false ∧
        virtual_bucket server_host request.host = none ∧ judged_bucket server_host request ≠ bucket)) ∧
    ∀ named, virtual_bucket server_host request.host = some named → named = bucket

section
variable {server_host : Text} {request : Request}

/-- A PUT below a bucket is judged by the policy of the judged bucket. -/
theorem put_policy_target (put : request.method = .PUT) (named : judged_bucket server_host request ≠ [])
    (plain : virtual_bucket server_host request.host = none)
    (other : is_create_bucket_request request.method request.query request.path = false) :
    ∃ target, bucket_policy_target_for_request server_host request (apply_virtual_host server_host request) =
      some target ∧ target.bucket = judged_bucket server_host request := by
  have extracted : ∃ pair, extract_bucket_and_key server_host request.path request.host
      ((apply_virtual_host server_host request).map VirtualHostContext.signature_path) = some pair := by
    rw [judged_bucket,plain,Option.getD_none] at named
    have trimmed : Text.trim_start '/' request.path ≠ [] := by
      intro empty
      rw [empty] at named
      exact named rfl
    rw [extract_bucket_and_key,plain]
    simp only [if_neg trimmed]
    cases Text.split_once '/' (Text.trim_start '/' request.path) with
    | none => exact ⟨_,rfl⟩
    | some pair => exact ⟨_,rfl⟩
  have acted : ∀ has_object_key, s3_action_for_request request.method request.query has_object_key =
      some "s3:PutObject" := by
    intro has_object_key
    rw [put,s3_action_for_request]
    split <;> rfl
  obtain ⟨pair,extracted⟩ := extracted
  have found : ∃ target, bucket_policy_target_for_request server_host request (apply_virtual_host server_host request) =
      some target := by
    rw [bucket_policy_target_for_request,resolve_policy_target_from_parts,other]
    simp only [Bool.false_eq_true,if_false,extracted,Option.bind_some,acted,Option.map_some]
    exact ⟨_,rfl⟩
  obtain ⟨target,found⟩ := found
  exact ⟨target,found,policy_target_bucket found⟩

/-- A checked request does not get past the middleware to touch a bucket of another tenant. -/
theorem checked_bucket_spared {spared : Text} {operation : Operation} (checked : TenantChecked server_host request)
    (valid : is_valid_bucket_name (String.ofList spared))
    (found : s3_router request (apply_virtual_host server_host request) = some operation)
    (planned : ∀ bucket, plan_tenant_scope server_host request (apply_virtual_host server_host request) = some bucket →
      bucket ≠ spared ∧ is_valid_bucket_name (String.ofList bucket))
    (judged : ∀ target, bucket_policy_target_for_request server_host request (apply_virtual_host server_host request) =
      some target → is_valid_bucket_name (String.ofList target.bucket)) :
    ungated request operation ≠ some spared := by
  intro relies
  have handed := AppState.ungated_bucket relies
  obtain ⟨segment,bucket,routed⟩ := routed_of_router found (by simp [handed])
  obtain ⟨skipped,agrees⟩ := checked operation spared found relies valid
  have named : judged_bucket server_host request ≠ [] := by
    rw [judged_bucket,routed.first]
    cases host : virtual_bucket server_host request.host with
    | none => exact routed.named
    | some vb => exact (virtual_bucket_nonempty host).1
  -- a judged bucket with a valid name is the handler's bucket
  have same : is_valid_bucket_name (String.ofList (judged_bucket server_host request)) →
      judged_bucket server_host request = spared := by
    intro valid
    cases host : virtual_bucket server_host request.host with
    | some vb =>
      rw [judged_bucket,host]
      exact agrees vb host
    | none =>
      obtain ⟨first,given,decoded⟩ := routed.bucket_eq host
      rw [first] at valid ⊢
      rw [given,Option.some.injEq] at handed
      rw [← handed]
      exact (decoded valid).symm
  by_cases creates : is_create_bucket request.method request.query = false
  · have scope := planned _ (plan_tenant_scope_planned routed.below named creates)
    exact scope.1 (same scope.2)
  · obtain ⟨other,plain,apart⟩ := skipped.resolve_left creates
    have put : request.method = .PUT := by
      by_contra not_put
      exact creates (by simp [is_create_bucket,not_put])
    obtain ⟨target,made,bucket_eq⟩ := put_policy_target put named plain other
    have valid := judged target made
    rw [bucket_eq] at valid
    exact apart (same valid)

end

/-- No request of a user touches a bucket of another tenant: a tenant check turns it away first. -/
def Isolates (state : AppState) (request : Request) (message : Message) (bucket : Text) : Prop :=
  ∀ access_key log,
    state.authenticate request message (apply_virtual_host state.server_host request) [] = (.ok (some access_key),log) →
    Foreign state access_key bucket → ∀ e ∈ (state.auth_middleware request message []).2, touches bucket e = false

/-- To tell who makes a request, only the flags of a public bucket are read. -/
theorem authenticate_logs {state : AppState} {request : Request} {message : Message}
    {vhost : Option VirtualHostContext} {P : Event → Prop} (flags : ∀ bucket, P (.check .get_bucket_public bucket)) :
    Logs P (fun _ => True) (state.authenticate request message vhost) := by
  have signed : Logs P (fun _ => True) (state.signed_by message) := by
    refine Logs.bind (.lift _) fun access_key _ => ?_
    split
    · exact .fail _
    · exact .pure trivial
  have bypass : Logs P (fun _ => True) (state.public_bypass request message vhost) := by
    unfold AppState.public_bypass
    split
    · exact .pure trivial
    unfold AppState.is_public_bypass_allowed
    split
    · exact .pure trivial
    split
    · exact .pure trivial
    split
    · exact .pure trivial
    split
    · exact .pure trivial
    · refine Logs.bind (Logs.reading (flags _) _ _) fun answer _ => ?_
      rcases answer with e | ⟨public_read,public_list⟩
      · exact .pure trivial
      · exact .pure trivial
  unfold AppState.authenticate
  split
  · exact Logs.bind signed fun _ _ => .pure trivial
  · refine Logs.bind bypass fun passed _ => ?_
    split
    · exact .pure trivial
    · split
      · exact .fail _
      · exact Logs.bind signed fun _ _ => .pure trivial

theorem isolates_of_checked {state : AppState} {request : Request} (checked : TenantChecked state.server_host request)
    (message : Message) (bucket : Text) : Isolates state request message bucket := by
  intro access_key log authenticated foreign
  have quiet : ∀ e ∈ log, touches bucket e = false := by
    have read : Spares bucket (fun _ => True)
        (state.authenticate request message (apply_virtual_host state.server_host request)) :=
      authenticate_logs fun _ => rfl
    obtain ⟨new,added,spared,-⟩ := read []
    rw [authenticated] at added
    obtain rfl : log = new := by simpa using added
    exact spared
  have rest : Spares bucket (fun _ => True)
      (state.finalize_s3_request request message (apply_virtual_host state.server_host request) (some access_key)) := by
    refine Logs.bind (AppState.authorise_spares foreign) fun _ passed => ?_
    unfold AppState.respond
    simp only
    cases found : s3_router request (apply_virtual_host state.server_host request) with
    | none => exact .fail _
    | some operation =>
      exact AppState.handle_spares rfl foreign operation
        (checked_bucket_spared checked foreign.named found passed.1 passed.2)
  have run : state.auth_middleware request message [] = state.finalize_s3_request request message
      (apply_virtual_host state.server_host request) (some access_key) log := Prog.bind_of_ok authenticated
  obtain ⟨new,added,spared,-⟩ := rest log
  rw [run,added]
  intro e member
  rcases List.mem_append.mp member with early | late
  · exact quiet e early
  · exact spared e late

/-! ### A server on which an unchecked request gets through -/

namespace Sample

/-- A request signed by `alice`, all of whose headers and body are accepted. -/
def message : Message where
  authorization := true
  signature := .ok "alice".toList
  client_ip := []
  forwarded_ip := []
  parse := fun _ => .ok ()
  asks_encryption := true
  delete_keys := ["k".toList]
  range := .absent
  conditions := .met

section
variable (server_host : Text) {tenant : Text → String} (policy : Option String) {bucket : Text}

theorem validate_valid (valid : is_valid_bucket_name (String.ofList bucket)) :
    validate_bucket_name (String.ofList bucket) = .ok () := by
  rw [validate_bucket_name,if_pos valid]

theorem server_exists (valid : is_valid_bucket_name (String.ofList bucket)) (log : List Event) :
    (server server_host tenant policy).ensure_bucket_exists bucket log = (.ok (),log ++ [.check .head_bucket bucket]) := by
  have read : (server server_host tenant policy).head_bucket bucket log =
      (.ok (.ok true),log ++ [.check .head_bucket bucket]) := by
    rw [AppState.head_bucket,AppState.reading,validate_valid valid]
    rfl
  rw [AppState.ensure_bucket_exists,Prog.bind_of_ok read]
  rfl

theorem server_call (c : Call) (log : List Event) :
    (server server_host tenant policy).call c log = (.ok (),log ++ [.call c]) := rfl

theorem server_access {access_key : Text} (valid : is_valid_bucket_name (String.ofList bucket))
    (own : tenant bucket = "blue") (log : List Event) :
    ∃ log', (server server_host tenant policy).ensure_bucket_access access_key bucket log = (.ok (),log') := by
  have head : (server server_host tenant policy).head_bucket bucket log =
      (.ok (.ok true),log ++ [.check .head_bucket bucket]) := by
    rw [AppState.head_bucket,AppState.reading,validate_valid valid]
    rfl
  have read : ∀ log, (server server_host tenant policy).get_bucket_meta bucket log =
      (.ok (.ok (bucketOf (some (tenant bucket)) policy)),log ++ [.check .get_bucket_meta bucket]) := by
    intro log
    rw [AppState.get_bucket_meta,AppState.reading,validate_valid valid]
    rfl
  have found : (server server_host tenant policy).find_bucket_meta bucket log =
      (.ok (some (bucketOf (some (tenant bucket)) policy)),
        log ++ [.check .head_bucket bucket] ++ [.check .get_bucket_meta bucket]) := by
    rw [AppState.find_bucket_meta,Prog.bind_of_ok head]
    simp only
    rw [Prog.bind_of_ok (read _)]
    rfl
  have allowed : (server server_host tenant policy).bucket_access_allowed (bucketOf (some (tenant bucket)) policy)
      access_key ((server server_host tenant policy).lookup access_key) = true := by
    rw [own]
    unfold AppState.bucket_access_allowed
    split
    · rfl
    · rfl
  refine ⟨log ++ [.check .head_bucket bucket] ++ [.check .get_bucket_meta bucket],?_⟩
  rw [AppState.ensure_bucket_access,Prog.bind_of_ok found]
  simp only [allowed,if_true]
  rfl

theorem server_judges {target : BucketPolicyTarget} {access_key : Option Text} (client_ip : Text)
    (valid : is_valid_bucket_name (String.ofList target.bucket)) (log : List Event) :
    ∃ log', (server server_host tenant policy).enforce_policy_target target access_key client_ip log = (.ok (),log') := by
  have read : (server server_host tenant policy).get_bucket_policy target log =
      (.ok (.ok policy),log ++ [.judged target]) := by
    rw [AppState.get_bucket_policy_run,validate_valid valid]
    rfl
  rw [AppState.enforce_policy_target,Prog.bind_of_ok read]
  cases policy with
  | none => exact ⟨_,rfl⟩
  | some text => exact ⟨_,rfl⟩

theorem server_authenticates (tenant : Text → String) (request : Request) (vhost : Option VirtualHostContext) :
    (server server_host tenant policy).authenticate request message vhost [] = (.ok (some "alice".toList),[]) := by
  have signed : (server server_host tenant policy).signed_by message [] = (.ok "alice".toList,[]) := rfl
  unfold AppState.authenticate
  split
  · rw [Prog.bind_of_ok signed]
    rfl
  · have bypass : (server server_host tenant policy).public_bypass request message vhost [] = (.ok false,[]) := rfl
    rw [Prog.bind_of_ok bypass]
    simp only [Bool.false_eq_true,if_false,message,Bool.not_true]
    exact Prog.bind_of_ok signed

/-- On the sample server a handler without a check of its own reaches its bucket. -/
theorem server_touches (tenant : Text → String) {request : Request} {ctx : S3RequestContext} {operation : Operation}
    (valid : is_valid_bucket_name (String.ofList bucket)) (relies : ungated request operation = some bucket)
    (log : List Event) :
    ∃ e ∈ ((server server_host tenant policy).handle request message ctx operation log).2, touches bucket e = true := by
  have put_property : ∀ op key, op ≠ .create_bucket →
      ∃ e ∈ ((server server_host tenant policy).put_object_property message op bucket key log).2,
        touches bucket e = true := by
    intro op key other
    refine ⟨.call ⟨op,bucket,some key,.path⟩,?_,by simp [touches,other]⟩
    simp [AppState.put_object_property,message,Prog.bind_apply,server_call]
  cases operation with
  | put_setting setting b =>
    obtain rfl : b = bucket := by simpa [ungated] using relies
    refine ⟨.call ⟨.put_setting setting,b,none,.path⟩,?_,by simp [touches]⟩
    rw [AppState.handle,AppState.put_setting,Prog.bind_of_ok (server_exists server_host policy valid log)]
    simp [message,Prog.bind_apply,server_call]
  | delete_setting setting b =>
    obtain rfl : b = bucket := by simpa [ungated] using relies
    refine ⟨.call ⟨.delete_setting setting,b,none,.path⟩,?_,by simp [touches]⟩
    rw [AppState.handle,AppState.delete_setting,Prog.bind_of_ok (server_exists server_host policy valid log),
      AppState.ensure_setting_exists]
    split <;> simp [Prog.bind_apply,server_call]
  | delete_bucket b =>
    obtain rfl : b = bucket := by simpa [ungated] using relies
    refine ⟨.call ⟨.delete_bucket,b,none,.path⟩,?_,by simp [touches]⟩
    simp [AppState.handle,Prog.bind_apply,server_call]
  | put_retention b key =>
    obtain rfl : b = bucket := by simpa [ungated] using relies
    exact put_property _ key (by simp)
  | put_legal_hold b key =>
    obtain rfl : b = bucket := by simpa [ungated] using relies
    exact put_property _ key (by simp)
  | put_tagging b key =>
    obtain rfl : b = bucket := by simpa [ungated] using relies
    exact put_property _ key (by simp)
  | upload_part b key =>
    simp only [ungated] at relies
    split at relies
    swap
    · simp at relies
    next numbered =>
      obtain rfl : b = bucket := by simpa using relies
      refine ⟨.call ⟨.upload_part,b,none,.path⟩,?_,by simp [touches]⟩
      rw [AppState.handle,AppState.upload_part,Prog.bind_of_ok (server_exists server_host policy valid log)]
      cases number : part_number (parse_query request.query) with
      | error e => simp [number,Except.toBool] at numbered
      | ok n => simp [message,Prog.bind_apply,server_call]
  | delete_tagging b key =>
    obtain rfl : b = bucket := by simpa [ungated] using relies
    refine ⟨.call ⟨.delete_object_tagging,b,some key,.path⟩,?_,by simp [touches]⟩
    simp [AppState.handle,Prog.bind_apply,server_call]
  | abort_upload b key =>
    obtain rfl : b = bucket := by simpa [ungated] using relies
    refine ⟨.call ⟨.abort_multipart_upload,b,none,.path⟩,?_,by simp [touches]⟩
    rw [AppState.handle,AppState.abort_upload,Prog.bind_of_ok (server_exists server_host policy valid log)]
    simp [Prog.bind_apply,server_call]
  | _ => simp [ungated] at relies

end

/-- Every bucket but one belongs to the tenant of the users. -/
def tenantBut (bucket : Text) : Text → String := fun other => if other = bucket then "red" else "blue"

theorem foreign_bucket {server_host bucket : Text} {policy : Option String}
    (valid : is_valid_bucket_name (String.ofList bucket)) :
    Foreign (server server_host (tenantBut bucket) policy) "alice".toList bucket := by
  refine ⟨valid,(by decide : ("alice".toList = "admin:bearer".toList || "alice".toList = "root".toList) = false),?_⟩
  rintro log record cred read known
  have owner : record = bucketOf (some (tenantBut bucket bucket)) policy := by simpa [server] using read.symm
  have user : cred = ⟨some "blue"⟩ := by simpa [server] using known.symm
  rw [owner,user,tenantBut,if_pos rfl]
  simp [bucketOf,effective_tenant_id]

end Sample

section
variable {server_host : Text} {request : Request}

/-- A request that is not checked gets past the middleware of the sample server. -/
theorem unchecked_authorised {bucket : Text}
    (valid : is_valid_bucket_name (String.ofList bucket))
    (unchecked : (is_create_bucket request.method request.query = true ∧
        (is_create_bucket_request request.method request.query request.path = true ∨
          virtual_bucket server_host request.host ≠ none ∨ judged_bucket server_host request = bucket)) ∨
      ∃ named, virtual_bucket server_host request.host = some named ∧ named ≠ bucket) (log : List Event) :
    ∃ log', (Sample.server server_host (Sample.tenantBut bucket) none).authorise request Sample.message
      (apply_virtual_host server_host request) (some "alice".toList) log = (.ok (),log') := by
  have hosted : virtual_bucket server_host request.host ≠ none →
      is_valid_bucket_name (String.ofList (judged_bucket server_host request)) := by
    intro some_host
    obtain ⟨named,host⟩ := Option.ne_none_iff_exists'.mp some_host
    rw [judged_bucket,host]
    exact (virtual_bucket_nonempty host).2
  have scope : ∃ log', (Sample.server server_host (Sample.tenantBut bucket) none).enforce_tenant_scope request
      (apply_virtual_host server_host request) (some "alice".toList) log = (.ok (),log') := by
    unfold AppState.enforce_tenant_scope
    cases planned : plan_tenant_scope server_host request (apply_virtual_host server_host request) with
    | none => exact ⟨log,by rw [show (Sample.server server_host (Sample.tenantBut bucket) none).server_host =
        server_host from rfl,planned]; rfl⟩
    | some scope =>
      obtain ⟨rfl,other⟩ := plan_tenant_scope_bucket planned
      rcases unchecked with ⟨creates,-⟩ | ⟨named,host,apart⟩
      · simp [other] at creates
      · have away : judged_bucket server_host request ≠ bucket := by rwa [judged_bucket,host]
        rw [show (Sample.server server_host (Sample.tenantBut bucket) none).server_host = server_host from rfl,planned]
        exact Sample.server_access server_host none (hosted (by simp [host])) (if_neg away) log
  obtain ⟨log₁,scope⟩ := scope
  rw [AppState.authorise,Prog.bind_of_ok scope]
  rw [show (Sample.server server_host (Sample.tenantBut bucket) none).server_host = server_host from rfl]
  cases made : bucket_policy_target_for_request server_host request (apply_virtual_host server_host request) with
  | none => exact ⟨log₁,rfl⟩
  | some target =>
    refine Sample.server_judges server_host none Sample.message.client_ip ?_ log₁
    rw [policy_target_bucket made]
    rcases unchecked with ⟨-,exempt | some_host | same⟩ | ⟨named,host,-⟩
    · rw [bucket_policy_target_for_request,resolve_policy_target_from_parts,if_pos exempt] at made
      simp at made
    · exact hosted some_host
    · rw [same]
      exact valid
    · exact hosted (by simp [host])

theorem checked_of_isolates
    (isolates : ∀ (state : AppState) (message : Message) (bucket : Text), state.server_host = server_host →
      Isolates state request message bucket) : TenantChecked server_host request := by
  intro operation bucket found relies valid
  by_contra unchecked
  have unchecked : (is_create_bucket request.method request.query = true ∧
        (is_create_bucket_request request.method request.query request.path = true ∨
          virtual_bucket server_host request.host ≠ none ∨ judged_bucket server_host request = bucket)) ∨
      ∃ named, virtual_bucket server_host request.host = some named ∧ named ≠ bucket := by
    grind
  have authenticated := Sample.server_authenticates server_host none (Sample.tenantBut bucket) request
    (apply_virtual_host server_host request)
  obtain ⟨log,authorised⟩ := unchecked_authorised valid unchecked []
  have run : (Sample.server server_host (Sample.tenantBut bucket) none).auth_middleware request Sample.message [] =
      (Sample.server server_host (Sample.tenantBut bucket) none).handle request Sample.message
        ⟨some "alice".toList,apply_virtual_host server_host request,[]⟩ operation log := by
    have start : (Sample.server server_host (Sample.tenantBut bucket) none).auth_middleware request Sample.message [] =
        (Sample.server server_host (Sample.tenantBut bucket) none).finalize_s3_request request Sample.message
          (apply_virtual_host server_host request) (some "alice".toList) [] := Prog.bind_of_ok authenticated
    rw [start,AppState.finalize_s3_request,Prog.bind_of_ok authorised,AppState.respond,found]
    rfl
  have spared := isolates (Sample.server server_host (Sample.tenantBut bucket) none) Sample.message bucket rfl
    "alice".toList [] authenticated (Sample.foreign_bucket valid)
  obtain ⟨e,member,touched⟩ := Sample.server_touches server_host none (Sample.tenantBut bucket) valid relies log
  rw [run] at spared
  rw [spared e member] at touched
  exact absurd touched (by decide)

end

end Maxio
