import Maxio.Actions

/-!
The target a request is judged on and the target its handler passes to the store.
-/

namespace Maxio

/-- What the checks on the way to a handler look at: a bucket, and a key or the lack of one where the check has an eye
for it. A request without a signature gets by on the flags of a public bucket. -/
inductive JudgedOn (server_host : Text) (request : Request) (access_key : Option Text) :
    Text → Option (Option Text) → Prop
  | public_bypass {bucket rest : Text} (anonymous : access_key = none)
      (target : AppState.public_target server_host request.path request.host
        ((apply_virtual_host server_host request).map VirtualHostContext.signature_path) = some (bucket,rest)) :
      JudgedOn server_host request access_key bucket (some (if rest = [] then none else some rest))
  | tenant_scope {bucket : Text}
      (target : plan_tenant_scope server_host request (apply_virtual_host server_host request) = some bucket) :
      JudgedOn server_host request access_key bucket none
  | bucket_policy {target : BucketPolicyTarget}
      (judged : bucket_policy_target_for_request server_host request (apply_virtual_host server_host request) =
        some target) :
      JudgedOn server_host request access_key target.bucket (some target.object_key)

/-- A call is on the judged bucket and, if it passes on a key or works on the bucket as a whole, on the judged key. The
source of a copy has gates of its own. -/
def OnTarget (bucket : Text) (key : Option (Option Text)) (c : Call) : Prop :=
  c.origin ≠ .copy_source → bucket = c.bucket ∧ (c.origin = .path → c.op.keyed → ∀ k, key = some k → k = c.key)

/-- Whatever a request that is let through is judged on, its handler calls the store on that. -/
def HandledAsJudged (state : AppState) (request : Request) (message : Message) : Prop :=
  ∀ access_key log,
    state.authenticate request message (apply_virtual_host state.server_host request) [] = (.ok access_key,log) →
    ∀ c, .call c ∈ (state.auth_middleware request message []).2 →
    ∀ bucket key, JudgedOn state.server_host request access_key bucket key → OnTarget bucket key c

/-- Requests that no policy is read for: what passes for the creation of a bucket, and a POST without a parameter
that stands for an action. -/
def unjudged (request : Request) : Prop :=
  is_create_bucket_request request.method request.query request.path ∨
    (request.method = .POST ∧ names_upload request.query = false ∧ query_has_key request.query "delete" = false)

/-- Requests that a public bucket answers without a signature. -/
def asks_public (request : Request) : Prop :=
  query_has_key request.query "X-Amz-Signature" = false ∧
    (AppState.PUBLIC_BYPASS_FORBIDDEN_QUERY_KEYS.any fun key => query_has_key request.query key) = false

/-- The host names no bucket but the handler's. The key, when a policy is asked about it, is sent as it decodes; on a
virtual host it is the only segment of a GET or a PUT without parameters. Nothing is said about requests that do not
get as far as a call: most handlers look for their bucket first. -/
def SentPlainly (server_host : Text) (request : Request) : Prop :=
  ∀ operation bucket, s3_router request (apply_virtual_host server_host request) = some operation →
    operation.bucket = some bucket → operation.calls request →
    (is_valid_bucket_name (String.ofList bucket) ∨ operation.unchecked ∨ (operation.opens ∧ asks_public request)) →
    (∀ named, virtual_bucket server_host request.host = some named → named = bucket) ∧
    (operation.keyed → ¬ unjudged request →
      (virtual_bucket server_host request.host = none → is_valid_bucket_name (String.ofList bucket) →
        ∀ rest, route request.path = some (.object bucket rest) → decode_utf8 rest = some rest) ∧
      (virtual_bucket server_host request.host ≠ none →
        parse_query request.query = [] ∧ (request.method = .GET ∨ request.method = .PUT) ∧
          ∃ segment, route request.path = some (.bucket segment)))

/-! ### Judged targets -/

/-- The key that a request is judged on. -/
def judged_key (server_host : Text) (request : Request) : Option Text :=
  match virtual_bucket server_host request.host with
  | some _ => object_key_from_signature_path request.path
  | none => match Text.split_once '/' (Text.trim_start '/' request.path) with
    | some pair => if pair.2 = [] then none else some pair.2
    | none => none

section
variable {server_host : Text} {request : Request} {access_key : Option Text}

theorem extract_judged {pair : Text × Option Text}
    (found : extract_bucket_and_key server_host request.path request.host
      ((apply_virtual_host server_host request).map VirtualHostContext.signature_path) = some pair) :
    pair = (judged_bucket server_host request,judged_key server_host request) := by
  have same : pair.1 = judged_bucket server_host request := extract_judged_bucket found
  rw [extract_bucket_and_key] at found
  refine Prod.ext same ?_
  cases host : virtual_bucket server_host request.host with
  | some vb =>
    simp only [host,apply_virtual_host,Option.map_some,Option.getD_some,Option.some.injEq] at found
    simp [← found,judged_key,host]
  | none =>
    simp only [host] at found
    split at found
    · simp at found
    · simp only [judged_key,host]
      split at found
      next before rest cut =>
        rw [cut]
        simpa using (congrArg Prod.snd (Option.some.inj found)).symm
      next uncut =>
        rw [uncut]
        simpa using (congrArg Prod.snd (Option.some.inj found)).symm

theorem public_target_judged {bucket rest : Text}
    (found : AppState.public_target server_host request.path request.host
      ((apply_virtual_host server_host request).map VirtualHostContext.signature_path) = some (bucket,rest)) :
    bucket = judged_bucket server_host request ∧ (if rest = [] then none else some rest) = judged_key server_host request := by
  -- the path is taken apart at its first slash, as everywhere
  have by_path : ∀ pair, (match Text.split_once '/' (Text.trim_start '/' request.path) with
      | some pair => pair
      | none => (Text.trim_start '/' request.path,[])) = pair →
      virtual_bucket server_host request.host = none →
      pair.1 = judged_bucket server_host request ∧
        (if pair.2 = [] then none else some pair.2) = judged_key server_host request := by
    rintro pair rfl host
    rw [judged_bucket,judged_key,host]
    cases cut : Text.split_once '/' (Text.trim_start '/' request.path) with
    | none => exact ⟨(Text.first_piece_whole (Text.split_once_none.mp cut)).symm,rfl⟩
    | some pair =>
      obtain ⟨before,after⟩ := pair
      obtain ⟨whole,outside⟩ := Text.split_once_some.mp cut
      exact ⟨by rw [Option.getD_none,whole,Text.first_piece_split outside],rfl⟩
  unfold AppState.public_target at found
  cases header : request.host with
  | none =>
    have host : virtual_bucket server_host request.host = none := by rw [header]; rfl
    simp only [header] at found
    split at found
    · simp at found
    · exact by_path (bucket,rest) (Option.some.inj found) host
  | some text =>
    simp only [header] at found
    cases host : virtual_bucket server_host (some text) with
    | none =>
      simp only [host] at found
      split at found
      · simp at found
      · exact by_path (bucket,rest) (Option.some.inj found) (by rw [header]; exact host)
    | some vb =>
      have sent : (apply_virtual_host server_host request).map VirtualHostContext.signature_path = some request.path := by
        rw [apply_virtual_host,header,host]
        rfl
      simp only [host,sent,Option.getD_some,Option.some.injEq,Prod.mk.injEq] at found
      obtain ⟨rfl,rfl⟩ := found
      rw [judged_bucket,judged_key,header,host]
      refine ⟨rfl,?_⟩
      rw [object_key_from_signature_path]
      by_cases empty : Text.trim_start '/' request.path = []
      · simp [empty]
      · simp [empty]

/-- All the checks look at one bucket and one key. -/
theorem JudgedOn.same {bucket : Text} {key : Option (Option Text)}
    (judged : JudgedOn server_host request access_key bucket key) :
    bucket = judged_bucket server_host request ∧ ∀ k, key = some k → k = judged_key server_host request := by
  cases judged with
  | public_bypass anonymous target =>
    obtain ⟨same,key⟩ := public_target_judged target
    refine ⟨same,?_⟩
    rintro k ⟨⟩
    exact key
  | tenant_scope target => exact ⟨(plan_tenant_scope_bucket target).1,by simp⟩
  | bucket_policy judged =>
    rw [bucket_policy_target_for_request,resolve_policy_target_from_parts] at judged
    split at judged
    · simp at judged
    obtain ⟨pair,cut,made⟩ := Option.bind_eq_some_iff.mp judged
    obtain ⟨action,-,rfl⟩ := Option.map_eq_some_iff.mp made
    obtain rfl := extract_judged cut
    refine ⟨rfl,?_⟩
    rintro k ⟨⟩
    rfl

/-! ### Handled targets -/

theorem judged_key_bucket {segment : Text} (host : virtual_bucket server_host request.host = none)
    (path : route request.path = some (.bucket segment)) : judged_key server_host request = none := by
  obtain ⟨named,whole,shape⟩ := route_bucket path
  rw [judged_key,host]
  rcases shape with shape | shape
  · have trimmed := trim_routed named whole []
    rw [List.append_nil,List.append_nil] at trimmed
    simp only [shape,trimmed]
    rw [Text.split_once_none.mpr whole]
  · have cut : Text.split_once '/' (segment ++ ['/']) = some (segment,[]) := Text.split_once_some.mpr ⟨rfl,whole⟩
    simp only [shape,trim_routed named whole,cut,if_true]

theorem judged_key_object {segment rest : Text} (host : virtual_bucket server_host request.host = none)
    (path : route request.path = some (.object segment rest)) : judged_key server_host request = some rest := by
  obtain ⟨named,whole,more,shape⟩ := route_object path
  have cut : Text.split_once '/' (segment ++ '/' :: rest) = some (segment,rest) := Text.split_once_some.mpr ⟨rfl,whole⟩
  rw [judged_key,host]
  simp only [shape,trim_routed named whole,cut,if_neg more]

/-- On a virtual host every path but the root is a key. -/
theorem judged_key_hosted {named : Text} (host : virtual_bucket server_host request.host = some named) {segment : Text}
    (path : route request.path = some (.bucket segment) ∨ ∃ rest, route request.path = some (.object segment rest)) :
    judged_key server_host request = some (Text.trim_start '/' request.path) ∧ segment ≠ [] := by
  have below : Text.trim_start '/' request.path ≠ [] ∧ segment ≠ [] := by
    rcases path with path | ⟨rest,path⟩
    · obtain ⟨named,whole,shape⟩ := route_bucket path
      rcases shape with shape | shape
      · have trimmed := trim_routed named whole []
        rw [List.append_nil,List.append_nil] at trimmed
        rw [shape,trimmed]
        exact ⟨named,named⟩
      · rw [shape,trim_routed named whole]
        exact ⟨by simp,named⟩
    · obtain ⟨named,whole,-,shape⟩ := route_object path
      rw [shape,trim_routed named whole]
      exact ⟨by simp,named⟩
  refine ⟨?_,below.2⟩
  rw [judged_key,host]
  simp only [object_key_from_signature_path,if_neg below.1]

/-- Handlers of a bucket are handed a key only from a virtual host, by a GET or a PUT without parameters. -/
theorem bucket_operation_key {method : Method} {params : Params} {vhost : Option VirtualHostContext} {copies : Bool}
    {bucket : Text} {operation : Operation}
    (chosen : bucket_operation method params vhost copies bucket = some operation) :
    operation.key = none ∨ ((method = .GET ∨ method = .PUT) ∧ params = [] ∧ ∃ ctx, vhost = some ctx ∧
      operation.key = object_key_from_signature_path ctx.signature_path) := by
  have delegated : ∀ key, virtual_host_object_key params vhost = some key → params = [] ∧
      ∃ ctx, vhost = some ctx ∧ object_key_from_signature_path ctx.signature_path = some key := by
    intro key found
    unfold virtual_host_object_key at found
    split at found
    · simp at found
    next empty =>
      obtain ⟨ctx,same,taken⟩ := Option.bind_eq_some_iff.mp found
      exact ⟨not_not.mp empty,ctx,same,taken⟩
  cases method <;> simp only [bucket_operation,Option.some.injEq,reduceCtorEq] at chosen <;> subst chosen
  · unfold handle_bucket_get
    split
    next key found =>
      obtain ⟨empty,ctx,same,taken⟩ := delegated key found
      exact .inr ⟨.inl rfl,empty,ctx,same,by rw [(get_object_operation_target ..).2,taken]⟩
    · exact .inl rfl
  · exact .inl rfl
  · unfold handle_bucket_put
    split
    next key found =>
      obtain ⟨empty,ctx,same,taken⟩ := delegated key found
      exact .inr ⟨.inr rfl,empty,ctx,same,by rw [(put_object_operation_target ..).2,taken]⟩
    · split <;> exact .inl rfl
  · exact .inl rfl
  · exact .inl (delete_bucket_operation_target ..).2
  · exact .inl rfl

theorem delegated_key {vhost : Option VirtualHostContext} {ctx : VirtualHostContext} {copies : Bool} {bucket key : Text}
    {operation : Operation} {method : Method} (asked : method = .GET ∨ method = .PUT)
    (hosted : vhost = some ctx) (below : object_key_from_signature_path ctx.signature_path = some key)
    (chosen : bucket_operation method [] vhost copies bucket = some operation) : operation.key = some key := by
  have found : virtual_host_object_key [] vhost = some key := by simp [virtual_host_object_key,hosted,below]
  rcases asked with rfl | rfl
  · rw [bucket_operation,Option.some.injEq,handle_bucket_get,found] at chosen
    rw [← chosen]
    exact (get_object_operation_target ..).2
  · rw [bucket_operation,Option.some.injEq,handle_bucket_put,found] at chosen
    rw [← chosen]
    exact (put_object_operation_target ..).2

/-- A request sent plainly is handled on the key it is judged on. -/
theorem handled_key {operation : Operation} {bucket : Text}
    (plain : SentPlainly server_host request)
    (found : s3_router request (apply_virtual_host server_host request) = some operation)
    (handed : operation.bucket = some bucket) (valid : is_valid_bucket_name (String.ofList bucket))
    (calls : operation.calls request) (same : judged_bucket server_host request = bucket) (keyed : operation.keyed)
    (judged : ¬ unjudged request) : judged_key server_host request = operation.key := by
  obtain ⟨-,sent⟩ := plain operation bucket found handed calls (.inl valid)
  obtain ⟨by_path,by_host⟩ := sent keyed judged
  cases host : virtual_bucket server_host request.host with
  | none =>
    rcases router_cases found with rfl | ⟨segment,b,path,-,chosen⟩ | ⟨segment,rest,b,key,path,decoded,taken,chosen⟩
    · simp [Operation.bucket] at handed
    · rw [judged_key_bucket host path]
      rcases bucket_operation_key chosen with keyless | ⟨-,-,ctx,hosted,-⟩
      · exact keyless.symm
      · simp [apply_virtual_host,host] at hosted
    · rw [judged_key_object host path]
      have first : judged_bucket server_host request = segment := by
        obtain ⟨named,whole,-,shape⟩ := route_object path
        rw [judged_bucket,host,Option.getD_none,first_piece_of_route named whole (.inr ⟨rest,shape⟩)]
      rw [first] at same
      rw [same] at path
      have again := by_path host valid rest path
      rw [taken,Option.some.injEq] at again
      rcases object_operation_target chosen with rfl | ⟨-,own⟩
      · simp [Operation.bucket] at handed
      · rw [own,again]
  | some named =>
    obtain ⟨empty,method,segment,path⟩ := by_host (by simp [host])
    have key := (judged_key_hosted host (.inl path)).1
    rcases router_cases found with rfl | ⟨_,b,_,-,chosen⟩ | ⟨_,_,_,_,other,-,-,-⟩
    · simp [Operation.bucket] at handed
    · rw [empty] at chosen
      rw [key]
      rw [judged_key,host] at key
      refine (delegated_key method (?_ : _ = some ⟨named,request.path⟩) key chosen).symm
      rw [apply_virtual_host,host]
      rfl
    · simp [path] at other

end

section
variable {state : AppState} {request : Request} {message : Message}

/-- An anonymous request is a read, let in by a bucket with a valid name. -/
theorem anonymous_request {log : List Event}
    (authenticated : state.authenticate request message (apply_virtual_host state.server_host request) [] =
      (.ok none,log)) :
    (request.method = .GET ∨ request.method = .HEAD ∨ request.method = .OPTIONS) ∧ asks_public request ∧
      is_valid_bucket_name (String.ofList (judged_bucket state.server_host request)) := by
  unfold AppState.authenticate at authenticated
  split at authenticated
  · obtain ⟨k,l,-,ended⟩ := Prog.bind_ok_iff.mp authenticated
    simp at ended
  next unsigned =>
    obtain ⟨passed,l,bypass,ended⟩ := Prog.bind_ok_iff.mp authenticated
    cases passed with
    | false =>
      simp only [Bool.false_eq_true,if_false] at ended
      split at ended
      · simp at ended
      · obtain ⟨k,l,-,ended⟩ := Prog.bind_ok_iff.mp ended
        simp at ended
    | true =>
      unfold AppState.public_bypass at bypass
      split at bypass
      · simp at bypass
      unfold AppState.is_public_bypass_allowed at bypass
      split at bypass
      · simp at bypass
      next method =>
        split at bypass
        · simp at bypass
        next free =>
        cases target : AppState.public_target state.server_host request.path request.host
            ((apply_virtual_host state.server_host request).map VirtualHostContext.signature_path) with
        | none => simp [target] at bypass
        | some pair =>
          obtain ⟨bucket,rest⟩ := pair
          simp only [target] at bypass
          split at bypass
          · simp at bypass
          obtain ⟨answer,l,read,ended⟩ := Prog.bind_ok_iff.mp bypass
          refine ⟨by grind,⟨by simpa using unsigned,by simpa using free⟩,?_⟩
          rw [← (public_target_judged target).1]
          by_contra invalid
          simp [AppState.get_bucket_public,AppState.reading,validate_bucket_name,invalid,Except.bind] at read
          rw [← read.1] at ended
          simp at ended

/-- Whatever a request that is let through is judged on, its judged bucket has a valid name. -/
theorem judged_bucket_valid {access_key : Option Text} {log : List Event} {bucket : Text} {key : Option (Option Text)}
    (authenticated : state.authenticate request message (apply_virtual_host state.server_host request) [] =
      (.ok access_key,log))
    (planned : ∀ bucket, plan_tenant_scope state.server_host request (apply_virtual_host state.server_host request) =
      some bucket → access_key ≠ none → is_valid_bucket_name (String.ofList bucket))
    (named : ∀ t, bucket_policy_target_for_request state.server_host request
      (apply_virtual_host state.server_host request) = some t → is_valid_bucket_name (String.ofList t.bucket))
    (judged : JudgedOn state.server_host request access_key bucket key) :
    is_valid_bucket_name (String.ofList (judged_bucket state.server_host request)) := by
  cases access_key with
  | none => exact (anonymous_request authenticated).2.2
  | some access_key =>
    cases judged with
    | public_bypass anonymous _ => simp at anonymous
    | tenant_scope target =>
      rw [← (plan_tenant_scope_bucket target).1]
      exact planned _ target (by simp)
    | bucket_policy judged =>
      rw [← policy_target_bucket judged]
      exact named _ judged

/-- A check that looks at a key is not skipped. -/
theorem judged_of_key {access_key : Option Text} {log : List Event} {bucket : Text} {k : Option Text}
    (authenticated : state.authenticate request message (apply_virtual_host state.server_host request) [] =
      (.ok access_key,log))
    (judged : JudgedOn state.server_host request access_key bucket (some k)) : ¬ unjudged request := by
  cases judged with
  | public_bypass anonymous _ =>
    subst anonymous
    have standard := (anonymous_request authenticated).1
    rintro (creates | ⟨post,-⟩)
    · have other : is_create_bucket_request request.method request.query request.path = false := by
        refine not_creating ?_ ?_ _ _
        · grind
        · grind
      simp [other] at creates
    · grind
  | bucket_policy judged =>
    rw [bucket_policy_target_for_request,resolve_policy_target_from_parts] at judged
    split at judged
    · simp at judged
    next listed =>
      obtain ⟨pair,-,made⟩ := Option.bind_eq_some_iff.mp judged
      obtain ⟨action,acts,-⟩ := Option.map_eq_some_iff.mp made
      rintro (creates | ⟨post,uploads,deletes⟩)
      · exact listed creates
      · rw [names_upload] at uploads
        simp [s3_action_for_request,post,uploads,deletes] at acts

/-- Every call of a request comes from the routed operation, once the middleware has let it through. -/
theorem finalize_hands (message : Message) {access_key : Option Text} (signed : request.method = .PUT → access_key ≠ none) :
    Prog.Emits (fun new _ => ∀ c, .call c ∈ new → ∃ operation,
      s3_router request (apply_virtual_host state.server_host request) = some operation ∧ operation.hands request access_key c ∧
      (∀ bucket, plan_tenant_scope state.server_host request (apply_virtual_host state.server_host request) =
        some bucket → access_key ≠ none → is_valid_bucket_name (String.ofList bucket)) ∧
      ∀ t, bucket_policy_target_for_request state.server_host request
        (apply_virtual_host state.server_host request) = some t → is_valid_bucket_name (String.ofList t.bucket))
      (state.finalize_s3_request request message (apply_virtual_host state.server_host request) access_key) := by
  have passes : Logs (fun e => ∀ c, e ≠ .call c) _
      (state.authorise request message (apply_virtual_host state.server_host request) access_key) :=
    AppState.authorise_logs (by simp) (by simp)
  refine Prog.Emits.bind passes ?_ ?_
  · rintro new e ⟨quiet,-⟩ c member
    exact absurd rfl (quiet _ member c)
  · rintro _ past ⟨quiet,known⟩
    obtain ⟨planned,named⟩ := known () rfl
    unfold AppState.respond
    simp only
    cases found : s3_router request (apply_virtual_host state.server_host request) with
    | none =>
      refine Prog.Emits.fail fun c member => ?_
      exact absurd rfl (quiet _ (by simpa using member) c)
    | some operation =>
      have admitted : Logs (operation.admits request access_key) (operation.answers request) (state.handle request message
          ⟨access_key,apply_virtual_host state.server_host request,message.forwarded_ip⟩ operation) :=
        handle_logs operation ⟨fun _ _ => trivial,fun _ _ => ⟨trivial,fun _ _ => trivial⟩,fun _ admits => admits⟩
          fun copies => signed (copies_put found copies)
      refine Prog.Emits.mono admitted ?_
      rintro new r ⟨events,-⟩ c member
      have late := (List.mem_append.mp member).resolve_left fun early => quiet _ early c rfl
      exact ⟨operation,rfl,(events _ late).2.2,planned,named⟩

theorem call_handed {access_key : Option Text} {log : List Event} {c : Call}
    (authenticated : state.authenticate request message (apply_virtual_host state.server_host request) [] =
      (.ok access_key,log)) (called : .call c ∈ (state.auth_middleware request message []).2) :
    ∃ operation, s3_router request (apply_virtual_host state.server_host request) = some operation ∧
      operation.hands request access_key c ∧
      (∀ bucket, plan_tenant_scope state.server_host request (apply_virtual_host state.server_host request) =
        some bucket → access_key ≠ none → is_valid_bucket_name (String.ofList bucket)) ∧
      ∀ t, bucket_policy_target_for_request state.server_host request
        (apply_virtual_host state.server_host request) = some t → is_valid_bucket_name (String.ofList t.bucket) := by
  have run : state.auth_middleware request message [] = state.finalize_s3_request request message
      (apply_virtual_host state.server_host request) access_key log := Prog.bind_of_ok authenticated
  have read : Logs (fun e => ∀ c, e ≠ .call c) (fun _ => True)
      (state.authenticate request message (apply_virtual_host state.server_host request)) :=
    authenticate_logs fun _ _ => by simp
  obtain ⟨early,added,silent,-⟩ := read []
  rw [authenticated] at added
  obtain rfl : log = early := by simpa using added
  obtain ⟨new,more,hands⟩ := finalize_hands message (signed_put authenticated) log
  rw [run,more] at called
  exact hands c ((List.mem_append.mp called).resolve_left fun first => silent _ first c rfl)

theorem handled_of_plain (plain : SentPlainly state.server_host request) (message : Message) :
    HandledAsJudged state request message := by
  intro access_key log authenticated c called bucket key judged carried
  obtain ⟨operation,found,handing,planned,checked⟩ := call_handed authenticated called
  obtain ⟨calls,handed⟩ := handing.calls carried
  have reached : is_valid_bucket_name (String.ofList c.bucket) ∨ operation.unchecked ∨
      (operation.opens ∧ asks_public request) := by
    rcases handing.named carried with valid | unchecked | ⟨rfl,opens⟩
    · exact .inl valid
    · exact .inr (.inl unchecked)
    · exact .inr (.inr ⟨opens,(anonymous_request authenticated).2.1⟩)
  obtain ⟨agrees,-⟩ := plain operation c.bucket found handed calls reached
  have valid := judged_bucket_valid authenticated planned checked judged
  have same := judged_eq_handled found handed agrees valid
  obtain ⟨rfl,keys⟩ := judged.same
  refine ⟨same,?_⟩
  rintro of_path keyed k rfl
  obtain ⟨own,key⟩ := handing.key of_path keyed
  rw [keys k rfl,← key]
  rw [same] at valid
  exact handled_key plain found handed valid calls same own (judged_of_key authenticated judged)

end

/-! ### Servers on which a request is handled elsewhere -/

namespace Sample
section
variable {server_host bucket access_key : Text} {request : Request} {ctx : S3RequestContext}

/-- Past its gates a read of an object calls the store. -/
theorem reads_call {state : AppState} (calm : ∀ log c, state.outcome log c = .ok ()) {operation : Operation}
    (handed : operation.bucket = some bucket) (calls : operation.calls request) (opens : operation.opens)
    (log : List Event) (gated : ∀ method key, ∃ log',
      state.gates request ctx method bucket (some key) (parse_query request.query) log = (.ok (),log')) :
    ∃ c, .call c ∈ (state.handle request message ctx operation log).2 ∧ c.origin ≠ .copy_source ∧
      (operation.keyed → c.origin = .path ∧ c.op.keyed) := by
  have called : ∀ c log, state.call c log = (.ok (),log ++ [.call c]) := by
    intro c log
    simp [AppState.call,AppState.attempt_call,Prog.bind_apply,calm]
  cases operation with
  | head_object b key =>
    obtain rfl : b = bucket := by simpa [Operation.bucket] using handed
    obtain ⟨log₁,gate⟩ := gated .HEAD key
    rw [AppState.handle,AppState.head_object,Prog.bind_of_ok gate]
    by_cases versioned : (parse_query request.query).contains_key "versionId"
    · refine ⟨⟨.head_object_version,b,some key,.path⟩,?_,by simp,fun _ => ⟨rfl,rfl⟩⟩
      simp [versioned,message,Prog.bind_apply,called]
    · refine ⟨⟨.head_object,b,some key,.path⟩,?_,by simp,fun _ => ⟨rfl,rfl⟩⟩
      simp [versioned,message,Prog.bind_apply,called]
  | get_object read b key =>
    obtain rfl : b = bucket := by simpa [Operation.bucket] using handed
    obtain ⟨log₁,gate⟩ := gated .GET key
    cases read with
    | parts => simp [Operation.opens] at opens
    | bytes =>
      rw [AppState.handle,AppState.get_object,Prog.bind_of_ok gate]
      simp only [AppState.get_bytes]
      cases numbered : (parse_query request.query).get "partNumber" with
      | none =>
        by_cases versioned : (parse_query request.query).contains_key "versionId"
        · refine ⟨⟨.get_object_version,b,some key,.path⟩,?_,by simp,fun _ => ⟨rfl,rfl⟩⟩
          simp [versioned,message,Prog.bind_apply,called,AppState.get_range,AppState.conditional_response]
        · refine ⟨⟨.get_object,b,some key,.path⟩,?_,by simp,fun _ => ⟨rfl,rfl⟩⟩
          simp [versioned,message,Prog.bind_apply,called,AppState.get_range,AppState.conditional_response]
      | some text =>
        cases parsed : parseUnsigned (2 ^ 32 - 1) (String.ofList text) with
        | none => exact absurd parsed (calls text numbered)
        | some n =>
          refine ⟨⟨.head_object,b,some key,.path⟩,?_,by simp,fun _ => ⟨rfl,rfl⟩⟩
          simp only [parsed]
          simp [message,Prog.bind_apply,called]
    | retention =>
      refine ⟨⟨.get_object_retention,b,some key,.path⟩,?_,by simp,fun _ => ⟨rfl,rfl⟩⟩
      rw [AppState.handle,AppState.get_object,Prog.bind_of_ok gate]
      simp [Prog.bind_apply,called]
    | legal_hold =>
      refine ⟨⟨.get_object_legal_hold,b,some key,.path⟩,?_,by simp,fun _ => ⟨rfl,rfl⟩⟩
      rw [AppState.handle,AppState.get_object,Prog.bind_of_ok gate]
      simp [Prog.bind_apply,called]
    | tagging =>
      refine ⟨⟨.get_object_tagging,b,some key,.path⟩,?_,by simp,fun _ => ⟨rfl,rfl⟩⟩
      rw [AppState.handle,AppState.get_object,Prog.bind_of_ok gate]
      simp [Prog.bind_apply,called]
  | _ => simp [Operation.opens] at opens

/-- On the open server an operation that can get to its call does. -/
theorem server_calls (principal : ctx.principal = some access_key) {operation : Operation}
    (handed : operation.bucket = some bucket) (calls : operation.calls request)
    (named : is_valid_bucket_name (String.ofList bucket) ∨ operation.unchecked) (log : List Event) :
    ∃ c, .call c ∈ ((open_server server_host).handle request message ctx operation log).2 ∧ c.origin ≠ .copy_source ∧
      (operation.keyed → c.origin = .path ∧ c.op.keyed) := by
  have present : is_valid_bucket_name (String.ofList bucket) → ∀ log,
      (open_server server_host).ensure_bucket_exists bucket log = (.ok (),log ++ [.check .head_bucket bucket]) :=
    server_exists server_host (some "")
  have tenant : is_valid_bucket_name (String.ofList bucket) → ∀ log, ∃ log',
      (open_server server_host).enforce_tenant_bucket ctx bucket log = (.ok (),log') := by
    intro valid log
    rw [AppState.enforce_tenant_bucket,principal]
    exact server_access server_host (some "") valid rfl log
  cases operation with
  | list_buckets => exact calls.elim
  | options => exact calls.elim
  | create_bucket b =>
    obtain rfl : b = bucket := by simpa [Operation.bucket] using handed
    have valid := named.resolve_right (by simp [Operation.unchecked])
    refine ⟨⟨.create_bucket,b,none,.path⟩,?_,by simp,fun _ => ⟨rfl,rfl⟩⟩
    rw [AppState.handle,AppState.create_bucket,principal]
    simp [validate_valid valid,Except.mapError,Prog.bind_apply,open_server,server_call]
  | head_bucket b =>
    obtain rfl : b = bucket := by simpa [Operation.bucket] using handed
    have valid := named.resolve_right (by simp [Operation.unchecked])
    obtain ⟨log₁,scope⟩ := tenant valid log
    refine ⟨⟨.head_bucket,b,none,.path⟩,?_,by simp,fun _ => ⟨rfl,rfl⟩⟩
    rw [AppState.handle,AppState.head_bucket_handler,Prog.bind_of_ok scope,Prog.bind_of_ok (present valid log₁)]
    simp [Prog.bind_apply,open_server,server_call]
  | delete_bucket b =>
    obtain rfl : b = bucket := by simpa [Operation.bucket] using handed
    refine ⟨⟨.delete_bucket,b,none,.path⟩,?_,by simp,fun _ => ⟨rfl,rfl⟩⟩
    simp [AppState.handle,Prog.bind_apply,open_server,server_call]
  | put_setting setting b =>
    obtain rfl : b = bucket := by simpa [Operation.bucket] using handed
    have valid := named.resolve_right (by simp [Operation.unchecked])
    refine ⟨⟨.put_setting setting,b,none,.path⟩,?_,by simp,fun _ => ⟨rfl,rfl⟩⟩
    rw [AppState.handle,AppState.put_setting,Prog.bind_of_ok (present valid log)]
    simp [message,Prog.bind_apply,open_server,server_call]
  | delete_setting setting b =>
    obtain rfl : b = bucket := by simpa [Operation.bucket] using handed
    have valid := named.resolve_right (by simp [Operation.unchecked])
    refine ⟨⟨.delete_setting setting,b,none,.path⟩,?_,by simp,fun _ => ⟨rfl,rfl⟩⟩
    rw [AppState.handle,AppState.delete_setting,Prog.bind_of_ok (present valid log),AppState.ensure_setting_exists]
    split <;> simp [Prog.bind_apply,open_server,server_call]
  | get_bucket read b =>
    obtain rfl : b = bucket := by simpa [Operation.bucket] using handed
    have valid := named.resolve_right (by simp [Operation.unchecked])
    obtain ⟨log₁,scope⟩ := tenant valid log
    rw [AppState.handle,AppState.get_bucket,Prog.bind_of_ok scope,Prog.bind_of_ok (present valid log₁)]
    cases chosen : AppState.bucket_read_op read with
    | none => cases read <;> simp_all [AppState.bucket_read_op,Operation.calls]
    | some op =>
      refine ⟨⟨op,b,none,.path⟩,by simp [Prog.bind_apply,open_server,server_call],by simp,fun _ => ⟨rfl,?_⟩⟩
      cases read <;> simp only [AppState.bucket_read_op,Option.some.injEq,reduceCtorEq] at chosen <;> subst chosen <;> rfl
  | put_retention b key =>
    obtain rfl : b = bucket := by simpa [Operation.bucket] using handed
    refine ⟨⟨.put_object_retention,b,some key,.path⟩,?_,by simp,fun _ => ⟨rfl,rfl⟩⟩
    simp [AppState.handle,AppState.put_object_property,message,Prog.bind_apply,open_server,server_call]
  | put_legal_hold b key =>
    obtain rfl : b = bucket := by simpa [Operation.bucket] using handed
    refine ⟨⟨.put_object_legal_hold,b,some key,.path⟩,?_,by simp,fun _ => ⟨rfl,rfl⟩⟩
    simp [AppState.handle,AppState.put_object_property,message,Prog.bind_apply,open_server,server_call]
  | put_tagging b key =>
    obtain rfl : b = bucket := by simpa [Operation.bucket] using handed
    refine ⟨⟨.put_object_tagging,b,some key,.path⟩,?_,by simp,fun _ => ⟨rfl,rfl⟩⟩
    simp [AppState.handle,AppState.put_object_property,message,Prog.bind_apply,open_server,server_call]
  | delete_tagging b key =>
    obtain rfl : b = bucket := by simpa [Operation.bucket] using handed
    refine ⟨⟨.delete_object_tagging,b,some key,.path⟩,?_,by simp,fun _ => ⟨rfl,rfl⟩⟩
    simp [AppState.handle,Prog.bind_apply,open_server,server_call]
  | abort_upload b key =>
    obtain rfl : b = bucket := by simpa [Operation.bucket] using handed
    have valid := named.resolve_right (by simp [Operation.unchecked])
    refine ⟨⟨.abort_multipart_upload,b,none,.path⟩,?_,by simp,by simp [Operation.keyed]⟩
    rw [AppState.handle,AppState.abort_upload,Prog.bind_of_ok (present valid log)]
    simp [Prog.bind_apply,open_server,server_call]
  | delete_objects b =>
    have valid := named.resolve_right (by simp [Operation.unchecked])
    obtain ⟨c,called,-,-,facts⟩ := server_deletes principal valid handed trivial log
    exact ⟨c,called,facts⟩
  | delete_object b key =>
    have valid := named.resolve_right (by simp [Operation.unchecked])
    obtain ⟨c,called,-,-,facts⟩ := server_deletes principal valid handed trivial log
    exact ⟨c,called,facts⟩
  | put_object b key =>
    have valid := named.resolve_right (by simp [Operation.unchecked])
    obtain ⟨c,called,-,-,facts⟩ := server_stores principal valid handed trivial log
    exact ⟨c,called,facts⟩
  | upload_part b key =>
    have valid := named.resolve_right (by simp [Operation.unchecked])
    obtain ⟨c,called,-,-,facts⟩ := server_stores principal valid handed calls log
    exact ⟨c,called,facts⟩
  | upload_part_copy b key =>
    have valid := named.resolve_right (by simp [Operation.unchecked])
    obtain ⟨c,called,-,-,facts⟩ := server_stores principal valid handed calls log
    exact ⟨c,called,facts⟩
  | copy_object b key =>
    have valid := named.resolve_right (by simp [Operation.unchecked])
    obtain ⟨c,called,-,-,facts⟩ := server_stores principal valid handed calls log
    exact ⟨c,called,facts⟩
  | get_object read b key =>
    have valid := named.resolve_right (by simp [Operation.unchecked])
    cases read with
    | parts =>
      obtain rfl : b = bucket := by simpa [Operation.bucket] using handed
      obtain ⟨log₁,gate⟩ := server_gates server_host request principal valid .GET (some key)
        (parse_query request.query) log
      refine ⟨⟨.list_parts,b,none,.path⟩,?_,by simp,by simp [Operation.keyed]⟩
      rw [AppState.handle,AppState.get_object,Prog.bind_of_ok gate,Prog.bind_of_ok (present valid log₁)]
      simp [Prog.bind_apply,open_server,server_call]
    | _ =>
      exact reads_call (fun _ _ => rfl) handed calls rfl log fun method key =>
        server_gates server_host request principal valid method (some key) _ log
  | head_object b key =>
    have valid := named.resolve_right (by simp [Operation.unchecked])
    exact reads_call (fun _ _ => rfl) handed calls rfl log fun method key =>
      server_gates server_host request principal valid method (some key) _ log
  | post_object post b key =>
    obtain rfl : b = bucket := by simpa [Operation.bucket] using handed
    have valid := named.resolve_right (by simp [Operation.unchecked])
    cases post with
    | unsupported => exact calls.elim
    | complete_upload =>
      obtain ⟨c,called,-,-,facts⟩ := server_stores principal valid handed trivial log
      exact ⟨c,called,facts⟩
    | create_upload =>
      obtain ⟨log₁,gate⟩ := server_gates server_host request principal valid .POST (some key)
        (parse_query request.query) log
      refine ⟨⟨.create_multipart_upload,b,some key,.path⟩,?_,by simp,fun _ => ⟨rfl,rfl⟩⟩
      rw [AppState.handle,AppState.post_object,Prog.bind_of_ok gate,Prog.bind_of_ok (present valid log₁)]
      simp [message,Prog.bind_apply,open_server,server_call,AppState.default_encryption]

/-- Every bucket is public and has no policy. -/
def public_server (server_host : Text) : AppState :=
  { server server_host (fun _ => "blue") none with
    bucket_record := fun _ _ => .ok { bucketOf none none with public_read := true, public_list := true } }

/-- A request without a signature. -/
def visitor : Message := { message with authorization := false, signature := .error (.access_denied "") }

theorem handle_visitor (state : AppState) (operation : Operation) :
    state.handle request visitor ctx operation = state.handle request message ctx operation := by
  cases operation <;> rfl

/-- A policy check on a valid bucket of the public server finds no policy. -/
theorem public_server_judges {target : Option BucketPolicyTarget}
    (named : ∀ t, target = some t → is_valid_bucket_name (String.ofList t.bucket)) (principal : Option Text)
    (client_ip : Text) (log : List Event) :
    ∃ log', (public_server server_host).enforce_bucket_policy_for_target target principal client_ip log =
      (.ok (),log') := by
  cases target with
  | none => exact ⟨log,rfl⟩
  | some target =>
    have read : (public_server server_host).get_bucket_policy target log = (.ok (.ok none),log ++ [.judged target]) := by
      rw [AppState.get_bucket_policy_run,validate_valid (named target rfl)]
      rfl
    refine ⟨log ++ [.judged target],?_⟩
    rw [AppState.enforce_bucket_policy_for_target,AppState.enforce_policy_target,Prog.bind_of_ok read]
    rfl

/-- A read of an object reaches the store without a signature when a virtual host names a public bucket, whatever
bucket its path names. -/
theorem visitor_reads {named : Text} (host : virtual_bucket server_host request.host = some named)
    {operation : Operation} (found : s3_router request (apply_virtual_host server_host request) = some operation)
    (handed : operation.bucket = some bucket) (calls : operation.calls request) (opens : operation.opens)
    (asks : asks_public request) :
    (∃ log, (public_server server_host).authenticate request visitor (apply_virtual_host server_host request) [] =
      (.ok none,log)) ∧
    ∃ c, .call c ∈ ((public_server server_host).auth_middleware request visitor []).2 ∧ c.origin ≠ .copy_source := by
  obtain ⟨nonempty,valid⟩ := virtual_bucket_nonempty host
  obtain ⟨unsigned,free⟩ := asks
  have method : request.method = .GET ∨ request.method = .HEAD := by
    have asked : operation.method = some .GET ∨ operation.method = some .HEAD := by
      cases operation <;> first | exact .inl rfl | exact .inr rfl | simp [Operation.opens] at opens
    exact asked.imp (router_method found) (router_method found)
  have flags : (public_server server_host).get_bucket_public named [] =
      (.ok (.ok (true,true)),[.check .get_bucket_public named]) := by
    rw [AppState.get_bucket_public,AppState.reading,validate_valid valid]
    rfl
  have bypass : (public_server server_host).public_bypass request visitor (apply_virtual_host server_host request) [] =
      (.ok true,[.check .get_bucket_public named]) := by
    obtain ⟨text,header⟩ : ∃ text, request.host = some text := by
      cases header : request.host with
      | none => simp [header,virtual_bucket] at host
      | some text => exact ⟨text,rfl⟩
    have open_ : ¬ (request.method ≠ .GET ∧ request.method ≠ .HEAD ∧ request.method ≠ .OPTIONS) := by
      rcases method with get | head
      · exact fun closed => closed.1 get
      · exact fun closed => closed.2.1 head
    have target : ∃ rest, AppState.public_target server_host request.path request.host
        ((apply_virtual_host server_host request).map VirtualHostContext.signature_path) = some (named,rest) := by
      rw [header] at host
      unfold AppState.public_target
      simp only [header,host]
      exact ⟨_,rfl⟩
    obtain ⟨rest,target⟩ := target
    change (if visitor.authorization then pure false else (public_server server_host).is_public_bypass_allowed request
      (apply_virtual_host server_host request) : Handler Bool) [] = _
    rw [if_neg (by simp [visitor]),AppState.is_public_bypass_allowed,if_neg open_,if_neg (by simp [free])]
    rw [show (public_server server_host).server_host = server_host from rfl]
    simp only [target,if_neg nonempty]
    rw [Prog.bind_of_ok flags]
    simp
  have authenticated : (public_server server_host).authenticate request visitor (apply_virtual_host server_host request) [] =
      (.ok none,[.check .get_bucket_public named]) := by
    rw [AppState.authenticate,if_neg (by simp [unsigned]),Prog.bind_of_ok bypass]
    rfl
  have scope : ∀ log, (public_server server_host).enforce_tenant_scope request (apply_virtual_host server_host request)
      none log = (.ok (),log) := by
    intro log
    unfold AppState.enforce_tenant_scope
    cases plan_tenant_scope (public_server server_host).server_host request (apply_virtual_host server_host request) with
    | none => rfl
    | some bucket => rfl
  have judged : ∃ log', (public_server server_host).enforce_bucket_policy_for_target (bucket_policy_target_for_request
      server_host request (apply_virtual_host server_host request)) none visitor.client_ip
      [.check .get_bucket_public named] = (.ok (),log') := by
    refine public_server_judges ?_ none visitor.client_ip _
    intro t made
    rw [target_named host made]
    exact valid
  obtain ⟨log₁,judged⟩ := judged
  have authorised : (public_server server_host).authorise request visitor (apply_virtual_host server_host request) none
      [.check .get_bucket_public named] = (.ok (),log₁) := by
    rw [AppState.authorise,Prog.bind_of_ok (scope _)]
    exact judged
  have run : (public_server server_host).auth_middleware request visitor [] =
      (public_server server_host).handle request message ⟨none,apply_virtual_host server_host request,visitor.forwarded_ip⟩
        operation log₁ := by
    have start : (public_server server_host).auth_middleware request visitor [] =
        (public_server server_host).finalize_s3_request request visitor (apply_virtual_host server_host request) none
          [.check .get_bucket_public named] := Prog.bind_of_ok authenticated
    rw [start,AppState.finalize_s3_request,Prog.bind_of_ok authorised,AppState.respond,found]
    simp only [handle_visitor]
  have gated : ∀ method key, ∃ log', (public_server server_host).gates request
      ⟨none,apply_virtual_host server_host request,visitor.forwarded_ip⟩ method bucket (some key)
      (parse_query request.query) log₁ = (.ok (),log') := by
    intro method key
    have tenant : (public_server server_host).enforce_tenant_bucket
        ⟨none,apply_virtual_host server_host request,visitor.forwarded_ip⟩ bucket log₁ = (.ok (),log₁) := rfl
    rw [AppState.gates,AppState.enforce_s3_bucket_gates,Prog.bind_of_ok tenant]
    refine public_server_judges ?_ none visitor.forwarded_ip log₁
    intro t made
    rw [target_named host made]
    exact valid
  obtain ⟨c,called,carried,-⟩ := reads_call (fun _ _ => rfl) handed calls opens log₁ gated
  refine ⟨⟨_,authenticated⟩,c,?_,carried⟩
  rw [run]
  exact called

end
end Sample

section
variable {server_host bucket : Text} {request : Request} {operation : Operation}

/-- A handler on a virtual host is judged on the bucket of the host, or works on it. -/
theorem hosted_judged {named : Text} (host : virtual_bucket server_host request.host = some named)
    (found : s3_router request (apply_virtual_host server_host request) = some operation)
    (handed : operation.bucket = some bucket) (access_key : Option Text) :
    (∃ key, JudgedOn server_host request access_key named key) ∨ named = bucket := by
  have judged : judged_bucket server_host request = named := by rw [judged_bucket,host]; rfl
  obtain ⟨segment,decoded,routed⟩ := routed_of_router found (by simp [handed])
  by_cases creates : is_create_bucket request.method request.query = false
  · have named_host : judged_bucket server_host request ≠ [] := by
      rw [judged]
      exact (virtual_bucket_nonempty host).1
    have planned := plan_tenant_scope_planned routed.below named_host creates
    rw [judged] at planned
    exact .inl ⟨none,.tenant_scope planned⟩
  · have put : request.method = .PUT := by
      by_contra not_put
      exact creates (by simp [is_create_bucket,not_put])
    rcases router_cases found with rfl | ⟨_,b,path,-,chosen⟩ | ⟨_,rest,b,key,path,-,-,chosen⟩
    · simp [Operation.bucket] at handed
    · right
      have resolved : operation.bucket = some (resolve_bucket (apply_virtual_host server_host request) b) := by
        rw [put,bucket_operation,Option.some.injEq] at chosen
        rw [← chosen]
        unfold handle_bucket_put
        split
        · exact (put_object_operation_target ..).1
        · split <;> rfl
      rw [apply_virtual_host,host,handed,Option.some.injEq] at resolved
      exact resolved.symm
    · left
      obtain ⟨t,made,same,-⟩ := put_object_target put path
      rw [judged] at same
      rw [← same]
      exact ⟨_,.bucket_policy made⟩

/-- A request that a policy is read for has a target. -/
theorem policy_judged (found : s3_router request (apply_virtual_host server_host request) = some operation)
    (handed : operation.bucket = some bucket) (judged : ¬ unjudged request) :
    ∃ t, bucket_policy_target_for_request server_host request (apply_virtual_host server_host request) = some t := by
  obtain ⟨segment,decoded,routed⟩ := routed_of_router found (by simp [handed])
  have extracted : ∃ pair, extract_bucket_and_key server_host request.path request.host
      ((apply_virtual_host server_host request).map VirtualHostContext.signature_path) = some pair := by
    have trimmed : Text.trim_start '/' request.path ≠ [] := by
      intro empty
      have first := routed.first
      rw [empty] at first
      exact routed.named first.symm
    rw [extract_bucket_and_key]
    cases virtual_bucket server_host request.host with
    | some named => exact ⟨_,rfl⟩
    | none =>
      simp only [if_neg trimmed]
      cases Text.split_once '/' (Text.trim_start '/' request.path) with
      | none => exact ⟨_,rfl⟩
      | some pair => exact ⟨_,rfl⟩
  have acts : ∀ has_object_key, ∃ action, s3_action_for_request request.method request.query has_object_key =
      some action := by
    intro has_object_key
    have standard : ∃ method, operation.method = some method := by
      cases operation <;> first | exact ⟨_,rfl⟩ | simp [Operation.bucket] at handed
    obtain ⟨method,asked⟩ := standard
    have same := router_method found asked
    unfold s3_action_for_request
    split
    · exact ⟨_,rfl⟩
    next unnamed =>
      cases operation <;> simp only [Operation.method,Option.some.injEq,reduceCtorEq] at asked <;> subst asked <;>
        simp only [same]
      all_goals first | exact ⟨_,rfl⟩ | (cases has_object_key <;> exact ⟨_,rfl⟩) | skip
      all_goals
        cases deletes : query_has_key request.query "delete" with
        | true => exact ⟨_,rfl⟩
        | false => exact absurd (.inr ⟨same,by simpa [names_upload] using unnamed,deletes⟩) judged
  obtain ⟨pair,extracted⟩ := extracted
  obtain ⟨action,acts⟩ := acts pair.2.isSome
  have listed : ¬ is_create_bucket_request request.method request.query request.path := fun creates =>
    judged (.inl creates)
  rw [bucket_policy_target_for_request,resolve_policy_target_from_parts,if_neg listed]
  simp only [extracted,Option.bind_some,acts,Option.map_some]
  exact ⟨_,rfl⟩

/-- The call that an operation makes on the open server. -/
theorem open_server_call (found : s3_router request (apply_virtual_host server_host request) = some operation)
    (judged : is_valid_bucket_name (String.ofList (judged_bucket server_host request)))
    (handed : operation.bucket = some bucket) (calls : operation.calls request)
    (named : is_valid_bucket_name (String.ofList bucket) ∨ operation.unchecked) :
    ∃ c, .call c ∈ ((Sample.open_server server_host).auth_middleware request Sample.message []).2 ∧
      c.origin ≠ .copy_source ∧ c.bucket = bucket ∧
      (operation.keyed → c.origin = .path ∧ c.op.keyed ∧ c.key = operation.key) := by
  obtain ⟨log,run,-⟩ := open_server_run found judged
  have signed : (S3RequestContext.mk (some "alice".toList) (apply_virtual_host server_host request) []).principal =
      some "alice".toList := rfl
  obtain ⟨c,called,carried,keyed⟩ := Sample.server_calls signed handed calls named log
  rw [← run] at called
  refine ⟨c,called,carried,?_⟩
  have authenticated : (Sample.open_server server_host).authenticate request Sample.message
      (apply_virtual_host server_host request) [] = (.ok (some "alice".toList),[]) :=
    Sample.server_authenticates server_host (some "") _ request _
  obtain ⟨again,found_again,handing,-⟩ := call_handed authenticated called
  obtain rfl : operation = again := by simpa using found.symm.trans found_again
  have same := (handing.calls carried).2
  rw [handed,Option.some.injEq] at same
  refine ⟨same.symm,fun own => ?_⟩
  obtain ⟨of_path,op_keyed⟩ := keyed own
  exact ⟨of_path,op_keyed,(handing.key of_path op_keyed).2.symm⟩

theorem host_agrees (handled : ∀ (state : AppState) (message : Message), state.server_host = server_host →
      HandledAsJudged state request message)
    (found : s3_router request (apply_virtual_host server_host request) = some operation)
    (handed : operation.bucket = some bucket) (calls : operation.calls request)
    (reached : is_valid_bucket_name (String.ofList bucket) ∨ operation.unchecked ∨
      (operation.opens ∧ asks_public request)) {named : Text}
    (host : virtual_bucket server_host request.host = some named) : named = bucket := by
  have judged : is_valid_bucket_name (String.ofList (judged_bucket server_host request)) := by
    rw [judged_bucket,host]
    exact (virtual_bucket_nonempty host).2
  by_cases signed : is_valid_bucket_name (String.ofList bucket) ∨ operation.unchecked
  · rcases hosted_judged host found handed (some "alice".toList) with ⟨key,on⟩ | same
    · obtain ⟨c,called,carried,rfl,-⟩ := open_server_call found judged handed calls signed
      have served := handled (Sample.open_server server_host) Sample.message rfl (some "alice".toList) []
        (Sample.server_authenticates server_host (some "") _ request _) c called named key on
      exact (served carried).1
    · exact same
  · rw [not_or] at signed
    obtain ⟨opens,asks⟩ := (reached.resolve_left signed.1).resolve_left signed.2
    rcases hosted_judged host found handed none with ⟨key,on⟩ | same
    · obtain ⟨⟨log,authenticated⟩,c,called,carried⟩ := Sample.visitor_reads host found handed calls opens asks
      have served := handled (Sample.public_server server_host) Sample.visitor rfl none log authenticated c called named
        key on
      obtain ⟨again,found_again,handing,-⟩ := call_handed authenticated called
      obtain rfl : operation = again := by simpa using found.symm.trans found_again
      have same := (handing.calls carried).2
      rw [handed,Option.some.injEq] at same
      rw [same]
      exact (served carried).1
    · exact same

/-- Where a policy is read for a request, it is read for the handler's key. -/
theorem key_agrees (handled : ∀ (state : AppState) (message : Message), state.server_host = server_host →
      HandledAsJudged state request message)
    (found : s3_router request (apply_virtual_host server_host request) = some operation)
    (judged : is_valid_bucket_name (String.ofList (judged_bucket server_host request)))
    (handed : operation.bucket = some bucket) (calls : operation.calls request)
    (valid : is_valid_bucket_name (String.ofList bucket)) (keyed : operation.keyed) (asked : ¬ unjudged request) :
    judged_key server_host request = operation.key := by
  obtain ⟨t,made⟩ := policy_judged found handed asked
  obtain ⟨c,called,carried,rfl,own⟩ := open_server_call found judged handed calls (.inl valid)
  obtain ⟨of_path,op_keyed,key⟩ := own keyed
  have on : JudgedOn server_host request (some "alice".toList) t.bucket (some t.object_key) := .bucket_policy made
  have served := handled (Sample.open_server server_host) Sample.message rfl (some "alice".toList) []
    (Sample.server_authenticates server_host (some "") _ request _) c called _ _ on
  rw [← on.same.2 _ rfl,← key]
  exact (served carried).2 of_path op_keyed _ rfl

theorem plain_of_handled (handled : ∀ (state : AppState) (message : Message), state.server_host = server_host →
      HandledAsJudged state request message) : SentPlainly server_host request := by
  intro operation bucket found handed calls reached
  have agrees : ∀ named, virtual_bucket server_host request.host = some named → named = bucket := fun named host =>
    host_agrees handled found handed calls reached host
  refine ⟨agrees,fun keyed asked => ⟨fun host valid rest path => ?_,fun hosted => ?_⟩⟩
  · have judged : judged_bucket server_host request = bucket := by
      obtain ⟨named,whole,-,shape⟩ := route_object path
      rw [judged_bucket,host,Option.getD_none,first_piece_of_route named whole (.inr ⟨rest,shape⟩)]
    have key := key_agrees handled found (by rwa [judged]) handed calls valid keyed asked
    rw [judged_key_object host path] at key
    rcases router_cases found with rfl | ⟨_,_,other,-,-⟩ | ⟨segment,rest',b,k,again,-,taken,chosen⟩
    · simp [Operation.bucket] at handed
    · simp [path] at other
    · obtain ⟨-,rfl⟩ : bucket = segment ∧ rest = rest' := by simpa [path] using again
      rcases object_operation_target chosen with rfl | ⟨-,own⟩
      · simp [Operation.bucket] at handed
      · rw [own,Option.some.injEq] at key
        rw [taken,key]
  · obtain ⟨named,host⟩ := Option.ne_none_iff_exists'.mp hosted
    obtain rfl := agrees named host
    have valid := (virtual_bucket_nonempty host).2
    have judged : judged_bucket server_host request = named := by rw [judged_bucket,host]; rfl
    have key := key_agrees handled found (by rwa [judged]) handed calls valid keyed asked
    rcases router_cases found with rfl | ⟨segment,b,path,-,chosen⟩ | ⟨segment,rest,b,k,path,-,taken,chosen⟩
    · simp [Operation.bucket] at handed
    · rw [(judged_key_hosted host (.inl path)).1] at key
      rcases bucket_operation_key chosen with keyless | ⟨method,empty,-⟩
      · simp [keyless] at key
      · exact ⟨empty,method,segment,path⟩
    · -- the path is longer than the key that is decoded from its end
      exfalso
      obtain ⟨named,whole,-,shape⟩ := route_object path
      rw [(judged_key_hosted host (.inr ⟨rest,path⟩)).1] at key
      rcases object_operation_target chosen with rfl | ⟨-,own⟩
      · simp [Operation.bucket] at handed
      · rw [own,Option.some.injEq,shape,trim_routed named whole] at key
        have shorter := decode_utf8_length taken
        rw [← key] at shorter
        have slash : '/'.utf8Size = 1 := by decide
        simp [Text.bytes,slash] at shorter
        omega

end

/-- Whoever makes a request and whatever the store answers, the handler calls the store on what the request was judged
on, exactly when the request is sent plainly. -/
theorem handled_as_judged_iff (server_host : Text) (request : Request) :
    (∀ (state : AppState) (message : Message), state.server_host = server_host →
      HandledAsJudged state request message) ↔ SentPlainly server_host request := by
  constructor
  · exact plain_of_handled
  · rintro plain state message rfl
    exact handled_of_plain plain message

namespace Sample

/-- `GET /vault/secret`, sent to the virtual host of `logs`. -/
def get_elsewhere : Request := ⟨.GET,"/vault/secret".toList,[],some "logs.s3.local".toList,none⟩

end Sample

/-- `GET /vault/secret` at the host of `logs` is judged on a key of `logs` and answered from `vault`. -/
theorem get_elsewhere_handled :
    ¬ HandledAsJudged (Sample.open_server "s3.local".toList) Sample.get_elsewhere Sample.message := by
  intro handled
  have called : Event.call ⟨.get_object,"vault".toList,some "secret".toList,.path⟩ ∈
      ((Sample.open_server "s3.local".toList).auth_middleware Sample.get_elsewhere Sample.message []).2 := by
    decide +kernel
  have planned : plan_tenant_scope "s3.local".toList Sample.get_elsewhere
      (apply_virtual_host "s3.local".toList Sample.get_elsewhere) = some "logs".toList := by decide +kernel
  have served := handled (some "alice".toList) [] (Sample.server_authenticates "s3.local".toList (some "") _ _ _) _
    called _ _ (.tenant_scope planned)
  exact absurd (served (by simp)).1 (by decide)

end Maxio
