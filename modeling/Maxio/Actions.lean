import Maxio.Decisions

/-!
Requests whose decided action is the performed one.
-/

namespace Maxio

/-- What the routed handler does to the bucket was allowed to whoever makes the request: returning an object, deleting
one, storing bytes of one. -/
structure ActsAsDecided (access_key : Option Text) (bucket : Text) (log : List Event) (r : Except S3Error Response) :
    Prop where
  returned : ∀ key, r = .ok (.object bucket key) → Decided access_key bucket "s3:GetObject" log
  deleted : ∀ c, .call c ∈ log → c.bucket = bucket → c.op.deletes → Decided access_key bucket "s3:DeleteObject" log
  stored : ∀ c, .call c ∈ log → c.bucket = bucket → c.op.stores → Decided access_key bucket "s3:PutObject" log

/-- A request whose handler acts on a bucket is not sent to the host of another bucket, and, when it reads or deletes
one object, its query names no upload. -/
def DecidedFor (server_host : Text) (request : Request) : Prop :=
  ∀ operation bucket, s3_router request (apply_virtual_host server_host request) = some operation →
    operation.bucket = some bucket → is_valid_bucket_name (String.ofList bucket) →
    (operation.returns request ∨ operation.deletes ∨ operation.stores request) →
    (∀ named, virtual_bucket server_host request.host = some named → named = bucket) ∧
    ((operation.returns request ∨ ∃ key, operation = .delete_object bucket key) →
      (virtual_bucket server_host request.host ≠ none ∨ judged_bucket server_host request = bucket) →
      names_upload request.query = false)

section
variable {state : AppState} {request : Request} {message : Message}

/-- The bucket of a handler is the judged one as soon as that has a valid name and no host names another. -/
theorem judged_eq_handled {server_host bucket : Text} {operation : Operation}
    (found : s3_router request (apply_virtual_host server_host request) = some operation)
    (handed : operation.bucket = some bucket)
    (agrees : ∀ named, virtual_bucket server_host request.host = some named → named = bucket)
    (valid : is_valid_bucket_name (String.ofList (judged_bucket server_host request))) :
    judged_bucket server_host request = bucket := by
  obtain ⟨segment,decoded,routed⟩ := routed_of_router found (by simp [handed])
  cases host : virtual_bucket server_host request.host with
  | some named =>
    rw [judged_bucket,host]
    exact agrees named host
  | none =>
    obtain ⟨first,given,same⟩ := routed.bucket_eq host
    rw [first] at valid ⊢
    rw [given,Option.some.injEq] at handed
    rw [← handed]
    exact (same valid).symm

/-- Only a PUT copies, and no PUT is anonymous. -/
theorem copies_put {vhost : Option VirtualHostContext} {operation : Operation}
    (found : s3_router request vhost = some operation) (copies : operation.copies) : request.method = .PUT := by
  cases operation <;> first | exact copies.elim | exact router_method found rfl

theorem signed_put {vhost : Option VirtualHostContext} {log log' : List Event} {access_key : Option Text}
    (authenticated : state.authenticate request message vhost log = (.ok access_key,log'))
    (put : request.method = .PUT) : access_key ≠ none := by
  rintro rfl
  unfold AppState.authenticate at authenticated
  split at authenticated
  · obtain ⟨k,l,-,ended⟩ := Prog.bind_ok_iff.mp authenticated
    simp at ended
  · obtain ⟨passed,l,bypass,ended⟩ := Prog.bind_ok_iff.mp authenticated
    have closed : passed = false := by
      have refused : state.public_bypass request message vhost = pure false := by
        simp [AppState.public_bypass,AppState.is_public_bypass_allowed,put]
      rw [refused,Prog.pure_apply,Prod.mk.injEq,Except.ok.injEq] at bypass
      exact bypass.1.symm
    rw [closed] at ended
    simp only [Bool.false_eq_true,if_false] at ended
    split at ended
    · simp at ended
    · obtain ⟨k,l,-,ended⟩ := Prog.bind_ok_iff.mp ended
      simp at ended

/-- A decision of the middleware on the bucket of the handler. -/
theorem authorised_decision {bucket : Text} {operation : Operation} {access_key : Option Text} {past : List Event}
    {action : String} {target : BucketPolicyTarget} (enforces : EnforcesV2 state bucket)
    (found : s3_router request (apply_virtual_host state.server_host request) = some operation)
    (handed : operation.bucket = some bucket)
    (agrees : ∀ named, virtual_bucket state.server_host request.host = some named → named = bucket)
    (named : target.bucket = judged_bucket state.server_host request)
    (authorised : is_valid_bucket_name (String.ofList target.bucket) ∧
      (EnforcesV2 state target.bucket → Decided access_key target.bucket target.action past))
    (acts : judged_bucket state.server_host request = bucket → target.action = action) :
    Decided access_key bucket action past := by
  rw [named] at authorised
  have same : judged_bucket state.server_host request = bucket :=
    judged_eq_handled found handed agrees authorised.1
  rw [same,acts same] at authorised
  exact authorised.2 enforces

/-- What the middleware leaves for the handler: its decisions, and no call to the store. -/
structure Cleared (state : AppState) (request : Request) (access_key : Option Text) (past : List Event) : Prop where
  quiet : ∀ c, .call c ∉ past
  judged : ∀ t, bucket_policy_target_for_request state.server_host request
      (apply_virtual_host state.server_host request) = some t →
    is_valid_bucket_name (String.ofList t.bucket) ∧
      (EnforcesV2 state t.bucket → Decided access_key t.bucket t.action past)
  signed : request.method = .PUT → access_key ≠ none

section
variable {bucket client_ip : Text} {operation : Operation} {access_key : Option Text} {past : List Event}
  (decided : DecidedFor state.server_host request) (enforces : EnforcesV2 state bucket)
  (cleared : Cleared state request access_key past)
  (found : s3_router request (apply_virtual_host state.server_host request) = some operation)
include decided enforces cleared found

theorem returns_decided (handed : operation.bucket = some bucket) (returns : operation.returns request) :
    Decided access_key bucket "s3:GetObject" past := by
  obtain ⟨agrees,unnamed⟩ := decided operation bucket found handed enforces.1 (.inl returns)
  obtain ⟨t,made,named,acts⟩ := returns_target found returns
  refine authorised_decision enforces found handed agrees named (cleared.judged t made) ?_
  intro same
  rw [acts,unnamed (.inl returns) (.inr same)]
  rfl

theorem deletes_decided (handed : operation.bucket = some bucket) (deletes : operation.deletes) :
    Prog.Emits (fun new _ => (∃ c, .call c ∈ new) → Decided access_key bucket "s3:DeleteObject" (past ++ new))
      (state.handle request message ⟨access_key,apply_virtual_host state.server_host request,client_ip⟩ operation) := by
  obtain ⟨agrees,unnamed⟩ := decided operation bucket found handed enforces.1 (.inr (.inl deletes))
  cases operation with
  | delete_object b key =>
    obtain rfl : b = bucket := by simpa [Operation.bucket] using handed
    have granted : Decided access_key b "s3:DeleteObject" past := by
      obtain ⟨t,made,named,acts⟩ := delete_object_target found
      refine authorised_decision enforces found handed agrees named (cleared.judged t made) ?_
      intro same
      rw [acts,unnamed (.inr ⟨key,rfl⟩) (.inr same)]
      rfl
    have logged : Logs (fun _ => True) _ (state.handle request message
        ⟨access_key,apply_virtual_host state.server_host request,client_ip⟩ (.delete_object b key)) :=
      handle_logs _ ⟨by simp,by simp,by simp⟩ False.elim
    refine Prog.Emits.mono logged fun new _ _ _ => ?_
    simpa using granted.append [] new
  | delete_objects b =>
    obtain rfl : b = bucket := by simpa [Operation.bucket] using handed
    refine Prog.Emits.mono (delete_objects_backed enforces.1 agrees enforces) ?_
    intro new _ backed called
    simpa using (backed called).append past []
  | _ => exact deletes.elim

theorem stores_decided (handed : operation.bucket = some bucket) (stores : operation.stores request) :
    Prog.Emits (fun new _ => (∃ c, .call c ∈ new) → Decided access_key bucket "s3:PutObject" (past ++ new))
      (state.handle request message ⟨access_key,apply_virtual_host state.server_host request,client_ip⟩ operation) := by
  obtain ⟨agrees,-⟩ := decided operation bucket found handed enforces.1 (.inr (.inr stores))
  by_cases part : ∃ key, operation = .upload_part bucket key
  · obtain ⟨key,rfl⟩ := part
    have granted : Decided access_key bucket "s3:PutObject" past := by
      obtain ⟨put,segment,rest,path⟩ := upload_part_request found
      obtain ⟨t,made,named,acts⟩ := put_object_target put path
      exact authorised_decision enforces found handed agrees named (cleared.judged t made) fun _ => acts
    have logged : Logs (fun _ => True) _ (state.handle request message
        ⟨access_key,apply_virtual_host state.server_host request,client_ip⟩ (.upload_part bucket key)) :=
      handle_logs _ ⟨by simp,by simp,by simp⟩ False.elim
    refine Prog.Emits.mono logged fun new _ _ _ => ?_
    simpa using granted.append [] new
  · refine Prog.Emits.mono (stores_backed enforces.1 agrees enforces handed stores ?_ ?_) ?_
    · intro key same
      exact part ⟨key,same⟩
    · rintro key rfl
      exact complete_upload_request found
    · intro new _ backed called
      simpa using (backed called).append past []

end

/-- A handler behind the middleware does only what was decided on. -/
theorem respond_acts (decided : DecidedFor state.server_host request) {bucket : Text}
    (enforces : EnforcesV2 state bucket) {access_key : Option Text} {past : List Event}
    (cleared : Cleared state request access_key past) (client_ip : Text) :
    Prog.Emits (fun new r => ActsAsDecided access_key bucket (past ++ new) r)
      (state.respond request message ⟨access_key,apply_virtual_host state.server_host request,client_ip⟩) := by
  unfold AppState.respond
  simp only
  cases found : s3_router request (apply_virtual_host state.server_host request) with
  | none =>
    refine Prog.Emits.fail ⟨by simp,?_,?_⟩
    · intro c member
      exact absurd (by simpa using member) (cleared.quiet c)
    · intro c member
      exact absurd (by simpa using member) (cleared.quiet c)
  | some operation =>
    have admitted : Logs (operation.admits request access_key) (operation.answers request) (state.handle request message
        ⟨access_key,apply_virtual_host state.server_host request,client_ip⟩ operation) :=
      handle_logs operation ⟨fun _ _ => trivial,fun _ _ => ⟨trivial,fun _ _ => trivial⟩,fun _ admits => admits⟩
        fun copies => cleared.signed (copies_put found copies)
    have late : ∀ {new : List Event} {c : Call}, .call c ∈ past ++ new → .call c ∈ new := by
      intro new c member
      exact (List.mem_append.mp member).resolve_left (cleared.quiet c)
    have deleted := admitted.when fun mine : operation.bucket = some bucket ∧ operation.deletes =>
      deletes_decided decided enforces cleared found mine.1 mine.2
    have stored := admitted.when fun mine : operation.bucket = some bucket ∧ operation.stores request =>
      stores_decided decided enforces cleared found mine.1 mine.2
    refine (Prog.Emits.and admitted (deleted.and stored)).mono ?_
    rintro new r ⟨⟨events,answer⟩,deleted,stored⟩
    refine ⟨?_,?_,?_⟩
    · rintro key rfl
      obtain ⟨returns,handed⟩ := answer _ rfl
      simpa using (returns_decided decided enforces cleared found handed returns).append [] new
    · rintro c member rfl deletes
      obtain ⟨mine,handed⟩ := (events _ (late member)).1 deletes
      exact deleted ⟨handed,mine⟩ ⟨c,late member⟩
    · rintro c member rfl stores
      obtain ⟨mine,handed⟩ := (events _ (late member)).2.1 stores
      exact stored ⟨handed,mine⟩ ⟨c,late member⟩

theorem ActsAsDecided.append {access_key : Option Text} {bucket : Text} {before log : List Event}
    {r : Except S3Error Response} (acts : ActsAsDecided access_key bucket log r) (quiet : ∀ c, .call c ∉ before) :
    ActsAsDecided access_key bucket (before ++ log) r := by
  refine ⟨fun key ended => ?_,fun c member same deletes => ?_,fun c member same stores => ?_⟩
  · simpa using (acts.returned key ended).append before []
  · have late := (List.mem_append.mp member).resolve_left (quiet c)
    simpa using (acts.deleted c late same deletes).append before []
  · have late := (List.mem_append.mp member).resolve_left (quiet c)
    simpa using (acts.stored c late same stores).append before []

theorem acts_of_decided (decided : DecidedFor state.server_host request) (message : Message) {bucket : Text}
    (enforces : EnforcesV2 state bucket) {access_key : Option Text} {log : List Event}
    (authenticated : state.authenticate request message (apply_virtual_host state.server_host request) [] =
      (.ok access_key,log)) :
    ActsAsDecided access_key bucket (state.auth_middleware request message []).2
      (state.auth_middleware request message []).1 := by
  have quiet : ∀ c, .call c ∉ log := by
    have read : Logs (fun e => ∀ c, e ≠ .call c) (fun _ => True)
        (state.authenticate request message (apply_virtual_host state.server_host request)) :=
      authenticate_logs fun _ _ => by simp
    obtain ⟨new,added,silent,-⟩ := read []
    rw [authenticated] at added
    obtain rfl : log = new := by simpa using added
    intro c member
    exact silent _ member c rfl
  have run : state.auth_middleware request message [] = state.finalize_s3_request request message
      (apply_virtual_host state.server_host request) access_key log := Prog.bind_of_ok authenticated
  have rest : Prog.Emits (fun new r => ActsAsDecided access_key bucket new r)
      (state.finalize_s3_request request message (apply_virtual_host state.server_host request) access_key) := by
    refine Prog.Emits.bind authorise_decides ?_ ?_
    · rintro new e ⟨silent,-⟩
      refine ⟨by simp,fun c member => ?_,fun c member => ?_⟩
      · exact absurd member (silent c)
      · exact absurd member (silent c)
    · rintro _ past ⟨silent,judged⟩
      exact respond_acts decided enforces ⟨silent,judged () rfl,signed_put authenticated⟩ _
  obtain ⟨new,added,acts⟩ := rest log
  rw [run,added]
  exact acts.append quiet

end
/-! ### A server on which an undecided request gets through -/

namespace Sample

/-- Every bucket belongs to the tenant of the users, and has a policy that allows everything. -/
def open_server (server_host : Text) : AppState := server server_host (fun _ => "blue") (some "")

theorem open_server_enforces {server_host bucket : Text} (valid : is_valid_bucket_name (String.ofList bucket)) :
    EnforcesV2 (open_server server_host) bucket := ⟨valid,fun _ => ⟨_,_,rfl,rfl,rfl⟩⟩

section
variable {server_host bucket : Text} {request : Request} {ctx : S3RequestContext} {access_key : Text}

theorem judges_valid (valid : is_valid_bucket_name (String.ofList bucket)) {target : BucketPolicyTarget} {method : Method}
    {object_key : Option Text} {query : Text}
    (made : (open_server server_host).gate_target request.host ctx method (AppState.gate_path bucket object_key) query =
      some target) : is_valid_bucket_name (String.ofList target.bucket) := by
  rw [AppState.gate_target,resolve_policy_target_from_parts] at made
  split at made
  · simp at made
  obtain ⟨pair,cut,made⟩ := Option.bind_eq_some_iff.mp made
  obtain ⟨action,-,rfl⟩ := Option.map_eq_some_iff.mp made
  rw [extract_judged_bucket cut]
  cases host : virtual_bucket (open_server server_host).server_host request.host with
  | some named => exact (virtual_bucket_nonempty host).2
  | none =>
    have first : Text.first_piece '/' (Text.trim_start '/' (AppState.gate_path bucket object_key)) = bucket := by
      refine first_piece_of_route (valid_bucket_chars valid).1 (slash_not_mem_valid valid) ?_
      cases object_key with
      | none => exact .inl rfl
      | some key => exact .inr ⟨key,rfl⟩
    rw [Option.getD_none,first]
    exact valid

theorem server_gate (server_host : Text) (request : Request) (principal : ctx.principal = some access_key) (valid : is_valid_bucket_name (String.ofList bucket))
    (method : Method) (object_key : Option Text) (query : Text) (log : List Event) :
    ∃ log', (do
      (open_server server_host).enforce_tenant_bucket ctx bucket
      (open_server server_host).enforce_bucket_policy_for_target
        ((open_server server_host).gate_target request.host ctx method (AppState.gate_path bucket object_key) query)
        ctx.principal ctx.client_ip : Handler Unit) log = (.ok (),log') := by
  have tenant : ∃ log', (open_server server_host).enforce_tenant_bucket ctx bucket log = (.ok (),log') := by
    rw [AppState.enforce_tenant_bucket,principal]
    exact server_access server_host (some "") valid rfl log
  obtain ⟨log',passed⟩ := tenant
  rw [Prog.bind_of_ok passed]
  cases made : (open_server server_host).gate_target request.host ctx method (AppState.gate_path bucket object_key)
      query with
  | none => exact ⟨log',rfl⟩
  | some target => exact server_judges server_host (some "") ctx.client_ip (judges_valid valid made) log'

theorem server_gates (server_host : Text) (request : Request) (principal : ctx.principal = some access_key)
    (valid : is_valid_bucket_name (String.ofList bucket)) (method : Method) (object_key : Option Text) (params : Params)
    (log : List Event) :
    ∃ log', (open_server server_host).gates request ctx method bucket object_key params log = (.ok (),log') :=
  server_gate server_host request principal valid method object_key _ log

theorem server_copy_gates (server_host : Text) (principal : ctx.principal = some access_key)
    (valid : is_valid_bucket_name (String.ofList bucket)) (copies : copiesFrom request) (key : Text) (log : List Event) :
    ∃ source log', (open_server server_host).copy_gates request ctx bucket key log = (.ok source,log') := by
  obtain ⟨source,parsed,named⟩ := copies
  obtain ⟨log₁,first⟩ := server_gates server_host request principal valid .PUT (some key)
    (parse_query request.query) log
  obtain ⟨log₂,second⟩ := server_gate server_host request principal named .GET
    (some source.2) [] log₁
  refine ⟨source,log₂,?_⟩
  rw [AppState.copy_gates,Prog.bind_of_ok first,parsed,Prog.lift_ok_bind,AppState.enforce_copy_source_gates,
    Prog.bind_of_ok second]
  rfl

/-- Reads of an object go through on the open server. -/
theorem server_returns (principal : ctx.principal = some access_key)
    (valid : is_valid_bucket_name (String.ofList bucket)) {operation : Operation}
    (handed : operation.bucket = some bucket) (returns : operation.returns request) (log : List Event) :
    ∃ key, ((open_server server_host).handle request message ctx operation log).1 = .ok (.object bucket key) := by
  cases operation with
  | head_object b key =>
    obtain rfl : b = bucket := by simpa [Operation.bucket] using handed
    obtain ⟨log₁,gate⟩ := server_gates server_host request principal valid .HEAD (some key)
      (parse_query request.query) log
    refine ⟨key,?_⟩
    rw [AppState.handle,AppState.head_object,Prog.bind_of_ok gate]
    rfl
  | get_object read b key =>
    obtain rfl : b = bucket := by simpa [Operation.bucket] using handed
    obtain ⟨log₁,gate⟩ := server_gates server_host request principal valid .GET (some key)
      (parse_query request.query) log
    refine ⟨key,?_⟩
    cases read with
    | parts => exact returns.elim
    | bytes =>
      rw [AppState.handle,AppState.get_object,Prog.bind_of_ok gate]
      simp only [AppState.get_bytes]
      cases numbered : (parse_query request.query).get "partNumber" with
      | none => rfl
      | some text =>
        cases parsed : parseUnsigned (2 ^ 32 - 1) (String.ofList text) with
        | none => exact absurd parsed (returns text numbered)
        | some n =>
          simp only [parsed]
          rfl
    | _ =>
      rw [AppState.handle,AppState.get_object,Prog.bind_of_ok gate]
      rfl
  | _ => exact returns.elim

/-- So do deletions. -/
theorem server_deletes (principal : ctx.principal = some access_key)
    (valid : is_valid_bucket_name (String.ofList bucket)) {operation : Operation}
    (handed : operation.bucket = some bucket) (deletes : operation.deletes) (log : List Event) :
    ∃ c, .call c ∈ ((open_server server_host).handle request message ctx operation log).2 ∧ c.bucket = bucket ∧
      c.op.deletes ∧ c.origin ≠ .copy_source ∧ (operation.keyed → c.origin = .path ∧ c.op.keyed) := by
  have present : ∀ log, (open_server server_host).ensure_bucket_exists bucket log =
      (.ok (),log ++ [.check .head_bucket bucket]) := server_exists server_host (some "") valid
  cases operation with
  | delete_object b key =>
    obtain rfl : b = bucket := by simpa [Operation.bucket] using handed
    obtain ⟨log₁,gate⟩ := server_gates server_host request principal valid .DELETE
      (some key) (parse_query request.query) (log ++ [.check .head_bucket b])
    rw [AppState.handle,AppState.delete_object,Prog.bind_of_ok (present log),Prog.bind_of_ok gate]
    by_cases versioned : (parse_query request.query).contains_key "versionId"
    · refine ⟨⟨.delete_object_version,b,some key,.path⟩,?_,rfl,rfl,by simp,by simp [Operation.keyed,Op.keyed]⟩
      simp [versioned,Prog.bind_apply,open_server,server_call]
    · refine ⟨⟨.delete_object,b,some key,.path⟩,?_,rfl,rfl,by simp,by simp [Operation.keyed,Op.keyed]⟩
      simp [versioned,Prog.bind_apply,open_server,server_call,AppState.get_bucket_notification,AppState.reading]
  | delete_objects b =>
    obtain rfl : b = bucket := by simpa [Operation.bucket] using handed
    obtain ⟨log₁,gate⟩ := server_gates server_host request principal valid .POST none
      [("delete".toList,[])] (log ++ [.check .head_bucket b])
    obtain ⟨log₂,each⟩ := server_gates server_host request principal valid .DELETE
      (some ['k']) [] log₁
    refine ⟨⟨.delete_object,b,some "k".toList,.body⟩,?_,rfl,rfl,by simp,by simp [Operation.keyed,Op.keyed]⟩
    rw [AppState.handle,AppState.delete_objects,Prog.bind_of_ok (present log),Prog.bind_of_ok gate]
    simp [message,Prog.each,Prog.bind_apply,each,AppState.attempt_call]
  | _ => exact deletes.elim

/-- And writes. -/
theorem server_stores (principal : ctx.principal = some access_key)
    (valid : is_valid_bucket_name (String.ofList bucket)) {operation : Operation}
    (handed : operation.bucket = some bucket) (stores : operation.stores request) (log : List Event) :
    ∃ c, .call c ∈ ((open_server server_host).handle request message ctx operation log).2 ∧ c.bucket = bucket ∧
      c.op.stores ∧ c.origin ≠ .copy_source ∧ (operation.keyed → c.origin = .path ∧ c.op.keyed) := by
  have present : ∀ log, (open_server server_host).ensure_bucket_exists bucket log =
      (.ok (),log ++ [.check .head_bucket bucket]) := server_exists server_host (some "") valid
  cases operation with
  | put_object b key =>
    obtain rfl : b = bucket := by simpa [Operation.bucket] using handed
    obtain ⟨log₁,gate⟩ := server_gates server_host request principal valid .PUT
      (some key) (parse_query request.query) (log ++ [.check .head_bucket b])
    refine ⟨⟨.put_object,b,some key,.path⟩,?_,rfl,rfl,by simp,by simp [Operation.keyed,Op.keyed]⟩
    rw [AppState.handle,AppState.put_object,Prog.bind_of_ok (present log),Prog.bind_of_ok gate]
    simp [message,Prog.bind_apply,open_server,server_call,AppState.require_default_encryption,
      AppState.get_bucket_notification,AppState.reading]
  | upload_part b key =>
    obtain rfl : b = bucket := by simpa [Operation.bucket] using handed
    refine ⟨⟨.upload_part,b,none,.path⟩,?_,rfl,rfl,by simp,by simp [Operation.keyed,Op.keyed]⟩
    rw [AppState.handle,AppState.upload_part,Prog.bind_of_ok (present log)]
    cases number : part_number (parse_query request.query) with
    | error e => simp [Operation.stores,number,Except.toBool] at stores
    | ok n => simp [message,Prog.bind_apply,open_server,server_call]
  | upload_part_copy b key =>
    obtain rfl : b = bucket := by simpa [Operation.bucket] using handed
    obtain ⟨source,log₁,gate⟩ := server_copy_gates server_host principal valid stores.1 key log
    refine ⟨⟨.upload_part,b,none,.path⟩,?_,rfl,rfl,by simp,by simp [Operation.keyed,Op.keyed]⟩
    rw [AppState.handle,AppState.upload_part_copy,Prog.bind_of_ok gate]
    cases number : part_number (parse_query request.query) with
    | error e => simp [Operation.stores,number,Except.toBool] at stores
    | ok n =>
      rw [Prog.lift_ok_bind,Prog.bind_of_ok (present log₁)]
      simp [message,Prog.bind_apply,open_server,server_call]
  | copy_object b key =>
    obtain rfl : b = bucket := by simpa [Operation.bucket] using handed
    obtain ⟨source,log₁,gate⟩ := server_copy_gates server_host principal valid stores key log
    refine ⟨⟨.put_object,b,some key,.path⟩,?_,rfl,rfl,by simp,by simp [Operation.keyed,Op.keyed]⟩
    rw [AppState.handle,AppState.copy_object,Prog.bind_of_ok gate,Prog.bind_of_ok (present log₁)]
    simp [message,Prog.bind_apply,open_server,server_call,AppState.default_encryption]
  | post_object post b key =>
    obtain rfl : b = bucket := by simpa [Operation.bucket] using handed
    cases post with
    | complete_upload =>
      obtain ⟨log₁,gate⟩ := server_gates server_host request principal valid .POST
        (some key) (parse_query request.query) log
      refine ⟨⟨.complete_multipart_upload,b,none,.path⟩,?_,rfl,rfl,by simp,by simp [Operation.keyed,Op.keyed]⟩
      rw [AppState.handle,AppState.post_object,Prog.bind_of_ok gate]
      rw [Prog.bind_of_ok (present log₁)]
      simp [message,Prog.bind_apply,open_server,server_call]
    | _ => exact stores.elim
  | _ => exact stores.elim

end
end Sample

section
variable {server_host : Text} {request : Request} {operation : Operation} {bucket : Text}

/-- The buckets that a request is checked on have valid names when it gets past the middleware. -/
theorem AppState.authorise_logs {state : AppState} {message : Message} {vhost : Option VirtualHostContext}
    {access_key : Option Text} {P : Event → Prop} (checks : ∀ read bucket, P (.check read bucket))
    (judged : ∀ t, bucket_policy_target_for_request state.server_host request vhost = some t →
      P (.judged t) ∧ ∀ k d, P (.decided t k d)) :
    Logs P (fun _ =>
      (∀ bucket, plan_tenant_scope state.server_host request vhost = some bucket → access_key ≠ none →
        is_valid_bucket_name (String.ofList bucket)) ∧
      ∀ t, bucket_policy_target_for_request state.server_host request vhost = some t →
        is_valid_bucket_name (String.ofList t.bucket))
      (state.authorise request message vhost access_key) := by
  have scope : Logs P (fun _ => ∀ bucket, plan_tenant_scope state.server_host request vhost = some bucket →
      access_key ≠ none → is_valid_bucket_name (String.ofList bucket))
      (state.enforce_tenant_scope request vhost access_key) := by
    unfold enforce_tenant_scope
    cases plan_tenant_scope state.server_host request vhost with
    | some bucket =>
      have tenant : Logs P _ (state.enforce_tenant_bucket ⟨access_key,vhost,[]⟩ bucket) :=
        enforce_tenant_bucket_logs checks bucket
      refine tenant.mono fun _ named => ?_
      rintro _ ⟨⟩ known
      exact named known
    | none => exact .pure (by simp)
  exact Logs.bind scope fun _ planned => (policy_gate_logs judged _ _).mono fun _ named => ⟨planned,named⟩

/-- On the open server a request gets to its handler as soon as the bucket it is judged on has a valid name. -/
theorem open_server_run (found : s3_router request (apply_virtual_host server_host request) = some operation)
    (valid : is_valid_bucket_name (String.ofList (judged_bucket server_host request))) :
    ∃ log, (Sample.open_server server_host).auth_middleware request Sample.message [] =
      (Sample.open_server server_host).handle request Sample.message
        ⟨some "alice".toList,apply_virtual_host server_host request,[]⟩ operation log ∧
      ∀ t k d, .decided t k d ∈ log →
        bucket_policy_target_for_request server_host request (apply_virtual_host server_host request) = some t := by
  have authenticated : (Sample.open_server server_host).authenticate request Sample.message
      (apply_virtual_host server_host request) [] = (.ok (some "alice".toList),[]) :=
    Sample.server_authenticates server_host (some "") _ request _
  have scope : ∃ log, (Sample.open_server server_host).enforce_tenant_scope request
      (apply_virtual_host server_host request) (some "alice".toList) [] = (.ok (),log) := by
    unfold AppState.enforce_tenant_scope
    rw [show (Sample.open_server server_host).server_host = server_host from rfl]
    cases planned : plan_tenant_scope server_host request (apply_virtual_host server_host request) with
    | none => exact ⟨[],rfl⟩
    | some scope =>
      obtain ⟨rfl,-⟩ := plan_tenant_scope_bucket planned
      exact Sample.server_access server_host (some "") valid rfl []
  have authorised : ∃ log, (Sample.open_server server_host).authorise request Sample.message
      (apply_virtual_host server_host request) (some "alice".toList) [] = (.ok (),log) := by
    obtain ⟨log,scope⟩ := scope
    rw [AppState.authorise,Prog.bind_of_ok scope]
    change ∃ log', (Sample.open_server server_host).enforce_bucket_policy_for_target
      (bucket_policy_target_for_request server_host request (apply_virtual_host server_host request)) _ _ _ = (.ok (),log')
    cases made : bucket_policy_target_for_request server_host request (apply_virtual_host server_host request) with
    | none => exact ⟨log,rfl⟩
    | some target =>
      refine Sample.server_judges server_host (some "") Sample.message.client_ip ?_ log
      rwa [policy_target_bucket made]
  obtain ⟨log,authorised⟩ := authorised
  refine ⟨log,?_,?_⟩
  · have start : (Sample.open_server server_host).auth_middleware request Sample.message [] =
        (Sample.open_server server_host).finalize_s3_request request Sample.message
          (apply_virtual_host server_host request) (some "alice".toList) [] := Prog.bind_of_ok authenticated
    rw [start,AppState.finalize_s3_request,Prog.bind_of_ok authorised,AppState.respond,found]
    rfl
  · have logs : Logs (fun e => ∀ t k d, e = .decided t k d → bucket_policy_target_for_request server_host request
        (apply_virtual_host server_host request) = some t) (fun _ => True)
        ((Sample.open_server server_host).authorise request Sample.message (apply_virtual_host server_host request)
          (some "alice".toList)) := by
      refine (AppState.authorise_logs (by simp) fun t made => ⟨by simp,?_⟩).mono fun _ _ => trivial
      rintro k d _ _ _ ⟨⟩
      exact made
    obtain ⟨new,added,judged,-⟩ := logs []
    rw [authorised] at added
    obtain rfl : log = new := by simpa using added
    exact fun t k d member => judged _ member t k d rfl

/-- Every decision of the run has a property that the targets of the request have. -/
theorem open_server_decisions (found : s3_router request (apply_virtual_host server_host request) = some operation)
    (valid : is_valid_bucket_name (String.ofList (judged_bucket server_host request))) {Q : BucketPolicyTarget → Prop}
    (asked : ∀ t, bucket_policy_target_for_request server_host request (apply_virtual_host server_host request) = some t →
      Q t)
    (gated : ∀ t, operation.judges (Sample.open_server server_host) request
      ⟨some "alice".toList,apply_virtual_host server_host request,[]⟩ t → Q t) :
    ∀ t k d, .decided t k d ∈ ((Sample.open_server server_host).auth_middleware request Sample.message []).2 → Q t := by
  obtain ⟨log,run,early⟩ := open_server_run found valid
  have logs : Logs (fun e => ∀ t k d, e = .decided t k d → Q t) (operation.answers request)
      ((Sample.open_server server_host).handle request Sample.message
        ⟨some "alice".toList,apply_virtual_host server_host request,[]⟩ operation) := by
    refine handle_logs operation ⟨by simp,?_,by simp⟩ (by simp)
    refine fun t judges => ⟨by simp,?_⟩
    rintro k d _ _ _ ⟨⟩
    exact gated t judges
  obtain ⟨new,added,late,-⟩ := logs log
  rw [run,added]
  intro t k d member
  rcases List.mem_append.mp member with first | second
  · exact asked t (early t k d first)
  · exact late _ second t k d rfl

/-- What the open server does was decided on, if it acts as decided. -/
theorem open_server_acts (found : s3_router request (apply_virtual_host server_host request) = some operation)
    (judged : is_valid_bucket_name (String.ofList (judged_bucket server_host request)))
    (handed : operation.bucket = some bucket) (valid : is_valid_bucket_name (String.ofList bucket))
    (acts : ActsAsDecided (some "alice".toList) bucket
      ((Sample.open_server server_host).auth_middleware request Sample.message []).2
      ((Sample.open_server server_host).auth_middleware request Sample.message []).1) :
    (operation.returns request → Decided (some "alice".toList) bucket "s3:GetObject"
      ((Sample.open_server server_host).auth_middleware request Sample.message []).2) ∧
    (operation.deletes → Decided (some "alice".toList) bucket "s3:DeleteObject"
      ((Sample.open_server server_host).auth_middleware request Sample.message []).2) ∧
    (operation.stores request → Decided (some "alice".toList) bucket "s3:PutObject"
      ((Sample.open_server server_host).auth_middleware request Sample.message []).2) := by
  obtain ⟨log,run,-⟩ := open_server_run found judged
  have signed : (S3RequestContext.mk (some "alice".toList) (apply_virtual_host server_host request) []).principal =
      some "alice".toList := rfl
  refine ⟨fun returns => ?_,fun deletes => ?_,fun stores => ?_⟩
  · obtain ⟨key,ended⟩ := Sample.server_returns signed valid handed returns log
    exact acts.returned key (by rw [run]; exact ended)
  · obtain ⟨c,called,same,op,-⟩ := Sample.server_deletes signed valid handed deletes log
    exact acts.deleted c (by rw [run]; exact called) same op
  · obtain ⟨c,called,same,op,-⟩ := Sample.server_stores signed valid handed stores log
    exact acts.stored c (by rw [run]; exact called) same op

theorem target_named {method : Method} {path query named : Text} {host signature_path : Option Text}
    {target : BucketPolicyTarget} (hosted : virtual_bucket server_host host = some named)
    (made : resolve_policy_target_from_parts server_host method path query host signature_path = some target) :
    target.bucket = named := by
  rw [resolve_policy_target_from_parts] at made
  split at made
  · simp at made
  obtain ⟨pair,cut,made⟩ := Option.bind_eq_some_iff.mp made
  obtain ⟨action,-,rfl⟩ := Option.map_eq_some_iff.mp made
  rw [extract_judged_bucket cut,hosted]
  rfl

theorem target_uploads {method : Method} {path query : Text} {host signature_path : Option Text}
    {target : BucketPolicyTarget} (uploads : names_upload query)
    (made : resolve_policy_target_from_parts server_host method path query host signature_path = some target) :
    target.action = "s3:PutObject" := by
  rw [resolve_policy_target_from_parts] at made
  split at made
  · simp at made
  obtain ⟨pair,cut,made⟩ := Option.bind_eq_some_iff.mp made
  obtain ⟨action,acts,rfl⟩ := Option.map_eq_some_iff.mp made
  have upload : s3_action_for_request method query pair.2.isSome = some "s3:PutObject" := if_pos uploads
  rw [upload,Option.some.injEq] at acts
  exact acts.symm

/-- The gates see the same names in the query they put together as the middleware in the one it was sent. -/
theorem names_upload_query_string {state : AppState} {query : Text} (uploads : names_upload query) :
    names_upload (state.query_string (parse_query query)) := by
  have kept : ∀ key : String, key.toList ≠ [] → (∀ c ∈ key.toList.map Char.toLower, c.isLower) →
      query_has_key query key → query_has_key (state.query_string (parse_query query)) key := by
    intro key nonempty letters present
    obtain ⟨name,value,member,spelled,joint,equals⟩ := param_of_query_has_key nonempty letters present
    obtain ⟨kept,listed⟩ := entry_of_param member
    exact query_has_key_of_entry ((state.shuffled _).mem_iff.mpr listed) joint equals spelled
  rw [names_upload,Bool.or_eq_true] at uploads ⊢
  exact uploads.imp (kept "uploadId" (by decide) (List.all_eq_true.mp (by decide)))
    (kept "uploads" (by decide) (List.all_eq_true.mp (by decide)))

theorem not_decided {Q : BucketPolicyTarget → Prop} {access_key : Option Text} {action : String} {log : List Event}
    (all : ∀ t k d, .decided t k d ∈ log → Q t) (apart : ∀ t, Q t → t.bucket = bucket → t.action ≠ action) :
    ¬ Decided access_key bucket action log := by
  rintro ⟨t,member,same,acts⟩
  exact apart t (all t _ _ member) same acts

theorem decided_of_acts
    (acts : ∀ (state : AppState) (message : Message) (bucket : Text), state.server_host = server_host →
      EnforcesV2 state bucket → ∀ access_key log,
      state.authenticate request message (apply_virtual_host state.server_host request) [] = (.ok access_key,log) →
      ActsAsDecided access_key bucket (state.auth_middleware request message []).2
        (state.auth_middleware request message []).1) : DecidedFor server_host request := by
  intro operation bucket found handed valid does
  have served := acts (Sample.open_server server_host) Sample.message bucket rfl (Sample.open_server_enforces valid)
    (some "alice".toList) [] (Sample.server_authenticates server_host (some "") _ request _)
  refine ⟨?_,?_⟩
  · intro named host
    by_contra apart
    have judged : is_valid_bucket_name (String.ofList (judged_bucket server_host request)) := by
      rw [judged_bucket,host]
      exact (virtual_bucket_nonempty host).2
    have decisions := open_server_decisions found judged (fun t made => target_named host made) <| by
      rintro t ⟨_,_,_,made,_⟩
      exact target_named host made
    obtain ⟨returned,deleted,stored⟩ := open_server_acts found judged handed valid served
    have elsewhere : ∀ action, ¬ Decided (some "alice".toList) bucket action
        ((Sample.open_server server_host).auth_middleware request Sample.message []).2 := by
      intro action
      refine not_decided decisions fun t of_host same => ?_
      exact absurd (of_host.symm.trans same) apart
    rcases does with returns | deletes | stores
    · exact elsewhere _ (returned returns)
    · exact elsewhere _ (deleted deletes)
    · exact elsewhere _ (stored stores)
  · intro one known
    by_contra uploads
    rw [Bool.not_eq_false] at uploads
    have judged : is_valid_bucket_name (String.ofList (judged_bucket server_host request)) := by
      rcases known with hosted | same
      · obtain ⟨named,host⟩ := Option.ne_none_iff_exists'.mp hosted
        rw [judged_bucket,host]
        exact (virtual_bucket_nonempty host).2
      · rwa [same]
    have single : ¬ operation.copies ∧ ∀ b, operation ≠ .delete_objects b := by
      rcases one with returns | ⟨key,rfl⟩
      · cases operation <;> first | exact returns.elim | exact ⟨id,by simp⟩
      · exact ⟨id,by simp⟩
    have decisions := open_server_decisions found judged (fun t made => target_uploads uploads made) <| by
      rintro t ⟨_,_,query,made,rfl | copies | ⟨b,batch⟩⟩
      · exact target_uploads (names_upload_query_string uploads) made
      · exact absurd copies single.1
      · exact absurd batch (single.2 b)
    obtain ⟨returned,deleted,-⟩ := open_server_acts found judged handed valid served
    rcases one with returns | ⟨key,rfl⟩
    · exact not_decided decisions (fun t put _ => by simp [put]) (returned returns)
    · exact not_decided decisions (fun t put _ => by simp [put]) (deleted trivial)

end

/-- Whoever makes a request and whatever the store answers, what the routed handler does was decided on, exactly when
no host stands for another bucket and no query makes a read or a deletion pass for an upload. -/
theorem acts_as_decided_iff (server_host : Text) (request : Request) :
    (∀ (state : AppState) (message : Message) (bucket : Text), state.server_host = server_host →
      EnforcesV2 state bucket → ∀ access_key log,
      state.authenticate request message (apply_virtual_host state.server_host request) [] = (.ok access_key,log) →
      ActsAsDecided access_key bucket (state.auth_middleware request message []).2
        (state.auth_middleware request message []).1) ↔ DecidedFor server_host request := by
  constructor
  · exact decided_of_acts
  · rintro decided state message bucket rfl enforces access_key log authenticated
    exact acts_of_decided decided message enforces authenticated

namespace Sample

/-- `GET /logs/a?uploads`. -/
def get_as_upload : Request := ⟨.GET,"/logs/a".toList,"uploads".toList,none,none⟩

end Sample

/-- `GET /logs/a?uploads` is answered with the object after decisions on uploads alone. -/
theorem get_as_upload_undecided :
    ¬ ∀ access_key log, EnforcesV2 (Sample.open_server "s3.local".toList) "logs".toList →
      (Sample.open_server "s3.local".toList).authenticate Sample.get_as_upload Sample.message
        (apply_virtual_host "s3.local".toList Sample.get_as_upload) [] = (.ok access_key,log) →
      ActsAsDecided access_key "logs".toList
        ((Sample.open_server "s3.local".toList).auth_middleware Sample.get_as_upload Sample.message []).2
        ((Sample.open_server "s3.local".toList).auth_middleware Sample.get_as_upload Sample.message []).1 := by
  intro claimed
  have acts := claimed (some "alice".toList) [] (Sample.open_server_enforces (by decide +kernel))
    (Sample.server_authenticates "s3.local".toList (some "") _ Sample.get_as_upload _)
  have returned : ((Sample.open_server "s3.local".toList).auth_middleware Sample.get_as_upload Sample.message []).1 =
      .ok (.object "logs".toList "a".toList) := by decide +kernel
  have asked : (((Sample.open_server "s3.local".toList).auth_middleware Sample.get_as_upload Sample.message []).2.all
      fun e => match e with
        | .decided t _ _ => t.action = "s3:PutObject"
        | _ => true) = true := by decide +kernel
  obtain ⟨t,member,-,acts⟩ := acts.returned _ returned
  have other := List.all_eq_true.mp asked _ member
  simp [acts] at other

end Maxio
