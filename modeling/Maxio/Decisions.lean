import Maxio.Isolation

/-!
The action a policy decided on and the action a handler performs.
-/

namespace Maxio

/-- The policy of the bucket allowed the action to whoever makes the request. -/
def Decided (access_key : Option Text) (bucket : Text) (action : String) (log : List Event) : Prop :=
  ∃ target, .decided target access_key .Allow ∈ log ∧ target.bucket = bucket ∧ target.action = action

theorem Decided.append {access_key : Option Text} {bucket : Text} {action : String} {log : List Event}
    (decided : Decided access_key bucket action log) (before after : List Event) :
    Decided access_key bucket action (before ++ log ++ after) := by
  obtain ⟨target,member,same⟩ := decided
  exact ⟨target,by simp [member],same⟩

theorem decided_grows {access_key : Option Text} {bucket : Text} {action : String} (a b : List Event)
    (decided : Decided access_key bucket action b) : Decided access_key bucket action (a ++ b) := by
  simpa using decided.append a []

/-- Calls that delete an object or a version. -/
def Op.deletes : Op → Bool
  | .delete_object | .delete_object_version => true
  | _ => false

/-- Calls that store bytes of an object. -/
def Op.stores : Op → Bool
  | .put_object | .upload_part | .complete_multipart_upload => true
  | _ => false

/-- Calls that pass on a bucket, or a bucket and a key. The others pass on the id of an upload. -/
def Op.keyed : Op → Bool
  | .upload_part | .list_parts | .abort_multipart_upload | .complete_multipart_upload => false
  | _ => true

/-! ### What an operation may do -/

/-- The parts of a request that an operation needs to get to its storage call. -/
def copiesFrom (request : Request) : Prop :=
  ∃ source, parse_copy_source request = .ok source ∧ is_valid_bucket_name (String.ofList source.1)

/-- The part of a request that a read of an object's bytes still looks at. -/
def readable (request : Request) : Prop :=
  ∀ text, (parse_query request.query).get "partNumber" = some text →
    parseUnsigned (2 ^ 32 - 1) (String.ofList text) ≠ none

/-- Operations that answer with bytes or metadata of their object. -/
def Operation.returns (request : Request) : Operation → Prop
  | .head_object _ _ => True
  | .get_object .parts _ _ => False
  | .get_object .bytes _ _ => readable request
  | .get_object _ _ _ => True
  | _ => False

/-- Operations that store bytes. -/
def Operation.stores (request : Request) : Operation → Prop
  | .put_object _ _ => True
  | .copy_object _ _ => copiesFrom request
  | .upload_part _ _ => (part_number (parse_query request.query)).toBool
  | .upload_part_copy _ _ => copiesFrom request ∧ (part_number (parse_query request.query)).toBool
  | .post_object .complete_upload _ _ => True
  | _ => False

/-- Operations that delete. -/
def Operation.deletes : Operation → Prop
  | .delete_object _ _ | .delete_objects _ => True
  | _ => False

/-- Operations that get to a call to the store. -/
def Operation.calls (request : Request) : Operation → Prop
  | .list_buckets | .options | .get_bucket .location _ | .post_object .unsupported _ _ => False
  | .upload_part _ _ => (part_number (parse_query request.query)).toBool
  | .upload_part_copy _ _ => copiesFrom request ∧ (part_number (parse_query request.query)).toBool
  | .copy_object _ _ => copiesFrom request
  | .get_object .bytes _ _ => readable request
  | _ => True

/-- Operations whose calls pass on their bucket, or their bucket and their key. -/
def Operation.keyed : Operation → Bool
  | .list_buckets | .options | .delete_objects _ | .upload_part _ _ | .upload_part_copy _ _ | .get_object .parts _ _
  | .abort_upload _ _ | .post_object .complete_upload _ _ => false
  | _ => true

/-- Operations that call the store without having looked for their bucket. -/
def Operation.unchecked : Operation → Bool
  | .delete_bucket _ | .put_retention _ _ | .put_legal_hold _ _ | .put_tagging _ _ | .delete_tagging _ _ => true
  | _ => false

/-- Operations that look for their bucket only on behalf of a user. -/
def Operation.opens : Operation → Bool
  | .get_object .parts _ _ => false
  | .get_object _ _ _ | .head_object _ _ => true
  | _ => false

/-- A call works on what its operation was handed, unless it reads the source of a copy. -/
structure Operation.hands (request : Request) (principal : Option Text) (operation : Operation) (c : Call) : Prop where
  calls : c.origin ≠ .copy_source → operation.calls request ∧ operation.bucket = some c.bucket
  named : c.origin ≠ .copy_source → is_valid_bucket_name (String.ofList c.bucket) ∨ operation.unchecked ∨
    (principal = none ∧ operation.opens)
  key : c.origin = .path → c.op.keyed → operation.keyed ∧ operation.key = c.key

/-- An event of an operation deletes or stores only as the operation does, and where it was told to. -/
def Operation.admits (request : Request) (principal : Option Text) (operation : Operation) : Event → Prop
  | .call c => (c.op.deletes → operation.deletes ∧ operation.bucket = some c.bucket) ∧
      (c.op.stores → operation.stores request ∧ operation.bucket = some c.bucket) ∧
      operation.hands request principal c
  | _ => True

/-- An operation answers with an object only in its bucket. -/
def Operation.answers (request : Request) (operation : Operation) : Response → Prop
  | .object bucket _ => operation.returns request ∧ operation.bucket = some bucket
  | .other => True

/-- Operations that read a second object to store it. -/
def Operation.copies : Operation → Prop
  | .copy_object _ _ | .upload_part_copy _ _ => True
  | _ => False

/-- Targets that the gates of an operation judge. Only copies and the deletion of many objects have gates that do not
see the query of the request. -/
def Operation.judges (state : AppState) (request : Request) (ctx : S3RequestContext) (operation : Operation)
    (target : BucketPolicyTarget) : Prop :=
  ∃ method path query, state.gate_target request.host ctx method path query = some target ∧
    (query = state.query_string (parse_query request.query) ∨ operation.copies ∨
      ∃ bucket, operation = .delete_objects bucket)

namespace AppState
variable {state : AppState} {request : Request} {message : Message} {ctx : S3RequestContext} {P : Event → Prop}

/-- A bucket that is found has a valid name. -/
theorem head_bucket_logs (checks : ∀ read bucket, P (.check read bucket)) (bucket : Text) :
    Logs P (fun answer => answer = .ok true → is_valid_bucket_name (String.ofList bucket))
      (state.head_bucket bucket) := by
  intro log
  refine ⟨[.check .head_bucket bucket],rfl,by simpa using checks _ _,?_⟩
  rintro answer ⟨⟩ present
  by_contra invalid
  simp [validate_bucket_name,invalid,Except.bind] at present

theorem ensure_bucket_exists_logs (checks : ∀ read bucket, P (.check read bucket)) (bucket : Text) :
    Logs P (fun _ => is_valid_bucket_name (String.ofList bucket)) (state.ensure_bucket_exists bucket) := by
  refine Logs.bind (head_bucket_logs checks bucket) fun answer named => ?_
  split
  · exact .pure (named rfl)
  · exact .fail _
  · exact .fail _

theorem enforce_tenant_bucket_logs (checks : ∀ read bucket, P (.check read bucket)) (bucket : Text) :
    Logs P (fun _ => ctx.principal ≠ none → is_valid_bucket_name (String.ofList bucket))
      (state.enforce_tenant_bucket ctx bucket) := by
  unfold enforce_tenant_bucket ensure_bucket_access_optional
  cases ctx.principal with
  | none => exact .pure (by simp)
  | some access_key =>
    have found : Logs P (fun record => record ≠ none → is_valid_bucket_name (String.ofList bucket))
        (state.find_bucket_meta bucket) := by
      refine Logs.bind (head_bucket_logs checks bucket) fun answer named => ?_
      split
      · exact .pure (by simp)
      · exact .pure (by simp)
      · exact .fail _
      · refine Logs.bind (Logs.reading (checks _ _) _ _) fun answer _ => ?_
        split
        · exact .pure fun _ => named rfl
        · exact .pure (by simp)
        · exact .pure (by simp)
        · exact .fail _
    refine Logs.bind found fun record named => ?_
    cases record with
    | none => exact .fail _
    | some r =>
      simp only
      split
      · exact .pure fun _ => named (by simp)
      · exact .fail _

theorem policy_gate_logs {target : Option BucketPolicyTarget}
    (judged : ∀ t, target = some t → P (.judged t) ∧ ∀ k d, P (.decided t k d)) (access_key : Option Text)
    (client_ip : Text) :
    Logs P (fun _ => ∀ t, target = some t → is_valid_bucket_name (String.ofList t.bucket))
      (state.enforce_bucket_policy_for_target target access_key client_ip) := by
  cases target with
  | none => exact .pure (by simp)
  | some target =>
    refine (state.enforce_policy_target_emits target access_key client_ip).mono ?_
    intro new r judgement
    refine ⟨?_,?_⟩
    · obtain ⟨read,decided⟩ := judged target rfl
      rcases judgement.logged with rfl | ⟨decision,rfl⟩
      · simpa using read
      · simpa using ⟨read,decided _ _⟩
    · rintro _ passed _ ⟨⟩
      exact judgement.named passed

theorem gates_log (checks : ∀ read bucket, P (.check read bucket)) {method : Method} {bucket : Text}
    {object_key : Option Text} {params : Params}
    (judged : ∀ t, state.gate_target request.host ctx method (gate_path bucket object_key) (state.query_string params) =
      some t → P (.judged t) ∧ ∀ k d, P (.decided t k d)) :
    Logs P (fun _ => is_valid_bucket_name (String.ofList bucket) ∨ ctx.principal = none)
      (state.gates request ctx method bucket object_key params) :=
  Logs.bind (enforce_tenant_bucket_logs checks bucket) fun _ named =>
    (policy_gate_logs judged _ _).mono fun _ _ => (Classical.em (ctx.principal = none)).symm.imp named id

/-- What the events of an operation may be: reads of records, judgements of its gates, and its calls. -/
structure Allows (P : Event → Prop) (state : AppState) (request : Request) (ctx : S3RequestContext)
    (operation : Operation) : Prop where
  checks : ∀ read bucket, P (.check read bucket)
  judged : ∀ t, operation.judges state request ctx t → P (.judged t) ∧ ∀ k d, P (.decided t k d)
  calls : ∀ c, operation.admits request ctx.principal (.call c) → P (.call c)

/-- The gates that see the query of the request. -/
theorem Allows.gates {operation : Operation} (allows : Allows P state request ctx operation) {method : Method}
    {bucket : Text} {object_key : Option Text} :
    Logs P (fun _ => is_valid_bucket_name (String.ofList bucket) ∨ ctx.principal = none)
      (state.gates request ctx method bucket object_key (parse_query request.query)) :=
  gates_log allows.checks fun t made => allows.judged t ⟨_,_,_,made,.inl rfl⟩

theorem Allows.copy_gates {operation : Operation} (allows : Allows P state request ctx operation)
    (copies : operation.copies) (bucket key : Text) :
    Logs P (fun source => parse_copy_source request = .ok source ∧
      (ctx.principal ≠ none → is_valid_bucket_name (String.ofList source.1)))
      (state.copy_gates request ctx bucket key) := by
  refine Logs.bind allows.gates fun _ _ => ?_
  cases parsed : parse_copy_source request with
  | error e => exact Logs.bind (.fail e) fun _ (impossible : False) => impossible.elim
  | ok source =>
    rw [Prog.lift_ok_bind]
    have gate : Logs P (fun _ => ctx.principal ≠ none → is_valid_bucket_name (String.ofList source.1))
        (state.enforce_copy_source_gates request.host ctx source.1 source.2) := by
      refine Logs.bind (enforce_tenant_bucket_logs allows.checks _) fun _ named => ?_
      refine (policy_gate_logs (fun t made => allows.judged t ?_) _ _).mono fun _ _ => named
      exact ⟨_,_,_,made,.inr (.inl copies)⟩
    exact Logs.bind gate fun _ named => .pure ⟨rfl,named⟩

theorem default_encryption_logs (checks : ∀ read bucket, P (.check read bucket)) (bucket : Text) :
    Logs P (fun _ => True) (state.default_encryption message bucket) := by
  unfold default_encryption
  split
  · exact .pure trivial
  · exact Logs.bind (Logs.reading (checks _ _) _ _) fun _ _ => .pure trivial

theorem require_default_encryption_logs (checks : ∀ read bucket, P (.check read bucket)) (bucket : Text) :
    Logs P (fun _ => True) (state.require_default_encryption message bucket) := by
  unfold require_default_encryption
  split
  · exact .pure trivial
  · refine Logs.bind (Logs.reading (checks _ _) _ _) fun answer _ => ?_
    rcases answer with e | _
    · exact .fail _
    · exact .pure trivial

/-- A read of a property answers with the object it was asked about. -/
theorem conditional_response_logs {Q : Response → Prop} {bucket key : Text} (answers : Q (.object bucket key)) :
    Logs P Q (conditional_response message bucket key) := by
  unfold conditional_response
  split
  · exact .fail _
  · exact .pure answers

theorem get_range_logs {bucket key : Text} {Q : Response → Prop} (free : ∀ op, op.deletes = false → op.stores = false →
      P (.call ⟨op,bucket,some key,.path⟩)) (answers : Q (.object bucket key)) :
    Logs P (fun served => ∀ response, served = some response → Q response) (state.get_range message bucket key) := by
  unfold get_range
  split
  · exact .pure (by simp)
  · refine Logs.bind (Logs.call (free _ rfl rfl)) fun _ _ => ?_
    split
    · exact .pure (by rintro _ ⟨⟩; exact answers)
    · exact .fail _
    · split
      · refine Logs.bind (Logs.call (free _ rfl rfl)) fun _ _ => ?_
        exact .pure (by rintro _ ⟨⟩; exact answers)
      · exact .fail _
      · exact .pure (by simp)

theorem get_bytes_logs {bucket key : Text} {Q : Response → Prop}
    (free : readable request → ∀ op, op.deletes = false → op.stores = false → P (.call ⟨op,bucket,some key,.path⟩))
    (answers : readable request → Q (.object bucket key)) :
    Logs P Q (state.get_bytes request message bucket key) := by
  refine Logs.bind (.lift _) fun _ _ => ?_
  cases numbered : (parse_query request.query).get "partNumber" with
  | some text =>
    simp only
    cases parsed : parseUnsigned (2 ^ 32 - 1) (String.ofList text) with
    | none => exact .fail _
    | some n =>
      have served : readable request := by
        rintro _ same
        rw [numbered,Option.some.injEq] at same
        rw [← same,parsed]
        simp
      refine Logs.bind (Logs.call (free served _ rfl rfl)) fun _ _ => Logs.bind (.lift _) fun _ _ => ?_
      exact Logs.bind (Logs.call (free served _ rfl rfl)) fun _ _ => .pure (answers served)
  | none =>
    have served : readable request := by simp [readable,numbered]
    refine Logs.bind (get_range_logs (free served) (answers served)) fun response known => ?_
    cases response with
    | some response => exact .pure (known response rfl)
    | none =>
      simp only
      split
      · exact Logs.bind (Logs.call (free served _ rfl rfl)) fun _ _ => conditional_response_logs (answers served)
      · exact Logs.bind (Logs.call (free served _ rfl rfl)) fun _ _ => conditional_response_logs (answers served)

end AppState

section
variable {state : AppState} {request : Request} {message : Message} {ctx : S3RequestContext}
open AppState

theorem admits_call {principal : Option Text} {operation : Operation} {c : Call} (bucket : operation.bucket = some c.bucket)
    (deletes : c.op.deletes → operation.deletes) (stores : c.op.stores → operation.stores request)
    (hands : operation.hands request principal c := by
      constructor <;> simp [Operation.bucket,Operation.key,Op.keyed,Operation.keyed,Operation.calls,Operation.unchecked,
        Operation.opens,Except.toBool, *]) :
    operation.admits request principal (.call c) :=
  ⟨fun d => ⟨deletes d,bucket⟩,fun s => ⟨stores s,bucket⟩,hands⟩

/-- A call that neither deletes nor stores. -/
theorem admits_quiet {principal : Option Text} (operation : Operation) {c : Call} (keeps : c.op.deletes = false) (reads : c.op.stores = false)
    (hands : operation.hands request principal c := by
      constructor <;> simp [Operation.bucket,Operation.key,Op.keyed,Operation.keyed,Operation.calls,Operation.unchecked,
        Operation.opens,Except.toBool, *]) :
    operation.admits request principal (.call c) := by
  simp [Operation.admits,keeps,reads,hands]

/-- Handlers delete, store and answer only as their operation says. -/
theorem handle_logs {P : Event → Prop} (operation : Operation) (allows : Allows P state request ctx operation)
    (signed : operation.copies → ctx.principal ≠ none) :
    Logs P (operation.answers request) (state.handle request message ctx operation) := by
  cases operation with
  | list_buckets =>
    unfold handle
    cases ctx.principal with
    | none => exact .fail _
    | some _ => exact .pure trivial
  | options => exact .pure trivial
  | create_bucket bucket =>
    unfold handle AppState.create_bucket
    cases ctx.principal with
    | none => exact .fail _
    | some _ =>
      by_cases valid : is_valid_bucket_name (String.ofList bucket)
      · refine Logs.bind (.lift _) fun _ _ => ?_
        exact Logs.bind (Logs.call (allows.calls _ (admits_quiet _ rfl rfl))) fun _ _ => .pure trivial
      · have refused : validate_bucket_name (String.ofList bucket) = .error _ := if_neg valid
        simp only [refused]
        exact Logs.bind (.fail _) fun _ (impossible : False) => impossible.elim
  | head_bucket bucket =>
    refine Logs.bind (enforce_tenant_bucket_logs allows.checks bucket) fun _ _ => ?_
    refine Logs.bind (ensure_bucket_exists_logs allows.checks bucket) fun _ _ => ?_
    exact Logs.bind (Logs.call (allows.calls _ (admits_quiet _ rfl rfl))) fun _ _ => .pure trivial
  | delete_bucket bucket => exact Logs.bind (Logs.call (allows.calls _ (admits_quiet _ rfl rfl))) fun _ _ => .pure trivial
  | put_setting setting bucket =>
    refine Logs.bind (ensure_bucket_exists_logs allows.checks bucket) fun _ _ => Logs.bind (.lift _) fun _ _ => ?_
    exact Logs.bind (Logs.call (allows.calls _ (admits_quiet _ rfl rfl))) fun _ _ => .pure trivial
  | delete_setting setting bucket =>
    refine Logs.bind (ensure_bucket_exists_logs allows.checks bucket) fun _ _ => ?_
    have looked : Logs P (fun _ => True)
        (state.ensure_setting_exists setting bucket) := by
      unfold ensure_setting_exists
      split
      · exact Logs.call (allows.calls _ (admits_quiet _ rfl rfl))
      · exact .pure trivial
    refine Logs.bind looked fun _ _ => ?_
    exact Logs.bind (Logs.call (allows.calls _ (admits_quiet _ rfl rfl))) fun _ _ => .pure trivial
  | get_bucket read bucket =>
    refine Logs.bind (enforce_tenant_bucket_logs allows.checks bucket) fun _ _ => ?_
    refine Logs.bind (ensure_bucket_exists_logs allows.checks bucket) fun _ _ => ?_
    cases read with
    | location => exact .pure trivial
    | _ => exact Logs.bind (Logs.call (allows.calls _ (admits_quiet _ rfl rfl))) fun _ _ => .pure trivial
  | delete_objects bucket =>
    refine Logs.bind (ensure_bucket_exists_logs allows.checks bucket) fun _ _ => ?_
    refine Logs.bind (gates_log allows.checks fun t made => allows.judged t ⟨_,_,_,made,.inr (.inr ⟨bucket,rfl⟩)⟩) fun _ _ => Logs.bind (.lift _) fun _ _ => ?_
    split
    · exact .fail _
    · refine Logs.bind (.each fun key _ => (gates_log allows.checks fun t made =>
        allows.judged t ⟨_,_,_,made,.inr (.inr ⟨bucket,rfl⟩)⟩).mono fun _ _ => trivial) fun _ _ => ?_
      refine Logs.bind (.each fun key _ => ?_) fun _ _ => .pure trivial
      exact Logs.bind (Logs.attempt_call (allows.calls _ <| admits_call rfl (fun _ => trivial) (by simp [Op.stores]))) fun _ _ =>
        .pure trivial
  | put_retention bucket key =>
    exact Logs.bind (.lift _) fun _ _ => Logs.bind (Logs.call (allows.calls _ (admits_quiet _ rfl rfl))) fun _ _ => .pure trivial
  | put_legal_hold bucket key =>
    exact Logs.bind (.lift _) fun _ _ => Logs.bind (Logs.call (allows.calls _ (admits_quiet _ rfl rfl))) fun _ _ => .pure trivial
  | put_tagging bucket key =>
    exact Logs.bind (.lift _) fun _ _ => Logs.bind (Logs.call (allows.calls _ (admits_quiet _ rfl rfl))) fun _ _ => .pure trivial
  | upload_part bucket key =>
    refine Logs.bind (ensure_bucket_exists_logs allows.checks bucket) fun _ _ => ?_
    cases number : part_number (parse_query request.query) with
    | error e => exact Logs.bind (.fail e) fun _ (impossible : False) => impossible.elim
    | ok n =>
      have numbered : (part_number (parse_query request.query)).toBool := by rw [number]; rfl
      refine Logs.bind (.lift _) fun _ _ => Logs.bind (.lift _) fun _ _ => ?_
      exact Logs.bind (Logs.call (allows.calls _ <| admits_call rfl (by simp [Op.deletes]) fun _ => numbered)) fun _ _ => .pure trivial
  | upload_part_copy bucket key =>
    refine Logs.bind (allows.copy_gates trivial bucket key) fun source known => ?_
    cases number : part_number (parse_query request.query) with
    | error e => exact Logs.bind (.fail e) fun _ (impossible : False) => impossible.elim
    | ok n =>
      have numbered : (part_number (parse_query request.query)).toBool := by rw [number]; rfl
      have copies : copiesFrom request := ⟨source,known.1,known.2 (signed trivial)⟩
      refine Logs.bind (.lift _) fun _ _ => Logs.bind (ensure_bucket_exists_logs allows.checks bucket) fun _ _ => ?_
      refine Logs.bind (Logs.call (allows.calls _ (admits_quiet _ rfl rfl))) fun _ _ => ?_
      refine Logs.bind (.lift _) fun _ _ => Logs.bind (.lift _) fun _ _ => ?_
      refine Logs.bind (Logs.call (by split <;> exact allows.calls _ (admits_quiet _ rfl rfl))) fun _ _ => ?_
      exact Logs.bind (Logs.call (allows.calls _ <| admits_call rfl (by simp [Op.deletes]) fun _ => ⟨copies,numbered⟩)) fun _ _ =>
        .pure trivial
  | copy_object bucket key =>
    refine Logs.bind (allows.copy_gates trivial bucket key) fun source known => ?_
    have copies : copiesFrom request := ⟨source,known.1,known.2 (signed trivial)⟩
    refine Logs.bind (ensure_bucket_exists_logs allows.checks bucket) fun _ _ => Logs.bind (.lift _) fun _ _ => ?_
    refine Logs.bind (Logs.call (allows.calls _ (admits_quiet _ rfl rfl))) fun _ _ => ?_
    refine Logs.bind (.lift _) fun _ _ => Logs.bind (.lift _) fun _ _ => ?_
    refine Logs.bind (default_encryption_logs allows.checks bucket) fun _ _ => ?_
    refine Logs.bind (Logs.call (allows.calls _ <| admits_call rfl (by simp [Op.deletes]) fun _ => copies)) fun _ _ => ?_
    exact Logs.bind (Logs.call (allows.calls _ (admits_quiet _ rfl rfl))) fun _ _ => .pure trivial
  | put_object bucket key =>
    refine Logs.bind (ensure_bucket_exists_logs allows.checks bucket) fun _ _ => ?_
    refine Logs.bind allows.gates fun _ _ => ?_
    refine Logs.bind (.lift _) fun _ _ => Logs.bind (.lift _) fun _ _ => ?_
    refine Logs.bind (require_default_encryption_logs allows.checks bucket) fun _ _ => ?_
    refine Logs.bind (Logs.call (allows.calls _ <| admits_call rfl (by simp [Op.deletes]) fun _ => trivial)) fun _ _ => ?_
    exact Logs.bind (Logs.reading (allows.checks _ _) _ _) fun _ _ => .pure trivial
  | get_object read bucket key =>
    refine Logs.bind allows.gates fun _ _ => ?_
    cases read with
    | parts =>
      refine Logs.bind (ensure_bucket_exists_logs allows.checks bucket) fun _ _ => ?_
      exact Logs.bind (Logs.call (allows.calls _ (admits_quiet _ rfl rfl))) fun _ _ => .pure trivial
    | bytes => exact get_bytes_logs (fun served op d s => allows.calls _ (admits_quiet _ d s)) fun served => ⟨served,rfl⟩
    | _ => exact Logs.bind (Logs.call (allows.calls _ (admits_quiet _ rfl rfl))) fun _ _ => .pure ⟨trivial,rfl⟩
  | head_object bucket key =>
    refine Logs.bind allows.gates fun _ _ => ?_
    refine Logs.bind (Logs.call (by split <;> exact allows.calls _ (admits_quiet _ rfl rfl))) fun _ _ => ?_
    split
    · exact Logs.bind (.lift _) fun _ _ => .pure ⟨trivial,rfl⟩
    · exact conditional_response_logs ⟨trivial,rfl⟩
  | delete_tagging bucket key => exact Logs.bind (Logs.call (allows.calls _ (admits_quiet _ rfl rfl))) fun _ _ => .pure trivial
  | abort_upload bucket key =>
    refine Logs.bind (ensure_bucket_exists_logs allows.checks bucket) fun _ _ => ?_
    exact Logs.bind (Logs.call (allows.calls _ (admits_quiet _ rfl rfl))) fun _ _ => .pure trivial
  | delete_object bucket key =>
    refine Logs.bind (ensure_bucket_exists_logs allows.checks bucket) fun _ _ => ?_
    refine Logs.bind allows.gates fun _ _ => ?_
    split
    · exact Logs.bind (Logs.call (allows.calls _ <| admits_call rfl (fun _ => trivial) (by simp [Op.stores]))) fun _ _ => .pure trivial
    · refine Logs.bind (Logs.call (allows.calls _ <| admits_call rfl (fun _ => trivial) (by simp [Op.stores]))) fun _ _ => ?_
      exact Logs.bind (Logs.reading (allows.checks _ _) _ _) fun _ _ => .pure trivial
  | post_object post bucket key =>
    refine Logs.bind allows.gates fun _ _ => ?_
    cases post with
    | create_upload =>
      refine Logs.bind (ensure_bucket_exists_logs allows.checks bucket) fun _ _ => Logs.bind (.lift _) fun _ _ => ?_
      refine Logs.bind (default_encryption_logs allows.checks bucket) fun _ _ => ?_
      exact Logs.bind (Logs.call (allows.calls _ (admits_quiet _ rfl rfl))) fun _ _ => .pure trivial
    | complete_upload =>
      refine Logs.bind (ensure_bucket_exists_logs allows.checks bucket) fun _ _ => ?_
      refine Logs.bind (.lift _) fun _ _ => Logs.bind (.lift _) fun _ _ => ?_
      exact Logs.bind (Logs.call (allows.calls _ <| admits_call rfl (by simp [Op.deletes]) fun _ => trivial)) fun _ _ => .pure trivial
    | unsupported => exact .fail _

/-! ### Decisions behind an operation -/

/-- No storage call is made before the property holds of the log. -/
def Backed {α : Type} (D : List Event → Prop) (m : Handler α) : Prop :=
  Prog.Emits (fun new _ => (∃ c, .call c ∈ new) → D new) m

theorem Backed.quiet {α β : Type} {D : List Event → Prop} (grows : ∀ a b, D b → D (a ++ b)) {Q : α → Prop}
    {m : Handler α} {f : α → Handler β} (first : Logs (fun e => ∀ c, e ≠ .call c) Q m)
    (second : ∀ a, Q a → Backed D (f a)) : Backed D (m >>= f) := by
  refine Prog.Emits.bind first ?_ ?_
  · rintro new e ⟨quiet,-⟩ ⟨c,member⟩
    exact absurd rfl (quiet _ member c)
  · rintro a past ⟨quiet,holds⟩
    refine (second a (holds a rfl)).mono ?_
    rintro new r backed ⟨c,member⟩
    rcases List.mem_append.mp member with early | late
    · exact absurd rfl (quiet _ early c)
    · exact grows past new (backed ⟨c,late⟩)

theorem Backed.clear {α β : Type} {D : List Event → Prop} (grows : ∀ a b, D a → D (a ++ b)) {m : Handler α}
    {f : α → Handler β}
    (first : Prog.Emits (fun new r => (∀ c, .call c ∉ new) ∧ ∀ a, r = .ok a → D new) m)
    (second : ∀ a, Logs (fun _ => True) (fun _ => True) (f a)) : Backed D (m >>= f) := by
  refine Prog.Emits.bind first ?_ ?_
  · rintro new e ⟨quiet,-⟩ ⟨c,member⟩
    exact absurd member (quiet c)
  · rintro a past ⟨-,holds⟩
    exact Prog.Emits.mono (second a) fun new r _ _ => grows past new (holds a rfl)

/-- A gate lets a request pass with the decision it was there for. -/
theorem gates_decide {method : Method} {bucket : Text} {object_key : Option Text} {params : Params}
    {target : BucketPolicyTarget} (made : state.gate_target request.host ctx method (gate_path bucket object_key)
      (state.query_string params) = some target) (enforces : EnforcesV2 state target.bucket) :
    Prog.Emits (fun new r => (∀ c, .call c ∉ new) ∧
      ∀ a, r = .ok a → Decided ctx.principal target.bucket target.action new)
      (state.gates request ctx method bucket object_key params) := by
  have tenant : Logs (fun e => ∀ c, e ≠ .call c) _ (state.enforce_tenant_bucket ctx bucket) :=
    enforce_tenant_bucket_logs (fun _ _ => by simp) bucket
  refine Prog.Emits.bind tenant ?_ ?_
  · rintro new e ⟨quiet,-⟩
    exact ⟨fun c member => quiet _ member c rfl,by simp⟩
  · rintro _ past ⟨quiet,-⟩
    rw [made]
    refine (state.enforce_policy_target_emits target ctx.principal ctx.client_ip).mono ?_
    intro new r judgement
    constructor
    · intro c member
      rcases List.mem_append.mp member with early | late
      · exact quiet _ early c rfl
      · rcases judgement.logged with rfl | ⟨decision,rfl⟩ <;> simp at late
    · rintro _ passed
      rw [judgement.allowed passed enforces]
      exact ⟨target,by simp,rfl,rfl⟩

theorem trim_gate_path_none {bucket : Text} (named : bucket ≠ []) (whole : '/' ∉ bucket) :
    Text.trim_start '/' (gate_path bucket none) = bucket := by
  obtain ⟨c,rest,rfl⟩ := List.exists_cons_of_ne_nil named
  have other : c ≠ '/' := fun same => whole (by simp [same])
  rw [gate_path,Text.trim_start_same,Text.trim_start_cons other]

section Agreeing
variable {bucket : Text} (valid : is_valid_bucket_name (String.ofList bucket))
  (agrees : ∀ named, virtual_bucket state.server_host request.host = some named → named = bucket)
include valid agrees

/-- When the host names no other bucket, a gate takes its own bucket out of its path. -/
theorem gate_extract (object_key : Option Text) (signature_path : Option Text) :
    ∃ key, extract_bucket_and_key state.server_host (gate_path bucket object_key) request.host signature_path =
      some (bucket,key) := by
  cases host : virtual_bucket state.server_host request.host with
  | some named =>
    rw [extract_bucket_and_key,host]
    exact ⟨_,by rw [agrees named host]⟩
  | none =>
    have named := (valid_bucket_chars valid).1
    have whole := slash_not_mem_valid valid
    cases object_key with
    | some key => exact ⟨_,extract_gate_path host named whole⟩
    | none =>
      refine ⟨none,?_⟩
      rw [extract_bucket_and_key,host]
      simp only [trim_gate_path_none named whole,if_neg named]
      rw [Text.split_once_none.mpr whole]

/-- The target of a gate whose method and query stand for the action whatever the key. -/
theorem gate_target_of {method : Method} {object_key : Option Text} {query : Text} {action : String}
    (listed : is_create_bucket_request method query (gate_path bucket object_key) = false)
    (acts : ∀ has_object_key, s3_action_for_request method query has_object_key = some action) :
    ∃ target, state.gate_target request.host ctx method (gate_path bucket object_key) query = some target ∧
      target.bucket = bucket ∧ target.action = action := by
  obtain ⟨key,extracted⟩ := gate_extract valid agrees object_key (ctx.vhost.map VirtualHostContext.signature_path)
  rw [gate_target,resolve_policy_target_from_parts,listed]
  simp only [Bool.false_eq_true,if_false,extracted,Option.bind_some,acts,Option.map_some]
  exact ⟨_,rfl,rfl,rfl⟩

theorem put_gate_target (key query : Text) :
    ∃ target, state.gate_target request.host ctx .PUT (gate_path bucket (some key)) query = some target ∧
      target.bucket = bucket ∧ target.action = "s3:PutObject" := by
  refine gate_target_of valid agrees ?_ ?_
  · have below : (Text.trim_start '/' (gate_path bucket (some key))).contains '/' = true := by
      rw [trim_gate_path (valid_bucket_chars valid).1 (slash_not_mem_valid valid)]
      simp
    simp only [is_create_bucket_request,below,Bool.not_true,Bool.and_false]
  · intro has_object_key
    rw [s3_action_for_request]
    split <;> rfl

theorem complete_gate_target (key : Text) {params : Params} (completes : params.contains_key "uploadId") :
    ∃ target, state.gate_target request.host ctx .POST (gate_path bucket (some key)) (state.query_string params) =
      some target ∧ target.bucket = bucket ∧ target.action = "s3:PutObject" := by
  refine gate_target_of valid agrees rfl ?_
  intro has_object_key
  obtain ⟨⟨name,value⟩,member,same⟩ := List.any_eq_true.mp completes
  obtain rfl : name = "uploadId".toList := of_decide_eq_true same
  obtain ⟨kept,listed⟩ := entry_of_param member
  have present : query_has_key (state.query_string params) "uploadId" :=
    query_has_key_of_entry ((state.shuffled params.entries).mem_iff.mpr listed) (by decide) (by decide) (by decide)
  rw [s3_action_for_request,present]
  rfl

theorem delete_objects_gate_target :
    ∃ target, state.gate_target request.host ctx .POST (gate_path bucket none)
      (state.query_string [("delete".toList,[])]) = some target ∧
      target.bucket = bucket ∧ target.action = "s3:DeleteObject" := by
  have written : state.query_string [("delete".toList,[])] = "delete=".toList := by
    have one : state.hash_order [("delete".toList,[])] = [("delete".toList,[])] :=
      List.perm_singleton.mp (state.shuffled _)
    have entry : Params.entries [("delete".toList,[])] = [("delete".toList,[])] := rfl
    rw [query_string,entry,one]
    rfl
  rw [written]
  refine gate_target_of valid agrees rfl ?_
  intro has_object_key
  rfl

variable (enforces : EnforcesV2 state bucket)
include enforces

/-- Past its gate, whatever a handler of objects goes on to do has been allowed. -/
theorem backed_by_gate {α : Type} {method : Method} {object_key : Option Text} {params : Params} {action : String}
    (target : ∃ t, state.gate_target request.host ctx method (gate_path bucket object_key) (state.query_string params) =
      some t ∧ t.bucket = bucket ∧ t.action = action) {f : Unit → Handler α}
    (rest : ∀ u, Logs (fun _ => True) (fun _ => True) (f u)) :
    Backed (Decided ctx.principal bucket action)
      (state.gates request ctx method bucket object_key params >>= f) := by
  obtain ⟨t,made,rfl,rfl⟩ := target
  refine Backed.clear ?_ (gates_decide made enforces) rest
  intro a b decided
  simpa using decided.append [] b

/-- The gates of a copy: the decision on the destination is the first. -/
theorem copy_gates_decide (key : Text) :
    Prog.Emits (fun new r => (∀ c, .call c ∉ new) ∧
      ∀ a, r = .ok a → Decided ctx.principal bucket "s3:PutObject" new) (state.copy_gates request ctx bucket key) := by
  have target : ∃ t, state.gate_target request.host ctx .PUT (gate_path bucket (some key))
      (state.query_string (parse_query request.query)) = some t ∧ t.bucket = bucket ∧ t.action = "s3:PutObject" :=
    put_gate_target valid agrees key _
  obtain ⟨t,made,rfl,acts⟩ := target
  have quiet : Logs (fun e => ∀ c, e ≠ .call c) (fun _ => True) (do
      let source ← Prog.lift (parse_copy_source request)
      state.enforce_copy_source_gates request.host ctx source.1 source.2
      pure source) := by
    refine Logs.bind (.lift _) fun source _ => ?_
    refine Logs.bind (Logs.bind (enforce_tenant_bucket_logs (fun _ _ => by simp) _) fun _ _ =>
      policy_gate_logs (by simp) _ _) fun _ _ => .pure trivial
  refine Prog.Emits.bind (gates_decide made enforces) ?_ ?_
  · rintro new e ⟨uncalled,-⟩
    exact ⟨uncalled,by simp⟩
  · rintro _ past ⟨uncalled,decided⟩
    refine Prog.Emits.mono quiet ?_
    rintro new r ⟨silent,-⟩
    refine ⟨fun c member => ?_,fun a _ => ?_⟩
    · rcases List.mem_append.mp member with early | late
      · exact uncalled c early
      · exact silent _ late c rfl
    · have granted := decided () rfl
      rw [acts] at granted
      simpa using granted.append [] new

/-- Handlers that store have their own decision, but for the upload of a part. -/
theorem stores_backed {operation : Operation} (handed : operation.bucket = some bucket)
    (stores : operation.stores request) (gated : ∀ key, operation ≠ .upload_part bucket key)
    (completes : ∀ key, operation = .post_object .complete_upload bucket key →
      (parse_query request.query).contains_key "uploadId") :
    Backed (Decided ctx.principal bucket "s3:PutObject") (state.handle request message ctx operation) := by
  have checks : ∀ (read : Check) (bucket : Text), (fun _ : Event => True) (.check read bucket) := fun _ _ => trivial
  have uncalled : ∀ (read : Check) (bucket : Text), (fun e : Event => ∀ c, e ≠ .call c) (.check read bucket) :=
    fun _ _ _ => by simp
  cases operation with
  | put_object b key =>
    obtain rfl : b = bucket := by simpa [Operation.bucket] using handed
    refine Backed.quiet decided_grows (ensure_bucket_exists_logs uncalled b) fun _ _ => ?_
    refine backed_by_gate valid agrees enforces (put_gate_target valid agrees key _) fun _ => ?_
    refine Logs.bind (.lift _) fun _ _ => Logs.bind (.lift _) fun _ _ => ?_
    refine Logs.bind (require_default_encryption_logs checks b) fun _ _ => Logs.bind (Logs.call trivial) fun _ _ => ?_
    exact Logs.bind (Logs.reading trivial _ _) fun _ _ => .pure trivial
  | copy_object b key =>
    obtain rfl : b = bucket := by simpa [Operation.bucket] using handed
    refine Backed.clear (fun a more decided => ?_) (copy_gates_decide valid agrees enforces key) fun source => ?_
    · simpa using decided.append [] more
    refine Logs.bind (ensure_bucket_exists_logs checks b) fun _ _ => Logs.bind (.lift _) fun _ _ => ?_
    refine Logs.bind (Logs.call trivial) fun _ _ => Logs.bind (.lift _) fun _ _ => Logs.bind (.lift _) fun _ _ => ?_
    refine Logs.bind (default_encryption_logs checks b) fun _ _ => Logs.bind (Logs.call trivial) fun _ _ => ?_
    exact Logs.bind (Logs.call trivial) fun _ _ => .pure trivial
  | upload_part_copy b key =>
    obtain rfl : b = bucket := by simpa [Operation.bucket] using handed
    refine Backed.clear (fun a more decided => ?_) (copy_gates_decide valid agrees enforces key) fun source => ?_
    · simpa using decided.append [] more
    refine Logs.bind (.lift _) fun _ _ => Logs.bind (ensure_bucket_exists_logs checks b) fun _ _ => ?_
    refine Logs.bind (Logs.call trivial) fun _ _ => Logs.bind (.lift _) fun _ _ => Logs.bind (.lift _) fun _ _ => ?_
    refine Logs.bind (Logs.call trivial) fun _ _ => ?_
    exact Logs.bind (Logs.call trivial) fun _ _ => .pure trivial
  | upload_part b key =>
    obtain rfl : b = bucket := by simpa [Operation.bucket] using handed
    exact absurd rfl (gated key)
  | post_object post b key =>
    obtain rfl : b = bucket := by simpa [Operation.bucket] using handed
    cases post with
    | complete_upload =>
      refine backed_by_gate valid agrees enforces (complete_gate_target valid agrees key (completes key rfl)) fun _ => ?_
      refine Logs.bind (ensure_bucket_exists_logs checks b) fun _ _ => ?_
      refine Logs.bind (.lift _) fun _ _ => Logs.bind (.lift _) fun _ _ => ?_
      exact Logs.bind (Logs.call trivial) fun _ _ => .pure trivial
    | _ => exact stores.elim
  | _ => exact stores.elim

theorem delete_objects_backed :
    Backed (Decided ctx.principal bucket "s3:DeleteObject")
      (state.handle request message ctx (.delete_objects bucket)) := by
  refine Backed.quiet decided_grows
    (ensure_bucket_exists_logs (fun _ _ _ => by simp) bucket) fun _ _ => ?_
  refine backed_by_gate valid agrees enforces (delete_objects_gate_target valid agrees) fun _ => ?_
  refine Logs.bind (.lift _) fun _ _ => ?_
  split
  · exact .fail _
  · refine Logs.bind (.each fun key _ => (gates_log (fun _ _ => trivial) (by simp)).mono fun _ _ => trivial) fun _ _ => ?_
    refine Logs.bind (.each fun key _ => ?_) fun _ _ => .pure trivial
    exact Logs.bind (Logs.attempt_call trivial) fun _ _ => .pure trivial

end Agreeing

/-! ### Decisions of the middleware -/

theorem authorise_decides {vhost : Option VirtualHostContext} {access_key : Option Text} :
    Prog.Emits (fun new r => (∀ c, .call c ∉ new) ∧ ∀ a, r = .ok a →
      ∀ t, bucket_policy_target_for_request state.server_host request vhost = some t →
        is_valid_bucket_name (String.ofList t.bucket) ∧
        (EnforcesV2 state t.bucket → Decided access_key t.bucket t.action new))
      (state.authorise request message vhost access_key) := by
  have scope : Logs (fun e => ∀ c, e ≠ .call c) (fun _ => True)
      (state.enforce_tenant_scope request vhost access_key) := by
    unfold enforce_tenant_scope
    cases plan_tenant_scope state.server_host request vhost with
    | none => exact .pure trivial
    | some bucket =>
      have tenant : Logs (fun e => ∀ c, e ≠ .call c) _ (state.enforce_tenant_bucket ⟨access_key,vhost,[]⟩ bucket) :=
        enforce_tenant_bucket_logs (fun _ _ _ => by simp) bucket
      exact tenant.mono fun _ _ => trivial
  refine Prog.Emits.bind scope ?_ ?_
  · rintro new e ⟨quiet,-⟩
    exact ⟨fun c member => quiet _ member c rfl,by simp⟩
  · rintro _ past ⟨quiet,-⟩
    cases bucket_policy_target_for_request state.server_host request vhost with
    | none =>
      refine Prog.Emits.pure ⟨fun c member => ?_,by simp⟩
      exact quiet _ (by simpa using member) c rfl
    | some target =>
      refine (state.enforce_policy_target_emits target access_key message.client_ip).mono ?_
      intro new r judgement
      constructor
      · intro c member
        rcases List.mem_append.mp member with early | late
        · exact quiet _ early c rfl
        · rcases judgement.logged with rfl | ⟨decision,rfl⟩ <;> simp at late
      · rintro _ passed _ ⟨⟩
        refine ⟨judgement.named passed,fun enforces => ?_⟩
        rw [judgement.allowed passed enforces]
        exact ⟨target,by simp,rfl,rfl⟩

end

/-- Parameters that make the policy check take any request for an upload. -/
def names_upload (query : Text) : Bool := query_has_key query "uploadId" || query_has_key query "uploads"

section
variable {server_host : Text} {request : Request}

/-- The path of an object has a key in it, for the host as for the path. -/
theorem object_path_key {segment rest : Text} (path : route request.path = some (.object segment rest)) :
    ∃ key, extract_bucket_and_key server_host request.path request.host
      ((apply_virtual_host server_host request).map VirtualHostContext.signature_path) =
        some (judged_bucket server_host request,some key) := by
  obtain ⟨named,whole,more,shape⟩ := route_object path
  have trimmed : Text.trim_start '/' request.path = segment ++ '/' :: rest := by
    rw [shape,trim_routed named whole]
  cases host : virtual_bucket server_host request.host with
  | some vb =>
    refine ⟨segment ++ '/' :: rest,?_⟩
    simp [extract_bucket_and_key,judged_bucket,host,apply_virtual_host,object_key_from_signature_path,trimmed]
  | none =>
    refine ⟨rest,?_⟩
    have cut : Text.split_once '/' (segment ++ '/' :: rest) = some (segment,rest) :=
      Text.split_once_some.mpr ⟨rfl,whole⟩
    rw [extract_bucket_and_key,host]
    simp only [trimmed,cut,if_neg more]
    simp [judged_bucket,host,trimmed,Text.first_piece_split whole]

/-- So has every path of a virtual host that is not the root. -/
theorem hosted_path_key {segment vb : Text} (path : route request.path = some (.bucket segment))
    (host : virtual_bucket server_host request.host = some vb) :
    ∃ key, extract_bucket_and_key server_host request.path request.host
      ((apply_virtual_host server_host request).map VirtualHostContext.signature_path) =
        some (judged_bucket server_host request,some key) := by
  obtain ⟨named,whole,shape⟩ := route_bucket path
  obtain ⟨c,others,rfl⟩ := List.exists_cons_of_ne_nil named
  have other : c ≠ '/' := fun same => whole (by simp [same])
  have trimmed : Text.trim_start '/' request.path ≠ [] := by
    rcases shape with shape | shape
    · rw [shape,Text.trim_start_same,Text.trim_start_cons other]
      simp
    · rw [shape,List.cons_append,Text.trim_start_same,List.cons_append,Text.trim_start_cons other]
      simp
  refine ⟨Text.trim_start '/' request.path,?_⟩
  simp [extract_bucket_and_key,judged_bucket,host,apply_virtual_host,object_key_from_signature_path,trimmed]

/-- Past the router, a request that answers with an object is a GET or a HEAD of an object. -/
theorem returns_request {operation : Operation}
    (found : s3_router request (apply_virtual_host server_host request) = some operation)
    (returns : operation.returns request) :
    (request.method = .GET ∨ request.method = .HEAD) ∧
      ∃ key, extract_bucket_and_key server_host request.path request.host
        ((apply_virtual_host server_host request).map VirtualHostContext.signature_path) =
          some (judged_bucket server_host request,some key) := by
  have asked : operation.method = some .GET ∨ operation.method = some .HEAD := by
    cases operation <;> first | exact returns.elim | exact .inl rfl | exact .inr rfl
  refine ⟨asked.imp (router_method found) (router_method found),?_⟩
  rcases router_cases found with rfl | ⟨segment,bucket,path,-,chosen⟩ | ⟨segment,rest,bucket,key,path,-,-,chosen⟩
  · exact returns.elim
  · cases host : virtual_bucket server_host request.host with
    | some vb => exact hosted_path_key path host
    | none =>
      -- without a virtual host, the handlers of a bucket do not answer with objects
      exfalso
      have plain : apply_virtual_host server_host request = none := by rw [apply_virtual_host,host]; rfl
      rw [plain] at chosen
      rcases asked with get | head
      · rw [router_method found get] at chosen
        obtain rfl : operation = .get_bucket _ _ := by
          simpa [bucket_operation,handle_bucket_get,virtual_host_object_key] using chosen.symm
        exact returns
      · rw [router_method found head] at chosen
        obtain rfl : operation = .head_bucket bucket := by simpa [bucket_operation] using chosen.symm
        exact returns
  · exact object_path_key path

/-- The deletion of one object comes from a DELETE of its path. -/
theorem delete_object_request {bucket key : Text}
    (found : s3_router request (apply_virtual_host server_host request) = some (.delete_object bucket key)) :
    request.method = .DELETE ∧ ∃ segment rest, route request.path = some (.object segment rest) := by
  have method := router_method found rfl
  refine ⟨method,?_⟩
  rcases router_cases found with impossible | ⟨segment,b,path,-,chosen⟩ | ⟨segment,rest,b,k,path,-,-,chosen⟩
  · simp at impossible
  · rw [method,bucket_operation,Option.some.injEq] at chosen
    have keyless := (delete_bucket_operation_target (parse_query request.query) b).2
    rw [chosen] at keyless
    simp [Operation.key] at keyless
  · exact ⟨segment,rest,path⟩

/-- The upload of a part comes from a PUT of its path. -/
theorem upload_part_request {bucket key : Text}
    (found : s3_router request (apply_virtual_host server_host request) = some (.upload_part bucket key)) :
    request.method = .PUT ∧ ∃ segment rest, route request.path = some (.object segment rest) := by
  have method := router_method found rfl
  refine ⟨method,?_⟩
  rcases router_cases found with impossible | ⟨segment,b,path,-,chosen⟩ | ⟨segment,rest,b,k,path,-,-,chosen⟩
  · simp at impossible
  · exfalso
    rw [method,bucket_operation,Option.some.injEq] at chosen
    unfold handle_bucket_put put_object_operation at chosen
    revert chosen
    simp only [Params.contains_key,List.any_nil,Bool.false_eq_true,if_false,Bool.false_and]
    repeat' split
    all_goals simp
  · exact ⟨segment,rest,path⟩

/-- The completion of an upload names it. -/
theorem complete_upload_request {vhost : Option VirtualHostContext} {bucket key : Text}
    (found : s3_router request vhost = some (.post_object .complete_upload bucket key)) :
    (parse_query request.query).contains_key "uploadId" := by
  have method := router_method found rfl
  rcases router_cases found with impossible | ⟨segment,b,path,-,chosen⟩ | ⟨segment,rest,b,k,path,-,-,chosen⟩
  · simp at impossible
  · simp [method,bucket_operation] at chosen
  · rw [method,object_operation,Option.some.injEq,post_object_operation] at chosen
    split at chosen
    · simp at chosen
    · split at chosen
      next completes => exact completes
      · simp at chosen

/-- The target of the middleware, from the bucket and key it takes the request apart into. -/
theorem middleware_target {pair : Text × Option Text}
    (extracted : extract_bucket_and_key server_host request.path request.host
      ((apply_virtual_host server_host request).map VirtualHostContext.signature_path) = some pair)
    (listed : is_create_bucket_request request.method request.query request.path = false) {action : String}
    (acts : s3_action_for_request request.method request.query pair.2.isSome = some action) :
    ∃ t, bucket_policy_target_for_request server_host request (apply_virtual_host server_host request) = some t ∧
      t.bucket = judged_bucket server_host request ∧ t.action = action := by
  have made : bucket_policy_target_for_request server_host request (apply_virtual_host server_host request) =
      some { bucket := pair.1, object_key := pair.2, action, list_prefix := list_prefix_of request.query } := by
    rw [bucket_policy_target_for_request,resolve_policy_target_from_parts,listed]
    simp only [Bool.false_eq_true,if_false,extracted,Option.bind_some,acts,Option.map_some]
  exact ⟨_,made,policy_target_bucket made,rfl⟩

theorem not_creating {method : Method} (other : method ≠ .PUT) (standard : ∀ name own, method ≠ .extension name own)
    (query path : Text) : is_create_bucket_request method query path = false := by
  have spelled : Text.eq_ignore_ascii_case method.as_str "PUT".toList = false := by
    cases method with
    | PUT => exact absurd rfl other
    | extension name own => exact absurd rfl (standard name own)
    | _ => decide
  rw [is_create_bucket_request,spelled]
  rfl

/-- A read of an object is judged, as a download or, when the query names an upload, as an upload. -/
theorem returns_target {operation : Operation}
    (found : s3_router request (apply_virtual_host server_host request) = some operation)
    (returns : operation.returns request) :
    ∃ t, bucket_policy_target_for_request server_host request (apply_virtual_host server_host request) = some t ∧
      t.bucket = judged_bucket server_host request ∧
      t.action = if names_upload request.query then "s3:PutObject" else "s3:GetObject" := by
  obtain ⟨method,key,extracted⟩ := returns_request found returns
  refine middleware_target extracted ?_ ?_
  · rcases method with get | head
    · rw [get]
      exact not_creating (by simp) (by simp) _ _
    · rw [head]
      exact not_creating (by simp) (by simp) _ _
  · unfold s3_action_for_request names_upload
    split
    · rfl
    · rcases method with get | head
      · rw [get]
        rfl
      · rw [head]
        rfl

theorem delete_object_target {bucket key : Text}
    (found : s3_router request (apply_virtual_host server_host request) = some (.delete_object bucket key)) :
    ∃ t, bucket_policy_target_for_request server_host request (apply_virtual_host server_host request) = some t ∧
      t.bucket = judged_bucket server_host request ∧
      t.action = if names_upload request.query then "s3:PutObject" else "s3:DeleteObject" := by
  obtain ⟨method,segment,rest,path⟩ := delete_object_request found
  obtain ⟨_,extracted⟩ := object_path_key path
  refine middleware_target extracted ?_ ?_
  · rw [method]
    exact not_creating (by simp) (by simp) _ _
  · unfold s3_action_for_request names_upload
    split
    · rfl
    · rw [method]

/-- A PUT below a bucket is judged as an upload. -/
theorem put_object_target {segment rest : Text} (put : request.method = .PUT)
    (path : route request.path = some (.object segment rest)) :
    ∃ t, bucket_policy_target_for_request server_host request (apply_virtual_host server_host request) = some t ∧
      t.bucket = judged_bucket server_host request ∧ t.action = "s3:PutObject" := by
  obtain ⟨_,extracted⟩ := object_path_key path
  refine middleware_target extracted ?_ ?_
  · obtain ⟨named,whole,-,shape⟩ := route_object path
    have below : (Text.trim_start '/' request.path).contains '/' = true := by
      rw [shape,trim_routed named whole]
      simp
    simp only [is_create_bucket_request,below,Bool.not_true,Bool.and_false]
  · unfold s3_action_for_request
    split
    · rfl
    · rw [put]

end

end Maxio
