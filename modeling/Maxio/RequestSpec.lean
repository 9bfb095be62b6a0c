import Maxio.Gates

/-!
The bucket a request is judged on and the bucket its handler works on.
-/

namespace Maxio

/-! ### Programs by the events they log -/

/-- Every event a run logs has the property `P`, and a run that goes through ends with a value that has `Q`. -/
def Logs {α : Type} (P : Event → Prop) (Q : α → Prop) (m : Handler α) : Prop :=
  Prog.Emits (fun new r => (∀ e ∈ new, P e) ∧ ∀ a, r = .ok a → Q a) m

namespace Logs
variable {α β : Type} {P : Event → Prop} {Q : α → Prop}

theorem pure {a : α} (holds : Q a) : Logs P Q (Pure.pure a) :=
  Prog.Emits.pure ⟨by simp,by rintro _ ⟨⟩; exact holds⟩

theorem fail (e : S3Error) : Logs P Q (Prog.fail e) := Prog.Emits.fail ⟨by simp,by simp⟩

theorem lift (r : Except S3Error α) : Logs P (fun _ => True) (Prog.lift r) := Prog.Emits.lift ⟨by simp,by simp⟩

theorem bind {Q' : β → Prop} {m : Handler α} {f : α → Handler β} (first : Logs P Q m)
    (second : ∀ a, Q a → Logs P Q' (f a)) : Logs P Q' (m >>= f) := by
  refine Prog.Emits.bind first ?_ ?_
  · rintro new e ⟨logged,-⟩
    exact ⟨logged,by simp⟩
  · rintro a past ⟨logged,holds⟩
    refine (second a (holds a rfl)).mono ?_
    rintro new r ⟨more,ended⟩
    refine ⟨fun e member => ?_,ended⟩
    rcases List.mem_append.mp member with early | late
    · exact logged e early
    · exact more e late

theorem mono {Q' : α → Prop} {m : Handler α} (inner : Logs P Q m) (weaker : ∀ a, Q a → Q' a) : Logs P Q' m :=
  Prog.Emits.mono inner fun _ _ holds => ⟨holds.1,fun a ended => weaker a (holds.2 a ended)⟩

theorem each {items : List β} {f : β → Handler Unit} (step : ∀ b ∈ items, Logs P (fun _ => True) (f b)) :
    Logs P (fun _ => True) (Prog.each f items) := by
  induction items with
  | nil => exact pure trivial
  | cons b rest ih =>
    exact bind (step b (by simp)) fun _ _ => ih fun c member => step c (by simp [member])

/-- A read of a bucket's record. -/
theorem reading {event : Event} (holds : P event) (bucket : Text) (answer : List Event → Except StorageError α) :
    Logs P (fun _ => True) (AppState.reading event bucket answer) := fun _ => ⟨[event],rfl,by simpa using holds,by simp⟩

theorem attempt_call {state : AppState} {c : Call} (holds : P (.call c)) :
    Logs P (fun _ => True) (state.attempt_call c) := fun _ => ⟨[.call c],rfl,by simpa using holds,by simp⟩

theorem call {state : AppState} {c : Call} (holds : P (.call c)) : Logs P (fun _ => True) (state.call c) := by
  refine bind (attempt_call holds) fun answer _ => ?_
  rcases answer with e | _
  · exact fail _
  · exact pure trivial

end Logs

/-- The bucket that the middleware judges a request on: that of the host, or the first segment of the path as it was
sent. -/
def judged_bucket (server_host : Text) (request : Request) : Text :=
  (virtual_bucket server_host request.host).getD (Text.first_piece '/' (Text.trim_start '/' request.path))

section
variable {server_host : Text} {request : Request}

theorem plan_tenant_scope_bucket {bucket : Text}
    (planned : plan_tenant_scope server_host request (apply_virtual_host server_host request) = some bucket) :
    bucket = judged_bucket server_host request ∧ is_create_bucket request.method request.query = false := by
  rw [plan_tenant_scope] at planned
  split at planned
  · simp at planned
  obtain ⟨found,named,kept⟩ := Option.bind_eq_some_iff.mp planned
  split at kept
  · simp at kept
  next listed =>
    obtain rfl : found = bucket := by simpa using kept
    refine ⟨?_,by simpa using listed⟩
    unfold tenant_bucket_name at named
    cases host : virtual_bucket server_host request.host with
    | some vb => simp_all [judged_bucket]
    | none =>
      simp only [apply_virtual_host,host,Option.map_none] at named
      split at named
      · simp at named
      · simp_all [judged_bucket]

/-- A request that may not create a bucket is checked against the tenant of the judged bucket. -/
theorem plan_tenant_scope_planned (below : request.path ≠ "/".toList ∧ request.path ≠ [])
    (named : judged_bucket server_host request ≠ []) (other : is_create_bucket request.method request.query = false) :
    plan_tenant_scope server_host request (apply_virtual_host server_host request) =
      some (judged_bucket server_host request) := by
  rw [plan_tenant_scope,if_neg (by rintro (h | h); exacts [below.1 h,below.2 h])]
  unfold tenant_bucket_name
  cases host : virtual_bucket server_host request.host with
  | some vb => simp [judged_bucket,host,other]
  | none =>
    rw [judged_bucket,host,Option.getD_none] at named
    simp [apply_virtual_host,judged_bucket,host,other,named]

theorem extract_judged_bucket {path : Text} {host signature_path : Option Text} {bucket : Text} {key : Option Text}
    (found : extract_bucket_and_key server_host path host signature_path = some (bucket,key)) :
    bucket = (virtual_bucket server_host host).getD (Text.first_piece '/' (Text.trim_start '/' path)) := by
  rw [extract_bucket_and_key] at found
  cases named : virtual_bucket server_host host with
  | some vb => simp_all
  | none =>
    simp only [named] at found
    split at found
    · simp at found
    · split at found
      next before rest cut =>
        obtain ⟨whole,outside⟩ := Text.split_once_some.mp cut
        rw [Option.getD_none,whole,Text.first_piece_split outside]
        simp_all
      next uncut =>
        rw [Option.getD_none,Text.first_piece_whole (Text.split_once_none.mp uncut)]
        simp_all

theorem policy_target_bucket {target : BucketPolicyTarget}
    (found : bucket_policy_target_for_request server_host request (apply_virtual_host server_host request) =
      some target) : target.bucket = judged_bucket server_host request := by
  rw [bucket_policy_target_for_request,resolve_policy_target_from_parts] at found
  split at found
  · simp at found
  · obtain ⟨pair,cut,made⟩ := Option.bind_eq_some_iff.mp found
    obtain ⟨action,-,rfl⟩ := Option.map_eq_some_iff.mp made
    exact extract_judged_bucket cut

end

/-! ### Handlers -/

/-- The bucket a handler was handed. -/
def Operation.bucket : Operation → Option Text
  | .list_buckets | .options => none
  | .create_bucket bucket | .head_bucket bucket | .delete_bucket bucket | .put_setting _ bucket
  | .delete_setting _ bucket | .get_bucket _ bucket | .delete_objects bucket | .put_retention bucket _
  | .put_legal_hold bucket _ | .put_tagging bucket _ | .upload_part bucket _ | .upload_part_copy bucket _
  | .copy_object bucket _ | .put_object bucket _ | .get_object _ bucket _ | .head_object bucket _
  | .delete_tagging bucket _ | .abort_upload bucket _ | .delete_object bucket _ | .post_object _ bucket _ => some bucket

/-- The key an object handler was handed. -/
def Operation.key : Operation → Option Text
  | .put_retention _ key | .put_legal_hold _ key | .put_tagging _ key | .upload_part _ key | .upload_part_copy _ key
  | .copy_object _ key | .put_object _ key | .get_object _ _ key | .head_object _ key | .delete_tagging _ key
  | .abort_upload _ key | .delete_object _ key | .post_object _ _ key => some key
  | _ => none

theorem put_object_operation_target (params : Params) (copies : Bool) (bucket key : Text) :
    (put_object_operation params copies bucket key).bucket = some bucket ∧
      (put_object_operation params copies bucket key).key = some key := by
  unfold put_object_operation
  repeat' split
  all_goals exact ⟨rfl,rfl⟩

theorem get_object_operation_target (params : Params) (bucket key : Text) :
    (get_object_operation params bucket key).bucket = some bucket ∧
      (get_object_operation params bucket key).key = some key := by
  unfold get_object_operation
  repeat' split
  all_goals exact ⟨rfl,rfl⟩

theorem delete_object_operation_target (params : Params) (bucket key : Text) :
    (delete_object_operation params bucket key).bucket = some bucket ∧
      (delete_object_operation params bucket key).key = some key := by
  unfold delete_object_operation
  repeat' split
  all_goals exact ⟨rfl,rfl⟩

theorem post_object_operation_target (params : Params) (bucket key : Text) :
    (post_object_operation params bucket key).bucket = some bucket ∧
      (post_object_operation params bucket key).key = some key := by
  unfold post_object_operation
  repeat' split
  all_goals exact ⟨rfl,rfl⟩

theorem delete_bucket_operation_target (params : Params) (bucket : Text) :
    (delete_bucket_operation params bucket).bucket = some bucket ∧
      (delete_bucket_operation params bucket).key = none := by
  unfold delete_bucket_operation
  repeat' split
  all_goals exact ⟨rfl,rfl⟩

theorem object_operation_target {method : Method} {params : Params} {copies : Bool} {bucket key : Text}
    {operation : Operation} (chosen : object_operation method params copies bucket key = some operation) :
    operation = .options ∨ (operation.bucket = some bucket ∧ operation.key = some key) := by
  cases method <;> simp only [object_operation,Option.some.injEq,reduceCtorEq] at chosen <;> subst chosen
  · exact .inr (get_object_operation_target ..)
  · exact .inr ⟨rfl,rfl⟩
  · exact .inr (put_object_operation_target ..)
  · exact .inr (post_object_operation_target ..)
  · exact .inr (delete_object_operation_target ..)
  · exact .inl rfl

/-- Bucket handlers work on the bucket of the path, or on that of the host when the method is GET or PUT. -/
theorem bucket_operation_bucket {method : Method} {params : Params} {vhost : Option VirtualHostContext} {copies : Bool}
    {bucket : Text} {operation : Operation}
    (chosen : bucket_operation method params vhost copies bucket = some operation) :
    operation = .options ∨ operation.bucket = some bucket ∨
      ((method = .GET ∨ method = .PUT) ∧ operation.bucket = some (resolve_bucket vhost bucket)) := by
  cases method <;> simp only [bucket_operation,Option.some.injEq,reduceCtorEq] at chosen <;> subst chosen
  · right; right
    refine ⟨.inl rfl,?_⟩
    unfold handle_bucket_get
    split
    · exact (get_object_operation_target ..).1
    · rfl
  · exact .inr (.inl rfl)
  · right; right
    refine ⟨.inr rfl,?_⟩
    unfold handle_bucket_put
    split
    · exact (put_object_operation_target ..).1
    · split <;> rfl
  · exact .inr (.inl rfl)
  · exact .inr (.inl (delete_bucket_operation_target ..).1)
  · exact .inl rfl

theorem route_bucket {path segment : Text} (routed : route path = some (.bucket segment)) :
    segment ≠ [] ∧ '/' ∉ segment ∧ (path = '/' :: segment ∨ path = '/' :: segment ++ ['/']) := by
  rcases route_cases routed with ⟨other,-⟩ | ⟨_,same,facts⟩ | ⟨_,_,other,-⟩
  · simp at other
  · obtain rfl : segment = _ := by simpa using same
    exact facts
  · simp at other

theorem route_object {path segment rest : Text} (routed : route path = some (.object segment rest)) :
    segment ≠ [] ∧ '/' ∉ segment ∧ rest ≠ [] ∧ path = '/' :: segment ++ '/' :: rest := by
  rcases route_cases routed with ⟨other,-⟩ | ⟨_,other,-⟩ | ⟨_,_,same,facts⟩
  · simp at other
  · simp at other
  · obtain ⟨rfl,rfl⟩ : segment = _ ∧ rest = _ := by simpa using same
    exact facts

/-- A routed path without its slash. -/
theorem trim_routed {segment : Text} (named : segment ≠ []) (whole : '/' ∉ segment) (after : Text) :
    Text.trim_start '/' ('/' :: segment ++ after) = segment ++ after := by
  obtain ⟨c,others,rfl⟩ := List.exists_cons_of_ne_nil named
  have other : c ≠ '/' := fun same => whole (by simp [same])
  rw [List.cons_append,Text.trim_start_same,List.cons_append,Text.trim_start_cons other]

/-- What a path with a bucket in it begins with. -/
theorem first_piece_of_route {path segment : Text} (named : segment ≠ []) (whole : '/' ∉ segment)
    (shape : path = '/' :: segment ∨ ∃ rest, path = '/' :: segment ++ '/' :: rest) :
    Text.first_piece '/' (Text.trim_start '/' path) = segment := by
  obtain ⟨c,more,rfl⟩ := List.exists_cons_of_ne_nil named
  have other : c ≠ '/' := fun same => whole (by simp [same])
  rcases shape with rfl | ⟨rest,rfl⟩
  · rw [Text.trim_start_same,Text.trim_start_cons other,Text.first_piece_whole whole]
  · rw [List.cons_append,Text.trim_start_same,List.cons_append,Text.trim_start_cons other,← List.cons_append,
      Text.first_piece_split whole]

/-- Requests that reach a handler of a bucket: the segment of the path that names it, and what it decodes to. -/
structure Routed (server_host : Text) (request : Request) (operation : Operation) (segment bucket : Text) : Prop where
  named : segment ≠ []
  whole : '/' ∉ segment
  decoded : decode_utf8 segment = some bucket
  first : Text.first_piece '/' (Text.trim_start '/' request.path) = segment
  below : request.path ≠ "/".toList ∧ request.path ≠ []
  handed : operation.bucket = some bucket ∨
    ∃ named, virtual_bucket server_host request.host = some named ∧ operation.bucket = some named ∧
      route request.path = some (.bucket segment) ∧ (request.method = .GET ∨ request.method = .PUT)

/-- How the router comes to an operation. -/
theorem router_cases {request : Request} {vhost : Option VirtualHostContext} {operation : Operation}
    (found : s3_router request vhost = some operation) :
    operation = .list_buckets ∨
    (∃ segment bucket, route request.path = some (.bucket segment) ∧ decode_utf8 segment = some bucket ∧
      bucket_operation request.method (parse_query request.query) vhost request.copy_source.isSome bucket =
        some operation) ∨
    (∃ segment rest bucket key, route request.path = some (.object segment rest) ∧ decode_utf8 segment = some bucket ∧
      decode_utf8 rest = some key ∧
      object_operation request.method (parse_query request.query) request.copy_source.isSome bucket key =
        some operation) := by
  rw [s3_router] at found
  cases path : route request.path with
  | none => simp [path] at found
  | some place =>
    cases place with
    | root =>
      simp only [path] at found
      split at found
      · exact .inl (by simpa using found.symm)
      · simp at found
    | bucket segment =>
      simp only [path,Option.bind_eq_some_iff] at found
      obtain ⟨bucket,decoded,chosen⟩ := found
      exact .inr (.inl ⟨segment,bucket,rfl,decoded,chosen⟩)
    | object segment rest =>
      simp only [path,Option.bind_eq_some_iff] at found
      obtain ⟨bucket,decoded,key,named,chosen⟩ := found
      exact .inr (.inr ⟨segment,rest,bucket,key,rfl,decoded,named,chosen⟩)

/-- The method that leads to an operation. -/
def Operation.method : Operation → Option Method
  | .list_buckets | .options => none
  | .get_bucket _ _ | .get_object _ _ _ => some .GET
  | .head_bucket _ | .head_object _ _ => some .HEAD
  | .delete_objects _ | .post_object _ _ _ => some .POST
  | .delete_bucket _ | .delete_setting _ _ | .delete_tagging _ _ | .abort_upload _ _ | .delete_object _ _ => some .DELETE
  | .create_bucket _ | .put_setting _ _ | .put_retention _ _ | .put_legal_hold _ _ | .put_tagging _ _
  | .upload_part _ _ | .upload_part_copy _ _ | .copy_object _ _ | .put_object _ _ => some .PUT

theorem put_object_operation_method (params : Params) (copies : Bool) (bucket key : Text) :
    (put_object_operation params copies bucket key).method = some .PUT := by
  unfold put_object_operation
  repeat' split
  all_goals rfl

theorem get_object_operation_method (params : Params) (bucket key : Text) :
    (get_object_operation params bucket key).method = some .GET := by
  unfold get_object_operation
  repeat' split
  all_goals rfl

theorem bucket_operation_method {method : Method} {params : Params} {vhost : Option VirtualHostContext} {copies : Bool}
    {bucket : Text} {operation : Operation}
    (chosen : bucket_operation method params vhost copies bucket = some operation) :
    operation = .options ∨ operation.method = some method := by
  cases method <;> simp only [bucket_operation,Option.some.injEq,reduceCtorEq] at chosen <;> subst chosen
  · unfold handle_bucket_get
    split
    · exact .inr (get_object_operation_method ..)
    · exact .inr rfl
  · exact .inr rfl
  · unfold handle_bucket_put
    split
    · exact .inr (put_object_operation_method ..)
    · split <;> exact .inr rfl
  · exact .inr rfl
  · unfold delete_bucket_operation
    repeat' split
    all_goals exact .inr rfl
  · exact .inl rfl

theorem object_operation_method {method : Method} {params : Params} {copies : Bool} {bucket key : Text}
    {operation : Operation} (chosen : object_operation method params copies bucket key = some operation) :
    operation = .options ∨ operation.method = some method := by
  cases method <;> simp only [object_operation,Option.some.injEq,reduceCtorEq] at chosen <;> subst chosen
  · exact .inr (get_object_operation_method ..)
  · exact .inr rfl
  · exact .inr (put_object_operation_method ..)
  · unfold post_object_operation
    repeat' split
    all_goals exact .inr rfl
  · unfold delete_object_operation
    repeat' split
    all_goals exact .inr rfl
  · exact .inl rfl

theorem router_method {request : Request} {vhost : Option VirtualHostContext} {operation : Operation} {method : Method}
    (found : s3_router request vhost = some operation) (asked : operation.method = some method) :
    request.method = method := by
  have made : operation = .options ∨ operation.method = some request.method := by
    rcases router_cases found with rfl | ⟨_,_,-,-,chosen⟩ | ⟨_,_,_,_,-,-,-,chosen⟩
    · simp [Operation.method] at asked
    · exact bucket_operation_method chosen
    · exact object_operation_method chosen
  rcases made with rfl | same
  · simp [Operation.method] at asked
  · rw [asked,Option.some.injEq] at same
    exact same.symm

theorem routed_of_router {server_host : Text} {request : Request} {operation : Operation}
    (found : s3_router request (apply_virtual_host server_host request) = some operation)
    (works : operation.bucket ≠ none) : ∃ segment bucket, Routed server_host request operation segment bucket := by
  rcases router_cases found with rfl | ⟨segment,bucket,path,decoded,chosen⟩ |
    ⟨segment,rest,bucket,key,path,decoded,-,chosen⟩
  · exact absurd rfl works
  · obtain ⟨named,whole,shape⟩ := route_bucket path
    refine ⟨segment,bucket,named,whole,decoded,first_piece_of_route named whole ?_,?_,?_⟩
    · exact shape.imp id fun trailing => ⟨[],trailing⟩
    · rcases shape with shape | shape <;> simp [shape,named]
    · rcases bucket_operation_bucket chosen with rfl | same | ⟨method,resolved⟩
      · exact absurd rfl works
      · exact .inl same
      · cases host : virtual_bucket server_host request.host with
        | none =>
          rw [apply_virtual_host,host] at resolved
          exact .inl resolved
        | some vb =>
          rw [apply_virtual_host,host] at resolved
          exact .inr ⟨vb,rfl,resolved,path,method⟩
  · obtain ⟨named,whole,more,shape⟩ := route_object path
    refine ⟨segment,bucket,named,whole,decoded,first_piece_of_route named whole (.inr ⟨rest,shape⟩),?_,?_⟩
    · simp [shape]
    · rcases object_operation_target chosen with rfl | same
      · exact absurd rfl works
      · exact .inl same.1

/-- Without a virtual host, a request whose judged bucket has a valid name is handled on that bucket. -/
theorem Routed.bucket_eq {server_host segment bucket : Text} {request : Request} {operation : Operation}
    (routed : Routed server_host request operation segment bucket)
    (plain : virtual_bucket server_host request.host = none) :
    judged_bucket server_host request = segment ∧ operation.bucket = some bucket ∧
      (is_valid_bucket_name (String.ofList segment) → bucket = segment) := by
  refine ⟨?_,?_,?_⟩
  · rw [judged_bucket,plain,Option.getD_none,routed.first]
  · rcases routed.handed with same | ⟨named,host,-⟩
    · exact same
    · simp [plain] at host
  · intro valid
    have again := decode_utf8_valid valid
    rw [routed.decoded,Option.some.injEq] at again
    exact again

end Maxio
