import Maxio.Policy
import Maxio.Prog

/-!
The S3 front end: what it knows of the store, which bucket and key a request is judged on, and the tenant and
policy gates. Every storage call and every policy decision is recorded in the order it is made.
-/

namespace Maxio

/-- `http::Method`. A method outside the standard ones keeps its own spelling. -/
inductive Method where
  | GET | HEAD | PUT | POST | DELETE | OPTIONS
  | extension (name : Text) (own : name ∉ ["GET","HEAD","PUT","POST","DELETE","OPTIONS"].map String.toList)
  deriving DecidableEq

namespace Method

def as_str : Method → Text
  | GET => "GET".toList
  | HEAD => "HEAD".toList
  | PUT => "PUT".toList
  | POST => "POST".toList
  | DELETE => "DELETE".toList
  | OPTIONS => "OPTIONS".toList
  | extension name _ => name

end Method

/-- The request line and the headers that name a bucket or a key. -/
structure Request where
  method : Method
  path : Text
  query : Text
  /-- `Host`, when it is printable ASCII. -/
  host : Option Text
  /-- `x-amz-copy-source`, when it is there, and its text when it is printable ASCII. -/
  copy_source : Option (Option Text)
  deriving DecidableEq

/-! ### Storage as the front end sees it -/

/-- Bucket settings with an interface of their own. -/
inductive Setting where
  | versioning | cors | encryption | policy | lifecycle | erasure | logging | notification | object_lock
  deriving DecidableEq, Repr

/-- Storage methods that a handler calls. -/
inductive Op where
  | head_bucket | create_bucket | delete_bucket
  | get_setting (setting : Setting) | put_setting (setting : Setting) | delete_setting (setting : Setting)
  | list_objects | list_object_versions | list_multipart_uploads
  | put_object | get_object | get_object_range | get_object_version | head_object | head_object_version
  | delete_object | delete_object_version
  | get_object_tagging | put_object_tagging | delete_object_tagging
  | get_object_retention | put_object_retention | get_object_legal_hold | put_object_legal_hold
  | create_multipart_upload | upload_part | complete_multipart_upload | abort_multipart_upload | list_parts
  deriving DecidableEq, Repr

/-- The part of a request that a call takes its bucket and key from. A call that a multi-object delete makes takes
its key from the body. -/
inductive Origin where
  | path | copy_source | body
  deriving DecidableEq, Repr

/-- A storage call with the bucket and the key it passes. -/
structure Call where
  op : Op
  bucket : Text
  key : Option Text
  origin : Origin
  deriving DecidableEq, Repr

/-- Reads of a bucket's record on the way to the operation: by a gate, by a test for existence, for a default. -/
inductive Check where
  | head_bucket | get_bucket_meta | get_bucket_public
  | get_bucket_encryption | get_bucket_notification
  deriving DecidableEq, Repr

structure BucketPolicyTarget where
  bucket : Text
  object_key : Option Text
  action : String
  list_prefix : Option Text
  deriving DecidableEq, Repr

inductive Event where
  | check (read : Check) (bucket : Text)
  /-- The policy of the target's bucket is read to judge the target. -/
  | judged (target : BucketPolicyTarget)
  | decided (target : BucketPolicyTarget) (access_key : Option Text) (decision : PolicyDecision)
  | call (c : Call)
  deriving DecidableEq, Repr

inductive S3Error where
  | access_denied (message : String)
  | no_such_bucket (bucket : Text)
  | bucket_already_owned (bucket : Text)
  | invalid_access_key
  | invalid_argument (message : String)
  | invalid_part (message : String)
  | invalid_range
  | malformed_policy (message : String)
  | not_implemented (message : String)
  | precondition_failed
  /-- The router found no handler, or a path parameter is not UTF-8. -/
  | unrouted
  /-- A header or the body was refused by its parser. -/
  | refused (message : String)
  | storage (error : StorageError)
  deriving DecidableEq, Repr

structure CredentialEntry where
  tenant_id : Option String
  deriving DecidableEq, Repr

/-- Configuration, credentials and the answers of the store. An answer may depend on everything that happened
before it in the request, and on the requests of others. -/
structure AppState where
  server_host : Text
  /-- `config.access_key`, the key of the bootstrap administrator. -/
  access_key : Text
  default_tenant : String
  lookup : Text → Option CredentialEntry
  /-- Whether the bucket's `.bucket.json` exists, and what it holds. -/
  bucket_exists : List Event → Text → Except StorageError Bool
  bucket_record : List Event → Text → Except StorageError BucketMeta
  policy_requires_v2_enforcement : Text → String → Bool
  evaluate_policy_v2 : String → BucketPolicyTarget → Option Text → Text → Except String PolicyDecision
  outcome : List Event → Call → Except StorageError Unit
  /-- Iteration order of a hash map. -/
  hash_order : Params → Params
  shuffled : ∀ params, (hash_order params).Perm params

abbrev Handler := Prog (List Event) S3Error

namespace AppState
variable (state : AppState)

/-- A read of a bucket's record, all of which check the name first. -/
def reading {α : Type} (event : Event) (bucket : Text) (answer : List Event → Except StorageError α) :
    Handler (Except StorageError α) := fun trace =>
  (.ok ((validate_bucket_name (String.ofList bucket)).bind fun _ => answer trace),trace ++ [event])

def head_bucket (bucket : Text) : Handler (Except StorageError Bool) :=
  reading (.check .head_bucket bucket) bucket fun trace => state.bucket_exists trace bucket

def get_bucket_meta (bucket : Text) : Handler (Except StorageError BucketMeta) :=
  reading (.check .get_bucket_meta bucket) bucket fun trace => state.bucket_record trace bucket

def get_bucket_public (bucket : Text) : Handler (Except StorageError (Bool × Bool)) :=
  reading (.check .get_bucket_public bucket) bucket fun trace =>
    (state.bucket_record trace bucket).map fun record => (record.public_read,record.public_list)

/-- The policy of a bucket, read by the gates for a target in it. -/
def get_bucket_policy (target : BucketPolicyTarget) : Handler (Except StorageError (Option String)) :=
  reading (.judged target) target.bucket fun trace =>
    (state.bucket_record trace target.bucket).map fun record => record.bucket_policy

def get_bucket_encryption (bucket : Text) : Handler (Except StorageError (Option BucketEncryptionConfig)) :=
  reading (.check .get_bucket_encryption bucket) bucket fun trace =>
    (state.bucket_record trace bucket).map fun record => record.encryption_config

/-- The read behind the events; an error ends the search for a receiver, not the request. -/
def get_bucket_notification (bucket : Text) : Handler (Except StorageError (Option BucketNotificationConfig)) :=
  reading (.check .get_bucket_notification bucket) bucket fun trace =>
    (state.bucket_record trace bucket).map fun record => record.notification_config

/-- Any other storage call; what it returns only goes into the response. -/
def attempt_call (c : Call) : Handler (Except StorageError Unit) := fun trace =>
  (.ok (state.outcome trace c),trace ++ [.call c])

/-- A storage call whose error is the handler's. -/
def call (c : Call) : Handler Unit := do
  match ← state.attempt_call c with
  | .ok () => pure ()
  | .error e => Prog.fail (.storage e)

/-- The test for a bucket that most handlers begin with. -/
def ensure_bucket_exists (bucket : Text) : Handler Unit := do
  match ← state.head_bucket bucket with
  | .ok true => pure ()
  | .ok false => Prog.fail (.no_such_bucket bucket)
  | .error e => Prog.fail (.storage e)

end AppState

/-! ### Virtual hosts -/

structure VirtualHostContext where
  bucket : Text
  signature_path : Text
  deriving DecidableEq, Repr

/-- `str::strip_suffix`. -/
def strip_suffix (t suffix : Text) : Option Text :=
  if suffix.isSuffixOf t then some (t.take (t.length - suffix.length)) else none

def object_key_from_signature_path (signature_path : Text) : Option Text :=
  let key := Text.trim_start '/' signature_path
  if key = [] then none else some key

/-- The bucket of a host `{bucket}.{server_host}`. -/
def extract_virtual_bucket (host server_host : Text) : Option Text :=
  let host := (Text.trim host).map Char.toLower
  let server_host := (Text.trim server_host).map Char.toLower
  if host = server_host then none
  else (strip_suffix host ('.' :: server_host)).bind fun bucket =>
    if bucket = [] then none
    else if is_valid_bucket_name (String.ofList bucket) then some bucket else none

/-- The bucket named by the `Host` header. -/
def virtual_bucket (server_host : Text) (host : Option Text) : Option Text :=
  host.bind fun host => extract_virtual_bucket host server_host

def apply_virtual_host (server_host : Text) (request : Request) : Option VirtualHostContext :=
  (virtual_bucket server_host request.host).map fun bucket => ⟨bucket,request.path⟩

def resolve_bucket (vhost : Option VirtualHostContext) (path_bucket : Text) : Text := match vhost with
  | some ctx => ctx.bucket
  | none => path_bucket

/-- The key of a virtual-hosted object path, only for a request without parameters. -/
def virtual_host_object_key (params : Params) (vhost : Option VirtualHostContext) : Option Text :=
  if params ≠ [] then none else vhost.bind fun ctx => object_key_from_signature_path ctx.signature_path

/-! ### Tenants -/

def DEFAULT_TENANT : String := "default"

def configured_default_tenant (default_tenant : String) : String :=
  let trimmed := Text.trim default_tenant.toList
  if trimmed = [] then DEFAULT_TENANT else String.ofList trimmed

/-- A missing or empty tenant is the default one. -/
def effective_tenant_id (tenant_id : Option String) (default : String) : String := match tenant_id with
  | some id => if id = "" then default else id
  | none => default

namespace AppState
variable (state : AppState)

def is_global_admin (access_key : Text) : Bool :=
  access_key = "admin:bearer".toList || access_key = state.access_key

def bucket_access_allowed (record : BucketMeta) (access_key : Text) (cred : Option CredentialEntry) : Bool :=
  if state.is_global_admin access_key then true
  else match cred with
    | none => false
    | some cred =>
      let default := configured_default_tenant state.default_tenant
      effective_tenant_id record.tenant_id default = effective_tenant_id cred.tenant_id default

def find_bucket_meta (bucket : Text) : Handler (Option BucketMeta) := do
  match ← state.head_bucket bucket with
  | .ok false => pure none
  | .error (.InvalidKey _) => pure none
  | .error e => Prog.fail (.storage e)
  | .ok true => match ← state.get_bucket_meta bucket with
    | .ok record => pure (some record)
    | .error (.NotFound _) => pure none
    | .error (.InvalidKey _) => pure none
    | .error e => Prog.fail (.storage e)

def ensure_bucket_access (access_key bucket : Text) : Handler Unit := do
  match ← state.find_bucket_meta bucket with
  | none => Prog.fail (.no_such_bucket bucket)
  | some record =>
    if state.bucket_access_allowed record access_key (state.lookup access_key) then pure ()
    else Prog.fail (.access_denied "Access Denied")

/-- Anonymous requests, let in by a public bucket, have no tenant. -/
def ensure_bucket_access_optional (access_key : Option Text) (bucket : Text) : Handler Unit := match access_key with
  | some access_key => state.ensure_bucket_access access_key bucket
  | none => pure ()

end AppState

/-- The guess that a request creates a bucket, as the tenant check makes it. -/
def is_create_bucket (method : Method) (query : Text) : Bool :=
  if method ≠ .PUT then false else if query = [] then true else !query.contains '='

/-- The bucket the tenant check of the middleware looks at. -/
def tenant_bucket_name (server_host : Text) (request : Request) (vhost : Option VirtualHostContext) : Option Text :=
  match virtual_bucket server_host request.host with
  | some bucket => some bucket
  | none => match vhost with
    | some ctx => some ctx.bucket
    | none =>
      let bucket := Text.first_piece '/' (Text.trim_start '/' request.path)
      if bucket = [] then none else some bucket

def plan_tenant_scope (server_host : Text) (request : Request) (vhost : Option VirtualHostContext) : Option Text :=
  if request.path = "/".toList ∨ request.path = [] then none
  else (tenant_bucket_name server_host request vhost).bind fun bucket =>
    if is_create_bucket request.method request.query then none else some bucket

/-! ### Bucket policies -/

/-- The guess that a request creates a bucket, as the policy check makes it. -/
def is_create_bucket_request (method : Method) (query path : Text) : Bool :=
  Text.eq_ignore_ascii_case method.as_str "PUT".toList && (query = [] || !query.contains '=') &&
  Text.first_piece '/' (Text.trim_start '/' path) ≠ [] && !(Text.trim_start '/' path).contains '/'

def extract_bucket_and_key (server_host path : Text) (host signature_path : Option Text) :
    Option (Text × Option Text) :=
  match virtual_bucket server_host host with
  | some bucket => some (bucket,object_key_from_signature_path (signature_path.getD path))
  | none =>
    let trimmed := Text.trim_start '/' path
    if trimmed = [] then none
    else match Text.split_once '/' trimmed with
      | some (bucket,rest) => some (bucket,if rest = [] then none else some rest)
      | none => some (trimmed,none)

def s3_action_for_request (method : Method) (query : Text) (has_object_key : Bool) : Option String :=
  if query_has_key query "uploadId" || query_has_key query "uploads" then some "s3:PutObject"
  else match method with
    | .GET | .HEAD => if has_object_key then some "s3:GetObject" else some "s3:ListBucket"
    | .PUT => some "s3:PutObject"
    | .DELETE => some "s3:DeleteObject"
    | .POST => if query_has_key query "delete" then some "s3:DeleteObject" else none
    | _ => none

/-- The value of the first `prefix` parameter that has one. -/
def list_prefix_of (query : Text) : Option Text :=
  let found := (splitChars '&' query).findSome? fun pair => (Text.split_once '=' pair).bind fun cut =>
    if Text.eq_ignore_ascii_case cut.1 "prefix".toList then some (decode_utf8_lossy cut.2) else none
  found.filter fun start => start ≠ []

def resolve_policy_target_from_parts (server_host : Text) (method : Method) (path query : Text)
    (host signature_path : Option Text) : Option BucketPolicyTarget :=
  if is_create_bucket_request method query path then none
  else (extract_bucket_and_key server_host path host signature_path).bind fun target =>
    (s3_action_for_request method query target.2.isSome).map fun action =>
      { bucket := target.1, object_key := target.2, action, list_prefix := list_prefix_of query }

/-- `bucket_policy_target_for_request`. -/
def bucket_policy_target_for_request (server_host : Text) (request : Request) (vhost : Option VirtualHostContext) :
    Option BucketPolicyTarget :=
  resolve_policy_target_from_parts server_host request.method request.path request.query request.host
    (vhost.map VirtualHostContext.signature_path)

/-- The parameters of a handler, who made the request, and from where. -/
structure S3RequestContext where
  principal : Option Text
  vhost : Option VirtualHostContext
  client_ip : Text

namespace AppState
variable (state : AppState)

def enforce_policy_target (target : BucketPolicyTarget) (access_key : Option Text) (client_ip : Text) :
    Handler Unit := do
  match ← state.get_bucket_policy target with
  | .ok none => pure ()
  | .error (.NotFound _) => pure ()
  | .error e => Prog.fail (.storage e)
  | .ok (some policy) =>
    if !state.policy_requires_v2_enforcement target.bucket policy then pure ()
    else match state.evaluate_policy_v2 policy target access_key client_ip with
      | .error message => Prog.fail (.malformed_policy message)
      | .ok decision => do
        Prog.tell fun trace => trace ++ [.decided target access_key decision]
        if decision = .Allow then pure () else Prog.fail (.access_denied "Access Denied")

def enforce_bucket_policy_for_target (target : Option BucketPolicyTarget) (access_key : Option Text)
    (client_ip : Text) : Handler Unit := match target with
  | none => pure ()
  | some target => state.enforce_policy_target target access_key client_ip

def query_string (params : Params) : Text :=
  "&".toList.intercalate ((state.hash_order params.entries).map fun entry => entry.1 ++ '=' :: entry.2)

/-- The path the gates put together from their arguments. -/
def gate_path (bucket : Text) (object_key : Option Text) : Text := match object_key with
  | some key => '/' :: bucket ++ '/' :: key
  | none => '/' :: bucket

/-- What `enforce_bucket_policy_for_parts` judges: a path and a query put together by the caller, with the host
and the signed path of the request. -/
def gate_target (host : Option Text) (ctx : S3RequestContext) (method : Method) (path query : Text) :
    Option BucketPolicyTarget :=
  resolve_policy_target_from_parts state.server_host method path query host
    (ctx.vhost.map VirtualHostContext.signature_path)

def enforce_tenant_bucket (ctx : S3RequestContext) (bucket : Text) : Handler Unit :=
  state.ensure_bucket_access_optional ctx.principal bucket

def enforce_s3_bucket_gates (host : Option Text) (ctx : S3RequestContext) (method : Method) (bucket : Text)
    (object_key : Option Text) (params : Params) : Handler Unit := do
  state.enforce_tenant_bucket ctx bucket
  state.enforce_bucket_policy_for_target
    (state.gate_target host ctx method (gate_path bucket object_key) (state.query_string params))
    ctx.principal ctx.client_ip

def enforce_copy_source_gates (host : Option Text) (ctx : S3RequestContext) (src_bucket src_key : Text) :
    Handler Unit := do
  state.enforce_tenant_bucket ctx src_bucket
  state.enforce_bucket_policy_for_target
    (state.gate_target host ctx .GET (gate_path src_bucket (some src_key)) [])
    ctx.principal ctx.client_ip

end AppState
end Maxio
