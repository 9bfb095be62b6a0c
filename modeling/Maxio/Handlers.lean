import Maxio.Server

/-!
The handlers behind the S3 router: which operation a request is, and which gates and storage calls that operation
makes; and the middleware in front of them.
-/

namespace Maxio

/-- Reads of a bucket that `handle_bucket_get` chooses from. -/
inductive BucketRead where
  | uploads | setting (setting : Setting) | versions | location | objects
  deriving DecidableEq, Repr

/-- Reads of an object that `get_object` chooses from. -/
inductive ObjectRead where
  | retention | legal_hold | tagging | parts | bytes
  deriving DecidableEq, Repr

/-- Operations of `post_object`. -/
inductive ObjectPost where
  | create_upload | complete_upload | unsupported
  deriving DecidableEq, Repr

/-- What a handler settles on, with the bucket and the key it was handed. -/
inductive Operation where
  | list_buckets
  | options
  | create_bucket (bucket : Text)
  | head_bucket (bucket : Text)
  | delete_bucket (bucket : Text)
  | put_setting (setting : Setting) (bucket : Text)
  | delete_setting (setting : Setting) (bucket : Text)
  | get_bucket (read : BucketRead) (bucket : Text)
  | delete_objects (bucket : Text)
  | put_retention (bucket key : Text)
  | put_legal_hold (bucket key : Text)
  | put_tagging (bucket key : Text)
  | upload_part (bucket key : Text)
  | upload_part_copy (bucket key : Text)
  | copy_object (bucket key : Text)
  | put_object (bucket key : Text)
  | get_object (read : ObjectRead) (bucket key : Text)
  | head_object (bucket key : Text)
  | delete_tagging (bucket key : Text)
  | abort_upload (bucket key : Text)
  | delete_object (bucket key : Text)
  | post_object (post : ObjectPost) (bucket key : Text)
  deriving DecidableEq, Repr

/-! ### Choosing an operation -/

/-- `object::put_object`. -/
def put_object_operation (params : Params) (copies : Bool) (bucket key : Text) : Operation :=
  if params.contains_key "retention" then .put_retention bucket key
  else if params.contains_key "legal-hold" then .put_legal_hold bucket key
  else if params.contains_key "uploadId" && copies then .upload_part_copy bucket key
  else if copies then .copy_object bucket key
  else if params.contains_key "tagging" then .put_tagging bucket key
  else if params.contains_key "uploadId" then .upload_part bucket key
  else .put_object bucket key

/-- `object::get_object`. -/
def get_object_operation (params : Params) (bucket key : Text) : Operation :=
  if params.contains_key "retention" then .get_object .retention bucket key
  else if params.contains_key "legal-hold" then .get_object .legal_hold bucket key
  else if params.contains_key "tagging" then .get_object .tagging bucket key
  else if params.contains_key "uploadId" then .get_object .parts bucket key
  else .get_object .bytes bucket key

/-- `object::delete_object`. -/
def delete_object_operation (params : Params) (bucket key : Text) : Operation :=
  if params.contains_key "tagging" then .delete_tagging bucket key
  else if params.contains_key "uploadId" then .abort_upload bucket key
  else .delete_object bucket key

/-- `object::post_object`. -/
def post_object_operation (params : Params) (bucket key : Text) : Operation :=
  if params.contains_key "uploads" then .post_object .create_upload bucket key
  else if params.contains_key "uploadId" then .post_object .complete_upload bucket key
  else .post_object .unsupported bucket key

/-- The setting that `handle_bucket_put` writes. -/
def written_setting (params : Params) : Option Setting :=
  if params.contains_key "versioning" then some .versioning
  else if params.contains_key "cors" then some .cors
  else if params.contains_key "encryption" then some .encryption
  else if params.contains_key "policy" then some .policy
  else if params.contains_key "lifecycle" then some .lifecycle
  else if params.contains_key "erasure" then some .erasure
  else if params.contains_key "logging" then some .logging
  else if params.contains_key "notification" then some .notification
  else if params.contains_key "object-lock" then some .object_lock
  else none

def handle_bucket_put (params : Params) (vhost : Option VirtualHostContext) (copies : Bool) (path_bucket : Text) :
    Operation :=
  match virtual_host_object_key params vhost with
  | some key => put_object_operation [] copies (resolve_bucket vhost path_bucket) key
  | none => match written_setting params with
    | some setting => .put_setting setting (resolve_bucket vhost path_bucket)
    | none => .create_bucket (resolve_bucket vhost path_bucket)

/-- What `handle_bucket_get` reads. -/
def read_of_bucket (params : Params) : BucketRead :=
  if params.contains_key "uploads" then .uploads
  else if params.contains_key "versioning" then .setting .versioning
  else if params.contains_key "cors" then .setting .cors
  else if params.contains_key "encryption" then .setting .encryption
  else if params.contains_key "policy" then .setting .policy
  else if params.contains_key "lifecycle" then .setting .lifecycle
  else if params.contains_key "object-lock" then .setting .object_lock
  else if params.contains_key "erasure" then .setting .erasure
  else if params.contains_key "logging" then .setting .logging
  else if params.contains_key "notification" then .setting .notification
  else if params.contains_key "versions" then .versions
  else if params.contains_key "location" then .location
  else .objects

def handle_bucket_get (params : Params) (vhost : Option VirtualHostContext) (path_bucket : Text) : Operation :=
  match virtual_host_object_key params vhost with
  | some key => get_object_operation [] (resolve_bucket vhost path_bucket) key
  | none => .get_bucket (read_of_bucket params) (resolve_bucket vhost path_bucket)

/-- `bucket::delete_bucket`, which takes its bucket from the path alone. -/
def delete_bucket_operation (params : Params) (bucket : Text) : Operation :=
  if params.contains_key "cors" then .delete_setting .cors bucket
  else if params.contains_key "encryption" then .delete_setting .encryption bucket
  else if params.contains_key "policy" then .delete_setting .policy bucket
  else if params.contains_key "lifecycle" then .delete_setting .lifecycle bucket
  else if params.contains_key "logging" then .delete_setting .logging bucket
  else if params.contains_key "notification" then .delete_setting .notification bucket
  else .delete_bucket bucket

/-- Handlers of `/{bucket}` and `/{bucket}/`. -/
def bucket_operation (method : Method) (params : Params) (vhost : Option VirtualHostContext) (copies : Bool)
    (bucket : Text) : Option Operation :=
  match method with
  | .PUT => some (handle_bucket_put params vhost copies bucket)
  | .HEAD => some (.head_bucket bucket)
  | .DELETE => some (delete_bucket_operation params bucket)
  | .GET => some (handle_bucket_get params vhost bucket)
  | .OPTIONS => some .options
  | .POST => some (.delete_objects bucket)
  | .extension _ _ => none

/-- Handlers of `/{bucket}/{*key}`. -/
def object_operation (method : Method) (params : Params) (copies : Bool) (bucket key : Text) : Option Operation :=
  match method with
  | .POST => some (post_object_operation params bucket key)
  | .PUT => some (put_object_operation params copies bucket key)
  | .GET => some (get_object_operation params bucket key)
  | .HEAD => some (.head_object bucket key)
  | .DELETE => some (delete_object_operation params bucket key)
  | .OPTIONS => some .options
  | .extension _ _ => none

/-- The operation a request is routed to. The router sees the path alone; the handlers see the virtual host too. -/
def s3_router (request : Request) (vhost : Option VirtualHostContext) : Option Operation :=
  let params := parse_query request.query
  match route request.path with
  | none => none
  | some .root => if request.method = .GET ∨ request.method = .HEAD then some .list_buckets else none
  | some (.bucket segment) => (decode_utf8 segment).bind fun bucket =>
      bucket_operation request.method params vhost request.copy_source.isSome bucket
  | some (.object segment rest) => (decode_utf8 segment).bind fun bucket => (decode_utf8 rest).bind fun key =>
      object_operation request.method params request.copy_source.isSome bucket key

/-! ### Carrying an operation out -/

/-- Header and body parsers that stand between the calls of an operation. -/
inductive Stage where
  | body | headers | customer_key | directive | encryption | range | part
  deriving DecidableEq, Repr

inductive RangeHeader where
  | absent | whole | slice | invalid
  deriving DecidableEq, Repr

inductive Conditions where
  | met | not_modified | failed
  deriving DecidableEq, Repr

/-- The rest of a request: its signature, and what its other headers and its body come to when they are parsed. -/
structure Message where
  authorization : Bool
  /-- The access key of the signature, once it has verified. -/
  signature : Except S3Error Text
  /-- The address the middleware resolves. -/
  client_ip : Text
  /-- The address the handlers take from the headers. -/
  forwarded_ip : Text
  parse : Stage → Except S3Error Unit
  asks_encryption : Bool
  delete_keys : List Text
  range : RangeHeader
  conditions : Conditions

/-- A response that holds bytes or metadata of an object, or any other. -/
inductive Response where
  | object (bucket key : Text)
  | other
  deriving DecidableEq, Repr

def parse_copy_source (request : Request) : Except S3Error (Text × Text) :=
  match request.copy_source with
  | some (some source) => match decode_utf8 source with
    | none => .error (.invalid_argument "invalid x-amz-copy-source encoding")
    | some decoded => match Text.split_once '/' (Text.trim_start '/' decoded) with
      | some pair => .ok pair
      | none => .error (.invalid_argument "invalid x-amz-copy-source format")
  | _ => .error (.invalid_argument "missing x-amz-copy-source header")

/-- `params.get("partNumber")` as a `u32`. -/
def part_number (params : Params) : Except S3Error Nat := match params.get "partNumber" with
  | none => .error (.invalid_argument "missing partNumber")
  | some text => match parseUnsigned (2 ^ 32 - 1) (String.ofList text) with
    | none => .error (.invalid_part "invalid part number")
    | some n => .ok n

namespace AppState
variable (state : AppState) (request : Request) (message : Message) (ctx : S3RequestContext)

def gates (method : Method) (bucket : Text) (object_key : Option Text) (params : Params) : Handler Unit :=
  state.enforce_s3_bucket_gates request.host ctx method bucket object_key params

def create_bucket (bucket : Text) : Handler Response := match ctx.principal with
  | none => Prog.fail (.access_denied "Missing principal")
  | some _ => do
    Prog.lift ((validate_bucket_name (String.ofList bucket)).mapError .storage)
    state.call ⟨.create_bucket,bucket,none,.path⟩
    pure .other

def head_bucket_handler (bucket : Text) : Handler Response := do
  state.enforce_tenant_bucket ctx bucket
  state.ensure_bucket_exists bucket
  state.call ⟨.head_bucket,bucket,none,.path⟩
  pure .other

/-- The nine handlers that write a setting. -/
def put_setting (setting : Setting) (bucket : Text) : Handler Response := do
  state.ensure_bucket_exists bucket
  Prog.lift (message.parse .body)
  state.call ⟨.put_setting setting,bucket,none,.path⟩
  pure .other

/-- Two of the settings are looked up before they are removed. -/
def ensure_setting_exists (setting : Setting) (bucket : Text) : Handler Unit :=
  if setting = .policy ∨ setting = .lifecycle then state.call ⟨.get_setting setting,bucket,none,.path⟩ else pure ()

/-- The handlers that remove a setting. -/
def delete_setting (setting : Setting) (bucket : Text) : Handler Response := do
  state.ensure_bucket_exists bucket
  state.ensure_setting_exists setting bucket
  state.call ⟨.delete_setting setting,bucket,none,.path⟩
  pure .other

def bucket_read_op : BucketRead → Option Op
  | .uploads => some .list_multipart_uploads
  | .setting setting => some (.get_setting setting)
  | .versions => some .list_object_versions
  | .location => none
  | .objects => some .list_objects

def get_bucket (read : BucketRead) (bucket : Text) : Handler Response := do
  state.enforce_tenant_bucket ctx bucket
  state.ensure_bucket_exists bucket
  match bucket_read_op read with
  | some op => do
    state.call ⟨op,bucket,none,.path⟩
    pure .other
  | none => pure .other

/-- A handler that parses the body and passes bucket and key on, without a gate. -/
def put_object_property (op : Op) (bucket key : Text) : Handler Response := do
  Prog.lift (message.parse .body)
  state.call ⟨op,bucket,some key,.path⟩
  pure .other

def upload_part (bucket : Text) : Handler Response := do
  state.ensure_bucket_exists bucket
  let _ ← Prog.lift (part_number (parse_query request.query))
  Prog.lift (message.parse .headers)
  state.call ⟨.upload_part,bucket,none,.path⟩
  pure .other

/-- The gates of both copies: the destination, then the source. -/
def copy_gates (bucket key : Text) : Handler (Text × Text) := do
  state.gates request ctx .PUT bucket (some key) (parse_query request.query)
  let source ← Prog.lift (parse_copy_source request)
  state.enforce_copy_source_gates request.host ctx source.1 source.2
  pure source

def upload_part_copy (bucket key : Text) : Handler Response := do
  let source ← state.copy_gates request ctx bucket key
  let _ ← Prog.lift (part_number (parse_query request.query))
  state.ensure_bucket_exists bucket
  state.call ⟨.head_object,source.1,some source.2,.copy_source⟩
  Prog.lift (message.parse .range)
  Prog.lift (message.parse .customer_key)
  let op := if message.range = .absent then Op.get_object else .get_object_range
  state.call ⟨op,source.1,some source.2,.copy_source⟩
  state.call ⟨.upload_part,bucket,none,.path⟩
  pure .other

/-- The default encryption of the bucket, when the request names none and an error is none either. -/
def default_encryption (bucket : Text) : Handler Unit :=
  if message.asks_encryption then pure ()
  else do
    let _ ← state.get_bucket_encryption bucket
    pure ()

/-- The same read where an error is passed on. -/
def require_default_encryption (bucket : Text) : Handler Unit :=
  if message.asks_encryption then pure ()
  else do
    match ← state.get_bucket_encryption bucket with
    | .ok _ => pure ()
    | .error e => Prog.fail (.storage e)

def copy_object (bucket key : Text) : Handler Response := do
  let source ← state.copy_gates request ctx bucket key
  state.ensure_bucket_exists bucket
  Prog.lift (message.parse .customer_key)
  state.call ⟨.get_object,source.1,some source.2,.copy_source⟩
  Prog.lift (message.parse .directive)
  Prog.lift (message.parse .encryption)
  state.default_encryption message bucket
  state.call ⟨.put_object,bucket,some key,.path⟩
  state.call ⟨.head_object,bucket,some key,.path⟩
  pure .other

def put_object (bucket key : Text) : Handler Response := do
  state.ensure_bucket_exists bucket
  state.gates request ctx .PUT bucket (some key) (parse_query request.query)
  Prog.lift (message.parse .body)
  Prog.lift (message.parse .encryption)
  state.require_default_encryption message bucket
  state.call ⟨.put_object,bucket,some key,.path⟩
  let _ ← state.get_bucket_notification bucket
  pure .other

/-- `get_object` when a range was asked for: the slice, or nothing when the header is to be ignored. -/
def get_range (bucket key : Text) : Handler (Option Response) := match message.range with
  | .absent => pure none
  | range => do
    state.call ⟨.head_object,bucket,some key,.path⟩
    match message.conditions with
    | .not_modified => pure (some (.object bucket key))
    | .failed => Prog.fail .precondition_failed
    | .met => match range with
      | .slice => do
        state.call ⟨.get_object_range,bucket,some key,.path⟩
        pure (some (.object bucket key))
      | .invalid => Prog.fail .invalid_range
      | _ => pure none

/-- The response once the metadata is known. -/
def conditional_response (bucket key : Text) : Handler Response := match message.conditions with
  | .failed => Prog.fail .precondition_failed
  | _ => pure (.object bucket key)

/-- `get_object` past its sub-resources. -/
def get_bytes (bucket key : Text) : Handler Response := do
  Prog.lift (message.parse .customer_key)
  match (parse_query request.query).get "partNumber" with
  | some text => match parseUnsigned (2 ^ 32 - 1) (String.ofList text) with
    | none => Prog.fail (.invalid_argument "invalid partNumber")
    | some _ => do
      state.call ⟨.head_object,bucket,some key,.path⟩
      Prog.lift (message.parse .part)
      state.call ⟨.get_object_range,bucket,some key,.path⟩
      pure (.object bucket key)
  | none => do
    match ← state.get_range message bucket key with
    | some response => pure response
    | none => do
      let op := if (parse_query request.query).contains_key "versionId" then Op.get_object_version else .get_object
      state.call ⟨op,bucket,some key,.path⟩
      conditional_response message bucket key

def get_object (read : ObjectRead) (bucket key : Text) : Handler Response := do
  state.gates request ctx .GET bucket (some key) (parse_query request.query)
  match read with
  | .retention => do
    state.call ⟨.get_object_retention,bucket,some key,.path⟩
    pure (.object bucket key)
  | .legal_hold => do
    state.call ⟨.get_object_legal_hold,bucket,some key,.path⟩
    pure (.object bucket key)
  | .tagging => do
    state.call ⟨.get_object_tagging,bucket,some key,.path⟩
    pure (.object bucket key)
  | .parts => do
    state.ensure_bucket_exists bucket
    state.call ⟨.list_parts,bucket,none,.path⟩
    pure .other
  | .bytes => state.get_bytes request message bucket key

def head_object (bucket key : Text) : Handler Response := do
  state.gates request ctx .HEAD bucket (some key) (parse_query request.query)
  let op := if (parse_query request.query).contains_key "versionId" then Op.head_object_version else .head_object
  state.call ⟨op,bucket,some key,.path⟩
  match message.conditions with
  | .met => do
    Prog.lift (message.parse .part)
    pure (.object bucket key)
  | _ => conditional_response message bucket key

def abort_upload (bucket : Text) : Handler Response := do
  state.ensure_bucket_exists bucket
  state.call ⟨.abort_multipart_upload,bucket,none,.path⟩
  pure .other

def delete_object (bucket key : Text) : Handler Response := do
  state.ensure_bucket_exists bucket
  state.gates request ctx .DELETE bucket (some key) (parse_query request.query)
  if (parse_query request.query).contains_key "versionId" then do
    state.call ⟨.delete_object_version,bucket,some key,.path⟩
    pure .other
  else do
    state.call ⟨.delete_object,bucket,some key,.path⟩
    let _ ← state.get_bucket_notification bucket
    pure .other

def post_object (post : ObjectPost) (bucket key : Text) : Handler Response := do
  state.gates request ctx .POST bucket (some key) (parse_query request.query)
  match post with
  | .create_upload => do
    state.ensure_bucket_exists bucket
    Prog.lift (message.parse .encryption)
    state.default_encryption message bucket
    state.call ⟨.create_multipart_upload,bucket,some key,.path⟩
    pure .other
  | .complete_upload => do
    state.ensure_bucket_exists bucket
    Prog.lift (message.parse .body)
    Prog.lift (message.parse .customer_key)
    state.call ⟨.complete_multipart_upload,bucket,none,.path⟩
    pure .other
  | .unsupported => Prog.fail (.not_implemented "Unsupported POST object operation")

def delete_objects (bucket : Text) : Handler Response := do
  state.ensure_bucket_exists bucket
  state.gates request ctx .POST bucket none [("delete".toList,[])]
  Prog.lift (message.parse .body)
  if 1000 < message.delete_keys.length then
    Prog.fail (.invalid_argument "Cannot delete more than 1000 objects in a single request")
  else do
    Prog.each (fun key => state.gates request ctx .DELETE bucket (some key) []) message.delete_keys
    Prog.each (fun key => do
      let _ ← state.attempt_call ⟨.delete_object,bucket,some key,.body⟩
      pure ()) message.delete_keys
    pure .other

/-- Run the handler of an operation. -/
def handle : Operation → Handler Response
  | .list_buckets => match ctx.principal with
    | none => Prog.fail (.access_denied "Missing principal")
    | some _ => pure .other
  | .options => pure .other
  | .create_bucket bucket => state.create_bucket ctx bucket
  | .head_bucket bucket => state.head_bucket_handler ctx bucket
  | .delete_bucket bucket => do
    state.call ⟨.delete_bucket,bucket,none,.path⟩
    pure .other
  | .put_setting setting bucket => state.put_setting message setting bucket
  | .delete_setting setting bucket => state.delete_setting setting bucket
  | .get_bucket read bucket => state.get_bucket ctx read bucket
  | .delete_objects bucket => state.delete_objects request message ctx bucket
  | .put_retention bucket key => state.put_object_property message .put_object_retention bucket key
  | .put_legal_hold bucket key => state.put_object_property message .put_object_legal_hold bucket key
  | .put_tagging bucket key => state.put_object_property message .put_object_tagging bucket key
  | .upload_part bucket _ => state.upload_part request message bucket
  | .upload_part_copy bucket key => state.upload_part_copy request message ctx bucket key
  | .copy_object bucket key => state.copy_object request message ctx bucket key
  | .put_object bucket key => state.put_object request message ctx bucket key
  | .get_object read bucket key => state.get_object request message ctx read bucket key
  | .head_object bucket key => state.head_object request message ctx bucket key
  | .delete_tagging bucket key => do
    state.call ⟨.delete_object_tagging,bucket,some key,.path⟩
    pure .other
  | .abort_upload bucket _ => state.abort_upload bucket
  | .delete_object bucket key => state.delete_object request ctx bucket key
  | .post_object post bucket key => state.post_object request message ctx post bucket key

/-- The router, and the handler it finds. -/
def respond : Handler Response := match s3_router request ctx.vhost with
  | none => Prog.fail .unrouted
  | some operation => state.handle request message ctx operation

/-! ### Middleware -/

/-- Sub-resources that are never served without a signature. -/
def PUBLIC_BYPASS_FORBIDDEN_QUERY_KEYS : List String :=
  ["delete","uploads","tagging","versioning","cors","encryption","policy","acl","lifecycle","logging",
   "notification","object-lock","erasure","versions","retention","legal-hold","uploadId","partNumber"]

/-- The bucket and the rest of the path that the test for public access looks at. -/
def public_target (server_host path : Text) (host signature_path : Option Text) : Option (Text × Text) :=
  let by_path := match Text.split_once '/' (Text.trim_start '/' path) with
    | some pair => pair
    | none => (Text.trim_start '/' path,[])
  match host with
  | some _ => match virtual_bucket server_host host with
    | some bucket =>
      let object_path := signature_path.getD path
      some (bucket,(object_key_from_signature_path object_path).getD (Text.trim_start '/' object_path))
    | none => if path = "/".toList ∨ path = [] then none else some by_path
  | none => if Text.trim_start '/' path = [] then none else some by_path

def is_public_bypass_allowed (vhost : Option VirtualHostContext) : Handler Bool :=
  if request.method ≠ .GET ∧ request.method ≠ .HEAD ∧ request.method ≠ .OPTIONS then pure false
  else if PUBLIC_BYPASS_FORBIDDEN_QUERY_KEYS.any fun key => query_has_key request.query key then pure false
  else match public_target state.server_host request.path request.host (vhost.map VirtualHostContext.signature_path) with
    | none => pure false
    | some (bucket,rest) =>
      if bucket = [] then pure false
      else do
        match ← state.get_bucket_public bucket with
        | .error _ => pure false
        | .ok (public_read,public_list) => pure (if rest = [] then public_list else public_read)

def enforce_tenant_scope (vhost : Option VirtualHostContext) (access_key : Option Text) : Handler Unit :=
  match plan_tenant_scope state.server_host request vhost with
  | some bucket => state.ensure_bucket_access_optional access_key bucket
  | none => pure ()

/-- The checks that every request passes on its way to a handler. -/
def authorise (vhost : Option VirtualHostContext) (access_key : Option Text) : Handler Unit := do
  state.enforce_tenant_scope request vhost access_key
  state.enforce_bucket_policy_for_target (bucket_policy_target_for_request state.server_host request vhost)
    access_key message.client_ip

def finalize_s3_request (vhost : Option VirtualHostContext) (access_key : Option Text) : Handler Response := do
  state.authorise request message vhost access_key
  state.respond request message ⟨access_key,vhost,message.forwarded_ip⟩

/-- The access key of a signature that verified and belongs to a known credential. -/
def signed_by : Handler Text := do
  let access_key ← Prog.lift message.signature
  if (state.lookup access_key).isNone then Prog.fail .invalid_access_key else pure access_key

def public_bypass (vhost : Option VirtualHostContext) : Handler Bool :=
  if message.authorization then pure false else state.is_public_bypass_allowed request vhost

/-- Who makes the request: an access key, or nobody for a public bucket. -/
def authenticate (vhost : Option VirtualHostContext) : Handler (Option Text) :=
  if query_has_key request.query "X-Amz-Signature" then do
    let access_key ← state.signed_by message
    pure (some access_key)
  else do
    let bypass ← state.public_bypass request message vhost
    if bypass then pure none
    else if !message.authorization then Prog.fail (.access_denied "Missing Authorization header")
    else do
      let access_key ← state.signed_by message
      pure (some access_key)

def auth_middleware : Handler Response := do
  let vhost := apply_virtual_host state.server_host request
  let access_key ← state.authenticate request message vhost
  state.finalize_s3_request request message vhost access_key

end AppState
end Maxio
