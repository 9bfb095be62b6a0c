import Maxio.Http

/-!
Bucket policies: the documents, what the validator accepts, and how a request is evaluated. The text of a document is
turned into JSON by a parser that is given; what the document means as a policy is read off the JSON here. A function
whose answer is an `Option` can panic: `none` is the panic.
-/

namespace Maxio

/-- A JSON document. The members of an object are in the order of the text, repeated names included. -/
inductive Json where
  | null
  | bool (b : Bool)
  | number (text : String)
  | string (s : String)
  | array (items : List Json)
  | object (fields : List (String × Json))

namespace Json

def as_str : Json → Option String
  | .string s => some s
  | _ => none

def as_object : Json → Option (List (String × Json))
  | .object fields => some fields
  | _ => none

/-- `Map::get` of a parsed value: the last of several members of one name. -/
def map_get (fields : List (String × Json)) (name : String) : Option Json :=
  (fields.reverse.find? fun field => field.1 = name).map Prod.snd

/-- The members of a parsed value in the order of its map: sorted by name, each name once. -/
def members (fields : List (String × Json)) : List (String × Json) :=
  (((fields.map Prod.fst).dedup).mergeSort fun a b => decide (a ≤ b)).filterMap fun name =>
    (map_get fields name).map fun value => (name,value)

end Json

/-! ### Documents -/

inductive PolicyActions where
  | One (action : String)
  | Many (actions : List String)

inductive PolicyResources where
  | One (resource : String)
  | Many (resources : List String)

structure PolicyStatement where
  effect : String
  principal : Json
  action : PolicyActions
  resource : PolicyResources
  condition : Option Json

structure BucketPolicy where
  version : String
  statement : List PolicyStatement

section Deserialize
open Json

/-- A member of a struct: it must not be there twice. -/
def struct_field (fields : List (String × Json)) (name : String) : Except String (Option Json) :=
  match fields.filter fun field => field.1 = name with
  | [] => .ok none
  | [field] => .ok (some field.2)
  | _ => .error ("duplicate field `" ++ name ++ "`")

/-- A member of a struct that has no default. -/
def required_field (fields : List (String × Json)) (name : String) : Except String Json := do
  match ← struct_field fields name with
  | some value => .ok value
  | none => .error ("missing field `" ++ name ++ "`")

def string_from : Json → Except String String
  | .string s => .ok s
  | _ => .error "invalid type, expected a string"

def strings_from (items : List Json) : Option (List String) := items.mapM as_str

/-- `One(String)` or `Many(Vec<String>)`, whichever fits. -/
def one_or_many {α : Type} (name : String) (one : String → α) (many : List String → α) : Json → Except String α
  | .string s => .ok (one s)
  | .array items => match strings_from items with
    | some list => .ok (many list)
    | none => .error ("data did not match any variant of untagged enum " ++ name)
  | _ => .error ("data did not match any variant of untagged enum " ++ name)

/-- An `Option<Value>`: `null` counts as absent. -/
def option_from : Option Json → Option Json
  | some .null => none
  | found => found

def statement_of (effect principal action resource : Json) (condition : Option Json) : Except String PolicyStatement := do
  let effect ← string_from effect
  let action ← one_or_many "PolicyActions" PolicyActions.One PolicyActions.Many action
  let resource ← one_or_many "PolicyResources" PolicyResources.One PolicyResources.Many resource
  .ok { effect, principal, action, resource, condition := option_from condition }

/-- A statement: an object, or an array with the members in the order of the struct. -/
def statement_from : Json → Except String PolicyStatement
  | .object fields => do
    let effect ← required_field fields "Effect"
    let principal ← required_field fields "Principal"
    let action ← required_field fields "Action"
    let resource ← required_field fields "Resource"
    let condition ← struct_field fields "Condition"
    statement_of effect principal action resource condition
  | .array [effect,principal,action,resource] => statement_of effect principal action resource none
  | .array [effect,principal,action,resource,condition] => statement_of effect principal action resource (some condition)
  | _ => .error "invalid type, expected struct PolicyStatement"

def statements_from : Json → Except String (List PolicyStatement)
  | .array items => items.mapM statement_from
  | _ => .error "invalid type, expected a sequence"

/-- A policy: an object, or an array with the version and the statements. -/
def policy_from : Json → Except String BucketPolicy
  | .object fields => do
    let version ← match ← struct_field fields "Version" with
      | some version => string_from version
      | none => .ok ""
    let statement ← required_field fields "Statement"
    let statement ← statements_from statement
    .ok { version, statement }
  | .array [version,statement] => do
    let version ← string_from version
    let statement ← statements_from statement
    .ok { version, statement }
  | _ => .error "invalid type, expected struct BucketPolicy"

end Deserialize

/-- `parse_policy`; `from_str` reads the text as JSON. -/
def parse_policy (from_str : String → Except String Json) (raw : String) : Except String BucketPolicy := do
  let policy ← ((from_str raw).bind policy_from).mapError fun e => "MalformedPolicy: invalid JSON: " ++ e
  if policy.version ≠ "" ∧ policy.version ≠ "2012-10-17" then
    .error ("MalformedPolicy: unsupported Version '" ++ policy.version ++ "', expected 2012-10-17")
  else .ok policy

/-! ### Texts -/

def same_ignoring_case (s t : String) : Bool := Text.eq_ignore_ascii_case s.toList t.toList

def normalize_action (action : String) : String := match Text.split_once ':' action.toList with
  | some (service,rest) =>
    if Text.eq_ignore_ascii_case service "s3".toList then "s3:" ++ String.ofList rest else action
  | none => action

def actions_list : PolicyActions → List String
  | .One s => [s]
  | .Many v => v

def resources_list : PolicyResources → List String
  | .One s => [s]
  | .Many v => v

/-- The loop of `glob_match`. `star` holds the pattern after the last star and the value from where it was tried; every
    return to it gives up one more character of the value, so the steps given are enough. -/
def glob_loop : Nat → (pattern value : Text) → (star : Option (Text × Text)) → Bool
  | 0,_,_,_ => false
  | _ + 1,pattern,[],_ => (pattern.dropWhile fun c => c = '*').isEmpty
  | steps + 1,pattern,v :: value,star =>
    match pattern,star with
    | p :: rest,star =>
      if p = v ∨ p = '?' then glob_loop steps rest value star
      else if p = '*' then glob_loop steps rest (v :: value) (some (rest,v :: value))
      else match star with
        | some (after,tried) => glob_loop steps after tried.tail (some (after,tried.tail))
        | none => false
    | [],some (after,tried) => glob_loop steps after tried.tail (some (after,tried.tail))
    | [],none => false

def glob_match (pattern value : String) : Bool :=
  glob_loop ((pattern.toList.length + 1) * (value.toList.length + 2)) pattern.toList value.toList none

/-! ### Principals -/

def principal_is_wildcard : Json → Bool
  | .string s => s = "*"
  | .object fields => match Json.map_get fields "AWS" with
    | some (.string s) => s = "*"
    | some (.array items) => items.any fun item => Json.as_str item = some "*"
    | _ => false
  | _ => false

def principal_arns : Json → List String
  | .string s => if s ≠ "*" then [s] else []
  | .object fields => match Json.map_get fields "AWS" with
    | some (.string s) => if s ≠ "*" then [s] else []
    | some (.array items) => (items.filterMap Json.as_str).filter fun s => s ≠ "*"
    | _ => []
  | _ => []

/-- What follows the last `:user/`. -/
def after_last_user : Text → Option Text
  | [] => none
  | c :: rest => match after_last_user rest with
    | some suffix => some suffix
    | none => if ":user/".toList.isPrefixOf (c :: rest) then some ((c :: rest).drop 6) else none

def access_key_from_principal_arn (arn : String) : Option String := match after_last_user arn.toList with
  | some suffix => if suffix.isEmpty then none else some (String.ofList suffix)
  | none => none

/-! ### Addresses -/

inductive IpAddr where
  | V4 (bits : BitVec 32)
  | V6 (bits : BitVec 128)
  deriving DecidableEq, Repr

/-- `Ipv6Addr::octets`. -/
def octets (bits : BitVec 128) : List (BitVec 8) := List.ofFn fun i : Fin 16 => bits.extractLsb' (8 * (15 - i.val)) 8

section Parser

/-- `char::to_digit`. -/
def to_digit (radix : Nat) (c : Char) : Option Nat :=
  let value := if '0' ≤ c ∧ c ≤ '9' then some (c.toNat - 48)
    else if 'a' ≤ c ∧ c ≤ 'z' then some (c.toNat - 87)
    else if 'A' ≤ c ∧ c ≤ 'Z' then some (c.toNat - 55)
    else none
  value.filter fun d => d < radix

/-- The digits a text starts with, and the rest of it. -/
def digits (radix : Nat) : Text → List Nat × Text
  | [] => ([],[])
  | c :: rest => match to_digit radix c with
    | some d => (d :: (digits radix rest).1,(digits radix rest).2)
    | none => ([],c :: rest)

/-- `Parser::read_number` for a type with the given largest value. -/
def read_number (radix max_digits largest : Nat) ( allow_zero_prefix : Bool) (t : Text) : Option (Nat × Text) :=
  let (found,rest) := digits radix t
  let value := found.foldl (fun n d => n * radix + d) 0
  if found.length = 0 ∨ max_digits < found.length ∨ largest < value then none
  else if ! allow_zero_prefix && found.head? = some 0 && 1 < found.length then none
  else some (value,rest)

/-- `Parser::read_separator`. -/
def read_separator {α : Type} (sep : Char) (index : Nat) (inner : Text → Option (α × Text)) (t : Text) : Option (α × Text) :=
  if index = 0 then inner t
  else match t with
    | c :: rest => if c = sep then inner rest else none
    | [] => none

/-- `Parser::read_ipv4_addr`. -/
def read_ipv4_addr (t : Text) : Option ((Nat × Nat × Nat × Nat) × Text) := do
  let octet (i : Nat) (t : Text) := read_separator '.' i (read_number 10 3 255 false) t
  let (a,t) ← octet 0 t
  let (b,t) ← octet 1 t
  let (c,t) ← octet 2 t
  let (d,t) ← octet 3 t
  some ((a,b,c,d),t)

/-- `read_groups`: at most so many groups, an IPv4 address for the last two of them; whether there was one. -/
def read_groups : Nat → Nat → Text → List Nat × Bool × Text
  | 0,_,t => ([],false,t)
  | left + 1,i,t =>
    match if 0 < left then read_separator ':' i read_ipv4_addr t else none with
    | some ((a,b,c,d),rest) => ([a * 256 + b,c * 256 + d],true,rest)
    | none => match read_separator ':' i (read_number 16 4 65535 true) t with
      | some (group,rest) => (group :: (read_groups left (i + 1) rest).1,(read_groups left (i + 1) rest).2)
      | none => ([],false,t)

/-- `Parser::read_ipv6_addr`: the groups of the address. -/
def read_ipv6_addr (t : Text) : Option (List Nat × Text) :=
  let (head,head_ipv4,rest) := read_groups 8 0 t
  if head.length = 8 then some (head,rest)
  else if head_ipv4 then none
  else match rest with
    | ':' :: ':' :: rest =>
      let (tail,_,rest) := read_groups (7 - head.length) 0 rest
      some (head ++ List.replicate (8 - head.length - tail.length) 0 ++ tail,rest)
    | _ => none

/-- `str::parse::<IpAddr>`. -/
def parse_ip (s : String) : Option IpAddr := match read_ipv4_addr s.toList with
  | some ((a,b,c,d),rest) =>
    if rest.isEmpty then some (.V4 (BitVec.ofNat 32 (((a * 256 + b) * 256 + c) * 256 + d))) else none
  | none => match read_ipv6_addr s.toList with
    | some (groups,rest) =>
      if rest.isEmpty then some (.V6 (BitVec.ofNat 128 (groups.foldl (fun n g => n * 65536 + g) 0))) else none
    | none => none

/-- `str::parse::<u8>`. -/
def parse_u8 (s : Text) : Option (Fin 256) :=
  let unsigned := match s with
    | '+' :: rest => rest
    | s => s
  let (found,rest) := digits 10 unsigned
  let value := found.foldl (fun n d => n * 10 + d) 0
  if found.isEmpty ∨ ¬ rest.isEmpty then none
  else if below : value < 256 then some ⟨value,below⟩ else none

end Parser

/-- Is an address in a network? Panics on a prefix that is longer than an IPv6 address. -/
def ip_in_network (ip network : IpAddr) (prefix_len : Fin 256) : Option Bool := match network,ip with
  | .V4 net,.V4 addr =>
    let mask : BitVec 32 := if prefix_len.val ≥ 32 then BitVec.allOnes 32
      else if prefix_len.val = 0 then 0
      else BitVec.allOnes 32 <<< (32 - prefix_len.val)
    some (net &&& mask == addr &&& mask)
  | .V6 net,.V6 addr =>
    let net_segments := octets net
    let addr_segments := octets addr
    let full_bytes := prefix_len.val / 8
    let remainder := prefix_len.val % 8
    if 16 < full_bytes then none
    else if net_segments.take full_bytes ≠ addr_segments.take full_bytes then some false
    else if remainder = 0 then some true
    else
      let mask : BitVec 8 := 0xff <<< (8 - remainder)
      match net_segments[full_bytes]?,addr_segments[full_bytes]? with
      | some n,some a => some (n &&& mask == a &&& mask)
      | _,_ => none
  | _,_ => some false

def ip_matches_cidr (ip cidr : String) : Option Bool := match parse_ip ip with
  | none => some false
  | some addr => match Text.split_once '/' cidr.toList with
    | some (network,length) => match parse_ip (String.ofList network),parse_u8 length with
      | some net_addr,some prefix_len => ip_in_network addr net_addr prefix_len
      | _,_ => some false
    | none => some (ip == cidr)

/-! ### Requests -/

/-- What a request is judged by, besides its target. -/
structure PolicyContext where
  principal_access_key : Option String
  source_ip : Option String
  jwt_groups : List String
  jwt_roles : List String

structure PolicyRequest where
  action : String
  bucket : String
  object_key : Option String
  list_prefix : Option String

inductive PolicyDecision where
  | Allow | Deny | ImplicitDeny
  deriving DecidableEq, Repr

/-- `Iterator::any` with a predicate that can panic. -/
def any_of {α : Type} (f : α → Option Bool) : List α → Option Bool
  | [] => some false
  | a :: rest => do if ← f a then some true else any_of f rest

/-- A loop that returns `false` at the first element that fails. -/
def all_of {α : Type} (f : α → Option Bool) : List α → Option Bool
  | [] => some true
  | a :: rest => do if ← f a then all_of f rest else some false

def condition_values : Json → List String
  | .string s => [s]
  | .array items => items.filterMap Json.as_str
  | _ => []

/-- The two operators on strings. -/
def string_matches (operator pattern value : String) : Bool :=
  if same_ignoring_case operator "StringEquals" then value == pattern
  else if same_ignoring_case operator "StringLike" then glob_match pattern value
  else false

def jwt_claim_condition_matches (operator : String) (expected : Json) (actual : List String) : Bool :=
  (condition_values expected).any fun pattern => actual.any fun value => string_matches operator pattern value

def condition_key_matches (operator key : String) (expected : Json) (req : PolicyRequest) (ctx : PolicyContext) : Option Bool :=
  if key = "aws:SourceIp" ∧ same_ignoring_case operator "IpAddress" = true then
    match ctx.source_ip with
    | none => some false
    | some ip => any_of (fun pattern => ip_matches_cidr ip pattern) (condition_values expected)
  else if key = "s3:prefix" then
    let wanted := (req.list_prefix.or req.object_key).getD ""
    some ((condition_values expected).any fun pattern => string_matches operator pattern wanted)
  else if key = "jwt:groups" then some (jwt_claim_condition_matches operator expected ctx.jwt_groups)
  else if key = "jwt:roles" then some (jwt_claim_condition_matches operator expected ctx.jwt_roles)
  else some false

def conditions_match (condition : Json) (req : PolicyRequest) (ctx : PolicyContext) : Option Bool :=
  match condition.as_object with
  | none => some false
  | some obj => all_of (fun entry => match entry.2.as_object with
    | none => some false
    | some keys => all_of (fun field => condition_key_matches entry.1 field.1 field.2 req ctx) (Json.members keys))
    (Json.members obj)

def principal_matches (principal : Json) (ctx : PolicyContext) : Bool :=
  if principal_is_wildcard principal then true
  else match ctx.principal_access_key with
    | none => false
    | some access_key => (principal_arns principal).any fun arn => access_key_from_principal_arn arn = some access_key

def actions_match (actions : PolicyActions) (requested : String) : Bool :=
  let requested := normalize_action requested
  (actions_list actions).any fun raw =>
    let action := normalize_action raw
    action = "s3:*" || action = requested

def resource_pattern_matches (pattern target bucket_arn : String) : Bool :=
  if pattern = "*" ∨ pattern = target then true
  else if contains pattern "*" || contains pattern "?" then glob_match pattern target
  else pattern = bucket_arn && starts_with target bucket_arn

def resource_matches_request (resources : PolicyResources) (req : PolicyRequest) (bucket_arn object_arn : String) : Bool :=
  let target := if req.action = "s3:ListBucket" then bucket_arn else object_arn
  (resources_list resources).any fun pattern => resource_pattern_matches pattern target bucket_arn

def statement_matches_request (stmt : PolicyStatement) (req : PolicyRequest) (bucket_arn object_arn : String)
    (ctx : PolicyContext) : Option Bool :=
  if !principal_matches stmt.principal ctx then some false
  else if !actions_match stmt.action req.action then some false
  else if !resource_matches_request stmt.resource req bucket_arn object_arn then some false
  else match stmt.condition with
    | some cond => conditions_match cond req ctx
    | none => some true

def bucket_arn (bucket : String) : String := "arn:aws:s3:::" ++ bucket

/-- The statements one after the other, with what has matched so far. -/
def evaluate_statements (req : PolicyRequest) (object_arn : String) (ctx : PolicyContext) :
    List PolicyStatement → (allow_match deny_match : Bool) → Option (Except String PolicyDecision)
  | [],allow_match,deny_match =>
    some (.ok (if deny_match then .Deny else if allow_match then .Allow else .ImplicitDeny))
  | stmt :: rest,allow_match,deny_match => do
    if !(← statement_matches_request stmt req (bucket_arn req.bucket) object_arn ctx) then
      evaluate_statements req object_arn ctx rest allow_match deny_match
    else if same_ignoring_case stmt.effect "Deny" then evaluate_statements req object_arn ctx rest allow_match true
    else if same_ignoring_case stmt.effect "Allow" then evaluate_statements req object_arn ctx rest true deny_match
    else some (.error ("MalformedPolicy: unsupported Effect '" ++ stmt.effect ++ "'"))

/-- The ARN a request on objects is about. -/
def PolicyRequest.object_arn (req : PolicyRequest) : String := bucket_arn req.bucket ++ "/" ++ req.object_key.getD "*"

section Documents
variable (from_str : String → Except String Json)

def evaluate_policy_v2 (raw : String) (req : PolicyRequest) (ctx : PolicyContext) : Option (Except String PolicyDecision) :=
  match parse_policy from_str raw with
  | .error e => some (.error e)
  | .ok policy => evaluate_statements req req.object_arn ctx policy.statement false false

/-! ### The validator -/

def validate_effect (effect : String) : Except String Unit :=
  if same_ignoring_case effect "Allow" || same_ignoring_case effect "Deny" then .ok ()
  else .error ("MalformedPolicy: unsupported Effect '" ++ effect ++ "' (allowed: Allow, Deny)")

/-- A loop that stops at the first element that is refused. -/
def check_each {α : Type} (check : α → Except String Unit) : List α → Except String Unit
  | [] => .ok ()
  | a :: rest => do
    check a
    check_each check rest

def validate_principal (principal : Json) : Except String Unit :=
  if principal_is_wildcard principal then .ok ()
  else check_each (fun arn => match access_key_from_principal_arn arn with
    | some _ => .ok ()
    | none => .error ("MalformedPolicy: unsupported Principal ARN '" ++ arn ++
      "' (expected arn:aws:iam:::user/ACCESS_KEY)")) (principal_arns principal)

def SUPPORTED_ACTIONS : List String := ["s3:GetObject","s3:PutObject","s3:DeleteObject","s3:ListBucket","s3:*"]

def validate_actions (actions : PolicyActions) : Except String Unit :=
  if (actions_list actions).isEmpty then .error "MalformedPolicy: Action must not be empty"
  else check_each (fun action =>
    if SUPPORTED_ACTIONS.contains (normalize_action action) then .ok ()
    else .error ("MalformedPolicy: unsupported Action '" ++ action ++
      "' (allowed: s3:GetObject, s3:PutObject, s3:DeleteObject, s3:ListBucket, s3:*)")) (actions_list actions)

def wildcard_resource_matches_bucket (resource arn object_prefix : String) : Bool :=
  if !contains resource "*" then false
  else glob_match resource arn || glob_match resource ( object_prefix ++ "example-key")

def validate_resources_for_bucket (resources : PolicyResources) (arn object_arn_prefix : String) : Except String Unit :=
  if (resources_list resources).isEmpty then .error "MalformedPolicy: Resource must not be empty"
  else check_each (fun resource =>
    if resource = "*" || resource = arn || starts_with resource object_arn_prefix ||
        wildcard_resource_matches_bucket resource arn object_arn_prefix then .ok ()
    else .error ("MalformedPolicy: Resource '" ++ resource ++ "' must scope to bucket ARN " ++ arn ++ " or " ++
      object_arn_prefix ++ "*")) (resources_list resources)

def CONDITION_OPERATORS : List String := ["StringEquals","StringLike","IpAddress"]

def is_supported_condition_key (key : String) : Bool :=
  key = "aws:SourceIp" || key = "s3:prefix" || key = "jwt:groups" || key = "jwt:roles"

def validate_condition (condition : Json) : Except String Unit := match condition.as_object with
  | none => .error "MalformedPolicy: Condition must be a JSON object"
  | some obj =>
    if obj.isEmpty then .error "MalformedPolicy: Condition must not be empty"
    else check_each (fun entry =>
      if !CONDITION_OPERATORS.any (fun op => same_ignoring_case op entry.1) then
        .error ("MalformedPolicy: unsupported Condition operator '" ++ entry.1 ++
          "' (allowed: StringEquals, StringLike, IpAddress)")
      else match entry.2.as_object with
        | none => .error ("MalformedPolicy: Condition operator '" ++ entry.1 ++ "' must map condition keys to values")
        | some keys => check_each (fun field =>
          if is_supported_condition_key field.1 then .ok ()
          else .error ("MalformedPolicy: unsupported Condition key '" ++ field.1 ++ "'")) (Json.members keys))
      (Json.members obj)

def validate_statement (bucket : String) (stmt : PolicyStatement) : Except String Unit := do
  validate_effect stmt.effect
  validate_principal stmt.principal
  validate_actions stmt.action
  validate_resources_for_bucket stmt.resource (bucket_arn bucket) (bucket_arn bucket ++ "/")
  match stmt.condition with
  | some cond => validate_condition cond
  | none => .ok ()

def validate_policy_v2 (bucket raw : String) : Except String Unit := do
  let policy ← parse_policy from_str raw
  if policy.statement.isEmpty then .error "MalformedPolicy: Statement must not be empty"
  else check_each (validate_statement bucket) policy.statement

/-! ### The subset of public buckets -/

structure PolicyEffects where
  public_read : Bool
  public_list : Bool
  deriving DecidableEq, Repr

def resource_matches (resource expected : String) : Bool := resource = expected || resource = "*"

def any_resource (resources : PolicyResources) (expected : String) : Bool :=
  (resources_list resources).any fun resource => resource_matches resource expected

/-- `apply_action` of one action of a statement. -/
def apply_action (bucket : String) (resource : PolicyResources) (effects : PolicyEffects) (raw_action : String) :
    Except String PolicyEffects :=
  let action := normalize_action raw_action
  let object_arn := bucket_arn bucket ++ "/*"
  if action = "s3:GetObject" then
    if any_resource resource object_arn then .ok { effects with public_read := true }
    else .error ("MalformedPolicy: s3:GetObject requires Resource " ++ object_arn)
  else if action = "s3:ListBucket" then
    if any_resource resource (bucket_arn bucket) then .ok { effects with public_list := true }
    else .error ("MalformedPolicy: s3:ListBucket requires Resource " ++ bucket_arn bucket)
  else .error ("MalformedPolicy: unsupported Action '" ++ action ++ "' in v1 (allowed: s3:GetObject, s3:ListBucket)")

def apply_v1_statement (bucket : String) (effects : PolicyEffects) (stmt : PolicyStatement) : Except String PolicyEffects :=
  if stmt.condition.isSome then .error "MalformedPolicy: Condition blocks are not supported in v1"
  else if !same_ignoring_case stmt.effect "Allow" then
    .error "MalformedPolicy: only Effect=Allow statements are supported in v1"
  else if !principal_is_wildcard stmt.principal then
    .error "MalformedPolicy: only Principal=\"*\" is supported in v1"
  else (actions_list stmt.action).foldlM (apply_action bucket stmt.resource) effects

def evaluate_v1_policy (bucket raw : String) : Except String PolicyEffects := do
  let policy ← parse_policy from_str raw
  policy.statement.foldlM (apply_v1_statement bucket) { public_read := false, public_list := false }

end Documents
end Maxio
