import Maxio.Policy
import Maxio.Server

/-!
Event notifications: which receivers a bucket may name, the spool that keeps the records of events until a receiver has
taken them, and the steps of the tasks that fill and drain it.
-/

namespace Maxio

/-- `reqwest` and `serde_json`, as far as the spool relies on them. -/
structure EventPrimitives (ρ : Type) where
  /-- `Url::parse` and `host_str`: no host for what is not a URL. -/
  host_str : String → Option String
  to_string_pretty : ρ → String
  from_str : String → Option ρ

/-- What `serde_json` has written it reads again. -/
def EventPrimitives.Faithful {ρ : Type} (P : EventPrimitives ρ) : Prop :=
  ∀ record, P.from_str (P.to_string_pretty record) = some record

structure EventRecord where
  id : String
  event : String
  bucket : String
  key : String
  time : String
  size : Option Nat
  etag : Option String
  webhook_url : String
  deriving DecidableEq, Repr

/-! ### Receivers -/

section Receivers
variable {ρ : Type} (P : EventPrimitives ρ)

/-- `Ipv4Addr::octets`. -/
def ipv4_octet (bits : BitVec 32) (i : Nat) : Nat := bits.toNat / 256 ^ (3 - i) % 256

def is_internal_ip : IpAddr → Bool
  | .V4 bits =>
    let o := ipv4_octet bits
    -- `is_loopback`, `is_private`, `is_link_local`
    if o 0 = 127 ∨ (o 0 = 10 ∨ (o 0 = 172 ∧ 16 ≤ o 1 ∧ o 1 ≤ 31) ∨ (o 0 = 192 ∧ o 1 = 168)) ∨ (o 0 = 169 ∧ o 1 = 254) then true
    else o 0 = 169 && o 1 = 254
  -- `is_loopback`, `is_unique_local`
  | .V6 bits => bits.toNat = 1 || bits.toNat / 2 ^ 121 = 0x7e

def is_internal_webhook_url (url : String) : Bool := match P.host_str url with
  | none => false
  | some host =>
    if host = "localhost" then true
    else match parse_ip host with
      | some ip => is_internal_ip ip
      | none => false

def validate_webhook_url (url : String) (allow_external : Bool) : Except String Unit :=
  if url = "" then .error "webhook URL must not be empty"
  else if ! starts_with url "http://" && ! starts_with url "https://" then .error "webhook URL must use http or https"
  else if allow_external || is_internal_webhook_url P url then .ok ()
  else .error ("webhook URL must target an internal address (RFC1918/localhost); " ++
    "set MAXIO_ALLOW_EXTERNAL_WEBHOOKS=1 to override")

end Receivers

/-! ### Configurations -/

/-- `char::is_whitespace`. -/
def is_white_space (c : Char) : Bool :=
  let n := c.toNat
  (9 ≤ n && n ≤ 13) || n = 0x20 || n = 0x85 || n = 0xA0 || n = 0x1680 || (0x2000 ≤ n && n ≤ 0x200A) || n = 0x2028 ||
    n = 0x2029 || n = 0x202F || n = 0x205F || n = 0x3000

/-- `str::trim`. -/
def trim_white_space (t : Text) : Text := ((t.dropWhile is_white_space).reverse.dropWhile is_white_space).reverse

/-- What comes before the first occurrence of a text, and what follows it. -/
def cut_at (part : Text) : Text → Option (Text × Text)
  | [] => if part = [] then some ([],[]) else none
  | c :: rest =>
    if part.isPrefixOf (c :: rest) then some ([],(c :: rest).drop part.length)
    else (cut_at part rest).map fun cut => (c :: cut.1,cut.2)

def extract_xml_tag (xml : Text) (tag : String) : Option String := do
  let (_,after) ← cut_at ("<" ++ tag ++ ">").toList xml
  let (inner,_) ← cut_at ("</" ++ tag ++ ">").toList after
  some (String.ofList (trim_white_space inner))

/-- What the handlers of settings begin with, given the answer of `head_bucket`. -/
def existing_bucket (bucket : String) : Except StorageError Bool → Except S3Error Unit
  | .ok true => .ok ()
  | .ok false => .error (.no_such_bucket bucket.toList)
  | .error e => .error (.storage e)

/-- `axum::body::to_bytes` with the limit for settings. -/
def settings_body (body : Bytes) : Except S3Error Bytes :=
  if 64 * 1024 < body.length then .error (.refused "length limit exceeded") else .ok body

/-- The supported events that the body names, one at least. -/
def named_events (body_str : Text) : Except S3Error (List String) :=
  let events := ["s3:ObjectCreated:Put","s3:ObjectRemoved:Delete"].filter fun event =>
    (cut_at ("<Event>" ++ event ++ "</Event>").toList body_str).isSome
  if events = [] then .error (.invalid_argument "notification must specify at least one supported Event") else .ok events

/-- `put_bucket_notification` of the bucket API, given what `head_bucket` and the storage answer. -/
def put_bucket_notification {ρ : Type} (P : EventPrimitives ρ) (allow_external_webhooks : Bool) (bucket : String)
    (head_bucket : Except StorageError Bool) (body : Bytes) (stored : Except StorageError Unit) :
    Except S3Error BucketNotificationConfig := do
  existing_bucket bucket head_bucket
  let body_bytes ← settings_body body
  let body_str := from_utf8_lossy body_bytes
  let webhook_url ← (extract_xml_tag body_str "Endpoint").elim
    (.error (.refused "The XML you provided was not well-formed.")) .ok
  (validate_webhook_url P webhook_url allow_external_webhooks).mapError S3Error.invalid_argument
  let events ← named_events body_str
  stored.mapError S3Error.storage
  pure { webhook_url, events }

/-! ### Events -/

/-- `trim_end_matches(":*")`, of the reversed text. -/
def drop_stars : Text → Text
  | '*' :: ':' :: rest => drop_stars rest
  | t => t

def event_matches (config : BucketNotificationConfig) (event_name : String) : Bool :=
  config.events.any fun e =>
    if e = event_name then true
    else if ends_with e ":*" then
      let start := (drop_stars e.toList.reverse).reverse
      start.isPrefixOf event_name.toList
    else false

/-- The record of an event that the configuration asks for, with its id and time as they are drawn. -/
def emit_event (config : BucketNotificationConfig) (event bucket key : String) (size : Option Nat) (etag : Option String)
    (id time : String) : Option EventRecord :=
  if event_matches config event then
    some { id, event, bucket, key, time, size, etag, webhook_url := config.webhook_url }
  else none

def emit_object_created (config : BucketNotificationConfig) (bucket key : String) (size : Nat) (etag : String)
    (id time : String) : Option EventRecord :=
  emit_event config "s3:ObjectCreated:Put" bucket key (some size) (some etag) id time

def emit_object_removed (config : BucketNotificationConfig) (bucket key : String) (id time : String) :
    Option EventRecord :=
  emit_event config "s3:ObjectRemoved:Delete" bucket key none none id time

/-! ### The spool -/

/-- The name of the file of a record. -/
def spool_name (id : String) : String := id ++ ".json"

/-- `Path::extension` of a file name: what follows its last dot, unless that is its first character. -/
def extension (name : String) : Option String :=
  let after := (name.toList.reverse.takeWhile fun c => c ≠ '.').reverse
  if after.length + 1 < name.length then some (String.ofList after) else none

/-- The text of a file that is UTF-8. -/
def read_to_string (data : Bytes) : Option String := String.fromUTF8? data.toByteArray

/-- How far an enqueue has come: before it opens its file, with so many bytes written to it, or at its end. -/
inductive Writing where
  | opening
  | filling (written : Nat)
  | ended (ok : Bool)
  deriving DecidableEq, Repr

structure Enqueue where
  record : EventRecord
  phase : Writing
  deriving DecidableEq, Repr

/-- What `drain_once` does next: take an entry of the directory, remove a file, or post a record it has read from one. -/
inductive Draining where
  | next_entry
  | removing (name : String)
  | posting (name : String) (record : EventRecord)
  deriving DecidableEq, Repr

/-- The configurations of the buckets, the files of the spool, the enqueues so far by the ids of their records, the tasks
    that drain, and what receivers have taken. -/
structure EventSpool where
  notifications : String → Option BucketNotificationConfig
  files : String → Option Bytes
  enqueues : String → Option Enqueue
  drains : Nat → Draining
  delivered : List EventRecord

inductive SpoolEvent where
  | configure (bucket : String) (head_bucket : Except StorageError Bool) (body : Bytes) (stored : Except StorageError Unit)
  | unconfigure (bucket : String)
  | object_created (bucket key : String) (size : Nat) (etag id time : String)
  | object_removed (bucket key id time : String)
  /-- The file of a record is opened, created or emptied; or the directory or the file cannot be made. -/
  | create (id : String) (ok : Bool)
  /-- Some more bytes of the record are written. -/
  | write (id : String) (bytes : Nat)
  /-- The enqueue ends, with success when all is written. -/
  | finish (id : String) (ok : Bool)
  /-- A drain reads the file of that name. -/
  | visit (drain : Nat) (name : String)
  /-- The receiver answers with a success status, or it does not. -/
  | respond (drain : Nat) (success : Bool)
  | remove (drain : Nat) (ok : Bool)
  /-- The server is stopped and started again. -/
  | restart

namespace EventSpool

/-- Nothing has happened yet. -/
def start : EventSpool := ⟨fun _ => none,fun _ => none,fun _ => none,fun _ => .next_entry,[]⟩

variable (P : EventPrimitives EventRecord)

/-- The text an enqueue writes. -/
def text (record : EventRecord) : Bytes := utf8 (P.to_string_pretty record)

/-- An enqueue begins. Ids are drawn anew for every record. -/
def enqueue (s : EventSpool) (record : EventRecord) : EventSpool :=
  match s.enqueues record.id with
  | some _ => s
  | none => { s with enqueues := Function.update s.enqueues record.id (some ⟨record,.opening⟩) }

/-- An event is emitted when its bucket has a configuration that asks for it. -/
def emit (s : EventSpool) (bucket : String) (record : BucketNotificationConfig → Option EventRecord) : EventSpool :=
  match (s.notifications bucket).bind record with
  | some record => s.enqueue record
  | none => s

def proceed (s : EventSpool) (id : String) (e : Enqueue) (phase : Writing) : EventSpool :=
  { s with enqueues := Function.update s.enqueues id (some { e with phase }) }

def drained (s : EventSpool) (drain : Nat) (next : Draining) : EventSpool :=
  { s with drains := Function.update s.drains drain next }

/-- What a drain does with the text it has read. -/
def judge (name text : String) : Draining := match P.from_str text with
  | none => .removing name
  | some record => match validate_webhook_url P record.webhook_url false with
    | .error _ => .removing name
    | .ok () => .posting name record

def step (allow_external_webhooks : Bool) (s : EventSpool) : SpoolEvent → EventSpool
  | .configure bucket head_bucket body stored =>
    match put_bucket_notification P allow_external_webhooks bucket head_bucket body stored with
    | .ok config => { s with notifications := Function.update s.notifications bucket (some config) }
    | .error _ => s
  | .unconfigure bucket => { s with notifications := Function.update s.notifications bucket none }
  | .object_created bucket key size etag id time =>
    s.emit bucket fun config => emit_object_created config bucket key size etag id time
  | .object_removed bucket key id time => s.emit bucket fun config => emit_object_removed config bucket key id time
  | .create id ok => match s.enqueues id with
    | some ⟨record,.opening⟩ =>
      if ok then { s.proceed id ⟨record,.opening⟩ (.filling 0) with files := Function.update s.files (spool_name id) (some []) }
      else s.proceed id ⟨record,.opening⟩ (.ended false)
    | _ => s
  | .write id bytes => match s.enqueues id with
    | some ⟨record,.filling written⟩ =>
      -- a file that has been removed stays so: what is written goes where no name leads
      { s.proceed id ⟨record,.filling written⟩ (.filling (written + bytes)) with
        files := Function.update s.files (spool_name id)
          ((s.files (spool_name id)).map fun _ => (text P record).take (written + bytes)) }
    | _ => s
  | .finish id ok => match s.enqueues id with
    | some ⟨record,.filling written⟩ =>
      if ok = true ∧ written < (text P record).length then s else s.proceed id ⟨record,.filling written⟩ (.ended ok)
    | _ => s
  | .visit drain name => match s.drains drain with
    | .next_entry =>
      if extension name ≠ some "json" then s
      else match (s.files name).bind read_to_string with
        | none => s
        | some text => s.drained drain (judge P name text)
    | _ => s
  | .respond drain success => match s.drains drain with
    | .posting name record =>
      if success then { s.drained drain (.removing name) with delivered := record :: s.delivered }
      else s.drained drain .next_entry
    | _ => s
  | .remove drain ok => match s.drains drain with
    | .removing name =>
      if ok then { s.drained drain .next_entry with files := Function.update s.files name none }
      else s.drained drain .next_entry
    | _ => s
  | .restart =>
    let stopped (e : Enqueue) : Enqueue := match e.phase with
      | .ended _ => e
      | _ => { e with phase := .ended false }
    { s with enqueues := fun id => (s.enqueues id).map stopped, drains := fun _ => .next_entry }

def run (allow_external_webhooks : Bool) (s : EventSpool) (events : List SpoolEvent) : EventSpool :=
  events.foldl (step P allow_external_webhooks) s

/-- Every record whose enqueue succeeded is delivered or in the spool. -/
def Lossless (s : EventSpool) : Prop :=
  ∀ id record, s.enqueues id = some ⟨record,.ended true⟩ →
    record ∈ s.delivered ∨ s.files (spool_name id) = some (text P record)

end EventSpool
end Maxio
