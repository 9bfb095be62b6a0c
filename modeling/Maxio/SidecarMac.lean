import Maxio.JsonTexts
import Maxio.Preimages
import Maxio.Tamper

/-!
What the MAC of a sidecar is computed over: the record without the fields that may change, as a JSON value with sorted
members, as text. Two records share a MAC just where they agree in all other fields.
-/

namespace Maxio
open JsonValues (Value Numerals)
open JsonValues.Value (Distinct)

/-! ### The record as a JSON value -/

abbrev JsonValue := Value Nat

/-- The members that are not left out. -/
def serialized (fields : List (String × Option JsonValue)) : List (String × JsonValue) :=
  fields.filterMap fun field => field.2.map fun v => (field.1,v)

def ChecksumAlgorithm.serde_name : ChecksumAlgorithm → String
  | .CRC32 => "CRC32"
  | .CRC32C => "CRC32C"
  | .SHA1 => "SHA1"
  | .SHA256 => "SHA256"

def ObjectLockMode.serde_name : ObjectLockMode → String
  | .Governance => "GOVERNANCE"
  | .Compliance => "COMPLIANCE"

def LegalHoldStatus.serde_name : LegalHoldStatus → String
  | .On => "ON"
  | .Off => "OFF"

def EncryptionMode.serde_name : EncryptionMode → String
  | .SseS3 => "sse_s3"
  | .SseC => "sse_c"
  | .SseKms => "sse_kms"

def encryption_fields (e : EncryptionMeta) : List (String × Option JsonValue) :=
  [("algorithm",some (.string e.algorithm)),
   ("mode",some (.string e.mode.serde_name)),
   ("key_id",e.key_id.map .string),
   ("kms_key_id",e.kms_key_id.map .string),
   ("wrapped_dek",e.wrapped_dek.map .string),
   ("wrap_nonce",e.wrap_nonce.map .string),
   ("customer_key_md5",e.customer_key_md5.map .string),
   ("nonce_prefix",some (.string e.nonce_prefix)),
   ("chunk_size",some (.number e.chunk_size)),
   ("sidecar_mac",some (.string e.sidecar_mac))]

def object_fields (m : ObjectMeta) : List (String × Option JsonValue) :=
  [("key",some (.string m.key)),
   ("size",some (.number m.size)),
   ("etag",some (.string m.etag)),
   ("content_type",some (.string m.content_type)),
   ("last_modified",some (.string m.last_modified)),
   ("version_id",m.version_id.map .string),
   ("is_delete_marker",if m.is_delete_marker then some (.bool true) else none),
   ("storage_format",m.storage_format.map .string),
   ("checksum_algorithm",m.checksum_algorithm.map fun a => .string a.serde_name),
   ("checksum_value",m.checksum_value.map .string),
   ("tags",m.tags.map fun tags => .object (tags.map fun tag => (tag.1,.string tag.2))),
   ("part_sizes",m.part_sizes.map fun sizes => .array (sizes.map .number)),
   ("encryption",m.encryption.map fun e => .object (serialized (encryption_fields e))),
   ("object_lock_mode",m.object_lock_mode.map fun mode => .string mode.serde_name),
   ("retain_until_date",m.retain_until_date.map .string),
   ("legal_hold_status",m.legal_hold_status.map fun status => .string status.serde_name)]

/-- `serde_json::to_value` of a record. -/
def to_value (m : ObjectMeta) : JsonValue := .object (serialized (object_fields m))

def canonical_json_value {N : Type} (v : Value N) : Value N := v.canonical

/-- `serde_json` writes unsigned numbers in decimal. -/
def decimals : Numerals Nat where
  text := Nat.toDigits 10
  injective := fun m n same => by
    have value := congrArg (Nat.ofDigitChars 10 · 0) same
    simpa [Nat.ofDigitChars_ten_toDigits] using value
  nonempty := fun n => Nat.toDigits_ne_nil
  chars := fun n c member => by
    have digit := Nat.isDigit_of_mem_toDigits (b := 10) (by decide) (by decide) member
    simp [JsonValues.number_char,digit]

/-- `serde_json::to_vec`. -/
def to_vec (v : JsonValue) : Bytes := utf8 (String.ofList (JsonValues.render decimals v))

/-- The primitives with the JSON of records spelled out. -/
def Primitives.with_serde (P : Primitives) : Primitives :=
  { P with canonical_json := fun m => to_vec (canonical_json_value (to_value m)) }

theorem to_vec_injective : Function.Injective to_vec := by
  intro v w same
  exact JsonValues.render_injective decimals (String.ofList_injective (utf8_injective same))

/-! ### Members by name -/

theorem serialized_some (name : String) (v : JsonValue) (rest : List (String × Option JsonValue)) :
    serialized ((name,some v) :: rest) = (name,v) :: serialized rest := rfl

theorem serialized_none (name : String) (rest : List (String × Option JsonValue)) :
    serialized ((name,none) :: rest) = serialized rest := rfl

theorem lookup_serialized {fields : List (String × Option JsonValue)} (distinct : (fields.map Prod.fst).Nodup) (name : String) :
    (serialized fields).lookup name = (fields.lookup name).join := by
  induction fields with
  | nil => rfl
  | cons field rest ih =>
    obtain ⟨own,v⟩ := field
    obtain ⟨new,later⟩ := List.nodup_cons.mp distinct
    rw [List.lookup_cons]
    by_cases same : (name == own) = true
    · cases v with
      | some v =>
        rw [serialized_some,List.lookup_cons,same]
        rfl
      | none =>
        have absent : rest.lookup name = none := by
          rw [List.lookup_eq_none_iff]
          intro field listed
          rw [bne_iff_ne]
          rintro rfl
          exact new (List.mem_map.mpr ⟨field,listed,(beq_iff_eq.mp same)⟩)
        rw [serialized_none,ih later,same,absent]
        rfl
    · rw [Bool.not_eq_true] at same
      cases v with
      | some v => rw [serialized_some,List.lookup_cons,same,ih later]
      | none => rw [serialized_none,same,ih later]

theorem serialized_names (fields : List (String × Option JsonValue)) :
    ((serialized fields).map Prod.fst).Sublist (fields.map Prod.fst) := by
  induction fields with
  | nil => exact List.Sublist.refl _
  | cons field rest ih =>
    obtain ⟨name,v⟩ := field
    cases v with
    | none => exact ih.cons name
    | some v => exact ih.cons_cons name

theorem encryption_names (e : EncryptionMeta) : ((encryption_fields e).map Prod.fst).Nodup := by
  change ["algorithm","mode","key_id","kms_key_id","wrapped_dek","wrap_nonce","customer_key_md5","nonce_prefix","chunk_size",
    "sidecar_mac"].Nodup
  decide

theorem object_names (m : ObjectMeta) : ((object_fields m).map Prod.fst).Nodup := by
  change ["key","size","etag","content_type","last_modified","version_id","is_delete_marker","storage_format",
    "checksum_algorithm","checksum_value","tags","part_sizes","encryption","object_lock_mode","retain_until_date",
    "legal_hold_status"].Nodup
  decide

/-- The same field of two records, left out of both or alike. -/
abbrev SameField (x y : Option JsonValue) : Prop := Option.Rel Value.Alike x y

theorem fields_alike {fields fields' : List (String × Option JsonValue)} (distinct : (fields.map Prod.fst).Nodup)
    (distinct' : (fields'.map Prod.fst).Nodup) (alike : Value.Alike (.object (serialized fields)) (.object (serialized fields')))
    (name : String) : SameField (fields.lookup name).join (fields'.lookup name).join := by
  rw [← lookup_serialized distinct,← lookup_serialized distinct']
  obtain ⟨none,none'⟩ | ⟨part,part',found,found',same⟩ := alike.child (.name name)
  · rw [show (serialized fields).lookup name = _ from none,show (serialized fields').lookup name = _ from none']
    exact .none
  · rw [show (serialized fields).lookup name = _ from found,show (serialized fields').lookup name = _ from found']
    exact .some same

theorem string_of_alike {s s' : String} (alike : Value.Alike (.string s : JsonValue) (.string s')) : s = s' := by
  have leaf := alike.leaf
  simpa [Value.leaf] using leaf

theorem number_of_alike {n n' : Nat} (alike : Value.Alike (.number n : JsonValue) (.number n')) : n = n' := by
  have leaf := alike.leaf
  simpa [Value.leaf] using leaf

theorem some_of_same {v v' : JsonValue} (same : SameField (some v) (some v')) : Value.Alike v v' := by
  cases same with
  | some alike => exact alike

/-- A field that is written by an injective rule comes back. -/
theorem option_of_same {α : Type} {f : α → JsonValue} (injective : ∀ a b, Value.Alike (f a) (f b) → a = b) {o o' : Option α}
    (same : SameField (o.map f) (o'.map f)) : o = o' := by
  cases o with
  | none => cases o' with
    | none => rfl
    | some b => cases same
  | some a => cases o' with
    | none => cases same
    | some b => rw [injective a b (some_of_same same)]

theorem sizes_of_alike {sizes sizes' : List Nat}
    (alike : Value.Alike (.array (sizes.map .number) : JsonValue) (.array (sizes'.map .number))) : sizes = sizes' := by
  apply List.ext_getElem?
  intro i
  have part := alike.child (.index i)
  have item (sizes : List Nat) : (Value.array (sizes.map .number) : JsonValue).child (.index i) = sizes[i]?.map .number :=
    List.getElem?_map
  rw [item,item] at part
  apply option_of_same fun _ _ => number_of_alike
  obtain ⟨none,none'⟩ | ⟨v,v',found,found',same⟩ := part
  · rw [none,none']
    exact .none
  · rw [found,found']
    exact .some same

theorem checksum_name_injective (a b : ChecksumAlgorithm)
    (alike : Value.Alike (.string a.serde_name : JsonValue) (.string b.serde_name)) : a = b := by
  have names := string_of_alike alike
  revert names
  cases a <;> cases b <;> decide

theorem lock_mode_name_injective (a b : ObjectLockMode)
    (alike : Value.Alike (.string a.serde_name : JsonValue) (.string b.serde_name)) : a = b := by
  have names := string_of_alike alike
  revert names
  cases a <;> cases b <;> decide

theorem legal_hold_name_injective (a b : LegalHoldStatus)
    (alike : Value.Alike (.string a.serde_name : JsonValue) (.string b.serde_name)) : a = b := by
  have names := string_of_alike alike
  revert names
  cases a <;> cases b <;> decide

theorem mode_name_injective (a b : EncryptionMode)
    (alike : Value.Alike (.string a.serde_name : JsonValue) (.string b.serde_name)) : a = b := by
  have names := string_of_alike alike
  revert names
  cases a <;> cases b <;> decide

/-- Encryption metadata comes back from its JSON. -/
theorem encryption_of_alike (a b : EncryptionMeta)
    (alike : Value.Alike (.object (serialized (encryption_fields a))) (.object (serialized (encryption_fields b)))) : a = b := by
  have field (name : String) := fields_alike (encryption_names a) (encryption_names b) alike name
  have strings : ∀ s s' : String, Value.Alike (.string s : JsonValue) (.string s') → s = s' := fun _ _ => string_of_alike
  have algorithm : a.algorithm = b.algorithm := string_of_alike (some_of_same (field "algorithm"))
  have mode : a.mode = b.mode := mode_name_injective _ _ (some_of_same (field "mode"))
  have key_id : a.key_id = b.key_id := option_of_same strings (field "key_id")
  have kms_key_id : a.kms_key_id = b.kms_key_id := option_of_same strings (field "kms_key_id")
  have wrapped_dek : a.wrapped_dek = b.wrapped_dek := option_of_same strings (field "wrapped_dek")
  have wrap_nonce : a.wrap_nonce = b.wrap_nonce := option_of_same strings (field "wrap_nonce")
  have customer_key_md5 : a.customer_key_md5 = b.customer_key_md5 := option_of_same strings (field "customer_key_md5")
  have prefixes : a.nonce_prefix = b.nonce_prefix := string_of_alike (some_of_same (field "nonce_prefix"))
  have chunk_size : a.chunk_size = b.chunk_size := number_of_alike (some_of_same (field "chunk_size"))
  have sidecar_mac : a.sidecar_mac = b.sidecar_mac := string_of_alike (some_of_same (field "sidecar_mac"))
  cases a
  cases b
  simp_all

/-- A record without the fields that may change comes back from its JSON. -/
theorem record_of_alike (a b : ObjectMeta) (tags : a.tags = b.tags) (markers : a.is_delete_marker = b.is_delete_marker)
    (alike : Value.Alike (to_value a) (to_value b)) : a = b := by
  have field (name : String) := fields_alike (object_names a) (object_names b) alike name
  have strings : ∀ s s' : String, Value.Alike (.string s : JsonValue) (.string s') → s = s' := fun _ _ => string_of_alike
  have key : a.key = b.key := string_of_alike (some_of_same (field "key"))
  have size : a.size = b.size := number_of_alike (some_of_same (field "size"))
  have etag : a.etag = b.etag := string_of_alike (some_of_same (field "etag"))
  have content_type : a.content_type = b.content_type := string_of_alike (some_of_same (field "content_type"))
  have last_modified : a.last_modified = b.last_modified := string_of_alike (some_of_same (field "last_modified"))
  have version_id : a.version_id = b.version_id := option_of_same strings (field "version_id")
  have storage_format : a.storage_format = b.storage_format := option_of_same strings (field "storage_format")
  have checksum_algorithm : a.checksum_algorithm = b.checksum_algorithm :=
    option_of_same checksum_name_injective (field "checksum_algorithm")
  have checksum_value : a.checksum_value = b.checksum_value := option_of_same strings (field "checksum_value")
  have part_sizes : a.part_sizes = b.part_sizes := option_of_same (fun _ _ => sizes_of_alike) (field "part_sizes")
  have encryption : a.encryption = b.encryption := option_of_same encryption_of_alike (field "encryption")
  have object_lock_mode : a.object_lock_mode = b.object_lock_mode :=
    option_of_same lock_mode_name_injective (field "object_lock_mode")
  have retain_until_date : a.retain_until_date = b.retain_until_date := option_of_same strings (field "retain_until_date")
  have legal_hold_status : a.legal_hold_status = b.legal_hold_status :=
    option_of_same legal_hold_name_injective (field "legal_hold_status")
  cases a
  cases b
  simp_all

/-! ### One name, one member -/

theorem serialized_distinct {fields : List (String × Option JsonValue)} (names : (fields.map Prod.fst).Nodup)
    (values : ∀ field ∈ fields, ∀ v ∈ field.2, v.Distinct) : (Value.object (serialized fields)).Distinct := by
  rw [Distinct,JsonValues.Value.distinctMembers_iff]
  refine ⟨(serialized_names fields).nodup names,fun member listed => ?_⟩
  obtain ⟨field,own,written⟩ := List.mem_filterMap.mp listed
  obtain ⟨v,present,rfl⟩ := Option.map_eq_some_iff.mp written
  exact values field own v present

theorem encryption_distinct (e : EncryptionMeta) : (Value.object (serialized (encryption_fields e))).Distinct := by
  apply serialized_distinct (encryption_names e)
  simp [encryption_fields,Distinct]

theorem sizes_distinct (sizes : List Nat) : (Value.array (sizes.map .number) : JsonValue).Distinct := by
  rw [Distinct,JsonValues.Value.distinctItems_iff,List.forall_mem_map]
  intro n listed
  trivial

theorem tags_distinct {tags : List (String × String)} (names : (tags.map Prod.fst).Nodup) :
    (Value.object (tags.map fun tag => (tag.1,.string tag.2)) : JsonValue).Distinct := by
  rw [Distinct,JsonValues.Value.distinctMembers_iff,List.map_map,List.forall_mem_map]
  refine ⟨names,fun tag listed => ?_⟩
  trivial

theorem written_distinct {α : Type} {f : α → JsonValue} {o : Option α} (each : ∀ x ∈ o, (f x).Distinct) :
    ∀ v ∈ o.map f, v.Distinct := by
  intro v present
  obtain ⟨x,held,rfl⟩ := Option.map_eq_some_iff.mp present
  exact each x held

/-- `serde_json` writes no name twice when the tags hold none twice. -/
theorem to_value_distinct {m : ObjectMeta} (tags : ∀ tags ∈ m.tags, (tags.map Prod.fst).Nodup) : (to_value m).Distinct := by
  apply serialized_distinct (object_names m)
  have markers : ∀ v ∈ (if m.is_delete_marker then some (.bool true) else none : Option JsonValue), v.Distinct := by
    intro v present
    split at present <;> cases present
    trivial
  have one {w : JsonValue} (plain : w.Distinct) : ∀ v ∈ some w, v.Distinct := fun v present => Option.some.inj present ▸ plain
  have text (o : Option String) : ∀ v ∈ o.map Value.string, (v : JsonValue).Distinct := written_distinct fun _ _ => trivial
  rw [object_fields]
  simp only [List.forall_mem_cons]
  refine ⟨one trivial,one trivial,one trivial,one trivial,one trivial,text _,markers,text _,?_,text _,?_,?_,?_,?_,text _,?_,?_⟩
  · exact written_distinct fun _ _ => trivial
  · exact written_distinct fun t held => tags_distinct (tags t held)
  · exact written_distinct fun sizes _ => sizes_distinct sizes
  · exact written_distinct fun e _ => encryption_distinct e
  · exact written_distinct fun _ _ => trivial
  · exact written_distinct fun _ _ => trivial
  · exact List.forall_mem_nil _

/-! ### The MAC -/

/-- Encryption metadata that differs in the MAC at most. -/
def SameSealing (e e' : EncryptionMeta) : Prop := { e with sidecar_mac := e'.sidecar_mac } = e'

/-- Equal in every field but the tags, the delete marker and the MAC itself. -/
structure AgreeBut (a b : ObjectMeta) : Prop where
  key : a.key = b.key
  size : a.size = b.size
  etag : a.etag = b.etag
  content_type : a.content_type = b.content_type
  last_modified : a.last_modified = b.last_modified
  version_id : a.version_id = b.version_id
  storage_format : a.storage_format = b.storage_format
  checksum_algorithm : a.checksum_algorithm = b.checksum_algorithm
  checksum_value : a.checksum_value = b.checksum_value
  part_sizes : a.part_sizes = b.part_sizes
  encryption : Option.Rel SameSealing a.encryption b.encryption
  object_lock_mode : a.object_lock_mode = b.object_lock_mode
  retain_until_date : a.retain_until_date = b.retain_until_date
  legal_hold_status : a.legal_hold_status = b.legal_hold_status

theorem sealing_cleared_iff (e e' : EncryptionMeta) :
    { e with sidecar_mac := "" } = { e' with sidecar_mac := "" } ↔ SameSealing e e' := by
  cases e
  cases e'
  simp [SameSealing]

theorem cleared_iff (o o' : Option EncryptionMeta) :
    (o.map fun e => { e with sidecar_mac := "" }) = (o'.map fun e => { e with sidecar_mac := "" }) ↔
      Option.Rel SameSealing o o' := by
  cases o with
  | none => cases o' with
    | none => exact ⟨fun _ => .none,fun _ => rfl⟩
    | some e' => exact ⟨nofun,nofun⟩
  | some e => cases o' with
    | none => exact ⟨nofun,nofun⟩
    | some e' =>
      rw [Option.map_some,Option.map_some,Option.some.injEq,sealing_cleared_iff]
      exact ⟨.some,fun same => by cases same; assumption⟩

/-- What `mac_input` forgets. -/
theorem mac_input_eq_iff (a b : ObjectMeta) : mac_input a = mac_input b ↔ AgreeBut a b := by
  rw [mac_input,mac_input,ObjectMeta.mk.injEq]
  constructor
  · rintro ⟨key,size,etag,kind,modified,version,-,format,algorithm,value,-,parts,encryption,mode,until',hold⟩
    exact ⟨key,size,etag,kind,modified,version,format,algorithm,value,parts,(cleared_iff _ _).mp encryption,mode,until',hold⟩
  · rintro ⟨key,size,etag,kind,modified,version,format,algorithm,value,parts,encryption,mode,until',hold⟩
    exact ⟨key,size,etag,kind,modified,version,rfl,format,algorithm,value,rfl,parts,(cleared_iff _ _).mpr encryption,mode,
      until',hold⟩

theorem mac_input_untagged (m : ObjectMeta) : ∀ tags ∈ (mac_input m).tags, (tags.map Prod.fst).Nodup := by
  intro tags held
  cases held

theorem mac_input_distinct (m : ObjectMeta) : (to_value (mac_input m)).Distinct := to_value_distinct (mac_input_untagged m)

example : to_vec (canonical_json_value (.object [("b",.number 10),("a",.array [.null,.string "\n"])])) =
    utf8 "\x7b\"a\":[null,\"\\n\"],\"b\":10\x7d" := by decide +kernel

/-- The sorted text of a record names the record. -/
theorem canonical_text_eq_iff (a b : ObjectMeta) :
    to_vec (canonical_json_value (to_value (mac_input a))) = to_vec (canonical_json_value (to_value (mac_input b))) ↔
      mac_input a = mac_input b := by
  constructor
  · intro same
    have alike := (JsonValues.Value.canonical_eq_iff (mac_input_distinct a) (mac_input_distinct b)).mp (to_vec_injective same)
    exact record_of_alike _ _ rfl rfl alike
  · intro same
    rw [same]

theorem compute_with_serde (P : Primitives) (dek : Bytes) (m : ObjectMeta) : compute_sidecar_mac P.with_serde dek m =
    (hex_encode ∘ P.hmac_sha256 dek) (to_vec (canonical_json_value (to_value (mac_input m)))) := by
  simp only [compute_sidecar_mac,Primitives.with_serde,Function.comp_apply]

/-- The MAC of a sidecar binds the fields that may not change, and no others. -/
theorem sidecar_mac_binds (P : Primitives) (mac_injective : ∀ dek, Function.Injective (P.hmac_sha256 dek)) :
    (∀ dek a b, compute_sidecar_mac P.with_serde dek a = compute_sidecar_mac P.with_serde dek b ↔ AgreeBut a b) ∧
    (∀ dek m (v : JsonValue), v.Distinct → Value.Alike v (to_value (mac_input m)) →
      hex_encode (P.hmac_sha256 dek (to_vec (canonical_json_value v))) = compute_sidecar_mac P.with_serde dek m) ∧
    ∀ v : JsonValue, v.Distinct →
      canonical_json_value (canonical_json_value v) = canonical_json_value v ∧ Value.Alike (canonical_json_value v) v := by
  refine ⟨fun dek a b => ?_,fun dek m v distinct alike => ?_,fun v distinct => ⟨?_,?_⟩⟩
  · have injective := hex_encode_injective.comp (mac_injective dek)
    rw [compute_with_serde,compute_with_serde,injective.eq_iff,canonical_text_eq_iff,mac_input_eq_iff]
  · have sorted := JsonValues.Value.canonical_eq_of_alike distinct (mac_input_distinct m) alike
    rw [compute_with_serde,canonical_json_value,sorted]
    rfl
  · exact JsonValues.Value.canonical_idempotent distinct
  · exact JsonValues.Value.find_canonical distinct

namespace Sample

def html_meta : ObjectMeta := { sealed_meta with content_type := "text/html" }

def json_text (m : ObjectMeta) : Bytes := to_vec (canonical_json_value (to_value m))

/-- HMAC-SHA256 of both records under the data key. -/
def record_macs : List (Bytes × Bytes) :=
  [(json_text sealed_meta,sealed_mac),
    (json_text html_meta,[0x65,0x8d,0x81,0x09,0xae,0x43,0x7f,0x92,0x50,0xe9,0x53,0xe9,0x25,0x46,0x31,0xcd,
      0x48,0x62,0x18,0xe3,0xd9,0x1e,0x76,0x3e,0x41,0xe9,0x4c,0x82,0x6e,0xd9,0x91,0xc8])]

/-- The HMAC, elsewhere the data behind zeros. -/
def keyed_hmac (key data : Bytes) : Bytes :=
  ((if key = data_key then record_macs else []).lookup data).getD (List.replicate 33 0 ++ data)

theorem keyed_hmac_injective (key : Bytes) : Function.Injective (keyed_hmac key) := by
  by_cases own : key = data_key
  · rw [show keyed_hmac key = fun data => (record_macs.lookup data).getD (List.replicate 33 0 ++ data) from
      funext fun data => by rw [keyed_hmac,if_pos own]]
    apply padded_injective
    · simp [record_macs,sealed_mac]
    · simp [record_macs,sealed_mac]
  · rw [show keyed_hmac key = fun data => (([] : List (Bytes × Bytes)).lookup data).getD (List.replicate 33 0 ++ data) from
      funext fun data => by rw [keyed_hmac,if_neg own]]
    apply padded_injective <;> simp

end Sample

open Sample in
/-- Tags leave the MAC of `logs/a` alone, its content type does not. -/
theorem sidecar_mac_binds_logs :
    compute_sidecar_mac { vault with hmac_sha256 := keyed_hmac }.with_serde data_key
        { sealed_meta with tags := some [("team","a")], is_delete_marker := true } =
      compute_sidecar_mac { vault with hmac_sha256 := keyed_hmac }.with_serde data_key sealed_meta ∧
    compute_sidecar_mac { vault with hmac_sha256 := keyed_hmac }.with_serde data_key html_meta ≠
      compute_sidecar_mac { vault with hmac_sha256 := keyed_hmac }.with_serde data_key sealed_meta := by
  have binds := (sidecar_mac_binds { vault with hmac_sha256 := keyed_hmac } keyed_hmac_injective).1 data_key
  constructor
  · refine (binds _ _).mpr ⟨rfl,rfl,rfl,rfl,rfl,rfl,rfl,rfl,rfl,rfl,?_,rfl,rfl,rfl⟩
    exact .some rfl
  · intro same
    have kinds : "text/html" = "text/plain" := ((binds _ _).mp same).content_type
    exact absurd kinds (by decide)

end Maxio
