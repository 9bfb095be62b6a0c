import Maxio.Escapes
import Maxio.MetaUpdates
import Maxio.UploadRequests
import Maxio.XmlTexts

/-!
The tags of an object as an XML document, and the handlers that write and read one. What the reader makes of a document is
settled one tag at a time: a blank key or value sends no text, and any other text comes trimmed.
-/

namespace Maxio
open XmlTexts (Solid Token Xml)

/-! ### The XML library -/

def XmlEvent.of_token : Token → XmlEvent
  | .opens name => .Start name
  | .closes name => .End name
  | .text value => .Text value
  | .other => .Other

/-- `quick_xml`: the serializer, and the events of a reader with `trim_text` up to the end or the first error. -/
structure QuickXml where
  to_string : Xml → Text
  read_events : Text → List XmlEvent

def XML_DECLARATION : Text := "<?xml version=\"1.0\" encoding=\"UTF-8\"?>".toList

def to_xml (Q : QuickXml) (value : Xml) : Text := XML_DECLARATION ++ Q.to_string value

/-- Behind the declaration, the reader finds the tokens of what was serialized. A byte of a text is written with at most
    six. -/
structure QuickXml.Sound (Q : QuickXml) : Prop where
  reads : ∀ e : Xml, e.Named → Q.read_events (to_xml Q e) = .Other :: e.tokens.map .of_token
  compact : ∀ e : Xml, XmlTexts.size (Q.to_string e) ≤ e.weight

/-! ### The parser -/

/-- `HashMap::insert`. -/
def hash_insert (tags : List (String × String)) (key value : String) : List (String × String) :=
  tags.filter (fun tag => tag.1 ≠ key) ++ [(key,value)]

/-- The variables of the loop in `put_object_tagging`. -/
structure TagsParser where
  tags : List (String × String)
  current_key : Option String
  in_key : Bool
  in_value : Bool
  deriving DecidableEq, Repr

namespace TagsParser

def new : TagsParser := { tags := [], current_key := none, in_key := false, in_value := false }

def step (p : TagsParser) : XmlEvent → Except S3Error TagsParser
  | .Start name =>
    if name = "Key" then .ok { p with in_key := true }
    else if name = "Value" then .ok { p with in_value := true }
    else .ok p
  | .Text unescaped =>
    let text := unescaped.getD ""
    if p.in_key then .ok { p with current_key := some text, in_key := false }
    else if p.in_value then match p.current_key with
      | some k => .ok { p with tags := hash_insert p.tags k text, current_key := none, in_value := false }
      | none => .ok { p with in_value := false }
    else .ok p
  | .End name =>
    if name = "Key" then .ok { p with in_key := false }
    else if name = "Value" then .ok { p with in_value := false }
    else .ok p
  | .Err => .error malformed_xml
  | .Other => .ok p

end TagsParser

/-- The limits on a tag, in bytes. -/
def check_tag (tag : String × String) : Except S3Error Unit :=
  if (utf8 tag.1).length > 128 then .error (.invalid_argument "Tag key exceeds maximum length of 128 characters")
  else if (utf8 tag.2).length > 256 then .error (.invalid_argument "Tag value exceeds maximum length of 256 characters")
  else .ok ()

/-- The tags of a map, if they are within the limits. -/
def check_tags (tags : List (String × String)) : Except S3Error (List (String × String)) :=
  if tags.length > 10 then .error (.invalid_argument "Object tags cannot exceed 10 entries")
  else do
    tags.forM check_tag
    .ok tags

def parse_tagging (events : List XmlEvent) : Except S3Error (List (String × String)) := do
  let parser ← events.foldlM TagsParser.step .new
  check_tags parser.tags

/-! ### The handlers -/

def TAGGING_BODY_MAX : Nat := 64 * 1024

/-- `axum::body::to_bytes`. -/
def to_bytes (limit : Nat) (body : Bytes) : Except S3Error Bytes :=
  if body.length > limit then .error (.refused "length limit exceeded") else .ok body

/-- The document of a map of tags. -/
def tagging (tags : List (String × String)) : Xml :=
  .node "Tagging" [.node "TagSet"
    ((tags.mergeSort fun a b => a.1 ≤ b.1).map fun tag => .node "Tag" [.leaf "Key" tag.1,.leaf "Value" tag.2])]

namespace Api
variable (Q : QuickXml) (fs : FilesystemStorage) (bucket key : String)

def get_object_tagging : UploadHandler Text := do
  let tags ← stored (fs.get_object_tagging bucket key)
  pure (to_xml Q (tagging tags))

def put_object_tagging (body : Bytes) : UploadHandler Unit := do
  let bytes ← Prog.lift (to_bytes TAGGING_BODY_MAX body)
  let tags ← Prog.lift (parse_tagging (Q.read_events (from_utf8_lossy bytes)))
  stored (fs.put_object_tagging bucket key tags)

end Api

/-! ### Runs of a parser -/

section
variable {σ : Type} (step : σ → XmlEvent → Except S3Error σ)

/-- What the loop of a parser makes of these tokens. -/
def run_tokens (p : σ) (tokens : List Token) : Except S3Error σ := (tokens.map .of_token).foldlM step p

theorem run_tokens_append (p : σ) (front back : List Token) :
    run_tokens step p (front ++ back) = run_tokens step p front >>= (run_tokens step · back) := by
  rw [run_tokens,List.map_append,List.foldlM_append]
  rfl

variable {step}

theorem run_tokens_after {p p' : σ} {front : List Token} (first : run_tokens step p front = .ok p') (back : List Token) :
    run_tokens step p (front ++ back) = run_tokens step p' back := by
  rw [run_tokens_append,first]
  rfl

theorem run_tokens_one {p p' : σ} {token : Token} (taken : step p (.of_token token) = .ok p') :
    run_tokens step p [token] = .ok p' := by
  rw [run_tokens,List.map_cons,List.map_nil,List.foldlM_cons,taken]
  rfl

/-- An element whose name says nothing to the parser passes on what its children come to. -/
theorem run_tokens_node {p p' : σ} {name : String} {children : List Xml} (other : step p .Other = .ok p)
    (opens : step p (.Start name) = .ok p) (closes : step p' (.End name) = .ok p')
    (inner : run_tokens step p (Xml.tokens_of children) = .ok p') :
    run_tokens step p (Xml.node name children).tokens = .ok p' := by
  rw [Xml.tokens]
  split
  next empty =>
    rw [List.isEmpty_iff.mp empty] at inner
    cases inner
    exact run_tokens_one other
  next =>
    rw [← List.singleton_append,run_tokens_after (run_tokens_one opens),run_tokens_after inner]
    exact run_tokens_one closes

end

/-! ### One tag -/

namespace TagsParser
open XmlTexts (trim shown)

/-- Between two elements. -/
def between (tags : List (String × String)) (current_key : Option String) : TagsParser :=
  { tags, current_key, in_key := false, in_value := false }

/-- The key that is kept behind an element of a key. -/
def after_key (current_key : Option String) (key : String) : Option String :=
  if trim key.toList = [] then current_key else some (String.ofList (trim key.toList))

/-- What an element of a value comes to. -/
def after_value (tags : List (String × String)) (current_key : Option String) (value : String) : TagsParser :=
  if trim value.toList = [] then between tags current_key
  else match current_key with
    | some k => between (hash_insert tags k (String.ofList (trim value.toList))) none
    | none => between tags none

/-- What a tag comes to. -/
def tag_step (p : TagsParser) (tag : String × String) : TagsParser :=
  after_value p.tags (after_key p.current_key tag.1) tag.2

section
variable (tags : List (String × String)) (current_key : Option String)

theorem run_key (key : String) :
    run_tokens step (between tags current_key) (Xml.leaf "Key" key).tokens = .ok (between tags (after_key current_key key)) := by
  rw [Xml.tokens,after_key]
  by_cases empty : key.toList.isEmpty = true
  · rw [if_pos empty,if_pos (by rw [List.isEmpty_iff.mp empty]; rfl)]
    rfl
  · rw [if_neg empty,shown]
    by_cases blank : trim key.toList = []
    · rw [if_pos blank,if_pos blank]
      rfl
    · rw [if_neg blank,if_neg blank]
      rfl

theorem run_value (value : String) :
    run_tokens step (between tags current_key) (Xml.leaf "Value" value).tokens = .ok (after_value tags current_key value) := by
  rw [Xml.tokens]
  unfold after_value
  by_cases empty : value.toList.isEmpty = true
  · rw [if_pos empty,if_pos (by rw [List.isEmpty_iff.mp empty]; rfl)]
    rfl
  · rw [if_neg empty,shown]
    by_cases blank : trim value.toList = []
    · rw [if_pos blank,if_pos blank]
      rfl
    · rw [if_neg blank,if_neg blank]
      cases current_key <;> rfl

theorem after_value_between (value : String) :
    ∃ tags' current_key', after_value tags current_key value = between tags' current_key' := by
  unfold after_value
  split
  · exact ⟨_,_,rfl⟩
  · split <;> exact ⟨_,_,rfl⟩

end

/-- An element with another name passes on what its children come to. -/
theorem run_node {p p' : TagsParser} {name : String} {children : List Xml} (key : name ≠ "Key") (value : name ≠ "Value")
    (inner : run_tokens step p (Xml.tokens_of children) = .ok p') :
    run_tokens step p (Xml.node name children).tokens = .ok p' := by
  apply run_tokens_node rfl ?_ ?_ inner
  · rw [step,if_neg key,if_neg value]
  · rw [step,if_neg key,if_neg value]

theorem run_tag (p : TagsParser) (idle : p = between p.tags p.current_key) (tag : String × String) :
    run_tokens step p (Xml.node "Tag" [.leaf "Key" tag.1,.leaf "Value" tag.2]).tokens = .ok (tag_step p tag) := by
  apply run_node (by decide) (by decide)
  rw [Xml.tokens_of,Xml.tokens_of,Xml.tokens_of,List.append_nil,idle,run_tokens_after (run_key _ _ tag.1)]
  exact run_value _ _ _

theorem tag_step_idle (p : TagsParser) (tag : String × String) :
    tag_step p tag = between (tag_step p tag).tags (tag_step p tag).current_key := by
  obtain ⟨tags,current_key,same⟩ := after_value_between p.tags (after_key p.current_key tag.1) tag.2
  rw [tag_step,same]
  rfl

/-- The tags of a document, one after the other. -/
theorem run_tags (p : TagsParser) (idle : p = between p.tags p.current_key) (tags : List (String × String)) :
    run_tokens step p (Xml.tokens_of (tags.map fun tag => .node "Tag" [.leaf "Key" tag.1,.leaf "Value" tag.2])) =
      .ok (tags.foldl tag_step p) := by
  induction tags generalizing p with
  | nil => rfl
  | cons tag rest ih =>
    rw [List.map_cons,Xml.tokens_of,run_tokens_after (run_tag p idle tag),List.foldl_cons]
    exact ih _ (tag_step_idle p tag)

theorem run_tagging (tags : List (String × String)) :
    run_tokens step .new (tagging tags).tokens = .ok ((tags.mergeSort fun a b => a.1 ≤ b.1).foldl tag_step .new) := by
  apply run_node (by decide) (by decide)
  rw [Xml.tokens_of,Xml.tokens_of,List.append_nil]
  exact run_node (by decide) (by decide) (run_tags .new rfl _)

/-! ### What is read -/

/-- Keys and values that a reader leaves as they are. -/
def Clean (p : TagsParser) : Prop :=
  (∀ tag ∈ p.tags, Solid tag.1 ∧ Solid tag.2) ∧ ∀ k ∈ p.current_key, Solid k

theorem tag_step_clean {p : TagsParser} (clean : p.Clean) (tag : String × String) : (tag_step p tag).Clean := by
  have key : ∀ k ∈ after_key p.current_key tag.1, Solid k := by
    intro k held
    rw [after_key] at held
    split at held
    · exact clean.2 k held
    next left =>
      cases held
      exact XmlTexts.solid_trim left
  rw [tag_step]
  unfold after_value
  split
  next => exact ⟨clean.1,key⟩
  next left =>
    split
    next k held =>
      refine ⟨fun tag' listed => ?_,nofun⟩
      obtain old | new := List.mem_append.mp listed
      · exact clean.1 tag' (List.mem_of_mem_filter old)
      · rw [List.mem_singleton.mp new]
        exact ⟨key k held,XmlTexts.solid_trim left⟩
    next => exact ⟨clean.1,nofun⟩

/-- No blank and no untrimmed text is ever stored. -/
theorem tags_clean {p : TagsParser} (clean : p.Clean) (tags : List (String × String)) : (tags.foldl tag_step p).Clean := by
  induction tags generalizing p with
  | nil => exact clean
  | cons tag rest ih => exact ih (tag_step_clean clean tag)

/-- A tag that the reader leaves as it is comes behind those before it. -/
theorem tag_step_solid {tags : List (String × String)} {tag : String × String} (solid : Solid tag.1 ∧ Solid tag.2)
    (new : tag.1 ∉ tags.map Prod.fst) : tag_step (between tags none) tag = between (tags ++ [tag]) none := by
  have others : tags.filter (fun other => other.1 ≠ tag.1) = tags := by
    rw [List.filter_eq_self]
    intro other listed
    rw [decide_eq_true_iff]
    intro same
    exact new (List.mem_map.mpr ⟨other,listed,same⟩)
  have key : trim tag.1.toList ≠ [] := by
    rw [solid.1.2]
    simpa using solid.1.1
  have value : trim tag.2.toList ≠ [] := by
    rw [solid.2.2]
    simpa using solid.2.1
  rw [tag_step,after_key,if_neg key]
  unfold after_value
  rw [if_neg value,solid.1.2,solid.2.2,String.ofList_toList,String.ofList_toList]
  change between (hash_insert tags tag.1 tag.2) none = _
  rw [hash_insert,others]

theorem tags_solid {front tags : List (String × String)} (solid : ∀ tag ∈ tags, Solid tag.1 ∧ Solid tag.2)
    (distinct : ((front ++ tags).map Prod.fst).Nodup) :
    tags.foldl tag_step (between front none) = between (front ++ tags) none := by
  induction tags generalizing front with
  | nil => rw [List.append_nil,List.foldl_nil]
  | cons tag rest ih =>
    have new : tag.1 ∉ front.map Prod.fst := by
      intro listed
      rw [List.map_append,List.nodup_append] at distinct
      exact distinct.2.2 tag.1 listed tag.1 (by simp) rfl
    rw [List.append_cons] at distinct
    rw [List.foldl_cons,tag_step_solid (solid tag List.mem_cons_self) new,
      ih (fun other listed => solid other (List.mem_cons_of_mem tag listed)) distinct,← List.append_cons]

end TagsParser

/-! ### Limits -/

/-- At most ten tags, none longer than its limit in bytes. -/
def WithinTagLimits (tags : List (String × String)) : Prop :=
  tags.length ≤ 10 ∧ ∀ tag ∈ tags, (utf8 tag.1).length ≤ 128 ∧ (utf8 tag.2).length ≤ 256

instance (tags : List (String × String)) : Decidable (WithinTagLimits tags) := inferInstanceAs (Decidable (_ ∧ _))

theorem check_tag_ok_iff (tag : String × String) :
    check_tag tag = .ok () ↔ (utf8 tag.1).length ≤ 128 ∧ (utf8 tag.2).length ≤ 256 := by
  rw [check_tag]
  split
  next long => exact ⟨nofun,fun short => absurd short.1 (by omega)⟩
  next =>
    split
    next long => exact ⟨nofun,fun short => absurd short.2 (by omega)⟩
    next => exact ⟨fun _ => by omega,fun _ => rfl⟩

theorem each_tag_ok_iff (tags : List (String × String)) :
    tags.forM check_tag = .ok () ↔ ∀ tag ∈ tags, (utf8 tag.1).length ≤ 128 ∧ (utf8 tag.2).length ≤ 256 := by
  induction tags with
  | nil => exact ⟨fun _ => nofun,fun _ => rfl⟩
  | cons tag rest ih =>
    rw [List.forall_mem_cons,← check_tag_ok_iff,← ih]
    change (check_tag tag >>= fun _ => rest.forM check_tag) = _ ↔ _
    cases first : check_tag tag with
    | error e => exact ⟨nofun,fun both => by cases both.1⟩
    | ok u => exact ⟨fun later => ⟨rfl,later⟩,fun both => both.2⟩

theorem check_tags_ok_iff (tags tags' : List (String × String)) :
    check_tags tags = .ok tags' ↔ tags' = tags ∧ WithinTagLimits tags := by
  rw [check_tags,WithinTagLimits,← each_tag_ok_iff]
  split
  next many => exact ⟨nofun,fun both => absurd both.2.1 (by omega)⟩
  next few =>
    cases checked : tags.forM check_tag with
    | error e => exact ⟨nofun,fun both => by cases both.2.2⟩
    | ok u =>
      constructor
      · intro same
        cases same
        exact ⟨rfl,by omega,rfl⟩
      · rintro ⟨rfl,-⟩
        rfl

section
variable {Q : QuickXml}

theorem tagging_named (tags : List (String × String)) : (tagging tags).Named := by
  have key : Xml.Plain "Key" := ⟨'K',['e','y'],by decide,by simp⟩
  have value : Xml.Plain "Value" := ⟨'V',['a','l','u','e'],by decide,by simp⟩
  have tag : Xml.Plain "Tag" := ⟨'T',['a','g'],by decide,by simp⟩
  have set : Xml.Plain "TagSet" := ⟨'T',['a','g','S','e','t'],by decide,by simp⟩
  have root : Xml.Plain "Tagging" := ⟨'T',['a','g','g','i','n','g'],by decide,by simp⟩
  have all : ∀ list : List (String × String),
      Xml.NamedAll (list.map fun tag => .node "Tag" [.leaf "Key" tag.1,.leaf "Value" tag.2]) := by
    intro list
    induction list with
    | nil => trivial
    | cons first rest ih => exact ⟨⟨tag,key,value,trivial⟩,ih⟩
  exact ⟨root,⟨set,all _⟩,trivial⟩

/-- What the parser makes of the document of some tags. -/
theorem parse_tagging_eq (sound : Q.Sound) (tags : List (String × String)) :
    parse_tagging (Q.read_events (to_xml Q (tagging tags))) =
      check_tags ((tags.mergeSort fun a b => a.1 ≤ b.1).foldl TagsParser.tag_step .new).tags := by
  have read := TagsParser.run_tagging tags
  rw [run_tokens] at read
  rw [sound.reads _ (tagging_named tags),parse_tagging,List.foldlM_cons]
  change (List.foldlM TagsParser.step .new _ >>= _) = _
  rw [read]
  rfl

theorem tag_weight (tags : List (String × String))
    (short : ∀ tag ∈ tags, (utf8 tag.1).length ≤ 128 ∧ (utf8 tag.2).length ≤ 256) :
    Xml.weight_all (tags.map fun tag => .node "Tag" [.leaf "Key" tag.1,.leaf "Value" tag.2]) ≤ 2400 * tags.length := by
  have names : XmlTexts.size "Tag".toList = 3 ∧ XmlTexts.size "Key".toList = 3 ∧ XmlTexts.size "Value".toList = 5 := by decide
  induction tags with
  | nil => exact Nat.le_refl 0
  | cons tag rest ih =>
    have later := ih fun other listed => short other (List.mem_cons_of_mem tag listed)
    have here : XmlTexts.size tag.1.toList ≤ 128 ∧ XmlTexts.size tag.2.toList ≤ 256 := short tag List.mem_cons_self
    simp only [List.map_cons,Xml.weight_all,Xml.weight,List.length_cons]
    omega

/-- A document within the limits is not too long. -/
theorem tagging_fits (sound : Q.Sound) {tags : List (String × String)} (within : WithinTagLimits tags) :
    (to_xml Q (tagging tags)).bytes.length ≤ TAGGING_BODY_MAX := by
  have declaration : XmlTexts.size XML_DECLARATION = 38 := by decide
  have names : XmlTexts.size "Tagging".toList = 7 ∧ XmlTexts.size "TagSet".toList = 6 := by decide
  have sorted := List.mergeSort_perm tags fun a b => a.1 ≤ b.1
  have inner := tag_weight (tags.mergeSort fun a b => a.1 ≤ b.1) fun tag listed => within.2 tag (sorted.mem_iff.mp listed)
  rw [sorted.length_eq] at inner
  have whole := sound.compact (tagging tags)
  have few := within.1
  change XmlTexts.size (XML_DECLARATION ++ Q.to_string (tagging tags)) ≤ 65536
  rw [XmlTexts.size_append,declaration]
  simp only [tagging,Xml.weight,Xml.weight_all] at whole ⊢
  omega

end

/-! ### Storing -/

section
variable {fs : FilesystemStorage} {bucket key : String} {w w' : World} {record : ObjectMeta}

/-- Tags that are put come back. -/
theorem put_tags_stores (found : fs.read_meta_at bucket key none w = (.ok record,w)) (tags : List (String × String)) :
    ∃ w', fs.put_object_tagging bucket key tags w = (.ok (),w') ∧ fs.get_object_tagging bucket key w' = (.ok tags,w') := by
  obtain ⟨valid,readable,-⟩ := read_meta_at_ok_iff.mp found
  have read : fs.read_object_meta bucket key w = (.ok record,w) := by
    simpa [FilesystemStorage.read_meta_at,valid,Prog.lift_ok_bind] using found
  obtain ⟨w',written⟩ := Fs.write_of_read readable
    (.json (.object { record with tags := if tags.isEmpty then none else some tags }))
  have again := read_meta_at_ok_iff.mpr ⟨valid,Fs.read_of_write written,rfl⟩
  refine ⟨w',?_,?_⟩
  · simp only [FilesystemStorage.put_object_tagging,FilesystemStorage.set_tags,valid,Prog.lift_ok_bind]
    rw [Prog.bind_of_ok read]
    exact io_ok_iff.mpr written
  · simp only [FilesystemStorage.read_meta_at,valid,Prog.lift_ok_bind] at again
    simp only [FilesystemStorage.get_object_tagging,valid,Prog.lift_ok_bind]
    rw [Prog.bind_of_ok again]
    cases tags <;> rfl

/-- Putting the document of these tags stores them. -/
def TagsStored (Q : QuickXml) (fs : FilesystemStorage) (bucket key : String) (tags : List (String × String)) (w : World) : Prop :=
  ∃ w' tags', Api.put_object_tagging Q fs bucket key (to_xml Q (tagging tags)).bytes w = (.ok (),w') ∧
    fs.get_object_tagging bucket key w' = (.ok tags',w') ∧ tags'.Perm tags

/-- Within the limits, and no text that the reader drops or trims. -/
def Storable (tags : List (String × String)) : Prop :=
  WithinTagLimits tags ∧ ∀ tag ∈ tags, Solid tag.1 ∧ Solid tag.2

instance (tags : List (String × String)) : Decidable (Storable tags) := inferInstanceAs (Decidable (_ ∧ _))

variable {Q : QuickXml} {tags : List (String × String)}

theorem stored_storable (sound : Q.Sound) (found : fs.read_meta_at bucket key none w = (.ok record,w))
    (holds : TagsStored Q fs bucket key tags w) : Storable tags := by
  obtain ⟨w',tags',put,got,same⟩ := holds
  have sorted := List.mergeSort_perm tags fun a b => a.1 ≤ b.1
  have parsed := parse_tagging_eq sound tags
  simp only [Api.put_object_tagging,Prog.bind_ok_iff,lift_ok_iff] at put
  obtain ⟨bytes,_,⟨fits,rfl⟩,read,_,⟨done,rfl⟩,put⟩ := put
  have whole : bytes = (to_xml Q (tagging tags)).bytes := by
    rw [to_bytes] at fits
    split at fits <;> cases fits
    rfl
  rw [whole,lossy_bytes,parsed,check_tags_ok_iff] at done
  have clean := (TagsParser.tags_clean (show TagsParser.new.Clean from ⟨nofun,nofun⟩)
    (tags.mergeSort fun a b => a.1 ≤ b.1)).1
  -- what is read back is what was parsed
  have stores : tags' = read := by
    obtain ⟨w₂,put₂,got₂⟩ := put_tags_stores found read
    rw [stored,Prog.mapError_ok_iff,put₂] at put
    cases put
    rw [got₂] at got
    cases got
    rfl
  rw [stores] at same
  rw [← done.1] at clean done
  refine ⟨⟨?_,fun tag listed => done.2.2 tag (same.mem_iff.mpr listed)⟩,fun tag listed => clean tag (same.mem_iff.mpr listed)⟩
  rw [← same.length_eq]
  exact done.2.1

theorem storable_stored (sound : Q.Sound) (found : fs.read_meta_at bucket key none w = (.ok record,w))
    (distinct : (tags.map Prod.fst).Nodup) (storable : Storable tags) : TagsStored Q fs bucket key tags w := by
  obtain ⟨within,solid⟩ := storable
  have sorted := List.mergeSort_perm tags fun a b => a.1 ≤ b.1
  have parsed := parse_tagging_eq sound tags
  have names : (([] ++ tags.mergeSort fun a b => a.1 ≤ b.1).map Prod.fst).Nodup := (sorted.map Prod.fst).nodup_iff.mpr distinct
  have kept := TagsParser.tags_solid (fun tag listed => solid tag (sorted.mem_iff.mp listed)) names
  have checked : check_tags (tags.mergeSort fun a b => a.1 ≤ b.1) = .ok (tags.mergeSort fun a b => a.1 ≤ b.1) := by
    refine (check_tags_ok_iff _ _).mpr ⟨rfl,?_,fun tag listed => within.2 tag (sorted.mem_iff.mp listed)⟩
    rw [sorted.length_eq]
    exact within.1
  rw [show TagsParser.new = TagsParser.between [] none from rfl,kept,List.nil_append,
    show ∀ list, (TagsParser.between list none).tags = list from fun _ => rfl,checked] at parsed
  obtain ⟨w',put,got⟩ := put_tags_stores found (tags.mergeSort fun a b => a.1 ≤ b.1)
  refine ⟨w',_,?_,got,sorted⟩
  have fits := tagging_fits sound within
  rw [Api.put_object_tagging,to_bytes,if_neg (by omega),Prog.lift_ok_bind,lossy_bytes,parsed]
  exact Prog.mapError_ok_iff.mpr put

/-- Tags come back from their document as they were just when the reader passes on every key and every value. -/
theorem tagging_round_trips_iff (sound : Q.Sound) (found : fs.read_meta_at bucket key none w = (.ok record,w))
    (distinct : (tags.map Prod.fst).Nodup) : TagsStored Q fs bucket key tags w ↔ Storable tags :=
  ⟨stored_storable sound found,storable_stored sound found distinct⟩

end

namespace Sample

/-- A serializer without quotes in need of escaping, and a reader of what it writes. -/
def quick_xml : QuickXml where
  to_string := Xml.render
  read_events text := (XmlTexts.read text).map .of_token

theorem quick_xml_sound : quick_xml.Sound where
  reads e named := by
    have inside : '>' ∉ "?xml version=\"1.0\" encoding=\"UTF-8\"?".toList := by decide
    have declared := XmlTexts.read_markup inside e.render
    have document := e.read_render named []
    rw [List.append_nil,XmlTexts.read,List.append_nil] at document
    rw [document] at declared
    exact congrArg (List.map XmlEvent.of_token) declared
  compact := Xml.size_render

theorem stored_found : ∃ record, bytewise.read_meta_at "logs" "a" none stored_world = (.ok record,stored_world) := by
  obtain ⟨record,w',found⟩ := isOk_spec (r := bytewise.read_meta_at "logs" "a" none stored_world) (by decide +kernel)
  exact ⟨record,read_meta_at_quiet.state found ▸ found⟩

end Sample

theorem tagging_round_trips_team : TagsStored Sample.quick_xml Sample.bytewise "logs" "a" [("team","r&d"),("env","a < b")]
    Sample.stored_world := by
  obtain ⟨record,found⟩ := Sample.stored_found
  exact (tagging_round_trips_iff Sample.quick_xml_sound found (by decide)).mpr (by decide)

/-- A tag with an empty value is within the limits and is not stored. -/
theorem empty_value_dropped : WithinTagLimits [("team","")] ∧
    ¬ TagsStored Sample.quick_xml Sample.bytewise "logs" "a" [("team","")] Sample.stored_world := by
  obtain ⟨record,found⟩ := Sample.stored_found
  refine ⟨by decide,fun holds => ?_⟩
  have storable := stored_storable Sample.quick_xml_sound found holds
  exact absurd storable (by decide)

end Maxio
