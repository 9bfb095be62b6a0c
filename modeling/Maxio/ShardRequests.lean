import Maxio.ClientUrls
import Maxio.Shards
import Maxio.StorageSpec

/-!
Fetching a shard from a peer: the bucket and the key are pasted into the query of a URL as they are, the peer decodes the
query as a form and joins what it finds to a path. Which shards are addressed right, and which stay among the shards.
-/

namespace Maxio.Cluster

/-! ### The request -/

/-- The base URL of a peer, without blanks, query and fragment. -/
structure PeerUrl where
  text : Text
  clean : ∀ c ∈ text, 32 < c.toNat ∧ c ≠ '?' ∧ c ≠ '#'

/-- The URL of `fetch_shard_http`. -/
def shard_url (peer_base_url : Text) (bucket key : Text) (shard_index : Nat) : Text :=
  let base := peer_base_url.rdropWhile (· = '/')
  base ++ "/internal/shard?bucket=".toList ++ bucket ++ "&key=".toList ++ key ++ "&index=".toList ++
    (toString shard_index).toList

structure ShardQuery where
  bucket : Text
  key : Text
  index : Nat
deriving DecidableEq

/-- A field of a query that is read into a struct; to give it twice is an error. -/
def field (params : Params) (name : String) : Option Text :=
  match params.filter fun entry => entry.1 = name.toList with
  | [(_,value)] => some value
  | _ => none

/-- `Query<ShardQuery>`. -/
def shard_query (query : Text) : Option ShardQuery := do
  let params := parse_query query
  let bucket ← field params "bucket"
  let key ← field params "key"
  let text ← field params "index"
  let index ← parseUnsigned (2 ^ 32 - 1) (String.ofList text)
  pure ⟨bucket,key,index⟩

inductive ShardStatus where
  | BAD_REQUEST
  | NOT_FOUND
deriving DecidableEq

def cluster_shard_path (data_root : OsPath) (q : ShardQuery) : OsPath :=
  shard_path data_root (String.ofList q.bucket) (String.ofList q.key) q.index

def get_shard (data_root : OsPath) (query : Text) : Prog World ShardStatus Content := fun w =>
  match shard_query query with
  | none => (.error .BAD_REQUEST,w)
  | some q => match Fs.readAt w.tree (cluster_shard_path data_root q) with
    | .ok c => (.ok c,w)
    | .error _ => (.error .NOT_FOUND,w)

/-! ### What arrives -/

/-- The part of a query that a URL keeps. -/
def sent (query : Text) : Text := (query.filter fun c => !tab_or_newline c).takeWhile (· ≠ '#')

theorem sent_append {a : Text} (clean : ∀ c ∈ a, tab_or_newline c = false ∧ c ≠ '#') (b : Text) :
    sent (a ++ b) = a ++ sent b := by
  induction a with
  | nil => rfl
  | cons c rest ih =>
    obtain ⟨⟨kept,other⟩,later⟩ := List.forall_mem_cons.mp clean
    rw [List.cons_append,sent,List.filter_cons_of_pos (by simp [kept]),List.takeWhile_cons_of_pos (by simpa using other)]
    exact congrArg (c :: ·) (ih later)

theorem url_query_eq {base : Text} (clean : ∀ c ∈ base, tab_or_newline c = false ∧ c ≠ '#' ∧ c ≠ '?') (query : Text) :
    url_query (base ++ '?' :: query) = utf8_percent_encode (sent query) QUERY_ESCAPES := by
  have start : ∀ c ∈ base ++ ['?'], tab_or_newline c = false ∧ c ≠ '#' := by
    intro c member
    rcases List.mem_append.mp member with front | mark
    · exact ⟨(clean c front).1,(clean c front).2.1⟩
    · rw [List.mem_singleton.mp mark]
      decide
  have url : sent (base ++ '?' :: query) = base ++ '?' :: sent query := by
    have whole := sent_append start query
    simpa using whole
  have cut : (base ++ '?' :: sent query).dropWhile (· ≠ '?') = '?' :: sent query := by
    rw [List.dropWhile_append_of_pos (by simpa using fun c member => (clean c member).2.2),List.dropWhile_cons_of_neg (by simp)]
  change utf8_percent_encode (((sent (base ++ '?' :: query)).dropWhile (· ≠ '?')).drop 1) QUERY_ESCAPES = _
  rw [url,cut]
  rfl

/-- What is sent of a value that is followed by another field. -/
def arrived (value rest : Text) : Text := (sent (value ++ '&' :: rest)).takeWhile (· ≠ '&')

/-- The characters that end or leave a value on its way. -/
def marks : List Char := ['&','#','\t','\n','\r']

theorem arrived_sublist (value rest : Text) : (arrived value rest).Sublist (value.filter fun c => decide (c ∉ marks)) := by
  induction value with
  | nil => simp [arrived,sent,tab_or_newline]
  | cons c more ih =>
    by_cases gone : tab_or_newline c = true
    · have same : arrived (c :: more) rest = arrived more rest := by
        rw [arrived,sent,List.cons_append,List.filter_cons_of_neg (by simp [gone])]
        rfl
      rw [same]
      exact ih.trans ((List.sublist_cons_self c more).filter _)
    · by_cases stop : c = '&' ∨ c = '#'
      · have none : arrived (c :: more) rest = [] := by
          rw [arrived,sent,List.cons_append,List.filter_cons_of_pos (by simpa using gone)]
          rcases stop with rfl | rfl <;> simp
        rw [none]
        exact List.nil_sublist _
      · rw [not_or] at stop
        have same : arrived (c :: more) rest = c :: arrived more rest := by
          rw [arrived,sent,List.cons_append,List.filter_cons_of_pos (by simpa using gone),
            List.takeWhile_cons_of_pos (by simpa using stop.2),List.takeWhile_cons_of_pos (by simpa using stop.1)]
          rfl
        have clean : c ∉ marks := by
          simp only [tab_or_newline,Bool.or_eq_true,decide_eq_true_eq,not_or] at gone
          simp [marks,stop,gone]
        rw [same,List.filter_cons_of_pos (by simpa using clean)]
        exact ih.cons_cons c

theorem marks_low : ∀ c ∈ marks, c ∈ low_chars := by
  intro c member
  rw [mem_low_chars]
  simp only [marks,List.mem_cons,List.not_mem_nil,or_false] at member
  rcases member with rfl | rfl | rfl | rfl | rfl <;> decide

theorem clean_of_not_mem {c : Char} (clean : c ∉ marks) : tab_or_newline c = false ∧ c ≠ '#' ∧ c ≠ '&' := by
  simp only [marks,List.mem_cons,List.not_mem_nil,or_false,not_or] at clean
  simp [tab_or_newline,clean]

theorem sent_clean {a : Text} (clean : ∀ c ∈ a, c ∉ marks) (b : Text) : sent (a ++ b) = a ++ sent b :=
  sent_append (fun c member => ⟨(clean_of_not_mem (clean c member)).1,(clean_of_not_mem (clean c member)).2.1⟩) b

theorem takeWhile_joint {a : Text} (joint : '&' ∉ a) (b : Text) : (a ++ '&' :: b).takeWhile (· ≠ '&') = a := by
  rw [List.takeWhile_append_of_pos,List.takeWhile_cons_of_neg (by simp),List.append_nil]
  intro c member
  simp only [ne_eq,decide_eq_true_eq]
  rintro rfl
  exact joint member

theorem joint_of_clean {a : Text} (clean : ∀ c ∈ a, c ∉ marks) : '&' ∉ a :=
  fun member => (clean_of_not_mem (clean _ member)).2.2 rfl

theorem sent_separator (rest : Text) : sent ('&' :: rest) = '&' :: sent rest := by
  refine sent_append (a := ['&']) (fun c member => ?_) rest
  rw [List.mem_singleton.mp member]
  decide

theorem arrived_clean {value : Text} (clean : ∀ c ∈ value, c ∉ marks) (rest : Text) : arrived value rest = value := by
  rw [arrived,sent_clean clean,sent_separator,takeWhile_joint (joint_of_clean clean)]

theorem splitChars_first (sep : Char) (t : Text) : ∃ more, splitChars sep t = t.takeWhile (· ≠ sep) :: more := by
  induction t with
  | nil => exact ⟨[],rfl⟩
  | cons c rest ih =>
    by_cases same : c = sep
    · exact ⟨splitChars sep rest,by rw [splitChars,if_pos same,List.takeWhile_cons_of_neg (by simp [same])]⟩
    · obtain ⟨more,pieces⟩ := ih
      refine ⟨more,?_⟩
      rw [splitChars,if_neg same,pieces,List.takeWhile_cons_of_pos (by simpa using same)]

/-- A field stands at the start of a query with what has arrived of its value. -/
theorem arrived_piece {name : Text} (clean : ∀ c ∈ name, c ∉ marks) (value rest : Text) :
    name ++ arrived value rest ∈ splitChars '&' (sent (name ++ (value ++ '&' :: rest))) := by
  obtain ⟨more,pieces⟩ := splitChars_first '&' (sent (value ++ '&' :: rest))
  rw [sent_clean clean,splitChars_outside (joint_of_clean clean),pieces]
  exact List.mem_cons_self ..

theorem field_unique {params : Params} {name : String} {value other : Text} (found : field params name = some value)
    (member : (name.toList,other) ∈ params) : other = value := by
  rw [field] at found
  have listed : (name.toList,other) ∈ params.filter fun entry => entry.1 = name.toList :=
    List.mem_filter.mpr ⟨member,by simp⟩
  split at found
  next first last entry =>
    rw [entry,List.mem_singleton] at listed
    cases listed
    exact Option.some.inj found
  next => cases found

/-- The entry of a field in a query. -/
theorem arrived_param {name : String} (letters : ∀ c ∈ name.toList, Plain c ∧ c ≠ '+' ∧ c ≠ '=' ∧ c ∉ marks)
    (value : Text) {query : Text} (piece : name.toList ++ '=' :: value ∈ splitChars '&' query) :
    (name.toList,form_decode value) ∈ parse_query query := by
  refine List.mem_map.mpr ⟨name.toList ++ '=' :: value,List.mem_filter.mpr ⟨piece,by simp⟩,?_⟩
  have cut : Text.split_once '=' (name.toList ++ '=' :: value) = some (name.toList,value) :=
    Text.split_once_some.mpr ⟨rfl,fun member => (letters _ member).2.2.1 rfl⟩
  rw [form_pair,cut]
  exact congrArg (·,form_decode value) (form_decode_letters fun c member => ⟨(letters c member).1,(letters c member).2.1⟩)

/-- What a field decodes to is its value only where nothing of it was lost. -/
theorem unchanged_of_arrived {value rest : Text} (same : form_decode (arrived value rest) = value) : Unchanged value := by
  have clean := nothing_cut marks_low (arrived_sublist value rest) same
  rw [arrived_clean clean] at same
  obtain ⟨plusless,free⟩ := (form_decode_self_iff value).mp same
  refine ⟨fun c member listed => ?_,free⟩
  have kept := clean c member
  simp only [marks,List.mem_cons,List.not_mem_nil,or_false] at listed kept
  rcases listed with rfl | rfl | rfl | rfl | rfl | rfl <;> simp_all

theorem clean_of_unchanged {t : Text} (unchanged : Unchanged t) : ∀ c ∈ t, c ∉ marks := by
  intro c member mark
  exact unchanged.clear c member (by
    simp only [marks,List.mem_cons,List.not_mem_nil,or_false] at mark ⊢
    tauto)

theorem decoded_of_unchanged {t : Text} (unchanged : Unchanged t) : form_decode t = t :=
  (form_decode_self_iff t).mpr ⟨fun plus => unchanged.clear _ plus (by decide),unchanged.escapes⟩

/-! ### The query of a shard -/

/-- The query that is pasted together. -/
def pasted (bucket key : Text) (shard_index : Nat) : Text :=
  "bucket=".toList ++ (bucket ++ '&' :: ("key=".toList ++ (key ++ '&' :: ("index=".toList ++ (toString shard_index).toList))))

theorem field_letters {name : String} (known : name ∈ ["bucket","key","index"]) :
    ∀ c ∈ name.toList, Plain c ∧ c ≠ '+' ∧ c ≠ '=' ∧ c ∉ marks := by
  have bucket : "bucket".toList = ['b','u','c','k','e','t'] := rfl
  have key : "key".toList = ['k','e','y'] := rfl
  have index : "index".toList = ['i','n','d','e','x'] := rfl
  simp only [List.mem_cons,List.not_mem_nil,or_false] at known
  intro c member
  rcases known with rfl | rfl | rfl
  · rw [bucket] at member
    fin_cases member <;> exact ⟨⟨by decide,by decide⟩,by decide,by decide,by decide⟩
  · rw [key] at member
    fin_cases member <;> exact ⟨⟨by decide,by decide⟩,by decide,by decide,by decide⟩
  · rw [index] at member
    fin_cases member <;> exact ⟨⟨by decide,by decide⟩,by decide,by decide,by decide⟩

theorem name_known : "bucket" ∈ ["bucket","key","index"] ∧ "key" ∈ ["bucket","key","index"] := by decide

theorem field_starts : "bucket=".toList = "bucket".toList ++ ['='] ∧ "key=".toList = "key".toList ++ ['='] ∧
    "index=".toList = "index".toList ++ ['='] := ⟨rfl,rfl,rfl⟩

theorem name_clean {name : String} (known : name ∈ ["bucket","key","index"]) : ∀ c ∈ name.toList ++ ['='], c ∉ marks := by
  intro c member
  rcases List.mem_append.mp member with letter | equals
  · exact (field_letters known c letter).2.2.2
  · rw [List.mem_singleton.mp equals]
    decide

theorem digits_plain (n : Nat) : ∀ c ∈ (toString n).toList, Plain c ∧ c ≠ '+' ∧ c ∉ marks := by
  intro c member
  rw [toString_digits] at member
  have digit : c.isDigit = true := Nat.isDigit_of_mem_toDigits (by decide) (by decide) member
  refine ⟨plain_of_nameChar (by simp [isNameChar,digit]),?_,?_⟩
  · rintro rfl
    exact absurd digit (by decide)
  · intro mark
    simp only [marks,List.mem_cons,List.not_mem_nil,or_false] at mark
    rcases mark with rfl | rfl | rfl | rfl | rfl <;> exact absurd digit (by decide)

/-- The value of a field that is followed by another has to come through as it is. -/
theorem unchanged_of_field {name : String} (known : name ∈ ["bucket","key","index"]) (value rest : Text) {query : Text}
    (piece : ∀ piece ∈ splitChars '&' (sent (name.toList ++ '=' :: (value ++ '&' :: rest))), piece ∈ splitChars '&' query)
    (found : field (parse_query query) name = some value) : Unchanged value := by
  have here := arrived_piece (name_clean known) value rest
  rw [List.append_assoc,List.append_assoc] at here
  have param := arrived_param (field_letters known) (arrived value rest) (piece _ here)
  exact unchanged_of_arrived (field_unique found param)

/-- A field that comes through is a piece of its own. -/
theorem splitChars_sent {field : Text} (clean : ∀ c ∈ field, c ∉ marks) (rest : Text) :
    splitChars '&' (sent (field ++ '&' :: rest)) = field :: splitChars '&' (sent rest) := by
  rw [sent_clean clean,sent_separator,splitChars_append_sep,splitChars_whole (joint_of_clean clean)]
  rfl

theorem field_clean {start value : Text} (clean : ∀ c ∈ start, c ∉ marks) (kept : Unchanged value) :
    ∀ c ∈ start ++ value, c ∉ marks := by
  intro c member
  rcases List.mem_append.mp member with name | value
  · exact clean c name
  · exact clean_of_unchanged kept c value

theorem starts_clean : (∀ c ∈ "bucket=".toList, c ∉ marks) ∧ (∀ c ∈ "key=".toList, c ∉ marks) ∧
    ∀ c ∈ "index=".toList, c ∉ marks := by
  rw [field_starts.1,field_starts.2.1,field_starts.2.2]
  exact ⟨name_clean (by simp),name_clean (by simp),name_clean (by simp)⟩

/-- What follows a bucket that comes through. -/
theorem pasted_after_bucket {bucket : Text} (kept : Unchanged bucket) (key : Text) (index : Nat) :
    splitChars '&' (sent (pasted bucket key index)) = ("bucket=".toList ++ bucket) ::
      splitChars '&' (sent ("key=".toList ++ (key ++ '&' :: ("index=".toList ++ (toString index).toList)))) := by
  unfold pasted
  rw [← List.append_assoc,splitChars_sent (field_clean starts_clean.1 kept)]

theorem field_of_pasted (bucket key text : Text) :
    field [("bucket".toList,bucket),("key".toList,key),("index".toList,text)] "bucket" = some bucket ∧
      field [("bucket".toList,bucket),("key".toList,key),("index".toList,text)] "key" = some key ∧
      field [("bucket".toList,bucket),("key".toList,key),("index".toList,text)] "index" = some text := ⟨rfl,rfl,rfl⟩

/-- One field whose value comes through. -/
theorem form_pair_field {name : String} (known : name ∈ ["bucket","key","index"]) {value : Text} (kept : form_decode value = value) :
    form_pair (name.toList ++ '=' :: value) = (name.toList,value) := by
  have cut : Text.split_once '=' (name.toList ++ '=' :: value) = some (name.toList,value) :=
    Text.split_once_some.mpr ⟨rfl,fun member => (field_letters known _ member).2.2.1 rfl⟩
  rw [form_pair,cut]
  simp only [kept,form_decode_letters fun c member => ⟨(field_letters known c member).1,(field_letters known c member).2.1⟩]

theorem parse_pasted {bucket key : Text} (bucket_kept : Unchanged bucket) (key_kept : Unchanged key) (index : Nat) :
    parse_query (sent (pasted bucket key index)) =
      [("bucket".toList,bucket),("key".toList,key),("index".toList,(toString index).toList)] := by
  have digits_kept : form_decode (toString index).toList = (toString index).toList :=
    form_decode_letters fun c member => ⟨(digits_plain index c member).1,(digits_plain index c member).2.1⟩
  have last : ∀ c ∈ "index=".toList ++ (toString index).toList, c ∉ marks := by
    intro c member
    rcases List.mem_append.mp member with name | digit
    · exact starts_clean.2.2 c name
    · exact (digits_plain index c digit).2.2
  have ended : sent ("index=".toList ++ (toString index).toList) = "index=".toList ++ (toString index).toList := by
    have whole := sent_clean last []
    rwa [List.append_nil,show sent [] = [] from rfl,List.append_nil] at whole
  have key_piece : splitChars '&' (sent ("key=".toList ++ (key ++ '&' :: ("index=".toList ++ (toString index).toList)))) =
      ["key=".toList ++ key,"index=".toList ++ (toString index).toList] := by
    rw [← List.append_assoc,splitChars_sent (field_clean starts_clean.2.1 key_kept),ended,
      splitChars_whole (joint_of_clean last)]
  unfold parse_query
  rw [pasted_after_bucket bucket_kept,key_piece,field_starts.1,field_starts.2.1,field_starts.2.2]
  simp only [List.append_assoc,List.singleton_append]
  rw [List.filter_eq_self.mpr (by simp),List.map_cons,List.map_cons,List.map_cons,List.map_nil,
    form_pair_field (by simp) (decoded_of_unchanged bucket_kept),form_pair_field (by simp) (decoded_of_unchanged key_kept),
    form_pair_field (by simp) digits_kept]

theorem sent_shard_query_iff (bucket key : Text) {index : Nat} (u32 : index < 2 ^ 32) :
    shard_query (sent (pasted bucket key index)) = some ⟨bucket,key,index⟩ ↔ Unchanged bucket ∧ Unchanged key := by
  constructor
  · intro decoded
    simp only [shard_query,Option.bind_eq_bind,Option.bind_eq_some_iff,Option.pure_def,Option.some.injEq] at decoded
    obtain ⟨b,bucket_found,k,key_found,text,-,i,-,same⟩ := decoded
    cases same
    have bucket_kept : Unchanged bucket := 
      unchanged_of_field (name_known.1) bucket _ (fun piece member => member) bucket_found
    refine ⟨bucket_kept,unchanged_of_field name_known.2 key ("index=".toList ++ (toString index).toList) (fun piece member => ?_)
      key_found⟩
    rw [pasted_after_bucket bucket_kept]
    exact List.mem_cons_of_mem _ member
  · rintro ⟨bucket_kept,key_kept⟩
    have params := parse_pasted bucket_kept key_kept index
    have digits : parseUnsigned (2 ^ 32 - 1) (String.ofList (toString index).toList) = some index := by
      rw [String.ofList_toList]
      exact parseUnsigned_toString (by omega)
    have fields := field_of_pasted bucket key (toString index).toList
    rw [shard_query]
    simp only [params,fields.1,fields.2.1,fields.2.2,digits,Option.bind_eq_bind,Option.bind_some,Option.pure_def]

/-! ### The URL -/

theorem shard_url_query (peer : PeerUrl) (bucket key : Text) (index : Nat) :
    url_query (shard_url peer.text bucket key index) = utf8_percent_encode (sent (pasted bucket key index)) QUERY_ESCAPES := by
  have path : ∀ c ∈ "/internal/shard".toList, tab_or_newline c = false ∧ c ≠ '#' ∧ c ≠ '?' := by
    have letters : "/internal/shard".toList = ['/','i','n','t','e','r','n','a','l','/','s','h','a','r','d'] := rfl
    intro c member
    rw [letters] at member
    fin_cases member <;> decide
  have base : ∀ c ∈ peer.text.rdropWhile (· = '/') ++ "/internal/shard".toList,
      tab_or_newline c = false ∧ c ≠ '#' ∧ c ≠ '?' := by
    intro c member
    rcases List.mem_append.mp member with front | rest
    · obtain ⟨visible,query,fragment⟩ := peer.clean c ((List.rdropWhile_prefix _ _).subset front)
      refine ⟨?_,fragment,query⟩
      simp only [tab_or_newline,Bool.or_eq_false_iff,decide_eq_false_iff_not]
      refine ⟨⟨?_,?_⟩,?_⟩ <;> rintro rfl <;> exact absurd visible (by decide)
    · exact path c rest
  have url : shard_url peer.text bucket key index =
      (peer.text.rdropWhile (· = '/') ++ "/internal/shard".toList) ++ '?' :: pasted bucket key index := by
    have first : "/internal/shard?bucket=".toList = "/internal/shard".toList ++ '?' :: "bucket=".toList := rfl
    have second : "&key=".toList = '&' :: "key=".toList := rfl
    have third : "&index=".toList = '&' :: "index=".toList := rfl
    unfold shard_url pasted
    rw [first,second,third]
    simp only [List.append_assoc,List.cons_append]
  rw [url,url_query_eq base]

/-- A shard is asked for under its own bucket, key and index just where both texts stand in a query for themselves. -/
theorem shard_query_iff (peer : PeerUrl) (bucket key : Text) {index : Nat} (u32 : index < 2 ^ 32) :
    shard_query (url_query (shard_url peer.text bucket key index)) = some ⟨bucket,key,index⟩ ↔
      Unchanged bucket ∧ Unchanged key := by
  rw [← sent_shard_query_iff bucket key u32,shard_url_query]
  unfold shard_query
  rw [parse_query_encoded]

/-! ### The file -/

/-- Where a path leads when `..` goes back by one name. -/
def resolve (here : OsPath) : OsPath → OsPath
  | [] => here
  | s :: rest =>
    if skipped s then resolve here rest
    else if s = ".." then resolve here.dropLast rest
    else resolve (here ++ [s]) rest

/-- Where a text leads that is joined to a place. -/
def enter (here : OsPath) (path : String) : OsPath := resolve (if starts_with path "/" then [] else here) (split path '/')

/-- Where a node keeps the shards of the cluster. -/
def shards_dir (data_root : OsPath) : OsPath := enter (resolve [] data_root) ".cluster-shards"

/-- A path that leads to something below the shards. -/
def StrictlyInside (data_root path : OsPath) : Prop :=
  shards_dir data_root <+: resolve [] path ∧ resolve [] path ≠ shards_dir data_root

instance (data_root path : OsPath) : Decidable (StrictlyInside data_root path) := inferInstanceAs (Decidable (_ ∧ _))

/-- Bucket and key, walked from the shards, end there or below. -/
def StaysInside (data_root : OsPath) (bucket key : Text) : Prop :=
  shards_dir data_root <+: enter (enter (shards_dir data_root) (String.ofList bucket)) (String.ofList key)

instance (data_root : OsPath) (bucket key : Text) : Decidable (StaysInside data_root bucket key) :=
  inferInstanceAs (Decidable (_ <+: _))

theorem resolve_append (here p q : OsPath) : resolve here (p ++ q) = resolve (resolve here p) q := by
  induction p generalizing here with
  | nil => rfl
  | cons s rest ih =>
    rw [List.cons_append,resolve,resolve]
    split
    · exact ih here
    · split
      · exact ih here.dropLast
      · exact ih (here ++ [s])

theorem resolve_join (p : OsPath) (path : String) : resolve [] (join p path) = enter (resolve [] p) path := by
  rw [join,enter]
  split
  · rfl
  · exact resolve_append [] p _

/-- What the lookup of a path finds is where the path leads. -/
theorem locateFrom_resolve {t : Disk} {here p q : OsPath} (found : locateFrom t here p = .ok q) : q = resolve here p := by
  induction p generalizing here with
  | nil => exact (Except.ok.inj found).symm
  | cons s rest ih =>
    rw [locateFrom] at found
    rw [resolve]
    split at found
    next skip => rw [if_pos skip]; exact ih found
    next kept =>
      rw [if_neg kept]
      split at found
      next up =>
        rw [if_pos up]
        split at found
        · exact ih found
        · cases found
      next down =>
        rw [if_neg down]
        exact ih found

theorem index_name_enters (here : OsPath) (index : Nat) : enter here (padded 10 6 index) = here ++ [padded 10 6 index] := by
  have slash := chunk_name_slash index
  obtain ⟨kept,down⟩ := chunk_name_kept index
  have relative : ¬ starts_with (chunk_name index) "/" = true := by
    rw [starts_with_slash]
    intro first
    exact slash (List.mem_of_head? first)
  change enter here (chunk_name index) = here ++ [chunk_name index]
  rw [enter,if_neg relative,split_of_not_mem _ slash,resolve,if_neg (by simp [kept]),if_neg down,resolve]

theorem strictlyInside_iff (data_root : OsPath) (bucket key : Text) (index : Nat) :
    StrictlyInside data_root (cluster_shard_path data_root ⟨bucket,key,index⟩) ↔ StaysInside data_root bucket key := by
  have path : resolve [] (cluster_shard_path data_root ⟨bucket,key,index⟩) =
      enter (enter (shards_dir data_root) (String.ofList bucket)) (String.ofList key) ++ [padded 10 6 index] := by
    rw [cluster_shard_path,shard_path,resolve_join,resolve_join,resolve_join,resolve_join,index_name_enters]
    rfl
  rw [StrictlyInside,StaysInside,path]
  constructor
  · rintro ⟨below,proper⟩
    exact (List.prefix_concat_iff.mp below).resolve_left (Ne.symm proper)
  · intro below
    refine ⟨below.trans (List.prefix_append _ _),fun same => ?_⟩
    have short := below.length_le
    have size := congrArg List.length same
    rw [List.length_append,List.length_singleton] at size
    omega

theorem readAt_resolve {t : Disk} {p : OsPath} {c : Content} (read : Fs.readAt t p = .ok c) :
    t.node (resolve [] p) = some (.file c) := by
  rw [Fs.readAt] at read
  cases found : Fs.stat t p with
  | error kind => rw [found] at read; cases read
  | ok node =>
    rw [found] at read
    cases node with
    | dir => cases read
    | file content =>
      cases read
      rw [Fs.stat] at found
      cases place : locate t p with
      | error kind => rw [place] at found; cases found
      | ok q =>
        rw [← locateFrom_resolve place]
        cases here : t.node q with
        | none => simp [place,FileTree.Tree.stat,here,bind,Except.bind] at found
        | some node =>
          cases node with
          | dir => simp [place,FileTree.Tree.stat,here,bind,Except.bind] at found
          | file content =>
            simp only [place,FileTree.Tree.stat,here,bind,Except.bind] at found
            split at found
            · cases found
            · cases found; rfl

/-- A shard that is served lies where its path leads. -/
theorem get_shard_reads {data_root : OsPath} {query : Text} {w w' : World} {c : Content}
    (served : get_shard data_root query w = (.ok c,w')) :
    ∃ q, shard_query query = some q ∧ w.tree.node (resolve [] (cluster_shard_path data_root q)) = some (.file c) := by
  rw [get_shard] at served
  split at served
  next => cases served
  next q found =>
    refine ⟨q,found,?_⟩
    split at served
    next content read =>
      cases served
      exact readAt_resolve read
    next => cases served

/-- A peer is asked for the right shard, and looks for it among the shards, just where bucket and key stand in a query for
    themselves and lead nowhere else. -/
theorem shard_request_right_iff (peer : PeerUrl) (data_root : OsPath) (bucket key : Text) (index : Nat)
    (u32 : index < 2 ^ 32) :
    (shard_query (url_query (shard_url peer.text bucket key index)) = some ⟨bucket,key,index⟩ ∧
        StrictlyInside data_root (cluster_shard_path data_root ⟨bucket,key,index⟩)) ↔
      Unchanged bucket ∧ Unchanged key ∧ StaysInside data_root bucket key := by
  rw [shard_query_iff peer bucket key u32,strictlyInside_iff,and_assoc]

namespace Sample

def peer : PeerUrl where
  text := "http://h2:9100".toList
  clean := by
    intro c member
    have letters : c ∈ ['h','t','t','p',':','/','/','h','2',':','9','1','0','0'] := member
    fin_cases letters <;> decide

def logs : Text := ['l','o','g','s']

def photo : Text := ['p','/','a',' ','b','.','t','x','t']

end Sample

theorem shard_request_right_photo :
    shard_query (url_query (shard_url Sample.peer.text Sample.logs Sample.photo 7)) = some ⟨Sample.logs,Sample.photo,7⟩ ∧
      StrictlyInside ["srv"] (cluster_shard_path ["srv"] ⟨Sample.logs,Sample.photo,7⟩) :=
  (shard_request_right_iff Sample.peer ["srv"] Sample.logs Sample.photo 7 (by decide)).mpr
    ⟨by decide +kernel,by decide +kernel,by decide +kernel⟩

/-- A key with an ampersand is asked for as the part before it, and a bucket may lead out of the shards. -/
theorem ampersand_misleads :
    shard_query (url_query (shard_url Sample.peer.text "logs".toList "a&b".toList 0)) =
        some ⟨"logs".toList,"a".toList,0⟩ ∧
      shard_query (url_query (shard_url Sample.peer.text "logs".toList "a&b".toList 0)) ≠
        some ⟨"logs".toList,"a&b".toList,0⟩ ∧
      ¬ StrictlyInside ["srv"] (cluster_shard_path ["srv"] ⟨"..".toList,"keys".toList,0⟩) := by
  decide +kernel

end Maxio.Cluster
