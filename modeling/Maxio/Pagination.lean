import Maxio.ListObjects
import Maxio.MetadataIndex
import Maxio.RoundTrip

/-!
A client that follows the tokens of a listing sees the objects behind its start in pieces of `max-keys`. So nothing is
lost or repeated without a delimiter; with one, a common prefix is on two pages when a cut falls within its group.
-/

namespace Maxio

/-! ### The order of keys -/

theorem strLt_trans {a b c : String} (first : strLt a b) (second : strLt b c) : strLt a c := List.lt_trans first second

theorem strLt_asymm {a b : String} (less : strLt a b) : ¬ strLt b a := List.lt_asymm less

/-- An object list: sorted by the bytes of the keys, and each key once. -/
def SortedByKey (objects : List ObjectMeta) : Prop := objects.Pairwise fun a b => strLt a.key b.key

instance (objects : List ObjectMeta) : Decidable (SortedByKey objects) :=
  inferInstanceAs (Decidable (objects.Pairwise _))

theorem SortedByKey.filter {objects : List ObjectMeta} (sorted : SortedByKey objects) (q : ObjectMeta → Bool) :
    SortedByKey (objects.filter q) := List.Pairwise.filter q sorted

/-- Behind an object of a sorted list stands what follows it. -/
theorem SortedByKey.behind {front back : List ObjectMeta} {o : ObjectMeta}
    (sorted : SortedByKey (front ++ o :: back)) : (front ++ o :: back).filter (is_behind (some o.key)) = back := by
  obtain ⟨_,tail,across⟩ := List.pairwise_append.mp sorted
  have after := (List.pairwise_cons.mp tail).1
  have none_before : front.filter (is_behind (some o.key)) = [] := by
    rw [List.filter_eq_nil_iff]
    intro a member
    have less := across a member o List.mem_cons_self
    simpa [is_behind] using strLt_asymm less
  have not_self : is_behind (some o.key) o = false := by
    simpa [is_behind] using fun less => strLt_asymm less less
  have all_after : back.filter (is_behind (some o.key)) = back := by
    rw [List.filter_eq_self]
    intro b member
    simpa [is_behind] using after b member
  rw [List.filter_append,none_before,List.nil_append,List.filter_cons_of_neg (by simp [not_self]),all_after]

/-- The objects behind the last one of a page are those the page left over. -/
theorem SortedByKey.behind_page {objects : List ObjectMeta} (sorted : SortedByKey objects) (start : Option String)
    {n : Nat} {o : ObjectMeta} (last : ((objects.filter (is_behind start)).take n).getLast? = some o) :
    objects.filter (is_behind (some o.key)) = (objects.filter (is_behind start)).drop n := by
  obtain ⟨front,page⟩ := List.getLast?_eq_some_iff.mp last
  have cut : objects.filter (is_behind start) = front ++ o :: (objects.filter (is_behind start)).drop n := by
    conv_lhs => rw [← List.take_append_drop n (objects.filter (is_behind start)),page]
    simp
  have behind_start : is_behind start o = true := by
    have member : o ∈ objects.filter (is_behind start) := by
      rw [cut]
      simp
    exact (List.mem_filter.mp member).2
  -- what is behind `o` is behind `start`
  have further : ∀ b : ObjectMeta, is_behind (some o.key) b = (is_behind start b && is_behind (some o.key) b) := by
    intro b
    cases start with
    | none => simp [is_behind]
    | some start =>
      simp only [is_behind,decide_eq_true_eq] at behind_start ⊢
      rw [Bool.eq_iff_iff,Bool.and_eq_true]
      simp only [decide_eq_true_eq]
      exact ⟨fun less => ⟨strLt_trans behind_start less,less⟩,And.right⟩
  have narrowed : objects.filter (is_behind (some o.key)) =
      (objects.filter (is_behind start)).filter (is_behind (some o.key)) := by
    rw [List.filter_filter]
    exact List.filter_congr fun b _ => by rw [further b,Bool.and_comm (is_behind start b)]; simp
  have behind := (cut ▸ sorted.filter (is_behind start)).behind
  rw [narrowed]
  rw [← cut] at behind
  exact behind

/-! ### Setting a parameter -/

namespace Params

theorem get_set_same (params : Params) (name : String) (value : Text) : (params.set name value).get name = some value := by
  simp [get,set]

theorem get_set_other (params : Params) {name other : String} (differ : name ≠ other) (value : Text) :
    (params.set name value).get other = params.get other := by
  have apart : name.toList ≠ other.toList := fun same => differ (String.toList_inj.mp same)
  simp only [get,set,List.reverse_append,List.reverse_cons,List.reverse_nil,List.nil_append,List.singleton_append]
  rw [List.find?_cons_of_neg (by simpa using apart),← List.filter_reverse,List.find?_filter]
  congr 2
  funext entry
  by_cases named : entry.1 = other.toList
  · simp [named,Ne.symm apart]
  · simp [named]

end Params

/-! ### The run of a client -/

section
variable {Answer : Type}

/-- A client of one of the two versions: what an answer shows, where a request starts, and how keys become tokens. -/
structure Pager.Lists (pager : Pager Answer) (objects : List ObjectMeta) (view : Answer → ListPage)
    (start : Params → Option String) (encode : String → Text) : Prop where
  answered : ∀ params n, parse_max_keys params = .ok n → ∃ a, pager.answer params = .ok a ∧
    view a = list_page objects (start params) n params.stem (params.get "delimiter") ∧
    pager.is_truncated a = (view a).is_truncated ∧ pager.next_token a = (view a).last_key.map encode
  followed : ∀ (params : Params) key, start (params.set pager.carrier (encode key)) = some key
  carrier : ∀ name ∈ ["prefix","delimiter","max-keys"], pager.carrier ≠ name

/-- The answers show these pieces of the objects, one after the other, and none more is to come. -/
structure Pager.Delivers (pager : Pager Answer) (view : Answer → ListPage) (stem : Text) (delimiter : Option Text)
    (pieces : List (List ObjectMeta)) (answers : List Answer) : Prop where
  shown : answers.map (fun a => ((view a).contents,(view a).common_prefixes)) =
    pieces.map fun piece => split_by_delimiter piece stem delimiter
  tokens : ∀ a ∈ answers, pager.is_truncated a = (pager.next_token a).isSome
  ended : answers.getLast?.map pager.is_truncated = some false

/-- The parameters a page depends on besides its start. -/
structure Asks (n : Nat) (stem : Text) (delimiter : Option Text) (params : Params) : Prop where
  limit : parse_max_keys params = .ok n
  stem : params.stem = stem
  delimiter : params.get "delimiter" = delimiter

variable {pager : Pager Answer} {objects : List ObjectMeta} {view : Answer → ListPage}
  {start : Params → Option String} {encode : String → Text} {n : Nat} {stem : Text} {delimiter : Option Text}

theorem Pager.Lists.asks_again (lists : pager.Lists objects view start encode) {params : Params}
    (asks : Asks n stem delimiter params) (token : Text) : Asks n stem delimiter (params.set pager.carrier token) where
  limit := by
    have kept := Params.get_set_other params (lists.carrier "max-keys" (by simp)) token
    rw [← asks.limit,parse_max_keys,kept,parse_max_keys]
  stem := by
    have kept := Params.get_set_other params (lists.carrier "prefix" (by simp)) token
    rw [← asks.stem,Params.stem,kept,Params.stem]
  delimiter := by
    rw [Params.get_set_other params (lists.carrier "delimiter" (by simp)),asks.delimiter]

/-- The answer to a request, and what it is of the objects behind its start. -/
theorem Pager.Lists.answer (lists : pager.Lists objects view start encode) {params : Params}
    (asks : Asks n stem delimiter params) {rest : List ObjectMeta}
    (behind : objects.filter (is_behind (start params)) = rest) : ∃ a, pager.answer params = .ok a ∧
      ((view a).contents,(view a).common_prefixes) = split_by_delimiter (rest.take n) stem delimiter ∧
      pager.is_truncated a = decide (n < rest.length) ∧
      pager.next_token a =
        if n < rest.length then ((rest.take n).getLast?.map ObjectMeta.key).map encode else none := by
  obtain ⟨a,answered,shows,truncated,token⟩ := lists.answered params n asks.limit
  rw [shows] at truncated token
  refine ⟨a,answered,?_,?_,?_⟩
  · rw [shows,list_page,behind,asks.stem,asks.delimiter]
  · rw [truncated,list_page,behind]
  · rw [token,list_page,behind]
    by_cases more : n < rest.length
    · simp [more]
    · simp [more]

/-- The run of a client, page by page. -/
theorem Pager.Lists.run (lists : pager.Lists objects view start encode) (sorted : SortedByKey objects)
    (positive : 0 < n) {params : Params} (asks : Asks n stem delimiter params) (before : List Answer) :
    ∃ answers, Loops.EndsWith pager.turn (params,before) (.ok (before ++ answers)) ∧
      pager.Delivers view stem delimiter (Chunking.pages n (objects.filter (is_behind (start params)))) answers := by
  generalize behind : objects.filter (is_behind (start params)) = rest
  induction rest using Chunking.pages_induction positive generalizing params before with
  | last rest short =>
    obtain ⟨a,answered,shows,truncated,token⟩ := lists.answer asks behind
    rw [decide_eq_false (by omega)] at truncated
    rw [if_neg (by omega)] at token
    have over_now : pager.turn (params,before) = .inr (.ok (before ++ [a])) := by
      simp [Pager.turn,answered,truncated]
    refine ⟨[a],Loops.ends_with_result over_now,?_⟩
    rw [Chunking.pages_short positive short]
    rw [List.take_of_length_le short] at shows
    exact ⟨by simp [shows],by simp [truncated,token],by simp [truncated]⟩
  | more rest long ih =>
    obtain ⟨a,answered,shows,truncated,token⟩ := lists.answer asks behind
    rw [decide_eq_true long] at truncated
    rw [if_pos long] at token
    have nonempty : rest.take n ≠ [] := by
      intro empty
      have lengths := congrArg List.length empty
      rw [List.length_take,List.length_nil] at lengths
      omega
    obtain ⟨o,last⟩ : ∃ o, (rest.take n).getLast? = some o := ⟨_,List.getLast?_eq_some_getLast nonempty⟩
    simp only [last,Option.map_some] at token
    have goes_on : pager.turn (params,before) = .inl (params.set pager.carrier (encode o.key),before ++ [a]) := by
      simp [Pager.turn,answered,truncated,token]
    have left_over : objects.filter (is_behind (start (params.set pager.carrier (encode o.key)))) = rest.drop n := by
      rw [lists.followed,sorted.behind_page (start params) (n := n) (by rw [behind]; exact last),behind]
    obtain ⟨answers,ended,delivers⟩ := ih (lists.asks_again asks _) (before ++ [a]) left_over
    refine ⟨a :: answers,?_,?_⟩
    · rw [Loops.ends_with_iff goes_on]
      simpa using ended
    · rw [Chunking.pages_cons positive long]
      have some_left : answers ≠ [] := by
        rintro rfl
        simpa using delivers.ended
      constructor
      · rw [List.map_cons,List.map_cons,shows,delivers.shown]
      · intro b member
        rcases List.mem_cons.mp member with rfl | later
        · rw [truncated,token]
          rfl
        · exact delivers.tokens b later
      · rw [List.getLast?_cons_of_ne_nil some_left]
        exact delivers.ended

end

/-! ### The two versions -/

def ListBucketResult.view (P : Primitives) (a : ListBucketResult) : ListPage :=
  { is_truncated := a.is_truncated, last_key := a.next_continuation_token.bind (decode_token P)
    contents := a.contents, common_prefixes := a.common_prefixes }

def ListBucketResultV1.view (a : ListBucketResultV1) : ListPage :=
  { is_truncated := a.is_truncated, last_key := a.next_marker.map String.ofList
    contents := a.contents, common_prefixes := a.common_prefixes }

/-- Base64 decodes what it encoded. -/
def Base64Decodes (P : Primitives) : Prop := ∀ data, P.b64_decode (P.b64_encode data) = some data

theorem decode_encode_token {P : Primitives} (decodes : Base64Decodes P) (key : String) :
    decode_token P (encode_token P key) = some key := by
  rw [decode_token,encode_token,String.ofList_toList,decodes,Option.bind_some,read_to_string_utf8]

theorem decode_last {P : Primitives} (decodes : Base64Decodes P) (last : Option String) :
    (last.map (encode_token P)).bind (decode_token P) = last := by
  cases last with
  | none => rfl
  | some key => exact decode_encode_token decodes key

theorem v2_lists {P : Primitives} (decodes : Base64Decodes P) (objects : List ObjectMeta) (bucket : String) :
    (pager_v2 P objects bucket).Lists objects (ListBucketResult.view P) (effective_start P) (encode_token P) where
  answered := by
    intro params n limit
    refine ⟨_,by rw [pager_v2]; simp only [list_objects_v2,limit]; rfl,?_,rfl,?_⟩
    · simp [ListBucketResult.view,decode_last decodes]
    · simp [ListBucketResult.view,pager_v2,decode_last decodes]
  followed := by
    intro params key
    rw [effective_start,show (pager_v2 P objects bucket).carrier = "continuation-token" from rfl,
      Params.get_set_same,Option.bind_some,decode_encode_token decodes]
    rfl
  carrier := by
    simp [pager_v2]

theorem v1_lists (objects : List ObjectMeta) (bucket : String) :
    (pager_v1 objects bucket).Lists objects ListBucketResultV1.view marker_start String.toList where
  answered := by
    intro params n limit
    refine ⟨_,by rw [pager_v1]; simp only [list_objects_v1,limit]; rfl,?_,rfl,?_⟩
    · simp [ListBucketResultV1.view,Function.comp_def]
    · simp [ListBucketResultV1.view,pager_v1,Function.comp_def]
  followed := by
    intro params key
    rw [marker_start,show (pager_v1 objects bucket).carrier = "marker" from rfl,Params.get_set_same]
    simp
  carrier := by
    simp [pager_v1]

/-! ### Without a delimiter -/

/-- The request asks for so many keys a page. -/
def WantsKeys (params : Params) (m : Int) : Prop := ((params.get "max-keys").elim (some 1000) parse_i64) = some m

instance (params : Params) (m : Int) : Decidable (WantsKeys params m) := inferInstanceAs (Decidable (_ = some m))

theorem WantsKeys.limit {params : Params} {m : Int} (wants : WantsKeys params m) (positive : 1 ≤ m) :
    parse_max_keys params = .ok (min m.toNat 1000) := by
  unfold WantsKeys at wants
  unfold parse_max_keys
  cases asked : params.get "max-keys" with
  | none =>
    rw [asked] at wants
    obtain rfl : 1000 = m := Option.some.inj wants
    rfl
  | some raw =>
    rw [asked] at wants
    simp only [show parse_i64 raw = some m from wants]
    rw [if_neg (by omega)]

section
variable {Answer : Type} {pager : Pager Answer} {view : Answer → ListPage} {stem : Text} {delimiter : Option Text}
  {n : Nat} {objects rest : List ObjectMeta} {answers : List Answer}

/-- The answers hold every one of these objects, once and in this order, and the last one says that it is the last. -/
structure Pager.Complete (pager : Pager Answer) (contents : Answer → List ObjectEntry) (limit : Nat)
    (objects : List ObjectMeta) (answers : List Answer) : Prop where
  every : answers.flatMap contents = objects.map object_entry
  few : ∀ a ∈ answers, (contents a).length ≤ limit
  ended : answers.getLast?.map pager.is_truncated = some false

/-- The objects that stand for themselves, over all pages. -/
theorem Pager.Delivers.contents (positive : 0 < n)
    (delivers : pager.Delivers view stem delimiter (Chunking.pages n rest) answers) :
    answers.flatMap (fun a => (view a).contents) =
      (rest.filter fun o => (grouped stem delimiter o).isNone).map object_entry := by
  have shown := congrArg (List.flatMap Prod.fst) delivers.shown
  rw [List.flatMap_map,List.flatMap_map] at shown
  rw [shown]
  conv_rhs => rw [← Chunking.flatten_pages positive rest]
  simp [split_by_delimiter,List.flatMap,List.filter_flatten,List.map_flatten,Function.comp_def]

/-- An answer is what `split_by_delimiter` makes of one of the pieces. -/
theorem Pager.Delivers.piece (delivers : pager.Delivers view stem delimiter (Chunking.pages n rest) answers) {a : Answer}
    (member : a ∈ answers) : ∃ piece ∈ Chunking.pages n rest,
      ((view a).contents,(view a).common_prefixes) = split_by_delimiter piece stem delimiter := by
  have shown : ((view a).contents,(view a).common_prefixes) ∈
      (Chunking.pages n rest).map fun piece => split_by_delimiter piece stem delimiter := by
    rw [← delivers.shown]
    exact List.mem_map_of_mem member
  obtain ⟨piece,inside,same⟩ := List.mem_map.mp shown
  exact ⟨piece,inside,same.symm⟩

/-- Objects and common prefixes of a page are no more than its objects were. -/
theorem split_length (page : List ObjectMeta) (stem : Text) (delimiter : Option Text) :
    (split_by_delimiter page stem delimiter).1.length + (split_by_delimiter page stem delimiter).2.length ≤
      page.length := by
  have distinct := (List.dedup_sublist (page.filterMap (grouped stem delimiter))).length_le
  have parts : (page.filter fun o => (grouped stem delimiter o).isNone).length +
      (page.filterMap (grouped stem delimiter)).length = page.length := by
    induction page with
    | nil => rfl
    | cons o page ih =>
      cases group : grouped stem delimiter o with
      | none =>
        rw [List.filter_cons_of_pos (by simp [group]),List.filterMap_cons_none group]
        simp only [List.length_cons]
        have := ih (List.dedup_sublist _).length_le
        omega
      | some g =>
        rw [List.filter_cons_of_neg (by simp [group]),List.filterMap_cons_some group]
        simp only [List.length_cons]
        have := ih (List.dedup_sublist _).length_le
        omega
  simp only [split_by_delimiter,List.length_map,List.length_insertionSort]
  omega

theorem Pager.Delivers.few (positive : 0 < n)
    (delivers : pager.Delivers view stem delimiter (Chunking.pages n rest) answers) {a : Answer} (member : a ∈ answers) :
    (view a).contents.length + (view a).common_prefixes.length ≤ n := by
  obtain ⟨piece,inside,same⟩ := delivers.piece member
  have short := Chunking.length_le_of_mem_pages positive inside
  have parts := split_length piece stem delimiter
  rw [← same] at parts
  simp only at parts
  omega

end

/-- Without a delimiter, following the tokens from any start ends and yields every object behind it once and in order,
no more than `max-keys` at a time; the two versions yield the same. -/
theorem pages_complete {P : Primitives} (decodes : Base64Decodes P) (bucket : String) {objects : List ObjectMeta}
    (sorted : SortedByKey objects) {m : Int} (positive : 1 ≤ m) {params params_v1 : Params}
    (wants : WantsKeys params m) (wants_v1 : WantsKeys params_v1 m) (plain : params.get "delimiter" = none)
    (plain_v1 : params_v1.get "delimiter" = none) {start : Option String} (starts : effective_start P params = start)
    (starts_v1 : marker_start params_v1 = start) :
    ∃ answers answers_v1,
      Loops.EndsWith (pager_v2 P objects bucket).turn (params,[]) (.ok answers) ∧
      Loops.EndsWith (pager_v1 objects bucket).turn (params_v1,[]) (.ok answers_v1) ∧
      (pager_v2 P objects bucket).Complete ListBucketResult.contents (min m.toNat 1000)
        (objects.filter (is_behind start)) answers ∧
      (pager_v1 objects bucket).Complete ListBucketResultV1.contents (min m.toNat 1000)
        (objects.filter (is_behind start)) answers_v1 ∧
      answers.map ListBucketResult.contents = answers_v1.map ListBucketResultV1.contents := by
  have some_a_page : 0 < min m.toNat 1000 := by omega
  have asks : Asks (min m.toNat 1000) params.stem none params := ⟨wants.limit positive,rfl,plain⟩
  have asks_v1 : Asks (min m.toNat 1000) params_v1.stem none params_v1 := ⟨wants_v1.limit positive,rfl,plain_v1⟩
  obtain ⟨answers,ended,delivers⟩ := (v2_lists decodes objects bucket).run sorted some_a_page asks []
  obtain ⟨answers_v1,ended_v1,delivers_v1⟩ := (v1_lists objects bucket).run sorted some_a_page asks_v1 []
  rw [starts] at delivers
  rw [starts_v1] at delivers_v1
  refine ⟨answers,answers_v1,by simpa using ended,by simpa using ended_v1,?_,?_,?_⟩
  · constructor
    · have contents := delivers.contents some_a_page
      simp only [grouped,Option.bind_none,Option.isNone_none,List.filter_true] at contents
      exact contents
    · intro a member
      have few := delivers.few some_a_page member
      exact le_trans (Nat.le_add_right _ _) few
    · exact delivers.ended
  · constructor
    · have contents := delivers_v1.contents some_a_page
      simp only [grouped,Option.bind_none,Option.isNone_none,List.filter_true] at contents
      exact contents
    · intro a member
      have few := delivers_v1.few some_a_page member
      exact le_trans (Nat.le_add_right _ _) few
    · exact delivers_v1.ended
  · have shown := congrArg (List.map Prod.fst) delivers.shown
    have shown_v1 := congrArg (List.map Prod.fst) delivers_v1.shown
    rw [List.map_map,List.map_map] at shown shown_v1
    refine shown.trans (Eq.trans ?_ shown_v1.symm)
    simp [split_by_delimiter,grouped,Function.comp_def]

namespace Sample

def listed : List ObjectMeta := ["a/1","a/2","b"].map indexed

def query (fields : List (String × String)) : Params := fields.map fun field => (field.1.toList,field.2.toList)

theorem base64_decodes : Base64Decodes primitives := primitives_sound.base64

theorem listed_sorted : SortedByKey listed := by decide +kernel

end Sample

theorem pages_of_two_complete :
    ∃ answers answers_v1,
      Loops.EndsWith (pager_v2 Sample.primitives Sample.listed "b1").turn
        (Sample.query [("list-type","2"),("max-keys","2"),("start-after","a/")],[]) (.ok answers) ∧
      Loops.EndsWith (pager_v1 Sample.listed "b1").turn (Sample.query [("max-keys","2"),("marker","a/")],[])
        (.ok answers_v1) ∧
      (pager_v2 Sample.primitives Sample.listed "b1").Complete ListBucketResult.contents (min (2 : Int).toNat 1000)
        (Sample.listed.filter (is_behind (some "a/"))) answers ∧
      (pager_v1 Sample.listed "b1").Complete ListBucketResultV1.contents (min (2 : Int).toNat 1000)
        (Sample.listed.filter (is_behind (some "a/"))) answers_v1 ∧
      answers.map ListBucketResult.contents = answers_v1.map ListBucketResultV1.contents :=
  pages_complete Sample.base64_decodes "b1" Sample.listed_sorted (by decide)
    (show WantsKeys _ 2 by decide +kernel) (show WantsKeys _ 2 by decide +kernel) (by decide +kernel)
    (by decide +kernel) (by decide +kernel) (by decide +kernel)

/-! ### With a delimiter -/

section
variable {Answer : Type} {pager : Pager Answer} {view : Answer → ListPage} {stem delim : Text} {n : Nat}
  {objects rest : List ObjectMeta} {answers : List Answer}

/-- Over all pages every common prefix is on one page and every other object reported once, no page is too long, and
the pages that say that there are more are those with a token. -/
structure Pager.Exact (pager : Pager Answer) (view : Answer → ListPage) (n : Nat) (stem delim : Text)
    (objects : List ObjectMeta) (answers : List Answer) : Prop where
  prefixes : ∀ g, (∃ o ∈ objects, common_prefix stem delim o.key = some g) →
    answers.countP (fun a => ⟨g⟩ ∈ (view a).common_prefixes) = 1
  objects : answers.flatMap (fun a => (view a).contents) =
    (objects.filter fun o => common_prefix stem delim o.key = none).map object_entry
  few : ∀ a ∈ answers, (view a).contents.length + (view a).common_prefixes.length ≤ n
  tokens : ∀ a ∈ answers, pager.is_truncated a = true ↔ (pager.next_token a).isSome = true

/-- The pages a client gets for a request are exact. -/
def Pager.PagesExact (pager : Pager Answer) (view : Answer → ListPage) (n : Nat) (stem delim : Text)
    (objects : List ObjectMeta) (params : Params) : Prop :=
  ∃ answers, Loops.EndsWith pager.turn (params,[]) (.ok answers) ∧ pager.Exact view n stem delim objects answers

/-- No group of objects is cut by the end of a page. -/
def GroupsUncut (n : Nat) (stem delim : Text) (objects : List ObjectMeta) : Prop :=
  ∀ i j x y g, objects[i]? = some x → objects[j]? = some y → common_prefix stem delim x.key = some g →
    common_prefix stem delim y.key = some g → i / n = j / n

/-- The common prefixes of a page. -/
theorem mem_common_prefixes (page : List ObjectMeta) (stem delim : Text) (g : String) :
    (⟨g⟩ : CommonPrefix) ∈ (split_by_delimiter page stem (some delim)).2 ↔
      ∃ o ∈ page, common_prefix stem delim o.key = some g := by
  simp [split_by_delimiter,grouped,List.mem_map,List.mem_insertionSort]

/-- On how many pages a common prefix is. -/
theorem Pager.Delivers.pages_with
    (delivers : pager.Delivers view stem (some delim) (Chunking.pages n rest) answers) (g : String) :
    answers.countP (fun a => ⟨g⟩ ∈ (view a).common_prefixes) =
      (Chunking.pages n rest).countP fun piece => piece.any fun o => common_prefix stem delim o.key = some g := by
  have shown := congrArg (List.countP fun cut => decide ((⟨g⟩ : CommonPrefix) ∈ cut.2)) delivers.shown
  rw [List.countP_map,List.countP_map] at shown
  refine shown.trans (List.countP_congr fun piece _ => ?_)
  simp only [Function.comp_def,decide_eq_true_eq,List.any_eq_true]
  exact mem_common_prefixes piece stem delim g

/-- The pages are exact when no group is cut. -/
theorem Pager.Delivers.exact_iff (positive : 0 < n)
    (delivers : pager.Delivers view stem (some delim) (Chunking.pages n rest) answers) :
    pager.Exact view n stem delim rest answers ↔ GroupsUncut n stem delim rest := by
  have apart := Chunking.pages_apart_iff positive (fun o => common_prefix stem delim o.key) rest
  unfold GroupsUncut
  rw [← apart]
  -- no two pages have `g`
  have once (g : String) : (Chunking.pages n rest).countP (fun piece =>
        piece.any fun o => common_prefix stem delim o.key = some g) ≤ 1 ↔
      (Chunking.pages n rest).Pairwise fun a b => ∀ x ∈ a, ∀ y ∈ b,
        common_prefix stem delim x.key = some g → common_prefix stem delim y.key ≠ some g := by
    rw [Chunking.countP_le_one_iff]
    refine iff_of_eq (congrArg (List.Pairwise · _) ?_)
    funext a b
    simp only [List.any_eq_true,decide_eq_true_eq,eq_iff_iff]
    grind
  constructor
  · intro exact
    rw [List.pairwise_iff_getElem]
    intro i j i_in j_in less x in_x y in_y g of_x
    have inside : x ∈ rest := by
      rw [← Chunking.flatten_pages positive rest]
      exact List.mem_flatten.mpr ⟨_,List.getElem_mem i_in,in_x⟩
    have counted := exact.prefixes g ⟨x,inside,of_x⟩
    rw [delivers.pages_with] at counted
    exact List.pairwise_iff_getElem.mp ((once g).mp counted.le) i j i_in j_in less x in_x y in_y of_x
  · intro apart
    constructor
    · rintro g ⟨o,member,group⟩
      have at_most : (Chunking.pages n rest).countP (fun piece =>
          piece.any fun o => common_prefix stem delim o.key = some g) ≤ 1 :=
        (once g).mpr (apart.imp fun cut x in_x y in_y => cut x in_x y in_y g)
      have at_least : 0 < (Chunking.pages n rest).countP fun piece =>
          piece.any fun o => common_prefix stem delim o.key = some g := by
        rw [← Chunking.flatten_pages positive rest] at member
        obtain ⟨piece,inside,there⟩ := List.mem_flatten.mp member
        rw [List.countP_pos_iff]
        exact ⟨piece,inside,by simpa using ⟨o,there,group⟩⟩
      rw [delivers.pages_with]
      omega
    · have contents := delivers.contents positive
      rw [contents]
      congr 1
      refine List.filter_congr fun o _ => ?_
      rw [grouped,Option.bind_some,Bool.eq_iff_iff,Option.isNone_iff_eq_none,decide_eq_true_eq]
    · exact fun a member => delivers.few positive member
    · intro a member
      rw [delivers.tokens a member]

variable {start : Params → Option String} {encode : String → Text} {params : Params}

/-- A page of no keys says that there are more when there are any, and has no token. -/
theorem Pager.Lists.exact_zero_iff (lists : pager.Lists objects view start encode)
    (asks : Asks 0 stem (some delim) params) :
    pager.PagesExact view 0 stem delim (objects.filter (is_behind (start params))) params ↔
      objects.filter (is_behind (start params)) = [] := by
  generalize behind : objects.filter (is_behind (start params)) = rest
  obtain ⟨a,answered,shows,truncated,token⟩ := lists.answer asks behind
  rw [List.take_zero] at shows token
  have nothing : (view a).contents = [] ∧ (view a).common_prefixes = [] := by
    simpa [split_by_delimiter] using shows
  have no_token : pager.next_token a = none := by
    rw [token]
    simp
  have ends : pager.turn (params,[]) = .inr (.ok [a]) := by
    simp [Pager.turn,answered,no_token]
  constructor
  · rintro ⟨answers,ended,exact⟩
    obtain rfl : answers = [a] := by simpa using (Loops.ends_with_now ends).mp ended
    have tokens := exact.tokens a List.mem_cons_self
    rw [truncated,no_token] at tokens
    simpa using tokens
  · rintro rfl
    refine ⟨[a],Loops.ends_with_result ends,?_,?_,?_,?_⟩
    · simp
    · simp [nothing.1]
    · simp [nothing.1,nothing.2]
    · intro b member
      obtain rfl := List.mem_singleton.mp member
      rw [truncated,no_token]
      simp

theorem Pager.Lists.exact_iff (lists : pager.Lists objects view start encode) (sorted : SortedByKey objects)
    (asks : Asks n stem (some delim) params) :
    pager.PagesExact view n stem delim (objects.filter (is_behind (start params))) params ↔
      (objects.filter (is_behind (start params)) = [] ∨ 0 < n) ∧
        GroupsUncut n stem delim (objects.filter (is_behind (start params))) := by
  rcases Nat.eq_zero_or_pos n with rfl | positive
  · rw [lists.exact_zero_iff asks]
    constructor
    · intro none
      exact ⟨.inl none,by simp [GroupsUncut,none]⟩
    · rintro ⟨none | absurd_limit,_⟩
      · exact none
      · omega
  · obtain ⟨answers,ended,delivers⟩ := lists.run sorted positive asks []
    rw [List.nil_append] at ended
    rw [← delivers.exact_iff positive]
    constructor
    · rintro ⟨others,other_end,exact⟩
      obtain rfl : others = answers := Except.ok.inj (other_end.unique ended)
      exact ⟨.inr positive,exact⟩
    · rintro ⟨_,exact⟩
      exact ⟨answers,ended,exact⟩

end

/-- With a delimiter the pages of either version are exact when `max-keys` lets some object through, or there is none,
and no page ends within a group of objects with one common prefix. -/
theorem pages_exact_iff {P : Primitives} (decodes : Base64Decodes P) (bucket : String) {objects : List ObjectMeta}
    (sorted : SortedByKey objects) {n : Nat} {stem delim : Text} {params params_v1 : Params}
    (asks : Asks n stem (some delim) params) (asks_v1 : Asks n stem (some delim) params_v1) {start : Option String}
    (starts : effective_start P params = start) (starts_v1 : marker_start params_v1 = start) :
    ((pager_v2 P objects bucket).PagesExact (ListBucketResult.view P) n stem delim (objects.filter (is_behind start))
        params ↔
      (objects.filter (is_behind start) = [] ∨ 0 < n) ∧ GroupsUncut n stem delim (objects.filter (is_behind start))) ∧
    ((pager_v1 objects bucket).PagesExact ListBucketResultV1.view n stem delim (objects.filter (is_behind start))
        params_v1 ↔
      (objects.filter (is_behind start) = [] ∨ 0 < n) ∧
        GroupsUncut n stem delim (objects.filter (is_behind start))) := by
  constructor
  · have exact := (v2_lists decodes objects bucket).exact_iff sorted asks
    rw [starts] at exact
    exact exact
  · have exact := (v1_lists objects bucket).exact_iff sorted asks_v1
    rw [starts_v1] at exact
    exact exact

theorem pages_of_two_exact :
    ((pager_v2 Sample.primitives Sample.listed "b1").PagesExact (ListBucketResult.view Sample.primitives) 2 [] ['/']
        (Sample.listed.filter (is_behind none)) (Sample.query [("delimiter","/"),("max-keys","2")]) ↔
      (Sample.listed.filter (is_behind none) = [] ∨ 0 < 2) ∧
        GroupsUncut 2 [] ['/'] (Sample.listed.filter (is_behind none))) ∧
    ((pager_v1 Sample.listed "b1").PagesExact ListBucketResultV1.view 2 [] ['/']
        (Sample.listed.filter (is_behind none)) (Sample.query [("delimiter","/"),("max-keys","2")]) ↔
      (Sample.listed.filter (is_behind none) = [] ∨ 0 < 2) ∧
        GroupsUncut 2 [] ['/'] (Sample.listed.filter (is_behind none))) :=
  pages_exact_iff Sample.base64_decodes "b1" Sample.listed_sorted
    ⟨by decide +kernel,by decide +kernel,by decide +kernel⟩ ⟨by decide +kernel,by decide +kernel,by decide +kernel⟩
    (by decide +kernel) (by decide +kernel)

/-- With one key a page, the common prefix of two objects is on two pages; with none, a page announces more without a
token. -/
theorem common_prefix_on_two_pages :
    ¬ (pager_v2 Sample.primitives Sample.listed "b1").PagesExact (ListBucketResult.view Sample.primitives) 1 [] ['/']
        (Sample.listed.filter (is_behind none)) (Sample.query [("delimiter","/"),("max-keys","1")]) ∧
    ¬ (pager_v1 Sample.listed "b1").PagesExact ListBucketResultV1.view 1 [] ['/']
        (Sample.listed.filter (is_behind none)) (Sample.query [("delimiter","/"),("max-keys","1")]) ∧
    ¬ (pager_v2 Sample.primitives Sample.listed "b1").PagesExact (ListBucketResult.view Sample.primitives) 0 [] ['/']
        (Sample.listed.filter (is_behind none)) (Sample.query [("delimiter","/"),("max-keys","0")]) := by
  have cut : ¬ GroupsUncut 1 [] ['/'] (Sample.listed.filter (is_behind none)) := by
    intro uncut
    have same := uncut 0 1 (Sample.indexed "a/1") (Sample.indexed "a/2") "a/" (by decide +kernel) (by decide +kernel)
      (by decide +kernel) (by decide +kernel)
    simp at same
  have v2 := v2_lists Sample.base64_decodes Sample.listed "b1"
  refine ⟨fun exact => ?_,fun exact => ?_,fun exact => ?_⟩
  · refine cut ((v2.exact_iff Sample.listed_sorted ?_).mp exact).2
    exact ⟨by decide +kernel,by decide +kernel,by decide +kernel⟩
  · refine cut (((v1_lists Sample.listed "b1").exact_iff Sample.listed_sorted ?_).mp exact).2
    exact ⟨by decide +kernel,by decide +kernel,by decide +kernel⟩
  · have nothing := (v2.exact_zero_iff ⟨by decide +kernel,by decide +kernel,by decide +kernel⟩).mp exact
    have some_listed : Sample.listed.filter (is_behind none) ≠ [] := by decide +kernel
    exact some_listed nothing

end Maxio
