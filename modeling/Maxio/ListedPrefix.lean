import Maxio.Escapes
import Maxio.ListObjects
import Maxio.PolicySpec

/-!
The prefix a listing is judged by and the prefix that is listed, both taken from one query.
-/

namespace Maxio

/-! ### The two choices -/

/-- The value, as it is written, of the first piece that is spelled `prefix=` in any case. -/
def first_spelled (query : Text) : Option Text :=
  (splitChars '&' query).findSome? fun piece => (Text.split_once '=' piece).bind fun cut =>
    if Text.eq_ignore_ascii_case cut.1 "prefix".toList then some cut.2 else none

/-- The value, as it is written, of the last piece whose decoded name is `prefix`. -/
def last_named (query : Text) : Option Text :=
  ((splitChars '&' query).reverse.find? fun piece => form_decode (raw_pair piece).1 = "prefix".toList).map fun piece =>
    (raw_pair piece).2

/-- Both values are missing or empty, or one value without a plus sign, or two that decode to one text. -/
def SaysOnePrefix (query : Text) : Prop := match first_spelled query,last_named query with
  | none,none => True
  | some judged,none => judged = []
  | none,some listed => listed = []
  | some judged,some listed => if judged = listed then '+' ∉ judged else decode_utf8_lossy judged = form_decode listed

/-! ### What each side reads -/

theorem findSome?_map {α β γ : Type} (f : α → Option β) (g : β → γ) (items : List α) :
    items.findSome? (fun a => (f a).map g) = (items.findSome? f).map g := by
  induction items with
  | nil => rfl
  | cons a rest ih =>
    rw [List.findSome?_cons,List.findSome?_cons]
    cases f a with
    | none => exact ih
    | some b => rfl

theorem list_prefix_of_eq (query : Text) :
    list_prefix_of query = ((first_spelled query).map decode_utf8_lossy).filter fun start => start ≠ [] := by
  have pieces (piece : Text) : ((Text.split_once '=' piece).bind fun cut =>
      if Text.eq_ignore_ascii_case cut.1 "prefix".toList then some (decode_utf8_lossy cut.2) else none) =
      ((Text.split_once '=' piece).bind fun cut =>
        if Text.eq_ignore_ascii_case cut.1 "prefix".toList then some cut.2 else none).map decode_utf8_lossy := by
    cases Text.split_once '=' piece with
    | none => rfl
    | some cut =>
      simp only [Option.bind_some]
      split
      · rfl
      · rfl
  unfold list_prefix_of first_spelled
  rw [← findSome?_map]
  simp only [pieces]

/-- An empty prefix counts as none. -/
theorem judged_prefix (query : Text) :
    (list_prefix_of query).getD [] = decode_utf8_lossy ((first_spelled query).getD []) := by
  rw [list_prefix_of_eq]
  cases first_spelled query with
  | none => exact (decode_utf8_lossy_eq_nil.mpr rfl).symm
  | some value =>
    by_cases empty : decode_utf8_lossy value = []
    · simp [Option.filter,empty]
    · simp [Option.filter,empty]

theorem find?_filter_of_imp {α : Type} (p q : α → Bool) (within : ∀ a, q a = true → p a = true) (items : List α) :
    (items.filter p).find? q = items.find? q := by
  induction items with
  | nil => rfl
  | cons a rest ih =>
    by_cases kept : p a = true
    · rw [List.filter_cons_of_pos kept,List.find?_cons,List.find?_cons,ih]
    · have other : q a = false := by
        by_contra found
        exact kept (within a (by simpa using found))
      rw [List.filter_cons_of_neg kept,List.find?_cons,other,ih]

theorem listed_prefix (query : Text) :
    (parse_query query).stem = form_decode ((last_named query).getD []) := by
  have named : (fun entry : Text × Text => decide (entry.1 = "prefix".toList)) ∘ form_pair =
      fun piece => decide (form_decode (raw_pair piece).1 = "prefix".toList) := by
    funext piece
    rw [Function.comp_apply,form_pair_eq]
  have nonempty : ∀ piece : Text, decide (form_decode (raw_pair piece).1 = "prefix".toList) = true →
      decide (piece ≠ []) = true := by
    intro piece found
    rw [decide_eq_true_eq] at found ⊢
    rintro rfl
    rw [raw_pair_nil,form_decode_eq_nil.mpr rfl] at found
    exact absurd found (by decide)
  rw [Params.stem,Params.get,parse_query,last_named,← List.map_reverse,List.find?_map,named,← List.filter_reverse,
    find?_filter_of_imp _ _ nonempty]
  cases (splitChars '&' query).reverse.find? fun piece => form_decode (raw_pair piece).1 = "prefix".toList with
  | none => exact (form_decode_eq_nil.mpr rfl).symm
  | some piece =>
    simp only [Option.map_some,Option.getD_some]
    rw [form_pair_eq]

/-! ### Agreement -/

/-- A query lists the prefix it was judged by exactly when its pieces say one prefix. -/
theorem one_prefix_iff (query : Text) :
    (list_prefix_of query).getD [] = (parse_query query).stem ↔ SaysOnePrefix query := by
  rw [ judged_prefix, listed_prefix,SaysOnePrefix]
  have empty : decode_utf8_lossy [] = [] := decode_utf8_lossy_eq_nil.mpr rfl
  have empty' : form_decode [] = [] := form_decode_eq_nil.mpr rfl
  cases first_spelled query with
  | none =>
    cases last_named query with
    | none => simp [empty,empty']
    | some listed =>
      rw [Option.getD_none,Option.getD_some,empty,eq_comm,form_decode_eq_nil]
  | some judged =>
    cases last_named query with
    | none => rw [Option.getD_none,Option.getD_some,empty',decode_utf8_lossy_eq_nil]
    | some listed =>
      rw [Option.getD_some,Option.getD_some]
      by_cases same : judged = listed
      · simp only
        rw [if_pos same,same,eq_comm,form_decode_eq_iff]
      · simp only
        rw [if_neg same]

/-- The prefix handed to the policy is the prefix handed to the listing exactly when the pieces say one prefix. -/
theorem judged_is_listed_iff {server_host path query : Text} {method : Method} {host signature_path : Option Text}
    {target : BucketPolicyTarget}
    (resolved : resolve_policy_target_from_parts server_host method path query host signature_path = some target) :
    target.list_prefix.getD [] = (parse_query query).stem ↔ SaysOnePrefix query := by
  have taken : target.list_prefix = list_prefix_of query := by
    unfold resolve_policy_target_from_parts at resolved
    split at resolved
    next => cases resolved
    next =>
      obtain ⟨parts,_,found⟩ := Option.bind_eq_some_iff.mp resolved
      obtain ⟨action,_,rfl⟩ := Option.map_eq_some_iff.mp found
      rfl
  rw [taken]
  exact one_prefix_iff query

namespace Sample

/-- A policy that lets everyone list `logs` under `public/`. -/
def listing_text : String :=
  "\x7b\"Statement\":[\x7b\"Effect\":\"Allow\",\"Principal\":\"*\",\"Action\":\"s3:ListBucket\"," ++
  "\"Resource\":\"arn:aws:s3:::logs\",\"Condition\":\x7b\"StringEquals\":\x7b\"s3:prefix\":\"public/\"\x7d\x7d\x7d]\x7d"

def public_prefix : Json := .object [("StringEquals",.object [("s3:prefix",.string "public/")])]

def listing_json : Json := .object [("Statement",.array [.object [("Effect",.string "Allow"),("Principal",.string "*"),
  ("Action",.string "s3:ListBucket"),("Resource",.string "arn:aws:s3:::logs"),("Condition", public_prefix)]])]

def listing_from_str (raw : String) : Except String Json :=
  if raw = listing_text then .ok listing_json else .error "expected value at line 1 column 1"

/-- What the policy says about a listing under one prefix. -/
def listing_decision ( list_prefix : Option Text) : Option (Except String PolicyDecision) :=
  evaluate_policy_v2 listing_from_str listing_text ⟨"s3:ListBucket","logs",none, list_prefix.map String.ofList⟩
    ⟨none,some "203.0.113.10",[],[]⟩

end Sample

theorem one_prefix_listed :
    (some "public/".toList).getD [] = (parse_query "list-type=2&prefix=public/".toList).stem ↔
      SaysOnePrefix "list-type=2&prefix=public/".toList :=
  have resolved : resolve_policy_target_from_parts "maxio.test".toList .GET "/logs".toList
      "list-type=2&prefix=public/".toList none none =
        some ⟨"logs".toList,none,"s3:ListBucket",some "public/".toList⟩ := by decide +kernel
  judged_is_listed_iff resolved

/-- The first of two prefixes is judged and the last is listed. -/
theorem other_prefix_listed :
    list_prefix_of "prefix=public/&prefix=secret/".toList = some "public/".toList ∧
    (parse_query "prefix=public/&prefix=secret/".toList).stem = "secret/".toList ∧
    Sample.listing_decision (list_prefix_of "prefix=public/&prefix=secret/".toList) = some (.ok .Allow) ∧
    Sample.listing_decision (some "secret/".toList) = some (.ok .ImplicitDeny) := by
  decide +kernel

end Maxio
