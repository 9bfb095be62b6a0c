import Mathlib

/-!
JSON values whose objects list their members in some order, and the form of a value in which every object is sorted by
name. Two values have one sorted form just where the same is found along every path.
-/

namespace Maxio.JsonValues

/-- A value over the numbers `N`. -/
inductive Value (N : Type) where
  | null
  | bool (b : Bool)
  | number (n : N)
  | string (s : String)
  | array (items : List (Value N))
  | object (members : List (String × Value N))

variable {N : Type}

namespace Value

/-! ### Sorted by name -/

/-- The order of members by their names. -/
def before (a b : String × Value N) : Prop := a.1 ≤ b.1

instance : DecidableRel (before (N := N)) := fun a b => inferInstanceAs (Decidable (a.1 ≤ b.1))

instance : Std.Total (before (N := N)) := ⟨fun a b => le_total a.1 b.1⟩

instance : IsTrans (String × Value N) before := ⟨fun _ _ _ first second => le_trans (α := String) first second⟩

mutual

/-- Sort the members of every object by name. -/
def canonical : Value N → Value N
  | .object members => .object ((canonical_members members).insertionSort before)
  | .array items => .array (canonical_items items)
  | .null => .null
  | .bool b => .bool b
  | .number n => .number n
  | .string s => .string s

def canonical_items : List (Value N) → List (Value N)
  | [] => []
  | v :: rest => canonical v :: canonical_items rest

def canonical_members : List (String × Value N) → List (String × Value N)
  | [] => []
  | (name,v) :: rest => (name,canonical v) :: canonical_members rest

end

theorem canonical_items_eq (items : List (Value N)) : canonical_items items = items.map canonical := by
  induction items with
  | nil => rw [canonical_items,List.map_nil]
  | cons v rest ih => rw [canonical_items,List.map_cons,ih]

theorem canonical_members_eq (members : List (String × Value N)) :
    canonical_members members = members.map fun member => (member.1,canonical member.2) := by
  induction members with
  | nil => rw [canonical_members,List.map_nil]
  | cons member rest ih => rw [canonical_members,List.map_cons,ih]

/-! ### Paths -/

/-- One step from a value to a part of it. -/
inductive Step where
  | name (name : String)
  | index (i : Nat)

/-- What a value is, its parts aside. -/
inductive Leaf (N : Type) where
  | null
  | bool (b : Bool)
  | number (n : N)
  | string (s : String)
  | array (length : Nat)
  | object

def leaf : Value N → Leaf N
  | .null => .null
  | .bool b => .bool b
  | .number n => .number n
  | .string s => .string s
  | .array items => .array items.length
  | .object _ => .object

def child : Value N → Step → Option (Value N)
  | .object members,.name name => members.lookup name
  | .array items,.index i => items[i]?
  | _,_ => none

/-- What is found along a path. -/
def find : Value N → List Step → Option (Leaf N)
  | v,[] => some v.leaf
  | v,step :: rest => (v.child step).bind fun part => find part rest

/-! ### Names that occur once -/

mutual

/-- No object has two members of one name. -/
def Distinct : Value N → Prop
  | .object members => (members.map Prod.fst).Nodup ∧ DistinctMembers members
  | .array items => DistinctItems items
  | _ => True

def DistinctItems : List (Value N) → Prop
  | [] => True
  | v :: rest => Distinct v ∧ DistinctItems rest

def DistinctMembers : List (String × Value N) → Prop
  | [] => True
  | (_,v) :: rest => Distinct v ∧ DistinctMembers rest

end

theorem distinctItems_iff (items : List (Value N)) : DistinctItems items ↔ ∀ v ∈ items, v.Distinct := by
  induction items with
  | nil => simp [DistinctItems]
  | cons v rest ih => rw [DistinctItems,List.forall_mem_cons,ih]

theorem distinctMembers_iff (members : List (String × Value N)) :
    DistinctMembers members ↔ ∀ member ∈ members, member.2.Distinct := by
  induction members with
  | nil => simp [DistinctMembers]
  | cons member rest ih => rw [DistinctMembers,List.forall_mem_cons,ih]

/-! ### Members by name -/

section
variable {V : Type} {l l' : List (String × V)}

theorem lookup_some_iff (distinct : (l.map Prod.fst).Nodup) {name : String} {v : V} :
    l.lookup name = some v ↔ (name,v) ∈ l := by
  induction l with
  | nil => simp
  | cons member rest ih =>
    obtain ⟨own,w⟩ := member
    obtain ⟨new,later⟩ := List.nodup_cons.mp distinct
    rw [List.lookup_cons,List.mem_cons]
    by_cases same : name = own
    · subst same
      have outside : (name,v) ∉ rest := fun member => new (List.mem_map.mpr ⟨_,member,rfl⟩)
      simp [outside,eq_comm]
    · have differ : (name == own) = false := by simpa using same
      simp [differ,same,ih later]

theorem mem_of_lookup {name : String} {v : V} (found : l.lookup name = some v) : (name,v) ∈ l := by
  obtain ⟨front,back,rfl,-⟩ := List.lookup_eq_some_iff.mp found
  simp

theorem lookup_perm (distinct : (l.map Prod.fst).Nodup) (same : l.Perm l') (name : String) :
    l'.lookup name = l.lookup name := by
  apply Option.ext
  intro v
  rw [lookup_some_iff distinct,lookup_some_iff ((same.map Prod.fst).nodup_iff.mp distinct)]
  exact same.mem_iff.symm

theorem lookup_map {W : Type} (f : V → W) (name : String) :
    (l.map fun member => (member.1,f member.2)).lookup name = (l.lookup name).map f := by
  induction l with
  | nil => rfl
  | cons member rest ih =>
    rw [List.map_cons,List.lookup_cons,List.lookup_cons,ih]
    by_cases same : name == member.1 <;> simp [same]

/-- Members in order of their names are known from what is found under each name. -/
theorem eq_of_lookup (sorted : l.Pairwise fun a b => a.1 < b.1) (sorted' : l'.Pairwise fun a b => a.1 < b.1)
    (same : ∀ name, l.lookup name = l'.lookup name) : l = l' := by
  have nodup {l : List (String × V)} (sorted : l.Pairwise fun a b => a.1 < b.1) : (l.map Prod.fst).Nodup :=
    List.pairwise_map.mpr (sorted.imp fun less => ne_of_lt less)
  have antisymm (a b : String × V) (_ : a ∈ l) (_ : b ∈ l') (ab : a.1 < b.1) (ba : b.1 < a.1) : a = b :=
    absurd ab (lt_asymm ba)
  apply List.Perm.eq_of_pairwise antisymm sorted sorted'
  refine (List.perm_ext_iff_of_nodup (nodup sorted).of_map (nodup sorted').of_map).mpr fun member => ?_
  rw [← lookup_some_iff (nodup sorted),← lookup_some_iff (nodup sorted'),same]

end

/-! ### The sorted form -/

theorem canonical_object (members : List (String × Value N)) : canonical (.object members) =
    .object ((members.map fun member => (member.1,canonical member.2)).insertionSort before) := by
  rw [canonical,canonical_members_eq]

theorem canonical_array (items : List (Value N)) : canonical (.array items) = .array (items.map canonical) := by
  rw [canonical,canonical_items_eq]

theorem names_kept (members : List (String × Value N)) :
    (members.map fun member => (member.1,canonical member.2)).map Prod.fst = members.map Prod.fst := by
  rw [List.map_map]
  rfl

theorem child_canonical {v : Value N} (distinct : v.Distinct) (step : Step) :
    v.canonical.child step = (v.child step).map canonical := by
  cases v with
  | object members =>
    rw [canonical_object]
    cases step with
    | index i => rfl
    | name name =>
      rw [Distinct] at distinct
      have names := distinct.1
      rw [← names_kept] at names
      change List.lookup name _ = (members.lookup name).map canonical
      rw [lookup_perm names (List.perm_insertionSort before _).symm,lookup_map]
  | array items =>
    rw [canonical_array]
    cases step with
    | name name => rfl
    | index i => exact List.getElem?_map
  | null => cases step <;> simp [canonical,child]
  | bool b => cases step <;> simp [canonical,child]
  | number n => cases step <;> simp [canonical,child]
  | string s => cases step <;> simp [canonical,child]

theorem leaf_canonical (v : Value N) : v.canonical.leaf = v.leaf := by
  cases v <;> simp [canonical,canonical_items_eq,leaf]

/-- A step leads to a part. -/
theorem child_part {v part : Value N} {step : Step} (found : v.child step = some part) :
    (∃ items, v = .array items ∧ part ∈ items) ∨ ∃ members name, v = .object members ∧ (name,part) ∈ members := by
  cases v with
  | array items =>
    cases step with
    | name name => cases found
    | index i => exact .inl ⟨items,rfl,List.mem_of_getElem? found⟩
  | object members =>
    cases step with
    | name name => exact .inr ⟨members,name,rfl,mem_of_lookup found⟩
    | index i => cases found
  | null => cases step <;> cases found
  | bool b => cases step <;> cases found
  | number n => cases step <;> cases found
  | string s => cases step <;> cases found

theorem child_distinct {v part : Value N} {step : Step} (distinct : v.Distinct) (found : v.child step = some part) :
    part.Distinct := by
  obtain ⟨items,rfl,member⟩ | ⟨members,name,rfl,member⟩ := child_part found
  · rw [Distinct,distinctItems_iff] at distinct
    exact distinct part member
  · rw [Distinct,distinctMembers_iff] at distinct
    exact distinct.2 _ member

theorem child_small {v part : Value N} {step : Step} (found : v.child step = some part) : sizeOf part < sizeOf v := by
  obtain ⟨items,rfl,member⟩ | ⟨members,name,rfl,member⟩ := child_part found
  · have := List.sizeOf_lt_of_mem member
    simp only [array.sizeOf_spec]
    omega
  · have := List.sizeOf_lt_of_mem member
    simp only [object.sizeOf_spec,Prod.mk.sizeOf_spec] at this ⊢
    omega

/-- The sorted form is the same JSON value. -/
theorem find_canonical {v : Value N} (distinct : v.Distinct) (path : List Step) : v.canonical.find path = v.find path := by
  induction path generalizing v with
  | nil => rw [find,find,leaf_canonical]
  | cons step rest ih =>
    rw [find,find,child_canonical distinct]
    cases found : v.child step with
    | none => rfl
    | some part => exact ih (child_distinct distinct found)

/-- Found alike along every path. -/
def Alike (v w : Value N) : Prop := ∀ path, v.find path = w.find path

theorem Alike.leaf {v w : Value N} (alike : Alike v w) : v.leaf = w.leaf := Option.some.inj (alike [])

/-- Alike values have alike parts under the same steps. -/
theorem Alike.child {v w : Value N} (alike : Alike v w) (step : Step) :
    v.child step = none ∧ w.child step = none ∨
      ∃ part part', v.child step = some part ∧ w.child step = some part' ∧ Alike part part' := by
  have here := alike [step]
  rw [find,find] at here
  cases found : v.child step with
  | none =>
    cases found' : w.child step with
    | none => exact .inl ⟨rfl,rfl⟩
    | some part' => simp [found,found',find] at here
  | some part =>
    cases found' : w.child step with
    | none => simp [found,found',find] at here
    | some part' =>
      refine .inr ⟨part,part',rfl,rfl,fun path => ?_⟩
      have further := alike (step :: path)
      rwa [find,find,found,found'] at further

theorem canonical_sorted {members : List (String × Value N)} (distinct : (members.map Prod.fst).Nodup) :
    ((members.map fun member => (member.1,canonical member.2)).insertionSort before).Pairwise fun a b => a.1 < b.1 := by
  have sorted := List.pairwise_insertionSort before (members.map fun member => (member.1,canonical member.2))
  have names : (((members.map fun member => (member.1,canonical member.2)).insertionSort before).map Prod.fst).Nodup := by
    rw [((List.perm_insertionSort before _).map Prod.fst).nodup_iff,names_kept]
    exact distinct
  have apart := List.pairwise_map.mp names
  exact (sorted.and apart).imp fun both => lt_of_le_of_ne both.1 both.2

/-- Alike values have one sorted form. -/
theorem canonical_eq_of_alike {v w : Value N} (distinct : v.Distinct) (distinct' : w.Distinct) (alike : Alike v w) :
    v.canonical = w.canonical := by
  induction size : sizeOf v using Nat.strong_induction_on generalizing v w with
  | _ size ih =>
    subst size
    have parts (step : Step) : (v.child step).map canonical = (w.child step).map canonical := by
      obtain ⟨none,none'⟩ | ⟨part,part',found,found',same⟩ := alike.child step
      · rw [none,none']
      · rw [found,found',Option.map_some,Option.map_some,
          ih _ (child_small found) (child_distinct distinct found) (child_distinct distinct' found') same rfl]
    have kind := alike.leaf
    cases v with
    | object members =>
      cases w with
      | object members' =>
        rw [canonical_object,canonical_object]
        congr 1
        rw [Distinct] at distinct distinct'
        apply eq_of_lookup (canonical_sorted distinct.1) (canonical_sorted distinct'.1)
        intro name
        have names := distinct.1
        have names' := distinct'.1
        rw [← names_kept] at names names'
        rw [lookup_perm names (List.perm_insertionSort before _).symm,
          lookup_perm names' (List.perm_insertionSort before _).symm,lookup_map,lookup_map]
        exact parts (.name name)
      | _ => cases kind
    | array items =>
      cases w with
      | array items' =>
        rw [canonical_array,canonical_array]
        congr 1
        apply List.ext_getElem?
        intro i
        rw [List.getElem?_map,List.getElem?_map]
        exact parts (.index i)
      | _ => cases kind
    | null => cases w <;> cases kind; rfl
    | bool b => cases w <;> cases kind; rfl
    | number n => cases w <;> cases kind; rfl
    | string s => cases w <;> cases kind; rfl

/-- One sorted form means one JSON value, whatever the order of the members was. -/
theorem canonical_eq_iff {v w : Value N} (distinct : v.Distinct) (distinct' : w.Distinct) :
    v.canonical = w.canonical ↔ Alike v w := by
  constructor
  · intro same path
    rw [← find_canonical distinct,same,find_canonical distinct']
  · exact canonical_eq_of_alike distinct distinct'

theorem canonical_distinct {v : Value N} (distinct : v.Distinct) : v.canonical.Distinct := by
  induction size : sizeOf v using Nat.strong_induction_on generalizing v with
  | _ size ih =>
    subst size
    cases v with
    | object members =>
      rw [Distinct,distinctMembers_iff] at distinct
      rw [canonical_object,Distinct,distinctMembers_iff,((List.perm_insertionSort before _).map Prod.fst).nodup_iff,names_kept]
      refine ⟨distinct.1,fun member listed => ?_⟩
      obtain ⟨own,original,rfl⟩ := List.mem_map.mp ((List.perm_insertionSort before _).mem_iff.mp listed)
      have small := List.sizeOf_lt_of_mem original
      have part : sizeOf own.2 < sizeOf own := by cases own; simp
      refine ih _ ?_ (distinct.2 own original) rfl
      rw [object.sizeOf_spec]
      omega
    | array items =>
      rw [Distinct,distinctItems_iff] at distinct
      rw [canonical_array,Distinct,distinctItems_iff]
      intro part listed
      obtain ⟨own,original,rfl⟩ := List.mem_map.mp listed
      have small := List.sizeOf_lt_of_mem original
      refine ih _ ?_ (distinct own original) rfl
      rw [array.sizeOf_spec]
      omega
    | null => simp [canonical,Distinct]
    | bool b => simp [canonical,Distinct]
    | number n => simp [canonical,Distinct]
    | string s => simp [canonical,Distinct]

/-- Sorting once is enough. -/
theorem canonical_idempotent {v : Value N} (distinct : v.Distinct) : v.canonical.canonical = v.canonical :=
  canonical_eq_of_alike (canonical_distinct distinct) distinct fun path => find_canonical distinct path

end Value
end Maxio.JsonValues
