import Mathlib.Data.List.Infix

/-!
Patterns of wildcards over any alphabet. Characters of pattern and text are compared by a relation, so that the same
definitions serve patterns which tell upper and lower case apart and patterns which do not.
-/

namespace Wildcards
variable {α : Type}

/-- An item of a pattern: any text, any one character, or a character of its own. -/
inductive Item (α : Type) where
  | many
  | single
  | char (c : α)
deriving DecidableEq, Repr

/-- The text can be split so that every item stands for its part of it. -/
def Matches (same : α → α → Prop) : List (Item α) → List α → Prop
  | [],text => text = []
  | .many :: items,text => ∃ front back, text = front ++ back ∧ Matches same items back
  | .single :: items,text => ∃ c rest, text = c :: rest ∧ Matches same items rest
  | .char c :: items,text => ∃ d rest, text = d :: rest ∧ same c d ∧ Matches same items rest

/-- The same by search. -/
def accepts (same : α → α → Prop) [DecidableRel same] : List (Item α) → List α → Bool
  | [],text => text.isEmpty
  | .many :: items,text => text.tails.any fun back => accepts same items back
  | .single :: items,text => match text with
    | [] => false
    | _ :: rest => accepts same items rest
  | .char c :: items,text => match text with
    | [] => false
    | d :: rest => decide (same c d) && accepts same items rest

variable {same : α → α → Prop}

theorem accepts_iff [DecidableRel same] (items : List (Item α)) (text : List α) :
    accepts same items text = true ↔ Matches same items text := by
  induction items generalizing text with
  | nil => simp [accepts,Matches]
  | cons item items ih =>
    cases item with
    | many =>
      simp only [accepts,Matches,List.any_eq_true,List.mem_tails,ih]
      constructor
      · rintro ⟨back,⟨front,split⟩,tail⟩
        exact ⟨front,back,split.symm,tail⟩
      · rintro ⟨front,back,split,tail⟩
        exact ⟨back,⟨front,split.symm⟩,tail⟩
    | single => cases text <;> simp [accepts,Matches,ih]
    | char c => cases text <;> simp [accepts,Matches,ih]

instance [DecidableRel same] (items : List (Item α)) (text : List α) : Decidable (Matches same items text) :=
  decidable_of_iff _ (accepts_iff items text)

/-- A pattern that ends in any text, without wildcards before, asks for a start of the text. -/
theorem matches_start (chars text : List α) :
    Matches same (chars.map Item.char ++ [.many]) text ↔ List.Forall₂ same chars (text.take chars.length) := by
  induction chars generalizing text with
  | nil => simp [Matches]
  | cons c chars ih =>
    cases text with
    | nil =>
      simp only [List.map_cons,List.cons_append,Matches,List.take_nil]
      constructor
      · rintro ⟨d,rest,split,_⟩
        simp at split
      · intro none
        cases none
    | cons d rest => simp [Matches,ih]

/-- A pattern without the item for any text matches only texts of its own length. -/
theorem matches_length {items : List (Item α)} {text : List α} (plain : Item.many ∉ items)
    (found : Matches same items text) : text.length = items.length := by
  induction items generalizing text with
  | nil => simp_all [Matches]
  | cons item items ih =>
    simp only [List.mem_cons,not_or] at plain
    cases item with
    | many => exact absurd rfl plain.1
    | single =>
      obtain ⟨c,rest,rfl,tail⟩ := found
      simp [ih plain.2 tail]
    | char c =>
      obtain ⟨d,rest,rfl,_,tail⟩ := found
      simp [ih plain.2 tail]

end Wildcards
