import Maxio.Wildcards
import Maxio.Policy

/-!
What `glob_match` decides. The loop compares characters before it looks for a star, so a star of the pattern that
meets a star of the value is used up by it.
-/

namespace Maxio

/-- A character of a policy pattern as wildcard item. -/
def glob_item (c : Char) : Wildcards.Item Char := if c = '*' then .many else if c = '?' then .single else .char c

/-- Wildcard matching as policies mean it. -/
def GlobMatches (pattern value : Text) : Prop := Wildcards.Matches (· = ·) (pattern.map glob_item) value

/-- A match in which every star of the pattern that meets a star of the value stands for just that star. -/
def GlobMatchesVerbatim : Text → Text → Prop
  | [],value => value = []
  | p :: pattern,value =>
    (∃ after, value = p :: after ∧ GlobMatchesVerbatim pattern after) ∨
    (p = '?' ∧ ∃ v after, value = v :: after ∧ GlobMatchesVerbatim pattern after) ∨
    (p = '*' ∧ value.head? ≠ some '*' ∧ ∃ front back, value = front ++ back ∧ GlobMatchesVerbatim pattern back)

/-! ### Matching one character at a time -/

theorem glob_matches_nil (value : Text) : GlobMatches [] value ↔ value = [] := Iff.rfl

theorem glob_matches_star (pattern value : Text) :
    GlobMatches ('*' :: pattern) value ↔ ∃ front back, value = front ++ back ∧ GlobMatches pattern back := Iff.rfl

theorem glob_matches_single (pattern value : Text) :
    GlobMatches ('?' :: pattern) value ↔ ∃ v after, value = v :: after ∧ GlobMatches pattern after := Iff.rfl

theorem glob_matches_char {p : Char} (star : p ≠ '*') (single : p ≠ '?') (pattern value : Text) :
    GlobMatches (p :: pattern) value ↔ ∃ after, value = p :: after ∧ GlobMatches pattern after := by
  simp only [GlobMatches,List.map_cons,glob_item,star,single,if_false,Wildcards.Matches]
  constructor
  · rintro ⟨v,after,rfl,rfl,tail⟩
    exact ⟨after,rfl,tail⟩
  · rintro ⟨after,rfl,tail⟩
    exact ⟨p,after,rfl,rfl,tail⟩

/-- Every character of a pattern stands for itself, among others. -/
theorem GlobMatches.itself {pattern value : Text} (p : Char) (tail : GlobMatches pattern value) :
    GlobMatches (p :: pattern) (p :: value) := by
  by_cases star : p = '*'
  · subst star
    exact ⟨['*'],value,rfl,tail⟩
  · by_cases single : p = '?'
    · subst single
      exact ⟨'?',value,rfl,tail⟩
    · exact (glob_matches_char star single pattern _).mpr ⟨value,rfl,tail⟩

theorem GlobMatches.append {pattern value : Text} (front : Text) (tail : GlobMatches pattern value) :
    GlobMatches (front ++ pattern) (front ++ value) := by
  induction front with
  | nil => exact tail
  | cons c front ih => exact ih.itself c

/-- A verbatim match is a match. -/
theorem GlobMatchesVerbatim.sound {pattern value : Text} (found : GlobMatchesVerbatim pattern value) :
    GlobMatches pattern value := by
  induction pattern generalizing value with
  | nil => exact found
  | cons p pattern ih =>
    rcases found with ⟨after,rfl,tail⟩ | ⟨rfl,v,after,rfl,tail⟩ | ⟨rfl,_,front,back,rfl,tail⟩
    · exact (ih tail).itself p
    · exact ⟨v,after,rfl,ih tail⟩
    · exact ⟨front,back,rfl,ih tail⟩

/-- Where the pattern or the value has no star, every match is verbatim. -/
theorem GlobMatches.verbatim {pattern value : Text} (apart : '*' ∉ pattern ∨ '*' ∉ value)
    (found : GlobMatches pattern value) : GlobMatchesVerbatim pattern value := by
  induction pattern generalizing value with
  | nil => exact found
  | cons p pattern ih =>
    by_cases star : p = '*'
    · subst star
      have clean : '*' ∉ value := by simpa using apart
      obtain ⟨front,back,rfl,tail⟩ := found
      refine .inr (.inr ⟨rfl,?_,front,back,rfl,ih (.inr fun member => clean (by simp [member])) tail⟩)
      intro first
      exact clean (List.mem_of_mem_head? first)
    · by_cases single : p = '?'
      · subst single
        obtain ⟨v,after,rfl,tail⟩ := found
        refine .inr (.inl ⟨rfl,v,after,rfl,ih ?_ tail⟩)
        exact apart.imp (fun clean member => clean (by simp [member])) fun clean member => clean (by simp [member])
      · obtain ⟨after,rfl,tail⟩ := (glob_matches_char star single _ _).mp found
        refine .inl ⟨after,rfl,ih ?_ tail⟩
        exact apart.imp (fun clean member => clean (by simp [member])) fun clean member => clean (by simp [member])

/-! ### The loop -/

/-- The first character is used up when it stands for the first of the value, whether or not it is a star. -/
theorem verbatim_used {p v : Char} {pattern value : Text} (used : p = v ∨ p = '?') :
    GlobMatchesVerbatim (p :: pattern) (v :: value) ↔ GlobMatchesVerbatim pattern value := by
  constructor
  · rintro (⟨after,split,tail⟩ | ⟨_,w,after,split,tail⟩ | ⟨rfl,other,_⟩)
    · cases split
      exact tail
    · cases split
      exact tail
    · rcases used with rfl | none
      · simp at other
      · simp at none
  · intro tail
    rcases used with rfl | rfl
    · exact .inl ⟨value,rfl,tail⟩
    · exact .inr (.inl ⟨rfl,v,value,rfl,tail⟩)

theorem verbatim_star {value : Text} (other : value.head? ≠ some '*') (pattern : Text) :
    GlobMatchesVerbatim ('*' :: pattern) value ↔ ∃ k, GlobMatchesVerbatim pattern (value.drop k) := by
  constructor
  · rintro (⟨after,rfl,_⟩ | ⟨none,_⟩ | ⟨_,_,front,back,rfl,tail⟩)
    · simp at other
    · simp at none
    · exact ⟨front.length,by simpa using tail⟩
  · rintro ⟨k,tail⟩
    exact .inr (.inr ⟨rfl,other,value.take k,value.drop k,(List.take_append_drop k value).symm,tail⟩)

/-- What is left after the first character of a pattern matches further on in the value. -/
theorem verbatim_later {p : Char} {pattern value : Text} {j : Nat}
    (found : GlobMatchesVerbatim (p :: pattern) (value.drop j)) :
    ∃ k, j ≤ k ∧ (p ≠ '*' → j < k) ∧ GlobMatchesVerbatim pattern (value.drop k) := by
  have next : ∀ v after, value.drop j = v :: after → value.drop (j + 1) = after := by
    intro v after split
    rw [← List.drop_drop,split,List.drop_one,List.tail_cons]
  rcases found with ⟨after,split,tail⟩ | ⟨_,v,after,split,tail⟩ | ⟨rfl,_,front,back,split,tail⟩
  · exact ⟨j + 1,by omega,fun _ => by omega,by rwa [next _ _ split]⟩
  · exact ⟨j + 1,by omega,fun _ => by omega,by rwa [next _ _ split]⟩
  · refine ⟨j + front.length,by omega,fun none => absurd rfl none,?_⟩
    rw [← List.drop_drop,split,List.drop_left]
    exact tail

/-- Only stars match nothing. -/
theorem verbatim_empty (pattern : Text) :
    GlobMatchesVerbatim pattern [] ↔ (pattern.dropWhile fun c => c = '*').isEmpty = true := by
  induction pattern with
  | nil => simp [GlobMatchesVerbatim]
  | cons p pattern ih =>
    by_cases star : p = '*'
    · subst star
      rw [verbatim_star (by simp)]
      simpa using ih
    · simp [GlobMatchesVerbatim,star]

/-- What the last star can still make of the value: a match that begins further on than where it was tried. -/
def StarMatches : Option (Text × Text) → Prop
  | none => False
  | some (after,tried) => ∃ k, 0 < k ∧ GlobMatchesVerbatim after (tried.drop k)

/-- Where the loop stands after a star: every match that begins further on also goes on from here or later. -/
def StarAhead (pattern value : Text) : Option (Text × Text) → Prop
  | none => True
  | some (after,tried) => value.length ≤ tried.length ∧
    (StarMatches (some (after,tried)) → ∃ j, GlobMatchesVerbatim pattern (value.drop j))

theorem StarAhead.used {p v : Char} {pattern value : Text} {star : Option (Text × Text)} (used : p = v ∨ p = '?')
    (ahead : StarAhead (p :: pattern) (v :: value) star) : StarAhead pattern value star := by
  cases star with
  | none => trivial
  | some star =>
    obtain ⟨shorter,later⟩ := ahead
    refine ⟨by simp at shorter; omega,fun found => ?_⟩
    obtain ⟨j,onward⟩ := later found
    cases j with
    | zero => exact ⟨0,(verbatim_used used).mp onward⟩
    | succ j =>
      obtain ⟨k,_,_,tail⟩ := verbatim_later onward
      exact ⟨k - 1,by rwa [show k = k - 1 + 1 by omega,List.drop_succ_cons] at tail⟩

theorem StarAhead.begun (pattern value : Text) : StarAhead pattern value (some (pattern,value)) :=
  ⟨Nat.le_refl _,fun ⟨k,_,found⟩ => ⟨k,found⟩⟩

/-- The work left: a return to the star costs at most a whole pattern. -/
def glob_measure (bound : Nat) (pattern value : Text) : Option (Text × Text) → Nat
  | none => value.length * (bound + 1) + pattern.length
  | some (_,tried) => tried.length * (bound + 1) + pattern.length

/-- The pattern after the star is no longer than the whole. -/
def StarBounded (bound : Nat) : Option (Text × Text) → Prop
  | none => True
  | some (after,_) => after.length ≤ bound

/-- The loop finds a verbatim match of what it has before it, or one the last star still allows. -/
theorem glob_loop_iff (bound steps : Nat) (pattern value : Text) (star : Option (Text × Text))
    (ahead : StarAhead pattern value star) (bounded : StarBounded bound star) (short : pattern.length ≤ bound)
    (enough : glob_measure bound pattern value star < steps) :
    glob_loop steps pattern value star = true ↔ GlobMatchesVerbatim pattern value ∨ StarMatches star := by
  induction steps generalizing pattern value star with
  | zero => omega
  | succ steps ih =>
    cases value with
    | nil =>
      simp only [glob_loop,← verbatim_empty]
      constructor
      · exact .inl
      · rintro (found | later)
        · exact found
        · cases star with
          | none => exact later.elim
          | some star =>
            obtain ⟨j,found⟩ := ahead.2 later
            simpa using found
    | cons v value =>
      -- a return to the star begins one character further on
      have again : ∀ after tried, star = some (after,tried) →
          ¬ GlobMatchesVerbatim pattern (v :: value) →
          (glob_loop steps after tried.tail (some (after,tried.tail)) = true ↔
            GlobMatchesVerbatim pattern (v :: value) ∨ StarMatches star) := by
        intro after tried same stuck
        subst same
        have longer : 0 < tried.length := by have := ahead.1; simp at this; omega
        have cost : tried.tail.length * (bound + 1) + (bound + 1) = tried.length * (bound + 1) := by
          rw [List.length_tail,← Nat.succ_mul]
          congr 1
          omega
        have after_short : after.length ≤ bound := bounded
        have less : glob_measure bound after tried.tail (some (after,tried.tail)) < steps := by
          simp only [glob_measure] at enough ⊢
          omega
        rw [ih after tried.tail (some (after,tried.tail)) (.begun _ _) after_short after_short less]
        simp only [stuck,false_or,StarMatches]
        constructor
        · rintro (found | ⟨k,positive,found⟩)
          · exact ⟨1,by omega,by rwa [List.drop_one]⟩
          · exact ⟨k + 1,by omega,by rwa [← List.drop_one,List.drop_drop,Nat.add_comm] at found⟩
        · rintro ⟨k,positive,found⟩
          by_cases one : k = 1
          · subst one
            exact .inl (by rwa [List.drop_one] at found)
          · refine .inr ⟨k - 1,by omega,?_⟩
            rw [← List.drop_one,List.drop_drop]
            rwa [show 1 + (k - 1) = k by omega]
      cases pattern with
      | nil =>
        have stuck : ¬ GlobMatchesVerbatim [] (v :: value) := by simp [GlobMatchesVerbatim]
        cases star with
        | none => simp [glob_loop,StarMatches,stuck]
        | some star => exact again star.1 star.2 rfl stuck
      | cons p pattern =>
        by_cases used : p = v ∨ p = '?'
        · have less : glob_measure bound pattern value star < steps := by
            cases star with
            | none =>
              simp only [glob_measure,List.length_cons] at enough ⊢
              have := Nat.mul_le_mul_right (bound + 1) (show value.length ≤ value.length + 1 by omega)
              omega
            | some star => simp only [glob_measure,List.length_cons] at enough ⊢; omega
          simp only [glob_loop,used,if_true]
          rw [ih _ _ _ (ahead.used used) bounded (by simp at short; omega) less,verbatim_used used]
        · by_cases is_star : p = '*'
          · subst is_star
            have other : (v :: value).head? ≠ some '*' := by
              intro first
              simp at first
              exact used (.inl first.symm)
            have rest_short : pattern.length ≤ bound := by simp at short; omega
            have less : glob_measure bound pattern (v :: value) (some (pattern,v :: value)) < steps := by
              cases star with
              | none => simp only [glob_measure,List.length_cons] at enough ⊢; omega
              | some star =>
                have := Nat.mul_le_mul_right (bound + 1) ahead.1
                simp only [glob_measure,List.length_cons] at enough this ⊢; omega
            simp only [glob_loop,used,if_true,if_false]
            rw [ih _ _ _ (.begun _ _) rest_short rest_short less,verbatim_star other]
            constructor
            · rintro (found | ⟨k,_,found⟩)
              · exact .inl ⟨0,found⟩
              · exact .inl ⟨k,found⟩
            · have any : (∃ k, GlobMatchesVerbatim pattern ((v :: value).drop k)) →
                  GlobMatchesVerbatim pattern (v :: value) ∨ StarMatches (some (pattern,v :: value)) := by
                rintro ⟨k,found⟩
                rcases Nat.eq_zero_or_pos k with rfl | positive
                · exact .inl found
                · exact .inr ⟨k,positive,found⟩
              rintro (here | later)
              · exact any here
              · cases star with
                | none => exact later.elim
                | some star =>
                  -- what an earlier star could still do, this one can
                  obtain ⟨j,onward⟩ := ahead.2 later
                  obtain ⟨k,_,_,found⟩ := verbatim_later onward
                  exact any ⟨k,found⟩
          · have stuck : ¬ GlobMatchesVerbatim (p :: pattern) (v :: value) := by
              rintro (⟨after,split,_⟩ | ⟨single,_⟩ | ⟨many,_⟩)
              · cases split
                exact used (.inl rfl)
              · exact used (.inr single)
              · exact is_star many
            cases star with
            | none => simp [glob_loop,used,is_star,StarMatches,stuck]
            | some star =>
              simp only [glob_loop,used,is_star,if_false]
              exact again star.1 star.2 rfl stuck

/-! ### The matcher -/

/-- `glob_match` finds exactly the verbatim matches. -/
theorem glob_match_verbatim (pattern value : String) :
    glob_match pattern value = true ↔ GlobMatchesVerbatim pattern.toList value.toList := by
  have enough : glob_measure pattern.toList.length pattern.toList value.toList none <
      (pattern.toList.length + 1) * (value.toList.length + 2) := by
    have steps : (pattern.toList.length + 1) * (value.toList.length + 2) =
        value.toList.length * (pattern.toList.length + 1) + 2 * (pattern.toList.length + 1) := by
      rw [Nat.mul_comm,Nat.add_mul]
    simp only [glob_measure,steps]
    omega
  rw [glob_match,glob_loop_iff pattern.toList.length _ _ _ none trivial trivial (Nat.le_refl _) enough]
  exact ⟨fun found => found.resolve_right id,.inl⟩

/-- It never accepts a value that does not match. -/
theorem glob_match_sound {pattern value : String} (found : glob_match pattern value = true) :
    GlobMatches pattern.toList value.toList :=
  ((glob_match_verbatim pattern value).mp found).sound

/-- A front that pattern and value share is used up character by character. -/
theorem verbatim_append (front pattern value : Text) :
    GlobMatchesVerbatim (front ++ pattern) (front ++ value) ↔ GlobMatchesVerbatim pattern value := by
  induction front with
  | nil => rfl
  | cons c front ih =>
    rw [List.cons_append,List.cons_append,verbatim_used (.inl rfl)]
    exact ih

/-- Without stars a match takes as many characters as the pattern has. -/
theorem glob_matches_length {pattern value : Text} (plain : '*' ∉ pattern) (found : GlobMatches pattern value) :
    value.length = pattern.length := by
  have no_many : Wildcards.Item.many ∉ pattern.map glob_item := by
    simp only [List.mem_map,not_exists,not_and]
    intro c member
    have other : c ≠ '*' := fun same => plain (same ▸ member)
    by_cases single : c = '?' <;> simp [glob_item,other,single]
  simpa using Wildcards.matches_length no_many found

/-- The part of a text from its last star on. -/
theorem last_star {text : Text} (star : '*' ∈ text) : ∃ front back, text = front ++ '*' :: back ∧ '*' ∉ back := by
  induction text with
  | nil => simp at star
  | cons c text ih =>
    by_cases later : '*' ∈ text
    · obtain ⟨front,back,rfl,plain⟩ := ih later
      exact ⟨c :: front,back,rfl,plain⟩
    · obtain rfl : '*' = c := by simpa [later] using star
      exact ⟨[],text,rfl,later⟩

/-- For a value with a star there is a pattern it matches and the matcher refuses. -/
theorem missed_pattern {value : Text} (star : '*' ∈ value) :
    ∃ pattern, GlobMatches pattern value ∧ ¬ GlobMatchesVerbatim pattern value := by
  obtain ⟨front,back,rfl,plain⟩ := last_star star
  refine ⟨front ++ '*' :: '?' :: back,?_,?_⟩
  · have rest : GlobMatches back back := by
      have := GlobMatches.append back ((glob_matches_nil []).mpr rfl)
      simpa using this
    exact GlobMatches.append front ⟨[],'*' :: back,rfl,'*',back,rfl,rest⟩
  · rw [verbatim_append,verbatim_used (.inl rfl)]
    intro found
    have same := glob_matches_length (by simpa using plain) found.sound
    simp at same

/-- For a pattern with a star there is a value that matches it and the matcher refuses. -/
theorem missed_value {pattern : Text} (star : '*' ∈ pattern) :
    ∃ value, GlobMatches pattern value ∧ ¬ GlobMatchesVerbatim pattern value := by
  obtain ⟨front,back,rfl,plain⟩ := last_star star
  refine ⟨front ++ '*' :: '*' :: back,?_,?_⟩
  · have rest : GlobMatches back back := by
      have := GlobMatches.append back ((glob_matches_nil []).mpr rfl)
      simpa using this
    exact GlobMatches.append front ⟨['*','*'],back,rfl,rest⟩
  · rw [verbatim_append,verbatim_used (.inl rfl)]
    intro found
    have same := glob_matches_length plain found.sound
    simp at same

/-- A value without stars is matched rightly against every pattern, and no other value is. -/
theorem glob_match_value_iff (value : String) :
    (∀ pattern : String, glob_match pattern value = true ↔ GlobMatches pattern.toList value.toList) ↔
      '*' ∉ value.toList := by
  constructor
  · intro exact star
    obtain ⟨pattern,found,missed⟩ := missed_pattern star
    have at_it := (exact (String.ofList pattern)).mpr (by simpa using found)
    rw [glob_match_verbatim] at at_it
    exact missed (by simpa using at_it)
  · intro plain pattern
    rw [glob_match_verbatim]
    exact ⟨GlobMatchesVerbatim.sound,GlobMatches.verbatim (.inr plain)⟩

/-- A pattern without stars matches every value rightly, and no other pattern does. -/
theorem glob_match_pattern_iff (pattern : String) :
    (∀ value : String, glob_match pattern value = true ↔ GlobMatches pattern.toList value.toList) ↔
      '*' ∉ pattern.toList := by
  constructor
  · intro exact star
    obtain ⟨value,found,missed⟩ := missed_value star
    have at_it := (exact (String.ofList value)).mpr (by simpa using found)
    rw [glob_match_verbatim] at at_it
    exact missed (by simpa using at_it)
  · intro plain value
    rw [glob_match_verbatim]
    exact ⟨GlobMatchesVerbatim.sound,GlobMatches.verbatim (.inl plain)⟩

/-- `glob_match` decides wildcard matching exactly where a value that matches also does so verbatim; it does so for
    every pattern exactly when the value has no star, and for every value exactly when the pattern has none. -/
theorem glob_match_exact_iff (pattern value : String) :
    ((glob_match pattern value = true ↔ GlobMatches pattern.toList value.toList) ↔
      (GlobMatches pattern.toList value.toList → GlobMatchesVerbatim pattern.toList value.toList)) ∧
    ((∀ pattern : String, glob_match pattern value = true ↔ GlobMatches pattern.toList value.toList) ↔
      '*' ∉ value.toList) ∧
    ((∀ value : String, glob_match pattern value = true ↔ GlobMatches pattern.toList value.toList) ↔
      '*' ∉ pattern.toList) := by
  refine ⟨?_,glob_match_value_iff value,glob_match_pattern_iff pattern⟩
  rw [glob_match_verbatim]
  exact ⟨fun exact => exact.mpr,fun verbatim => ⟨GlobMatchesVerbatim.sound,verbatim⟩⟩

instance (pattern value : Text) : Decidable (GlobMatches pattern value) :=
  inferInstanceAs (Decidable (Wildcards.Matches (· = ·) (pattern.map glob_item) value))

/-- The star of the pattern is used up by the star the key begins with, and nothing is left for the other character. -/
theorem glob_match_misses : glob_match "private/*.txt" "private/*a.txt" = false ∧
    GlobMatches "private/*.txt".toList "private/*a.txt".toList := by
  refine ⟨by decide,by decide⟩

end Maxio
