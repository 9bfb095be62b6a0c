import Maxio.Chunking

/-!
A sequence cut into pieces of one length, piece by piece: what a reader of pages gets, and when members that belong
together are never on two pages.
-/

namespace Maxio.Chunking
variable {β γ : Type} {n : Nat}

theorem full_cons (positive : 0 < n) {xs : List β} (long : n ≤ xs.length) :
    full n xs = xs.take n :: full n (xs.drop n) := by
  have first : full n (xs.take n) = [xs.take n] := by
    rw [full_eq positive,List.length_take,Nat.min_eq_left long,Nat.div_self positive]
    simp
  have none_left : rest n (xs.take n) = [] := by
    rw [rest_eq positive,List.length_take,Nat.min_eq_left long,Nat.div_self positive,Nat.one_mul]
    simp
  conv_lhs => rw [← List.take_append_drop n xs,full_append positive,first,none_left,List.nil_append]
  rfl

theorem rest_cons (positive : 0 < n) {xs : List β} (long : n ≤ xs.length) : rest n xs = rest n (xs.drop n) := by
  have none_left : rest n (xs.take n) = [] := by
    rw [rest_eq positive,List.length_take,Nat.min_eq_left long,Nat.div_self positive,Nat.one_mul]
    simp
  conv_lhs => rw [← List.take_append_drop n xs,rest_append positive,none_left,List.nil_append]

theorem full_short (positive : 0 < n) {xs : List β} (short : xs.length < n) : full n xs = [] := by
  rw [full_eq positive,Nat.div_eq_of_lt short]
  rfl

theorem rest_short (positive : 0 < n) {xs : List β} (short : xs.length < n) : rest n xs = xs := by
  rw [rest_eq positive,Nat.div_eq_of_lt short,Nat.zero_mul,List.drop_zero]

/-- All pieces, and one empty piece for an empty sequence. -/
def pages (n : Nat) (xs : List β) : List (List β) := if xs = [] then [[]] else pieces n xs

theorem pages_short (positive : 0 < n) {xs : List β} (short : xs.length ≤ n) : pages n xs = [xs] := by
  unfold pages
  by_cases empty : xs = []
  · simp [empty]
  · rw [if_neg empty]
    rcases Nat.eq_or_lt_of_le short with exact | less
    · rw [pieces,full_cons positive (by omega),rest_cons positive (by omega),
        List.drop_eq_nil_of_le (by omega),List.take_of_length_le short]
      simp
    · rw [pieces,full_short positive less,rest_short positive less]
      simp [empty]

theorem pages_cons (positive : 0 < n) {xs : List β} (long : n < xs.length) :
    pages n xs = xs.take n :: pages n (xs.drop n) := by
  have some_left : xs.drop n ≠ [] := by
    intro none
    rw [List.drop_eq_nil_iff] at none
    omega
  have nonempty : xs ≠ [] := by
    rintro rfl
    simp at long
  unfold pages
  rw [if_neg nonempty,if_neg some_left,pieces,full_cons positive (by omega),rest_cons positive (by omega)]
  rfl

/-- Induction page by page. -/
theorem pages_induction {motive : List β → Prop} (positive : 0 < n)
    (last : ∀ xs : List β, xs.length ≤ n → motive xs)
    (more : ∀ xs : List β, n < xs.length → motive (xs.drop n) → motive xs) (xs : List β) : motive xs := by
  induction size : xs.length using Nat.strongRecOn generalizing xs with
  | ind k ih =>
    by_cases short : xs.length ≤ n
    · exact last xs short
    · refine more xs (by omega) (ih (xs.drop n).length ?_ _ rfl)
      rw [List.length_drop]
      omega

theorem flatten_pages (positive : 0 < n) (xs : List β) : (pages n xs).flatten = xs := by
  induction xs using pages_induction positive with
  | last xs short => simp [pages_short positive short]
  | more xs long ih => rw [pages_cons positive long,List.flatten_cons,ih,List.take_append_drop]

theorem length_le_of_mem_pages (positive : 0 < n) {xs page : List β} (member : page ∈ pages n xs) : page.length ≤ n := by
  induction xs using pages_induction positive with
  | last xs short =>
    rw [pages_short positive short,List.mem_singleton] at member
    exact member ▸ short
  | more xs long ih =>
    rw [pages_cons positive long,List.mem_cons] at member
    rcases member with rfl | later
    · exact List.length_take_le _ _
    · exact ih later

/-- At most one page has a property exactly when no two do. -/
theorem countP_le_one_iff (q : β → Bool) (xs : List β) :
    xs.countP q ≤ 1 ↔ xs.Pairwise fun a b => ¬ (q a = true ∧ q b = true) := by
  induction xs with
  | nil => simp
  | cons x xs ih =>
    rw [List.pairwise_cons,← ih]
    by_cases here : q x = true
    · rw [List.countP_cons_of_pos here]
      constructor
      · intro few
        have none : xs.countP q = 0 := by omega
        rw [List.countP_eq_zero] at none
        exact ⟨fun b member both => none b member both.2,by omega⟩
      · rintro ⟨apart,_⟩
        have none : xs.countP q = 0 := by
          rw [List.countP_eq_zero]
          exact fun b member there => apart b member ⟨here,there⟩
        omega
    · rw [List.countP_cons_of_neg here]
      exact ⟨fun few => ⟨fun _ _ both => here both.1,few⟩,And.right⟩

/-- No two pages share a group exactly when members of one group stand in the same run of `n`. -/
theorem pages_apart_iff (positive : 0 < n) (group : β → Option γ) (xs : List β) :
    ((pages n xs).Pairwise fun a b => ∀ x ∈ a, ∀ y ∈ b, ∀ g, group x = some g → group y ≠ some g) ↔
      ∀ i j x y g, xs[i]? = some x → xs[j]? = some y → group x = some g → group y = some g → i / n = j / n := by
  induction xs using pages_induction positive with
  | last xs short =>
    rw [pages_short positive short]
    refine iff_of_true (List.pairwise_singleton _ _) ?_
    intro i j x y g at_i at_j _ _
    have i_in := (List.getElem?_eq_some_iff.mp at_i).1
    have j_in := (List.getElem?_eq_some_iff.mp at_j).1
    rw [Nat.div_eq_of_lt (by omega),Nat.div_eq_of_lt (by omega)]
  | more xs long ih =>
    rw [pages_cons positive long,List.pairwise_cons,ih]
    have shift : ∀ i, n ≤ i → i / n = (i - n) / n + 1 := fun i after => Nat.div_eq_sub_div positive after
    constructor
    · rintro ⟨first,later⟩ i j x y g at_i at_j in_x in_y
      -- a member of the first page and one of a later page share no group
      have split : ∀ (i j : Nat) (x y : β), i < n → n ≤ j → xs[i]? = some x → xs[j]? = some y →
          group x = some g → group y ≠ some g := by
        intro i j x y before after at_i at_j in_x in_y
        have tail : y ∈ (pages n (xs.drop n)).flatten := by
          rw [flatten_pages positive]
          refine List.mem_of_getElem? (i := j - n) ?_
          rw [List.getElem?_drop,Nat.add_sub_cancel' after]
          exact at_j
        obtain ⟨page,member,inside⟩ := List.mem_flatten.mp tail
        refine first page member x (List.mem_of_getElem? (i := i) ?_) y inside g in_x in_y
        rw [List.getElem?_take_of_lt before]
        exact at_i
      by_cases i_first : i < n
      · by_cases j_first : j < n
        · rw [Nat.div_eq_of_lt i_first,Nat.div_eq_of_lt j_first]
        · exact absurd in_y (split i j x y i_first (by omega) at_i at_j in_x)
      · by_cases j_first : j < n
        · exact absurd in_x (split j i y x j_first (by omega) at_j at_i in_y)
        · rw [shift i (by omega),shift j (by omega),later (i - n) (j - n) x y g ?_ ?_ in_x in_y]
          · rw [List.getElem?_drop,Nat.add_sub_cancel' (by omega)]
            exact at_i
          · rw [List.getElem?_drop,Nat.add_sub_cancel' (by omega)]
            exact at_j
    · intro together
      constructor
      · intro page member x in_first y in_page g in_x in_y
        obtain ⟨i,at_i⟩ := List.getElem?_of_mem in_first
        have tail : y ∈ xs.drop n := by
          rw [← flatten_pages positive (xs.drop n)]
          exact List.mem_flatten.mpr ⟨page,member,in_page⟩
        obtain ⟨j,at_j⟩ := List.getElem?_of_mem tail
        have inside := (List.getElem?_eq_some_iff.mp at_i).1
        rw [List.length_take] at inside
        have before : i < n := by omega
        rw [List.getElem?_take_of_lt before] at at_i
        rw [List.getElem?_drop] at at_j
        have same := together i (n + j) x y g at_i at_j in_x in_y
        rw [Nat.div_eq_of_lt before,shift (n + j) (by omega)] at same
        exact absurd same.symm (Nat.succ_ne_zero _)
      · intro i j x y g at_i at_j in_x in_y
        rw [List.getElem?_drop] at at_i at_j
        have same := together (n + i) (n + j) x y g at_i at_j in_x in_y
        rw [shift (n + i) (by omega),shift (n + j) (by omega),Nat.add_sub_cancel_left,Nat.add_sub_cancel_left] at same
        omega

end Maxio.Chunking
