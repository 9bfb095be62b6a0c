import Mathlib

/-!
Cutting a sequence into pieces of a fixed length with a shorter rest, and the loop that does it on a stream:
what arrives is appended to a buffer, and full pieces are taken off its front.
-/

namespace Maxio.Chunking
variable {β : Type}

/-- `while buf.len() >= n { drain(..n) }`: the full pieces in front of a buffer, and the rest. -/
def drain (n : Nat) : Nat → List β → List (List β) × List β
  | 0,buf => ([],buf)
  | turns + 1,buf =>
    if n ≤ buf.length then
      let (pieces,rest) := drain n turns (buf.drop n)
      (buf.take n :: pieces,rest)
    else ([],buf)

/-- The full pieces in front of a buffer. -/
def full (n : Nat) (buf : List β) : List (List β) := (drain n buf.length buf).1

/-- What is left of a buffer when its full pieces are gone. -/
def rest (n : Nat) (buf : List β) : List β := (drain n buf.length buf).2

/-- All pieces, the last one possibly shorter. -/
def pieces (n : Nat) (xs : List β) : List (List β) :=
  full n xs ++ if rest n xs = [] then [] else [rest n xs]

section
variable {n : Nat}

private theorem drain_closed (positive : 0 < n) (turns : Nat) (buf : List β) (enough : buf.length ≤ turns) :
    drain n turns buf =
      ((List.range (buf.length / n)).map fun i => (buf.drop (i * n)).take n,buf.drop (buf.length / n * n)) := by
  induction turns generalizing buf with
  | zero =>
    have empty : buf = [] := List.eq_nil_of_length_eq_zero (by omega)
    simp [drain,empty]
  | succ turns ih =>
    rw [drain]
    split
    next fits =>
      have quotient : buf.length / n = (buf.length - n) / n + 1 := by
        rw [Nat.div_eq_sub_div positive fits]
      rw [ih _ (by simp only [List.length_drop]; omega)]
      simp only [List.length_drop,quotient,Prod.mk.injEq]
      refine ⟨?_,by rw [List.drop_drop]; congr 1; ring⟩
      rw [List.range_succ_eq_map,List.map_cons,List.map_map]
      simp only [Nat.zero_mul,List.drop_zero,Function.comp_def,List.drop_drop,Nat.succ_mul,Nat.add_comm]
    next short =>
      have zero : buf.length / n = 0 := Nat.div_eq_of_lt (by omega)
      simp [zero]

theorem full_eq (positive : 0 < n) (xs : List β) :
    full n xs = (List.range (xs.length / n)).map fun i => (xs.drop (i * n)).take n := by
  rw [full,drain_closed positive _ _ le_rfl]

theorem rest_eq (positive : 0 < n) (xs : List β) : rest n xs = xs.drop (xs.length / n * n) := by
  rw [rest,drain_closed positive _ _ le_rfl]

theorem length_full (positive : 0 < n) (xs : List β) : (full n xs).length = xs.length / n := by
  simp [full_eq positive]

theorem length_rest (positive : 0 < n) (xs : List β) : (rest n xs).length = xs.length % n := by
  rw [rest_eq positive,List.length_drop,Nat.mod_eq_sub_div_mul]

theorem full_piece_length (positive : 0 < n) (xs : List β) : ∀ piece ∈ full n xs, piece.length = n := by
  intro piece member
  rw [full_eq positive] at member
  obtain ⟨i,inside,rfl⟩ := List.mem_map.mp member
  have below : (i + 1) * n ≤ xs.length :=
    (Nat.mul_le_mul_right n (List.mem_range.mp inside)).trans (Nat.div_mul_le_self _ _)
  rw [Nat.succ_mul] at below
  simp only [List.length_take,List.length_drop]
  omega

theorem getElem?_pieces (positive : 0 < n) (xs : List β) (i : Nat) :
    (pieces n xs)[i]? = if i * n < xs.length then some ((xs.drop (i * n)).take n) else none := by
  have count := Nat.div_add_mod xs.length n
  rw [Nat.mul_comm] at count
  rw [pieces]
  by_cases early : i < xs.length / n
  · have below : (i + 1) * n ≤ xs.length :=
      (Nat.mul_le_mul_right n early).trans (Nat.div_mul_le_self _ _)
    rw [Nat.succ_mul] at below
    rw [List.getElem?_append_left (by rw [length_full positive]; exact early),full_eq positive]
    simp [early,show i * n < xs.length by omega]
  · rw [List.getElem?_append_right (by rw [length_full positive]; omega),length_full positive]
    have remainder := length_rest positive xs
    by_cases same : i = xs.length / n
    · subst same
      by_cases empty : rest n xs = []
      · rw [empty,List.length_nil] at remainder
        simp [empty,show ¬ xs.length / n * n < xs.length by omega]
      · have left : 0 < (rest n xs).length := List.length_pos_iff.mpr empty
        simp only [empty,if_false,Nat.sub_self,List.getElem?_cons_zero,
          show xs.length / n * n < xs.length by omega,if_true]
        rw [← rest_eq positive,List.take_of_length_le]
        rw [remainder]
        exact (Nat.mod_lt _ positive).le
    · have later : (xs.length / n + 1) * n ≤ i * n := Nat.mul_le_mul_right n (by omega)
      rw [Nat.succ_mul] at later
      have beyond : ¬ i * n < xs.length := by
        have := Nat.mod_lt xs.length positive
        omega
      rw [if_neg beyond]
      apply List.getElem?_eq_none
      split
      · simp
      · simp only [List.length_singleton]
        omega

theorem flatten_pieces (positive : 0 < n) (xs : List β) : (pieces n xs).flatten = xs := by
  have joined : ∀ k, k * n ≤ xs.length →
      ((List.range k).map fun i => (xs.drop (i * n)).take n).flatten = xs.take (k * n) := by
    intro k
    induction k with
    | zero => simp
    | succ k ih =>
      intro bound
      rw [Nat.succ_mul] at bound
      rw [List.range_succ,List.map_append,List.flatten_append,ih (by omega),Nat.succ_mul]
      simp [List.take_add]
  have last : (if rest n xs = [] then [] else [rest n xs]).flatten = rest n xs := by
    split
    next empty => simp [empty]
    next => simp
  rw [pieces,List.flatten_append,last,full_eq positive,rest_eq positive,joined _ (Nat.div_mul_le_self _ _)]
  exact List.take_append_drop _ _

theorem rest_length_lt (positive : 0 < n) (xs : List β) : (rest n xs).length < n := by
  rw [length_rest positive]
  exact Nat.mod_lt _ positive

/-- No piece is empty, and none is longer than a full one. -/
theorem pieces_length (positive : 0 < n) (xs : List β) : ∀ piece ∈ pieces n xs, piece ≠ [] ∧ piece.length ≤ n := by
  intro piece member
  rcases List.mem_append.mp member with front | back
  · have exact_length := full_piece_length positive xs piece front
    refine ⟨?_,exact_length.le⟩
    rintro rfl
    rw [List.length_nil] at exact_length
    omega
  · split_ifs at back with empty
    · cases back
    · cases List.mem_singleton.mp back
      exact ⟨empty,(rest_length_lt positive xs).le⟩

/-! ### Feeding a buffer -/

private theorem split_division (positive : 0 < n) (a b : Nat) :
    (a + b) / n = a / n + (a % n + b) / n := by
  conv_lhs => rw [← Nat.div_add_mod a n,Nat.add_assoc]
  rw [Nat.mul_add_div positive]

/-- What a loop has taken off its buffer before and after more data arrived. -/
theorem full_append (positive : 0 < n) (xs ys : List β) :
    full n (xs ++ ys) = full n xs ++ full n (rest n xs ++ ys) := by
  have count := split_division positive xs.length ys.length
  rw [full_eq positive (xs ++ ys),full_eq positive xs,full_eq positive (rest n xs ++ ys),rest_eq positive]
  simp only [List.length_append,List.length_drop,← Nat.mod_eq_sub_div_mul,count]
  rw [List.range_add,List.map_append,List.map_map]
  congr 1
  · refine List.map_congr_left fun i inside => ?_
    have below : (i + 1) * n ≤ xs.length :=
      (Nat.mul_le_mul_right n (List.mem_range.mp inside)).trans (Nat.div_mul_le_self _ _)
    rw [Nat.succ_mul] at below
    rw [List.drop_append_of_le_length (by omega),List.take_append_of_le_length (by simp; omega)]
  · refine List.map_congr_left fun i _ => ?_
    have prior : xs.length / n * n ≤ xs.length := Nat.div_mul_le_self _ _
    simp only [Function.comp_def,Nat.add_mul]
    rw [← List.drop_drop,List.drop_append_of_le_length prior]

theorem rest_append (positive : 0 < n) (xs ys : List β) :
    rest n (xs ++ ys) = rest n (rest n xs ++ ys) := by
  have count := split_division positive xs.length ys.length
  have prior : xs.length / n * n ≤ xs.length := Nat.div_mul_le_self _ _
  rw [rest_eq positive (xs ++ ys),rest_eq positive (rest n xs ++ ys),rest_eq positive]
  simp only [List.length_append,List.length_drop,← Nat.mod_eq_sub_div_mul,count,Nat.add_mul]
  rw [← List.drop_drop,List.drop_append_of_le_length prior]

@[simp] theorem full_nil (n : Nat) : full n ([] : List β) = [] := rfl

@[simp] theorem rest_nil (n : Nat) : rest n ([] : List β) = [] := rfl

theorem full_append_rest (positive : 0 < n) (xs : List β) : (full n xs).flatten ++ rest n xs = xs := by
  have joined := flatten_pieces positive xs
  rw [pieces,List.flatten_append] at joined
  split at joined
  next empty => simpa [empty] using joined
  next => simpa using joined

end
end Maxio.Chunking
