import Mathlib.Order.RelClasses

/-!
Loops given by one step: it goes on with another state or ends with a result. Whether such a loop ends is decided by a
well-founded measure, and that it does not by a set of states it cannot leave.
-/

namespace Loops
variable {σ ρ α : Type}

/-- The loop for at most so many steps. -/
def run (next : σ → σ ⊕ ρ) : Nat → σ → Option ρ
  | 0,_ => none
  | steps + 1,s => match next s with
    | .inl s' => run next steps s'
    | .inr result => some result

/-- The loop ends with this result. -/
def EndsWith (next : σ → σ ⊕ ρ) (s : σ) (result : ρ) : Prop := ∃ steps, run next steps s = some result

def Ends (next : σ → σ ⊕ ρ) (s : σ) : Prop := ∃ result, EndsWith next s result

variable {next : σ → σ ⊕ ρ} {s s' : σ} {result : ρ}

theorem ends_with_result (ended : next s = .inr result) : EndsWith next s result := ⟨1,by simp [run,ended]⟩

theorem EndsWith.step (went : next s = .inl s') (later : EndsWith next s' result) : EndsWith next s result := by
  obtain ⟨steps,done⟩ := later
  exact ⟨steps + 1,by simpa [run,went] using done⟩

theorem ends_with_iff (went : next s = .inl s') : EndsWith next s result ↔ EndsWith next s' result := by
  constructor
  · rintro ⟨steps,done⟩
    cases steps with
    | zero => simp [run] at done
    | succ steps => exact ⟨steps,by simpa [run,went] using done⟩
  · exact .step went

theorem ends_iff (went : next s = .inl s') : Ends next s ↔ Ends next s' :=
  exists_congr fun _ => ends_with_iff went

/-- The result of a loop that ends at once. -/
theorem ends_with_now (ended : next s = .inr result) {other : ρ} : EndsWith next s other ↔ other = result := by
  constructor
  · rintro ⟨steps,done⟩
    cases steps with
    | zero => simp [run] at done
    | succ steps => simpa [run,ended,eq_comm] using done
  · rintro rfl
    exact ends_with_result ended

/-- A loop has one result. -/
theorem EndsWith.unique {other : ρ} (first : EndsWith next s result) (second : EndsWith next s other) :
    result = other := by
  obtain ⟨steps,done⟩ := first
  induction steps generalizing s with
  | zero => simp [run] at done
  | succ steps ih =>
    cases went : next s with
    | inl s' => exact ih ((ends_with_iff went).mp second) (by simpa [run,went] using done)
    | inr last =>
      obtain rfl : last = result := by simpa [run,went] using done
      exact ((ends_with_now went).mp second).symm

/-- A loop ends when every step that goes on makes a measure smaller. -/
theorem ends_of_measure {lt : α → α → Prop} (wf : WellFounded lt) (measure : σ → α) {I : σ → Prop}
    (smaller : ∀ s s', I s → next s = .inl s' → I s' ∧ lt (measure s') (measure s)) (s : σ) (start : I s) :
    Ends next s := by
  induction rank : measure s using wf.induction generalizing s with
  | h a ih =>
    cases went : next s with
    | inr result => exact ⟨result,ends_with_result went⟩
    | inl s' =>
      obtain ⟨kept,less⟩ := smaller s s' start went
      exact (ends_iff went).mpr (ih _ (rank ▸ less) s' kept rfl)

/-- A loop never ends when its steps stay within a set of states in which it goes on. -/
theorem endless (stays : σ → Prop) (goes_on : ∀ s, stays s → ∃ s', next s = .inl s' ∧ stays s') (s : σ)
    (start : stays s) : ¬ Ends next s := by
  rintro ⟨result,steps,done⟩
  induction steps generalizing s with
  | zero => simp [run] at done
  | succ steps ih =>
    obtain ⟨s',went,stay⟩ := goes_on s start
    exact ih s' stay (by simpa [run,went] using done)

/-- What holds at the start and is kept by every step holds of the state in which the loop ends. -/
theorem EndsWith.last {I : σ → Prop} (kept : ∀ s s', I s → next s = .inl s' → I s') (ended : EndsWith next s result)
    (start : I s) : ∃ s', I s' ∧ next s' = .inr result := by
  obtain ⟨steps,done⟩ := ended
  induction steps generalizing s with
  | zero => simp [run] at done
  | succ steps ih =>
    cases went : next s with
    | inl s' => exact ih (kept s s' start went) (by simpa [run,went] using done)
    | inr last =>
      obtain rfl : last = result := by simpa [run,went] using done
      exact ⟨s,start,went⟩

end Loops
