import Maxio.Reading

/-!
Sources that answer alike. A map carries one source into another when polling the image gives the pieces of the
original; a whole read then gives the same, whatever the capacities.
-/

namespace Maxio.Reading
variable {σ τ ε β : Type}

/-- Polling `f s` is polling `s`, in every state with the property. -/
structure Carries (poll : Poll σ ε β) (poll' : Poll τ ε β) (I : σ → Prop) (f : σ → τ) : Prop where
  same : ∀ s cap, I s → poll' (f s) cap = (poll s cap).map fun r => (r.1,f r.2)
  kept : ∀ s cap piece s', I s → poll s cap = .ok (piece,s') → I s'

namespace Carries
variable {poll : Poll σ ε β} {poll' : Poll τ ε β} {I : σ → Prop} {f : σ → τ}

theorem read (carries : Carries poll poll' I f) (caps : Nat → Nat) (turns turn : Nat) {s : σ} (start : I s) :
    read_to_end poll' caps turns turn (f s) = read_to_end poll caps turns turn s := by
  induction turns generalizing turn s with
  | zero => rfl
  | succ turns ih =>
    rw [read_to_end,read_to_end,carries.same s _ start]
    cases polled : poll s (caps turn) with
    | error e => rfl
    | ok answer =>
      obtain ⟨piece,s'⟩ := answer
      cases piece with
      | nil => rfl
      | cons b piece =>
        simp only [Except.map]
        rw [ih (turn + 1) (carries.kept s _ _ s' start polled)]

/-- A source inside of another that only passes its reads on. -/
theorem wrap {σ' τ' : Type} {poll₁ : Poll σ' ε β} {poll₂ : Poll τ' ε β} (carries : Carries poll poll' I f)
    (into : σ → σ') (into' : τ → τ') (passes : ∀ s cap, poll₁ (into s) cap = (poll s cap).map fun r => (r.1,into r.2))
    (passes' : ∀ t cap, poll₂ (into' t) cap = (poll' t cap).map fun r => (r.1,into' r.2)) (caps : Nat → Nat)
    (turns turn : Nat) {s : σ} (start : I s) :
    read_to_end poll₂ caps turns turn (into' (f s)) = read_to_end poll₁ caps turns turn (into s) := by
  have outer : Carries poll poll₁ I into := ⟨fun s cap _ => passes s cap,carries.kept⟩
  have inner : Carries poll poll₂ I fun s => into' (f s) := by
    refine ⟨fun s cap given => ?_,carries.kept⟩
    rw [passes',carries.same s cap given]
    cases poll s cap <;> rfl
  rw [inner.read caps turns turn start,outer.read caps turns turn start]

end Carries

/-- The turn of the image. -/
def Turn.map (f : σ → τ) : Turn σ ε β → Turn τ ε β
  | .ready result => .ready (result.map fun r => (r.1,f r.2))
  | .again next => .again (f next)

/-- A loop whose turns are carried over is carried over. -/
theorem spin_carries {turn : σ → Nat → Turn σ ε β} {turn' : τ → Nat → Turn τ ε β} {stuck : ε} {turns : σ → Nat}
    {turns' : τ → Nat} {I : σ → Prop} {f : σ → τ} (count : ∀ s, turns' (f s) = turns s)
    (same : ∀ s cap, I s → turn' (f s) cap = (turn s cap).map f)
    (again : ∀ s cap s', I s → turn s cap = .again s' → I s')
    (gives : ∀ s cap piece s', I s → turn s cap = .ready (.ok (piece,s')) → I s') :
    Carries (fun s cap => spin turn stuck cap (turns s) s) (fun t cap => spin turn' stuck cap (turns' t) t) I f := by
  constructor
  · intro s cap start
    rw [count]
    generalize turns s = n
    induction n generalizing s with
    | zero => rfl
    | succ n ih =>
      rw [spin,spin,same s cap start]
      cases ran : turn s cap with
      | ready result => rfl
      | again s' => exact ih s' (again s cap s' start ran)
  · intro s cap piece s' start polled
    generalize turns s = n at polled
    induction n generalizing s with
    | zero => cases polled
    | succ n ih =>
      rw [spin] at polled
      cases ran : turn s cap with
      | ready result =>
        rw [ran] at polled
        exact gives s cap piece s' start (polled ▸ ran)
      | again s₁ =>
        rw [ran] at polled
        exact ih s₁ (again s cap s₁ start ran) polled

end Maxio.Reading
