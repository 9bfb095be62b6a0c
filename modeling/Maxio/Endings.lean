import Maxio.Reading

/-!
Sources that hand over a text and then end in one way: with an end of file or with an error. Such a source has one
result for every sequence of capacities, which is what two sources are compared by.
-/

namespace Maxio.Reading
variable {σ ε β : Type}

/-- `R s out ending`: what comes out of `s` is `out`, piece by piece, and then the error or the end of file. -/
structure Emitting (poll : Poll σ ε β) (R : σ → List β → Option ε → Prop) : Prop where
  fails : ∀ s out ending cap e, 0 < cap → R s out ending → poll s cap = .error e → out = [] ∧ ending = some e
  stops : ∀ s out ending cap s', 0 < cap → R s out ending → poll s cap = .ok ([],s') → out = [] ∧ ending = none
  gives : ∀ s out ending cap piece s', 0 < cap → R s out ending → poll s cap = .ok (piece,s') → piece ≠ [] →
    ∃ rest, out = piece ++ rest ∧ R s' rest ending

/-- The source hands over `out` and ends so. -/
def Emits (poll : Poll σ ε β) (s : σ) (out : List β) (ending : Option ε) : Prop :=
  ∃ R, Emitting poll R ∧ R s out ending

/-- Reading the source with these capacities comes to an end with this result. -/
def Reads (poll : Poll σ ε β) (caps : Nat → Nat) (s : σ) (result : List β × Option ε) : Prop :=
  ∃ turns, read_to_end poll caps turns 0 s = some result

section
variable {poll : Poll σ ε β} {s s' : σ} {out piece : List β} {ending : Option ε} {cap : Nat}

theorem Emits.fails {e : ε} (emits : Emits poll s out ending) (positive : 0 < cap) (polled : poll s cap = .error e) :
    out = [] ∧ ending = some e := by
  obtain ⟨R,emitting,related⟩ := emits
  exact emitting.fails s out ending cap e positive related polled

theorem Emits.stops (emits : Emits poll s out ending) (positive : 0 < cap) (polled : poll s cap = .ok ([],s')) :
    out = [] ∧ ending = none := by
  obtain ⟨R,emitting,related⟩ := emits
  exact emitting.stops s out ending cap s' positive related polled

theorem Emits.gives (emits : Emits poll s out ending) (positive : 0 < cap) (polled : poll s cap = .ok (piece,s'))
    (nonempty : piece ≠ []) : ∃ rest, out = piece ++ rest ∧ Emits poll s' rest ending := by
  obtain ⟨R,emitting,related⟩ := emits
  obtain ⟨rest,same,next⟩ := emitting.gives s out ending cap piece s' positive related polled nonempty
  exact ⟨rest,same,R,emitting,next⟩

/-- A source that never fails ends with the end of file. -/
theorem Yields.emits (exact : Exactly poll s out) : Emits poll s out none := by
  refine ⟨fun s out ending => Exactly poll s out ∧ ending = none,⟨?_,?_,?_⟩,exact,rfl⟩
  · rintro s out ending cap e positive ⟨exact,_⟩ polled
    exact (exact.fails positive polled).elim
  · rintro s out ending cap s' positive ⟨exact,rfl⟩ polled
    exact ⟨(exact.stops positive polled).resolve_right id,rfl⟩
  · rintro s out ending cap piece s' positive ⟨exact,rfl⟩ polled nonempty
    obtain ⟨rest,same,next⟩ := exact.gives positive polled nonempty
    exact ⟨rest,same,next,rfl⟩

theorem Emits.read (emits : Emits poll s out ending) (caps : Nat → Nat) (positive : ∀ n, 0 < caps n)
    (turns turn : Nat) (enough : out.length < turns) :
    read_to_end poll caps turns turn s = some (out,ending) := by
  induction turns generalizing s out turn with
  | zero => simp at enough
  | succ turns ih =>
    rw [read_to_end]
    split
    next e polled =>
      obtain ⟨rfl,rfl⟩ := emits.fails (positive _) polled
      rfl
    next s' polled =>
      obtain ⟨rfl,rfl⟩ := emits.stops (positive _) polled
      rfl
    next b piece s' polled =>
      obtain ⟨rest,rfl,next⟩ := emits.gives (positive _) polled (by simp)
      rw [ih next (turn + 1) (by simp at enough; omega)]
      rfl

/-- More turns do not change a result. -/
theorem read_to_end_mono {caps : Nat → Nat} {turns more turn : Nat} {result : List β × Option ε}
    (read : read_to_end poll caps turns turn s = some result) (longer : turns ≤ more) :
    read_to_end poll caps more turn s = some result := by
  induction turns generalizing s more turn result with
  | zero => simp [read_to_end] at read
  | succ turns ih =>
    obtain ⟨more,rfl⟩ : ∃ k, more = k + 1 := ⟨more - 1,by omega⟩
    rw [read_to_end] at read ⊢
    split at read
    next => exact read
    next => exact read
    next b piece s' polled =>
      obtain ⟨tail,rest,same⟩ := Option.map_eq_some_iff.mp read
      exact Option.map_eq_some_iff.mpr ⟨tail,ih rest (by omega),same⟩

/-- A source that emits has the one result. -/
theorem Emits.reads_iff (emits : Emits poll s out ending) {caps : Nat → Nat} (positive : ∀ n, 0 < caps n)
    (result : List β × Option ε) : Reads poll caps s result ↔ result = (out,ending) := by
  constructor
  · rintro ⟨turns,read⟩
    have whole := emits.read caps positive (turns + out.length + 1) 0 (by omega)
    rw [read_to_end_mono read (by omega)] at whole
    exact Option.some.inj whole
  · rintro rfl
    exact ⟨out.length + 1,emits.read caps positive _ 0 (by omega)⟩

end
end Maxio.Reading
