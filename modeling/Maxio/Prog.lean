import Mathlib

/-!
Programs over a state that survives failure: a failing step returns its error together with the state
it had reached, as a call that returns `Err` after some effects does.
-/

namespace Maxio

/-- A computation over the state `σ` that ends with a value or an error of type `ε`. -/
def Prog (σ ε α : Type) := σ → Except ε α × σ

namespace Prog
variable {σ ε ε' α β : Type}

def run (m : Prog σ ε α) (s : σ) : Except ε α × σ := m s

instance : Monad (Prog σ ε) where
  pure a := fun s => (.ok a,s)
  bind m f := fun s => match m s with
    | (.ok a,s') => f a s'
    | (.error e,s') => (.error e,s')

/-- Stop with an error. -/
def fail (e : ε) : Prog σ ε α := fun s => (.error e,s)

/-- Read the state. -/
def ask (f : σ → α) : Prog σ ε α := fun s => (.ok (f s),s)

/-- Change the state. -/
def tell (f : σ → σ) : Prog σ ε Unit := fun s => (.ok (),f s)

/-- A pure fallible step. -/
def lift (r : Except ε α) : Prog σ ε α := fun s => (r,s)

/-- Run a program and hand its outcome to the caller instead of propagating an error. -/
def attempt (m : Prog σ ε α) : Prog σ ε' (Except ε α) := fun s => (.ok (m s).1,(m s).2)

/-- `map_err`. -/
def mapError (f : ε → ε') (m : Prog σ ε α) : Prog σ ε' α := fun s => ((m s).1.mapError f,(m s).2)

/-- Run `m`; when it fails, apply `drop` to the state before the error is returned. -/
def guarded (drop : σ → σ) (m : Prog σ ε α) : Prog σ ε α := fun s => match m s with
  | (.ok a,s') => (.ok a,s')
  | (.error e,s') => (.error e,drop s')

/-- A loop over a list that threads an accumulator. -/
def fold (f : β → α → Prog σ ε β) : β → List α → Prog σ ε β
  | acc,[] => pure acc
  | acc,a :: rest => f acc a >>= fun acc' => fold f acc' rest

/-- A loop over a list. -/
def each (f : α → Prog σ ε Unit) : List α → Prog σ ε Unit
  | [] => pure ()
  | a :: rest => f a >>= fun _ => each f rest

@[simp] theorem pure_apply (a : α) (s : σ) : (pure a : Prog σ ε α) s = (.ok a,s) := rfl
@[simp] theorem fail_apply (e : ε) (s : σ) : (fail e : Prog σ ε α) s = (.error e,s) := rfl
@[simp] theorem ask_apply (f : σ → α) (s : σ) : (ask f : Prog σ ε α) s = (.ok (f s),s) := rfl
@[simp] theorem tell_apply (f : σ → σ) (s : σ) : (tell f : Prog σ ε Unit) s = (.ok (),f s) := rfl
@[simp] theorem lift_apply (r : Except ε α) (s : σ) : (lift r : Prog σ ε α) s = (r,s) := rfl
@[simp] theorem attempt_apply (m : Prog σ ε α) (s : σ) :
    (attempt m : Prog σ ε' (Except ε α)) s = (.ok (m s).1,(m s).2) := rfl
@[simp] theorem mapError_apply (f : ε → ε') (m : Prog σ ε α) (s : σ) :
    mapError f m s = ((m s).1.mapError f,(m s).2) := rfl

theorem bind_apply (m : Prog σ ε α) (f : α → Prog σ ε β) (s : σ) :
    (m >>= f) s = match m s with
      | (.ok a,s') => f a s'
      | (.error e,s') => (.error e,s') := rfl

@[simp] theorem pure_bind (a : α) (f : α → Prog σ ε β) : (pure a >>= f) = f a := rfl
@[simp] theorem lift_ok_bind (a : α) (f : α → Prog σ ε β) : (lift (.ok a) >>= f) = f a := rfl
@[simp] theorem lift_error_bind (e : ε) (f : α → Prog σ ε β) : (lift (.error e) >>= f) = fail e := rfl
@[simp] theorem fail_bind (e : ε) (f : α → Prog σ ε β) : (fail e >>= f) = fail e := rfl
@[simp] theorem ask_bind_apply (g : σ → α) (f : α → Prog σ ε β) (s : σ) : (ask g >>= f) s = f (g s) s := rfl

theorem bind_of_ok {m : Prog σ ε α} {f : α → Prog σ ε β} {s s' : σ} {a : α}
    (first : m s = (.ok a,s')) : (m >>= f) s = f a s' := by
  rw [bind_apply,first]

theorem bind_of_error {m : Prog σ ε α} {f : α → Prog σ ε β} {s s' : σ} {e : ε}
    (first : m s = (.error e,s')) : (m >>= f) s = (.error e,s') := by
  rw [bind_apply,first]

theorem bind_assoc {γ : Type} (m : Prog σ ε α) (f : α → Prog σ ε β) (g : β → Prog σ ε γ) :
    ((m >>= f) >>= g) = m >>= fun a => f a >>= g := by
  funext s
  rw [bind_apply,bind_apply,bind_apply]
  rcases m s with ⟨e | a,s'⟩
  · rfl
  · rfl

/-- A sequence succeeds exactly when both halves do. -/
theorem bind_ok_iff {m : Prog σ ε α} {f : α → Prog σ ε β} {s s'' : σ} {b : β} :
    (m >>= f) s = (.ok b,s'') ↔ ∃ a s', m s = (.ok a,s') ∧ f a s' = (.ok b,s'') := by
  constructor
  · intro executed
    rw [bind_apply] at executed
    split at executed
    next a s' first => exact ⟨a,s',first,executed⟩
    next e s' first => simp at executed
  · rintro ⟨a,s',first,second⟩
    rw [bind_of_ok first,second]

theorem guarded_ok_iff {drop : σ → σ} {m : Prog σ ε α} {s s' : σ} {a : α} :
    guarded drop m s = (.ok a,s') ↔ m s = (.ok a,s') := by
  unfold guarded
  split
  next b t first => simp [first]
  next e t first => simp [first]

theorem mapError_ok_iff {f : ε → ε'} {m : Prog σ ε α} {s s' : σ} {a : α} :
    mapError f m s = (.ok a,s') ↔ m s = (.ok a,s') := by
  simp only [mapError_apply]
  rcases m s with ⟨_ | b,t⟩ <;> simp [Except.mapError]

/-- What a loop that went through has established, from what each of its steps does. -/
theorem fold_ok {f : β → α → Prog σ ε β} (I : List α → β → σ → Prop)
    (step : ∀ past acc s a acc' s', I past acc s → f acc a s = (.ok acc',s') → I (past ++ [a]) acc' s')
    (items past : List α) (acc acc' : β) (s s' : σ) (start : I past acc s)
    (done : fold f acc items s = (.ok acc',s')) : I (past ++ items) acc' s' := by
  induction items generalizing past acc s with
  | nil =>
    rw [fold,pure_apply,Prod.mk.injEq,Except.ok.injEq] at done
    rw [List.append_nil,← done.1,← done.2]
    exact start
  | cons a rest ih =>
    rw [fold,bind_ok_iff] at done
    obtain ⟨acc₁,s₁,first,done⟩ := done
    simpa using ih (past ++ [a]) acc₁ s₁ (step past acc s a acc₁ s₁ start first) done

/-- A loop each of whose steps goes through goes through. -/
theorem fold_succeeds {f : β → α → Prog σ ε β} (I : β → σ → Prop)
    (step : ∀ acc s a, I acc s → ∃ acc' s', f acc a s = (.ok acc',s') ∧ I acc' s')
    (items : List α) (acc : β) (s : σ) (start : I acc s) :
    ∃ acc' s', fold f acc items s = (.ok acc',s') ∧ I acc' s' := by
  induction items generalizing acc s with
  | nil => exact ⟨acc,s,rfl,start⟩
  | cons a rest ih =>
    obtain ⟨acc₁,s₁,first,next⟩ := step acc s a start
    obtain ⟨acc₂,s₂,done,last⟩ := ih acc₁ s₁ next
    exact ⟨acc₂,s₂,by rw [fold,bind_of_ok first,done],last⟩

/-- Every value the program returns has the property. -/
def Gives (m : Prog σ ε α) (Q : α → Prop) : Prop := ∀ s a s', m s = (.ok a,s') → Q a

theorem Gives.pure {Q : α → Prop} {a : α} (holds : Q a) : Gives (pure a : Prog σ ε α) Q := by
  intro s b s' done
  rw [pure_apply,Prod.mk.injEq,Except.ok.injEq] at done
  exact done.1 ▸ holds

theorem Gives.fail {Q : α → Prop} (e : ε) : Gives (fail e : Prog σ ε α) Q := by
  intro s a s' done
  simp at done

theorem Gives.bind_of {m : Prog σ ε α} {f : α → Prog σ ε β} {R : α → Prop} {Q : β → Prop} (first : Gives m R)
    (second : ∀ a, R a → Gives (f a) Q) : Gives (m >>= f) Q := by
  intro s b s' done
  obtain ⟨a,s₁,start,ended⟩ := bind_ok_iff.mp done
  exact second a (first s a s₁ start) s₁ b s' ended

theorem Gives.bind {m : Prog σ ε α} {f : α → Prog σ ε β} {Q : β → Prop} (second : ∀ a, Gives (f a) Q) :
    Gives (m >>= f) Q := by
  intro s b s' done
  obtain ⟨a,s₁,_,ended⟩ := bind_ok_iff.mp done
  exact second a s₁ b s' ended

theorem Gives.guarded {drop : σ → σ} {m : Prog σ ε α} {Q : α → Prop} (inner : Gives m Q) : Gives (guarded drop m) Q :=
  fun s a s' done => inner s a s' (guarded_ok_iff.mp done)

/-- Whatever the outcome, the states before and after a run are related by `R`. -/
def Keeps (R : σ → σ → Prop) (m : Prog σ ε α) : Prop := ∀ s, R s (m s).2

section Rules
variable {R : σ → σ → Prop}

theorem Keeps.pure (refl : ∀ s, R s s) (a : α) : Keeps R (pure a : Prog σ ε α) := fun s => refl s

theorem Keeps.fail (refl : ∀ s, R s s) (e : ε) : Keeps R (fail e : Prog σ ε α) := fun s => refl s

theorem Keeps.ask (refl : ∀ s, R s s) (f : σ → α) : Keeps R (ask f : Prog σ ε α) := fun s => refl s

theorem Keeps.lift (refl : ∀ s, R s s) (r : Except ε α) : Keeps R (lift r : Prog σ ε α) := fun s => refl s

theorem Keeps.bind (trans : ∀ a b c, R a b → R b c → R a c) {m : Prog σ ε α} {f : α → Prog σ ε β}
    (first : Keeps R m) (second : ∀ a, Keeps R (f a)) : Keeps R (m >>= f) := by
  intro s
  have start := first s
  rw [bind_apply]
  split
  next a s' executed => rw [executed] at start; exact trans _ _ _ start (second a s')
  next e s' executed => rw [executed] at start; exact start

theorem Keeps.attempt {m : Prog σ ε α} (inner : Keeps R m) :
    Keeps R (attempt m : Prog σ ε' (Except ε α)) := fun s => inner s

theorem Keeps.mapError {f : ε → ε'} {m : Prog σ ε α} (inner : Keeps R m) : Keeps R (mapError f m) :=
  fun s => inner s

theorem Keeps.guarded (trans : ∀ a b c, R a b → R b c → R a c) {drop : σ → σ} {m : Prog σ ε α}
    (inner : Keeps R m) (dropped : ∀ s, R s (drop s)) : Keeps R (guarded drop m) := by
  intro s
  have start := inner s
  unfold Prog.guarded
  split
  next a s' executed => rw [executed] at start; exact start
  next e s' executed => rw [executed] at start; exact trans _ _ _ start (dropped s')

theorem Keeps.fold (refl : ∀ s, R s s) (trans : ∀ a b c, R a b → R b c → R a c)
    {f : β → α → Prog σ ε β} (items : List α) (step : ∀ acc, ∀ a ∈ items, Keeps R (f acc a)) (acc : β) :
    Keeps R (fold f acc items) := by
  induction items generalizing acc with
  | nil => exact Keeps.pure refl acc
  | cons a rest ih =>
    refine Keeps.bind trans (step acc a (by simp)) fun acc' => ih ?_ acc'
    exact fun acc b member => step acc b (by simp [member])

theorem Keeps.each (refl : ∀ s, R s s) (trans : ∀ a b c, R a b → R b c → R a c)
    {f : α → Prog σ ε Unit} (items : List α) (step : ∀ a ∈ items, Keeps R (f a)) :
    Keeps R (each f items) := by
  induction items with
  | nil => exact Keeps.pure refl ()
  | cons a rest ih =>
    refine Keeps.bind trans (step a (by simp)) fun _ => ih fun b member => step b (by simp [member])

/-- A sequence whose first half says something about the value it hands on. -/
theorem Keeps.bind_of (trans : ∀ a b c, R a b → R b c → R a c) {m : Prog σ ε α} {f : α → Prog σ ε β} {Q : α → Prop}
    (first : Keeps R m) (gives : Gives m Q) (second : ∀ a, Q a → Keeps R (f a)) : Keeps R (m >>= f) := by
  intro s
  have start := first s
  rw [bind_apply]
  split
  next a s' executed => rw [executed] at start; exact trans _ _ _ start (second a (gives s a s' executed) s')
  next e s' executed => rw [executed] at start; exact start

/-- A loop whose accumulator keeps in step with the items it has passed. -/
theorem Keeps.fold_along (refl : ∀ s, R s s) (trans : ∀ a b c, R a b → R b c → R a c) {f : β → α → Prog σ ε β}
    (I : List α → β → Prop) (items past : List α) (acc : β) (start : I past acc)
    (step : ∀ front a rest acc, past ++ items = front ++ a :: rest → I front acc →
      Keeps R (f acc a) ∧ Gives (f acc a) (I (front ++ [a]))) :
    Keeps R (Prog.fold f acc items) ∧ Gives (Prog.fold f acc items) (I (past ++ items)) := by
  induction items generalizing past acc with
  | nil =>
    rw [List.append_nil]
    exact ⟨Keeps.pure refl acc,Gives.pure start⟩
  | cons a rest ih =>
    obtain ⟨kept,gives⟩ := step past a rest acc rfl start
    have further : ∀ acc', I (past ++ [a]) acc' →
        Keeps R (Prog.fold f acc' rest) ∧ Gives (Prog.fold f acc' rest) (I (past ++ [a] ++ rest)) := by
      intro acc' here
      refine ih (past ++ [a]) acc' here fun front b tail acc same inv => ?_
      exact step front b tail acc (by rw [← same,List.append_assoc,List.singleton_append]) inv
    refine ⟨Keeps.bind_of trans kept gives fun acc' here => (further acc' here).1,?_⟩
    refine Gives.bind_of gives fun acc' here => ?_
    have ended := (further acc' here).2
    rwa [List.append_assoc,List.singleton_append] at ended

end Rules

/-! ### Logs -/

section Logs
variable {ω : Type}

/-- A program over a log only adds to it; `R` relates what one run adds to how the run ends. -/
def Emits (R : List ω → Except ε α → Prop) (m : Prog (List ω) ε α) : Prop :=
  ∀ log, ∃ new, (m log).2 = log ++ new ∧ R new (m log).1

theorem Emits.mono {R S : List ω → Except ε α → Prop} {m : Prog (List ω) ε α} (inner : Emits R m)
    (weaker : ∀ new r, R new r → S new r) : Emits S m := by
  intro log
  obtain ⟨new,added,holds⟩ := inner log
  exact ⟨new,added,weaker new _ holds⟩

theorem Emits.and {R S : List ω → Except ε α → Prop} {m : Prog (List ω) ε α} (left : Emits R m) (right : Emits S m) :
    Emits (fun new r => R new r ∧ S new r) m := by
  intro log
  obtain ⟨new,added,holds⟩ := left log
  obtain ⟨again,same,also⟩ := right log
  rw [added,List.append_cancel_left_eq] at same
  subst same
  exact ⟨new,added,holds,also⟩

/-- A relation that holds under a condition, for a program known to only add to its log. -/
theorem Emits.when {R S : List ω → Except ε α → Prop} {m : Prog (List ω) ε α} {p : Prop} (logs : Emits R m)
    (inner : p → Emits S m) : Emits (fun new r => p → S new r) m := by
  by_cases holds : p
  · exact (inner holds).mono fun _ _ more _ => more
  · exact logs.mono fun _ _ _ impossible => absurd impossible holds

theorem Emits.pure {R : List ω → Except ε α → Prop} {a : α} (holds : R [] (.ok a)) :
    Emits R (pure a : Prog (List ω) ε α) := fun log => ⟨[],by simp,holds⟩

theorem Emits.fail {R : List ω → Except ε α → Prop} {e : ε} (holds : R [] (.error e)) :
    Emits R (fail e : Prog (List ω) ε α) := fun log => ⟨[],by simp,holds⟩

theorem Emits.lift {R : List ω → Except ε α → Prop} {r : Except ε α} (holds : R [] r) :
    Emits R (lift r : Prog (List ω) ε α) := fun log => ⟨[],by simp,holds⟩

theorem Emits.bind {R : List ω → Except ε α → Prop} {S : List ω → Except ε β → Prop} {m : Prog (List ω) ε α}
    {f : α → Prog (List ω) ε β} (first : Emits R m) (failed : ∀ new e, R new (.error e) → S new (.error e))
    (second : ∀ a past, R past (.ok a) → Emits (fun new r => S (past ++ new) r) (f a)) : Emits S (m >>= f) := by
  intro log
  obtain ⟨past,added,holds⟩ := first log
  rw [bind_apply]
  split
  next a log' executed =>
    rw [executed] at added holds
    obtain rfl : log' = log ++ past := added
    obtain ⟨new,more,ended⟩ := second a past holds (log ++ past)
    refine ⟨past ++ new,?_,ended⟩
    rw [more,List.append_assoc]
  next e log' executed =>
    rw [executed] at added holds
    exact ⟨past,added,failed past e holds⟩

end Logs

end Prog
end Maxio
