import Mathlib

/-!
Sources that are polled with a buffer of some capacity and hand over a piece of what is left, possibly shorter
than the buffer. An empty piece is the end of the source.
-/

namespace Maxio.Reading
variable {σ ε β : Type}

/-- One read into a buffer of the given capacity. -/
abbrev Poll (σ ε β : Type) := σ → Nat → Except ε (List β × σ)

/-- Read with the capacities `caps turn`, `caps (turn+1)`, ... until an empty piece or an error: what came out,
    and the error if there was one. `none` when the turns did not suffice. -/
def read_to_end (poll : Poll σ ε β) (caps : Nat → Nat) : Nat → Nat → σ → Option (List β × Option ε)
  | 0,_,_ => none
  | turns + 1,turn,s => match poll s (caps turn) with
    | .error e => some ([],some e)
    | .ok ([],_) => some ([],none)
    | .ok (b :: piece,s') => (read_to_end poll caps turns (turn + 1) s').map fun (out,e) => (b :: piece ++ out,e)

/-- `R s out`: what comes out of `s` is `out`, piece by piece. Reads may fail only if `mayFail`, and the source may
    end before all of `out` came only if `mayStop`. -/
structure Delivers (poll : Poll σ ε β) (mayFail mayStop : Prop) (R : σ → List β → Prop) : Prop where
  fails : ∀ s out cap e, 0 < cap → R s out → poll s cap = .error e → mayFail
  stops : ∀ s out cap s', 0 < cap → R s out → poll s cap = .ok ([],s') → out = [] ∨ mayStop
  gives : ∀ s out cap piece s', 0 < cap → R s out → poll s cap = .ok (piece,s') → piece ≠ [] →
    ∃ rest, out = piece ++ rest ∧ R s' rest

/-- The source delivers `out`. -/
def Yields (poll : Poll σ ε β) (mayFail mayStop : Prop) (s : σ) (out : List β) : Prop :=
  ∃ R, Delivers poll mayFail mayStop R ∧ R s out

/-- Everything is delivered, whatever the capacities. -/
abbrev Exactly (poll : Poll σ ε β) (s : σ) (out : List β) : Prop := Yields poll False False s out

section Yields
variable {poll : Poll σ ε β} {mayFail mayStop : Prop} {s s' : σ} {out piece : List β} {cap : Nat}

theorem Yields.fails {e : ε} (yields : Yields poll mayFail mayStop s out) (positive : 0 < cap)
    (polled : poll s cap = .error e) : mayFail := by
  obtain ⟨R,delivers,related⟩ := yields
  exact delivers.fails s out cap e positive related polled

theorem Yields.stops (yields : Yields poll mayFail mayStop s out) (positive : 0 < cap)
    (polled : poll s cap = .ok ([],s')) : out = [] ∨ mayStop := by
  obtain ⟨R,delivers,related⟩ := yields
  exact delivers.stops s out cap s' positive related polled

theorem Yields.gives (yields : Yields poll mayFail mayStop s out) (positive : 0 < cap)
    (polled : poll s cap = .ok (piece,s')) (nonempty : piece ≠ []) :
    ∃ rest, out = piece ++ rest ∧ Yields poll mayFail mayStop s' rest := by
  obtain ⟨R,delivers,related⟩ := yields
  obtain ⟨rest,same,next⟩ := delivers.gives s out cap piece s' positive related polled nonempty
  exact ⟨rest,same,R,delivers,next⟩

/-- `Yields` is itself a delivery, so a wrapping source can use it for what it wraps. -/
theorem yields_delivers (poll : Poll σ ε β) (mayFail mayStop : Prop) :
    Delivers poll mayFail mayStop (Yields poll mayFail mayStop) where
  fails _ _ _ _ positive yields polled := yields.fails positive polled
  stops _ _ _ _ positive yields polled := yields.stops positive polled
  gives _ _ _ _ _ positive yields polled nonempty := yields.gives positive polled nonempty

theorem Yields.mono {mayFail' mayStop' : Prop} (yields : Yields poll mayFail mayStop s out)
    (fail : mayFail → mayFail') (stop : mayStop → mayStop') : Yields poll mayFail' mayStop' s out := by
  obtain ⟨R,delivers,related⟩ := yields
  refine ⟨R,⟨?_,?_,delivers.gives⟩,related⟩
  · exact fun s out cap e positive related polled => fail (delivers.fails s out cap e positive related polled)
  · intro s out cap s' positive related polled
    exact (delivers.stops s out cap s' positive related polled).imp_right stop

/-- What a whole read of a delivering source gives. -/
theorem Yields.read (yields : Yields poll mayFail mayStop s out) (caps : Nat → Nat)
    (positive : ∀ n, 0 < caps n) (turns turn : Nat) (enough : out.length < turns) :
    ∃ emitted e, read_to_end poll caps turns turn s = some (emitted,e) ∧ emitted <+: out ∧
      (e = none → emitted = out ∨ mayStop) ∧ (e ≠ none → mayFail) := by
  induction turns generalizing s out turn with
  | zero => simp at enough
  | succ turns ih =>
    rw [read_to_end]
    split
    next e polled => exact ⟨[],some e,rfl,by simp,by simp,fun _ => yields.fails (positive _) polled⟩
    next s' polled =>
      refine ⟨[],none,rfl,by simp,fun _ => ?_,by simp⟩
      exact (yields.stops (positive _) polled).imp_left Eq.symm
    next b piece s' polled =>
      obtain ⟨rest,rfl,next⟩ := yields.gives (positive _) polled (by simp)
      obtain ⟨emitted,e,executed,within,ended,failed⟩ :=
        ih next (turn + 1) (by simp only [List.length_append,List.length_cons] at enough; omega)
      refine ⟨b :: piece ++ emitted,e,by rw [executed]; rfl,?_,?_,failed⟩
      · exact (List.prefix_append_right_inj _).mpr within
      · exact fun none => (ended none).imp_left fun same => by rw [same]

theorem Yields.read_exactly (yields : Exactly poll s out) (caps : Nat → Nat) (positive : ∀ n, 0 < caps n)
    (turns turn : Nat) (enough : out.length < turns) : read_to_end poll caps turns turn s = some (out,none) := by
  obtain ⟨emitted,e,executed,_,ended,failed⟩ := yields.read caps positive turns turn enough
  have clean : e = none := by
    by_contra err
    exact failed err
  subst clean
  rw [executed,(ended rfl).resolve_right id]

/-- A source inside of another that only passes its reads on. -/
theorem Yields.wrap {τ : Type} {poll' : Poll τ ε β} (into : σ → τ)
    (passes : ∀ s cap, poll' (into s) cap = (poll s cap).map fun r => (r.1,into r.2))
    (yields : Yields poll mayFail mayStop s out) : Yields poll' mayFail mayStop (into s) out := by
  refine ⟨fun t out => ∃ s, t = into s ∧ Yields poll mayFail mayStop s out,⟨?_,?_,?_⟩,s,rfl,yields⟩
  · rintro _ out cap e positive ⟨s,rfl,yields⟩ polled
    rw [passes] at polled
    rcases read : poll s cap with e' | r
    · exact yields.fails positive read
    · rw [read] at polled; cases polled
  · rintro _ out cap t positive ⟨s,rfl,yields⟩ polled
    rw [passes] at polled
    rcases read : poll s cap with e' | ⟨piece,s'⟩
    · rw [read] at polled; cases polled
    · rw [read] at polled
      cases polled
      exact yields.stops positive read
  · rintro _ out cap piece t positive ⟨s,rfl,yields⟩ polled nonempty
    rw [passes] at polled
    rcases read : poll s cap with e' | ⟨piece',s'⟩
    · rw [read] at polled; cases polled
    · rw [read] at polled
      cases polled
      obtain ⟨rest,same,next⟩ := yields.gives positive read nonempty
      exact ⟨rest,same,s',rfl,next⟩

end Yields

/-! ### Bounds on what can come out -/

/-- `R s n`: at most `n` more bytes come out of `s`. -/
def Limits (poll : Poll σ ε β) (R : σ → Nat → Prop) : Prop :=
  ∀ s n cap piece s', 0 < cap → R s n → poll s cap = .ok (piece,s') →
    piece.length ≤ n ∧ R s' (n - piece.length)

def AtMost (poll : Poll σ ε β) (s : σ) (n : Nat) : Prop := ∃ R, Limits poll R ∧ R s n

section AtMost
variable {poll : Poll σ ε β} {s s' : σ} {n cap : Nat} {piece : List β}

theorem AtMost.step (bounded : AtMost poll s n) (positive : 0 < cap) (polled : poll s cap = .ok (piece,s')) :
    piece.length ≤ n ∧ AtMost poll s' (n - piece.length) := by
  obtain ⟨R,limits,related⟩ := bounded
  obtain ⟨short,next⟩ := limits s n cap piece s' positive related polled
  exact ⟨short,R,limits,next⟩

theorem AtMost.mono {m : Nat} (bounded : AtMost poll s n) (wider : n ≤ m) : AtMost poll s m := by
  refine ⟨fun s m => ∃ n ≤ m, AtMost poll s n,?_,n,wider,bounded⟩
  rintro s m cap piece s' positive ⟨n,wider,bounded⟩ polled
  obtain ⟨short,next⟩ := bounded.step positive polled
  exact ⟨short.trans wider,n - piece.length,Nat.sub_le_sub_right wider _,next⟩

theorem AtMost.wrap {τ : Type} {poll' : Poll τ ε β} (into : σ → τ)
    (passes : ∀ s cap, poll' (into s) cap = (poll s cap).map fun r => (r.1,into r.2))
    (bounded : AtMost poll s n) : AtMost poll' (into s) n := by
  refine ⟨fun t n => ∃ s, t = into s ∧ AtMost poll s n,?_,s,rfl,bounded⟩
  rintro _ n cap piece t positive ⟨s,rfl,bounded⟩ polled
  rw [passes] at polled
  rcases read : poll s cap with e | ⟨piece',s'⟩
  · rw [read] at polled; cases polled
  · rw [read] at polled
    cases polled
    obtain ⟨short,next⟩ := bounded.step positive read
    exact ⟨short,s',rfl,next⟩

theorem AtMost.read (bounded : AtMost poll s n) (caps : Nat → Nat) (positive : ∀ n, 0 < caps n)
    (turns turn : Nat) {emitted : List β} {e : Option ε}
    (executed : read_to_end poll caps turns turn s = some (emitted,e)) : emitted.length ≤ n := by
  induction turns generalizing s n turn emitted with
  | zero => simp [read_to_end] at executed
  | succ turns ih =>
    rw [read_to_end] at executed
    split at executed
    next => obtain ⟨rfl,_⟩ := Prod.mk.inj (Option.some.inj executed); simp
    next => obtain ⟨rfl,_⟩ := Prod.mk.inj (Option.some.inj executed); simp
    next b piece s' polled =>
      obtain ⟨short,next⟩ := bounded.step (positive _) polled
      simp only [Option.map_eq_some_iff,Prod.mk.injEq,Prod.exists] at executed
      obtain ⟨out,e',rest,rfl,rfl⟩ := executed
      have tail := ih next (turn + 1) rest
      simp only [List.length_append] at *
      omega

end AtMost

/-! ### Sources that loop inside a read -/

/-- One turn of the loop inside a read: it returns, or goes round again. -/
inductive Turn (σ ε β : Type) where
  | ready (result : Except ε (List β × σ))
  | again (next : σ)

/-- Go round until a turn returns; `stuck` stands for a loop that needs more turns than are given. -/
def spin (turn : σ → Nat → Turn σ ε β) (stuck : ε) (cap : Nat) : Nat → σ → Except ε (List β × σ)
  | 0,_ => .error stuck
  | turns + 1,s => match turn s cap with
    | .ready result => result
    | .again next => spin turn stuck cap turns next

section Spin
variable {turn : σ → Nat → Turn σ ε β} {stuck : ε} {turns : σ → Nat} {mayFail mayStop : Prop}

/-- The result of a loop is that of a turn from some state the invariant leads to, provided going round
    again makes a measure smaller. -/
theorem spin_ready {I : σ → Prop} (measure : σ → Nat) {cap : Nat}
    (again : ∀ s s', I s → turn s cap = .again s' → I s' ∧ measure s' < measure s)
    (count : Nat) (s : σ) (enough : measure s < count) (start : I s) :
    ∃ s', I s' ∧ turn s' cap = .ready (spin turn stuck cap count s) := by
  induction count generalizing s with
  | zero => simp at enough
  | succ count ih =>
    rw [spin]
    split
    next result ready => exact ⟨s,start,ready⟩
    next s' more =>
      obtain ⟨next,smaller⟩ := again s s' start more
      exact ih s' (by omega) next

/-- A looping source delivers what its turns deliver. -/
theorem spin_delivers {R : σ → List β → Prop} (measure : σ → Nat)
    (bounded : ∀ s out, R s out → measure s < turns s)
    (again : ∀ s s' out cap, 0 < cap → R s out → turn s cap = .again s' → R s' out ∧ measure s' < measure s)
    (fails : ∀ s out cap e, 0 < cap → R s out → turn s cap = .ready (.error e) → mayFail)
    (stops : ∀ s out cap s', 0 < cap → R s out → turn s cap = .ready (.ok ([],s')) → out = [] ∨ mayStop)
    (gives : ∀ s out cap piece s', 0 < cap → R s out → turn s cap = .ready (.ok (piece,s')) → piece ≠ [] →
      ∃ rest, out = piece ++ rest ∧ R s' rest) :
    Delivers (fun s cap => spin turn stuck cap (turns s) s) mayFail mayStop R := by
  have settle : ∀ s out cap, 0 < cap → R s out →
      ∃ s', R s' out ∧ turn s' cap = .ready (spin turn stuck cap (turns s) s) :=
    fun s out cap positive start => spin_ready (I := fun s => R s out) measure
      (fun s s' related more => again s s' out cap positive related more) _ s (bounded s out start) start
  refine ⟨?_,?_,?_⟩
  · intro s out cap e positive start polled
    obtain ⟨s',related,ready⟩ := settle s out cap positive start
    exact fails s' out cap e positive related (polled ▸ ready)
  · intro s out cap s'' positive start polled
    obtain ⟨s',related,ready⟩ := settle s out cap positive start
    exact stops s' out cap s'' positive related (polled ▸ ready)
  · intro s out cap piece s'' positive start polled nonempty
    obtain ⟨s',related,ready⟩ := settle s out cap positive start
    exact gives s' out cap piece s'' positive related (polled ▸ ready) nonempty

theorem spin_limits {R : σ → Nat → Prop}
    (again : ∀ s s' n cap, 0 < cap → R s n → turn s cap = .again s' → R s' n)
    (gives : ∀ s n cap piece s', 0 < cap → R s n → turn s cap = .ready (.ok (piece,s')) →
      piece.length ≤ n ∧ R s' (n - piece.length)) :
    Limits (fun s cap => spin turn stuck cap (turns s) s) R := by
  intro s n cap piece s' positive start polled
  dsimp only at polled
  generalize turns s = count at polled
  induction count generalizing s with
  | zero => simp [spin] at polled
  | succ count ih =>
    rw [spin] at polled
    split at polled
    next result ready => exact gives s n cap piece s' positive start (polled ▸ ready)
    next next more => exact ih next (again s next n cap positive start more) polled

end Spin

/-! ### Plain sources -/

/-- An open file: its content, the position of the next read, and how many bytes more than one a read at each
    position hands over at most. -/
structure FileReader (β : Type) where
  data : List β
  pos : Nat
  grant : Nat → Nat

namespace FileReader

def poll_read (f : FileReader β) (cap : Nat) : Except ε (List β × FileReader β) :=
  let piece := (f.data.drop f.pos).take (min cap (f.grant f.pos + 1))
  .ok (piece,{ f with pos := f.pos + piece.length })

theorem yields (f : FileReader β) :
    Exactly (poll_read : Poll (FileReader β) ε β) f (f.data.drop f.pos) := by
  refine ⟨fun f out => out = f.data.drop f.pos,⟨?_,?_,?_⟩,rfl⟩
  · intro s out cap e _ _ polled
    simp [poll_read] at polled
  · rintro s out cap s' positive rfl polled
    simp only [poll_read,Except.ok.injEq,Prod.mk.injEq,List.take_eq_nil_iff] at polled
    rcases polled.1 with short | empty
    · omega
    · exact .inl empty
  · rintro s out cap piece s' _ rfl polled _
    simp only [poll_read,Except.ok.injEq,Prod.mk.injEq] at polled
    obtain ⟨rfl,rfl⟩ := polled
    refine ⟨_,(List.take_append_drop (min cap (s.grant s.pos + 1)) _).symm,?_⟩
    simp only [List.drop_drop,List.length_take,List.length_drop]
    by_cases inside : min cap (s.grant s.pos + 1) ≤ s.data.length - s.pos
    · rw [Nat.min_eq_left inside]
    · rw [List.drop_eq_nil_of_le (by omega),List.drop_eq_nil_of_le (by omega)]

theorem poll_read_fits (f : FileReader β) (cap : Nat) (piece : List β) (f' : FileReader β)
    (polled : (poll_read f cap : Except ε _) = .ok (piece,f')) : piece.length ≤ cap := by
  simp only [poll_read,Except.ok.injEq,Prod.mk.injEq] at polled
  rw [← polled.1,List.length_take]
  omega

end FileReader

/-- `AsyncReadExt::take`: at most `limit` bytes of the inner source. -/
structure Take (σ : Type) where
  inner : σ
  limit : Nat

namespace Take

def poll_read (poll : Poll σ ε β) (t : Take σ) (cap : Nat) : Except ε (List β × Take σ) :=
  if t.limit = 0 then .ok ([],t)
  else match poll t.inner (min cap t.limit) with
    | .error e => .error e
    | .ok (piece,inner) => .ok (piece,{ inner := inner, limit := t.limit - piece.length })

theorem yields {poll : Poll σ ε β} {inner : σ} {out : List β} (exact : Exactly poll inner out)
    (fits : ∀ s cap piece s', poll s cap = .ok (piece,s') → piece.length ≤ cap) (limit : Nat) :
    Exactly (poll_read poll) ⟨inner,limit⟩ (out.take limit) := by
  refine ⟨fun t rest => ∃ out, Exactly poll t.inner out ∧ rest = out.take t.limit,⟨?_,?_,?_⟩,out,exact,rfl⟩
  · rintro t rest cap e positive ⟨out,exact,rfl⟩ polled
    unfold poll_read at polled
    split at polled
    · cases polled
    · next open' =>
      split at polled
      · next failed => exact exact.fails (by omega) failed
      · cases polled
  · rintro t rest cap t' positive ⟨out,exact,rfl⟩ polled
    unfold poll_read at polled
    split at polled
    · next closed => simp [closed]
    · next open' =>
      split at polled
      · cases polled
      · next piece inner given =>
        simp only [Except.ok.injEq,Prod.mk.injEq] at polled
        obtain ⟨rfl,_⟩ := polled
        rcases exact.stops (by omega) given with rfl | impossible
        · simp
        · exact .inr impossible
  · rintro t rest cap piece t' positive ⟨out,exact,rfl⟩ polled nonempty
    unfold poll_read at polled
    split at polled
    · simp_all
    · next open' =>
      split at polled
      · cases polled
      · next piece' inner given =>
        simp only [Except.ok.injEq,Prod.mk.injEq] at polled
        obtain ⟨rfl,rfl⟩ := polled
        obtain ⟨tail,rfl,next⟩ := exact.gives (by omega) given nonempty
        have short : piece'.length ≤ t.limit := (fits _ _ _ _ given).trans (Nat.min_le_right _ _)
        refine ⟨tail.take (t.limit - piece'.length),?_,tail,next,rfl⟩
        rw [List.take_append,List.take_of_length_le short]

end Take
end Maxio.Reading
