import Mathlib

/-!
Moments cut into windows, each of which opens with the first moment that the window before does not reach; and how many
of the moments that are picked from every window lie together in less than the length of one.
-/

namespace Maxio.Windows

/-! ### Counting in lists -/

/-- What passes a test begins somewhere, and is no more than what follows. -/
theorem exists_first {α : Type} {p : α → Bool} {xs : List α} (found : xs.filter p ≠ []) :
    ∃ j a, xs[j]? = some a ∧ p a = true ∧ (xs.filter p).length ≤ xs.length - j := by
  induction xs with
  | nil => exact absurd rfl found
  | cons x rest ih =>
    by_cases passes : p x = true
    · exact ⟨0,x,rfl,passes,List.length_filter_le p _⟩
    · rw [List.filter_cons_of_neg passes] at found ⊢
      obtain ⟨j,a,at_j,passes',few⟩ := ih found
      refine ⟨j + 1,a,by simpa using at_j,passes',?_⟩
      rw [List.length_cons]
      omega

/-- It ends somewhere, and is no more than what came before. -/
theorem exists_last {α : Type} {p : α → Bool} {xs : List α} (found : xs.filter p ≠ []) :
    ∃ k b, xs[k]? = some b ∧ p b = true ∧ (xs.filter p).length ≤ k + 1 := by
  induction xs with
  | nil => exact absurd rfl found
  | cons x rest ih =>
    by_cases later : rest.filter p = []
    · by_cases passes : p x = true
      · refine ⟨0,x,rfl,passes,?_⟩
        rw [List.filter_cons_of_pos passes,later]
        simp
      · rw [List.filter_cons_of_neg passes] at found
        exact absurd later found
    · obtain ⟨k,b,at_k,passes,few⟩ := ih later
      refine ⟨k + 1,b,by simpa using at_k,passes,?_⟩
      have one_more : ((x :: rest).filter p).length ≤ (rest.filter p).length + 1 := by
        rw [List.filter_cons]
        split <;> simp
      omega

/-! ### Picks from windows -/

/-- Within the closed interval. -/
def inside (first last : Nat) (x : Nat) : Bool := first ≤ x && x ≤ last

/-- No interval shorter than `gap` has more than `limit` of the moments in it. -/
def Bounded (gap limit : Nat) (xs : List Nat) : Prop :=
  ∀ first last, last < first + gap → (xs.filter (inside first last)).length ≤ limit

/-- Moments picked from a window, in order. -/
structure Picks (gap : Nat) (start : Nat) (xs : List Nat) : Prop where
  after : ∀ x ∈ xs, start ≤ x
  before : ∀ x ∈ xs, x < start + gap
  ordered : xs.Pairwise (· ≤ ·)

/-- Of the last of one window and the first of the next no more than `limit` lie within less than `gap`. -/
def Apart (gap limit : Nat) (xs ys : List Nat) : Prop :=
  ∀ j k a b, xs[j]? = some a → ys[k]? = some b → limit < xs.length - j + (k + 1) → a + gap ≤ b

/-- Windows with their starts, one after the other, each with its picks. -/
structure Spaced (gap : Nat) (ws : List (Nat × List Nat)) : Prop where
  picks : ∀ win ∈ ws, Picks gap win.1 win.2
  starts : ws.Pairwise fun win next => win.1 + gap ≤ next.1

theorem Spaced.tail {gap : Nat} {win : Nat × List Nat} {rest : List (Nat × List Nat)} (spaced : Spaced gap (win :: rest)) :
    Spaced gap rest :=
  ⟨fun other member => spaced.picks other (by simp [member]),(List.pairwise_cons.mp spaced.starts).2⟩

theorem Bounded.sublist {gap limit : Nat} {xs ys : List Nat} (bounded : Bounded gap limit ys) (sub : xs.Sublist ys) :
    Bounded gap limit xs :=
  fun first last short => (sub.filter _).length_le.trans (bounded first last short)

theorem filter_inside_nil {first last : Nat} {xs : List Nat} (late : ∀ x ∈ xs, last < x) :
    xs.filter (inside first last) = [] := by
  rw [List.filter_eq_nil_iff]
  intro x member
  have := late x member
  simp only [inside,Bool.and_eq_true,decide_eq_true_eq]
  omega

theorem inside_iff {first last x : Nat} : inside first last x = true ↔ first ≤ x ∧ x ≤ last := by
  simp [inside]

theorem le_of_mem_drop {xs : List Nat} {j : Nat} {short : j < xs.length} (ordered : xs.Pairwise (· ≤ ·)) {x : Nat}
    (member : x ∈ xs.drop j) : xs[j] ≤ x := by
  obtain ⟨i,long,rfl⟩ := List.mem_drop_iff_getElem.mp member
  by_cases same : i = 0
  · simp [same]
  · exact List.pairwise_iff_getElem.mp ordered j (j + i) short (by omega) (by omega)

theorem le_of_mem_take {xs : List Nat} {k : Nat} {short : k < xs.length} (ordered : xs.Pairwise (· ≤ ·)) {x : Nat}
    (member : x ∈ xs.take (k + 1)) : x ≤ xs[k] := by
  obtain ⟨i,long,rfl⟩ := List.mem_take_iff_getElem.mp member
  by_cases same : i = k
  · simp [same]
  · exact List.pairwise_iff_getElem.mp ordered i k (by omega) short (by omega)

/-- Where windows are apart, an interval that meets two of them has few picks in it. -/
theorem bounded_of_apart {gap limit : Nat} {ws : List (Nat × List Nat)} (spaced : Spaced gap ws)
    (few : ∀ win ∈ ws, win.2.length ≤ limit) (apart : (ws.map Prod.snd).IsChain (Apart gap limit)) :
    Bounded gap limit (ws.map Prod.snd).flatten := by
  intro first last short
  induction ws with
  | nil => simp
  | cons win rest ih =>
    rw [List.map_cons,List.flatten_cons,List.filter_append,List.length_append]
    have later := ih spaced.tail (fun other member => few other (by simp [member])) apart.tail
    by_cases empty : win.2.filter (inside first last) = []
    · rw [empty]
      simpa using later
    · obtain ⟨j,a,at_j,in_a,from_j⟩ := exists_first empty
      have own := few win (by simp)
      obtain ⟨low,high⟩ := inside_iff.mp in_a
      have a_before := (spaced.picks win (by simp)).before a (List.mem_of_getElem? at_j)
      cases rest with
      | nil =>
        simp only [List.map_nil,List.flatten_nil,List.filter_nil,List.length_nil]
        omega
      | cons next others =>
        -- the windows after the next begin too late
        have beyond : ((others.map Prod.snd).flatten).filter (inside first last) = [] := by
          apply filter_inside_nil
          intro x member
          obtain ⟨xs,listed,inside_xs⟩ := List.mem_flatten.mp member
          obtain ⟨other,listed',rfl⟩ := List.mem_map.mp listed
          have starts := List.pairwise_cons.mp spaced.starts
          have next_start := starts.1 next (by simp)
          have other_start := (List.pairwise_cons.mp starts.2).1 other listed'
          have x_after := (spaced.picks other (by simp [listed'])).after x inside_xs
          omega
        rw [List.map_cons,List.flatten_cons,List.filter_append,List.length_append,beyond,List.length_nil]
        by_cases none : next.2.filter (inside first last) = []
        · rw [none,List.length_nil]
          omega
        · obtain ⟨k,b,at_k,in_b,up_to_k⟩ := exists_last none
          have related := (List.isChain_cons_cons.mp apart).1
          have b_low := (inside_iff.mp in_b).2
          by_contra many
          have far := related j k a b at_j at_k (by omega)
          omega

/-- And where an interval never has more, the windows are apart. -/
theorem apart_of_bounded {gap limit : Nat} {ws : List (Nat × List Nat)} (positive : 0 < gap) (spaced : Spaced gap ws)
    (bounded : Bounded gap limit (ws.map Prod.snd).flatten) :
    (∀ win ∈ ws, win.2.length ≤ limit) ∧ (ws.map Prod.snd).IsChain (Apart gap limit) := by
  induction ws with
  | nil => simp
  | cons win rest ih =>
    rw [List.map_cons,List.flatten_cons] at bounded
    obtain ⟨few,chain⟩ := ih spaced.tail (bounded.sublist (List.sublist_append_right _ _))
    have picks := spaced.picks win (by simp)
    have own : win.2.length ≤ limit := by
      have whole := bounded win.1 (win.1 + gap - 1) (by omega)
      have all : win.2.filter (inside win.1 (win.1 + gap - 1)) = win.2 := by
        rw [List.filter_eq_self]
        intro x member
        have := picks.after x member
        have := picks.before x member
        exact inside_iff.mpr (by omega)
      rw [List.filter_append,all,List.length_append] at whole
      omega
    refine ⟨List.forall_mem_cons.mpr ⟨own,few⟩,?_⟩
    cases rest with
    | nil => simp
    | cons next others =>
      rw [List.map_cons,List.map_cons,List.isChain_cons_cons]
      refine ⟨fun j k a b at_j at_k many => ?_,by simpa using chain⟩
      by_contra near
      have picks' := spaced.picks next (by simp)
      have next_start := (List.pairwise_cons.mp spaced.starts).1 next (by simp)
      obtain ⟨short,rfl⟩ := List.getElem?_eq_some_iff.mp at_j
      obtain ⟨short',rfl⟩ := List.getElem?_eq_some_iff.mp at_k
      have interval := bounded win.2[j] next.2[k] (by omega)
      have sub : (win.2.drop j ++ next.2.take (k + 1)).Sublist
          (win.2 ++ ((next :: others).map Prod.snd).flatten) := by
        rw [List.map_cons,List.flatten_cons]
        exact (List.drop_sublist j _).append ((List.take_sublist (k + 1) _).trans (List.sublist_append_left _ _))
      have all : (win.2.drop j ++ next.2.take (k + 1)).filter (inside win.2[j] next.2[k]) =
          win.2.drop j ++ next.2.take (k + 1) := by
        rw [List.filter_eq_self]
        intro x member
        have below := picks.before _ (List.getElem_mem short)
        have above := picks'.after _ (List.getElem_mem short')
        apply inside_iff.mpr
        rcases List.mem_append.mp member with left | right
        · have := picks.before x (List.mem_of_mem_drop left)
          exact ⟨le_of_mem_drop picks.ordered left,by omega⟩
        · have := picks'.after x (List.mem_of_mem_take right)
          exact ⟨by omega,le_of_mem_take picks'.ordered right⟩
      have count := (sub.filter (inside win.2[j] next.2[k])).length_le
      rw [all,List.length_append,List.length_drop,List.length_take] at count
      omega

/-! ### Cutting moments into windows -/

/-- A window opens with a moment and holds what comes before `gap` has passed; the next opens with what is left. -/
def windows (gap : Nat) : List Nat → List (List Nat)
  | [] => []
  | t :: rest => (t :: rest.takeWhile (· < t + gap)) :: windows gap (rest.dropWhile (· < t + gap))
termination_by ts => ts.length
decreasing_by
  have := (List.dropWhile_sublist (· < t + gap) (l := rest)).length_le
  rw [List.length_cons]
  omega

theorem windows_cons (gap t : Nat) (rest : List Nat) :
    windows gap (t :: rest) =
      (t :: rest.takeWhile (· < t + gap)) :: windows gap (rest.dropWhile (· < t + gap)) := by
  rw [windows]

theorem windows_flatten (gap : Nat) (ts : List Nat) : (windows gap ts).flatten = ts := by
  induction ts using windows.induct gap with
  | case1 => rw [windows,List.flatten_nil]
  | case2 t rest ih => rw [windows_cons,List.flatten_cons,ih,List.cons_append,List.takeWhile_append_dropWhile]

/-- What opens a window, where it is not empty. -/
def opening (win : List Nat) : Nat := win.headD 0

theorem le_of_mem_cons {t : Nat} {rest : List Nat} (ordered : (t :: rest).Pairwise (· ≤ ·)) {x : Nat} (member : x ∈ t :: rest) :
    t ≤ x := by
  rcases List.mem_cons.mp member with rfl | later
  · exact le_refl x
  · exact (List.pairwise_cons.mp ordered).1 x later

/-- What is left over for later windows comes after this one. -/
theorem left_after {gap t : Nat} {rest : List Nat} (ordered : rest.Pairwise (· ≤ ·)) {x : Nat}
    (member : x ∈ rest.dropWhile (· < t + gap)) : t + gap ≤ x := by
  cases left : rest.dropWhile (· < t + gap) with
  | nil =>
    rw [left] at member
    simp at member
  | cons y others =>
    have first := List.head?_dropWhile_not (· < t + gap) rest
    rw [left] at first member
    have ordered' := ordered.sublist (List.dropWhile_sublist (· < t + gap))
    rw [left] at ordered'
    have after := le_of_mem_cons ordered' member
    simp at first
    omega

theorem windows_picks {gap : Nat} (positive : 0 < gap) {ts : List Nat} (ordered : ts.Pairwise (· ≤ ·)) :
    ∀ win ∈ windows gap ts, Picks gap (opening win) win := by
  induction ts using windows.induct gap with
  | case1 => simp [windows]
  | case2 t rest ih =>
    have rest_ordered := (List.pairwise_cons.mp ordered).2
    intro win member
    rw [windows_cons] at member
    rcases List.mem_cons.mp member with rfl | later
    · have sub : (t :: rest.takeWhile (· < t + gap)).Sublist (t :: rest) := (List.takeWhile_sublist _).cons_cons t
      refine ⟨fun x inside_win => le_of_mem_cons (ordered.sublist sub) inside_win,fun x inside_win => ?_,ordered.sublist sub⟩
      rcases List.mem_cons.mp inside_win with rfl | later
      · change x < x + gap
        omega
      · have := List.mem_takeWhile_imp later
        simpa [opening] using this
    · exact ih (rest_ordered.sublist (List.dropWhile_sublist _)) win later

theorem opening_mem {gap : Nat} {ts win : List Nat} (member : win ∈ windows gap ts) : opening win ∈ ts := by
  have inside_ts : opening win ∈ (windows gap ts).flatten := by
    apply List.mem_flatten.mpr
    refine ⟨win,member,?_⟩
    induction ts using windows.induct gap with
    | case1 => simp [windows] at member
    | case2 t rest ih =>
      rw [windows_cons] at member
      rcases List.mem_cons.mp member with rfl | later
      · exact List.mem_cons_self ..
      · exact ih later
  rwa [windows_flatten] at inside_ts

theorem windows_starts {gap : Nat} {ts : List Nat} (ordered : ts.Pairwise (· ≤ ·)) :
    (windows gap ts).Pairwise fun win next => opening win + gap ≤ opening next := by
  induction ts using windows.induct gap with
  | case1 => simp [windows]
  | case2 t rest ih =>
    have rest_ordered := (List.pairwise_cons.mp ordered).2
    rw [windows_cons]
    refine List.pairwise_cons.mpr ⟨fun next member => ?_,ih (rest_ordered.sublist (List.dropWhile_sublist _))⟩
    exact left_after rest_ordered (opening_mem member)

theorem Picks.sublist {gap start : Nat} {xs ys : List Nat} (picks : Picks gap start ys) (sub : xs.Sublist ys) :
    Picks gap start xs :=
  ⟨fun x member => picks.after x (sub.subset member),fun x member => picks.before x (sub.subset member),
    picks.ordered.sublist sub⟩

/-- Whatever is picked from every window. -/
theorem spaced_windows {gap : Nat} (positive : 0 < gap) {ts : List Nat} (ordered : ts.Pairwise (· ≤ ·))
    {pick : List Nat → List Nat} (sub : ∀ win, (pick win).Sublist win) :
    Spaced gap ((windows gap ts).map fun win => (opening win,pick win)) := by
  refine ⟨?_,List.pairwise_map.mpr (windows_starts ordered)⟩
  intro win member
  obtain ⟨whole,listed,rfl⟩ := List.mem_map.mp member
  exact (windows_picks positive ordered whole listed).sublist (sub whole)

/-- Intervals shorter than a window have no more picks than the limit where no window has and any two in a row are apart. -/
theorem bounded_picks_iff {gap limit : Nat} (positive : 0 < gap) {ts : List Nat} (ordered : ts.Pairwise (· ≤ ·))
    {pick : List Nat → List Nat} (sub : ∀ win, (pick win).Sublist win) :
    Bounded gap limit ((windows gap ts).map pick).flatten ↔
      (∀ win ∈ windows gap ts, (pick win).length ≤ limit) ∧ ((windows gap ts).map pick).IsChain (Apart gap limit) := by
  have spaced := spaced_windows positive ordered sub
  have seconds : ((windows gap ts).map fun win => (opening win,pick win)).map Prod.snd = (windows gap ts).map pick := by
    rw [List.map_map]
    rfl
  constructor
  · intro bounded
    obtain ⟨few,chain⟩ := apart_of_bounded positive spaced (by rwa [seconds])
    rw [seconds] at chain
    exact ⟨fun win listed => few _ (List.mem_map_of_mem listed),chain⟩
  · rintro ⟨few,chain⟩
    rw [← seconds] at chain ⊢
    refine bounded_of_apart spaced ?_ chain
    intro win member
    obtain ⟨whole,listed,rfl⟩ := List.mem_map.mp member
    exact few whole listed

/-- An interval that is as long as nothing is left out of has all of them. -/
theorem bounded_all_iff {gap limit : Nat} {xs : List Nat} (long : ∀ x ∈ xs, x < gap) :
    Bounded gap limit xs ↔ xs.length ≤ limit := by
  constructor
  · intro bounded
    by_cases none : xs = []
    · simp [none]
    · obtain ⟨x,member⟩ := List.exists_mem_of_ne_nil xs none
      have positive := long x member
      have whole := bounded 0 (gap - 1) (by omega)
      have all : xs.filter (inside 0 (gap - 1)) = xs := by
        rw [List.filter_eq_self]
        intro y listed
        have := long y listed
        exact inside_iff.mpr (by omega)
      rwa [all] at whole
  · intro few first last _
    exact (List.length_filter_le _ xs).trans few

end Maxio.Windows
