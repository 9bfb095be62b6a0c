import Maxio.Windows

/-!
The in-memory rate limiter of the server: a bucket for each client, whose count starts anew with the first call that comes
a window after the bucket was opened. What is allowed is the first `max` calls of each window, so that an interval which
meets two windows may hold more.
-/

namespace Maxio.Limiter
open Maxio.Windows

/-! ### The limiter -/

/-- Nanoseconds of the monotonic clock, whose seconds are an i64. -/
abbrev Instant := Fin (2 ^ 63 * 10 ^ 9)

structure Bucket where
  count : Nat
  window_start : Instant
deriving DecidableEq

/-- `bucket.count += 1`, which wraps around. -/
def Bucket.counted (bucket : Bucket) : Bucket := {bucket with count := (bucket.count + 1) % 2 ^ 32}

abbrev Buckets := String → Option Bucket

structure SlidingWindowLimiter where
  max : Nat
  window_secs : Nat
  max_u32 : max < 2 ^ 32
  window_u64 : window_secs < 2 ^ 64

/-- `now.duration_since(start).as_secs()`. -/
def elapsed_secs (now start : Instant) : Nat := (now.val - start.val) / 10 ^ 9

namespace SlidingWindowLimiter
variable (limiter : SlidingWindowLimiter)

def is_enabled : Bool := 0 < limiter.max

/-- `map.retain`: the age that evicts is twice the window, which wraps around. -/
def retain (now : Instant) (map : Buckets) : Buckets :=
  fun key => (map key).filter fun bucket => elapsed_secs now bucket.window_start < limiter.window_secs * 2 % 2 ^ 64

/-- A bucket whose window is over counts from the start. -/
def reset (now : Instant) (bucket : Bucket) : Bucket :=
  if limiter.window_secs ≤ elapsed_secs now bucket.window_start then ⟨0,now⟩ else bucket

/-- The seconds to wait where the call is over the limit, with the buckets afterwards. -/
def try_acquire (map : Buckets) (key : String) (now : Instant) : Option Nat × Buckets :=
  if limiter.is_enabled then
    let map := limiter.retain now map
    let bucket := (limiter.reset now ((map key).getD ⟨0,now⟩)).counted
    let outcome :=
      if limiter.max < bucket.count then
        some (Nat.max (limiter.window_secs - elapsed_secs now bucket.window_start) 1)
      else none
    (outcome,Function.update map key (some bucket))
  else (none,map)

end SlidingWindowLimiter

structure Call where
  key : String
  now : Instant
deriving DecidableEq

/-- Calls one after the other, each with its outcome. -/
def run (limiter : SlidingWindowLimiter) : Buckets → List Call → List (Call × Option Nat)
  | _,[] => []
  | map,call :: rest =>
    let (outcome,map) := limiter.try_acquire map call.key call.now
    (call,outcome) :: run limiter map rest

/-- A limiter that was just made. -/
def no_buckets : Buckets := fun _ => none

/-- The calls for a key in a run from the start, with their outcomes. -/
def outcomes (limiter : SlidingWindowLimiter) (key : String) (calls : List Call) : List (Call × Option Nat) :=
  (run limiter no_buckets calls).filter (·.1.key == key)

/-- When the calls for a key were allowed. -/
def allowed (limiter : SlidingWindowLimiter) (key : String) (calls : List Call) : List Nat :=
  ((outcomes limiter key calls).filter (·.2.isNone)).map (·.1.now.val)

/-! ### One bucket -/

/-- The age in seconds at which a bucket no longer counts: it was reset or evicted. -/
def SlidingWindowLimiter.lifetime (limiter : SlidingWindowLimiter) : Nat :=
  min limiter.window_secs (limiter.window_secs * 2 % 2 ^ 64)

/-- The bucket that a call leaves for its key. -/
def acquired (limiter : SlidingWindowLimiter) (before : Option Bucket) (now : Instant) : Bucket :=
  match before with
  | some bucket =>
    if elapsed_secs now bucket.window_start < limiter.lifetime then bucket.counted else ⟨1,now⟩
  | none => ⟨1,now⟩

theorem elapsed_self (now : Instant) : elapsed_secs now now = 0 := by
  simp [elapsed_secs]

theorem elapsed_lt_iff {now start : Instant} {secs : Nat} :
    elapsed_secs now start < secs ↔ now.val - start.val < secs * 10 ^ 9 := by
  rw [elapsed_secs]
  omega

theorem elapsed_mono (start : Instant) {now later : Instant} (order : now ≤ later) : elapsed_secs now start ≤ elapsed_secs later start := by
  have := Fin.le_def.mp order
  simp only [elapsed_secs]
  omega

theorem lifetime_lt_iff {limiter : SlidingWindowLimiter} {secs : Nat} :
    secs < limiter.lifetime ↔ secs < limiter.window_secs ∧ secs < limiter.window_secs * 2 % 2 ^ 64 := by
  rw [SlidingWindowLimiter.lifetime]
  omega

variable {limiter : SlidingWindowLimiter}

theorem counted_fresh (now : Instant) : Bucket.counted ⟨0,now⟩ = ⟨1,now⟩ := rfl

/-- A bucket is counted on where it was neither evicted nor reset. -/
theorem counted_entry (limiter : SlidingWindowLimiter) (before : Option Bucket) (now : Instant) :
    (limiter.reset now ((before.filter fun bucket =>
      elapsed_secs now bucket.window_start < limiter.window_secs * 2 % 2 ^ 64).getD ⟨0,now⟩)).counted =
      acquired limiter before now := by
  cases before with
  | none => simp [SlidingWindowLimiter.reset,acquired,elapsed_self,counted_fresh]
  | some bucket =>
    simp only [acquired,lifetime_lt_iff,Option.filter_some,decide_eq_true_eq,SlidingWindowLimiter.reset]
    by_cases young : elapsed_secs now bucket.window_start < limiter.window_secs * 2 % 2 ^ 64
    · rw [if_pos young,Option.getD_some]
      by_cases ended : limiter.window_secs ≤ elapsed_secs now bucket.window_start
      · rw [if_pos ended,if_neg (by omega),counted_fresh]
      · rw [if_neg ended,if_pos (by omega)]
    · have old : ¬ (elapsed_secs now bucket.window_start < limiter.window_secs ∧
          elapsed_secs now bucket.window_start < limiter.window_secs * 2 % 2 ^ 64) := by omega
      rw [if_neg young,Option.getD_none,if_neg old]
      split <;> exact counted_fresh now

/-- What a call does to its own key: the bucket counts the call, which is allowed unless the count is over the limit. -/
theorem try_acquire_own (enabled : 1 ≤ limiter.max) (map : Buckets) (key : String) (now : Instant) :
    (limiter.try_acquire map key now).2 key = some (acquired limiter (map key) now) ∧
      (limiter.try_acquire map key now).1 =
        if limiter.max < (acquired limiter (map key) now).count then
          some (Nat.max (limiter.window_secs - elapsed_secs now (acquired limiter (map key) now).window_start) 1)
        else none := by
  have on : limiter.is_enabled = true := decide_eq_true enabled
  have entry := counted_entry limiter (map key) now
  simp only [SlidingWindowLimiter.try_acquire,on,if_pos,SlidingWindowLimiter.retain,Function.update_self,entry,and_self]

/-- And what it does to any other: the bucket stays unless it is old. -/
theorem try_acquire_other (enabled : 1 ≤ limiter.max) (map : Buckets) {key other : String} (differ : other ≠ key)
    (now : Instant) : (limiter.try_acquire map key now).2 other = limiter.retain now map other := by
  have on : limiter.is_enabled = true := decide_eq_true enabled
  simp only [SlidingWindowLimiter.try_acquire,on,if_pos]
  exact Function.update_of_ne differ _ _

/-! ### Calls for other keys -/

/-- As far as a later call can tell: the same bucket, or one that it would not count on. -/
def Alike (limiter : SlidingWindowLimiter) (now : Instant) (kept whole : Option Bucket) : Prop :=
  kept = whole ∨ kept = none ∧ ∃ bucket, whole = some bucket ∧ limiter.lifetime ≤ elapsed_secs now bucket.window_start

theorem Alike.acquired {now later : Instant} {kept whole : Option Bucket} (alike : Alike limiter now kept whole)
    (order : now ≤ later) : acquired limiter kept later = acquired limiter whole later := by
  rcases alike with rfl | ⟨rfl,bucket,rfl,old⟩
  · rfl
  · have := elapsed_mono bucket.window_start order
    simp only [Limiter.acquired]
    rw [if_neg (by omega)]

/-- Eviction tells no call that was not told before. -/
theorem Alike.retain {now later : Instant} {map : Buckets} {key : String} {whole : Option Bucket}
    (alike : Alike limiter now (map key) whole) (order : now ≤ later) :
    Alike limiter later (limiter.retain later map key) whole := by
  rw [SlidingWindowLimiter.retain]
  rcases alike with same | ⟨none,bucket,rfl,old⟩
  · rw [same]
    cases whole with
    | none => exact Or.inl rfl
    | some bucket =>
      by_cases young : elapsed_secs later bucket.window_start < limiter.window_secs * 2 % 2 ^ 64
      · exact Or.inl (by rw [Option.filter_some,decide_eq_true young,if_pos rfl])
      · refine Or.inr ⟨by rw [Option.filter_some,decide_eq_false young,if_neg Bool.false_ne_true],bucket,rfl,?_⟩
        rw [SlidingWindowLimiter.lifetime]
        omega
  · have := elapsed_mono bucket.window_start order
    exact Or.inr ⟨by simp [none],bucket,rfl,by omega⟩

theorem run_own_alike (enabled : 1 ≤ limiter.max) (key : String) {calls : List Call}
    (monotone : calls.Pairwise (·.now ≤ ·.now)) {now : Instant} (later : ∀ call ∈ calls, now ≤ call.now) {map alone : Buckets}
    (alike : Alike limiter now (map key) (alone key)) :
    (run limiter map calls).filter (·.1.key == key) = run limiter alone (calls.filter (·.key == key)) := by
  induction calls generalizing now map alone with
  | nil => rfl
  | cons call rest ih =>
    have order := later call (by simp)
    have ⟨rest_later,rest_monotone⟩ := List.pairwise_cons.mp monotone
    by_cases own : call.key = key
    · subst own
      have ⟨left,outcome⟩ := try_acquire_own enabled map call.key call.now
      have ⟨left',outcome'⟩ := try_acquire_own enabled alone call.key call.now
      have same := alike.acquired order
      have kept : Alike limiter call.now ((limiter.try_acquire map call.key call.now).2 call.key)
          ((limiter.try_acquire alone call.key call.now).2 call.key) := Or.inl (by rw [left,left',same])
      have rest_same := ih rest_monotone rest_later kept
      simp only [run,List.filter_cons,beq_self_eq_true,if_pos]
      rw [rest_same,outcome,outcome',same]
    · have differ : (call.key == key) = false := by simpa using own
      have kept : Alike limiter call.now ((limiter.try_acquire map call.key call.now).2 key) (alone key) := by
        rw [try_acquire_other enabled map (Ne.symm own)]
        exact alike.retain order
      simp only [run,List.filter_cons,differ]
      exact ih rest_monotone rest_later kept

/-- Calls for other keys do not change what the calls for a key are told. -/
theorem outcomes_own (enabled : 1 ≤ limiter.max) (key : String) {calls : List Call} (monotone : calls.Pairwise (·.now ≤ ·.now)) :
    outcomes limiter key calls = outcomes limiter key (calls.filter (·.key == key)) := by
  have own : (calls.filter (·.key == key)).filter (·.key == key) = calls.filter (·.key == key) := by
    rw [List.filter_filter]
    simp
  have first : ∀ call ∈ calls, (⟨0,by decide⟩ : Instant) ≤ call.now := fun call _ => Fin.le_def.mpr (Nat.zero_le _)
  have alone : Alike limiter (⟨0,by decide⟩ : Instant) (no_buckets key) (no_buckets key) := Or.inl rfl
  rw [outcomes,outcomes,run_own_alike enabled key monotone first alone,
    run_own_alike enabled key (monotone.sublist List.filter_sublist) (fun call member =>
      first call (List.mem_of_mem_filter member)) alone,own]

/-! ### Which calls are allowed -/

/-- When a key's own calls are allowed, from the bucket before them. -/
def admitted (limiter : SlidingWindowLimiter) : Option Bucket → List Instant → List Nat
  | _,[] => []
  | before,now :: rest =>
    if limiter.max < (acquired limiter before now).count then admitted limiter (some (acquired limiter before now)) rest
    else now.val :: admitted limiter (some (acquired limiter before now)) rest

theorem run_admitted (enabled : 1 ≤ limiter.max) {key : String} {calls : List Call} (own : ∀ call ∈ calls, call.key = key)
    (map : Buckets) :
    ((run limiter map calls).filter (·.2.isNone)).map (·.1.now.val) = admitted limiter (map key) (calls.map (·.now)) := by
  induction calls generalizing map with
  | nil => rfl
  | cons call rest ih =>
    have same := own call (by simp)
    subst same
    have ⟨left,outcome⟩ := try_acquire_own enabled map call.key call.now
    have later := ih (fun other member => own other (by simp [member])) (limiter.try_acquire map call.key call.now).2
    rw [left] at later
    simp only [run,List.filter_cons,outcome,List.map_cons,admitted]
    split
    · simpa using later
    · simpa using later

/-- The moments that are counted within the limit where the count, a u32, goes on from `count`. -/
def answered (max : Nat) : Nat → List Nat → List Nat
  | _,[] => []
  | count,t :: rest =>
    if (count + 1) % 2 ^ 32 ≤ max then t :: answered max (count + 1) rest else answered max (count + 1) rest

theorem answered_sublist (max : Nat) (ts : List Nat) : ∀ count, (answered max count ts).Sublist ts := by
  induction ts with
  | nil => intro count; exact List.Sublist.refl _
  | cons t rest ih =>
    intro count
    rw [answered]
    split
    · exact (ih (count + 1)).cons_cons t
    · exact (ih (count + 1)).cons t

theorem answered_append (max : Nat) (xs ys : List Nat) :
    ∀ count, answered max count (xs ++ ys) = answered max count xs ++ answered max (count + xs.length) ys := by
  induction xs with
  | nil => intro count; rfl
  | cons x rest ih =>
    intro count
    have moved : count + 1 + rest.length = count + (rest.length + 1) := by omega
    rw [List.cons_append,answered,answered,ih (count + 1),List.length_cons,moved]
    split <;> rfl

/-- Below the bound of the u32, the first calls of a window are within the limit. -/
theorem answered_few (max : Nat) {ts : List Nat} :
    ∀ count, count + ts.length < 2 ^ 32 → answered max count ts = ts.take (max - count) := by
  induction ts with
  | nil => intro count _; rw [answered,List.take_nil]
  | cons t rest ih =>
    intro count short
    rw [List.length_cons] at short
    have value : (count + 1) % 2 ^ 32 = count + 1 := Nat.mod_eq_of_lt (by omega)
    rw [answered,value,ih (count + 1) (by omega)]
    by_cases within : count + 1 ≤ max
    · have more : max - count = max - (count + 1) + 1 := by omega
      rw [if_pos within,more,List.take_succ_cons]
    · have none : max - count = 0 := by omega
      have none' : max - (count + 1) = 0 := by omega
      rw [if_neg within,none,none',List.take_zero,List.take_zero]

/-- The count wraps around to zero, which is within any limit. -/
theorem answered_many {max : Nat} (bound : max < 2 ^ 32) {ts : List Nat} (many : 2 ^ 32 ≤ ts.length) :
    max < (answered max 0 ts).length := by
  have cut := List.take_append_drop (2 ^ 32 - 1) ts
  have first : (ts.take (2 ^ 32 - 1)).length = 2 ^ 32 - 1 := by
    rw [List.length_take]
    omega
  cases rest : ts.drop (2 ^ 32 - 1) with
  | nil =>
    have := congrArg List.length rest
    rw [List.length_drop,List.length_nil] at this
    omega
  | cons t others =>
    have before : (answered max 0 (ts.take (2 ^ 32 - 1))).length = max := by
      rw [answered_few max 0 (by omega),List.length_take,first]
      omega
    rw [← cut,rest,answered_append,List.length_append,before,first,answered,if_pos (by omega),List.length_cons]
    omega

/-- Calls that come before a bucket is old are counted on. -/
theorem admitted_within {xs : List Instant} (ys : List Instant) :
    ∀ (bucket : Bucket) (count : Nat), bucket.count = count % 2 ^ 32 →
      (∀ x ∈ xs, bucket.window_start ≤ x ∧ x.val < bucket.window_start.val + limiter.lifetime * 10 ^ 9) →
      ∃ last : Bucket, last.window_start = bucket.window_start ∧
        admitted limiter (some bucket) (xs ++ ys) =
          answered limiter.max count (xs.map Fin.val) ++ admitted limiter (some last) ys := by
  induction xs with
  | nil => intro bucket count _ _; exact ⟨bucket,rfl,rfl⟩
  | cons x rest ih =>
    intro bucket count counted within
    obtain ⟨after,before⟩ := within x (by simp)
    have := Fin.le_def.mp after
    have young : elapsed_secs x bucket.window_start < limiter.lifetime := elapsed_lt_iff.mpr (by omega)
    have bucket_after : acquired limiter (some bucket) x = bucket.counted := if_pos young
    have count_after : bucket.counted.count = (count + 1) % 2 ^ 32 := by
      change (bucket.count + 1) % 2 ^ 32 = _
      rw [counted]
      omega
    obtain ⟨last,start,rest_admitted⟩ := ih bucket.counted (count + 1) count_after (fun other member => within other (by simp [member]))
    refine ⟨last,start,?_⟩
    rw [List.cons_append,admitted,bucket_after,rest_admitted,count_after,List.map_cons,answered]
    by_cases over_limit : limiter.max < (count + 1) % 2 ^ 32
    · rw [if_pos over_limit,if_neg (by omega)]
    · rw [if_neg over_limit,if_pos (by omega),List.cons_append]

/-- What is allowed of a key's own calls is what is counted within the limit in each of their windows. -/
theorem admitted_windows (enabled : 1 ≤ limiter.max) {ts : List Nat} :
    ∀ (times : List Instant) (before : Option Bucket), times.map Fin.val = ts → times.Pairwise (· ≤ ·) →
      (∀ now ∈ times, ∀ bucket, before = some bucket → limiter.lifetime ≤ elapsed_secs now bucket.window_start) →
      admitted limiter before times = ((windows (limiter.lifetime * 10 ^ 9) ts).map (answered limiter.max 0)).flatten := by
  induction ts using windows.induct (limiter.lifetime * 10 ^ 9) with
  | case1 =>
    intro times before same _ _
    rw [List.map_eq_nil_iff.mp same,windows]
    rfl
  | case2 t rest ih =>
    intro times before same ordered old
    obtain ⟨now,others,rfl,rfl,rfl⟩ := List.map_eq_cons_iff.mp same
    obtain ⟨after,others_ordered⟩ := List.pairwise_cons.mp ordered
    have fresh : acquired limiter before now = ⟨1,now⟩ := by
      cases before with
      | none => rfl
      | some bucket =>
        have := old now (by simp) bucket rfl
        exact if_neg (by omega)
    have in_window : ∀ x ∈ others.takeWhile (fun x => x.val < now.val + limiter.lifetime * 10 ^ 9),
        now ≤ x ∧ x.val < now.val + limiter.lifetime * 10 ^ 9 := by
      intro x member
      exact ⟨after x ((List.takeWhile_sublist _).subset member),by simpa using List.mem_takeWhile_imp member⟩
    obtain ⟨last,start,cut⟩ := admitted_within
      (others.dropWhile fun x => x.val < now.val + limiter.lifetime * 10 ^ 9) ⟨1,now⟩ 1 rfl in_window
    rw [List.takeWhile_append_dropWhile] at cut
    have values : (others.map Fin.val).dropWhile (· < now.val + limiter.lifetime * 10 ^ 9) =
        (others.dropWhile fun x => x.val < now.val + limiter.lifetime * 10 ^ 9).map Fin.val := by
      rw [List.dropWhile_map]
      rfl
    have values' : (others.map Fin.val).takeWhile (· < now.val + limiter.lifetime * 10 ^ 9) =
        (others.takeWhile fun x => x.val < now.val + limiter.lifetime * 10 ^ 9).map Fin.val := by
      rw [List.takeWhile_map]
      rfl
    have later := ih _ (some last) values.symm (others_ordered.sublist (List.dropWhile_sublist _)) (by
      rintro x member bucket ⟨⟩
      have in_left : x.val ∈ (others.map Fin.val).dropWhile (· < now.val + limiter.lifetime * 10 ^ 9) := by
        rw [values]
        exact List.mem_map_of_mem member
      have := left_after (List.pairwise_map.mpr others_ordered) in_left
      have old_enough : ¬ elapsed_secs x now < limiter.lifetime := by
        rw [elapsed_lt_iff]
        omega
      rw [start]
      exact Nat.le_of_not_lt old_enough)
    have answered_first : answered limiter.max 0 (now.val :: (others.map Fin.val).takeWhile
        (· < now.val + limiter.lifetime * 10 ^ 9)) = now.val :: answered limiter.max 1
          ((others.map Fin.val).takeWhile (· < now.val + limiter.lifetime * 10 ^ 9)) := if_pos enabled
    rw [admitted,fresh,if_neg (Nat.not_lt.mpr enabled),cut,later,windows_cons,List.map_cons,List.flatten_cons,answered_first,
      List.cons_append,values']

/-! ### The bound on every window -/

/-- When a key was called for. -/
def times (key : String) (calls : List Call) : List Nat := (calls.filter (·.key == key)).map (·.now.val)

theorem times_ordered (key : String) {calls : List Call} (monotone : calls.Pairwise (·.now ≤ ·.now)) :
    (times key calls).Pairwise (· ≤ ·) :=
  List.pairwise_map.mpr (monotone.sublist List.filter_sublist)

theorem allowed_windows (enabled : 1 ≤ limiter.max) (key : String) {calls : List Call} (monotone : calls.Pairwise (·.now ≤ ·.now)) :
    allowed limiter key calls =
      ((windows (limiter.lifetime * 10 ^ 9) (times key calls)).map (answered limiter.max 0)).flatten := by
  have own : ∀ call ∈ calls.filter (·.key == key), call.key = key := fun call member => by
    simpa using (List.mem_filter.mp member).2
  have first : ∀ call ∈ calls, (⟨0,by decide⟩ : Instant) ≤ call.now := fun call _ => Fin.le_def.mpr (Nat.zero_le _)
  have ordered : ((calls.filter (·.key == key)).map (·.now)).Pairwise (· ≤ ·) :=
    List.pairwise_map.mpr (monotone.sublist List.filter_sublist)
  rw [allowed,outcomes,run_own_alike enabled key monotone first (Or.inl rfl : Alike limiter _ _ (no_buckets key)),
    run_admitted enabled own]
  apply admitted_windows enabled _ _ _ ordered
  · rintro now _ bucket ⟨⟩
  · rw [List.map_map]
    rfl

/-- No window of a key has so many calls that the count wraps around, and of the calls that are counted at the end of one
    window and at the start of the next, those that are more than the limit lie a whole window apart. A window so long that
    the age of eviction wraps around reaches over all there is. -/
structure Regular (limiter : SlidingWindowLimiter) (ts : List Nat) : Prop where
  few : ∀ win ∈ windows (limiter.lifetime * 10 ^ 9) ts, win.length < 2 ^ 32
  apart : limiter.window_secs < 2 ^ 63 →
    (((windows (limiter.window_secs * 10 ^ 9) ts).map (List.take limiter.max)).IsChain
      (Apart (limiter.window_secs * 10 ^ 9) limiter.max))
  total : 2 ^ 63 ≤ limiter.window_secs →
    (((windows (limiter.lifetime * 10 ^ 9) ts).map (List.take limiter.max)).flatten.length ≤ limiter.max)

theorem few_of_answered {ws : List (List Nat)} (within : ∀ win ∈ ws, (answered limiter.max 0 win).length ≤ limiter.max) :
    ∀ win ∈ ws, win.length < 2 ^ 32 := by
  intro win listed
  by_contra many
  have := answered_many limiter.max_u32 (Nat.le_of_not_lt many)
  have := within win listed
  omega

theorem answered_first_calls {ws : List (List Nat)} (few : ∀ win ∈ ws, win.length < 2 ^ 32) :
    ws.map (answered limiter.max 0) = ws.map (List.take limiter.max) :=
  List.map_congr_left fun win listed => answered_few limiter.max 0 (by
    have := few win listed
    omega)

theorem lifetime_short (short : limiter.window_secs < 2 ^ 63) : limiter.lifetime = limiter.window_secs := by
  rw [SlidingWindowLimiter.lifetime,Nat.mod_eq_of_lt (by omega)]
  omega

/-- A window of no length holds one call. -/
theorem windows_zero {ts : List Nat} (ordered : ts.Pairwise (· ≤ ·)) : windows 0 ts = ts.map fun t => [t] := by
  induction ts with
  | nil => rw [windows,List.map_nil]
  | cons t rest ih =>
    obtain ⟨after,rest_ordered⟩ := List.pairwise_cons.mp ordered
    have none : rest.takeWhile (· < t + 0) = [] ∧ rest.dropWhile (· < t + 0) = rest := by
      cases rest with
      | nil => exact ⟨rfl,rfl⟩
      | cons u others =>
        have := after u (by simp)
        have late : ¬ u < t + 0 := by omega
        exact ⟨List.takeWhile_cons_of_neg (by simpa using late),List.dropWhile_cons_of_neg (by simpa using late)⟩
    rw [windows_cons,none.1,none.2,ih rest_ordered,List.map_cons]

theorem chain_zero (max : Nat) {ts : List Nat} (ordered : ts.Pairwise (· ≤ ·)) :
    ((windows 0 ts).map (List.take max)).IsChain (Apart 0 max) := by
  rw [windows_zero ordered,List.map_map,List.isChain_map]
  refine ordered.isChain.imp ?_
  intro t u order j k a b at_j at_k _
  have a_first := List.mem_of_mem_take (List.mem_of_getElem? at_j)
  have b_first := List.mem_of_mem_take (List.mem_of_getElem? at_k)
  rw [List.mem_singleton] at a_first b_first
  omega

theorem bounded_zero (max : Nat) (ts : List Nat) : Bounded 0 max ts := by
  intro first last short
  have nothing : ts.filter (inside first last) = [] := by
    rw [List.filter_eq_nil_iff]
    intro x _ within
    have := inside_iff.mp within
    omega
  rw [nothing]
  exact Nat.zero_le max

theorem bounded_regular_iff (limiter : SlidingWindowLimiter) {ts : List Nat} (ordered : ts.Pairwise (· ≤ ·)) (early : ∀ t ∈ ts, t < 2 ^ 63 * 10 ^ 9) :
    Bounded (limiter.window_secs * 10 ^ 9) limiter.max
        ((windows (limiter.lifetime * 10 ^ 9) ts).map (answered limiter.max 0)).flatten ↔
      Regular limiter ts := by
  by_cases short : limiter.window_secs < 2 ^ 63
  · have same := lifetime_short short
    by_cases empty : limiter.window_secs = 0
    · have none : limiter.window_secs * 10 ^ 9 = 0 := by rw [empty,Nat.zero_mul]
      rw [same,none]
      refine iff_of_true (bounded_zero _ _) ⟨?_,fun _ => ?_,fun long => absurd short (by omega)⟩
      · rw [same,none,windows_zero ordered]
        intro win listed
        obtain ⟨t,-,rfl⟩ := List.mem_map.mp listed
        simp
      · rw [none]
        exact chain_zero _ ordered
    · have positive : 0 < limiter.window_secs * 10 ^ 9 := by omega
      rw [same,bounded_picks_iff positive ordered fun win => answered_sublist limiter.max win 0]
      constructor
      · rintro ⟨within,chain⟩
        have few := few_of_answered within
        rw [answered_first_calls few] at chain
        exact ⟨same ▸ few,fun _ => chain,fun long => absurd short (by omega)⟩
      · rintro ⟨few,chain,-⟩
        rw [same] at few
        refine ⟨fun win listed => ?_,?_⟩
        · have := few win listed
          rw [answered_few limiter.max 0 (by omega)]
          exact List.length_take_le _ _
        · rw [answered_first_calls few]
          exact chain short
  · have reach : ∀ t ∈ ((windows (limiter.lifetime * 10 ^ 9) ts).map (answered limiter.max 0)).flatten,
        t < limiter.window_secs * 10 ^ 9 := by
      intro t member
      have sub : (((windows (limiter.lifetime * 10 ^ 9) ts).map (answered limiter.max 0)).flatten) ⊆ ts := by
        intro x listed
        obtain ⟨win,in_map,within⟩ := List.mem_flatten.mp listed
        obtain ⟨whole,of_windows,rfl⟩ := List.mem_map.mp in_map
        rw [← windows_flatten (limiter.lifetime * 10 ^ 9) ts]
        exact List.mem_flatten.mpr ⟨whole,of_windows,(answered_sublist limiter.max whole 0).subset within⟩
      exact (early t (sub member)).trans_le (Nat.mul_le_mul_right _ (Nat.le_of_not_lt short))
    rw [bounded_all_iff reach]
    constructor
    · intro total
      have few : ∀ win ∈ windows (limiter.lifetime * 10 ^ 9) ts, win.length < 2 ^ 32 := by
        refine @few_of_answered limiter _ fun win listed => ?_
        have part := (List.sublist_flatten_of_mem (List.mem_map_of_mem (f := answered limiter.max 0) listed)).length_le
        omega
      rw [answered_first_calls few] at total
      exact ⟨few,fun below => absurd below short,fun _ => total⟩
    · rintro ⟨few,-,total⟩
      rw [answered_first_calls few]
      exact total (Nat.le_of_not_lt short)

/-- In any interval that is shorter than the window no more than `max` calls for a key are allowed, and calls for other keys
    change nothing, as long as the windows of the key's own calls are regular. -/
theorem rate_limit_bounds_iff (limiter : SlidingWindowLimiter) (key : String) (calls : List Call) (enabled : 1 ≤ limiter.max)
    (monotone : calls.Pairwise (·.now ≤ ·.now)) :
    ((∀ first last, last < first + limiter.window_secs * 10 ^ 9 →
        ((allowed limiter key calls).filter (inside first last)).length ≤ limiter.max) ∧
      outcomes limiter key calls = outcomes limiter key (calls.filter (·.key == key))) ↔
      Regular limiter (times key calls) := by
  have early : ∀ t ∈ times key calls, t < 2 ^ 63 * 10 ^ 9 := by
    intro t member
    obtain ⟨call,-,rfl⟩ := List.mem_map.mp member
    exact call.now.isLt
  have bound := bounded_regular_iff limiter (times_ordered key monotone) early
  rw [← allowed_windows enabled key monotone] at bound
  constructor
  · rintro ⟨bounded,-⟩
    exact bound.mp bounded
  · intro regular
    exact ⟨bound.mpr regular,outcomes_own enabled key monotone⟩

namespace Sample

/-- Two requests a minute. -/
def two_a_minute : SlidingWindowLimiter := ⟨2,60,by decide,by decide⟩

/-- A moment in tenths of a second. -/
def tenths (n : Nat) : Instant := ⟨n * 10 ^ 8 % (2 ^ 63 * 10 ^ 9),Nat.mod_lt _ (by decide)⟩

/-- A client that comes back after the minute, with another in between. -/
def spread_calls : List Call := [⟨"10.0.0.1",tenths 0⟩,⟨"10.0.0.2",tenths 5⟩,⟨"10.0.0.1",tenths 10⟩,⟨"10.0.0.1",tenths 620⟩]

/-- A client that calls twice around the reset of its window. -/
def reset_calls : List Call :=
  [⟨"10.0.0.1",tenths 0⟩,⟨"10.0.0.1",tenths 599⟩,⟨"10.0.0.1",tenths 600⟩,⟨"10.0.0.1",tenths 600⟩]

end Sample

theorem rate_limit_bounds_spread :
    (∀ first last, last < first + 60 * 10 ^ 9 →
        ((allowed Sample.two_a_minute "10.0.0.1" Sample.spread_calls).filter (inside first last)).length ≤ 2) ∧
      outcomes Sample.two_a_minute "10.0.0.1" Sample.spread_calls =
        outcomes Sample.two_a_minute "10.0.0.1" (Sample.spread_calls.filter (·.key == "10.0.0.1")) := by
  have moments : times "10.0.0.1" Sample.spread_calls = [0,10 ^ 9,62 * 10 ^ 9] := by decide
  have lifetime : Sample.two_a_minute.lifetime = 60 := by decide
  have cut : windows (60 * 10 ^ 9) [0,10 ^ 9,62 * 10 ^ 9] = [[0,10 ^ 9],[62 * 10 ^ 9]] := by simp [windows]
  refine (rate_limit_bounds_iff Sample.two_a_minute "10.0.0.1" Sample.spread_calls (by decide) (by decide)).mpr ?_
  rw [moments]
  refine ⟨?_,fun _ => ?_,fun long => absurd long (by decide)⟩
  · rw [lifetime,cut]
    simp
  · change ((windows (60 * 10 ^ 9) _).map (List.take 2)).IsChain _
    rw [cut]
    refine List.isChain_cons_cons.mpr ⟨?_,List.isChain_singleton _⟩
    intro j k a b at_j at_k _
    have a_in := List.mem_of_getElem? at_j
    have b_in := List.mem_of_getElem? at_k
    change a + 60 * 10 ^ 9 ≤ b
    simp at a_in b_in
    omega

/-- The last tenth of a second of one window and the first moment of the next hold three calls where two are the limit. -/
theorem reset_allows_three :
    ¬ ∀ (limiter : SlidingWindowLimiter) (key : String) (calls : List Call), 1 ≤ limiter.max →
      calls.Pairwise (·.now ≤ ·.now) →
      ((∀ first last, last < first + limiter.window_secs * 10 ^ 9 →
          ((allowed limiter key calls).filter (inside first last)).length ≤ limiter.max) ∧
        outcomes limiter key calls = outcomes limiter key (calls.filter (·.key == key))) := by
  intro claim
  have bounded := (claim Sample.two_a_minute "10.0.0.1" Sample.reset_calls (by decide) (by decide)).1
    (599 * 10 ^ 8) (600 * 10 ^ 8) (by decide)
  exact absurd bounded (by decide)

end Maxio.Limiter
