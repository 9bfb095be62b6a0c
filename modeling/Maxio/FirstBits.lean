import Mathlib.Data.List.OfFn
import Mathlib.Data.List.Basic

/-!
The first bits of bit vectors, the most significant one first: compared through a mask, and byte by byte.
-/

namespace Maxio.FirstBits

/-- The first `count` bits of `x` and of `y` are the same. -/
def SameFirst {w : Nat} (count : Nat) (x y : BitVec w) : Prop := ∀ i < count, x.getMsbD i = y.getMsbD i

section
variable {w : Nat} {x y : BitVec w} {count : Nat}

theorem sameFirst_zero (x y : BitVec w) : SameFirst 0 x y := fun _ below => absurd below (Nat.not_lt_zero _)

theorem sameFirst_all : SameFirst w x y ↔ x = y := by
  constructor
  · intro same
    exact BitVec.eq_of_getMsbD_eq same
  · rintro rfl i _
    rfl

/-- Bits past the end are all zero. -/
theorem sameFirst_beyond (long : w ≤ count) : SameFirst count x y ↔ x = y := by
  rw [← sameFirst_all]
  constructor
  · intro same i below
    exact same i (by omega)
  · intro same i _
    by_cases inside : i < w
    · exact same i inside
    · simp [BitVec.getMsbD_eq_getLsbD,inside]

/-- A mask of ones in front keeps the first bits. -/
theorem masked_eq_iff (fits : count ≤ w) :
    x &&& BitVec.allOnes w <<< (w - count) = y &&& BitVec.allOnes w <<< (w - count) ↔ SameFirst count x y := by
  constructor
  · intro same i below
    have bit := congrArg (fun z => BitVec.getMsbD z i) same
    have kept : i + (w - count) < w := by omega
    simpa [BitVec.getMsbD_and,BitVec.getMsbD_shiftLeft,BitVec.getMsbD_allOnes,kept] using bit
  · intro same
    apply BitVec.eq_of_getMsbD_eq
    intro i _
    rw [BitVec.getMsbD_and,BitVec.getMsbD_and,BitVec.getMsbD_shiftLeft,BitVec.getMsbD_allOnes]
    by_cases below : i < count
    · rw [same i below]
    · have dropped : ¬ i + (w - count) < w := by omega
      simp [dropped]

end

/-! ### Bytes -/

section
variable {n : Nat}

/-- The bytes of a bit vector, the most significant one first. -/
def bytes (x : BitVec (8 * n)) : List (BitVec 8) := List.ofFn fun i : Fin n => x.extractLsb' (8 * (n - 1 - i.val)) 8

theorem length_bytes (x : BitVec (8 * n)) : (bytes x).length = n := List.length_ofFn

theorem getMsbD_byte (x : BitVec (8 * n)) {i j : Nat} (inside : i < n) (below : j < 8) :
    (x.extractLsb' (8 * (n - 1 - i)) 8).getMsbD j = x.getMsbD (8 * i + j) := by
  have fits : 8 * (n - 1 - i) + 8 - j ≤ 8 * n := by omega
  have place : 8 * n - (8 * (n - 1 - i) + 8 - j) = 8 * i + j := by omega
  rw [BitVec.getMsbD_extractLsb',place]
  simp [below,fits]

theorem getElem?_bytes (x : BitVec (8 * n)) {i : Nat} (inside : i < n) :
    (bytes x)[i]? = some (x.extractLsb' (8 * (n - 1 - i)) 8) := by
  rw [bytes,List.getElem?_ofFn,dif_pos inside]

/-- Two vectors agree on whole bytes and on some bits of the byte after them. -/
theorem sameFirst_bytes_iff {x y : BitVec (8 * n)} {full rest : Nat} (inside : full < n ∨ full = n ∧ rest = 0)
    (short : rest < 8) :
    SameFirst (8 * full + rest) x y ↔ (bytes x).take full = (bytes y).take full ∧
      SameFirst rest (x.extractLsb' (8 * (n - 1 - full)) 8) (y.extractLsb' (8 * (n - 1 - full)) 8) := by
  constructor
  · intro same
    constructor
    · apply List.ext_getElem?
      intro i
      rw [List.getElem?_take,List.getElem?_take]
      by_cases below : i < full
      · have here : i < n := by omega
        rw [if_pos below,if_pos below,getElem?_bytes x here,getElem?_bytes y here,Option.some.injEq]
        apply BitVec.eq_of_getMsbD_eq
        intro j bit
        rw [getMsbD_byte x here bit,getMsbD_byte y here bit]
        exact same _ (by omega)
      · rw [if_neg below,if_neg below]
    · intro j bit
      have here : full < n := by omega
      rw [getMsbD_byte x here (by omega),getMsbD_byte y here (by omega)]
      exact same _ (by omega)
  · rintro ⟨whole,part⟩ i below
    have split := Nat.div_add_mod i 8
    have bit := Nat.mod_lt i (show 0 < 8 by decide)
    by_cases early : i / 8 < full
    · have here : i / 8 < n := by omega
      have byte := congrArg (fun bytes => bytes[i / 8]?) whole
      simp only [List.getElem?_take,if_pos early,getElem?_bytes x here,getElem?_bytes y here,Option.some.injEq] at byte
      rw [← split,← getMsbD_byte x here bit,← getMsbD_byte y here bit,byte]
    · have last : i / 8 = full := by omega
      have here : full < n := by omega
      rw [← split,last,← getMsbD_byte x here bit,← getMsbD_byte y here bit]
      exact part _ (by omega)

end
end Maxio.FirstBits
