import VerusMiner.ClHash
import VerusMiner.Lib.BinaryPoly

/-! The reduction of the accumulator is the remainder by a polynomial: it folds
the upper half down by a carry-less product, and what that leaves above bit 63
by a table. -/

namespace VerusMiner

open Polynomial

/-- The irreducible polynomial (64, 4, 3, 1, 0). -/
noncomputable def reductionPoly : (ZMod 2)[X] := X ^ 64 + X ^ 4 + X ^ 3 + X + 1

/-- The bytes of the table of `precompReduction64_si128`. -/
def reductionTable : List Nat := [0, 27, 54, 45, 108, 119, 90, 65, 216, 195, 238, 245, 180, 175, 130, 153]

theorem clmul64_eq (x y : BitVec 64) : clmul64 x y = clmul x y := rfl

theorem toPoly_tail : toPoly (27 : BitVec 5) = X ^ 4 + X ^ 3 + X + 1 := by
  rw [toPoly]
  simp [Finset.sum_range_succ]
  ring

theorem reductionTable_eq (h : BitVec 4) :
    (BitVec.ofNat 8 (reductionTable.getD h.toNat 0)).setWidth 9 = clmul h (27 : BitVec 5) := by
  revert h
  decide

theorem lane64_xor (a b : Vec) (k : Nat) : lane64 (a ^^^ b) k = lane64 a k ^^^ lane64 b k :=
  BitVec.extractLsb'_xor

theorem toPoly_lane64 (A : Vec) : toPoly A = toPoly (lane64 A 1) * X ^ 64 + toPoly (lane64 A 0) := by
  rw [lane64, lane64, Nat.mul_one, Nat.mul_zero]
  exact toPoly_halves A 64 64 (Nat.le_refl 128)

theorem lane8_setWidth {w : Nat} (v : BitVec w) (hw : w ≤ 8) {k : Nat} (hk : k < 16) :
    lane8 (v.setWidth 128) k = if k = 0 then v.setWidth 8 else 0 := by
  apply BitVec.eq_of_getLsbD_eq
  intro i hi
  rw [lane8, BitVec.getLsbD_extractLsb', BitVec.getLsbD_setWidth]
  split_ifs with h0
  · simp [h0, hi, show i < 128 by omega]
  · simp [BitVec.getLsbD_of_ge v (8 * k + i) (by omega)]

theorem lane64_setWidth {w : Nat} (v : BitVec w) :
    lane64 (v.setWidth 128) 0 = v.setWidth 64 := by
  apply BitVec.eq_of_getLsbD_eq
  intro i hi
  simp [lane64, hi, show i < 128 by omega]

/-- A shuffle by a number below 16 looks one byte up and clears the others,
for which the control is 0 and the table too. -/
theorem shuffleEpi8_reductionTable (h : BitVec 4) :
    shuffleEpi8 (setrEpi8 reductionTable) (h.setWidth 128) =
      (BitVec.ofNat 8 (reductionTable.getD h.toNat 0)).setWidth 128 := by
  apply eq_of_lane8
  intro k hk
  rw [shuffleEpi8, lane8_ofLanes8 _ hk, lane8_setWidth h (by omega) hk,
    lane8_setWidth _ (Nat.le_refl 8) hk]
  by_cases h0 : k = 0
  · have htop : (h.setWidth 8).getLsbD 7 = false := by
      rw [BitVec.getLsbD_setWidth, BitVec.getLsbD_of_ge h 7 (by omega), Bool.and_false]
    have hlow : (h.setWidth 8).toNat % 16 = h.toNat := by
      have := h.isLt
      rw [BitVec.toNat_setWidth]
      omega
    rw [if_pos h0, if_pos h0, htop, if_neg Bool.false_ne_true, hlow, setrEpi8, lane8_ofLanes8 _ h.isLt,
      BitVec.setWidth_eq]
  · rw [if_neg h0, if_neg h0]
    rfl

section Folds

variable (A : Vec)

def firstFold : Vec := clmul64 (lane64 A 1) 27

/-- What the first fold leaves above bit 63. -/
def overflow : BitVec 4 := (firstFold A).extractLsb' 64 4

theorem precompReduction64Si128_eq :
    precompReduction64Si128 .portable A =
      shuffleEpi8 (setrEpi8 reductionTable) (srliSi128 (firstFold A) 8) ^^^ (firstFold A ^^^ A) := rfl

theorem toPoly_firstFold :
    toPoly (firstFold A) = toPoly (lane64 A 1) * (X ^ 4 + X ^ 3 + X + 1) := by
  have htail : (27 : BitVec 64) = (27 : BitVec 5).setWidth 64 := rfl
  rw [firstFold, clmul64_eq, toPoly_clmul, htail, toPoly_setWidth _ (by omega), toPoly_tail]

/-- The overflow has four bits at most: the factors have degree 63 and 4. -/
theorem firstFold_getLsbD {i : Nat} (hi : 68 ≤ i) : (firstFold A).getLsbD i = false := by
  apply getLsbD_of_natDegree_lt
  have hdegree : (toPoly (firstFold A)).natDegree ≤ 63 + 4 := by
    rw [toPoly_firstFold, ← toPoly_tail]
    exact natDegree_mul_le_of_le (natDegree_toPoly_le (lane64 A 1)) (natDegree_toPoly_le (27 : BitVec 5))
  omega

theorem srliSi128_firstFold : srliSi128 (firstFold A) 8 = (overflow A).setWidth 128 := by
  apply BitVec.eq_of_getLsbD_eq
  intro i hi
  rw [srliSi128, BitVec.getLsbD_ushiftRight, BitVec.getLsbD_setWidth, overflow,
    BitVec.getLsbD_extractLsb']
  by_cases h4 : i < 4
  · simp [h4, hi]
  · simp [h4, firstFold_getLsbD A (show 68 ≤ 8 * 8 + i by omega)]

theorem toPoly_firstFold_high : toPoly (lane64 (firstFold A) 1) = toPoly (overflow A) := by
  refine toPoly_ext fun i => ?_
  rw [lane64, overflow, BitVec.getLsbD_extractLsb', BitVec.getLsbD_extractLsb']
  by_cases h4 : i < 4
  · simp [h4, show i < 64 by omega]
  · simp [h4, firstFold_getLsbD A (show 68 ≤ 64 * 1 + i by omega)]

/-- The second fold: the table adds the overflow times the tail. -/
theorem toPoly_precompReduction64_folds :
    toPoly (precompReduction64 .portable A) =
      toPoly (overflow A) * (X ^ 4 + X ^ 3 + X + 1) + toPoly (lane64 (firstFold A) 0) +
        toPoly (lane64 A 0) := by
  rw [precompReduction64, cvtsi128Si64, precompReduction64Si128_eq, srliSi128_firstFold,
    shuffleEpi8_reductionTable, lane64_xor, lane64_xor, lane64_setWidth, toPoly_xor,
    toPoly_xor, toPoly_setWidth _ (by omega), ← add_assoc, ← toPoly_tail, ← toPoly_clmul,
    ← reductionTable_eq, toPoly_setWidth _ (by omega)]

end Folds

/-- On both builds the reduction is the remainder by the irreducible polynomial. -/
theorem precompReduction64_modByMonic (build : Build) (A : Vec) :
    toPoly (precompReduction64 build A) = toPoly A %ₘ reductionPoly := by
  have hpoly : reductionPoly = X ^ 64 + (X ^ 4 + X ^ 3 + X + 1) := by
    rw [reductionPoly]
    ring
  have htail : (X ^ 4 + X ^ 3 + X + 1 : (ZMod 2)[X]).degree < 64 := by
    rw [← toPoly_tail]
    exact (degree_toPoly_lt (27 : BitVec 5)).trans_le (by norm_num)
  have hfold : toPoly (lane64 A 1) * (X ^ 4 + X ^ 3 + X + 1) =
      toPoly (overflow A) * X ^ 64 + toPoly (lane64 (firstFold A) 0) := by
    rw [← toPoly_firstFold, toPoly_lane64, toPoly_firstFold_high]
  have hdegree : (toPoly (overflow A) * (X ^ 4 + X ^ 3 + X + 1) + toPoly (lane64 (firstFold A) 0) +
      toPoly (lane64 A 0)).degree < 64 := by
    rw [← toPoly_precompReduction64_folds]
    exact degree_toPoly_lt (precompReduction64 .portable A)
  rw [precompReduction64_build, toPoly_precompReduction64_folds, toPoly_lane64 A, hpoly]
  exact (modByMonic_of_folds htail hfold hdegree).symm

end VerusMiner
