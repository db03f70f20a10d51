import Mathlib.Algebra.CharP.Two
import Mathlib.Algebra.Polynomial.Div
import Mathlib.Algebra.Field.ZMod
import Mathlib.Algebra.Polynomial.Degree.Lemmas
import Mathlib.Algebra.CharP.Algebra

/-! Words as polynomials over the field of two elements: bit `i` is the
coefficient of `X ^ i`. Exclusive or is addition, shifts multiply by a power of
`X`, and the carry-less product is the product. -/

namespace VerusMiner

open Polynomial

variable {w w' : Nat}

noncomputable def toPoly (v : BitVec w) : (ZMod 2)[X] :=
  ∑ i ∈ Finset.range w, if v.getLsbD i then X ^ i else 0

/-- The product without carries: one shifted copy of `y` for each bit of `x`. -/
def clmul (x : BitVec w) (y : BitVec w') : BitVec (w + w') :=
  (List.range w).foldl (fun p i => if x.getLsbD i then p ^^^ (y.setWidth (w + w') <<< i) else p) 0

theorem coeff_toPoly (v : BitVec w) (i : Nat) :
    (toPoly v).coeff i = if v.getLsbD i then 1 else 0 := by
  have hterm (j : Nat) : (if v.getLsbD j then (X : (ZMod 2)[X]) ^ j else 0).coeff i =
      if i = j then (if v.getLsbD i then 1 else 0) else 0 := by
    by_cases hij : i = j
    · subst hij
      cases v.getLsbD i <;> simp
    · cases v.getLsbD j <;> simp [coeff_X_pow, hij]
  rw [toPoly, finsetSum_coeff]
  simp only [hterm, Finset.sum_ite_eq, Finset.mem_range]
  by_cases hi : i < w
  · rw [if_pos hi]
  · rw [if_neg hi, BitVec.getLsbD_of_ge v i (Nat.le_of_not_lt hi), if_neg Bool.false_ne_true]

theorem toPoly_ext {v : BitVec w} {v' : BitVec w'} (h : ∀ i, v.getLsbD i = v'.getLsbD i) :
    toPoly v = toPoly v' := by
  ext i
  rw [coeff_toPoly, coeff_toPoly, h i]

theorem toPoly_setWidth (v : BitVec w) (hw : w ≤ w') : toPoly (v.setWidth w') = toPoly v := by
  refine toPoly_ext fun i => ?_
  rw [BitVec.getLsbD_setWidth]
  by_cases hi : i < w'
  · simp [hi]
  · simp [BitVec.getLsbD_of_ge v i (by omega)]

theorem toPoly_zero : toPoly (0 : BitVec w) = 0 := by
  ext i
  simp [coeff_toPoly]

theorem toPoly_xor (v u : BitVec w) : toPoly (v ^^^ u) = toPoly v + toPoly u := by
  ext i
  rw [coeff_add, coeff_toPoly, coeff_toPoly, coeff_toPoly, BitVec.getLsbD_xor]
  cases v.getLsbD i <;> cases u.getLsbD i <;> simp [CharTwo.add_self_eq_zero]

theorem toPoly_shiftLeft {v : BitVec w} {n : Nat} (h : ∀ i, w ≤ i + n → v.getLsbD i = false) :
    toPoly (v <<< n) = toPoly v * X ^ n := by
  ext i
  rw [coeff_mul_X_pow', coeff_toPoly, BitVec.getLsbD_shiftLeft]
  by_cases hn : n ≤ i
  · rw [if_pos hn, coeff_toPoly]
    by_cases hi : i < w
    · simp [hi, show ¬ i < n by omega]
    · simp [hi, h (i - n) (by omega)]
  · simp [hn, show i < n by omega]

/-- A word is its upper part, moved up, and its lower part. -/
theorem toPoly_halves (v : BitVec w) (n m : Nat) (hw : w ≤ n + m) :
    toPoly v = toPoly (v.extractLsb' n m) * X ^ n + toPoly (v.extractLsb' 0 n) := by
  ext i
  rw [coeff_add, coeff_mul_X_pow', coeff_toPoly, coeff_toPoly, coeff_toPoly,
    BitVec.getLsbD_extractLsb', BitVec.getLsbD_extractLsb']
  by_cases hn : n ≤ i
  · rw [if_pos hn, show n + (i - n) = i by omega]
    by_cases hm : i - n < m
    · simp [hm, show ¬ i < n by omega]
    · simp [hm, show ¬ i < n by omega, BitVec.getLsbD_of_ge v i (by omega)]
  · simp [hn, show i < n by omega]

theorem natDegree_toPoly_le (v : BitVec (w + 1)) : (toPoly v).natDegree ≤ w := by
  rw [natDegree_le_iff_coeff_eq_zero]
  intro i hi
  rw [coeff_toPoly, BitVec.getLsbD_of_ge v i hi, if_neg Bool.false_ne_true]

theorem degree_toPoly_lt (v : BitVec w) : (toPoly v).degree < w := by
  rw [degree_lt_iff_coeff_zero]
  intro i hi
  rw [coeff_toPoly, BitVec.getLsbD_of_ge v i hi, if_neg Bool.false_ne_true]

theorem getLsbD_of_natDegree_lt {v : BitVec w} {i : Nat} (h : (toPoly v).natDegree < i) :
    v.getLsbD i = false := by
  have hcoeff := coeff_eq_zero_of_natDegree_lt h
  rw [coeff_toPoly] at hcoeff
  simpa using hcoeff

theorem toPoly_clmul (x : BitVec w) (y : BitVec w') : toPoly (clmul x y) = toPoly x * toPoly y := by
  -- The first `n` bits of `x` contribute their terms.
  have hsteps (n : Nat) (hn : n ≤ w) :
      toPoly ((List.range n).foldl
        (fun p i => if x.getLsbD i then p ^^^ (y.setWidth (w + w') <<< i) else p)
        (0 : BitVec (w + w'))) =
        (∑ i ∈ Finset.range n, if x.getLsbD i then X ^ i else 0) * toPoly y := by
    induction n with
    | zero =>
      rw [List.range_zero, List.foldl_nil, Finset.sum_range_zero, zero_mul]
      exact toPoly_zero
    | succ n ih =>
      have hshift : toPoly (y.setWidth (w + w') <<< n) = toPoly y * X ^ n := by
        rw [toPoly_shiftLeft, toPoly_setWidth y (Nat.le_add_left w' w)]
        intro i hi
        rw [BitVec.getLsbD_setWidth, BitVec.getLsbD_of_ge y i (by omega), Bool.and_false]
      rw [List.range_succ, List.foldl_append, List.foldl_cons, List.foldl_nil, Finset.sum_range_succ,
        add_mul, ← ih (by omega)]
      split_ifs
      · rw [toPoly_xor, hshift, mul_comm (X ^ n)]
      · rw [zero_mul, add_zero]
  exact hsteps w (Nat.le_refl w)

/-- Folding the upper half down twice leaves the remainder, where the second
fold leaves nothing above `n`. -/
theorem modByMonic_of_folds {a₁ a₀ b₁ b₀ c : (ZMod 2)[X]} {n : Nat} (hc : c.degree < n)
    (hfold : a₁ * c = b₁ * X ^ n + b₀) (hdeg : (b₁ * c + b₀ + a₀).degree < n) :
    (a₁ * X ^ n + a₀) %ₘ (X ^ n + c) = b₁ * c + b₀ + a₀ := by
  have hmonic : (X ^ n + c).Monic := monic_X_pow_add hc
  have hlead : c.degree < (X ^ n : (ZMod 2)[X]).degree := by rwa [degree_X_pow]
  have hdegree : (X ^ n + c).degree = (n : WithBot Nat) := by
    rw [degree_add_eq_left_of_degree_lt hlead, degree_X_pow]
  have hlt : (b₁ * c + b₀ + a₀).degree < (X ^ n + c).degree := hdegree ▸ hdeg
  refine (div_modByMonic_unique (a₁ + b₁) (b₁ * c + b₀ + a₀) hmonic ⟨?_, hlt⟩).2
  calc b₁ * c + b₀ + a₀ + (X ^ n + c) * (a₁ + b₁)
      = a₁ * X ^ n + a₀ + (a₁ * c + (b₁ * X ^ n + b₀)) + (b₁ * c + b₁ * c) := by ring
    _ = a₁ * X ^ n + a₀ := by
      rw [hfold, CharTwo.add_self_eq_zero, CharTwo.add_self_eq_zero, add_zero, add_zero]

end VerusMiner
