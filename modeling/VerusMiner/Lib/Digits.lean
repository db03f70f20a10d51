import Mathlib.Algebra.BigOperators.Ring.Finset
import Mathlib.Algebra.Order.BigOperators.Group.Finset
import Mathlib.Algebra.Order.Ring.Nat
import Mathlib.Tactic.Ring
import Mathlib.Tactic.Linarith

/-! Little-endian positional values: regrouping of digits, and the order of
two values read off their digits from the most significant one down. -/

namespace VerusMiner

/-- The value of the first `n` digits of `d` in base `b`, least significant first. -/
def leValue (b : Nat) (d : Nat → Nat) (n : Nat) : Nat := ∑ i ∈ Finset.range n, d i * b ^ i

@[simp] theorem leValue_zero (b : Nat) (d : Nat → Nat) : leValue b d 0 = 0 := rfl

theorem leValue_succ (b : Nat) (d : Nat → Nat) (n : Nat) :
    leValue b d (n + 1) = leValue b d n + d n * b ^ n := Finset.sum_range_succ _ _

theorem leValue_lt {b : Nat} {d : Nat → Nat} {n : Nat} (hd : ∀ i < n, d i < b) :
    leValue b d n < b ^ n := by
  induction n with
  | zero => simp
  | succ n ih =>
    have hlow := ih (fun i hi => hd i (by omega))
    have hhigh : (d n + 1) * b ^ n ≤ b * b ^ n := Nat.mul_le_mul_right _ (hd n (by omega))
    rw [leValue_succ, pow_succ]
    linarith

theorem leValue_congr {b : Nat} {d e : Nat → Nat} {n : Nat} (h : ∀ i < n, d i = e i) :
    leValue b d n = leValue b e n :=
  Finset.sum_congr rfl fun i hi => by rw [h i (Finset.mem_range.mp hi)]

theorem leValue_mono {b : Nat} {d e : Nat → Nat} {n : Nat} (h : ∀ i < n, d i ≤ e i) :
    leValue b d n ≤ leValue b e n :=
  Finset.sum_le_sum fun i hi => Nat.mul_le_mul_right _ (h i (Finset.mem_range.mp hi))

theorem leValue_add (b : Nat) (d : Nat → Nat) (n k : Nat) :
    leValue b d (n + k) = leValue b d n + leValue b (fun i => d (n + i)) k * b ^ n := by
  induction k with
  | zero => simp
  | succ k ih => rw [← Nat.add_assoc, leValue_succ, ih, leValue_succ, pow_add]; ring

theorem leValue_group (b : Nat) (d : Nat → Nat) (k n : Nat) :
    leValue b d (k * n) = leValue (b ^ k) (fun i => leValue b (fun j => d (k * i + j)) k) n := by
  induction n with
  | zero => simp
  | succ n ih => rw [Nat.mul_succ, leValue_add, ih, leValue_succ, pow_mul]

theorem leValue_digits (b x n : Nat) : leValue b (fun i => x / b ^ i % b) n = x % b ^ n := by
  induction n with
  | zero => rw [leValue_zero, pow_zero, Nat.mod_one]
  | succ n ih => rw [leValue_succ, ih, Nat.mod_pow_succ, Nat.mul_comm]

/-- Of a number with zeros from the place `n + k` on, what stands above the
place `n`. -/
theorem leValue_div {b : Nat} {d : Nat → Nat} {n k N : Nat} (hd : ∀ i < N, d i < b) (hN : n + k ≤ N)
    (hzero : ∀ i < N, n + k ≤ i → d i = 0) :
    leValue b d N / b ^ n = leValue b (fun i => d (n + i)) k := by
  obtain ⟨r, rfl⟩ := Nat.exists_eq_add_of_le hN
  have hhigh : leValue b (fun i => d (n + k + i)) r = 0 :=
    Finset.sum_eq_zero fun i hi => by
      dsimp only
      rw [hzero _ (Nat.add_lt_add_left (Finset.mem_range.mp hi) _) (Nat.le_add_right _ _), Nat.zero_mul]
  have hlow : leValue b d n < b ^ n := leValue_lt fun i hi => hd i (by omega)
  rw [leValue_add, hhigh, Nat.zero_mul, Nat.add_zero, leValue_add,
    Nat.add_mul_div_right _ _ (Nat.zero_lt_of_lt hlow), Nat.div_eq_of_lt hlow, Nat.zero_add]

theorem leValue_succ_le_iff {b : Nat} {d e : Nat → Nat} {n : Nat}
    (hd : ∀ i < n, d i < b) (he : ∀ i < n, e i < b) :
    leValue b d (n + 1) ≤ leValue b e (n + 1) ↔
      d n < e n ∨ d n = e n ∧ leValue b d n ≤ leValue b e n := by
  have hdl := leValue_lt hd
  have hel := leValue_lt he
  rw [leValue_succ, leValue_succ]
  rcases lt_trichotomy (d n) (e n) with h | h | h
  · have : (d n + 1) * b ^ n ≤ e n * b ^ n := Nat.mul_le_mul_right _ h
    constructor
    · exact fun _ => .inl h
    · intro _
      linarith
  · simp [h]
  · have : (e n + 1) * b ^ n ≤ d n * b ^ n := Nat.mul_le_mul_right _ h
    constructor
    · intro hle
      linarith
    · omega

end VerusMiner
