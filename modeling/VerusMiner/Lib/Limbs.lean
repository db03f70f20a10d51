import Mathlib.Logic.Function.Basic
import VerusMiner.Lib.Digits

/-! Numbers in an array of machine words, the least significant word first:
what the loops over the words do to the number. -/

namespace VerusMiner

variable {w : Nat}

/-- The number in `n` words from the place `i` on. -/
def limbs (p : Nat → BitVec w) (i n : Nat) : Nat := leValue (2 ^ w) (fun j => (p (i + j)).toNat) n

/-- Adds one to `n` words from the place `i` on, and stops at the first word
that does not wrap around. -/
def increment (p : Nat → BitVec w) (i : Nat) : Nat → Nat → BitVec w
  | 0 => p
  | n + 1 =>
    let p := Function.update p i (p i + 1)
    if p i = 0 then increment p (i + 1) n else p

theorem limbs_zero (p : Nat → BitVec w) (i : Nat) : limbs p i 0 = 0 := rfl

theorem limbs_congr {p q : Nat → BitVec w} {i j n : Nat} (h : ∀ k < n, p (i + k) = q (j + k)) :
    limbs p i n = limbs q j n :=
  leValue_congr fun k hk => by rw [h k hk]

theorem limbs_front (p : Nat → BitVec w) (i n : Nat) :
    limbs p i (n + 1) = (p i).toNat + 2 ^ w * limbs p (i + 1) n := by
  have hone : leValue (2 ^ w) (fun j => (p (i + j)).toNat) 1 = (p i).toNat := by
    rw [leValue_succ, leValue_zero, pow_zero, Nat.mul_one, Nat.zero_add, Nat.add_zero]
  rw [limbs, Nat.add_comm n 1, leValue_add, hone, pow_one, Nat.mul_comm, limbs]
  simp only [Nat.add_assoc]

theorem limbs_lt (p : Nat → BitVec w) (i n : Nat) : limbs p i n < 2 ^ (w * n) := by
  rw [pow_mul]
  exact leValue_lt fun j _ => (p (i + j)).isLt

theorem toNat_word_succ (x : BitVec w) : (x + 1).toNat = (x.toNat + 1) % 2 ^ w := by
  rw [BitVec.toNat_add, show BitVec.toNat (1 : BitVec w) = 1 % 2 ^ w from rfl, Nat.add_mod_mod]

theorem word_succ_eq_zero (x : BitVec w) : x + 1 = 0 ↔ x.toNat + 1 = 2 ^ w := by
  have hx := x.isLt
  rw [← BitVec.toNat_inj, toNat_word_succ, show BitVec.toNat (0 : BitVec w) = 0 from Nat.zero_mod _]
  constructor
  · intro h
    have hdvd := Nat.le_of_dvd (Nat.succ_pos _) (Nat.dvd_of_mod_eq_zero h)
    omega
  · intro h
    rw [h, Nat.mod_self]

theorem increment_off (p : Nat → BitVec w) (i n : Nat) {j : Nat} (hj : j < i ∨ i + n ≤ j) :
    increment p i n j = p j := by
  induction n generalizing p i with
  | zero => rfl
  | succ n ih =>
    have hne : j ≠ i := by omega
    rw [increment]
    split
    · rw [ih _ _ (by omega), Function.update_of_ne hne]
    · rw [Function.update_of_ne hne]

theorem limbs_increment (p : Nat → BitVec w) (i n : Nat) :
    limbs (increment p i n) i n = (limbs p i n + 1) % 2 ^ (w * n) := by
  induction n generalizing p i with
  | zero => rw [limbs_zero, Nat.mul_zero, pow_zero, Nat.mod_one]
  | succ n ih =>
    have hrest : limbs (Function.update p i (p i + 1)) (i + 1) n = limbs p (i + 1) n :=
      limbs_congr fun k _ => Function.update_of_ne (by omega) _ _
    rw [increment]
    split
    case isTrue hwrap =>
      rw [Function.update_self] at hwrap
      have hself := (word_succ_eq_zero (p i)).mp hwrap
      have hcarry : limbs p i (n + 1) + 1 = 2 ^ w * (limbs p (i + 1) n + 1) := by
        rw [limbs_front, Nat.mul_succ]
        omega
      rw [limbs_front, increment_off _ _ _ (.inl (by omega)), Function.update_self, ih, hrest, hwrap, hcarry,
        show BitVec.toNat (0 : BitVec w) = 0 from Nat.zero_mod _, Nat.zero_add, Nat.mul_add_one w n,
        Nat.add_comm (w * n) w, pow_add, Nat.mul_mod_mul_left]
    case isFalse hstop =>
      rw [Function.update_self, word_succ_eq_zero] at hstop
      have hword := (p i).isLt
      have hself : (p i + 1).toNat = (p i).toNat + 1 := by
        rw [toNat_word_succ, Nat.mod_eq_of_lt (by omega)]
      have hsum : limbs (Function.update p i (p i + 1)) i (n + 1) = limbs p i (n + 1) + 1 := by
        rw [limbs_front, limbs_front, Function.update_self, hself, hrest]
        omega
      rw [← hsum, Nat.mod_eq_of_lt (limbs_lt _ _ _)]

end VerusMiner
