import VerusMiner.Lib.Store
import VerusMiner.Lib.Digits
import Mathlib.Tactic.IntervalCases

/-! Byte memory of a little-endian machine: the words and vectors stored in
it and the unsigned number a run of bytes stands for. An array of the source
is a total function; the cells past its extent are never read. -/

namespace VerusMiner

abbrev Byte := BitVec 8
abbrev Word := BitVec 32
abbrev Vec := BitVec 128
abbrev Mem := Nat → Byte

def leBytes {w : Nat} (v : BitVec w) : Mem := fun i => v.extractLsb' (8 * i) 8

def le32dec (m : Mem) (off : Nat) : Word := m (off + 3) ++ m (off + 2) ++ m (off + 1) ++ m off

def be32dec (m : Mem) (off : Nat) : Word := m off ++ m (off + 1) ++ m (off + 2) ++ m (off + 3)

def swab32 (v : Word) : Word := be32dec (leBytes v) 0

def store32 (m : Mem) (off : Nat) (v : Word) : Mem := memcpy m off (leBytes v) 0 4

def load128 (m : Mem) (off : Nat) : Vec :=
  le32dec m (off + 12) ++ le32dec m (off + 8) ++ le32dec m (off + 4) ++ le32dec m off

def store128 (m : Mem) (off : Nat) (v : Vec) : Mem := memcpy m off (leBytes v) 0 16

def leNat (m : Mem) (off n : Nat) : Nat := leValue 256 (fun i => (m (off + i)).toNat) n

def lane32 (v : Vec) (k : Nat) : Word := v.extractLsb' (32 * k) 32

theorem toNat_and_low {w : Nat} {x mask : BitVec w} (k : Nat) (hmask : mask.toNat = 2 ^ k - 1) :
    (x &&& mask).toNat = x.toNat % 2 ^ k := by
  rw [BitVec.toNat_and, hmask, Nat.and_two_pow_sub_one_eq_mod]

theorem le32dec_congr {m m' : Mem} {off off' : Nat} (h : ∀ i < 4, m (off + i) = m' (off' + i)) :
    le32dec m off = le32dec m' off' := by
  simp only [le32dec, h 3 (by omega), h 2 (by omega), h 1 (by omega),
    show m off = m' off' from h 0 (by omega)]

theorem load128_congr {m m' : Mem} {off off' : Nat} (h : ∀ i < 16, m (off + i) = m' (off' + i)) :
    load128 m off = load128 m' off' := by
  have hw (k : Nat) (hk : k ≤ 12) : le32dec m (off + k) = le32dec m' (off' + k) :=
    le32dec_congr fun i hi => by simpa only [Nat.add_assoc] using h (k + i) (by omega)
  simp only [load128, hw 12 (by omega), hw 8 (by omega), hw 4 (by omega),
    show le32dec m off = le32dec m' off' from hw 0 (by omega)]

theorem leNat_congr {m m' : Mem} {off off' n : Nat} (h : ∀ i < n, m (off + i) = m' (off' + i)) :
    leNat m off n = leNat m' off' n :=
  leValue_congr fun i hi => by rw [h i hi]

theorem le32dec_leBytes {w : Nat} (v : BitVec w) (k : Nat) :
    le32dec (leBytes v) (4 * k) = v.extractLsb' (32 * k) 32 := by
  apply BitVec.eq_of_getLsbD_eq
  intro i hi
  simp only [le32dec, leBytes, BitVec.getLsbD_append, BitVec.getLsbD_extractLsb', hi,
    decide_true, Bool.true_and]
  split_ifs with h₁ h₂ h₃
  · simp only [h₁, decide_true, Bool.true_and]
    congr 1
    omega
  · simp only [h₂, decide_true, Bool.true_and]
    congr 1
    omega
  · simp only [h₃, decide_true, Bool.true_and]
    congr 1
    omega
  · simp only [show i - 8 - 8 - 8 < 8 by omega, decide_true, Bool.true_and]
    congr 1
    omega

theorem le32dec_leBytes_zero (v : Word) : le32dec (leBytes v) 0 = v := by
  simpa using le32dec_leBytes v 0

theorem leBytes_le32dec (m : Mem) (off : Nat) {i : Nat} (hi : i < 4) :
    leBytes (le32dec m off) i = m (off + i) := by
  apply BitVec.eq_of_getLsbD_eq
  intro j hj
  simp only [leBytes, le32dec, BitVec.getLsbD_extractLsb', BitVec.getLsbD_append, hj,
    decide_true, Bool.true_and]
  interval_cases i
  · simp [hj]
  · simp [hj]
  · simp [show ¬ 8 * 2 + j < 8 by omega, show 8 * 2 + j - 8 - 8 = j by omega,
      show ¬ 8 * 2 + j - 8 < 8 by omega, hj]
  · simp [show ¬ 8 * 3 + j < 8 by omega, show ¬ 8 * 3 + j - 8 < 8 by omega,
      show ¬ 8 * 3 + j - 8 - 8 < 8 by omega, show 8 * 3 + j - 8 - 8 - 8 = j by omega]

theorem swab32_le32dec (m : Mem) (off : Nat) : swab32 (le32dec m off) = be32dec m off := by
  have h0 : leBytes (le32dec m off) 0 = m off := leBytes_le32dec m off (by omega)
  simp only [swab32, be32dec, Nat.zero_add, h0, leBytes_le32dec m off (show 1 < 4 by omega),
    leBytes_le32dec m off (show 2 < 4 by omega), leBytes_le32dec m off (show 3 < 4 by omega)]

theorem le32dec_memcpy_leBytes {w : Nat} (m : Mem) (off n : Nat) (v : BitVec w) {k : Nat}
    (hk : 4 * k + 4 ≤ n) :
    le32dec (memcpy m off (leBytes v) 0 n) (off + 4 * k) = v.extractLsb' (32 * k) 32 := by
  rw [← le32dec_leBytes]
  apply le32dec_congr
  intro i hi
  rw [Nat.add_assoc, memcpy_at (by omega), Nat.zero_add]

theorem le32dec_store32 (m : Mem) (off : Nat) (v : Word) :
    le32dec (store32 m off v) off = v := by
  simpa [store32] using le32dec_memcpy_leBytes m off 4 v (k := 0) (by omega)

theorem toNat_append_byte {w : Nat} (a : BitVec w) (b : Byte) :
    (a ++ b).toNat = a.toNat * 256 + b.toNat := by
  rw [BitVec.toNat_append, Nat.shiftLeft_eq, Nat.mul_comm,
    ← Nat.two_pow_add_eq_or_of_lt b.isLt]

theorem toNat_le32dec (m : Mem) (off : Nat) :
    (le32dec m off).toNat = leValue 256 (fun i => (m (off + i)).toNat) 4 := by
  simp only [le32dec, toNat_append_byte, leValue_succ, leValue_zero, Nat.add_zero]
  ring

theorem leNat_words (m : Mem) (off n : Nat) :
    leNat m off (4 * n) = leValue (2 ^ 32) (fun i => (le32dec m (off + 4 * i)).toNat) n := by
  rw [leNat, leValue_group]
  apply leValue_congr
  intro i _
  simp only [toNat_le32dec, Nat.add_assoc]

theorem lane32_load128 (m : Mem) (off : Nat) {k : Nat} (hk : k < 4) :
    lane32 (load128 m off) k = le32dec m (off + 4 * k) := by
  apply BitVec.eq_of_getLsbD_eq
  intro i hi
  simp only [lane32, load128, BitVec.getLsbD_extractLsb', BitVec.getLsbD_append, hi,
    decide_true, Bool.true_and]
  interval_cases k
  · simp [hi]
  · simp [hi]
  · simp [show ¬ 32 * 2 + i < 32 by omega, show 32 * 2 + i - 32 - 32 = i by omega,
      show ¬ 32 * 2 + i - 32 < 32 by omega, hi]
  · simp [show ¬ 32 * 3 + i < 32 by omega, show ¬ 32 * 3 + i - 32 < 32 by omega,
      show ¬ 32 * 3 + i - 32 - 32 < 32 by omega, show 32 * 3 + i - 32 - 32 - 32 = i by omega]

end VerusMiner
