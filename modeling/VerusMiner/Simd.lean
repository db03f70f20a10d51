import VerusMiner.Bytes
import Mathlib.Tactic.Linarith

/-! The 128-bit vector operations the hash is written in, with the meaning
their x86 and NEON documentation gives them. Lane 0 is the least significant. -/

namespace VerusMiner

/-- The two targets the hash is compiled for: `ARM` defined or not. -/
inductive Build where
  | arm
  | portable
  deriving DecidableEq, Repr

def lane64 (v : Vec) (k : Nat) : BitVec 64 := v.extractLsb' (64 * k) 64

def lane16 (v : Vec) (k : Nat) : BitVec 16 := v.extractLsb' (16 * k) 16

def lane8 (v : Vec) (k : Nat) : Byte := v.extractLsb' (8 * k) 8

def setEpi32 (e3 e2 e1 e0 : Word) : Vec := e3 ++ e2 ++ e1 ++ e0

def setEpi64 (e1 e0 : BitVec 64) : Vec := e1 ++ e0

def ofLanes16 (f : Nat → BitVec 16) : Vec :=
  f 7 ++ f 6 ++ f 5 ++ f 4 ++ f 3 ++ f 2 ++ f 1 ++ f 0

def ofLanes8 (f : Nat → Byte) : Vec := load128 f 0

def setrEpi8 (bytes : List Nat) : Vec := ofLanes8 fun i => BitVec.ofNat 8 (bytes.getD i 0)

def vdupqNU64 (x : BitVec 64) : Vec := setEpi64 x x

def loadlEpi64 (x : BitVec 64) : Vec := setEpi64 0 x

def cvtsi128Si64 (v : Vec) : BitVec 64 := lane64 v 0

def cvtsi64Si128 (x : BitVec 64) : Vec := setEpi64 0 x

def cvtsi32Si128 (x : Word) : Vec := setEpi32 0 0 0 x

def unpackloEpi32 (a b : Vec) : Vec := setEpi32 (lane32 b 1) (lane32 a 1) (lane32 b 0) (lane32 a 0)

def unpackhiEpi32 (a b : Vec) : Vec := setEpi32 (lane32 b 3) (lane32 a 3) (lane32 b 2) (lane32 a 2)

def unpackloEpi64 (a b : Vec) : Vec := setEpi64 (lane64 b 0) (lane64 a 0)

def unpackhiEpi64 (a b : Vec) : Vec := setEpi64 (lane64 b 1) (lane64 a 1)

def clmul64 (x y : BitVec 64) : Vec :=
  (List.range 64).foldl (fun p i => if x.getLsbD i then p ^^^ (y.setWidth 128 <<< i) else p) 0

/-- Bit 0 of `imm` selects the half of `a`, bit 4 the half of `b`. -/
def clmulepi64Si128 (a b : Vec) (imm : Byte) : Vec :=
  clmul64 (lane64 a (imm.getLsbD 0).toNat) (lane64 b (imm.getLsbD 4).toNat)

/-- A control byte with its top bit set gives a zero byte. -/
def shuffleEpi8 (a ctrl : Vec) : Vec :=
  ofLanes8 fun i =>
    if (lane8 ctrl i).getLsbD 7 then 0 else lane8 a ((lane8 ctrl i).toNat % 16)

def srliSi128 (a : Vec) (n : Nat) : Vec := a >>> (8 * n)

/-- Sixteen bytes of `b:a` starting at byte `n` of `a`. -/
def vextqU8 (a b : Vec) (n : Nat) : Vec := (b ++ a).extractLsb' (8 * n) 128

def mulhrsEpi16 (a b : Vec) : Vec :=
  ofLanes16 fun k =>
    BitVec.ofInt 16 (((lane16 a k).toInt * (lane16 b k).toInt / 2 ^ 14 + 1) / 2)

def saturate16 (x : Int) : Int := max (-32768) (min 32767 x)

/-- The saturating rounding doubling multiply returning the high half. -/
def vqrdmulhqS16 (a b : Vec) : Vec :=
  ofLanes16 fun k =>
    BitVec.ofInt 16 (saturate16 ((2 * ((lane16 a k).toInt * (lane16 b k).toInt) + 2 ^ 15) / 2 ^ 16))

def vmaxqS16 (a b : Vec) : Vec :=
  ofLanes16 fun k => BitVec.ofInt 16 (max (lane16 a k).toInt (lane16 b k).toInt)

def vceqqS16 (a b : Vec) : Vec :=
  ofLanes16 fun k => if lane16 a k = lane16 b k then BitVec.allOnes 16 else 0

def verusMulhrsEpi16 : Build → Vec → Vec → Vec
  | .arm, a, b =>
    let rounded := vqrdmulhqS16 a b
    let minimum := ofLanes16 fun _ => BitVec.ofInt 16 (-32768)
    let bothMinimum := vceqqS16 (vmaxqS16 a b) minimum
    rounded ^^^ bothMinimum
  | .portable, a, b => mulhrsEpi16 a b

theorem lane32_setEpi32 (e3 e2 e1 e0 : Word) :
    lane32 (setEpi32 e3 e2 e1 e0) 0 = e0 ∧ lane32 (setEpi32 e3 e2 e1 e0) 1 = e1 ∧
    lane32 (setEpi32 e3 e2 e1 e0) 2 = e2 ∧ lane32 (setEpi32 e3 e2 e1 e0) 3 = e3 := by
  refine ⟨?_, ?_, ?_, ?_⟩ <;> apply BitVec.eq_of_getLsbD_eq <;> intro i hi <;>
    simp only [lane32, setEpi32, BitVec.getLsbD_extractLsb', BitVec.getLsbD_append, hi,
      decide_true, Bool.true_and]
  · simp [hi]
  · simp [hi]
  · simp [show ¬ 32 * 2 + i < 32 by omega, show 32 * 2 + i - 32 - 32 = i by omega,
      show ¬ 32 * 2 + i - 32 < 32 by omega, hi]
  · simp [show ¬ 32 * 3 + i < 32 by omega, show ¬ 32 * 3 + i - 32 < 32 by omega,
      show ¬ 32 * 3 + i - 32 - 32 < 32 by omega, show 32 * 3 + i - 32 - 32 - 32 = i by omega]

theorem lane32_unpackloEpi32 (a b : Vec) :
    lane32 (unpackloEpi32 a b) 0 = lane32 a 0 ∧ lane32 (unpackloEpi32 a b) 1 = lane32 b 0 ∧
    lane32 (unpackloEpi32 a b) 2 = lane32 a 1 ∧ lane32 (unpackloEpi32 a b) 3 = lane32 b 1 :=
  lane32_setEpi32 _ _ _ _

theorem lane32_unpackhiEpi32 (a b : Vec) :
    lane32 (unpackhiEpi32 a b) 0 = lane32 a 2 ∧ lane32 (unpackhiEpi32 a b) 1 = lane32 b 2 ∧
    lane32 (unpackhiEpi32 a b) 2 = lane32 a 3 ∧ lane32 (unpackhiEpi32 a b) 3 = lane32 b 3 :=
  lane32_setEpi32 _ _ _ _

theorem lane32_xor (a b : Vec) (k : Nat) : lane32 (a ^^^ b) k = lane32 a k ^^^ lane32 b k :=
  BitVec.extractLsb'_xor

theorem lane32_unpackloEpi64 (a b : Vec) : lane32 (unpackloEpi64 a b) 3 = lane32 b 1 := by
  apply BitVec.eq_of_getLsbD_eq
  intro i hi
  simp only [lane32, lane64, unpackloEpi64, setEpi64, BitVec.getLsbD_extractLsb',
    BitVec.getLsbD_append, hi, decide_true, Bool.true_and]
  simp [show ¬ 32 * 3 + i < 64 by omega, show 32 * 3 + i - 64 = 32 + i by omega]
  omega

theorem lane32_store128 (m : Mem) (off : Nat) (v : Vec) {k : Nat} (hk : k < 4) :
    le32dec (store128 m off v) (off + 4 * k) = lane32 v k :=
  le32dec_memcpy_leBytes m off 16 v (by omega)

theorem ofLanes16_xor (f g : Nat → BitVec 16) :
    ofLanes16 f ^^^ ofLanes16 g = ofLanes16 fun k => f k ^^^ g k := by
  apply BitVec.eq_of_getLsbD_eq
  intro i _
  simp only [ofLanes16, BitVec.getLsbD_xor, BitVec.getLsbD_append]
  split_ifs <;> rfl

theorem lane16_ofLanes16 (f : Nat → BitVec 16) {k : Nat} (hk : k < 8) :
    lane16 (ofLanes16 f) k = f k := by
  apply BitVec.eq_of_getLsbD_eq
  intro i hi
  simp only [lane16, ofLanes16, BitVec.getLsbD_extractLsb', BitVec.getLsbD_append, hi,
    decide_true, Bool.true_and]
  interval_cases k <;> simp (disch := omega) only [if_pos, if_neg] <;> congr 1 <;> omega

theorem ofLanes16_congr {f g : Nat → BitVec 16} (h : ∀ k < 8, f k = g k) :
    ofLanes16 f = ofLanes16 g := by
  simp only [ofLanes16, h 0 (by omega), h 1 (by omega), h 2 (by omega), h 3 (by omega),
    h 4 (by omega), h 5 (by omega), h 6 (by omega), h 7 (by omega)]

theorem toInt16_bounds (x : BitVec 16) : -32768 ≤ x.toInt ∧ x.toInt ≤ 32767 := by
  have h₁ := BitVec.le_toInt x
  have h₂ := BitVec.toInt_lt (x := x)
  simp at h₁ h₂
  omega

theorem ofInt16_inj {x y : Int} (hx : -32768 ≤ x ∧ x ≤ 32767) (hy : -32768 ≤ y ∧ y ≤ 32767) :
    BitVec.ofInt 16 x = BitVec.ofInt 16 y ↔ x = y := by
  constructor
  · intro h
    have := congrArg BitVec.toInt h
    simp only [BitVec.toInt_ofInt, Int.bmod_def] at this
    omega
  · rintro rfl
    rfl

theorem mul_bounds16 {x y : Int} (hx : -32768 ≤ x ∧ x ≤ 32767) (hy : -32768 ≤ y ∧ y ≤ 32767)
    (h : ¬ (x = -32768 ∧ y = -32768)) : -(32768 * 32768) ≤ x * y ∧ x * y ≤ 32768 * 32767 := by
  by_cases he : x = -32768
  · subst he
    omega
  · have hx' : -32767 ≤ x := by omega
    constructor
    · nlinarith [mul_nonneg (show (0 : Int) ≤ 32767 - x by omega) (show (0 : Int) ≤ 32768 - y by omega),
        mul_nonneg (show (0 : Int) ≤ 32767 + x by omega) (show (0 : Int) ≤ 32768 + y by omega)]
    · nlinarith [mul_nonneg (show (0 : Int) ≤ 32767 - x by omega) (show (0 : Int) ≤ 32768 + y by omega),
        mul_nonneg (show (0 : Int) ≤ 32767 + x by omega) (show (0 : Int) ≤ 32768 - y by omega)]

/-- The saturating multiply differs from the x86 rounding at one pair only,
and the mask is all ones at that pair only. -/
theorem vqrdmulh_lane {x y : Int} (hx : -32768 ≤ x ∧ x ≤ 32767) (hy : -32768 ≤ y ∧ y ≤ 32767) :
    BitVec.ofInt 16 (saturate16 ((2 * (x * y) + 2 ^ 15) / 2 ^ 16)) ^^^
      (if BitVec.ofInt 16 (max x y) = BitVec.ofInt 16 (-32768) then BitVec.allOnes 16 else 0) =
    BitVec.ofInt 16 ((x * y / 2 ^ 14 + 1) / 2) := by
  by_cases h : x = -32768 ∧ y = -32768
  · obtain ⟨rfl, rfl⟩ := h
    decide
  · have hmask : BitVec.ofInt 16 (max x y) ≠ BitVec.ofInt 16 (-32768) := by
      rw [Ne, ofInt16_inj (by omega) (by omega)]
      omega
    obtain ⟨h₁, h₂⟩ := mul_bounds16 hx hy h
    generalize x * y = p at h₁ h₂ ⊢
    rw [if_neg hmask, show saturate16 ((2 * p + 2 ^ 15) / 2 ^ 16) = (p / 2 ^ 14 + 1) / 2 by
      unfold saturate16
      omega]
    exact BitVec.xor_zero

theorem verusMulhrsEpi16_eq (build : Build) (a b : Vec) :
    verusMulhrsEpi16 build a b = mulhrsEpi16 a b := by
  cases build with
  | portable => rfl
  | arm =>
    simp only [verusMulhrsEpi16, vqrdmulhqS16, vceqqS16, mulhrsEpi16, ofLanes16_xor]
    apply ofLanes16_congr
    intro k hk
    rw [vmaxqS16, lane16_ofLanes16 _ hk, lane16_ofLanes16 _ hk]
    exact vqrdmulh_lane (toInt16_bounds _) (toInt16_bounds _)

theorem lane8_of_lane32 (v : Vec) (k : Nat) : lane8 v k = leBytes (lane32 v (k / 4)) (k % 4) := by
  apply BitVec.eq_of_getLsbD_eq
  intro i hi
  simp only [lane8, leBytes, lane32, BitVec.getLsbD_extractLsb', hi, decide_true, Bool.true_and,
    show 8 * (k % 4) + i < 32 by omega]
  congr 1
  omega

theorem lane8_load128 (m : Mem) (off : Nat) {k : Nat} (hk : k < 16) :
    lane8 (load128 m off) k = m (off + k) := by
  rw [lane8_of_lane32, lane32_load128 _ _ (by omega), leBytes_le32dec _ _ (by omega)]
  congr 1
  omega

theorem lane8_ofLanes8 (f : Nat → Byte) {k : Nat} (hk : k < 16) : lane8 (ofLanes8 f) k = f k := by
  simpa [ofLanes8] using lane8_load128 f 0 hk

theorem eq_of_lane8 {a b : Vec} (h : ∀ k < 16, lane8 a k = lane8 b k) : a = b := by
  apply BitVec.eq_of_getLsbD_eq
  intro i hi
  have hb := congrArg (·.getLsbD (i % 8)) (h (i / 8) (by omega))
  simpa [lane8, Nat.mod_lt, show 8 * (i / 8) + i % 8 = i by omega] using hb

theorem lane8_vextqU8 (a b : Vec) (n : Nat) {k : Nat} :
    lane8 (vextqU8 a b n) k =
      if k < 16 then if n + k < 16 then lane8 a (n + k) else lane8 b (n + k - 16) else 0 := by
  apply BitVec.eq_of_getLsbD_eq
  intro i hi
  split_ifs with hk hn
  · simp only [lane8, vextqU8, BitVec.getLsbD_extractLsb', BitVec.getLsbD_append, hi,
      decide_true, Bool.true_and, show 8 * k + i < 128 by omega,
      show 8 * n + (8 * k + i) < 128 by omega, if_true]
    congr 1
    omega
  · simp only [lane8, vextqU8, BitVec.getLsbD_extractLsb', BitVec.getLsbD_append, hi,
      decide_true, Bool.true_and, show 8 * k + i < 128 by omega,
      show ¬ 8 * n + (8 * k + i) < 128 by omega, if_false,
      show 8 * n + (8 * k + i) - 128 = 8 * (n + k - 16) + i by omega]
  · simp [lane8, vextqU8, show ¬ 8 * k + i < 128 by omega]

theorem lane8_shuffleEpi8_setrEpi8 (a : Vec) (bytes : List Nat) {k : Nat} (hk : k < 16)
    (hb : bytes.getD k 0 < 16) :
    lane8 (shuffleEpi8 a (setrEpi8 bytes)) k = lane8 a (bytes.getD k 0) := by
  have hc : lane8 (setrEpi8 bytes) k = BitVec.ofNat 8 (bytes.getD k 0) := lane8_ofLanes8 _ hk
  rw [shuffleEpi8, lane8_ofLanes8 _ hk, hc]
  generalize bytes.getD k 0 = n at hb
  have htop : (BitVec.ofNat 8 n).getLsbD 7 = false := by
    interval_cases n <;> rfl
  have hlow : (BitVec.ofNat 8 n).toNat % 16 = n := by
    rw [BitVec.toNat_ofNat]
    omega
  rw [htop, hlow, if_neg Bool.false_ne_true]

theorem lane8_setEpi64 (e1 e0 : BitVec 64) {k : Nat} (hk : k < 16) :
    lane8 (setEpi64 e1 e0) k =
      if k < 8 then e0.extractLsb' (8 * k) 8 else e1.extractLsb' (8 * (k - 8)) 8 := by
  apply BitVec.eq_of_getLsbD_eq
  intro i hi
  split_ifs with h
  · simp only [lane8, setEpi64, BitVec.getLsbD_extractLsb', BitVec.getLsbD_append, hi,
      decide_true, Bool.true_and, show 8 * k + i < 64 by omega, if_true]
  · simp only [lane8, setEpi64, BitVec.getLsbD_extractLsb', BitVec.getLsbD_append, hi,
      decide_true, Bool.true_and, show ¬ 8 * k + i < 64 by omega, if_false]
    congr 1
    omega

theorem vextqU8_one_eq_shuffle (a : Vec) :
    vextqU8 a a 1 = shuffleEpi8 a (setrEpi8 [1, 2, 3, 4, 5, 6, 7, 8, 9, 10, 11, 12, 13, 14, 15, 0]) := by
  apply eq_of_lane8
  intro k hk
  rw [lane8_vextqU8, if_pos hk]
  rw [lane8_shuffleEpi8_setrEpi8 a _ hk (by interval_cases k <;> decide)]
  interval_cases k <;> rfl

theorem vextqU8_dup_eq_shuffle (x : BitVec 64) :
    vextqU8 (vdupqNU64 x) (vdupqNU64 x) 1 =
      shuffleEpi8 (loadlEpi64 x) (setrEpi8 [1, 2, 3, 4, 5, 6, 7, 0, 1, 2, 3, 4, 5, 6, 7, 0]) := by
  apply eq_of_lane8
  intro k hk
  rw [lane8_vextqU8, if_pos hk]
  have hd (j : Nat) (hj : j < 16) : lane8 (vdupqNU64 x) j = lane8 (loadlEpi64 x) (j % 8) := by
    rw [vdupqNU64, loadlEpi64, lane8_setEpi64 _ _ hj, lane8_setEpi64 _ _ (by omega),
      if_pos (show j % 8 < 8 by omega)]
    split_ifs with h
    · rw [Nat.mod_eq_of_lt h]
    · rw [show j % 8 = j - 8 by omega]
  rw [lane8_shuffleEpi8_setrEpi8 _ _ hk (by interval_cases k <;> decide)]
  split_ifs with h
  · rw [hd _ h]
    interval_cases k <;> rfl
  · rw [hd _ (by omega)]
    interval_cases k <;> first | rfl | omega

theorem vextqU8_zero_eq_srli (a : Vec) : vextqU8 a 0 8 = srliSi128 a 8 := by
  apply BitVec.eq_of_getLsbD_eq
  intro i hi
  simp only [vextqU8, srliSi128, BitVec.getLsbD_extractLsb', BitVec.getLsbD_append, hi,
    decide_true, Bool.true_and, BitVec.getLsbD_ushiftRight]
  split_ifs with h
  · rfl
  · simp [BitVec.getLsbD_of_ge a (8 * 8 + i) (by omega)]

end VerusMiner
