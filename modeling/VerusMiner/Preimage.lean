import VerusMiner.Scan
import VerusMiner.Job

/-! The message that is hashed, byte by byte: what clearing removes, where the
nonce words of a thread end up, and what of a job it determines. -/

namespace VerusMiner

theorem clearsNonCanonical_congr {m m' : Mem} (h0 : m 0 = m' 0) (h5 : m 5 = m' 5) :
    clearsNonCanonical m = clearsNonCanonical m' := by
  simp only [clearsNonCanonical, h0, h5]

theorem preimage_below (work : Work) (nonce : Word) {i : Nat} (hi : i < 1472) :
    preimage work nonce i = fullData work i := by
  rw [preimage, memcpy_off (.inl (by omega)), memcpy_off (.inl hi)]

theorem preimage_space (work : Work) (nonce : Word) {i : Nat} (hi : i < 11) :
    preimage work nonce (1472 + i) = nonceSpace work i := by
  rw [preimage, memcpy_off (.inl (by omega)), memcpy_at hi, Nat.zero_add]

theorem preimage_nonce (work : Work) (nonce : Word) {i : Nat} (hi : i < 4) :
    preimage work nonce (1483 + i) = leBytes nonce i := by
  rw [preimage, memcpy_at hi, Nat.zero_add]

def Cleared (i : Nat) : Prop := (4 ≤ i ∧ i < 100) ∨ (104 ≤ i ∧ i < 140) ∨ (151 ≤ i ∧ i < 215)

theorem clearNonCanonical_cleared (m : Mem) {i : Nat} (h : Cleared i) :
    clearNonCanonical m i = 0 := by
  simp only [clearNonCanonical, memset, Cleared] at h ⊢
  split_ifs <;> first | rfl | omega

theorem clearNonCanonical_kept (m : Mem) {i : Nat} (h : ¬ Cleared i) :
    clearNonCanonical m i = m i := by
  simp only [clearNonCanonical, memset, Cleared] at h ⊢
  split_ifs <;> first | rfl | omega

theorem serializedWork_header (work : Work) {i : Nat} (hi : i < 140) :
    serializedWork work i = work.data i := by
  rw [serializedWork, memcpy_off (.inl (by omega)), memcpy_off (.inl (by omega)), memcpy_start hi]

theorem serializedWork_solution (work : Work) {i : Nat} (hi : i < 1344) :
    serializedWork work (143 + i) = work.solution i := by
  rw [serializedWork, memcpy_at hi, Nat.zero_add]

theorem fullData_kept (work : Work) {i : Nat} (h : ¬ Cleared i) :
    fullData work i = serializedWork work i := by
  rw [fullData]
  split_ifs
  · exact clearNonCanonical_kept _ h
  · rfl

theorem fullData_of_clears {work : Work} (h : clearsNonCanonical work.solution = true) {i : Nat}
    (hi : Cleared i) : fullData work i = 0 := by
  rw [fullData, if_pos h, clearNonCanonical_cleared _ hi]

theorem fullData_of_not_clears {work : Work} (h : clearsNonCanonical work.solution = false) :
    fullData work = serializedWork work := by
  rw [fullData, h, if_neg Bool.false_ne_true]

theorem nonceSpace_of_clears {work : Work} (h : clearsNonCanonical work.solution = true) {i : Nat}
    (hi : i < 11) :
    nonceSpace work i = if i < 7 then work.data (108 + i) else work.data (128 + (i - 7)) := by
  rw [nonceSpace, if_pos h]
  simp only [verusNonceOffset]
  split_ifs with h7
  · rw [memcpy_off (.inl h7), memcpy_within (by omega), Nat.sub_zero]
  · rw [memcpy_within (by omega)]

theorem nonceSpace_of_not_clears {work : Work} (h : clearsNonCanonical work.solution = false) :
    nonceSpace work = fun _ => 0 := by
  rw [nonceSpace, h, if_neg Bool.false_ne_true]

theorem preimage_selector (work : Work) (nonce : Word) {i : Nat} (hi : i < 8) :
    preimage work nonce (143 + i) = work.solution i := by
  rw [preimage_below work nonce (by omega), fullData_kept work (by simp only [Cleared]; omega),
    serializedWork_solution work (by omega)]

def nonceWord (rand1 rand2 thrId : Word) : Word := rand1 <<< 24 ||| rand2 <<< 8 ||| thrId

/-- The work a thread scans: the generated one with its own two nonce words. -/
def threadWork (work : Work) (round randWord : Word) : Work :=
  { work with
    validNonces := 0
    data := store32 (store32 work.data (4 * verusNonceOffset) round) (4 * (verusNonceOffset + 2))
      randWord }

section Thread

variable (work : Work) (round randWord : Word)

theorem threadWork_data {i : Nat} (h : i < 120 ∨ (124 ≤ i ∧ i < 128) ∨ 132 ≤ i) :
    (threadWork work round randWord).data i = work.data i := by
  dsimp only [threadWork, verusNonceOffset, store32]
  rw [memcpy_off (by omega), memcpy_off (by omega)]

theorem threadWork_rand {i : Nat} (hi : i < 4) :
    (threadWork work round randWord).data (128 + i) = leBytes randWord i := by
  dsimp only [threadWork, verusNonceOffset, store32]
  rw [memcpy_at hi, Nat.zero_add]

theorem threadWork_data_congr {work' : Work} {i : Nat} (h : work.data i = work'.data i) :
    (threadWork work round randWord).data i = (threadWork work' round randWord).data i := by
  simp only [threadWork, store32, memcpy, h]

theorem threadWork_solution : (threadWork work round randWord).solution = work.solution := rfl

theorem nonceSpace_threadWork (h : clearsNonCanonical work.solution = true) {i : Nat} (hi : i < 11) :
    nonceSpace (threadWork work round randWord) i =
      if i < 7 then work.data (108 + i) else leBytes randWord (i - 7) := by
  have hclears : clearsNonCanonical (threadWork work round randWord).solution = true := h
  rw [nonceSpace_of_clears hclears hi]
  split_ifs with h7
  · exact threadWork_data work round randWord (.inl (by omega))
  · exact threadWork_rand work round randWord (by omega)

end Thread

theorem nonceWord_low (rand1 rand2 thrId : Word) :
    leBytes (nonceWord rand1 rand2 thrId) 0 = thrId.setWidth 8 := by
  apply BitVec.eq_of_getLsbD_eq
  intro i hi
  simp [leBytes, nonceWord, hi, show i < 24 by omega, show i < 32 by omega]

end VerusMiner
