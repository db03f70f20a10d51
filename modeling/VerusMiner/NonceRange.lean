import VerusMiner.Bytes

/-! The nonces that the threads share out among themselves, and the part of a
thread's range that one scan is given. -/

namespace VerusMiner

/-- As many threads as the option `-t` takes. -/
structure ThreadCount where
  count : Nat
  one_le : 1 ≤ count
  le_max : count ≤ 9999

def ThreadCount.optNThreads (n : ThreadCount) : Word := BitVec.ofNat 32 n.count

def startEnd (optNThreads thrId : Word) : Word := 0xffffffff / optNThreads * (thrId + 1) - (thrId + 1)

/-- A small range at the end is not left over. -/
def raiseEnd (endNonce : Word) : Word := if 0xffffffff - 256 ≤ endNonce then 0xffffffff else endNonce

structure ScanRange where
  maxNonce : Word
  endNonce : Word

/-- A scan takes no more than a word can count. -/
def clampMax64 (max64 : BitVec 64) : BitVec 64 := if 0xffffffff < max64 then 0xffffffff else max64

/-- The end of the scan, and `end_nonce` as the thread goes on with it. -/
def scanRange (max64 : BitVec 64) (startNonce endNonce : Word) : ScanRange :=
  let max64 := clampMax64 max64
  let endNonce := raiseEnd endNonce
  let maxNonce :=
    if endNonce.setWidth 64 ≤ max64 + startNonce.setWidth 64 then endNonce
    else (max64 + startNonce.setWidth 64).setWidth 32
  if maxNonce < startNonce then ⟨0xffffffff, 0xffffffff⟩ else ⟨maxNonce, endNonce⟩

def rangeStart (n t : Nat) : Nat := (2 ^ 32 - 1) / n * t

def rangeEnd (n : ThreadCount) (t : Nat) : Word := raiseEnd (startEnd n.optNThreads (BitVec.ofNat 32 t))

/-- `end_nonce` after the passes of a thread, each with its `max64` and start. -/
def endAfter (n : ThreadCount) (t : Nat) (passes : List (BitVec 64 × Word)) : Word :=
  passes.foldl (fun endNonce p => (scanRange p.1 p.2 endNonce).endNonce)
    (startEnd n.optNThreads (BitVec.ofNat 32 t))

def InRangeOf (n : ThreadCount) (t : Nat) (nonce : Word) : Prop :=
  rangeStart n.count t ≤ nonce.toNat ∧ nonce ≤ rangeEnd n t

section Ranges

variable (n : ThreadCount) {t : Nat}

theorem share_mul_le (ht : t < n.count) : (2 ^ 32 - 1) / n.count * (t + 1) ≤ 2 ^ 32 - 1 :=
  (Nat.mul_le_mul_left _ ht).trans (Nat.div_mul_le_self ..)

theorem le_share : 2 ^ 18 ≤ (2 ^ 32 - 1) / n.count :=
  (by decide : 2 ^ 18 ≤ (2 ^ 32 - 1) / 9999).trans (Nat.div_le_div_left n.le_max n.one_le)

theorem toNat_startEnd (ht : t < n.count) :
    (startEnd n.optNThreads (BitVec.ofNat 32 t)).toNat = ((2 ^ 32 - 1) / n.count - 1) * (t + 1) := by
  have hmax := n.le_max
  have hmul := share_mul_le n ht
  have hle : t + 1 ≤ (2 ^ 32 - 1) / n.count * (t + 1) :=
    Nat.le_mul_of_pos_left _ ((by decide : 0 < 2 ^ 18).trans_le (le_share n))
  have hcount : n.optNThreads.toNat = n.count := by
    rw [ThreadCount.optNThreads, BitVec.toNat_ofNat]
    omega
  have hnext : (BitVec.ofNat 32 t + 1).toNat = t + 1 := by
    rw [BitVec.toNat_add, BitVec.toNat_ofNat]
    change (t % 2 ^ 32 + 1) % 2 ^ 32 = t + 1
    omega
  have hproduct : (0xffffffff / n.optNThreads * (BitVec.ofNat 32 t + 1) : Word).toNat =
      (2 ^ 32 - 1) / n.count * (t + 1) := by
    rw [BitVec.toNat_mul, BitVec.toNat_udiv, hcount, hnext]
    change (2 ^ 32 - 1) / n.count * (t + 1) % 2 ^ 32 = _
    exact Nat.mod_eq_of_lt (by omega)
  rw [startEnd, BitVec.toNat_sub_of_le (by rw [BitVec.le_def, hproduct, hnext]; exact hle), hproduct, hnext,
    Nat.sub_mul, Nat.one_mul]

theorem raiseEnd_idem (endNonce : Word) : raiseEnd (raiseEnd endNonce) = raiseEnd endNonce := by
  by_cases h : 0xffffffff - 256 ≤ endNonce
  · rw [raiseEnd, raiseEnd, if_pos h]
    rfl
  · have hraise : raiseEnd endNonce = endNonce := if_neg h
    rw [hraise, hraise]

theorem toNat_rangeEnd_lt {t' : Nat} (hlt : t < t') (ht' : t' < n.count) :
    (rangeEnd n t).toNat < rangeStart n.count t' := by
  have hend := toNat_startEnd n (hlt.trans ht')
  have hnext := share_mul_le n ht'
  have hle : (2 ^ 32 - 1) / n.count * (t + 1) ≤ rangeStart n.count t' := Nat.mul_le_mul_left _ hlt
  have hshare := le_share n
  have hsucc : (2 ^ 32 - 1) / n.count * (t' + 1) = rangeStart n.count t' + (2 ^ 32 - 1) / n.count :=
    Nat.mul_succ ..
  rw [Nat.sub_mul, Nat.one_mul] at hend
  have hbelow : ¬ (0xffffffff - 256 : Word) ≤ startEnd n.optNThreads (BitVec.ofNat 32 t) := by
    rw [BitVec.le_def, hend]
    change ¬ 2 ^ 32 - 257 ≤ _
    omega
  rw [rangeEnd, raiseEnd, if_neg hbelow, hend]
  have hpos : 0 < (2 ^ 32 - 1) / n.count * (t + 1) := Nat.mul_pos (by omega) (Nat.succ_pos t)
  omega

theorem inRangeOf_disjoint {t' : Nat} (ht : t < n.count) (ht' : t' < n.count) (hne : t ≠ t') (nonce : Word) :
    ¬ (InRangeOf n t nonce ∧ InRangeOf n t' nonce) := by
  rintro ⟨⟨hlow, hhigh⟩, hlow', hhigh'⟩
  rw [BitVec.le_def] at hhigh hhigh'
  rcases Nat.lt_or_gt_of_ne hne with hlt | hlt
  · have := toNat_rangeEnd_lt n hlt ht'
    omega
  · have := toNat_rangeEnd_lt n hlt ht
    omega

end Ranges

theorem toNat_clampMax64 (max64 : BitVec 64) : (clampMax64 max64).toNat = min max64.toNat (2 ^ 32 - 1) := by
  have hlimit : (0xffffffff : BitVec 64).toNat = 2 ^ 32 - 1 := rfl
  rw [clampMax64]
  split_ifs with h <;> rw [BitVec.lt_def, hlimit] at h
  · rw [hlimit, Nat.min_eq_right (by omega)]
  · rw [Nat.min_eq_left (by omega)]

/-- From a start that is not past the end the scan goes on to the end, or as
far as its size takes it. -/
theorem scanRange_eq (max64 : BitVec 64) {startNonce endNonce : Word} (h : startNonce ≤ raiseEnd endNonce) :
    (scanRange max64 startNonce endNonce).endNonce = raiseEnd endNonce ∧
    (scanRange max64 startNonce endNonce).maxNonce.toNat =
      min (raiseEnd endNonce).toNat (min max64.toNat (2 ^ 32 - 1) + startNonce.toNat) := by
  rw [scanRange]
  generalize raiseEnd endNonce = e at h ⊢
  have he := e.isLt
  have hstart := startNonce.isLt
  rw [BitVec.le_def] at h
  have hwide {v : Word} : (v.setWidth 64).toNat = v.toNat := by
    rw [BitVec.toNat_setWidth]
    exact Nat.mod_eq_of_lt (v.isLt.trans (by decide))
  have hclamp := toNat_clampMax64 max64
  generalize clampMax64 max64 = m at hclamp ⊢
  have hsum : (m + startNonce.setWidth 64).toNat = m.toNat + startNonce.toNat := by
    rw [BitVec.toNat_add, hwide]
    exact Nat.mod_eq_of_lt (by omega)
  have hmax : (if e.setWidth 64 ≤ m + startNonce.setWidth 64 then e
      else (m + startNonce.setWidth 64).setWidth 32).toNat = min e.toNat (m.toNat + startNonce.toNat) := by
    split_ifs with hend <;> rw [BitVec.le_def, hwide, hsum] at hend
    · exact (Nat.min_eq_left hend).symm
    · rw [BitVec.toNat_setWidth, hsum, Nat.mod_eq_of_lt (by omega), Nat.min_eq_right (by omega)]
  have hnotPast : ¬ (if e.setWidth 64 ≤ m + startNonce.setWidth 64 then e
      else (m + startNonce.setWidth 64).setWidth 32) < startNonce := by
    rw [BitVec.lt_def, hmax]
    omega
  rw [if_neg hnotPast, hmax, hclamp]
  exact ⟨rfl, rfl⟩

theorem raiseEnd_endAfter (n : ThreadCount) {t : Nat} {passes : List (BitVec 64 × Word)}
    (h : ∀ p ∈ passes, InRangeOf n t p.2) : raiseEnd (endAfter n t passes) = rangeEnd n t := by
  have hfold (e : Word) (he : raiseEnd e = rangeEnd n t) :
      raiseEnd (passes.foldl (fun e p => (scanRange p.1 p.2 e).endNonce) e) = rangeEnd n t := by
    induction passes generalizing e with
    | nil => exact he
    | cons p ps ih =>
      refine ih (fun q hq => h q (List.mem_cons_of_mem _ hq)) _ ?_
      have hstart : p.2 ≤ raiseEnd e := by
        rw [he]
        exact (h p List.mem_cons_self).2
      have hkept := (scanRange_eq p.1 hstart).1
      exact (congrArg raiseEnd hkept).trans ((raiseEnd_idem e).trans he)
  exact hfold _ rfl

/-- In every pass a thread scans within its range, to its end or as much as it
is allowed, and the ranges of two threads have no nonce in common. -/
theorem nonceRanges_sound (n : ThreadCount) :
    (∀ t < n.count, ∀ passes : List (BitVec 64 × Word), (∀ p ∈ passes, InRangeOf n t p.2) →
      ∀ (max64 : BitVec 64) (startNonce : Word), InRangeOf n t startNonce →
        let r := scanRange max64 startNonce (endAfter n t passes)
        startNonce ≤ r.maxNonce ∧ r.maxNonce ≤ rangeEnd n t ∧ r.endNonce = rangeEnd n t ∧
        r.maxNonce.toNat = min (rangeEnd n t).toNat (min max64.toNat (2 ^ 32 - 1) + startNonce.toNat) ∧
        (r.maxNonce - startNonce).toNat = r.maxNonce.toNat - startNonce.toNat ∧
        (r.maxNonce - startNonce).toNat ≤ min max64.toNat (2 ^ 32 - 1)) ∧
    ∀ t < n.count, ∀ t' < n.count, t ≠ t' → ∀ nonce, ¬ (InRangeOf n t nonce ∧ InRangeOf n t' nonce) := by
  refine ⟨?_, fun t ht t' ht' hne => inRangeOf_disjoint n ht ht' hne⟩
  intro t _ passes hpasses max64 startNonce ⟨_, hstart⟩ r
  have hend := raiseEnd_endAfter n hpasses
  have hbelow : startNonce ≤ raiseEnd (endAfter n t passes) := by rwa [hend]
  obtain ⟨hkept, hmax⟩ := scanRange_eq max64 hbelow
  rw [hend] at hkept hmax
  change r.maxNonce.toNat = _ at hmax
  have hle : startNonce ≤ r.maxNonce := by
    rw [BitVec.le_def] at hstart ⊢
    omega
  have hbatch : (r.maxNonce - startNonce).toNat = r.maxNonce.toNat - startNonce.toNat :=
    BitVec.toNat_sub_of_le hle
  refine ⟨hle, ?_, hkept, hmax, hbatch, ?_⟩
  · rw [BitVec.le_def]
    omega
  · omega

def fourThreads : ThreadCount := ⟨4, by decide, by decide⟩

/-- The last of four threads goes on in the middle of its range, which a pass
before has raised to the greatest word. -/
theorem nonceRanges_sound_four :
    let r := scanRange 1000 0xc0000000 (endAfter fourThreads 3 [(0x200000000, 0xbffffffd)])
    r.maxNonce.toNat = 0xc00003e8 ∧ (r.maxNonce - 0xc0000000).toNat = 1000 ∧ r.endNonce = 0xffffffff := by
  have hpasses : ∀ p ∈ [((0x200000000 : BitVec 64), (0xbffffffd : Word))], InRangeOf fourThreads 3 p.2 := by
    rintro p (_ | ⟨_, hp⟩)
    · exact ⟨by decide, by decide⟩
    · cases hp
  have hend : rangeEnd fourThreads 3 = 0xffffffff := by decide
  obtain ⟨_, _, hkept, hmax, hbatch, _⟩ :=
    (nonceRanges_sound fourThreads).1 3 (by decide) _ hpasses 1000 0xc0000000 ⟨by decide, by decide⟩
  rw [hend] at hkept hmax
  exact ⟨hmax, by rw [hbatch, hmax]; rfl, hkept⟩

end VerusMiner
