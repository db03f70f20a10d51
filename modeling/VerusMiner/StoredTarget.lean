import VerusMiner.Notify
import VerusMiner.ScanRefinement

/-! The target a pool sets and the one that is kept of it: its bytes down to
the eighth that is not zero, and nothing below. -/

namespace VerusMiner

/-- The bytes of a 256-bit number, the most significant one first. -/
def bigByte (T i : Nat) : Nat := T / 256 ^ (31 - i) % 256

def nonzeroBefore (f : Nat → Nat) (n : Nat) : Nat := (List.range n).countP fun i => f i ≠ 0

theorem nonzeroBefore_succ (f : Nat → Nat) (n : Nat) :
    nonzeroBefore f (n + 1) = nonzeroBefore f n + if f n ≠ 0 then 1 else 0 := by
  rw [nonzeroBefore, nonzeroBefore, List.range_succ, List.countP_append, List.countP_singleton]
  simp only [decide_eq_true_eq]

theorem nonzeroBefore_congr {f g : Nat → Nat} {n : Nat} (h : ∀ i < n, f i = g i) :
    nonzeroBefore f n = nonzeroBefore g n := by
  induction n with
  | zero => rfl
  | succ n ih =>
    rw [nonzeroBefore_succ, nonzeroBefore_succ, ih fun i hi => h i (by omega), h n (by omega)]

theorem nonzeroBefore_mono (f : Nat → Nat) {m n : Nat} (h : m ≤ n) :
    nonzeroBefore f m ≤ nonzeroBefore f n := by
  induction n, h using Nat.le_induction with
  | base => exact Nat.le_refl _
  | succ n _ ih =>
    rw [nonzeroBefore_succ]
    omega

theorem targetByte_open (targetBin : Mem) {t : TargetBytes} (h : t.filled ≠ 8) (i : Nat) :
    (targetByte targetBin t i).targetBe = Function.update t.targetBe (31 - i) (targetBin i) ∧
    (targetByte targetBin t i).filled = t.filled + if (targetBin i).toNat ≠ 0 then 1 else 0 := by
  have hzero : (targetBin i).toNat ≠ 0 ↔ targetBin i ≠ 0 :=
    not_congr (BitVec.toNat_inj (x := targetBin i) (y := 0))
  rw [targetByte, if_neg h]
  simp only [hzero]
  split_ifs <;> exact ⟨rfl, rfl⟩

/-- After `n` bytes the loop has stored those with fewer than eight non-zero
ones before them, and it has counted to eight at most. -/
theorem targetBytes_fold (targetBin : Mem) {n : Nat} (hn : n ≤ 32) :
    let t := (List.range n).foldl (targetByte targetBin)
      { targetBe := fun _ => 0, filled := 0, bitsStart := none }
    t.filled = min 8 (nonzeroBefore (fun i => (targetBin i).toNat) n) ∧
    ∀ i < 32, t.targetBe (31 - i) =
      if i < n ∧ nonzeroBefore (fun i => (targetBin i).toNat) i < 8 then targetBin i else 0 := by
  induction n with
  | zero => exact ⟨rfl, fun i _ => by rw [if_neg (by omega)]; rfl⟩
  | succ n ih =>
    obtain ⟨hfilled, hbytes⟩ := ih (by omega)
    have hsucc := nonzeroBefore_succ (fun i => (targetBin i).toNat) n
    simp only [List.range_succ, List.foldl_append, List.foldl_cons, List.foldl_nil]
    generalize (List.range n).foldl (targetByte targetBin)
      { targetBe := fun _ => 0, filled := 0, bitsStart := none } = t at hfilled hbytes ⊢
    by_cases hfull : t.filled = 8
    · -- The loop has left: the byte `n` has eight before it.
      have hcount : 8 ≤ nonzeroBefore (fun i => (targetBin i).toNat) n := by omega
      rw [targetByte, if_pos hfull]
      refine ⟨by omega, fun i hi => ?_⟩
      rw [hbytes i hi]
      refine if_congr (and_congr_left fun hlt => ?_) rfl rfl
      have hne : i ≠ n := by
        rintro rfl
        omega
      omega
    · have hcount : nonzeroBefore (fun i => (targetBin i).toNat) n < 8 := by omega
      obtain ⟨hbe, hfilled'⟩ := targetByte_open targetBin hfull n
      refine ⟨?_, fun i hi => ?_⟩
      · rw [hfilled', hsucc, hfilled]
        split_ifs <;> omega
      rw [hbe]
      by_cases hin : i = n
      · subst hin
        rw [Function.update_self, if_pos ⟨by omega, hcount⟩]
      · rw [Function.update_of_ne (by omega), hbytes i hi]
        refine if_congr (and_congr_left fun _ => ?_) rfl rfl
        omega

theorem targetBytes_at (targetBin : Mem) {i : Nat} (hi : i < 32) :
    (targetBytes targetBin).targetBe (31 - i) =
      if nonzeroBefore (fun i => (targetBin i).toNat) i < 8 then targetBin i else 0 := by
  rw [targetBytes, (targetBytes_fold targetBin (Nat.le_refl 32)).2 i hi]
  exact if_congr (and_iff_right hi) rfl rfl

theorem hex2bin_bigByte {s : CString} (hlen : s.length = 64) (hdigits : ∀ c ∈ s, (hexVal c).isSome)
    (output : Mem) {i : Nat} (hi : i < 32) :
    ((hex2bin output 0 s 32).1 i).toNat = bigByte (hexNat s) i := by
  obtain ⟨bs, hbs, hbytes⟩ := exists_hexDecode (n := 32) hlen hdigits
  have hbin := hex2bin_of_hexDecode hbs output 0
  rw [hbytes] at hbin
  rw [hbin]
  dsimp only
  rw [memcpy_start hi, bigByte, hexNat_of_hexDecode hbs, beNat_digit, ofBytes,
    List.getD_eq_getElem?_getD, List.getD_eq_getElem?_getD, List.getElem?_reverse (by omega), hbytes,
    show 32 - 1 - (31 - i) = i by omega]

theorem hexNat_lt {s : CString} (hlen : s.length = 64) (hdigits : ∀ c ∈ s, (hexVal c).isSome) :
    hexNat s < 256 ^ 32 := by
  obtain ⟨bs, hbs, hbytes⟩ := exists_hexDecode (n := 32) hlen hdigits
  rw [hexNat_of_hexDecode hbs, ← hbytes]
  exact beNat_lt bs

/-- The leading bytes of `T`, down to the eighth that is not zero, are those
of the stored number, and its other bytes are zero. -/
structure KeepsLeading (T : Nat) (target : Mem) : Prop where
  bytes : ∀ i < 32, (target (31 - i)).toNat = if nonzeroBefore (bigByte T) i < 8 then bigByte T i else 0

section KeepsLeading

variable {T : Nat} {target : Mem}

theorem leNat_bigByte (hT : T < 256 ^ 32) : leValue 256 (fun j => bigByte T (31 - j)) 32 = T := by
  have hdigits : leValue 256 (fun j => bigByte T (31 - j)) 32 = leValue 256 (fun j => T / 256 ^ j % 256) 32 := by
    refine leValue_congr fun j hj => ?_
    rw [bigByte, show 31 - (31 - j) = j by omega]
  rw [hdigits, leValue_digits, Nat.mod_eq_of_lt hT]

theorem KeepsLeading.byte (h : KeepsLeading T target) {j : Nat} (hj : j < 32) :
    (target (0 + j)).toNat =
      if nonzeroBefore (bigByte T) (31 - j) < 8 then bigByte T (31 - j) else 0 := by
  have hi := h.bytes (31 - j) (by omega)
  rwa [show 31 - (31 - j) = 0 + j by omega] at hi

theorem KeepsLeading.le (h : KeepsLeading T target) (hT : T < 256 ^ 32) : leNat target 0 32 ≤ T := by
  rw [← leNat_bigByte hT]
  refine leValue_mono fun j hj => ?_
  rw [h.byte hj]
  split_ifs
  · exact Nat.le_refl _
  · exact Nat.zero_le _

theorem KeepsLeading.eq (h : KeepsLeading T target) (hT : T < 256 ^ 32)
    (hfew : nonzeroBefore (bigByte T) 32 ≤ 8) : leNat target 0 32 = T := by
  rw [← leNat_bigByte hT]
  refine leValue_congr fun j hj => ?_
  rw [h.byte hj]
  split_ifs with hcount
  · rfl
  · by_contra hne
    have hsucc := nonzeroBefore_succ (bigByte T) (31 - j)
    rw [if_pos (Ne.symm hne)] at hsucc
    have hmono := nonzeroBefore_mono (bigByte T) (show 31 - j + 1 ≤ 32 by omega)
    omega

end KeepsLeading

theorem verusStratumSetTarget_stores (stack : SetTargetStack) (sctx : StratumCtx) {params : Json}
    {targetHex : CString} (hparam : jsonStringValue (jsonArrayGet params 0) = some targetHex)
    (hlen : targetHex.length = 64) (hdigits : ∀ c ∈ targetHex, (hexVal c).isSome) :
    (verusStratumSetTarget stack sctx params).1 = true ∧
    KeepsLeading (hexNat targetHex) (verusStratumSetTarget stack sctx params).2.job.extra := by
  have hbyte {i : Nat} (hi : i < 32) := hex2bin_bigByte hlen hdigits stack.targetBin hi
  obtain ⟨c, cs, rfl⟩ : ∃ c cs, targetHex = c :: cs := List.exists_cons_of_length_pos (by omega)
  simp only [verusStratumSetTarget, hparam, true_and]
  generalize (hex2bin stack.targetBin 0 (c :: cs) 32).1 = targetBin at hbyte ⊢
  refine ⟨fun i hi => ?_⟩
  have hcount : nonzeroBefore (fun i => (targetBin i).toNat) i =
      nonzeroBefore (bigByte (hexNat (c :: cs))) i :=
    nonzeroBefore_congr fun k hk => hbyte (by omega)
  rw [memcpy_start (by omega), targetBytes_at targetBin hi, hcount]
  split_ifs
  · exact hbyte hi
  · rfl

/-- The target that is kept, and that goes into the work, lies below the one
the pool has set, and so do the hashes that meet it. -/
theorem storedTarget_conservative (aesenc : Vec → Vec → Vec) (stack : SetTargetStack) (sctx : StratumCtx)
    {params : Json} {targetHex : CString}
    (hparam : jsonStringValue (jsonArrayGet params 0) = some targetHex) (hlen : targetHex.length = 64)
    (hdigits : ∀ c ∈ targetHex, (hexVal c).isSome) :
    let T := hexNat targetHex
    let r := verusStratumSetTarget stack sctx params
    r.1 = true ∧ KeepsLeading T r.2.job.extra ∧ leNat r.2.job.extra 0 32 ≤ T ∧
    (nonzeroBefore (bigByte T) 32 ≤ 8 → leNat r.2.job.extra 0 32 = T) ∧
    ∀ optDifficulty buf work, stratumGenWork optDifficulty r.2 buf = some work →
      (∀ i < 32, work.target i = r.2.job.extra i) ∧
      (∀ hash, fulltest hash work.target = true → leNat hash 0 32 ≤ T) ∧
      ∀ build optShowdiff storage restart abort round randWord maxNonce,
        let work := threadWork work round randWord
        ∀ nonce ∈ (scanhashVerus aesenc build optShowdiff storage restart abort work maxNonce).recorded,
          leNat (verusHash aesenc (preimage work nonce)) 0 32 ≤ T := by
  intro T r
  obtain ⟨hrc, hkeeps⟩ := verusStratumSetTarget_stores stack sctx hparam hlen hdigits
  have hT := hexNat_lt hlen hdigits
  refine ⟨hrc, hkeeps, hkeeps.le hT, hkeeps.eq hT, fun optDifficulty buf work hgen => ?_⟩
  obtain ⟨_, _, htarget⟩ := stratumGenWork_eq hgen
  have hle : leNat work.target 0 32 ≤ T := by
    have heq : leNat work.target 0 32 = leNat r.2.job.extra 0 32 :=
      leNat_congr fun i hi => by rw [Nat.zero_add, htarget i hi]
    rw [heq]
    exact hkeeps.le hT
  refine ⟨htarget, fun hash hmeets => ((fulltest_iff _ _).mp hmeets).trans hle, ?_⟩
  intro build optShowdiff storage restart abort round randWord maxNonce work' nonce hnonce
  exact (meetsTarget_of_recorded aesenc hnonce).trans hle

/-- Of 32 non-zero bytes the first eight are kept. -/
theorem storedTarget_conservative_ones :
    let r := verusStratumSetTarget ⟨fun _ => 0, fun _ => 0, 0, 0⟩ zeroCtx
      (.array [.string (List.replicate 64 '1')])
    KeepsLeading (hexNat (List.replicate 64 '1')) r.2.job.extra ∧
    leNat r.2.job.extra 0 32 ≤ hexNat (List.replicate 64 '1') := by
  have hdigits : ∀ c ∈ List.replicate 64 '1', (hexVal c).isSome := fun c hc => by
    rw [(List.mem_replicate.mp hc).2]
    rfl
  obtain ⟨_, hkeeps, hle, _⟩ := storedTarget_conservative (fun s k => s ^^^ k)
    ⟨fun _ => 0, fun _ => 0, 0, 0⟩ zeroCtx
    (rfl : jsonStringValue (jsonArrayGet (.array [.string (List.replicate 64 '1')]) 0) = _)
    List.length_replicate hdigits
  exact ⟨hkeeps, hle⟩

end VerusMiner
