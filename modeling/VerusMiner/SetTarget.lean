import VerusMiner.StoredTarget
import Mathlib.Data.Nat.Digits.Lemmas

/-! `verus_stratum_set_target` with every access looked at: a byte nobody
wrote, a place outside an array and a distance from a null pointer are faults. -/

namespace VerusMiner

inductive TargetFault where
  | unwritten
  | outside
  | nullPointer
  deriving DecidableEq

/-- An array of the stack, with no value where nothing was written. -/
abbrev StackBytes := Nat → Option Byte

def checkedHex2bin (output : StackBytes) (off : Nat) : CString → Nat → StackBytes
  | [], _ => output
  | _ :: _, 0 => output
  | [_], _ + 1 => output
  | c₀ :: c₁ :: hexstr, len + 1 =>
    let byte := strtol16 c₀ c₁
    let output := Function.update output off (some byte.1)
    if byte.2 then checkedHex2bin output (off + 1) hexstr len else output

def checkedTargetByte (targetBin : StackBytes) (t : TargetBytes) (i : Nat) : Except TargetFault TargetBytes :=
  if t.filled = 8 then .ok t
  else
    match targetBin i with
    | none => .error .unwritten
    | some b =>
      let targetBe := Function.update t.targetBe (31 - i) b
      if b ≠ 0 then
        .ok { targetBe := targetBe, filled := t.filled + 1, bitsStart := t.bitsStart.orElse fun _ => some i }
      else .ok { t with targetBe := targetBe }

def checkedTargetBytes (targetBin : StackBytes) : Except TargetFault TargetBytes :=
  (List.range 32).foldlM (checkedTargetByte targetBin)
    { targetBe := fun _ => 0, filled := 0, bitsStart := none }

def readTargetBe (t : TargetBytes) (i : Int) : Except TargetFault Byte :=
  if 0 ≤ i ∧ i < 32 then .ok (t.targetBe i.toNat) else .error .outside

/-- `top` is the byte of `target_bits` that the copy of three bytes leaves. -/
def checkedTargetBits (top : Option Byte) (t : TargetBytes) : Except TargetFault Word :=
  match t.bitsStart with
  | none => .error .nullPointer
  | some i => do
    let padding : Int := 31 - i
    let exponent := BitVec.ofInt 8 (((padding * 8 + 1) + 7).tdiv 8)
    let b₀ ← readTargetBe t (exponent.toNat - 3)
    let b₁ ← readTargetBe t (exponent.toNat - 3 + 1)
    let b₂ ← readTargetBe t (exponent.toNat - 3 + 2)
    match top with
    | none => .error .unwritten
    | some b => .ok ((b ||| exponent) ++ b₂ ++ b₁ ++ b₀)

def checkedSetTarget (top : Option Byte) (params : Json) : Except TargetFault (Option Word) :=
  match jsonStringValue (jsonArrayGet params 0) with
  | none | some [] => .ok none
  | some targetHex => do
    let t ← checkedTargetBytes (checkedHex2bin (fun _ => none) 0 targetHex 32)
    let bits ← checkedTargetBits top t
    return some bits

/-- `bits` is the compact form of `T`: the number of its bytes, and the three
leading ones as they are stored. Both sides are multiplied so that a number of
fewer than three bytes needs no fraction. -/
structure Compact (T : Nat) (target : Mem) (bits : Word) : Prop where
  exponent : (bits >>> 24).toNat = (Nat.digits 256 T).length
  stored : (bits &&& 0xffffff).toNat = leNat target 0 32 * 256 ^ 3 / 256 ^ (bits >>> 24).toNat
  lower : (bits &&& 0xffffff).toNat * 256 ^ (bits >>> 24).toNat ≤ T * 256 ^ 3
  upper : T * 256 ^ 3 < ((bits &&& 0xffffff).toNat + 1) * 256 ^ (bits >>> 24).toNat

/-- The message is refused and nothing is changed, or it is 64 digits of a
number that is not zero, and the compact form is made without a fault. -/
def RobustTarget (top : Option Byte) (stack : SetTargetStack) (sctx : StratumCtx) (params : Json) : Prop :=
  let r := verusStratumSetTarget stack sctx params
  (r.1 = false ∧ r.2.job.extra = sctx.job.extra ∧ r.2.nextDiff = sctx.nextDiff) ∨
  ∃ targetHex bits, jsonStringValue (jsonArrayGet params 0) = some targetHex ∧
    (targetHex.length = 64 ∧ ∀ c ∈ targetHex, (hexVal c).isSome) ∧ hexNat targetHex ≠ 0 ∧
    checkedSetTarget top params = .ok (some bits) ∧ r.2.nextDiff = targetToDiffVerus bits ∧
    Compact (hexNat targetHex) r.2.job.extra bits

theorem checkedHex2bin_of_hexDecode {s : CString} {bs : List Byte} (h : hexDecode s = some bs)
    (output : StackBytes) (off : Nat) :
    checkedHex2bin output off s bs.length = memcpy output off (fun i => some (ofBytes bs i)) 0 bs.length := by
  induction s using hexDecode.induct generalizing bs output off with
  | case1 =>
    simp only [hexDecode, Option.some.injEq] at h
    subst h
    rw [List.length_nil, memcpy_zero]
    rfl
  | case2 c => simp [hexDecode] at h
  | case3 a b rest x y hb ha ih =>
    simp only [hexDecode, ha, hb, Option.map_eq_some_iff] at h
    obtain ⟨t, ht, rfl⟩ := h
    simp only [List.length_cons, checkedHex2bin, strtol16, ha, hb, if_true, ih ht]
    rw [← memcpy_succ]
    exact memcpy_congr fun i _ => by rw [Nat.zero_add, Nat.zero_add, ofBytes_cons]
  | case4 a b rest hnone => simp [hexDecode] at h

theorem checkedHex2bin_digits {s : CString} (hlen : s.length = 64) (hdigits : ∀ c ∈ s, (hexVal c).isSome)
    (stack : Mem) {i : Nat} (hi : i < 32) :
    checkedHex2bin (fun _ => none) 0 s 32 i = some ((hex2bin stack 0 s 32).1 i) := by
  obtain ⟨bs, hbs, hbytes⟩ := exists_hexDecode (n := 32) hlen hdigits
  have hchecked := checkedHex2bin_of_hexDecode hbs (fun _ => none) 0
  have hbin := hex2bin_of_hexDecode hbs stack 0
  rw [hbytes] at hchecked hbin
  rw [hchecked, hbin, memcpy_start hi]
  exact congrArg some (memcpy_start hi).symm

theorem checkedTargetByte_ok {targetBin : StackBytes} {m : Mem} {i : Nat} (h : targetBin i = some (m i))
    (t : TargetBytes) : checkedTargetByte targetBin t i = .ok (targetByte m t i) := by
  simp only [checkedTargetByte, targetByte, h]
  split_ifs <;> rfl

theorem checkedTargetBytes_ok {targetBin : StackBytes} {m : Mem} (h : ∀ i < 32, targetBin i = some (m i)) :
    checkedTargetBytes targetBin = .ok (targetBytes m) := by
  have hsteps (n : Nat) (hn : n ≤ 32) (t : TargetBytes) :
      (List.range n).foldlM (checkedTargetByte targetBin) t = .ok ((List.range n).foldl (targetByte m) t) := by
    induction n with
    | zero => rfl
    | succ n ih =>
      rw [List.range_succ, List.foldlM_append, List.foldl_append, ih (by omega)]
      simp only [bind, Except.bind, List.foldlM_cons, List.foldlM_nil, List.foldl_cons, List.foldl_nil,
        checkedTargetByte_ok (h n (by omega))]
      rfl
  exact hsteps 32 (Nat.le_refl 32) _

theorem targetByte_bitsStart (m : Mem) {t : TargetBytes} (h : t.filled ≠ 0 → t.bitsStart.isSome = true)
    (n : Nat) :
    (targetByte m t n).bitsStart = (t.bitsStart.or (if m n ≠ 0 then some n else none)) ∧
    ((targetByte m t n).filled ≠ 0 → (targetByte m t n).bitsStart.isSome = true) := by
  by_cases hfull : t.filled = 8
  · -- The loop has left, and it has met a byte that is not zero.
    obtain ⟨i, hi⟩ := Option.isSome_iff_exists.mp (h (by omega))
    rw [targetByte, if_pos hfull, hi]
    exact ⟨rfl, fun _ => rfl⟩
  · rw [targetByte, if_neg hfull]
    by_cases hzero : m n = 0
    · simp only [hzero, ne_eq, not_true_eq_false, if_false, Option.or_none, true_and]
      exact h
    · simp only [hzero, ne_eq, not_false_eq_true, if_true]
      cases t.bitsStart <;> exact ⟨rfl, fun _ => rfl⟩

theorem targetBytes_bitsStart (m : Mem) :
    (targetBytes m).bitsStart = (List.range 32).find? fun i => decide (m i ≠ 0) := by
  have hfold (n : Nat) :
      let t := (List.range n).foldl (targetByte m) { targetBe := fun _ => 0, filled := 0, bitsStart := none }
      t.bitsStart = ((List.range n).find? fun i => decide (m i ≠ 0)) ∧
      (t.filled ≠ 0 → t.bitsStart.isSome = true) := by
    induction n with
    | zero => exact ⟨rfl, fun h => absurd rfl h⟩
    | succ n ih =>
      obtain ⟨hstart, hfilled⟩ := ih
      obtain ⟨hnext, hfilled'⟩ := targetByte_bitsStart m hfilled n
      rw [List.range_succ, List.foldl_append, List.find?_append, ← hstart]
      refine ⟨hnext.trans ?_, hfilled'⟩
      by_cases hzero : m n = 0 <;> simp [hzero]
  exact (hfold 32).1

section Leading

variable {T i : Nat}

theorem lt_of_leading_zero (hT : T < 256 ^ 32) (hi : i ≤ 32) (h : ∀ j < i, bigByte T j = 0) :
    T < 256 ^ (32 - i) := by
  induction i with
  | zero => exact hT
  | succ i ih =>
    have hlt := ih (by omega) fun j hj => h j (by omega)
    have hbyte := h i (Nat.lt_succ_self i)
    rw [show 32 - i = 31 - i + 1 by omega, Nat.pow_succ, Nat.mul_comm,
      ← Nat.div_lt_iff_lt_mul (Nat.pow_pos (by decide))] at hlt
    rw [bigByte, Nat.mod_eq_of_lt hlt, Nat.div_eq_zero_iff_lt (Nat.pow_pos (by decide))] at hbyte
    rwa [show 32 - (i + 1) = 31 - i by omega]

theorem le_of_leading_ne (h : bigByte T i ≠ 0) : 256 ^ (31 - i) ≤ T := by
  by_contra hlt
  exact h (by rw [bigByte, Nat.div_eq_of_lt (Nat.lt_of_not_le hlt)])

theorem digits_length (hT : T < 256 ^ 32) (hi : i < 32) (hlead : ∀ j < i, bigByte T j = 0)
    (hne : bigByte T i ≠ 0) : (Nat.digits 256 T).length = 32 - i := by
  have hle := le_of_leading_ne hne
  have hlt := lt_of_leading_zero hT hi.le hlead
  have hpos : T ≠ 0 := by
    rintro rfl
    exact hne (by rw [bigByte, Nat.zero_div, Nat.zero_mod])
  rw [Nat.length_digits 256 T (by decide) hpos,
    Nat.log_eq_of_pow_le_of_lt_pow hle (by rwa [show 31 - i + 1 = 32 - i by omega])]
  omega

theorem nonzeroBefore_leading {f : Nat → Nat} (h : ∀ j < i, f j = 0) (k : Nat) :
    nonzeroBefore f (i + k) ≤ k := by
  induction k with
  | zero =>
    have hnone : nonzeroBefore f i = 0 := by
      rw [nonzeroBefore, List.countP_eq_zero]
      exact fun j hj => by simp [h j (List.mem_range.mp hj)]
    exact hnone.le
  | succ k ih =>
    rw [← Nat.add_assoc, nonzeroBefore_succ]
    split_ifs <;> omega

theorem leading_three {target : Mem} (hT : T < 256 ^ 32) (hi : i ≤ 29) (hlead : ∀ j < i, bigByte T j = 0)
    (hkeeps : KeepsLeading T target) :
    T / 256 ^ (29 - i) = leValue 256 (fun k => (target (29 - i + k)).toNat) 3 ∧
    leNat target 0 32 / 256 ^ (29 - i) = leValue 256 (fun k => (target (29 - i + k)).toNat) 3 := by
  have hkept (k : Nat) (hk : k < 3) : (target (29 - i + k)).toNat = bigByte T (31 - (29 - i + k)) := by
    have hbyte := hkeeps.bytes (31 - (29 - i + k)) (by omega)
    have hfew := nonzeroBefore_leading hlead (2 - k)
    rw [show i + (2 - k) = 31 - (29 - i + k) by omega] at hfew
    rwa [if_pos (by omega), show 31 - (31 - (29 - i + k)) = 29 - i + k by omega] at hbyte
  have habove (j : Nat) (hj : j < 32) (hle : 29 - i + 3 ≤ j) : bigByte T (31 - j) = 0 := hlead _ (by omega)
  constructor
  · have hdiv := leValue_div (b := 256) (d := fun j => bigByte T (31 - j)) (n := 29 - i) (k := 3) (N := 32)
      (fun _ _ => Nat.mod_lt _ (by decide)) (by omega) habove
    rw [leNat_bigByte hT] at hdiv
    rw [hdiv]
    exact leValue_congr fun k hk => (hkept k hk).symm
  · have hdiv := leValue_div (b := 256) (d := fun j => (target (0 + j)).toNat) (n := 29 - i) (k := 3) (N := 32)
      (fun j _ => (target (0 + j)).isLt) (by omega) fun j hj hle => by
        rw [hkeeps.byte hj, habove j hj hle, ite_self]
    rw [leNat, hdiv]
    exact leValue_congr fun k _ => by rw [Nat.zero_add]

end Leading

theorem exponent_eq {i : Nat} (hi : i < 32) :
    BitVec.ofInt 8 ((((31 - i : Int) * 8 + 1) + 7).tdiv 8) = BitVec.ofNat 8 (32 - i) := by
  interval_cases i <;> rfl

theorem readTargetBe_ok (t : TargetBytes) {i : Nat} (hi : i < 32) :
    readTargetBe t (i : Int) = .ok (t.targetBe i) := if_pos ⟨by omega, by omega⟩

theorem checkedTargetBits_ok {t : TargetBytes} {i : Nat} (hstart : t.bitsStart = some i) (hi : i ≤ 29)
    (stack : SetTargetStack) :
    checkedTargetBits (some stack.bitsTop) t = .ok (targetBits stack t) ∧
    targetBits stack t = (stack.bitsTop ||| BitVec.ofNat 8 (32 - i)) ++ t.targetBe (29 - i + 2) ++
      t.targetBe (29 - i + 1) ++ t.targetBe (29 - i) := by
  have hexp : (BitVec.ofNat 8 (32 - i)).toNat = 29 - i + 3 := by
    rw [BitVec.toNat_ofNat]
    omega
  have hread (k : Nat) (hk : k < 3) (j : Int) (hj : j = k) :
      readTargetBe t (((29 - i + 3 : Nat) : Int) - 3 + j) = .ok (t.targetBe (29 - i + k)) := by
    rw [hj, show ((29 - i + 3 : Nat) : Int) - 3 + k = (29 - i + k : Nat) by omega]
    exact readTargetBe_ok t (by omega)
  have hbits : targetBits stack t = (stack.bitsTop ||| BitVec.ofNat 8 (32 - i)) ++ t.targetBe (29 - i + 2) ++
      t.targetBe (29 - i + 1) ++ t.targetBe (29 - i) := by
    simp only [targetBits, hstart, exponent_eq (show i < 32 by omega), hexp]
    rw [if_neg (by omega), if_neg (by omega), if_neg (by omega), show 29 - i + 3 + 2 - 3 = 29 - i + 2 by omega,
      show 29 - i + 3 + 1 - 3 = 29 - i + 1 by omega, show 29 - i + 3 + 0 - 3 = 29 - i by omega]
  have h₀ := hread 0 (by omega) 0 rfl
  rw [Int.add_zero] at h₀
  refine ⟨?_, hbits⟩
  simp only [checkedTargetBits, hstart, exponent_eq (show i < 32 by omega), hexp, h₀, hread 1 (by omega) 1 rfl,
    hread 2 (by omega) 2 rfl, bind, Except.bind, hbits, Nat.add_zero]

theorem checkedTargetBits_small {t : TargetBytes} {i : Nat} (hstart : t.bitsStart = some i) (hi : i < 32)
    (hsmall : 29 < i) (top : Option Byte) : checkedTargetBits top t = .error .outside := by
  have hexp : (BitVec.ofNat 8 (32 - i)).toNat = 32 - i := by
    rw [BitVec.toNat_ofNat]
    omega
  have hread : readTargetBe t (((32 - i : Nat) : Int) - 3) = .error .outside := if_neg (by omega)
  simp only [checkedTargetBits, hstart, exponent_eq hi, hexp, hread, bind, Except.bind]

theorem checkedTargetBits_none_ne (t : TargetBytes) (bits : Word) : checkedTargetBits none t ≠ .ok bits := by
  rw [checkedTargetBits]
  split
  · exact nofun
  · simp only [bind, Except.bind]
    repeat' split
    all_goals exact nofun

theorem compactWord_parts {bits : Word} {e b₂ b₁ b₀ : Byte}
    (h : bits = ((0 : Byte) ||| e) ++ b₂ ++ b₁ ++ b₀) :
    (bits >>> 24).toNat = e.toNat ∧
    (bits &&& 0xffffff).toNat = (b₂.toNat * 256 + b₁.toNat) * 256 + b₀.toNat := by
  have h₀ := b₀.isLt
  have h₁ := b₁.isLt
  have h₂ := b₂.isLt
  have hvalue : bits.toNat = ((e.toNat * 256 + b₂.toNat) * 256 + b₁.toNat) * 256 + b₀.toNat := by
    rw [h, show (0 : Byte) ||| e = e from BitVec.zero_or]
    simp only [toNat_append_byte]
  rw [BitVec.toNat_ushiftRight, Nat.shiftRight_eq_div_pow, toNat_and_low 24 rfl, hvalue]
  omega

theorem setTarget_refused_iff (stack : SetTargetStack) (sctx : StratumCtx) (params : Json) :
    (verusStratumSetTarget stack sctx params).1 = false ↔
      (jsonStringValue (jsonArrayGet params 0)).getD [] = [] := by
  rw [verusStratumSetTarget]
  rcases hparam : jsonStringValue (jsonArrayGet params 0) with _ | _ | ⟨c, cs⟩ <;> simp

theorem setTarget_refused {stack : SetTargetStack} {sctx : StratumCtx} {params : Json}
    (h : (verusStratumSetTarget stack sctx params).1 = false) :
    (verusStratumSetTarget stack sctx params).2 = sctx := by
  rw [verusStratumSetTarget] at h ⊢
  rcases hparam : jsonStringValue (jsonArrayGet params 0) with _ | _ | ⟨c, cs⟩
  · rfl
  · rfl
  · simp [hparam] at h

theorem checkedSetTarget_digits (top : Option Byte) (stack : SetTargetStack) {params : Json}
    {targetHex : CString} (hparam : jsonStringValue (jsonArrayGet params 0) = some targetHex)
    (hlen : targetHex.length = 64) (hdigits : ∀ c ∈ targetHex, (hexVal c).isSome) :
    checkedSetTarget top params =
      (checkedTargetBits top (targetBytes (hex2bin stack.targetBin 0 targetHex 32).1)).map some := by
  obtain ⟨c, cs, rfl⟩ : ∃ c cs, targetHex = c :: cs := List.exists_cons_of_length_pos (by omega)
  have hbytes := checkedTargetBytes_ok fun i hi => checkedHex2bin_digits hlen hdigits stack.targetBin hi
  simp only [checkedSetTarget, hparam, hbytes, bind, Except.bind]
  cases checkedTargetBits top (targetBytes (hex2bin stack.targetBin 0 (c :: cs) 32).1) <;> rfl

theorem bitsStart_digits {targetHex : CString} (hlen : targetHex.length = 64)
    (hdigits : ∀ c ∈ targetHex, (hexVal c).isSome) (stack : Mem) (i : Nat) :
    (targetBytes (hex2bin stack 0 targetHex 32).1).bitsStart = some i ↔
      i < 32 ∧ bigByte (hexNat targetHex) i ≠ 0 ∧ ∀ j < i, bigByte (hexNat targetHex) j = 0 := by
  have hbyte {j : Nat} (hj : j < 32) : (hex2bin stack 0 targetHex 32).1 j ≠ 0 ↔
      bigByte (hexNat targetHex) j ≠ 0 := by
    rw [← hex2bin_bigByte hlen hdigits stack hj]
    exact not_congr (BitVec.toNat_inj (y := 0)).symm
  rw [targetBytes_bitsStart, List.find?_range_eq_some]
  simp only [decide_eq_true_eq, List.mem_range, Bool.not_eq_true', decide_eq_false_iff_not]
  constructor
  · rintro ⟨hne, hi, hlead⟩
    refine ⟨hi, (hbyte hi).mp hne, fun j hj => ?_⟩
    exact not_not.mp fun hj' => hlead j hj ((hbyte (hj.trans hi)).mpr hj')
  · rintro ⟨hi, hne, hlead⟩
    refine ⟨(hbyte hi).mpr hne, hi, fun j hj hj' => ?_⟩
    exact (hbyte (hj.trans hi)).mp hj' (hlead j hj)

theorem bitsStart_none {targetHex : CString} (hlen : targetHex.length = 64)
    (hdigits : ∀ c ∈ targetHex, (hexVal c).isSome) (stack : Mem)
    (h : (targetBytes (hex2bin stack 0 targetHex 32).1).bitsStart = none) : hexNat targetHex = 0 := by
  rw [targetBytes_bitsStart, List.find?_range_eq_none] at h
  have hzero (j : Nat) (hj : j < 32) : bigByte (hexNat targetHex) j = 0 := by
    have hbyte : (hex2bin stack 0 targetHex 32).1 j = 0 := by simpa using h j hj
    rw [← hex2bin_bigByte hlen hdigits stack hj, hbyte]
    rfl
  have hlt := lt_of_leading_zero (hexNat_lt hlen hdigits) (Nat.le_refl 32) hzero
  rw [Nat.sub_self, Nat.pow_zero] at hlt
  omega

theorem compact_of_leading {T i : Nat} {target : Mem} {bits : Word} (hT : T < 256 ^ 32) (hi : i ≤ 29)
    (hlead : ∀ j < i, bigByte T j = 0) (hne : bigByte T i ≠ 0) (hkeeps : KeepsLeading T target)
    (hbits : bits = ((0 : Byte) ||| BitVec.ofNat 8 (32 - i)) ++ target (29 - i + 2) ++
      target (29 - i + 1) ++ target (29 - i)) : Compact T target bits := by
  obtain ⟨hexp, hcoef⟩ := compactWord_parts hbits
  obtain ⟨hnumber, hstored⟩ := leading_three hT hi hlead hkeeps
  have hpow : 256 ^ (32 - i) = 256 ^ (29 - i) * 256 ^ 3 := by
    rw [← Nat.pow_add, show 29 - i + 3 = 32 - i by omega]
  have hpos : 0 < 256 ^ (29 - i) := Nat.pow_pos (by decide)
  have hthree : leValue 256 (fun k => (target (29 - i + k)).toNat) 3 = (bits &&& 0xffffff).toNat := by
    rw [hcoef]
    simp only [leValue_succ, leValue_zero, Nat.add_zero]
    omega
  have hlength : (BitVec.ofNat 8 (32 - i)).toNat = 32 - i := by
    rw [BitVec.toNat_ofNat]
    omega
  rw [hlength] at hexp
  rw [hthree] at hnumber hstored
  refine ⟨hexp.trans (digits_length hT (by omega) hlead hne).symm, ?_, ?_, ?_⟩
  · rw [hexp, hpow, Nat.mul_div_mul_right _ _ (by decide), hstored]
  · rw [hexp, hpow, ← hnumber, ← Nat.mul_assoc]
    exact Nat.mul_le_mul_right _ (Nat.div_mul_le_self ..)
  · rw [hexp, hpow, ← hnumber, ← Nat.mul_assoc]
    exact Nat.mul_lt_mul_of_pos_right (Nat.lt_mul_of_div_lt (Nat.lt_succ_self _) hpos) (by decide)

theorem setTarget_accepted {params : Json} {targetHex : CString}
    (hparam : jsonStringValue (jsonArrayGet params 0) = some targetHex) (hlen : targetHex.length = 64)
    (stack : SetTargetStack) (sctx : StratumCtx) :
    let t := targetBytes (hex2bin stack.targetBin 0 targetHex 32).1
    (verusStratumSetTarget stack sctx params).2.nextDiff = targetToDiffVerus (targetBits stack t) ∧
    ∀ i < 32, (verusStratumSetTarget stack sctx params).2.job.extra i = t.targetBe i := by
  obtain ⟨c, cs, rfl⟩ : ∃ c cs, targetHex = c :: cs := List.exists_cons_of_length_pos (by omega)
  simp only [verusStratumSetTarget, hparam, true_and]
  exact fun i hi => memcpy_start hi

theorem robustTarget_of_refused {params : Json} (h : (jsonStringValue (jsonArrayGet params 0)).getD [] = [])
    (top : Option Byte) (stack : SetTargetStack) (sctx : StratumCtx) : RobustTarget top stack sctx params := by
  have hrc := (setTarget_refused_iff stack sctx params).mpr h
  refine .inl ⟨hrc, ?_, ?_⟩ <;> rw [setTarget_refused hrc]

/-- The last byte of the word is read, and nobody has written it. -/
theorem robustTarget_none_iff (stack : SetTargetStack) (sctx : StratumCtx) (params : Json) :
    RobustTarget none stack sctx params ↔ (jsonStringValue (jsonArrayGet params 0)).getD [] = [] := by
  refine ⟨?_, fun h => robustTarget_of_refused h none stack sctx⟩
  rintro (⟨hrc, _⟩ | ⟨targetHex, bits, hparam, ⟨hlen, hdigits⟩, _, hchecked, _⟩)
  · exact (setTarget_refused_iff stack sctx params).mp hrc
  rw [checkedSetTarget_digits none stack hparam hlen hdigits] at hchecked
  cases hbits : checkedTargetBits none (targetBytes (hex2bin stack.targetBin 0 targetHex 32).1) with
  | error fault =>
    rw [hbits] at hchecked
    cases hchecked
  | ok bits => exact absurd hbits (checkedTargetBits_none_ne _ bits)

/-- Were that byte zero, the targets of three bytes and more would be taken. -/
theorem robustTarget_zero_iff {stack : SetTargetStack} (htop : stack.bitsTop = 0) (sctx : StratumCtx)
    (params : Json) : RobustTarget (some 0) stack sctx params ↔
      (jsonStringValue (jsonArrayGet params 0)).getD [] = [] ∨
      ∃ targetHex, jsonStringValue (jsonArrayGet params 0) = some targetHex ∧
        (targetHex.length = 64 ∧ ∀ c ∈ targetHex, (hexVal c).isSome) ∧ 256 ^ 2 ≤ hexNat targetHex := by
  constructor
  · rintro (⟨hrc, _⟩ | ⟨targetHex, bits, hparam, ⟨hlen, hdigits⟩, _, hchecked, _⟩)
    · exact .inl ((setTarget_refused_iff stack sctx params).mp hrc)
    refine .inr ⟨targetHex, hparam, ⟨hlen, hdigits⟩, ?_⟩
    rw [checkedSetTarget_digits (some 0) stack hparam hlen hdigits] at hchecked
    cases hstart : (targetBytes (hex2bin stack.targetBin 0 targetHex 32).1).bitsStart with
    | none =>
      simp only [checkedTargetBits, hstart] at hchecked
      cases hchecked
    | some i =>
      obtain ⟨hi, hne, _⟩ := (bitsStart_digits hlen hdigits _ i).mp hstart
      by_cases hsmall : 29 < i
      · rw [checkedTargetBits_small hstart hi hsmall] at hchecked
        cases hchecked
      · exact (Nat.pow_le_pow_right (by decide) (by omega)).trans (le_of_leading_ne hne)
  · rintro (h | ⟨targetHex, hparam, ⟨hlen, hdigits⟩, hlarge⟩)
    · exact robustTarget_of_refused h _ stack sctx
    have hT := hexNat_lt hlen hdigits
    obtain ⟨_, hkeeps⟩ := verusStratumSetTarget_stores stack sctx hparam hlen hdigits
    obtain ⟨hdiff, hextra⟩ := setTarget_accepted hparam hlen stack sctx
    have hchecked := checkedSetTarget_digits (some 0) stack hparam hlen hdigits
    have hmark := bitsStart_digits hlen hdigits stack.targetBin
    have hunmarked := bitsStart_none hlen hdigits stack.targetBin
    generalize targetBytes (hex2bin stack.targetBin 0 targetHex 32).1 = t at hdiff hextra hchecked hmark hunmarked
    cases hstart : t.bitsStart with
    | none =>
      rw [hunmarked hstart] at hlarge
      exact absurd hlarge (by decide)
    | some i =>
      obtain ⟨hi, hne, hlead⟩ := (hmark i).mp hstart
      have hle : i ≤ 29 := by
        by_contra hsmall
        have hlt := lt_of_leading_zero hT hi.le hlead
        have hpow : 256 ^ (32 - i) ≤ 256 ^ 2 := Nat.pow_le_pow_right (by decide) (by omega)
        omega
      obtain ⟨hok, hbits⟩ := checkedTargetBits_ok hstart hle stack
      rw [htop] at hok hbits
      rw [hok] at hchecked
      refine .inr ⟨targetHex, targetBits stack t, hparam, ⟨hlen, hdigits⟩, by omega, hchecked, hdiff, ?_⟩
      refine compact_of_leading hT hle hlead hne hkeeps ?_
      rw [hextra _ (by omega), hextra _ (by omega), hextra _ (by omega), hbits]

/-- Only a message that is refused is dealt with well, for want of one byte:
with that, the targets of three bytes and more in 64 digits would be too. -/
theorem setTarget_robust_iff (stack : SetTargetStack) (sctx : StratumCtx) (params : Json) :
    (RobustTarget none stack sctx params ↔ (jsonStringValue (jsonArrayGet params 0)).getD [] = []) ∧
    (RobustTarget (some 0) { stack with bitsTop := 0 } sctx params ↔
      (jsonStringValue (jsonArrayGet params 0)).getD [] = [] ∨
      ∃ targetHex, jsonStringValue (jsonArrayGet params 0) = some targetHex ∧
        (targetHex.length = 64 ∧ ∀ c ∈ targetHex, (hexVal c).isSome) ∧ 256 ^ 2 ≤ hexNat targetHex) :=
  ⟨robustTarget_none_iff stack sctx params, robustTarget_zero_iff rfl sctx params⟩

/-- Two characters that are no digits are taken for a target. -/
theorem setTarget_takes_text :
    ¬ RobustTarget none ⟨fun _ => 0, fun _ => 0, 0, 0⟩ zeroCtx (.array [.string ['z', 'z']]) := by
  rintro (⟨hrc, _⟩ | ⟨targetHex, bits, hparam, ⟨hlen, _⟩, _⟩)
  · cases hrc
  · cases hparam
    exact absurd hlen (by decide)

end VerusMiner
