import VerusMiner.Lib.LastEntry
import VerusMiner.Submit

/-! The log of submitted shares, a map sorted by the number of the job and the
nonce of the share. -/

namespace VerusMiner

section Numbers

def hexadecimal (s : CString) : Nat :=
  (s.takeWhile fun c => (hexVal c).isSome).foldl (fun v c => 16 * v + (hexVal c).getD 0) 0

/-- Past a `0x` that a digit follows. -/
def hexDigits : CString → CString
  | '0' :: x :: c :: s =>
    if (x = 'x' ∨ x = 'X') ∧ (hexVal c).isSome = true then c :: s else '0' :: x :: c :: s
  | s => s

def strtoul16 (s : CString) : BitVec 64 :=
  let (negative, digits) := signed s
  let v := hexadecimal (hexDigits digits)
  if 0x10000000000000000 ≤ v then -1
  else if negative then -BitVec.ofNat 64 v
  else BitVec.ofNat 64 v

def hextouint (jobid : CString) : BitVec 64 := strtoul16 jobid

theorem hexDigit_plain {d : Nat} (hd : d < 16) : isspace (hexDigit d) = false ∧
    hexDigit d ≠ '-' ∧ hexDigit d ≠ '+' ∧ hexDigit d ≠ 'x' ∧ hexDigit d ≠ 'X' := by
  interval_cases d <;> decide

theorem signed_hexDigit {d : Nat} (hd : d < 16) (s : CString) :
    signed (hexDigit d :: s) = (false, hexDigit d :: s) := by
  obtain ⟨hspace, hminus, hplus, _, _⟩ := hexDigit_plain hd
  simp [signed, hspace, hminus, hplus]

theorem hexDigits_hexDigit {d : Nat} (hd : d < 16) (c : Char) (s : CString) :
    hexDigits (c :: hexDigit d :: s) = c :: hexDigit d :: s := by
  obtain ⟨_, _, _, hx, hX⟩ := hexDigit_plain hd
  cases s with
  | nil =>
    unfold hexDigits
    split <;> simp_all
  | cons c' s =>
    unfold hexDigits
    split
    · rename_i heq
      simp only [List.cons.injEq] at heq
      obtain ⟨rfl, rfl, rfl, rfl⟩ := heq
      rw [if_neg (by simp [hx, hX])]
    · rfl

theorem sprintfX_succ (n : Nat) (v : Word) : sprintfX (n + 1) v = hexDigit (v.toNat / 16 ^ n % 16) :: sprintfX n v := by
  have hshift : (v >>> (4 * n)).toNat = v.toNat / 16 ^ n := by
    rw [BitVec.toNat_ushiftRight, Nat.shiftRight_eq_div_pow, Nat.pow_mul]
  rw [sprintfX, List.range_succ, List.reverse_append, List.reverse_singleton, List.singleton_append,
    List.map_cons, hshift]
  rfl

/-- The digits printed for a number, read until something else comes. -/
theorem hexadecimal_sprintfX (n : Nat) (v : Word) {s : CString} (hs : s.head?.bind hexVal = none) :
    hexadecimal (sprintfX n v ++ s) = v.toNat % 16 ^ n := by
  have hrest : s.takeWhile (fun c => (hexVal c).isSome) = [] := by
    cases s with
    | nil => rfl
    | cons c s =>
      have hc : hexVal c = none := hs
      rw [List.takeWhile_cons, hc]
      rfl
  have hfold (acc : Nat) : ((sprintfX n v ++ s).takeWhile fun c => (hexVal c).isSome).foldl
      (fun acc c => 16 * acc + (hexVal c).getD 0) acc = acc * 16 ^ n + v.toNat % 16 ^ n := by
    induction n generalizing acc with
    | zero =>
      rw [show sprintfX 0 v = [] from rfl, List.nil_append, hrest, List.foldl_nil, Nat.pow_zero,
        Nat.mod_one, Nat.mul_one, Nat.add_zero]
    | succ n ih =>
      have hdigit := hexVal_hexDigit (Nat.mod_lt (v.toNat / 16 ^ n) (by decide : 0 < 16))
      rw [sprintfX_succ, List.cons_append, List.takeWhile_cons_of_pos (by rw [hdigit]; rfl),
        List.foldl_cons, hdigit, ih, Option.getD_some, Nat.mod_pow_succ, Nat.pow_succ]
      ring
  rw [hexadecimal, hfold, Nat.zero_mul, Nat.zero_add]

/-- Of the job id of a work the log reads the time of its job alone. -/
theorem hextouint_genWorkJobId (job : StratumJob) (jobId : CString) :
    hextouint (genWorkJobId job jobId) = (be32dec job.ntime 0 &&& 0xfffffff).setWidth 64 := by
  generalize hv : be32dec job.ntime 0 &&& 0xfffffff = v
  have hlt : v.toNat < 16 ^ 7 := by
    rw [← hv, BitVec.toNat_and]
    exact Nat.and_le_right.trans_lt (by decide)
  have htext : genWorkJobId job jobId = sprintfX 7 v ++ ' ' :: jobId.take 119 := by
    rw [genWorkJobId_eq, hv]
  have hfirst (n : Nat) (s : CString) : signed (sprintfX (n + 1) v ++ s) = (false, sprintfX (n + 1) v ++ s) := by
    rw [sprintfX_succ, List.cons_append]
    exact signed_hexDigit (Nat.mod_lt _ (by decide)) _
  have hsecond (n : Nat) (s : CString) : hexDigits (sprintfX (n + 2) v ++ s) = sprintfX (n + 2) v ++ s := by
    rw [sprintfX_succ, sprintfX_succ, List.cons_append, List.cons_append]
    exact hexDigits_hexDigit (Nat.mod_lt _ (by decide)) _ _
  rw [hextouint, strtoul16, htext, hfirst 6]
  simp only [hsecond 5]
  rw [hexadecimal_sprintfX 7 v rfl, Nat.mod_eq_of_lt hlt, if_neg (by omega), if_neg (by decide)]
  rw [BitVec.ofNat_toNat]

end Numbers

/-- Of a record, what the queries for shares read. The difficulties are values
of any type, in place of `double`. -/
structure HashlogData (δ : Type) where
  jobNonceId : Byte
  sharediff : δ
  tmSent : Word

abbrev HashLog (δ : Type) := Std.TreeMap (BitVec 64) (HashlogData δ)

def logPurgeTimeout : Word := 5 * 60

def keypfx (jobid : CString) : BitVec 64 := hextouint jobid <<< 32

def hashlogKey (jobid : CString) (nonce : Word) : BitVec 64 := keypfx jobid + nonce.setWidth 64

def loDword (key : BitVec 64) : Word := key.setWidth 32

def keymsk : BitVec 64 := 0xffffffff <<< 32

def hiDword (key : BitVec 64) : Word := (key >>> 32).setWidth 32

def mkHi64 (u32 : Word) : BitVec 64 := 0x100000000 * u32.setWidth 64

/-- The number of a job, as far as its keys hold it. -/
def jobNumber (jobid : CString) : Word := (hextouint jobid).setWidth 32

def OwnKey (jobid : CString) (key : BitVec 64) : Prop := hiDword key = jobNumber jobid

instance (jobid : CString) : DecidablePred (OwnKey jobid) := fun _ => decEq _ _

/-- The number in the key has the bits of the number of the job. -/
def Covers (jobid : CString) (key : BitVec 64) : Prop := jobNumber jobid &&& hiDword key = jobNumber jobid

instance (jobid : CString) : DecidablePred (Covers jobid) := fun _ => decEq _ _

section Keys

theorem hashlogKey_eq_iff {jobid jobid' : CString} {nonce nonce' : Word} :
    hashlogKey jobid nonce = hashlogKey jobid' nonce' ↔
      jobNumber jobid = jobNumber jobid' ∧ nonce = nonce' := by
  simp only [hashlogKey, keypfx, jobNumber]
  generalize hextouint jobid = n
  generalize hextouint jobid' = n'
  constructor
  · intro h
    constructor
    · bv_omega
    · bv_omega
  · rintro ⟨hn, rfl⟩
    bv_omega

theorem hiDword_hashlogKey (jobid : CString) (nonce : Word) :
    hiDword (hashlogKey jobid nonce) = jobNumber jobid := by
  rw [hiDword, hashlogKey, keypfx, jobNumber]
  bv_omega

theorem mkHi64_eq (w : Word) : mkHi64 w = w.setWidth 64 <<< 32 := by
  unfold mkHi64
  bv_omega

theorem mkHi64_inj {w w' : Word} : mkHi64 w = mkHi64 w' ↔ w = w' := by
  refine ⟨fun h => ?_, fun h => h ▸ rfl⟩
  unfold mkHi64 at h
  bv_omega

theorem mkHi64_and (w : Word) (key : BitVec 64) : mkHi64 w &&& key = mkHi64 (w &&& hiDword key) := by
  rw [mkHi64_eq, mkHi64_eq, hiDword]
  ext i hi
  simp only [BitVec.getElem_and, BitVec.getElem_shiftLeft]
  by_cases h : i < 32
  · simp [h]
  · have hlow : i - 32 < 32 := by omega
    have hback : 32 + (i - 32) = i := by omega
    simp [h, hlow, hback, BitVec.getLsbD_eq_getElem hi]

theorem keypfx_eq (jobid : CString) : keypfx jobid = mkHi64 (jobNumber jobid) := by
  rw [mkHi64_eq, keypfx, jobNumber]
  bv_omega

theorem keymsk_eq : keymsk = mkHi64 (BitVec.allOnes 32) := by decide

theorem keymsk_and_eq_iff (jobid : CString) (key : BitVec 64) :
    keymsk &&& key = keypfx jobid ↔ OwnKey jobid key := by
  rw [keymsk_eq, keypfx_eq, mkHi64_and, mkHi64_inj, BitVec.allOnes_and, OwnKey]

theorem keypfx_and_eq_iff (jobid : CString) (key : BitVec 64) :
    keypfx jobid &&& key = keypfx jobid ↔ Covers jobid key := by
  rw [keypfx_eq, mkHi64_and, mkHi64_inj, Covers]

theorem keymsk_and_beq (jobid : CString) (key : BitVec 64) :
    (keymsk &&& key == keypfx jobid) = decide (OwnKey jobid key) := by
  rw [Bool.eq_iff_iff, beq_iff_eq, keymsk_and_eq_iff, decide_eq_true_iff]

theorem keypfx_and_beq (jobid : CString) (key : BitVec 64) :
    (keypfx jobid &&& key == keypfx jobid) = decide (Covers jobid key) := by
  rw [Bool.eq_iff_iff, beq_iff_eq, keypfx_and_eq_iff, decide_eq_true_iff]

theorem OwnKey.covers {jobid : CString} {key : BitVec 64} (h : OwnKey jobid key) : Covers jobid key := by
  rw [Covers, h, BitVec.and_self]

end Keys

namespace HashLog

variable {δ : Type} (log : HashLog δ)

def rememberSubmit (work : Work) (sharediff : δ) (nonce now sharesCount : Word) : HashLog δ :=
  log.insert (hashlogKey work.jobId nonce)
    { jobNonceId := sharesCount.setWidth 8
      sharediff := sharediff
      tmSent := now }

/-- Every key that has the bits of the number is looked at, not only those of the job. -/
def getLastSent (jobid : CString) : Word :=
  match lastEntry log fun key data => keypfx jobid &&& key == keypfx jobid && data.tmSent != 0 with
  | some (key, _) => loDword key
  | none => 0

/-- The time of a submission, or the last nonce if the nonce is 0. -/
def alreadySubmitted (jobid : CString) (nonce : Word) : Word :=
  if nonce = 0 then getLastSent log jobid
  else
    match log[hashlogKey jobid nonce]? with
    | some data => data.tmSent
    | none => 0

def getSharediff (jobid : CString) (jobNonceid : Int) (defvalue : δ) : δ :=
  match lastEntry log fun key data => keymsk &&& key == keypfx jobid &&
      (data.jobNonceId.toNat : Int) == jobNonceid && data.tmSent != 0 with
  | some (_, data) => data.sharediff
  | none => defvalue

def purgeOld (now : Word) : HashLog δ :=
  log.filter fun _ data => decide (now - data.tmSent ≤ logPurgeTimeout)

def purgeAll : HashLog δ := ∅

theorem getElem?_rememberSubmit (work : Work) (sharediff : δ) (nonce now sharesCount : Word)
    (key : BitVec 64) : (log.rememberSubmit work sharediff nonce now sharesCount)[key]? =
      if hashlogKey work.jobId nonce = key then
        some { jobNonceId := sharesCount.setWidth 8, sharediff := sharediff, tmSent := now }
      else log[key]? := by
  rw [HashLog.rememberSubmit, Std.TreeMap.getElem?_insert]
  simp only [Std.LawfulEqCmp.compare_eq_iff_eq]

theorem getElem?_purgeOld (now : Word) (key : BitVec 64) :
    (log.purgeOld now)[key]? = log[key]?.filter fun data => decide (now - data.tmSent ≤ logPurgeTimeout) := by
  rw [HashLog.purgeOld, Std.TreeMap.getElem?_filter']

theorem getSharediff_default {log : HashLog δ} {jobid : CString} {jobNonceid : Int} (defvalue : δ)
    (h : ∀ {key : BitVec 64} {data : HashlogData δ}, log[key]? = some data → OwnKey jobid key →
      (data.jobNonceId.toNat : Int) ≠ jobNonceid) :
    log.getSharediff jobid jobNonceid defvalue = defvalue := by
  have hnone : lastEntry log (fun key data => keymsk &&& key == keypfx jobid &&
      (data.jobNonceId.toNat : Int) == jobNonceid && data.tmSent != 0) = none := by
    refine lastEntry_eq_none_iff.mpr fun key data hdata => ?_
    rw [keymsk_and_beq]
    by_cases hown : OwnKey jobid key
    · rw [beq_eq_false_iff_ne.mpr (h hdata hown), Bool.and_false, Bool.false_and]
    · rw [decide_eq_false hown, Bool.false_and, Bool.false_and]
  rw [getSharediff, hnone]

end HashLog

end VerusMiner
