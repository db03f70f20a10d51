import VerusMiner.ExtranonceBounds
import VerusMiner.Lib.CMemory
import VerusMiner.Lib.Limbs

/-! The second extranonce, the last bytes of the block that a notify allocates
for the coinbase: which messages leave it inside the block while the miner
threads read it and count it up, and what the works get of it. -/

namespace VerusMiner

/-- What a work takes of the second extranonce; `serial` is its number among
the works since it was last cleared, none if a size has changed since. -/
structure SecondExtranonce where
  jobId : CString
  xnonce2 : List Byte
  serial : Option Nat

/-- The block `job.coinbase` has `coinbaseSize` bytes and `job.xnonce2` points
into it; `passed` are the threads that have seen a job and not yet taken the
lock. -/
structure CoinbaseState where
  sctx : StratumCtx
  coinbaseSize : Nat
  xnonce2 : Option Nat
  passed : Nat → Bool
  serial : Option Nat
  generated : List SecondExtranonce

inductive CoinbaseEvent where
  | extranonce (params : Json) (pndx : Nat)
  | notify (now : Word) (ntimeStack fresh : Mem) (params : Json)
  | freeJob
  | check (thr : Nat)
  | generate (thr : Nat)

def checkedRange (size off n : Nat) : MemChecked Unit := if off + n ≤ size then .ok () else .error .outside

def reallocMem (m : Mem) (size : Nat) (fresh : Mem) : Mem := fun i => if i < size then m i else fresh i

def xnonce2Offset (p : NotifyParams) (s : CoinbaseState) : Nat :=
  p.coinb1.length / 2 + p.coinb2.length / 2 + s.sctx.xnonce1Size

def reallocated (fresh : Mem) (s : CoinbaseState) : StratumCtx :=
  { s.sctx with job := { s.sctx.job with coinbase := reallocMem s.sctx.job.coinbase s.coinbaseSize fresh } }

def notifyCoinbase (fresh : Mem) (p : NotifyParams) (s : CoinbaseState) : Mem :=
  let coinb1Size := p.coinb1.length / 2
  let coinb2Size := p.coinb2.length / 2
  let coinbase := (hex2bin (reallocated fresh s).job.coinbase 0 p.coinb1 coinb1Size).1
  let coinbase := (hex2bin coinbase coinb1Size p.coinb2 coinb2Size).1
  let coinbase :=
    if s.sctx.job.jobId = some p.jobId then coinbase
    else memset coinbase (xnonce2Offset p s) 0 s.sctx.xnonce2Size.toNat
  memcpy coinbase (coinb1Size + coinb2Size) s.sctx.xnonce1 0 s.sctx.xnonce1Size

/-- The four writes into the new block, in their order. -/
def notifyBlock (fresh : Mem) (p : NotifyParams) (s : CoinbaseState) : MemChecked CoinbaseState := do
  let coinb1Size := p.coinb1.length / 2
  let coinb2Size := p.coinb2.length / 2
  let xnonce2Size := s.sctx.xnonce2Size.toNat
  let size := coinb1Size + coinb2Size + s.sctx.xnonce1Size + xnonce2Size
  checkedRange size 0 coinb1Size
  checkedRange size coinb1Size coinb2Size
  if s.sctx.job.jobId ≠ some p.jobId then checkedRange size (xnonce2Offset p s) xnonce2Size
  checkedRange size (coinb1Size + coinb2Size) s.sctx.xnonce1Size
  let sctx := notifyLocked p s.sctx
  return { s with
    sctx := { sctx with job := { sctx.job with coinbase := notifyCoinbase fresh p s } }
    coinbaseSize := size
    xnonce2 := some (xnonce2Offset p s)
    serial := if s.sctx.job.jobId = some p.jobId then s.serial else some 0 }

/-- What is done of it under `stratum_work_lock`: the copy for the work, whose
field has 32 bytes, and the count. -/
def genWorkExtranonce (s : CoinbaseState) : MemChecked CoinbaseState := do
  let jobId ← deref s.sctx.job.jobId
  let xnonce2 ← deref s.xnonce2
  let xnonce2Size := s.sctx.xnonce2Size.toNat
  checkedRange s.coinbaseSize xnonce2 xnonce2Size
  checkedRange 32 0 xnonce2Size
  let coinbase := s.sctx.job.coinbase
  return { s with
    sctx := { s.sctx with job := { s.sctx.job with coinbase := increment coinbase xnonce2 xnonce2Size } }
    serial := s.serial.map (· + 1)
    generated := s.generated ++
      [{ jobId := jobId, xnonce2 := bytesAt coinbase xnonce2 xnonce2Size, serial := s.serial }] }

def CoinbaseState.freeJob (s : CoinbaseState) : CoinbaseState :=
  { s with sctx := { s.sctx with job := zeroJob }, coinbaseSize := 0, xnonce2 := none }

def CoinbaseState.setExtranonce (s : CoinbaseState) (params : Json) (pndx : Nat) : CoinbaseState :=
  let sctx := (stratumParseExtranonce s.sctx params pndx).2
  let sameSizes := sctx.xnonce1Size = s.sctx.xnonce1Size ∧ sctx.xnonce2Size = s.sctx.xnonce2Size
  { s with sctx := sctx, serial := if sameSizes then s.serial else none }

/-- A thread looks for a job before it takes the lock. -/
def coinbaseStep (s : CoinbaseState) : CoinbaseEvent → MemChecked CoinbaseState
  | .extranonce params pndx => .ok (s.setExtranonce params pndx)
  | .notify now ntimeStack fresh params =>
    match notifyParams params with
    | none => .ok s
    | some p => do
      let sctx ← deref (notifySolution p s.sctx)
      notifyBlock fresh p { s with sctx := notifySrvtime now ntimeStack p sctx }
  | .freeJob => .ok (if s.sctx.job.jobId.isSome then s.freeJob else s)
  | .check thr =>
    .ok (if s.sctx.job.jobId.isSome then { s with passed := Function.update s.passed thr true } else s)
  | .generate thr =>
    if s.passed thr then genWorkExtranonce { s with passed := Function.update s.passed thr false } else .ok s

def coinbaseStart : CoinbaseState where
  sctx := zeroCtx
  coinbaseSize := 0
  xnonce2 := none
  passed := fun _ => false
  serial := none
  generated := []

def coinbaseRun (s : CoinbaseState) (e : CoinbaseEvent) : Option CoinbaseState := (coinbaseStep s e).toOption

/-- What the block has room for: the size the pool asked for last, the size
the last notify reserved, and the threads past their check. -/
structure Room where
  asked : Nat
  reserved : Option Nat
  passed : Nat → Bool

def acceptedSize (params : Json) (pndx : Nat) : Option Nat :=
  match stratumParseExtranonce zeroCtx params pndx with
  | (true, sctx) => some sctx.xnonce2Size.toNat
  | (false, _) => none

def Room.next (r : Room) : CoinbaseEvent → Room
  | .extranonce params pndx => { r with asked := (acceptedSize params pndx).getD r.asked }
  | .notify _ _ _ params => if (notifyParams params).isSome then { r with reserved := some r.asked } else r
  | .freeJob => { r with reserved := none }
  | .check thr => if r.reserved.isSome then { r with passed := Function.update r.passed thr true } else r
  | .generate thr => { r with passed := Function.update r.passed thr false }

/-- A thread that has passed its check finds a job under the lock, and the
pool has not asked for more than was reserved for it. -/
def Room.Fits (r : Room) : CoinbaseEvent → Prop
  | .generate thr => r.passed thr = true → ∃ n, r.reserved = some n ∧ r.asked ≤ n
  | .notify _ _ _ params => ∀ p, notifyParams params = some p → p.solution.isSome = true
  | _ => True

def roomStart : Room where
  asked := 0
  reserved := none
  passed := fun _ => false

/-- The block is the coinbase, the first extranonce and what was reserved. -/
structure Reserves (s : CoinbaseState) (r : Room) : Prop where
  asked : s.sctx.xnonce2Size.toNat = r.asked
  bounded : r.asked ≤ 29
  passed : s.passed = r.passed
  job : s.sctx.job.jobId.isSome = r.reserved.isSome
  block : ∀ n, r.reserved = some n → ∃ xnonce2, s.xnonce2 = some xnonce2 ∧ s.coinbaseSize = xnonce2 + n

theorem checkedRange_ok {size off n : Nat} (h : off + n ≤ size) : checkedRange size off n = .ok () := if_pos h

theorem stratumParseExtranonce_accepted (sctx : StratumCtx) (params : Json) (pndx : Nat) :
    (stratumParseExtranonce sctx params pndx).2.job = sctx.job ∧
    (stratumParseExtranonce sctx params pndx).2.xnonce2Size.toNat =
      (acceptedSize params pndx).getD sctx.xnonce2Size.toNat ∧
    ∀ n, acceptedSize params pndx = some n → n ≤ 29 := by
  simp only [acceptedSize, stratumParseExtranonce]
  split
  · exact ⟨rfl, rfl, fun _ h => by cases h⟩
  · split_ifs
    · exact ⟨rfl, rfl, fun _ h => by cases h⟩
    · refine ⟨rfl, rfl, ?_⟩
      rintro _ ⟨⟩
      dsimp only
      omega
    · exact ⟨rfl, rfl, fun _ h => by cases h⟩
    · refine ⟨rfl, rfl, ?_⟩
      rintro _ ⟨⟩
      dsimp only
      omega

theorem notifySolution_size {p : NotifyParams} {sctx sctx' : StratumCtx} (h : notifySolution p sctx = some sctx') :
    ∃ solution, sctx' = { sctx with job := { sctx.job with solution := solution } } := by
  obtain ⟨_, _, rfl⟩ := Option.map_eq_some_iff.mp h
  exact ⟨_, rfl⟩

theorem notifySrvtime_eq (now : Word) (ntimeStack : Mem) (p : NotifyParams) (sctx : StratumCtx) :
    ∃ srvtimeDiff, notifySrvtime now ntimeStack p sctx = { sctx with srvtimeDiff := srvtimeDiff } := by
  rw [notifySrvtime]
  split
  · exact ⟨_, rfl⟩
  · exact ⟨_, rfl⟩

theorem notifyCoinbase_behind (fresh : Mem) (p : NotifyParams) (s : CoinbaseState) {i : Nat}
    (hi : i < s.sctx.xnonce2Size.toNat) :
    notifyCoinbase fresh p s (xnonce2Offset p s + i) =
      if s.sctx.job.jobId = some p.jobId then (reallocated fresh s).job.coinbase (xnonce2Offset p s + i) else 0 := by
  have hoff : xnonce2Offset p s = p.coinb1.length / 2 + p.coinb2.length / 2 + s.sctx.xnonce1Size := rfl
  simp only [notifyCoinbase]
  rw [memcpy_off (.inr (by omega))]
  split_ifs
  · rw [hex2bin_off _ _ _ _ (.inr (by omega)), hex2bin_off _ _ _ _ (.inr (by omega))]
  · rw [memset, if_pos (by omega)]

theorem notifyBlock_ok (fresh : Mem) (p : NotifyParams) (s : CoinbaseState) :
    notifyBlock fresh p s = .ok { s with
      sctx := { notifyLocked p s.sctx with
        job := { (notifyLocked p s.sctx).job with coinbase := notifyCoinbase fresh p s } }
      coinbaseSize := xnonce2Offset p s + s.sctx.xnonce2Size.toNat
      xnonce2 := some (xnonce2Offset p s)
      serial := if s.sctx.job.jobId = some p.jobId then s.serial else some 0 } := by
  have hoff : xnonce2Offset p s = p.coinb1.length / 2 + p.coinb2.length / 2 + s.sctx.xnonce1Size := rfl
  simp only [notifyBlock]
  rw [checkedRange_ok (by omega), checkedRange_ok (by omega), checkedRange_ok (by omega), checkedRange_ok (by omega)]
  split_ifs <;> rfl

theorem genWorkExtranonce_ok {s : CoinbaseState} {jobId : CString} {xnonce2 : Nat}
    (hjob : s.sctx.job.jobId = some jobId) (hxnonce2 : s.xnonce2 = some xnonce2)
    (hin : xnonce2 + s.sctx.xnonce2Size.toNat ≤ s.coinbaseSize) (hfield : s.sctx.xnonce2Size.toNat ≤ 32) :
    genWorkExtranonce s = .ok { s with
      sctx := { s.sctx with
        job := { s.sctx.job with coinbase := increment s.sctx.job.coinbase xnonce2 s.sctx.xnonce2Size.toNat } }
      serial := s.serial.map (· + 1)
      generated := s.generated ++ [{
        jobId := jobId
        xnonce2 := bytesAt s.sctx.job.coinbase xnonce2 s.sctx.xnonce2Size.toNat
        serial := s.serial }] } := by
  simp only [genWorkExtranonce, hjob, hxnonce2, deref, ok_bind, checkedRange_ok hin,
    checkedRange_ok (show 0 + s.sctx.xnonce2Size.toNat ≤ 32 by omega)]
  rfl

namespace Reserves

variable {s s' : CoinbaseState} {r : Room}

theorem setExtranonce (h : Reserves s r) (params : Json) (pndx : Nat) :
    Reserves (s.setExtranonce params pndx) (r.next (.extranonce params pndx)) := by
  obtain ⟨hjob, hsize, hle⟩ := stratumParseExtranonce_accepted s.sctx params pndx
  refine ⟨?_, ?_, h.passed, ?_, h.block⟩
  · exact hsize.trans (congrArg _ h.asked)
  · change (acceptedSize params pndx).getD r.asked ≤ 29
    cases hn : acceptedSize params pndx with
    | none => exact h.bounded
    | some n => exact hle n hn
  · exact (congrArg (fun job => job.jobId.isSome) hjob).trans h.job

theorem notify (h : Reserves s r) {now : Word} {ntimeStack fresh : Mem} {params : Json} {p : NotifyParams}
    (hp : notifyParams params = some p) {sctx : StratumCtx} (hsolution : notifySolution p s.sctx = some sctx)
    (hs' : notifyBlock fresh p { s with sctx := notifySrvtime now ntimeStack p sctx } = .ok s') :
    Reserves s' (r.next (.notify now ntimeStack fresh params)) := by
  obtain ⟨solution, rfl⟩ := notifySolution_size hsolution
  obtain ⟨srvtimeDiff, hsrv⟩ := notifySrvtime_eq now ntimeStack p
    { s.sctx with job := { s.sctx.job with solution := solution } }
  rw [hsrv, notifyBlock_ok] at hs'
  cases hs'
  rw [Room.next, hp, Option.isSome_some, if_pos rfl]
  refine ⟨h.asked, h.bounded, h.passed, rfl, ?_⟩
  rintro n ⟨⟩
  exact ⟨_, rfl, congrArg _ h.asked⟩

theorem freeJob (h : Reserves s r) :
    Reserves (if s.sctx.job.jobId.isSome then s.freeJob else s) (r.next .freeJob) := by
  split
  · exact ⟨h.asked, h.bounded, h.passed, rfl, fun _ hn => nomatch hn⟩
  case isFalse hnone =>
    have hjob : s.sctx.job.jobId.isSome = false := Bool.eq_false_iff.mpr hnone
    exact ⟨h.asked, h.bounded, h.passed, hjob, fun _ hn => nomatch hn⟩

theorem check (h : Reserves s r) (thr : Nat) :
    Reserves (if s.sctx.job.jobId.isSome then { s with passed := Function.update s.passed thr true } else s)
      (r.next (.check thr)) := by
  rw [Room.next, h.job]
  split
  · exact ⟨h.asked, h.bounded, congrArg (Function.update · thr true) h.passed, h.job, h.block⟩
  · exact h

theorem generate (h : Reserves s r) (thr : Nat) :
    Reserves { s with passed := Function.update s.passed thr false } (r.next (.generate thr)) :=
  ⟨h.asked, h.bounded, congrArg (Function.update · thr false) h.passed, h.job, h.block⟩

theorem not_passed (h : Reserves s r) {thr : Nat} (hthr : s.passed thr = false) :
    r.next (.generate thr) = r := by
  have hr : r.passed thr = false := h.passed ▸ hthr
  rw [Room.next, ← hr, Function.update_eq_self]

/-- A work is generated inside the block exactly when no more is asked for
than was reserved. -/
theorem genWork_iff (h : Reserves s r) :
    (∃ s', genWorkExtranonce s = .ok s') ↔ ∃ n, r.reserved = some n ∧ r.asked ≤ n := by
  cases hreserved : r.reserved with
  | none =>
    have hjob : s.sctx.job.jobId = none := by
      rw [← Option.not_isSome_iff_eq_none, h.job, hreserved]
      exact Bool.false_ne_true
    refine iff_of_false ?_ (fun ⟨n, hn, _⟩ => nomatch hn)
    rintro ⟨s', hs'⟩
    rw [genWorkExtranonce, hjob] at hs'
    exact nomatch hs'
  | some n =>
    obtain ⟨jobId, hjob⟩ := Option.isSome_iff_exists.mp (h.job.trans (by rw [hreserved, Option.isSome_some]))
    obtain ⟨xnonce2, hxnonce2, hsize⟩ := h.block n hreserved
    have hasked := h.asked
    have hbounded := h.bounded
    constructor
    · rintro ⟨s', hs'⟩
      simp only [genWorkExtranonce, hjob, hxnonce2, deref, ok_bind] at hs'
      obtain ⟨_, hin, -⟩ := bind_eq_ok.mp hs'
      refine ⟨n, rfl, ?_⟩
      by_contra hover
      rw [checkedRange, if_neg (by omega)] at hin
      exact nomatch hin
    · rintro ⟨_, ⟨⟩, hle⟩
      exact ⟨_, genWorkExtranonce_ok hjob hxnonce2 (by omega) (by omega)⟩

theorem genWork (h : Reserves s r) (hs' : genWorkExtranonce s = .ok s') : Reserves s' r := by
  simp only [genWorkExtranonce] at hs'
  obtain ⟨jobId, hjob, hs'⟩ := bind_eq_ok.mp hs'
  obtain ⟨xnonce2, -, hs'⟩ := bind_eq_ok.mp hs'
  obtain ⟨_, -, hs'⟩ := bind_eq_ok.mp hs'
  obtain ⟨_, -, hs'⟩ := bind_eq_ok.mp hs'
  cases hs'
  exact ⟨h.asked, h.bounded, h.passed, h.job, h.block⟩

theorem step (h : Reserves s r) {e : CoinbaseEvent} (he : coinbaseStep s e = .ok s') : Reserves s' (r.next e) := by
  cases e with
  | extranonce params pndx =>
    cases he
    exact h.setExtranonce params pndx
  | notify now ntimeStack fresh params =>
    rw [coinbaseStep] at he
    split at he
    case h_1 hp =>
      cases he
      rw [Room.next, hp, Option.isSome_none, if_neg Bool.false_ne_true]
      exact h
    case h_2 p hp =>
      obtain ⟨sctx, hsolution, hs'⟩ := bind_eq_ok.mp he
      exact h.notify hp (deref_eq_ok.mp hsolution) hs'
  | freeJob =>
    cases he
    exact h.freeJob
  | check thr =>
    cases he
    exact h.check thr
  | generate thr =>
    rw [coinbaseStep] at he
    split at he
    · exact (h.generate thr).genWork he
    case isFalse hthr =>
      cases he
      rw [h.not_passed (Bool.eq_false_iff.mpr hthr)]
      exact h

theorem fits_iff (h : Reserves s r) (e : CoinbaseEvent) : (∃ s', coinbaseStep s e = .ok s') ↔ r.Fits e := by
  cases e with
  | extranonce params pndx => exact iff_of_true ⟨_, rfl⟩ trivial
  | notify now ntimeStack fresh params =>
    rw [coinbaseStep, Room.Fits]
    cases hp : notifyParams params with
    | none => exact iff_of_true ⟨_, rfl⟩ (fun _ hp' => by cases hp')
    | some p =>
      cases hsolution : p.solution with
      | none =>
        refine iff_of_false ?_ (fun hfits => ?_)
        · simp only [notifySolution, hsolution, Option.map_none, deref]
          rintro ⟨s', hs'⟩
          cases hs'
        · have hsome := hfits p rfl
          rw [hsolution] at hsome
          cases hsome
      | some solution =>
        refine iff_of_true ?_ ?_
        · simp only [notifySolution, hsolution, Option.map_some, deref, ok_bind, notifyBlock_ok]
          exact ⟨_, rfl⟩
        · rintro _ ⟨⟩
          rw [hsolution, Option.isSome_some]
  | freeJob => exact iff_of_true ⟨_, rfl⟩ trivial
  | check thr => exact iff_of_true ⟨_, rfl⟩ trivial
  | generate thr =>
    rw [coinbaseStep, Room.Fits, ← h.passed]
    split
    case isTrue hthr =>
      rw [(h.generate thr).genWork_iff]
      exact ⟨fun hn _ => hn, fun hn => hn hthr⟩
    case isFalse hthr => exact iff_of_true ⟨_, rfl⟩ (fun hpassed => absurd hpassed hthr)

end Reserves

theorem coinbaseStart_reserves : Reserves coinbaseStart roomStart :=
  ⟨rfl, by decide, rfl, rfl, fun _ hn => nomatch hn⟩

theorem run_coinbase_iff (es : List CoinbaseEvent) :
    (∃ s, run coinbaseRun coinbaseStart es = some s) ↔
      Along (fun r e => some (Room.next r e)) Room.Fits roomStart es := by
  refine exists_run_iff_along (R := Reserves) ?_ ?_ coinbaseStart_reserves
  · intro s r e h
    simp only [coinbaseRun, toOption_eq_some]
    exact h.fits_iff e
  · intro s r e s' h he
    exact h.step (toOption_eq_some.mp he)

def SecondExtranonce.number (g : SecondExtranonce) : Nat := leNat (ofBytes g.xnonce2) 0 g.xnonce2.length

/-- The `k`-th work since the second extranonce was cleared has the number `k`
in as many bytes as it has. -/
def SecondExtranonce.Counts (g : SecondExtranonce) : Prop :=
  ∀ k, g.serial = some k → g.number = k % 256 ^ g.xnonce2.length

structure CountsUp (s : CoinbaseState) : Prop where
  works : ∀ g ∈ s.generated, g.Counts
  counter : ∀ k, s.serial = some k → s.sctx.job.jobId.isSome = true →
    s.xnonce2 = some (64 + s.sctx.xnonce1Size) ∧
    s.coinbaseSize = 64 + s.sctx.xnonce1Size + s.sctx.xnonce2Size.toNat ∧
    leNat s.sctx.job.coinbase (64 + s.sctx.xnonce1Size) s.sctx.xnonce2Size.toNat =
      k % 256 ^ s.sctx.xnonce2Size.toNat

theorem leNat_zero_bytes {m : Mem} {off n : Nat} (h : ∀ i < n, m (off + i) = 0) : leNat m off n = 0 := by
  rw [leNat, leValue]
  exact Finset.sum_eq_zero fun i hi => by
    rw [h i (Finset.mem_range.mp hi), show BitVec.toNat (0 : Byte) = 0 from rfl, Nat.zero_mul]

theorem leNat_notifyCoinbase (fresh : Mem) (p : NotifyParams) (s : CoinbaseState)
    (hsize : s.sctx.job.jobId = some p.jobId → s.coinbaseSize = xnonce2Offset p s + s.sctx.xnonce2Size.toNat) :
    leNat (notifyCoinbase fresh p s) (xnonce2Offset p s) s.sctx.xnonce2Size.toNat =
      if s.sctx.job.jobId = some p.jobId then leNat s.sctx.job.coinbase (xnonce2Offset p s) s.sctx.xnonce2Size.toNat
      else 0 := by
  split
  case isTrue hjob =>
    refine leNat_congr fun i hi => ?_
    rw [notifyCoinbase_behind _ _ _ hi, if_pos hjob]
    exact if_pos (by rw [hsize hjob]; omega)
  case isFalse hjob =>
    refine leNat_zero_bytes fun i hi => ?_
    rw [notifyCoinbase_behind _ _ _ hi, if_neg hjob]

theorem number_bytesAt (jobId : CString) (m : Mem) (off n : Nat) (serial : Option Nat) :
    SecondExtranonce.number { jobId := jobId, xnonce2 := bytesAt m off n, serial := serial } = leNat m off n := by
  rw [SecondExtranonce.number, length_bytesAt]
  exact leNat_congr fun i hi => by rw [Nat.zero_add, ofBytes_bytesAt _ _ hi]

theorem leNat_increment (m : Mem) (off n : Nat) :
    leNat (increment m off n) off n = (leNat m off n + 1) % 256 ^ n := by
  have h := limbs_increment m off n
  rwa [pow_mul] at h

theorem xnonce2Offset_eq {params : Json} {p : NotifyParams} (hp : notifyParams params = some p) (s : CoinbaseState) :
    xnonce2Offset p s = 64 + s.sctx.xnonce1Size := by
  simp only [notifyParams, Option.bind_eq_bind, Option.bind_eq_some_iff] at hp
  obtain ⟨_, -, _, -, _, -, _, -, _, -, _, -, _, -, hp⟩ := hp
  split at hp
  · cases hp
  case isFalse hlengths =>
    cases hp
    rw [xnonce2Offset]
    dsimp only
    omega

namespace CountsUp

variable {s s' : CoinbaseState}

theorem setExtranonce (h : CountsUp s) (params : Json) (pndx : Nat) : CountsUp (s.setExtranonce params pndx) := by
  have hjob := (stratumParseExtranonce_accepted s.sctx params pndx).1
  refine ⟨h.works, fun k hk hjobId => ?_⟩
  simp only [CoinbaseState.setExtranonce] at hk hjobId ⊢
  split at hk
  case isTrue hsizes =>
    rw [hjob] at hjobId ⊢
    rw [hsizes.1, hsizes.2]
    exact h.counter k hk hjobId
  case isFalse => exact nomatch hk

theorem freeJob (h : CountsUp s) : CountsUp s.freeJob :=
  ⟨h.works, fun _ _ hjob => nomatch hjob⟩

theorem notifyBlock (h : CountsUp s) {fresh : Mem} {params : Json} {p : NotifyParams}
    (hp : notifyParams params = some p) (hs' : notifyBlock fresh p s = .ok s') : CountsUp s' := by
  rw [notifyBlock_ok] at hs'
  cases hs'
  refine ⟨h.works, fun k hk _ => ?_⟩
  have hoff := xnonce2Offset_eq hp s
  refine ⟨?_, ?_, ?_⟩
  · change some (xnonce2Offset p s) = some (64 + s.sctx.xnonce1Size)
    rw [hoff]
  · change xnonce2Offset p s + s.sctx.xnonce2Size.toNat = 64 + s.sctx.xnonce1Size + s.sctx.xnonce2Size.toNat
    rw [hoff]
  change leNat (notifyCoinbase fresh p s) (64 + s.sctx.xnonce1Size) s.sctx.xnonce2Size.toNat = _
  rw [← hoff]
  by_cases hjob : s.sctx.job.jobId = some p.jobId
  · rw [if_pos hjob] at hk
    obtain ⟨-, hsize, hvalue⟩ := h.counter k hk (by rw [hjob, Option.isSome_some])
    rw [leNat_notifyCoinbase _ _ _ (fun _ => by rw [hsize, hoff]), if_pos hjob, hoff, hvalue]
    rfl
  · rw [if_neg hjob] at hk
    obtain rfl := Option.some.inj hk
    rw [leNat_notifyCoinbase _ _ _ (fun hsame => absurd hsame hjob), if_neg hjob, Nat.zero_mod]

theorem notify (h : CountsUp s) {now : Word} {ntimeStack fresh : Mem} {params : Json} {p : NotifyParams}
    (hp : notifyParams params = some p) {sctx : StratumCtx} (hsolution : notifySolution p s.sctx = some sctx)
    (hs' : VerusMiner.notifyBlock fresh p { s with sctx := notifySrvtime now ntimeStack p sctx } = .ok s') :
    CountsUp s' := by
  obtain ⟨solution, rfl⟩ := notifySolution_size hsolution
  obtain ⟨srvtimeDiff, hsrv⟩ := notifySrvtime_eq now ntimeStack p
    { s.sctx with job := { s.sctx.job with solution := solution } }
  rw [hsrv] at hs'
  have hframe : CountsUp { s with
      sctx := { s.sctx with job := { s.sctx.job with solution := solution }, srvtimeDiff := srvtimeDiff } } :=
    ⟨h.works, h.counter⟩
  exact hframe.notifyBlock hp hs'

theorem genWork (h : CountsUp s) (hs' : genWorkExtranonce s = .ok s') : CountsUp s' := by
  simp only [genWorkExtranonce] at hs'
  obtain ⟨jobId, hjob, hs'⟩ := bind_eq_ok.mp hs'
  obtain ⟨xnonce2, hxnonce2, hs'⟩ := bind_eq_ok.mp hs'
  obtain ⟨_, -, hs'⟩ := bind_eq_ok.mp hs'
  obtain ⟨_, -, hs'⟩ := bind_eq_ok.mp hs'
  cases hs'
  have hjobId : s.sctx.job.jobId.isSome = true := by rw [deref_eq_ok.mp hjob, Option.isSome_some]
  have hcounter (k : Nat) (hk : s.serial = some k) :
      xnonce2 = 64 + s.sctx.xnonce1Size ∧
      leNat s.sctx.job.coinbase xnonce2 s.sctx.xnonce2Size.toNat = k % 256 ^ s.sctx.xnonce2Size.toNat := by
    obtain ⟨hx, -, hvalue⟩ := h.counter k hk hjobId
    obtain rfl := Option.some.inj (hx.symm.trans (deref_eq_ok.mp hxnonce2))
    exact ⟨rfl, hvalue⟩
  refine ⟨?_, fun k hk _ => ?_⟩
  · intro g hg
    rcases List.mem_append.mp hg with hg | hg
    · exact h.works g hg
    · obtain rfl := List.mem_singleton.mp hg
      intro k hk
      rw [number_bytesAt, length_bytesAt]
      exact (hcounter k hk).2
  · obtain ⟨k', hk', rfl⟩ := Option.map_eq_some_iff.mp hk
    obtain ⟨hx, hsize, -⟩ := h.counter k' hk' hjobId
    obtain ⟨rfl, hvalue⟩ := hcounter k' hk'
    refine ⟨hx, hsize, ?_⟩
    change leNat (increment s.sctx.job.coinbase (64 + s.sctx.xnonce1Size) s.sctx.xnonce2Size.toNat) _ _ = _
    rw [leNat_increment, hvalue, Nat.mod_add_mod]

theorem step (h : CountsUp s) {e : CoinbaseEvent} (he : coinbaseStep s e = .ok s') : CountsUp s' := by
  cases e with
  | extranonce params pndx =>
    cases he
    exact h.setExtranonce params pndx
  | notify now ntimeStack fresh params =>
    rw [coinbaseStep] at he
    split at he
    case h_1 =>
      cases he
      exact h
    case h_2 p hp =>
      obtain ⟨sctx, hsolution, hs'⟩ := bind_eq_ok.mp he
      exact h.notify hp (deref_eq_ok.mp hsolution) hs'
  | freeJob =>
    cases he
    split
    · exact h.freeJob
    · exact h
  | check thr =>
    cases he
    split
    · exact ⟨h.works, h.counter⟩
    · exact h
  | generate thr =>
    rw [coinbaseStep] at he
    split at he
    · have hpassed : CountsUp { s with passed := Function.update s.passed thr false } := ⟨h.works, h.counter⟩
      exact hpassed.genWork he
    · cases he
      exact h

end CountsUp

/-- In every run the works number off: a new job starts from zero, the same job
sent again goes on, and a change of the sizes waits for the next new job. -/
theorem run_countsUp (es : List CoinbaseEvent) : Throughout coinbaseRun CountsUp coinbaseStart es := by
  have hstart : CountsUp coinbaseStart :=
    ⟨fun _ hg => absurd hg List.not_mem_nil, fun _ _ hjob => absurd hjob Bool.false_ne_true⟩
  exact throughout_of_invariant (fun h he => CountsUp.step h (toOption_eq_some.mp he)) id hstart es

end VerusMiner
