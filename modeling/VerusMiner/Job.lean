import VerusMiner.Work

/-! The stratum job: what the pool's messages write into it, and the work
generated from it. -/

namespace VerusMiner

inductive Json where
  | null
  | bool (b : Bool)
  | string (s : CString)
  | integer (n : Int)
  | real (x : Float)
  | array (elements : List Json)
  | object (members : List (CString × Json))

def jsonArrayGet (v : Json) (i : Nat) : Option Json :=
  match v with
  | .array elements => elements[i]?
  | _ => none

def jsonStringValue : Option Json → Option CString
  | some (.string s) => some s
  | _ => none

def jsonIntegerValue : Option Json → Int
  | some (.integer n) => n
  | _ => 0

def jsonIsTrue : Option Json → Bool
  | some (.bool b) => b
  | _ => false

/-- The first 64 bytes of `coinbase` are the merkle root and the reserved field. -/
structure StratumJob where
  jobId : Option CString
  prevhash : Mem
  coinbase : Mem
  version : Mem
  nbits : Mem
  ntime : Mem
  extra : Mem
  clean : Bool
  height : Word
  diff : Float
  solution : Mem

structure StratumCtx where
  nextDiff : Float
  xnonce1Size : Nat
  xnonce1 : Mem
  xnonce2Size : Int
  job : StratumJob
  pooln : Word
  srvtimeDiff : Word

def targetToDiffVerus (target : Word) : Float :=
  let exponentDiff : Int := 8 * (0x20 - ((target >>> 24) &&& 0xff).toNat)
  let significand := Float.ofNat (target &&& 0xffffff).toNat
  Float.scaleB (Float.ofNat 0x0f0f0f / significand) exponentDiff

/-- The storage `verus_stratum_set_target` reads without having written it:
the bytes a short text leaves, the bytes before `target_be`, the top byte of
`target_bits`, and the distance computed from a null `bits_start`. -/
structure SetTargetStack where
  targetBin : Mem
  beforeTargetBe : Mem
  bitsTop : Byte
  nullPadding : Int

structure TargetBytes where
  targetBe : Mem
  filled : Nat
  bitsStart : Option Nat

def targetByte (targetBin : Mem) (t : TargetBytes) (i : Nat) : TargetBytes :=
  if t.filled = 8 then t
  else
    let targetBe := Function.update t.targetBe (31 - i) (targetBin i)
    if targetBin i ≠ 0 then
      { targetBe := targetBe, filled := t.filled + 1, bitsStart := t.bitsStart.orElse fun _ => some i }
    else { t with targetBe := targetBe }

def targetBytes (targetBin : Mem) : TargetBytes :=
  (List.range 32).foldl (targetByte targetBin) { targetBe := fun _ => 0, filled := 0, bitsStart := none }

/-- The exponent is the number of bytes from the first that is not zero on,
truncated to a byte; it is or-ed into a byte nobody wrote. -/
def targetBits (stack : SetTargetStack) (t : TargetBytes) : Word :=
  let padding : Int := match t.bitsStart with
    | some i => 31 - i
    | none => stack.nullPadding
  let exponent := BitVec.ofInt 8 (((padding * 8 + 1) + 7).tdiv 8)
  let byteAt (k : Nat) : Byte :=
    if exponent.toNat + k < 3 then stack.beforeTargetBe (exponent.toNat + k)
    else t.targetBe (exponent.toNat + k - 3)
  (stack.bitsTop ||| exponent) ++ byteAt 2 ++ byteAt 1 ++ byteAt 0

def verusStratumSetTarget (stack : SetTargetStack) (sctx : StratumCtx) (params : Json) :
    Bool × StratumCtx :=
  match jsonStringValue (jsonArrayGet params 0) with
  | none => (false, sctx)
  | some [] => (false, sctx)
  | some targetHex =>
    let t := targetBytes (hex2bin stack.targetBin 0 targetHex 32).1
    (true, { sctx with
      job := { sctx.job with extra := memcpy sctx.job.extra 0 t.targetBe 0 32 }
      nextDiff := targetToDiffVerus (targetBits stack t) })

/-- The parameters of a notify that passes the checks. The solution is taken
as it comes. -/
structure NotifyParams where
  jobId : CString
  version : CString
  prevhash : CString
  coinb1 : CString
  coinb2 : CString
  stime : CString
  nbits : CString
  clean : Bool
  solution : Option CString

def notifyParams (params : Json) : Option NotifyParams := do
  let param (p : Nat) := jsonStringValue (jsonArrayGet params p)
  let jobId ← param 0
  let version ← param 1
  let prevhash ← param 2
  let coinb1 ← param 3
  let coinb2 ← param 4
  let stime ← param 5
  let nbits ← param 6
  if prevhash.length ≠ 64 ∨ version.length ≠ 8 ∨ coinb1.length ≠ 64 ∨ coinb2.length ≠ 64 ∨
      nbits.length ≠ 8 ∨ stime.length ≠ 8 then none
  else
    some { jobId, version, prevhash, coinb1, coinb2, stime, nbits,
           clean := jsonIsTrue (jsonArrayGet params 7), solution := param 8 }

/-- The solution is decoded straight into the job, before the lock is taken.
Decoding a missing one dereferences a null pointer. -/
def notifySolution (p : NotifyParams) (sctx : StratumCtx) : Option StratumCtx :=
  p.solution.map fun solution =>
    { sctx with job := { sctx.job with solution := (hex2bin sctx.job.solution 0 solution 1344).1 } }

/-- `ntimeStack` is what the local time word holds before it is decoded. -/
def notifySrvtime (now : Word) (ntimeStack : Mem) (p : NotifyParams) (sctx : StratumCtx) :
    StratumCtx :=
  let ntime := le32dec (hex2bin ntimeStack 0 p.stime 4).1 0 - now
  if ntime.toInt > sctx.srvtimeDiff.toInt then { sctx with srvtimeDiff := ntime } else sctx

/-- What is done under `stratum_work_lock`. -/
def notifyLocked (p : NotifyParams) (sctx : StratumCtx) : StratumCtx :=
  let job := sctx.job
  let coinb1Size := p.coinb1.length / 2
  let coinb2Size := p.coinb2.length / 2
  let coinbase := (hex2bin job.coinbase 0 p.coinb1 coinb1Size).1
  let coinbase := (hex2bin coinbase coinb1Size p.coinb2 coinb2Size).1
  { sctx with
    job := { job with
      version := (hex2bin job.version 0 p.version 4).1
      prevhash := (hex2bin job.prevhash 0 p.prevhash 32).1
      coinbase := memcpy coinbase (coinb1Size + coinb2Size) sctx.xnonce1 0 sctx.xnonce1Size
      jobId := some p.jobId
      nbits := (hex2bin job.nbits 0 p.nbits 4).1
      ntime := (hex2bin job.ntime 0 p.stime 4).1
      clean := p.clean
      diff := sctx.nextDiff } }

/-- No result is a crash. -/
def verusStratumNotify (now : Word) (ntimeStack : Mem) (sctx : StratumCtx) (params : Json) :
    Option (Bool × StratumCtx) :=
  match notifyParams params with
  | none => some (false, sctx)
  | some p =>
    (notifySolution p sctx).map fun sctx => (true, notifyLocked p (notifySrvtime now ntimeStack p sctx))

def stratumParseExtranonce (sctx : StratumCtx) (params : Json) (pndx : Nat) : Bool × StratumCtx :=
  match jsonStringValue (jsonArrayGet params pndx) with
  | none => (false, sctx)
  | some xnonce1 =>
    let accept (xn2Size : Int) : Bool × StratumCtx :=
      let size := xnonce1.length / 2
      (true, { sctx with
        xnonce1Size := size
        xnonce1 := (hex2bin (fun _ => 0) 0 xnonce1 size).1
        xnonce2Size := xn2Size })
    let xn2Size := (BitVec.ofInt 32 (jsonIntegerValue (jsonArrayGet params (pndx + 1)))).toInt
    if xn2Size = 0 then
      let xn1Size : Int := xnonce1.length / 2
      if xn1Size < 3 ∨ xn1Size > 12 then (false, sctx) else accept (32 - xn1Size)
    else if xn2Size < 2 ∨ xn2Size > 16 then (false, sctx) else accept xn2Size

def genWorkData (sctx : StratumCtx) : Mem :=
  let job := sctx.job
  let data : Mem := fun _ => 0
  let data := store32 data 0 (le32dec job.version 0)
  let data := (List.range 8).foldl
    (fun data i => store32 data (4 * (1 + i)) (le32dec job.prevhash (4 * i))) data
  let data := memcpy data (4 * 9) job.coinbase 0 (32 + 32)
  let data := store32 data (4 * 25) (le32dec job.ntime 0)
  let data := store32 data (4 * 26) (le32dec job.nbits 0)
  let data := memcpy data (4 * 27) sctx.xnonce1 0 (sctx.xnonce1Size &&& 0x1f)
  store32 data (4 * 35) 0x80

def genWorkJobId (job : StratumJob) (jobId : CString) : CString :=
  (sprintfX 7 (be32dec job.ntime 0 &&& 0xfffffff) ++ ' ' :: jobId).take 127

/-- What is done under `stratum_work_lock`. -/
def genWorkLocked (sctx : StratumCtx) (jobId : CString) (work : Work) : Work :=
  { work with
    jobId := genWorkJobId sctx.job jobId
    height := sctx.job.height
    pooln := sctx.pooln.setWidth 8
    data := genWorkData sctx
    solution := memcpy work.solution 0 sctx.job.solution 0 1344 }

/-- Read after the lock is released. -/
def genWorkTarget (optDifficulty : Float) (sctx : StratumCtx) (work : Work) : Work :=
  let optDifficulty := if optDifficulty == 0.0 then 1.0 else optDifficulty
  { work with
    target := memcpy work.target 0 sctx.job.extra 0 32
    targetdiff := sctx.job.diff / optDifficulty }

def stratumGenWork (optDifficulty : Float) (sctx : StratumCtx) (work : Work) : Option Work :=
  sctx.job.jobId.map fun jobId => genWorkTarget optDifficulty sctx (genWorkLocked sctx jobId work)

theorem store32_le32dec (m src : Mem) (off soff : Nat) :
    store32 m off (le32dec src soff) = memcpy m off src soff 4 := by
  funext i
  simp only [store32, memcpy]
  split_ifs with h
  · rw [Nat.zero_add, leBytes_le32dec src soff (by omega)]
  · rfl

theorem storeWords_eq (m src : Mem) (off n : Nat) :
    (List.range n).foldl (fun m i => store32 m (off + 4 * i) (le32dec src (4 * i))) m =
      memcpy m off src 0 (4 * n) := by
  induction n with
  | zero =>
    funext i
    rw [Nat.mul_zero, memcpy_off (by omega)]
    rfl
  | succ n ih =>
    have happ := memcpy_append m src off 0 (4 * n) 4
    rw [Nat.zero_add] at happ
    rw [List.range_succ, List.foldl_append, ih, List.foldl_cons, List.foldl_nil, store32_le32dec,
      happ, Nat.mul_succ]

theorem genWorkData_at (sctx : StratumCtx) {i : Nat} (hi : i < 140) :
    genWorkData sctx i =
      if i < 4 then sctx.job.version i
      else if i < 36 then sctx.job.prevhash (i - 4)
      else if i < 100 then sctx.job.coinbase (i - 36)
      else if i < 104 then sctx.job.ntime (i - 100)
      else if i < 108 then sctx.job.nbits (i - 104)
      else if i < 108 + (sctx.xnonce1Size &&& 0x1f) then sctx.xnonce1 (i - 108)
      else 0 := by
  have hprev (m : Mem) : (List.range 8).foldl
      (fun data i => store32 data (4 * (1 + i)) (le32dec sctx.job.prevhash (4 * i))) m =
      memcpy m 4 sctx.job.prevhash 0 32 := by
    simpa only [Nat.mul_add, Nat.mul_one] using storeWords_eq m sctx.job.prevhash 4 8
  simp only [genWorkData, hprev]
  simp only [store32_le32dec]
  rw [store32, memcpy_off (.inl (by omega))]
  split_ifs
  all_goals simp (disch := omega) only [memcpy_off, memcpy_within, Nat.zero_add, Nat.sub_zero]

theorem xnonce1Size_mask {n : Nat} (h : n ≤ 12) : n &&& 0x1f = n := by
  rw [show 0x1f = 2 ^ 5 - 1 from rfl, Nat.and_two_pow_sub_one_eq_mod]
  omega

theorem stratumGenWork_eq {optDifficulty : Float} {sctx : StratumCtx} {buf work : Work}
    (h : stratumGenWork optDifficulty sctx buf = some work) :
    work.data = genWorkData sctx ∧ (∀ i < 1344, work.solution i = sctx.job.solution i) ∧
    (∀ i < 32, work.target i = sctx.job.extra i) := by
  obtain ⟨_, _, rfl⟩ := Option.map_eq_some_iff.mp h
  exact ⟨rfl, fun _ hi => memcpy_start hi, fun _ hi => memcpy_start hi⟩

end VerusMiner
