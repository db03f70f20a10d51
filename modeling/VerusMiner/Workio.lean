import VerusMiner.SendLine
import VerusMiner.Submit

/-! The thread that hands shares over: what it makes of each queued share,
while pools are switched, sessions come up and jobs are installed. -/

namespace VerusMiner

structure Session where
  pooln : Nat
  sock : Nat
  xnonce1Size : Nat
  isEquihash : Bool
  sharesCount : Word

def Session.freeJob (sctx : Session) : Session := { sctx with sharesCount := 0 }

structure PoolInfos where
  isStratum : Bool
  user : CString
  stratum : Session
  stalesCount : Word

structure WorkioConfig where
  numPools : Nat
  optRetries : Int
  optSubmitStale : Bool
  submitOld : Bool
  optPoolFailover : Bool

def quoted (s : CString) : CString := '"' :: (s ++ ['"'])

def sprintfU (v : Word) : CString := Nat.toDigits 10 v.toNat

/-- The message of a share, cut off where its buffer ends. -/
def submitLine (user : CString) (s : Submission) (sharesCount : Word) : CString :=
  ("\x7b\"method\":\"mining.submit\",\"params\":[".toList ++
    [','].intercalate ([user, s.jobid, s.timehex, s.noncestr, s.solhex].map quoted) ++
    "], \"id\":".toList ++ sprintfU (sharesCount + 10) ++ ['\x7d']).take (20 * 1024 - 1)

/-- The branch `submit_upstream_work` takes: the one of this algorithm, a
discard, a share known to the other side, the one common to all stratum pools,
or a request of its own. -/
inductive Choice where
  | verus
  | stale
  | known
  | plain
  | getwork
  deriving DecidableEq

/-- `strncmp` of the two job ids, past the part the client puts before them. -/
def jobsDiffer (work gWork : Work) : Bool :=
  (work.jobId.drop 8).take 120 != (gWork.jobId.drop 8).take 120

def behind (work gWork : Work) : Bool := work.height != 0 && decide (work.height < gWork.height)

/-- The test by job id, which is also what raises `stales_count`. -/
def outdated (cfg : WorkioConfig) (haveStratum : Bool) (gWork work : Work) : Bool :=
  haveStratum && !behind work gWork && !cfg.optSubmitStale && !(work.jobId.drop 8).isEmpty &&
    jobsDiffer work gWork

/-- `solved` and `sent` are what a block template and the hash log would say. -/
def submitChoice (cfg : WorkioConfig) (pool : PoolInfos) (isEquihash haveStratum : Bool)
    (gWork work : Work) (solved sent : Bool) : Choice × Bool :=
  if pool.isStratum && isEquihash then (.verus, false)
  else
    let counted := outdated cfg haveStratum gWork work
    let staleWork := behind work gWork || counted
    (if !haveStratum && !staleWork && solved then .known
      else if !cfg.submitOld && staleWork then .stale
      else if !pool.isStratum then .getwork
      else if sent then .known
      else .plain, counted)

/-- A share taken off the queue, with whether its job was then the shared one
and its pool the current one. -/
structure Command where
  work : Work
  agrees : Bool
  current : Bool

inductive Outcome where
  | written (p : Part Char)
  | unsent
  | discarded
  | known
  | poolChanged
  | gaveUp
  | answered

inductive WorkioPc where
  | idle
  | chosen (c : Command) (failures : Nat) (choice : Choice)
  | composed (c : Command) (user line : CString) (xnonce1Size due : Nat)
  | failed (c : Command) (failures : Nat) (choice : Choice)
  | waiting (c : Command) (failures : Nat)
  | stopped

structure Decision where
  command : Command
  choice : Choice
  counted : Bool

/-- A line given to `stratum_send_line`: the pool at the other end, the
extranonce length read for the line and the one its pool's session had. -/
structure Sent where
  command : Command
  pooln : Nat
  user : CString
  xnonce1Size : Option Nat
  due : Nat
  part : Part Char

structure Completion where
  command : Command
  choice : Choice
  ok : Bool
  how : Outcome

/-- `owner` tells whose connection a socket is, `sizes` the extranonce length
of each pool's session, and the last three fields what has happened. -/
structure WorkioState where
  pools : Nat → PoolInfos
  curPooln : Nat
  stratum : Session
  haveStratum : Bool
  threadPooln : Nat
  gWork : Work
  queue : List Work
  pc : WorkioPc
  owner : Nat → Nat
  nextSock : Nat
  sizes : Nat → Nat
  decisions : List Decision
  sent : List Sent
  completed : List Completion

inductive WorkioEvent where
  | submitWork (work : Work)
  | install (work : Work)
  | poolSwitch (pooln : Nat)
  | startStratum
  | connect
  | subscribed (size : Nat)
  | setTarget
  | take (solved sent : Bool)
  | again (solved sent : Bool)
  | compose (allocated : Bool)
  | send (outs : List SockOutcome)
  | sendPlain (line : CString) (outs : List SockOutcome)
  | getwork (answered : Bool)
  | settle
  | failover (pooln : Nat)

namespace WorkioState

variable (cfg : WorkioConfig)

/-- `pool_switch`, which keeps the session of the pool it leaves. -/
def poolSwitch (pooln : Nat) (s : WorkioState) : WorkioState :=
  let prev := s.pools s.curPooln
  let stratum := if prev.isStratum then s.stratum.freeJob else s.stratum
  let pools :=
    if prev.isStratum then Function.update s.pools s.curPooln { prev with stratum := stratum }
    else s.pools
  if pooln < cfg.numPools then
    let p := pools pooln
    let switched :=
      { s with pools := pools, curPooln := pooln, stratum := stratum, haveStratum := p.isStratum }
    if pooln ≠ s.curPooln then
      { switched with
        gWork := { s.gWork with data := store32 s.gWork.data 0 0 }
        stratum := if p.isStratum then { p.stratum with pooln := pooln } else stratum }
    else switched
  else { s with pools := pools, stratum := stratum }

def addShares (n : Word) (s : WorkioState) : WorkioState :=
  { s with stratum := { s.stratum with sharesCount := s.stratum.sharesCount + n } }

def complete (c : Command) (choice : Choice) (ok : Bool) (how : Outcome) (s : WorkioState) :
    WorkioState :=
  { s with
    pc := if ok then .idle else .stopped
    completed := s.completed ++ [{ command := c, choice := choice, ok := ok, how := how }] }

def addStale (pooln : Nat) (s : WorkioState) : WorkioState :=
  let p := s.pools pooln
  { s with pools := Function.update s.pools pooln { p with stalesCount := p.stalesCount + 1 } }

/-- `submit_upstream_work` up to the branch it takes. -/
def judge (c : Command) (failures : Nat) (solved sent : Bool) (s : WorkioState) : WorkioState :=
  let pooln := c.work.pooln.toNat
  let v := submitChoice cfg (s.pools pooln) s.stratum.isEquihash s.haveStratum s.gWork c.work solved sent
  let counted := if v.2 then s.addStale pooln else s
  let judged : WorkioState :=
    { counted with decisions := s.decisions ++ [{ command := c, choice := v.1, counted := v.2 }] }
  match v.1 with
  | .stale => judged.complete c .stale true .discarded
  | .known => judged.complete c .known true .known
  | choice => { judged with pc := .chosen c failures choice }

end WorkioState

/-- One step of the workio thread, or of what goes on beside it. -/
def workioStep (cfg : WorkioConfig) (s : WorkioState) : WorkioEvent → Option WorkioState
  | .submitWork work => some { s with queue := s.queue ++ [work] }
  | .install work => some { s with gWork := work }
  | .poolSwitch pooln => some (s.poolSwitch cfg pooln)
  | .startStratum => some { s with
      threadPooln := s.curPooln
      stratum := { s.stratum with pooln := s.curPooln } }
  | .connect => some { s with
      owner := Function.update s.owner s.nextSock s.threadPooln
      nextSock := s.nextSock + 1
      stratum := { s.stratum with sock := s.nextSock } }
  | .subscribed size => some { s with
      sizes := Function.update s.sizes (s.owner s.stratum.sock) size
      stratum := { s.stratum with xnonce1Size := size } }
  | .setTarget => some { s with stratum := { s.stratum with isEquihash := true } }
  | .take solved sent =>
    match s.pc, s.queue with
    | .idle, work :: queue =>
      let c : Command :=
        { work := work
          agrees := !jobsDiffer work s.gWork
          current := decide (work.pooln.toNat = s.curPooln) }
      some (WorkioState.judge cfg c 0 solved sent { s with queue := queue })
    | _, _ => none
  | .again solved sent =>
    match s.pc with
    | .waiting c failures => some (s.judge cfg c failures solved sent)
    | _ => none
  | .compose allocated =>
    match s.pc with
    | .chosen c _ .verus =>
      let pooln := c.work.pooln.toNat
      let xnonce1Size := s.stratum.xnonce1Size
      let user := (s.pools pooln).user
      let line := submitLine user (verusStratumSubmit xnonce1Size c.work) s.stratum.sharesCount
      -- what `verus_stratum_submit` returns is not looked at, here as after the send
      some (if allocated then { s with pc := .composed c user line xnonce1Size (s.sizes pooln) }
        else (s.addShares 1).complete c .verus true .unsent)
    | _ => none
  | .send outs =>
    match s.pc with
    | .composed c user line xnonce1Size due =>
      (sendLine outs line).map fun r =>
        let sent : Sent :=
          { command := c
            pooln := s.owner s.stratum.sock
            user := user
            xnonce1Size := some xnonce1Size
            due := due
            part := r.1 }
        let t : WorkioState := { s with sent := s.sent ++ [sent] }
        (t.addShares (if r.2 then 2 else 1)).complete c .verus true (.written r.1)
    | _ => none
  | .sendPlain line outs =>
    match s.pc with
    | .chosen c failures .plain =>
      (sendLine outs line).map fun r =>
        let pooln := c.work.pooln.toNat
        let sent : Sent :=
          { command := c
            pooln := s.owner s.stratum.sock
            user := (s.pools pooln).user
            xnonce1Size := none
            due := s.sizes pooln
            part := r.1 }
        let t : WorkioState := { s with sent := s.sent ++ [sent] }
        if r.2 then (t.addShares 1).complete c .plain true (.written r.1)
        else { t with pc := .failed c failures .plain }
    | _ => none
  | .getwork answered =>
    match s.pc with
    | .chosen c failures .getwork =>
      some (if answered then s.complete c .getwork true .answered
        else { s with pc := .failed c failures .getwork })
    | _ => none
  | .settle =>
    match s.pc with
    | .failed c failures choice =>
      some (if c.work.pooln.toNat ≠ s.curPooln then s.complete c choice true .poolChanged
        else if 0 ≤ cfg.optRetries ∧ cfg.optRetries < failures + 1 then s.complete c choice false .gaveUp
        else { s with pc := .waiting c (if 0 ≤ cfg.optRetries then failures + 1 else failures) })
    | _ => none
  | .failover pooln =>
    match s.pc with
    | .stopped =>
      if 1 < cfg.numPools ∧ cfg.optPoolFailover = true ∧ pooln < cfg.numPools then
        some { s.poolSwitch cfg pooln with pc := .idle }
      else none
    | _ => none

end VerusMiner
