import VerusMiner.PoolIndex

/-! The requests for work and the shares that the threads hand to the workio
thread, the replies on their queues, and the pool switches in between. -/

namespace VerusMiner

inductive Thread where
  | miner (i : Nat)
  | other (i : Nat)
  | workio
  deriving DecidableEq

inductive Mutex where
  | stratumWork
  | gWork
  deriving DecidableEq

/-- A request carries a number of its own, which the code does not have. -/
inductive WorkioCmd where
  | getWork (req thr : Nat) (pooln : Int)
  | submitWork (thr : Nat) (pooln : Int)
  | abort

def WorkioCmd.thr : WorkioCmd → Option Nat
  | .getWork _ thr _ => some thr
  | .submitWork thr _ => some thr
  | .abort => none

def WorkioCmd.req : WorkioCmd → Option Nat
  | .getWork req _ _ => some req
  | _ => none

/-- What is put on a thread's queue: work or a null pointer, with the number of
the request it was made for. -/
structure Reply where
  answers : Option Nat
  work : Bool

/-- A call of `get_work` that waits, for its own request, on a queue. -/
structure Call where
  req : Nat
  queue : Nat

/-- Where a thread is in `pool_switch`: at a lock, or in the call of `get_work`. -/
inductive SwitchStage where
  | freeing (prevn pooln : Int)
  | moved (prevn pooln : Int)
  | asking
  | waiting

inductive RequesterPc where
  | idle
  | asking
  | waiting
  | switching (stage : SwitchStage)
  | exited

inductive ServerPc where
  | idle
  | getting (c : WorkioCmd) (failures : Nat)
  | submitting (c : WorkioCmd) (failures : Nat)
  | comparing (c : WorkioCmd) (failures : Nat)
  | sending (c : WorkioCmd) (failures : Nat)
  | failed (c : WorkioCmd)
  | failover (c : WorkioCmd) (stage : SwitchStage)
  | replying (c : WorkioCmd) (ok : Bool)
  | stopped
  | crashed

structure Served where
  cmd : WorkioCmd
  given : List (Nat × Reply)

structure Returned where
  call : Call
  reply : Option Reply

structure RequestConfig where
  optRetries : Int
  optPoolFailover : Bool
  optSubmitStale : Bool
  submitOld : Bool

/-- A lock is held by a thread that waits under it; where a lock is only taken
for a moment, it has to be free. `given` is what was put on the queues for the
command in hand, and the last two fields are what has happened. -/
structure RequestState where
  table : PoolTable
  haveStratum : Bool
  held : Mutex → Option Thread
  workQueue : List WorkioCmd
  workFrozen : Bool
  queues : Nat → List Reply
  frozen : Nat → Bool
  threads : Thread → RequesterPc
  calls : Thread → Option Call
  server : ServerPc
  abortFlag : Bool
  nextReq : Nat
  given : List (Nat × Reply)
  served : List Served
  returned : List Returned

inductive RequestEvent where
  | noStratum (i : Nat)
  | getWork (i : Nat)
  | submitWork (i : Nat) (pooln : Int)
  | poolSwitch (t : Thread) (pooln : Int)
  | seturl (t : Thread) (params : CString)
  | switch (t : Thread)
  | receive (t : Thread)
  | wake (t : Thread)
  | exit (i : Nat)
  | abort (flag : Bool)
  | take (allocated : Bool)
  | wakeServer
  | fetch (answered : Bool)
  | submit (isEquihash behind : Bool)
  | compare (differs : Bool)
  | send (ok : Bool)
  | settle
  | reply

namespace RequestState

variable (s : RequestState)

/-- A push to the work queue fails once the queue is frozen. -/
def enqueue (c : WorkioCmd) : RequestState :=
  if s.workFrozen then s else { s with workQueue := s.workQueue ++ [c] }

/-- `get_work` up to its wait: under the lock its caller has taken. -/
def post (t : Thread) (thr : Nat) (l : Mutex) : RequestState :=
  { s with
    held := Function.update s.held l (some t)
    workQueue := s.workQueue ++ [.getWork s.nextReq thr s.table.curPooln]
    calls := Function.update s.calls t (some { req := s.nextReq, queue := thr })
    nextReq := s.nextReq + 1 }

def stage : Thread → Option SwitchStage
  | .workio =>
    match s.server with
    | .failover _ stage => some stage
    | _ => none
  | t =>
    match s.threads t with
    | .switching stage => some stage
    | _ => none

def setStage (stage : SwitchStage) : Thread → RequestState
  | .workio =>
    match s.server with
    | .failed c | .failover c _ => { s with server := .failover c stage }
    | _ => s
  | t => { s with threads := Function.update s.threads t (.switching stage) }

/-- Back in the caller of `pool_switch`. -/
def switched (ok : Bool) : Thread → RequestState
  | .workio =>
    match s.server with
    | .failed c | .failover c _ => { s with server := .replying c ok }
    | _ => s
  | t => { s with threads := Function.update s.threads t .idle }

/-- The end of `get_work` and of the lock its caller had taken. -/
def returnCall (t : Thread) (c : Call) (reply : Option Reply) : RequestState :=
  { s with
    held := fun l => if s.held l = some t then none else s.held l
    calls := Function.update s.calls t none
    returned := s.returned ++ [{ call := c, reply := reply }] }

def resumed (t : Thread) (c : Call) (reply : Option Reply) : RequestState :=
  (s.returnCall t c reply).switched true t

def setQueue (q : Nat) (rs : List Reply) : RequestState :=
  { s with queues := Function.update s.queues q rs }

def freeze (q : Nat) : RequestState := { s with frozen := Function.update s.frozen q true }

/-- The step of `pool_switch` that makes the pool the current one. -/
def moveTo (t : Thread) (prevn pooln : Int) : RequestState :=
  if pooln < s.table.numPools then
    let s : RequestState := { s with table := { s.table with curPooln := pooln } }
    s.setStage (.moved prevn pooln) t
  else s.switched false t

/-- `pool_switch` up to the first lock it needs: the job of a stratum pool is
freed under one. -/
def enterSwitch (t : Thread) (pooln : Int) : RequestState :=
  let prevn := s.table.curPooln
  if (s.table.pools prevn).type = .stratum then s.setStage (.freeing prevn pooln) t
  else s.moveTo t prevn pooln

def push (thr : Nat) (r : Reply) : RequestState :=
  if s.frozen thr then s
  else { s.setQueue thr (s.queues thr ++ [r]) with given := s.given ++ [(thr, r)] }

def setHaveStratum (b : Bool) : RequestState := { s with haveStratum := b }

def stop : RequestState := { s with server := .stopped, workFrozen := true }

def free (c : WorkioCmd) : RequestState :=
  { s with served := s.served ++ [{ cmd := c, given := s.given }], given := [] }

/-- The thread goes on if it was well and is not to end. -/
def finish (c : WorkioCmd) (ok : Bool) : RequestState :=
  if ok && !s.abortFlag then { s.free c with server := .idle } else (s.free c).stop

end RequestState

def switchStep (s : RequestState) (t : Thread) : SwitchStage → Option RequestState
  | .freeing prevn pooln =>
    if (s.held .stratumWork).isSome then none else some (s.moveTo t prevn pooln)
  | .moved prevn pooln =>
    if (s.held .stratumWork).isSome then none
    else
      let isStratum := decide ((s.table.pools pooln).type = .stratum)
      let s := s.setHaveStratum isStratum
      some (if prevn ≠ s.table.curPooln ∧ isStratum = false then s.setStage .asking t
        else s.switched true t)
  | .asking =>
    -- a thread that waits takes no step
    if (s.held .stratumWork).isSome || (s.calls t).isSome then none
    else if s.workFrozen then some (s.switched true t)
    else some ((s.post t 0 .stratumWork).setStage .waiting t)
  | .waiting => none

/-- Whether `opt_retries` allows no more after this many failures. -/
def RequestConfig.givesUp (cfg : RequestConfig) (failures : Nat) : Bool :=
  decide (0 ≤ cfg.optRetries) && decide (cfg.optRetries < failures + 1)

def RequestConfig.counted (cfg : RequestConfig) (failures : Nat) : Nat :=
  if 0 ≤ cfg.optRetries then failures + 1 else failures

/-- The share is compared with the shared work, under `g_work_lock`. -/
def comparesJobs (cfg : RequestConfig) (s : RequestState) (pooln : Int) (isEquihash behind : Bool) : Bool :=
  !(decide ((s.table.pools pooln).type = .stratum) && isEquihash) && s.haveStratum && !behind &&
    !cfg.optSubmitStale

/-- Another pool to go to, and leave to go there. -/
def failsOver (cfg : RequestConfig) (s : RequestState) : Bool :=
  decide (1 < s.table.numPools) && cfg.optPoolFailover

def requestStep (cfg : RequestConfig) (s : RequestState) : RequestEvent → Option RequestState
  | .noStratum i =>
    match s.threads (.miner i) with
    | .idle =>
      if s.haveStratum then none
      else some { s with threads := Function.update s.threads (.miner i) .asking }
    | _ => none
  | .getWork i =>
    match s.threads (.miner i) with
    | .asking =>
      if (s.held .gWork).isSome || (s.calls (.miner i)).isSome then none
      else if s.workFrozen then
        some { s with threads := Function.update s.threads (.miner i) .idle }
      else
        some { s.post (.miner i) i .gWork with
          threads := Function.update s.threads (.miner i) .waiting }
    | _ => none
  | .submitWork i pooln =>
    match s.threads (.miner i) with
    | .idle => some (s.enqueue (.submitWork i pooln))
    | _ => none
  | .poolSwitch t pooln =>
    match s.threads t with
    | .idle => if t = .workio then none else some (s.enterSwitch t pooln)
    | _ => none
  | .seturl t params =>
    match s.threads t with
    | .idle =>
      let prevn := s.table.curPooln
      let parsed := parseArgUrl s.table params
      if t = .workio ∨ parsed.ended = true then none
      else
        let s : RequestState := { s with
          table := { parsed with curPooln := prevn }
          haveStratum := decide (urlType params = .stratum) }
        some (if parsed.curPooln = prevn then s else s.enterSwitch t parsed.curPooln)
    | _ => none
  | .switch t => (s.stage t).bind (switchStep s t)
  | .receive t =>
    match s.calls t with
    | none => none
    | some c =>
      match s.queues c.queue with
      | [] => none
      | r :: rest => some ((s.setQueue c.queue rest).resumed t c (some r))
  | .wake t =>
    match s.calls t with
    | none => none
    | some c =>
      match s.queues c.queue with
      | [] => some (s.resumed t c none)
      | _ => none
  | .exit i =>
    match s.threads (.miner i) with
    | .idle =>
      some { s.freeze i with threads := Function.update s.threads (.miner i) .exited }
    | _ => none
  | .abort flag => some { s.enqueue .abort with abortFlag := s.abortFlag || flag }
  | .take allocated =>
    match s.server, s.workQueue with
    | .idle, c :: rest =>
      some { s with
        workQueue := rest
        server := match c with
          | .getWork .. => if allocated then .getting c 0 else .failed c
          | .submitWork .. => .submitting c 0
          | .abort => .failed c }
    | _, _ => none
  | .wakeServer =>
    match s.server, s.workQueue with
    | .idle, [] => some s.stop
    | _, _ => none
  | .fetch answered =>
    match s.server with
    | .getting (.getWork req thr pooln) failures =>
      let c := .getWork req thr pooln
      let here := decide (pooln = s.table.curPooln)
      some (if answered && !s.haveStratum && here then
          (s.push thr { answers := some req, work := true }).finish c true
        else if !here then (s.push thr { answers := some req, work := false }).finish c true
        else if cfg.givesUp failures then { s with server := .failed c }
        else { s with server := .getting c (cfg.counted failures) })
    | _ => none
  | .submit isEquihash behind =>
    match s.server with
    | .submitting (.submitWork thr pooln) failures =>
      let c := .submitWork thr pooln
      some (if (s.table.pools pooln).type = .stratum ∧ isEquihash = true then s.finish c true
        else if comparesJobs cfg s pooln isEquihash behind then { s with server := .comparing c failures }
        else if behind && !cfg.submitOld then s.finish c true
        else { s with server := .sending c failures })
    | _ => none
  | .compare differs =>
    match s.server with
    | .comparing (.submitWork thr pooln) failures =>
      let c := .submitWork thr pooln
      if (s.held .gWork).isSome then none
      else some (if differs && !cfg.submitOld then s.finish c true
        else { s with server := .sending c failures })
    | _ => none
  | .send ok =>
    match s.server with
    | .sending (.submitWork thr pooln) failures =>
      let c := .submitWork thr pooln
      some (if ok || decide (pooln ≠ s.table.curPooln) then s.finish c true
        else if cfg.givesUp failures then { s with server := .failed c }
        else { s with server := .submitting c (cfg.counted failures) })
    | _ => none
  | .settle =>
    match s.server with
    | .failed c =>
      some (if failsOver cfg s then
          s.enterSwitch .workio (poolGetFirstValid s.table (s.table.curPooln + 1)).1
        else s.finish c false)
    | _ => none
  | .reply =>
    match s.server with
    | .replying c ok =>
      -- a command that no thread has sent has no queue to answer on
      some (match c.thr with
        | none => { s with server := .crashed }
        | some thr => (s.push thr { answers := c.req, work := false }).finish c ok)
    | _ => none

def requestStart (cfg : PoolConfig) : RequestState :=
  let table := startTable cfg
  { table := table
    haveStratum := decide ((table.pools table.curPooln).type = .stratum)
    held := fun _ => none
    workQueue := []
    workFrozen := false
    queues := fun _ => []
    frozen := fun _ => false
    threads := fun _ => .idle
    calls := fun _ => none
    server := .idle
    abortFlag := false
    nextReq := 0
    given := []
    served := []
    returned := [] }

end VerusMiner
