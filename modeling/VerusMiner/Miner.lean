import VerusMiner.Adoption
import VerusMiner.Lib.Runs

/-! Mining threads, the stratum thread and their restart flags, interleaved
step by step. -/

namespace VerusMiner

structure MinerConfig where
  aesenc : Vec → Vec → Vec
  build : Build
  optShowdiff : Bool
  optNThreads : Nat
  optDifficulty : Float

def MinerConfig.thread (cfg : MinerConfig) (i : Nat) : LoopConfig where
  aesenc := cfg.aesenc
  build := cfg.build
  optShowdiff := cfg.optShowdiff
  optBenchmark := false
  optNThreads := BitVec.ofNat 32 cfg.optNThreads
  thrId := BitVec.ofNat 32 i

/-- Where a mining thread is in its loop. Its restart flag is cleared on the
way to `scanning`, and looked at on the way out of `scanned`. -/
inductive ThreadPc where
  | top
  | refreshed
  | scanning
  | scanned (number : Nat) (r : ScanResult)
  | submitting (number : Nat) (share : Work)
  | left

/-- `serial` counts the notifies up to the one the job came with. -/
structure ThreadState where
  pc : ThreadPc
  work : Work
  serial : Nat
  restart : Bool

structure Share where
  number : Nat
  thrId : Nat
  serial : Nat
  work : Work

/-- `notifies` tells of each accepted notify whether it was marked clean, and
`raising` the flag at which the stratum thread is in `restart_threads`. -/
structure MinerState where
  sctx : StratumCtx
  notifies : List Bool
  gWork : Work
  gSerial : Nat
  abortFlag : Bool
  raising : Option Nat
  threads : Nat → ThreadState
  found : List Share
  submitted : List Share

inductive MinerEvent where
  | notify (now : Word) (ntimeStack : Mem) (params : Json)
  | install
  | reconnect
  | raise
  | regen
  | interrupt (i : Nat)
  | abort
  | refresh (i : Nat) (rand1 rand2 : Word)
  | skip (i : Nat)
  | clear (i : Nat)
  | scan (i : Nat) (p : Pass)
  | check (i : Nat)
  | submit (i : Nat) (accepted : Bool)

def inHand (i : Nat) (t : ThreadState) : Option Share :=
  let share (number : Nat) (work : Work) : Share :=
    { number := number, thrId := i, serial := t.serial, work := work }
  match t.pc with
  | .scanned number r => if 0 < r.rc then some (share number (submitFound (clampNonce t.work))) else none
  | .submitting number work => some (share number work)
  | _ => none

def MinerState.setThread (s : MinerState) (i : Nat) (t : ThreadState) : MinerState :=
  { s with threads := Function.update s.threads i t }

def MinerState.raiseFlag (s : MinerState) (i : Nat) : MinerState :=
  s.setThread i { s.threads i with restart := true }

@[simp] theorem setThread_threads (s : MinerState) (i : Nat) (t : ThreadState) :
    (s.setThread i t).threads i = t := Function.update_self ..

section Step

variable (cfg : MinerConfig)

/-- The job is numbered along with the header it is copied with. -/
def threadRefresh (i : Nat) (gWork : Work) (gSerial : Nat) (rand1 rand2 : Word) (t : ThreadState) :
    ThreadState :=
  { t with
    pc := .refreshed
    work := refresh (cfg.thread i) gWork t.work rand1 rand2
    serial := if memcmp t.work.data gWork.data wcmplen then gSerial else t.serial }

def threadScan (i number : Nat) (p : Pass) (t : ThreadState) : ThreadState :=
  let r := (scan (cfg.thread i) p (startScan t.work)).result
  { t with pc := .scanned number r, work := r.work }

/-- The flags are looked at before the result is. -/
def threadCheck (i : Nat) (abortFlag : Bool) (number : Nat) (r : ScanResult) (t : ThreadState) :
    ThreadState :=
  if abortFlag then { t with pc := .left }
  else if t.restart then { t with pc := .top }
  else
    match submitShare (cfg.thread i) r.rc (clampNonce t.work) with
    | (some share, work) => { t with pc := .submitting number share, work := work }
    | (none, work) => { t with pc := .top, work := work }

/-- The stratum thread reads a message or regenerates the work only when it is
not in `restart_threads`; a flag may also be raised by another thread there. -/
def minerStep (s : MinerState) : MinerEvent → Option MinerState
  | .notify now ntimeStack params =>
    match s.raising, verusStratumNotify now ntimeStack s.sctx params with
    | none, some (ret, sctx) =>
      some { s with
        sctx := sctx
        notifies := if ret then s.notifies ++ [sctx.job.clean] else s.notifies
        raising := some 0 }
    | _, _ => none
  | .install =>
    match s.raising, stratumGenWork cfg.optDifficulty s.sctx s.gWork with
    | none, some work =>
      some { s with
        gWork := work
        gSerial := s.notifies.length
        raising := if s.sctx.job.clean then some 0 else none }
    | _, _ => none
  | .reconnect =>
    match s.raising with
    | none => some { s with
        gWork := { s.gWork with data := store32 s.gWork.data 0 0 }
        raising := some 0 }
    | some _ => none
  | .raise =>
    match s.raising with
    | none => none
    | some i =>
      if i < cfg.optNThreads then some { s.raiseFlag i with raising := some (i + 1) }
      else some { s with raising := none }
  | .regen =>
    (stratumGenWork cfg.optDifficulty s.sctx s.gWork).map fun work =>
      { s with gWork := work, gSerial := s.notifies.length }
  | .interrupt i => some (s.raiseFlag i)
  | .abort => some { s with abortFlag := true }
  | .refresh i rand1 rand2 =>
    match (s.threads i).pc with
    | .top =>
      some (s.setThread i (threadRefresh cfg i s.gWork s.gSerial rand1 rand2 (s.threads i)))
    | _ => none
  | .skip i =>
    match (s.threads i).pc with
    | .refreshed | .scanning => some (s.setThread i { s.threads i with pc := .top })
    | _ => none
  | .clear i =>
    match (s.threads i).pc, noData (cfg.thread i) (s.threads i).work with
    | .refreshed, false => some (s.setThread i { s.threads i with pc := .scanning, restart := false })
    | _, _ => none
  | .scan i p =>
    match (s.threads i).pc with
    | .scanning =>
      let t := threadScan cfg i s.found.length p (s.threads i)
      some { s.setThread i t with found := s.found ++ (inHand i t).toList }
    | _ => none
  | .check i =>
    match (s.threads i).pc with
    | .scanned number r =>
      some (s.setThread i (threadCheck cfg i s.abortFlag number r (s.threads i)))
    | _ => none
  | .submit i accepted =>
    match (s.threads i).pc with
    | .submitting number share =>
      let t := { s.threads i with pc := if accepted then .top else .left }
      some { s.setThread i t with
        submitted := s.submitted ++
          [{ number := number, thrId := i, serial := (s.threads i).serial, work := share }] }
    | _ => none

end Step

section Moves

variable (cfg : MinerConfig) (s : MinerState)

/-- One case for every way a step ends, with what it needs. -/
inductive MinerMove : MinerEvent → MinerState → Prop
  | notify {now : Word} {ntimeStack : Mem} {params : Json} {ret : Bool} {sctx : StratumCtx}
      (hraising : s.raising = none)
      (hnotify : verusStratumNotify now ntimeStack s.sctx params = some (ret, sctx)) :
      MinerMove (.notify now ntimeStack params) { s with
        sctx := sctx
        notifies := if ret then s.notifies ++ [sctx.job.clean] else s.notifies
        raising := some 0 }
  | install {work : Work} (hraising : s.raising = none)
      (hwork : stratumGenWork cfg.optDifficulty s.sctx s.gWork = some work) :
      MinerMove .install { s with
        gWork := work
        gSerial := s.notifies.length
        raising := if s.sctx.job.clean then some 0 else none }
  | reconnect (hraising : s.raising = none) : MinerMove .reconnect { s with
      gWork := { s.gWork with data := store32 s.gWork.data 0 0 }
      raising := some 0 }
  | raise {i : Nat} (hraising : s.raising = some i) (hi : i < cfg.optNThreads) :
      MinerMove .raise { s.raiseFlag i with raising := some (i + 1) }
  | raised {i : Nat} (hraising : s.raising = some i) (hi : ¬ i < cfg.optNThreads) :
      MinerMove .raise { s with raising := none }
  | regen {work : Work} (hwork : stratumGenWork cfg.optDifficulty s.sctx s.gWork = some work) :
      MinerMove .regen { s with gWork := work, gSerial := s.notifies.length }
  | interrupt (i : Nat) : MinerMove (.interrupt i) (s.raiseFlag i)
  | abort : MinerMove .abort { s with abortFlag := true }
  | refresh {i : Nat} (rand1 rand2 : Word) (hpc : (s.threads i).pc = .top) :
      MinerMove (.refresh i rand1 rand2)
        (s.setThread i (threadRefresh cfg i s.gWork s.gSerial rand1 rand2 (s.threads i)))
  | skip {i : Nat} (hpc : (s.threads i).pc = .refreshed ∨ (s.threads i).pc = .scanning) :
      MinerMove (.skip i) (s.setThread i { s.threads i with pc := .top })
  | clear {i : Nat} (hpc : (s.threads i).pc = .refreshed)
      (hdata : noData (cfg.thread i) (s.threads i).work = false) :
      MinerMove (.clear i) (s.setThread i { s.threads i with pc := .scanning, restart := false })
  | scan {i : Nat} (p : Pass) (hpc : (s.threads i).pc = .scanning) :
      MinerMove (.scan i p) { s.setThread i (threadScan cfg i s.found.length p (s.threads i)) with
        found := s.found ++
          (inHand i (threadScan cfg i s.found.length p (s.threads i))).toList }
  | check {i number : Nat} {r : ScanResult} (hpc : (s.threads i).pc = .scanned number r) :
      MinerMove (.check i)
        (s.setThread i (threadCheck cfg i s.abortFlag number r (s.threads i)))
  | submit {i number : Nat} {share : Work} (accepted : Bool)
      (hpc : (s.threads i).pc = .submitting number share) :
      MinerMove (.submit i accepted)
        { s.setThread i { s.threads i with pc := if accepted then .top else .left } with
          submitted := s.submitted ++ [⟨number, i, (s.threads i).serial, share⟩] }

variable {cfg s} {s' : MinerState} {e : MinerEvent}

theorem minerStep_move (hstep : minerStep cfg s e = some s') : MinerMove cfg s e s' := by
  cases e with
  | notify now ntimeStack params =>
    simp only [minerStep] at hstep
    split at hstep
    · rename_i hraising hnotify
      cases hstep
      exact .notify hraising hnotify
    · cases hstep
  | install =>
    simp only [minerStep] at hstep
    split at hstep
    · rename_i hraising hwork
      cases hstep
      exact .install hraising hwork
    · cases hstep
  | reconnect =>
    simp only [minerStep] at hstep
    split at hstep
    · rename_i hraising
      cases hstep
      exact .reconnect hraising
    · cases hstep
  | raise =>
    simp only [minerStep] at hstep
    split at hstep
    · cases hstep
    · rename_i hraising
      split_ifs at hstep with hi
      · cases hstep
        exact .raise hraising hi
      · cases hstep
        exact .raised hraising hi
  | regen =>
    obtain ⟨work, hwork, rfl⟩ := Option.map_eq_some_iff.mp hstep
    exact .regen hwork
  | interrupt i =>
    cases hstep
    exact .interrupt i
  | abort =>
    cases hstep
    exact .abort
  | refresh i rand1 rand2 =>
    simp only [minerStep] at hstep
    split at hstep
    · rename_i hpc
      cases hstep
      exact .refresh rand1 rand2 hpc
    · cases hstep
  | skip i =>
    simp only [minerStep] at hstep
    split at hstep
    · rename_i hpc
      cases hstep
      exact .skip (.inl hpc)
    · rename_i hpc
      cases hstep
      exact .skip (.inr hpc)
    · cases hstep
  | clear i =>
    simp only [minerStep] at hstep
    split at hstep
    · rename_i hpc hdata
      cases hstep
      exact .clear hpc hdata
    · cases hstep
  | scan i p =>
    simp only [minerStep] at hstep
    split at hstep
    · rename_i hpc
      cases hstep
      exact .scan p hpc
    · cases hstep
  | check i =>
    simp only [minerStep] at hstep
    split at hstep
    · rename_i hpc
      cases hstep
      exact .check hpc
    · cases hstep
  | submit i accepted =>
    simp only [minerStep] at hstep
    split at hstep
    · rename_i hpc
      cases hstep
      exact .submit accepted hpc
    · cases hstep

end Moves

end VerusMiner
