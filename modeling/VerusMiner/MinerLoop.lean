import VerusMiner.Lib.Runs
import VerusMiner.Submit

/-! The mining loop of one thread: each pass refreshes the thread's work from
the shared one, scans it, and hands over what was found. -/

namespace VerusMiner

def memcmp (m m' : Mem) (n : Nat) : Bool := (List.range n).any fun i => m i != m' i

theorem memcmp_eq_false {m m' : Mem} {n : Nat} : memcmp m m' n = false ↔ ∀ i < n, m i = m' i := by
  simp [memcmp, List.any_eq_false]

theorem memcmp_eq_true {m m' : Mem} {n : Nat} : memcmp m m' n = true ↔ ∃ i < n, m i ≠ m' i := by
  simp [memcmp, List.any_eq_true]

structure LoopConfig where
  aesenc : Vec → Vec → Vec
  build : Build
  optShowdiff : Bool
  optBenchmark : Bool
  optNThreads : Word
  thrId : Word

def wcmplen : Nat := 4 + 32 + 32

section Pass

variable (cfg : LoopConfig)

def refreshTarget (gWork work : Work) : Work :=
  if !cfg.optBenchmark && (gWork.height != work.height || memcmp work.target gWork.target 32) then
    { work with
      target := memcpy work.target 0 gWork.target 0 32
      targetdiff := gWork.targetdiff
      height := gWork.height }
  else work

def refreshHeader (gWork work : Work) : Work :=
  if memcmp work.data gWork.data wcmplen then
    { gWork with
      data := store32 gWork.data (4 * verusNonceOffset) (0xffffffff / cfg.optNThreads * cfg.thrId) }
  else
    { work with
      data := store32 work.data (4 * verusNonceOffset) (le32dec work.data (4 * verusNonceOffset) + 1) }

/-- What is done under `g_work_lock`. -/
def refresh (gWork work : Work) (rand1 rand2 : Word) : Work :=
  let work := refreshHeader cfg gWork (refreshTarget cfg gWork work)
  { work with
    data := store32 work.data (4 * (verusNonceOffset + 2)) (nonceWord rand1 rand2 cfg.thrId) }

def clampNonce (work : Work) : Work :=
  if 0xffffffff - 64 < le32dec work.data (4 * verusNonceOffset) then
    { work with data := store32 work.data (4 * verusNonceOffset) 0xffffffff }
  else work

def submitShare (rc : Nat) (work : Work) : Option Work × Work :=
  if 0 < rc ∧ cfg.optBenchmark = false then
    let share := submitFound work
    (some share, { share with
      data := store32 share.data (4 * verusNonceOffset) (le32dec work.data (4 * verusNonceOffset)) })
  else (none, work)

/-- What one pass reads from outside: the shared work, the random values,
whether it goes round without scanning, and what its scan and the checks after
it see. -/
structure Pass where
  gWork : Work
  rand1 : Word
  rand2 : Word
  idle : Bool
  storage : ScanStorage
  restart : Nat → Bool
  abort : Nat → Bool
  maxNonce : Word
  aborted : Bool
  restarted : Bool
  submitted : Bool

structure Scan where
  work : Work
  result : ScanResult

structure PassRecord where
  gWork : Work
  refreshed : Work
  scan : Option Scan

structure LoopState where
  work : Work
  running : Bool
  passes : List PassRecord

def LoopState.start (work : Work) : LoopState := { work := work, running := true, passes := [] }

def LoopState.scans (s : LoopState) : List Scan := s.passes.filterMap (·.scan)

def noData (work : Work) : Bool := le32dec work.data 0 = 0 && !cfg.optBenchmark

def startScan (work : Work) : Work := { work with validNonces := 0 }

def scan (p : Pass) (work : Work) : Scan where
  work := work
  result := scanhashVerus cfg.aesenc cfg.build cfg.optShowdiff p.storage p.restart p.abort work
    p.maxNonce

/-- What a pass makes of a finished scan, and whether the loop goes on. -/
def afterScan (p : Pass) (r : ScanResult) : Work × Bool :=
  if p.aborted then (r.work, false)
  else if p.restarted then (r.work, true)
  else
    let s := submitShare cfg r.rc (clampNonce r.work)
    (s.2, s.1.isNone || p.submitted)

def passStep (s : LoopState) (p : Pass) : Option LoopState :=
  if s.running then
    let work := refresh cfg p.gWork s.work p.rand1 p.rand2
    if noData cfg work || p.idle then
      some { s with work := work, passes := s.passes ++ [⟨p.gWork, work, none⟩] }
    else
      let scan := scan cfg p (startScan work)
      let after := afterScan cfg p scan.result
      some
        { work := after.1
          running := after.2
          passes := s.passes ++ [⟨p.gWork, work, some scan⟩] }
  else none

end Pass

section Steps

variable {cfg : LoopConfig}

theorem refreshTarget_kept (cfg : LoopConfig) (gWork work : Work) :
    let w := refreshTarget cfg gWork work
    w.jobId = work.jobId ∧ w.data = work.data ∧ w.solution = work.solution := by
  dsimp only [refreshTarget]
  split_ifs <;> exact ⟨rfl, rfl, rfl⟩

theorem refresh_copied (cfg : LoopConfig) {gWork work : Work} (h : memcmp work.data gWork.data wcmplen = true)
    (rand1 rand2 : Word) :
    startScan (refresh cfg gWork work rand1 rand2) =
      threadWork gWork (0xffffffff / cfg.optNThreads * cfg.thrId) (nonceWord rand1 rand2 cfg.thrId) := by
  simp only [startScan, refresh, refreshHeader, (refreshTarget_kept cfg gWork work).2.1, h, if_true,
    threadWork]

theorem afterScan_kept (cfg : LoopConfig) (p : Pass) (r : ScanResult) :
    let w := (afterScan cfg p r).1
    w.jobId = r.work.jobId ∧ w.solution = r.work.solution ∧ ∀ i < 120, w.data i = r.work.data i := by
  have hstore (m : Mem) (v : Word) {i : Nat} (hi : i < 120) :
      store32 m (4 * verusNonceOffset) v i = m i := memcpy_off (.inl hi)
  have hclamp : (clampNonce r.work).jobId = r.work.jobId ∧
      (clampNonce r.work).solution = r.work.solution ∧
      ∀ i < 120, (clampNonce r.work).data i = r.work.data i := by
    simp only [clampNonce]
    split_ifs
    · exact ⟨rfl, rfl, fun i hi => hstore _ _ hi⟩
    · exact ⟨rfl, rfl, fun _ _ => rfl⟩
  simp only [afterScan, submitShare]
  split_ifs
  · exact ⟨rfl, rfl, fun _ _ => rfl⟩
  · exact ⟨rfl, rfl, fun _ _ => rfl⟩
  · refine ⟨hclamp.1, hclamp.2.1, fun i hi => ?_⟩
    simp only [submitFound]
    rw [hstore _ _ hi, hstore _ _ hi, hclamp.2.2 i hi]
  · exact hclamp


theorem scan_kept (cfg : LoopConfig) (p : Pass) (work : Work) :
    let r := (scan cfg p work).result
    r.work.jobId = work.jobId ∧ r.work.solution = work.solution ∧ r.work.target = work.target ∧
    ∀ i < 120, r.work.data i = if r.recorded = [] then work.data i else fullData work i :=
  finishScan_kept _ _ _

theorem scan_rc (cfg : LoopConfig) (p : Pass) {work : Work} (hvalid : work.validNonces = 0) :
    (scan cfg p work).result.rc = (scan cfg p work).result.recorded.length :=
  finishScan_rc _ _ hvalid

theorem scan_hashesDone_pos (cfg : LoopConfig) (p : Pass) (work : Work) :
    0 < (scan cfg p work).result.hashesDone :=
  scanhashVerus_hashesDone_pos _ _ _ _ _ _ _ _

theorem scan_easiest (cfg : LoopConfig) (p : Pass) {work : Work}
    (htarget : ∀ i < 32, work.target i = 0xff) : (scan cfg p work).result.recorded = [0] :=
  scanhashVerus_easiest _ _ _ _ _ _ _ htarget

theorem passStep_cases {s s' : LoopState} {p : Pass} (h : passStep cfg s p = some s') :
    let work := refresh cfg p.gWork s.work p.rand1 p.rand2
    (s'.work = work ∧ s'.passes = s.passes ++ [⟨p.gWork, work, none⟩]) ∨
    (s'.work = (afterScan cfg p (scan cfg p (startScan work)).result).1 ∧
      s'.passes = s.passes ++ [⟨p.gWork, work, some (scan cfg p (startScan work))⟩]) := by
  dsimp only [passStep] at h ⊢
  split_ifs at h
  · cases h
    exact .inl ⟨rfl, rfl⟩
  · cases h
    exact .inr ⟨rfl, rfl⟩

theorem scans_of_run {P : Scan → Prop}
    (hP : ∀ (p : Pass) (gWork work : Work),
      P (scan cfg p (startScan (refresh cfg gWork work p.rand1 p.rand2))))
    {work : Work} {t : LoopState} {ps : List Pass}
    (hrun : run (passStep cfg) (.start work) ps = some t) : ∀ c ∈ t.scans, P c := by
  refine run_invariant (I := fun s : LoopState => ∀ c ∈ s.scans, P c) ?_ hrun (by simp [LoopState.scans, LoopState.start])
  intro s p s' hs hstep c hc
  rcases passStep_cases hstep with ⟨_, hpasses⟩ | ⟨_, hpasses⟩
  · simp only [LoopState.scans, hpasses, List.filterMap_append, List.filterMap_cons,
      List.filterMap_nil, List.append_nil] at hc
    exact hs c hc
  · simp only [LoopState.scans, hpasses, List.filterMap_append, List.filterMap_cons,
      List.filterMap_nil, List.mem_append, List.mem_singleton] at hc
    rcases hc with hc | rfl
    · exact hs c hc
    · exact hP p p.gWork s.work

theorem passStep_idle {cfg : LoopConfig} {s : LoopState} {p : Pass} (hrunning : s.running = true)
    (hidle : p.idle = true) :
    let work := refresh cfg p.gWork s.work p.rand1 p.rand2
    passStep cfg s p = some { s with work := work, passes := s.passes ++ [⟨p.gWork, work, none⟩] } := by
  simp [passStep, hrunning, hidle]

theorem passStep_scan {cfg : LoopConfig} {s : LoopState} {p : Pass} {work : Work}
    (hrunning : s.running = true) (hidle : p.idle = false)
    (hwork : startScan (refresh cfg p.gWork s.work p.rand1 p.rand2) = work)
    (hdata : noData cfg work = false) :
    let c := scan cfg p work
    ∃ s', passStep cfg s p = some s' ∧ s'.work = (afterScan cfg p c.result).1 ∧
      s'.running = (afterScan cfg p c.result).2 ∧ s'.scans = s.scans ++ [c] := by
  subst hwork
  have hdata' : noData cfg (refresh cfg p.gWork s.work p.rand1 p.rand2) = false := hdata
  simp [passStep, hrunning, hidle, hdata', LoopState.scans]

end Steps

def demoThread (thrId : Word) : LoopConfig where
  aesenc := fun s k => s ^^^ k
  build := .portable
  optShowdiff := true
  optBenchmark := false
  optNThreads := 2
  thrId := thrId

def demoPass (gWork : Work) (rand1 : Word) (idle : Bool) : Pass where
  gWork := gWork
  rand1 := rand1
  rand2 := 0
  idle := idle
  storage := zeroStorage
  restart := fun _ => false
  abort := fun _ => false
  maxNonce := 1
  aborted := false
  restarted := false
  submitted := true

end VerusMiner
