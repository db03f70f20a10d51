import VerusMiner.Lib.Ledger
import VerusMiner.Miner

/-! Where a share that a mining thread has found can be lost. -/

namespace VerusMiner

def Replaced (s : MinerState) (serial : Nat) : Prop :=
  ∃ j, serial ≤ j ∧ s.notifies[j]? = some true

def Excused (s : MinerState) (share : Share) : Prop :=
  Replaced s share.serial ∨ s.abortFlag = true

def MinerState.ledger (s : MinerState) : Ledger Share where
  found := s.found
  hand := fun i => inHand i (s.threads i)
  handed := s.submitted

/-- Every share found was submitted or still will be, unless its job was
replaced by one marked clean or the miner is about to end. -/
def SharesKept (s : MinerState) : Prop := s.ledger.Accounted (Excused s)

/-- A thread that has recorded a solution does not come to the check with its
flag raised, unless its job was replaced by one marked clean. -/
def KeepsShare (s : MinerState) : MinerEvent → Prop
  | .check i => ∀ number r, (s.threads i).pc = .scanned number r → 0 < r.rc →
      (s.threads i).restart = true → Replaced s (s.threads i).serial ∨ s.abortFlag = true
  | _ => True

def dropped (s : MinerState) : MinerEvent → Option Share
  | .check i => if s.abortFlag || (s.threads i).restart then inHand i (s.threads i) else none
  | _ => none

def Numbered (s : MinerState) : Prop := ∀ share ∈ s.found, share.number < s.found.length

theorem Replaced.append {s s' : MinerState} {serial : Nat} (h : Replaced s serial)
    (marks : List Bool) (hnotifies : s'.notifies = s.notifies ++ marks) : Replaced s' serial := by
  obtain ⟨j, hj, hclean⟩ := h
  refine ⟨j, hj, ?_⟩
  rw [hnotifies, List.getElem?_append_left (List.getElem?_eq_some_iff.mp hclean).1, hclean]

theorem setThread_hand (s : MinerState) (i : Nat) (t : ThreadState) :
    (s.setThread i t).ledger.hand = Function.update s.ledger.hand i (inHand i t) := by
  simp only [MinerState.ledger, MinerState.setThread]
  funext j
  by_cases hj : j = i
  · subst hj
    simp
  · simp [hj]

theorem setThread_ledger_of_held {s : MinerState} {i : Nat} {t : ThreadState}
    (h : inHand i t = inHand i (s.threads i)) : (s.setThread i t).ledger = s.ledger := by
  have hhand := setThread_hand s i t
  rw [h] at hhand
  exact congrArg (Ledger.mk s.found · s.submitted) (hhand.trans (Function.update_eq_self ..))

theorem raiseFlag_ledger (s : MinerState) (i : Nat) : (s.raiseFlag i).ledger = s.ledger :=
  setThread_ledger_of_held rfl

section Shares

variable {cfg : MinerConfig} {s s' : MinerState} {e : MinerEvent}

theorem threadCheck_inHand (cfg : MinerConfig) (i : Nat) (abortFlag : Bool) {t : ThreadState}
    {number : Nat} {r : ScanResult} (hpc : t.pc = .scanned number r) :
    inHand i (threadCheck cfg i abortFlag number r t) =
      if abortFlag || t.restart then none else inHand i t := by
  have hbench : (cfg.thread i).optBenchmark = false := rfl
  cases abortFlag with
  | true => rfl
  | false =>
    cases hflag : t.restart with
    | true => simp [threadCheck, hflag, inHand]
    | false =>
      by_cases hrc : 0 < r.rc
      · simp [threadCheck, hflag, submitShare, hrc, hbench, inHand, hpc]
      · simp [threadCheck, hflag, submitShare, hrc, inHand, hpc]

theorem minerStep_ledger (hs : Numbered s) (hstep : minerStep cfg s e = some s') :
    s.ledger.Step (dropped s e) s'.ledger ∧ Numbered s' := by
  have hkeep {t : MinerState} (hd : dropped s e = none) (hledger : t.ledger = s.ledger) :
      s.ledger.Step (dropped s e) t.ledger ∧ Numbered t := by
    have hfound : t.found = s.found := congrArg Ledger.found hledger
    rw [hd, hledger, Numbered, hfound]
    exact ⟨.keep, hs⟩
  cases minerStep_move hstep with
  | notify | install | reconnect | raised | regen | abort => exact hkeep rfl rfl
  | raise | interrupt => exact hkeep rfl (raiseFlag_ledger s _)
  | refresh _ _ hpc =>
    exact hkeep rfl (setThread_ledger_of_held (by simp [inHand, threadRefresh, hpc]))
  | skip hpc =>
    refine hkeep rfl (setThread_ledger_of_held ?_)
    rcases hpc with hpc | hpc <;> simp [inHand, hpc]
  | clear hpc => exact hkeep rfl (setThread_ledger_of_held (by simp [inHand, hpc]))
  | @scan i p hpc =>
    have hempty : inHand i (s.threads i) = none := by simp [inHand, hpc]
    cases hhand : inHand i (threadScan cfg i s.found.length p (s.threads i)) with
    | none =>
      rw [Option.toList_none, List.append_nil]
      exact hkeep rfl (setThread_ledger_of_held (hhand.trans hempty.symm))
    | some share =>
      have hnumber : share.number = s.found.length := by
        simp only [inHand, threadScan] at hhand
        split_ifs at hhand
        cases hhand
        rfl
      -- the number of a new share is none of those given out before
      have hfresh : share ∉ s.ledger.found := fun hmem => by
        have := hs share hmem
        omega
      refine ⟨?_, fun other hother => ?_⟩
      · have hfind := Ledger.Step.find (l := s.ledger) hempty hfresh
        rw [← (setThread_hand _ _ _).trans (congrArg _ hhand)] at hfind
        exact hfind
      · rw [Option.toList_some, List.length_append]
        rcases List.mem_append.mp hother with hold | hnew
        · exact Nat.lt_add_right _ (hs other hold)
        · rw [List.mem_singleton.mp hnew, hnumber]
          exact Nat.lt_succ_self _
  | @check i number r hpc =>
    refine ⟨?_, hs⟩
    have hcheck := threadCheck_inHand cfg i s.abortFlag hpc
    rw [dropped]
    split_ifs at hcheck ⊢ with hflag
    · cases hhand : inHand i (s.threads i) with
      | none =>
        rw [setThread_ledger_of_held (hcheck.trans hhand.symm)]
        exact .keep
      | some share =>
        have hdrop := Ledger.Step.drop (l := s.ledger) hhand
        rw [← (setThread_hand _ _ _).trans (congrArg _ hcheck)] at hdrop
        exact hdrop
    · rw [setThread_ledger_of_held hcheck]
      exact .keep
  | @submit i number share accepted hpc =>
    refine ⟨?_, hs⟩
    have hempty : inHand i { s.threads i with pc := if accepted then .top else .left } = none := by
      cases accepted <;> rfl
    have hhand : s.ledger.hand i = some ⟨number, i, (s.threads i).serial, share⟩ := by
      simp [MinerState.ledger, inHand, hpc]
    have hover := Ledger.Step.handOver hhand
    rw [← (setThread_hand _ _ _).trans (congrArg _ hempty)] at hover
    exact hover

theorem minerStep_excused (hstep : minerStep cfg s e = some s') {share : Share}
    (h : Excused s share) : Excused s' share := by
  cases minerStep_move hstep with
  | @notify now ntimeStack params ret sctx =>
    cases ret with
    | true => exact h.imp_left fun hrep => hrep.append [sctx.job.clean] rfl
    | false => exact h
  | abort => exact .inr rfl
  | _ => exact h

theorem inHand_scanned {i number : Nat} {r : ScanResult} {t : ThreadState} {share : Share}
    (hpc : t.pc = .scanned number r) (h : inHand i t = some share) :
    0 < r.rc ∧ share.serial = t.serial := by
  simp only [inHand, hpc] at h
  split_ifs at h with hrc
  cases h
  exact ⟨hrc, rfl⟩

theorem dropped_excused_iff (hstep : minerStep cfg s e = some s') :
    (∀ share, dropped s e = some share → Excused s' share) ↔ KeepsShare s e := by
  cases minerStep_move hstep with
  | @check i number r hpc =>
    constructor
    · intro h number' r' hpc' hrc hflag
      obtain ⟨rfl, rfl⟩ : number = number' ∧ r = r' := by simpa [hpc] using hpc'
      have hdropped : dropped s (.check i) = inHand i (s.threads i) := by
        simp [dropped, hflag]
      rw [hdropped] at h
      simp only [inHand, hpc, hrc, if_true] at h
      exact h _ rfl
    · intro h share hshare
      simp only [dropped] at hshare
      split_ifs at hshare with hflags
      obtain ⟨hrc, hserial⟩ := inHand_scanned hpc hshare
      rw [Bool.or_eq_true] at hflags
      rcases hflags with habort | hflag
      · exact .inr habort
      · have hexcused := h number r hpc hrc hflag
        rw [← hserial] at hexcused
        exact hexcused
  | _ => simp [dropped, KeepsShare]

theorem minerStep_sharesKept_iff (hl : s.ledger.WellFormed) (hs : Numbered s) (hkept : SharesKept s)
    (hstep : minerStep cfg s e = some s') : SharesKept s' ↔ KeepsShare s e :=
  ((minerStep_ledger hs hstep).1.accounted_iff hl hkept (minerStep_excused hstep)).trans
    (dropped_excused_iff hstep)

theorem throughout_sharesKept_iff {t : MinerState} {es : List MinerEvent}
    (hl : s.ledger.WellFormed) (hs : Numbered s) (hkept : SharesKept s)
    (hrun : run (minerStep cfg) s es = some t) :
    Throughout (minerStep cfg) SharesKept s es ↔ Along (minerStep cfg) KeepsShare s es := by
  refine throughout_iff_along (I := fun s => s.ledger.WellFormed ∧ Numbered s) ?_ ?_ hrun ⟨hl, hs⟩ hkept
  · intro s e s' ⟨hl, hs⟩ hstep
    obtain ⟨hledger, hnumbered⟩ := minerStep_ledger hs hstep
    exact ⟨hledger.wellFormed hl, hnumbered⟩
  · exact fun ⟨hl, hs⟩ hkept hstep => minerStep_sharesKept_iff hl hs hkept hstep

structure Started (s : MinerState) : Prop where
  pcs : ∀ i, (s.threads i).pc = .top
  found : s.found = []
  submitted : s.submitted = []

theorem Started.accounted (h : Started s) :
    s.ledger.WellFormed ∧ Numbered s ∧ SharesKept s := by
  have hledger : s.ledger = { found := [], hand := fun i => inHand i (s.threads i), handed := [] } := by
    rw [MinerState.ledger, h.found, h.submitted]
  refine ⟨?_, ?_, ?_⟩
  · rw [hledger]
    exact Ledger.wellFormed_nil fun i => by simp [inHand, h.pcs i]
  · simp [Numbered, h.found]
  · simp [SharesKept, Ledger.Accounted, hledger]

/-- No share is lost at any time of a run exactly when no thread comes to the
check of its flag with a share and the flag raised, unless the share's job was
replaced by a clean one. -/
theorem run_sharesKept_iff {t : MinerState} {es : List MinerEvent} (hs : Started s)
    (hrun : run (minerStep cfg) s es = some t) :
    Throughout (minerStep cfg) SharesKept s es ↔ Along (minerStep cfg) KeepsShare s es := by
  obtain ⟨hl, hnumbered, hkept⟩ := hs.accounted
  exact throughout_sharesKept_iff hl hnumbered hkept hrun

end Shares

def ThreadPc.Watched : ThreadPc → Prop
  | .scanning | .scanned _ _ => True
  | _ => False

def HarmlessRaise (s : MinerState) (i : Nat) : Prop :=
  (s.threads i).pc.Watched → Replaced s (s.threads i).serial

def Harmless (cfg : MinerConfig) (s : MinerState) : MinerEvent → Prop
  | .raise => ∀ i < cfg.optNThreads, s.raising = some i → HarmlessRaise s i
  | .interrupt i => HarmlessRaise s i
  | _ => True

def FlagsExcused (s : MinerState) : Prop :=
  ∀ i, (s.threads i).pc.Watched → (s.threads i).restart = true → Replaced s (s.threads i).serial

section Flags

variable {cfg : MinerConfig} {s s' : MinerState}

theorem FlagsExcused.of_threads (h : FlagsExcused s) (marks : List Bool)
    (hthreads : s'.threads = s.threads) (hnotifies : s'.notifies = s.notifies ++ marks) :
    FlagsExcused s' := by
  intro i hpc hflag
  rw [hthreads] at hpc hflag ⊢
  exact (h i hpc hflag).append marks hnotifies

theorem FlagsExcused.setThread (h : FlagsExcused s) {i : Nat} {t : ThreadState}
    (hflag : t.pc.Watched → t.restart = true → Replaced s t.serial) :
    FlagsExcused (s.setThread i t) := by
  intro j
  by_cases hj : j = i
  · subst hj
    simp only [MinerState.setThread, Function.update_self]
    exact hflag
  · simp only [MinerState.setThread, Function.update_of_ne hj]
    exact h j

theorem threadCheck_pc (i : Nat) (abortFlag : Bool) (number : Nat) (r : ScanResult)
    (t : ThreadState) : ¬ (threadCheck cfg i abortFlag number r t).pc.Watched := by
  simp only [threadCheck, submitShare]
  split_ifs <;> exact id

theorem minerStep_flagsExcused {e : MinerEvent} (h : FlagsExcused s) (hok : Harmless cfg s e)
    (hstep : minerStep cfg s e = some s') : FlagsExcused s' := by
  -- a step that leaves the threads alone, and may add a notify
  have hkeep {t t' : MinerState} (ht : FlagsExcused t) (hthreads : t'.threads = t.threads)
      (hnotifies : t'.notifies = t.notifies) : FlagsExcused t' :=
    ht.of_threads [] hthreads (hnotifies.trans (List.append_nil _).symm)
  cases minerStep_move hstep with
  | @notify now ntimeStack params ret sctx =>
    cases ret with
    | true => exact h.of_threads [sctx.job.clean] rfl rfl
    | false => exact hkeep h rfl rfl
  | install | reconnect | raised | regen | abort => exact hkeep h rfl rfl
  | @raise i hraising hi =>
    have hraised : FlagsExcused (s.raiseFlag i) := h.setThread fun hpc _ => hok i hi hraising hpc
    exact hkeep hraised rfl rfl
  | interrupt => exact h.setThread fun hpc _ => hok hpc
  | refresh | skip => exact h.setThread fun hwatched => hwatched.elim
  | clear => exact h.setThread fun _ hflag => by cases hflag
  | @scan i p hpc =>
    have hset : FlagsExcused (s.setThread i (threadScan cfg i s.found.length p (s.threads i))) :=
      h.setThread fun _ => h i (hpc ▸ trivial)
    exact hkeep hset rfl rfl
  | @check i => exact h.setThread fun hwatched => (threadCheck_pc i s.abortFlag _ _ _ hwatched).elim
  | @submit i number share accepted =>
    have hset : FlagsExcused
        (s.setThread i { s.threads i with pc := if accepted then .top else .left }) :=
      h.setThread fun hwatched => by cases accepted <;> exact hwatched.elim
    exact hkeep hset rfl rfl

theorem FlagsExcused.keepsShare (h : FlagsExcused s) (e : MinerEvent) : KeepsShare s e := by
  cases e with
  | check i =>
    intro number r hpc _ hflag
    exact .inl (h i (hpc ▸ trivial) hflag)
  | _ => trivial

/-- It is enough that a flag that is being watched is raised only once the
thread's job has been replaced by a clean one. -/
theorem run_sharesKept {t : MinerState} {es : List MinerEvent} (hs : Started s)
    (hrun : run (minerStep cfg) s es = some t) (hok : Along (minerStep cfg) (Harmless cfg) s es) :
    Throughout (minerStep cfg) SharesKept s es := by
  obtain ⟨hl, hnumbered, hkept⟩ := hs.accounted
  have hflags : FlagsExcused s := fun i hpc => by
    rw [hs.pcs i] at hpc
    exact hpc.elim
  refine (throughout_sharesKept_iff hl hnumbered hkept hrun).mpr ?_
  exact along_of_along (fun h hok hstep => minerStep_flagsExcused h hok hstep)
    (fun h _ => h.keepsShare _) hflags hok

end Flags

def demoMiner : MinerConfig where
  aesenc := fun s k => s ^^^ k
  build := .portable
  optShowdiff := true
  optNThreads := 1
  optDifficulty := 1.0

def startedMiner : MinerState where
  sctx := easyCtx
  notifies := []
  gWork := zeroWork
  gSerial := 0
  abortFlag := false
  raising := none
  threads := fun _ => { pc := .top, work := zeroWork, serial := 0, restart := false }
  found := []
  submitted := []

def notifyEvent (jobId : CString) (digit : Char) : MinerEvent :=
  .notify 0 (fun _ => 0) (zeroNotify jobId '1' (List.replicate 2688 digit))

def minerWithJob : MinerState :=
  { startedMiner with
    sctx := firstCtx
    notifies := [false]
    gWork := generated firstCtx
    gSerial := 1
    threads := Function.update startedMiner.threads 0 { startedMiner.threads 0 with restart := true } }

theorem run_firstJob : run (minerStep demoMiner) startedMiner
    [notifyEvent ['1'] '0', .raise, .raise, .install] = some minerWithJob := rfl

def refreshedThread : ThreadState :=
  threadRefresh demoMiner 0 (generated firstCtx) 1 0 0 (minerWithJob.threads 0)

def scanningThread : ThreadState := { refreshedThread with pc := .scanning, restart := false }

def scanningMiner : MinerState := (minerWithJob.setThread 0 refreshedThread).setThread 0 scanningThread

theorem run_scanning :
    run (minerStep demoMiner) minerWithJob [.refresh 0 0 0, .clear 0] = some scanningMiner := by
  have hdata : noData (demoMiner.thread 0) refreshedThread.work = false := by decide +kernel
  have hclear : minerStep demoMiner (minerWithJob.setThread 0 refreshedThread) (.clear 0) =
      some scanningMiner := by
    simp only [minerStep, setThread_threads, hdata]
    rfl
  exact run_cons.mpr ⟨_, rfl, run_cons.mpr ⟨_, hclear, rfl⟩⟩

theorem minerStep_scan_easiest (cfg : MinerConfig) {s : MinerState} {i : Nat} (p : Pass)
    (hpc : (s.threads i).pc = .scanning) (htarget : ∀ k < 32, (s.threads i).work.target k = 0xff) :
    ∃ s' number r, minerStep cfg s (.scan i p) = some s' ∧ (s'.threads i).pc = .scanned number r ∧
      0 < r.rc ∧ (s'.threads i).restart = (s.threads i).restart ∧ s'.notifies = s.notifies ∧
      s'.raising = s.raising ∧ s'.sctx = s.sctx ∧ s'.abortFlag = s.abortFlag ∧
      s'.submitted = s.submitted := by
  have hrc : 0 < (scan (cfg.thread i) p (startScan (s.threads i).work)).result.rc := by
    have htarget' : ∀ k < 32, (startScan (s.threads i).work).target k = 0xff := htarget
    rw [scan_rc _ _ rfl, scan_easiest _ _ htarget']
    exact Nat.one_pos
  simp only [minerStep, hpc]
  exact ⟨_, s.found.length, _, rfl, by rw [setThread_threads]; rfl, hrc, by rw [setThread_threads]; rfl,
    rfl, rfl, rfl, rfl, rfl⟩

theorem run_notify {s : MinerState} {sctx : StratumCtx} {now : Word} {ntimeStack : Mem}
    {params : Json} (hraising : s.raising = none)
    (hnotify : verusStratumNotify now ntimeStack s.sctx params = some (true, sctx)) :
    ∃ s', run (minerStep demoMiner) s [.notify now ntimeStack params, .raise, .raise] = some s' ∧
      s'.threads 0 = { s.threads 0 with restart := true } ∧
      s'.notifies = s.notifies ++ [sctx.job.clean] ∧ s'.abortFlag = s.abortFlag := by
  simp [run, minerStep, hraising, hnotify, demoMiner, MinerState.raiseFlag, MinerState.setThread]

theorem run_submit (cfg : MinerConfig) {s : MinerState} {i number : Nat} {r : ScanResult}
    (hpc : (s.threads i).pc = .scanned number r) (hrc : 0 < r.rc)
    (hflag : (s.threads i).restart = false) (habort : s.abortFlag = false) :
    ∃ t, run (minerStep cfg) s [.check i, .submit i true] = some t ∧
      t.submitted.length = s.submitted.length + 1 := by
  have hbench : (cfg.thread i).optBenchmark = false := rfl
  simp [run, minerStep, hpc, threadCheck, hflag, habort, submitShare, hrc, hbench,
    MinerState.setThread]

theorem scanningMiner_target : ∀ k < 32, (scanningMiner.threads 0).work.target k = 0xff := by
  have hdiffers : memcmp zeroWork.data (generated firstCtx).data wcmplen = true := by decide +kernel
  have hcopied : (scanningMiner.threads 0).work.target = (generated firstCtx).target :=
    (refresh_of_differs (demoMiner.thread 0) hdiffers 0 0).2.2.2
  intro k hk
  rw [hcopied]
  exact generated_target firstCtx rfl hk

def demoScan : MinerEvent := .scan 0 (demoPass (generated firstCtx) 0 false)

theorem minerWithJob_started : Started minerWithJob := by
  refine ⟨fun i => ?_, rfl, rfl⟩
  by_cases hi : i = 0
  · rw [hi]
    rfl
  · simp [minerWithJob, startedMiner, Function.update_of_ne hi]

theorem run_sharesKept_submitted :
    ∃ t, run (minerStep demoMiner) minerWithJob
        [.refresh 0 0 0, .clear 0, demoScan, .check 0, .submit 0 true] = some t ∧
      t.submitted.length = 1 ∧
      Throughout (minerStep demoMiner) SharesKept minerWithJob
        [.refresh 0 0 0, .clear 0, demoScan, .check 0, .submit 0 true] := by
  obtain ⟨s, number, r, hscan, hpc, hrc, hflag, _, _, _, habort, hsubmitted⟩ :=
    minerStep_scan_easiest demoMiner (demoPass (generated firstCtx) 0 false) rfl scanningMiner_target
  have hlow : (s.threads 0).restart = false := hflag.trans rfl
  obtain ⟨t, hrun, hlength⟩ := run_submit demoMiner hpc hrc hlow (habort.trans rfl)
  have hwhole := run_append.mpr ⟨_, run_scanning, run_cons.mpr ⟨_, hscan, hrun⟩⟩
  refine ⟨t, hwhole, by rw [hlength, hsubmitted]; rfl,
    (run_sharesKept_iff minerWithJob_started hwhole).mpr ?_⟩
  refine (along_append run_scanning).mpr ⟨⟨trivial, fun _ _ => ⟨trivial, fun _ _ => trivial⟩⟩, ?_⟩
  refine (along_cons hscan).mpr ⟨trivial, fun _ _ _ _ hraised => ?_, fun _ _ => ⟨trivial, fun _ _ => trivial⟩⟩
  rw [hlow] at hraised
  cases hraised

/-- A notify that is not marked clean, while the only thread has a share in
hand, and the thread drops it. -/
theorem share_lost : ∃ es t, run (minerStep demoMiner) startedMiner es = some t ∧
    ¬ Throughout (minerStep demoMiner) SharesKept startedMiner es := by
  obtain ⟨s, number, r, hscan, hpc, hrc, _, hnotifies, hraising, hsctx, habort, _⟩ :=
    minerStep_scan_easiest demoMiner (demoPass (generated firstCtx) 0 false) rfl scanningMiner_target
  have hnotify : verusStratumNotify 0 (fun _ => 0) s.sctx
      (zeroNotify ['2'] '1' (List.replicate 2688 '1')) = some (true, secondCtx) := hsctx ▸ rfl
  obtain ⟨s', hrun, hflagged, hnotifies', habort'⟩ := run_notify (hraising.trans rfl) hnotify
  have hpc' : (s'.threads 0).pc = .scanned number r := by
    rw [hflagged]
    exact hpc
  have hcheck : minerStep demoMiner s' (.check 0) =
      some (s'.setThread 0 (threadCheck demoMiner 0 s'.abortFlag number r (s'.threads 0))) := by
    simp only [minerStep, hpc']
  have hbefore := run_append.mpr ⟨_, run_firstJob, run_append.mpr ⟨_, run_scanning,
    run_cons.mpr ⟨_, hscan, hrun⟩⟩⟩
  have hwhole := run_append.mpr ⟨_, hbefore, run_singleton hcheck⟩
  refine ⟨_, _, hwhole, fun hthroughout => ?_⟩
  have hstarted : Started startedMiner := ⟨fun _ => rfl, rfl, rfl⟩
  obtain ⟨hl, hnumbered, hkept⟩ := hstarted.accounted
  have hkeeps := (throughout_sharesKept_iff hl hnumbered hkept hwhole).mp hthroughout
  have hlast := ((along_append hbefore).mp hkeeps).2.1 number r hpc' hrc (by rw [hflagged])
  rcases hlast with ⟨j, _, hclean⟩ | habort''
  · have hmem := List.mem_of_getElem? hclean
    rw [hnotifies', hnotifies] at hmem
    revert hmem
    decide
  · rw [habort', habort] at habort''
    cases habort''

end VerusMiner
