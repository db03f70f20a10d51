import VerusMiner.Lib.Wakeup
import VerusMiner.Restart

/-! Which job a mining thread scans while its restart flag is down: where a
clean job goes unnoticed. -/

namespace VerusMiner

/-- `cleanSerial` numbers the last clean job the stratum thread installed and
`cleanBefore` the one before it; `installing` says that the last
`restart_threads` of the stratum thread was the one of that install. -/
structure Announced extends MinerState where
  cleanSerial : Nat
  cleanBefore : Nat
  installing : Bool

def installsClean (s : MinerState) : MinerEvent → Bool
  | .install => s.sctx.job.clean
  | _ => false

/-- The `restart_threads` of a notify or a lost connection announces no job. -/
def Announced.installingAfter (s : Announced) : MinerEvent → Bool
  | .install => s.sctx.job.clean
  | .notify .. => false
  | .reconnect => false
  | _ => s.installing

def announcedStep (cfg : MinerConfig) (s : Announced) (e : MinerEvent) : Option Announced :=
  (minerStep cfg s.toMinerState e).map fun s' =>
    { s' with
      cleanSerial := if installsClean s.toMinerState e then s'.gSerial else s.cleanSerial
      cleanBefore := if installsClean s.toMinerState e then s.cleanSerial else s.cleanBefore
      installing := s.installingAfter e }

/-- The stratum thread is in the `restart_threads` of its last clean install
and has not come to the flag of thread `i` yet. -/
def Announced.raiseComing (s : Announced) (i : Nat) : Bool :=
  s.installing && match s.raising with
  | some k => decide (k ≤ i)
  | none => false

/-- The last clean job whose own install has passed the flag of thread `i`. -/
def Announced.announced (s : Announced) (i : Nat) : Nat :=
  if s.raiseComing i then s.cleanBefore else s.cleanSerial

def ThreadPc.scans : ThreadPc → Bool
  | .scanning => true
  | _ => false

def Announced.watch (s : Announced) (i : Nat) : Watch where
  announced := s.announced i
  copied := (s.threads i).serial
  flag := (s.threads i).restart
  working := (s.threads i).pc.scans

/-- No thread scans with its flag down a job older than a clean one whose
install has passed the flag. -/
def NoLostRestart (cfg : MinerConfig) (s : Announced) : Prop :=
  ∀ i < cfg.optNThreads, (s.threads i).pc = .scanning → (s.threads i).restart = false →
    s.announced i ≤ (s.threads i).serial

/-- A thread that clears its flag has a job no older than the last clean one
whose install has passed the flag. -/
def ClearsInTime (cfg : MinerConfig) (s : Announced) : MinerEvent → Prop
  | .clear i => i < cfg.optNThreads → s.announced i ≤ (s.threads i).serial
  | _ => True

def MinerEvent.clears : MinerEvent → Nat → Bool
  | .clear j, i => decide (j = i)
  | _, _ => false

theorem scans_eq_true {pc : ThreadPc} : pc.scans = true ↔ pc = .scanning := by
  cases pc <;> simp [ThreadPc.scans]

section Watching

variable {cfg : MinerConfig} {s s' : Announced} {e : MinerEvent} {i : Nat}

theorem noLostRestart_iff : NoLostRestart cfg s ↔ ∀ i < cfg.optNThreads, (s.watch i).Told := by
  simp [NoLostRestart, Watch.Told, Announced.watch, scans_eq_true]

theorem clearsInTime_iff :
    ClearsInTime cfg s e ↔ ∀ i < cfg.optNThreads, e.clears i = true → (s.watch i).InTime := by
  cases e with
  | clear j =>
    simp only [ClearsInTime, MinerEvent.clears, decide_eq_true_eq, Watch.InTime, Announced.watch]
    constructor
    · rintro h i hi rfl
      exact h hi
    · exact fun h hj => h j hj rfl
  | _ => simp [ClearsInTime, MinerEvent.clears]

theorem watch_kept (hannounced : s'.announced i = s.announced i) (hthread : s'.threads i = s.threads i) :
    (s.watch i).Step false (s'.watch i) := by
  have h : s'.watch i = s.watch i := by simp only [Announced.watch, hannounced, hthread]
  rw [h]
  exact .keep

theorem watch_stopped (hannounced : s'.announced i = s.announced i)
    (hflag : (s'.threads i).restart = (s.threads i).restart) (hpc : (s'.threads i).pc.scans = false) :
    (s.watch i).Step false (s'.watch i) := by
  have h : s'.watch i = { s.watch i with copied := (s'.threads i).serial, working := false } := by
    simp only [Announced.watch, hannounced, hflag, hpc]
  rw [h]
  exact .stop

theorem watch_thread (j : Nat) (t : ThreadState) (hannounced : s'.announced i = s.announced i)
    (hthreads : s'.threads = (s.setThread j t).threads)
    (ht : t.restart = (s.threads j).restart ∧ t.pc.scans = false) :
    (s.watch i).Step false (s'.watch i) := by
  by_cases hij : i = j
  · subst hij
    rw [← setThread_threads s.toMinerState i t, ← hthreads] at ht
    exact watch_stopped hannounced ht.1 ht.2
  · refine watch_kept hannounced ?_
    rw [hthreads]
    exact Function.update_of_ne hij ..

theorem watch_raised (j : Nat) (hthreads : s'.threads = (s.raiseFlag j).threads)
    (hannounced : i ≠ j → s'.announced i = s.announced i) : (s.watch i).Step false (s'.watch i) := by
  by_cases hij : i = j
  · subst hij
    have h : s'.watch i = { s.watch i with announced := s'.announced i, flag := true } := by
      simp only [Announced.watch, hthreads, MinerState.raiseFlag, setThread_threads]
    rw [h]
    exact .raise
  · refine watch_kept (hannounced hij) ?_
    rw [hthreads]
    exact Function.update_of_ne hij ..

theorem threadCheck_flag (cfg : MinerConfig) (j : Nat) (abortFlag : Bool) (number : Nat) (r : ScanResult)
    (t : ThreadState) :
    (threadCheck cfg j abortFlag number r t).restart = t.restart ∧
      (threadCheck cfg j abortFlag number r t).pc.scans = false := by
  simp only [threadCheck, submitShare]
  split_ifs <;> simp [ThreadPc.scans]

/-- A clean install tells no thread anything before it comes to its flag. -/
theorem announced_install {t : Announced} (hraising : s.raising = none) (hinstalling : t.installing = true)
    (ht : t.raising = some 0) (hbefore : t.cleanBefore = s.cleanSerial) : t.announced i = s.announced i := by
  simp only [Announced.announced, Announced.raiseComing, hinstalling, ht, hraising, hbefore, Nat.zero_le,
    decide_true, Bool.and_true, Bool.and_false, if_true, Bool.false_eq_true, if_false]

theorem announcedStep_watch (hi : i < cfg.optNThreads) (h : announcedStep cfg s e = some s') :
    (s.watch i).Step (e.clears i) (s'.watch i) := by
  obtain ⟨m, hstep, rfl⟩ := Option.map_eq_some_iff.mp h
  cases minerStep_move hstep with
  | notify hraising | reconnect hraising =>
    refine watch_kept ?_ rfl
    simp only [Announced.announced, Announced.raiseComing, hraising, Announced.installingAfter,
      Bool.and_false, Bool.false_and]
    rfl
  | install hraising =>
    refine watch_kept ?_ rfl
    cases hclean : s.sctx.job.clean with
    | true => exact announced_install hraising hclean rfl (if_pos hclean)
    | false =>
      simp only [Announced.announced, Announced.raiseComing, installsClean, Announced.installingAfter, hclean,
        hraising, Bool.and_false, Bool.false_eq_true, if_false]
  | @raise k hraising =>
    -- for any other thread the flag is as far ahead as before
    refine watch_raised k rfl fun hne => ?_
    have hsucc : k + 1 ≤ i ↔ k ≤ i := by omega
    simp only [Announced.announced, Announced.raiseComing, hraising, hsucc, Announced.installingAfter]
    rfl
  | @raised k hraising hk =>
    have hpassed : ¬ k ≤ i := by omega
    refine watch_kept ?_ rfl
    simp only [Announced.announced, Announced.raiseComing, hraising, hpassed, decide_false, Bool.and_false]
    rfl
  | regen | abort => exact watch_kept rfl rfl
  | interrupt j => exact watch_raised j rfl fun _ => rfl
  | refresh | skip => exact watch_thread _ _ rfl rfl ⟨rfl, rfl⟩
  | @clear j =>
    by_cases hij : j = i
    · subst hij
      simp only [MinerEvent.clears, decide_true, Announced.watch, setThread_threads]
      exact .start
    · simp only [MinerEvent.clears, hij, decide_false]
      exact watch_kept rfl (Function.update_of_ne (Ne.symm hij) ..)
  | @scan j p =>
    exact watch_thread j (threadScan cfg j s.found.length p (s.threads j)) rfl rfl ⟨rfl, rfl⟩
  | check => exact watch_thread _ _ rfl rfl (threadCheck_flag ..)
  | @submit j number share accepted =>
    exact watch_thread j { s.threads j with pc := if accepted then .top else .left } rfl rfl
      ⟨rfl, by cases accepted <;> rfl⟩

theorem noLostRestart_step (hs : NoLostRestart cfg s) (h : announcedStep cfg s e = some s') :
    NoLostRestart cfg s' ↔ ClearsInTime cfg s e := by
  rw [noLostRestart_iff, clearsInTime_iff]
  exact forall₂_congr fun i hi =>
    (announcedStep_watch hi h).told_iff (noLostRestart_iff.mp hs i hi)

theorem Started.noLostRestart (hs : Started s.toMinerState) : NoLostRestart cfg s := by
  intro i _ hpc
  rw [hs.pcs i] at hpc
  cases hpc

theorem noLostRestart_along {t : Announced} {es : List MinerEvent} (hs : Started s.toMinerState)
    (hrun : run (announcedStep cfg) s es = some t) :
    Throughout (announcedStep cfg) (NoLostRestart cfg) s es ↔
      Along (announcedStep cfg) (ClearsInTime cfg) s es :=
  throughout_iff_along (I := fun _ => True) (fun _ _ => trivial)
    (fun _ hs h => noLostRestart_step hs h) hrun trivial hs.noLostRestart

/-- No thread ever scans a job older than an installed clean one with its
flag down, exactly when every thread that clears its flag is in time. -/
theorem run_noLostRestart_iff {t : Announced} {es : List MinerEvent} (hs : Started s.toMinerState)
    (hrun : run (announcedStep cfg) s es = some t) :
    Throughout (announcedStep cfg) (NoLostRestart cfg) s es ↔
      Along (announcedStep cfg) (ClearsInTime cfg) s es :=
  noLostRestart_along hs hrun

end Watching

section Window

/-- No clean job is installed while a thread is between its copy and its
clear, and a refresh takes over a job that is newer by a clean one. -/
def LeavesWindow (cfg : MinerConfig) (s : Announced) : MinerEvent → Prop
  | .install => s.sctx.job.clean = true → ∀ i < cfg.optNThreads, (s.threads i).pc ≠ .refreshed
  | .refresh i _ _ =>
      memcmp (s.threads i).work.data s.gWork.data wcmplen = true ∨
        s.cleanSerial ≤ (s.threads i).serial
  | _ => True

structure WindowClear (cfg : MinerConfig) (s : Announced) : Prop where
  cleanBefore_le : s.cleanBefore ≤ s.cleanSerial
  cleanSerial_le : s.cleanSerial ≤ s.gSerial
  gSerial_le : s.gSerial ≤ s.notifies.length
  refreshed : ∀ i < cfg.optNThreads, (s.threads i).pc = .refreshed →
    s.cleanSerial ≤ (s.threads i).serial

variable {cfg : MinerConfig} {s s' : Announced} {e : MinerEvent}

theorem WindowClear.announced_le (h : WindowClear cfg s) (i : Nat) : s.announced i ≤ s.cleanSerial := by
  unfold Announced.announced
  split_ifs
  · exact h.cleanBefore_le
  · exact le_rfl

theorem WindowClear.setThread (h : WindowClear cfg s) (i : Nat) (t : ThreadState)
    (hserial : s'.cleanSerial = s.cleanSerial ∧ s'.cleanBefore = s.cleanBefore) (hg : s'.gSerial = s.gSerial)
    (hnotifies : s'.notifies = s.notifies) (hthreads : s'.threads = (s.setThread i t).threads)
    (ht : i < cfg.optNThreads → t.pc = .refreshed → s.cleanSerial ≤ t.serial) :
    WindowClear cfg s' where
  cleanBefore_le := hserial.1 ▸ hserial.2 ▸ h.cleanBefore_le
  cleanSerial_le := hserial.1 ▸ hg ▸ h.cleanSerial_le
  gSerial_le := hg ▸ hnotifies ▸ h.gSerial_le
  refreshed := fun j hj hpc => by
    rw [hthreads] at hpc ⊢
    rw [hserial.1]
    by_cases hji : j = i
    · subst hji
      rw [setThread_threads] at hpc ⊢
      exact ht hj hpc
    · have hsame : (s.setThread i t).threads j = s.threads j := Function.update_of_ne hji ..
      rw [hsame] at hpc ⊢
      exact h.refreshed j hj hpc

theorem WindowClear.later (h : WindowClear cfg s)
    (hserial : s'.cleanSerial = s.cleanSerial ∧ s'.cleanBefore = s.cleanBefore)
    (hg : s.gSerial ≤ s'.gSerial) (hnotifies : s'.gSerial ≤ s'.notifies.length)
    (hthreads : s'.threads = s.threads) : WindowClear cfg s' where
  cleanBefore_le := hserial.1 ▸ hserial.2 ▸ h.cleanBefore_le
  cleanSerial_le := hserial.1 ▸ h.cleanSerial_le.trans hg
  gSerial_le := hnotifies
  refreshed := hserial.1 ▸ hthreads ▸ h.refreshed

theorem announcedStep_windowClear (h : WindowClear cfg s) (hok : LeavesWindow cfg s e)
    (hstep : announcedStep cfg s e = some s') : WindowClear cfg s' := by
  obtain ⟨m, hm, rfl⟩ := Option.map_eq_some_iff.mp hstep
  cases minerStep_move hm with
  | notify =>
    refine h.later ⟨rfl, rfl⟩ le_rfl (h.gSerial_le.trans ?_) rfl
    dsimp only
    split_ifs <;> simp
  | install =>
    cases hclean : s.sctx.job.clean with
    | true =>
      -- the only step that makes the copies of other threads old
      simp only [installsClean, hclean]
      exact ⟨h.cleanSerial_le.trans h.gSerial_le, le_rfl, le_rfl, fun i hi hpc => absurd hpc (hok hclean i hi)⟩
    | false =>
      have hnot : ¬ installsClean s.toMinerState .install = true := by simp [installsClean, hclean]
      exact h.later ⟨if_neg hnot, if_neg hnot⟩ h.gSerial_le le_rfl rfl
  | reconnect | raised | abort => exact h.later ⟨rfl, rfl⟩ le_rfl h.gSerial_le rfl
  | @raise i => exact h.setThread i _ ⟨rfl, rfl⟩ rfl rfl rfl (h.refreshed i)
  | regen => exact h.later ⟨rfl, rfl⟩ h.gSerial_le le_rfl rfl
  | interrupt i => exact h.setThread i _ ⟨rfl, rfl⟩ rfl rfl rfl (h.refreshed i)
  | refresh =>
    refine h.setThread _ _ ⟨rfl, rfl⟩ rfl rfl rfl fun _ _ => ?_
    simp only [threadRefresh]
    split_ifs with hdiffers
    · exact h.cleanSerial_le
    · exact hok.resolve_left hdiffers
  | skip | clear => exact h.setThread _ _ ⟨rfl, rfl⟩ rfl rfl rfl (fun _ hpc => by cases hpc)
  | @scan i p =>
    exact h.setThread i (threadScan cfg i s.found.length p (s.threads i)) ⟨rfl, rfl⟩ rfl rfl rfl
      (fun _ hpc => by cases hpc)
  | check =>
    refine h.setThread _ _ ⟨rfl, rfl⟩ rfl rfl rfl fun _ hpc => ?_
    simp only [threadCheck, submitShare] at hpc
    split_ifs at hpc
  | @submit i number share accepted =>
    exact h.setThread i { s.threads i with pc := if accepted then .top else .left } ⟨rfl, rfl⟩ rfl rfl rfl
      fun _ hpc => by cases accepted <;> cases hpc

theorem WindowClear.clearsInTime (h : WindowClear cfg s) (hstep : announcedStep cfg s e = some s') :
    ClearsInTime cfg s e := by
  obtain ⟨m, hm, _⟩ := Option.map_eq_some_iff.mp hstep
  cases minerStep_move hm with
  | clear hpc => exact fun hi => (h.announced_le _).trans (h.refreshed _ hi hpc)
  | _ => trivial

/-- It is enough that no clean job comes between a thread's copy and its clear. -/
theorem run_noLostRestart {t : Announced} {es : List MinerEvent} (hs : Started s.toMinerState)
    (hcurrent : s.cleanBefore ≤ s.cleanSerial ∧ s.cleanSerial ≤ s.gSerial ∧ s.gSerial ≤ s.notifies.length)
    (hrun : run (announcedStep cfg) s es = some t)
    (hok : Along (announcedStep cfg) (LeavesWindow cfg) s es) :
    Throughout (announcedStep cfg) (NoLostRestart cfg) s es := by
  have hclear : WindowClear cfg s := ⟨hcurrent.1, hcurrent.2.1, hcurrent.2.2, fun i _ hpc => by
    rw [hs.pcs i] at hpc
    cases hpc⟩
  exact (noLostRestart_along hs hrun).mpr
    (along_of_run announcedStep_windowClear (fun h _ hstep => h.clearsInTime hstep) hrun hclear hok)

end Window

def startedAnnounced : Announced :=
  { startedMiner with cleanSerial := 0, cleanBefore := 0, installing := false }

def cleanNotify (jobId : CString) : Json :=
  let zeros (n : Nat) : Json := .string (List.replicate n '0')
  .array [.string jobId, .string ('1' :: List.replicate 7 '0'), zeros 64, zeros 64, zeros 64,
    zeros 8, zeros 8, .bool true, .string (List.replicate 2688 '0')]

def cleanJob : List MinerEvent :=
  [.notify 0 (fun _ => 0) (cleanNotify ['2']), .raise, .raise, .install, .raise, .raise]

def firstJob : List MinerEvent := [notifyEvent ['1'] '0', .raise, .raise, .install]

theorem announcedStep_clear {cfg : MinerConfig} {s : Announced} {i : Nat}
    (hpc : (s.threads i).pc = .refreshed) (hdata : noData (cfg.thread i) (s.threads i).work = false) :
    ∃ s', announcedStep cfg s (.clear i) = some s' := by
  simp [announcedStep, minerStep, hpc, hdata]

theorem noData_refreshedThread : noData (demoMiner.thread 0) refreshedThread.work = false := by
  decide +kernel

theorem run_firstCopied : ∃ s, run (announcedStep demoMiner) startedAnnounced
    (firstJob ++ [.refresh 0 0 0]) = some s ∧ s.threads 0 = refreshedThread ∧ s.announced 0 = 0 :=
  ⟨_, rfl, rfl, rfl⟩

theorem run_cleanInstalled : ∃ s, run (announcedStep demoMiner) startedAnnounced
    (firstJob ++ [.refresh 0 0 0] ++ cleanJob) = some s ∧
      s.threads 0 = { refreshedThread with restart := true } ∧ s.announced 0 = 2 := ⟨_, rfl, rfl, rfl⟩

theorem started_startedAnnounced : Started startedAnnounced.toMinerState := ⟨fun _ => rfl, rfl, rfl⟩

theorem run_noLostRestart_clear : ∃ t, run (announcedStep demoMiner) startedAnnounced
      (firstJob ++ [.refresh 0 0 0] ++ [.clear 0]) = some t ∧
    Throughout (announcedStep demoMiner) (NoLostRestart demoMiner) startedAnnounced
      (firstJob ++ [.refresh 0 0 0] ++ [.clear 0]) := by
  obtain ⟨s, hcopied, hthread, hserial⟩ := run_firstCopied
  obtain ⟨t, hclear⟩ := announcedStep_clear (s := s) (i := 0) (by rw [hthread]; rfl)
    (by rw [hthread]; exact noData_refreshedThread)
  have hrun := run_append.mpr ⟨s, hcopied, run_singleton hclear⟩
  refine ⟨t, hrun, (run_noLostRestart_iff started_startedAnnounced hrun).mpr ?_⟩
  refine (along_append hcopied).mpr ⟨?_, (along_cons hclear).mpr ⟨fun _ => ?_, trivial⟩⟩
  · exact ⟨trivial, fun _ _ => ⟨trivial, fun _ _ => ⟨trivial, fun _ _ => ⟨trivial, fun _ _ =>
      ⟨trivial, fun _ _ => trivial⟩⟩⟩⟩⟩
  · rw [hserial]
    exact Nat.zero_le _

/-- A clean job installed after the copy and before the clear. -/
theorem restart_lost : ∃ es t, run (announcedStep demoMiner) startedAnnounced es = some t ∧
    ¬ Throughout (announcedStep demoMiner) (NoLostRestart demoMiner) startedAnnounced es := by
  obtain ⟨s, hinstalled, hthread, hserial⟩ := run_cleanInstalled
  obtain ⟨t, hclear⟩ := announcedStep_clear (s := s) (i := 0) (by rw [hthread]; rfl)
    (by rw [hthread]; exact noData_refreshedThread)
  have hrun := run_append.mpr ⟨s, hinstalled, run_singleton hclear⟩
  refine ⟨_, t, hrun, fun hthroughout => ?_⟩
  have hstep := (noLostRestart_along started_startedAnnounced hrun).mp hthroughout
  have hlate : s.announced 0 ≤ (s.threads 0).serial :=
    ((along_append hinstalled).mp hstep).2.1 Nat.one_pos
  have hcopied : (s.threads 0).serial = 1 := by rw [hthread]; rfl
  omega

end VerusMiner
