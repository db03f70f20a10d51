import VerusMiner.MinerLoop

/-! What of the shared work a refresh takes over. Only a prefix of the header
is compared, so what a thread has depends on the job it copied last and on
whether it has since recorded a share that left its header cleared. -/

namespace VerusMiner

structure Adopted (gWork work : Work) : Prop where
  jobId : work.jobId = gWork.jobId
  header : ∀ i < 120, work.data i = gWork.data i
  solution : ∀ i < 1344, work.solution i = gWork.solution i
  target : ∀ i < 32, work.target i = gWork.target i

/-- The job a thread copied last, and whether its header was cleared since. -/
structure Held where
  job : Work
  cleared : Bool

def Held.header (h : Held) : Mem := if h.cleared then clearNonCanonical h.job.data else h.job.data

def Held.read (h : Held) (gWork : Work) : Held :=
  if memcmp h.header gWork.data wcmplen then { job := gWork, cleared := false } else h

/-- Recording a share clears the header of a job that is hashed cleared. -/
def Held.scanned (h : Held) (c : Scan) : Held :=
  if c.result.recorded ≠ [] ∧ clearsNonCanonical h.job.solution = true then { h with cleared := true }
  else h

def Held.after (h : Held) (r : PassRecord) : Held :=
  r.scan.elim (h.read r.gWork) (h.read r.gWork).scanned

def held (work : Work) (passes : List PassRecord) : Held :=
  passes.foldl Held.after { job := work, cleared := false }

/-- The shared work shows its change in the prefix, or there is none. -/
def Held.Takes (h : Held) (gWork : Work) : Prop :=
  (∃ i < wcmplen, gWork.data i ≠ h.header i) ∨
  gWork.jobId = h.job.jobId ∧ (∀ i < 120, gWork.data i = h.header i) ∧
    ∀ i < 1344, gWork.solution i = h.job.solution i

structure HeldBy (h : Held) (work : Work) : Prop where
  jobId : work.jobId = h.job.jobId
  header : ∀ i < 120, work.data i = h.header i
  solution : ∀ i < 1344, work.solution i = h.job.solution i

theorem memcmp_congr {a a' b : Mem} {n : Nat} (h : ∀ i < n, a i = a' i) :
    memcmp a b n = memcmp a' b n := by
  simp only [memcmp]
  refine Bool.eq_iff_iff.mpr ?_
  simp only [List.any_eq_true, List.mem_range, bne_iff_ne]
  exact exists_congr fun i => and_congr_right fun hi => by rw [h i hi]

section Refresh

variable (cfg : LoopConfig)

theorem refreshTarget_target (hb : cfg.optBenchmark = false) (gWork work : Work) :
    ∀ i < 32, (refreshTarget cfg gWork work).target i = gWork.target i := by
  intro i hi
  simp only [refreshTarget, hb, Bool.not_false, Bool.true_and]
  split_ifs with h
  · exact memcpy_start hi
  · rw [Bool.or_eq_true, not_or, Bool.not_eq_true, Bool.not_eq_true] at h
    exact memcmp_eq_false.mp h.2 i hi

theorem refresh_of_differs {gWork work : Work} (h : memcmp work.data gWork.data wcmplen = true)
    (rand1 rand2 : Word) :
    let w := refresh cfg gWork work rand1 rand2
    w.jobId = gWork.jobId ∧ (∀ i < 120, w.data i = gWork.data i) ∧
    w.solution = gWork.solution ∧ w.target = gWork.target := by
  have hdata := (refreshTarget_kept cfg gWork work).2.1
  simp only [refresh, refreshHeader, hdata, h, if_true, true_and, and_true]
  intro i hi
  simp only [store32, verusNonceOffset]
  rw [memcpy_off (.inl (by omega)), memcpy_off (.inl (by omega))]

theorem refresh_of_same {gWork work : Work} (h : memcmp work.data gWork.data wcmplen = false)
    (rand1 rand2 : Word) :
    let w := refresh cfg gWork work rand1 rand2
    w.jobId = work.jobId ∧ (∀ i < 120, w.data i = work.data i) ∧
    w.solution = work.solution ∧ w.target = (refreshTarget cfg gWork work).target := by
  obtain ⟨hjob, hdata, hsolution⟩ := refreshTarget_kept cfg gWork work
  simp only [refresh, refreshHeader, hdata, h, hjob, hsolution, Bool.false_eq_true, if_false,
    true_and, and_true]
  intro i hi
  simp only [store32, verusNonceOffset]
  rw [memcpy_off (.inl (by omega)), memcpy_off (.inl (by omega))]

theorem refresh_adopted_iff (hb : cfg.optBenchmark = false) {h : Held} {gWork work : Work}
    (hw : HeldBy h work) (rand1 rand2 : Word) :
    Adopted gWork (refresh cfg gWork work rand1 rand2) ↔ h.Takes gWork := by
  have hcompare : memcmp work.data gWork.data wcmplen = memcmp h.header gWork.data wcmplen :=
    memcmp_congr fun i hi => hw.header i (by simp only [wcmplen] at hi; omega)
  cases hcmp : memcmp h.header gWork.data wcmplen with
  | true =>
    obtain ⟨hjob, hheader, hsolution, htarget⟩ :=
      refresh_of_differs cfg (hcompare.trans hcmp) rand1 rand2
    have hdiffers : ∃ i < wcmplen, gWork.data i ≠ h.header i := by
      obtain ⟨i, hi, hne⟩ := memcmp_eq_true.mp hcmp
      exact ⟨i, hi, hne.symm⟩
    refine iff_of_true ⟨hjob, hheader, ?_, ?_⟩ (.inl hdiffers)
    · exact fun i _ => congrFun hsolution i
    · exact fun i _ => congrFun htarget i
  | false =>
    obtain ⟨hjob, hheader, hsolution, htarget⟩ :=
      refresh_of_same cfg (hcompare.trans hcmp) rand1 rand2
    have hsame := memcmp_eq_false.mp hcmp
    constructor
    · intro ha
      refine .inr ⟨?_, fun i hi => ?_, fun i hi => ?_⟩
      · rw [← ha.jobId, hjob, hw.jobId]
      · rw [← ha.header i hi, hheader i hi, hw.header i hi]
      · rw [← ha.solution i hi, hsolution, hw.solution i hi]
    · rintro (⟨i, hi, hne⟩ | ⟨hid, hbytes, hsol⟩)
      · exact absurd (hsame i hi).symm hne
      · refine ⟨?_, fun i hi => ?_, fun i hi => ?_, fun i hi => ?_⟩
        · rw [hjob, hw.jobId, hid]
        · rw [hheader i hi, hw.header i hi, hbytes i hi]
        · rw [hsolution, hw.solution i hi, hsol i hi]
        · rw [htarget, refreshTarget_target cfg hb gWork work i hi]

theorem heldBy_refresh {h : Held} (gWork : Work) {work : Work} (hw : HeldBy h work) (rand1 rand2 : Word) :
    HeldBy (h.read gWork) (refresh cfg gWork work rand1 rand2) := by
  have hcompare : memcmp work.data gWork.data wcmplen = memcmp h.header gWork.data wcmplen :=
    memcmp_congr fun i hi => hw.header i (by simp only [wcmplen] at hi; omega)
  rw [Held.read, ← hcompare]
  split_ifs with hcmp
  · obtain ⟨hjob, hheader, hsolution, _⟩ := refresh_of_differs cfg hcmp rand1 rand2
    exact ⟨hjob, hheader, fun i _ => congrFun hsolution i⟩
  · obtain ⟨hjob, hheader, hsolution, _⟩ :=
      refresh_of_same cfg (Bool.eq_false_iff.mpr hcmp) rand1 rand2
    refine ⟨hjob.trans hw.jobId, fun i hi => ?_, fun i hi => ?_⟩
    · rw [hheader i hi, hw.header i hi]
    · rw [hsolution, hw.solution i hi]

theorem heldBy_startScan {h : Held} {work : Work} (hw : HeldBy h work) : HeldBy h (startScan work) :=
  ⟨hw.jobId, hw.header, hw.solution⟩

theorem heldBy_scan {h : Held} {work : Work} (hw : HeldBy h work) (p : Pass) :
    HeldBy (h.scanned (scan cfg p work)) (scan cfg p work).result.work := by
  obtain ⟨hjob, hsolution, _, hdata⟩ := scan_kept cfg p work
  have hclears : clearsNonCanonical work.solution = clearsNonCanonical h.job.solution :=
    clearsNonCanonical_congr (hw.solution 0 (by omega)) (hw.solution 5 (by omega))
  have hkept {i : Nat} (hi : i < 120) (hc : ¬ Cleared i) : fullData work i = h.header i := by
    rw [fullData_kept work hc, serializedWork_header work (by omega), hw.header i hi]
  generalize scan cfg p work = c at hjob hsolution hdata ⊢
  rw [Held.scanned]
  split_ifs with hfound
  · refine ⟨hjob.trans hw.jobId, fun i hi => ?_, fun i hi => by rw [hsolution, hw.solution i hi]⟩
    rw [hdata i hi, if_neg hfound.1]
    simp only [Held.header, if_true]
    by_cases hc : Cleared i
    · rw [fullData_of_clears (hclears.trans hfound.2) hc, clearNonCanonical_cleared _ hc]
    · rw [hkept hi hc, clearNonCanonical_kept _ hc, Held.header]
      split_ifs
      · exact clearNonCanonical_kept _ hc
      · rfl
  · refine ⟨hjob.trans hw.jobId, fun i hi => ?_, fun i hi => by rw [hsolution, hw.solution i hi]⟩
    rw [hdata i hi]
    split_ifs with hrec
    · exact hw.header i hi
    · have hnot : clearsNonCanonical work.solution = false := by
        rw [hclears]
        exact Bool.eq_false_iff.mpr fun h => hfound ⟨hrec, h⟩
      rw [fullData_of_not_clears hnot, serializedWork_header work (by omega), hw.header i hi]

end Refresh

theorem heldBy_afterScan (cfg : LoopConfig) {h : Held} {r : ScanResult} (hw : HeldBy h r.work)
    (p : Pass) : HeldBy h (afterScan cfg p r).1 := by
  obtain ⟨hjob, hsolution, hdata⟩ := afterScan_kept cfg p r
  refine ⟨hjob.trans hw.jobId, fun i hi => ?_, fun i hi => ?_⟩
  · rw [hdata i hi, hw.header i hi]
  · rw [hsolution, hw.solution i hi]

section Runs

variable {cfg : LoopConfig} {work₀ : Work}

theorem heldBy_passStep {s s' : LoopState} {p : Pass} (hs : HeldBy (held work₀ s.passes) s.work)
    (h : passStep cfg s p = some s') : HeldBy (held work₀ s'.passes) s'.work := by
  have hread := heldBy_refresh cfg p.gWork hs p.rand1 p.rand2
  rcases passStep_cases h with ⟨hwork, hpasses⟩ | ⟨hwork, hpasses⟩
  · simp only [hwork, hpasses, held, List.foldl_append, List.foldl_cons, List.foldl_nil]
    exact hread
  · simp only [hwork, hpasses, held, List.foldl_append, List.foldl_cons, List.foldl_nil]
    exact heldBy_afterScan cfg (heldBy_scan cfg (heldBy_startScan hread) p) p

theorem passes_adopted_iff (hb : cfg.optBenchmark = false) {s s' : LoopState} {p : Pass}
    (hs : HeldBy (held work₀ s.passes) s.work) (h : passStep cfg s p = some s') :
    (∀ r ∈ s'.passes, Adopted r.gWork r.refreshed) ↔
      (∀ r ∈ s.passes, Adopted r.gWork r.refreshed) ∧ (held work₀ s.passes).Takes p.gWork := by
  rw [← refresh_adopted_iff cfg hb hs p.rand1 p.rand2]
  rcases passStep_cases h with ⟨_, hpasses⟩ | ⟨_, hpasses⟩ <;>
    simp [hpasses, or_imp, forall_and]

/-- In a run every refresh takes over the shared work it read exactly when
each of these shows its change in the prefix or is the job the thread has. -/
theorem run_adopted_iff (hb : cfg.optBenchmark = false) {t : LoopState} {ps : List Pass}
    (hrun : run (passStep cfg) (.start work₀) ps = some t) :
    (∀ r ∈ t.passes, Adopted r.gWork r.refreshed) ↔
      Along (passStep cfg) (fun s p => (held work₀ s.passes).Takes p.gWork) (.start work₀) ps := by
  have h := run_iff_along (I := fun s => HeldBy (held work₀ s.passes) s.work)
    (P := fun s => ∀ r ∈ s.passes, Adopted r.gWork r.refreshed)
    (fun hs h => heldBy_passStep hs h) (fun hs h => passes_adopted_iff hb hs h) hrun
    ⟨rfl, fun _ _ => rfl, fun _ _ => rfl⟩
  rw [h]
  simp [LoopState.start]

end Runs

def notifiedCtx (sctx : StratumCtx) (jobId : CString) (digit : Char) : StratumCtx :=
  notified sctx (zeroNotify jobId '1' (List.replicate 2688 digit))

def firstCtx : StratumCtx := notifiedCtx easyCtx ['1'] '0'

def secondCtx : StratumCtx := notifiedCtx firstCtx ['2'] '1'

def startedWork (gWork : Work) : Work := refresh (demoThread 0) gWork zeroWork 0 0

theorem run_idlePasses (gWork gWork' : Work) :
    ∃ t, run (passStep (demoThread 0)) (.start zeroWork) [demoPass gWork 0 true, demoPass gWork' 0 true] = some t ∧
      t.passes = [⟨gWork, startedWork gWork, none⟩,
        ⟨gWork', refresh (demoThread 0) gWork' (startedWork gWork) 0 0, none⟩] :=
  ⟨_, run_cons.mpr ⟨_, passStep_idle rfl rfl, run_cons.mpr ⟨_, passStep_idle rfl rfl, rfl⟩⟩, rfl⟩

theorem read_firstCtx : Held.read { job := zeroWork, cleared := false } (generated firstCtx) =
    { job := generated firstCtx, cleared := false } := if_pos (by decide +kernel)

theorem startedWork_heldBy :
    HeldBy { job := generated firstCtx, cleared := false } (startedWork (generated firstCtx)) :=
  read_firstCtx ▸
    heldBy_refresh (demoThread 0) (generated firstCtx) ⟨rfl, fun _ _ => rfl, fun _ _ => rfl⟩ 0 0

/-- A notify with another solution and job id leaves a thread with the job it had. -/
theorem adoption_misses :
    ∃ t, run (passStep (demoThread 0)) (.start zeroWork)
        [demoPass (generated firstCtx) 0 true, demoPass (generated secondCtx) 0 true] = some t ∧
      ¬ ∀ r ∈ t.passes, Adopted r.gWork r.refreshed := by
  obtain ⟨t, hrun, hpasses⟩ := run_idlePasses (generated firstCtx) (generated secondCtx)
  refine ⟨t, hrun, fun h => ?_⟩
  rw [hpasses] at h
  have hadopted := h _ (.tail _ (.head _))
  rcases (refresh_adopted_iff (demoThread 0) rfl startedWork_heldBy 0 0).mp hadopted with
    ⟨i, hi, hne⟩ | ⟨hid, _⟩
  · have hsame : ∀ i < wcmplen, (generated secondCtx).data i = (generated firstCtx).data i := by
      decide +kernel
    exact hne (hsame i hi)
  · have hids : (generated secondCtx).jobId ≠ (generated firstCtx).jobId := by decide +kernel
    exact hids hid

theorem run_adopted_again :
    ∃ t, run (passStep (demoThread 0)) (.start zeroWork)
        [demoPass (generated firstCtx) 0 true, demoPass (generated firstCtx) 0 true] = some t ∧
      ∀ r ∈ t.passes, Adopted r.gWork r.refreshed := by
  obtain ⟨t, hrun, _⟩ := run_idlePasses (generated firstCtx) (generated firstCtx)
  refine ⟨t, hrun, (run_adopted_iff rfl hrun).mpr ⟨.inl ⟨0, by decide, by decide +kernel⟩, ?_⟩⟩
  intro s hs
  rw [passStep_idle rfl rfl] at hs
  cases hs
  have htakes : Held.Takes { job := generated firstCtx, cleared := false } (generated firstCtx) :=
    .inr ⟨rfl, fun _ _ => rfl, fun _ _ => rfl⟩
  exact ⟨(congrArg (Held.Takes · _) read_firstCtx).mpr htakes, fun _ _ => trivial⟩

end VerusMiner
