import VerusMiner.WorkioMoves

/-! Whether a share whose job is no longer the shared one is found out and
counted, and never sent. -/

namespace VerusMiner

/-- A share taken off the queue with another job than the shared one was
discarded and counted, and no line is sent for one. -/
def NoStaleSent (s : WorkioState) : Prop :=
  (∀ d ∈ s.decisions, d.command.agrees = false → d.choice = .stale ∧ d.counted = true) ∧
    ∀ r ∈ s.sent, r.command.agrees = true

/-- A share with another job is not for this algorithm's branch, and the test
by job id is what finds it out. -/
def TestedByJob (s : WorkioState) : WorkioEvent → Prop
  | .take _ _ => ∀ work queue, s.queue = work :: queue → jobsDiffer work s.gWork = true →
      ((s.pools work.pooln.toNat).isStratum && s.stratum.isEquihash) = false ∧
        s.haveStratum = true ∧ behind work s.gWork = false ∧ work.jobId.drop 8 ≠ []
  | _ => True

section Stale

variable {cfg : WorkioConfig} {s s' : WorkioState} {e : WorkioEvent}

theorem submitChoice_stale_iff (hcfg : cfg.optSubmitStale = false ∧ cfg.submitOld = false)
    {pool : PoolInfos} {isEquihash haveStratum solved sent : Bool} {gWork work : Work}
    (hdiffer : jobsDiffer work gWork = true) :
    ((submitChoice cfg pool isEquihash haveStratum gWork work solved sent).1 = .stale ∧
      (submitChoice cfg pool isEquihash haveStratum gWork work solved sent).2 = true) ↔
    (pool.isStratum && isEquihash) = false ∧ haveStratum = true ∧ behind work gWork = false ∧
      work.jobId.drop 8 ≠ [] := by
  have hcounted : outdated cfg haveStratum gWork work = true ↔
      haveStratum = true ∧ behind work gWork = false ∧ work.jobId.drop 8 ≠ [] := by
    simp [outdated, hcfg.1, hdiffer, and_assoc]
  rw [← hcounted, submitChoice]
  cases pool.isStratum && isEquihash with
  | true => simp
  | false =>
    cases h : outdated cfg haveStratum gWork work with
    | true =>
      have hstratum := (hcounted.mp h).1
      simp [hstratum, hcfg.2]
    | false => simp

def WorkioEvent.judges : WorkioEvent → Bool
  | .take _ _ | .again _ _ => true
  | _ => false

/-- A decision is only taken on a share just off the queue, or on one that is
tried again; else the share at hand is the one before. -/
theorem workioStep_judged (h : workioStep cfg s e = some s') :
    (e.judges = false ∧ s'.decisions = s.decisions ∧
      ∀ c, s'.pc.command = some c → s.pc.command = some c) ∨
    (∃ work queue solved sent, e = .take solved sent ∧ s.queue = work :: queue ∧
      s' = WorkioState.judge cfg (s.commandOf work) 0 solved sent { s with queue := queue }) ∨
    ∃ c failures solved sent, e = .again solved sent ∧ s.pc = .waiting c failures ∧
      s' = s.judge cfg c failures solved sent := by
  cases workioStep_move h with
  | submitWork | install | startStratum | connect | subscribed | setTarget =>
    exact .inl ⟨rfl, rfl, fun _ hc => hc⟩
  | poolSwitch =>
    obtain ⟨_, _, hdecisions, hpc⟩ := poolSwitch_ledgers cfg _ s
    exact .inl ⟨rfl, hdecisions, fun c hc => hpc ▸ hc⟩
  | taken solved sent hqueue => exact .inr (.inl ⟨_, _, solved, sent, rfl, hqueue, rfl⟩)
  | again solved sent hpc => exact .inr (.inr ⟨_, _, solved, sent, rfl, hpc, rfl⟩)
  | composed hpc | plainFailed hpc | unanswered hpc | retried hpc =>
    exact .inl ⟨rfl, rfl, fun c hc => by rw [hpc]; exact hc⟩
  | unsent | sent | plainSent | answered | poolChanged | gaveUp => exact .inl ⟨rfl, rfl, nofun⟩
  | failover => exact .inl ⟨rfl, (poolSwitch_ledgers cfg _ s).2.2.1, nofun⟩

/-- A share that is at hand or was sent, and had another job, was let through. -/
def LetThrough (s : WorkioState) : Prop :=
  ∀ c, (s.pc.command = some c ∨ ∃ r ∈ s.sent, r.command = c) → c.agrees = false →
    ∃ d ∈ s.decisions, d.command.agrees = false ∧ d.choice ≠ .stale

theorem LetThrough.agrees (h : LetThrough s) (hs : NoStaleSent s) {c : Command}
    (hc : s.pc.command = some c) : c.agrees = true := by
  cases hagrees : c.agrees with
  | true => rfl
  | false =>
    obtain ⟨d, hd, hdagrees, hchoice⟩ := h c (.inl hc) hagrees
    exact absurd (hs.1 d hd hdagrees).1 hchoice

theorem sent_of_hand (h : workioStep cfg s e = some s') {c : Command}
    (hc : ∃ r ∈ s'.sent, r.command = c) :
    s.pc.command = some c ∨ ∃ r ∈ s.sent, r.command = c := by
  obtain ⟨r, hr, rfl⟩ := hc
  rcases workioStep_sent h with ⟨_, hsent⟩ | ⟨_, _, new, _, _, _, hsent, _, hpc⟩
  · exact .inr ⟨r, hsent ▸ hr, rfl⟩
  · rw [hsent] at hr
    rcases List.mem_append.mp hr with hold | hnew
    · exact .inr ⟨r, hold, rfl⟩
    · rw [List.mem_singleton.mp hnew]
      rcases hpc with ⟨x, hpc, _⟩ | ⟨failures, hpc, _⟩ <;> exact .inl (by rw [hpc]; rfl)

theorem judge_letThrough {c : Command} {failures : Nat} {solved sent : Bool}
    (hs : ∀ c, (∃ r ∈ s.sent, r.command = c) → c.agrees = false →
      ∃ d ∈ s.decisions, d.command.agrees = false ∧ d.choice ≠ .stale) :
    LetThrough (s.judge cfg c failures solved sent) := by
  obtain ⟨hdecisions, hsent, hcase⟩ := judge_cases cfg c failures solved sent s
  rintro c' (hc' | hr) hagrees
  · rcases hcase with ⟨_, _, hpc, _⟩ | ⟨hstale, _, hpc, _⟩
    · rw [hpc] at hc'
      cases hc'
    · rw [hpc] at hc'
      cases hc'
      exact ⟨_, by rw [hdecisions]; exact List.mem_append_right _ (.head _), hagrees, hstale⟩
  · rw [hsent] at hr
    obtain ⟨d, hd, hdone⟩ := hs c' hr hagrees
    exact ⟨d, by rw [hdecisions]; exact List.mem_append_left _ hd, hdone⟩

theorem workioStep_letThrough (hs : LetThrough s) (h : workioStep cfg s e = some s') :
    LetThrough s' := by
  rcases workioStep_judged h with ⟨_, hdecisions, hkept⟩ | ⟨work, queue, solved, sent, _, _, rfl⟩ |
    ⟨c, failures, solved, sent, _, _, rfl⟩
  · rintro c (hc | hr) hagrees
    · rw [hdecisions]
      exact hs c (.inl (hkept c hc)) hagrees
    · rw [hdecisions]
      exact hs c (sent_of_hand h hr) hagrees
  · exact judge_letThrough fun c hr => hs c (.inr hr)
  · exact judge_letThrough fun c hr => hs c (.inr hr)

theorem workioStep_noStaleSent (hcfg : cfg.optSubmitStale = false ∧ cfg.submitOld = false)
    (hlet : LetThrough s) (hs : NoStaleSent s) (h : workioStep cfg s e = some s') :
    NoStaleSent s' ↔ TestedByJob s e := by
  have hsent : ∀ r ∈ s'.sent, r.command.agrees = true := by
    intro r hr
    rcases sent_of_hand h ⟨r, hr, rfl⟩ with hc | ⟨r', hr', hsame⟩
    · exact hlet.agrees hs hc
    · rw [← hsame]
      exact hs.2 r' hr'
  have hdrop : NoStaleSent s' ↔
      ∀ d ∈ s'.decisions, d.command.agrees = false → d.choice = .stale ∧ d.counted = true :=
    and_iff_left hsent
  rw [hdrop]
  rcases workioStep_judged h with ⟨hjudges, hdecisions, _⟩ | ⟨work, queue, solved, sent, rfl, hqueue, rfl⟩ |
    ⟨c, failures, solved, sent, rfl, hpc, rfl⟩
  · refine iff_of_true (hdecisions ▸ hs.1) ?_
    cases e with
    | take | again => cases hjudges
    | _ => trivial
  · rw [(judge_cases ..).1]
    simp only [List.forall_mem_append, List.forall_mem_singleton, WorkioState.commandOf, Bool.not_eq_false']
    rw [and_iff_right hs.1]
    constructor
    · intro hnew work' queue' hqueue' hdiffer
      cases hqueue.symm.trans hqueue'
      exact (submitChoice_stale_iff hcfg hdiffer).mp (hnew hdiffer)
    · exact fun hok hdiffer =>
        (submitChoice_stale_iff hcfg hdiffer).mpr (hok work queue hqueue hdiffer)
  · -- a share that is tried again was let through before, so it has the shared job
    refine iff_of_true ?_ trivial
    have hagrees := hlet.agrees hs (c := c) (by rw [hpc]; rfl)
    rw [(judge_cases ..).1]
    simp only [List.forall_mem_append, List.forall_mem_singleton]
    refine ⟨hs.1, fun hfalse => ?_⟩
    rw [hagrees] at hfalse
    cases hfalse

/-- With neither option set, a share whose job is not the shared one when it is
taken off the queue is always discarded and counted, and never sent, exactly
when each such share is found out by the test by job id. -/
theorem run_noStaleSent_iff (hcfg : cfg.optSubmitStale = false ∧ cfg.submitOld = false)
    {t : WorkioState} {es : List WorkioEvent} (hs : s.decisions = [] ∧ s.sent = [])
    (hidle : s.pc = .idle) (hrun : run (workioStep cfg) s es = some t) :
    Throughout (workioStep cfg) NoStaleSent s es ↔ Along (workioStep cfg) TestedByJob s es := by
  refine throughout_iff_along (I := LetThrough) (fun hs h => workioStep_letThrough hs h)
    (fun hi hs h => workioStep_noStaleSent hcfg hi hs h) hrun ?_ ?_
  · rintro c (hc | ⟨r, hr, _⟩)
    · rw [hidle] at hc
      cases hc
    · rw [hs.2] at hr
      cases hr
  · rw [NoStaleSent, hs.1, hs.2]
    exact ⟨nofun, nofun⟩

/-- What a decision records as counted is the counter of the pool of the share. -/
theorem judge_stalesCount (cfg : WorkioConfig) (c : Command) (failures : Nat) (solved sent : Bool)
    (s : WorkioState) :
    ∃ d, (s.judge cfg c failures solved sent).decisions = s.decisions ++ [d] ∧ d.command = c ∧
      ((s.judge cfg c failures solved sent).pools c.work.pooln.toNat).stalesCount =
        (s.pools c.work.pooln.toNat).stalesCount + if d.counted then 1 else 0 := by
  refine ⟨_, (judge_cases ..).1, rfl, ?_⟩
  have hcounted (b : Bool) (n : Nat) : ((if b then s.addStale n else s).pools n).stalesCount =
      (s.pools n).stalesCount + if b then 1 else 0 := by
    cases b <;> simp [WorkioState.addStale]
  simp only [WorkioState.judge]
  split <;> simp only [WorkioState.complete, hcounted]

end Stale

/-- Another job is installed before the share is taken off the queue. -/
theorem stale_share_sent : ∃ es t, run (workioStep demoWorkio) startedWorkio es = some t ∧
    ¬ Throughout (workioStep demoWorkio) NoStaleSent startedWorkio es := by
  obtain ⟨s, hcomposed, hpc⟩ : ∃ s,
      run (workioStep demoWorkio) startedWorkio (.install (jobWork '2') :: composedShare) = some s ∧
      s.pc = .composed (shareCommand false) ['u'] shareLine 4 4 := ⟨_, rfl, rfl⟩
  obtain ⟨part, hline⟩ := sendLine_shareLine
  obtain ⟨t, hsend, _, hlast⟩ := workioStep_send demoWorkio hpc hline
  have hrun := run_append.mpr ⟨s, hcomposed, run_singleton hsend⟩
  refine ⟨_, t, hrun, fun h => ?_⟩
  cases (throughout_last hrun h).2 _ (by rw [hlast]; exact List.mem_append_right _ (.head _))

theorem run_noStaleSent_current :
    ∃ t, run (workioStep demoWorkio) startedWorkio composedShare = some t ∧
      Throughout (workioStep demoWorkio) NoStaleSent startedWorkio composedShare := by
  obtain ⟨s, hcomposed, _⟩ := run_composedShare
  refine ⟨s, hcomposed, (run_noStaleSent_iff ⟨rfl, rfl⟩ ⟨rfl, rfl⟩ rfl hcomposed).mpr ?_⟩
  refine ⟨trivial, fun s' hs' => ⟨fun work queue hqueue hdiffer => ?_, fun _ _ => ⟨trivial, fun _ _ => trivial⟩⟩⟩
  cases hs'
  cases hqueue
  cases hdiffer

end VerusMiner
