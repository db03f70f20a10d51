import Mathlib.Logic.Function.Basic
import VerusMiner.Lib.Runs
import VerusMiner.Notify

/-! The stratum thread taking a notify while other threads generate work, at
the granularity of `stratum_work_lock`: which works mix two messages. -/

namespace VerusMiner

/-- `pending` is a notify that has decoded its solution and not yet taken the
lock, `settled` the solution of the last one that has; `generating` are works
whose generation has left the lock and not yet read the target. -/
structure RaceState where
  sctx : StratumCtx
  messages : List Json
  pending : Option NotifyParams
  settled : Mem
  generating : Nat → Option Work
  produced : List Work

inductive RaceEvent where
  | decode (params : Json)
  | commit (now : Word) (ntimeStack : Mem)
  | setTarget (stack : SetTargetStack) (params : Json)
  | generate (i : Nat) (buf : Work)
  | finish (i : Nat)

/-- The stratum thread takes its messages one after the other. -/
def raceStep (optDifficulty : Float) (s : RaceState) : RaceEvent → Option RaceState
  | .decode params =>
    match s.pending, notifyParams params with
    | none, none => some s
    | none, some p =>
      (notifySolution p s.sctx).map fun sctx =>
        { s with sctx := sctx, messages := s.messages ++ [params], pending := some p }
    | some _, _ => none
  | .commit now ntimeStack =>
    s.pending.map fun p =>
      { s with
        sctx := notifyLocked p (notifySrvtime now ntimeStack p s.sctx)
        pending := none
        settled := s.sctx.job.solution }
  | .setTarget stack params =>
    match s.pending with
    | none => some { s with sctx := (verusStratumSetTarget stack s.sctx params).2 }
    | some _ => none
  | .generate i buf =>
    s.sctx.job.jobId.map fun jobId =>
      { s with generating := Function.update s.generating i (some (genWorkLocked s.sctx jobId buf)) }
  | .finish i =>
    (s.generating i).map fun work =>
      { s with
        generating := Function.update s.generating i none
        produced := s.produced ++ [genWorkTarget optDifficulty s.sctx work] }

structure TakenFrom (work : Work) (jobId : CString) (b : JobBytes) : Prop extends WorkOf work b where
  jobId : work.jobId =
    (sprintfX 7 (be32dec (ofBytes b.ntime) 0 &&& 0xfffffff) ++ ' ' :: jobId).take 127

def FromOneMessage (messages : List Json) (work : Work) : Prop :=
  ∃ params ∈ messages, ∃ jobId b, Encodes params jobId b ∧ TakenFrom work jobId b

/-- No work is generated while a notify has decoded another solution, and the
notifies that pass the checks are well formed. -/
def RaceFree (s : RaceState) : RaceEvent → Prop
  | .decode params => notifyParams params = none ∨ ∃ jobId b, Encodes params jobId b
  | .generate _ _ => ∀ p, s.pending = some p → ∀ i < 1344, s.sctx.job.solution i = s.settled i
  | _ => True

structure Consistent (s : RaceState) : Prop where
  job : s.sctx.job.jobId = none ∨ ∃ params ∈ s.messages, ∃ jobId b, Encodes params jobId b ∧
    HeaderHolds s.sctx.job jobId b ∧ Holds s.settled 0 b.solution
  pending : ∀ p, s.pending = some p → ∃ params ∈ s.messages, ∃ b, Encodes params p.jobId b ∧
    ParamsEncode p b ∧ Holds s.sctx.job.solution 0 b.solution
  settled : s.pending = none → s.sctx.job.solution = s.settled
  generating : ∀ i work, s.generating i = some work → FromOneMessage s.messages work
  produced : ∀ work ∈ s.produced, FromOneMessage s.messages work

theorem FromOneMessage.append {messages : List Json} {work : Work} (h : FromOneMessage messages work)
    (more : List Json) : FromOneMessage (messages ++ more) work := by
  obtain ⟨params, hmem, h⟩ := h
  exact ⟨params, List.mem_append_left _ hmem, h⟩

theorem genWorkLocked_takenFrom {sctx : StratumCtx} {params : Json} {jobId : CString} {b : JobBytes}
    (henc : Encodes params jobId b) (h : JobHolds sctx.job jobId b) (buf : Work) :
    TakenFrom (genWorkLocked sctx jobId buf) jobId b := by
  have hsolution : ∀ i < 1344, (genWorkLocked sctx jobId buf).solution i = sctx.job.solution i :=
    fun _ hi => memcpy_start hi
  have hntime : be32dec sctx.job.ntime 0 = be32dec (ofBytes b.ntime) 0 := by
    have hbyte {i : Nat} (hi : i < 4) : sctx.job.ntime (0 + i) = ofBytes b.ntime i :=
      h.ntime i (by rw [henc.sized.ntime]; exact hi)
    simp only [Nat.zero_add] at hbyte
    simp only [be32dec, hbyte (show 0 < 4 by omega), hbyte (show 0 + 1 < 4 by omega),
      hbyte (show 0 + 2 < 4 by omega), hbyte (show 0 + 3 < 4 by omega)]
  refine { toWorkOf := genWorkData_workOf henc.sized h rfl hsolution, jobId := ?_ }
  rw [← hntime]
  rfl

theorem TakenFrom.target {work : Work} {jobId : CString} {b : JobBytes} (h : TakenFrom work jobId b)
    (optDifficulty : Float) (sctx : StratumCtx) :
    TakenFrom (genWorkTarget optDifficulty sctx work) jobId b :=
  { version := h.version, prevhash := h.prevhash, merkle := h.merkle, reserved := h.reserved
    ntime := h.ntime, nbits := h.nbits, solution := h.solution, jobId := h.jobId }

theorem verusStratumSetTarget_job (stack : SetTargetStack) (sctx : StratumCtx) (params : Json) :
    ∃ extra, (verusStratumSetTarget stack sctx params).2.job = { sctx.job with extra := extra } := by
  simp only [verusStratumSetTarget]
  split
  · exact ⟨sctx.job.extra, rfl⟩
  · exact ⟨sctx.job.extra, rfl⟩
  · exact ⟨_, rfl⟩

theorem Consistent.decoded {s : RaceState} (h : Consistent s) {params : Json} {jobId : CString} {b : JobBytes}
    (henc : Encodes params jobId b) {p : NotifyParams} {sctx : StratumCtx} (hp : notifyParams params = some p)
    (hsolution : notifySolution p s.sctx = some sctx) :
    Consistent { s with sctx := sctx, messages := s.messages ++ [params], pending := some p } := by
  obtain ⟨p', hp', rfl, hpar⟩ := henc.notifyParams
  obtain rfl : p = p' := Option.some.inj (hp.symm.trans hp')
  obtain ⟨sctx', hsolution', hholds⟩ := notifySolution_holds hpar s.sctx
  obtain rfl : sctx = sctx' := Option.some.inj (hsolution.symm.trans hsolution')
  obtain ⟨text, _, rfl⟩ := Option.map_eq_some_iff.mp hsolution
  constructor
  · refine h.job.imp_right fun ⟨params', hmem, jobId', b', henc', hheader, hsettled⟩ => ?_
    refine ⟨params', List.mem_append_left _ hmem, jobId', b', henc', ?_, hsettled⟩
    exact ⟨hheader.jobId, hheader.version, hheader.prevhash, hheader.merkle, hheader.reserved,
      hheader.ntime, hheader.nbits⟩
  · intro q hq
    cases hq
    exact ⟨params, List.mem_append_right _ (.head _), b, henc, hpar, hholds⟩
  · simp
  · exact fun i work hwork => (h.generating i work hwork).append _
  · exact fun work hwork => (h.produced work hwork).append _

theorem Consistent.generated {s : RaceState} (h : Consistent s) {jobId : CString}
    (hid : s.sctx.job.jobId = some jobId)
    (hfree : ∀ p, s.pending = some p → ∀ i < 1344, s.sctx.job.solution i = s.settled i) (buf : Work) :
    FromOneMessage s.messages (genWorkLocked s.sctx jobId buf) := by
  rcases h.job with hnone | ⟨params, hmem, jobId', b, henc, hheader, hsettled⟩
  · rw [hnone] at hid
    cases hid
  obtain rfl : jobId = jobId' := Option.some.inj (hid.symm.trans hheader.jobId)
  have hsolution : Holds s.sctx.job.solution 0 b.solution := by
    intro k hk
    rw [← hsettled k hk]
    cases hpending : s.pending with
    | none => rw [h.settled hpending]
    | some p => exact hfree p hpending _ (by rw [← henc.sized.solution]; omega)
  exact ⟨params, hmem, jobId, b, henc, genWorkLocked_takenFrom henc ⟨hheader, hsolution⟩ buf⟩

section Run

variable {optDifficulty : Float}

theorem raceStep_consistent {s s' : RaceState} {e : RaceEvent} (h : Consistent s)
    (hok : RaceFree s e) (hstep : raceStep optDifficulty s e = some s') : Consistent s' := by
  cases e with
  | decode params =>
    simp only [raceStep] at hstep
    split at hstep
    · cases hstep
      exact h
    · rename_i p hpending hp
      obtain ⟨sctx, hsol, rfl⟩ := Option.map_eq_some_iff.mp hstep
      rcases hok with hnone | ⟨jobId, b, henc⟩
      · rw [hnone] at hp
        cases hp
      · exact h.decoded henc hp hsol
    · cases hstep
  | commit now ntimeStack =>
    obtain ⟨p, hpending, rfl⟩ := Option.map_eq_some_iff.mp hstep
    obtain ⟨params, hmem, b, henc, hpar, hholds⟩ := h.pending p hpending
    constructor
    · exact .inr ⟨params, hmem, p.jobId, b, henc, notifyLocked_holds hpar _, hholds⟩
    · simp
    · intro _
      rw [notifyLocked_solution, notifySrvtime_job]
    · exact h.generating
    · exact h.produced
  | setTarget stack params =>
    simp only [raceStep] at hstep
    split at hstep
    · rename_i hpending
      cases hstep
      obtain ⟨extra, hjob⟩ := verusStratumSetTarget_job stack s.sctx params
      constructor
      · rw [hjob]
        refine h.job.imp_right fun ⟨params', hmem, jobId, b, henc, hheader, hsettled⟩ => ?_
        refine ⟨params', hmem, jobId, b, henc, ?_, hsettled⟩
        exact ⟨hheader.jobId, hheader.version, hheader.prevhash, hheader.merkle, hheader.reserved,
          hheader.ntime, hheader.nbits⟩
      · simp [hpending]
      · intro _
        rw [hjob]
        exact h.settled hpending
      · exact h.generating
      · exact h.produced
    · cases hstep
  | generate i buf =>
    obtain ⟨jobId, hid, rfl⟩ := Option.map_eq_some_iff.mp hstep
    refine ⟨h.job, h.pending, h.settled, ?_, h.produced⟩
    refine (Function.forall_update_iff s.generating
      (p := fun _ o => ∀ work, o = some work → FromOneMessage s.messages work)).mpr ⟨?_, ?_⟩
    · intro work hwork
      cases hwork
      exact h.generated hid hok buf
    · exact fun j _ => h.generating j
  | finish i =>
    obtain ⟨work, hwork, rfl⟩ := Option.map_eq_some_iff.mp hstep
    refine ⟨h.job, h.pending, h.settled, ?_, fun work' hwork' => ?_⟩
    · exact (Function.forall_update_iff s.generating
        (p := fun _ o => ∀ work, o = some work → FromOneMessage s.messages work)).mpr
          ⟨by simp, fun j _ => h.generating j⟩
    · rcases List.mem_append.mp hwork' with hold | hnew
      · exact h.produced work' hold
      · obtain ⟨params, hmem, jobId, b, henc, htaken⟩ := h.generating i work hwork
        rw [List.mem_singleton.mp hnew]
        exact ⟨params, hmem, jobId, b, henc, htaken.target _ _⟩

theorem raceStep_decode {s : RaceState} {params : Json} {p : NotifyParams} {sctx : StratumCtx}
    (hpending : s.pending = none) (hp : notifyParams params = some p)
    (hsolution : notifySolution p s.sctx = some sctx) :
    raceStep optDifficulty s (.decode params) =
      some { s with sctx := sctx, messages := s.messages ++ [params], pending := some p } := by
  simp [raceStep, hpending, hp, hsolution]

structure Unstarted (s : RaceState) : Prop where
  jobId : s.sctx.job.jobId = none
  pending : s.pending = none
  settled : s.settled = s.sctx.job.solution
  generating : ∀ i, s.generating i = none
  produced : s.produced = []

/-- In a run without the race every work is of one message. -/
theorem run_fromOneMessage {s t : RaceState} {es : List RaceEvent} (hs : Unstarted s)
    (hrun : run (raceStep optDifficulty) s es = some t)
    (hok : Along (raceStep optDifficulty) RaceFree s es) :
    ∀ work ∈ t.produced, FromOneMessage t.messages work := by
  have hconsistent : Consistent s := by
    refine ⟨.inl hs.jobId, ?_, fun _ => hs.settled.symm, ?_, ?_⟩
    · simp [hs.pending]
    · simp [hs.generating]
    · simp [hs.produced]
  exact (run_invariant_of_along (fun h hok hstep => raceStep_consistent h hok hstep) hok hrun
    hconsistent).produced

theorem run_notify_steps {s : RaceState} {now : Word} {ntimeStack : Mem} {params : Json}
    {sctx : StratumCtx} (hpending : s.pending = none)
    (h : verusStratumNotify now ntimeStack s.sctx params = some (true, sctx)) :
    run (raceStep optDifficulty) s [.decode params, .commit now ntimeStack] =
      some { s with
        sctx := sctx, messages := s.messages ++ [params], settled := sctx.job.solution } := by
  cases hp : notifyParams params with
  | none =>
    simp only [verusStratumNotify, hp] at h
    cases h
  | some p =>
    simp only [verusStratumNotify, hp] at h
    obtain ⟨sctx₁, hsol, hret⟩ := Option.map_eq_some_iff.mp h
    cases hret
    rw [notifyLocked_solution, notifySrvtime_job, run, raceStep_decode hpending hp hsol]
    simp [run, raceStep, hpending]

theorem run_generate_steps {s : RaceState} {i : Nat} {buf work : Work}
    (h : stratumGenWork optDifficulty s.sctx buf = some work) :
    ∃ t, run (raceStep optDifficulty) s [.generate i buf, .finish i] = some t ∧
      t.produced = s.produced ++ [work] := by
  obtain ⟨jobId, hid, rfl⟩ := Option.map_eq_some_iff.mp h
  simp [run, raceStep, hid]

end Run

def unstartedRace : RaceState where
  sctx := zeroCtx
  messages := []
  pending := none
  settled := fun _ => 0
  generating := fun _ => none
  produced := []

def firstNotify : Json := zeroNotify ['1'] '0' (List.replicate 2688 '0')

def secondNotify : Json := zeroNotify ['2'] '0' (List.replicate 2688 '1')

theorem firstNotify_encodes :
    Encodes firstNotify ['1'] (zeroBytes (List.replicate 4 0) (List.replicate 1344 0)) :=
  zeroNotify_encodes ['1'] '0' (textEncodes_zeros (k := 8) rfl) (textEncodes_zeros (k := 2688) rfl)

def firstNotified : StratumCtx := notified zeroCtx firstNotify

def settledRace : RaceState :=
  { unstartedRace with
    sctx := firstNotified
    messages := [firstNotify]
    settled := firstNotified.job.solution }

def secondParams : NotifyParams where
  jobId := ['2']
  version := '0' :: List.replicate 7 '0'
  prevhash := List.replicate 64 '0'
  coinb1 := List.replicate 64 '0'
  coinb2 := List.replicate 64 '0'
  stime := List.replicate 8 '0'
  nbits := List.replicate 8 '0'
  clean := false
  solution := some (List.replicate 2688 '1')

def decodedCtx : StratumCtx := (notifySolution secondParams firstNotified).getD zeroCtx

def decodedRace : RaceState :=
  { settledRace with
    sctx := decodedCtx, messages := [firstNotify, secondNotify], pending := some secondParams }

theorem run_settledRace : run (raceStep 1.0) unstartedRace
    [.decode firstNotify, .commit 0 (fun _ => 0)] = some settledRace := by
  have hnotify : verusStratumNotify 0 (fun _ => 0) zeroCtx firstNotify = some (true, firstNotified) := rfl
  exact run_notify_steps rfl hnotify

theorem raceStep_decodedRace :
    raceStep 1.0 settledRace (.decode secondNotify) = some decodedRace := by
  have hp : notifyParams secondNotify = some secondParams := rfl
  have hsolution : notifySolution secondParams firstNotified = some decodedCtx := rfl
  exact raceStep_decode rfl hp hsolution

def mixedWork : Work := generated decodedCtx

/-- Between a second notify's solution and its lock a work is generated that
has the first one's job id and the second one's solution. -/
theorem work_of_two_messages :
    ∃ t, run (raceStep 1.0) unstartedRace [.decode firstNotify, .commit 0 (fun _ => 0),
        .decode secondNotify, .generate 0 zeroWork, .finish 0] = some t ∧
      ¬ ∀ work ∈ t.produced, FromOneMessage [firstNotify, secondNotify] work := by
  have hgen : stratumGenWork 1.0 decodedRace.sctx zeroWork = some mixedWork :=
    stratumGenWork_generated rfl
  obtain ⟨t, hrun, hproduced⟩ := run_generate_steps (i := 0) hgen
  refine ⟨t, run_append.mpr ⟨_, run_settledRace, run_cons.mpr ⟨_, raceStep_decodedRace, hrun⟩⟩, ?_⟩
  rw [hproduced]
  intro h
  obtain ⟨params, hmem, jobId, b, henc, htaken⟩ := h mixedWork (.head _)
  rcases List.mem_pair.mp hmem with rfl | rfl
  · have hsolution : b.solution = List.replicate 1344 0 :=
      Option.some.inj (henc.solution.symm.trans firstNotify_encodes.solution)
    have hbyte := htaken.solution 0 (by rw [hsolution, List.length_replicate]; omega)
    rw [hsolution] at hbyte
    revert hbyte
    decide +kernel
  · have hntime : fieldBytes secondNotify 5 4 = some (List.replicate 4 0) := by decide +kernel
    have htime : b.ntime = List.replicate 4 0 := Option.some.inj (henc.ntime.symm.trans hntime)
    have hid : jobId = ['2'] := (Option.some.inj henc.jobId).symm
    have htext := htaken.jobId
    rw [htime, hid] at htext
    revert htext
    decide +kernel

theorem run_fromOneMessage_settled :
    ∃ t, run (raceStep 1.0) unstartedRace
        [.decode firstNotify, .commit 0 (fun _ => 0), .generate 0 zeroWork, .finish 0] = some t ∧
      t.produced.length = 1 ∧ ∀ work ∈ t.produced, FromOneMessage t.messages work := by
  have hgen : stratumGenWork 1.0 settledRace.sctx zeroWork = some (generated firstNotified) :=
    stratumGenWork_generated rfl
  obtain ⟨t, hrun, hproduced⟩ := run_generate_steps (i := 0) hgen
  have hwhole := run_append.mpr ⟨_, run_settledRace, hrun⟩
  refine ⟨t, hwhole, by rw [hproduced]; rfl, ?_⟩
  refine run_fromOneMessage ⟨rfl, rfl, rfl, fun _ => rfl, rfl⟩ hwhole
    ((along_append run_settledRace).mpr ⟨?_, ?_⟩)
  · exact ⟨.inr ⟨_, _, firstNotify_encodes⟩, fun _ _ => ⟨trivial, fun _ _ => trivial⟩⟩
  · exact ⟨fun _ h => absurd h (by simp [settledRace, unstartedRace]), fun _ _ => ⟨trivial, fun _ _ => trivial⟩⟩

end VerusMiner
