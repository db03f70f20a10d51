import VerusMiner.JobMemory

/-! Targets and jobs: a notify keeps the difficulty of the last `set_target`
for its job, but the target itself is read when work is generated. -/

namespace VerusMiner

inductive PoolMessage where
  | setTarget (stack : SetTargetStack) (params : Json)
  | notify (now : Word) (ntimeStack fresh : Mem) (params : Json)

def PoolMessage.event : PoolMessage → JobMemoryEvent
  | .setTarget stack params => .setTarget stack params
  | .notify now ntimeStack fresh params => .notify now ntimeStack fresh params

def handleMessage (s : JobMemory) (m : PoolMessage) : Option JobMemory := jobMemoryRun s m.event

structure Pairing where
  target : Mem
  diff : Float

/-- The last `set_target` received, and the last one before the last notify;
once any was received a notify is that of the algorithm. -/
structure Pairings where
  current : Pairing
  job : Pairing
  isEquihash : Bool

def setTargetPairing (stack : SetTargetStack) (params : Json) : Option Pairing :=
  match jsonStringValue (jsonArrayGet params 0) with
  | none | some [] => none
  | some targetHex =>
    let t := targetBytes (hex2bin stack.targetBin 0 targetHex 32).1
    some { target := t.targetBe, diff := targetToDiffVerus (targetBits stack t) }

def notifyTaken (isEquihash : Bool) (params : Json) : Bool :=
  if isEquihash then (notifyParams params).isSome
  else (classicParams params).any fun p => decide (∀ branch ∈ p.merkle, JobMemory.IsBranch branch)

/-- Refused messages change nothing. -/
def Pairings.after (p : Pairings) : PoolMessage → Pairings
  | .setTarget stack params =>
    { p with current := (setTargetPairing stack params).getD p.current, isEquihash := true }
  | .notify _ _ _ params => if notifyTaken p.isEquihash params then { p with job := p.current } else p

/-- Before any message the session holds what it was set up with. -/
def JobMemory.pairings (s : JobMemory) (messages : List PoolMessage) : Pairings :=
  messages.foldl Pairings.after
    { current := { target := s.sctx.job.extra, diff := s.sctx.nextDiff }
      job := { target := s.sctx.job.extra, diff := s.sctx.job.diff }
      isEquihash := s.isEquihash }

structure PairedBy (p : Pairings) (s : JobMemory) : Prop where
  target : ∀ i < 32, s.sctx.job.extra i = p.current.target i
  nextDiff : s.sctx.nextDiff = p.current.diff
  diff : s.sctx.job.diff = p.job.diff
  isEquihash : s.isEquihash = p.isEquihash

structure Paired (p : Pairing) (optDifficulty : Float) (work : Work) : Prop where
  target : ∀ i < 32, work.target i = p.target i
  diff : work.targetdiff = p.diff / (if optDifficulty == 0.0 then 1.0 else optDifficulty)

theorem verusStratumSetTarget_eq (stack : SetTargetStack) (sctx : StratumCtx) (params : Json) :
    (verusStratumSetTarget stack sctx params).2 =
      match setTargetPairing stack params with
      | none => sctx
      | some p => { sctx with
          job := { sctx.job with extra := memcpy sctx.job.extra 0 p.target 0 32 }
          nextDiff := p.diff } := by
  rcases hjson : jsonStringValue (jsonArrayGet params 0) with _ | _ | ⟨c, cs⟩ <;>
    simp only [verusStratumSetTarget, setTargetPairing, hjson]

theorem notifySrvtime_nextDiff (now : Word) (ntimeStack : Mem) (p : NotifyParams)
    (sctx : StratumCtx) : (notifySrvtime now ntimeStack p sctx).nextDiff = sctx.nextDiff := by
  dsimp only [notifySrvtime]
  split_ifs <;> rfl

/-- What a notify does to targets and difficulties, if it is taken or not. -/
structure NotifyPairs (s s' : JobMemory) (taken : Bool) : Prop where
  extra : s'.sctx.job.extra = s.sctx.job.extra
  nextDiff : s'.sctx.nextDiff = s.sctx.nextDiff
  diff : s'.sctx.job.diff = if taken then s.sctx.nextDiff else s.sctx.job.diff
  isEquihash : s'.isEquihash = s.isEquihash

theorem notifyPairs_refused {s : JobMemory} {ret : Bool} : NotifyPairs s { s with ret := ret } false :=
  ⟨rfl, rfl, rfl, rfl⟩

theorem mallocBranches_decoded {merkle : Option Nat} {h h' : Blocks} {ptrs ptrs' : List Nat} {list : List Json}
    {decoded : Bool} (hdecode : mallocBranches merkle h ptrs list = .ok (decoded, ptrs', h')) :
    decoded = decide (∀ branch ∈ list, JobMemory.IsBranch branch) := by
  induction list generalizing h ptrs with
  | nil =>
    cases hdecode
    exact (decide_eq_true fun _ hb => absurd hb List.not_mem_nil).symm
  | cons branch rest ih =>
    have hnot (hbranch : ¬ JobMemory.IsBranch branch) :
        false = decide (∀ b ∈ branch :: rest, JobMemory.IsBranch b) :=
      (decide_eq_false fun hall => hbranch (hall _ List.mem_cons_self)).symm
    rw [mallocBranches] at hdecode
    cases hs : jsonStringValue (some branch) with
    | none =>
      rw [hs] at hdecode
      cases hdecode
      refine hnot ?_
      rintro ⟨text, htext, _⟩
      rw [hs] at htext
      cases htext
    | some s =>
      simp only [hs] at hdecode
      split_ifs at hdecode with hlength
      · cases hdecode
        refine hnot ?_
        rintro ⟨text, htext, hsize⟩
        rw [hs] at htext
        exact hlength (Option.some.inj htext ▸ hsize)
      · obtain ⟨_, _, hrest⟩ := bind_eq_ok.mp hdecode
        have hbranch : JobMemory.IsBranch branch := ⟨s, hs, not_not.mp hlength⟩
        refine (ih hrest).trans (decide_eq_decide.mpr ?_)
        rw [List.forall_mem_cons, and_iff_right hbranch]

theorem classicJob_pairs {fresh : Mem} {p : ClassicParams} {s s' : JobMemory}
    (h : classicJob fresh p s = .ok s') :
    NotifyPairs s s' (decide (∀ branch ∈ p.merkle, JobMemory.IsBranch branch)) := by
  obtain ⟨⟨decoded, branches, blocks⟩, hdecode, h⟩ := bind_eq_ok.mp h
  rw [← mallocBranches_decoded hdecode]
  cases decoded with
  | false =>
    simp only [Bool.false_eq_true, not_false_eq_true, if_true] at h
    obtain ⟨_, _, h⟩ := bind_eq_ok.mp h
    obtain ⟨_, _, h⟩ := bind_eq_ok.mp h
    cases h
    exact ⟨rfl, rfl, rfl, rfl⟩
  | true =>
    simp only [not_true_eq_false, if_false] at h
    obtain ⟨⟨_, _⟩, _, h⟩ := bind_eq_ok.mp h
    obtain ⟨_, _, h⟩ := bind_eq_ok.mp h
    obtain ⟨_, _, h⟩ := bind_eq_ok.mp h
    obtain ⟨_, _, h⟩ := bind_eq_ok.mp h
    obtain ⟨_, _, h⟩ := bind_eq_ok.mp h
    cases hsolution : p.solution with
    | none =>
      rw [hsolution] at h
      cases h
    | some solution =>
      rw [hsolution] at h
      cases h
      exact ⟨rfl, rfl, rfl, rfl⟩

theorem classicNotify_pairs {now : Word} {ntimeStack fresh : Mem} {p : ClassicParams} {s s' : JobMemory}
    (h : classicNotify now ntimeStack fresh p s = .ok s') :
    NotifyPairs s s' (decide (∀ branch ∈ p.merkle, JobMemory.IsBranch branch)) := by
  obtain ⟨srvtimeDiff, hsrv⟩ := JobMemory.classicSrvtime_eq now ntimeStack p s.sctx
  rw [classicNotify, hsrv] at h
  have hjob := classicJob_pairs h
  exact ⟨hjob.extra, hjob.nextDiff, hjob.diff, hjob.isEquihash⟩

theorem verusNotify_pairs {now : Word} {ntimeStack : Mem} {p : NotifyParams} {s s' : JobMemory}
    (h : verusNotify now ntimeStack p s = .ok s') : NotifyPairs s s' true := by
  rw [verusNotify] at h
  cases hsolution : notifySolution p s.sctx with
  | none =>
    rw [hsolution] at h
    cases h
  | some sctx =>
    rw [hsolution] at h
    obtain ⟨text, _, rfl⟩ := Option.map_eq_some_iff.mp hsolution
    obtain ⟨⟨_, _⟩, _, h⟩ := bind_eq_ok.mp h
    obtain ⟨_, _, h⟩ := bind_eq_ok.mp h
    obtain ⟨_, _, h⟩ := bind_eq_ok.mp h
    obtain ⟨_, _, h⟩ := bind_eq_ok.mp h
    cases h
    refine ⟨?_, ?_, ?_, rfl⟩
    · simp only [notifyLocked, notifySrvtime_job]
    · simp only [notifyLocked, notifySrvtime_nextDiff]
    · simp only [notifyLocked, notifySrvtime_nextDiff, if_true]

theorem notify_pairs {now : Word} {ntimeStack fresh : Mem} {params : Json} {s s' : JobMemory}
    (h : jobMemoryStep s (.notify now ntimeStack fresh params) = .ok s') :
    NotifyPairs s s' (notifyTaken s.isEquihash params) := by
  rw [jobMemoryStep] at h
  rw [notifyTaken]
  split_ifs at h ⊢
  · cases hp : notifyParams params with
    | none =>
      rw [hp] at h
      cases h
      exact notifyPairs_refused
    | some p =>
      rw [hp] at h
      exact verusNotify_pairs h
  · cases hp : classicParams params with
    | none =>
      rw [hp] at h
      cases h
      exact notifyPairs_refused
    | some p =>
      rw [hp] at h
      exact classicNotify_pairs h

theorem handleMessage_pairedBy {p : Pairings} {s s' : JobMemory} {m : PoolMessage}
    (h : PairedBy p s) (hstep : handleMessage s m = some s') : PairedBy (p.after m) s' := by
  have hstep := toOption_eq_some.mp hstep
  cases m with
  | setTarget stack params =>
    obtain ⟨hsctx, hequihash⟩ : s'.sctx = (verusStratumSetTarget stack s.sctx params).2 ∧
        s'.isEquihash = true := by
      cases hstep
      exact ⟨rfl, rfl⟩
    rw [verusStratumSetTarget_eq] at hsctx
    rw [Pairings.after]
    cases hpairing : setTargetPairing stack params with
    | none =>
      rw [hpairing] at hsctx
      exact ⟨fun i hi => by rw [hsctx]; exact h.target i hi, by rw [hsctx]; exact h.nextDiff,
        by rw [hsctx]; exact h.diff, hequihash⟩
    | some q =>
      rw [hpairing] at hsctx
      exact ⟨fun i hi => by rw [hsctx]; exact memcpy_start hi, by rw [hsctx]; rfl,
        by rw [hsctx]; exact h.diff, hequihash⟩
  | notify now ntimeStack fresh params =>
    have hpairs := notify_pairs hstep
    rw [h.isEquihash] at hpairs
    rw [Pairings.after]
    split_ifs with htaken
    · refine ⟨fun i hi => by rw [hpairs.extra, h.target i hi], hpairs.nextDiff.trans h.nextDiff, ?_,
        hpairs.isEquihash.trans h.isEquihash⟩
      rw [hpairs.diff, if_pos htaken, h.nextDiff]
    · refine ⟨fun i hi => by rw [hpairs.extra, h.target i hi], hpairs.nextDiff.trans h.nextDiff, ?_,
        hpairs.isEquihash.trans h.isEquihash⟩
      rw [hpairs.diff, if_neg htaken, h.diff]

theorem run_pairedBy {s s' : JobMemory} {messages : List PoolMessage}
    (hrun : run handleMessage s messages = some s') : PairedBy (s.pairings messages) s' := by
  have hgen (p : Pairings) (h : PairedBy p s) : PairedBy (messages.foldl Pairings.after p) s' := by
    induction messages generalizing s p with
    | nil =>
      cases hrun
      exact h
    | cons m messages ih =>
      obtain ⟨s₁, hstep, hrun⟩ := run_cons.mp hrun
      exact ih hrun _ (handleMessage_pairedBy h hstep)
  exact hgen _ ⟨fun _ _ => rfl, rfl, rfl, rfl⟩

/-- Work generated after any messages has target and difficulty of the last
`set_target` before the last notify exactly when none since then changed the
target. -/
theorem run_paired_iff (optDifficulty : Float) {s s' : JobMemory} {messages : List PoolMessage}
    (hrun : run handleMessage s messages = some s') {buf work : Work}
    (hgen : stratumGenWork optDifficulty s'.sctx buf = some work) :
    Paired (s.pairings messages).job optDifficulty work ↔
      ∀ i < 32, (s.pairings messages).current.target i = (s.pairings messages).job.target i := by
  have h := run_pairedBy hrun
  have htarget {i : Nat} (hi : i < 32) : work.target i = (s.pairings messages).current.target i := by
    rw [(stratumGenWork_eq hgen).2.2 i hi, h.target i hi]
  obtain ⟨_, _, rfl⟩ := Option.map_eq_some_iff.mp hgen
  constructor
  · intro hp i hi
    rw [← htarget hi, hp.target i hi]
  · intro hsame
    refine ⟨fun i hi => by rw [htarget hi, hsame i hi], ?_⟩
    rw [← h.diff]
    rfl

def zeroStack : SetTargetStack where
  targetBin := fun _ => 0
  beforeTargetBe := fun _ => 0
  bitsTop := 0
  nullPadding := 0

def demoTarget (digit : Char) : Json := .array [.string (List.replicate 64 digit)]

def demoNotify : Json := zeroNotify ['1'] '1' (List.replicate 2688 '0')

def demoMessages : List PoolMessage :=
  [.setTarget zeroStack (demoTarget '1'), .notify 0 (fun _ => 0) (fun _ => 0) demoNotify]

def afterMessages (messages : List PoolMessage) : JobMemory :=
  (run handleMessage jobMemoryStart messages).getD jobMemoryStart

theorem run_demoMessages : run handleMessage jobMemoryStart demoMessages = some (afterMessages demoMessages) :=
  rfl

theorem run_paired_demo :
    ∃ work, stratumGenWork 1.0 (afterMessages demoMessages).sctx zeroWork = some work ∧
      Paired (jobMemoryStart.pairings demoMessages).job 1.0 work :=
  have hgen : stratumGenWork 1.0 (afterMessages demoMessages).sctx zeroWork =
      some (generated (afterMessages demoMessages).sctx) := stratumGenWork_generated rfl
  ⟨_, hgen, (run_paired_iff 1.0 run_demoMessages hgen).mpr (by decide +kernel)⟩

def retargetMessages : List PoolMessage := demoMessages ++ [.setTarget zeroStack (demoTarget '2')]

/-- A target sent after the notify gets into the work of its job. -/
theorem retargeted_not_paired :
    ∃ s work, run handleMessage jobMemoryStart retargetMessages = some s ∧
      stratumGenWork 1.0 s.sctx zeroWork = some work ∧
      ¬ Paired (jobMemoryStart.pairings retargetMessages).job 1.0 work := by
  have hgen : stratumGenWork 1.0 (afterMessages retargetMessages).sctx zeroWork =
      some (generated (afterMessages retargetMessages).sctx) := stratumGenWork_generated rfl
  refine ⟨afterMessages retargetMessages, _, rfl, hgen, fun hp => ?_⟩
  have hbyte := hp.target 31 (by omega)
  revert hbyte
  decide +kernel

end VerusMiner
