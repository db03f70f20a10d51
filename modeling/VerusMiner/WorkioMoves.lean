import VerusMiner.Workio
import VerusMiner.Lib.Runs

/-! What a step of the workio thread can do, said once, and what it leaves
alone. -/

namespace VerusMiner

def WorkioState.commandOf (s : WorkioState) (work : Work) : Command where
  work := work
  agrees := !jobsDiffer work s.gWork
  current := decide (work.pooln.toNat = s.curPooln)

def WorkioState.recordSent (s : WorkioState) (c : Command) (user : CString) (xnonce1Size : Option Nat)
    (due : Nat) (part : Part Char) : WorkioState :=
  { s with sent := s.sent ++ [⟨c, s.owner s.stratum.sock, user, xnonce1Size, due, part⟩] }

def WorkioState.recordPlain (s : WorkioState) (c : Command) (part : Part Char) : WorkioState :=
  s.recordSent c (s.pools c.work.pooln.toNat).user none (s.sizes c.work.pooln.toNat) part

section Moves

variable (cfg : WorkioConfig) (s : WorkioState)

/-- One case for every way a step ends, with what it needs. -/
inductive WorkioMove : WorkioEvent → WorkioState → Prop
  | submitWork (work : Work) : WorkioMove (.submitWork work) { s with queue := s.queue ++ [work] }
  | install (work : Work) : WorkioMove (.install work) { s with gWork := work }
  | poolSwitch (pooln : Nat) : WorkioMove (.poolSwitch pooln) (s.poolSwitch cfg pooln)
  | startStratum : WorkioMove .startStratum { s with
      threadPooln := s.curPooln
      stratum := { s.stratum with pooln := s.curPooln } }
  | connect : WorkioMove .connect { s with
      owner := Function.update s.owner s.nextSock s.threadPooln
      nextSock := s.nextSock + 1
      stratum := { s.stratum with sock := s.nextSock } }
  | subscribed (size : Nat) : WorkioMove (.subscribed size) { s with
      sizes := Function.update s.sizes (s.owner s.stratum.sock) size
      stratum := { s.stratum with xnonce1Size := size } }
  | setTarget : WorkioMove .setTarget { s with stratum := { s.stratum with isEquihash := true } }
  | taken {work : Work} {queue : List Work} (solved sent : Bool) (hqueue : s.queue = work :: queue) :
      WorkioMove (.take solved sent)
        (WorkioState.judge cfg (s.commandOf work) 0 solved sent { s with queue := queue })
  | again {c : Command} {failures : Nat} (solved sent : Bool) (hpc : s.pc = .waiting c failures) :
      WorkioMove (.again solved sent) (s.judge cfg c failures solved sent)
  | composed {c : Command} {failures : Nat} (hpc : s.pc = .chosen c failures .verus) :
      WorkioMove (.compose true) { s with
        pc := .composed c (s.pools c.work.pooln.toNat).user
          (submitLine (s.pools c.work.pooln.toNat).user
            (verusStratumSubmit s.stratum.xnonce1Size c.work) s.stratum.sharesCount)
          s.stratum.xnonce1Size (s.sizes c.work.pooln.toNat) }
  | unsent {c : Command} {failures : Nat} (hpc : s.pc = .chosen c failures .verus) :
      WorkioMove (.compose false) ((s.addShares 1).complete c .verus true .unsent)
  | sent {c : Command} {user line : CString} {x due : Nat} {outs : List SockOutcome} {part : Part Char}
      {ret : Bool} (hpc : s.pc = .composed c user line x due)
      (hline : sendLine outs line = some (part, ret)) :
      WorkioMove (.send outs)
        (((s.recordSent c user (some x) due part).addShares (if ret then 2 else 1)).complete
          c .verus true (.written part))
  | plainSent {c : Command} {failures : Nat} {line : CString} {outs : List SockOutcome}
      {part : Part Char} (hpc : s.pc = .chosen c failures .plain)
      (hline : sendLine outs line = some (part, true)) :
      WorkioMove (.sendPlain line outs)
        (((s.recordPlain c part).addShares 1).complete c .plain true (.written part))
  | plainFailed {c : Command} {failures : Nat} {line : CString} {outs : List SockOutcome}
      {part : Part Char} (hpc : s.pc = .chosen c failures .plain)
      (hline : sendLine outs line = some (part, false)) :
      WorkioMove (.sendPlain line outs) { s.recordPlain c part with pc := .failed c failures .plain }
  | answered {c : Command} {failures : Nat} (hpc : s.pc = .chosen c failures .getwork) :
      WorkioMove (.getwork true) (s.complete c .getwork true .answered)
  | unanswered {c : Command} {failures : Nat} (hpc : s.pc = .chosen c failures .getwork) :
      WorkioMove (.getwork false) { s with pc := .failed c failures .getwork }
  | poolChanged {c : Command} {failures : Nat} {choice : Choice}
      (hpc : s.pc = .failed c failures choice) (hpooln : c.work.pooln.toNat ≠ s.curPooln) :
      WorkioMove .settle (s.complete c choice true .poolChanged)
  | gaveUp {c : Command} {failures : Nat} {choice : Choice} (hpc : s.pc = .failed c failures choice)
      (hretries : 0 ≤ cfg.optRetries ∧ cfg.optRetries < failures + 1) :
      WorkioMove .settle (s.complete c choice false .gaveUp)
  | retried {c : Command} {failures : Nat} {choice : Choice} (hpc : s.pc = .failed c failures choice)
      (hpooln : c.work.pooln.toNat = s.curPooln) (n : Nat) :
      WorkioMove .settle { s with pc := .waiting c n }
  | failover {pooln : Nat} (hpc : s.pc = .stopped) (hpooln : pooln < cfg.numPools) :
      WorkioMove (.failover pooln) { s.poolSwitch cfg pooln with pc := .idle }

end Moves

variable {cfg : WorkioConfig} {s s' : WorkioState} {e : WorkioEvent}

theorem workioStep_move (h : workioStep cfg s e = some s') : WorkioMove cfg s e s' := by
  cases e with
  | submitWork work =>
    cases h
    exact .submitWork work
  | install work =>
    cases h
    exact .install work
  | poolSwitch pooln =>
    cases h
    exact .poolSwitch pooln
  | startStratum =>
    cases h
    exact .startStratum
  | connect =>
    cases h
    exact .connect
  | subscribed size =>
    cases h
    exact .subscribed size
  | setTarget =>
    cases h
    exact .setTarget
  | take solved sent =>
    simp only [workioStep] at h
    split at h
    · rename_i hqueue
      cases h
      exact .taken solved sent hqueue
    · cases h
  | again solved sent =>
    simp only [workioStep] at h
    split at h
    · rename_i hpc
      cases h
      exact .again solved sent hpc
    · cases h
  | compose allocated =>
    simp only [workioStep] at h
    split at h
    · rename_i hpc
      cases h
      cases allocated with
      | true => exact .composed hpc
      | false => exact .unsent hpc
    · cases h
  | send outs =>
    simp only [workioStep] at h
    split at h
    · rename_i hpc
      obtain ⟨⟨part, ret⟩, hline, rfl⟩ := Option.map_eq_some_iff.mp h
      exact .sent hpc hline
    · cases h
  | sendPlain line outs =>
    simp only [workioStep] at h
    split at h
    · rename_i hpc
      obtain ⟨⟨part, ret⟩, hline, rfl⟩ := Option.map_eq_some_iff.mp h
      cases ret with
      | true => exact .plainSent hpc hline
      | false => exact .plainFailed hpc hline
    · cases h
  | getwork answered =>
    simp only [workioStep] at h
    split at h
    · rename_i hpc
      cases h
      cases answered with
      | true => exact .answered hpc
      | false => exact .unanswered hpc
    · cases h
  | settle =>
    simp only [workioStep] at h
    split at h
    · rename_i hpc
      cases h
      split_ifs with hpooln hretries
      · exact .poolChanged hpc hpooln
      · exact .gaveUp hpc hretries
      · exact .retried hpc (not_not.mp hpooln) _
      · exact .retried hpc (not_not.mp hpooln) _
    · cases h
  | failover pooln =>
    simp only [workioStep] at h
    split at h
    · rename_i hpc
      split_ifs at h with hok
      cases h
      exact .failover hpc hok.2.2
    · cases h

/-- A share is dropped on the spot, or goes on to the branch chosen for it. -/
theorem judge_cases (cfg : WorkioConfig) (c : Command) (failures : Nat) (solved sent : Bool)
    (s : WorkioState) :
    let v := submitChoice cfg (s.pools c.work.pooln.toNat) s.stratum.isEquihash s.haveStratum s.gWork
      c.work solved sent
    let t := s.judge cfg c failures solved sent
    t.decisions = s.decisions ++ [⟨c, v.1, v.2⟩] ∧ t.sent = s.sent ∧
      ((∃ how, (v.1 = .stale ∧ how = .discarded ∨ v.1 = .known ∧ how = .known) ∧ t.pc = .idle ∧
        t.completed = s.completed ++ [⟨c, v.1, true, how⟩]) ∨
      (v.1 ≠ .stale ∧ v.1 ≠ .known ∧ t.pc = .chosen c failures v.1 ∧ t.completed = s.completed)) := by
  intro v t
  have hcounted (b : Bool) (n : Nat) : (if b then s.addStale n else s).completed = s.completed ∧
      (if b then s.addStale n else s).sent = s.sent := by cases b <;> exact ⟨rfl, rfl⟩
  simp only [t, WorkioState.judge]
  split
  · rename_i hv
    simp only [WorkioState.complete, hcounted, true_and]
    exact ⟨by rw [hv], .inl ⟨.discarded, .inl ⟨hv, rfl⟩, rfl, by rw [hv]⟩⟩
  · rename_i hv
    simp only [WorkioState.complete, hcounted, true_and]
    exact ⟨by rw [hv], .inl ⟨.known, .inr ⟨hv, rfl⟩, rfl, by rw [hv]⟩⟩
  · rename_i hstale hknown
    simp only [hcounted, true_and]
    exact ⟨rfl, .inr ⟨hstale, hknown, rfl, trivial⟩⟩

theorem poolSwitch_ledgers (cfg : WorkioConfig) (pooln : Nat) (s : WorkioState) :
    (s.poolSwitch cfg pooln).completed = s.completed ∧ (s.poolSwitch cfg pooln).sent = s.sent ∧
      (s.poolSwitch cfg pooln).decisions = s.decisions ∧ (s.poolSwitch cfg pooln).pc = s.pc := by
  simp only [WorkioState.poolSwitch]
  split_ifs <;> exact ⟨rfl, rfl, rfl, rfl⟩

def WorkioPc.command : WorkioPc → Option Command
  | .idle | .stopped => none
  | .chosen c _ _ | .composed c _ _ _ _ | .failed c _ _ | .waiting c _ => some c

def WorkioEvent.outs : WorkioEvent → Option (List SockOutcome)
  | .send outs | .sendPlain _ outs => some outs
  | _ => none

theorem workioStep_sent (h : workioStep cfg s e = some s') :
    (e.outs = none ∧ s'.sent = s.sent) ∨
      ∃ outs line r ret, e.outs = some outs ∧ sendLine outs line = some (r.part, ret) ∧
        s'.sent = s.sent ++ [r] ∧ r.pooln = s.owner s.stratum.sock ∧
        ((∃ x, s.pc = .composed r.command r.user line x r.due ∧ r.xnonce1Size = some x) ∨
          ∃ failures, s.pc = .chosen r.command failures .plain ∧
            r.user = (s.pools r.command.work.pooln.toNat).user ∧ r.xnonce1Size = none) := by
  cases workioStep_move h with
  | poolSwitch | failover => exact .inl ⟨rfl, (poolSwitch_ledgers cfg _ s).2.1⟩
  | taken | again => exact .inl ⟨rfl, (judge_cases ..).2.1⟩
  | sent hpc hline => exact .inr ⟨_, _, _, _, rfl, hline, rfl, rfl, .inl ⟨_, hpc, rfl⟩⟩
  | plainSent hpc hline | plainFailed hpc hline =>
    exact .inr ⟨_, _, _, _, rfl, hline, rfl, rfl, .inr ⟨_, hpc, rfl, rfl⟩⟩
  | _ => exact .inl ⟨rfl, rfl⟩

theorem length_submitLine (user : CString) (s : Submission) (sharesCount : Word) :
    (submitLine user s sharesCount).length < 20 * 1024 := by
  rw [submitLine, List.length_take]
  omega

def demoWorkio : WorkioConfig where
  numPools := 2
  optRetries := 1
  optSubmitStale := false
  submitOld := false
  optPoolFailover := false

def demoSession (pooln xnonce1Size : Nat) : Session where
  pooln := pooln
  sock := pooln
  xnonce1Size := xnonce1Size
  isEquihash := true
  sharesCount := 0

def jobWork (jobId : Char) : Work := { zeroWork with jobId := List.replicate 8 '0' ++ [jobId] }

def startedWorkio : WorkioState where
  pools := fun n =>
    { isStratum := true, user := ['u'], stratum := demoSession n (4 + 4 * n), stalesCount := 0 }
  curPooln := 0
  stratum := demoSession 0 4
  haveStratum := true
  threadPooln := 0
  gWork := jobWork '1'
  queue := []
  pc := .idle
  owner := id
  nextSock := 2
  sizes := fun n => 4 + 4 * n
  decisions := []
  sent := []
  completed := []

def composedShare : List WorkioEvent := [.submitWork (jobWork '1'), .take false false, .compose true]

def shareCommand (agrees : Bool) : Command where
  work := jobWork '1'
  agrees := agrees
  current := true

def shareLine : CString := submitLine ['u'] (verusStratumSubmit 4 (jobWork '1')) 0

theorem run_composedShare : ∃ s, run (workioStep demoWorkio) startedWorkio composedShare = some s ∧
    s.pc = .composed (shareCommand true) ['u'] shareLine 4 4 ∧ s.completed = [] ∧
      s.owner s.stratum.sock = 0 := ⟨_, rfl, rfl, rfl, rfl⟩

theorem workioStep_send (cfg : WorkioConfig) {s : WorkioState} {c : Command} {user line : CString}
    {x due : Nat} (hpc : s.pc = .composed c user line x due) {outs : List SockOutcome}
    {part : Part Char} {ret : Bool} (hline : sendLine outs line = some (part, ret)) :
    ∃ s', workioStep cfg s (.send outs) = some s' ∧
      s'.completed = s.completed ++ [⟨c, .verus, true, .written part⟩] ∧
      s'.sent = s.sent ++ [⟨c, s.owner s.stratum.sock, user, some x, due, part⟩] := by
  simp only [workioStep, hpc, hline, Option.map_some]
  exact ⟨_, rfl, rfl, rfl⟩

theorem sendLine_shareLine : ∃ part, sendLine [.sent 20480] shareLine = some (part, true) :=
  ⟨_, sendLine_whole (length_submitLine ..)⟩

end VerusMiner
