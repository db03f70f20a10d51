import VerusMiner.Miner

/-! The numbers that shares are submitted under: a counter of the session,
which each mining thread zeroes when it comes upon a new job. -/

namespace VerusMiner

/-- A share on the wire. Its round counts how often the counter had been
zeroed when its line was made. -/
structure SubmittedShare where
  connection : Nat
  work : Work
  sharesCount : Word
  round : Nat

def SubmittedShare.jobid (r : SubmittedShare) : CString := r.work.jobId.drop 8

/-- The id of the line, as `submitLine` prints it. -/
def SubmittedShare.id (r : SubmittedShare) : Word := r.sharesCount + 10

inductive SenderPc where
  | idle
  | composed (work : Work) (sharesCount : Word) (round : Nat)
  | submitted

structure IdState where
  gWork : Work
  works : Nat → Work
  queue : List Work
  sharesCount : Word
  connection : Nat
  pc : SenderPc
  round : Nat
  numbered : List SubmittedShare

inductive IdEvent where
  | install (work : Work)
  | refresh (i : Nat) (rand1 rand2 : Word)
  | scan (i : Nat) (work : Work)
  | submitWork (i : Nat)
  | freeJob
  | connect
  | compose (allocated : Bool)
  | send (ok : Bool)
  | count

namespace IdState

variable (s : IdState)

def zeroShares : IdState := { s with sharesCount := 0, round := s.round + 1 }

def addShare : IdState := { s with sharesCount := s.sharesCount + 1 }

end IdState

/-- A scan leaves the job id of the thread's work as it is. What counts a share
is first the submission, if it succeeds, and then its caller. -/
def idStep (cfg : MinerConfig) (s : IdState) : IdEvent → Option IdState
  | .install work => some { s with gWork := work }
  | .refresh i rand1 rand2 =>
    let work := s.works i
    let s := if work.jobId ≠ s.gWork.jobId then s.zeroShares else s
    some { s with works := Function.update s.works i (refresh (cfg.thread i) s.gWork work rand1 rand2) }
  | .scan i work =>
    if work.jobId = (s.works i).jobId then some { s with works := Function.update s.works i work }
    else none
  | .submitWork i => some { s with queue := s.queue ++ [submitFound (s.works i)] }
  | .freeJob => some s.zeroShares
  | .connect => some { s with connection := s.connection + 1 }
  | .compose allocated =>
    match s.pc, s.queue with
    | .idle, work :: queue =>
      some { s with
        queue := queue
        pc := if allocated then .composed work s.sharesCount s.round else .submitted }
    | _, _ => none
  | .send ok =>
    match s.pc with
    | .composed work sharesCount round =>
      let s : IdState := { s with pc := .submitted }
      some (if ok then
          { s.addShare with
            numbered := s.numbered ++
              [{ connection := s.connection, work := work, sharesCount := sharesCount, round := round }] }
        else s)
    | _ => none
  | .count =>
    match s.pc with
    | .submitted => some { s.addShare with pc := .idle }
    | _ => none

def SameId (a b : SubmittedShare) : Prop := a.connection = b.connection ∧ a.jobid = b.jobid ∧ a.id = b.id

def UniqueIds (s : IdState) : Prop := s.numbered.Pairwise fun a b => ¬ SameId a b

/-- The share that is sent was numbered in the round of all shares of its job
on its connection, and the counter does not pass its last value. -/
def CountsOn (s : IdState) : IdEvent → Prop
  | .send ok => ok = true → s.sharesCount ≠ 0xffffffff ∧ ∀ work sharesCount round,
      s.pc = .composed work sharesCount round → ∀ r ∈ s.numbered,
      r.connection = s.connection → r.jobid = work.jobId.drop 8 → r.round = round
  | .count => s.sharesCount ≠ 0xffffffff
  | _ => True

/-- What has been numbered in a round lies below the counter of that round. -/
structure CountedUp (s : IdState) : Prop where
  past : ∀ r ∈ s.numbered, r.round ≤ s.round
  below : ∀ r ∈ s.numbered, r.round = s.round → r.sharesCount.toNat < s.sharesCount.toNat
  composed : ∀ {work : Work} {sharesCount : Word} {round : Nat},
    s.pc = .composed work sharesCount round → round ≤ s.round ∧
      (round = s.round → sharesCount = s.sharesCount) ∧
      ∀ r ∈ s.numbered, r.round = round → r.sharesCount.toNat < sharesCount.toNat
  unique : UniqueIds s

theorem toNat_add_one {w : Word} (hw : w ≠ 0xffffffff) : (w + 1).toNat = w.toNat + 1 := by
  bv_omega

namespace CountedUp

variable {cfg : MinerConfig} {s s' : IdState} {e : IdEvent}

theorem congr (h : CountedUp s) (hcount : s'.sharesCount = s.sharesCount) (hround : s'.round = s.round)
    (hpc : s'.pc = s.pc) (hnumbered : s'.numbered = s.numbered) : CountedUp s' where
  past := by rw [hnumbered, hround]; exact h.past
  below := by rw [hnumbered, hround, hcount]; exact h.below
  composed hcomposed := by
    rw [hpc] at hcomposed
    rw [hnumbered, hround, hcount]
    exact h.composed hcomposed
  unique := by rw [UniqueIds, hnumbered]; exact h.unique

theorem zeroShares (h : CountedUp s) : CountedUp s.zeroShares where
  past r hr := (h.past r hr).trans (Nat.le_succ _)
  below r hr hround := by
    have hpast := h.past r hr
    change r.round = s.round + 1 at hround
    omega
  composed hcomposed := by
    obtain ⟨hpast, _, hbelow⟩ := h.composed hcomposed
    refine ⟨hpast.trans (Nat.le_succ _), fun hround => ?_, hbelow⟩
    change _ = s.round + 1 at hround
    omega
  unique := h.unique

theorem addShare (h : CountedUp s) (hlast : s.sharesCount ≠ 0xffffffff)
    (hpc : ∀ work sharesCount round, s.pc ≠ .composed work sharesCount round) : CountedUp s.addShare where
  past := h.past
  below r hr hround := by
    change r.sharesCount.toNat < (s.sharesCount + 1).toNat
    rw [toNat_add_one hlast]
    exact (h.below r hr hround).trans (Nat.lt_succ_self _)
  composed hcomposed := absurd hcomposed (hpc _ _ _)
  unique := h.unique

theorem idle (h : CountedUp s) {pc : SenderPc}
    (hpc : ∀ work sharesCount round, pc ≠ .composed work sharesCount round) : CountedUp { s with pc := pc } where
  past := h.past
  below := h.below
  composed hcomposed := absurd hcomposed (hpc _ _ _)
  unique := h.unique

theorem compose (h : CountedUp s) (work : Work) (queue : List Work) :
    CountedUp { s with queue := queue, pc := .composed work s.sharesCount s.round } where
  past := h.past
  below := h.below
  composed hcomposed := by
    cases hcomposed
    exact ⟨le_rfl, fun _ => rfl, h.below⟩
  unique := h.unique

/-- Two ids of one round differ because the counter has gone up in between. -/
theorem send (h : CountedUp s) {work : Work} {sharesCount : Word} {round : Nat}
    (hpc : s.pc = .composed work sharesCount round) (hlast : s.sharesCount ≠ 0xffffffff)
    (hsame : ∀ r ∈ s.numbered, r.connection = s.connection → r.jobid = work.jobId.drop 8 → r.round = round) :
    CountedUp { s.addShare with
      pc := .submitted
      numbered := s.numbered ++
        [{ connection := s.connection, work := work, sharesCount := sharesCount, round := round }] } := by
  obtain ⟨hpast, hcurrent, hbelow⟩ := h.composed hpc
  have hadded := toNat_add_one hlast
  constructor
  · intro r hr
    rcases List.mem_append.mp hr with hold | hnew
    · exact h.past r hold
    · rw [List.mem_singleton.mp hnew]
      exact hpast
  · intro r hr hround
    change r.sharesCount.toNat < (s.sharesCount + 1).toNat
    rw [hadded]
    rcases List.mem_append.mp hr with hold | hnew
    · exact (h.below r hold hround).trans (Nat.lt_succ_self _)
    · rw [List.mem_singleton.mp hnew] at hround ⊢
      rw [hcurrent hround]
      exact Nat.lt_succ_self _
  · intro work' sharesCount' round' hcomposed
    cases hcomposed
  · refine List.pairwise_append.mpr ⟨h.unique, List.pairwise_singleton _ _, fun r hr r' hr' hid => ?_⟩
    rw [List.mem_singleton.mp hr'] at hid
    have hlt := hbelow r hr (hsame r hr hid.1 hid.2.1)
    have heq : r.sharesCount = sharesCount := (BitVec.add_left_inj 10).mp hid.2.2
    rw [heq] at hlt
    exact lt_irrefl _ hlt

theorem step (h : CountedUp s) (hok : CountsOn s e) (hstep : idStep cfg s e = some s') : CountedUp s' := by
  cases e with
  | install work =>
    cases hstep
    exact h.congr rfl rfl rfl rfl
  | refresh i rand1 rand2 =>
    simp only [idStep] at hstep
    split_ifs at hstep
    · cases hstep
      exact h.zeroShares.congr rfl rfl rfl rfl
    · cases hstep
      exact h.congr rfl rfl rfl rfl
  | scan i work =>
    simp only [idStep] at hstep
    split_ifs at hstep
    cases hstep
    exact h.congr rfl rfl rfl rfl
  | submitWork i =>
    cases hstep
    exact h.congr rfl rfl rfl rfl
  | freeJob =>
    cases hstep
    exact h.zeroShares
  | connect =>
    cases hstep
    exact h.congr rfl rfl rfl rfl
  | compose allocated =>
    simp only [idStep] at hstep
    split at hstep
    · cases hstep
      split_ifs
      · exact h.compose _ _
      · have hidle : CountedUp { s with pc := .submitted } := h.idle fun _ _ _ hpc => (by cases hpc)
        exact hidle.congr rfl rfl rfl rfl
    · cases hstep
  | send ok =>
    simp only [idStep] at hstep
    split at hstep
    · rename_i work sharesCount round hpc
      cases hstep
      split_ifs with hsent
      · obtain ⟨hlast, hsame⟩ := hok hsent
        exact h.send hpc hlast (hsame work sharesCount round hpc)
      · exact h.idle fun _ _ _ hpc => (by cases hpc)
    · cases hstep
  | count =>
    simp only [idStep] at hstep
    split at hstep
    · rename_i hpc
      cases hstep
      have hadded := h.addShare hok fun _ _ _ hcomposed => by
        rw [hpc] at hcomposed
        cases hcomposed
      exact hadded.idle fun _ _ _ hcomposed => (by cases hcomposed)
    · cases hstep

end CountedUp

def idStart : IdState where
  gWork := zeroWork
  works := fun _ => zeroWork
  queue := []
  sharesCount := 0
  connection := 0
  pc := .idle
  round := 0
  numbered := []

theorem idStart_countedUp : CountedUp idStart where
  past _ hr := (by cases hr)
  below _ hr := (by cases hr)
  composed hpc := (by cases hpc)
  unique := List.Pairwise.nil

/-- In a run in which the counter is not zeroed between two shares of one job
and connection, no two of them have the same id. -/
theorem run_uniqueIds (cfg : MinerConfig) {es : List IdEvent}
    (hok : Along (idStep cfg) CountsOn idStart es) : Throughout (idStep cfg) UniqueIds idStart es :=
  throughout_of_along CountedUp.step CountedUp.unique idStart_countedUp hok

def numberedWork (nonce : Word) : Work :=
  { zeroWork with
    data := fun i => if i = 0 then 1 else 0
    jobId := ['0', '0', '0', '0', '0', '0', '0', ' ', '1']
    nonces := fun _ => nonce }

def numberingConfig : MinerConfig where
  aesenc := fun v _ => v
  build := .portable
  optShowdiff := true
  optNThreads := 2
  optDifficulty := 1.0

theorem run_uniqueIds_one :
    Throughout (idStep numberingConfig) UniqueIds idStart
      [.install (numberedWork 0), .refresh 0 0 0, .scan 0 (numberedWork 1), .submitWork 0, .compose true,
        .send true, .count] := by
  have hlast : (0 : Word) ≠ 0xffffffff ∧ (1 : Word) ≠ 0xffffffff := by decide
  refine run_uniqueIds numberingConfig ?_
  refine (along_cons rfl).mpr ⟨trivial, (along_cons rfl).mpr ⟨trivial, (along_cons rfl).mpr ⟨trivial, ?_⟩⟩⟩
  refine (along_cons rfl).mpr ⟨trivial, (along_cons rfl).mpr ⟨trivial, (along_cons rfl).mpr ⟨?_, ?_⟩⟩⟩
  · exact fun _ => ⟨hlast.1, fun _ _ _ _ _ hr => (by cases hr)⟩
  · exact (along_cons rfl).mpr ⟨hlast.2, trivial⟩

/-- One thread has submitted a share of the new job when another comes upon
it: the next share is numbered as the first was. -/
theorem two_shares_one_id :
    ∃ s a b, run (idStep numberingConfig) idStart
        [.install (numberedWork 0), .refresh 0 0 0, .scan 0 (numberedWork 1), .submitWork 0,
          .compose true, .send true, .count, .refresh 1 0 0, .scan 1 (numberedWork 2), .submitWork 1,
          .compose true, .send true] = some s ∧
      s.numbered = [a, b] ∧ SameId a b ∧ a.work.nonces 0 ≠ b.work.nonces 0 ∧ ¬ UniqueIds s := by
  let share (nonce : Word) (round : Nat) : SubmittedShare :=
    { connection := 0, work := submitFound (numberedWork nonce), sharesCount := 0, round := round }
  have hnonces : (1 : Word) ≠ 2 := by decide
  have hsame : SameId (share 1 1) (share 2 2) := ⟨rfl, by decide, by decide⟩
  refine ⟨_, share 1 1, share 2 2, rfl, rfl, hsame, hnonces, fun hunique => ?_⟩
  exact List.rel_of_pairwise_cons hunique List.mem_cons_self hsame

end VerusMiner
