import Mathlib.Data.BitVec
import Mathlib.Algebra.BigOperators.Group.List.Basic
import Mathlib.Order.Interval.Finset.Nat
import VerusMiner.Bytes
import VerusMiner.Lib.Runs

/-! The benchmark of the miner threads: a gate at which they wait for each
other before their first scan, and the limit of time at which one of them ends
the program. What a thread does while it holds `benchmark_lock` is one step. -/

namespace VerusMiner

/-- Where a thread is in its loop: at the head, on its way to the gate, before
the mutex, in `pthread_cond_wait`, at the limit of time, before the mutex again
with no time left, about to end the program, in a scan, or behind the loop. -/
inductive BenchPc where
  | head
  | pass
  | arriving
  | waiting (woken : Bool)
  | limit
  | stopping
  | aborting
  | scanning (since : Nat)
  | out
  deriving DecidableEq

def BenchPc.wakeUp : BenchPc → BenchPc
  | .waiting _ => .waiting true
  | pc => pc

structure BenchScan where
  thread : Nat
  since : Nat
  ended : Nat
  hashesDone : BitVec 64

/-- The first fields are the `benchmark_` variables; `starts` counts how often
the start has been set, `aborts` are the threads that have ended the program,
and `scans` are those that are over. -/
structure BenchState where
  arrived : Nat → Bool
  ready : Word
  go : Bool
  startedAt : Nat
  stopping : Bool
  hashes : Nat → BitVec 64
  endedAt : Nat → Nat
  abortFlag : Bool
  now : Nat
  pc : Nat → BenchPc
  starts : Nat
  aborts : List Nat
  scans : List BenchScan

structure BenchConfig where
  nThreads : Word
  timeLimit : Nat

inductive BenchEvent where
  | tick (d : Nat)
  | abort
  | head (t : Nat)
  | skip (t : Nat)
  | gate (t : Nat)
  | arrive (t : Nat)
  | wake (t : Nat)
  | resume (t : Nat)
  | limit (t : Nat)
  | stop (t : Nat)
  | abortAll (t : Nat)
  | scanned (t : Nat) (hashesDone : BitVec 64)

namespace BenchState

def goto (s : BenchState) (t : Nat) (pc : BenchPc) : BenchState := { s with pc := Function.update s.pc t pc }

/-- `while (!benchmark_go)`, and what follows it. -/
def waitGo (s : BenchState) (t : Nat) : BenchState := s.goto t (if s.go then .limit else .waiting false)

def openGate (s : BenchState) : BenchState :=
  { s with startedAt := s.now, starts := s.starts + 1, go := true, pc := fun t => (s.pc t).wakeUp }

def arrive (cfg : BenchConfig) (s : BenchState) (t : Nat) : BenchState :=
  let s :=
    if !s.arrived t then
      let s := { s with arrived := Function.update s.arrived t true, ready := s.ready + 1 }
      if s.ready = cfg.nThreads then s.openGate else s
    else s
  s.waitGo t

def checkLimit (cfg : BenchConfig) (s : BenchState) (t : Nat) : BenchState :=
  if 0 < cfg.timeLimit ∧ s.go = true ∧ cfg.timeLimit ≤ s.now - s.startedAt then s.goto t .stopping
  else s.goto t (.scanning s.now)

def stop (s : BenchState) (t : Nat) : BenchState :=
  if !s.stopping then { s.goto t .aborting with stopping := true } else s.goto t .out

def endScan (s : BenchState) (t since : Nat) (hashesDone : BitVec 64) : BenchState :=
  { s.goto t (if s.abortFlag then .out else .head) with
    hashes := Function.update s.hashes t (s.hashes t + hashesDone)
    endedAt := Function.update s.endedAt t s.now
    scans := s.scans ++ [{ thread := t, since := since, ended := s.now, hashesDone := hashesDone }] }

end BenchState

/-- `abort` is for whatever else ends the program, and `skip` for a pass that
does not come to the gate. -/
def benchStep (cfg : BenchConfig) (s : BenchState) : BenchEvent → Option BenchState
  | .tick d => some { s with now := s.now + d }
  | .abort => some { s with abortFlag := true }
  | .head t =>
    if t < cfg.nThreads.toNat ∧ s.pc t = .head then some (s.goto t (if s.abortFlag then .out else .pass)) else none
  | .skip t => if s.pc t = .pass then some (s.goto t .head) else none
  | .gate t => if s.pc t = .pass then some (s.goto t (if s.arrived t then .limit else .arriving)) else none
  | .arrive t => if s.pc t = .arriving then some (s.arrive cfg t) else none
  | .wake t => match s.pc t with
    | .waiting _ => some (s.goto t (.waiting true))
    | _ => none
  | .resume t => if s.pc t = .waiting true then some (s.waitGo t) else none
  | .limit t => if s.pc t = .limit then some (s.checkLimit cfg t) else none
  | .stop t => if s.pc t = .stopping then some (s.stop t) else none
  | .abortAll t =>
    if s.pc t = .aborting then some { s.goto t .out with abortFlag := true, aborts := s.aborts ++ [t] } else none
  | .scanned t hashesDone => match s.pc t with
    | .scanning since => some (s.endScan t since hashesDone)
    | _ => none

def benchStart : BenchState where
  arrived := fun _ => false
  ready := 0
  go := false
  startedAt := 0
  stopping := false
  hashes := fun _ => 0
  endedAt := fun _ => 0
  abortFlag := false
  now := 0
  pc := fun _ => .head
  starts := 0
  aborts := []
  scans := []

/-- The hashes and the end that `main` takes for the hashrate. -/
def benchmarkHashes (cfg : BenchConfig) (s : BenchState) : BitVec 64 :=
  ((List.range cfg.nThreads.toNat).map s.hashes).sum

def benchmarkEnded (cfg : BenchConfig) (s : BenchState) : Nat :=
  (List.range cfg.nThreads.toNat).foldl (fun ended t => if s.endedAt t > ended then s.endedAt t else ended)
    s.startedAt

/-- No thread is past the gate before all have come to it, and none is left
asleep behind it; a thread that has come and is not past it waits. -/
def AtGate (go : Bool) (arrived : Bool) : BenchPc → Prop
  | .head | .pass | .out => arrived = true → go = true
  | .arriving => arrived = false
  | .waiting woken => arrived = true ∧ (go = true → woken = true)
  | .limit | .stopping | .aborting | .scanning _ => go = true

/-- Whether the decision to end the program is taken, by whom, and whether it
has been carried out. -/
inductive StopOnce (stopping : Bool) (pc : Nat → BenchPc) (aborts : List Nat) : Prop
  | running (hstop : stopping = false) (hpc : ∀ u, pc u ≠ .aborting) (habort : aborts = [])
  | decided (t : Nat) (hstop : stopping = true) (hpc : ∀ u, pc u = .aborting → u = t) (habort : aborts = [])
      (hat : pc t = .aborting)
  | ended (t : Nat) (hstop : stopping = true) (hpc : ∀ u, pc u ≠ .aborting) (habort : aborts = [t])

def comeTo (n : Nat) (arrived : Nat → Bool) : Finset Nat := (Finset.range n).filter fun t => arrived t = true

/-- A scan that is over lies between the start and the end that its thread has
noted for itself. -/
def Noted (n startedAt : Nat) (endedAt : Nat → Nat) (r : BenchScan) : Prop :=
  r.thread < n ∧ startedAt ≤ r.since ∧ r.since ≤ r.ended ∧ r.ended ≤ endedAt r.thread

def Placed (cfg : BenchConfig) (s : BenchState) (t : Nat) (pc : BenchPc) : Prop :=
  AtGate s.go (s.arrived t) pc ∧ (cfg.nThreads.toNat ≤ t → pc = .head) ∧
    ∀ since, pc = .scanning since → s.startedAt ≤ since ∧ since ≤ s.now

structure BenchInv (cfg : BenchConfig) (s : BenchState) : Prop where
  ready : s.ready.toNat = (comeTo cfg.nThreads.toNat s.arrived).card
  missing : s.go = false → 0 < cfg.nThreads.toNat →
    (comeTo cfg.nThreads.toNat s.arrived).card < cfg.nThreads.toNat
  opened : s.go = true → ∀ t, t < cfg.nThreads.toNat → s.arrived t = true
  starts : s.starts = if s.go then 1 else 0
  placed : ∀ t, Placed cfg s t (s.pc t)
  clock : s.startedAt ≤ s.now
  ends : ∀ t, s.endedAt t ≤ s.now
  noted : ∀ r ∈ s.scans, Noted cfg.nThreads.toNat s.startedAt s.endedAt r
  early : s.go = false → s.scans = []
  hashes : benchmarkHashes cfg s = (s.scans.map BenchScan.hashesDone).sum
  stop : StopOnce s.stopping s.pc s.aborts

/-- What the benchmark reports is about all scans and about nothing else: they
begin when all threads have come, at the one start that is set, and end by the
end that is taken; and it is ended once. -/
structure GateKept (cfg : BenchConfig) (s : BenchState) : Prop where
  opens : 0 < cfg.nThreads.toNat → (∀ u < cfg.nThreads.toNat, s.arrived u = true) → s.starts = 1
  together : ∀ t since, s.pc t = .scanning since → s.starts = 1 ∧ ∀ u < cfg.nThreads.toNat, s.arrived u = true
  awake : s.starts = 1 → ∀ t, s.pc t ≠ .waiting false
  startedOnce : s.starts ≤ 1
  spanned : ∀ r ∈ s.scans, s.startedAt ≤ r.since ∧ r.since ≤ r.ended ∧ r.ended ≤ benchmarkEnded cfg s
  counted : benchmarkHashes cfg s = (s.scans.map BenchScan.hashesDone).sum
  endedOnce : s.aborts.length ≤ 1

section Sums

theorem sum_map_range_update {f : Nat → BitVec 64} {t n : Nat} (ht : t < n) (v : BitVec 64) :
    ((List.range n).map (Function.update f t (f t + v))).sum = ((List.range n).map f).sum + v := by
  induction n with
  | zero => omega
  | succ n ih =>
    rw [List.range_succ, List.map_append, List.map_append, List.sum_append, List.sum_append]
    rcases Nat.lt_succ_iff_lt_or_eq.mp ht with hlt | rfl
    · rw [ih hlt]
      have hne : n ≠ t := by omega
      simp only [List.map_cons, List.map_nil, Function.update_of_ne hne]
      ring
    · have hold : (List.range t).map (Function.update f t (f t + v)) = (List.range t).map f :=
        List.map_congr_left fun u hu => Function.update_of_ne (List.mem_range.mp hu).ne _ _
      rw [hold]
      simp only [List.map_cons, List.map_nil, Function.update_self, List.sum_cons, List.sum_nil]
      ring

theorem le_foldl_latest (f : Nat → Nat) (l : List Nat) (first : Nat) :
    first ≤ l.foldl (fun e t => if f t > e then f t else e) first ∧
      ∀ t ∈ l, f t ≤ l.foldl (fun e t => if f t > e then f t else e) first := by
  induction l generalizing first with
  | nil => simp
  | cons u l ih =>
    rw [List.foldl_cons]
    obtain ⟨hfirst, hrest⟩ := ih (if f u > first then f u else first)
    have hmax : first ≤ (if f u > first then f u else first) ∧ f u ≤ (if f u > first then f u else first) := by
      split <;> omega
    refine ⟨hmax.1.trans hfirst, fun t ht => ?_⟩
    rcases List.mem_cons.mp ht with rfl | ht
    · exact hmax.2.trans hfirst
    · exact hrest t ht

end Sums

section Invariant

variable {cfg : BenchConfig} {s s' : BenchState} {e : BenchEvent}

theorem card_comeTo_lt_iff {n : Nat} {arrived : Nat → Bool} :
    (comeTo n arrived).card < n ↔ ∃ u < n, arrived u = false := by
  have hsub : comeTo n arrived ⊆ Finset.range n := Finset.filter_subset _ _
  constructor
  · intro hlt
    by_contra hnone
    have heq : comeTo n arrived = Finset.range n := by
      refine Finset.filter_true_of_mem fun u hu => ?_
      by_contra hout
      exact hnone ⟨u, Finset.mem_range.mp hu, Bool.eq_false_iff.mpr hout⟩
    rw [heq, Finset.card_range] at hlt
    omega
  · rintro ⟨u, hu, hout⟩
    have hnot : u ∉ comeTo n arrived := by simp [comeTo, hout]
    have hlt := Finset.card_lt_card
      ((Finset.ssubset_iff_of_subset hsub).mpr ⟨u, Finset.mem_range.mpr hu, hnot⟩)
    rwa [Finset.card_range] at hlt

theorem comeTo_update {n t : Nat} {arrived : Nat → Bool} (ht : t < n) (hout : arrived t = false) :
    (comeTo n (Function.update arrived t true)).card = (comeTo n arrived).card + 1 := by
  have hnot : t ∉ comeTo n arrived := by simp [comeTo, hout]
  have hinsert : comeTo n (Function.update arrived t true) = insert t (comeTo n arrived) := by
    ext u
    by_cases hu : u = t
    · subst hu
      simp [comeTo, ht]
    · simp [comeTo, hu]
  rw [hinsert, Finset.card_insert_of_notMem hnot]

theorem BenchInv.gateKept (h : BenchInv cfg s) : GateKept cfg s where
  opens hpos hall := by
    have hgo : s.go = true := by
      by_contra hgo
      obtain ⟨u, hu, hout⟩ := card_comeTo_lt_iff.mp (h.missing (Bool.eq_false_iff.mpr hgo) hpos)
      rw [hall u hu] at hout
      cases hout
    rw [h.starts, if_pos hgo]
  together t since hpc := by
    have hat := (h.placed t).1
    rw [hpc] at hat
    have hgo : s.go = true := hat
    exact ⟨by rw [h.starts, if_pos hgo], h.opened hgo⟩
  awake hstarts t hpc := by
    have hat := (h.placed t).1
    rw [hpc] at hat
    have hgo : s.go = true := by
      by_contra hgo
      rw [h.starts, if_neg hgo] at hstarts
      omega
    exact absurd (hat.2 hgo) (by decide)
  startedOnce := by
    rw [h.starts]
    split <;> omega
  spanned r hr := by
    obtain ⟨hthread, hsince, hended, hnoted⟩ := h.noted r hr
    have hlatest := (le_foldl_latest s.endedAt (List.range cfg.nThreads.toNat) s.startedAt).2 r.thread
      (List.mem_range.mpr hthread)
    exact ⟨hsince, hended, hnoted.trans hlatest⟩
  counted := h.hashes
  endedOnce := by
    cases h.stop with
    | running _ _ habort => simp [habort]
    | decided _ _ _ habort _ => simp [habort]
    | ended _ _ _ habort => simp [habort]

theorem BenchInv.lt_of_pc (h : BenchInv cfg s) {t : Nat} (hpc : s.pc t ≠ .head) : t < cfg.nThreads.toNat := by
  by_contra hlt
  exact hpc ((h.placed t).2.1 (by omega))

theorem BenchInv.go_of_pc (h : BenchInv cfg s) {t : Nat} {pc : BenchPc} (hpc : s.pc t = pc)
    (hpast : ∀ go arrived, AtGate go arrived pc → go = true) : s.go = true :=
  hpast s.go (s.arrived t) (hpc ▸ (h.placed t).1)

theorem StopOnce.congr {pc pc' : Nat → BenchPc} {stopping : Bool} {aborts : List Nat}
    (h : StopOnce stopping pc aborts) (hpc : ∀ u, pc' u = .aborting ↔ pc u = .aborting) :
    StopOnce stopping pc' aborts := by
  cases h with
  | running hstop hnone habort => exact .running hstop (fun u => mt (hpc u).mp (hnone u)) habort
  | decided v hstop hone habort hv =>
    exact .decided v hstop (fun u hu => hone u ((hpc u).mp hu)) habort ((hpc v).mpr hv)
  | ended v hstop hnone habort => exact .ended v hstop (fun u => mt (hpc u).mp (hnone u)) habort

theorem StopOnce.update {pc : Nat → BenchPc} {stopping : Bool} {aborts : List Nat}
    (h : StopOnce stopping pc aborts) {t : Nat} {pct : BenchPc} (hold : pc t ≠ .aborting)
    (hnew : pct ≠ .aborting) :
    StopOnce stopping (Function.update pc t pct) aborts :=
  h.congr fun u => by
    by_cases hu : u = t
    · subst hu
      rw [Function.update_self]
      exact iff_of_false hnew hold
    · rw [Function.update_of_ne hu]

/-- A thread goes on to a place it may be at. -/
theorem BenchInv.move (h : BenchInv cfg s) {t : Nat} {pc : BenchPc} (hat : Placed cfg s t pc)
    {stopping abortFlag : Bool}
    {aborts : List Nat} (hstop : StopOnce stopping (Function.update s.pc t pc) aborts) :
    BenchInv cfg { s.goto t pc with stopping := stopping, abortFlag := abortFlag, aborts := aborts } :=
  { h with
    placed := (Function.forall_update_iff s.pc fun u pc => Placed cfg s u pc).mpr ⟨hat, fun u _ => h.placed u⟩
    stop := hstop }

theorem BenchInv.goto (h : BenchInv cfg s) {t : Nat} {pc : BenchPc} (hat : Placed cfg s t pc)
    (hold : s.pc t ≠ .aborting) (hnew : pc ≠ .aborting) : BenchInv cfg (s.goto t pc) :=
  h.move hat (h.stop.update hold hnew)

theorem Placed.of_gate {t : Nat} {pc : BenchPc} (ht : t < cfg.nThreads.toNat)
    (hat : AtGate s.go (s.arrived t) pc) (hscan : ∀ since, pc ≠ .scanning since) : Placed cfg s t pc :=
  ⟨hat, fun hle => absurd hle (by omega), fun since hpc => absurd hpc (hscan since)⟩

theorem BenchInv.waitGo (h : BenchInv cfg s) {t : Nat} (ht : t < cfg.nThreads.toNat) (hin : s.arrived t = true)
    (hold : s.pc t ≠ .aborting) : BenchInv cfg (s.waitGo t) := by
  rw [BenchState.waitGo]
  cases hgo : s.go with
  | true => exact h.goto (.of_gate ht hgo nofun) hold nofun
  | false => exact h.goto (.of_gate ht ⟨hin, fun htrue => by simp [hgo] at htrue⟩ nofun) hold nofun

theorem arrive_early {t : Nat} (hout : s.arrived t = false) (hgo : s.go = false)
    (hready : s.ready + 1 ≠ cfg.nThreads) :
    s.arrive cfg t =
      { s.goto t (.waiting false) with arrived := Function.update s.arrived t true, ready := s.ready + 1 } := by
  simp only [BenchState.arrive, hout, Bool.not_false, if_true, if_neg hready]
  change BenchState.goto _ t (if s.go = true then _ else _) = _
  rw [if_neg (by simp [hgo])]
  rfl

theorem arrive_last {t : Nat} (hout : s.arrived t = false) (hready : s.ready + 1 = cfg.nThreads) :
    s.arrive cfg t =
      { s with
        arrived := Function.update s.arrived t true
        ready := s.ready + 1
        startedAt := s.now
        starts := s.starts + 1
        go := true
        pc := Function.update (fun u => (s.pc u).wakeUp) t .limit } := by
  simp only [BenchState.arrive, hout, Bool.not_false, if_true, if_pos hready]
  rfl

theorem wakeUp_eq_aborting {pc : BenchPc} : pc.wakeUp = .aborting ↔ pc = .aborting := by
  cases pc <;> simp [BenchPc.wakeUp]

theorem atGate_wakeUp {arrived : Bool} {pc : BenchPc} (h : AtGate false arrived pc) :
    AtGate true arrived pc.wakeUp ∧ ∀ since, pc.wakeUp ≠ .scanning since := by
  cases pc <;> simp_all [AtGate, BenchPc.wakeUp]

theorem wakeUp_head {pc : BenchPc} (h : pc = .head) : pc.wakeUp = .head := by
  subst h
  rfl

theorem BenchInv.closed (h : BenchInv cfg s) {t : Nat} (hpc : s.pc t = .arriving) :
    t < cfg.nThreads.toNat ∧ s.arrived t = false ∧ s.go = false := by
  have ht : t < cfg.nThreads.toNat := h.lt_of_pc (by simp [hpc])
  have hout : s.arrived t = false := by
    have hat := (h.placed t).1
    rwa [hpc] at hat
  refine ⟨ht, hout, Bool.eq_false_iff.mpr fun hgo => ?_⟩
  rw [h.opened hgo t ht] at hout
  cases hout

theorem BenchInv.ready_succ (h : BenchInv cfg s) {t : Nat} (hpc : s.pc t = .arriving) :
    (s.ready + 1).toNat = (comeTo cfg.nThreads.toNat (Function.update s.arrived t true)).card := by
  obtain ⟨ht, hout, hgo⟩ := h.closed hpc
  have hmissing := h.missing hgo (by omega)
  have hlt : (comeTo cfg.nThreads.toNat s.arrived).card + 1 < 2 ^ 32 := by
    have hn := cfg.nThreads.isLt
    omega
  rw [comeTo_update ht hout, BitVec.toNat_add, h.ready]
  exact Nat.mod_eq_of_lt hlt

theorem BenchInv.arrive_early (h : BenchInv cfg s) {t : Nat} (hpc : s.pc t = .arriving)
    (hready : s.ready + 1 ≠ cfg.nThreads) : BenchInv cfg (s.arrive cfg t) := by
  obtain ⟨ht, hout, hgo⟩ := h.closed hpc
  have hcount := h.ready_succ hpc
  have hclosed : ¬ s.go = true := by simp [hgo]
  rw [VerusMiner.arrive_early hout hgo hready]
  exact
    { h with
      ready := hcount
      missing := fun _ hpos => by
        have hmissing := h.missing hgo hpos
        have hne : (s.ready + 1).toNat ≠ cfg.nThreads.toNat := fun heq => hready (BitVec.eq_of_toNat_eq heq)
        have hupdate := comeTo_update ht hout
        rw [hcount] at hne
        dsimp only
        omega
      opened := fun hopen => absurd hopen hclosed
      placed := fun u => by
        by_cases hu : u = t
        · subst hu
          refine .of_gate ht ?_ ?_ <;> simp [BenchState.goto, AtGate, hgo]
        · have hat := h.placed u
          simpa [Placed, BenchState.goto, hu] using hat
      stop := h.stop.update (by simp [hpc]) (by simp) }

theorem BenchInv.arrive_last (h : BenchInv cfg s) {t : Nat} (hpc : s.pc t = .arriving)
    (hready : s.ready + 1 = cfg.nThreads) : BenchInv cfg (s.arrive cfg t) := by
  obtain ⟨ht, hout, hgo⟩ := h.closed hpc
  have hcount := h.ready_succ hpc
  have hall (u : Nat) (hu : u < cfg.nThreads.toNat) : Function.update s.arrived t true u = true := by
    by_contra hnot
    have hlt := card_comeTo_lt_iff.mpr ⟨u, hu, Bool.eq_false_iff.mpr hnot⟩
    rw [← hcount, hready] at hlt
    omega
  have hnone := h.early hgo
  rw [VerusMiner.arrive_last hout hready]
  exact
    { h with
      ready := hcount
      missing := nofun
      opened := fun _ => hall
      starts := by
        have hstarts := h.starts
        rw [if_neg (by simp [hgo])] at hstarts
        simp [hstarts]
      placed := fun u => by
        by_cases hu : u = t
        · subst hu
          refine .of_gate ht ?_ ?_ <;> simp [AtGate]
        · have hat := (h.placed u).1
          rw [hgo] at hat
          have hwoken := atGate_wakeUp hat
          dsimp only
          rw [Function.update_of_ne hu]
          refine ⟨?_, fun hle => wakeUp_head ((h.placed u).2.1 hle), fun since hs => absurd hs (hwoken.2 since)⟩
          simpa only [Function.update_of_ne hu] using hwoken.1
      clock := le_rfl
      noted := fun r hr => by
        rw [show s.scans = [] from hnone] at hr
        cases hr
      early := nofun
      stop := (h.stop.congr fun u => wakeUp_eq_aborting).update
        (by rw [Ne, wakeUp_eq_aborting, hpc]; nofun) nofun }

theorem BenchInv.tick (h : BenchInv cfg s) (d : Nat) : BenchInv cfg { s with now := s.now + d } :=
  { h with
    placed := fun u => by
      obtain ⟨hat, hout, hscan⟩ := h.placed u
      exact ⟨hat, hout, fun since hs => ⟨(hscan since hs).1, (hscan since hs).2.trans (Nat.le_add_right _ _)⟩⟩
    clock := h.clock.trans (Nat.le_add_right _ _)
    ends := fun u => (h.ends u).trans (Nat.le_add_right _ _) }

theorem BenchInv.stopped (h : BenchInv cfg s) {t : Nat} (hpc : s.pc t = .stopping) : BenchInv cfg (s.stop t) := by
  have ht : t < cfg.nThreads.toNat := h.lt_of_pc (by simp [hpc])
  have hgo : s.go = true := h.go_of_pc hpc fun _ _ => id
  rw [BenchState.stop]
  cases hstop : s.stopping with
  | true => exact h.goto (.of_gate ht (fun _ => hgo) nofun) (by simp [hpc]) nofun
  | false =>
    have hat : Placed cfg s t .aborting := .of_gate ht hgo nofun
    refine h.move hat ?_
    cases h.stop with
    | running _ hnone habort =>
      refine .decided t rfl (fun u hu => ?_) habort (by simp)
      by_contra hut
      exact hnone u (by simpa [hut] using hu)
    | decided _ htrue _ _ _ => simp [hstop] at htrue
    | ended _ htrue _ _ => simp [hstop] at htrue

theorem BenchInv.abortAll (h : BenchInv cfg s) {t : Nat} (hpc : s.pc t = .aborting) :
    BenchInv cfg { s.goto t .out with abortFlag := true, aborts := s.aborts ++ [t] } := by
  have ht : t < cfg.nThreads.toNat := h.lt_of_pc (by simp [hpc])
  have hgo : s.go = true := h.go_of_pc hpc fun _ _ => id
  have hat : Placed cfg s t .out := .of_gate ht (fun _ => hgo) nofun
  refine h.move hat ?_
  cases h.stop with
  | running _ hnone _ => exact absurd hpc (hnone t)
  | decided v hstop hone habort _ =>
    obtain rfl := hone t hpc
    refine .ended t hstop (fun u hu => ?_) (by simp [habort])
    by_cases hut : u = t
    · subst hut
      simp at hu
    · exact hut (hone u (by simpa [hut] using hu))
  | ended _ _ hnone _ => exact absurd hpc (hnone t)

theorem Noted.later {n startedAt now : Nat} {endedAt : Nat → Nat} {r : BenchScan} (h : Noted n startedAt endedAt r)
    (hends : ∀ t, endedAt t ≤ now) (t : Nat) : Noted n startedAt (Function.update endedAt t now) r := by
  obtain ⟨hthread, hsince, hended, hnoted⟩ := h
  refine ⟨hthread, hsince, hended, ?_⟩
  by_cases hr : r.thread = t
  · rw [hr, Function.update_self]
    rw [hr] at hnoted
    exact hnoted.trans (hends t)
  · rwa [Function.update_of_ne hr]

theorem BenchInv.endScan (h : BenchInv cfg s) {t since : Nat} (hpc : s.pc t = .scanning since)
    (hashesDone : BitVec 64) : BenchInv cfg (s.endScan t since hashesDone) := by
  have ht : t < cfg.nThreads.toNat := h.lt_of_pc (by simp [hpc])
  have hgo : s.go = true := h.go_of_pc hpc fun _ _ => id
  obtain ⟨hsince, hnow⟩ := (h.placed t).2.2 since hpc
  have hat : Placed cfg s t (if s.abortFlag then .out else .head) := by
    split
    · exact .of_gate ht (fun _ => hgo) nofun
    · exact .of_gate ht (fun _ => hgo) nofun
  have hmoved : BenchInv cfg (s.goto t (if s.abortFlag then .out else .head)) :=
    h.goto hat (by simp [hpc]) (by split <;> nofun)
  exact
    { hmoved with
      ends := (Function.forall_update_iff s.endedAt fun _ ended => ended ≤ s.now).mpr
        ⟨le_rfl, fun u _ => h.ends u⟩
      noted := fun r hr => by
        rcases List.mem_append.mp hr with hold | hnew
        · exact (h.noted r hold).later h.ends t
        · obtain rfl := List.mem_singleton.mp hnew
          exact ⟨ht, hsince, hnow, (Function.update_self t s.now s.endedAt).ge⟩
      early := fun hclosed => absurd (hgo.symm.trans hclosed) nofun
      hashes := by
        have hsum := sum_map_range_update (f := s.hashes) ht hashesDone
        rw [BenchState.endScan, List.map_append, List.sum_append, ← h.hashes, benchmarkHashes, hsum]
        simp [benchmarkHashes] }

theorem BenchInv.checkLimit (h : BenchInv cfg s) {t : Nat} (hpc : s.pc t = .limit) :
    BenchInv cfg (s.checkLimit cfg t) := by
  have ht : t < cfg.nThreads.toNat := h.lt_of_pc (by simp [hpc])
  have hgo : s.go = true := h.go_of_pc hpc fun _ _ => id
  rw [BenchState.checkLimit]
  split
  · exact h.goto (.of_gate ht hgo nofun) (by simp [hpc]) nofun
  · refine h.goto ⟨hgo, fun hle => absurd hle (by omega), fun since hs => ?_⟩ (by simp [hpc]) nofun
    cases hs
    exact ⟨h.clock, le_rfl⟩

theorem benchStep_inv (h : BenchInv cfg s) (hstep : benchStep cfg s e = some s') : BenchInv cfg s' := by
  cases e with
  | tick d =>
    cases hstep
    exact h.tick d
  | abort =>
    cases hstep
    exact { h with }
  | head t =>
    obtain ⟨⟨ht, hpc⟩, hs⟩ := Option.ite_none_right_eq_some.mp hstep
    cases hs
    have hat : s.arrived t = true → s.go = true := by
      have hat := (h.placed t).1
      rwa [hpc] at hat
    refine h.goto ?_ (by simp [hpc]) (by split <;> nofun)
    split
    · exact .of_gate ht hat nofun
    · exact .of_gate ht hat nofun
  | skip t =>
    obtain ⟨hpc, hs⟩ := Option.ite_none_right_eq_some.mp hstep
    cases hs
    have hat := (h.placed t).1
    rw [hpc] at hat
    exact h.goto (.of_gate (h.lt_of_pc (by simp [hpc])) hat nofun) (by simp [hpc]) nofun
  | gate t =>
    obtain ⟨hpc, hs⟩ := Option.ite_none_right_eq_some.mp hstep
    cases hs
    have ht : t < cfg.nThreads.toNat := h.lt_of_pc (by simp [hpc])
    have hat : s.arrived t = true → s.go = true := by
      have hat := (h.placed t).1
      rwa [hpc] at hat
    refine h.goto ?_ (by simp [hpc]) (by split <;> nofun)
    split
    · next hin => exact .of_gate ht (hat hin) nofun
    · next hout => exact .of_gate ht (Bool.eq_false_iff.mpr hout) nofun
  | arrive t =>
    obtain ⟨hpc, hs⟩ := Option.ite_none_right_eq_some.mp hstep
    cases hs
    by_cases hready : s.ready + 1 = cfg.nThreads
    · exact h.arrive_last hpc hready
    · exact h.arrive_early hpc hready
  | wake t =>
    simp only [benchStep] at hstep
    split at hstep
    · next woken hpc =>
      cases hstep
      have hat := (h.placed t).1
      rw [hpc] at hat
      exact h.goto (.of_gate (h.lt_of_pc (by simp [hpc])) ⟨hat.1, fun _ => rfl⟩ nofun) (by simp [hpc]) nofun
    · cases hstep
  | resume t =>
    obtain ⟨hpc, hs⟩ := Option.ite_none_right_eq_some.mp hstep
    cases hs
    have hat := (h.placed t).1
    rw [hpc] at hat
    exact h.waitGo (h.lt_of_pc (by simp [hpc])) hat.1 (by simp [hpc])
  | limit t =>
    obtain ⟨hpc, hs⟩ := Option.ite_none_right_eq_some.mp hstep
    cases hs
    exact h.checkLimit hpc
  | stop t =>
    obtain ⟨hpc, hs⟩ := Option.ite_none_right_eq_some.mp hstep
    cases hs
    exact h.stopped hpc
  | abortAll t =>
    obtain ⟨hpc, hs⟩ := Option.ite_none_right_eq_some.mp hstep
    cases hs
    exact h.abortAll hpc
  | scanned t hashesDone =>
    simp only [benchStep] at hstep
    split at hstep
    · next since hpc =>
      cases hstep
      exact h.endScan hpc hashesDone
    · cases hstep

theorem benchStart_inv (cfg : BenchConfig) : BenchInv cfg benchStart where
  ready := by simp [benchStart, comeTo]
  missing _ hpos := by simpa [benchStart, comeTo] using hpos
  opened := nofun
  starts := rfl
  placed t := ⟨nofun, fun _ => rfl, nofun⟩
  clock := le_rfl
  ends t := le_rfl
  noted := nofun
  early _ := rfl
  hashes := by simp [benchmarkHashes, benchStart]
  stop := .running rfl nofun rfl

end Invariant

/-- In every run of the threads, whatever ends their passes or the program. -/
theorem run_gateKept (cfg : BenchConfig) (es : List BenchEvent) :
    Throughout (benchStep cfg) (GateKept cfg) benchStart es :=
  throughout_of_invariant benchStep_inv BenchInv.gateKept (benchStart_inv cfg) es

section Closed

variable {cfg : BenchConfig} {s s' : BenchState} {e : BenchEvent}

/-- The thread whose place in its loop a step may change. -/
def BenchEvent.thread : BenchEvent → Option Nat
  | .tick _ | .abort => none
  | .head t | .skip t | .gate t | .arrive t | .wake t | .resume t | .limit t | .stop t | .abortAll t
  | .scanned t _ => some t

theorem benchStep_others (hstep : benchStep cfg s e = some s') {u : Nat} (hu : e.thread ≠ some u) :
    s'.arrived u = s.arrived u ∧ (s'.pc u = s.pc u ∨ s'.pc u = (s.pc u).wakeUp) := by
  cases e with
  | tick d =>
    cases hstep
    exact ⟨rfl, .inl rfl⟩
  | abort =>
    cases hstep
    exact ⟨rfl, .inl rfl⟩
  | arrive t =>
    have hne : u ≠ t := fun heq => hu (congrArg some heq.symm)
    obtain ⟨_, hs⟩ := Option.ite_none_right_eq_some.mp hstep
    cases hs
    simp only [BenchState.arrive, BenchState.waitGo, BenchState.goto, BenchState.openGate]
    split_ifs <;> simp [hne]
  | wake t =>
    have hne : u ≠ t := fun heq => hu (congrArg some heq.symm)
    simp only [benchStep] at hstep
    split at hstep
    · cases hstep
      exact ⟨rfl, .inl (Function.update_of_ne hne _ _)⟩
    · cases hstep
  | scanned t hashesDone =>
    have hne : u ≠ t := fun heq => hu (congrArg some heq.symm)
    simp only [benchStep] at hstep
    split at hstep
    · cases hstep
      exact ⟨rfl, .inl (Function.update_of_ne hne _ _)⟩
    · cases hstep
  | head t | skip t | gate t | resume t | limit t | stop t | abortAll t =>
    have hne : u ≠ t := fun heq => hu (congrArg some heq.symm)
    obtain ⟨_, hs⟩ := Option.ite_none_right_eq_some.mp hstep
    cases hs
    simp only [BenchState.waitGo, BenchState.checkLimit, BenchState.stop, BenchState.goto]
    (try split) <;> simp [hne]

theorem benchStep_out (hstep : benchStep cfg s e = some s') {t : Nat} (hpc : s.pc t = .out) :
    s'.pc t = .out ∧ s'.arrived t = s.arrived t := by
  have hne : e.thread ≠ some t := by
    intro he
    cases e <;> simp_all [BenchEvent.thread, benchStep]
  obtain ⟨harrived, hsame | hwoken⟩ := benchStep_others hstep hne
  · exact ⟨hsame.trans hpc, harrived⟩
  · exact ⟨by rw [hwoken, hpc, BenchPc.wakeUp]; nofun, harrived⟩

theorem benchStep_waiting (hstep : benchStep cfg s e = some s') (hgo : s.go = false) {u : Nat}
    (hpc : ∃ woken, s.pc u = .waiting woken) : ∃ woken, s'.pc u = .waiting woken := by
  obtain ⟨woken, hpc⟩ := hpc
  by_cases hu : e.thread = some u
  · cases e with
    | wake t =>
      cases hu
      simp only [benchStep, hpc] at hstep
      cases hstep
      exact ⟨true, Function.update_self _ _ _⟩
    | resume t =>
      cases hu
      obtain ⟨_, hs⟩ := Option.ite_none_right_eq_some.mp hstep
      cases hs
      exact ⟨false, by simp [BenchState.waitGo, BenchState.goto, hgo]⟩
    | _ => simp_all [BenchEvent.thread, benchStep]
  · obtain ⟨_, hsame | hwoken⟩ := benchStep_others hstep hu
    · exact ⟨woken, hsame.trans hpc⟩
    · exact ⟨true, by rw [hwoken, hpc, BenchPc.wakeUp]⟩

end Closed

/-- A thread that has left its loop without coming to the gate leaves it closed
for good: whoever waits there waits for ever, and `main` for them. -/
theorem run_gate_closed {cfg : BenchConfig} {es : List BenchEvent} {s : BenchState}
    (hrun : run (benchStep cfg) benchStart es = some s) {t : Nat} (ht : t < cfg.nThreads.toNat)
    (hpc : s.pc t = .out) (hout : s.arrived t = false) (es' : List BenchEvent) :
    Throughout (benchStep cfg)
      (fun s' => s'.scans = s.scans ∧
        ∀ u woken, s.pc u = .waiting woken → ∃ woken', s'.pc u = .waiting woken') s es' := by
  have hinv : BenchInv cfg s := run_invariant benchStep_inv hrun (benchStart_inv cfg)
  have hclosed {s' : BenchState} (h : BenchInv cfg s') (hout' : s'.arrived t = false) : s'.go = false := by
    rw [Bool.eq_false_iff]
    intro hgo
    rw [h.opened hgo t ht] at hout'
    cases hout'
  refine throughout_of_invariant
    (I := fun s' => BenchInv cfg s' ∧ s'.pc t = .out ∧ s'.arrived t = false ∧
      ∀ u woken, s.pc u = .waiting woken → ∃ woken', s'.pc u = .waiting woken')
    ?_ ?_ ⟨hinv, hpc, hout, fun u woken hu => ⟨woken, hu⟩⟩ es'
  · rintro s₁ e s₂ ⟨h, hpc₁, hout₁, hwait⟩ hstep
    obtain ⟨hpc₂, harrived⟩ := benchStep_out hstep hpc₁
    exact ⟨benchStep_inv h hstep, hpc₂, harrived.trans hout₁,
      fun u woken hu => benchStep_waiting hstep (hclosed h hout₁) (hwait u woken hu)⟩
  · rintro s' ⟨h, _, hout', hwait⟩
    exact ⟨(h.early (hclosed h hout')).trans (hinv.early (hclosed hinv hout)).symm, hwait⟩

def leftBehind : List BenchEvent := [.head 0, .gate 0, .arrive 0, .abort, .head 1]

/-- Of two threads one waits, and the other leaves when the program is ended. -/
theorem run_gate_closed_two :
    ∃ s, run (benchStep ⟨2, 60⟩) benchStart leftBehind = some s ∧
      ∀ es', Throughout (benchStep ⟨2, 60⟩)
        (fun s' => s'.scans = s.scans ∧
          ∀ u woken, s.pc u = .waiting woken → ∃ woken', s'.pc u = .waiting woken') s es' := by
  refine ⟨_, rfl, ?_⟩
  have hrun : run (benchStep ⟨2, 60⟩) benchStart leftBehind = some _ := rfl
  exact run_gate_closed hrun (t := 1) (by decide) rfl rfl

end VerusMiner
