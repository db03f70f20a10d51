import Mathlib.Data.Finset.Card
import Mathlib.Order.Interval.Finset.Nat
import VerusMiner.Bytes
import VerusMiner.Lib.Runs

/-! The barrier for macOS. What a thread does while it holds the mutex is one
step; waiting for the condition gives the mutex away, and a thread may come
back from it at any time. -/

namespace VerusMiner

structure Barrier where
  arrived : Word
  required : Word
  generation : Word
  deriving DecidableEq

/-- No result is that it returned -1. -/
def pthreadBarrierInit (mutexFails condFails : Bool) (count : Word) : Option Barrier :=
  if count = 0 then none
  else if mutexFails then none
  else if condFails then none
  else some { arrived := 0, required := count, generation := 0 }

/-- Where a thread is: outside, or in `pthread_cond_wait` with the generation
it has read, asleep or already woken. -/
inductive BarrierPc where
  | outside
  | waiting (generation : Word) (woken : Bool)
  deriving DecidableEq

def BarrierPc.wakeUp : BarrierPc → BarrierPc
  | .outside => .outside
  | .waiting generation _ => .waiting generation true

/-- `entered` counts the calls a thread has made, and `results` are what those
that have returned gave, in their order. -/
structure BarrierState where
  barrier : Barrier
  pc : Nat → BarrierPc
  entered : Nat → Nat
  results : Nat → List Nat

inductive BarrierEvent where
  | enter (t : Nat)
  | wake (t : Nat)
  | resume (t : Nat)

namespace BarrierState

def goto (s : BarrierState) (t : Nat) (pc : BarrierPc) : BarrierState :=
  { s with pc := Function.update s.pc t pc }

def leave (s : BarrierState) (t rc : Nat) : BarrierState :=
  { s.goto t .outside with results := Function.update s.results t (s.results t ++ [rc]) }

def arrive (s : BarrierState) : BarrierState :=
  { s with barrier := { s.barrier with arrived := s.barrier.arrived + 1 } }

def broadcast (s : BarrierState) : BarrierState := { s with pc := fun t => (s.pc t).wakeUp }

def nextRound (s : BarrierState) : BarrierState :=
  { s with barrier := { s.barrier with arrived := 0, generation := s.barrier.generation + 1 } }

/-- The loop of `pthread_barrier_wait`, from its condition on. -/
def waitLoop (s : BarrierState) (t : Nat) (generation : Word) : BarrierState :=
  if generation = s.barrier.generation then s.goto t (.waiting generation false) else s.leave t 0

/-- `pthread_barrier_wait` up to its end, or to where it waits. -/
def pthreadBarrierWait (s : BarrierState) (t : Nat) : BarrierState :=
  let generation := s.barrier.generation
  let s := s.arrive
  if s.barrier.arrived = s.barrier.required then s.nextRound.broadcast.leave t 1
  else s.waitLoop t generation

/-- A call is counted where it is made, whatever becomes of it. -/
def call (s : BarrierState) (t : Nat) : BarrierState :=
  { s with entered := Function.update s.entered t (s.entered t + 1) }

end BarrierState

/-- As many threads as the barrier requires use it. -/
def barrierStep (s : BarrierState) : BarrierEvent → Option BarrierState
  | .enter t =>
    if t < s.barrier.required.toNat ∧ s.pc t = .outside then some ((s.call t).pthreadBarrierWait t)
    else none
  | .wake t => match s.pc t with
    | .waiting generation _ => some (s.goto t (.waiting generation true))
    | .outside => none
  | .resume t => match s.pc t with
    | .waiting generation true => some (s.waitLoop t generation)
    | _ => none

def barrierStart (b : Barrier) : BarrierState where
  barrier := b
  pc := fun _ => .outside
  entered := fun _ => 0
  results := fun _ => []

/-- Where a thread is when `round` rounds are complete: it has not entered the
next one, or waits for the others in it, or has still to leave the last. -/
inductive InRound (round : Nat) (pc : BarrierPc) (entered returned : Nat) : Prop
  | outside (hpc : pc = .outside) (hin : entered = round) (hout : returned = round)
  | arrived (woken : Bool) (hpc : pc = .waiting (.ofNat 32 round) woken) (hin : entered = round + 1)
    (hout : returned = round)
  | released (last : Nat) (hround : round = last + 1) (hpc : pc = .waiting (.ofNat 32 last) true)
    (hin : entered = round) (hout : returned = last)

def present (n round : Nat) (entered : Nat → Nat) : Finset Nat :=
  (Finset.range n).filter fun t => entered t = round + 1

/-- One of the `n` threads has the result 1 in round `k`, and each other one has
the result 0 or is still to leave the round. -/
def OneReleaser (n k : Nat) (pc : Nat → BarrierPc) (results : Nat → List Nat) : Prop :=
  ∃ t, t < n ∧ (results t)[k]? = some 1 ∧ ∀ u, u < n → u ≠ t →
    (results u)[k]? = some 0 ∨ (results u).length = k ∧ pc u ≠ .outside

structure BarrierInv (n round : Nat) (s : BarrierState) : Prop where
  required : s.barrier.required.toNat = n
  generation : s.barrier.generation = .ofNat 32 round
  arrived : s.barrier.arrived.toNat = (present n round s.entered).card
  missing : (present n round s.entered).card < n
  threads : ∀ t, t < n → InRound round (s.pc t) (s.entered t) (s.results t).length
  releaser : ∀ k, k < round → OneReleaser n k s.pc s.results

theorem ofNat_ne_succ (k : Nat) : (BitVec.ofNat 32 k) ≠ BitVec.ofNat 32 (k + 1) := by
  intro h
  have hmod := congrArg BitVec.toNat h
  simp only [BitVec.toNat_ofNat] at hmod
  omega

section InRound

variable {round entered returned : Nat} {pc : BarrierPc}

theorem InRound.entered_le (h : InRound round pc entered returned) : round ≤ entered := by
  cases h with
  | outside hpc hin hout => exact hin.ge
  | arrived woken hpc hin hout => omega
  | released last hround hpc hin hout => exact hin.ge

theorem InRound.entered_le_succ (h : InRound round pc entered returned) : entered ≤ round + 1 := by
  cases h with
  | outside hpc hin hout => omega
  | arrived woken hpc hin hout => exact hin.le
  | released last hround hpc hin hout => omega

theorem InRound.returned_le (h : InRound round pc entered returned) : returned ≤ round := by
  cases h with
  | outside hpc hin hout => exact hout.le
  | arrived woken hpc hin hout => exact hout.le
  | released last hround hpc hin hout => omega

theorem InRound.balanced (h : InRound round pc entered returned) :
    entered = returned + if pc = .outside then 0 else 1 := by
  cases h with
  | outside hpc hin hout => rw [if_pos hpc, hin, hout, Nat.add_zero]
  | arrived woken hpc hin hout => rw [if_neg (by simp [hpc]), hin, hout]
  | released last hround hpc hin hout => rw [if_neg (by simp [hpc]), hin, hout, hround]

theorem InRound.entered_of_outside (h : InRound round .outside entered returned) :
    entered = round ∧ returned = round := by
  cases h with
  | outside hpc hin hout => exact ⟨hin, hout⟩
  | arrived woken hpc hin hout => cases hpc
  | released last hround hpc hin hout => cases hpc

theorem InRound.waits (h : InRound round pc (round + 1) returned) :
    ∃ woken, pc = .waiting (.ofNat 32 round) woken ∧ returned = round := by
  cases h with
  | outside hpc hin hout => omega
  | arrived woken hpc hin hout => exact ⟨woken, hpc, hout⟩
  | released last hround hpc hin hout => omega

end InRound

section Present

variable {n round t : Nat} {entered : Nat → Nat}

theorem present_enter (ht : t < n) (hin : entered t = round) :
    (present n round (Function.update entered t (round + 1))).card = (present n round entered).card + 1 := by
  have hnot : t ∉ present n round entered := by
    simp only [present, Finset.mem_filter, hin]
    omega
  have hinsert : present n round (Function.update entered t (round + 1)) =
      insert t (present n round entered) := by
    ext u
    by_cases hu : u = t
    · subst hu
      simp [present, ht]
    · simp [present, hu]
  rw [hinsert, Finset.card_insert_of_notMem hnot]

theorem entered_of_present (hcard : (present n round entered).card = n) {u : Nat} (hu : u < n) :
    entered u = round + 1 := by
  have hall : (present n round entered).card = (Finset.range n).card := hcard.trans (Finset.card_range n).symm
  exact Finset.filter_card_eq hall u (Finset.mem_range.mpr hu)

theorem present_succ (hall : ∀ u, u < n → entered u = round + 1) :
    (present n (round + 1) entered).card = 0 := by
  rw [present, Finset.card_filter_eq_zero_iff]
  intro u hu
  rw [hall u (Finset.mem_range.mp hu)]
  omega

end Present

theorem pthreadBarrierWait_last {s : BarrierState} {t : Nat}
    (hlast : s.barrier.arrived + 1 = s.barrier.required) :
    (s.call t).pthreadBarrierWait t = (s.call t).arrive.nextRound.broadcast.leave t 1 := if_pos hlast

theorem pthreadBarrierWait_early {s : BarrierState} {t : Nat}
    (hlast : s.barrier.arrived + 1 ≠ s.barrier.required) :
    (s.call t).pthreadBarrierWait t = (s.call t).arrive.goto t (.waiting s.barrier.generation false) :=
  (if_neg hlast).trans (if_pos rfl)

inductive BarrierMove (s : BarrierState) : BarrierState → Prop
  | enter {t : Nat} (ht : t < s.barrier.required.toNat) (hpc : s.pc t = .outside) :
    BarrierMove s ((s.call t).pthreadBarrierWait t)
  | wake {t : Nat} {g : Word} {woken : Bool} (hpc : s.pc t = .waiting g woken) :
    BarrierMove s (s.goto t (.waiting g true))
  | resume {t : Nat} {g : Word} (hpc : s.pc t = .waiting g true) : BarrierMove s (s.waitLoop t g)

theorem barrierStep_move {s s' : BarrierState} {e : BarrierEvent} (hstep : barrierStep s e = some s') :
    BarrierMove s s' := by
  cases e with
  | enter t =>
    obtain ⟨⟨ht, hpc⟩, hs'⟩ := Option.ite_none_right_eq_some.mp hstep
    cases hs'
    exact .enter ht hpc
  | wake t =>
    cases hpc : s.pc t with
    | outside => simp [barrierStep, hpc] at hstep
    | waiting g woken =>
      simp only [barrierStep, hpc, Option.some.injEq] at hstep
      exact hstep ▸ .wake hpc
  | resume t =>
    cases hpc : s.pc t with
    | outside => simp [barrierStep, hpc] at hstep
    | waiting g woken =>
      cases woken with
      | false => simp [barrierStep, hpc] at hstep
      | true =>
        simp only [barrierStep, hpc, Option.some.injEq] at hstep
        exact hstep ▸ .resume hpc

section Steps

variable {s s' : BarrierState} {n round t : Nat} {g : Word}

theorem results_update {results : Nat → List Nat} {rc k u : Nat} {r : Nat}
    (h : (results u)[k]? = some r) :
    (Function.update results t (results t ++ [rc]) u)[k]? = some r := by
  by_cases hu : u = t
  · subst hu
    rw [Function.update_self, List.getElem?_append_left (List.getElem?_eq_some_iff.mp h).1, h]
  · rw [Function.update_of_ne hu, h]

theorem OneReleaser.goto {pc : Nat → BarrierPc} {results : Nat → List Nat} {k : Nat} {pc' : BarrierPc}
    (h : OneReleaser n k pc results) (hpc' : pc' ≠ .outside) :
    OneReleaser n k (Function.update pc t pc') results := by
  obtain ⟨v, hv, hone, hothers⟩ := h
  refine ⟨v, hv, hone, fun u hu huv => (hothers u hu huv).imp_right fun ⟨hlen, hpc⟩ => ⟨hlen, ?_⟩⟩
  by_cases hut : u = t
  · rwa [hut, Function.update_self]
  · rwa [Function.update_of_ne hut]

theorem OneReleaser.leave {pc : Nat → BarrierPc} {results : Nat → List Nat} {k : Nat}
    (h : OneReleaser n k pc results) :
    OneReleaser n k (Function.update pc t .outside)
      (Function.update results t (results t ++ [0])) := by
  obtain ⟨v, hv, hone, hothers⟩ := h
  refine ⟨v, hv, results_update hone, fun u hu huv => ?_⟩
  rcases hothers u hu huv with hzero | ⟨hlen, hpc⟩
  · exact .inl (results_update hzero)
  · by_cases hut : u = t
    · subst hut
      left
      rw [Function.update_self, ← hlen, List.getElem?_concat_length]
    · right
      rw [Function.update_of_ne hut, Function.update_of_ne hut]
      exact ⟨hlen, hpc⟩

theorem BarrierInv.goto (h : BarrierInv n round s) {pc : BarrierPc} (hpc : pc ≠ .outside)
    (hin : t < n → InRound round pc (s.entered t) (s.results t).length) : BarrierInv n round (s.goto t pc) where
  required := h.required
  generation := h.generation
  arrived := h.arrived
  missing := h.missing
  threads u hu := by
    change InRound round (Function.update s.pc t pc u) (s.entered u) (s.results u).length
    by_cases hut : u = t
    · subst hut
      rw [Function.update_self]
      exact hin hu
    · rw [Function.update_of_ne hut]
      exact h.threads u hu
  releaser k hk := (h.releaser k hk).goto hpc

theorem BarrierInv.leave (h : BarrierInv n round s)
    (hin : t < n → InRound round .outside (s.entered t) ((s.results t).length + 1)) :
    BarrierInv n round (s.leave t 0) where
  required := h.required
  generation := h.generation
  arrived := h.arrived
  missing := h.missing
  threads u hu := by
    change InRound round (Function.update s.pc t .outside u) (s.entered u)
      (Function.update s.results t (s.results t ++ [0]) u).length
    by_cases hut : u = t
    · subst hut
      rw [Function.update_self, Function.update_self, List.length_append, List.length_singleton]
      exact hin hu
    · rw [Function.update_of_ne hut, Function.update_of_ne hut]
      exact h.threads u hu
  releaser k hk := (h.releaser k hk).leave

theorem BarrierInv.waitLoop (h : BarrierInv n round s) (hpc : s.pc t = .waiting g true) :
    BarrierInv n round (s.waitLoop t g) := by
  rw [BarrierState.waitLoop, h.generation]
  by_cases hg : g = .ofNat 32 round
  · rw [if_pos hg]
    refine h.goto (by simp) fun ht => ?_
    cases hpc ▸ h.threads t ht with
    | outside hpc hin hout => cases hpc
    | arrived woken hpc hin hout => exact .arrived false (by rw [hg]) hin hout
    | released last hround hpc hin hout =>
      cases hpc
      exact absurd (hround ▸ hg) (ofNat_ne_succ last)
  · rw [if_neg hg]
    refine h.leave fun ht => ?_
    cases hpc ▸ h.threads t ht with
    | outside hpc hin hout => cases hpc
    | arrived woken hpc hin hout =>
      cases hpc
      exact absurd rfl hg
    | released last hround hpc hin hout => exact .outside rfl hin (by rw [hout, hround])

theorem BarrierInv.arrived_succ (h : BarrierInv n round s) :
    (s.barrier.arrived + 1).toNat = (present n round s.entered).card + 1 := by
  have hn : n < 2 ^ 32 := h.required ▸ s.barrier.required.isLt
  have hmissing := h.missing
  have hone : (1 : Word).toNat = 1 := rfl
  rw [BitVec.toNat_add, h.arrived, hone]
  exact Nat.mod_eq_of_lt (by omega)

theorem BarrierInv.enter (h : BarrierInv n round s) (ht : t < n) (hpc : s.pc t = .outside)
    (hlast : s.barrier.arrived + 1 ≠ s.barrier.required) :
    BarrierInv n round ((s.call t).arrive.goto t (.waiting s.barrier.generation false)) := by
  obtain ⟨hentered, hreturned⟩ := (hpc ▸ h.threads t ht).entered_of_outside
  have hcard := present_enter ht hentered
  have hsucc := h.arrived_succ
  have hne : (present n round s.entered).card + 1 ≠ n := by
    rw [← hsucc, ← h.required]
    exact fun he => hlast (BitVec.eq_of_toNat_eq he)
  have hmissing := h.missing
  rw [BarrierState.call, hentered]
  refine ⟨h.required, h.generation, ?_, ?_, fun u hu => ?_, fun k hk => (h.releaser k hk).goto (by simp)⟩
  · exact hsucc.trans hcard.symm
  · change (present n round (Function.update s.entered t (round + 1))).card < n
    omega
  · change InRound round (Function.update s.pc t (.waiting s.barrier.generation false) u)
      (Function.update s.entered t (round + 1) u) (s.results u).length
    by_cases hut : u = t
    · subst hut
      rw [Function.update_self, Function.update_self, h.generation]
      exact .arrived false rfl rfl hreturned
    · rw [Function.update_of_ne hut, Function.update_of_ne hut]
      exact h.threads u hu

/-- The last thread to arrive completes the round: all others wait in it. -/
theorem BarrierInv.release (h : BarrierInv n round s) (ht : t < n) (hpc : s.pc t = .outside)
    (hlast : s.barrier.arrived + 1 = s.barrier.required) :
    BarrierInv n (round + 1) ((s.call t).arrive.nextRound.broadcast.leave t 1) := by
  obtain ⟨hentered, hreturned⟩ := (hpc ▸ h.threads t ht).entered_of_outside
  have hcard : (present n round (Function.update s.entered t (round + 1))).card = n := by
    rw [present_enter ht hentered, ← h.arrived_succ, hlast, h.required]
  have hall {u : Nat} (hu : u < n) : Function.update s.entered t (round + 1) u = round + 1 :=
    entered_of_present hcard hu
  have hothers {u : Nat} (hu : u < n) (hut : u ≠ t) :
      ∃ woken, s.pc u = .waiting (.ofNat 32 round) woken ∧ (s.results u).length = round := by
    have hin := h.threads u hu
    rw [← Function.update_of_ne hut (round + 1) s.entered, hall hu] at hin
    exact hin.waits
  have hnone := present_succ fun u hu => hall hu
  rw [BarrierState.call, hentered]
  refine ⟨h.required, ?_, ?_, ?_, fun u hu => ?_, fun k hk => ?_⟩
  · change s.barrier.generation + 1 = .ofNat 32 (round + 1)
    rw [h.generation, BitVec.ofNat_add]
    rfl
  · exact hnone.symm
  · exact hnone ▸ Nat.zero_lt_of_lt ht
  · change InRound (round + 1) (Function.update (fun u => (s.pc u).wakeUp) t .outside u)
      (Function.update s.entered t (round + 1) u)
      (Function.update s.results t (s.results t ++ [1]) u).length
    by_cases hut : u = t
    · subst hut
      simp only [Function.update_self, List.length_append, List.length_singleton, hreturned]
      exact .outside rfl rfl rfl
    · obtain ⟨woken, hpc, hlen⟩ := hothers hu hut
      rw [hall hu, Function.update_of_ne hut, Function.update_of_ne hut, hpc]
      exact .released round rfl rfl rfl hlen
  · change OneReleaser n k (Function.update (fun u => (s.pc u).wakeUp) t .outside)
      (Function.update s.results t (s.results t ++ [1]))
    rcases Nat.lt_succ_iff_lt_or_eq.mp hk with hk | rfl
    · -- The rounds before the last have no more threads to leave them.
      obtain ⟨v, hv, hone, hzero⟩ := h.releaser k hk
      refine ⟨v, hv, results_update hone, fun u hu huv => .inl (results_update ?_)⟩
      refine (hzero u hu huv).resolve_right fun ⟨hlen, hpc'⟩ => ?_
      by_cases hut : u = t
      · exact hpc' (hut ▸ hpc)
      · obtain ⟨_, _, hlen'⟩ := hothers hu hut
        omega
    · refine ⟨t, ht, ?_, fun u hu hut => .inr ?_⟩
      · rw [Function.update_self, ← hreturned, List.getElem?_concat_length]
      · obtain ⟨woken, hpc, hlen⟩ := hothers hu hut
        rw [Function.update_of_ne hut, Function.update_of_ne hut, hpc]
        exact ⟨hlen, by simp [BarrierPc.wakeUp]⟩

theorem BarrierMove.inv (hmove : BarrierMove s s') (h : BarrierInv n round s) :
    ∃ round', BarrierInv n round' s' := by
  cases hmove with
  | @enter t ht hpc =>
    rw [h.required] at ht
    by_cases hlast : s.barrier.arrived + 1 = s.barrier.required
    · exact ⟨round + 1, pthreadBarrierWait_last hlast ▸ h.release ht hpc hlast⟩
    · exact ⟨round, pthreadBarrierWait_early hlast ▸ h.enter ht hpc hlast⟩
  | @wake t g woken hpc =>
    refine ⟨round, h.goto (by simp) fun ht => ?_⟩
    cases hpc ▸ h.threads t ht with
    | outside hpc hin hout => cases hpc
    | arrived woken hpc hin hout =>
      cases hpc
      exact .arrived true rfl hin hout
    | released last hround hpc hin hout =>
      cases hpc
      exact .released last hround rfl hin hout
  | resume hpc => exact ⟨round, h.waitLoop hpc⟩

end Steps

/-- What the `n` calls of round `k` returned: one of them 1 and the others 0. -/
def RoundResults (n k : Nat) (results : Nat → List Nat) : Prop :=
  ∃ t, t < n ∧ (results t)[k]? = some 1 ∧ ∀ u, u < n → u ≠ t → (results u)[k]? = some 0

/-- What makes the barrier one that its `n` threads can use again and again. A
call made has returned or its thread still waits; a thread whose round is
complete leaves it when it next has the mutex, whatever the others have begun
meanwhile, and one whose round is open stays. -/
structure Reusable (n : Nat) (s : BarrierState) : Prop where
  balanced : ∀ t, t < n → s.entered t = (s.results t).length + if s.pc t = .outside then 0 else 1
  noneEarly : ∀ t u, t < n → u < n → (s.results t).length ≤ s.entered u
  roundResults : ∀ k, (∀ t, t < n → k < (s.results t).length) → RoundResults n k s.results
  oneReleaser : ∀ k, (∀ t, t < n → k < s.entered t) → OneReleaser n k s.pc s.results
  released : ∀ t, t < n → s.pc t ≠ .outside → (∀ u, u < n → s.entered t ≤ s.entered u) →
    barrierStep s (.resume t) = some (s.leave t 0)
  held : ∀ t u, t < n → s.pc t ≠ .outside → u < n → s.entered u < s.entered t →
    ∀ s', barrierStep s (.resume t) = some s' → s'.results = s.results ∧ s'.pc t ≠ .outside

theorem BarrierInv.exists_missing {n round : Nat} {s : BarrierState} (h : BarrierInv n round s) :
    ∃ u, u < n ∧ s.entered u = round := by
  by_contra hnone
  have hall : present n round s.entered = Finset.range n := by
    refine Finset.filter_true_of_mem fun u hu => ?_
    rw [Finset.mem_range] at hu
    have hne : s.entered u ≠ round := fun he => hnone ⟨u, hu, he⟩
    have hge := (h.threads u hu).entered_le
    have hle := (h.threads u hu).entered_le_succ
    omega
  have hmissing := h.missing
  rw [hall, Finset.card_range] at hmissing
  exact lt_irrefl n hmissing

theorem barrierStep_resume {s s' : BarrierState} {t : Nat} {g : Word} {woken : Bool}
    (hpc : s.pc t = .waiting g woken) (hstep : barrierStep s (.resume t) = some s') :
    s' = s.waitLoop t g := by
  cases woken with
  | false => simp [barrierStep, hpc] at hstep
  | true =>
    simp only [barrierStep, hpc, Option.some.injEq] at hstep
    exact hstep.symm

/-- Once nobody is still to leave the round, its results are complete. -/
theorem OneReleaser.roundResults {n k : Nat} {pc : Nat → BarrierPc} {results : Nat → List Nat}
    (h : OneReleaser n k pc results) (hreturned : ∀ t, t < n → k < (results t).length) :
    RoundResults n k results := by
  obtain ⟨t, ht, hone, hothers⟩ := h
  refine ⟨t, ht, hone, fun u hu hut => (hothers u hu hut).resolve_right fun ⟨hlen, _⟩ => ?_⟩
  have hlt := hreturned u hu
  omega

theorem BarrierInv.oneReleaser {n round k : Nat} {s : BarrierState} (h : BarrierInv n round s)
    (hk : ∀ t, t < n → k < s.entered t) : OneReleaser n k s.pc s.results := by
  obtain ⟨u, hu, hin⟩ := h.exists_missing
  exact h.releaser k (hin ▸ hk u hu)

theorem BarrierInv.reusable {n round : Nat} {s : BarrierState} (h : BarrierInv n round s) :
    Reusable n s where
  balanced t ht := (h.threads t ht).balanced
  noneEarly t u ht hu := (h.threads t ht).returned_le.trans (h.threads u hu).entered_le
  roundResults k hk := by
    refine (h.oneReleaser fun t ht => (hk t ht).trans_le ?_).roundResults hk
    exact (h.threads t ht).returned_le.trans (h.threads t ht).entered_le
  oneReleaser k hk := h.oneReleaser hk
  released t ht hpc hall := by
    obtain ⟨u, hu, hmissing⟩ := h.exists_missing
    have hu := hall u hu
    cases h.threads t ht with
    | outside hpc' hin hout => exact absurd hpc' hpc
    | arrived woken hpc' hin hout => omega
    | released last hround hpc' hin hout =>
      have hg : BitVec.ofNat 32 last ≠ s.barrier.generation := by
        rw [h.generation, hround]
        exact ofNat_ne_succ last
      simp only [barrierStep, hpc', BarrierState.waitLoop, if_neg hg]
  held t u ht hpc hu hlt s' hstep := by
    have hle := (h.threads u hu).entered_le
    cases h.threads t ht with
    | outside hpc' hin hout => exact absurd hpc' hpc
    | released last hround hpc' hin hout => omega
    | arrived woken hpc' hin hout =>
      rw [barrierStep_resume hpc' hstep, BarrierState.waitLoop, if_pos h.generation.symm]
      refine ⟨rfl, ?_⟩
      change Function.update s.pc t (.waiting (.ofNat 32 round) false) t ≠ .outside
      rw [Function.update_self]
      exact nofun

theorem barrierStart_inv {b : Barrier} {mutexFails condFails : Bool} {count : Word}
    (hinit : pthreadBarrierInit mutexFails condFails count = some b) :
    BarrierInv count.toNat 0 (barrierStart b) := by
  obtain ⟨hcount, hinit⟩ := Option.ite_none_left_eq_some.mp hinit
  obtain ⟨_, hinit⟩ := Option.ite_none_left_eq_some.mp hinit
  obtain ⟨_, hinit⟩ := Option.ite_none_left_eq_some.mp hinit
  cases hinit
  have hnone : (present count.toNat 0 fun _ => 0).card = 0 := by
    rw [present, Finset.card_filter_eq_zero_iff]
    exact fun u _ => by omega
  refine ⟨rfl, rfl, hnone.symm, ?_, fun t _ => .outside rfl rfl rfl, nofun⟩
  have hpos : count.toNat ≠ 0 := fun he => hcount (BitVec.eq_of_toNat_eq he)
  exact hnone.trans_lt (Nat.pos_of_ne_zero hpos)

/-- In every run of the threads it was made for, the barrier serves round after round. -/
theorem run_reusable {b : Barrier} {mutexFails condFails : Bool} {count : Word}
    (hinit : pthreadBarrierInit mutexFails condFails count = some b) (es : List BarrierEvent) :
    Throughout barrierStep (Reusable count.toNat) (barrierStart b) es := by
  let Ok (s : BarrierState) := ∃ round, BarrierInv count.toNat round s
  have hstep {s e s'} (h : Ok s) (he : barrierStep s e = some s') : Ok s' := by
    obtain ⟨round, h⟩ := h
    exact (barrierStep_move he).inv h
  have hok {s} (h : Ok s) : Reusable count.toNat s := by
    obtain ⟨round, h⟩ := h
    exact h.reusable
  exact throughout_of_invariant hstep hok ⟨0, barrierStart_inv hinit⟩ es

/-- Of two threads the first re-enters before the second has left, which ends
the first round with a 0 all the same. -/
theorem run_reusable_two :
    (∃ s, run barrierStep (barrierStart { arrived := 0, required := 2, generation := 0 })
      [.enter 1, .enter 0, .enter 0, .resume 1, .enter 1, .resume 0] = some s ∧
        s.results 0 = [1, 0] ∧ s.results 1 = [0, 1]) ∧
    Throughout barrierStep (Reusable (2 : Word).toNat)
      (barrierStart { arrived := 0, required := 2, generation := 0 })
      [.enter 1, .enter 0, .enter 0, .resume 1, .enter 1, .resume 0] :=
  ⟨⟨_, rfl, rfl, rfl⟩, run_reusable (show pthreadBarrierInit false false 2 = some _ by decide) _⟩

end VerusMiner
