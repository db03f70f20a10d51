import VerusMiner.ClHash

/-! Putting the key back after a hash: from the packed log and a pristine
copy, or from the saved vectors in reverse order. -/

namespace VerusMiner

def touchedFirst (packed : Word) : Nat := (packed &&& 0xffff).toNat

def touchedSecond (packed : Word) : Nat := (packed >>> 16).toNat

def restoreKey (touched : Nat → Word) (key pristine : Nat) (keyStorage : Nat → Vec) : Nat → Vec :=
  (List.range 32).foldl
    (fun m i => copyBack key pristine [touchedFirst (touched i), touchedSecond (touched i)] m)
    keyStorage

def fixKey (log : KeyLog) (keyback : Nat → Vec) : Nat → Vec :=
  (List.range 32).reverse.foldl
    (fun m i => Function.update (Function.update m (log.fixrandex i).toNat (log.gPrandex i))
      (log.fixrand i).toNat (log.gPrand i))
    keyback

theorem prandIdx_getLsbD (selector : BitVec 64) {i : Nat} (hi : 9 ≤ i) :
    (prandIdx selector).getLsbD i = false ∧ (prandexIdx selector).getLsbD i = false := by
  simp [prandIdx, prandexIdx, keyMask_getLsbD, show ¬ i < 9 by omega]

theorem touched_packed (selector : BitVec 64) :
    touchedFirst (prandIdx selector ||| (prandexIdx selector <<< 16)) = (prandIdx selector).toNat ∧
    touchedSecond (prandIdx selector ||| (prandexIdx selector <<< 16)) =
      (prandexIdx selector).toNat := by
  constructor
  · refine congrArg BitVec.toNat (BitVec.eq_of_getLsbD_eq fun i hi => ?_)
    rw [show (0xffff : Word) = BitVec.ofNat 32 (2 ^ 16 - 1) from rfl]
    simp only [BitVec.getLsbD_and, BitVec.getLsbD_or, BitVec.getLsbD_shiftLeft, BitVec.getLsbD_ofNat,
      Nat.testBit_two_pow_sub_one, hi, decide_true, Bool.true_and]
    by_cases h : i < 16
    · simp [h]
    · simp [h, (prandIdx_getLsbD selector (show 9 ≤ i by omega)).1]
  · refine congrArg BitVec.toNat (BitVec.eq_of_getLsbD_eq fun i hi => ?_)
    simp only [BitVec.getLsbD_ushiftRight, BitVec.getLsbD_or, BitVec.getLsbD_shiftLeft]
    rw [(prandIdx_getLsbD selector (show 9 ≤ 16 + i by omega)).1]
    by_cases h : i < 16
    · simp [show 16 + i < 32 by omega]
    · simp [show ¬ 16 + i < 32 by omega, (prandIdx_getLsbD selector (show 9 ≤ i by omega)).2]

def touchedCells (touched : Nat → Word) (n : Nat) : List Nat :=
  (List.range n).flatMap fun i => [touchedFirst (touched i), touchedSecond (touched i)]

theorem touchedCells_succ (touched : Nat → Word) (n : Nat) :
    touchedCells touched (n + 1) =
      touchedCells touched n ++ [touchedFirst (touched n), touchedSecond (touched n)] := by
  simp [touchedCells, List.range_succ, List.flatMap_append]

theorem touchedCells_congr {touched touched' : Nat → Word} {n : Nat}
    (h : ∀ i < n, touched i = touched' i) : touchedCells touched n = touchedCells touched' n := by
  induction n with
  | zero => rfl
  | succ n ih =>
    rw [touchedCells_succ, touchedCells_succ, ih fun i hi => h i (by omega), h n (by omega)]

theorem restoreKey_eq (touched : Nat → Word) (key pristine : Nat) (m : Nat → Vec) :
    restoreKey touched key pristine m = copyBack key pristine (touchedCells touched 32) m := by
  unfold restoreKey
  generalize 32 = n
  induction n generalizing m with
  | zero => rfl
  | succ n ih =>
    rw [List.range_succ, List.foldl_append, ih, touchedCells_succ, copyBack_append]
    rfl

/-- The saved vectors of the first `n` steps, latest first, in the order in
which `fixKey` writes them back. -/
def savedJournal (log : KeyLog) : Nat → List (Nat × Vec)
  | 0 => []
  | n + 1 => ((log.fixrandex n).toNat, log.gPrandex n) ::
      ((log.fixrand n).toNat, log.gPrand n) :: savedJournal log n

theorem fixKey_eq (log : KeyLog) (m : Nat → Vec) :
    fixKey log m = rollback (savedJournal log 32) m := by
  have h (n : Nat) (m : Nat → Vec) : (List.range n).reverse.foldl
      (fun m i => Function.update (Function.update m (log.fixrandex i).toNat (log.gPrandex i))
        (log.fixrand i).toNat (log.gPrand i)) m = rollback (savedJournal log n) m := by
    induction n generalizing m with
    | zero => rfl
    | succ n ih =>
      rw [List.range_succ, List.reverse_append, List.reverse_singleton, List.singleton_append,
        List.foldl_cons, ih]
      rfl
  exact h 32 m

section Runs

variable (aesenc : Vec → Vec → Vec) (lane : ClhashLane) (key : Nat → Vec)

/-- On ARM the packed log names every cell in which the key differs from the
one the run began with, and only cells of the mutable half. -/
theorem arm_run_touched (n : Nat) :
    (∀ a ∈ touchedCells (runSteps (clhashStep aesenc .arm) n lane key).1.log.touched n, a < 512) ∧
    ∀ a, a ∉ touchedCells (runSteps (clhashStep aesenc .arm) n lane key).1.log.touched n →
      (runSteps (clhashStep aesenc .arm) n lane key).2 a = key a := by
  induction n with
  | zero => exact ⟨by simp [touchedCells], fun _ _ => rfl⟩
  | succ n ih =>
    obtain ⟨hlt, hoff⟩ := ih
    generalize hr : runSteps (clhashStep aesenc .arm) n lane key = r at hlt hoff
    let selector := cvtsi128Si64 r.1.acc
    have hp := touched_packed selector
    have hlog : (runSteps (clhashStep aesenc .arm) (n + 1) lane key).1.log.touched =
        Function.update r.1.log.touched n
          (prandIdx selector ||| (prandexIdx selector <<< 16)) := by
      rw [runSteps, hr]
      rfl
    have hold : touchedCells (Function.update r.1.log.touched n
        (prandIdx selector ||| (prandexIdx selector <<< 16))) n =
          touchedCells r.1.log.touched n :=
      touchedCells_congr fun i hi => Function.update_of_ne (by omega) _ _
    have hcells : touchedCells (runSteps (clhashStep aesenc .arm) (n + 1) lane key).1.log.touched
        (n + 1) = touchedCells r.1.log.touched n ++
          [(prandIdx selector).toNat, (prandexIdx selector).toNat] := by
      rw [hlog, touchedCells_succ, Function.update_self, hp.1, hp.2, hold]
    rw [hcells]
    constructor
    · intro a ha
      have h₁ := prandIdx_lt selector
      have h₂ := prandexIdx_lt selector
      simp only [List.mem_append, List.mem_cons, List.not_mem_nil, or_false] at ha
      rcases ha with ha | rfl | rfl
      · exact hlt a ha
      · exact h₁
      · exact h₂
    · intro a ha
      simp only [List.mem_append, List.mem_cons, List.not_mem_nil, or_false, not_or] at ha
      rw [runSteps, hr, clhashStep_of_ne aesenc .arm n r.1 r.2 ha.2.1 ha.2.2]
      exact hoff a ha.1

theorem savedJournal_congr {log log' : KeyLog} {n : Nat}
    (h : ∀ i < n, log.fixrand i = log'.fixrand i ∧ log.fixrandex i = log'.fixrandex i ∧
      log.gPrand i = log'.gPrand i ∧ log.gPrandex i = log'.gPrandex i) :
    savedJournal log n = savedJournal log' n := by
  induction n with
  | zero => rfl
  | succ n ih =>
    obtain ⟨h₁, h₂, h₃, h₄⟩ := h n (by omega)
    rw [savedJournal, savedJournal, ih fun i hi => h i (by omega), h₁, h₂, h₃, h₄]

/-- Elsewhere the saved vectors are a journal of the run: each pair was taken
from the key as the step found it. -/
theorem portable_run_journaled (n : Nat) :
    Journaled key (savedJournal (runSteps (clhashStep aesenc .portable) n lane key).1.log n)
      (runSteps (clhashStep aesenc .portable) n lane key).2 := by
  induction n with
  | zero => exact .nil
  | succ n ih =>
    generalize hr : runSteps (clhashStep aesenc .portable) n lane key = r at ih
    let selector := cvtsi128Si64 r.1.acc
    have hsame : savedJournal (r.1.log.record .portable n selector r.2) n =
        savedJournal r.1.log n :=
      savedJournal_congr fun i hi => by
        simp only [KeyLog.record, Function.update_of_ne (show i ≠ n by omega), and_self]
    have hjournal : savedJournal (r.1.log.record .portable n selector r.2) (n + 1) =
        saved r.2 [(prandexIdx selector).toNat, (prandIdx selector).toNat] ++
          savedJournal r.1.log n := by
      rw [savedJournal, hsame]
      simp [KeyLog.record, saved]
    rw [runSteps, hr]
    change Journaled key (savedJournal (r.1.log.record .portable n selector r.2) (n + 1)) _
    rw [hjournal]
    refine ih.write _ fun a ha => ?_
    simp only [List.mem_cons, List.not_mem_nil, or_false, not_or] at ha
    exact clhashStep_of_ne aesenc .portable n r.1 r.2 ha.2 ha.1

end Runs

theorem fixKey_verusclhashv22 (aesenc : Vec → Vec → Vec) (key : Nat → Vec) (buf : Mem)
    (log : KeyLog) :
    fixKey (verusclhashv22 aesenc .portable key buf log).log
      (verusclhashv22 aesenc .portable key buf log).key = key := by
  rw [fixKey_eq]
  exact (portable_run_journaled aesenc (initLane key buf log) key 32).rollback

/-- The packed log and a pristine copy kept elsewhere return a lane's key,
whatever else the storage went through in the meantime. -/
theorem restoreKey_verusclhashv22 (aesenc : Vec → Vec → Vec) (key : Nat → Vec) (buf : Mem)
    (log : KeyLog) {base pristine : Nat} (m : Nat → Vec)
    (hdis : base + 552 ≤ pristine ∨ pristine + 552 ≤ base)
    (hm : ∀ i < 552, m (base + i) = (verusclhashv22 aesenc .arm key buf log).key i)
    (hkeep : ∀ i < 552, m (pristine + i) = key i) {i : Nat} (hi : i < 552) :
    restoreKey (verusclhashv22 aesenc .arm key buf log).log.touched base pristine m (base + i) =
      key i := by
  obtain ⟨hlt, hoff⟩ := arm_run_touched aesenc (initLane key buf log) key 32
  have hdiff : ∀ j < 552, j ∉ touchedCells (verusclhashv22 aesenc .arm key buf log).log.touched 32 →
      m (base + j) = m (pristine + j) := by
    intro j hj hjt
    rw [hm j hj, hkeep j hj]
    exact hoff j hjt
  rw [restoreKey_eq, ← hkeep i hi]
  exact copyBack_restores (fun a ha => Nat.lt_trans (hlt a ha) (by omega)) hdis hdiff hi

/-- Both ways to put the key back return every vector of it: the saved vectors
in reverse order, and the packed log with the pristine copy in `m`. -/
theorem key_restored (aesenc : Vec → Vec → Vec) (key : Nat → Vec) (buf : Mem) (log : KeyLog)
    {base pristine : Nat} {m : Nat → Vec} (hdis : base + 552 ≤ pristine ∨ pristine + 552 ≤ base)
    (hm : ∀ i < 552, m (base + i) = (verusclhashv22 aesenc .arm key buf log).key i)
    (hkeep : ∀ i < 552, m (pristine + i) = key i) :
    fixKey (verusclhashv22 aesenc .portable key buf log).log
      (verusclhashv22 aesenc .portable key buf log).key = key ∧
    ∀ i < 552,
      restoreKey (verusclhashv22 aesenc .arm key buf log).log.touched base pristine m (base + i) =
        key i :=
  ⟨fixKey_verusclhashv22 aesenc key buf log,
    fun _ hi => restoreKey_verusclhashv22 aesenc key buf log m hdis hm hkeep hi⟩

/-- The key runs first and its copy follows it. -/
theorem key_restored_adjacent :
    let key : Nat → Vec := fun i => BitVec.ofNat 128 (i + 1)
    let log : KeyLog := ⟨fun _ => 0, fun _ => 0, fun _ => 0, fun _ => 0, fun _ => 0⟩
    let r := verusclhashv22 (fun a k => a ^^^ k) .arm key (fun _ => 1) log
    ∀ i < 552, restoreKey r.log.touched 0 552 (fun a => if a < 552 then r.key a else key (a - 552))
      (0 + i) = key i := by
  intro key log r
  refine (key_restored (fun a k => a ^^^ k) key (fun _ => 1) log (.inl (Nat.le_refl 552))
    (fun i hi => ?_) fun i hi => ?_).2
  · rw [Nat.zero_add, if_pos hi]
  · rw [if_neg (by omega), Nat.add_sub_cancel_left]

theorem restoreKey_off {touched : Nat → Word} {base pristine : Nat} {m : Nat → Vec} {i : Nat}
    (h : ∀ a ∈ touchedCells touched 32, i ≠ base + a) : restoreKey touched base pristine m i = m i := by
  rw [restoreKey_eq]
  exact copyBack_off h

end VerusMiner
