import Mathlib.Logic.Function.Basic
import Mathlib.Data.Set.Function

/-! Stores addressed by natural numbers: block copies, cells copied back from
a kept original, and journals of overwritten cells taken back in reverse. -/

namespace VerusMiner

variable {α : Type*}

def memcpy (dst : Nat → α) (off : Nat) (src : Nat → α) (soff n : Nat) : Nat → α :=
  fun i => if off ≤ i ∧ i < off + n then src (soff + (i - off)) else dst i

def memset (dst : Nat → α) (off : Nat) (v : α) (n : Nat) : Nat → α :=
  fun i => if off ≤ i ∧ i < off + n then v else dst i

theorem memcpy_at {dst src : Nat → α} {off soff n i : Nat} (h : i < n) :
    memcpy dst off src soff n (off + i) = src (soff + i) := by
  simp [memcpy, h]

theorem memcpy_off {dst src : Nat → α} {off soff n i : Nat} (h : i < off ∨ off + n ≤ i) :
    memcpy dst off src soff n i = dst i := by
  have : ¬ (off ≤ i ∧ i < off + n) := by omega
  simp [memcpy, this]

theorem memcpy_within {dst src : Nat → α} {off soff n i : Nat} (h : off ≤ i ∧ i < off + n) :
    memcpy dst off src soff n i = src (soff + (i - off)) := if_pos h

theorem memcpy_start {dst src : Nat → α} {n i : Nat} (h : i < n) :
    memcpy dst 0 src 0 n i = src i := by
  rw [memcpy_within (by omega), Nat.zero_add, Nat.sub_zero]

theorem memcpy_append (m src : Nat → α) (off soff n k : Nat) :
    memcpy (memcpy m off src soff n) (off + n) src (soff + n) k = memcpy m off src soff (n + k) := by
  funext i
  simp only [memcpy]
  split_ifs <;> first
    | omega
    | rfl
    | exact congrArg src (by omega)

theorem memcpy_congr {dst src src' : Nat → α} {off soff soff' n : Nat}
    (h : ∀ i < n, src (soff + i) = src' (soff' + i)) :
    memcpy dst off src soff n = memcpy dst off src' soff' n := by
  funext i
  simp only [memcpy]
  split_ifs
  · exact h _ (by omega)
  · rfl

theorem memcpy_zero (dst src : Nat → α) (off soff : Nat) : memcpy dst off src soff 0 = dst := by
  funext i
  exact memcpy_off (by omega)

theorem memcpy_succ (dst src : Nat → α) (off soff n : Nat) :
    memcpy (Function.update dst off (src soff)) (off + 1) src (soff + 1) n =
      memcpy dst off src soff (n + 1) := by
  have hfirst : Function.update dst off (src soff) = memcpy dst off src soff 1 := by
    funext i
    by_cases hi : i = off
    · subst hi
      rw [Function.update_self, memcpy_within (by omega), Nat.sub_self, Nat.add_zero]
    · rw [Function.update_of_ne hi, memcpy_off (by omega)]
  rw [hfirst, memcpy_append, Nat.add_comm 1 n]

def window (base : Nat) (m : Nat → α) : Nat → α := fun i => m (base + i)

def putWindow (base : Nat) (m v : Nat → α) : Nat → α :=
  fun i => if base ≤ i then v (i - base) else m i

@[simp] theorem window_apply (base : Nat) (m : Nat → α) (i : Nat) :
    window base m i = m (base + i) := rfl

@[simp] theorem window_zero (m : Nat → α) : window 0 m = m := by
  funext i
  simp [window]

theorem putWindow_at (base : Nat) (m v : Nat → α) (i : Nat) :
    putWindow base m v (base + i) = v i := by
  simp [putWindow]

theorem putWindow_before {base : Nat} {m v : Nat → α} {i : Nat} (h : i < base) :
    putWindow base m v i = m i := by
  simp [putWindow, Nat.not_le.mpr h]

/-- The cells listed in `addrs`, counted from `base`, rewritten one by one
from the copy kept at `keep`. -/
def copyBack (base keep : Nat) : List Nat → (Nat → α) → (Nat → α)
  | [], m => m
  | a :: as, m => copyBack base keep as (Function.update m (base + a) (m (keep + a)))

theorem copyBack_append (base keep : Nat) (as bs : List Nat) (m : Nat → α) :
    copyBack base keep (as ++ bs) m = copyBack base keep bs (copyBack base keep as m) := by
  induction as generalizing m with
  | nil => rfl
  | cons a as ih => simp only [List.cons_append, copyBack, ih]

theorem copyBack_off {base keep : Nat} {as : List Nat} {m : Nat → α} {i : Nat}
    (h : ∀ a ∈ as, i ≠ base + a) : copyBack base keep as m i = m i := by
  induction as generalizing m with
  | nil => rfl
  | cons a as ih =>
    rw [copyBack, ih (fun b hb => h b (List.mem_cons_of_mem _ hb)),
      Function.update_of_ne (h a List.mem_cons_self)]

theorem copyBack_at {base keep : Nat} {as : List Nat} {m : Nat → α} {a : Nat}
    (hdis : ∀ b ∈ as, ∀ c ∈ as, keep + c ≠ base + b) (ha : a ∈ as) :
    copyBack base keep as m (base + a) = m (keep + a) := by
  induction as generalizing m with
  | nil => simp at ha
  | cons b as ih =>
    have hkeep : Function.update m (base + b) (m (keep + b)) (keep + a) = m (keep + a) :=
      Function.update_of_ne (hdis b List.mem_cons_self a ha) _ _
    have hdis' : ∀ b ∈ as, ∀ c ∈ as, keep + c ≠ base + b := fun b hb c hc =>
      hdis b (List.mem_cons_of_mem _ hb) c (List.mem_cons_of_mem _ hc)
    by_cases hm : a ∈ as
    · rw [copyBack, ih hdis' hm, hkeep]
    · have he : a = b := (List.mem_cons.mp ha).resolve_right hm
      subst he
      rw [copyBack, copyBack_off (fun c hc he => hm (by rwa [Nat.add_left_cancel he])),
        Function.update_self]

theorem copyBack_restores {base keep size : Nat} {as : List Nat} {m : Nat → α}
    (has : ∀ a ∈ as, a < size) (hdis : base + size ≤ keep ∨ keep + size ≤ base)
    (hoff : ∀ i < size, i ∉ as → m (base + i) = m (keep + i)) {i : Nat} (hi : i < size) :
    copyBack base keep as m (base + i) = m (keep + i) := by
  by_cases hm : i ∈ as
  · exact copyBack_at (fun b hb c hc => by have := has b hb; have := has c hc; omega) hm
  · rw [copyBack_off (fun a ha he => hm (by rwa [Nat.add_left_cancel he])), hoff i hi hm]

def rollback : List (Nat × α) → (Nat → α) → (Nat → α)
  | [], m => m
  | (a, v) :: j, m => rollback j (Function.update m a v)

theorem rollback_append (j k : List (Nat × α)) (m : Nat → α) :
    rollback (j ++ k) m = rollback k (rollback j m) := by
  induction j generalizing m with
  | nil => rfl
  | cons e j ih => simp only [List.cons_append, rollback, ih]

def saved (m : Nat → α) (as : List Nat) : List (Nat × α) := as.map (fun a => (a, m a))

theorem rollback_saved {m m' : Nat → α} {as : List Nat}
    (h : ∀ i, i ∉ as → m' i = m i) : rollback (saved m as) m' = m := by
  induction as generalizing m' with
  | nil => exact funext fun i => h i (by simp)
  | cons a as ih =>
    apply ih
    intro i hi
    by_cases he : i = a
    · subst he
      simp
    · rw [Function.update_of_ne he]
      exact h i (by simp [he, hi])

/-- The journal `j` holds every cell overwritten on the way from `m₀` to the
current store, with the value it had before. -/
inductive Journaled (m₀ : Nat → α) : List (Nat × α) → (Nat → α) → Prop
  | nil : Journaled m₀ [] m₀
  | write {j : List (Nat × α)} {m m' : Nat → α} (as : List Nat) (hj : Journaled m₀ j m)
      (h : ∀ i, i ∉ as → m' i = m i) : Journaled m₀ (saved m as ++ j) m'

/-- Taking a journal back returns to the store it was started on, also when
cells recur in it with values that were already overwritten. -/
theorem Journaled.rollback {m₀ m : Nat → α} {j : List (Nat × α)} (h : Journaled m₀ j m) :
    rollback j m = m₀ := by
  induction h with
  | nil => rfl
  | write as _ hm ih => rw [rollback_append, rollback_saved hm, ih]

end VerusMiner
