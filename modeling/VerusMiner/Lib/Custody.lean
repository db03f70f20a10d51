import Mathlib.Data.Finset.Insert
import Mathlib.Data.Finset.Erase
import Mathlib.Logic.Function.Basic

/-! Open resources and the places that hold them: each is held in one place,
and no place holds one that is closed. -/

namespace VerusMiner

variable {ι κ : Type*}

structure Custody (holds : ι → Option κ) (opened : Finset κ) : Prop where
  held : ∀ k, k ∈ opened ↔ ∃ i, holds i = some k
  once : ∀ {i j k}, holds i = some k → holds j = some k → i = j

namespace Custody

variable {holds : ι → Option κ} {opened : Finset κ}

theorem empty : Custody (fun _ : ι => (none : Option κ)) ∅ := by
  refine ⟨fun k => iff_of_false (Finset.notMem_empty k) ?_, ?_⟩
  · rintro ⟨i, hi⟩
    cases hi
  · intro i j k hi
    cases hi

theorem mem (h : Custody holds opened) {i : ι} {k : κ} (hi : holds i = some k) : k ∈ opened :=
  (h.held k).mpr ⟨i, hi⟩

section Close

variable [DecidableEq κ]

/-- What a place holds cannot be closed over its head. -/
theorem not_erase {i : ι} {k : κ} (hi : holds i = some k) : ¬ Custody holds (opened.erase k) :=
  fun h => Finset.notMem_erase k opened (h.mem hi)

end Close

variable [DecidableEq ι]

/-- A place can be overwritten only with what it held. -/
theorem update_iff (h : Custody holds opened) {i : ι} {o : Option κ} :
    Custody (Function.update holds i o) opened ↔ o = holds i := by
  constructor
  · intro h'
    cases hi : holds i with
    | some k =>
      obtain ⟨j, hj⟩ := (h'.held k).mp (h.mem hi)
      by_cases hji : j = i
      · rw [hji, Function.update_self] at hj
        exact hj
      · rw [Function.update_of_ne hji] at hj
        exact absurd (h.once hj hi) hji
    | none =>
      cases o with
      | none => rfl
      | some k =>
        obtain ⟨j, hj⟩ := (h.held k).mp (h'.mem (Function.update_self i _ holds))
        have hji : j ≠ i := by
          rintro rfl
          rw [hi] at hj
          cases hj
        refine absurd (h'.once ?_ (Function.update_self i _ holds)) hji
        rw [Function.update_of_ne hji, hj]
  · rintro rfl
    rw [Function.update_eq_self]
    exact h

variable [DecidableEq κ]

theorem put (h : Custody holds opened) {i : ι} {k : κ} (hi : holds i = none) (hk : k ∉ opened) :
    Custody (Function.update holds i (some k)) (insert k opened) := by
  have hother {j : ι} {k' : κ} (hj : holds j = some k') : j ≠ i := by
    rintro rfl
    rw [hi] at hj
    cases hj
  refine ⟨fun k' => ?_, ?_⟩
  · rw [Finset.mem_insert, h.held]
    constructor
    · rintro (rfl | ⟨j, hj⟩)
      · exact ⟨i, Function.update_self i _ holds⟩
      · exact ⟨j, by rw [Function.update_of_ne (hother hj), hj]⟩
    · rintro ⟨j, hj⟩
      by_cases hji : j = i
      · subst hji
        rw [Function.update_self] at hj
        exact Or.inl (Option.some.inj hj).symm
      · rw [Function.update_of_ne hji] at hj
        exact Or.inr ⟨j, hj⟩
  · intro j j' k' hj hj'
    by_cases hji : j = i <;> by_cases hji' : j' = i
    · rw [hji, hji']
    · subst hji
      rw [Function.update_self] at hj
      rw [Function.update_of_ne hji', ← hj] at hj'
      exact absurd (h.mem hj') hk
    · subst hji'
      rw [Function.update_self] at hj'
      rw [Function.update_of_ne hji, ← hj'] at hj
      exact absurd (h.mem hj) hk
    · rw [Function.update_of_ne hji] at hj
      rw [Function.update_of_ne hji'] at hj'
      exact h.once hj hj'

/-- A place that no longer holds an open resource leaves the rest in custody
exactly when it held the one that is closed. -/
theorem take_iff (h : Custody holds opened) {i : ι} {k : κ} (hk : k ∈ opened) :
    Custody (Function.update holds i none) (opened.erase k) ↔ holds i = some k := by
  constructor
  · intro h'
    obtain ⟨j, hj⟩ := (h.held k).mp hk
    by_contra hne
    have hji : j ≠ i := fun hji => hne (hji ▸ hj)
    refine Finset.notMem_erase k opened (h'.mem (i := j) ?_)
    rw [Function.update_of_ne hji, hj]
  · intro hi
    have hkept {j : ι} {k' : κ} (hj : Function.update holds i none j = some k') : j ≠ i ∧ holds j = some k' := by
      by_cases hji : j = i
      · rw [hji, Function.update_self] at hj
        cases hj
      · rw [Function.update_of_ne hji] at hj
        exact ⟨hji, hj⟩
    refine ⟨fun k' => ?_, fun hj hj' => h.once (hkept hj).2 (hkept hj').2⟩
    rw [Finset.mem_erase, h.held]
    constructor
    · rintro ⟨hne, j, hj⟩
      have hji : j ≠ i := by
        rintro rfl
        exact hne (Option.some.inj (hj.symm.trans hi))
      exact ⟨j, by rw [Function.update_of_ne hji, hj]⟩
    · rintro ⟨j, hj⟩
      refine ⟨?_, j, (hkept hj).2⟩
      rintro rfl
      exact (hkept hj).1 (h.once (hkept hj).2 hi)

end Custody

end VerusMiner
