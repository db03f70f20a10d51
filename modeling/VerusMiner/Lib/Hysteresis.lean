import Mathlib

/-! A rule with hysteresis: a reading above its limit pauses it, one at a lower
value or below lets it go on. -/

namespace VerusMiner

structure Hysteresis (α : Type*) [LinearOrder α] where
  limit : α
  resume : α
  resume_le : resume ≤ limit

namespace Hysteresis

variable {α : Type*} [LinearOrder α]

def next (r : Hysteresis α) (paused : Bool) (x : α) : Bool :=
  if r.limit < x then true else if x ≤ r.resume then false else paused

/-- The rule after readings, from the first on. -/
def paused (r : Hysteresis α) (xs : List α) : Bool := xs.foldl r.next false

theorem next_eq_true_iff (r : Hysteresis α) (paused : Bool) (x : α) :
    r.next paused x = true ↔ r.limit < x ∨ paused = true ∧ r.resume < x := by
  unfold next
  split_ifs with hlimit hresume
  · exact iff_of_true rfl (.inl hlimit)
  · refine iff_of_false id fun h => ?_
    exact h.elim hlimit fun h => absurd h.2 (not_lt.mpr hresume)
  · rw [or_iff_right hlimit]
    exact (and_iff_left (not_le.mp hresume)).symm

theorem paused_concat (r : Hysteresis α) (xs : List α) (x : α) :
    r.paused (xs ++ [x]) = r.next (r.paused xs) x := by
  rw [paused, List.foldl_append, List.foldl_cons, List.foldl_nil, paused]

end Hysteresis

end VerusMiner
