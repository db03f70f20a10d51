import Mathlib

/-! The entry of a sorted map with the greatest key among those a test admits. -/

namespace VerusMiner

open Std

variable {α β : Type*} {cmp : α → α → Ordering}

def lastEntry (t : TreeMap α β cmp) (p : α → β → Bool) : Option (α × β) :=
  t.toList.reverse.find? fun e => p e.1 e.2

theorem lastEntry_filter (t : TreeMap α β cmp) (p q : α → β → Bool) :
    lastEntry (t.filter q) p = lastEntry t fun k v => q k v && p k v := by
  rw [lastEntry, lastEntry, TreeMap.toList_filter, ← List.filter_reverse, List.find?_filter]
  simp only [Bool.decide_and, Bool.decide_eq_true]

theorem lastEntry_map {γ : Type*} (t : TreeMap α β cmp) (f : α → β → γ) (p : α → γ → Bool) :
    lastEntry (t.map f) p = (lastEntry t fun k v => p k (f k v)).map fun e => (e.1, f e.1 e.2) := by
  rw [lastEntry, lastEntry, TreeMap.toList_map, ← List.map_reverse, List.find?_map]
  rfl

variable [TransCmp cmp] [LawfulEqCmp cmp] {t : TreeMap α β cmp} {p : α → β → Bool}

theorem lastEntry_congr {q : α → β → Bool} (h : ∀ k v, t[k]? = some v → p k v = q k v) :
    lastEntry t p = lastEntry t q := by
  refine List.find?_congr fun e hmem => ?_
  exact h e.1 e.2 (TreeMap.mem_toList_iff_getElem?_eq_some.mp (List.mem_reverse.mp hmem))

theorem lastEntry_eq_none_iff : lastEntry t p = none ↔ ∀ k v, t[k]? = some v → p k v = false := by
  rw [lastEntry, List.find?_eq_none]
  constructor
  · intro h k v hv
    have hmem := List.mem_reverse.mpr (TreeMap.mem_toList_iff_getElem?_eq_some.mpr hv)
    exact Bool.eq_false_iff.mpr (h (k, v) hmem)
  · rintro h ⟨k, v⟩ hmem
    have hv := TreeMap.mem_toList_iff_getElem?_eq_some.mp (List.mem_reverse.mp hmem)
    exact Bool.eq_false_iff.mp (h k v hv)

theorem lastEntry_eq_some {k : α} {v : β} (h : lastEntry t p = some (k, v)) :
    t[k]? = some v ∧ p k v = true ∧
      ∀ k' v', t[k']? = some v' → p k' v' = true → (cmp k' k).isLE := by
  obtain ⟨hp, before, after, hsplit, hbefore⟩ := List.find?_eq_some_iff_append.mp h
  have hlist : t.toList.reverse = before ++ (k, v) :: after := hsplit
  have hentry : (k, v) ∈ t.toList.reverse := by
    rw [hlist]
    exact List.mem_append_right _ List.mem_cons_self
  refine ⟨TreeMap.mem_toList_iff_getElem?_eq_some.mp (List.mem_reverse.mp hentry), hp, fun k' v' hv' hp' => ?_⟩
  have hmem := List.mem_reverse.mpr (TreeMap.mem_toList_iff_getElem?_eq_some.mpr hv')
  rw [hlist] at hmem
  rcases List.mem_append.mp hmem with hskipped | hlater
  · have hno := hbefore _ hskipped
    simp only [hp', Bool.not_true, Bool.false_eq_true] at hno
  · rcases List.mem_cons.mp hlater with heq | hlater
    · rw [(Prod.mk.inj heq).1]
      exact Ordering.isLE_of_eq_eq ReflCmp.compare_self
    · -- in the reversed list the keys go down
      have hordered := List.pairwise_reverse.mpr (TreeMap.ordered_keys_toList (t := t))
      rw [hlist] at hordered
      have htail := (List.pairwise_append.mp hordered).2.1
      exact Ordering.isLE_of_eq_lt (List.rel_of_pairwise_cons htail hlater)

end VerusMiner
