import Mathlib.Data.List.Infix

/-! Words kept in one list, each between two separators: a word is one of them
exactly if it stands there between separators. -/

namespace VerusMiner

variable {α : Type*}

def enclosed (sep : α) (words : List (List α)) : List α := sep :: words.flatMap (· ++ [sep])

theorem enclosed_cons (sep : α) (w : List α) (words : List (List α)) :
    enclosed sep (w :: words) = sep :: (w ++ enclosed sep words) := by
  simp [enclosed]

theorem enclosed_append_singleton (sep : α) (w : List α) (words : List (List α)) :
    enclosed sep (words ++ [w]) = enclosed sep words ++ w ++ [sep] := by
  simp [enclosed]

theorem word_eq_of_prefix {sep : α} {m w t u : List α} (hm : sep ∉ m) (hw : sep ∉ w)
    (h : m ++ sep :: t = w ++ sep :: u) : m = w := by
  induction m generalizing w with
  | nil =>
    cases w with
    | nil => rfl
    | cons c w => exact absurd (List.cons.inj h).1 fun hc => hw (hc ▸ List.mem_cons_self)
  | cons c m ih =>
    obtain ⟨hc, hm⟩ : sep ≠ c ∧ sep ∉ m := by simpa using hm
    cases w with
    | nil => exact absurd (List.cons.inj h).1.symm hc
    | cons d w =>
      obtain ⟨rfl, htail⟩ := List.cons.inj h
      rw [ih hm (fun hmem => hw (List.mem_cons_of_mem _ hmem)) htail]

/-- What starts with a separator does not start within a word. -/
theorem infix_of_infix_append {sep : α} {w m e : List α} (hw : sep ∉ w)
    (h : sep :: m <:+: w ++ e) : sep :: m <:+: e := by
  induction w with
  | nil => exact h
  | cons c w ih =>
    obtain ⟨hc, hw⟩ : sep ≠ c ∧ sep ∉ w := by simpa using hw
    rcases List.infix_cons_iff.mp h with ⟨t, ht⟩ | hin
    · exact absurd (List.cons.inj ht).1 hc
    · exact ih hw hin

theorem infix_enclosed_iff {sep : α} {words : List (List α)} (hwords : ∀ w ∈ words, sep ∉ w)
    {m : List α} (hm : sep ∉ m) : sep :: (m ++ [sep]) <:+: enclosed sep words ↔ m ∈ words := by
  induction words with
  | nil =>
    constructor
    · intro h
      have hlength := h.length_le
      simp [enclosed] at hlength
    · intro h
      cases h
  | cons w words ih =>
    obtain ⟨hw, hwords⟩ := List.forall_mem_cons.mp hwords
    rw [enclosed_cons, List.infix_cons_iff, List.mem_cons, ← ih hwords]
    refine or_congr ⟨?_, ?_⟩ ⟨infix_of_infix_append hw, fun h => h.trans (List.suffix_append _ _).isInfix⟩
    · rintro ⟨t, ht⟩
      rw [List.cons_append, List.append_assoc, List.singleton_append] at ht
      exact word_eq_of_prefix hm hw (List.cons.inj ht).2
    · rintro rfl
      exact ⟨words.flatMap (· ++ [sep]), by simp [enclosed]⟩

end VerusMiner
