import Mathlib.Logic.Function.Basic

/-! Ledgers of things that workers find, hold one at a time, and hand over or
drop: where each thing found has gone. -/

namespace VerusMiner

variable {α : Type*}

/-- `hand` is what each worker holds, `handed` what was handed over. -/
structure Ledger (α : Type*) where
  found : List α
  hand : Nat → Option α
  handed : List α

namespace Ledger

structure WellFormed (l : Ledger α) : Prop where
  hand_found : ∀ {i a}, l.hand i = some a → a ∈ l.found
  hand_notHanded : ∀ {i a}, l.hand i = some a → a ∉ l.handed
  hand_inj : ∀ {i j a}, l.hand i = some a → l.hand j = some a → i = j
  handed_found : ∀ {a}, a ∈ l.handed → a ∈ l.found

/-- What a step may do, and the thing dropped in it. -/
inductive Step (l : Ledger α) : Option α → Ledger α → Prop
  | keep : Step l none l
  | find {i : Nat} {a : α} (hi : l.hand i = none) (ha : a ∉ l.found) :
    Step l none { l with found := l.found ++ [a], hand := Function.update l.hand i (some a) }
  | handOver {i : Nat} {a : α} (hi : l.hand i = some a) :
    Step l none { l with hand := Function.update l.hand i none, handed := l.handed ++ [a] }
  | drop {i : Nat} {a : α} (hi : l.hand i = some a) :
    Step l (some a) { l with hand := Function.update l.hand i none }

def Accounted (l : Ledger α) (excused : α → Prop) : Prop :=
  ∀ a ∈ l.found, a ∈ l.handed ∨ (∃ i, l.hand i = some a) ∨ excused a

variable {l l' : Ledger α} {d : Option α}

theorem wellFormed_nil {hand : Nat → Option α} (h : ∀ i, hand i = none) :
    WellFormed { found := [], hand := hand, handed := [] } := by
  constructor <;> simp [h]

theorem hand_of_emptied {i j : Nat} {a : α} (h : Function.update l.hand i none j = some a) :
    j ≠ i ∧ l.hand j = some a := by
  by_cases hj : j = i
  · simp [hj] at h
  · rw [Function.update_of_ne hj] at h
    exact ⟨hj, h⟩

theorem Step.wellFormed (hl : l.WellFormed) (h : l.Step d l') : l'.WellFormed := by
  cases h with
  | keep => exact hl
  | @find i a hi ha =>
    have hcase {j : Nat} {b : α} (h : Function.update l.hand i (some a) j = some b) :
        j = i ∧ a = b ∨ j ≠ i ∧ l.hand j = some b := by
      by_cases hj : j = i
      · subst hj
        rw [Function.update_self] at h
        exact .inl ⟨rfl, Option.some.inj h⟩
      · rw [Function.update_of_ne hj] at h
        exact .inr ⟨hj, h⟩
    constructor
    · intro j b h
      rcases hcase h with ⟨_, rfl⟩ | ⟨_, h⟩
      · exact List.mem_append_right _ (.head _)
      · exact List.mem_append_left _ (hl.hand_found h)
    · intro j b h
      rcases hcase h with ⟨_, rfl⟩ | ⟨_, h⟩
      · exact fun hmem => ha (hl.handed_found hmem)
      · exact hl.hand_notHanded h
    · intro j k b hj hk
      rcases hcase hj with ⟨hji, hab⟩ | ⟨_, hj'⟩ <;> rcases hcase hk with ⟨hki, hab'⟩ | ⟨_, hk'⟩
      · exact hji.trans hki.symm
      · exact absurd (hl.hand_found hk') (hab ▸ ha)
      · exact absurd (hl.hand_found hj') (hab' ▸ ha)
      · exact hl.hand_inj hj' hk'
    · exact fun h => List.mem_append_left _ (hl.handed_found h)
  | @handOver i a hi =>
    constructor
    · exact fun h => hl.hand_found (hand_of_emptied h).2
    · intro j b h hmem
      obtain ⟨hj, h⟩ := hand_of_emptied h
      rcases List.mem_append.mp hmem with hold | hnew
      · exact hl.hand_notHanded h hold
      · rw [List.mem_singleton.mp hnew] at h
        exact hj (hl.hand_inj h hi)
    · exact fun hj hk => hl.hand_inj (hand_of_emptied hj).2 (hand_of_emptied hk).2
    · intro b hmem
      rcases List.mem_append.mp hmem with hold | hnew
      · exact hl.handed_found hold
      · rw [List.mem_singleton.mp hnew]
        exact hl.hand_found hi
  | drop hi =>
    constructor
    · exact fun h => hl.hand_found (hand_of_emptied h).2
    · exact fun h => hl.hand_notHanded (hand_of_emptied h).2
    · exact fun hj hk => hl.hand_inj (hand_of_emptied hj).2 (hand_of_emptied hk).2
    · exact hl.handed_found

theorem held_or_eq {i : Nat} {a b : α} (hi : l.hand i = some a) (h : ∃ j, l.hand j = some b) :
    (∃ j, Function.update l.hand i none j = some b) ∨ b = a := by
  obtain ⟨j, hj⟩ := h
  by_cases he : j = i
  · subst he
    exact .inr (Option.some.inj (hj.symm.trans hi))
  · exact .inl ⟨j, by rw [Function.update_of_ne he, hj]⟩

/-- As long as excuses last, all stays accounted for exactly when what is
dropped is excused. -/
theorem Step.accounted_iff (hl : l.WellFormed) (h : l.Step d l') {excused excused' : α → Prop}
    (hacc : l.Accounted excused) (hmono : ∀ {a}, excused a → excused' a) :
    l'.Accounted excused' ↔ ∀ a, d = some a → excused' a := by
  cases h with
  | keep => exact iff_of_true (fun a ha => (hacc a ha).imp_right (·.imp_right hmono)) (by simp)
  | @find i a hi ha =>
    refine iff_of_true (fun b hb => ?_) (by simp)
    rcases List.mem_append.mp hb with hold | hnew
    · rcases hacc b hold with hdone | ⟨j, hj⟩ | hex
      · exact .inl hdone
      · have hne : j ≠ i := by
          rintro rfl
          simp [hi] at hj
        exact .inr (.inl ⟨j, by rw [← hj]; exact Function.update_of_ne hne _ _⟩)
      · exact .inr (.inr (hmono hex))
    · rw [List.mem_singleton.mp hnew]
      exact .inr (.inl ⟨i, Function.update_self ..⟩)
  | @handOver i a hi =>
    refine iff_of_true (fun b hb => ?_) (by simp)
    rcases hacc b hb with hdone | hheld | hex
    · exact .inl (List.mem_append_left _ hdone)
    · rcases held_or_eq hi hheld with hheld | rfl
      · exact .inr (.inl hheld)
      · exact .inl (List.mem_append_right _ (.head _))
    · exact .inr (.inr (hmono hex))
  | @drop i a hi =>
    constructor
    · intro h b hb
      obtain rfl : a = b := Option.some.inj hb
      rcases h a (hl.hand_found hi) with hdone | ⟨j, hj⟩ | hex
      · exact absurd hdone (hl.hand_notHanded hi)
      · obtain ⟨hne, hj⟩ := hand_of_emptied hj
        exact absurd (hl.hand_inj hj hi) hne
      · exact hex
    · intro hdrop b hb
      rcases hacc b hb with hdone | hheld | hex
      · exact .inl hdone
      · rcases held_or_eq hi hheld with hheld | rfl
        · exact .inr (.inl hheld)
        · exact .inr (.inr (hdrop _ rfl))
      · exact .inr (.inr (hmono hex))

end Ledger

end VerusMiner
