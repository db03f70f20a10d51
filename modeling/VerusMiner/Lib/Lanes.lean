import VerusMiner.Lib.Store

/-! Steps confined to a window of a store, and two such computations run in
alternation on disjoint windows of one store. -/

namespace VerusMiner

variable {α σ : Type*}

/-- A step with private state `σ` whose outcome depends on the cells below
`r` only and which writes cells below `w` only. -/
structure Confined (r w : Nat) (step : σ → (Nat → α) → σ × (Nat → α)) : Prop where
  reads : ∀ s m m', (∀ i < r, m i = m' i) →
    (step s m).1 = (step s m').1 ∧ ∀ i < r, (step s m).2 i = (step s m').2 i
  writes : ∀ s m i, w ≤ i → (step s m).2 i = m i

def runSteps (step : Nat → σ → (Nat → α) → σ × (Nat → α)) : Nat → σ → (Nat → α) → σ × (Nat → α)
  | 0, s, m => (s, m)
  | n + 1, s, m => step n (runSteps step n s m).1 (runSteps step n s m).2

theorem runSteps_confined {r w : Nat} {step : Nat → σ → (Nat → α) → σ × (Nat → α)}
    (h : ∀ i, Confined r w (step i)) (n : Nat) : Confined r w (runSteps step n) := by
  induction n with
  | zero => exact ⟨fun s m m' hm => ⟨rfl, hm⟩, fun s m i _ => rfl⟩
  | succ n ih =>
    constructor
    · intro s m m' hm
      obtain ⟨hs, hr⟩ := ih.reads s m m' hm
      simp only [runSteps, hs]
      exact (h n).reads _ _ _ hr
    · intro s m i hi
      rw [runSteps, (h n).writes _ _ _ hi, ih.writes _ _ _ hi]

def stepAt (base : Nat) (step : σ → (Nat → α) → σ × (Nat → α)) (s : σ) (m : Nat → α) :
    σ × (Nat → α) :=
  ((step s (window base m)).1, putWindow base m (step s (window base m)).2)

theorem stepAt_window (base : Nat) (step : σ → (Nat → α) → σ × (Nat → α)) (s : σ)
    (m : Nat → α) (i : Nat) :
    (stepAt base step s m).2 (base + i) = (step s (window base m)).2 i :=
  putWindow_at _ _ _ _

theorem stepAt_off {base r w : Nat} {step : σ → (Nat → α) → σ × (Nat → α)}
    (h : Confined r w step) (s : σ) (m : Nat → α) {i : Nat} (hi : i < base ∨ base + w ≤ i) :
    (stepAt base step s m).2 i = m i := by
  rcases hi with hi | hi
  · exact putWindow_before hi
  · obtain ⟨k, rfl⟩ := Nat.exists_eq_add_of_le (Nat.le_trans (Nat.le_add_right base w) hi)
    rw [stepAt_window, h.writes _ _ _ (by omega), window_apply]

def runAlternately (step : Nat → σ → (Nat → α) → σ × (Nat → α)) (b₁ b₂ : Nat) :
    Nat → σ → σ → (Nat → α) → (σ × σ) × (Nat → α)
  | 0, s₁, s₂, m => ((s₁, s₂), m)
  | n + 1, s₁, s₂, m =>
    let r := runAlternately step b₁ b₂ n s₁ s₂ m
    let o₁ := stepAt b₁ (step n) r.1.1 r.2
    let o₂ := stepAt b₂ (step n) r.1.2 o₁.2
    ((o₁.1, o₂.1), o₂.2)

/-- Confined computations on disjoint windows do not notice each other: each
ends as it does alone, and no other cell of the store changes. -/
theorem runAlternately_eq {r w b₁ b₂ : Nat} {step : Nat → σ → (Nat → α) → σ × (Nat → α)}
    (h : ∀ i, Confined r w (step i)) (hw : w ≤ r) (hb : b₁ + r ≤ b₂)
    (n : Nat) (s₁ s₂ : σ) (m : Nat → α) :
    (runAlternately step b₁ b₂ n s₁ s₂ m).1.1 = (runSteps step n s₁ (window b₁ m)).1 ∧
    (runAlternately step b₁ b₂ n s₁ s₂ m).1.2 = (runSteps step n s₂ (window b₂ m)).1 ∧
    (∀ i < r, (runAlternately step b₁ b₂ n s₁ s₂ m).2 (b₁ + i) =
      (runSteps step n s₁ (window b₁ m)).2 i) ∧
    (∀ i < r, (runAlternately step b₁ b₂ n s₁ s₂ m).2 (b₂ + i) =
      (runSteps step n s₂ (window b₂ m)).2 i) ∧
    ∀ i, (i < b₁ ∨ b₁ + w ≤ i) → (i < b₂ ∨ b₂ + w ≤ i) →
      (runAlternately step b₁ b₂ n s₁ s₂ m).2 i = m i := by
  induction n with
  | zero => exact ⟨rfl, rfl, fun _ _ => rfl, fun _ _ => rfl, fun _ _ _ => rfl⟩
  | succ n ih =>
    obtain ⟨e₁, e₂, h₁, h₂, hoff⟩ := ih
    let t := runAlternately step b₁ b₂ n s₁ s₂ m
    let o₁ := stepAt b₁ (step n) t.1.1 t.2
    have r₁ := (h n).reads t.1.1 (window b₁ t.2) (runSteps step n s₁ (window b₁ m)).2 h₁
    -- the second lane reads its own window, which the first lane left alone
    have hw₂ : ∀ i < r, window b₂ o₁.2 i = (runSteps step n s₂ (window b₂ m)).2 i := by
      intro i hi
      rw [window_apply, stepAt_off (h n) _ _ (by omega)]
      exact h₂ i hi
    have r₂ := (h n).reads t.1.2 (window b₂ o₁.2) (runSteps step n s₂ (window b₂ m)).2 hw₂
    refine ⟨?_, ?_, ?_, ?_, ?_⟩
    · change (stepAt b₁ (step n) t.1.1 t.2).1 = _
      rw [stepAt, r₁.1, runSteps, e₁]
    · change (stepAt b₂ (step n) t.1.2 o₁.2).1 = _
      rw [stepAt, r₂.1, runSteps, e₂]
    · intro i hi
      change (stepAt b₂ (step n) t.1.2 o₁.2).2 (b₁ + i) = _
      rw [stepAt_off (h n) _ _ (by omega), stepAt_window, r₁.2 i hi, runSteps, e₁]
    · intro i hi
      change (stepAt b₂ (step n) t.1.2 o₁.2).2 (b₂ + i) = _
      rw [stepAt_window, r₂.2 i hi, runSteps, e₂]
    · intro i hi₁ hi₂
      change (stepAt b₂ (step n) t.1.2 o₁.2).2 i = _
      rw [stepAt_off (h n) _ _ hi₂, stepAt_off (h n) _ _ hi₁, hoff i hi₁ hi₂]

end VerusMiner
