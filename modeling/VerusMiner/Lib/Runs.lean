import Mathlib.Logic.Function.Basic

/-! Runs of a system given by a partial step function: one event after the
other, each enabled in the state it meets. -/

namespace VerusMiner

variable {σ ε : Type*}

def run (step : σ → ε → Option σ) : σ → List ε → Option σ
  | s, [] => some s
  | s, e :: es => (step s e).bind fun s' => run step s' es

/-- Every event of the run meets `ok` in the state it finds. -/
def Along (step : σ → ε → Option σ) (ok : σ → ε → Prop) : σ → List ε → Prop
  | _, [] => True
  | s, e :: es => ok s e ∧ ∀ s', step s e = some s' → Along step ok s' es

def Throughout (step : σ → ε → Option σ) (P : σ → Prop) : σ → List ε → Prop
  | s, [] => P s
  | s, e :: es => P s ∧ ∀ s', step s e = some s' → Throughout step P s' es

variable {step : σ → ε → Option σ}

theorem run_cons {s t : σ} {e : ε} {es : List ε} :
    run step s (e :: es) = some t ↔ ∃ s', step s e = some s' ∧ run step s' es = some t :=
  Option.bind_eq_some_iff

theorem run_singleton {s t : σ} {e : ε} (h : step s e = some t) : run step s [e] = some t :=
  run_cons.mpr ⟨t, h, rfl⟩

theorem run_append {s t : σ} {es es' : List ε} :
    run step s (es ++ es') = some t ↔ ∃ s', run step s es = some s' ∧ run step s' es' = some t := by
  induction es generalizing s with
  | nil => simp [run]
  | cons e es ih =>
    simp only [List.cons_append, run_cons, ih]
    constructor
    · rintro ⟨s₁, h₁, s₂, h₂, h₃⟩
      exact ⟨s₂, ⟨s₁, h₁, h₂⟩, h₃⟩
    · rintro ⟨s₂, ⟨s₁, h₁, h₂⟩, h₃⟩
      exact ⟨s₁, h₁, s₂, h₂, h₃⟩

theorem throughout_first {P : σ → Prop} {s : σ} {es : List ε} (h : Throughout step P s es) : P s := by
  cases es with
  | nil => exact h
  | cons e es => exact h.1

theorem throughout_last {P : σ → Prop} {s t : σ} {es : List ε} (hrun : run step s es = some t)
    (h : Throughout step P s es) : P t := by
  induction es generalizing s with
  | nil =>
    cases hrun
    exact h
  | cons e es ih =>
    obtain ⟨s', he, hrun⟩ := run_cons.mp hrun
    exact ih hrun (h.2 s' he)

theorem along_cons {ok : σ → ε → Prop} {s s' : σ} {e : ε} {es : List ε} (he : step s e = some s') :
    Along step ok s (e :: es) ↔ ok s e ∧ Along step ok s' es := by
  refine and_congr_right fun _ => ⟨fun h => h s' he, fun h s₁ h₁ => ?_⟩
  obtain rfl : s' = s₁ := Option.some.inj (he.symm.trans h₁)
  exact h

theorem along_of_always {ok : σ → ε → Prop} {s : σ} {es : List ε} (h : ∀ e ∈ es, ∀ s, ok s e) :
    Along step ok s es := by
  induction es generalizing s with
  | nil => trivial
  | cons e es ih =>
    exact ⟨h e List.mem_cons_self s, fun s' _ => ih fun e' he' => h e' (List.mem_cons_of_mem _ he')⟩

theorem along_append {ok : σ → ε → Prop} {s t : σ} {es es' : List ε} (hrun : run step s es = some t) :
    Along step ok s (es ++ es') ↔ Along step ok s es ∧ Along step ok t es' := by
  induction es generalizing s with
  | nil =>
    cases hrun
    simp [Along]
  | cons e es ih =>
    obtain ⟨s', he, hrun⟩ := run_cons.mp hrun
    rw [List.cons_append, along_cons he, along_cons he, ih hrun, and_assoc]

theorem run_invariant_of_along {ok : σ → ε → Prop} {I : σ → Prop}
    (hstep : ∀ {s e s'}, I s → ok s e → step s e = some s' → I s') {s t : σ} {es : List ε}
    (hok : Along step ok s es) (hrun : run step s es = some t) (hs : I s) : I t := by
  induction es generalizing s with
  | nil =>
    cases hrun
    exact hs
  | cons e es ih =>
    obtain ⟨s', he, hrun⟩ := run_cons.mp hrun
    exact ih (hok.2 s' he) hrun (hstep hs hok.1 he)

theorem run_invariant {I : σ → Prop} (hstep : ∀ {s e s'}, I s → step s e = some s' → I s')
    {s t : σ} {es : List ε} (hrun : run step s es = some t) (hs : I s) : I t := by
  induction es generalizing s with
  | nil =>
    cases hrun
    exact hs
  | cons e es ih =>
    obtain ⟨s', he, hrun⟩ := run_cons.mp hrun
    exact ih hrun (hstep hs he)

/-- A property that a step keeps exactly when it meets `ok` holds at the end
of a run exactly when all its steps meet `ok`. -/
theorem run_iff_along {ok : σ → ε → Prop} {I P : σ → Prop}
    (hI : ∀ {s e s'}, I s → step s e = some s' → I s')
    (hP : ∀ {s e s'}, I s → step s e = some s' → (P s' ↔ P s ∧ ok s e)) {s t : σ} {es : List ε}
    (hrun : run step s es = some t) (hs : I s) : P t ↔ P s ∧ Along step ok s es := by
  induction es generalizing s with
  | nil =>
    cases hrun
    simp [Along]
  | cons e es ih =>
    obtain ⟨s', he, hrun⟩ := run_cons.mp hrun
    rw [ih hrun (hI hs he), hP hs he, and_assoc, along_cons he]

/-- A property that a step keeps exactly when it meets `ok` holds in every
state of a run exactly when all its steps meet `ok`. -/
theorem throughout_iff_along_given {pre ok : σ → ε → Prop} {I P : σ → Prop}
    (hI : ∀ {s e s'}, I s → pre s e → step s e = some s' → I s')
    (hP : ∀ {s e s'}, I s → P s → pre s e → step s e = some s' → (P s' ↔ ok s e)) {s t : σ} {es : List ε}
    (hpre : Along step pre s es) (hrun : run step s es = some t) (hs : I s) (hPs : P s) :
    Throughout step P s es ↔ Along step ok s es := by
  induction es generalizing s with
  | nil => exact iff_of_true hPs trivial
  | cons e es ih =>
    obtain ⟨s', he, hrun⟩ := run_cons.mp hrun
    rw [along_cons he] at hpre
    have hnext (h : P s') := ih hpre.2 hrun (hI hs hpre.1 he) h
    rw [along_cons he, Throughout]
    constructor
    · rintro ⟨_, h⟩
      have hPs' : P s' := throughout_first (h s' he)
      exact ⟨(hP hs hPs hpre.1 he).mp hPs', (hnext hPs').mp (h s' he)⟩
    · rintro ⟨hok, h⟩
      refine ⟨hPs, fun s₁ h₁ => ?_⟩
      obtain rfl : s' = s₁ := Option.some.inj (he.symm.trans h₁)
      exact (hnext ((hP hs hPs hpre.1 he).mpr hok)).mpr h

theorem throughout_iff_along {ok : σ → ε → Prop} {I P : σ → Prop}
    (hI : ∀ {s e s'}, I s → step s e = some s' → I s')
    (hP : ∀ {s e s'}, I s → P s → step s e = some s' → (P s' ↔ ok s e)) {s t : σ} {es : List ε}
    (hrun : run step s es = some t) (hs : I s) (hPs : P s) :
    Throughout step P s es ↔ Along step ok s es := by
  have hall : Along step (fun _ _ => True) s es := along_of_always fun _ _ _ => trivial
  refine throughout_iff_along_given ?_ ?_ hall hrun hs hPs
  · exact fun hs _ he => hI hs he
  · exact fun hs hPs _ he => hP hs hPs he

/-- The same where the condition is on the events alone: `next` is what can be
told from them without the system. -/
theorem throughout_iff_along_told {τ : Type*} {next : τ → ε → τ} {ok : τ → ε → Prop} {R : σ → τ → Prop}
    {P : σ → Prop} (hR : ∀ {s t e s'}, R s t → step s e = some s' → R s' (next t e))
    (hP : ∀ {s t e s'}, R s t → P s → step s e = some s' → (P s' ↔ ok t e)) {s u : σ} {t : τ}
    {es : List ε} (hrun : run step s es = some u) (hst : R s t) (hPs : P s) :
    Throughout step P s es ↔ Along (fun t e => some (next t e)) ok t es := by
  induction es generalizing s t with
  | nil => exact iff_of_true hPs trivial
  | cons e es ih =>
    obtain ⟨s', he, hrun⟩ := run_cons.mp hrun
    have hnext (h : P s') := ih hrun (hR hst he) h
    rw [along_cons rfl, Throughout]
    constructor
    · rintro ⟨_, h⟩
      have hPs' : P s' := throughout_first (h s' he)
      exact ⟨(hP hst hPs he).mp hPs', (hnext hPs').mp (h s' he)⟩
    · rintro ⟨hok, h⟩
      refine ⟨hPs, fun s₁ h₁ => ?_⟩
      obtain rfl : s' = s₁ := Option.some.inj (he.symm.trans h₁)
      exact (hnext ((hP hst hPs he).mpr hok)).mpr h

theorem throughout_of_along {ok : σ → ε → Prop} {I P : σ → Prop}
    (hI : ∀ {s e s'}, I s → ok s e → step s e = some s' → I s') (hP : ∀ {s}, I s → P s) {s : σ}
    {es : List ε} (hs : I s) (hok : Along step ok s es) : Throughout step P s es := by
  induction es generalizing s with
  | nil => exact hP hs
  | cons e es ih => exact ⟨hP hs, fun s' he => ih (hI hs hok.1 he) (hok.2 s' he)⟩

theorem throughout_of_invariant {I P : σ → Prop} (hI : ∀ {s e s'}, I s → step s e = some s' → I s')
    (hP : ∀ {s}, I s → P s) {s : σ} (hs : I s) (es : List ε) : Throughout step P s es := by
  induction es generalizing s with
  | nil => exact hP hs
  | cons e es ih => exact ⟨hP hs, fun s' he => ih (hI hs he)⟩

theorem along_of_along {ok ok' : σ → ε → Prop} {I : σ → Prop}
    (hI : ∀ {s e s'}, I s → ok s e → step s e = some s' → I s')
    (hok' : ∀ {s e}, I s → ok s e → ok' s e) {s : σ} {es : List ε} (hs : I s)
    (hok : Along step ok s es) : Along step ok' s es := by
  induction es generalizing s with
  | nil => trivial
  | cons e es ih => exact ⟨hok' hs hok.1, fun s' he => ih (hI hs hok.1 he) (hok.2 s' he)⟩

theorem along_of_run {ok ok' : σ → ε → Prop} {I : σ → Prop}
    (hI : ∀ {s e s'}, I s → ok s e → step s e = some s' → I s')
    (hok' : ∀ {s e s'}, I s → ok s e → step s e = some s' → ok' s e) {s t : σ} {es : List ε}
    (hrun : run step s es = some t) (hs : I s) (hok : Along step ok s es) : Along step ok' s es := by
  induction es generalizing s with
  | nil => trivial
  | cons e es ih =>
    obtain ⟨s', he, hrun⟩ := run_cons.mp hrun
    rw [along_cons he] at hok ⊢
    exact ⟨hok' hs hok.1 he, ih hrun (hI hs hok.1 he) hok.2⟩

/-- Steps that are simulated one by one are simulated as a run. -/
theorem run_simulates {τ : Type*} {step' : τ → ε → Option τ} {R : σ → τ → Prop}
    (hstep : ∀ {s e s' t}, R s t → step s e = some s' → ∃ t', step' t e = some t' ∧ R s' t')
    {s s' : σ} {t : τ} {es : List ε} (hrun : run step s es = some s') (hst : R s t) :
    ∃ t', run step' t es = some t' ∧ R s' t' := by
  induction es generalizing s t with
  | nil =>
    cases hrun
    exact ⟨t, rfl, hst⟩
  | cons e es ih =>
    obtain ⟨s₁, he, hrun⟩ := run_cons.mp hrun
    obtain ⟨t₁, he', hst₁⟩ := hstep hst he
    obtain ⟨t', hrun', hst'⟩ := ih hrun hst₁
    exact ⟨t', run_cons.mpr ⟨t₁, he', hrun'⟩, hst'⟩

/-- A system whose steps succeed exactly when a total one finds them in order
has a run exactly when that one finds all of them in order. -/
theorem exists_run_iff_along {τ : Type*} {next : τ → ε → τ} {ok : τ → ε → Prop} {R : σ → τ → Prop}
    (hok : ∀ {s t e}, R s t → ((∃ s', step s e = some s') ↔ ok t e))
    (hR : ∀ {s t e s'}, R s t → step s e = some s' → R s' (next t e)) {s : σ} {t : τ} {es : List ε}
    (hst : R s t) :
    (∃ s', run step s es = some s') ↔ Along (fun t e => some (next t e)) ok t es := by
  induction es generalizing s t with
  | nil => exact iff_of_true ⟨s, rfl⟩ trivial
  | cons e es ih =>
    rw [along_cons rfl]
    constructor
    · rintro ⟨s', hrun⟩
      obtain ⟨s₁, he, hrun⟩ := run_cons.mp hrun
      exact ⟨(hok hst).mp ⟨s₁, he⟩, (ih (hR hst he)).mp ⟨s', hrun⟩⟩
    · rintro ⟨hfits, halong⟩
      obtain ⟨s₁, he⟩ := (hok hst).mpr hfits
      obtain ⟨s', hrun⟩ := (ih (hR hst he)).mpr halong
      exact ⟨s', run_cons.mpr ⟨s₁, he, hrun⟩⟩

/-- Where a step succeeds exactly if it meets `ok`, a run succeeds exactly if
all its steps meet `ok`. -/
theorem exists_run_iff {ok : σ → ε → Prop} {I : σ → Prop}
    (hok : ∀ {s e}, I s → ((∃ s', step s e = some s') ↔ ok s e))
    (hI : ∀ {s e s'}, I s → step s e = some s' → I s') {s : σ} {es : List ε} (hs : I s) :
    (∃ t, run step s es = some t ∧ I t) ↔ Along step ok s es := by
  induction es generalizing s with
  | nil => exact iff_of_true ⟨s, rfl, hs⟩ trivial
  | cons e es ih =>
    constructor
    · rintro ⟨t, hrun, ht⟩
      obtain ⟨s', he, hrun⟩ := run_cons.mp hrun
      exact (along_cons he).mpr ⟨(hok hs).mp ⟨s', he⟩, (ih (hI hs he)).mp ⟨t, hrun, ht⟩⟩
    · intro halong
      obtain ⟨s', he⟩ := (hok hs).mpr halong.1
      obtain ⟨t, hrun, ht⟩ := (ih (hI hs he)).mpr (halong.2 s' he)
      exact ⟨t, run_cons.mpr ⟨s', he, hrun⟩, ht⟩

end VerusMiner
