import VerusMiner.Lib.Hysteresis

/-! Conditional mining: the limits a thread mines under, and the one flag in
which it remembers that it waits. The measures are rational numbers. -/

namespace VerusMiner

structure MineOptions where
  maxTemp : ℚ
  resumeTemp : ℚ
  maxDiff : ℚ
  resumeDiff : ℚ
  maxRate : ℚ
  resumeRate : ℚ

/-- What a call of `wanna_mine` finds; the limits of the next valid pool are
other than those of the current one or not. -/
structure MineReading where
  temp : ℚ
  netDiff : ℚ
  netHashrate : ℚ
  numPools : Int
  poolIsSwitching : Bool
  otherMaxDiff : Bool
  otherMaxRate : Bool

structure MineState where
  conditionalState : Nat → Bool
  conditionalPoolRotate : Bool

/-- A limit, if there is one, that is exceeded, or was and the value is still
above the resume value, if there is one. -/
def onHold (limit resume : ℚ) (waiting : Bool) (x : ℚ) : Bool :=
  if 0 < limit ∧ limit < x then true else decide (0 < limit ∧ 0 < resume ∧ waiting = true ∧ resume < x)

namespace MineState

def wannaMine (opts : MineOptions) (thrId : Nat) (s : MineState) (r : MineReading) : Bool × MineState :=
  let waiting := s.conditionalState thrId
  let allowPoolRotate := thrId == 0 && 1 < r.numPools && !r.poolIsSwitching
  let rotate := s.conditionalPoolRotate
  let rotate :=
    if (0 < opts.maxDiff ∧ opts.maxDiff < r.netDiff) ∧ 1 < r.numPools ∧ r.otherMaxDiff = true ∧ opts.resumeDiff ≤ 0
    then allowPoolRotate else rotate
  let rotate :=
    if (0 < opts.maxRate ∧ opts.maxRate < r.netHashrate) ∧ r.otherMaxRate = true ∧ opts.resumeRate ≤ 0
    then allowPoolRotate else rotate
  let state := !(onHold opts.maxTemp opts.resumeTemp waiting r.temp ||
    onHold opts.maxDiff opts.resumeDiff waiting r.netDiff ||
    onHold opts.maxRate opts.resumeRate waiting r.netHashrate)
  (state, { conditionalState := Function.update s.conditionalState thrId !state, conditionalPoolRotate := rotate })

end MineState

/-- Two rules and no limit of the temperature. -/
structure MineRules where
  maxTemp : ℚ
  resumeTemp : ℚ
  diff : Hysteresis ℚ
  rate : Hysteresis ℚ
  noTemp : maxTemp ≤ 0
  diff_pos : 0 < diff.limit
  rate_pos : 0 < rate.limit

namespace MineRules

variable (rules : MineRules)

def options : MineOptions where
  maxTemp := rules.maxTemp
  resumeTemp := rules.resumeTemp
  maxDiff := rules.diff.limit
  resumeDiff := rules.diff.resume
  maxRate := rules.rate.limit
  resumeRate := rules.rate.resume

def diffPaused (rs : List MineReading) : Bool := rules.diff.paused (rs.map fun r => r.netDiff)

def ratePaused (rs : List MineReading) : Bool := rules.rate.paused (rs.map fun r => r.netHashrate)

def after (thrId : Nat) (s : MineState) (rs : List MineReading) : MineState :=
  rs.foldl (fun s r => (s.wannaMine rules.options thrId r).2)
    { s with conditionalState := Function.update s.conditionalState thrId false }

/-- Every call returns true exactly if neither rule is paused by the readings
up to its own. -/
def Follows (thrId : Nat) (s : MineState) (rs : List MineReading) : Prop :=
  ∀ before r, before ++ [r] <+: rs →
    ((rules.after thrId s before).wannaMine rules.options thrId r).1 =
      !(rules.diffPaused (before ++ [r]) || rules.ratePaused (before ++ [r]))

/-- While a rule is paused and no limit exceeded, a resume value that is set is
exceeded exactly if that of a paused rule is. -/
def UncrossedAt (before : List MineReading) (r : MineReading) : Prop :=
  r.netDiff ≤ rules.diff.limit → r.netHashrate ≤ rules.rate.limit →
    rules.diffPaused before = true ∨ rules.ratePaused before = true →
    ((0 < rules.diff.resume ∧ rules.diff.resume < r.netDiff ∨
        0 < rules.rate.resume ∧ rules.rate.resume < r.netHashrate) ↔
      (rules.diffPaused before = true ∧ rules.diff.resume < r.netDiff ∨
        rules.ratePaused before = true ∧ rules.rate.resume < r.netHashrate))

def Uncrossed (rs : List MineReading) : Prop := ∀ before r, before ++ [r] <+: rs → rules.UncrossedAt before r

end MineRules

section Calls

variable {rules : MineRules} {thrId : Nat} {s : MineState}

theorem onHold_of_nonpos {limit : ℚ} (h : limit ≤ 0) (resume : ℚ) (waiting : Bool) (x : ℚ) :
    onHold limit resume waiting x = false := by
  simp [onHold, not_lt.mpr h]

theorem onHold_eq_true_iff {limit : ℚ} (h : 0 < limit) (resume : ℚ) (waiting : Bool) (x : ℚ) :
    onHold limit resume waiting x = true ↔ limit < x ∨ waiting = true ∧ 0 < resume ∧ resume < x := by
  unfold onHold
  split_ifs with hover
  · exact iff_of_true rfl (.inl hover.2)
  · grind

theorem wannaMine_conditionalState (opts : MineOptions) (r : MineReading) :
    (s.wannaMine opts thrId r).2.conditionalState thrId = !(s.wannaMine opts thrId r).1 :=
  Function.update_self ..

theorem wannaMine_options (r : MineReading) : (s.wannaMine rules.options thrId r).1 =
    !(onHold rules.diff.limit rules.diff.resume (s.conditionalState thrId) r.netDiff ||
      onHold rules.rate.limit rules.rate.resume (s.conditionalState thrId) r.netHashrate) := by
  simp only [MineState.wannaMine, MineRules.options, onHold_of_nonpos rules.noTemp, Bool.false_or]

theorem forall_reading_concat {P : List MineReading → MineReading → Prop} {rs : List MineReading} {r : MineReading} :
    (∀ before r', before ++ [r'] <+: rs ++ [r] → P before r') ↔
      (∀ before r', before ++ [r'] <+: rs → P before r') ∧ P rs r := by
  simp only [List.prefix_concat_iff]
  constructor
  · intro h
    exact ⟨fun before r' hprefix => h before r' (.inr hprefix), h rs r (.inl rfl)⟩
  · rintro ⟨hearlier, hlast⟩ before r' (heq | hprefix)
    · obtain ⟨rfl, hr⟩ := List.append_inj' heq rfl
      cases hr
      exact hlast
    · exact hearlier before r' hprefix

theorem after_concat (rs : List MineReading) (r : MineReading) : rules.after thrId s (rs ++ [r]) =
    ((rules.after thrId s rs).wannaMine rules.options thrId r).2 := by
  rw [MineRules.after, List.foldl_append, List.foldl_cons, List.foldl_nil, MineRules.after]

theorem paused_concat_iff (before : List MineReading) (r : MineReading) :
    (rules.diffPaused (before ++ [r]) || rules.ratePaused (before ++ [r])) = true ↔
      (rules.diff.limit < r.netDiff ∨ rules.diffPaused before = true ∧ rules.diff.resume < r.netDiff) ∨
      (rules.rate.limit < r.netHashrate ∨ rules.ratePaused before = true ∧ rules.rate.resume < r.netHashrate) := by
  simp only [MineRules.diffPaused, MineRules.ratePaused, List.map_append, List.map_cons, List.map_nil,
    Hysteresis.paused_concat, Bool.or_eq_true, Hysteresis.next_eq_true_iff]

theorem wannaMine_follows_iff {before : List MineReading} (r : MineReading)
    (hflag : (rules.after thrId s before).conditionalState thrId =
      (rules.diffPaused before || rules.ratePaused before)) :
    ((rules.after thrId s before).wannaMine rules.options thrId r).1 =
        !(rules.diffPaused (before ++ [r]) || rules.ratePaused (before ++ [r])) ↔
      rules.UncrossedAt before r := by
  rw [wannaMine_options, hflag, Bool.not_inj_iff, Bool.eq_iff_iff, paused_concat_iff, Bool.or_eq_true,
    onHold_eq_true_iff rules.diff_pos, onHold_eq_true_iff rules.rate_pos, MineRules.UncrossedAt, Bool.or_eq_true]
  rcases lt_or_ge rules.diff.limit r.netDiff with hdiff | hdiff
  · exact iff_of_true (iff_of_true (.inl (.inl hdiff)) (.inl (.inl hdiff))) fun h => absurd hdiff (not_lt.mpr h)
  rcases lt_or_ge rules.rate.limit r.netHashrate with hrate | hrate
  · exact iff_of_true (iff_of_true (.inr (.inl hrate)) (.inr (.inl hrate))) fun _ h => absurd hrate (not_lt.mpr h)
  rw [or_iff_right (not_lt.mpr hdiff), or_iff_right (not_lt.mpr hrate), or_iff_right (not_lt.mpr hdiff),
    or_iff_right (not_lt.mpr hrate), ← and_or_left]
  by_cases hpaused : rules.diffPaused before = true ∨ rules.ratePaused before = true
  · rw [and_iff_right hpaused]
    exact ⟨fun h _ _ _ => h, fun h => h hdiff hrate hpaused⟩
  · refine iff_of_true (iff_of_false (fun h => hpaused h.1) fun h => hpaused ?_) fun _ _ h => absurd h hpaused
    exact h.imp And.left And.left

theorem conditionalState_of_follows {rs : List MineReading} (h : rules.Follows thrId s rs) :
    (rules.after thrId s rs).conditionalState thrId = (rules.diffPaused rs || rules.ratePaused rs) := by
  induction rs using List.reverseRecOn with
  | nil => exact Function.update_self ..
  | append_singleton rs r _ =>
    rw [after_concat, wannaMine_conditionalState, h rs r List.prefix_rfl, Bool.not_not]

/-- The calls of a thread follow the two rules exactly if its readings are not crossed. -/
theorem follows_iff_uncrossed (rules : MineRules) (thrId : Nat) (s : MineState) (rs : List MineReading) :
    rules.Follows thrId s rs ↔ rules.Uncrossed rs := by
  induction rs using List.reverseRecOn with
  | nil => exact iff_of_true (fun before r h => by simp at h) fun before r h => by simp at h
  | append_singleton rs r ih =>
    rw [MineRules.Follows, forall_reading_concat, MineRules.Uncrossed, forall_reading_concat,
      ← MineRules.Follows, ← MineRules.Uncrossed, ← ih]
    exact and_congr_right fun h => wannaMine_follows_iff r (conditionalState_of_follows h)

end Calls

section Examples

def tenRules : MineRules where
  maxTemp := 0
  resumeTemp := 0
  diff := ⟨10, 5, by norm_num⟩
  rate := ⟨10, 5, by norm_num⟩
  noTemp := le_rfl
  diff_pos := by norm_num
  rate_pos := by norm_num

def measured (netDiff netHashrate : ℚ) : MineReading := ⟨0, netDiff, netHashrate, 1, false, false, false⟩

/-- The difficulty is back, and the hashrate, which was never too high, keeps
the thread waiting. -/
theorem follows_crossed :
    ¬ tenRules.Follows 0 ⟨fun _ => false, false⟩ [measured 11 7, measured 4 7] := by
  intro h
  exact absurd (h [measured 11 7] (measured 4 7) List.prefix_rfl) (by decide)

end Examples

end VerusMiner
