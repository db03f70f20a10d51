import VerusMiner.Lib.Runs
import Mathlib.Data.Int.Basic
import Mathlib.Tactic.SplitIfs

/-! How long a pool took to answer: differences of times from a submission that
each of them rewrites for the next one. -/

namespace VerusMiner

def FitsLong (v : Int) : Prop := -0x8000000000000000 ≤ v ∧ v < 0x8000000000000000

instance : DecidablePred FitsLong := fun _ => inferInstanceAs (Decidable (_ ∧ _))

/-- A signed result that does not fit is undefined. -/
def long (v : Int) : Option Int := if FitsLong v then some v else none

def int (v : Int) : Option Int := if -0x80000000 ≤ v ∧ v < 0x80000000 then some v else none

/-- A `long` put into an `int`. -/
def toInt32 (v : Int) : Int := (BitVec.ofInt 32 v).toInt

structure Timeval where
  sec : Int
  usec : Int
  deriving DecidableEq

def Timeval.micros (t : Timeval) : Int := 1000000 * t.sec + t.usec

/-- A time as `gettimeofday` gives it. -/
structure Instant extends Timeval where
  sec_fits : FitsLong sec
  usec_nonneg : 0 ≤ usec
  usec_lt : usec < 1000000

structure Subtraction where
  ret : Int
  result : Timeval
  y : Timeval
  deriving DecidableEq

def carryBelow (x y : Timeval) : Option Timeval :=
  if x.usec < y.usec then do
    let nsec := toInt32 ((← long (y.usec - x.usec)).tdiv 1000000 + 1)
    let usec ← long (y.usec - (← int (1000000 * nsec)))
    return { sec := ← long (y.sec + nsec), usec := usec }
  else some y

def carryAbove (x y : Timeval) : Option Timeval := do
  let diff ← long (x.usec - y.usec)
  if 1000000 < diff then
    let nsec := toInt32 (diff.tdiv 1000000)
    let usec ← long (y.usec + (← int (1000000 * nsec)))
    return { sec := ← long (y.sec - nsec), usec := usec }
  else return y

/-- `none` is for a signed overflow. -/
def timevalSubtract (x y : Timeval) : Option Subtraction := do
  let y ← carryBelow x y
  let y ← carryAbove x y
  let result : Timeval := { sec := ← long (x.sec - y.sec), usec := ← long (x.usec - y.usec) }
  return { ret := if x.sec < y.sec then 1 else 0, result := result, y := y }

/-- A call with the time `x` of an answer; `y` is what is left of the
submission by then. -/
structure Answer where
  submitted : Instant
  x : Instant
  y : Timeval
  outcome : Option Subtraction

structure AnswerClock where
  tvSubmit : Timeval
  submitted : Instant
  answers : List Answer

inductive ClockEvent where
  | submit (now : Instant)
  | answer (now : Instant)

def clockStep (s : AnswerClock) : ClockEvent → Option AnswerClock
  | .submit now => some { s with tvSubmit := now.toTimeval, submitted := now }
  | .answer now =>
    let outcome := timevalSubtract now.toTimeval s.tvSubmit
    some { s with
      tvSubmit := (outcome.map fun r => r.y).getD s.tvSubmit
      answers := s.answers ++ [{ submitted := s.submitted, x := now, y := s.tvSubmit, outcome := outcome }] }

def clockStart (now : Instant) : AnswerClock := { tvSubmit := now.toTimeval, submitted := now, answers := [] }

/-- The result is the difference, with its `usec` below a second, and 1 is
returned if it is negative. -/
structure Subtraction.Exact (r : Subtraction) (x y : Timeval) : Prop where
  micros : r.result.micros = x.micros - y.micros
  usec_nonneg : 0 ≤ r.result.usec
  usec_lt : r.result.usec < 1000000
  ret : r.ret = 1 ↔ x.micros < y.micros

/-- The time subtracted is still the one that was submitted. -/
def Answer.Exact (a : Answer) : Prop :=
  a.y.micros = a.submitted.micros ∧ ∃ r, a.outcome = some r ∧ r.Exact a.x.toTimeval a.y

def AnswersExact (s : AnswerClock) : Prop := ∀ a ∈ s.answers, a.Exact

/-- The `usec` of an answer is not a whole second above the one that an answer
before it has left, and the whole seconds of the difference fit. -/
def Subtractable (s : AnswerClock) : ClockEvent → Prop
  | .submit _ => True
  | .answer now =>
    now.usec - s.tvSubmit.usec ≠ 1000000 ∧
      let seconds := (now.micros - s.tvSubmit.micros) / 1000000
      FitsLong seconds ∧ FitsLong (now.sec - seconds)

/-- What an answer can leave of a submission. -/
structure Reached (submitted : Instant) (y : Timeval) : Prop where
  sec_fits : FitsLong y.sec
  usec_gt : -1000000 < y.usec
  usec_lt : y.usec < 1000000
  micros : y.micros = submitted.micros

section Subtract

variable {x submitted : Instant} {y : Timeval}

theorem long_of_fits {v : Int} (h : FitsLong v) : long v = some v := if_pos h

theorem long_of_not_fits {v : Int} (h : ¬ FitsLong v) : long v = none := if_neg h

theorem long_of_small {v : Int} (hlow : -2000000 ≤ v) (hhigh : v ≤ 2000000) : long v = some v :=
  long_of_fits ⟨by omega, by omega⟩

def carry (x y : Timeval) : Int :=
  if x.usec < y.usec then 1 else if 1000000 < x.usec - y.usec then -1 else 0

theorem carryAbove_of_le {y : Timeval} (hlow : 0 ≤ x.usec - y.usec) (hhigh : x.usec - y.usec ≤ 1000000) :
    carryAbove x.toTimeval y = some y := by
  rw [carryAbove, long_of_small (by omega) (by omega)]
  exact if_neg (by omega)

theorem carries_eq (h : Reached submitted y) :
    (carryBelow x.toTimeval y).bind (carryAbove x.toTimeval) =
      (long (y.sec + carry x.toTimeval y)).map fun sec =>
        { sec := sec, usec := y.usec - 1000000 * carry x.toTimeval y } := by
  have hx := x.usec_nonneg
  have hx' := x.usec_lt
  have hy := h.usec_gt
  have hy' := h.usec_lt
  have hint : int (1000000 * 1) = some 1000000 := rfl
  by_cases hbelow : x.usec < y.usec
  · have hdiv : (y.usec - x.usec).tdiv 1000000 = 0 := Int.tdiv_eq_zero_of_lt (by omega) (by omega)
    have hnsec : toInt32 (0 + 1) = 1 := rfl
    have hcarry : carry x.toTimeval y = 1 := if_pos hbelow
    have hbelow_eq : carryBelow x.toTimeval y =
        (long (y.sec + 1)).map fun sec => { sec := sec, usec := y.usec - 1000000 } := by
      rw [carryBelow, if_pos hbelow, long_of_small (by omega) (by omega)]
      simp only [bind, Option.bind, hdiv, hnsec, hint, long_of_small (v := y.usec - 1000000) (by omega) (by omega)]
      cases long (y.sec + 1) <;> rfl
    rw [hbelow_eq, hcarry, Option.bind_map, Option.map_eq_bind]
    refine Option.bind_congr fun sec _ => ?_
    exact carryAbove_of_le (by dsimp only; omega) (by dsimp only; omega)
  · have hbelow_eq : carryBelow x.toTimeval y = some y := if_neg hbelow
    rw [hbelow_eq, Option.bind_some]
    by_cases habove : 1000000 < x.usec - y.usec
    · have hdiv : (x.usec - y.usec).tdiv 1000000 = 1 := by
        rw [Int.tdiv_eq_ediv_of_nonneg (by omega)]
        omega
      have hnsec : toInt32 1 = 1 := rfl
      have hcarry : carry x.toTimeval y = -1 := by rw [carry, if_neg hbelow, if_pos habove]
      rw [carryAbove, long_of_small (by omega) (by omega), hcarry]
      simp only [bind, Option.bind, if_pos habove, hdiv, hnsec, hint,
        long_of_small (v := y.usec + 1000000) (by omega) (by omega)]
      rw [show y.usec - 1000000 * -1 = y.usec + 1000000 by omega, ← Int.sub_eq_add_neg]
      cases long (y.sec - 1) <;> rfl
    · have hcarry : carry x.toTimeval y = 0 := by rw [carry, if_neg hbelow, if_neg habove]
      rw [carryAbove_of_le (by omega) (by omega), hcarry, Int.add_zero, long_of_fits h.sec_fits]
      simp

theorem carry_usec (h : Reached submitted y) :
    0 ≤ x.usec - (y.usec - 1000000 * carry x.toTimeval y) ∧
      x.usec - (y.usec - 1000000 * carry x.toTimeval y) ≤ 1000000 := by
  have hx := x.usec_nonneg
  have hx' := x.usec_lt
  have hy := h.usec_gt
  have hy' := h.usec_lt
  rw [carry]
  split_ifs
  · omega
  · omega
  · omega

theorem timevalSubtract_eq (h : Reached submitted y) : timevalSubtract x.toTimeval y =
    let sec := y.sec + carry x.toTimeval y
    let usec := y.usec - 1000000 * carry x.toTimeval y
    if FitsLong sec ∧ FitsLong (x.sec - sec) then
      some { ret := if x.sec < sec then 1 else 0
             result := { sec := x.sec - sec, usec := x.usec - usec }
             y := { sec := sec, usec := usec } }
    else none := by
  have hsmall : long (x.usec - (y.usec - 1000000 * carry x.toTimeval y)) =
      some (x.usec - (y.usec - 1000000 * carry x.toTimeval y)) := by
    obtain ⟨hlow, hhigh⟩ := carry_usec (x := x) h
    exact long_of_small (by omega) (by omega)
  simp only [timevalSubtract, bind]
  rw [← Option.bind_assoc, carries_eq h]
  by_cases hsec : FitsLong (y.sec + carry x.toTimeval y)
  · by_cases hdiff : FitsLong (x.sec - (y.sec + carry x.toTimeval y))
    · rw [if_pos ⟨hsec, hdiff⟩, long_of_fits hsec]
      simp only [Option.map_some, Option.bind_some, long_of_fits hdiff, hsmall]
      rfl
    · rw [if_neg fun hboth => hdiff hboth.2, long_of_fits hsec]
      simp only [Option.map_some, Option.bind_some, long_of_not_fits hdiff, Option.bind_none]
  · rw [if_neg fun hboth => hsec hboth.1, long_of_not_fits hsec]
    rfl

theorem carry_usec_lt_iff (h : Reached submitted y) :
    x.usec - (y.usec - 1000000 * carry x.toTimeval y) < 1000000 ↔ x.usec - y.usec ≠ 1000000 := by
  have hx := x.usec_lt
  have hy := h.usec_gt
  rw [carry]
  split_ifs
  · omega
  · omega
  · omega

theorem seconds_eq (h : Reached submitted y)
    (hlt : x.usec - (y.usec - 1000000 * carry x.toTimeval y) < 1000000) :
    (x.micros - y.micros) / 1000000 = x.sec - (y.sec + carry x.toTimeval y) := by
  obtain ⟨hlow, _⟩ := carry_usec (x := x) h
  simp only [Timeval.micros]
  omega

/-- The carry is right but for a difference of a whole second, which stays in
the `usec`. -/
theorem timevalSubtract_exact_iff (h : Reached submitted y) :
    (∃ r, timevalSubtract x.toTimeval y = some r ∧ r.Exact x.toTimeval y) ↔
      x.usec - y.usec ≠ 1000000 ∧ FitsLong ((x.micros - y.micros) / 1000000) ∧
        FitsLong (x.sec - (x.micros - y.micros) / 1000000) := by
  have hlt_iff := carry_usec_lt_iff (x := x) h
  obtain ⟨hlow, _⟩ := carry_usec (x := x) h
  rw [timevalSubtract_eq h]
  dsimp only
  constructor
  · rintro ⟨r, hr, hexact⟩
    obtain ⟨hfits, hr⟩ := Option.ite_none_right_eq_some.mp hr
    cases hr
    have hlt := hexact.usec_lt
    rw [seconds_eq h hlt, Int.sub_sub_self]
    exact ⟨hlt_iff.mp hlt, hfits.2, hfits.1⟩
  · rintro ⟨hne, hseconds, hsec⟩
    have hlt := hlt_iff.mpr hne
    rw [seconds_eq h hlt] at hseconds hsec
    rw [Int.sub_sub_self] at hsec
    refine ⟨_, if_pos ⟨hsec, hseconds⟩, ?_, hlow, hlt, ?_⟩
    · simp only [Timeval.micros]
      omega
    · simp only [Timeval.micros]
      split_ifs with hneg
      · simp only [true_iff]
        omega
      · simp only [Int.zero_ne_one, false_iff]
        omega

theorem Reached.next (h : Reached submitted y) {r : Subtraction}
    (hr : timevalSubtract x.toTimeval y = some r) : Reached submitted r.y := by
  have hx := x.usec_nonneg
  have hx' := x.usec_lt
  have hy := h.usec_gt
  have hy' := h.usec_lt
  have hmicros := h.micros
  rw [timevalSubtract_eq h] at hr
  obtain ⟨hfits, hr⟩ := Option.ite_none_right_eq_some.mp hr
  cases hr
  refine ⟨hfits.1, ?_, ?_, ?_⟩
  · simp only [carry]
    split_ifs
    all_goals omega
  · simp only [carry]
    split_ifs
    all_goals omega
  · rw [← hmicros]
    simp only [Timeval.micros]
    omega

theorem reached_instant (submitted : Instant) : Reached submitted submitted.toTimeval where
  sec_fits := submitted.sec_fits
  usec_gt := by
    have h := submitted.usec_nonneg
    omega
  usec_lt := submitted.usec_lt
  micros := rfl

end Subtract

section Run

variable {s s' : AnswerClock} {e : ClockEvent}

def AnswerClock.Reachable (s : AnswerClock) : Prop := Reached s.submitted s.tvSubmit

theorem clockStep_reachable (h : s.Reachable) (hstep : clockStep s e = some s') : s'.Reachable := by
  cases e with
  | submit now =>
    cases hstep
    exact reached_instant now
  | answer now =>
    cases hstep
    cases hr : timevalSubtract now.toTimeval s.tvSubmit with
    | none => exact h
    | some r => exact h.next hr

theorem clockStep_exact_iff (h : s.Reachable) (hexact : AnswersExact s) (hstep : clockStep s e = some s') :
    AnswersExact s' ↔ Subtractable s e := by
  cases e with
  | submit now =>
    cases hstep
    exact iff_of_true hexact trivial
  | answer now =>
    cases hstep
    have hbefore : ∀ a ∈ s.answers, a.Exact := hexact
    rw [AnswersExact, List.forall_mem_append, List.forall_mem_singleton, and_iff_right hbefore, Answer.Exact,
      and_iff_right h.micros]
    exact timevalSubtract_exact_iff h

theorem run_clockStep (s : AnswerClock) (es : List ClockEvent) : ∃ t, run clockStep s es = some t := by
  induction es generalizing s with
  | nil => exact ⟨s, rfl⟩
  | cons e es ih =>
    cases e with
    | submit now => exact ih _
    | answer now => exact ih _

/-- Of the answers to a submission, and to those after it, all have the exact
time exactly if none comes a whole second above what one before it has left. -/
theorem run_answersExact_iff (submitted : Instant) (es : List ClockEvent) :
    Throughout clockStep AnswersExact (clockStart submitted) es ↔
      Along clockStep Subtractable (clockStart submitted) es := by
  obtain ⟨t, hrun⟩ := run_clockStep (clockStart submitted) es
  exact throughout_iff_along clockStep_reachable clockStep_exact_iff hrun (reached_instant submitted)
    fun a ha => absurd ha List.not_mem_nil

end Run

def halfSecond : Instant where
  sec := 0
  usec := 500000
  sec_fits := by decide
  usec_nonneg := by decide
  usec_lt := by decide

/-- Submitted half a second past 0, answered at 1.4 and at 1.5: the first answer
leaves 1 s and -500000 us, and the second one is told 0 s and 1000000 us. -/
theorem whole_second_left :
    ¬ Throughout clockStep AnswersExact (clockStart halfSecond)
      [.answer ⟨⟨1, 400000⟩, by decide, by decide, by decide⟩,
        .answer ⟨⟨1, 500000⟩, by decide, by decide, by decide⟩] := by
  intro h
  obtain ⟨_, r, hr, hexact⟩ := (h.2 _ rfl).2 _ rfl _ (List.mem_cons_of_mem _ List.mem_cons_self)
  have hresult : some r = some ⟨0, ⟨0, 1000000⟩, ⟨1, -500000⟩⟩ := hr.symm.trans (by decide)
  cases hresult
  exact absurd hexact.usec_lt (by decide)

end VerusMiner
