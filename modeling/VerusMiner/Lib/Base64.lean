import Mathlib.Data.List.Basic
import Mathlib.Tactic.IntervalCases

/-! The base 64 encoding of RFC 4648: three bytes are a number of 24 bits, which
has four digits; a rest of one or two bytes is filled up with zero bits. -/

namespace VerusMiner

def base64Digit (d : Nat) : Char :=
  if d < 26 then Char.ofNat (65 + d)
  else if d < 52 then Char.ofNat (71 + d)
  else if d < 62 then Char.ofNat (d - 4)
  else if d = 62 then '+' else '/'

def base64 : List (BitVec 8) → List Char
  | [] => []
  | [a] =>
    let v := a.toNat * 2 ^ 4
    [base64Digit (v / 64), base64Digit (v % 64), '=', '=']
  | [a, b] =>
    let v := (a.toNat * 256 + b.toNat) * 2 ^ 2
    [base64Digit (v / 64 ^ 2), base64Digit (v / 64 % 64), base64Digit (v % 64), '=']
  | a :: b :: c :: bs =>
    let v := (a.toNat * 256 + b.toNat) * 256 + c.toNat
    [base64Digit (v / 64 ^ 3), base64Digit (v / 64 ^ 2 % 64), base64Digit (v / 64 % 64),
      base64Digit (v % 64)] ++ base64 bs

theorem length_base64 (bs : List (BitVec 8)) : (base64 bs).length = 4 * ((bs.length + 2) / 3) := by
  induction bs using base64.induct with
  | case1 => rfl
  | case2 a => simp [base64]
  | case3 a b => simp [base64]
  | case4 a b c bs ih =>
    simp only [base64, List.length_append, List.length_cons, List.length_nil, ih]
    omega

theorem mem_base64 {c : Char} {bs : List (BitVec 8)} (h : c ∈ base64 bs) : c = '=' ∨ ∃ d < 64, c = base64Digit d := by
  have hmod (v : Nat) : v % 64 < 64 := Nat.mod_lt v (by decide)
  induction bs using base64.induct with
  | case1 => cases h
  | case2 a =>
    have ha : a.toNat * 2 ^ 4 / 64 < 64 := by omega
    grind [base64]
  | case3 a b =>
    have ha : (a.toNat * 256 + b.toNat) * 2 ^ 2 / 64 ^ 2 < 64 := by omega
    grind [base64]
  | case4 a b c bs ih =>
    have ha : ((a.toNat * 256 + b.toNat) * 256 + c.toNat) / 64 ^ 3 < 64 := by omega
    grind [base64]

theorem base64_eq_nil_iff (bs : List (BitVec 8)) : base64 bs = [] ↔ bs = [] := by
  rw [← List.length_eq_zero_iff, ← List.length_eq_zero_iff, length_base64]
  omega

theorem base64Digit_ne_pad {d : Nat} (h : d < 64) : base64Digit d ≠ '=' := by
  interval_cases d <;> decide

theorem base64_getLast?_eq_pad_iff (bs : List (BitVec 8)) :
    (base64 bs).getLast? = some '=' ↔ bs.length % 3 ≠ 0 := by
  induction bs using base64.induct with
  | case1 => simp [base64]
  | case2 a => simp [base64]
  | case3 a b => simp [base64]
  | case4 a b c bs ih =>
    have hlength : (a :: b :: c :: bs).length % 3 = bs.length % 3 := by
      simp only [List.length_cons]
      omega
    rw [hlength, ← ih, base64, List.getLast?_append]
    cases hlast : (base64 bs).getLast? with
    | some x => rfl
    | none =>
      have hnone : ¬ none = some '=' := nofun
      have hdigit := base64Digit_ne_pad (Nat.mod_lt ((a.toNat * 256 + b.toNat) * 256 + c.toNat) (by decide : 0 < 64))
      simpa using hdigit

end VerusMiner
