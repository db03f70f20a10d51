import Mathlib.Data.List.Basic
import Mathlib.Data.List.Induction
import Mathlib.Data.Option.Basic
import Mathlib.Tactic.IntervalCases

/-! Hexadecimal text for bytes: lower-case digits out, digits of either case in. -/

namespace VerusMiner

def hexDigit (d : Nat) : Char := Char.ofNat (if d < 10 then 48 + d else 87 + d)

def hexVal (c : Char) : Option Nat :=
  if 48 ≤ c.toNat ∧ c.toNat ≤ 57 then some (c.toNat - 48)
  else if 97 ≤ c.toNat ∧ c.toNat ≤ 102 then some (c.toNat - 87)
  else if 65 ≤ c.toNat ∧ c.toNat ≤ 70 then some (c.toNat - 55)
  else none

def hexByte (b : BitVec 8) : List Char := [hexDigit (b.toNat / 16), hexDigit (b.toNat % 16)]

def hexEncode (bs : List (BitVec 8)) : List Char := bs.flatMap hexByte

/-- The bytes a text stands for, when it is made of pairs of hex digits. -/
def hexDecode : List Char → Option (List (BitVec 8))
  | [] => some []
  | [_] => none
  | a :: b :: rest =>
    match hexVal a, hexVal b with
    | some x, some y => (hexDecode rest).map (BitVec.ofNat 8 (16 * x + y) :: ·)
    | _, _ => none

/-- The number a text stands for, most significant digit first. -/
def hexNat (s : List Char) : Nat := s.foldl (fun n c => 16 * n + (hexVal c).getD 0) 0

def beNat (bs : List (BitVec 8)) : Nat := bs.foldl (fun n b => 256 * n + b.toNat) 0

theorem hexVal_hexDigit {d : Nat} (h : d < 16) : hexVal (hexDigit d) = some d := by
  interval_cases d <;> decide

theorem hexVal_lt {c : Char} {d : Nat} (h : hexVal c = some d) : d < 16 := by
  unfold hexVal at h
  split_ifs at h <;> · simp only [Option.some.injEq] at h; omega

theorem hexDigit_of_hexVal {c : Char} {d : Nat} (h : hexVal c = some d) :
    hexDigit d = c.toLower := by
  have hc := Char.ofNat_toNat c
  unfold hexVal at h
  split_ifs at h with h₁ h₂ h₃ <;>
  · simp only [Option.some.injEq] at h
    subst h
    generalize c.toNat = n at *
    obtain ⟨hlo, hhi⟩ := ‹_ ∧ _›
    interval_cases n <;> subst hc <;> decide

theorem byte_of_digits (b : BitVec 8) :
    BitVec.ofNat 8 (16 * (b.toNat / 16) + b.toNat % 16) = b := by
  rw [Nat.div_add_mod, BitVec.ofNat_toNat, BitVec.setWidth_eq]

theorem hexDecode_hexByte_append (b : BitVec 8) (s : List Char) :
    hexDecode (hexByte b ++ s) = (hexDecode s).map (b :: ·) := by
  have hb := b.isLt
  simp only [hexByte, List.cons_append, List.nil_append, hexDecode,
    hexVal_hexDigit (show b.toNat / 16 < 16 by omega),
    hexVal_hexDigit (show b.toNat % 16 < 16 by omega), byte_of_digits]

theorem hexDecode_hexEncode (bs : List (BitVec 8)) : hexDecode (hexEncode bs) = some bs := by
  induction bs with
  | nil => rfl
  | cons b bs ih =>
    rw [hexEncode, List.flatMap_cons, hexDecode_hexByte_append]
    exact congrArg (Option.map (b :: ·)) ih

theorem length_hexEncode (bs : List (BitVec 8)) : (hexEncode bs).length = 2 * bs.length := by
  induction bs with
  | nil => rfl
  | cons b bs ih =>
    rw [hexEncode, List.flatMap_cons, List.length_append, ← hexEncode, ih, List.length_cons]
    simp only [hexByte, List.length_cons, List.length_nil]
    omega

theorem hexEncode_append (as bs : List (BitVec 8)) :
    hexEncode (as ++ bs) = hexEncode as ++ hexEncode bs := List.flatMap_append

theorem hexEncode_take (bs : List (BitVec 8)) (n : Nat) :
    (hexEncode bs).take (2 * n) = hexEncode (bs.take n) := by
  induction n generalizing bs with
  | zero => rfl
  | succ n ih =>
    cases bs with
    | nil => rfl
    | cons b bs =>
      have hcons : hexEncode (b :: bs) = hexDigit (b.toNat / 16) :: hexDigit (b.toNat % 16) ::
          hexEncode bs := rfl
      rw [hcons, Nat.mul_succ, List.take_succ_cons, List.take_succ_cons, ih]
      rfl

theorem hexEncode_drop (bs : List (BitVec 8)) (n : Nat) :
    (hexEncode bs).drop (2 * n) = hexEncode (bs.drop n) := by
  induction n generalizing bs with
  | zero => rfl
  | succ n ih =>
    cases bs with
    | nil => rfl
    | cons b bs =>
      have hcons : hexEncode (b :: bs) = hexDigit (b.toNat / 16) :: hexDigit (b.toNat % 16) ::
          hexEncode bs := rfl
      rw [hcons, Nat.mul_succ, List.drop_succ_cons, List.drop_succ_cons, ih, List.drop_succ_cons]

theorem hexByte_of_digits {a b : Char} {x y : Nat} (ha : hexVal a = some x)
    (hb : hexVal b = some y) :
    hexByte (BitVec.ofNat 8 (16 * x + y)) = [a.toLower, b.toLower] := by
  have hx := hexVal_lt ha
  have hy := hexVal_lt hb
  have hn : (BitVec.ofNat 8 (16 * x + y)).toNat = 16 * x + y := by
    rw [BitVec.toNat_ofNat]
    omega
  rw [hexByte, hn, show (16 * x + y) / 16 = x by omega, show (16 * x + y) % 16 = y by omega,
    hexDigit_of_hexVal ha, hexDigit_of_hexVal hb]

theorem hexEncode_hexDecode {s : List Char} {bs : List (BitVec 8)} (h : hexDecode s = some bs) :
    hexEncode bs = s.map Char.toLower := by
  induction s using hexDecode.induct generalizing bs with
  | case1 =>
    simp only [hexDecode, Option.some.injEq] at h
    subst h
    rfl
  | case2 c => simp [hexDecode] at h
  | case3 a b rest x y hb ha ih =>
    simp only [hexDecode, ha, hb, Option.map_eq_some_iff] at h
    obtain ⟨t, ht, rfl⟩ := h
    rw [hexEncode, List.flatMap_cons, hexByte_of_digits ha hb, ← hexEncode, ih ht]
    rfl
  | case4 a b rest hnone => simp [hexDecode] at h

theorem hexDecode_length {s : List Char} {bs : List (BitVec 8)} (h : hexDecode s = some bs) :
    s.length = 2 * bs.length := by
  rw [← length_hexEncode, hexEncode_hexDecode h, List.length_map]

theorem hexDecode_isSome_iff (s : List Char) :
    (hexDecode s).isSome = true ↔ s.length % 2 = 0 ∧ ∀ c ∈ s, (hexVal c).isSome = true := by
  induction s using hexDecode.induct with
  | case1 => simp [hexDecode]
  | case2 c => simp [hexDecode]
  | case3 a b rest x y hb ha ih =>
    simp only [hexDecode, ha, hb, Option.isSome_map, ih, List.length_cons, List.forall_mem_cons,
      Option.isSome_some, true_and]
    rw [show (rest.length + 1 + 1) % 2 = rest.length % 2 by omega]
  | case4 a b rest hnone =>
    have hab : ¬ ((hexVal a).isSome = true ∧ (hexVal b).isSome = true) := by
      simp only [Option.isSome_iff_exists]
      rintro ⟨⟨x, hx⟩, y, hy⟩
      exact hnone x y hx hy
    simp only [hexDecode, List.forall_mem_cons]
    constructor
    · intro h
      simp at h
    · rintro ⟨_, ha, hb, _⟩
      exact absurd ⟨ha, hb⟩ hab

theorem exists_hexDecode {s : List Char} {n : Nat} (hlen : s.length = 2 * n)
    (hdigits : ∀ c ∈ s, (hexVal c).isSome = true) : ∃ bs, hexDecode s = some bs ∧ bs.length = n := by
  have hsome := (hexDecode_isSome_iff s).mpr ⟨by omega, hdigits⟩
  obtain ⟨bs, hbs⟩ := Option.isSome_iff_exists.mp hsome
  have hlength := hexDecode_length hbs
  exact ⟨bs, hbs, by omega⟩

theorem hexDecode_zeros (n : Nat) :
    hexDecode (List.replicate (2 * n) '0') = some (List.replicate n 0) := by
  induction n with
  | zero => rfl
  | succ n ih =>
    rw [Nat.mul_succ, List.replicate_succ, List.replicate_succ]
    have hzero : hexVal '0' = some 0 := by decide
    simp only [hexDecode, hzero, ih, Option.map_some, List.replicate_succ]
    rfl

theorem hexNat_of_hexDecode {s : List Char} {bs : List (BitVec 8)} (h : hexDecode s = some bs) :
    hexNat s = beNat bs := by
  have hfrom (n : Nat) : s.foldl (fun n c => 16 * n + (hexVal c).getD 0) n =
      bs.foldl (fun n b => 256 * n + b.toNat) n := by
    induction s using hexDecode.induct generalizing bs n with
    | case1 =>
      simp only [hexDecode, Option.some.injEq] at h
      subst h
      rfl
    | case2 c => simp [hexDecode] at h
    | case3 a b rest x y hb ha ih =>
      simp only [hexDecode, ha, hb, Option.map_eq_some_iff] at h
      obtain ⟨t, ht, rfl⟩ := h
      have hx := hexVal_lt ha
      have hy := hexVal_lt hb
      have hbyte : (BitVec.ofNat 8 (16 * x + y)).toNat = 16 * x + y := by
        rw [BitVec.toNat_ofNat]
        omega
      rw [List.foldl_cons, List.foldl_cons, List.foldl_cons, ih ht, ha, hb, hbyte, Option.getD_some,
        Option.getD_some, show 16 * (16 * n + x) + y = 256 * n + (16 * x + y) by omega]
    | case4 a b rest hnone => simp [hexDecode] at h
  exact hfrom 0

theorem beNat_concat (bs : List (BitVec 8)) (b : BitVec 8) :
    beNat (bs ++ [b]) = 256 * beNat bs + b.toNat := by
  rw [beNat, List.foldl_append, List.foldl_cons, List.foldl_nil, ← beNat]

theorem beNat_lt (bs : List (BitVec 8)) : beNat bs < 256 ^ bs.length := by
  induction bs using List.reverseRecOn with
  | nil => exact Nat.one_pos
  | append_singleton bs b ih =>
    have hb := b.isLt
    rw [beNat_concat, List.length_append, List.length_singleton, Nat.pow_succ]
    omega

/-- The bytes in reverse order are the digits to base 256. -/
theorem beNat_digit (bs : List (BitVec 8)) (j : Nat) :
    beNat bs / 256 ^ j % 256 = (bs.reverse.getD j 0).toNat := by
  induction bs using List.reverseRecOn generalizing j with
  | nil => simp [beNat]
  | append_singleton bs b ih =>
    have hb := b.isLt
    rw [beNat_concat, List.reverse_append, List.reverse_singleton, List.singleton_append]
    cases j with
    | zero =>
      rw [Nat.pow_zero, Nat.div_one, List.getD_cons_zero]
      omega
    | succ j =>
      rw [Nat.pow_succ', ← Nat.div_div_eq_div_mul, List.getD_cons_succ, ← ih j]
      congr 2
      omega

end VerusMiner
