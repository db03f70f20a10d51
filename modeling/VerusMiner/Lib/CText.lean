import Mathlib.Data.List.Basic
import Mathlib.Data.List.TakeWhile

/-! Text as C keeps it: strings up to the first zero of a memory, searches in
them, and what is done with places and sizes that come from a text. -/

namespace VerusMiner

section Memory

def cstr (m : List Char) : List Char := m.takeWhile (· != '\x00')

def strAt (m : List Char) (i : Nat) : List Char := cstr (m.drop i)

def strcpy (m s : List Char) : List Char := s ++ '\x00' :: m.drop (s.length + 1)

theorem bne_of_not_mem {s : List Char} {c : Char} (h : c ∉ s) : ∀ x ∈ s, (x != c) = true := by
  intro x hx
  rw [bne_iff_ne]
  rintro rfl
  exact h hx

theorem cstr_of_not_mem {s : List Char} (h : '\x00' ∉ s) : cstr s = s :=
  List.takeWhile_eq_self_iff.mpr (bne_of_not_mem h)

theorem not_mem_cstr (m : List Char) : '\x00' ∉ cstr m := by
  intro h
  have h0 := List.mem_takeWhile_imp h
  simp at h0

theorem cstr_append {s : List Char} (h : '\x00' ∉ s) (t : List Char) : cstr (s ++ t) = s ++ cstr t :=
  List.takeWhile_append_of_pos (bne_of_not_mem h)

theorem cstr_nul (t : List Char) : cstr ('\x00' :: t) = [] := rfl

theorem cstr_split (m : List Char) : ∃ t, m = cstr m ++ t ∧ (t = [] ∨ ∃ t', t = '\x00' :: t') := by
  induction m with
  | nil => exact ⟨[], rfl, .inl rfl⟩
  | cons c m ih =>
    by_cases hc : c = '\x00'
    · exact ⟨c :: m, by rw [hc, cstr_nul, List.nil_append], .inr ⟨m, by rw [hc]⟩⟩
    · obtain ⟨t, hm, ht⟩ := ih
      have hcons : cstr (c :: m) = c :: cstr m := by simp [cstr, hc]
      exact ⟨t, by rw [hcons, List.cons_append, ← hm], ht⟩

theorem strAt_zero (m : List Char) : strAt m 0 = cstr m := rfl

theorem strAt_of_le {m : List Char} {i : Nat} (h : i ≤ (cstr m).length) :
    strAt m i = (cstr m).drop i := by
  obtain ⟨t, hm, ht⟩ := cstr_split m
  have hnul : '\x00' ∉ (cstr m).drop i := fun hmem => not_mem_cstr m (List.mem_of_mem_drop hmem)
  have ht : cstr t = [] := by
    rcases ht with rfl | ⟨t', rfl⟩
    · rfl
    · exact cstr_nul t'
  calc strAt m i = cstr ((cstr m ++ t).drop i) := by rw [← hm]; rfl
    _ = (cstr m).drop i ++ cstr t := by rw [List.drop_append_of_le_length h, cstr_append hnul]
    _ = (cstr m).drop i := by rw [ht, List.append_nil]

theorem strAt_strAt {m : List Char} {i j : Nat} (h : j ≤ (strAt m i).length) :
    strAt m (i + j) = (strAt m i).drop j := by
  rw [strAt, ← List.drop_drop]
  exact strAt_of_le h

theorem strAt_set {m : List Char} {i j : Nat} (h : j < (strAt m i).length) :
    strAt (m.set (i + j) '\x00') i = (strAt m i).take j := by
  obtain ⟨t, hm, _⟩ := cstr_split (m.drop i)
  have hnul : '\x00' ∉ (strAt m i).take j := fun hmem =>
    not_mem_cstr (m.drop i) (List.mem_of_mem_take hmem)
  have hdrop : (m.set (i + j) '\x00').drop i =
      (strAt m i).take j ++ '\x00' :: ((strAt m i).drop (j + 1) ++ t) := by
    rw [List.drop_set, if_neg (by omega), Nat.add_sub_cancel_left, hm]
    change (strAt m i ++ t).set j '\x00' = _
    rw [List.set_append_left _ _ h, List.set_eq_take_append_cons_drop, if_pos h,
      List.append_assoc, List.cons_append]
  rw [strAt, hdrop, cstr_append hnul, cstr_nul, List.append_nil]

theorem strAt_set_of_lt (m : List Char) {i j : Nat} (h : j < i) (c : Char) :
    strAt (m.set j c) i = strAt m i := by
  rw [strAt, List.drop_set, if_pos h]
  rfl

theorem strAt_strcpy {m s : List Char} (hs : '\x00' ∉ s) (i : Nat) :
    strAt (strcpy m s) i = if i ≤ s.length then s.drop i else strAt m i := by
  split_ifs with h
  · have hnul : '\x00' ∉ s.drop i := fun hmem => hs (List.mem_of_mem_drop hmem)
    rw [strAt, strcpy, List.drop_append_of_le_length h, cstr_append hnul, cstr_nul, List.append_nil]
  · obtain ⟨n, rfl⟩ : ∃ n, i = s.length + (n + 1) := ⟨i - s.length - 1, by omega⟩
    rw [strAt, strcpy, ← List.drop_drop, List.drop_left, List.drop_succ_cons, List.drop_drop]
    exact congrArg (fun k => cstr (m.drop k)) (by omega)

end Memory

section Search

def strchr (s : List Char) (c : Char) : Option Nat := s.idxOf? c

def strrchr (s : List Char) (c : Char) : Option Nat := (strchr s.reverse c).map (s.length - 1 - ·)

def strstr (s pat : List Char) : Option Nat := (s.dropInfix? pat).map (·.1.length)

/-- What a loop meets that takes a text up to a separator, or up to its end, as
long as there is text. -/
def tokens (s : List Char) (sep : Char) : List (List Char) :=
  let parts := s.splitOn sep
  if parts.getLast? = some [] then parts.dropLast else parts

def strcasecmp (s t : List Char) : Bool := s.map Char.toLower == t.map Char.toLower

theorem strchr_eq_none_iff {s : List Char} {c : Char} : strchr s c = none ↔ c ∉ s :=
  List.idxOf?_eq_none_iff

theorem strchr_eq_some_iff {s : List Char} {c : Char} {i : Nat} :
    strchr s c = some i ↔ ∃ t u, s = t ++ c :: u ∧ c ∉ t ∧ t.length = i := by
  induction s generalizing i with
  | nil => simp [strchr]
  | cons x s ih =>
    rw [strchr, List.idxOf?_cons]
    by_cases hx : x = c
    · subst hx
      rw [if_pos (beq_self_eq_true x), Option.some.injEq]
      constructor
      · rintro rfl
        exact ⟨[], s, rfl, List.not_mem_nil, rfl⟩
      · rintro ⟨t, u, hs, hnot, rfl⟩
        cases t with
        | nil => rfl
        | cons y t =>
          rw [List.cons_append, List.cons.injEq] at hs
          exact absurd (hs.1 ▸ List.mem_cons_self) hnot
    · rw [if_neg (by simpa using hx), Option.map_eq_some_iff]
      constructor
      · rintro ⟨j, hj, rfl⟩
        obtain ⟨t, u, rfl, hnot, rfl⟩ := ih.mp hj
        exact ⟨x :: t, u, rfl, by simp [Ne.symm hx, hnot], rfl⟩
      · rintro ⟨t, u, hs, hnot, rfl⟩
        cases t with
        | nil =>
          rw [List.nil_append, List.cons.injEq] at hs
          exact absurd hs.1 hx
        | cons y t =>
          rw [List.cons_append, List.cons.injEq] at hs
          exact ⟨t.length, ih.mpr ⟨t, u, hs.2, fun h => hnot (List.mem_cons_of_mem _ h), rfl⟩, rfl⟩

theorem strchr_lt {s : List Char} {c : Char} {i : Nat} (h : strchr s c = some i) : i < s.length := by
  obtain ⟨t, u, rfl, _, rfl⟩ := strchr_eq_some_iff.mp h
  simp

theorem strrchr_eq_some {s : List Char} {c : Char} {i : Nat} (h : strrchr s c = some i) :
    ∃ t u, s = t ++ c :: u ∧ t.length = i := by
  obtain ⟨j, hj, rfl⟩ := Option.map_eq_some_iff.mp h
  obtain ⟨u, t, hs, _, rfl⟩ := strchr_eq_some_iff.mp hj
  have hsplit : s = t.reverse ++ c :: u.reverse := by
    rw [← List.reverse_reverse s, hs]
    simp
  refine ⟨t.reverse, u.reverse, hsplit, ?_⟩
  rw [hsplit, List.length_append, List.length_cons, List.length_reverse, List.length_reverse]
  omega

theorem takeWhile_of_strchr {s : List Char} {c : Char} {i : Nat} (h : strchr s c = some i) :
    s.takeWhile (· != c) = s.take i := by
  obtain ⟨t, u, rfl, hnot, rfl⟩ := strchr_eq_some_iff.mp h
  rw [List.takeWhile_append_of_pos (bne_of_not_mem hnot), List.take_left]
  simp

theorem takeWhile_of_strchr_none {s : List Char} {c : Char} (h : strchr s c = none) :
    s.takeWhile (· != c) = s :=
  List.takeWhile_eq_self_iff.mpr (bne_of_not_mem (strchr_eq_none_iff.mp h))

theorem strstr_eq_some {s pat : List Char} {i : Nat} (h : strstr s pat = some i) :
    ∃ t, s.drop i = pat ++ t ∧ i ≤ s.length := by
  rw [strstr, Option.map_eq_some_iff] at h
  obtain ⟨⟨pre, post⟩, hdrop, rfl⟩ := h
  obtain ⟨⟨pat', rfl, hpat⟩, _⟩ := List.dropInfix?_eq_some_iff.mp hdrop
  rw [beq_iff_eq] at hpat
  subst hpat
  exact ⟨post, by simp, by simp⟩

theorem dropInfix_isSome {pat : List Char} (s acc : List Char) (h : pat <:+: s) :
    (List.dropInfix?.go pat s acc).isSome := by
  induction s generalizing acc with
  | nil =>
    rw [List.infix_nil.mp h]
    rfl
  | cons c s ih =>
    rw [List.dropInfix?.go]
    cases hdrop : (c :: s).dropPrefix? pat with
    | some post => rfl
    | none =>
      rcases List.infix_cons_iff.mp h with ⟨post, hpost⟩ | hin
      · have hsome := List.dropPrefix?_eq_some_iff.mpr ⟨pat, hpost.symm, beq_self_eq_true pat⟩
        rw [hsome] at hdrop
        cases hdrop
      · exact ih _ hin

theorem strstr_isSome_iff {s pat : List Char} : (strstr s pat).isSome ↔ pat <:+: s := by
  rw [strstr, Option.isSome_map]
  constructor
  · intro h
    obtain ⟨⟨pre, post⟩, hdrop⟩ := Option.isSome_iff_exists.mp h
    obtain ⟨⟨pat', rfl, hpat⟩, _⟩ := List.dropInfix?_eq_some_iff.mp hdrop
    rw [beq_iff_eq] at hpat
    exact ⟨pre, post, by rw [hpat]⟩
  · exact dropInfix_isSome s []

end Search

section Numbers

def isspace (c : Char) : Bool := c.toNat = 32 || (9 ≤ c.toNat && c.toNat ≤ 13)

/-- The value of the digits at the start of a text. -/
def decimal (s : List Char) : Nat :=
  (s.takeWhile Char.isDigit).foldl (fun v c => 10 * v + (c.toNat - 48)) 0

/-- What stands before the digits of a number: blanks, and perhaps a sign. -/
def signed (s : List Char) : Bool × List Char :=
  let s := s.dropWhile isspace
  if s.head? = some '-' then (true, s.tail)
  else if s.head? = some '+' then (false, s.tail)
  else (false, s)

/-- `strtol` to base 10. -/
def strtol (s : List Char) : Int :=
  let (negative, digits) := signed s
  if negative then max (-(decimal digits : Int)) (-0x8000000000000000)
  else min (decimal digits : Int) 0x7fffffffffffffff

def atoi (s : List Char) : Int := (BitVec.ofInt 32 (strtol s)).toInt

/-- `%u` of `sscanf`, from the number on. -/
def scanU (s : List Char) : Option (BitVec 32) :=
  let (negative, digits) := signed s
  if (digits.head?.map Char.isDigit).getD false then
    let v : BitVec 64 := if 0x10000000000000000 ≤ decimal digits then -1 else BitVec.ofNat 64 (decimal digits)
    some ((if negative && decimal digits < 0x10000000000000000 then -v else v).setWidth 32)
  else none

/-- `%s` of `sscanf`. -/
def scanWord (s : List Char) : List Char := (s.dropWhile isspace).takeWhile fun c => !isspace c

theorem length_scanWord_le (s : List Char) : (scanWord s).length ≤ s.length :=
  ((List.takeWhile_prefix _).length_le).trans (List.dropWhile_suffix _).length_le

theorem not_isspace_of_isDigit {c : Char} (h : c.isDigit = true) : isspace c = false := by
  simp only [Char.isDigit, Bool.and_eq_true, decide_eq_true_eq, ge_iff_le] at h
  have hlow : 48 ≤ c.toNat := UInt32.le_iff_toNat_le.mp h.1
  simp only [isspace, Bool.or_eq_false_iff, Bool.and_eq_false_iff, decide_eq_false_iff_not]
  omega

theorem signed_of_digits {s : List Char} (hs : ∀ c ∈ s, c.isDigit = true) : signed s = (false, s) := by
  cases s with
  | nil => rfl
  | cons c s =>
    have hc := hs c List.mem_cons_self
    have hsign : c ≠ '-' ∧ c ≠ '+' := by
      constructor
      all_goals
        rintro rfl
        exact absurd hc (by decide)
    simp [signed, not_isspace_of_isDigit hc, hsign]

theorem atoi_of_digits {s : List Char} (hs : ∀ c ∈ s, c.isDigit = true) (hvalue : decimal s < 0x80000000) :
    atoi s = decimal s := by
  have hstrtol : strtol s = decimal s := by
    rw [strtol, signed_of_digits hs]
    simp only [Bool.false_eq_true, if_false]
    omega
  have hsize : ((2 ^ 32 : Nat) : Int) = 4294967296 := rfl
  rw [atoi, hstrtol, BitVec.toInt_ofInt, Int.bmod_eq_of_le (by rw [hsize]; omega) (by rw [hsize]; omega)]

end Numbers

/-- A use of memory whose size is fixed, or of a pointer that a search gave. -/
inductive Access where
  | write (size length : Nat)
  | follow (pointer : Option Nat)
  deriving DecidableEq

namespace Access

def Safe : Access → Prop
  | write size length => length ≤ size
  | follow pointer => pointer.isSome

instance : (a : Access) → Decidable a.Safe
  | write size length => inferInstanceAs (Decidable (length ≤ size))
  | follow pointer => inferInstanceAs (Decidable (pointer.isSome = true))

end Access

end VerusMiner
