import Mathlib.Data.List.Basic

/-! Which texts of one character a byte are UTF-8. What is still owed of a
character is kept as the ranges of its next bytes. -/

namespace VerusMiner

def utf8Tail : Nat × Nat := (0x80, 0xbf)

/-- What the first byte of a character owes. -/
def utf8First (b : Nat) : Option (List (Nat × Nat)) :=
  if b ≤ 0x7f then some []
  else if 0xc2 ≤ b ∧ b ≤ 0xdf then some [utf8Tail]
  else if b = 0xe0 then some [(0xa0, 0xbf), utf8Tail]
  else if b = 0xed then some [(0x80, 0x9f), utf8Tail]
  else if 0xe1 ≤ b ∧ b ≤ 0xef then some [utf8Tail, utf8Tail]
  else if b = 0xf0 then some [(0x90, 0xbf), utf8Tail, utf8Tail]
  else if b = 0xf4 then some [(0x80, 0x8f), utf8Tail, utf8Tail]
  else if 0xf1 ≤ b ∧ b ≤ 0xf3 then some [utf8Tail, utf8Tail, utf8Tail]
  else none

def utf8From : List (Nat × Nat) → List Char → Bool
  | [], [] => true
  | _ :: _, [] => false
  | [], c :: s =>
    match utf8First c.toNat with
    | some owed => utf8From owed s
    | none => false
  | r :: owed, c :: s => decide (r.1 ≤ c.toNat ∧ c.toNat ≤ r.2) && utf8From owed s

def utf8Valid (s : List Char) : Bool := utf8From [] s

theorem utf8First_owes {b : Nat} {owed : List (Nat × Nat)} (h : utf8First b = some owed) :
    ∀ r ∈ owed, 0x80 ≤ r.1 := by
  unfold utf8First at h
  split_ifs at h
  all_goals
    cases h
    simp [utf8Tail]

/-- A byte below 0x80 ends one character and is the next. -/
theorem utf8From_append {owed : List (Nat × Nat)} (howed : ∀ r ∈ owed, 0x80 ≤ r.1) {c : Char}
    (hc : c.toNat < 0x80) (a b : List Char) :
    utf8From owed (a ++ c :: b) = (utf8From owed a && utf8Valid b) := by
  induction a generalizing owed with
  | nil =>
    cases owed with
    | nil =>
      have hfirst : utf8First c.toNat = some [] := if_pos (by omega)
      simp only [List.nil_append, utf8From, hfirst, Bool.true_and, utf8Valid]
    | cons r owed =>
      have hr := howed r List.mem_cons_self
      simp only [List.nil_append, utf8From, Bool.false_and, Bool.and_eq_false_imp, decide_eq_true_eq]
      omega
  | cons d a ih =>
    cases owed with
    | nil =>
      simp only [List.cons_append, utf8From]
      cases hfirst : utf8First d.toNat with
      | none => rfl
      | some owed => exact ih (utf8First_owes hfirst)
    | cons r owed =>
      simp only [List.cons_append, utf8From, ih fun r' hr' => howed r' (List.mem_cons_of_mem _ hr'),
        Bool.and_assoc]

theorem utf8Valid_append {c : Char} (hc : c.toNat < 0x80) (a b : List Char) :
    utf8Valid (a ++ c :: b) = (utf8Valid a && utf8Valid b) :=
  utf8From_append (fun _ hr => (by cases hr)) hc a b

theorem utf8Valid_of_ascii {s : List Char} (hs : ∀ c ∈ s, c.toNat < 0x80) : utf8Valid s = true := by
  induction s with
  | nil => rfl
  | cons c s ih =>
    rw [← List.nil_append (c :: s), utf8Valid_append (hs c List.mem_cons_self),
      ih fun d hd => hs d (List.mem_cons_of_mem _ hd)]
    rfl

end VerusMiner
