import VerusMiner.HexText

/-! What `hex2bin` takes for hex: `strtol` reads each pair of characters, and
it reads more than two digits. -/

namespace VerusMiner

def IsHex (c : Char) : Prop := (hexVal c).isSome = true

/-- What `strtol` passes over in front of a digit. -/
def Leads (c : Char) : Prop := isspace c = true ∨ c = '+' ∨ c = '-'

/-- The text is `n` pairs of what may stand first and what may stand second. -/
inductive PairsOf (p q : Char → Prop) : CString → Nat → Prop
  | nil : PairsOf p q [] 0
  | cons {a b : Char} {s : CString} {n : Nat} (ha : p a) (hb : q b) (h : PairsOf p q s n) :
    PairsOf p q (a :: b :: s) (n + 1)

/-- The text is taken exactly if it is `n` pairs of digits, and the bytes are
its value then and print as the text in lower case. -/
structure HexExact (output : Mem) (off : Nat) (s : CString) (n : Nat) : Prop where
  taken : (hex2bin output off s n).2 = true ↔ s.length = 2 * n ∧ ∀ c ∈ s, IsHex c
  value : (hex2bin output off s n).2 = true →
    beNat (bytesAt (hex2bin output off s n).1 off n) = hexNat s ∧
      cbin2hex (hex2bin output off s n).1 off n = s.map Char.toLower

section Pairs

variable {p q : Char → Prop}

theorem PairsOf.mono {p' q' : Char → Prop} (hp : ∀ c, p c → p' c) (hq : ∀ c, q c → q' c) {s : CString}
    {n : Nat} (h : PairsOf p q s n) : PairsOf p' q' s n := by
  induction h with
  | nil => exact .nil
  | cons ha hb _ ih => exact .cons (hp _ ha) (hq _ hb) ih

theorem PairsOf.length_eq {s : CString} {n : Nat} (h : PairsOf p q s n) : s.length = 2 * n := by
  induction h with
  | nil => rfl
  | cons ha hb _ ih =>
    rw [List.length_cons, List.length_cons, ih]
    rfl

theorem pairsOf_cons_iff {a b : Char} {s : CString} {n : Nat} :
    PairsOf p q (a :: b :: s) (n + 1) ↔ (p a ∧ q b) ∧ PairsOf p q s n := by
  constructor
  · intro h
    cases h with
    | cons ha hb h => exact ⟨⟨ha, hb⟩, h⟩
  · rintro ⟨⟨ha, hb⟩, h⟩
    exact .cons ha hb h

theorem pairsOf_of_forall {s : CString} {n : Nat} (hlen : s.length = 2 * n) (h : ∀ c ∈ s, p c) :
    PairsOf p p s n := by
  induction n generalizing s with
  | zero =>
    rw [List.eq_nil_of_length_eq_zero hlen]
    exact .nil
  | succ n ih =>
    match s, hlen with
    | a :: b :: s, hlen =>
      simp only [List.forall_mem_cons] at h
      exact .cons h.1 h.2.1 (ih (by simpa [Nat.mul_succ] using hlen) h.2.2)

end Pairs

section Decoding

theorem strtol16_taken_iff (a b : Char) : (strtol16 a b).2 = true ↔ (IsHex a ∨ Leads a) ∧ IsHex b := by
  unfold strtol16 IsHex Leads
  cases ha : hexVal a with
  | some x => cases hexVal b <;> simp
  | none =>
    cases hexVal b with
    | none => simp
    | some y =>
      simp only [Bool.or_eq_true, decide_eq_true_iff]
      split_ifs <;> grind

theorem hex2bin_taken_iff (output : Mem) (off : Nat) (s : CString) (n : Nat) :
    (hex2bin output off s n).2 = true ↔ PairsOf (fun c => IsHex c ∨ Leads c) IsHex s n := by
  induction output, off, s, n using hex2bin.induct with
  | case1 output off len =>
    rw [hex2bin, decide_eq_true_iff]
    constructor
    · rintro rfl
      exact .nil
    · intro h
      cases h
      rfl
  | case2 output off c s =>
    rw [hex2bin]
    exact iff_of_false Bool.false_ne_true fun h => by cases h
  | case3 output off c len =>
    rw [hex2bin]
    exact iff_of_false Bool.false_ne_true fun h => by cases h
  | case4 output off a b s n byte output' hok ih =>
    rw [hex2bin, if_pos hok, ih, pairsOf_cons_iff, ← strtol16_taken_iff]
    exact (and_iff_right hok).symm
  | case5 output off a b s n byte hok =>
    rw [hex2bin, if_neg hok, pairsOf_cons_iff, ← strtol16_taken_iff]
    exact iff_of_false Bool.false_ne_true fun h => hok h.1

theorem hex2bin_value {s : CString} {n : Nat} (hlen : s.length = 2 * n) (hdigits : ∀ c ∈ s, IsHex c)
    (output : Mem) (off : Nat) :
    beNat (bytesAt (hex2bin output off s n).1 off n) = hexNat s ∧
      cbin2hex (hex2bin output off s n).1 off n = s.map Char.toLower := by
  obtain ⟨bs, hbs, rfl⟩ := exists_hexDecode hlen hdigits
  have hbytes : bytesAt (memcpy output off (ofBytes bs) 0 bs.length) off bs.length = bs :=
    bytesAt_ofBytes rfl fun i hi => by rw [memcpy_at hi, Nat.zero_add]
  rw [hex2bin_of_hexDecode hbs, cbin2hex, hbytes]
  exact ⟨(hexNat_of_hexDecode hbs).symm, hexEncode_hexDecode hbs⟩

/-- The decoding is exact but for a text with a blank or a sign in front of a
digit; what `bin2hex` prints is always read back. -/
theorem hexExact_iff (output : Mem) (off : Nat) (s : CString) (n : Nat) :
    (HexExact output off s n ↔ (PairsOf (fun c => IsHex c ∨ Leads c) IsHex s n → ∀ c ∈ s, IsHex c)) ∧
    ∀ input soff, hex2bin output off (cbin2hex input soff n) n =
      (memcpy output off (ofBytes (bytesAt input soff n)) 0 n, true) := by
  refine ⟨⟨fun h hpairs => ?_, fun h => ?_⟩, fun input soff => hex2bin_cbin2hex output input off soff n⟩
  · exact (h.taken.mp ((hex2bin_taken_iff ..).mpr hpairs)).2
  · have htaken : (hex2bin output off s n).2 = true ↔ s.length = 2 * n ∧ ∀ c ∈ s, IsHex c := by
      rw [hex2bin_taken_iff]
      refine ⟨fun hpairs => ⟨hpairs.length_eq, h hpairs⟩, fun ⟨hlen, hdigits⟩ => ?_⟩
      exact (pairsOf_of_forall hlen hdigits).mono (fun _ => .inl) fun _ => id
    refine ⟨htaken, fun htrue => ?_⟩
    obtain ⟨hlen, hdigits⟩ := htaken.mp htrue
    exact hex2bin_value hlen hdigits output off

/-- A sign and a digit are taken for a byte. -/
theorem hexExact_sign : ¬ HexExact (fun _ => 0) 0 ['+', '5'] 1 := by
  intro h
  have hdigits := (h.taken.mp (by decide)).2
  exact absurd (hdigits '+' List.mem_cons_self) (by unfold IsHex; decide)

end Decoding

end VerusMiner
