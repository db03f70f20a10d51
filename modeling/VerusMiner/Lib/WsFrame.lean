import VerusMiner.Lib.Hex

/-! The base framing of RFC 6455: a frame read from the front of a stream, and
the end of the HTTP head in front of the frames. -/

namespace VerusMiner

structure WsFrame where
  fin : Bool
  rsv : Nat
  opcode : Nat
  masked : Bool
  payload : List (BitVec 8)

/-- The lowest `k` bytes of a number, the most significant one first. -/
def beBytes : Nat → Nat → List (BitVec 8)
  | 0, _ => []
  | k + 1, n => beBytes k (n / 256) ++ [BitVec.ofNat 8 n]

/-- The length of the payload in the fewest bytes that hold it. -/
def wsLength (len7 : Nat) (bs : List (BitVec 8)) : Option (Nat × List (BitVec 8)) :=
  if len7 = 126 then
    if 2 ≤ bs.length ∧ 126 ≤ beNat (bs.take 2) then some (beNat (bs.take 2), bs.drop 2) else none
  else if len7 = 127 then
    if 8 ≤ bs.length ∧ 65536 ≤ beNat (bs.take 8) ∧ beNat (bs.take 8) < 2 ^ 63 then
      some (beNat (bs.take 8), bs.drop 8)
    else none
  else some (len7, bs)

def wsUnmask (key payload : List (BitVec 8)) : List (BitVec 8) :=
  payload.mapIdx fun i b => b ^^^ key.getD (i % 4) 0

/-- `none` is for a stream that does not start with a whole frame. -/
def wsFrame : List (BitVec 8) → Option (WsFrame × List (BitVec 8))
  | b₀ :: b₁ :: bs =>
    (wsLength (b₁.toNat % 128) bs).bind fun (len, bs) =>
      let masked := decide (128 ≤ b₁.toNat)
      let key := bs.take 4
      let bs := if masked then bs.drop 4 else bs
      if (masked → key.length = 4) ∧ len ≤ bs.length then
        some
          ({ fin := decide (128 ≤ b₀.toNat)
             rsv := b₀.toNat / 16 % 8
             opcode := b₀.toNat % 16
             masked := masked
             payload := if masked then wsUnmask key (bs.take len) else bs.take len },
            bs.drop len)
      else none
  | _ => none

/-- A whole message of text in one frame of the server. -/
def wsText (payload : List (BitVec 8)) : WsFrame where
  fin := true
  rsv := 0
  opcode := 1
  masked := false
  payload := payload

/-- What follows the blank line of a HTTP head. -/
def afterHead : List (BitVec 8) → Option (List (BitVec 8))
  | [] => none
  | b :: s => if [13, 10, 13, 10].isPrefixOf (b :: s) then some (s.drop 3) else afterHead s

/-- Lines with no blank one among them: two places behind the start of a line
end there is something else. -/
def noBlankLine : List (BitVec 8) → Bool
  | [] => true
  | b :: s => (b != 13 || s[1]?.any fun d => d != 13) && noBlankLine s

section Head

theorem afterHead_blank (s : List (BitVec 8)) : afterHead (13 :: 10 :: 13 :: 10 :: s) = some s := by
  simp [afterHead, List.isPrefixOf]

theorem afterHead_cons_of_ne {b : BitVec 8} (h : b ≠ 13) (s : List (BitVec 8)) :
    afterHead (b :: s) = afterHead s := by
  have hb : (13 == b) = false := beq_eq_false_iff_ne.mpr (Ne.symm h)
  rw [afterHead, List.isPrefixOf, hb, Bool.false_and]
  rfl

theorem afterHead_cons_of_third {b c d : BitVec 8} (h : d ≠ 13) (s : List (BitVec 8)) :
    afterHead (b :: c :: d :: s) = afterHead (c :: d :: s) := by
  have hd : (13 == d) = false := beq_eq_false_iff_ne.mpr (Ne.symm h)
  rw [afterHead, List.isPrefixOf, List.isPrefixOf, List.isPrefixOf, hd, Bool.false_and, Bool.and_false,
    Bool.and_false]
  rfl

theorem afterHead_append {p : List (BitVec 8)} (h : noBlankLine p = true) (s : List (BitVec 8)) :
    afterHead (p ++ s) = afterHead s := by
  induction p with
  | nil => rfl
  | cons b p ih =>
    rw [noBlankLine, Bool.and_eq_true, Bool.or_eq_true, bne_iff_ne] at h
    obtain ⟨hb | hthird, hp⟩ := h
    · rw [List.cons_append, afterHead_cons_of_ne hb, ih hp]
    · match p, hthird with
      | c :: d :: p, hthird =>
        have hd : d ≠ 13 := by simpa using hthird
        rw [← ih hp, List.cons_append, List.cons_append, List.cons_append, afterHead_cons_of_third hd]

theorem noBlankLine_of_forall {p : List (BitVec 8)} (h : ∀ b ∈ p, b ≠ 13) : noBlankLine p = true := by
  induction p with
  | nil => rfl
  | cons b p ih =>
    obtain ⟨hb, hp⟩ := List.forall_mem_cons.mp h
    rw [noBlankLine, ih hp, Bool.and_true, Bool.or_eq_true]
    exact .inl (bne_iff_ne.mpr hb)

end Head

section Frames

theorem length_of_afterHead {s t : List (BitVec 8)} (h : afterHead s = some t) : t.length ≤ s.length := by
  induction s with
  | nil => cases h
  | cons b s ih =>
    rw [afterHead] at h
    split_ifs at h
    · rw [← Option.some.inj h, List.length_drop, List.length_cons]
      omega
    · exact (ih h).trans (Nat.le_succ _)

theorem length_of_wsLength {len7 len : Nat} {bs rest : List (BitVec 8)}
    (h : wsLength len7 bs = some (len, rest)) : rest.length ≤ bs.length := by
  unfold wsLength at h
  split_ifs at h
  all_goals obtain ⟨_, rfl⟩ := Prod.mk.inj (Option.some.inj h)
  · exact List.length_drop ▸ Nat.sub_le ..
  · exact List.length_drop ▸ Nat.sub_le ..
  · exact Nat.le_refl _

/-- The payload and what is left over are of the stream behind the first two bytes. -/
theorem length_of_wsFrame {bs rest : List (BitVec 8)} {f : WsFrame} (h : wsFrame bs = some (f, rest)) :
    f.payload.length + rest.length + 2 ≤ bs.length := by
  match bs, h with
  | b₀ :: b₁ :: bs, h =>
    obtain ⟨⟨len, tail⟩, hlength, h⟩ := Option.bind_eq_some_iff.mp h
    have htail := length_of_wsLength hlength
    simp only at h
    split_ifs at h
    all_goals
      obtain ⟨rfl, rfl⟩ := Prod.mk.inj (Option.some.inj h)
      simp only [wsUnmask, List.length_mapIdx, List.length_take, List.length_drop, List.length_cons]
      omega

theorem beNat_beBytes (k n : Nat) : beNat (beBytes k n) = n % 256 ^ k := by
  induction k generalizing n with
  | zero => rw [Nat.pow_zero, Nat.mod_one, beBytes, beNat, List.foldl_nil]
  | succ k ih =>
    have hsplit : n % (256 * 256 ^ k) = n % 256 + 256 * (n / 256 % 256 ^ k) := Nat.mod_mul
    rw [beBytes, beNat_concat, ih, BitVec.toNat_ofNat, Nat.pow_succ' (n := k), hsplit, Nat.add_comm]

theorem length_beBytes (k n : Nat) : (beBytes k n).length = k := by
  induction k generalizing n with
  | zero => rfl
  | succ k ih => rw [beBytes, List.length_append, ih, List.length_singleton]

theorem wsLength_two {n : Nat} (h : 126 ≤ n) (hlt : n < 65536) (bs : List (BitVec 8)) :
    wsLength 126 (beBytes 2 n ++ bs) = some (n, bs) := by
  have htake : (beBytes 2 n ++ bs).take 2 = beBytes 2 n := List.take_left' (length_beBytes 2 n)
  have hdrop : (beBytes 2 n ++ bs).drop 2 = bs := List.drop_left' (length_beBytes 2 n)
  rw [wsLength, if_pos rfl, htake, hdrop, beNat_beBytes, Nat.mod_eq_of_lt (by omega), if_pos]
  rw [List.length_append, length_beBytes]
  omega

theorem wsLength_eight {n : Nat} (h : 65536 ≤ n) (hlt : n < 2 ^ 63) (bs : List (BitVec 8)) :
    wsLength 127 (beBytes 8 n ++ bs) = some (n, bs) := by
  have htake : (beBytes 8 n ++ bs).take 8 = beBytes 8 n := List.take_left' (length_beBytes 8 n)
  have hdrop : (beBytes 8 n ++ bs).drop 8 = bs := List.drop_left' (length_beBytes 8 n)
  rw [wsLength, if_neg (by decide), if_pos rfl, htake, hdrop, beNat_beBytes, Nat.mod_eq_of_lt (by omega), if_pos]
  rw [List.length_append, length_beBytes]
  omega

theorem wsFrame_text {b : BitVec 8} {bs payload rest : List (BitVec 8)} (hb : b.toNat < 128)
    (hlen : wsLength b.toNat bs = some (payload.length, payload ++ rest)) :
    wsFrame (129 :: b :: bs) = some (wsText payload, rest) := by
  have hmask : decide (128 ≤ b.toNat) = false := decide_eq_false (by omega)
  rw [wsFrame, Nat.mod_eq_of_lt hb, hlen, Option.bind_some]
  simp only [hmask, Bool.false_eq_true, if_false, List.take_left, List.drop_left, List.length_append]
  rw [if_pos ⟨fun h => h.elim, Nat.le_add_right _ _⟩]
  rfl

end Frames

end VerusMiner
