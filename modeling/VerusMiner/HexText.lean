import VerusMiner.Bytes
import VerusMiner.Lib.CText
import VerusMiner.Lib.Hex

/-! The text routines of the client: hex in both directions as `strtol` and
`sprintf` do it, over strings of one character a byte. -/

namespace VerusMiner

/-- The characters of a C string before its terminating zero. -/
abbrev CString := List Char

/-- `strtol` to base 16 on two characters, as a byte, and whether it stopped
at their end. -/
def strtol16 (c₀ c₁ : Char) : Byte × Bool :=
  match hexVal c₀, hexVal c₁ with
  | some x, some y => (BitVec.ofNat 8 (16 * x + y), true)
  | some x, none => (BitVec.ofNat 8 x, false)
  | none, some y =>
    if isspace c₀ || c₀ = '+' then (BitVec.ofNat 8 y, true)
    else if c₀ = '-' then (-BitVec.ofNat 8 y, true)
    else (0, false)
  | none, none => (0, false)

/-- The byte at which the text breaks off is written before it is refused. -/
def hex2bin (output : Mem) (off : Nat) : CString → Nat → Mem × Bool
  | [], len => (output, len = 0)
  | _ :: _, 0 => (output, false)
  | [_], _ + 1 => (output, false)
  | c₀ :: c₁ :: hexstr, len + 1 =>
    let byte := strtol16 c₀ c₁
    let output := Function.update output off byte.1
    if byte.2 then hex2bin output (off + 1) hexstr len else (output, false)

def bytesAt (m : Mem) (off len : Nat) : List Byte := (List.range len).map fun i => m (off + i)

def cbin2hex (input : Mem) (off len : Nat) : CString := hexEncode (bytesAt input off len)

def sprintfX (n : Nat) (v : Word) : CString :=
  (List.range n).reverse.map fun i => hexDigit ((v >>> (4 * i)).toNat % 16)

def ofBytes (bs : List Byte) : Mem := fun i => bs.getD i 0

theorem hex2bin_off (output : Mem) (off : Nat) (hexstr : CString) (len : Nat) {i : Nat}
    (hi : i < off ∨ off + len ≤ i) : (hex2bin output off hexstr len).1 i = output i := by
  induction output, off, hexstr, len using hex2bin.induct with
  | case1 => rw [hex2bin]
  | case2 => rw [hex2bin]
  | case3 => rw [hex2bin]
  | case4 output off c₀ c₁ hexstr len byte output' hok ih =>
    rw [hex2bin, if_pos hok, ih (by omega)]
    exact Function.update_of_ne (by omega) _ _
  | case5 output off c₀ c₁ hexstr len byte hok =>
    rw [hex2bin, if_neg hok]
    exact Function.update_of_ne (by omega) _ _

theorem ofBytes_cons (b : Byte) (bs : List Byte) (i : Nat) : ofBytes (b :: bs) (1 + i) = ofBytes bs i := by
  rw [Nat.add_comm, ofBytes, ofBytes, List.getD_cons_succ]

theorem hex2bin_of_hexDecode {s : CString} {bs : List Byte} (h : hexDecode s = some bs)
    (output : Mem) (off : Nat) :
    hex2bin output off s bs.length = (memcpy output off (ofBytes bs) 0 bs.length, true) := by
  induction s using hexDecode.induct generalizing bs output off with
  | case1 =>
    simp only [hexDecode, Option.some.injEq] at h
    subst h
    rw [List.length_nil, memcpy_zero]
    rfl
  | case2 c => simp [hexDecode] at h
  | case3 a b rest x y hb ha ih =>
    simp only [hexDecode, ha, hb, Option.map_eq_some_iff] at h
    obtain ⟨t, ht, rfl⟩ := h
    simp only [List.length_cons, hex2bin, strtol16, ha, hb, if_true, ih ht, Prod.mk.injEq, and_true]
    rw [← memcpy_succ]
    exact memcpy_congr fun i _ => by rw [Nat.zero_add, Nat.zero_add, ofBytes_cons]
  | case4 a b rest hnone => simp [hexDecode] at h

theorem length_bytesAt (m : Mem) (off len : Nat) : (bytesAt m off len).length = len := by
  simp [bytesAt]

theorem ofBytes_bytesAt (m : Mem) (off : Nat) {len i : Nat} (hi : i < len) :
    ofBytes (bytesAt m off len) i = m (off + i) := by
  simp [ofBytes, bytesAt, hi]

theorem bytesAt_congr {m m' : Mem} {off off' len : Nat}
    (h : ∀ i < len, m (off + i) = m' (off' + i)) : bytesAt m off len = bytesAt m' off' len := by
  rw [bytesAt, bytesAt, List.map_inj_left]
  exact fun i hi => h i (List.mem_range.mp hi)

theorem bytesAt_append (m : Mem) (off a b : Nat) :
    bytesAt m off a ++ bytesAt m (off + a) b = bytesAt m off (a + b) := by
  simp only [bytesAt, List.range_add, List.map_append, List.map_map]
  congr 2
  funext i
  exact congrArg m (Nat.add_assoc off a i)

theorem bytesAt_take (m : Mem) (off a b : Nat) : (bytesAt m off (a + b)).take a = bytesAt m off a := by
  rw [← bytesAt_append, List.take_append_of_le_length (by rw [length_bytesAt]),
    List.take_of_length_le (by rw [length_bytesAt])]

theorem bytesAt_drop (m : Mem) (off a b : Nat) :
    (bytesAt m off (a + b)).drop a = bytesAt m (off + a) b := by
  rw [← bytesAt_append, List.drop_append_of_le_length (by rw [length_bytesAt]),
    List.drop_of_length_le (by rw [length_bytesAt]), List.nil_append]

theorem bytesAt_ofBytes {m : Mem} {off len : Nat} {bs : List Byte} (hlen : bs.length = len)
    (h : ∀ i < len, m (off + i) = ofBytes bs i) : bytesAt m off len = bs := by
  apply List.ext_getElem (by rw [length_bytesAt, hlen])
  intro i h₁ h₂
  simp [bytesAt, h i (by omega), ofBytes, h₂]

theorem hex2bin_cbin2hex (output input : Mem) (off soff len : Nat) :
    hex2bin output off (cbin2hex input soff len) len =
      (memcpy output off (ofBytes (bytesAt input soff len)) 0 len, true) := by
  have h := hex2bin_of_hexDecode (hexDecode_hexEncode (bytesAt input soff len)) output off
  rwa [length_bytesAt] at h

theorem toNat_be32dec (m : Mem) (off : Nat) :
    (be32dec m off).toNat = (((m off).toNat * 256 + (m (off + 1)).toNat) * 256 +
      (m (off + 2)).toNat) * 256 + (m (off + 3)).toNat := by
  simp only [be32dec, toNat_append_byte]

theorem sprintfX_swab32 (m : Mem) (off : Nat) :
    sprintfX 8 (swab32 (le32dec m off)) = cbin2hex m off 4 := by
  have hv := toNat_be32dec m off
  have h₀ := (m off).isLt
  have h₁ := (m (off + 1)).isLt
  have h₂ := (m (off + 2)).isLt
  have h₃ := (m (off + 3)).isLt
  rw [swab32_le32dec]
  simp only [sprintfX, cbin2hex, hexEncode, bytesAt, List.range, List.range.loop, List.reverse_cons,
    List.reverse_nil, List.nil_append, List.cons_append, List.map_cons, List.map_nil,
    List.flatMap_cons, List.flatMap_nil, hexByte, BitVec.toNat_ushiftRight,
    Nat.shiftRight_eq_div_pow, hv, Nat.add_zero, List.append_nil, List.cons.injEq, and_true]
  refine ⟨?_, ?_, ?_, ?_, ?_, ?_, ?_, ?_⟩ <;> congr 1 <;> omega

end VerusMiner
