import VerusMiner.HexText
import VerusMiner.Lib.Base64

/-! The answer to a websocket client of the API. -/

namespace VerusMiner

def textBytes (s : CString) : List Byte := s.map fun c => BitVec.ofNat 8 c.toNat

def table64 : CString := "ABCDEFGHIJKLMNOPQRSTUVWXYZabcdefghijklmnopqrstuvwxyz0123456789+/".toList

def char64 (b : Byte) : Char := table64.getD b.toNat '\x00'

/-- The groups of four characters, and how many characters are counted: the
last group is not if there is no place for it. -/
def base64Groups (outlen : Nat) : List Byte → Nat → CString × Nat
  | [], len => ([], len)
  | [b₀], len =>
    let group := [char64 ((b₀ &&& 0xFC) >>> 2), char64 ((b₀ &&& 0x03) <<< 4), '=', '=']
    (group, if outlen < len + 4 then len else len + 4)
  | [b₀, b₁], len =>
    let group := [char64 ((b₀ &&& 0xFC) >>> 2), char64 ((b₀ &&& 0x03) <<< 4 ||| (b₁ &&& 0xF0) >>> 4),
      char64 ((b₁ &&& 0x0F) <<< 2), '=']
    (group, if outlen < len + 4 then len else len + 4)
  | b₀ :: b₁ :: b₂ :: indata, len =>
    let group := [char64 ((b₀ &&& 0xFC) >>> 2), char64 ((b₀ &&& 0x03) <<< 4 ||| (b₁ &&& 0xF0) >>> 4),
      char64 ((b₁ &&& 0x0F) <<< 2 ||| (b₂ &&& 0xC0) >>> 6), char64 (b₂ &&& 0x3F)]
    if outlen < len + 4 then (group, len)
    else (group ++ (base64Groups outlen indata (len + 4)).1, (base64Groups outlen indata (len + 4)).2)

/-- The text written to `outptr`, of `outlen` bytes, and the length returned.
`snprintf` keeps one place for the zero, which costs the last character. -/
def base64Encode (indata : List Byte) (outlen : Nat) : CString × Nat :=
  let (outbuf, len) := base64Groups outlen indata 0
  let outptr := outbuf.take (len - 1)
  (if outptr.length = 27 then outptr ++ ['='] else outptr, outbuf.length)

def websocketGuid : CString := "258EAFA5-E914-47DA-95CA-C5AB0DC85B11".toList

def answerHead : CString :=
  "HTTP/1.1 101 Switching Protocol\r\nUpgrade: WebSocket\r\nConnection: Upgrade\r\nSec-WebSocket-Accept: ".toList

def answerTail : CString := "\r\nSec-WebSocket-Protocol: text\r\n\r\n".toList

def websocketAnswer (seckey : CString) : CString := answerHead ++ seckey ++ answerTail

/-- The frame header of the first length that holds `datalen`. -/
def frameHeader (datalen : Nat) : List Byte :=
  let byte (k : Nat) : Byte := BitVec.ofNat 8 (datalen >>> (8 * k))
  if datalen ≤ 125 then [129, byte 0]
  else if datalen ≤ 65535 then [129, 126, byte 1, byte 0]
  else [129, 127, byte 7, byte 6, byte 5, byte 4, byte 3, byte 2, byte 1, byte 0]

structure Handshake where
  accesses : List Access
  sent : List Byte

variable (sha1 : List Byte → Vector Byte 20)

def websocketHandshake (result clientkey : CString) : Handshake :=
  let inpkey := clientkey ++ websocketGuid
  let seckey := (base64Encode (sha1 (textBytes inpkey)).toList 64).1
  let answer := websocketAnswer seckey
  { accesses := [.write 128 (inpkey.length + 1), .write 64 (seckey.length + 1),
      .write 256 (answer.length + 1)]
    sent := textBytes answer ++ frameHeader result.length ++ textBytes result ++ [0] }

section Groups

theorem toNat_mask_shiftRight (b : Byte) {m : Byte} {j k : Nat} (hm : m.toNat >>> k = 2 ^ j - 1)
    (hjk : 8 ≤ j + k) : ((b &&& m) >>> k).toNat = b.toNat / 2 ^ k := by
  have hlt : b.toNat / 2 ^ k < 2 ^ j :=
    Nat.div_lt_of_lt_mul (b.isLt.trans_le (by rw [← Nat.pow_add]; exact Nat.pow_le_pow_right (by decide) (by omega)))
  rw [BitVec.toNat_ushiftRight, BitVec.toNat_and, Nat.shiftRight_and_distrib, hm, Nat.and_two_pow_sub_one_eq_mod,
    Nat.shiftRight_eq_div_pow, Nat.mod_eq_of_lt hlt]

theorem toNat_mask_shiftLeft (b : Byte) {m : Byte} {j k : Nat} (hm : m.toNat = 2 ^ j - 1) (hjk : j + k ≤ 8) :
    ((b &&& m) <<< k).toNat = 2 ^ k * (b.toNat % 2 ^ j) := by
  have hlt : b.toNat % 2 ^ j * 2 ^ k < 2 ^ 8 := by
    have hmod := Nat.mod_lt b.toNat (Nat.two_pow_pos j)
    refine (Nat.mul_lt_mul_of_pos_right hmod (Nat.two_pow_pos k)).trans_le ?_
    rw [← Nat.pow_add]
    exact Nat.pow_le_pow_right (by decide) hjk
  rw [BitVec.toNat_shiftLeft, BitVec.toNat_and, hm, Nat.and_two_pow_sub_one_eq_mod, Nat.shiftLeft_eq,
    Nat.mod_eq_of_lt hlt, Nat.mul_comm]

/-- Bits moved up and bits below them do not meet. -/
theorem toNat_join {a b : Byte} {k x y : Nat} (ha : a.toNat = 2 ^ k * x) (hb : b.toNat = y) (hy : y < 2 ^ k) :
    (a ||| b).toNat = 2 ^ k * x + y := by
  rw [BitVec.toNat_or, ha, hb, Nat.two_pow_add_eq_or_of_lt hy]

theorem char64_eq {b : Byte} {d : Nat} (h : b.toNat = d) (hd : d < 64) : char64 b = base64Digit d := by
  rw [char64, h]
  interval_cases d <;> decide

theorem char64_first (b₀ : Byte) : char64 ((b₀ &&& 0xFC) >>> 2) = base64Digit (b₀.toNat / 4) := by
  have hb := b₀.isLt
  exact char64_eq (toNat_mask_shiftRight b₀ (j := 6) rfl (by decide)) (by omega)

theorem char64_second (b₀ b₁ : Byte) : char64 ((b₀ &&& 0x03) <<< 4 ||| (b₁ &&& 0xF0) >>> 4) =
    base64Digit (16 * (b₀.toNat % 4) + b₁.toNat / 16) := by
  have hb := b₁.isLt
  exact char64_eq (toNat_join (toNat_mask_shiftLeft b₀ (j := 2) rfl (by decide))
    (toNat_mask_shiftRight b₁ (j := 4) rfl (by decide)) (by omega)) (by omega)

theorem char64_third (b₁ b₂ : Byte) : char64 ((b₁ &&& 0x0F) <<< 2 ||| (b₂ &&& 0xC0) >>> 6) =
    base64Digit (4 * (b₁.toNat % 16) + b₂.toNat / 64) := by
  have hb := b₂.isLt
  exact char64_eq (toNat_join (toNat_mask_shiftLeft b₁ (j := 4) rfl (by decide))
    (toNat_mask_shiftRight b₂ (j := 2) rfl (by decide)) (by omega)) (by omega)

theorem char64_last (b : Byte) {m : Byte} {j k : Nat} (hm : m.toNat = 2 ^ j - 1) (hjk : j + k = 6) :
    char64 ((b &&& m) <<< k) = base64Digit (2 ^ k * (b.toNat % 2 ^ j)) := by
  refine char64_eq (toNat_mask_shiftLeft b hm (by omega)) ?_
  have hmod := Nat.mul_lt_mul_of_pos_left (Nat.mod_lt b.toNat (Nat.two_pow_pos j)) (Nat.two_pow_pos k)
  rwa [← Nat.pow_add, Nat.add_comm k, hjk] at hmod

theorem char64_fourth (b₂ : Byte) : char64 (b₂ &&& 0x3F) = base64Digit (b₂.toNat % 64) := by
  refine char64_eq ?_ (Nat.mod_lt _ (by decide))
  rw [BitVec.toNat_and]
  exact Nat.and_two_pow_sub_one_eq_mod _ 6

theorem base64Groups_eq {outlen : Nat} (indata : List Byte) (len : Nat)
    (h : len + 4 * ((indata.length + 2) / 3) ≤ outlen) :
    base64Groups outlen indata len = (base64 indata, len + 4 * ((indata.length + 2) / 3)) := by
  induction indata, len using base64Groups.induct outlen with
  | case1 len => rfl
  | case2 b₀ len =>
    rw [List.length_singleton] at h ⊢
    rw [base64Groups, if_neg (by omega), base64, char64_first, char64_last b₀ (j := 2) rfl rfl]
    simp only [Prod.mk.injEq, List.cons.injEq, and_true]
    refine ⟨?_, ?_⟩
    all_goals
      congr 1
      omega
  | case3 b₀ b₁ len =>
    have h₁ := b₁.isLt
    rw [List.length_cons, List.length_singleton] at h ⊢
    rw [base64Groups, if_neg (by omega), base64, char64_first, char64_second, char64_last b₁ (j := 4) rfl rfl]
    simp only [Prod.mk.injEq, List.cons.injEq, and_true]
    refine ⟨?_, ?_, ?_⟩
    all_goals
      congr 1
      omega
  | case4 b₀ b₁ b₂ indata len hfull =>
    simp only [List.length_cons] at h
    omega
  | case5 b₀ b₁ b₂ indata len hplace ih =>
    simp only [List.length_cons] at h ⊢
    have h₁ := b₁.isLt
    have h₂ := b₂.isLt
    rw [base64Groups, if_neg hplace, ih (by omega), base64, char64_first, char64_second, char64_third, char64_fourth]
    simp only [Prod.mk.injEq, List.append_cancel_right_eq, List.cons.injEq, and_true]
    refine ⟨⟨?_, ?_, ?_, ?_⟩, by omega⟩
    all_goals
      congr 1
      omega

/-- The last character is lost, and a text of 28 gets a padding character back. -/
theorem base64Encode_eq {indata : List Byte} {outlen : Nat} (h : 4 * ((indata.length + 2) / 3) ≤ outlen) : base64Encode indata outlen =
    (if (base64 indata).length = 28 then (base64 indata).dropLast ++ ['='] else (base64 indata).dropLast,
      (base64 indata).length) := by
  have hroom : 0 + 4 * ((indata.length + 2) / 3) ≤ outlen := by omega
  have hgroups := base64Groups_eq indata 0 hroom
  rw [Nat.zero_add, ← length_base64] at hgroups
  simp only [base64Encode, hgroups, ← List.dropLast_eq_take, List.length_dropLast]
  congr 1
  have hlen := length_base64 indata
  exact if_congr (by omega) rfl rfl

end Groups

theorem base64Encode_sha1_length (digest : Vector Byte 20) :
    (base64Encode digest.toList 64).1.length = 28 := by
  have hdigest : digest.toList.length = 20 := digest.size_toArray
  have hlen := length_base64 digest.toList
  rw [hdigest] at hlen
  have hplace : 4 * ((digest.toList.length + 2) / 3) ≤ 64 := by omega
  rw [base64Encode_eq hplace]
  dsimp only
  rw [if_pos hlen, List.length_append, List.length_dropLast, hlen, List.length_singleton]

theorem websocketAnswer_length (seckey : CString) :
    (websocketAnswer seckey).length = 130 + seckey.length := by
  have hhead : answerHead.length = 96 := by decide +kernel
  have htail : answerTail.length = 34 := by decide +kernel
  rw [websocketAnswer, List.length_append, List.length_append, hhead, htail]
  omega

/-- Of the arrays of the handshake only the one for the key can overflow. -/
theorem websocketHandshake_safe_iff (result clientkey : CString) :
    (∀ a ∈ (websocketHandshake sha1 result clientkey).accesses, a.Safe) ↔ clientkey.length ≤ 91 := by
  have hguid : websocketGuid.length = 36 := by decide +kernel
  simp only [websocketHandshake, List.forall_mem_cons, Access.Safe, websocketAnswer_length,
    base64Encode_sha1_length, List.length_append, hguid]
  constructor
  · rintro ⟨hkey, _⟩
    omega
  · intro hkey
    exact ⟨by omega, by omega, by omega, fun a ha => absurd ha List.not_mem_nil⟩

end VerusMiner
