import VerusMiner.Handshake

/-! The base 64 text of the websocket answer against the standard one. -/

namespace VerusMiner

/-- What a call writes, to its buffer and to `outptr`, the text there, and the
length it returns. -/
structure Base64Call where
  accesses : List Access
  text : CString
  ret : Int

/-- The writes of a call whose buffer has `size` bytes: `outptr` is cleared, the
groups are printed, and their text is copied. -/
def base64Writes (indata : List Byte) (size outlen : Nat) : List Access :=
  let (outbuf, len) := base64Groups outlen indata 0
  [.write outlen outlen] ++ (List.range (outbuf.length / 4)).map (fun i => .write size (4 * i + 5)) ++
    [.write outlen (min len (outbuf.length + 1))] ++
    if (outbuf.take (len - 1)).length = 27 then [.write outlen 29] else []

def base64Size (inlen : Int) : Int := (inlen * 4).tdiv 3 + 4

/-- `base64_encode` with the `int` it counts the input in. No memory is of a
negative size, and `none` is for a product that no `int` holds. -/
def checkedBase64Encode (indata : List Byte) (outlen : Nat) : Option Base64Call :=
  let inlen := (BitVec.ofNat 32 indata.length).toInt
  if inlen * 4 < -0x80000000 ∨ 0x80000000 ≤ inlen * 4 then none
  else if base64Size inlen < 0 then some { accesses := [.write outlen outlen], text := [], ret := -1 }
  else
    let indata := indata.take inlen.toNat
    some
      { accesses := base64Writes indata (base64Size inlen).toNat outlen
        text := (base64Encode indata outlen).1
        ret := (base64Encode indata outlen).2 }

/-- The text is the standard one, with its length, and nothing is written
outside the buffers. -/
def StandardBase64 (indata : List Byte) (outlen : Nat) : Prop :=
  ∃ c, checkedBase64Encode indata outlen = some c ∧ c.text = base64 indata ∧
    c.ret = (base64 indata).length ∧ ∀ a ∈ c.accesses, a.Safe

section Calls

variable {indata : List Byte} {outlen : Nat}

theorem base64Encode_length_le (h : 4 * ((indata.length + 2) / 3) ≤ outlen) :
    (base64Encode indata outlen).1.length ≤ (base64 indata).length := by
  rw [base64Encode_eq h]
  dsimp only
  split_ifs with hlen
  · rw [List.length_append, List.length_dropLast, List.length_singleton, hlen]
  · rw [List.length_dropLast]
    omega

/-- The character put back is the one lost exactly if that is a padding one. -/
theorem base64Encode_standard_iff (h : 4 * ((indata.length + 2) / 3) ≤ outlen) :
    (base64Encode indata outlen).1 = base64 indata ↔
      indata.length = 0 ∨ indata.length = 19 ∨ indata.length = 20 := by
  have hlen := length_base64 indata
  rw [base64Encode_eq h]
  dsimp only
  split_ifs with h28
  · have hpad : (base64 indata).dropLast ++ ['='] = base64 indata ↔ (base64 indata).getLast? = some '=' := by
      constructor
      · intro heq
        rw [← heq, List.getLast?_concat]
      · exact List.dropLast_append_getLast? _
    rw [hpad, base64_getLast?_eq_pad_iff]
    omega
  · have hdrop : (base64 indata).dropLast = base64 indata ↔ base64 indata = [] := by
      constructor
      · intro heq
        have hlength := congrArg List.length heq
        rw [List.length_dropLast] at hlength
        exact List.eq_nil_of_length_eq_zero (by omega)
      · intro hnil
        rw [hnil, List.dropLast_nil]
    rw [hdrop, base64_eq_nil_iff, ← List.length_eq_zero_iff]
    omega

theorem toInt_ofNat_length (n : Nat) : (BitVec.ofNat 32 n).toInt =
    if 2 * (n % 4294967296) < 4294967296 then ((n % 4294967296 : Nat) : Int)
    else ((n % 4294967296 : Nat) : Int) - 4294967296 := by
  rw [BitVec.toInt_eq_toNat_cond, BitVec.toNat_ofNat]
  rfl

theorem checkedBase64Encode_text {c : Base64Call} (h : checkedBase64Encode indata outlen = some c) :
    c.text = [] ∨ ∃ k, k ≤ indata.length ∧ k < 2 ^ 29 ∧ (k = indata.length ∨ 2 ^ 30 ≤ indata.length) ∧
      c.text = (base64Encode (indata.take k) outlen).1 := by
  have hcount := toInt_ofNat_length indata.length
  simp only [checkedBase64Encode] at h
  generalize (BitVec.ofNat 32 indata.length).toInt = inlen at h hcount
  split_ifs at h with hint hsize
  · cases h
    exact .inl rfl
  · cases h
    refine .inr ⟨inlen.toNat, ?_, ?_, ?_, rfl⟩
    all_goals
      split_ifs at hcount
      all_goals omega

/-- The buffer has room for each group with its terminating zero. -/
theorem base64Writes_safe {size : Nat} (hroom : 4 * ((indata.length + 2) / 3) + 1 ≤ outlen)
    (hsize : indata.length * 4 / 3 + 4 ≤ size) : ∀ a ∈ base64Writes indata size outlen, a.Safe := by
  have hlen := length_base64 indata
  have hplace : 0 + 4 * ((indata.length + 2) / 3) ≤ outlen := by omega
  simp only [base64Writes, base64Groups_eq indata 0 hplace, List.forall_mem_append,
    List.forall_mem_singleton, List.forall_mem_map, List.mem_range, Access.Safe, List.length_take]
  refine ⟨⟨⟨le_rfl, fun i hi => by omega⟩, by omega⟩, ?_⟩
  split_ifs with h27
  · have hroom : 29 ≤ outlen := by omega
    exact List.forall_mem_singleton.mpr hroom
  · exact fun a ha => absurd ha List.not_mem_nil

theorem standardBase64_small_iff (hroom : 4 * ((indata.length + 2) / 3) + 1 ≤ outlen)
    (hsmall : indata.length < 2 ^ 29) : StandardBase64 indata outlen ↔
      indata.length = 0 ∨ indata.length = 19 ∨ indata.length = 20 := by
  have hcount : (BitVec.ofNat 32 indata.length).toInt = indata.length := by
    rw [toInt_ofNat_length, if_pos (by omega)]
    omega
  have hsize : base64Size indata.length = ((indata.length * 4 / 3 + 4 : Nat) : Int) := by
    rw [base64Size, Int.tdiv_eq_ediv_of_nonneg (by omega)]
    omega
  have hcall : checkedBase64Encode indata outlen = some
      { accesses := base64Writes indata (indata.length * 4 / 3 + 4) outlen
        text := (base64Encode indata outlen).1
        ret := (base64Encode indata outlen).2 } := by
    simp only [checkedBase64Encode, hcount, hsize]
    rw [if_neg (by omega), if_neg (by omega), Int.toNat_natCast, Int.toNat_natCast, List.take_length]
  have hplace : 4 * ((indata.length + 2) / 3) ≤ outlen := by omega
  rw [← base64Encode_standard_iff hplace]
  constructor
  · rintro ⟨c, hc, htext, _⟩
    rw [hcall, Option.some.injEq] at hc
    rw [← htext, ← hc]
  · intro htext
    refine ⟨_, hcall, htext, ?_, base64Writes_safe hroom le_rfl⟩
    rw [base64Encode_eq (by omega)]

/-- The count in an `int` is short of an input as large as this. -/
theorem not_standardBase64_large (hroom : 4 * ((indata.length + 2) / 3) + 1 ≤ outlen)
    (hlarge : 2 ^ 29 ≤ indata.length) : ¬ StandardBase64 indata outlen := by
  rintro ⟨c, hc, htext, _⟩
  have hlen := length_base64 indata
  rcases checkedBase64Encode_text hc with hnil | ⟨k, hk, hint, hsame, htaken⟩
  · have hempty := congrArg List.length (htext.symm.trans hnil)
    rw [hlen, List.length_nil] at hempty
    omega
  · have htake : (indata.take k).length = k := List.length_take_of_le hk
    have hplace : 4 * (((indata.take k).length + 2) / 3) ≤ outlen := by omega
    have hle := base64Encode_length_le hplace
    rw [← htaken, htext, hlen, length_base64, htake] at hle
    omega

theorem standardBase64_iff (hroom : 4 * ((indata.length + 2) / 3) + 1 ≤ outlen) :
    StandardBase64 indata outlen ↔ indata.length = 0 ∨ indata.length = 19 ∨ indata.length = 20 := by
  rcases Nat.lt_or_ge indata.length (2 ^ 29) with hsmall | hlarge
  · exact standardBase64_small_iff hroom hsmall
  · exact iff_of_false (not_standardBase64_large hroom hlarge) (by omega)

/-- The digest of a websocket key is one of these. -/
theorem standardBase64_digest : StandardBase64 (List.replicate 20 0) 64 :=
  (standardBase64_iff (by decide)).mpr (.inr (.inr List.length_replicate))

/-- Of the three bytes of "abc" three characters are left, "YWJ" for "YWJj". -/
theorem standardBase64_abc : ¬ StandardBase64 [97, 98, 99] 5 := by
  rintro ⟨c, hc, htext, _⟩
  have hcall : (checkedBase64Encode [97, 98, 99] 5).map (fun c => c.text) = some ['Y', 'W', 'J'] := by decide
  rw [hc, Option.map_some, htext] at hcall
  exact absurd hcall (by decide)

end Calls

end VerusMiner
