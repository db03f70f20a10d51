import VerusMiner.VerusHash
import VerusMiner.NonceHash

/-! The digest of a block up to its last 15 bytes serves every nonce: a lane's
buffer, completed by the nonce, is the digest of the whole block. -/

namespace VerusMiner

/-- The block whose last 15 bytes, from `off` on, are the nonce space and the nonce. -/
def withNonce (data : Mem) (off : Nat) (nonceSpace : Mem) (nonce : Word) : Mem :=
  memcpy (memcpy data off nonceSpace 0 11) (off + 11) (leBytes nonce) 0 4

theorem withNonce_below {data nonceSpace : Mem} {off i : Nat} (nonce : Word) (hi : i < off) :
    withNonce data off nonceSpace nonce i = data i := by
  rw [withNonce, memcpy_off (.inl (by omega)), memcpy_off (.inl hi)]

theorem withNonce_space {data nonceSpace : Mem} {off i : Nat} (nonce : Word) (hi : i < 11) :
    withNonce data off nonceSpace nonce (off + i) = nonceSpace i := by
  rw [withNonce, memcpy_off (.inl (by omega)), memcpy_at hi, Nat.zero_add]

theorem withNonce_nonce {data nonceSpace : Mem} {off i : Nat} (nonce : Word) (hi : i < 4) :
    withNonce data off nonceSpace nonce (off + 11 + i) = leBytes nonce i := by
  rw [withNonce, memcpy_at hi, Nat.zero_add]

theorem preparedInput_halfBlock (aesenc : Vec → Vec → Vec) (data nonceSpace : Mem) (nonce : Word)
    (n : Nat) {i : Nat} (hi : i < 64) :
    preparedInput (halfBlock aesenc data n) nonceSpace nonce i =
      halfBlock aesenc (withNonce data (32 * n) nonceSpace nonce) n i := by
  have hchain {a : Nat} (ha : a < 32) : chainValue aesenc data n a =
      chainValue aesenc (withNonce data (32 * n) nonceSpace nonce) n a :=
    chainValue_congr aesenc (fun j hj => (withNonce_below nonce hj).symm) ha
  simp only [preparedInput, halfBlock]
  by_cases h32 : i < 32
  · simp only [h32, if_true, hchain h32]
  by_cases h43 : i < 43
  · rw [if_neg h32, if_pos h43, if_neg h32, if_pos (by omega), withNonce_space nonce (by omega)]
  by_cases h47 : i < 47
  · rw [if_neg h32, if_neg h43, if_pos h47, if_neg h32, if_pos h47,
      show 32 * n + (i - 32) = 32 * n + 11 + (i - 43) by omega, withNonce_nonce nonce (by omega)]
  · simp only [h32, h43, h47, if_false, show (i - 47) % 16 < 32 by omega, if_true]
    exact hchain (by omega)

theorem preparedInput_congr {half half' nonceSpace : Mem} {nonce : Word}
    (h : ∀ i < 32, half i = half' i) (i : Nat) :
    preparedInput half nonceSpace nonce i = preparedInput half' nonceSpace nonce i := by
  simp only [preparedInput]
  split_ifs with h32
  · exact h i h32
  · rfl
  · rfl
  · exact h _ (by omega)

/-- What the digest leaves: nothing in it comes from the storage that was not
initialised, and the key is generated from the chain value alone. -/
theorem verusHashHalf_midstate (aesenc : Vec → Vec → Vec) (data : Mem) (n : Nat) :
    (∀ buf2, ∀ i < 64, verusHashHalf aesenc buf2 data (32 * n + 15) i = halfBlock aesenc data n i) ∧
    ∀ buf2 keyback, ∀ i < 552, genNewCLKey aesenc (verusHashHalf aesenc buf2 data (32 * n + 15)) keyback i =
      generatedKey aesenc (load128 (chainValue aesenc data n) 0, load128 (chainValue aesenc data n) 16) i := by
  have hhalf (buf2 : Mem) {i : Nat} (hi : i < 64) := verusHashHalf_eq aesenc buf2 data n hi
  refine ⟨fun buf2 i hi => hhalf buf2 hi, fun buf2 keyback i hi => ?_⟩
  have hload (off : Nat) (hoff : off + 16 ≤ 32) :
      load128 (verusHashHalf aesenc buf2 data (32 * n + 15)) off = load128 (chainValue aesenc data n) off := by
    refine load128_congr fun a ha => ?_
    rw [hhalf buf2 (by omega), halfBlock, if_pos (by omega)]
  rw [genNewCLKey_at aesenc _ keyback hi, hload 0 (by omega), hload 16 (by omega)]

/-- A buffer that has the digest and the nonce space, and anything from byte
43 on, is completed by a nonce to the digest of the block with that nonce. -/
theorem prepareHashInput_midstate (aesenc : Vec → Vec → Vec) :
    (∀ build buf2 buf2' data nonceSpace nonce stale,
      let half := verusHashHalf aesenc buf2 data 1487
      let curBuf := memcpy stale 0 (memcpy half 32 nonceSpace 0 11) 0 43
      ∀ i < 64, prepareHashInput curBuf (fill1 build half) (half 0) nonce i =
        verusHashHalf aesenc buf2' (withNonce data 1472 nonceSpace nonce) 1487 i) ∧
    ∀ data n,
      (∀ buf2, ∀ i < 64, verusHashHalf aesenc buf2 data (32 * n + 15) i = halfBlock aesenc data n i) ∧
      ∀ buf2 keyback, ∀ i < 552, genNewCLKey aesenc (verusHashHalf aesenc buf2 data (32 * n + 15)) keyback i =
        generatedKey aesenc (load128 (chainValue aesenc data n) 0, load128 (chainValue aesenc data n) 16) i := by
  refine ⟨?_, fun data n => verusHashHalf_midstate aesenc data n⟩
  intro build buf2 buf2' data nonceSpace nonce stale half curBuf i hi
  have hhalf {a : Nat} (ha : a < 64) : half a = halfBlock aesenc data 46 a :=
    (verusHashHalf_midstate aesenc data 46).1 buf2 a ha
  have hdigest : ∀ a < 32, curBuf a = half a := fun a ha => by
    rw [show curBuf a = memcpy half 32 nonceSpace 0 11 a from memcpy_start (by omega),
      memcpy_off (.inl ha)]
  have hspace : ∀ a < 11, curBuf (32 + a) = nonceSpace a := fun a ha => by
    rw [show curBuf (32 + a) = memcpy half 32 nonceSpace 0 11 (32 + a) from memcpy_start (by omega),
      memcpy_at ha, Nat.zero_add]
  rw [prepareHashInput_at build nonce hdigest hspace hi,
    preparedInput_congr (fun a ha => hhalf (by omega)) i,
    preparedInput_halfBlock aesenc data nonceSpace nonce 46 hi]
  exact ((verusHashHalf_midstate aesenc _ 46).1 buf2' i hi).symm

end VerusMiner
