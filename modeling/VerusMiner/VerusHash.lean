import VerusMiner.Haraka

/-! The digest of a message into 64 bytes and the key generated from it. -/

namespace VerusMiner

section Digest

variable (aesenc : Vec → Vec → Vec)

structure Digest where
  curBuf : Mem
  result : Mem
  curPos : Fin 32

def digestLoop (data : Mem) (len pos : Nat) (d : Digest) : Digest :=
  if hlen : pos < len then
    let room := 32 - d.curPos.val
    if hroom : room ≤ len - pos then
      let curBuf := memcpy d.curBuf (32 + d.curPos) data pos room
      let result := haraka512 aesenc d.result curBuf
      digestLoop data len (pos + room) { curBuf := result, result := curBuf, curPos := 0 }
    else
      { d with
        curBuf := memcpy d.curBuf (32 + d.curPos) data pos (len - pos)
        curPos := ⟨d.curPos + (len - pos), by omega⟩ }
  else d
termination_by len - pos
decreasing_by omega

/-- `buf2` is what the second buffer holds on entry, which is not initialised. -/
def verusHashHalf (buf2 data : Mem) (len : Nat) : Mem :=
  let d := digestLoop aesenc data len 0 { curBuf := fun _ => 0, result := buf2, curPos := 0 }
  let curBuf := memcpy d.curBuf 47 d.curBuf 0 16
  memcpy curBuf 63 curBuf 0 1

def genNewCLKeyBlock (seedBytes32 : Mem) (keyback : Nat → Vec) (i : Nat) : Nat → Vec :=
  let psrc := if i = 0 then (load128 seedBytes32 0, load128 seedBytes32 16)
    else (keyback (2 * i - 2), keyback (2 * i - 1))
  let out := haraka256 aesenc psrc
  Function.update (Function.update keyback (2 * i) out.1) (2 * i + 1) out.2

def genNewCLKey (seedBytes32 : Mem) (keyback : Nat → Vec) : Nat → Vec :=
  (List.range 276).foldl (genNewCLKeyBlock aesenc seedBytes32) keyback

def chainValue (data : Mem) : Nat → Mem
  | 0 => fun _ => 0
  | n + 1 => haraka512 aesenc (fun _ => 0) (memcpy (chainValue data n) 32 data (32 * n) 32)

/-- The 64 bytes of a digest whose last block is 15 bytes long. -/
def halfBlock (data : Mem) (n : Nat) : Mem := fun i =>
  if i < 32 then chainValue aesenc data n i
  else if i < 47 then data (32 * n + (i - 32))
  else chainValue aesenc data n ((i - 47) % 16)

def keyChain (seed : Vec × Vec) : Nat → Vec × Vec
  | 0 => haraka256 aesenc seed
  | n + 1 => haraka256 aesenc (keyChain seed n)

def generatedKey (seed : Vec × Vec) (i : Nat) : Vec :=
  if i % 2 = 0 then (keyChain aesenc seed (i / 2)).1 else (keyChain aesenc seed (i / 2)).2

end Digest

theorem chainValue_congr (aesenc : Vec → Vec → Vec) {data data' : Mem} {n : Nat}
    (h : ∀ i < 32 * n, data i = data' i) {i : Nat} (hi : i < 32) :
    chainValue aesenc data n i = chainValue aesenc data' n i := by
  induction n generalizing i with
  | zero => rfl
  | succ n ih =>
    refine haraka512Keyed_congr aesenc (fun a ha => ?_) (fun _ _ => rfl) hi
    by_cases hlt : a < 32
    · rw [memcpy_off (.inl hlt), memcpy_off (.inl hlt), ih (fun j hj => h j (by omega)) hlt]
    · rw [memcpy_within (by omega), memcpy_within (by omega), h _ (by omega)]

theorem digestLoop_block (aesenc : Vec → Vec → Vec) {data : Mem} {len pos : Nat} {d : Digest}
    (hc : d.curPos = 0) (h : pos + 32 ≤ len) :
    digestLoop aesenc data len pos d =
      digestLoop aesenc data len (pos + 32)
        { curBuf := haraka512 aesenc d.result (memcpy d.curBuf 32 data pos 32)
          result := memcpy d.curBuf 32 data pos 32
          curPos := 0 } := by
  rw [digestLoop, dif_pos (show pos < len by omega)]
  simp only [hc, Fin.val_zero, Nat.sub_zero, Nat.add_zero, dif_pos (show 32 ≤ len - pos by omega)]

/-- From the block `k` on the digest reads nothing of its buffers but the
chaining value in the current one. -/
theorem digestLoop_chain (aesenc : Vec → Vec → Vec) (data : Mem) {n k j : Nat} {d : Digest}
    (hn : n = k + j) (hc : d.curPos = 0)
    (hd : ∀ i < 32, d.curBuf i = chainValue aesenc data k i) :
    let d' := digestLoop aesenc data (32 * n + 15) (32 * k) d
    (∀ i < 32, d'.curBuf i = chainValue aesenc data n i) ∧
    ∀ i < 15, d'.curBuf (32 + i) = data (32 * n + i) := by
  induction j generalizing k d with
  | zero =>
    subst hn
    dsimp only [Nat.add_zero]
    rw [digestLoop, dif_pos (by omega)]
    simp only [hc, Fin.val_zero, Nat.sub_zero, Nat.add_zero, Nat.add_sub_cancel_left,
      dif_neg (show ¬ 32 ≤ 15 by omega)]
    exact ⟨fun i hi => by rw [memcpy_off (.inl hi), hd i hi], fun i hi => memcpy_at hi⟩
  | succ j ih =>
    dsimp only
    rw [digestLoop_block aesenc hc (by omega), show 32 * k + 32 = 32 * (k + 1) by omega]
    refine ih (by omega) rfl fun i hi => ?_
    refine haraka512Keyed_congr aesenc (fun a ha => ?_) (fun _ _ => rfl) hi
    by_cases h : a < 32
    · rw [memcpy_off (.inl h), memcpy_off (.inl h), hd a h]
    · rw [memcpy_within (by omega), memcpy_within (by omega)]

theorem verusHashHalf_eq (aesenc : Vec → Vec → Vec) (buf2 data : Mem) (n : Nat) {i : Nat}
    (hi : i < 64) :
    verusHashHalf aesenc buf2 data (32 * n + 15) i = halfBlock aesenc data n i := by
  obtain ⟨hchain, htail⟩ := digestLoop_chain aesenc data (k := 0) (Nat.zero_add n).symm
    (d := { curBuf := fun _ => 0, result := buf2, curPos := 0 }) rfl fun _ _ => rfl
  rw [Nat.mul_zero] at hchain htail
  simp only [verusHashHalf, halfBlock]
  by_cases h63 : i = 63
  · subst h63
    rw [memcpy_at (i := 0) (by omega), memcpy_off (by omega)]
    exact hchain 0 (by omega)
  rw [memcpy_off (by omega)]
  by_cases h32 : i < 32
  · rw [memcpy_off (by omega), if_pos h32]
    exact hchain i h32
  by_cases h47 : i < 47
  · rw [memcpy_off (by omega), if_neg h32, if_pos h47]
    have := htail (i - 32) (by omega)
    rwa [show 32 + (i - 32) = i by omega] at this
  · have hwrap : (i - 47) % 16 = 0 + (i - 47) := by omega
    rw [if_neg h32, if_neg h47, memcpy_within (by omega), hwrap]
    exact hchain _ (by omega)

theorem genNewCLKeyBlock_of_lt (aesenc : Vec → Vec → Vec) (seed : Mem) (keyback : Nat → Vec)
    {i a : Nat} (h : a < 2 * i) :
    genNewCLKeyBlock aesenc seed keyback i a = keyback a := by
  rw [genNewCLKeyBlock, Function.update_of_ne (by omega), Function.update_of_ne (by omega)]

theorem genNewCLKey_fold (aesenc : Vec → Vec → Vec) (seed : Mem) (keyback : Nat → Vec) (n : Nat) :
    let m := (List.range n).foldl (genNewCLKeyBlock aesenc seed) keyback
    ∀ i < 2 * n, m i = generatedKey aesenc (load128 seed 0, load128 seed 16) i := by
  induction n with
  | zero => exact fun i hi => by omega
  | succ n hin =>
    generalize hm : (List.range n).foldl (genNewCLKeyBlock aesenc seed) keyback = m at hin
    simp only [List.range_succ, List.foldl_append, List.foldl_cons, List.foldl_nil, hm]
    have hsrc : haraka256 aesenc (if n = 0 then (load128 seed 0, load128 seed 16)
        else (m (2 * n - 2), m (2 * n - 1))) =
        keyChain aesenc (load128 seed 0, load128 seed 16) n := by
      cases n with
      | zero => rfl
      | succ n =>
        rw [if_neg (by omega), hin _ (by omega), hin _ (by omega), keyChain]
        simp only [generatedKey, show (2 * (n + 1) - 2) % 2 = 0 by omega,
          show (2 * (n + 1) - 1) % 2 ≠ 0 by omega, show (2 * (n + 1) - 2) / 2 = n by omega,
          show (2 * (n + 1) - 1) / 2 = n by omega, if_true, if_false]
    intro i hi
    by_cases h : i < 2 * n
    · rw [genNewCLKeyBlock_of_lt aesenc seed m h, hin i h]
    simp only [genNewCLKeyBlock, hsrc]
    by_cases h₁ : i = 2 * n + 1
    · subst h₁
      simp only [Function.update_self, generatedKey, show (2 * n + 1) / 2 = n by omega,
        show (2 * n + 1) % 2 ≠ 0 by omega, if_false]
    · have h₀ : i = 2 * n := by omega
      subst h₀
      rw [Function.update_of_ne h₁, Function.update_self]
      simp only [generatedKey, show 2 * n / 2 = n by omega, show 2 * n % 2 = 0 by omega, if_true]

theorem genNewCLKey_at (aesenc : Vec → Vec → Vec) (seed : Mem) (keyback : Nat → Vec) {i : Nat}
    (hi : i < 552) :
    genNewCLKey aesenc seed keyback i =
      generatedKey aesenc (load128 seed 0, load128 seed 16) i :=
  genNewCLKey_fold aesenc seed keyback 276 i hi

end VerusMiner
