import VerusMiner.NonceHash

/-! The kernel with its accesses checked, statement by statement: the key, the
copied input and the log are read and written within their bounds, no division
is undefined and no loop runs on. Checked or not, it computes the same. -/

namespace VerusMiner

inductive KernelFault where
  | keyRead (i : Nat)
  | keyWrite (i : Nat)
  | pbuf (i : Int)
  | log (i : Nat)
  | packed (prandIdx prandexIdx : Word)
  | divisor (divisor : Word)
  | remainder (r : Int)
  | rounds
  deriving DecidableEq

abbrev Checked := Except KernelFault

def readKey (key : Nat → Vec) (i : Nat) : Checked Vec :=
  if i < verusKeySize128 then .ok (key i) else .error (.keyRead i)

/-- Only the mutable part of the key may be written. -/
def writeKey (key : Nat → Vec) (i : Nat) (v : Vec) : Checked (Nat → Vec) :=
  if i < 512 then .ok (Function.update key i v) else .error (.keyWrite i)

def readPbuf (pbufCopy : Nat → Vec) (i : Int) : Checked Vec :=
  if 0 ≤ i ∧ i < 4 then .ok (pbufCopy i.toNat) else .error (.pbuf i)

def writeLog {α : Type} (log : Nat → α) (i : Nat) (v : α) : Checked (Nat → α) :=
  if i < 32 then .ok (Function.update log i v) else .error (.log i)

def packTouched (prandIdx prandexIdx : Word) : Checked Word :=
  if prandIdx < 0x10000 ∧ prandexIdx < 0x10000 then .ok (prandIdx ||| (prandexIdx <<< 16))
  else .error (.packed prandIdx prandexIdx)

/-- The least dividend overflows by the divisor -1. -/
def checkedModulo (selector dividend : BitVec 64) : Checked Vec :=
  let divisor : Word := selector.setWidth 32
  if divisor = 0 ∨ divisor = -1 then .error (.divisor divisor)
  else
    let r := dividend.toInt.tmod divisor.toInt
    if -2 ^ 31 ≤ r ∧ r < 2 ^ 31 then .ok (cvtsi32Si128 (BitVec.ofInt 32 r)) else .error (.remainder r)

/-- `do … while (rounds--)`, with `fuel` iterations at most. -/
def checkedLoop {σ : Type} (round : Nat → σ → Checked σ) : Nat → Nat → σ → Checked σ
  | 0, _, _ => .error .rounds
  | fuel + 1, rounds, s => do
    let s ← round rounds s
    if rounds = 0 then return s else checkedLoop round fuel (rounds - 1) s

/-- The pointers of a step, as indices into the key and into `pbuf_copy`. -/
structure StepPtrs where
  pbufCopy : Nat → Vec
  selector : BitVec 64
  prand : Nat
  prandex : Nat

namespace StepPtrs

def pbuf (p : StepPtrs) : Int := (p.selector &&& 3).toNat

def buftmp (p : StepPtrs) : Int := p.pbuf + if p.selector &&& 1 ≠ 0 then -1 else 1

end StepPtrs

section Cases

variable (aesenc : Vec → Vec → Vec) (build : Build) (p : StepPtrs) (acc : Vec) (key : Nat → Vec)

def checkedAes2 (rc : Nat → Checked Vec) (s : Vec × Vec) (rci : Nat) : Checked (Vec × Vec) := do
  let s0 := aesenc s.1 (← rc rci)
  let s1 := aesenc s.2 (← rc (rci + 1))
  let s0 := aesenc s0 (← rc (rci + 2))
  let s1 := aesenc s1 (← rc (rci + 3))
  return (s0, s1)

def checkedCase0 : Checked (Vec × (Nat → Vec)) := do
  let temp1 ← readKey key p.prandex
  let temp2 ← readPbuf p.pbufCopy p.buftmp
  let add1 := temp1 ^^^ temp2
  let acc := clsquare add1 ^^^ acc
  let tempa1 := verusMulhrsEpi16 build acc temp1
  let tempa2 := tempa1 ^^^ temp1
  let temp12 ← readKey key p.prand
  let key ← writeKey key p.prand tempa2
  let temp22 ← readPbuf p.pbufCopy p.pbuf
  let add12 := temp12 ^^^ temp22
  let acc := clsquare add12 ^^^ acc
  let tempb1 := verusMulhrsEpi16 build acc temp12
  let tempb2 := tempb1 ^^^ temp12
  let key ← writeKey key p.prandex tempb2
  return (acc, key)

def checkedCase1 : Checked (Vec × (Nat → Vec)) := do
  let temp1 ← readKey key p.prand
  let temp2 ← readPbuf p.pbufCopy p.pbuf
  let add1 := temp1 ^^^ temp2
  let acc := clsquare add1 ^^^ acc
  let acc := clsquare temp2 ^^^ acc
  let tempa1 := verusMulhrsEpi16 build acc temp1
  let tempa2 := tempa1 ^^^ temp1
  let temp12 ← readKey key p.prandex
  let key ← writeKey key p.prandex tempa2
  let temp22 ← readPbuf p.pbufCopy p.buftmp
  let add12 := temp12 ^^^ temp22
  let acc := add12 ^^^ acc
  let tempb1 := verusMulhrsEpi16 build acc temp12
  let key ← writeKey key p.prand (tempb1 ^^^ temp12)
  return (acc, key)

def checkedCase2 : Checked (Vec × (Nat → Vec)) := do
  let temp1 ← readKey key p.prandex
  let temp2 ← readPbuf p.pbufCopy p.pbuf
  let add1 := temp1 ^^^ temp2
  let acc := add1 ^^^ acc
  let tempa1 := verusMulhrsEpi16 build acc temp1
  let tempa2 := tempa1 ^^^ temp1
  let temp12 ← readKey key p.prand
  let key ← writeKey key p.prand tempa2
  let temp22 ← readPbuf p.pbufCopy p.buftmp
  let add12 := temp12 ^^^ temp22
  let acc := clsquare add12 ^^^ acc
  let acc := clsquare temp22 ^^^ acc
  let tempb1 := verusMulhrsEpi16 build acc temp12
  let tempb2 := tempb1 ^^^ temp12
  let key ← writeKey key p.prandex tempb2
  return (acc, key)

def checkedCase3 : Checked (Vec × (Nat → Vec)) := do
  let temp1 ← readKey key p.prand
  let temp2 ← readPbuf p.pbufCopy p.buftmp
  let add1 := temp1 ^^^ temp2
  let acc := add1 ^^^ acc
  let dividend := cvtsi128Si64 acc
  let modulo ← checkedModulo p.selector dividend
  let acc := modulo ^^^ acc
  let tempa1 := verusMulhrsEpi16 build acc temp1
  let tempa2 := tempa1 ^^^ temp1
  if dividend &&& 1 ≠ 0 then
    let temp12 ← readKey key p.prandex
    let key ← writeKey key p.prandex tempa2
    let temp22 ← readPbuf p.pbufCopy p.pbuf
    let add12 := temp12 ^^^ temp22
    let acc := clsquare add12 ^^^ acc
    let acc := clsquare temp22 ^^^ acc
    let tempb1 := verusMulhrsEpi16 build acc temp12
    let tempb2 := tempb1 ^^^ temp12
    let key ← writeKey key p.prand tempb2
    return (acc, key)
  else
    let temp12 ← readKey key p.prandex
    let key ← writeKey key p.prand temp12
    let key ← writeKey key p.prandex tempa2
    let temp22 ← readPbuf p.pbufCopy p.pbuf
    return (temp22 ^^^ acc, key)

/-- The ARM build reads `prandex` first, before anything is written. -/
def checkedCase4 : Checked (Vec × (Nat → Vec)) := do
  let rc (i : Nat) := readKey key (p.prand + i)
  let temp1 ← readPbuf p.pbufCopy p.buftmp
  let temp2 ← readPbuf p.pbufCopy p.pbuf
  let t ← checkedAes2 aesenc rc (temp1, temp2) 0
  let t ← checkedAes2 aesenc rc (mix2 t) 4
  let t ← checkedAes2 aesenc rc (mix2 t) 8
  let t := mix2 t
  let acc := t.2 ^^^ (t.1 ^^^ acc)
  let tempa1 ← readKey key p.prand
  let tempa2 := verusMulhrsEpi16 build acc tempa1
  let staged ← readKey key p.prandex
  let key ← writeKey key p.prand staged
  let key ← writeKey key p.prandex (tempa1 ^^^ tempa2)
  return (acc, key)

def checkedMonkinsRound (rounds : Nat) (s : Monkins) : Checked Monkins := do
  if p.selector &&& (0x10000000 <<< rounds) ≠ 0 then
    let temp2 ← readPbuf p.pbufCopy (if rounds % 2 = 1 then p.pbuf else p.buftmp)
    let add1 := (← readKey key (p.prand + s.rc)) ^^^ temp2
    return { s with rc := s.rc + 1, acc := clsquare add1 ^^^ s.acc }
  else
    let onekey ← readKey key (p.prand + s.rc)
    let rc := s.rc + 1
    let temp2 ← readPbuf p.pbufCopy (if rounds % 2 = 1 then p.buftmp else p.pbuf)
    let t ← checkedAes2 aesenc (fun i => readKey key (p.prand + (rc + i))) (onekey, temp2)
      s.aesroundoffset
    let t := mix2 t
    return { rc := rc, aesroundoffset := s.aesroundoffset + 4, acc := t.2 ^^^ (t.1 ^^^ s.acc) }

def checkedCase5 : Checked (Vec × (Nat → Vec)) := do
  let rounds := (p.selector >>> 61).toNat
  let s ← checkedLoop (checkedMonkinsRound aesenc p key) 8 rounds
    { rc := 0, aesroundoffset := 0, acc := acc }
  let tempa1 ← readKey key p.prand
  let tempa2 := verusMulhrsEpi16 build s.acc tempa1
  let tempa3 := tempa1 ^^^ tempa2
  let tempa4 ← readKey key p.prandex
  let key ← writeKey key p.prandex tempa3
  let key ← writeKey key p.prand tempa4
  return (s.acc, key)

def checkedModuloRound (rounds : Nat) (s : ModuloLoop) : Checked ModuloLoop := do
  if p.selector &&& (0x10000000 <<< rounds) ≠ 0 then
    let temp2 ← readPbuf p.pbufCopy (if rounds % 2 = 1 then p.pbuf else p.buftmp)
    let onekey := (← readKey key (p.prand + s.rc)) ^^^ temp2
    let dividend := cvtsi128Si64 onekey
    let modulo ← checkedModulo p.selector dividend
    return { rc := s.rc + 1, acc := modulo ^^^ s.acc, onekey := onekey }
  else
    let temp2 ← readPbuf p.pbufCopy (if rounds % 2 = 1 then p.buftmp else p.pbuf)
    let add1 := (← readKey key (p.prand + s.rc)) ^^^ temp2
    let onekey := clsquare add1
    let clprod2 := verusMulhrsEpi16 build s.acc onekey
    return { rc := s.rc + 1, acc := clprod2 ^^^ s.acc, onekey := onekey }

def checkedCase6 : Checked (Vec × (Nat → Vec)) := do
  let rounds := (p.selector >>> 61).toNat
  let s ← checkedLoop (checkedModuloRound build p key) 8 rounds { rc := 0, acc := acc, onekey := 0 }
  let tempa3 ← readKey key p.prandex
  let key ← writeKey key p.prandex s.onekey
  let key ← writeKey key p.prand (tempa3 ^^^ s.acc)
  return (s.acc, key)

def checkedCase7 : Checked (Vec × (Nat → Vec)) := do
  let temp1 ← readPbuf p.pbufCopy p.pbuf
  let temp2 ← readKey key p.prandex
  let add1 := temp1 ^^^ temp2
  let acc := clsquare add1 ^^^ acc
  let tempa1 := verusMulhrsEpi16 build acc temp2
  let tempa2 := tempa1 ^^^ temp2
  let tempa3 ← readKey key p.prand
  let key ← writeKey key p.prand tempa2
  let acc := tempa3 ^^^ acc
  let temp4 ← readPbuf p.pbufCopy p.buftmp
  let acc := temp4 ^^^ acc
  let tempb1 := verusMulhrsEpi16 build acc tempa3
  let key ← writeKey key p.prandex (tempb1 ^^^ tempa3)
  return (acc, key)

def checkedCase : Checked (Vec × (Nat → Vec)) :=
  match ((p.selector >>> 2) &&& 7).toNat with
  | 0 => checkedCase0 build p acc key
  | 1 => checkedCase1 build p acc key
  | 2 => checkedCase2 build p acc key
  | 3 => checkedCase3 build p acc key
  | 4 => checkedCase4 aesenc build p acc key
  | 5 => checkedCase5 aesenc build p acc key
  | 6 => checkedCase6 build p acc key
  | _ => checkedCase7 build p acc key

end Cases

def checkedRecord (build : Build) (i : Nat) (selector : BitVec 64) (key : Nat → Vec) (log : KeyLog) :
    Checked KeyLog := do
  let prandIdx := prandIdx selector
  let prandexIdx := prandexIdx selector
  match build with
  | .arm =>
    let touched ← writeLog log.touched i (← packTouched prandIdx prandexIdx)
    return { log with touched := touched }
  | .portable =>
    let gPrand ← writeLog log.gPrand i (← readKey key prandIdx.toNat)
    let gPrandex ← writeLog log.gPrandex i (← readKey key prandexIdx.toNat)
    let fixrand ← writeLog log.fixrand i prandIdx
    let fixrandex ← writeLog log.fixrandex i prandexIdx
    return { log with
      gPrand := gPrand, gPrandex := gPrandex, fixrand := fixrand, fixrandex := fixrandex }

def stepPtrs (lane : ClhashLane) : StepPtrs :=
  let selector := cvtsi128Si64 lane.acc
  { pbufCopy := lane.pbufCopy
    selector := selector
    prand := (prandIdx selector).toNat
    prandex := (prandexIdx selector).toNat }

section Kernel

variable (aesenc : Vec → Vec → Vec) (build : Build)

def checkedStep (i : Nat) (lane : ClhashLane) (key : Nat → Vec) :
    Checked (ClhashLane × (Nat → Vec)) := do
  let log ← checkedRecord build i (cvtsi128Si64 lane.acc) key lane.log
  let r ← checkedCase aesenc build (stepPtrs lane) lane.acc key
  return ({ lane with log := log, acc := r.1 }, r.2)

def checkedSteps : Nat → ClhashLane → (Nat → Vec) → Checked (ClhashLane × (Nat → Vec))
  | 0, lane, key => .ok (lane, key)
  | n + 1, lane, key => do
    let r ← checkedSteps n lane key
    checkedStep aesenc build n r.1 r.2

def checkedVerusclhashv22 (random : Nat → Vec) (buf : Mem) (log : KeyLog) : Checked ClhashResult := do
  let acc ← readKey random (keyMask + 2).toNat
  let r ← checkedSteps aesenc build 32 { initLane random buf log with acc := acc } random
  return { hash := precompReduction64 build (r.1.acc ^^^ lengthHash), log := r.1.log, key := r.2 }

def checkedAes4 (rc : Nat → Checked Vec) (s : Quad) (rci : Nat) : Checked Quad := do
  let s0 := aesenc s.s0 (← rc rci)
  let s1 := aesenc s.s1 (← rc (rci + 1))
  let s2 := aesenc s.s2 (← rc (rci + 2))
  let s3 := aesenc s.s3 (← rc (rci + 3))
  let s0 := aesenc s0 (← rc (rci + 4))
  let s1 := aesenc s1 (← rc (rci + 5))
  let s2 := aesenc s2 (← rc (rci + 6))
  let s3 := aesenc s3 (← rc (rci + 7))
  return { s0 := s0, s1 := s1, s2 := s2, s3 := s3 }

def checkedAes4Last (rc : Nat → Checked Vec) (s : Quad) (rci : Nat) : Checked Quad := do
  let s2 := aesenc s.s2 (← rc (rci + 2))
  let s2 := aesenc s2 (← rc (rci + 6))
  return { s with s2 := s2 }

def checkedHaraka512Keyed (out input : Mem) (rc : Nat → Checked Vec) : Checked Mem := do
  let s ← checkedAes4 aesenc rc (loadQuad input) 0
  let s ← checkedAes4 aesenc rc (mix4 s) 8
  let s ← checkedAes4 aesenc rc (mix4 s) 16
  let s ← checkedAes4 aesenc rc (mix4 s) 24
  let s ← checkedAes4 aesenc rc (mix4 s) 32
  return truncstore out ((mix4 s).xor (loadQuad input))

def checkedHighword (input : Mem) (rc : Nat → Checked Vec) : Checked Word := do
  let s ← checkedAes4 aesenc rc (loadQuad input) 0
  let s ← checkedAes4 aesenc rc (mix4 s) 8
  let s ← checkedAes4 aesenc rc (mix4 s) 16
  let s ← checkedAes4 aesenc rc (mix4 s) 24
  let s ← checkedAes4Last aesenc rc (mix4Last s) 32
  return le32dec (leBytes s.s2) 8 ^^^ le32dec input 52

def checkedFinalizeHash (hash curBuf target : Mem) (highTarget : Word) (dataKey : Nat → Vec)
    (intermediate : BitVec 64) : Checked Finalized := do
  let curBuf := store128 curBuf (32 + 16) (fill2 build intermediate)
  let curBuf := Function.update curBuf (32 + 15) (leBytes intermediate 0)
  let key (i : Nat) := readKey dataKey ((intermediate &&& 511).toNat + i)
  let highword ← checkedHighword aesenc curBuf key
  if highword ≤ highTarget then
    let hash ← checkedHaraka512Keyed aesenc hash curBuf key
    return { valid := fulltest hash target, hash := hash, curBuf := curBuf }
  else return { valid := false, hash := hash, curBuf := curBuf }

end Kernel

theorem readKey_ok {key : Nat → Vec} {i : Nat} (hi : i < 552) : readKey key i = .ok (key i) := if_pos hi

theorem writeKey_ok {key : Nat → Vec} {i : Nat} (v : Vec) (hi : i < 512) :
    writeKey key i v = .ok (Function.update key i v) := if_pos hi

theorem writeLog_ok {α : Type} (log : Nat → α) {i : Nat} (v : α) (hi : i < 32) :
    writeLog log i v = .ok (Function.update log i v) := if_pos hi

theorem packTouched_ok (selector : BitVec 64) :
    packTouched (prandIdx selector) (prandexIdx selector) =
      .ok (prandIdx selector ||| (prandexIdx selector <<< 16)) := by
  have h₁ := prandIdx_lt selector
  have h₂ := prandexIdx_lt selector
  refine if_pos ⟨?_, ?_⟩ <;> rw [BitVec.lt_def]
  · exact h₁.trans (by decide)
  · exact h₂.trans (by decide)

/-- The bits that select the two modulo cases leave a low half that is neither
0 nor all ones. -/
theorem divisor_ne (selector : BitVec 64) (h0 : ((selector >>> 2) &&& 7).toNat ≠ 0)
    (h7 : ((selector >>> 2) &&& 7).toNat ≠ 7) :
    (selector.setWidth 32 : Word) ≠ 0 ∧ (selector.setWidth 32 : Word) ≠ -1 := by
  have hcase : ((selector >>> 2) &&& 7).toNat = selector.toNat / 4 % 8 := by
    rw [toNat_and_low 3 rfl, BitVec.toNat_ushiftRight, Nat.shiftRight_eq_div_pow]
    rfl
  rw [hcase] at h0 h7
  constructor <;> intro hd <;> have hn := congrArg BitVec.toNat hd
  · have hzero : (0 : Word).toNat = 0 := rfl
    rw [BitVec.toNat_setWidth, hzero] at hn
    omega
  · have hones : (-1 : Word).toNat = 2 ^ 32 - 1 := rfl
    rw [BitVec.toNat_setWidth, hones] at hn
    omega

theorem checkedModulo_ok {selector : BitVec 64} (dividend : BitVec 64)
    (hdivisor : (selector.setWidth 32 : Word) ≠ 0 ∧ (selector.setWidth 32 : Word) ≠ -1) :
    checkedModulo selector dividend = .ok (selectorModulo selector dividend) := by
  have hne : (selector.setWidth 32 : Word).toInt ≠ 0 := fun h => hdivisor.1 (BitVec.eq_of_toInt_eq h)
  have hlow := BitVec.le_toInt (selector.setWidth 32 : Word)
  have hhigh := BitVec.toInt_lt (x := (selector.setWidth 32 : Word))
  rw [checkedModulo, if_neg (not_or.mpr hdivisor)]
  refine if_pos ?_
  generalize (selector.setWidth 32 : Word).toInt = d at hne hlow hhigh ⊢
  have hlt : (dividend.toInt.tmod d).natAbs < d.natAbs := by
    rw [Int.natAbs_tmod]
    exact Nat.mod_lt _ (Int.natAbs_pos.mpr hne)
  omega

/-- What the pointers of a step give access to: a run of the key from `prand`
on, the vector at `prandex`, and the two input vectors. -/
structure StepPtrs.Sees (p : StepPtrs) (key : Nat → Vec) (v : StepView) : Prop where
  selector : p.selector = v.selector
  run : ∀ j < 41, readKey key (p.prand + j) = .ok (v.prand j)
  prandex : readKey key p.prandex = .ok v.prandex
  pbuf : readPbuf p.pbufCopy p.pbuf = .ok v.pbuf
  buftmp : readPbuf p.pbufCopy p.buftmp = .ok v.pbufAlt
  writePrand : ∀ m x, writeKey m p.prand x = .ok (Function.update m (slotAddr v.selector .prand) x)
  writePrandex : ∀ m x,
    writeKey m p.prandex x = .ok (Function.update m (slotAddr v.selector .prandex) x)

theorem readPbuf_ok (pbufCopy : Nat → Vec) (selector : BitVec 64) :
    let pbuf := (selector &&& 3).toNat
    readPbuf pbufCopy (pbuf : Int) = .ok (pbufCopy pbuf) ∧
    readPbuf pbufCopy (pbuf + if selector &&& 1 ≠ 0 then -1 else 1) =
      .ok (pbufCopy (if selector &&& 1 ≠ 0 then pbuf - 1 else pbuf + 1)) := by
  have hthree : (selector &&& 3).toNat = selector.toNat % 4 := toNat_and_low 2 rfl
  have hone : selector &&& 1 = 0 ↔ selector.toNat % 2 = 0 := by
    rw [← BitVec.toNat_inj, toNat_and_low 1 rfl]
    rfl
  dsimp only
  rw [hthree]
  refine ⟨if_pos ⟨by omega, by omega⟩, ?_⟩
  by_cases h : selector &&& 1 = 0
  · rw [if_neg (not_not.mpr h), if_neg (not_not.mpr h)]
    have heven := hone.mp h
    exact if_pos ⟨by omega, by omega⟩
  · have hodd : selector.toNat % 2 ≠ 0 := fun he => h (hone.mpr he)
    have hpred : ((selector.toNat % 4 : Nat) : Int) + -1 = (selector.toNat % 4 - 1 : Nat) := by omega
    rw [if_pos h, if_pos h, hpred]
    exact if_pos ⟨by omega, by omega⟩

theorem stepPtrs_sees (lane : ClhashLane) (key : Nat → Vec) :
    (stepPtrs lane).Sees key (stepView lane key) := by
  have h₁ := prandIdx_lt (cvtsi128Si64 lane.acc)
  have h₂ := prandexIdx_lt (cvtsi128Si64 lane.acc)
  obtain ⟨hpbuf, hbuftmp⟩ := readPbuf_ok lane.pbufCopy (cvtsi128Si64 lane.acc)
  exact
    { selector := rfl
      run := fun j hj => readKey_ok (by dsimp only [stepPtrs]; omega)
      prandex := readKey_ok (by dsimp only [stepPtrs]; omega)
      pbuf := hpbuf
      buftmp := hbuftmp
      writePrand := fun m x => writeKey_ok x h₁
      writePrandex := fun m x => writeKey_ok x h₂ }

def StepOut.result (out : StepOut) (selector : BitVec 64) (key : Nat → Vec) : Vec × (Nat → Vec) :=
  (out.acc, storeSlots selector out.stores key)

section Agreement

variable (aesenc : Vec → Vec → Vec) (build : Build) {p : StepPtrs} {key : Nat → Vec} {v : StepView}

theorem StepPtrs.Sees.prand (h : p.Sees key v) : readKey key p.prand = .ok (v.prand 0) :=
  h.run 0 (by omega)

theorem checkedCase0_eq (h : p.Sees key v) :
    checkedCase0 build p v.acc key = .ok ((clhashCase0 build v).result v.selector key) := by
  simp only [checkedCase0, h.prand, h.prandex, h.pbuf, h.buftmp, h.writePrand, h.writePrandex, bind,
    Except.bind, pure, Except.pure]
  rfl

theorem checkedCase1_eq (h : p.Sees key v) :
    checkedCase1 build p v.acc key = .ok ((clhashCase1 build v).result v.selector key) := by
  simp only [checkedCase1, h.prand, h.prandex, h.pbuf, h.buftmp, h.writePrand, h.writePrandex, bind,
    Except.bind, pure, Except.pure]
  rfl

theorem checkedCase2_eq (h : p.Sees key v) :
    checkedCase2 build p v.acc key = .ok ((clhashCase2 build v).result v.selector key) := by
  simp only [checkedCase2, h.prand, h.prandex, h.pbuf, h.buftmp, h.writePrand, h.writePrandex, bind,
    Except.bind, pure, Except.pure]
  rfl

theorem checkedCase3_eq (h : p.Sees key v)
    (hdivisor : (v.selector.setWidth 32 : Word) ≠ 0 ∧ (v.selector.setWidth 32 : Word) ≠ -1) :
    checkedCase3 build p v.acc key = .ok ((clhashCase3 build v).result v.selector key) := by
  simp only [checkedCase3, clhashCase3, h.prand, h.prandex, h.pbuf, h.buftmp, h.writePrand,
    h.writePrandex, h.selector, checkedModulo_ok _ hdivisor, bind, Except.bind, pure, Except.pure]
  split_ifs <;> rfl

theorem checkedCase7_eq (h : p.Sees key v) :
    checkedCase7 build p v.acc key = .ok ((clhashCase7 build v).result v.selector key) := by
  simp only [checkedCase7, h.prand, h.prandex, h.pbuf, h.buftmp, h.writePrand, h.writePrandex, bind,
    Except.bind, pure, Except.pure]
  rfl

theorem checkedAes2_ok {rc : Nat → Checked Vec} {rc' : Nat → Vec} (s : Vec × Vec) {rci : Nat}
    (h : ∀ j < 4, rc (rci + j) = .ok (rc' (rci + j))) :
    checkedAes2 aesenc rc s rci = .ok (aes2 aesenc rc' s rci) := by
  have h0 : rc rci = .ok (rc' rci) := h 0 (by omega)
  simp only [checkedAes2, h0, h 1 (by omega), h 2 (by omega), h 3 (by omega), bind, Except.bind, pure,
    Except.pure]
  rfl

theorem checkedCase4_eq (h : p.Sees key v) :
    checkedCase4 aesenc build p v.acc key = .ok ((clhashCase4 aesenc build v).result v.selector key) := by
  have haes (s : Vec × Vec) (rci : Nat) (hrci : rci ≤ 8) :
      checkedAes2 aesenc (fun i => readKey key (p.prand + i)) s rci = .ok (aes2 aesenc v.prand s rci) :=
    checkedAes2_ok aesenc s fun j hj => h.run _ (by omega)
  simp only [checkedCase4, haes _ 0 (by omega), haes _ 4 (by omega), haes _ 8 (by omega), h.prand,
    h.prandex, h.pbuf, h.buftmp, h.writePrand, h.writePrandex, bind, Except.bind, pure, Except.pure]
  rfl

/-- A checked loop whose rounds agree with those of `loop` while `I` holds
agrees with it, and needs one iteration more than it counts rounds. -/
theorem checkedLoop_eq {σ : Type} {round : Nat → σ → Checked σ} {I : Nat → σ → Prop}
    (f loop : Nat → σ → σ) (hzero : ∀ s, loop 0 s = f 0 s)
    (hsucc : ∀ r s, loop (r + 1) s = loop r (f (r + 1) s))
    (hround : ∀ r s, I r s → round r s = .ok (f r s)) (hI : ∀ r s, I (r + 1) s → I r (f (r + 1) s))
    {fuel rounds : Nat} {s : σ} (hfuel : rounds < fuel) (hs : I rounds s) :
    checkedLoop round fuel rounds s = .ok (loop rounds s) := by
  induction fuel generalizing rounds s with
  | zero => omega
  | succ fuel ih =>
    rw [checkedLoop, hround rounds s hs]
    cases rounds with
    | zero =>
      rw [hzero]
      rfl
    | succ rounds =>
      rw [hsucc]
      exact ih (by omega) (hI rounds s hs)

theorem readPbuf_parity (h : p.Sees key v) (rounds : Nat) :
    readPbuf p.pbufCopy (if rounds % 2 = 1 then p.pbuf else p.buftmp) =
      .ok (if rounds % 2 = 1 then v.pbuf else v.pbufAlt) ∧
    readPbuf p.pbufCopy (if rounds % 2 = 1 then p.buftmp else p.pbuf) =
      .ok (if rounds % 2 = 1 then v.pbufAlt else v.pbuf) := by
  split_ifs
  · exact ⟨h.pbuf, h.buftmp⟩
  · exact ⟨h.buftmp, h.pbuf⟩

theorem checkedMonkinsRound_eq (h : p.Sees key v) {rounds : Nat} {s : Monkins}
    (hs : s.rc + s.aesroundoffset < 36) :
    checkedMonkinsRound aesenc p key rounds s = .ok (monkinsRound aesenc v rounds s) := by
  obtain ⟨hodd, heven⟩ := readPbuf_parity h rounds
  have haes (t : Vec × Vec) : checkedAes2 aesenc (fun i => readKey key (p.prand + (s.rc + 1 + i))) t
      s.aesroundoffset = .ok (aes2 aesenc (window (s.rc + 1) v.prand) t s.aesroundoffset) :=
    checkedAes2_ok aesenc t fun j hj => h.run _ (by omega)
  simp only [checkedMonkinsRound, monkinsRound, h.selector, h.run s.rc (by omega), hodd, heven, haes,
    bind, Except.bind, pure, Except.pure]
  split_ifs <;> rfl

theorem checkedCase5_eq (h : p.Sees key v) :
    checkedCase5 aesenc build p v.acc key = .ok ((clhashCase5 aesenc build v).result v.selector key) := by
  have hrounds := selector_shift_lt v.selector
  have hloop : checkedLoop (checkedMonkinsRound aesenc p key) 8 (v.selector >>> 61).toNat
      { rc := 0, aesroundoffset := 0, acc := v.acc } =
      .ok (monkinsLoop aesenc v (v.selector >>> 61).toNat
        { rc := 0, aesroundoffset := 0, acc := v.acc }) := by
    -- The cursor and the offset grow by 5 a round at most.
    let I (rounds : Nat) (s : Monkins) := s.rc + s.aesroundoffset + 5 * rounds < 36
    have hI (r : Nat) (s : Monkins) (hs : I (r + 1) s) : I r (monkinsRound aesenc v (r + 1) s) := by
      have hb := monkinsRound_bounds aesenc v (r + 1) s
      dsimp only [I] at hs ⊢
      omega
    have hround (r : Nat) (s : Monkins) (hs : I r s) :
        checkedMonkinsRound aesenc p key r s = .ok (monkinsRound aesenc v r s) := by
      dsimp only [I] at hs
      exact checkedMonkinsRound_eq aesenc h (by omega)
    refine checkedLoop_eq (monkinsRound aesenc v) (monkinsLoop aesenc v) (fun _ => rfl)
      (fun _ _ => rfl) hround hI hrounds ?_
    dsimp only [I]
    omega
  simp only [checkedCase5, h.selector, hloop, h.prand, h.prandex, h.writePrand, h.writePrandex, bind,
    Except.bind, pure, Except.pure]
  rfl

theorem checkedModuloRound_eq (h : p.Sees key v)
    (hdivisor : (v.selector.setWidth 32 : Word) ≠ 0 ∧ (v.selector.setWidth 32 : Word) ≠ -1)
    {rounds : Nat} {s : ModuloLoop} (hs : s.rc < 41) :
    checkedModuloRound build p key rounds s = .ok (moduloRound build v rounds s) := by
  obtain ⟨hodd, heven⟩ := readPbuf_parity h rounds
  simp only [checkedModuloRound, moduloRound, h.selector, h.run s.rc hs, hodd, heven,
    checkedModulo_ok _ hdivisor, bind, Except.bind, pure, Except.pure]
  split_ifs <;> rfl

theorem checkedCase6_eq (h : p.Sees key v)
    (hdivisor : (v.selector.setWidth 32 : Word) ≠ 0 ∧ (v.selector.setWidth 32 : Word) ≠ -1) :
    checkedCase6 build p v.acc key = .ok ((clhashCase6 build v).result v.selector key) := by
  have hrounds := selector_shift_lt v.selector
  have hloop : checkedLoop (checkedModuloRound build p key) 8 (v.selector >>> 61).toNat
      { rc := 0, acc := v.acc, onekey := 0 } =
      .ok (moduloLoop build v (v.selector >>> 61).toNat { rc := 0, acc := v.acc, onekey := 0 }) := by
    let I (rounds : Nat) (s : ModuloLoop) := s.rc + rounds < 41
    have hI (r : Nat) (s : ModuloLoop) (hs : I (r + 1) s) : I r (moduloRound build v (r + 1) s) := by
      have hb := moduloRound_rc build v (r + 1) s
      dsimp only [I] at hs ⊢
      omega
    have hround (r : Nat) (s : ModuloLoop) (hs : I r s) :
        checkedModuloRound build p key r s = .ok (moduloRound build v r s) := by
      dsimp only [I] at hs
      exact checkedModuloRound_eq build h hdivisor (by omega)
    refine checkedLoop_eq (moduloRound build v) (moduloLoop build v) (fun _ => rfl) (fun _ _ => rfl)
      hround hI hrounds ?_
    dsimp only [I]
    omega
  simp only [checkedCase6, h.selector, hloop, h.prandex, h.writePrand, h.writePrandex, bind,
    Except.bind, pure, Except.pure]
  rfl

theorem checkedCase_eq (h : p.Sees key v) :
    checkedCase aesenc build p v.acc key = .ok ((clhashCase aesenc build v).result v.selector key) := by
  have hdivisor := divisor_ne v.selector
  rw [checkedCase, clhashCase, h.selector]
  generalize ((v.selector >>> 2) &&& 7).toNat = c at hdivisor ⊢
  match c, hdivisor with
  | 0, _ => exact checkedCase0_eq build h
  | 1, _ => exact checkedCase1_eq build h
  | 2, _ => exact checkedCase2_eq build h
  | 3, hdivisor => exact checkedCase3_eq build h (hdivisor (by omega) (by omega))
  | 4, _ => exact checkedCase4_eq aesenc build h
  | 5, _ => exact checkedCase5_eq aesenc build h
  | 6, hdivisor => exact checkedCase6_eq build h (hdivisor (by omega) (by omega))
  | _ + 7, _ => exact checkedCase7_eq build h

theorem checkedRecord_eq {i : Nat} (hi : i < 32) (selector : BitVec 64) (key : Nat → Vec) (log : KeyLog) :
    checkedRecord build i selector key log = .ok (log.record build i selector key) := by
  have h₁ := prandIdx_lt selector
  have h₂ := prandexIdx_lt selector
  cases build with
  | arm =>
    simp only [checkedRecord, packTouched_ok, writeLog_ok _ _ hi, bind, Except.bind, pure, Except.pure]
    rfl
  | portable =>
    simp only [checkedRecord, readKey_ok (show (prandIdx selector).toNat < 552 by omega),
      readKey_ok (show (prandexIdx selector).toNat < 552 by omega), writeLog_ok _ _ hi, bind,
      Except.bind, pure, Except.pure]
    rfl

theorem checkedStep_eq {i : Nat} (hi : i < 32) (lane : ClhashLane) (key : Nat → Vec) :
    checkedStep aesenc build i lane key = .ok (clhashStep aesenc build i lane key) := by
  have hcase := checkedCase_eq aesenc build (stepPtrs_sees lane key)
  simp only [checkedStep, checkedRecord_eq build hi, bind, Except.bind, pure, Except.pure]
  rw [show lane.acc = (stepView lane key).acc from rfl, hcase]
  rfl

theorem checkedSteps_eq {n : Nat} (hn : n ≤ 32) (lane : ClhashLane) (key : Nat → Vec) :
    checkedSteps aesenc build n lane key = .ok (runSteps (clhashStep aesenc build) n lane key) := by
  induction n with
  | zero => rfl
  | succ n ih =>
    simp only [checkedSteps, ih (by omega), bind, Except.bind]
    exact checkedStep_eq aesenc build hn _ _

theorem checkedVerusclhashv22_eq (random : Nat → Vec) (buf : Mem) (log : KeyLog) :
    checkedVerusclhashv22 aesenc build random buf log = .ok (verusclhashv22 aesenc build random buf log) := by
  have hacc : readKey random (keyMask + 2).toNat = .ok (initLane random buf log).acc :=
    readKey_ok (by decide)
  simp only [checkedVerusclhashv22, hacc, bind, Except.bind,
    checkedSteps_eq aesenc build (Nat.le_refl 32)]
  rfl

theorem checkedAes4_ok {rc : Nat → Checked Vec} {rc' : Nat → Vec} (h : ∀ j < 40, rc j = .ok (rc' j))
    (s : Quad) {rci : Nat} (hrci : rci ≤ 32) :
    checkedAes4 aesenc rc s rci = .ok (aes4 aesenc rc' s rci) := by
  simp only [checkedAes4, h rci (by omega), h (rci + 1) (by omega), h (rci + 2) (by omega),
    h (rci + 3) (by omega), h (rci + 4) (by omega), h (rci + 5) (by omega), h (rci + 6) (by omega),
    h (rci + 7) (by omega), bind, Except.bind, pure, Except.pure]
  rfl

theorem checkedHaraka512Keyed_eq {rc : Nat → Checked Vec} {rc' : Nat → Vec}
    (h : ∀ j < 40, rc j = .ok (rc' j)) (out input : Mem) :
    checkedHaraka512Keyed aesenc out input rc = .ok (haraka512Keyed aesenc out input rc') := by
  simp only [checkedHaraka512Keyed, checkedAes4_ok aesenc h _ (show 0 ≤ 32 by omega),
    checkedAes4_ok aesenc h _ (show 8 ≤ 32 by omega), checkedAes4_ok aesenc h _ (show 16 ≤ 32 by omega),
    checkedAes4_ok aesenc h _ (show 24 ≤ 32 by omega), checkedAes4_ok aesenc h _ (Nat.le_refl 32), bind,
    Except.bind, pure, Except.pure]
  rfl

theorem checkedHighword_eq {rc : Nat → Checked Vec} {rc' : Nat → Vec}
    (h : ∀ j < 40, rc j = .ok (rc' j)) (input : Mem) :
    checkedHighword aesenc input rc = .ok (haraka512KeyedHighword aesenc input rc') := by
  have hlast (s : Quad) : checkedAes4Last aesenc rc s 32 = .ok (aes4Last aesenc rc' s 32) := by
    simp only [checkedAes4Last, h (32 + 2) (by omega), h (32 + 6) (by omega), bind, Except.bind, pure,
      Except.pure]
    rfl
  simp only [checkedHighword, checkedAes4_ok aesenc h _ (show 0 ≤ 32 by omega),
    checkedAes4_ok aesenc h _ (show 8 ≤ 32 by omega), checkedAes4_ok aesenc h _ (show 16 ≤ 32 by omega),
    checkedAes4_ok aesenc h _ (show 24 ≤ 32 by omega), hlast, bind, Except.bind, pure, Except.pure]
  rfl

theorem checkedFinalizeHash_eq (hash curBuf target : Mem) (highTarget : Word) (dataKey : Nat → Vec)
    (intermediate : BitVec 64) :
    checkedFinalizeHash aesenc build hash curBuf target highTarget dataKey intermediate =
      .ok (finalizeHash aesenc build hash curBuf target highTarget dataKey intermediate) := by
  have hidx := intermediate_lt intermediate
  have hkey (j : Nat) (hj : j < 40) : readKey dataKey ((intermediate &&& 511).toNat + j) =
      .ok (window (intermediate &&& 511).toNat dataKey j) := readKey_ok (by omega)
  simp only [checkedFinalizeHash, checkedHighword_eq aesenc hkey, checkedHaraka512Keyed_eq aesenc hkey,
    bind, Except.bind, pure, Except.pure, finalizeHash]
  split_ifs <;> rfl

end Agreement

/-- The kernel and the final permutation meet no fault, from any key and any
input, and the key is left as it was from vector 512 on. -/
theorem kernel_wellDefined (aesenc : Vec → Vec → Vec) (build : Build) (key : Nat → Vec) (buf : Mem)
    (log : KeyLog) :
    let r := verusclhashv22 aesenc build key buf log
    checkedVerusclhashv22 aesenc build key buf log = .ok r ∧ (∀ i, 512 ≤ i → r.key i = key i) ∧
    ∀ hash target highTarget,
      checkedFinalizeHash aesenc build hash buf target highTarget r.key r.hash =
        .ok (finalizeHash aesenc build hash buf target highTarget r.key r.hash) := by
  refine ⟨checkedVerusclhashv22_eq aesenc build key buf log, fun i hi => ?_, ?_⟩
  · exact verusclhashv22_off aesenc build key buf log hi
  · exact fun hash target highTarget =>
      checkedFinalizeHash_eq aesenc build hash buf target highTarget _ _

end VerusMiner
