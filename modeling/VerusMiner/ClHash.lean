import VerusMiner.Haraka
import VerusMiner.Lib.Lanes

/-! The CLHash kernel: 32 steps of eight kinds, each of which mutates two
vectors of the key and logs which ones so that they can be put back. -/

namespace VerusMiner

def verusKeySize128 : Nat := 552

/-- Every call passes this literal mask. -/
def keyMask : BitVec 64 := 511

def precompReduction64Si128 (build : Build) (A : Vec) : Vec :=
  let C := cvtsi64Si128 ((1 <<< 4) + (1 <<< 3) + (1 <<< 1) + (1 <<< 0))
  let Q2 := clmulepi64Si128 A C 0x01
  let Q2High := match build with
    | .arm => vextqU8 Q2 0 8
    | .portable => srliSi128 Q2 8
  let Q3 := shuffleEpi8
    (setrEpi8 [0, 27, 54, 45, 108, 119, 90, 65, 216, 195, 238, 245, 180, 175, 130, 153]) Q2High
  let Q4 := Q2 ^^^ A
  Q3 ^^^ Q4

def precompReduction64 (build : Build) (A : Vec) : BitVec 64 :=
  cvtsi128Si64 (precompReduction64Si128 build A)

/-- The log a lane writes: `touched` on ARM, the four other arrays elsewhere. -/
structure KeyLog where
  touched : Nat → Word
  fixrand : Nat → Word
  fixrandex : Nat → Word
  gPrand : Nat → Vec
  gPrandex : Nat → Vec

structure ClhashLane where
  log : KeyLog
  pbufCopy : Nat → Vec
  acc : Vec

def initLane (key : Nat → Vec) (buf : Mem) (log : KeyLog) : ClhashLane where
  log := log
  pbufCopy := fun k =>
    [load128 buf 0 ^^^ load128 buf 32, load128 buf 16 ^^^ load128 buf 48,
      load128 buf 32, load128 buf 48].getD k 0
  acc := key (keyMask + 2).toNat

/-- What a step reads: the vectors from `prand` on (also through `rc`), the
vector at `prandex`, and the two input vectors the selector picks. -/
structure StepView where
  selector : BitVec 64
  acc : Vec
  prand : Nat → Vec
  prandex : Vec
  pbuf : Vec
  pbufAlt : Vec

inductive Slot where
  | prand
  | prandex
  deriving DecidableEq

/-- The accumulator after a step and its stores in program order. In every
kind of step the loads from the key come before the stores. -/
structure StepOut where
  acc : Vec
  stores : List (Slot × Vec)

def clsquare (a : Vec) : Vec := clmulepi64Si128 a a 0x10

/-- The signed remainder by the low half of the selector, in the low lane. -/
def selectorModulo (selector dividend : BitVec 64) : Vec :=
  let divisor : Word := selector.setWidth 32
  cvtsi32Si128 (BitVec.ofInt 32 (dividend.toInt.tmod divisor.toInt))

section Steps

variable (aesenc : Vec → Vec → Vec) (build : Build)

def clhashCase0 (v : StepView) : StepOut :=
  let temp1 := v.prandex
  let temp2 := v.pbufAlt
  let add1 := temp1 ^^^ temp2
  let acc := clsquare add1 ^^^ v.acc
  let tempa1 := verusMulhrsEpi16 build acc temp1
  let tempa2 := tempa1 ^^^ temp1
  let temp12 := v.prand 0
  let temp22 := v.pbuf
  let add12 := temp12 ^^^ temp22
  let acc := clsquare add12 ^^^ acc
  let tempb1 := verusMulhrsEpi16 build acc temp12
  let tempb2 := tempb1 ^^^ temp12
  { acc := acc, stores := [(.prand, tempa2), (.prandex, tempb2)] }

def clhashCase1 (v : StepView) : StepOut :=
  let temp1 := v.prand 0
  let temp2 := v.pbuf
  let add1 := temp1 ^^^ temp2
  let acc := clsquare add1 ^^^ v.acc
  let acc := clsquare temp2 ^^^ acc
  let tempa1 := verusMulhrsEpi16 build acc temp1
  let tempa2 := tempa1 ^^^ temp1
  let temp12 := v.prandex
  let temp22 := v.pbufAlt
  let add12 := temp12 ^^^ temp22
  let acc := add12 ^^^ acc
  let tempb1 := verusMulhrsEpi16 build acc temp12
  { acc := acc, stores := [(.prandex, tempa2), (.prand, tempb1 ^^^ temp12)] }

def clhashCase2 (v : StepView) : StepOut :=
  let temp1 := v.prandex
  let temp2 := v.pbuf
  let add1 := temp1 ^^^ temp2
  let acc := add1 ^^^ v.acc
  let tempa1 := verusMulhrsEpi16 build acc temp1
  let tempa2 := tempa1 ^^^ temp1
  let temp12 := v.prand 0
  let temp22 := v.pbufAlt
  let add12 := temp12 ^^^ temp22
  let acc := clsquare add12 ^^^ acc
  let acc := clsquare temp22 ^^^ acc
  let tempb1 := verusMulhrsEpi16 build acc temp12
  let tempb2 := tempb1 ^^^ temp12
  { acc := acc, stores := [(.prand, tempa2), (.prandex, tempb2)] }

def clhashCase3 (v : StepView) : StepOut :=
  let temp1 := v.prand 0
  let temp2 := v.pbufAlt
  let add1 := temp1 ^^^ temp2
  let acc := add1 ^^^ v.acc
  let dividend := cvtsi128Si64 acc
  let acc := selectorModulo v.selector dividend ^^^ acc
  let tempa1 := verusMulhrsEpi16 build acc temp1
  let tempa2 := tempa1 ^^^ temp1
  if dividend &&& 1 ≠ 0 then
    let temp12 := v.prandex
    let temp22 := v.pbuf
    let add12 := temp12 ^^^ temp22
    let acc := clsquare add12 ^^^ acc
    let acc := clsquare temp22 ^^^ acc
    let tempb1 := verusMulhrsEpi16 build acc temp12
    let tempb2 := tempb1 ^^^ temp12
    { acc := acc, stores := [(.prandex, tempa2), (.prand, tempb2)] }
  else
    { acc := v.pbuf ^^^ acc, stores := [(.prand, v.prandex), (.prandex, tempa2)] }

def clhashCase4 (v : StepView) : StepOut :=
  let t := mix2 (aes2 aesenc v.prand (v.pbufAlt, v.pbuf) 0)
  let t := mix2 (aes2 aesenc v.prand t 4)
  let t := mix2 (aes2 aesenc v.prand t 8)
  let acc := t.2 ^^^ (t.1 ^^^ v.acc)
  let tempa1 := v.prand 0
  let tempa2 := verusMulhrsEpi16 build acc tempa1
  { acc := acc, stores := [(.prand, v.prandex), (.prandex, tempa1 ^^^ tempa2)] }

structure Monkins where
  rc : Nat
  aesroundoffset : Nat
  acc : Vec

def monkinsRound (v : StepView) (rounds : Nat) (s : Monkins) : Monkins :=
  if v.selector &&& (0x10000000 <<< rounds) ≠ 0 then
    let temp2 := if rounds % 2 = 1 then v.pbuf else v.pbufAlt
    let add1 := v.prand s.rc ^^^ temp2
    { s with rc := s.rc + 1, acc := clsquare add1 ^^^ s.acc }
  else
    let onekey := v.prand s.rc
    let rc := s.rc + 1
    let temp2 := if rounds % 2 = 1 then v.pbufAlt else v.pbuf
    let t := mix2 (aes2 aesenc (window rc v.prand) (onekey, temp2) s.aesroundoffset)
    { rc := rc, aesroundoffset := s.aesroundoffset + 4, acc := t.2 ^^^ (t.1 ^^^ s.acc) }

/-- `do … while (rounds--)`. -/
def monkinsLoop (v : StepView) : Nat → Monkins → Monkins
  | 0, s => monkinsRound aesenc v 0 s
  | rounds + 1, s => monkinsLoop v rounds (monkinsRound aesenc v (rounds + 1) s)

def clhashCase5 (v : StepView) : StepOut :=
  let rounds := (v.selector >>> 61).toNat
  let s := monkinsLoop aesenc v rounds { rc := 0, aesroundoffset := 0, acc := v.acc }
  let tempa1 := v.prand 0
  let tempa2 := verusMulhrsEpi16 build s.acc tempa1
  let tempa3 := tempa1 ^^^ tempa2
  let tempa4 := v.prandex
  { acc := s.acc, stores := [(.prandex, tempa3), (.prand, tempa4)] }

structure ModuloLoop where
  rc : Nat
  acc : Vec
  onekey : Vec

def moduloRound (v : StepView) (rounds : Nat) (s : ModuloLoop) : ModuloLoop :=
  if v.selector &&& (0x10000000 <<< rounds) ≠ 0 then
    let temp2 := if rounds % 2 = 1 then v.pbuf else v.pbufAlt
    let onekey := v.prand s.rc ^^^ temp2
    let dividend := cvtsi128Si64 onekey
    { rc := s.rc + 1, acc := selectorModulo v.selector dividend ^^^ s.acc, onekey := onekey }
  else
    let temp2 := if rounds % 2 = 1 then v.pbufAlt else v.pbuf
    let add1 := v.prand s.rc ^^^ temp2
    let onekey := clsquare add1
    let clprod2 := verusMulhrsEpi16 build s.acc onekey
    { rc := s.rc + 1, acc := clprod2 ^^^ s.acc, onekey := onekey }

def moduloLoop (v : StepView) : Nat → ModuloLoop → ModuloLoop
  | 0, s => moduloRound build v 0 s
  | rounds + 1, s => moduloLoop v rounds (moduloRound build v (rounds + 1) s)

def clhashCase6 (v : StepView) : StepOut :=
  let rounds := (v.selector >>> 61).toNat
  let s := moduloLoop build v rounds { rc := 0, acc := v.acc, onekey := 0 }
  let tempa3 := v.prandex
  { acc := s.acc, stores := [(.prandex, s.onekey), (.prand, tempa3 ^^^ s.acc)] }

def clhashCase7 (v : StepView) : StepOut :=
  let temp1 := v.pbuf
  let temp2 := v.prandex
  let add1 := temp1 ^^^ temp2
  let acc := clsquare add1 ^^^ v.acc
  let tempa1 := verusMulhrsEpi16 build acc temp2
  let tempa2 := tempa1 ^^^ temp2
  let tempa3 := v.prand 0
  let acc := tempa3 ^^^ acc
  let temp4 := v.pbufAlt
  let acc := temp4 ^^^ acc
  let tempb1 := verusMulhrsEpi16 build acc tempa3
  { acc := acc, stores := [(.prand, tempa2), (.prandex, tempb1 ^^^ tempa3)] }

def clhashCase (v : StepView) : StepOut :=
  match ((v.selector >>> 2) &&& 7).toNat with
  | 0 => clhashCase0 build v
  | 1 => clhashCase1 build v
  | 2 => clhashCase2 build v
  | 3 => clhashCase3 build v
  | 4 => clhashCase4 aesenc build v
  | 5 => clhashCase5 aesenc build v
  | 6 => clhashCase6 build v
  | _ => clhashCase7 build v

end Steps

def prandIdx (selector : BitVec 64) : Word := ((selector >>> 5) &&& keyMask).setWidth 32

def prandexIdx (selector : BitVec 64) : Word := ((selector >>> 32) &&& keyMask).setWidth 32

def stepView (lane : ClhashLane) (key : Nat → Vec) : StepView :=
  let selector := cvtsi128Si64 lane.acc
  let pbuf := (selector &&& 3).toNat
  { selector := selector
    acc := lane.acc
    prand := window (prandIdx selector).toNat key
    prandex := key (prandexIdx selector).toNat
    pbuf := lane.pbufCopy pbuf
    pbufAlt := lane.pbufCopy (if selector &&& 1 ≠ 0 then pbuf - 1 else pbuf + 1) }

def KeyLog.record (log : KeyLog) (build : Build) (i : Nat) (selector : BitVec 64)
    (key : Nat → Vec) : KeyLog :=
  match build with
  | .arm =>
    { log with
      touched := Function.update log.touched i
        (prandIdx selector ||| (prandexIdx selector <<< 16)) }
  | .portable =>
    { log with
      gPrand := Function.update log.gPrand i (key (prandIdx selector).toNat)
      gPrandex := Function.update log.gPrandex i (key (prandexIdx selector).toNat)
      fixrand := Function.update log.fixrand i (prandIdx selector)
      fixrandex := Function.update log.fixrandex i (prandexIdx selector) }

def slotAddr (selector : BitVec 64) : Slot → Nat
  | .prand => (prandIdx selector).toNat
  | .prandex => (prandexIdx selector).toNat

def storeSlots (selector : BitVec 64) (stores : List (Slot × Vec)) (key : Nat → Vec) : Nat → Vec :=
  stores.foldl (fun k s => Function.update k (slotAddr selector s.1) s.2) key

def clhashStep (aesenc : Vec → Vec → Vec) (build : Build) (i : Nat) (lane : ClhashLane)
    (key : Nat → Vec) : ClhashLane × (Nat → Vec) :=
  let selector := cvtsi128Si64 lane.acc
  let out := clhashCase aesenc build (stepView lane key)
  ({ lane with log := lane.log.record build i selector key, acc := out.acc },
    storeSlots selector out.stores key)

structure ClhashResult where
  hash : BitVec 64
  log : KeyLog
  key : Nat → Vec

def lengthHash : Vec := cvtsi64Si128 0x10000

def verusclhashv22 (aesenc : Vec → Vec → Vec) (build : Build) (random : Nat → Vec) (buf : Mem)
    (log : KeyLog) : ClhashResult :=
  let r := runSteps (clhashStep aesenc build) 32 (initLane random buf log) random
  { hash := precompReduction64 build (r.1.acc ^^^ lengthHash), log := r.1.log, key := r.2 }

structure ClhashDual where
  out0 : BitVec 64
  out1 : BitVec 64
  touched0 : KeyLog
  touched1 : KeyLog
  keyStorage : Nat → Vec

def verusclhashv22Dual (aesenc : Vec → Vec → Vec) (random0 random1 : Nat) (keyStorage : Nat → Vec)
    (buf0 buf1 : Mem) (touched0 touched1 : KeyLog) : ClhashDual :=
  let lane0 := initLane (window random0 keyStorage) buf0 touched0
  let lane1 := initLane (window random1 keyStorage) buf1 touched1
  let r := runAlternately (clhashStep aesenc .arm) random0 random1 32 lane0 lane1 keyStorage
  { out0 := precompReduction64 .arm (r.1.1.acc ^^^ lengthHash)
    out1 := precompReduction64 .arm (r.1.2.acc ^^^ lengthHash)
    touched0 := r.1.1.log
    touched1 := r.1.2.log
    keyStorage := r.2 }

theorem keyMask_getLsbD (i : Nat) : keyMask.getLsbD i = decide (i < 9) := by
  by_cases h : i < 64
  · rw [show keyMask = BitVec.ofNat 64 (2 ^ 9 - 1) from rfl, BitVec.getLsbD_ofNat,
      Nat.testBit_two_pow_sub_one]
    simp [h]
  · simp [BitVec.getLsbD_of_ge _ _ (Nat.le_of_not_lt h)]
    omega

theorem and_keyMask_lt (x : BitVec 64) : (x &&& keyMask).toNat < 512 := by
  rw [BitVec.toNat_and]
  exact Nat.lt_succ_of_le Nat.and_le_right

theorem prandIdx_lt (selector : BitVec 64) : (prandIdx selector).toNat < 512 := by
  rw [prandIdx, BitVec.toNat_setWidth]
  exact (Nat.mod_le _ _).trans_lt (and_keyMask_lt _)

theorem prandexIdx_lt (selector : BitVec 64) : (prandexIdx selector).toNat < 512 := by
  rw [prandexIdx, BitVec.toNat_setWidth]
  exact (Nat.mod_le _ _).trans_lt (and_keyMask_lt _)

theorem slotAddr_lt (selector : BitVec 64) (s : Slot) : slotAddr selector s < 512 := by
  cases s
  · exact prandIdx_lt selector
  · exact prandexIdx_lt selector

theorem selector_shift_lt (selector : BitVec 64) : (selector >>> 61).toNat < 8 := by
  rw [BitVec.toNat_ushiftRight, Nat.shiftRight_eq_div_pow]
  omega

def SameRun (p q : Nat → Vec) : Prop := ∀ j < 41, p j = q j

theorem aes2_congr (aesenc : Vec → Vec → Vec) {rc rc' : Nat → Vec} (s : Vec × Vec) {rci : Nat}
    (h : ∀ j < 4, rc (rci + j) = rc' (rci + j)) : aes2 aesenc rc s rci = aes2 aesenc rc' s rci := by
  simp only [aes2, show rc rci = rc' rci from h 0 (by omega), h 1 (by omega), h 2 (by omega),
    h 3 (by omega)]

theorem monkinsRound_congr (aesenc : Vec → Vec → Vec) {v : StepView} {p : Nat → Vec}
    (h : SameRun v.prand p) {rounds : Nat} {s : Monkins} (hs : s.rc + s.aesroundoffset < 36) :
    monkinsRound aesenc v rounds s = monkinsRound aesenc { v with prand := p } rounds s := by
  have ha (t : Vec × Vec) : aes2 aesenc (window (s.rc + 1) v.prand) t s.aesroundoffset =
      aes2 aesenc (window (s.rc + 1) p) t s.aesroundoffset :=
    aes2_congr aesenc t fun j hj => h _ (by omega)
  simp only [monkinsRound, h s.rc (by omega), ha]

theorem monkinsRound_bounds (aesenc : Vec → Vec → Vec) (v : StepView) (rounds : Nat)
    (s : Monkins) : (monkinsRound aesenc v rounds s).rc = s.rc + 1 ∧
      (monkinsRound aesenc v rounds s).aesroundoffset ≤ s.aesroundoffset + 4 := by
  unfold monkinsRound
  split_ifs <;> exact ⟨rfl, by simp⟩

theorem monkinsLoop_congr (aesenc : Vec → Vec → Vec) {v : StepView} {p : Nat → Vec}
    (h : SameRun v.prand p) {rounds : Nat} {s : Monkins}
    (hs : s.rc + s.aesroundoffset + 5 * rounds < 36) :
    monkinsLoop aesenc v rounds s = monkinsLoop aesenc { v with prand := p } rounds s := by
  induction rounds generalizing s with
  | zero => exact monkinsRound_congr aesenc h (by omega)
  | succ rounds ih =>
    have hb := monkinsRound_bounds aesenc v (rounds + 1) s
    rw [monkinsLoop, ih (by omega), monkinsRound_congr aesenc h (by omega), monkinsLoop]

theorem moduloRound_congr (build : Build) {v : StepView} {p : Nat → Vec}
    (h : SameRun v.prand p) {rounds : Nat} {s : ModuloLoop} (hs : s.rc < 41) :
    moduloRound build v rounds s = moduloRound build { v with prand := p } rounds s := by
  simp only [moduloRound, h s.rc hs]

theorem moduloRound_rc (build : Build) (v : StepView) (rounds : Nat) (s : ModuloLoop) :
    (moduloRound build v rounds s).rc = s.rc + 1 := by
  unfold moduloRound
  split_ifs <;> rfl

theorem moduloLoop_congr (build : Build) {v : StepView} {p : Nat → Vec}
    (h : SameRun v.prand p) {rounds : Nat} {s : ModuloLoop} (hs : s.rc + rounds < 41) :
    moduloLoop build v rounds s = moduloLoop build { v with prand := p } rounds s := by
  induction rounds generalizing s with
  | zero => exact moduloRound_congr build h (by omega)
  | succ rounds ih =>
    have hb := moduloRound_rc build v (rounds + 1) s
    rw [moduloLoop, ih (by omega), moduloRound_congr build h (by omega), moduloLoop]

theorem clhashCase_congr (aesenc : Vec → Vec → Vec) (build : Build) {v : StepView}
    {p : Nat → Vec} (h : SameRun v.prand p) :
    clhashCase aesenc build v = clhashCase aesenc build { v with prand := p } := by
  have h0 : v.prand 0 = p 0 := h 0 (by omega)
  have hr := selector_shift_lt v.selector
  have haes (rci : Nat) (t : Vec × Vec) (hi : rci ≤ 8) :
      aes2 aesenc v.prand t rci = aes2 aesenc p t rci :=
    aes2_congr aesenc t fun j hj => h _ (by omega)
  have h5 : monkinsLoop aesenc v (v.selector >>> 61).toNat ⟨0, 0, v.acc⟩ =
      monkinsLoop aesenc { v with prand := p } (v.selector >>> 61).toNat ⟨0, 0, v.acc⟩ :=
    monkinsLoop_congr aesenc h (by dsimp only; omega)
  have h6 : moduloLoop build v (v.selector >>> 61).toNat ⟨0, v.acc, 0⟩ =
      moduloLoop build { v with prand := p } (v.selector >>> 61).toNat ⟨0, v.acc, 0⟩ :=
    moduloLoop_congr build h (by dsimp only; omega)
  unfold clhashCase
  dsimp only
  split
  · simp only [clhashCase0, h0]
  · simp only [clhashCase1, h0]
  · simp only [clhashCase2, h0]
  · simp only [clhashCase3, h0]
  · simp only [clhashCase4, haes 0 _ (by omega), haes 4 _ (by omega), haes 8 _ (by omega), h0]
  · simp only [clhashCase5, h5, h0]
  · simp only [clhashCase6, h6]
  · simp only [clhashCase7, h0]

theorem storeSlots_of_ne {selector : BitVec 64} {stores : List (Slot × Vec)} {key : Nat → Vec}
    {a : Nat} (h : ∀ s, a ≠ slotAddr selector s) : storeSlots selector stores key a = key a := by
  induction stores generalizing key with
  | nil => rfl
  | cons s stores ih =>
    rw [storeSlots, List.foldl_cons]
    exact Eq.trans ih (Function.update_of_ne (h s.1) _ _)

theorem storeSlots_congr {selector : BitVec 64} {stores : List (Slot × Vec)}
    {key key' : Nat → Vec} {a : Nat} (h : key a = key' a) :
    storeSlots selector stores key a = storeSlots selector stores key' a := by
  induction stores generalizing key key' with
  | nil => exact h
  | cons s stores ih =>
    apply ih
    dsimp only
    by_cases he : a = slotAddr selector s.1
    · subst he
      simp
    · rw [Function.update_of_ne he, Function.update_of_ne he, h]

theorem clhashStep_of_ne (aesenc : Vec → Vec → Vec) (build : Build) (i : Nat)
    (lane : ClhashLane) (key : Nat → Vec) {a : Nat}
    (h₁ : a ≠ (prandIdx (cvtsi128Si64 lane.acc)).toNat)
    (h₂ : a ≠ (prandexIdx (cvtsi128Si64 lane.acc)).toNat) :
    (clhashStep aesenc build i lane key).2 a = key a :=
  storeSlots_of_ne fun s => by cases s <;> assumption

theorem clhashStep_confined (aesenc : Vec → Vec → Vec) (build : Build) (i : Nat) :
    Confined 552 512 (clhashStep aesenc build i) := by
  constructor
  · intro lane key key' hk
    have h₁ := prandIdx_lt (cvtsi128Si64 lane.acc)
    have h₂ := prandexIdx_lt (cvtsi128Si64 lane.acc)
    have hp : key (prandIdx (cvtsi128Si64 lane.acc)).toNat = key' _ := hk _ (by omega)
    have hpex : key (prandexIdx (cvtsi128Si64 lane.acc)).toNat = key' _ := hk _ (by omega)
    have hview : clhashCase aesenc build (stepView lane key) =
        clhashCase aesenc build (stepView lane key') := by
      rw [clhashCase_congr aesenc build
        (p := window (prandIdx (cvtsi128Si64 lane.acc)).toNat key') fun j hj => hk _ (by omega)]
      simp only [stepView, hpex]
    have hlog : lane.log.record build i (cvtsi128Si64 lane.acc) key =
        lane.log.record build i (cvtsi128Si64 lane.acc) key' := by
      cases build with
      | arm => rfl
      | portable => simp only [KeyLog.record, hp, hpex]
    refine ⟨?_, fun a ha => ?_⟩
    · simp only [clhashStep, hview, hlog]
    · simp only [clhashStep, hview]
      exact storeSlots_congr (hk a ha)
  · intro lane key a ha
    exact storeSlots_of_ne fun s => by have := slotAddr_lt (cvtsi128Si64 lane.acc) s; omega

theorem initLane_congr {key key' : Nat → Vec} {buf buf' : Mem} (log : KeyLog)
    (hk : ∀ i < 552, key i = key' i) (hb : ∀ i < 64, buf i = buf' i) :
    initLane key buf log = initLane key' buf' log := by
  have hv (off : Nat) (ho : off + 16 ≤ 64) : load128 buf off = load128 buf' off :=
    load128_congr fun i hi => hb _ (by omega)
  simp only [initLane, hv 0 (by omega), hv 16 (by omega), hv 32 (by omega), hv 48 (by omega),
    hk _ (show (keyMask + 2).toNat < 552 by decide)]

theorem verusclhashv22_congr (aesenc : Vec → Vec → Vec) (build : Build) {key key' : Nat → Vec}
    {buf buf' : Mem} (log : KeyLog) (hk : ∀ i < 552, key i = key' i)
    (hb : ∀ i < 64, buf i = buf' i) :
    (verusclhashv22 aesenc build key buf log).hash =
      (verusclhashv22 aesenc build key' buf' log).hash ∧
    (verusclhashv22 aesenc build key buf log).log =
      (verusclhashv22 aesenc build key' buf' log).log ∧
    ∀ i < 552, (verusclhashv22 aesenc build key buf log).key i =
      (verusclhashv22 aesenc build key' buf' log).key i := by
  have h := (runSteps_confined (clhashStep_confined aesenc build) 32).reads
    (initLane key buf log) key key' hk
  simp only [verusclhashv22, ← initLane_congr log hk hb]
  exact ⟨by rw [h.1], by rw [h.1], h.2⟩

theorem verusclhashv22_off (aesenc : Vec → Vec → Vec) (build : Build) (key : Nat → Vec) (buf : Mem)
    (log : KeyLog) {i : Nat} (hi : 512 ≤ i) : (verusclhashv22 aesenc build key buf log).key i = key i :=
  (runSteps_confined (clhashStep_confined aesenc build) 32).writes _ _ i hi

theorem clhashCase_build (aesenc : Vec → Vec → Vec) (build : Build) (v : StepView) :
    clhashCase aesenc build v = clhashCase aesenc .portable v := by
  have hround (rounds : Nat) (s : ModuloLoop) :
      moduloRound build v rounds s = moduloRound .portable v rounds s := by
    simp only [moduloRound, verusMulhrsEpi16_eq]
  have hloop (rounds : Nat) (s : ModuloLoop) :
      moduloLoop build v rounds s = moduloLoop .portable v rounds s := by
    induction rounds generalizing s with
    | zero => exact hround 0 s
    | succ rounds ih => rw [moduloLoop, moduloLoop, hround, ih]
  unfold clhashCase
  split <;>
    simp only [clhashCase0, clhashCase1, clhashCase2, clhashCase3, clhashCase4, clhashCase5,
      clhashCase6, clhashCase7, verusMulhrsEpi16_eq, hloop]

theorem clhashRun_build (aesenc : Vec → Vec → Vec) (build : Build) (key : Nat → Vec) (buf : Mem)
    (log log' : KeyLog) (n : Nat) :
    let r := runSteps (clhashStep aesenc build) n (initLane key buf log) key
    let r' := runSteps (clhashStep aesenc .portable) n (initLane key buf log') key
    r.1.acc = r'.1.acc ∧ r.1.pbufCopy = r'.1.pbufCopy ∧ r.2 = r'.2 := by
  induction n with
  | zero => exact ⟨rfl, rfl, rfl⟩
  | succ n ih =>
    obtain ⟨ha, hp, hk⟩ := ih
    simp only [runSteps, clhashStep, clhashCase_build aesenc build, stepView, ha, hp, hk, and_self]

theorem precompReduction64_build (build : Build) (A : Vec) :
    precompReduction64 build A = precompReduction64 .portable A := by
  cases build with
  | portable => rfl
  | arm => simp only [precompReduction64, precompReduction64Si128, vextqU8_zero_eq_srli]

theorem verusclhashv22_build (aesenc : Vec → Vec → Vec) (build : Build) (key : Nat → Vec)
    (buf : Mem) (log log' : KeyLog) :
    (verusclhashv22 aesenc build key buf log).hash =
      (verusclhashv22 aesenc .portable key buf log').hash ∧
    (verusclhashv22 aesenc build key buf log).key =
      (verusclhashv22 aesenc .portable key buf log').key := by
  obtain ⟨ha, _, hk⟩ := clhashRun_build aesenc build key buf log log' 32
  refine ⟨?_, hk⟩
  simp only [verusclhashv22, precompReduction64_build build]
  rw [ha]

/-- Each lane of the dual kernel ends as it does alone, and nothing outside
the mutable halves of the two keys is written. -/
theorem verusclhashv22Dual_eq (aesenc : Vec → Vec → Vec) (random0 random1 : Nat)
    (hdis : random0 + 552 ≤ random1) (keyStorage : Nat → Vec) (buf0 buf1 : Mem)
    (touched0 touched1 : KeyLog) :
    let d := verusclhashv22Dual aesenc random0 random1 keyStorage buf0 buf1 touched0 touched1
    let r0 := verusclhashv22 aesenc .arm (window random0 keyStorage) buf0 touched0
    let r1 := verusclhashv22 aesenc .arm (window random1 keyStorage) buf1 touched1
    d.out0 = r0.hash ∧ d.out1 = r1.hash ∧ d.touched0 = r0.log ∧ d.touched1 = r1.log ∧
    (∀ i < 552, d.keyStorage (random0 + i) = r0.key i) ∧
    (∀ i < 552, d.keyStorage (random1 + i) = r1.key i) ∧
    ∀ i, (i < random0 ∨ random0 + 512 ≤ i) → (i < random1 ∨ random1 + 512 ≤ i) →
      d.keyStorage i = keyStorage i := by
  obtain ⟨e0, e1, k0, k1, hoff⟩ := runAlternately_eq (clhashStep_confined aesenc .arm) (by omega)
    hdis 32 (initLane (window random0 keyStorage) buf0 touched0)
    (initLane (window random1 keyStorage) buf1 touched1) keyStorage
  simp only [verusclhashv22Dual, verusclhashv22, e0, e1, true_and]
  exact ⟨k0, k1, hoff⟩


end VerusMiner
