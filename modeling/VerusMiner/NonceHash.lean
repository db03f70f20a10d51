import VerusMiner.KeyRestore

/-! The hash of one nonce: the input it is prepared into, the kernel, the short
cut by the high word, and the test against the target. -/

namespace VerusMiner

def fill1 (build : Build) (blockhashHalf : Mem) : Vec :=
  let firstBlock := load128 blockhashHalf 0
  match build with
  | .arm => vextqU8 firstBlock firstBlock 1
  | .portable =>
    shuffleEpi8 firstBlock (setrEpi8 [1, 2, 3, 4, 5, 6, 7, 8, 9, 10, 11, 12, 13, 14, 15, 0])

def fill2 (build : Build) (intermediate : BitVec 64) : Vec :=
  match build with
  | .arm => vextqU8 (vdupqNU64 intermediate) (vdupqNU64 intermediate) 1
  | .portable =>
    shuffleEpi8 (loadlEpi64 intermediate)
      (setrEpi8 [1, 2, 3, 4, 5, 6, 7, 0, 1, 2, 3, 4, 5, 6, 7, 0])

def prepareHashInput (curBuf : Mem) (fill1 : Vec) (firstByte : Byte) (nonce : Word) : Mem :=
  let curBuf := store128 curBuf (32 + 16) fill1
  let curBuf := Function.update curBuf (32 + 15) firstByte
  memcpy curBuf 43 (leBytes nonce) 0 4

def fulltestFrom (hash target : Mem) : Nat → Bool
  | 0 => true
  | i + 1 =>
    if le32dec hash (4 * i) > le32dec target (4 * i) then false
    else if le32dec hash (4 * i) < le32dec target (4 * i) then true
    else fulltestFrom hash target i

def fulltest (hash target : Mem) : Bool := fulltestFrom hash target 8

structure Finalized where
  valid : Bool
  hash : Mem
  curBuf : Mem

structure Hashed extends Finalized where
  log : KeyLog
  dataKey : Nat → Vec

section Final

variable (aesenc : Vec → Vec → Vec)

def finalizeHash (build : Build) (hash curBuf target : Mem) (highTarget : Word)
    (dataKey : Nat → Vec) (intermediate : BitVec 64) : Finalized :=
  let curBuf := store128 curBuf (32 + 16) (fill2 build intermediate)
  let curBuf := Function.update curBuf (32 + 15) (leBytes intermediate 0)
  let key := window (intermediate &&& 511).toNat dataKey
  let highword := haraka512KeyedHighword aesenc curBuf key
  if highword ≤ highTarget then
    let hash := haraka512Keyed aesenc hash curBuf key
    { valid := fulltest hash target, hash := hash, curBuf := curBuf }
  else { valid := false, hash := hash, curBuf := curBuf }

/-- On ARM the key is put back from the copy at the cell `pristine`. -/
def verus2hash (build : Build) (hash curBuf target : Mem) (highTarget : Word)
    (dataKey : Nat → Vec) (pristine : Nat) (log : KeyLog) : Hashed :=
  let r := verusclhashv22 aesenc build dataKey curBuf log
  let f := finalizeHash aesenc build hash curBuf target highTarget r.key r.hash
  { f with
    log := r.log
    dataKey := match build with
      | .arm => restoreKey r.log.touched 0 pristine r.key
      | .portable => fixKey r.log r.key }

def preparedInput (half nonceSpace : Mem) (nonce : Word) : Mem := fun i =>
  if i < 32 then half i
  else if i < 43 then nonceSpace (i - 32)
  else if i < 47 then leBytes nonce (i - 43)
  else half ((i - 47) % 16)

def finalInput (prepared : Mem) (intermediate : BitVec 64) : Mem := fun i =>
  if i < 47 then prepared i else leBytes intermediate ((i - 47) % 8)

def noLog : KeyLog :=
  { touched := fun _ => 0, fixrand := fun _ => 0, fixrandex := fun _ => 0, gPrand := fun _ => 0
    gPrandex := fun _ => 0 }

/-- The hash of a prepared input, with no short cut: the single-lane kernel on
`key` as it was generated, then the whole permutation under what became of it. -/
def plainHash (key : Nat → Vec) (prepared : Mem) : Mem :=
  let r := verusclhashv22 aesenc .portable key prepared noLog
  haraka512Keyed aesenc (fun _ => 0) (finalInput prepared r.hash)
    (window (r.hash &&& 511).toNat r.key)

end Final

theorem fill1_build (build : Build) (half : Mem) : fill1 build half = fill1 .portable half := by
  cases build with
  | portable => rfl
  | arm => exact vextqU8_one_eq_shuffle _

theorem fill2_build (build : Build) (x : BitVec 64) : fill2 build x = fill2 .portable x := by
  cases build with
  | portable => rfl
  | arm => exact vextqU8_dup_eq_shuffle x

theorem store128_at (m : Mem) (off : Nat) (v : Vec) {k : Nat} (hk : k < 16) :
    store128 m off v (off + k) = lane8 v k := by
  rw [store128, memcpy_at hk, Nat.zero_add]
  rfl

theorem lane8_fill1 (build : Build) (half : Mem) {k : Nat} (hk : k < 16) :
    lane8 (fill1 build half) k = half ((k + 1) % 16) := by
  rw [fill1_build, ← fill1_build .arm]
  change lane8 (vextqU8 (load128 half 0) (load128 half 0) 1) k = _
  rw [lane8_vextqU8, if_pos hk]
  split_ifs with h
  · rw [lane8_load128 _ _ h, Nat.mod_eq_of_lt (by omega), Nat.zero_add, Nat.add_comm]
  · rw [lane8_load128 _ _ (by omega), show 0 + (1 + k - 16) = (k + 1) % 16 by omega]

theorem lane8_fill2 (build : Build) (x : BitVec 64) {k : Nat} (hk : k < 16) :
    lane8 (fill2 build x) k = leBytes x ((k + 1) % 8) := by
  have hd (j : Nat) (hj : j < 16) : lane8 (vdupqNU64 x) j = leBytes x (j % 8) := by
    rw [vdupqNU64, lane8_setEpi64 _ _ hj]
    split_ifs with h
    · rw [Nat.mod_eq_of_lt h]
      rfl
    · rw [show j % 8 = j - 8 by omega]
      rfl
  rw [fill2_build, ← fill2_build .arm]
  change lane8 (vextqU8 (vdupqNU64 x) (vdupqNU64 x) 1) k = _
  rw [lane8_vextqU8, if_pos hk]
  split_ifs with h
  · rw [hd _ h, Nat.add_comm]
  · rw [hd _ (by omega), show (1 + k - 16) % 8 = (k + 1) % 8 by omega]

/-- Writing the fill, the byte before it and the nonce lays the input out
whatever the lane's buffer held there from the nonce before. -/
theorem prepareHashInput_at (build : Build) {curBuf half nonceSpace : Mem} (nonce : Word)
    (hhalf : ∀ i < 32, curBuf i = half i) (hspace : ∀ i < 11, curBuf (32 + i) = nonceSpace i)
    {i : Nat} (hi : i < 64) :
    prepareHashInput curBuf (fill1 build half) (half 0) nonce i =
      preparedInput half nonceSpace nonce i := by
  simp only [prepareHashInput, preparedInput]
  by_cases h43 : i < 43
  · rw [memcpy_off (.inl h43), Function.update_of_ne (by omega), store128, memcpy_off (by omega)]
    by_cases h32 : i < 32
    · rw [if_pos h32, hhalf i h32]
    · rw [if_neg h32, if_pos h43, show i = 32 + (i - 32) by omega, hspace _ (by omega),
        Nat.add_sub_cancel_left]
  rw [if_neg (show ¬ i < 32 by omega), if_neg h43]
  by_cases h47 : i < 47
  · rw [if_pos h47, memcpy_within (by omega), Nat.zero_add]
  rw [if_neg h47, memcpy_off (by omega)]
  by_cases he : i = 47
  · subst he
    rw [Function.update_self]
  · rw [Function.update_of_ne (by omega), show i = 48 + (i - 48) by omega, store128_at _ _ _ (by omega),
      lane8_fill1 build half (by omega)]
    congr 1
    omega

theorem finalInput_at (build : Build) {curBuf prepared : Mem} (x : BitVec 64)
    (h : ∀ i < 47, curBuf i = prepared i) {i : Nat} (hi : i < 64) :
    Function.update (store128 curBuf (32 + 16) (fill2 build x)) (32 + 15) (leBytes x 0) i =
      finalInput prepared x i := by
  rw [finalInput]
  by_cases h47 : i < 47
  · rw [Function.update_of_ne (by omega), store128, memcpy_off (by omega), if_pos h47, h i h47]
  rw [if_neg h47]
  by_cases he : i = 47
  · subst he
    rw [Function.update_self]
  · rw [Function.update_of_ne (by omega), show i = 48 + (i - 48) by omega, store128_at _ _ _ (by omega),
      lane8_fill2 build x (by omega)]
    congr 1
    omega

theorem fulltestFrom_iff (hash target : Mem) (n : Nat) :
    fulltestFrom hash target n = true ↔ leNat hash 0 (4 * n) ≤ leNat target 0 (4 * n) := by
  induction n with
  | zero => simp [fulltestFrom, leNat]
  | succ n ih =>
    rw [leNat_words, leNat_words] at ih ⊢
    rw [leValue_succ_le_iff (fun i _ => (le32dec _ _).isLt) (fun i _ => (le32dec _ _).isLt),
      ← ih, fulltestFrom]
    simp only [Nat.zero_add, gt_iff_lt, BitVec.lt_def]
    split_ifs with h₁ h₂
    · simp only [false_iff]
      omega
    · simp [h₂]
    · simp [show (le32dec hash (4 * n)).toNat = (le32dec target (4 * n)).toNat by omega]

theorem fulltest_iff (hash target : Mem) :
    fulltest hash target = true ↔ leNat hash 0 32 ≤ leNat target 0 32 :=
  fulltestFrom_iff hash target 8

theorem fulltest_of_highword {hash target : Mem} (h : ¬ le32dec hash 28 ≤ le32dec target 28) :
    fulltest hash target = false := by
  rw [fulltest, fulltestFrom, if_pos (BitVec.not_le.mp h)]

theorem fulltest_congr {hash hash' target : Mem} (h : ∀ i < 32, hash i = hash' i) :
    fulltest hash target = fulltest hash' target := by
  have hle : leNat hash 0 32 = leNat hash' 0 32 :=
    leNat_congr fun i hi => by simpa only [Nat.zero_add] using h i hi
  rw [Bool.eq_iff_iff, fulltest_iff, fulltest_iff, hle]

theorem intermediate_lt (intermediate : BitVec 64) : (intermediate &&& 511).toNat < 512 :=
  and_keyMask_lt intermediate

section Spec

variable (aesenc : Vec → Vec → Vec) (build : Build)

/-- The short cut refuses only what the test would refuse, so a result is the
one of the full permutation under the key as the kernel left it. -/
theorem finalizeHash_eq (hash target : Mem) (intermediate : BitVec 64) {curBuf prepared : Mem}
    {dataKey key : Nat → Vec} (hbuf : ∀ i < 47, curBuf i = prepared i)
    (hkey : ∀ i < 552, dataKey i = key i) :
    let f := finalizeHash aesenc build hash curBuf target (le32dec target 28) dataKey intermediate
    let h := haraka512Keyed aesenc (fun _ => 0) (finalInput prepared intermediate)
      (window (intermediate &&& 511).toNat key)
    f.valid = fulltest h target ∧ (f.valid = true → ∀ i < 32, f.hash i = h i) ∧
    ∀ i < 47, f.curBuf i = curBuf i := by
  have hidx := intermediate_lt intermediate
  dsimp only [finalizeHash]
  have hkept : ∀ i < 47, Function.update (store128 curBuf (32 + 16) (fill2 build intermediate))
      (32 + 15) (leBytes intermediate 0) i = curBuf i := fun i hi => by
    rw [Function.update_of_ne (by omega), store128, memcpy_off (by omega)]
  have hfinal (a : Nat) (ha : a < 64) := finalInput_at build intermediate hbuf ha
  generalize Function.update (store128 curBuf (32 + 16) (fill2 build intermediate)) (32 + 15)
    (leBytes intermediate 0) = final at hkept hfinal ⊢
  have hout (i : Nat) (hi : i < 32) :
      haraka512Keyed aesenc hash final (window (intermediate &&& 511).toNat dataKey) i =
        haraka512Keyed aesenc (fun _ => 0) (finalInput prepared intermediate)
          (window (intermediate &&& 511).toNat key) i :=
    haraka512Keyed_congr aesenc hfinal (fun a ha => hkey _ (by omega)) hi
  rw [haraka512KeyedHighword_eq aesenc hash,
    le32dec_congr fun i hi => hout (28 + i) (by omega)]
  split_ifs with hle
  · exact ⟨fulltest_congr hout, fun _ => hout, hkept⟩
  · exact ⟨(fulltest_of_highword hle).symm, by simp, hkept⟩

/-- The filter by the high word neither refuses a hash that meets the target
nor lets one pass that misses it. -/
theorem highwordFilter_exact :
    (∀ out input rc, haraka512KeyedHighword aesenc input rc =
      le32dec (haraka512Keyed aesenc out input rc) 28) ∧
    ∀ build hash curBuf target dataKey intermediate,
      (finalizeHash aesenc build hash curBuf target (le32dec target 28) dataKey intermediate).valid =
        true ↔
      leNat (haraka512Keyed aesenc (fun _ => 0) (finalInput curBuf intermediate)
        (window (intermediate &&& 511).toNat dataKey)) 0 32 ≤ leNat target 0 32 := by
  refine ⟨fun out input rc => haraka512KeyedHighword_eq aesenc out input rc, ?_⟩
  intro build hash curBuf target dataKey intermediate
  obtain ⟨hvalid, _⟩ := finalizeHash_eq aesenc build hash target intermediate
    (fun i _ => rfl : ∀ i < 47, curBuf i = curBuf i) (fun i _ => rfl : ∀ i < 552, dataKey i = dataKey i)
  rw [hvalid, fulltest_iff]

theorem finalizeHash_build :
    finalizeHash aesenc build = finalizeHash aesenc .portable := by
  funext hash curBuf target highTarget dataKey intermediate
  simp only [finalizeHash, fill2_build build]

/-- The multiply of the ARM build is the x86 one in every lane, and so the two
builds compute the same from every input. -/
theorem armMulhrs_exact :
    (∀ a b : Vec, ∀ k < 8, lane16 (verusMulhrsEpi16 .arm a b) k =
      BitVec.ofInt 16
        ((((lane16 a k).toInt * (lane16 b k).toInt) >>> (14 : Nat) + 1) >>> (1 : Nat))) ∧
    ∀ key buf log log',
      let arm := verusclhashv22 aesenc .arm key buf log
      let portable := verusclhashv22 aesenc .portable key buf log'
      arm.hash = portable.hash ∧ arm.key = portable.key ∧
      ∀ hash target highTarget,
        finalizeHash aesenc .arm hash buf target highTarget arm.key arm.hash =
          finalizeHash aesenc .portable hash buf target highTarget portable.key portable.hash := by
  refine ⟨fun a b k hk => ?_, fun key buf log log' => ?_⟩
  · rw [verusMulhrsEpi16_eq, mulhrsEpi16, lane16_ofLanes16 _ hk, Int.shiftRight_eq_div_pow,
      Int.shiftRight_eq_div_pow]
    rfl
  · obtain ⟨hhash, hkey⟩ := verusclhashv22_build aesenc .arm key buf log log'
    refine ⟨hhash, hkey, fun hash target highTarget => ?_⟩
    rw [hhash, hkey, finalizeHash_build]

theorem plainHash_eq {key key' : Nat → Vec} {buf buf' : Mem} (log : KeyLog)
    (hkey : ∀ i < 552, key i = key' i) (hbuf : ∀ i < 64, buf i = buf' i) :
    (verusclhashv22 aesenc build key buf log).hash =
      (verusclhashv22 aesenc .portable key' buf' noLog).hash ∧
    ∀ i < 552, (verusclhashv22 aesenc build key buf log).key i =
      (verusclhashv22 aesenc .portable key' buf' noLog).key i := by
  obtain ⟨hh, hk⟩ := verusclhashv22_build aesenc build key buf log noLog
  obtain ⟨hh', _, hk'⟩ := verusclhashv22_congr aesenc .portable noLog hkey hbuf
  exact ⟨hh.trans hh', fun i hi => by rw [hk, hk' i hi]⟩

theorem finalizeHash_plain (hash target : Mem) {intermediate : BitVec 64} {curBuf prepared : Mem}
    {dataKey key : Nat → Vec} (hbuf : ∀ i < 64, curBuf i = prepared i)
    (hhash : intermediate = (verusclhashv22 aesenc .portable key prepared noLog).hash)
    (hkey : ∀ i < 552, dataKey i = (verusclhashv22 aesenc .portable key prepared noLog).key i) :
    let f := finalizeHash aesenc build hash curBuf target (le32dec target 28) dataKey intermediate
    f.valid = fulltest (plainHash aesenc key prepared) target ∧
    (f.valid = true → ∀ i < 32, f.hash i = plainHash aesenc key prepared i) ∧
    ∀ i < 47, f.curBuf i = prepared i := by
  obtain ⟨hv, hout, hcur⟩ := finalizeHash_eq aesenc build hash target intermediate
    (fun i hi => hbuf i (by omega)) hkey
  rw [hhash] at hv hout hcur ⊢
  exact ⟨hv, hout, fun i hi => (hcur i hi).trans (hbuf i (by omega))⟩

theorem touchedCells_lt {key : Nat → Vec} {buf : Mem} {log : KeyLog} {a : Nat}
    (ha : a ∈ touchedCells (verusclhashv22 aesenc .arm key buf log).log.touched 32) : a < 512 :=
  (arm_run_touched aesenc (initLane key buf log) key 32).1 a ha

theorem restoreKey_self {dataKey : Nat → Vec} {curBuf : Mem} {log : KeyLog} {pristine : Nat}
    (hp : 552 ≤ pristine) (hkeep : ∀ i < 552, dataKey (pristine + i) = dataKey i) :
    restoreKey (verusclhashv22 aesenc .arm dataKey curBuf log).log.touched 0 pristine
      (verusclhashv22 aesenc .arm dataKey curBuf log).key = dataKey := by
  have hoff (i : Nat) (hi : 512 ≤ i) : (verusclhashv22 aesenc .arm dataKey curBuf log).key i = dataKey i :=
    verusclhashv22_off aesenc .arm dataKey curBuf log hi
  funext i
  by_cases hi : i < 552
  · have hdis : 0 + 552 ≤ pristine ∨ pristine + 552 ≤ 0 := .inl (by omega)
    have h := restoreKey_verusclhashv22 aesenc dataKey curBuf log _ hdis
      (fun j _ => by rw [Nat.zero_add]) (fun j hj => by rw [hoff _ (by omega), hkeep j hj]) hi
    rwa [Nat.zero_add] at h
  · rw [restoreKey_off fun a ha => ?_, hoff i (by omega)]
    have := touchedCells_lt aesenc ha
    omega

theorem restoreKey_dual {keyStorage key : Nat → Vec} {lane1 pristine : Nat} (buf0 buf1 : Mem)
    (log0 log1 : KeyLog) (hlane : 552 ≤ lane1) (hp : lane1 + 552 ≤ pristine)
    (h0 : ∀ i < 552, keyStorage i = key i) (h1 : ∀ i < 552, keyStorage (lane1 + i) = key i)
    (hkeep : ∀ i < 552, keyStorage (pristine + i) = key i) :
    let d := verusclhashv22Dual aesenc 0 lane1 keyStorage buf0 buf1 log0 log1
    let m := restoreKey d.touched1.touched lane1 pristine
      (restoreKey d.touched0.touched 0 pristine d.keyStorage)
    ∀ i < 552, m i = key i ∧ m (lane1 + i) = key i ∧ m (pristine + i) = key i := by
  obtain ⟨_, _, ht0, ht1, hk0, hk1, hoff⟩ := verusclhashv22Dual_eq aesenc 0 lane1
    (by omega) keyStorage buf0 buf1 log0 log1
  intro d m
  have hoff0 {i : Nat} (hi : 552 ≤ i) :
      restoreKey d.touched0.touched 0 pristine d.keyStorage i = d.keyStorage i := by
    rw [ht0]
    refine restoreKey_off fun a ha => ?_
    have := touchedCells_lt aesenc ha
    omega
  have hoff1 {i : Nat} (hi : i < lane1 ∨ lane1 + 552 ≤ i) :
      m i = restoreKey d.touched0.touched 0 pristine d.keyStorage i := by
    dsimp only [m]
    rw [ht1]
    refine restoreKey_off fun a ha => ?_
    have := touchedCells_lt aesenc ha
    omega
  have hpristine {i : Nat} (hi : i < 552) : d.keyStorage (pristine + i) = key i := by
    rw [hoff _ (by omega) (by omega), hkeep i hi]
  intro i hi
  refine ⟨?_, ?_, ?_⟩
  · rw [hoff1 (by omega), ht0]
    have hdis : 0 + 552 ≤ pristine ∨ pristine + 552 ≤ 0 := .inl (by omega)
    have h := restoreKey_verusclhashv22 aesenc (window 0 keyStorage) buf0 log0 d.keyStorage hdis
      hk0 (fun j hj => by rw [hpristine hj, window_zero, h0 j hj]) hi
    rwa [Nat.zero_add, window_apply, Nat.zero_add, h0 i hi] at h
  · have h := restoreKey_verusclhashv22 aesenc (window lane1 keyStorage) buf1 log1 _ (.inl hp)
      (fun j hj => (hoff0 (by omega)).trans (hk1 j hj))
      (fun j hj => by rw [hoff0 (by omega), hpristine hj, window_apply, h1 j hj]) hi
    rw [window_apply, h1 i hi] at h
    dsimp only [m]
    rw [ht1, h]
  · rw [hoff1 (by omega), hoff0 (by omega), hpristine hi]

theorem verus2hash_eq (hash target : Mem) (pristine : Nat) (log : KeyLog) {curBuf prepared : Mem}
    {dataKey key : Nat → Vec} (hbuf : ∀ i < 64, curBuf i = prepared i)
    (hkey : ∀ i < 552, dataKey i = key i)
    (hkeep : build = .arm → 552 ≤ pristine ∧ ∀ i < 552, dataKey (pristine + i) = dataKey i) :
    let r := verus2hash aesenc build hash curBuf target (le32dec target 28) dataKey pristine log
    r.valid = fulltest (plainHash aesenc key prepared) target ∧
    (r.valid = true → ∀ i < 32, r.hash i = plainHash aesenc key prepared i) ∧
    (∀ i < 47, r.curBuf i = prepared i) ∧ r.dataKey = dataKey := by
  obtain ⟨hhash, hk⟩ := plainHash_eq aesenc build log hkey hbuf
  obtain ⟨hv, hout, hcur⟩ := finalizeHash_plain aesenc build hash target hbuf hhash hk
  refine ⟨hv, hout, hcur, ?_⟩
  cases build with
  | arm => exact restoreKey_self aesenc (hkeep rfl).1 (hkeep rfl).2
  | portable => exact fixKey_verusclhashv22 aesenc dataKey curBuf log

end Spec

end VerusMiner
