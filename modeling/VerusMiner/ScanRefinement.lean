import VerusMiner.Preimage
import VerusMiner.Midstate

/-! The scanner refines a search: the nonces are hashed in order, each as if
alone under the generated key, and the search ends at the first one that meets
the target, at the limit, or at a poll of a raised flag. -/

namespace VerusMiner

def meetsTarget (target hash : Mem) : Prop := leNat hash 0 32 ≤ leNat target 0 32

section Loops

variable (aesenc : Vec → Vec → Vec) (half space : Mem) (key : Nat → Vec)

def counterHash (n : Nat) : Mem :=
  plainHash aesenc key (preparedInput half space (BitVec.ofNat 32 n))

def counterNonces (n : Nat) : List Word := (List.range n).map (BitVec.ofNat 32)

/-- A lane's buffer: the digest with the nonce space over its tail. Bytes from
43 on may be left from an earlier nonce. -/
structure LaneReady (buf : Mem) : Prop where
  digest : ∀ i < 32, buf i = half i
  tail : ∀ i < 11, buf (32 + i) = space i

structure ScanReady (build : Build) (n : Nat) (s : ScanState) : Prop where
  nonceBuf : s.nonceBuf = BitVec.ofNat 32 n
  lane : LaneReady half space s.blockhashHalf
  dataKey : ∀ i < 552, s.keyStorage i = key i
  pristine : build = .arm → ∀ i < 552, s.keyStorage (pristineKey + i) = key i
  examined : s.examined = counterNonces n

structure BatchReady (n : Nat) (s : BatchState) : Prop
    extends ScanReady half space key .arm n s.toScanState where
  lane1 : LaneReady half space s.blockhashHalf1
  dataKey1 : ∀ i < 552, s.keyStorage (verusKeySize128 + i) = key i

end Loops

theorem LaneReady.prepare {half space buf : Mem} (h : LaneReady half space buf) (build : Build)
    (nonce : Word) {i : Nat} (hi : i < 64) :
    prepareHashInput buf (fill1 build half) (half 0) nonce i = preparedInput half space nonce i :=
  prepareHashInput_at build nonce h.digest h.tail hi

theorem LaneReady.reuse {half space buf : Mem} {nonce : Word}
    (h : ∀ i < 47, buf i = preparedInput half space nonce i) : LaneReady half space buf := by
  refine ⟨fun i hi => ?_, fun i hi => ?_⟩
  · rw [h i (by omega), preparedInput, if_pos hi]
  · rw [h _ (by omega), preparedInput, if_neg (by omega), if_pos (by omega),
      Nat.add_sub_cancel_left]

theorem counterNonces_succ (n : Nat) :
    counterNonces (n + 1) = counterNonces n ++ [BitVec.ofNat 32 n] := by
  simp [counterNonces, List.range_succ]

theorem ofNat_succ (n : Nat) : BitVec.ofNat 32 n + 1 = BitVec.ofNat 32 (n + 1) :=
  (BitVec.ofNat_add n 1).symm

theorem misses_succ {p : Nat → Bool} {n : Nat} (h : ∀ k < n, p k = false) (hn : ¬ p n = true) :
    ∀ k < n + 1, p k = false := by
  intro k hk
  rcases Nat.lt_succ_iff_lt_or_eq.mp hk with hk | rfl
  · exact h k hk
  · exact Bool.eq_false_iff.mpr hn

section Steps

variable (aesenc : Vec → Vec → Vec) (target : Mem) {half space : Mem} {key : Nat → Vec}

theorem scalarStep_eq (build : Build) {n : Nat} {s : ScanState}
    (hs : ScanReady half space key build n s) :
    let r := scalarStep aesenc target (fill1 build half) (half 0) build s
    let h := counterHash aesenc half space key n
    (r.2 = if fulltest h target then some (BitVec.ofNat 32 n) else none) ∧
    (fulltest h target = true → ∀ i < 32, r.1.vhash i = h i) ∧
    r.1.examined = counterNonces (n + 1) ∧
    (r.2 = none → ScanReady half space key build (n + 1) r.1) := by
  have hstep := verus2hash_eq aesenc build s.vhash target pristineKey s.touched
    (fun i hi => hs.lane.prepare build s.nonceBuf hi) hs.dataKey
    fun hb => ⟨by decide, fun i hi => by rw [hs.pristine hb i hi, hs.dataKey i hi]⟩
  dsimp only [scalarStep]
  generalize verus2hash aesenc build s.vhash _ target _ s.keyStorage pristineKey s.touched = r
    at hstep ⊢
  obtain ⟨hv, hout, hcur, hkey⟩ := hstep
  rw [hs.nonceBuf] at hv hout hcur
  rw [hs.nonceBuf, hs.examined, ← counterNonces_succ]
  refine ⟨by rw [hv]; rfl, fun h => hout (hv.trans h), rfl, fun hnone => ?_⟩
  have hinvalid : r.valid = false := by
    cases hr : r.valid with
    | false => rfl
    | true => simp [hr] at hnone
  exact
    { nonceBuf := by simp only [hinvalid, Bool.false_eq_true, if_false, ofNat_succ]
      lane := .reuse hcur
      dataKey := hkey ▸ hs.dataKey
      pristine := hkey ▸ hs.pristine
      examined := rfl }

/-- Both lanes find the key in place, and both put it back. -/
theorem batchStep_eq (candidateHash : Mem) {n : Nat} {s : BatchState}
    (hs : BatchReady half space key n s) :
    let r := batchStep aesenc target (fill1 .arm half) (half 0) candidateHash s
    let h0 := counterHash aesenc half space key n
    let h1 := counterHash aesenc half space key (n + 1)
    (r.2 = if fulltest h0 target then some (BitVec.ofNat 32 n)
      else if fulltest h1 target then some (BitVec.ofNat 32 (n + 1)) else none) ∧
    (fulltest h0 target = true → ∀ i < 32, r.1.vhash i = h0 i) ∧
    (fulltest h0 target = false → fulltest h1 target = true → ∀ i < 32, r.1.vhash i = h1 i) ∧
    r.1.examined = counterNonces (n + 2) ∧
    BatchReady half space key (n + 2) r.1 := by
  dsimp only [batchStep]
  rw [hs.nonceBuf, ofNat_succ]
  generalize hb0 : prepareHashInput s.blockhashHalf _ _ _ = half0
  generalize hb1 : prepareHashInput s.blockhashHalf1 _ _ _ = half1
  have hp0 : ∀ i < 64, half0 i = preparedInput half space (BitVec.ofNat 32 n) i :=
    fun i hi => hb0 ▸ hs.lane.prepare .arm _ hi
  have hp1 : ∀ i < 64, half1 i = preparedInput half space (BitVec.ofNat 32 (n + 1)) i :=
    fun i hi => hb1 ▸ hs.lane1.prepare .arm _ hi
  have hlane : 552 ≤ verusKeySize128 := le_refl 552
  have hbehind : verusKeySize128 + 552 ≤ pristineKey := le_refl 1104
  have hkeys := restoreKey_dual aesenc half0 half1 s.touched s.touched1 hlane hbehind
    hs.dataKey hs.dataKey1 (hs.pristine rfl)
  have hw0 : ∀ i < 552, window 0 s.keyStorage i = key i := by
    simpa only [window_zero] using hs.dataKey
  obtain ⟨hh0, hd0⟩ := plainHash_eq aesenc .arm s.touched hw0 hp0
  obtain ⟨hh1, hd1⟩ := plainHash_eq aesenc .arm s.touched1 hs.dataKey1 hp1
  obtain ⟨ho0, ho1, _, _, hk0, hk1, _⟩ := verusclhashv22Dual_eq aesenc 0 verusKeySize128 hlane
    s.keyStorage half0 half1 s.touched s.touched1
  generalize verusclhashv22Dual aesenc 0 verusKeySize128 s.keyStorage half0 half1 s.touched
    s.touched1 = d at hkeys ho0 ho1 hk0 hk1 ⊢
  have hm0 : ∀ i < 552, window 0 d.keyStorage i = _ := fun i hi => (hk0 i hi).trans (hd0 i hi)
  have hm1 : ∀ i < 552, window verusKeySize128 d.keyStorage i = _ :=
    fun i hi => (hk1 i hi).trans (hd1 i hi)
  have hf0 := finalizeHash_plain aesenc .arm candidateHash target hp0 (ho0.trans hh0) hm0
  have hf1 := finalizeHash_plain aesenc .arm candidateHash target hp1 (ho1.trans hh1) hm1
  generalize finalizeHash aesenc .arm candidateHash half0 _ _ _ _ = f0 at hf0 ⊢
  generalize finalizeHash aesenc .arm candidateHash half1 _ _ _ _ = f1 at hf1 ⊢
  obtain ⟨hv0, hout0, hcur0⟩ := hf0
  obtain ⟨hv1, hout1, hcur1⟩ := hf1
  have hexamined : s.examined ++ [BitVec.ofNat 32 n, BitVec.ofNat 32 (n + 1)] =
      counterNonces (n + 2) := by
    simp only [hs.examined, counterNonces_succ, List.append_assoc, List.cons_append,
      List.nil_append]
  refine ⟨by rw [hv0, hv1]; rfl, fun h => ?_, fun h₀ h₁ => ?_, hexamined, ?_⟩
  · have hvalid : f0.valid = true := hv0.trans h
    simp only [hvalid, if_true]
    exact hout0 hvalid
  · have hvalid₀ : f0.valid = false := hv0.trans h₀
    have hvalid₁ : f1.valid = true := hv1.trans h₁
    simp only [hvalid₀, hvalid₁, Bool.false_eq_true, if_true, if_false]
    exact hout1 hvalid₁
  · exact
      { nonceBuf := (BitVec.ofNat_add n 2).symm
        lane := .reuse hcur0
        dataKey := fun i hi => (hkeys i hi).1
        pristine := fun _ i hi => (hkeys i hi).2.2
        examined := hexamined
        lane1 := .reuse hcur1
        dataKey1 := fun i hi => (hkeys i hi).2.1 }

variable (restart abort : Nat → Bool) (hashLimit : Nat)

/-- How a search through `counterHash` may end: at the first nonce that meets
the target, or without one at the limit or at a poll. -/
structure Searched (aesenc : Vec → Vec → Vec) (target half space : Mem) (key : Nat → Vec)
    (restart abort : Nat → Bool) (hashLimit : Nat) (o : ScanOut) : Prop where
  le_limit : o.completed ≤ hashLimit
  examined : o.examined = counterNonces o.completed
  hit : ∀ w, o.found = some w → ∃ n, w = BitVec.ofNat 32 n ∧
    fulltest (counterHash aesenc half space key n) target = true ∧
    (∀ k < n, fulltest (counterHash aesenc half space key k) target = false) ∧
    (∀ i < 32, o.vhash i = counterHash aesenc half space key n i) ∧
    n + 1 ≤ o.completed ∧ o.completed ≤ n + 2
  miss : o.found = none →
    (∀ k < o.completed, fulltest (counterHash aesenc half space key k) target = false) ∧
    (o.completed = hashLimit ∨ 0 < o.completed ∧ polled restart abort o.completed = true)

theorem Searched.first {o : ScanOut}
    (hs : Searched aesenc target half space key restart abort hashLimit o) (hpos : 0 < hashLimit)
    (h : fulltest (counterHash aesenc half space key 0) target = true) : o.found = some 0 := by
  cases hfound : o.found with
  | some w =>
    obtain ⟨n, rfl, _, hleast, _⟩ := hs.hit w hfound
    cases n with
    | zero => rfl
    | succ n => simp [hleast 0 (Nat.succ_pos n)] at h
  | none =>
    obtain ⟨hmiss, hend⟩ := hs.miss hfound
    have := hmiss 0 (by omega)
    simp [this] at h

theorem scalarLoop_searched (build : Build) {n m : Nat} {s : ScanState}
    (hm : hashLimit - n ≤ m) (hs : ScanReady half space key build n s) (hn : n ≤ hashLimit)
    (hmiss : ∀ k < n, fulltest (counterHash aesenc half space key k) target = false) :
    Searched aesenc target half space key restart abort hashLimit
      (scalarLoop aesenc target (fill1 build half) (half 0) restart abort hashLimit build n s) := by
  induction m generalizing n s with
  | zero =>
    rw [scalarLoop, if_neg (by omega)]
    exact ⟨hn, hs.examined, by simp, fun _ => ⟨hmiss, .inl (by dsimp only; omega)⟩⟩
  | succ m ih =>
    rw [scalarLoop]
    by_cases hlt : n < hashLimit
    · obtain ⟨hfound, hhash, hexamined, hready⟩ := scalarStep_eq aesenc target build hs
      generalize scalarStep aesenc target _ _ build s = r at hfound hhash hexamined hready ⊢
      rw [if_pos hlt]
      by_cases hvalid : fulltest (counterHash aesenc half space key n) target = true
      · rw [if_pos hvalid] at hfound
        simp only [hfound, Option.isSome_some, Bool.true_or, if_true]
        refine ⟨hlt, hexamined, fun w hw => ⟨n, ?_, hvalid, hmiss, hhash hvalid, ?_, ?_⟩, by simp⟩
        · exact (Option.some.inj hw).symm
        · exact le_refl _
        · exact Nat.le_succ _
      · rw [if_neg hvalid] at hfound
        have hmiss' := misses_succ hmiss hvalid
        simp only [hfound, Option.isSome_none, Bool.false_or]
        split_ifs with hpoll
        · exact ⟨hlt, hexamined, by simp, fun _ => ⟨hmiss', .inr ⟨Nat.succ_pos n, hpoll⟩⟩⟩
        · exact ih (by omega) (hready hfound) hlt hmiss'
    · rw [if_neg hlt]
      exact ⟨hn, hs.examined, by simp, fun _ => ⟨hmiss, .inl (by dsimp only; omega)⟩⟩

theorem batchLoop_searched (candidateHash : Mem) {n m : Nat} {s : BatchState}
    (hm : hashLimit - n ≤ m) (hs : BatchReady half space key n s) (hn : n ≤ hashLimit)
    (hmiss : ∀ k < n, fulltest (counterHash aesenc half space key k) target = false) :
    Searched aesenc target half space key restart abort hashLimit
      (batchLoop aesenc target (fill1 .arm half) (half 0) restart abort hashLimit candidateHash
        n s) := by
  induction m generalizing n s with
  | zero =>
    rw [batchLoop, if_neg (by omega)]
    exact scalarLoop_searched aesenc target restart abort hashLimit .arm (le_refl _)
      hs.toScanReady hn hmiss
  | succ m ih =>
    rw [batchLoop]
    by_cases hlt : n + 2 ≤ hashLimit
    · obtain ⟨hfound, hhash0, hhash1, hexamined, hready⟩ :=
        batchStep_eq aesenc target candidateHash hs
      generalize batchStep aesenc target _ _ candidateHash s = r
        at hfound hhash0 hhash1 hexamined hready ⊢
      rw [if_pos hlt]
      by_cases h0 : fulltest (counterHash aesenc half space key n) target = true
      · rw [if_pos h0] at hfound
        simp only [hfound, Option.isSome_some, Bool.true_or, if_true]
        refine ⟨hlt, hexamined, fun w hw => ⟨n, ?_, h0, hmiss, hhash0 h0, ?_, ?_⟩, by simp⟩
        · exact (Option.some.inj hw).symm
        · exact Nat.le_succ _
        · exact le_refl _
      have hmiss1 := misses_succ hmiss h0
      rw [if_neg h0] at hfound
      by_cases h1 : fulltest (counterHash aesenc half space key (n + 1)) target = true
      · rw [if_pos h1] at hfound
        simp only [hfound, Option.isSome_some, Bool.true_or, if_true]
        refine ⟨hlt, hexamined, fun w hw => ⟨n + 1, ?_, h1, hmiss1, ?_, ?_, ?_⟩, by simp⟩
        · exact (Option.some.inj hw).symm
        · exact hhash1 (Bool.eq_false_iff.mpr h0) h1
        · exact le_refl _
        · exact Nat.le_succ _
      · rw [if_neg h1] at hfound
        have hmiss2 := misses_succ hmiss1 h1
        simp only [hfound, Option.isSome_none, Bool.false_or]
        split_ifs with hpoll
        · exact ⟨hlt, hexamined, by simp, fun _ => ⟨hmiss2, .inr ⟨Nat.succ_pos (n + 1), hpoll⟩⟩⟩
        · exact ih (by omega) hready hlt hmiss2
    · rw [if_neg hlt]
      exact scalarLoop_searched aesenc target restart abort hashLimit .arm (le_refl _)
        hs.toScanReady hn hmiss

end Steps

section Scan

variable (aesenc : Vec → Vec → Vec)

def scanHalf (work : Work) : Mem := halfBlock aesenc (fullData work) 46

def scanKey (work : Work) : Nat → Vec :=
  generatedKey aesenc (load128 (scanHalf aesenc work) 0, load128 (scanHalf aesenc work) 16)

/-- The plain hash of the counter nonce `n` of a work: its prepared input, the
single-lane kernel on the generated key, the whole last permutation. -/
def nonceHash (work : Work) (n : Nat) : Mem :=
  counterHash aesenc (scanHalf aesenc work) (nonceSpace work) (scanKey aesenc work) n

def verusHash (data : Mem) : Mem :=
  let half := halfBlock aesenc data 46
  plainHash aesenc (generatedKey aesenc (load128 half 0, load128 half 16)) half

end Scan

theorem plainHash_congr (aesenc : Vec → Vec → Vec) {key key' : Nat → Vec} {buf buf' : Mem}
    (hkey : ∀ i < 552, key i = key' i) (hbuf : ∀ i < 64, buf i = buf' i) {i : Nat} (hi : i < 32) :
    plainHash aesenc key buf i = plainHash aesenc key' buf' i := by
  obtain ⟨hh, hk⟩ := plainHash_eq aesenc .portable noLog hkey hbuf
  dsimp only [plainHash]
  rw [hh]
  refine haraka512Keyed_congr aesenc (fun a _ => ?_) (fun a ha => hk _ ?_) hi
  · simp only [finalInput]
    split_ifs with h
    · exact hbuf a (by omega)
    · rfl
  · have := intermediate_lt (verusclhashv22 aesenc .portable key' buf' noLog).hash
    omega

theorem preparedInput_scanHalf (aesenc : Vec → Vec → Vec) (work : Work) (nonce : Word) {i : Nat}
    (hi : i < 64) :
    preparedInput (scanHalf aesenc work) (nonceSpace work) nonce i =
      halfBlock aesenc (preimage work nonce) 46 i :=
  preparedInput_halfBlock aesenc (fullData work) (nonceSpace work) nonce 46 hi

theorem nonceHash_eq_verusHash (aesenc : Vec → Vec → Vec) (work : Work) (n : Nat) {i : Nat}
    (hi : i < 32) :
    nonceHash aesenc work n i = verusHash aesenc (preimage work (BitVec.ofNat 32 n)) i := by
  have hhalf {a : Nat} (ha : a < 64) := preparedInput_scanHalf aesenc work (BitVec.ofNat 32 n) ha
  have hload (off : Nat) (ho : off + 16 ≤ 32) : load128 (scanHalf aesenc work) off =
      load128 (halfBlock aesenc (preimage work (BitVec.ofNat 32 n)) 46) off := by
    apply load128_congr
    intro a ha
    rw [← hhalf (by omega), preparedInput, if_pos (by omega)]
  refine plainHash_congr aesenc (fun a _ => ?_) (fun a ha => hhalf ha) hi
  rw [scanKey, hload 0 (by omega), hload 16 (by omega)]

theorem copyKeys_at (m : Nat → Vec) {i : Nat} (hi : i < 552) :
    let kept := memcpy m pristineKey m 0 verusKeySize128
    let both := memcpy kept verusKeySize128 kept pristineKey verusKeySize128
    both i = m i ∧ both (verusKeySize128 + i) = m i ∧ both (pristineKey + i) = m i := by
  have hlane : verusKeySize128 = 552 := rfl
  have hpristine : pristineKey = 1104 := rfl
  have hkept : memcpy m pristineKey m 0 verusKeySize128 (pristineKey + i) = m i := by
    rw [memcpy_at (by omega), Nat.zero_add]
  dsimp only
  refine ⟨?_, ?_, ?_⟩
  · rw [memcpy_off (.inl (by omega)), memcpy_off (.inl (by omega))]
  · rw [memcpy_at (by omega), hkept]
  · rw [memcpy_off (.inr (by omega)), hkept]

section Refinement

variable (aesenc : Vec → Vec → Vec) (build : Build) (storage : ScanStorage)
  (restart abort : Nat → Bool) (work : Work) (maxNonce : Word)

theorem scanLoops_searched :
    let half := verusHashHalf aesenc storage.buf2 (fullData work) 1487
    Searched aesenc work.target half (nonceSpace work)
      (generatedKey aesenc (load128 half 0, load128 half 16)) restart abort (max maxNonce.toNat 1)
      (scanLoops aesenc build storage restart abort work maxNonce) := by
  have hlimit : (if maxNonce = 0 then 1 else maxNonce.toNat) = max maxNonce.toNat 1 := by
    split_ifs with h
    · simp [h]
    · have : maxNonce.toNat ≠ 0 := fun h0 => h (BitVec.eq_of_toNat_eq h0)
      omega
  dsimp only [scanLoops]
  rw [hlimit]
  generalize verusHashHalf aesenc storage.buf2 (fullData work) 1487 = half
  have hlane : LaneReady half (nonceSpace work) (memcpy half 32 (nonceSpace work) 0 11) :=
    ⟨fun i hi => memcpy_off (.inl hi), fun i hi => by rw [memcpy_at hi, Nat.zero_add]⟩
  have hkey : ∀ i < 552, genNewCLKey aesenc half storage.keyStorage i =
      generatedKey aesenc (load128 half 0, load128 half 16) i :=
    fun i hi => genNewCLKey_at aesenc half storage.keyStorage hi
  generalize genNewCLKey aesenc half storage.keyStorage = keyStorage at hkey ⊢
  cases build with
  | portable =>
    refine scalarLoop_searched aesenc work.target restart abort _ .portable (le_refl _) ?_ (Nat.zero_le _)
      (by omega)
    exact
      { nonceBuf := rfl
        lane := hlane
        dataKey := hkey
        pristine := by simp
        examined := rfl }
  | arm =>
    refine batchLoop_searched aesenc work.target restart abort _ _ (le_refl _) ?_ (Nat.zero_le _) (by omega)
    have hkeys {i : Nat} (hi : i < 552) := copyKeys_at keyStorage hi
    exact
      { nonceBuf := rfl
        lane := hlane
        dataKey := fun i hi => (hkeys hi).1.trans (hkey i hi)
        pristine := fun _ i hi => (hkeys hi).2.2.trans (hkey i hi)
        examined := rfl
        lane1 := hlane
        dataKey1 := fun i hi => (hkeys hi).2.1.trans (hkey i hi) }

theorem scanLoops_nonceHash :
    Searched aesenc work.target (scanHalf aesenc work) (nonceSpace work) (scanKey aesenc work)
      restart abort (max maxNonce.toNat 1)
      (scanLoops aesenc build storage restart abort work maxNonce) := by
  have hs := scanLoops_searched aesenc build storage restart abort work maxNonce
  have hhalf {i : Nat} (hi : i < 64) := verusHashHalf_eq aesenc storage.buf2 (fullData work) 46 hi
  generalize hj : verusHashHalf aesenc storage.buf2 (fullData work) 1487 = half at hs
  rw [show 1487 = 32 * 46 + 15 from rfl] at hj
  rw [hj] at hhalf
  have hload (off : Nat) (ho : off + 16 ≤ 32) :
      load128 half off = load128 (scanHalf aesenc work) off :=
    load128_congr fun a ha => hhalf (by omega)
  have hhash (n : Nat) {i : Nat} (hi : i < 32) : counterHash aesenc half (nonceSpace work)
      (generatedKey aesenc (load128 half 0, load128 half 16)) n i = nonceHash aesenc work n i := by
    refine plainHash_congr aesenc (fun a _ => ?_) (fun a ha => ?_) hi
    · rw [scanKey, hload 0 (by omega), hload 16 (by omega)]
    · simp only [preparedInput]
      split_ifs with h
      · exact hhalf (by omega)
      · rfl
      · rfl
      · exact hhalf (by omega)
  have htest (n : Nat) : fulltest _ work.target = fulltest _ work.target :=
    fulltest_congr fun i hi => hhash n hi
  refine ⟨hs.le_limit, hs.examined, fun w hw => ?_, fun hnone => ?_⟩
  · obtain ⟨n, hwn, hmeet, hleast, hv, hlo, hhi⟩ := hs.hit w hw
    refine ⟨n, hwn, (htest n).symm.trans hmeet, fun k hk => (htest k).symm.trans (hleast k hk), ?_,
      hlo, hhi⟩
    exact fun i hi => (hv i hi).trans (hhash n hi)
  · obtain ⟨hmiss, hend⟩ := hs.miss hnone
    exact ⟨fun k hk => (htest k).symm.trans (hmiss k hk), hend⟩

theorem fulltest_iff_meetsTarget (hash target : Mem) :
    fulltest hash target = true ↔ meetsTarget target hash := fulltest_iff hash target

theorem meetsTarget_easiest {target : Mem} (h : ∀ i < 32, target i = 0xff) (hash : Mem) :
    meetsTarget target hash := by
  refine leValue_mono fun i hi => ?_
  rw [Nat.zero_add, h i hi]
  exact Nat.le_of_lt_succ (hash i).isLt

end Refinement

theorem scanhashVerus_easiest (aesenc : Vec → Vec → Vec) (build : Build) (optShowdiff : Bool)
    (storage : ScanStorage) (restart abort : Nat → Bool) {work : Work} (maxNonce : Word)
    (htarget : ∀ i < 32, work.target i = 0xff) :
    (scanhashVerus aesenc build optShowdiff storage restart abort work maxNonce).recorded = [0] := by
  have hs := scanLoops_nonceHash aesenc build storage restart abort work maxNonce
  have hfound := hs.first aesenc work.target restart abort _ (by omega)
    ((fulltest_iff_meetsTarget _ _).mpr (meetsTarget_easiest htarget _))
  simp only [scanhashVerus, finishScan, hfound, Option.toList_some]

theorem meetsTarget_of_recorded (aesenc : Vec → Vec → Vec) {build : Build} {optShowdiff : Bool}
    {storage : ScanStorage} {restart abort : Nat → Bool} {work : Work} {maxNonce nonce : Word}
    (h : nonce ∈ (scanhashVerus aesenc build optShowdiff storage restart abort work maxNonce).recorded) :
    meetsTarget work.target (verusHash aesenc (preimage work nonce)) := by
  have hs := scanLoops_nonceHash aesenc build storage restart abort work maxNonce
  obtain ⟨n, rfl, hmeets, _⟩ := hs.hit nonce (Option.mem_toList.mp h)
  rw [← fulltest_iff_meetsTarget]
  exact (fulltest_congr fun i hi => nonceHash_eq_verusHash aesenc work n hi).symm.trans hmeets

theorem scanhashVerus_hashesDone_pos (aesenc : Vec → Vec → Vec) (build : Build) (optShowdiff : Bool)
    (storage : ScanStorage) (restart abort : Nat → Bool) (work : Work) (maxNonce : Word) :
    0 < (scanhashVerus aesenc build optShowdiff storage restart abort work maxNonce).hashesDone := by
  have hs := scanLoops_nonceHash aesenc build storage restart abort work maxNonce
  dsimp only [scanhashVerus, finishScan]
  generalize scanLoops aesenc build storage restart abort work maxNonce = out at hs ⊢
  cases hfound : out.found with
  | some w =>
    obtain ⟨n, _, _, _, _, hlo, _⟩ := hs.hit w hfound
    omega
  | none =>
    rcases (hs.miss hfound).2 with hend | ⟨hpos, _⟩
    · omega
    · exact hpos

/-- A scan examines the counter from 0 on and records the first nonce whose
plain hash meets the target, in either build and whatever the flags do. -/
theorem scanhashVerus_first (aesenc : Vec → Vec → Vec) (build : Build) (storage : ScanStorage)
    (restart abort : Nat → Bool) (work : Work) (maxNonce : Word) (optShowdiff : Bool)
    (hvalid : work.validNonces = 0) :
    let limit := max maxNonce.toNat 1
    let H := nonceHash aesenc work
    let r := scanhashVerus aesenc build optShowdiff storage restart abort work maxNonce
    r.examined = counterNonces r.hashesDone ∧ r.hashesDone ≤ limit ∧
    ((∃ k < r.hashesDone, meetsTarget work.target (H k)) →
      ∃ n, IsLeast {k | k < r.hashesDone ∧ meetsTarget work.target (H k)} n ∧
        r.recorded = [BitVec.ofNat 32 n] ∧ r.rc = 1 ∧ (∀ i < 32, r.vhash i = H n i) ∧
        le32dec r.work.extra (1347 - 4) = BitVec.ofNat 32 n ∧
        n + 1 ≤ r.hashesDone ∧ r.hashesDone ≤ n + 2) ∧
    ((∀ k < r.hashesDone, ¬ meetsTarget work.target (H k)) →
      r.recorded = [] ∧ r.rc = 0 ∧
        ((∀ k, restart k = false ∧ abort k = false) → r.hashesDone = limit)) := by
  have hs := scanLoops_nonceHash aesenc build storage restart abort work maxNonce
  dsimp only [scanhashVerus]
  generalize scanLoops aesenc build storage restart abort work maxNonce = out at hs ⊢
  refine ⟨hs.examined, hs.le_limit, ?_, ?_⟩
  · rintro ⟨k, hk, hmeet⟩
    cases hfound : out.found with
    | none =>
      have := (hs.miss hfound).1 k hk
      rw [← fulltest_iff_meetsTarget] at hmeet
      exact absurd hmeet (by simpa [nonceHash] using this)
    | some w =>
      obtain ⟨n, rfl, hn, hleast, hv, hlo, hhi⟩ := hs.hit w hfound
      obtain ⟨hrec, hrc, hextra, _⟩ := finishScan_some optShowdiff hfound hvalid
      have hword : le32dec (finishScan optShowdiff work out).work.extra (1347 - 4) =
          le32dec (leBytes (BitVec.ofNat 32 n)) 0 := by
        refine le32dec_congr fun i hi => ?_
        rw [hextra _ (by omega), show 140 + (1347 - 4 + i) = 1483 + i by omega,
          preimage_nonce work _ hi, Nat.zero_add]
      rw [le32dec_leBytes_zero] at hword
      refine ⟨n, ⟨⟨hlo, (fulltest_iff_meetsTarget _ _).mp hn⟩, fun j hj => ?_⟩, hrec, hrc, hv,
        hword, hlo, hhi⟩
      by_contra hlt
      have := hleast j (by omega)
      rw [← Bool.not_eq_true, fulltest_iff_meetsTarget] at this
      exact this hj.2
  · intro hnone
    cases hfound : out.found with
    | none =>
      obtain ⟨hrec, hrc⟩ := finishScan_none work optShowdiff hfound
      refine ⟨hrec, by rw [hrc, hvalid]; rfl, fun hflags => ?_⟩
      rcases (hs.miss hfound).2 with hend | ⟨_, hpoll⟩
      · exact hend
      · simp [polled, hflags out.completed] at hpoll
    | some w =>
      obtain ⟨n, _, hn, _, _, hlo, _⟩ := hs.hit w hfound
      exact absurd ((fulltest_iff_meetsTarget _ _).mp hn) (hnone n hlo)


def zeroStorage : ScanStorage where
  buf2 := fun _ => 0
  keyStorage := fun _ => 0
  touched0 := noLog
  touched1 := noLog
  candidateHash := fun _ => 0

def easyWork : Work := { zeroWork with target := fun _ => 0xff }

theorem scanhashVerus_first_easyWork :
    let r := scanhashVerus (fun s k => s ^^^ k) .arm true zeroStorage (fun _ => false)
      (fun _ => false) easyWork 1000
    r.recorded = [0] ∧ le32dec r.work.extra 1343 = 0 ∧ r.rc = 1 ∧ 1 ≤ r.hashesDone := by
  obtain ⟨_, _, hsome, hnone⟩ := scanhashVerus_first (fun s k => s ^^^ k) .arm zeroStorage
    (fun _ => false) (fun _ => false) easyWork 1000 true rfl
  generalize scanhashVerus _ _ _ _ _ _ easyWork 1000 = r at hsome hnone ⊢
  have hmeets (n : Nat) : meetsTarget easyWork.target (nonceHash (fun s k => s ^^^ k) easyWork n) :=
    meetsTarget_easiest (fun _ _ => rfl) _
  have hpos : 0 < r.hashesDone := by
    by_contra hle
    have hlimit := (hnone fun k hk => absurd hk (by omega)).2.2 fun _ => ⟨rfl, rfl⟩
    omega
  obtain ⟨n, hn, hrec, hrc, _, hword, _⟩ := hsome ⟨0, hpos, hmeets 0⟩
  have hzero : n = 0 := Nat.le_zero.mp (hn.2 ⟨hpos, hmeets 0⟩)
  subst hzero
  exact ⟨hrec, hword, hrc, hpos⟩

end VerusMiner
