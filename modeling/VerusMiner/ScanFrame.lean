import VerusMiner.Preimage
import VerusMiner.ScanRefinement

/-! What a scan leaves of the header it was given: the nonce word counts on
from the image that was hashed, which the clearing may have emptied. -/

namespace VerusMiner

/-- The header but for the nonce word is as it was, and that word is one more. -/
structure FrameKept (work work' : Work) : Prop where
  header : ∀ i < 140, i < 120 ∨ 124 ≤ i → work'.data i = work.data i
  counter : le32dec work'.data 120 = le32dec work.data 120 + 1

/-- The build and the calls of one scan, with what it finds and polls. -/
structure ScanRun where
  build : Build
  optShowdiff : Bool
  storage : ScanStorage
  restart : Nat → Bool
  abort : Nat → Bool
  maxNonce : Word

def ScanRun.scan (aesenc : Vec → Vec → Vec) (r : ScanRun) (work : Work) : ScanResult :=
  scanhashVerus aesenc r.build r.optShowdiff r.storage r.restart r.abort work r.maxNonce

/-- The counter nonces that are tried as long as none is found: those below
the limit, up to the first poll that ends the scan. -/
def ScanRun.Tries (r : ScanRun) (n : Nat) : Prop :=
  n < max r.maxNonce.toNat 1 ∧ ∀ c ≤ n, 0 < c → polled r.restart r.abort c = false

section Polls

variable (aesenc : Vec → Vec → Vec) (target : Mem) (fill1 : Vec) (firstByte : Byte)
  (restart abort : Nat → Bool) (hashLimit : Nat)

theorem polled_odd {c : Nat} (h : c % 2 = 1) : polled restart abort c = false := by
  have hlow : c &&& 0x1ff = c % 512 := Nat.and_two_pow_sub_one_eq_mod c 9
  rw [polled, hlow, decide_eq_false (by omega), Bool.false_and]

/-- A scan goes on past a count only if the poll there did not end it. -/
theorem scalarLoop_unpolled (build : Build) {n m c : Nat} {s : ScanState} (hm : hashLimit - n ≤ m)
    (hn : n < c)
    (hc : c < (scalarLoop aesenc target fill1 firstByte restart abort hashLimit build n s).completed) :
    polled restart abort c = false := by
  induction m generalizing n s with
  | zero =>
    rw [scalarLoop, if_neg (by omega)] at hc
    dsimp only at hc
    omega
  | succ m ih =>
    rw [scalarLoop] at hc
    dsimp only at hc
    split_ifs at hc with hlt hstop
    · dsimp only at hc
      omega
    · rcases Nat.eq_or_lt_of_le hn with rfl | hn
      · exact (Bool.or_eq_false_iff.mp (Bool.eq_false_iff.mpr hstop)).2
      · exact ih (by omega) hn hc
    · dsimp only at hc
      omega

theorem batchLoop_unpolled (candidateHash : Mem) {n m c : Nat} {s : BatchState} (hm : hashLimit - n ≤ m)
    (heven : n % 2 = 0) (hn : n < c)
    (hc : c < (batchLoop aesenc target fill1 firstByte restart abort hashLimit candidateHash n s).completed) :
    polled restart abort c = false := by
  induction m generalizing n s with
  | zero =>
    rw [batchLoop, if_neg (by omega)] at hc
    exact scalarLoop_unpolled aesenc target fill1 firstByte restart abort hashLimit .arm hm hn hc
  | succ m ih =>
    rw [batchLoop] at hc
    dsimp only at hc
    split_ifs at hc with hlt hstop
    · dsimp only at hc
      exact polled_odd restart abort (by omega)
    · rcases Nat.lt_trichotomy c (n + 2) with hlt | rfl | hgt
      · exact polled_odd restart abort (by omega)
      · exact (Bool.or_eq_false_iff.mp (Bool.eq_false_iff.mpr hstop)).2
      · exact ih (by omega) (by omega) hgt hc
    · exact scalarLoop_unpolled aesenc target fill1 firstByte restart abort hashLimit .arm (Nat.le_refl _) hn hc

end Polls

theorem scanLoops_unpolled (aesenc : Vec → Vec → Vec) (build : Build) (storage : ScanStorage)
    (restart abort : Nat → Bool) (work : Work) (maxNonce : Word) {c : Nat} (hpos : 0 < c)
    (hc : c < (scanLoops aesenc build storage restart abort work maxNonce).completed) :
    polled restart abort c = false := by
  cases build with
  | portable => exact scalarLoop_unpolled _ _ _ _ _ _ _ _ (Nat.le_refl _) hpos hc
  | arm => exact batchLoop_unpolled _ _ _ _ _ _ _ _ (Nat.le_refl _) rfl hpos hc

theorem scanLoops_found_iff (aesenc : Vec → Vec → Vec) (r : ScanRun) (work : Work) :
    (scanLoops aesenc r.build r.storage r.restart r.abort work r.maxNonce).found = none ↔
      ∀ n, r.Tries n → ¬ meetsTarget work.target (verusHash aesenc (preimage work (BitVec.ofNat 32 n))) := by
  have hs := scanLoops_nonceHash aesenc r.build r.storage r.restart r.abort work r.maxNonce
  have hpoll {c : Nat} (hpos : 0 < c) (hc : c < _) :=
    scanLoops_unpolled aesenc r.build r.storage r.restart r.abort work r.maxNonce hpos hc
  have hmeets (n : Nat) : fulltest (nonceHash aesenc work n) work.target = true ↔
      meetsTarget work.target (verusHash aesenc (preimage work (BitVec.ofNat 32 n))) := by
    rw [← fulltest_iff_meetsTarget, fulltest_congr fun i hi => nonceHash_eq_verusHash aesenc work n hi]
  generalize scanLoops aesenc r.build r.storage r.restart r.abort work r.maxNonce = out at hs hpoll ⊢
  constructor
  · rintro hnone n ⟨hlimit, hunpolled⟩ hmeet
    obtain ⟨hmiss, hend⟩ := hs.miss hnone
    have hreached : n < out.completed := by
      by_contra hle
      rcases hend with hend | ⟨hpos, hpolled⟩
      · omega
      · exact Bool.false_ne_true ((hunpolled _ (by omega) hpos).symm.trans hpolled)
    exact Bool.false_ne_true ((hmiss n hreached).symm.trans ((hmeets n).mpr hmeet))
  · intro hall
    cases hfound : out.found with
    | none => rfl
    | some w =>
      obtain ⟨n, _, hmeet, _, _, hlo, _⟩ := hs.hit w hfound
      have hle := hs.le_limit
      refine absurd ((hmeets n).mp hmeet) (hall n ⟨by omega, fun c hc hpos => hpoll hpos (by omega)⟩)

theorem byte_of_word_zero {m : Mem} {off i : Nat} (h : le32dec m off = 0) (hi : i < 4) : m (off + i) = 0 := by
  rw [← leBytes_le32dec m off hi, h]
  simp [leBytes]

theorem fullData_header_of_not_clears {work : Work} (h : clearsNonCanonical work.solution = false) {i : Nat}
    (hi : i < 140) : fullData work i = work.data i := by
  rw [fullData_of_not_clears h, serializedWork_header work hi]

theorem finishScan_data (optShowdiff : Bool) (work : Work) (out : ScanOut) :
    (finishScan optShowdiff work out).work.data =
      store32 (if out.found = none then work.data else memcpy work.data 0 (fullData work) 0 140) 120
        (le32dec (fullData work) 120 + 1) := by
  cases hfound : out.found with
  | none => simp only [finishScan, hfound, if_true, verusNonceOffset]
  | some w =>
    obtain ⟨hdata, _⟩ := recordSolution_eq optShowdiff work (fullData work) (nonceSpace work) out.vhash w
    simp only [finishScan, hfound, hdata, reduceCtorEq, if_false, verusNonceOffset]

/-- The image that the scan copies back and counts on from. -/
theorem frameKept_iff_image (optShowdiff : Bool) (work : Work) (out : ScanOut) :
    FrameKept work (finishScan optShowdiff work out).work ↔
      le32dec (fullData work) 120 = le32dec work.data 120 ∧
      (out.found ≠ none → ∀ i < 140, i < 120 ∨ 124 ≤ i → fullData work i = work.data i) := by
  have hdata := finishScan_data optShowdiff work out
  have hcounter : le32dec (finishScan optShowdiff work out).work.data 120 =
      le32dec (fullData work) 120 + 1 := by
    rw [hdata, le32dec_store32]
  have hheader {i : Nat} (hi : i < 140) (hoff : i < 120 ∨ 124 ≤ i) :
      (finishScan optShowdiff work out).work.data i =
        if out.found = none then work.data i else fullData work i := by
    rw [hdata, store32, memcpy_off (by omega)]
    split_ifs
    · rfl
    · exact memcpy_start hi
  constructor
  · rintro ⟨hkept, hnext⟩
    rw [hcounter] at hnext
    refine ⟨(BitVec.add_left_inj 1).mp hnext, fun hfound i hi hoff => ?_⟩
    have hbyte := hkept i hi hoff
    rwa [hheader hi hoff, if_neg hfound] at hbyte
  · rintro ⟨hword, himage⟩
    refine ⟨fun i hi hoff => ?_, by rw [hcounter, hword]⟩
    rw [hheader hi hoff]
    split_ifs with hfound
    · rfl
    · exact himage hfound i hi hoff

theorem frameKept_iff (optShowdiff : Bool) (work : Work) (out : ScanOut) :
    FrameKept work (finishScan optShowdiff work out).work ↔
      clearsNonCanonical work.solution = false ∨
      le32dec work.data 120 = 0 ∧ ((∀ i < 140, Cleared i → work.data i = 0) ∨ out.found = none) := by
  rw [frameKept_iff_image]
  cases hclears : clearsNonCanonical work.solution with
  | false =>
    refine iff_of_true ⟨le32dec_congr fun i hi => ?_, fun _ i hi _ => ?_⟩ (.inl rfl)
    · exact fullData_header_of_not_clears hclears (by omega)
    · exact fullData_header_of_not_clears hclears hi
  | true =>
    have hzero : le32dec (fullData work) 120 = 0 := by
      have hbyte (i : Nat) (hi : i < 4) : fullData work (120 + i) = 0 :=
        fullData_of_clears hclears (.inr (.inl (by omega)))
      simp only [le32dec, hbyte 1 (by omega), hbyte 2 (by omega), hbyte 3 (by omega),
        show fullData work 120 = 0 from hbyte 0 (by omega)]
      rfl
    rw [hzero, eq_comm]
    simp only [Bool.true_eq_false, false_or]
    refine and_congr_right fun hword => ⟨fun himage => ?_, ?_⟩
    · by_cases hfound : out.found = none
      · exact .inr hfound
      refine .inl fun i hi hcleared => ?_
      by_cases hoff : i < 120 ∨ 124 ≤ i
      · rw [← himage hfound i hi hoff, fullData_of_clears hclears hcleared]
      · rw [show i = 120 + (i - 120) by omega]
        exact byte_of_word_zero hword (by omega)
    · rintro (hempty | hnone) hfound i hi _
      · by_cases hcleared : Cleared i
        · rw [fullData_of_clears hclears hcleared, hempty i hi hcleared]
        · rw [fullData_kept work hcleared, serializedWork_header work hi]
      · exact absurd hnone hfound

def rescan (aesenc : Vec → Vec → Vec) (rs : List ScanRun) (work : Work) : Work :=
  rs.foldl (fun work r => (r.scan aesenc work).work) work

theorem scan_solution (aesenc : Vec → Vec → Vec) (r : ScanRun) (work : Work) :
    (r.scan aesenc work).work.solution = work.solution :=
  (finishScan_kept r.optShowdiff work _).2.1

/-- Without the clearing scan after scan counts the word up. -/
theorem rescan_kept (aesenc : Vec → Vec → Vec) (rs : List ScanRun) {work : Work}
    (h : clearsNonCanonical work.solution = false) :
    (∀ i < 140, i < 120 ∨ 124 ≤ i → (rescan aesenc rs work).data i = work.data i) ∧
    le32dec (rescan aesenc rs work).data 120 = le32dec work.data 120 + BitVec.ofNat 32 rs.length := by
  induction rs generalizing work with
  | nil => exact ⟨fun _ _ _ => rfl, (BitVec.add_zero _).symm⟩
  | cons r rs ih =>
    obtain ⟨hheader, hcounter⟩ := (frameKept_iff r.optShowdiff work _).mpr (.inl h)
    have hclears : clearsNonCanonical (r.scan aesenc work).work.solution = false := by rwa [scan_solution]
    obtain ⟨hrest, hcount⟩ := ih hclears
    refine ⟨fun i hi hoff => (hrest i hi hoff).trans (hheader i hi hoff), ?_⟩
    refine hcount.trans ?_
    rw [show le32dec (r.scan aesenc work).work.data 120 = le32dec work.data 120 + 1 from hcounter,
      List.length_cons, BitVec.add_assoc, BitVec.add_comm 1, BitVec.ofNat_add]
    rfl

/-- A scan keeps its frame exactly if nothing is cleared, or if the nonce word
is zero and either no nonce it tries meets the target or what the clearing
removes from the header is zero already. -/
theorem scanFrame_iff (aesenc : Vec → Vec → Vec) :
    (∀ (r : ScanRun) work, FrameKept work (r.scan aesenc work).work ↔
      clearsNonCanonical work.solution = false ∨
      le32dec work.data 120 = 0 ∧ ((∀ i < 140, Cleared i → work.data i = 0) ∨
        ∀ n, r.Tries n →
          ¬ meetsTarget work.target (verusHash aesenc (preimage work (BitVec.ofNat 32 n))))) ∧
    ∀ (rs : List ScanRun) work, clearsNonCanonical work.solution = false →
      (∀ i < 140, i < 120 ∨ 124 ≤ i → (rescan aesenc rs work).data i = work.data i) ∧
      le32dec (rescan aesenc rs work).data 120 = le32dec work.data 120 + BitVec.ofNat 32 rs.length := by
  refine ⟨fun r work => ?_, fun rs work h => rescan_kept aesenc rs h⟩
  rw [← scanLoops_found_iff]
  exact frameKept_iff r.optShowdiff work _

def pbaasWork : Work := { zeroWork with
  data := fun i => if i = 120 then 5 else 0
  solution := fun i => if i = 0 ∨ i = 5 then 7 else 0 }

/-- From the cleared image the word 5 goes to 1. -/
theorem scanFrame_cleared : ¬ FrameKept pbaasWork
    ((ScanRun.mk .portable false zeroStorage (fun _ => false) (fun _ => false) 1).scan
      (fun s k => s ^^^ k) pbaasWork).work := by
  intro h
  rcases (frameKept_iff false pbaasWork _).mp h with hclears | ⟨hword, _⟩
  · exact absurd hclears (by decide)
  · exact absurd hword (by decide)

end VerusMiner
