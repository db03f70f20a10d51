import VerusMiner.VerusHash
import VerusMiner.NonceHash
import VerusMiner.Work

/-! The scanner: it prepares the message of a work, counts a nonce through it
and records the first one whose hash is within the target. On ARM nonces are
taken two at a time while two are left. -/

namespace VerusMiner

/-- The header and solution of a work as one message of 1487 bytes. -/
def serializedWork (work : Work) : Mem :=
  let fullData := memcpy (fun _ => 0) 0 work.data 0 140
  let fullData := memcpy fullData 140 (ofBytes [0xfd, 0x40, 0x05]) 0 3
  memcpy fullData (140 + 3) work.solution 0 1344

def clearsNonCanonical (solution : Mem) : Bool :=
  let version := solution 0
  7 ≤ version && 0 < solution 5

/-- The previous block and roots, the bits, the nonce, and the two roots of the solution. -/
def clearNonCanonical (fullData : Mem) : Mem :=
  let fullData := memset fullData 4 0 96
  let fullData := memset fullData (4 + 32 + 32 + 32 + 4) 0 4
  let fullData := memset fullData (4 + 32 + 32 + 32 + 4 + 4) 0 32
  memset fullData (140 + 3 + 8) 0 64

def fullData (work : Work) : Mem :=
  if clearsNonCanonical work.solution then clearNonCanonical (serializedWork work)
  else serializedWork work

/-- Pool nonce, round and thread id of a cleared header, moved to the end of
the solution; the last four bytes are left to the counting nonce. -/
def nonceSpace (work : Work) : Mem :=
  if clearsNonCanonical work.solution then
    let space := memcpy (fun _ => 0) 0 work.data (4 * (verusNonceOffset - 3)) 7
    memcpy space 7 work.data (4 * (verusNonceOffset + 2)) 4
  else fun _ => 0

/-- What a scan finds in storage it does not initialise. -/
structure ScanStorage where
  buf2 : Mem
  keyStorage : Nat → Vec
  touched0 : KeyLog
  touched1 : KeyLog
  candidateHash : Mem

structure ScanState where
  nonceBuf : Word
  blockhashHalf : Mem
  keyStorage : Nat → Vec
  touched : KeyLog
  vhash : Mem
  examined : List Word

structure BatchState extends ScanState where
  blockhashHalf1 : Mem
  touched1 : KeyLog

structure ScanOut where
  completed : Nat
  vhash : Mem
  examined : List Word
  found : Option Word

def pristineKey : Nat := 2 * verusKeySize128

section Loops

variable (aesenc : Vec → Vec → Vec) (target : Mem) (fill1 : Vec) (firstByte : Byte)

def batchStep (candidateHash : Mem) (s : BatchState) : BatchState × Option Word :=
  let highTarget := le32dec target 28
  let half0 := prepareHashInput s.blockhashHalf fill1 firstByte s.nonceBuf
  let half1 := prepareHashInput s.blockhashHalf1 fill1 firstByte (s.nonceBuf + 1)
  let d := verusclhashv22Dual aesenc 0 verusKeySize128 s.keyStorage half0 half1 s.touched s.touched1
  let f0 := finalizeHash aesenc .arm candidateHash half0 target highTarget
    (window 0 d.keyStorage) d.out0
  let f1 := finalizeHash aesenc .arm candidateHash half1 target highTarget
    (window verusKeySize128 d.keyStorage) d.out1
  let keyStorage := restoreKey d.touched0.touched 0 pristineKey d.keyStorage
  let keyStorage := restoreKey d.touched1.touched verusKeySize128 pristineKey keyStorage
  ({ nonceBuf := s.nonceBuf + 2
     blockhashHalf := f0.curBuf
     blockhashHalf1 := f1.curBuf
     keyStorage := keyStorage
     touched := d.touched0
     touched1 := d.touched1
     vhash := if f0.valid then f0.hash else if f1.valid then f1.hash else s.vhash
     examined := s.examined ++ [s.nonceBuf, s.nonceBuf + 1] },
   if f0.valid then some s.nonceBuf else if f1.valid then some (s.nonceBuf + 1) else none)

def scalarStep (build : Build) (s : ScanState) : ScanState × Option Word :=
  let half := prepareHashInput s.blockhashHalf fill1 firstByte s.nonceBuf
  let r := verus2hash aesenc build s.vhash half target (le32dec target 28) s.keyStorage pristineKey
    s.touched
  ({ nonceBuf := if r.valid then s.nonceBuf else s.nonceBuf + 1
     blockhashHalf := r.curBuf
     keyStorage := r.dataKey
     touched := r.log
     vhash := r.hash
     examined := s.examined ++ [s.nonceBuf] },
   if r.valid then some s.nonceBuf else none)

def polled (restart abort : Nat → Bool) (completed : Nat) : Bool :=
  completed &&& 0x1ff = 0 && (restart completed || abort completed)

variable (restart abort : Nat → Bool) (hashLimit : Nat)

def scalarLoop (build : Build) (completed : Nat) (s : ScanState) : ScanOut :=
  if completed < hashLimit then
    let r := scalarStep aesenc target fill1 firstByte build s
    if r.2.isSome || polled restart abort (completed + 1) then
      { completed := completed + 1, vhash := r.1.vhash, examined := r.1.examined, found := r.2 }
    else scalarLoop build (completed + 1) r.1
  else { completed := completed, vhash := s.vhash, examined := s.examined, found := none }
termination_by hashLimit - completed

def batchLoop (candidateHash : Mem) (completed : Nat) (s : BatchState) : ScanOut :=
  if completed + 2 ≤ hashLimit then
    let r := batchStep aesenc target fill1 firstByte candidateHash s
    if r.2.isSome || polled restart abort (completed + 2) then
      { completed := completed + 2, vhash := r.1.vhash, examined := r.1.examined, found := r.2 }
    else batchLoop candidateHash (completed + 2) r.1
  else scalarLoop aesenc target fill1 firstByte restart abort hashLimit .arm completed s.toScanState
termination_by hashLimit - completed

end Loops

def recordSolution (optShowdiff : Bool) (work : Work) (fullData nonceSpace vhash : Mem)
    (solutionNonce : Word) : Work :=
  let nonceSpace := memcpy nonceSpace 11 (leBytes solutionNonce) 0 4
  let extra := memcpy work.extra 0 fullData 140 1347
  let work := { work with
    validNonces := work.validNonces + 1
    data := memcpy work.data 0 fullData 0 140
    extra := memcpy extra 1332 nonceSpace 0 15 }
  let nonce : Int := work.validNonces.toNat - 1
  let work := bnStoreHashTargetRatio optShowdiff vhash work.target work nonce
  { work with
    nonces := Function.update work.nonces nonce.toNat (le32dec fullData (4 * verusNonceOffset)) }

structure ScanResult where
  work : Work
  hashesDone : Nat
  vhash : Mem
  examined : List Word
  recorded : List Word

def ScanResult.rc (r : ScanResult) : Nat := r.work.validNonces.toNat

/-- The flags are read as functions of the number of hashes completed. -/
def scanLoops (aesenc : Vec → Vec → Vec) (build : Build) (storage : ScanStorage)
    (restart abort : Nat → Bool) (work : Work) (maxNonce : Word) : ScanOut :=
  let half := verusHashHalf aesenc storage.buf2 (fullData work) 1487
  let keyStorage := genNewCLKey aesenc half storage.keyStorage
  let fill1 := fill1 build half
  let firstByte := half 0
  let hashLimit := if maxNonce = 0 then 1 else maxNonce.toNat
  let s : ScanState :=
    { nonceBuf := 0
      blockhashHalf := memcpy half 32 (nonceSpace work) 0 11
      keyStorage := keyStorage
      touched := storage.touched0
      vhash := fun _ => 0
      examined := [] }
  match build with
  | .portable => scalarLoop aesenc work.target fill1 firstByte restart abort hashLimit build 0 s
  | .arm =>
    let keyStorage := memcpy keyStorage pristineKey keyStorage 0 verusKeySize128
    let keyStorage := memcpy keyStorage verusKeySize128 keyStorage pristineKey verusKeySize128
    let s : BatchState := { s with
      keyStorage := keyStorage
      blockhashHalf1 := memcpy half 32 (nonceSpace work) 0 11
      touched1 := storage.touched1 }
    batchLoop aesenc work.target fill1 firstByte restart abort hashLimit storage.candidateHash 0 s

def finishScan (optShowdiff : Bool) (work : Work) (out : ScanOut) : ScanResult :=
  let fullData := fullData work
  let work := match out.found with
    | some n => recordSolution optShowdiff work fullData (nonceSpace work) out.vhash n
    | none => work
  { work := { work with
      data := store32 work.data (4 * verusNonceOffset) (le32dec fullData (4 * verusNonceOffset) + 1) }
    hashesDone := out.completed
    vhash := out.vhash
    examined := out.examined
    recorded := out.found.toList }

def scanhashVerus (aesenc : Vec → Vec → Vec) (build : Build) (optShowdiff : Bool)
    (storage : ScanStorage) (restart abort : Nat → Bool) (work : Work) (maxNonce : Word) :
    ScanResult :=
  finishScan optShowdiff work (scanLoops aesenc build storage restart abort work maxNonce)

/-- The message hashed for a counter: the nonce space and the counter take the
place of the last 15 bytes. -/
def preimage (work : Work) (nonce : Word) : Mem :=
  memcpy (memcpy (fullData work) 1472 (nonceSpace work) 0 11) 1483 (leBytes nonce) 0 4

/-- In the storage of the scanner each lane of the dual kernel ends as it does
alone, and neither touches the other's key or the pristine copy. -/
theorem dualKernel_agrees (aesenc : Vec → Vec → Vec) (keyStorage : Nat → Vec) (buf0 buf1 : Mem)
    (touched0 touched1 : KeyLog) :
    let d := verusclhashv22Dual aesenc 0 verusKeySize128 keyStorage buf0 buf1 touched0 touched1
    let r0 := verusclhashv22 aesenc .arm (window 0 keyStorage) buf0 touched0
    let r1 := verusclhashv22 aesenc .arm (window verusKeySize128 keyStorage) buf1 touched1
    (d.out0 = r0.hash ∧ d.touched0 = r0.log ∧ ∀ i < verusKeySize128, d.keyStorage i = r0.key i) ∧
    (d.out1 = r1.hash ∧ d.touched1 = r1.log ∧
      ∀ i < verusKeySize128, d.keyStorage (verusKeySize128 + i) = r1.key i) ∧
    (∀ i, d.keyStorage (pristineKey + i) = keyStorage (pristineKey + i)) ∧
    (∀ i, r0.key (verusKeySize128 + i) = keyStorage (verusKeySize128 + i)) ∧
    ∀ i, r1.key (verusKeySize128 + i) = keyStorage (pristineKey + i) := by
  obtain ⟨hout0, hout1, hlog0, hlog1, hkey0, hkey1, hoff⟩ :=
    verusclhashv22Dual_eq aesenc 0 verusKeySize128 (by decide) keyStorage buf0 buf1 touched0 touched1
  have hlane : verusKeySize128 = 552 := rfl
  have hpristine : pristineKey = 1104 := rfl
  refine ⟨⟨hout0, hlog0, fun i hi => ?_⟩, ⟨hout1, hlog1, fun i hi => hkey1 i hi⟩,
    fun i => hoff _ (.inr (by omega)) (.inr (by omega)), fun i => ?_, fun i => ?_⟩
  · have h := hkey0 i hi
    rwa [Nat.zero_add] at h
  · rw [verusclhashv22_off _ _ _ _ _ (by omega), window_zero]
  · rw [verusclhashv22_off _ _ _ _ _ (by omega), window_apply,
      show verusKeySize128 + (verusKeySize128 + i) = pristineKey + i by omega]

theorem recordSolution_eq (optShowdiff : Bool) (work : Work) (fullData nonceSpace vhash : Mem)
    (nonce : Word) :
    let w := recordSolution optShowdiff work fullData nonceSpace vhash nonce
    w.data = memcpy work.data 0 fullData 0 140 ∧
    w.extra = memcpy (memcpy work.extra 0 fullData 140 1347) 1332
      (memcpy nonceSpace 11 (leBytes nonce) 0 4) 0 15 ∧
    w.validNonces = work.validNonces + 1 ∧
    w.nonces = Function.update work.nonces ((work.validNonces + 1).toNat - 1)
      (le32dec fullData (4 * verusNonceOffset)) ∧
    w.solution = work.solution ∧ w.target = work.target ∧ w.jobId = work.jobId := by
  dsimp only [recordSolution, bnStoreHashTargetRatio]
  have hnonce : ((work.validNonces + 1).toNat - 1 : Int).toNat = (work.validNonces + 1).toNat - 1 := by
    omega
  split_ifs <;> exact ⟨rfl, rfl, rfl, by rw [hnonce], rfl, rfl, rfl⟩

theorem recordSolution_extra (optShowdiff : Bool) (work : Work) (vhash : Mem) (nonce : Word)
    {i : Nat} (hi : i < 1347) :
    (recordSolution optShowdiff work (fullData work) (nonceSpace work) vhash nonce).extra i =
      preimage work nonce (140 + i) := by
  rw [(recordSolution_eq optShowdiff work _ _ vhash nonce).2.1]
  simp only [preimage, memcpy]
  split_ifs <;> first
    | omega
    | exact congrArg (leBytes nonce) (by omega)
    | exact congrArg (nonceSpace work) (by omega)
    | exact congrArg (fullData work) (by omega)

theorem finishScan_none (work : Work) (optShowdiff : Bool) {out : ScanOut} (h : out.found = none) :
    (finishScan optShowdiff work out).recorded = [] ∧
    (finishScan optShowdiff work out).rc = work.validNonces.toNat := by
  simp only [finishScan, ScanResult.rc, h, Option.toList_none, and_self]

theorem finishScan_some (optShowdiff : Bool) {work : Work} {out : ScanOut} {w : Word}
    (h : out.found = some w) (hvalid : work.validNonces = 0) :
    let r := finishScan optShowdiff work out
    r.recorded = [w] ∧ r.rc = 1 ∧ (∀ i < 1347, r.work.extra i = preimage work w (140 + i)) ∧
    (∀ i < 140, (i < 120 ∨ 124 ≤ i) → r.work.data i = fullData work i) ∧
    r.work.nonces 0 = le32dec (fullData work) 120 ∧ r.work.solution = work.solution ∧
    r.work.jobId = work.jobId := by
  obtain ⟨hdata, _, hcount, hnonces, hsolution, _, hjob⟩ :=
    recordSolution_eq optShowdiff work (fullData work) (nonceSpace work) out.vhash w
  rw [hvalid] at hcount hnonces
  simp only [finishScan, ScanResult.rc, h, Option.toList_some, true_and, hcount, hdata, hnonces,
    hsolution, hjob, and_true]
  refine ⟨rfl, fun i hi => recordSolution_extra optShowdiff work out.vhash w hi, ?_, ?_⟩
  · intro i hi hoff
    rw [store32, memcpy_off (by simp only [verusNonceOffset]; omega), memcpy_start hi]
  · exact Function.update_self _ _ _

theorem finishScan_rc (optShowdiff : Bool) {work : Work} (out : ScanOut)
    (hvalid : work.validNonces = 0) :
    (finishScan optShowdiff work out).rc = (finishScan optShowdiff work out).recorded.length := by
  cases hfound : out.found with
  | none =>
    obtain ⟨hrecorded, hrc⟩ := finishScan_none work optShowdiff hfound
    rw [hrecorded, hrc, hvalid]
    rfl
  | some w =>
    obtain ⟨hrecorded, hrc, _⟩ := finishScan_some optShowdiff hfound hvalid
    rw [hrecorded, hrc]
    rfl

theorem finishScan_kept (optShowdiff : Bool) (work : Work) (out : ScanOut) :
    let r := finishScan optShowdiff work out
    r.work.jobId = work.jobId ∧ r.work.solution = work.solution ∧ r.work.target = work.target ∧
    ∀ i < 120, r.work.data i = if r.recorded = [] then work.data i else fullData work i := by
  cases hfound : out.found with
  | none =>
    simp only [finishScan, hfound, Option.toList_none, if_true, true_and]
    exact fun i hi => memcpy_off (.inl hi)
  | some w =>
    obtain ⟨hdata, _, _, _, hsolution, htarget, hjob⟩ :=
      recordSolution_eq optShowdiff work (fullData work) (nonceSpace work) out.vhash w
    simp only [finishScan, hfound, Option.toList_some, hdata, hsolution, htarget, hjob, true_and,
      List.cons_ne_nil, if_false]
    intro i hi
    rw [store32, memcpy_off (.inl (by simp only [verusNonceOffset]; omega)), memcpy_start (by omega)]

end VerusMiner
