import VerusMiner.Notify
import VerusMiner.ScanRefinement

/-! Handing a found share over: the texts submitted for it, and the message a
pool rebuilds from them. -/

namespace VerusMiner

structure Submission where
  jobid : CString
  timehex : CString
  noncestr : CString
  solhex : CString

/-- The solution in hex, with the roots that may have been cleared in it
taken from the job again. -/
def solutionHex (work : Work) : CString :=
  let solhex := cbin2hex work.extra 0 1347
  let solHexRestore := cbin2hex work.solution 8 64
  solhex.take (6 + 16) ++ solHexRestore ++ solhex.drop (6 + 16 + 128)

def verusStratumSubmit (xnonce1Size : Nat) (work : Work) : Submission :=
  let data := store32 work.data (4 * verusNonceOffset) (work.nonces work.submitNonceId.toNat)
  { jobid := work.jobId.drop 8
    timehex := sprintfX 8 (swab32 (le32dec data (4 * 25)))
    noncestr := cbin2hex data (4 * 27 + xnonce1Size) (32 - xnonce1Size)
    solhex := solutionHex work }

def submitFound (work : Work) : Work :=
  { work with
    submitNonceId := 0
    data := store32 work.data (4 * verusNonceOffset) (work.nonces 0) }

/-- The header and solution a pool puts together from its job, the
extranonce it gave out, and what was submitted. -/
def poolMessage (b : JobBytes) (xnonce1 : List Byte) (s : Submission) : Option (List Byte) := do
  let ntime ← hexDecode s.timehex
  let nonce ← hexDecode s.noncestr
  let solution ← hexDecode s.solhex
  some (b.version ++ b.prevhash ++ b.merkle ++ b.reserved ++ ntime ++ b.nbits ++ xnonce1 ++ nonce ++
    solution)

/-- The rebuilt message with the same clearing applied to it. -/
def poolPreimage (msg : List Byte) : Mem :=
  if clearsNonCanonical (window 143 (ofBytes msg)) then clearNonCanonical (ofBytes msg)
  else ofBytes msg

/-- The job id behind what the client puts before it, cut to its field. -/
theorem genWorkJobId_eq (job : StratumJob) (jobId : CString) : genWorkJobId job jobId =
    sprintfX 7 (be32dec job.ntime 0 &&& 0xfffffff) ++ ' ' :: jobId.take 119 := by
  generalize hv : be32dec job.ntime 0 &&& 0xfffffff = v
  have hlength : (sprintfX 7 v).length = 7 := rfl
  rw [genWorkJobId, hv, List.take_append, hlength, List.take_of_length_le (by rw [hlength]; decide)]
  rfl

structure WorkHolds (work : Work) (b : JobBytes) (xnonce1 : List Byte) : Prop
    extends WorkOf work b where
  xnonce1 : Holds work.data 108 xnonce1

theorem Holds.bytesAt {m : Mem} {off n : Nat} {bs : List Byte} (h : Holds m off bs)
    (hn : bs.length = n) : bytesAt m off n = bs :=
  bytesAt_ofBytes hn fun i hi => h i (by omega)

theorem genWorkData_holds {sctx : StratumCtx} {jobId : CString} {b : JobBytes} (hb : b.Sized)
    (h : JobHolds sctx.job jobId b) (hx : sctx.xnonce1Size ≤ 12) {work : Work}
    (hdata : work.data = genWorkData sctx)
    (hsolution : ∀ i < 1344, work.solution i = sctx.job.solution i) :
    WorkHolds work b (bytesAt sctx.xnonce1 0 sctx.xnonce1Size) := by
  refine { toWorkOf := genWorkData_workOf hb h hdata hsolution, xnonce1 := fun i hi => ?_ }
  rw [length_bytesAt] at hi
  rw [hdata, genWorkData_at sctx (by omega), if_neg (by omega), if_neg (by omega), if_neg (by omega),
    if_neg (by omega), if_neg (by omega), xnonce1Size_mask hx, if_pos (by omega),
    Nat.add_sub_cancel_left, ofBytes_bytesAt _ _ hi, Nat.zero_add]

theorem WorkHolds.thread {work : Work} {b : JobBytes} {xnonce1 : List Byte} (hb : b.Sized)
    (h : WorkHolds work b xnonce1) (hx : xnonce1.length ≤ 12) (round randWord : Word) :
    WorkHolds (threadWork work round randWord) b xnonce1 := by
  have hkeep {off : Nat} {bs : List Byte} (hh : Holds work.data off bs)
      (hle : off + bs.length ≤ 120) : Holds (threadWork work round randWord).data off bs := by
    intro i hi
    rw [threadWork_data work round randWord (.inl (by omega)), hh i hi]
  obtain ⟨h1, h2, h3, h4, h5, h6, _⟩ := hb
  exact
    { version := hkeep h.version (by omega)
      prevhash := hkeep h.prevhash (by omega)
      merkle := hkeep h.merkle (by omega)
      reserved := hkeep h.reserved (by omega)
      ntime := hkeep h.ntime (by omega)
      nbits := hkeep h.nbits (by omega)
      xnonce1 := hkeep h.xnonce1 (by omega)
      solution := h.solution }

/-- The message a pool rebuilds, before any clearing: the job's header, the
nonce field as submitted, the solution as hashed with the job's roots in it. -/
def rebuilt (work : Work) (xnonce1Size : Nat) (nonce : Word) : Mem := fun i =>
  if i < 108 + xnonce1Size then work.data i
  else if i < 140 then fullData work i
  else if 151 ≤ i ∧ i < 215 then work.solution (i - 143)
  else preimage work nonce i

structure FoundIn (work : Work) (nonce : Word) (found : Work) : Prop where
  extra : ∀ i < 1347, found.extra i = preimage work nonce (140 + i)
  data : ∀ i < 140, (i < 120 ∨ 124 ≤ i) → found.data i = fullData work i
  nonces : found.nonces 0 = le32dec (fullData work) 120
  solution : found.solution = work.solution

theorem finishScan_foundIn (optShowdiff : Bool) {work : Work} {out : ScanOut} {nonce : Word}
    (hvalid : work.validNonces = 0) (h : (finishScan optShowdiff work out).recorded = [nonce]) :
    FoundIn work nonce (finishScan optShowdiff work out).work := by
  have hfound : out.found = some nonce := by
    change out.found.toList = [nonce] at h
    cases hf : out.found with
    | none => simp [hf] at h
    | some w => simpa [hf] using h
  obtain ⟨_, _, hextra, hdata, hnonces, hsolution, _⟩ := finishScan_some optShowdiff hfound hvalid
  exact ⟨hextra, hdata, hnonces, hsolution⟩

section Rebuild

variable {work found : Work} {nonce : Word} {b : JobBytes} {xnonce1 : List Byte}

theorem FoundIn.submitted_data (h : FoundIn work nonce found) {i : Nat} (hi : i < 140) :
    store32 (submitFound found).data (4 * verusNonceOffset) ((submitFound found).nonces 0) i =
      fullData work i := by
  dsimp only [submitFound, verusNonceOffset]
  by_cases hin : 120 ≤ i ∧ i < 124
  · obtain ⟨k, rfl⟩ := Nat.exists_eq_add_of_le hin.1
    rw [h.nonces, store32, memcpy_at (by omega), Nat.zero_add, leBytes_le32dec _ _ (by omega)]
  · rw [store32, memcpy_off (by omega), store32, memcpy_off (by omega), h.data i hi (by omega)]

theorem FoundIn.timehex (h : FoundIn work nonce found) (hw : WorkHolds work b xnonce1)
    (hb : b.Sized) (size : Nat) :
    (verusStratumSubmit size (submitFound found)).timehex = hexEncode b.ntime := by
  dsimp only [verusStratumSubmit]
  rw [sprintfX_swab32, cbin2hex]
  refine congrArg hexEncode (bytesAt_ofBytes hb.ntime fun i hi => ?_)
  have hkept : ¬ Cleared (100 + i) := by
    simp only [Cleared]
    omega
  refine (h.submitted_data (by omega)).trans ?_
  rw [fullData_kept work hkept, serializedWork_header work (by omega), hw.ntime i (by rwa [hb.ntime])]

theorem FoundIn.noncestr (h : FoundIn work nonce found) {size : Nat} (hsize : size ≤ 12) :
    (verusStratumSubmit size (submitFound found)).noncestr =
      hexEncode (bytesAt (rebuilt work size nonce) (108 + size) (32 - size)) := by
  dsimp only [verusStratumSubmit]
  refine congrArg hexEncode (bytesAt_congr fun i hi => ?_)
  refine (h.submitted_data (by omega)).trans ?_
  rw [rebuilt, if_neg (by omega), if_pos (by omega)]

theorem FoundIn.solhex (h : FoundIn work nonce found) {size : Nat} (hsize : size ≤ 12) :
    (verusStratumSubmit size (submitFound found)).solhex =
      hexEncode (bytesAt (rebuilt work size nonce) 140 1347) := by
  have hhead : bytesAt found.extra 0 11 = bytesAt (rebuilt work size nonce) 140 11 :=
    bytesAt_congr fun i hi => by
      rw [h.extra _ (by omega), rebuilt, if_neg (by omega), if_neg (by omega), if_neg (by omega),
        Nat.zero_add]
  have hroots : bytesAt found.solution 8 64 = bytesAt (rebuilt work size nonce) 151 64 :=
    bytesAt_congr fun i hi => by
      rw [h.solution, rebuilt, if_neg (by omega), if_neg (by omega), if_pos (by omega),
        show 151 + i - 143 = 8 + i by omega]
  have htail : bytesAt found.extra 75 1272 = bytesAt (rebuilt work size nonce) 215 1272 :=
    bytesAt_congr fun i hi => by
      rw [h.extra _ (by omega), rebuilt, if_neg (by omega), if_neg (by omega), if_neg (by omega),
        show 140 + (75 + i) = 215 + i by omega]
  have h1 := bytesAt_take found.extra 0 11 1336
  have h2 := bytesAt_drop found.extra 0 75 1272
  dsimp only [verusStratumSubmit, solutionHex, submitFound, cbin2hex]
  rw [show 6 + 16 = 2 * 11 from rfl, show 2 * 11 + 128 = 2 * 75 from rfl, hexEncode_take,
    hexEncode_drop, h1, h2, Nat.zero_add, hhead, hroots, htail, ← hexEncode_append,
    ← hexEncode_append, bytesAt_append, bytesAt_append _ 140 75]

theorem FoundIn.poolMessage (h : FoundIn work nonce found) (hw : WorkHolds work b xnonce1)
    (hb : b.Sized) {size : Nat} (hlen : xnonce1.length = size) (hx : size ≤ 12) :
    poolMessage b xnonce1 (verusStratumSubmit size (submitFound found)) =
      some (bytesAt (rebuilt work size nonce) 0 1487) := by
  have hfield {off n : Nat} {bs : List Byte} (hh : Holds work.data off bs) (hn : bs.length = n)
      (hle : off + n ≤ 108 + size) : bytesAt (rebuilt work size nonce) off n = bs := by
    refine bytesAt_ofBytes hn fun i hi => ?_
    rw [rebuilt, if_pos (by omega), hh i (by omega)]
  simp only [VerusMiner.poolMessage, h.timehex hw hb, h.noncestr hx, h.solhex hx,
    hexDecode_hexEncode, Option.bind_eq_bind, Option.bind_some, Option.some.injEq]
  rw [← hfield hw.version hb.version (by omega), ← hfield hw.prevhash hb.prevhash (by omega),
    ← hfield hw.merkle hb.merkle (by omega), ← hfield hw.reserved hb.reserved (by omega),
    ← hfield hw.ntime hb.ntime (by omega), ← hfield hw.nbits hb.nbits (by omega),
    ← hfield hw.xnonce1 hlen (by omega)]
  generalize rebuilt work size nonce = m
  have happ := bytesAt_append m 0
  simp only [Nat.zero_add] at happ
  rw [happ 4 32, happ 36 32, happ 68 32, happ 100 4, happ 104 4, happ 108 size,
    happ (108 + size) (32 - size), show 108 + size + (32 - size) = 140 by omega, happ 140 1347]

theorem poolPreimage_rebuilt (work : Work) {size : Nat} (hx : size ≤ 12) (nonce : Word) {i : Nat}
    (hi : i < 1487) :
    poolPreimage (bytesAt (rebuilt work size nonce) 0 1487) i = preimage work nonce i := by
  have hm {i : Nat} (hi : i < 1487) :
      ofBytes (bytesAt (rebuilt work size nonce) 0 1487) i = rebuilt work size nonce i := by
    rw [ofBytes_bytesAt _ _ hi, Nat.zero_add]
  have hsel {i : Nat} (hi : i < 8) :
      window 143 (ofBytes (bytesAt (rebuilt work size nonce) 0 1487)) i = work.solution i := by
    rw [window_apply, hm (by omega), rebuilt, if_neg (by omega), if_neg (by omega),
      if_neg (by omega), preimage_selector work nonce hi]
  have hmode : clearsNonCanonical (window 143 (ofBytes (bytesAt (rebuilt work size nonce) 0 1487))) =
      clearsNonCanonical work.solution :=
    clearsNonCanonical_congr (hsel (by omega)) (hsel (by omega))
  have hkept (hc : ¬ Cleared i) : rebuilt work size nonce i = preimage work nonce i := by
    have hsolution : ¬ (151 ≤ i ∧ i < 215) := fun h => hc (.inr (.inr h))
    simp only [rebuilt, if_neg hsolution]
    split_ifs with h1 h2
    · rw [preimage_below work nonce (by omega), fullData_kept work hc,
        serializedWork_header work (by omega)]
    · exact (preimage_below work nonce (by omega)).symm
    · rfl
  rw [poolPreimage, hmode]
  cases hclear : clearsNonCanonical work.solution with
  | true =>
    rw [if_pos rfl]
    by_cases hc : Cleared i
    · rw [clearNonCanonical_cleared _ hc, preimage_below work nonce (by simp only [Cleared] at hc; omega),
        fullData_of_clears hclear hc]
    · rw [clearNonCanonical_kept _ hc, hm hi, hkept hc]
  | false =>
    rw [if_neg Bool.false_ne_true, hm hi]
    by_cases hc : Cleared i
    · have hbelow : i < 1472 := by
        simp only [Cleared] at hc
        omega
      rw [preimage_below work nonce hbelow, fullData_of_not_clears hclear]
      simp only [rebuilt, fullData_of_not_clears hclear]
      split_ifs with h1 h2 h3
      · exact (serializedWork_header work (by omega)).symm
      · rfl
      · rw [← serializedWork_solution work (by omega), Nat.add_sub_cancel' (by omega)]
      · rw [preimage_below work nonce hbelow, fullData_of_not_clears hclear]
    · exact hkept hc

end Rebuild

/-- What a submission for `nonce` in `work` gives back to the pool that sent
the message `params`. -/
structure RoundTrips (params : Json) (b : JobBytes) (xnonce1 : List Byte) (work : Work)
    (nonce : Word) (s : Submission) : Prop where
  rebuilt : ∃ msg, poolMessage b xnonce1 s = some msg ∧ msg.length = 1487 ∧
    ∀ i < 1487, poolPreimage msg i = preimage work nonce i
  ntime : ∃ stime, jsonStringValue (jsonArrayGet params 5) = some stime ∧
    s.timehex = stime.map Char.toLower
  nonceField : clearsNonCanonical work.solution = false → ∃ bs, hexDecode s.noncestr = some bs ∧
    bytesAt (preimage work nonce) 108 32 = xnonce1 ++ bs
  roots : ∃ bs, hexDecode s.solhex = some bs ∧
    ∀ i < 64, ofBytes bs (3 + 8 + i) = ofBytes b.solution (8 + i)
  hashedZeros : clearsNonCanonical work.solution = true →
    ∀ i < 64, preimage work nonce (140 + 3 + 8 + i) = 0

theorem FoundIn.roundTrips {params : Json} {jobId : CString} {work found : Work} {nonce : Word}
    {b : JobBytes} {xnonce1 : List Byte} (henc : Encodes params jobId b)
    (h : FoundIn work nonce found) (hw : WorkHolds work b xnonce1) {size : Nat}
    (hlen : xnonce1.length = size) (hx : size ≤ 12) :
    RoundTrips params b xnonce1 work nonce (verusStratumSubmit size (submitFound found)) := by
  have hb := henc.sized
  constructor
  · exact ⟨_, h.poolMessage hw hb hlen hx, length_bytesAt _ _ _,
      fun i hi => poolPreimage_rebuilt work hx nonce hi⟩
  · obtain ⟨stime, hs, hdec, _⟩ := fieldBytes_eq_some.mp henc.ntime
    exact ⟨stime, hs, by rw [h.timehex hw hb, hexEncode_hexDecode hdec]⟩
  · intro hclear
    refine ⟨_, by rw [h.noncestr hx, hexDecode_hexEncode], ?_⟩
    have hheader {i : Nat} (hi : i < 140) : preimage work nonce i = fullData work i :=
      preimage_below work nonce (by omega)
    have hxnonce : bytesAt (preimage work nonce) 108 size = xnonce1 := by
      refine bytesAt_ofBytes hlen fun i hi => ?_
      rw [hheader (by omega), fullData_of_not_clears hclear, serializedWork_header work (by omega),
        hw.xnonce1 i (by omega)]
    have hrest : bytesAt (preimage work nonce) (108 + size) (32 - size) =
        bytesAt (VerusMiner.rebuilt work size nonce) (108 + size) (32 - size) :=
      bytesAt_congr fun i hi => by
        rw [hheader (by omega), VerusMiner.rebuilt, if_neg (by omega), if_pos (by omega)]
    rw [← hrest, ← hxnonce, bytesAt_append, Nat.add_sub_cancel' (by omega)]
  · refine ⟨_, by rw [h.solhex hx, hexDecode_hexEncode], fun i hi => ?_⟩
    rw [ofBytes_bytesAt _ _ (by omega), VerusMiner.rebuilt, if_neg (by omega), if_neg (by omega),
      if_pos (by omega), show 140 + (3 + 8 + i) - 143 = 0 + (8 + i) by omega,
      hw.solution _ (by rw [hb.solution]; omega)]
  · intro hclear i hi
    have hc : Cleared (140 + 3 + 8 + i) := .inr (.inr (by omega))
    rw [preimage_below work nonce (by omega), fullData_of_clears hclear hc]

/-- From the notify to the share: what the pool rebuilds is what was hashed. -/
theorem share_roundTrips (aesenc : Vec → Vec → Vec) (build : Build) (optShowdiff : Bool)
    (storage : ScanStorage) (restart abort : Nat → Bool) (maxNonce : Word) (optDifficulty : Float)
    {now : Word} {ntimeStack : Mem} {sctx sctx' : StratumCtx} {params : Json} {jobId : CString}
    {b : JobBytes} (henc : Encodes params jobId b)
    (hnotify : verusStratumNotify now ntimeStack sctx params = some (true, sctx'))
    (hx : 3 ≤ sctx'.xnonce1Size ∧ sctx'.xnonce1Size ≤ 12) {work₀ work : Work}
    (hgen : stratumGenWork optDifficulty sctx' work₀ = some work) (round randWord nonce : Word)
    (hfound : (scanhashVerus aesenc build optShowdiff storage restart abort
      (threadWork work round randWord) maxNonce).recorded = [nonce]) :
    RoundTrips params b (bytesAt sctx'.xnonce1 0 sctx'.xnonce1Size)
      (threadWork work round randWord) nonce
      (verusStratumSubmit sctx'.xnonce1Size (submitFound
        (scanhashVerus aesenc build optShowdiff storage restart abort
          (threadWork work round randWord) maxNonce).work)) := by
  obtain ⟨sctx₁, hrun, hholds⟩ := verusStratumNotify_holds now ntimeStack henc sctx
  have hctx : sctx' = sctx₁ := by
    rw [hnotify] at hrun
    exact congrArg Prod.snd (Option.some.inj hrun)
  subst hctx
  obtain ⟨hdata, hsolution, _⟩ := stratumGenWork_eq hgen
  have hw := genWorkData_holds henc.sized hholds hx.2 hdata hsolution
  have hlen := length_bytesAt sctx'.xnonce1 0 sctx'.xnonce1Size
  exact (finishScan_foundIn optShowdiff rfl hfound).roundTrips henc
    (hw.thread henc.sized (by omega) round randWord) hlen hx.2

def easyCtx : StratumCtx :=
  { zeroCtx with xnonce1Size := 4, job := { zeroJob with extra := fun _ => 0xff } }

def easyNotify : Json := zeroNotify ['1'] '0' (List.replicate 2688 '0')

def easyNotified : StratumCtx := notified easyCtx easyNotify

def easyJobWork : Work := threadWork (generated easyNotified) 5 7

theorem share_roundTrips_easy :
    RoundTrips easyNotify (zeroBytes (List.replicate 4 0) (List.replicate 1344 0))
      (bytesAt easyNotified.xnonce1 0 4) easyJobWork 0
      (verusStratumSubmit 4 (submitFound (scanhashVerus (fun s k => s ^^^ k) .portable true
        zeroStorage (fun _ => false) (fun _ => false) easyJobWork 100).work)) := by
  have henc := zeroNotify_encodes ['1'] '0' (textEncodes_zeros (k := 8) rfl)
    (textEncodes_zeros (k := 2688) rfl)
  have hnotify : verusStratumNotify 0 (fun _ => 0) easyCtx easyNotify = some (true, easyNotified) := rfl
  have hgen : stratumGenWork 1.0 easyNotified zeroWork = some (generated easyNotified) :=
    stratumGenWork_generated rfl
  have htarget : ∀ i < 32, easyJobWork.target i = 0xff :=
    fun _ hi => generated_target easyNotified rfl hi
  exact share_roundTrips (fun s k => s ^^^ k) .portable true zeroStorage (fun _ => false)
    (fun _ => false) 100 1.0 henc hnotify (by decide) hgen 5 7 0
    (scanhashVerus_easiest _ _ _ _ _ _ _ htarget)

end VerusMiner
