import VerusMiner.HexExact
import VerusMiner.MinerLoop
import VerusMiner.ScanFrame
import VerusMiner.Subscription

/-! Work asked for over HTTP: the hex of a `getwork` answer becomes the header
a thread scans, and the share of that scan goes back as hex. -/

namespace VerusMiner

def jobjBinary (obj : Json) (key : CString) (buf : Mem) (buflen : Nat) : Mem × Bool :=
  match jsonStringValue (jsonGet obj key) with
  | none => (buf, false)
  | some hexstr => hex2bin buf 0 hexstr buflen

def targetToDiff (target : Mem) : Float :=
  let m := leNat target 22 8
  if m = 0 then 0.0 else Float.ofNat 0x0000ffff00000000 / Float.ofNat m

def verusNetworkDiff (work : Work) : Float := targetToDiffVerus (le32dec work.data (4 * 26))

/-- Each of the first `n` words, little-endian as it lies there, as the number it is. -/
def le32Words (m : Mem) (n : Nat) : Mem :=
  (List.range n).foldl (fun m i => store32 m (4 * i) (le32dec m (4 * i))) m

/-- A text that is no header of 128 bytes is taken at its own length, an `int`
compared with a `size_t`. -/
def rereadData (val : Json) (text : CString) (data : Mem) : Mem × Bool :=
  let len := BitVec.ofNat 32 text.length
  if len = 0 ∨ 192 * 2 < (len.signExtend 64).toNat then (data, false)
  else jobjBinary val "data".toList data (len.toInt / 2).toNat

/-- There is no text to measure if the member is no string. -/
def decodeData (val : Json) (data : Mem) : Option (Mem × Bool) :=
  let first := jobjBinary val "data".toList data 128
  if first.2 then some first
  else match jsonGet val "data".toList with
    | none => some (first.1, false)
    | some obj => (jsonStringValue (some obj)).map fun text => rereadData val text first.1

structure DecodeConfig where
  optShowdiff : Bool
  optMaxDiff : Float
  allowMininginfo : Bool

structure DecodeState where
  work : Work
  netDiff : Float
  stratumDiff : Float

def decodeTaken (cfg : DecodeConfig) (s : DecodeState) (data target : Mem) : DecodeState :=
  let work := { s.work with data := le32Words data 32, target := le32Words target 8 }
  let netDiff :=
    if (cfg.optShowdiff || cfg.optMaxDiff > 0.0) && !cfg.allowMininginfo then verusNetworkDiff work
    else s.netDiff
  let targetdiff := targetToDiff work.target
  { work := { work with targetdiff := targetdiff, jobId := cbin2hex work.data (4 * 17) 4 }
    netDiff := netDiff
    stratumDiff := targetdiff }

/-- For this algorithm the size is the default one. -/
def workDecode (cfg : DecodeConfig) (val : Json) (s : DecodeState) : Option (Bool × DecodeState) :=
  (decodeData val s.work.data).map fun data =>
    if !data.2 then (false, { s with work := { s.work with data := data.1 } })
    else
      let target := jobjBinary val "target".toList s.work.target 32
      if !target.2 then (false, { s with work := { s.work with data := data.1, target := target.1 } })
      else (true, decodeTaken cfg s data.1 target.1)

def getworkText (str : CString) : CString :=
  "\x7b\"method\": \"getwork\", \"params\": [\"".toList ++ str ++ "\"], \"id\":10\x7d\r\n".toList

/-- The request `submit_upstream_work` makes of a share for a wallet. -/
def getworkRequest (work : Work) : CString := getworkText (cbin2hex (le32Words work.data 32) 0 128)

theorem le32Words_eq (m : Mem) (n : Nat) : le32Words m n = m := by
  have hword (m : Mem) (off : Nat) : store32 m off (le32dec m off) = m := by
    funext i
    by_cases hin : off ≤ i ∧ i < off + 4
    · rw [store32, memcpy_within hin, Nat.zero_add, leBytes_le32dec m off (by omega),
        Nat.add_sub_cancel' hin.1]
    · exact memcpy_off (by omega)
  induction n with
  | zero => rfl
  | succ n ih => rw [le32Words, List.range_succ, List.foldl_concat, ← le32Words, ih, hword]

section Header

def headerText (val : Json) : Option CString := jsonStringValue (jsonGet val "data".toList)

theorem hex2bin_behind (output : Mem) (off : Nat) (hexstr : CString) (len : Nat) {i : Nat}
    (hi : off + hexstr.length / 2 ≤ i) : (hex2bin output off hexstr len).1 i = output i := by
  induction output, off, hexstr, len using hex2bin.induct with
  | case1 => rw [hex2bin]
  | case2 => rw [hex2bin]
  | case3 => rw [hex2bin]
  | case4 output off c₀ c₁ hexstr len byte output' hok ih =>
    simp only [List.length_cons] at hi
    rw [hex2bin, if_pos hok, ih (by omega)]
    exact Function.update_of_ne (by omega) _ _
  | case5 output off c₀ c₁ hexstr len byte hok =>
    simp only [List.length_cons] at hi
    rw [hex2bin, if_neg hok]
    exact Function.update_of_ne (by omega) _ _

theorem hex2bin_digits {s : CString} (hdigits : ∀ c ∈ s, IsHex c) {output output' : Mem} {len : Nat}
    (h : hex2bin output 0 s len = (output', true)) :
    ∃ bs, hexDecode s = some bs ∧ bs.length = len ∧ output' = memcpy output 0 (ofBytes bs) 0 len := by
  have hlen := ((hex2bin_taken_iff output 0 s len).mp (congrArg Prod.snd h)).length_eq
  obtain ⟨bs, hbs, rfl⟩ := exists_hexDecode hlen hdigits
  rw [hex2bin_of_hexDecode hbs] at h
  exact ⟨bs, hbs, rfl, (congrArg Prod.fst h).symm⟩

theorem decodeData_none {val : Json} (hs : headerText val = none) (data : Mem) :
    decodeData val data = if (jsonGet val "data".toList).isSome then none else some (data, false) := by
  rw [headerText] at hs
  simp only [decodeData, jobjBinary, hs, Bool.false_eq_true, if_false]
  cases hobj : jsonGet val "data".toList with
  | none => rfl
  | some obj =>
    rw [hobj] at hs
    simp only [hs, Option.map_none, Option.isSome_some, if_true]

theorem decodeData_some {val : Json} {s : CString} (hs : headerText val = some s) (data : Mem) :
    decodeData val data = some (
      if (hex2bin data 0 s 128).2 then hex2bin data 0 s 128
      else rereadData val s (hex2bin data 0 s 128).1) := by
  rw [headerText] at hs
  simp only [decodeData, jobjBinary, hs]
  cases hobj : jsonGet val "data".toList with
  | none =>
    rw [hobj] at hs
    cases hs
  | some obj =>
    rw [hobj] at hs
    simp only [hs, Option.map_some]
    split_ifs <;> rfl

/-- What the first reading wrote the second one writes again. -/
theorem decodeData_digits {val : Json} {s : CString} (hs : headerText val = some s) (hdigits : ∀ c ∈ s, IsHex c)
    {data data' : Mem} (h : decodeData val data = some (data', true)) :
    ∃ bs, hexDecode s = some bs ∧ data' = memcpy data 0 (ofBytes bs) 0 bs.length := by
  rw [decodeData_some hs] at h
  have h := Option.some.inj h
  split_ifs at h
  · obtain ⟨bs, hbs, hsize, hdata⟩ := hex2bin_digits hdigits h
    exact ⟨bs, hbs, hsize ▸ hdata⟩
  · rw [headerText] at hs
    simp only [rereadData, jobjBinary, hs] at h
    split_ifs at h
    · cases h
    obtain ⟨bs, hbs, hsize, hdata⟩ := hex2bin_digits hdigits h
    refine ⟨bs, hbs, ?_⟩
    rw [hdata, ← hsize]
    funext i
    by_cases hi : i < bs.length
    · rw [memcpy_start hi, memcpy_start hi]
    · have hlength := hexDecode_length hbs
      rw [memcpy_off (by omega), memcpy_off (by omega), hex2bin_behind _ _ _ _ (by omega)]

end Header

section Loop

variable (dcfg : DecodeConfig) (cfg : LoopConfig)

/-- The answer a request took, with those refused before it. -/
structure WorkAnswers where
  refused : List Json
  taken : Json

/-- A share handed over: the answers its header was copied from, those the
shared work held then, the nonce word the scan began with, and what it found. -/
structure GetworkShare where
  source : Option WorkAnswers
  current : Option WorkAnswers
  start : Word
  found : List Word
  share : Work

/-- The shared work with the answers it is from, and the work of one thread with
the answers that were copied into it. -/
structure GetworkState where
  shared : DecodeState
  answer : Option WorkAnswers
  accepted : List WorkAnswers
  work : Work
  source : Option WorkAnswers
  running : Bool
  shares : List GetworkShare

inductive GetworkEvent where
  | answered (vals : List Json) (pooln : Byte)
  | pass (p : Pass)

/-- The answers to one request are decoded on the same work until one is taken. -/
def workioGetWork (refused : List Json) (d : DecodeState) :
    List Json → Option (Option WorkAnswers × DecodeState)
  | [] => some (none, d)
  | val :: vals => (workDecode dcfg val d).bind fun r =>
    if r.1 then some (some ⟨refused, val⟩, r.2) else workioGetWork (refused ++ [val]) r.2 vals

/-- A work fresh from the heap, which is copied over the shared one. -/
def getworkAnswered (s : GetworkState) (vals : List Json) (pooln : Byte) : Option GetworkState :=
  (workioGetWork dcfg [] { s.shared with work := { zeroWork with pooln := pooln } } vals).map fun r =>
    match r.1 with
    | some a => { s with shared := r.2, answer := some a, accepted := s.accepted ++ [a] }
    | none => s

def handedShare (p : Pass) (r : ScanResult) : Option Work :=
  if p.aborted || p.restarted then none else (submitShare cfg r.rc (clampNonce r.work)).1

/-- The shared work is copied if its first words differ. -/
def GetworkState.copied (s : GetworkState) : Option WorkAnswers :=
  if memcmp s.work.data s.shared.work.data wcmplen then s.answer else s.source

/-- Without stratum a header of zeros is scanned as well. -/
def getworkPass (s : GetworkState) (p : Pass) : GetworkState :=
  let work := refresh cfg s.shared.work s.work p.rand1 p.rand2
  if p.idle then { s with work := work, source := s.copied }
  else
    let r := (scan cfg p (startScan work)).result
    let after := afterScan cfg p r
    { s with
      work := after.1
      source := s.copied
      running := after.2
      shares := s.shares ++ (handedShare cfg p r).toList.map fun share =>
        ⟨s.copied, s.answer, le32dec work.data (4 * verusNonceOffset), r.recorded, share⟩ }

/-- The first pass waits for an answer. -/
def getworkStep (s : GetworkState) : GetworkEvent → Option GetworkState
  | .answered vals pooln => getworkAnswered dcfg s vals pooln
  | .pass p => if s.running && s.answer.isSome then some (getworkPass cfg s p) else none

def getworkStart : GetworkState where
  shared := ⟨zeroWork, 0.0, 0.0⟩
  answer := none
  accepted := []
  work := zeroWork
  source := none
  running := true
  shares := []

end Loop

/-- What answers make of a header of zeros, one after the other. -/
def headerLeft (vals : List Json) : Mem :=
  vals.foldl (fun m val => ((decodeData val m).map Prod.fst).getD m) fun _ => 0

def answerData : Option WorkAnswers → Mem
  | none => fun _ => 0
  | some a => headerLeft (a.refused ++ [a.taken])

/-- The header but for the nonce word is that of the answer. -/
structure FromAnswer (source : Option WorkAnswers) (work : Work) : Prop where
  header : ∀ i < 128, i < 120 ∨ 124 ≤ i → work.data i = answerData source i
  solution : work.solution = fun _ => 0

def WorkAnswers.Decoded (a : WorkAnswers) : Prop :=
  ∃ data, decodeData a.taken (headerLeft a.refused) = some (data, true)

def SameHead (source current : Option WorkAnswers) : Prop :=
  ∀ i < wcmplen, answerData source i = answerData current i

structure GetworkInv (s : GetworkState) : Prop where
  shared : s.shared.work.data = answerData s.answer ∧ s.shared.work.solution = fun _ => 0
  work : FromAnswer s.source s.work
  accepted : ∀ a, s.answer = some a ∨ s.source = some a → a ∈ s.accepted
  taken : ∀ a ∈ s.accepted, a.Decoded
  shares : ∀ h ∈ s.shares, FromAnswer h.source h.share ∧ le32dec h.share.data 120 = h.start ∧
    (∃ n, h.found = [n]) ∧ (∀ a, h.source = some a → a ∈ s.accepted) ∧
    ∃ a ∈ s.accepted, h.current = some a ∧ SameHead h.source h.current

section Passes

variable {dcfg : DecodeConfig} {cfg : LoopConfig} {s s' : GetworkState}

theorem headerLeft_concat (vals : List Json) (val : Json) :
    headerLeft (vals ++ [val]) = ((decodeData val (headerLeft vals)).map Prod.fst).getD (headerLeft vals) :=
  List.foldl_concat ..

theorem workDecode_data {val : Json} {ok : Bool} {d d' : DecodeState} (h : workDecode dcfg val d = some (ok, d')) :
    ∃ r, decodeData val d.work.data = some r ∧ d'.work.data = r.1 ∧ (ok = true → r.2 = true) ∧
      d'.work.solution = d.work.solution := by
  obtain ⟨⟨data, taken⟩, hdata, hrest⟩ := Option.map_eq_some_iff.mp h
  refine ⟨(data, taken), hdata, ?_⟩
  dsimp only at hrest
  cases taken with
  | false =>
    cases hrest
    exact ⟨rfl, fun hok => (by cases hok), rfl⟩
  | true =>
    simp only [Bool.not_true, Bool.false_eq_true, if_false] at hrest
    split_ifs at hrest
    · cases hrest
      exact ⟨rfl, fun _ => rfl, rfl⟩
    · cases hrest
      exact ⟨le32Words_eq data 32, fun _ => rfl, rfl⟩

/-- The answer that is taken is written over what the refused ones left. -/
theorem workioGetWork_taken {refused vals : List Json} {d d' : DecodeState} {a : WorkAnswers}
    (hleft : d.work.data = headerLeft refused) (h : workioGetWork dcfg refused d vals = some (some a, d')) :
    a.Decoded ∧ d'.work.data = answerData (some a) ∧ d'.work.solution = d.work.solution := by
  induction vals generalizing refused d with
  | nil => cases h
  | cons val vals ih =>
    obtain ⟨⟨ok, d₁⟩, hdecode, h⟩ := Option.bind_eq_some_iff.mp h
    obtain ⟨⟨data, taken⟩, hdata, hkept, htaken, hsolution⟩ := workDecode_data hdecode
    rw [hleft] at hdata
    have hnext : d₁.work.data = headerLeft (refused ++ [val]) := by
      rw [hkept, headerLeft_concat, hdata]
      rfl
    cases ok with
    | true =>
      cases h
      obtain rfl : taken = true := htaken rfl
      exact ⟨⟨data, hdata⟩, hnext, hsolution⟩
    | false =>
      obtain ⟨hdecoded, hfrom, hkeptSolution⟩ := ih hnext h
      exact ⟨hdecoded, hfrom, hkeptSolution.trans hsolution⟩

theorem getworkAnswered_inv {vals : List Json} {pooln : Byte} (hs : GetworkInv s)
    (h : getworkAnswered dcfg s vals pooln = some s') : GetworkInv s' := by
  obtain ⟨⟨answers, d⟩, hget, rfl⟩ := Option.map_eq_some_iff.mp h
  cases answers with
  | none => exact hs
  | some a =>
    obtain ⟨hdecoded, hfrom, hsolution⟩ := workioGetWork_taken rfl hget
    refine
      { shared := ⟨hfrom, hsolution⟩
        work := hs.work
        accepted := ?_
        taken := fun a' ha => ?_
        shares := fun h hh => ?_ }
    · rintro a' (ha | ha)
      · cases ha
        exact List.mem_append_right _ (List.mem_singleton_self _)
      · exact List.mem_append_left _ (hs.accepted a' (.inr ha))
    · rcases List.mem_append.mp ha with ha | ha
      · exact hs.taken a' ha
      · exact List.mem_singleton.mp ha ▸ hdecoded
    · obtain ⟨hshare, hstart, hfound, hmem, a', ha', hcurrent⟩ := hs.shares h hh
      exact ⟨hshare, hstart, hfound, fun v hv => List.mem_append_left _ (hmem v hv),
        a', List.mem_append_left _ ha', hcurrent⟩

theorem store32_off {m : Mem} {off i : Nat} {v : Word} (h : i < off ∨ off + 4 ≤ i) : store32 m off v i = m i :=
  memcpy_off h

theorem refresh_fromAnswer (cfg : LoopConfig) (hs : GetworkInv s) (rand1 rand2 : Word) :
    FromAnswer s.copied (refresh cfg s.shared.work s.work rand1 rand2) := by
  obtain ⟨hdata, hsolution⟩ := hs.shared
  obtain ⟨-, hkept, hkeptSolution⟩ := refreshTarget_kept cfg s.shared.work s.work
  have hword (i : Nat) (hi : i < 128) (hoff : i < 120 ∨ 124 ≤ i) (m : Mem) (v v' : Word) :
      store32 (store32 m (4 * verusNonceOffset) v) (4 * (verusNonceOffset + 2)) v' i = m i := by
    simp only [verusNonceOffset]
    rw [store32_off (by omega), store32_off (by omega)]
  simp only [refresh, refreshHeader, hkept, GetworkState.copied]
  split_ifs
  · refine ⟨fun i hi hoff => ?_, hsolution⟩
    rw [← hdata]
    exact hword i hi hoff _ _ _
  · refine ⟨fun i hi hoff => ?_, hkeptSolution.trans hs.work.solution⟩
    rw [← hs.work.header i hi hoff]
    exact hword i hi hoff _ _ _

/-- What is not copied begins as the shared work does. -/
theorem copied_sameHead (hs : GetworkInv s) : SameHead s.copied s.answer := by
  intro i hi
  rw [GetworkState.copied]
  cases hdiffers : memcmp s.work.data s.shared.work.data wcmplen with
  | true => rfl
  | false =>
    have hwords : wcmplen = 68 := rfl
    rw [if_neg Bool.false_ne_true, ← hs.work.header i (by omega) (.inl (by omega)),
      memcmp_eq_false.mp hdiffers i hi, hs.shared.1]

theorem scan_fromAnswer {source : Option WorkAnswers} {work : Work} (p : Pass) (h : FromAnswer source work) :
    let r := (scan cfg p (startScan work)).result
    FromAnswer source r.work ∧
      (0 < r.rc → r.work.nonces 0 = le32dec work.data 120 ∧ ∃ n, r.recorded = [n]) := by
  intro r
  have hclears : clearsNonCanonical (startScan work).solution = false := by
    rw [show (startScan work).solution = work.solution from rfl, h.solution]
    rfl
  have hframe : FrameKept (startScan work) r.work := (frameKept_iff cfg.optShowdiff _ _).mpr (.inl hclears)
  obtain ⟨-, hsolution, -⟩ := scan_kept cfg p (startScan work)
  refine ⟨⟨fun i hi hoff => (hframe.header i (by omega) hoff).trans (h.header i hi hoff),
    hsolution.trans h.solution⟩, fun hrc => ?_⟩
  cases hfound : (scanLoops cfg.aesenc cfg.build p.storage p.restart p.abort (startScan work) p.maxNonce).found with
  | none =>
    have hzero : r.rc = 0 := (finishScan_none (startScan work) cfg.optShowdiff hfound).2
    omega
  | some w =>
    obtain ⟨hrecorded, -, -, -, hnonce, -⟩ :=
      finishScan_some cfg.optShowdiff hfound (rfl : (startScan work).validNonces = 0)
    refine ⟨hnonce.trans (le32dec_congr fun i hi => ?_), w, hrecorded⟩
    exact fullData_header_of_not_clears hclears (by omega)

theorem FromAnswer.nonceWord {source : Option WorkAnswers} {work work' : Work} {v : Word} (h : FromAnswer source work)
    (hdata : work'.data = store32 work.data (4 * verusNonceOffset) v) (hsolution : work'.solution = work.solution) :
    FromAnswer source work' where
  header i hi hoff := by
    rw [hdata, store32_off (by simp only [verusNonceOffset]; omega), h.header i hi hoff]
  solution := hsolution.trans h.solution

theorem clampNonce_fromAnswer {source : Option WorkAnswers} {work : Work} (h : FromAnswer source work) :
    FromAnswer source (clampNonce work) ∧ (clampNonce work).nonces = work.nonces := by
  rw [clampNonce]
  split_ifs
  · exact ⟨h.nonceWord rfl rfl, rfl⟩
  · exact ⟨h, rfl⟩

theorem afterScan_fromAnswer {source : Option WorkAnswers} (p : Pass) {r : ScanResult}
    (h : FromAnswer source r.work) : FromAnswer source (afterScan cfg p r).1 := by
  have hclamp := (clampNonce_fromAnswer h).1
  simp only [afterScan, submitShare]
  split_ifs
  · exact h
  · exact h
  · have hfound : FromAnswer source (submitFound (clampNonce r.work)) := hclamp.nonceWord rfl rfl
    exact hfound.nonceWord rfl rfl
  · exact hclamp

theorem handedShare_fromAnswer {source : Option WorkAnswers} {p : Pass} {r : ScanResult} {share : Work}
    (h : FromAnswer source r.work) (hshare : handedShare cfg p r = some share) :
    FromAnswer source share ∧ 0 < r.rc ∧ le32dec share.data 120 = r.work.nonces 0 := by
  obtain ⟨hclamp, hnonces⟩ := clampNonce_fromAnswer h
  simp only [handedShare, submitShare] at hshare
  split_ifs at hshare with hstop hfound
  · cases hshare
    refine ⟨hclamp.nonceWord rfl rfl, hfound.1, ?_⟩
    rw [← hnonces]
    exact le32dec_store32 _ _ _

theorem getworkPass_inv (p : Pass) (hs : GetworkInv s) (hanswer : s.answer.isSome = true) :
    GetworkInv (getworkPass cfg s p) := by
  have hwork := refresh_fromAnswer cfg hs p.rand1 p.rand2
  obtain ⟨a, ha⟩ := Option.isSome_iff_exists.mp hanswer
  have hsource (a' : WorkAnswers) (h : s.copied = some a') : a' ∈ s.accepted := by
    rw [GetworkState.copied] at h
    split_ifs at h
    · exact hs.accepted a' (.inl h)
    · exact hs.accepted a' (.inr h)
  have haccepted (a' : WorkAnswers) (h : s.answer = some a' ∨ s.copied = some a') : a' ∈ s.accepted :=
    h.elim (fun h => hs.accepted a' (.inl h)) (hsource a')
  simp only [getworkPass]
  split_ifs with hidle
  · exact { shared := hs.shared, work := hwork, accepted := haccepted, taken := hs.taken, shares := hs.shares }
  · obtain ⟨hscan, hnonce⟩ := scan_fromAnswer p hwork
    refine
      { shared := hs.shared
        work := afterScan_fromAnswer p hscan
        accepted := haccepted
        taken := hs.taken
        shares := fun h hh => ?_ }
    rcases List.mem_append.mp hh with hh | hh
    · exact hs.shares h hh
    · obtain ⟨share, hshare, rfl⟩ := List.mem_map.mp hh
      obtain ⟨hfrom, hrc, hword⟩ := handedShare_fromAnswer hscan (Option.mem_toList.mp hshare)
      exact ⟨hfrom, hword.trans (hnonce hrc).1, (hnonce hrc).2, hsource, a, hs.accepted a (.inl ha), ha,
        copied_sameHead hs⟩

theorem getworkStep_inv {e : GetworkEvent} (hs : GetworkInv s) (h : getworkStep dcfg cfg s e = some s') :
    GetworkInv s' := by
  cases e with
  | answered vals pooln => exact getworkAnswered_inv hs h
  | pass p =>
    rw [getworkStep] at h
    split_ifs at h with hready
    cases h
    exact getworkPass_inv p hs (Bool.and_eq_true_iff.mp hready).2

theorem getworkStart_inv : GetworkInv getworkStart where
  shared := ⟨rfl, rfl⟩
  work := ⟨fun _ _ _ => rfl, rfl⟩
  accepted _ h := h.elim (fun h => by cases h) fun h => by cases h
  taken _ h := absurd h List.not_mem_nil
  shares _ hh := absurd hh List.not_mem_nil

end Passes

/-- The hex of a header of 128 bytes: that of the answer in lower case over that
of what the refused ones had left, or zeros. -/
def announced : Option WorkAnswers → CString
  | none => List.replicate (2 * 128) '0'
  | some a =>
    let text := (headerText a.taken).getD []
    (text.map Char.toLower ++ (hexEncode (bytesAt (headerLeft a.refused) 0 128)).drop text.length).take (2 * 128)

theorem bytesAt_overwritten (m : Mem) (bs : List Byte) (n : Nat) :
    bytesAt (memcpy m 0 (ofBytes bs) 0 bs.length) 0 n = (bs ++ (bytesAt m 0 n).drop bs.length).take n := by
  apply List.ext_getElem
  · simp [bytesAt]
    omega
  · intro i h₁ h₂
    rw [length_bytesAt] at h₁
    simp only [bytesAt, List.getElem_map, List.getElem_range, Nat.zero_add, List.getElem_take]
    by_cases hi : i < bs.length
    · rw [memcpy_start hi, List.getElem_append_left hi, ofBytes, List.getD_eq_getElem?_getD,
        List.getElem?_eq_getElem hi, Option.getD_some]
    · rw [memcpy_off (by omega), List.getElem_append_right (by omega), List.getElem_drop, List.getElem_map,
        List.getElem_range]
      congr 1
      omega

theorem hexEncode_overwritten {s : CString} {bs : List Byte} (h : hexDecode s = some bs) (m : Mem) (n : Nat) :
    hexEncode (bytesAt (memcpy m 0 (ofBytes bs) 0 bs.length) 0 n) =
      (s.map Char.toLower ++ (hexEncode (bytesAt m 0 n)).drop s.length).take (2 * n) := by
  rw [bytesAt_overwritten, ← hexEncode_take, hexEncode_append, hexEncode_hexDecode h, hexDecode_length h,
    hexEncode_drop]

theorem answerData_announced {source : Option WorkAnswers} (htaken : ∀ a, source = some a → a.Decoded)
    (hdigits : ∀ a text, source = some a → headerText a.taken = some text → ∀ c ∈ text, IsHex c) :
    hexEncode (bytesAt (answerData source) 0 128) = announced source := by
  cases source with
  | none =>
    have hbytes : bytesAt (answerData none) 0 128 = List.replicate (List.range 128).length 0 := List.map_const ..
    rw [hbytes, List.length_range, hexEncode_hexDecode (hexDecode_zeros 128), List.map_replicate]
    rfl
  | some a =>
    obtain ⟨data, hdata⟩ := htaken a rfl
    have hall : answerData (some a) = data := by
      rw [answerData, headerLeft_concat, hdata]
      rfl
    rw [hall, announced]
    cases hs : headerText a.taken with
    | none =>
      rw [decodeData_none hs] at hdata
      split_ifs at hdata
      cases hdata
    | some s =>
      obtain ⟨bs, hbs, rfl⟩ := decodeData_digits hs (hdigits a s rfl hs) hdata
      exact hexEncode_overwritten hbs _ 128

theorem FromAnswer.requestHex {source : Option WorkAnswers} {share : Work} (h : FromAnswer source share) :
    hexEncode (bytesAt share.data 0 128) =
      (hexEncode (bytesAt (answerData source) 0 128)).take (2 * 120) ++
        hexEncode (bytesAt (leBytes (le32dec share.data 120)) 0 4) ++
        (hexEncode (bytesAt (answerData source) 0 128)).drop (2 * 124) := by
  have hhead : bytesAt share.data 0 120 = bytesAt (answerData source) 0 120 :=
    bytesAt_congr fun i hi => h.header _ (by omega) (.inl (by omega))
  have hword : bytesAt share.data 120 4 = bytesAt (leBytes (le32dec share.data 120)) 0 4 :=
    bytesAt_congr fun i hi => by rw [Nat.zero_add, leBytes_le32dec _ _ hi]
  have htail : bytesAt share.data 124 4 = bytesAt (answerData source) 124 4 :=
    bytesAt_congr fun i hi => h.header _ (by omega) (.inr (by omega))
  have hfront : bytesAt share.data 0 120 ++ bytesAt share.data 120 4 = bytesAt share.data 0 124 :=
    bytesAt_append share.data 0 120 4
  have hwhole : bytesAt share.data 0 124 ++ bytesAt share.data 124 4 = bytesAt share.data 0 128 :=
    bytesAt_append share.data 0 124 4
  have htake : (bytesAt (answerData source) 0 128).take 120 = bytesAt (answerData source) 0 120 :=
    bytesAt_take _ 0 120 8
  have hdrop : (bytesAt (answerData source) 0 128).drop 124 = bytesAt (answerData source) 124 4 :=
    bytesAt_drop _ 0 124 4
  rw [← hwhole, ← hfront, hhead, hword, htail, hexEncode_append, hexEncode_append, hexEncode_take,
    hexEncode_drop, htake, hdrop]

/-- What a share is handed back as is the answer it was copied from, over what
was refused before it, but for the eight digits of the nonce word its scan
began with: of the one nonce the scan found the request says nothing. Where
nothing was copied the header is zero, as the beginning of the shared one is. -/
theorem run_getworkRequest {dcfg : DecodeConfig} {cfg : LoopConfig} {events : List GetworkEvent} {s : GetworkState}
    (hrun : run (getworkStep dcfg cfg) getworkStart events = some s) {h : GetworkShare} (hh : h ∈ s.shares)
    (hdigits : ∀ a text, h.source = some a → headerText a.taken = some text → ∀ c ∈ text, IsHex c) :
    (∀ a, h.source = some a → a ∈ s.accepted) ∧
    (∃ a ∈ s.accepted, h.current = some a ∧ SameHead h.source h.current) ∧ (∃ n, h.found = [n]) ∧
    getworkRequest h.share = getworkText ((announced h.source).take (2 * 120) ++
      hexEncode (bytesAt (leBytes h.start) 0 4) ++ (announced h.source).drop (2 * 124)) := by
  have hs : GetworkInv s := run_invariant (fun hs hstep => getworkStep_inv hs hstep) hrun getworkStart_inv
  obtain ⟨hfrom, hstart, hfound, haccepted, hcurrent⟩ := hs.shares h hh
  have hhex := hfrom.requestHex
  rw [hstart, answerData_announced (fun a ha => hs.taken a (haccepted a ha)) hdigits] at hhex
  refine ⟨haccepted, hcurrent, hfound, congrArg getworkText ?_⟩
  rw [le32Words_eq]
  exact hhex

def getworkAnswer (data target : List Byte) : Json :=
  .object [("data".toList, .string (hexEncode data)), ("target".toList, .string (hexEncode target))]

/-- What a pool prints with `bin2hex` is taken. -/
theorem workDecode_getworkAnswer (dcfg : DecodeConfig) (d : DecodeState) (data target : List Byte)
    (hdata : data.length = 128) (htarget : target.length = 32) :
    ∃ d', workDecode dcfg (getworkAnswer data target) d = some (true, d') ∧
      d'.work.data = memcpy d.work.data 0 (ofBytes data) 0 128 ∧
      d'.work.target = memcpy d.work.target 0 (ofBytes target) 0 32 := by
  have hbin (m : Mem) (bs : List Byte) : hex2bin m 0 (hexEncode bs) bs.length =
      (memcpy m 0 (ofBytes bs) 0 bs.length, true) := hex2bin_of_hexDecode (hexDecode_hexEncode bs) m 0
  have hfirst := hbin d.work.data data
  have hsecond := hbin d.work.target target
  rw [hdata] at hfirst
  rw [htarget] at hsecond
  have hheader : decodeData (getworkAnswer data target) d.work.data =
      some (memcpy d.work.data 0 (ofBytes data) 0 128, true) := by
    rw [decodeData_some (s := hexEncode data) rfl, hfirst, if_pos rfl]
  have hbits : jobjBinary (getworkAnswer data target) "target".toList d.work.target 32 =
      (memcpy d.work.target 0 (ofBytes target) 0 32, true) := hsecond
  refine ⟨decodeTaken dcfg d _ _, ?_, le32Words_eq _ _, le32Words_eq _ _⟩
  rw [workDecode, hheader, Option.map_some]
  simp only [hbits, Bool.not_true, Bool.false_eq_true, if_false]

def demoAnswer : Json := getworkAnswer (List.replicate 128 0x11) (List.replicate 32 0xff)

theorem run_getworkRequest_demo :
    ∃ s h, run (getworkStep ⟨false, 0.0, false⟩ (demoThread 0)) getworkStart
        [.answered [demoAnswer] 0, .pass (demoPass zeroWork 0 false)] = some s ∧ h ∈ s.shares ∧
      (∃ a ∈ s.accepted, h.current = some a ∧ SameHead h.source h.current) ∧
      (∃ n, h.found = [n]) ∧ getworkRequest h.share = getworkText ((announced h.source).take (2 * 120) ++
        hexEncode (bytesAt (leBytes h.start) 0 4) ++ (announced h.source).drop (2 * 124)) := by
  obtain ⟨d, hdecode, hdata, htarget⟩ := workDecode_getworkAnswer ⟨false, 0.0, false⟩
    { getworkStart.shared with work := { zeroWork with pooln := 0 } } (List.replicate 128 0x11)
    (List.replicate 32 0xff) List.length_replicate List.length_replicate
  let a : WorkAnswers := ⟨[], demoAnswer⟩
  let s : GetworkState := { getworkStart with shared := d, answer := some a, accepted := [a] }
  have hanswered : getworkAnswered ⟨false, 0.0, false⟩ getworkStart [demoAnswer] 0 = some s := by
    rw [getworkAnswered, workioGetWork, demoAnswer, hdecode]
    rfl
  let p := demoPass zeroWork 0 false
  have hcopied : memcmp s.work.data s.shared.work.data wcmplen = true := by
    refine memcmp_eq_true.mpr ⟨0, by decide, ?_⟩
    rw [show s.shared.work.data = _ from hdata, memcpy_start (by decide)]
    exact (by decide : (0 : Byte) ≠ 0x11)
  let work := refresh (demoThread 0) s.shared.work s.work p.rand1 p.rand2
  have htarget : ∀ i < 32, (startScan work).target i = 0xff := by
    intro i hi
    rw [show startScan work = _ from refresh_copied (demoThread 0) hcopied p.rand1 p.rand2]
    refine (congrFun htarget i).trans ?_
    rw [memcpy_start hi, ofBytes, List.getD_eq_getElem?_getD, List.getElem?_replicate, if_pos hi]
    rfl
  let r := (scan (demoThread 0) p (startScan work)).result
  have hrc : 0 < r.rc := by
    rw [show r.rc = _ from scan_rc (demoThread 0) p rfl, scan_easiest (demoThread 0) p htarget]
    decide
  let h : GetworkShare :=
    ⟨s.copied, s.answer, le32dec work.data (4 * verusNonceOffset), r.recorded, submitFound (clampNonce r.work)⟩
  have hhanded : handedShare (demoThread 0) p r = some h.share := by
    rw [handedShare, if_neg (show ¬ (p.aborted || p.restarted) = true from Bool.false_ne_true), submitShare,
      if_pos ⟨hrc, rfl⟩]
  have hrun : run (getworkStep ⟨false, 0.0, false⟩ (demoThread 0)) getworkStart
      [.answered [demoAnswer] 0, .pass p] = some (getworkPass (demoThread 0) s p) :=
    run_cons.mpr ⟨s, hanswered, run_singleton rfl⟩
  have hmem : h ∈ (getworkPass (demoThread 0) s p).shares := by
    have hshares : (getworkPass (demoThread 0) s p).shares =
        (handedShare (demoThread 0) p r).toList.map fun share =>
          ⟨s.copied, s.answer, le32dec work.data (4 * verusNonceOffset), r.recorded, share⟩ := rfl
    rw [hshares, hhanded]
    exact List.mem_singleton_self h
  have hdigits (a' : WorkAnswers) (text : CString) (hsource : h.source = some a')
      (htext : headerText a'.taken = some text) : ∀ c ∈ text, IsHex c := by
    rw [show h.source = some a from if_pos hcopied] at hsource
    cases hsource
    cases htext
    exact ((hexDecode_isSome_iff _).mp (by rw [hexDecode_hexEncode]; rfl)).2
  exact ⟨_, h, hrun, hmem, (run_getworkRequest hrun hmem hdigits).2⟩

end VerusMiner
