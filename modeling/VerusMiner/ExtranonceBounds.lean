import VerusMiner.Lib.Runs
import VerusMiner.Submit

/-! The extranonces a pool may set: which messages keep them inside their
field of the header, byte for byte. -/

namespace VerusMiner

/-- A work with the extranonce it was generated from, and whether that had
come with an accepted message. -/
structure GeneratedWork where
  accepted : Bool
  xnonce1Size : Nat
  xnonce1 : Mem
  work : Work

structure ExtranonceState where
  sctx : StratumCtx
  text : Option CString
  generated : List GeneratedWork

/-- The parameters of `mining.set_extranonce` start at 0, those of a subscribe
result at 1. -/
inductive ExtranonceEvent where
  | extranonce (params : Json) (pndx : Nat)
  | notify (now : Word) (ntimeStack : Mem) (params : Json)
  | setTarget (stack : SetTargetStack) (params : Json)
  | generate (optDifficulty : Float) (buf : Work)

def extranonceStep (s : ExtranonceState) : ExtranonceEvent → Option ExtranonceState
  | .extranonce params pndx =>
    let (accepted, sctx) := stratumParseExtranonce s.sctx params pndx
    some (if accepted then
        { s with sctx := sctx, text := jsonStringValue (jsonArrayGet params pndx) }
      else s)
  | .notify now ntimeStack params =>
    (verusStratumNotify now ntimeStack s.sctx params).map fun r => { s with sctx := r.2 }
  | .setTarget stack params => some { s with sctx := (verusStratumSetTarget stack s.sctx params).2 }
  | .generate optDifficulty buf =>
    (stratumGenWork optDifficulty s.sctx buf).map fun work =>
      { s with
        generated := s.generated ++
          [{ accepted := s.text.isSome
             xnonce1Size := s.sctx.xnonce1Size
             xnonce1 := s.sctx.xnonce1
             work := work }] }

/-- The stored bytes are those of the text, two digits for each. -/
def Decoded (xnonce1 : CString) (sctx : StratumCtx) : Prop :=
  ∃ bs, hexDecode (xnonce1.take (2 * sctx.xnonce1Size)) = some bs ∧
    ∀ i < sctx.xnonce1Size, sctx.xnonce1 i = ofBytes bs i

/-- The header has all of the extranonce, before the two words of the nonce
that the miner fills in, and something is left to submit. -/
structure GeneratedWork.Whole (g : GeneratedWork) : Prop where
  copied : ∀ i < g.xnonce1Size, g.work.data (4 * 27 + i) = g.xnonce1 i
  short : 4 * 27 + g.xnonce1Size ≤ 4 * verusNonceOffset
  free : le32dec g.work.data (4 * verusNonceOffset) = 0 ∧
    le32dec g.work.data (4 * (verusNonceOffset + 2)) = 0
  submitted : g.xnonce1Size ≤ 32

structure ExtranonceWithin (s : ExtranonceState) : Prop where
  bounds : ∀ xnonce1 ∈ s.text, (3 ≤ s.sctx.xnonce1Size ∧ s.sctx.xnonce1Size ≤ 12) ∧ Decoded xnonce1 s.sctx
  works : ∀ g ∈ s.generated, g.accepted = true → g.Whole

def extranonce2Size (params : Json) (pndx : Nat) : Int :=
  (BitVec.ofInt 32 (jsonIntegerValue (jsonArrayGet params (pndx + 1)))).toInt

def HexPairs (s : CString) : Prop := ∀ c ∈ s.take (2 * (s.length / 2)), (hexVal c).isSome = true

/-- A message with a size for the second extranonce that is admitted has a text
of 6 to 25 characters for the first, as one without such a size must have
anyway; and the pairs of the text are hex digits. -/
def SizedWell : ExtranonceEvent → Prop
  | .extranonce params pndx => ∀ xnonce1, jsonStringValue (jsonArrayGet params pndx) = some xnonce1 →
      (2 ≤ extranonce2Size params pndx ∧ extranonce2Size params pndx ≤ 16 →
        6 ≤ xnonce1.length ∧ xnonce1.length ≤ 25 ∧ HexPairs xnonce1) ∧
      (extranonce2Size params pndx = 0 → 6 ≤ xnonce1.length → xnonce1.length ≤ 25 → HexPairs xnonce1)
  | _ => True

section Parse

/-- What is written for the pairs does not depend on what follows them. -/
theorem hex2bin_append {s : CString} {bs : List Byte} (h : hexDecode s = some bs) (rest : CString)
    (output : Mem) (off : Nat) :
    (hex2bin output off (s ++ rest) bs.length).1 = memcpy output off (ofBytes bs) 0 bs.length := by
  refine Eq.trans ?_ (congrArg Prod.fst (hex2bin_of_hexDecode h output off))
  induction s using hexDecode.induct generalizing bs output off with
  | case1 =>
    cases h
    cases rest with
    | nil => rfl
    | cons c rest => rfl
  | case2 c => cases h
  | case3 a b s x y hb ha ih =>
    simp only [hexDecode, ha, hb, Option.map_eq_some_iff] at h
    obtain ⟨t, ht, rfl⟩ := h
    simp only [List.cons_append, List.length_cons, hex2bin, strtol16, ha, hb, if_true, ih ht]
  | case4 a b s hnone => simp [hexDecode] at h

theorem hexPairs_iff (s : CString) : HexPairs s ↔ (hexDecode (s.take (2 * (s.length / 2)))).isSome := by
  rw [hexDecode_isSome_iff, List.length_take, HexPairs]
  have heven : min (2 * (s.length / 2)) s.length % 2 = 0 := by omega
  simp only [heven, true_and]

variable {sctx sctx' : StratumCtx} {params : Json} {pndx : Nat}

theorem decoded_iff {xnonce1 : CString} (hsize : sctx.xnonce1Size = xnonce1.length / 2)
    (hbytes : sctx.xnonce1 = (hex2bin (fun _ => 0) 0 xnonce1 (xnonce1.length / 2)).1) :
    Decoded xnonce1 sctx ↔ HexPairs xnonce1 := by
  rw [hexPairs_iff, Option.isSome_iff_exists, Decoded, hsize]
  refine exists_congr fun bs => and_iff_left_of_imp fun hdecode i hi => ?_
  have hlength := hexDecode_length hdecode
  rw [List.length_take] at hlength
  have hsplit := hex2bin_append hdecode (xnonce1.drop (2 * (xnonce1.length / 2))) (fun _ => 0) 0
  rw [List.take_append_drop, show bs.length = xnonce1.length / 2 by omega] at hsplit
  rw [hbytes, hsplit, memcpy_start hi]

theorem parseExtranonce_refused (h : (stratumParseExtranonce sctx params pndx).1 = false)
    {xnonce1 : CString} (htext : jsonStringValue (jsonArrayGet params pndx) = some xnonce1) :
    ¬ (2 ≤ extranonce2Size params pndx ∧ extranonce2Size params pndx ≤ 16) ∧
      (extranonce2Size params pndx = 0 → ¬ (6 ≤ xnonce1.length ∧ xnonce1.length ≤ 25)) := by
  simp only [stratumParseExtranonce, htext] at h
  change (if extranonce2Size params pndx = 0 then _ else
    if extranonce2Size params pndx < 2 ∨ extranonce2Size params pndx > 16 then _ else _ :
      Bool × StratumCtx).1 = false at h
  split_ifs at h with hzero hsize hbad
  · exact ⟨by omega, fun _ => by omega⟩
  · exact ⟨by omega, fun h0 => absurd h0 hzero⟩

theorem parseExtranonce_accepted (h : stratumParseExtranonce sctx params pndx = (true, sctx')) :
    ∃ xnonce1, jsonStringValue (jsonArrayGet params pndx) = some xnonce1 ∧
      sctx'.xnonce1Size = xnonce1.length / 2 ∧
      sctx'.xnonce1 = (hex2bin (fun _ => 0) 0 xnonce1 (xnonce1.length / 2)).1 ∧
      ((2 ≤ extranonce2Size params pndx ∧ extranonce2Size params pndx ≤ 16) ∨
        extranonce2Size params pndx = 0 ∧ 6 ≤ xnonce1.length ∧ xnonce1.length ≤ 25) := by
  simp only [stratumParseExtranonce] at h
  split at h
  · cases h
  · rename_i xnonce1 htext
    refine ⟨xnonce1, htext, ?_⟩
    change (if extranonce2Size params pndx = 0 then _ else
      if extranonce2Size params pndx < 2 ∨ extranonce2Size params pndx > 16 then _ else _) =
        (true, sctx') at h
    split_ifs at h with hzero hsize hbad
    · cases h
    · cases h
      exact ⟨rfl, rfl, .inr ⟨hzero, by omega, by omega⟩⟩
    · cases h
    · cases h
      exact ⟨rfl, rfl, .inl (by omega)⟩

theorem acceptedBounds_iff (h : stratumParseExtranonce sctx params pndx = (true, sctx')) :
    (∀ xnonce1 ∈ jsonStringValue (jsonArrayGet params pndx),
      (3 ≤ sctx'.xnonce1Size ∧ sctx'.xnonce1Size ≤ 12) ∧ Decoded xnonce1 sctx') ↔
      SizedWell (.extranonce params pndx) := by
  obtain ⟨xnonce1, htext, hsize, hbytes, hadmitted⟩ := parseExtranonce_accepted h
  have hdecoded := decoded_iff hsize hbytes
  constructor
  · intro hbounds xnonce1' htext'
    obtain ⟨⟨hlow, hhigh⟩, hbs⟩ := hbounds xnonce1' htext'
    obtain rfl : xnonce1 = xnonce1' := Option.some.inj (htext.symm.trans htext')
    have hpairs := hdecoded.mp hbs
    exact ⟨fun _ => ⟨by omega, by omega, hpairs⟩, fun _ _ _ => hpairs⟩
  · intro hok xnonce1' htext'
    obtain rfl : xnonce1 = xnonce1' := Option.some.inj (htext.symm.trans htext')
    obtain ⟨hsized, hzero⟩ := hok xnonce1 htext
    rcases hadmitted with hn2 | ⟨hn2, hlow, hhigh⟩
    · obtain ⟨hlow, hhigh, hpairs⟩ := hsized hn2
      exact ⟨by omega, hdecoded.mpr hpairs⟩
    · exact ⟨by omega, hdecoded.mpr (hzero hn2 hlow hhigh)⟩

end Parse

section Steps

variable {s s' : ExtranonceState} {e : ExtranonceEvent}

theorem verusStratumNotify_xnonce1 {now : Word} {ntimeStack : Mem} {sctx : StratumCtx} {params : Json}
    {r : Bool × StratumCtx} (h : verusStratumNotify now ntimeStack sctx params = some r) :
    r.2.xnonce1Size = sctx.xnonce1Size ∧ r.2.xnonce1 = sctx.xnonce1 := by
  simp only [verusStratumNotify] at h
  split at h
  · cases h
    exact ⟨rfl, rfl⟩
  · obtain ⟨sctx', hsolution, rfl⟩ := Option.map_eq_some_iff.mp h
    obtain ⟨solution, _, rfl⟩ := Option.map_eq_some_iff.mp hsolution
    simp only [notifyLocked, notifySrvtime]
    split_ifs <;> exact ⟨rfl, rfl⟩

theorem verusStratumSetTarget_xnonce1 (stack : SetTargetStack) (sctx : StratumCtx) (params : Json) :
    (verusStratumSetTarget stack sctx params).2.xnonce1Size = sctx.xnonce1Size ∧
      (verusStratumSetTarget stack sctx params).2.xnonce1 = sctx.xnonce1 := by
  simp only [verusStratumSetTarget]
  split <;> exact ⟨rfl, rfl⟩

theorem ExtranonceWithin.of_sctx (h : ExtranonceWithin s) {sctx : StratumCtx}
    (hxnonce1 : sctx.xnonce1Size = s.sctx.xnonce1Size ∧ sctx.xnonce1 = s.sctx.xnonce1) :
    ExtranonceWithin { s with sctx := sctx } where
  bounds xnonce1 htext := by
    rw [Decoded, hxnonce1.1, hxnonce1.2]
    exact h.bounds xnonce1 htext
  works := h.works

theorem generated_whole {optDifficulty : Float} {sctx : StratumCtx} {buf work : Work}
    (hwork : stratumGenWork optDifficulty sctx buf = some work) (hsize : sctx.xnonce1Size ≤ 12)
    (accepted : Bool) : GeneratedWork.Whole ⟨accepted, sctx.xnonce1Size, sctx.xnonce1, work⟩ := by
  have hdata := (stratumGenWork_eq hwork).1
  have hzero {i : Nat} (hi : 120 ≤ i) (hlt : i < 140) : work.data i = 0 := by
    rw [hdata, genWorkData_at sctx hlt, if_neg (by omega), if_neg (by omega), if_neg (by omega),
      if_neg (by omega), if_neg (by omega), xnonce1Size_mask hsize, if_neg (by omega)]
  have hword {off : Nat} (hlow : 120 ≤ off) (hhigh : off + 4 ≤ 140) : le32dec work.data off = 0 := by
    simp only [le32dec, hzero (show 120 ≤ off by omega) (by omega),
      hzero (show 120 ≤ off + 1 by omega) (by omega), hzero (show 120 ≤ off + 2 by omega) (by omega),
      hzero (show 120 ≤ off + 3 by omega) (by omega)]
    decide
  refine ⟨fun i hi => ?_, ?_, ⟨hword (by decide) (by decide), hword (by decide) (by decide)⟩, ?_⟩
  · change work.data (108 + i) = sctx.xnonce1 i
    change i < sctx.xnonce1Size at hi
    rw [hdata, genWorkData_at sctx (by omega), if_neg (by omega), if_neg (by omega), if_neg (by omega),
      if_neg (by omega), if_neg (by omega), xnonce1Size_mask hsize, if_pos (by omega),
      Nat.add_sub_cancel_left]
  · change 4 * 27 + sctx.xnonce1Size ≤ 4 * 30
    omega
  · change sctx.xnonce1Size ≤ 32
    omega

theorem extranonceWithin_step (h : ExtranonceWithin s) (hstep : extranonceStep s e = some s') :
    ExtranonceWithin s' ↔ SizedWell e := by
  cases e with
  | extranonce params pndx =>
    simp only [extranonceStep] at hstep
    cases hparse : stratumParseExtranonce s.sctx params pndx with
    | mk accepted sctx =>
      rw [hparse] at hstep
      cases accepted with
      | false =>
        cases hstep
        refine iff_of_true h fun xnonce1 htext => ?_
        obtain ⟨hsize, hzero⟩ := parseExtranonce_refused (congrArg Prod.fst hparse) htext
        exact ⟨fun hn2 => absurd hn2 hsize, fun hn2 hlow hhigh => absurd ⟨hlow, hhigh⟩ (hzero hn2)⟩
      | true =>
        cases hstep
        have hbounds := acceptedBounds_iff hparse
        exact ⟨fun hwithin => hbounds.mp hwithin.bounds, fun hok => ⟨hbounds.mpr hok, h.works⟩⟩
  | notify now ntimeStack params =>
    obtain ⟨r, hnotify, rfl⟩ := Option.map_eq_some_iff.mp hstep
    exact iff_of_true (h.of_sctx (verusStratumNotify_xnonce1 hnotify)) trivial
  | setTarget stack params =>
    cases hstep
    exact iff_of_true (h.of_sctx (verusStratumSetTarget_xnonce1 stack s.sctx params)) trivial
  | generate optDifficulty buf =>
    obtain ⟨work, hwork, rfl⟩ := Option.map_eq_some_iff.mp hstep
    refine iff_of_true ⟨h.bounds, fun g hg haccepted => ?_⟩ trivial
    rcases List.mem_append.mp hg with hold | hnew
    · exact h.works g hold haccepted
    · rw [List.mem_singleton.mp hnew] at haccepted ⊢
      obtain ⟨xnonce1, htext⟩ := Option.isSome_iff_exists.mp haccepted
      exact generated_whole hwork (h.bounds xnonce1 htext).1.2 _

end Steps

def extranonceStart (sctx : StratumCtx) : ExtranonceState where
  sctx := sctx
  text := none
  generated := []

/-- In every run the extranonce stays in its bounds and whole in every work
exactly if all messages are sized well. -/
theorem run_extranonceWithin_iff (sctx : StratumCtx) {es : List ExtranonceEvent} {s : ExtranonceState}
    (hrun : run extranonceStep (extranonceStart sctx) es = some s) :
    Throughout extranonceStep ExtranonceWithin (extranonceStart sctx) es ↔
      Along extranonceStep (fun _ => SizedWell) (extranonceStart sctx) es :=
  throughout_iff_along (I := fun _ => True) (fun _ _ => trivial)
    (fun _ h hstep => extranonceWithin_step h hstep) hrun trivial
    ⟨fun _ htext => (by cases htext), fun _ hg => (by cases hg)⟩

def jobCtx : StratumCtx := { zeroCtx with job := { zeroCtx.job with jobId := some ['1'] } }

def subscribeResult (xnonce1 : CString) (xn2Size : Int) : Json :=
  .array [.array [], .string xnonce1, .integer xn2Size]

theorem run_extranonceWithin_four :
    Throughout extranonceStep ExtranonceWithin (extranonceStart jobCtx)
      [.extranonce (subscribeResult (List.replicate 8 'a') 4) 1, .generate 1.0 zeroWork] := by
  refine (run_extranonceWithin_iff jobCtx rfl).mpr ((along_cons rfl).mpr ⟨?_, (along_cons rfl).mpr ⟨trivial, trivial⟩⟩)
  intro xnonce1 htext
  cases htext
  have hpairs : HexPairs (List.replicate 8 'a') := by
    intro c hc
    rw [List.eq_of_mem_replicate (List.mem_of_mem_take hc)]
    decide
  exact ⟨fun _ => ⟨by decide, by decide, hpairs⟩, fun _ _ _ => hpairs⟩

/-- With a size for the second extranonce, a first one of 20 bytes is taken,
and is copied over the first of the miner's own words. -/
theorem long_extranonce_taken :
    ∃ s g, run extranonceStep (extranonceStart jobCtx)
        [.extranonce (subscribeResult (List.replicate 40 'a') 4) 1, .generate 1.0 zeroWork] = some s ∧
      s.sctx.xnonce1Size = 20 ∧ s.generated = [g] ∧ le32dec g.work.data (4 * verusNonceOffset) = 0xaaaaaaaa ∧
      ¬ ExtranonceWithin s := by
  refine ⟨_, _, rfl, rfl, rfl, by decide, fun h => ?_⟩
  have hbounds := (h.bounds _ rfl).1.2
  exact absurd hbounds (by decide)

end VerusMiner
