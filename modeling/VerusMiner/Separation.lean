import VerusMiner.MinerLoop

/-! Which scans may hash the same message: what a message determines of the
work it was made from, and what keeps the threads of a miner, the scans of a
thread, and the sessions of a pool apart. -/

namespace VerusMiner

def SameMessage (m m' : Mem) : Prop := ∀ i < 1487, m i = m' i

section Determined

variable {work work' : Work} {nonce nonce' : Word}

theorem sameMessage_clears (h : SameMessage (preimage work nonce) (preimage work' nonce')) :
    clearsNonCanonical work.solution = clearsNonCanonical work'.solution := by
  have hsel {i : Nat} (hi : i < 8) : work.solution i = work'.solution i := by
    rw [← preimage_selector work nonce hi, ← preimage_selector work' nonce' hi]
    exact h _ (by omega)
  exact clearsNonCanonical_congr (hsel (by omega)) (hsel (by omega))

theorem preimage_header (nonce : Word) (hw : clearsNonCanonical work.solution = false) {i : Nat} (hi : i < 140) :
    preimage work nonce i = work.data i := by
  rw [preimage_below work nonce (by omega), fullData_of_not_clears hw, serializedWork_header work hi]

theorem preimage_spaceWord (nonce : Word) (hw : clearsNonCanonical work.solution = true) {i : Nat} (hi : i < 4) :
    preimage work nonce (1479 + i) = work.data (128 + i) := by
  rw [show 1479 + i = 1472 + (7 + i) by omega, preimage_space work nonce (by omega),
    nonceSpace_of_clears hw (by omega), if_neg (by omega), Nat.add_sub_cancel_left]

theorem sameMessage_randWord (h : SameMessage (preimage work nonce) (preimage work' nonce')) :
    ∀ i < 4, work.data (128 + i) = work'.data (128 + i) := by
  intro i hi
  have hclears := sameMessage_clears h
  cases hw : clearsNonCanonical work.solution with
  | true =>
    rw [← preimage_spaceWord nonce hw hi,
      ← preimage_spaceWord nonce' (hclears.symm.trans hw) hi]
    exact h _ (by omega)
  | false =>
    rw [← preimage_header nonce hw (by omega),
      ← preimage_header nonce' (hclears.symm.trans hw) (by omega)]
    exact h _ (by omega)

theorem sameMessage_round (h : SameMessage (preimage work nonce) (preimage work' nonce'))
    (hw : clearsNonCanonical work.solution = false) :
    ∀ i < 4, work.data (120 + i) = work'.data (120 + i) := by
  intro i hi
  rw [← preimage_header nonce hw (by omega),
    ← preimage_header nonce' ((sameMessage_clears h).symm.trans hw) (by omega)]
  exact h _ (by omega)

theorem sameMessage_extranonce (h : SameMessage (preimage work nonce) (preimage work' nonce'))
    {i : Nat} (hi : i < 12) (hw : clearsNonCanonical work.solution = false ∨ i < 7) :
    work.data (108 + i) = work'.data (108 + i) := by
  have hclears := sameMessage_clears h
  cases hc : clearsNonCanonical work.solution with
  | false =>
    rw [← preimage_header nonce hc (by omega),
      ← preimage_header nonce' (hclears.symm.trans hc) (by omega)]
    exact h _ (by omega)
  | true =>
    have hi7 : i < 7 := hw.resolve_left (by simp [hc])
    have hspace := h (1472 + i) (by omega)
    rwa [preimage_space work nonce (by omega), preimage_space work' nonce' (by omega),
      nonceSpace_of_clears hc (by omega), nonceSpace_of_clears (hclears.symm.trans hc) (by omega),
      if_pos hi7, if_pos hi7] at hspace

end Determined

section Determining

variable {work work' : Work}

theorem serializedWork_congr (hsolution : ∀ i < 1344, work.solution i = work'.solution i) {i : Nat}
    (hi : i < 1487) (hheader : i < 140 → work.data i = work'.data i) :
    serializedWork work i = serializedWork work' i := by
  by_cases h140 : i < 140
  · rw [serializedWork_header work h140, serializedWork_header work' h140, hheader h140]
  · by_cases h143 : i < 143
    · simp [serializedWork, memcpy, show ¬ 143 ≤ i by omega, show 140 ≤ i by omega, h143]
    · rw [show i = 143 + (i - 143) by omega, serializedWork_solution work (by omega),
        serializedWork_solution work' (by omega), hsolution _ (by omega)]

theorem preimage_congr (hsolution : ∀ i < 1344, work.solution i = work'.solution i)
    (hheader : ∀ i < 140, ¬ (clearsNonCanonical work.solution = true ∧ Cleared i) →
      work.data i = work'.data i)
    (hspace : clearsNonCanonical work.solution = true → ∀ i < 11,
      nonceSpace work i = nonceSpace work' i) (nonce : Word) :
    SameMessage (preimage work nonce) (preimage work' nonce) := by
  have hclears : clearsNonCanonical work.solution = clearsNonCanonical work'.solution :=
    clearsNonCanonical_congr (hsolution 0 (by omega)) (hsolution 5 (by omega))
  intro i hi
  by_cases h1483 : 1483 ≤ i
  · rw [show i = 1483 + (i - 1483) by omega, preimage_nonce work nonce (by omega),
      preimage_nonce work' nonce (by omega)]
  by_cases h1472 : 1472 ≤ i
  · rw [show i = 1472 + (i - 1472) by omega, preimage_space work nonce (by omega),
      preimage_space work' nonce (by omega)]
    cases hw : clearsNonCanonical work.solution with
    | true => exact hspace hw _ (by omega)
    | false => rw [nonceSpace_of_not_clears hw, nonceSpace_of_not_clears (hclears.symm.trans hw)]
  rw [preimage_below work nonce (by omega), preimage_below work' nonce (by omega)]
  by_cases hc : clearsNonCanonical work.solution = true ∧ Cleared i
  · rw [fullData_of_clears hc.1 hc.2, fullData_of_clears (hclears.symm.trans hc.1) hc.2]
  · have hser := serializedWork_congr hsolution hi fun h => hheader i h hc
    cases hw : clearsNonCanonical work.solution with
    | true =>
      have hkept : ¬ Cleared i := fun h => hc ⟨hw, h⟩
      rw [fullData_kept work hkept, fullData_kept work' hkept, hser]
    | false =>
      rw [fullData_of_not_clears hw, fullData_of_not_clears (hclears.symm.trans hw), hser]

end Determining

section Threads

variable {cfg cfg' : LoopConfig}

theorem scan_randWord (p : Pass) (gWork work : Work) :
    (scan cfg p (startScan (refresh cfg gWork work p.rand1 p.rand2))).work.data 128 =
      cfg.thrId.setWidth 8 := by
  simp only [scan, startScan, refresh, store32, verusNonceOffset]
  rw [show 128 = 4 * (30 + 2) + 0 from rfl, memcpy_at (by omega)]
  exact nonceWord_low p.rand1 p.rand2 cfg.thrId

/-- Two threads of a miner never hash the same message, whatever works they
are given and whatever random values they draw. -/
theorem threads_disjoint (hthr : cfg.thrId.toNat < 256) (hthr' : cfg'.thrId.toNat < 256)
    (hne : cfg.thrId ≠ cfg'.thrId) {work work' : Work} {t t' : LoopState} {ps ps' : List Pass}
    (hrun : run (passStep cfg) (.start work) ps = some t)
    (hrun' : run (passStep cfg') (.start work') ps' = some t') :
    ∀ a ∈ t.scans, ∀ b ∈ t'.scans, ∀ nonce nonce' : Word,
      ¬ SameMessage (preimage a.work nonce) (preimage b.work nonce') := by
  intro a ha b hb nonce nonce' h
  have hword : a.work.data 128 = cfg.thrId.setWidth 8 :=
    scans_of_run (P := fun c => c.work.data 128 = _) scan_randWord hrun a ha
  have hword' : b.work.data 128 = cfg'.thrId.setWidth 8 :=
    scans_of_run (P := fun c => c.work.data 128 = _) scan_randWord hrun' b hb
  have hid : (cfg.thrId.setWidth 8 : Byte) = cfg'.thrId.setWidth 8 := by
    rw [← hword, ← hword']
    exact sameMessage_randWord h 0 (by omega)
  refine hne (BitVec.eq_of_toNat_eq ?_)
  have hnat := congrArg BitVec.toNat hid
  simpa only [BitVec.toNat_setWidth, Nat.mod_eq_of_lt hthr, Nat.mod_eq_of_lt hthr'] using hnat

end Threads

section Repeats

/-- The work is made of that job: its header apart from the two nonce words, and its solution. -/
structure OfJob (job work : Work) : Prop where
  header : ∀ i < 140, i < 120 ∨ 124 ≤ i ∧ i < 128 ∨ 132 ≤ i → work.data i = job.data i
  solution : ∀ i < 1344, work.solution i = job.solution i

theorem OfJob.clears {job work : Work} (h : OfJob job work) :
    clearsNonCanonical work.solution = clearsNonCanonical job.solution :=
  clearsNonCanonical_congr (h.solution 0 (by omega)) (h.solution 5 (by omega))

def Scan.round (c : Scan) : Word := le32dec c.work.data 120

def Scan.randWord (c : Scan) : Word := le32dec c.work.data 128

/-- No message is hashed by two of the scans. -/
def NoRepeat (scans : List Scan) : Prop :=
  scans.Pairwise fun a b => ∀ n < a.result.hashesDone, ∀ m < b.result.hashesDone,
    ¬ SameMessage (preimage a.work (BitVec.ofNat 32 n)) (preimage b.work (BitVec.ofNat 32 m))

theorem le32dec_eq_iff {m m' : Mem} {off : Nat} :
    le32dec m off = le32dec m' off ↔ ∀ i < 4, m (off + i) = m' (off + i) := by
  refine ⟨fun h i hi => ?_, le32dec_congr⟩
  rw [← leBytes_le32dec m off hi, h, leBytes_le32dec m' off hi]

variable {job : Work} {a b : Scan}

theorem sameMessage_words (ha : OfJob job a.work) {n m : Word}
    (h : SameMessage (preimage a.work n) (preimage b.work m)) :
    a.randWord = b.randWord ∧ (clearsNonCanonical job.solution = false → a.round = b.round) := by
  refine ⟨le32dec_eq_iff.mpr (sameMessage_randWord h), fun hw => le32dec_eq_iff.mpr ?_⟩
  exact sameMessage_round h (ha.clears.trans hw)

theorem sameMessage_of_words (ha : OfJob job a.work) (hb : OfJob job b.work)
    (hrand : a.randWord = b.randWord)
    (hround : clearsNonCanonical job.solution = false → a.round = b.round) (n : Word) :
    SameMessage (preimage a.work n) (preimage b.work n) := by
  have hsolution : ∀ i < 1344, a.work.solution i = b.work.solution i := fun i hi => by
    rw [ha.solution i hi, hb.solution i hi]
  have hheader {i : Nat} (hi : i < 140) (h : i < 120 ∨ 124 ≤ i ∧ i < 128 ∨ 132 ≤ i) :
      a.work.data i = b.work.data i := by
    rw [ha.header i hi h, hb.header i hi h]
  have hword : ∀ i < 4, a.work.data (128 + i) = b.work.data (128 + i) := le32dec_eq_iff.mp hrand
  refine preimage_congr hsolution (fun i hi hnot => ?_) (fun hw i hi => ?_) n
  · by_cases hfixed : i < 120 ∨ 124 ≤ i ∧ i < 128 ∨ 132 ≤ i
    · exact hheader hi hfixed
    · have hc : Cleared i := .inr (.inl (by omega))
      have hw : clearsNonCanonical job.solution = false := by
        rw [← ha.clears]
        exact Bool.eq_false_iff.mpr fun h => hnot ⟨h, hc⟩
      by_cases h124 : i < 124
      · rw [show i = 120 + (i - 120) by omega]
        exact le32dec_eq_iff.mp (hround hw) _ (by omega)
      · rw [show i = 128 + (i - 128) by omega]
        exact hword _ (by omega)
  · have hw' := hb.clears.trans (ha.clears.symm.trans hw)
    rw [nonceSpace_of_clears hw hi, nonceSpace_of_clears hw' hi]
    split_ifs
    · exact hheader (by omega) (.inl (by omega))
    · exact hword _ (by omega)

/-- The scans of a run on one job repeat nothing exactly when no two of them
draw the same random word, unless the rounds differ and are hashed. -/
theorem noRepeat_iff {cfg : LoopConfig} {work : Work} {t : LoopState} {ps : List Pass}
    (hrun : run (passStep cfg) (.start work) ps = some t)
    (hjob : ∀ c ∈ t.scans, OfJob job c.work) :
    NoRepeat t.scans ↔ t.scans.Pairwise fun a b =>
      a.randWord ≠ b.randWord ∨ clearsNonCanonical job.solution = false ∧ a.round ≠ b.round := by
  have hpos : ∀ c ∈ t.scans, 0 < c.result.hashesDone :=
    scans_of_run (P := fun c => 0 < c.result.hashesDone)
      (fun p _ _ => scan_hashesDone_pos cfg p _) hrun
  refine List.Pairwise.iff_of_mem fun {a b} ha hb => ?_
  constructor
  · intro h
    by_contra hwords
    simp only [not_or, not_and, not_not] at hwords
    exact h 0 (hpos a ha) 0 (hpos b hb)
      (sameMessage_of_words (hjob a ha) (hjob b hb) hwords.1 hwords.2 0)
  · rintro hwords n _ m _ h
    obtain ⟨hrand, hround⟩ := sameMessage_words (hjob a ha) h
    rcases hwords with hne | ⟨hw, hne⟩
    · exact hne hrand
    · exact hne (hround hw)

end Repeats

section Demo

def mergedCtx : StratumCtx :=
  { zeroCtx with
    xnonce1Size := 4
    job := { zeroJob with
      jobId := some ['1']
      version := fun _ => 0x11
      prevhash := fun _ => 0x11
      solution := fun _ => 7
      extra := fun _ => 0xff } }

def copiedWork (thrId rand1 : Word) : Work :=
  threadWork (generated mergedCtx) (0xffffffff / 2 * thrId) (nonceWord rand1 0 thrId)

def mergedPass (rand1 : Word) : Pass := demoPass (generated mergedCtx) rand1 false

def mergedScan (thrId rand1 : Word) : Scan :=
  scan (demoThread thrId) (mergedPass rand1) (copiedWork thrId rand1)

theorem mergedPass_refresh {work : Work} (h : work.data 4 = 0) (thrId rand1 : Word) :
    startScan (refresh (demoThread thrId) (generated mergedCtx) work rand1 0) =
      copiedWork thrId rand1 := by
  refine refresh_copied (demoThread thrId) (memcmp_eq_true.mpr ⟨4, by decide, ?_⟩) rand1 0
  rw [h]
  decide +kernel

theorem copiedWork_data (thrId rand1 : Word) : noData (demoThread thrId) (copiedWork thrId rand1) = false := by
  have hversion : le32dec (copiedWork thrId rand1).data 0 = le32dec (generated mergedCtx).data 0 :=
    le32dec_congr fun i hi => threadWork_data _ _ _ (.inl (by omega))
  have hnonzero : decide (le32dec (generated mergedCtx).data 0 = 0) = false := by decide +kernel
  rw [noData, hversion, hnonzero, Bool.false_and]

theorem mergedScan_cleared (thrId rand1 : Word) : (mergedScan thrId rand1).result.work.data 4 = 0 := by
  have htarget : ∀ i < 32, (copiedWork thrId rand1).target i = 0xff :=
    fun _ hi => generated_target mergedCtx rfl hi
  have hclears : clearsNonCanonical (copiedWork thrId rand1).solution = true := by
    rw [copiedWork, threadWork_solution]
    decide +kernel
  obtain ⟨_, _, _, hbytes⟩ := scan_kept (demoThread thrId) (mergedPass rand1) (copiedWork thrId rand1)
  rw [mergedScan, hbytes 4 (by omega), scan_easiest _ _ htarget, if_neg (List.cons_ne_nil _ _)]
  exact fullData_of_clears hclears (.inl (by omega))

theorem mergedPass_step {s : LoopState} (hrunning : s.running = true) (h : s.work.data 4 = 0)
    (thrId rand1 : Word) :
    ∃ s', passStep (demoThread thrId) s (mergedPass rand1) = some s' ∧ s'.running = true ∧
      s'.work.data 4 = 0 ∧ s'.scans = s.scans ++ [mergedScan thrId rand1] := by
  obtain ⟨s', hstep, hwork, hrun, hscans⟩ := passStep_scan (p := mergedPass rand1) hrunning rfl
    (mergedPass_refresh h thrId rand1) (copiedWork_data thrId rand1)
  refine ⟨s', hstep, ?_, ?_, hscans⟩
  · rw [hrun]
    simp [mergedPass, demoPass, afterScan]
  · rw [hwork, (afterScan_kept _ _ _).2.2 4 (by omega)]
    exact mergedScan_cleared thrId rand1

theorem mergedPass_run (rand1 rand1' : Word) :
    ∃ t, run (passStep (demoThread 0)) (.start zeroWork) [mergedPass rand1, mergedPass rand1'] = some t ∧
      t.scans = [mergedScan 0 rand1, mergedScan 0 rand1'] ∧
      ∀ c ∈ t.scans, OfJob (generated mergedCtx) c.work := by
  obtain ⟨s, hstep, hrunning, hcleared, hscans⟩ :=
    mergedPass_step (s := .start zeroWork) rfl rfl 0 rand1
  obtain ⟨t, hstep', _, _, hscans'⟩ := mergedPass_step hrunning hcleared 0 rand1'
  have hjob (r : Word) : OfJob (generated mergedCtx) (mergedScan 0 r).work :=
    ⟨fun _ _ h => threadWork_data _ _ _ h, fun _ _ => rfl⟩
  rw [hscans] at hscans'
  refine ⟨t, run_cons.mpr ⟨s, hstep, run_cons.mpr ⟨t, hstep', rfl⟩⟩, hscans', fun c hc => ?_⟩
  rw [hscans'] at hc
  rcases List.mem_pair.mp hc with rfl | rfl
  · exact hjob rand1
  · exact hjob rand1'

/-- With the same random values two scans of a cleared job hash the same messages. -/
theorem scans_repeat :
    ∃ t, run (passStep (demoThread 0)) (.start zeroWork) [mergedPass 0, mergedPass 0] = some t ∧
      (∀ c ∈ t.scans, OfJob (generated mergedCtx) c.work) ∧ ¬ NoRepeat t.scans := by
  obtain ⟨t, hrun, hscans, hjob⟩ := mergedPass_run 0 0
  refine ⟨t, hrun, hjob, fun h => ?_⟩
  rw [hscans] at h
  have hpos : 0 < (mergedScan 0 0).result.hashesDone := scan_hashesDone_pos _ _ _
  exact (List.pairwise_cons.mp h).1 _ (.head _) 0 hpos 0 hpos fun _ _ => rfl

theorem noRepeat_differing :
    ∃ t, run (passStep (demoThread 0)) (.start zeroWork) [mergedPass 0, mergedPass 1] = some t ∧
      t.scans.length = 2 ∧ NoRepeat t.scans := by
  obtain ⟨t, hrun, hscans, hjob⟩ := mergedPass_run 0 1
  refine ⟨t, hrun, by rw [hscans]; rfl, (noRepeat_iff hrun hjob).mpr ?_⟩
  have hword (r : Word) : (mergedScan 0 r).randWord = nonceWord r 0 0 := le32dec_store32 _ _ _
  rw [hscans, List.pairwise_pair, hword, hword]
  exact .inl (by decide)

theorem threads_disjoint_two :
    ∃ t t', run (passStep (demoThread 0)) (.start zeroWork) [mergedPass 0] = some t ∧
      run (passStep (demoThread 1)) (.start zeroWork) [mergedPass 0] = some t' ∧
      t.scans.length = 1 ∧ t'.scans.length = 1 ∧
      ∀ a ∈ t.scans, ∀ b ∈ t'.scans, ∀ nonce nonce' : Word,
        ¬ SameMessage (preimage a.work nonce) (preimage b.work nonce') := by
  obtain ⟨t, hstep, _, _, hscans⟩ := mergedPass_step (s := .start zeroWork) rfl rfl 0 0
  obtain ⟨t', hstep', _, _, hscans'⟩ := mergedPass_step (s := .start zeroWork) rfl rfl 1 0
  have hrun : run _ _ [mergedPass 0] = some t := run_cons.mpr ⟨t, hstep, rfl⟩
  have hrun' : run _ _ [mergedPass 0] = some t' := run_cons.mpr ⟨t', hstep', rfl⟩
  exact ⟨t, t', hrun, hrun', by rw [hscans]; rfl, by rw [hscans']; rfl,
    threads_disjoint (by decide) (by decide) (by decide) hrun hrun'⟩

end Demo

end VerusMiner
