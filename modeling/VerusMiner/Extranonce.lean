import VerusMiner.Separation

/-! How far the extranonce a pool gives out keeps its sessions apart: the
header holds all of it, but a cleared message only its first seven bytes. -/

namespace VerusMiner

def SessionWork (sctx : StratumCtx) (work : Work) : Prop :=
  ∃ optDifficulty buf, stratumGenWork optDifficulty sctx buf = some work

inductive SessionMessage (sctx : StratumCtx) : Mem → Prop
  | mk {work : Work} (h : SessionWork sctx work) (round rand1 rand2 thrId nonce : Word) :
    SessionMessage sctx (preimage (threadWork work round (nonceWord rand1 rand2 thrId)) nonce)

def SessionsApart (sctx sctx' : StratumCtx) : Prop :=
  ∀ m m', SessionMessage sctx m → SessionMessage sctx' m' → ¬ SameMessage m m'

def ExtranonceKept (sctx : StratumCtx) : Prop :=
  ∀ {work}, SessionWork sctx work → clearsNonCanonical work.solution = true →
    ∀ (round rand1 rand2 thrId : Word), ∀ i < sctx.xnonce1Size,
      i < 11 ∧ nonceSpace (threadWork work round (nonceWord rand1 rand2 thrId)) i = sctx.xnonce1 i

def ExtranonceSeparates (sctx : StratumCtx) : Prop :=
  ExtranonceKept sctx ∧ ∀ sctx', sctx'.job = sctx.job → sctx'.xnonce1Size = sctx.xnonce1Size →
    (∃ i < sctx.xnonce1Size, sctx.xnonce1 i ≠ sctx'.xnonce1 i) → SessionsApart sctx sctx'

section Session

variable {sctx sctx' : StratumCtx} {work work' : Work}

theorem SessionWork.solution (h : SessionWork sctx work) {i : Nat} (hi : i < 1344) :
    work.solution i = sctx.job.solution i := by
  obtain ⟨_, _, h⟩ := h
  exact (stratumGenWork_eq h).2.1 i hi

theorem SessionWork.clears (h : SessionWork sctx work) :
    clearsNonCanonical work.solution = clearsNonCanonical sctx.job.solution :=
  clearsNonCanonical_congr (h.solution (by omega)) (h.solution (by omega))

theorem SessionWork.xnonce1 (h : SessionWork sctx work) (hsize : sctx.xnonce1Size ≤ 12) {i : Nat}
    (hi : i < sctx.xnonce1Size) : work.data (108 + i) = sctx.xnonce1 i := by
  obtain ⟨_, _, h⟩ := h
  rw [(stratumGenWork_eq h).1, genWorkData_at sctx (by omega), if_neg (by omega), if_neg (by omega),
    if_neg (by omega), if_neg (by omega), if_neg (by omega), xnonce1Size_mask hsize,
    if_pos (by omega), Nat.add_sub_cancel_left]

theorem exists_sessionWork (h : sctx.job.jobId.isSome) : ∃ work, SessionWork sctx work := by
  obtain ⟨jobId, hjob⟩ := Option.isSome_iff_exists.mp h
  exact ⟨_, 1.0, zeroWork, by rw [stratumGenWork, hjob]; rfl⟩

theorem SessionWork.data_congr (h : SessionWork sctx work) (h' : SessionWork sctx' work')
    (hjob : sctx'.job = sctx.job) (hsize : sctx'.xnonce1Size = sctx.xnonce1Size)
    (hfits : sctx.xnonce1Size ≤ 12) {i : Nat} (hi : i < 140)
    (heq : 108 ≤ i → i - 108 < sctx.xnonce1Size → sctx.xnonce1 (i - 108) = sctx'.xnonce1 (i - 108)) :
    work.data i = work'.data i := by
  obtain ⟨_, _, h⟩ := h
  obtain ⟨_, _, h'⟩ := h'
  rw [(stratumGenWork_eq h).1, (stratumGenWork_eq h').1, genWorkData_at sctx hi,
    genWorkData_at sctx' hi, hjob, hsize, xnonce1Size_mask hfits]
  split_ifs
  any_goals rfl
  exact heq (by omega) (by omega)

theorem sessionMessage_xnonce1 {m m' : Mem}
    (hsize : sctx'.xnonce1Size = sctx.xnonce1Size) (hfits : sctx.xnonce1Size ≤ 12)
    (h : SessionMessage sctx m) (h' : SessionMessage sctx' m') (hsame : SameMessage m m') {i : Nat}
    (hi : i < sctx.xnonce1Size) (hhashed : clearsNonCanonical sctx.job.solution = false ∨ i < 7) :
    sctx.xnonce1 i = sctx'.xnonce1 i := by
  obtain ⟨hw, round, rand1, rand2, thrId, nonce⟩ := h
  obtain ⟨hw', round', rand1', rand2', thrId', nonce'⟩ := h'
  have hdata := sameMessage_extranonce hsame (i := i) (by omega)
    (hhashed.imp_left fun h => hw.clears.trans h)
  rw [threadWork_data _ _ _ (by omega), threadWork_data _ _ _ (by omega)] at hdata
  rw [← hw.xnonce1 hfits hi, hdata, hw'.xnonce1 (hsize ▸ hfits) (hsize.symm ▸ hi)]

/-- Two sessions on one job are kept apart exactly by what of the extranonce
is hashed: by all of it, or by its first seven bytes. -/
theorem sessionsApart_iff (hjob : sctx'.job = sctx.job)
    (hsize : sctx'.xnonce1Size = sctx.xnonce1Size) (hfits : sctx.xnonce1Size ≤ 12)
    (hid : sctx.job.jobId.isSome) :
    SessionsApart sctx sctx' ↔ ∃ i < sctx.xnonce1Size, sctx.xnonce1 i ≠ sctx'.xnonce1 i ∧
      (clearsNonCanonical sctx.job.solution = false ∨ i < 7) := by
  constructor
  · intro hapart
    by_contra hnone
    have hagree {i : Nat} (hi : i < sctx.xnonce1Size)
        (hhashed : clearsNonCanonical sctx.job.solution = false ∨ i < 7) :
        sctx.xnonce1 i = sctx'.xnonce1 i := by
      by_contra hne
      exact hnone ⟨i, hi, hne, hhashed⟩
    obtain ⟨work, hw⟩ := exists_sessionWork hid
    have hid' : sctx'.job.jobId.isSome := hjob ▸ hid
    obtain ⟨work', hw'⟩ := exists_sessionWork hid'
    have hsame : SameMessage (preimage (threadWork work 0 (nonceWord 0 0 0)) 0)
        (preimage (threadWork work' 0 (nonceWord 0 0 0)) 0) := by
      refine preimage_congr (fun i hi => ?_) (fun i hi hnot => ?_) (fun hclears i hi => ?_) 0
      · rw [threadWork_solution, threadWork_solution, hw.solution hi, hw'.solution hi, hjob]
      · refine threadWork_data_congr _ _ _ (hw.data_congr hw' hjob hsize hfits hi fun h108 hlt => ?_)
        have hc : Cleared i := .inr (.inl (by omega))
        refine hagree hlt (.inl ?_)
        rw [← hw.clears]
        exact Bool.eq_false_iff.mpr fun h => hnot ⟨h, hc⟩
      · rw [threadWork_solution] at hclears
        have hclears' : clearsNonCanonical work'.solution = true := by
          rw [hw'.clears, hjob, ← hw.clears, hclears]
        rw [nonceSpace_threadWork _ _ _ hclears hi, nonceSpace_threadWork _ _ _ hclears' hi]
        split_ifs with h7
        · refine hw.data_congr hw' hjob hsize hfits (by omega) fun _ hlt => ?_
          exact hagree hlt (.inr (by omega))
        · rfl
    exact hapart _ _ (.mk hw 0 0 0 0 0) (.mk hw' 0 0 0 0 0) hsame
  · rintro ⟨i, hi, hne, hhashed⟩ m m' h h' hsame
    exact hne (sessionMessage_xnonce1 hsize hfits h h' hsame hi hhashed)

theorem extranonceKept_iff (hfits : sctx.xnonce1Size ≤ 12) (hid : sctx.job.jobId.isSome) :
    ExtranonceKept sctx ↔ clearsNonCanonical sctx.job.solution = false ∨ sctx.xnonce1Size ≤ 7 := by
  constructor
  · intro hkept
    by_contra hnot
    rw [not_or, Bool.not_eq_false, not_le] at hnot
    obtain ⟨work, hw⟩ := exists_sessionWork hid
    have hclears := hw.clears.trans hnot.1
    have hbyte (thrId : Word) : thrId.setWidth 8 = sctx.xnonce1 7 := by
      rw [← (hkept hw hclears 0 0 0 thrId 7 hnot.2).2, nonceSpace_threadWork _ _ _ hclears (by omega)]
      exact (nonceWord_low 0 0 thrId).symm
    exact absurd ((hbyte 0).trans (hbyte 1).symm) (by decide)
  · intro h work hw hclears round rand1 rand2 thrId i hi
    have hsize : sctx.xnonce1Size ≤ 7 := h.resolve_left (by simp [← hw.clears, hclears])
    refine ⟨by omega, ?_⟩
    rw [nonceSpace_threadWork _ _ _ hclears (by omega), if_pos (by omega), hw.xnonce1 hfits hi]

/-- An extranonce that the handlers accept separates the sessions of a job
exactly when nothing is cleared or it has at most seven bytes. -/
theorem extranonceSeparates_iff (sctx : StratumCtx)
    (hsize : 3 ≤ sctx.xnonce1Size ∧ sctx.xnonce1Size ≤ 12) (hid : sctx.job.jobId.isSome) :
    ExtranonceSeparates sctx ↔
      clearsNonCanonical sctx.job.solution = false ∨ sctx.xnonce1Size ≤ 7 := by
  rw [ExtranonceSeparates, extranonceKept_iff hsize.2 hid]
  refine and_iff_left_of_imp fun hkept sctx' hjob hsame ⟨i, hi, hne⟩ => ?_
  exact (sessionsApart_iff hjob hsame hsize.2 hid).mpr ⟨i, hi, hne, hkept.imp_right fun h => by omega⟩

end Session

def extranonceCtx (xnonce1 : CString) : Bool × StratumCtx :=
  stratumParseExtranonce mergedCtx (.array [.string xnonce1]) 0

theorem extranonceSeparates_four :
    ExtranonceSeparates (extranonceCtx ['0', '1', '2', '3', '4', '5', '6', '7']).2 :=
  (extranonceSeparates_iff _ (by decide +kernel) rfl).mpr (.inr (by decide +kernel))

/-- Of eight bytes the last is overwritten, so sessions that differ in it may meet. -/
theorem eight_bytes_meet :
    let a := extranonceCtx (List.replicate 16 '0')
    let b := extranonceCtx (List.replicate 15 '0' ++ ['1'])
    (a.1 = true ∧ b.1 = true) ∧ a.2.xnonce1 7 ≠ b.2.xnonce1 7 ∧
    ¬ ExtranonceKept a.2 ∧ ¬ SessionsApart a.2 b.2 := by
  intro a b
  have hsize : a.2.xnonce1Size = 8 := by decide +kernel
  have hclears : clearsNonCanonical a.2.job.solution = true := by decide +kernel
  have hseven : ∀ i < 7, a.2.xnonce1 i = b.2.xnonce1 i := by decide +kernel
  refine ⟨by decide +kernel, by decide +kernel, ?_, ?_⟩
  · rw [extranonceKept_iff (by omega) rfl, hclears, hsize]
    decide
  · intro hapart
    have hjob : b.2.job = a.2.job := rfl
    have hsame : b.2.xnonce1Size = a.2.xnonce1Size := by decide +kernel
    obtain ⟨i, _, hne, hw | hlt⟩ := (sessionsApart_iff hjob hsame (by omega) rfl).mp hapart
    · rw [hclears] at hw
      cases hw
    · exact hne (hseven i hlt)

end VerusMiner
