import VerusMiner.HashLog
import VerusMiner.Lib.Runs

/-! Which shares have a record of their own, and what the log says when it is
asked for one: its key is 28 bits of the job's time and a word of the nonce. -/

namespace VerusMiner

deriving instance DecidableEq for Submission

/-- A share as it was submitted, with the job id and nonce it is recorded under. -/
structure LoggedShare where
  jobId : CString
  nonce : Word
  submission : Submission
  deriving DecidableEq

structure ShareRecord (δ : Type) where
  share : LoggedShare
  data : HashlogData δ

def ShareRecord.key {δ : Type} (a : ShareRecord δ) : BitVec 64 := hashlogKey a.share.jobId a.share.nonce

structure Asked (δ : Type) where
  jobId : CString
  nonce : Word
  answer : Word
  records : List (ShareRecord δ)

/-- `records` are those written and not purged, one for each share. -/
structure RecordsState (δ : Type) where
  log : HashLog δ
  records : List (ShareRecord δ)
  asked : List (Asked δ)

inductive RecordsEvent where
  | remember (xnonce1Size : Nat) (work : Work) (now sharesCount : Word)
  | purgeOld (now : Word)
  | purgeAll
  | ask (jobid : CString) (nonce : Word)

def loggedShare (xnonce1Size : Nat) (work : Work) : LoggedShare where
  jobId := work.jobId
  nonce := work.nonces work.submitNonceId.toNat
  submission := verusStratumSubmit xnonce1Size work

section Step

variable {δ : Type} (sentDiff : Work → δ)

def recordsStep (s : RecordsState δ) : RecordsEvent → Option (RecordsState δ)
  | .remember xnonce1Size work now sharesCount =>
    let share := loggedShare xnonce1Size work
    let data : HashlogData δ :=
      { jobNonceId := sharesCount.setWidth 8, sharediff := sentDiff work, tmSent := now }
    some { s with
      log := s.log.rememberSubmit work (sentDiff work) share.nonce now sharesCount
      records := s.records.filter (fun a => a.share ≠ share) ++ [{ share := share, data := data }] }
  | .purgeOld now => some { s with
      log := s.log.purgeOld now
      records := s.records.filter fun a => decide (now - a.data.tmSent ≤ logPurgeTimeout) }
  | .purgeAll => some { s with log := HashLog.purgeAll, records := [] }
  | .ask jobid nonce => some { s with
      asked := s.asked ++
        [{ jobId := jobid
           nonce := nonce
           answer := s.log.alreadySubmitted jobid nonce
           records := s.records }] }

def Recorded (records : List (ShareRecord δ)) (jobid : CString) (nonce : Word) : Prop :=
  ∃ a ∈ records, a.share.jobId = jobid ∧ a.share.nonce = nonce

/-- Something is reported exactly for a share that is recorded, and it is the
time of that record. -/
structure Asked.Right (q : Asked δ) : Prop where
  reported : q.answer ≠ 0 ↔ Recorded q.records q.jobId q.nonce
  time : q.answer ≠ 0 →
    ∃ a ∈ q.records, a.share.jobId = q.jobId ∧ a.share.nonce = q.nonce ∧ a.data.tmSent = q.answer

/-- Every two shares have two records in the log. -/
structure RecordsRight (s : RecordsState δ) : Prop where
  kept : ∀ a ∈ s.records, s.log[a.key]? = some a.data
  apart : s.records.Pairwise fun a b => a.key ≠ b.key
  asked : ∀ q ∈ s.asked, q.Right

/-- A share is recorded under a number and nonce that no other record has. What
is asked for is told from the other records by these; with a nonce of 0, nothing
is recorded under a number that has the bits of the asked one. -/
def TellsApart (s : RecordsState δ) : RecordsEvent → Prop
  | .remember xnonce1Size work _ _ => ∀ a ∈ s.records, a.share ≠ loggedShare xnonce1Size work →
      jobNumber a.share.jobId = jobNumber work.jobId →
      a.share.nonce ≠ (loggedShare xnonce1Size work).nonce
  | .ask jobid nonce =>
    if nonce = 0 then ∀ a ∈ s.records, ¬ Covers jobid a.key
    else ∀ a ∈ s.records, jobNumber a.share.jobId = jobNumber jobid → a.share.nonce = nonce →
      (a.data.tmSent ≠ 0 ↔ a.share.jobId = jobid)
  | _ => True

end Step

section Steps

variable {δ : Type} {sentDiff : Work → δ} {s s' : RecordsState δ} {e : RecordsEvent}

/-- Whatever is in the log was written for a share and not purged since. -/
def WrittenFor (s : RecordsState δ) : Prop :=
  ∀ {key : BitVec 64} {data : HashlogData δ}, s.log[key]? = some data →
    ∃ a ∈ s.records, a.key = key ∧ a.data = data

theorem WrittenFor.step (h : WrittenFor s) (hstep : recordsStep sentDiff s e = some s') : WrittenFor s' := by
  cases e with
  | remember xnonce1Size work now sharesCount =>
    cases hstep
    intro key data hdata
    rw [HashLog.getElem?_rememberSubmit] at hdata
    split_ifs at hdata with hkey
    · cases hdata
      exact ⟨_, List.mem_append_right _ (List.mem_singleton.mpr rfl), hkey, rfl⟩
    · obtain ⟨a, ha, hakey, hadata⟩ := h hdata
      refine ⟨a, List.mem_append_left _ (List.mem_filter.mpr ⟨ha, ?_⟩), hakey, hadata⟩
      refine decide_eq_true fun hsame => hkey ?_
      rw [← hakey, ShareRecord.key, hsame]
      rfl
  | purgeOld now =>
    cases hstep
    intro key data hdata
    rw [HashLog.getElem?_purgeOld, Option.filter_eq_some_iff] at hdata
    obtain ⟨a, ha, hakey, hadata⟩ := h hdata.1
    refine ⟨a, List.mem_filter.mpr ⟨ha, ?_⟩, hakey, hadata⟩
    rw [hadata]
    exact hdata.2
  | purgeAll =>
    cases hstep
    intro key data hdata
    change (∅ : HashLog δ)[key]? = some data at hdata
    simp at hdata
  | ask jobid nonce =>
    cases hstep
    exact h

theorem recordsRight_remember (h : RecordsRight s) {xnonce1Size : Nat} {work : Work} {now sharesCount : Word}
    (hstep : recordsStep sentDiff s (.remember xnonce1Size work now sharesCount) = some s') :
    RecordsRight s' ↔ TellsApart s (.remember xnonce1Size work now sharesCount) := by
  cases hstep
  let share := loggedShare xnonce1Size work
  have hkey (a : ShareRecord δ) : a.key = hashlogKey work.jobId share.nonce ↔
      jobNumber a.share.jobId = jobNumber work.jobId ∧ a.share.nonce = share.nonce := hashlogKey_eq_iff
  constructor
  · rintro ⟨_, hapart, _⟩ a ha hshare hnumber hnonce
    have hmem : a ∈ s.records.filter fun a => a.share ≠ share :=
      List.mem_filter.mpr ⟨ha, decide_eq_true hshare⟩
    have hne := (List.pairwise_append.mp hapart).2.2 a hmem _ (List.mem_singleton.mpr rfl)
    exact hne ((hkey a).mpr ⟨hnumber, hnonce⟩)
  · intro hok
    have hne : ∀ a ∈ s.records.filter (fun a => a.share ≠ share),
        a.key ≠ hashlogKey work.jobId share.nonce := by
      intro a ha hsame
      obtain ⟨hmem, hshare⟩ := List.mem_filter.mp ha
      obtain ⟨hnumber, hnonce⟩ := (hkey a).mp hsame
      exact hok a hmem (of_decide_eq_true hshare) hnumber hnonce
    refine ⟨fun a ha => ?_, ?_, h.asked⟩
    · change (s.log.rememberSubmit work (sentDiff work) share.nonce now sharesCount)[a.key]? = _
      rw [HashLog.getElem?_rememberSubmit]
      rcases List.mem_append.mp ha with hold | hnew
      · rw [if_neg (hne a hold).symm, h.kept a (List.mem_filter.mp hold).1]
      · rw [List.mem_singleton.mp hnew]
        exact if_pos rfl
    · refine List.pairwise_append.mpr ⟨h.apart.sublist List.filter_sublist, List.pairwise_singleton _ _, ?_⟩
      intro a ha b hb
      rw [List.mem_singleton.mp hb]
      exact hne a ha

theorem RecordsRight.purgeOld (h : RecordsRight s) {now : Word}
    (hstep : recordsStep sentDiff s (.purgeOld now) = some s') : RecordsRight s' := by
  cases hstep
  refine ⟨fun a ha => ?_, h.apart.sublist List.filter_sublist, h.asked⟩
  obtain ⟨hmem, hrecent⟩ := List.mem_filter.mp ha
  change (s.log.purgeOld now)[a.key]? = _
  rw [HashLog.getElem?_purgeOld, h.kept a hmem]
  exact Option.filter_some_pos hrecent

theorem RecordsRight.eq_of_key (h : RecordsRight s) {a b : ShareRecord δ} (ha : a ∈ s.records)
    (hb : b ∈ s.records) (hkey : a.key = b.key) : a = b := by
  have hnodup : (s.records.map ShareRecord.key).Nodup := List.pairwise_map.mpr h.apart
  exact List.inj_on_of_nodup_map hnodup ha hb hkey

theorem alreadySubmitted_eq_iff (h : RecordsRight s) (hw : WrittenFor s) {jobid : CString} {nonce now : Word}
    (hnonce : nonce ≠ 0) (hnow : now ≠ 0) : s.log.alreadySubmitted jobid nonce = now ↔
      ∃ a ∈ s.records, a.key = hashlogKey jobid nonce ∧ a.data.tmSent = now := by
  rw [HashLog.alreadySubmitted, if_neg hnonce]
  cases hlog : s.log[hashlogKey jobid nonce]? with
  | none =>
    refine iff_of_false (fun hzero => hnow hzero.symm) ?_
    rintro ⟨a, ha, hkey, _⟩
    have hkept := h.kept a ha
    rw [hkey, hlog] at hkept
    cases hkept
  | some data =>
    constructor
    · intro htime
      obtain ⟨a, ha, hkey, rfl⟩ := hw hlog
      exact ⟨a, ha, hkey, htime⟩
    · rintro ⟨a, ha, hkey, htime⟩
      have hkept := h.kept a ha
      rw [hkey, hlog] at hkept
      rw [Option.some.inj hkept]
      exact htime

theorem alreadySubmitted_ne_zero (h : RecordsRight s) (hw : WrittenFor s) {jobid : CString} {nonce : Word}
    (hnonce : nonce ≠ 0) : s.log.alreadySubmitted jobid nonce ≠ 0 ↔
      ∃ a ∈ s.records, a.key = hashlogKey jobid nonce ∧ a.data.tmSent ≠ 0 := by
  constructor
  · intro htime
    obtain ⟨a, ha, hkey, heq⟩ := (alreadySubmitted_eq_iff h hw hnonce htime).mp rfl
    exact ⟨a, ha, hkey, heq ▸ htime⟩
  · rintro ⟨a, ha, hkey, htime⟩
    rw [(alreadySubmitted_eq_iff h hw hnonce htime).mpr ⟨a, ha, hkey, rfl⟩]
    exact htime

def RecordsState.answered (s : RecordsState δ) (jobid : CString) (nonce : Word) : Asked δ where
  jobId := jobid
  nonce := nonce
  answer := s.log.alreadySubmitted jobid nonce
  records := s.records

theorem answered_right_iff (h : RecordsRight s) (hw : WrittenFor s) {jobid : CString} {nonce : Word}
    (hnonce : nonce ≠ 0) : (s.answered jobid nonce).Right ↔ TellsApart s (.ask jobid nonce) := by
  rw [TellsApart, if_neg hnonce]
  constructor
  · rintro ⟨hright, _⟩ a ha hnumber heq
    have hkey : a.key = hashlogKey jobid nonce := hashlogKey_eq_iff.mpr ⟨hnumber, heq⟩
    constructor
    · intro htime
      obtain ⟨b, hb, hbjob, hbnonce⟩ : Recorded s.records jobid nonce :=
        hright.mp ((alreadySubmitted_ne_zero h hw hnonce).mpr ⟨a, ha, hkey, htime⟩)
      have hbkey : b.key = a.key := by rw [hkey, ShareRecord.key, hbjob, hbnonce]
      rw [← h.eq_of_key hb ha hbkey, hbjob]
    · intro hjob
      obtain ⟨b, hb, hbkey, htime⟩ :=
        (alreadySubmitted_ne_zero h hw hnonce).mp (hright.mpr ⟨a, ha, hjob, heq⟩)
      rw [← h.eq_of_key hb ha (hbkey.trans hkey.symm)]
      exact htime
  · intro hok
    refine ⟨⟨fun hreported => ?_, ?_⟩, fun hreported => ?_⟩
    · obtain ⟨a, ha, hkey, htime⟩ := (alreadySubmitted_ne_zero h hw hnonce).mp hreported
      obtain ⟨hnumber, heq⟩ := hashlogKey_eq_iff.mp hkey
      exact ⟨a, ha, (hok a ha hnumber heq).mp htime, heq⟩
    · rintro ⟨a, ha, hjob, heq⟩
      have hnumber : jobNumber a.share.jobId = jobNumber jobid := congrArg jobNumber hjob
      exact (alreadySubmitted_ne_zero h hw hnonce).mpr
        ⟨a, ha, hashlogKey_eq_iff.mpr ⟨hnumber, heq⟩, (hok a ha hnumber heq).mpr hjob⟩
    · obtain ⟨a, ha, hkey, htime⟩ := (alreadySubmitted_eq_iff h hw hnonce hreported).mp rfl
      obtain ⟨hnumber, heq⟩ := hashlogKey_eq_iff.mp hkey
      exact ⟨a, ha, (hok a ha hnumber heq).mp (htime ▸ hreported), heq, htime⟩

/-- A nonce of 0 asks for the last nonce: nothing may be found, and then
nothing is recorded. -/
theorem answered_zero_right (hw : WrittenFor s) {jobid : CString} (hok : TellsApart s (.ask jobid 0)) :
    (s.answered jobid 0).Right := by
  rw [TellsApart, if_pos rfl] at hok
  have hnothing : s.log.alreadySubmitted jobid 0 = 0 := by
    rw [HashLog.alreadySubmitted, if_pos rfl, HashLog.getLastSent]
    split
    · rename_i key data hlast
      obtain ⟨hdata, hp, _⟩ := lastEntry_eq_some hlast
      obtain ⟨a, ha, rfl, rfl⟩ := hw hdata
      simp only [Bool.and_eq_true, beq_iff_eq] at hp
      exact absurd ((keypfx_and_eq_iff ..).mp hp.1) (hok a ha)
    · rfl
  have hnone : ¬ Recorded s.records jobid 0 := by
    rintro ⟨a, ha, hjob, _⟩
    refine hok a ha (OwnKey.covers ?_)
    rw [OwnKey, ShareRecord.key, hiDword_hashlogKey, hjob]
  exact ⟨iff_of_false (fun hreported => hreported hnothing) hnone, fun hreported => absurd hnothing hreported⟩

theorem recordsRight_ask (h : RecordsRight s) {jobid : CString} {nonce : Word}
    (hstep : recordsStep sentDiff s (.ask jobid nonce) = some s') :
    RecordsRight s' ↔ (s.answered jobid nonce).Right := by
  cases hstep
  constructor
  · intro h'
    exact h'.asked _ (List.mem_append_right _ (List.mem_singleton.mpr rfl))
  · intro hright
    refine ⟨h.kept, h.apart, fun q hq => ?_⟩
    rcases List.mem_append.mp hq with hold | hnew
    · exact h.asked q hold
    · rw [List.mem_singleton.mp hnew]
      exact hright

theorem recordsRight_step_iff (hw : WrittenFor s) (h : RecordsRight s) (hask : ∀ jobid, e ≠ .ask jobid 0)
    (hstep : recordsStep sentDiff s e = some s') : RecordsRight s' ↔ TellsApart s e := by
  cases e with
  | remember xnonce1Size work now sharesCount => exact recordsRight_remember h hstep
  | purgeOld now => exact iff_of_true (h.purgeOld hstep) trivial
  | purgeAll =>
    cases hstep
    exact iff_of_true ⟨fun _ ha => (by cases ha), .nil, h.asked⟩ trivial
  | ask jobid nonce =>
    have hnonce : nonce ≠ 0 := fun hzero => hask jobid (by rw [hzero])
    rw [recordsRight_ask h hstep, answered_right_iff h hw hnonce]

theorem recordsRight_step (hw : WrittenFor s) (h : RecordsRight s) (hok : TellsApart s e)
    (hstep : recordsStep sentDiff s e = some s') : RecordsRight s' := by
  by_cases hask : ∃ jobid, e = .ask jobid 0
  · obtain ⟨jobid, rfl⟩ := hask
    exact (recordsRight_ask h hstep).mpr (answered_zero_right hw hok)
  · exact (recordsRight_step_iff hw h (fun jobid he => hask ⟨jobid, he⟩) hstep).mpr hok

end Steps

def recordsStart {δ : Type} : RecordsState δ where
  log := ∅
  records := []
  asked := []

/-- In every run whose steps tell their share from the others the records are
kept apart and the log answers with the times of the shares asked for; and where
no nonce of 0 is asked for, in no other run. -/
theorem run_recordsRight_iff {δ : Type} (sentDiff : Work → δ) {es : List RecordsEvent} {s : RecordsState δ}
    (hrun : run (recordsStep sentDiff) recordsStart es = some s) :
    (Along (recordsStep sentDiff) TellsApart recordsStart es →
      Throughout (recordsStep sentDiff) RecordsRight recordsStart es) ∧
    ((∀ e ∈ es, ∀ jobid, e ≠ .ask jobid 0) → Throughout (recordsStep sentDiff) RecordsRight recordsStart es →
      Along (recordsStep sentDiff) TellsApart recordsStart es) := by
  have hw : WrittenFor (recordsStart (δ := δ)) := fun h => by simp [recordsStart] at h
  have hright : RecordsRight (recordsStart (δ := δ)) :=
    ⟨fun _ ha => (by cases ha), .nil, fun _ hq => (by cases hq)⟩
  constructor
  · refine throughout_of_along (I := fun s => WrittenFor s ∧ RecordsRight s) ?_ (fun h => h.2) ⟨hw, hright⟩
    rintro _ _ _ ⟨hw, h⟩ hok hstep
    exact ⟨WrittenFor.step hw hstep, recordsRight_step hw h hok hstep⟩
  · intro hasked
    refine (throughout_iff_along_given (I := WrittenFor) ?_ ?_ (along_of_always fun e he _ => hasked e he)
      hrun hw hright).mp
    · exact fun hw _ hstep => WrittenFor.step hw hstep
    · exact fun hw h hask hstep => recordsRight_step_iff hw h hask hstep

/-- The work of a job of this id, with one nonce found. -/
def recordedWork (jobId : CString) (nonce : Word) : Work :=
  { zeroWork with
    jobId := sprintfX 7 0 ++ ' ' :: jobId
    nonces := fun _ => nonce }

def workDiff (work : Work) : Nat := (work.nonces 0).toNat

theorem run_recordsRight_two :
    Throughout (recordsStep workDiff) RecordsRight recordsStart
      [.remember 4 (recordedWork ['a'] 1) 7 1, .remember 4 (recordedWork ['a'] 2) 7 3,
        .ask (recordedWork ['a'] 1).jobId 1] := by
  refine (run_recordsRight_iff workDiff rfl).1 ?_
  rw [along_cons rfl, along_cons rfl, along_cons rfl]
  refine ⟨fun _ ha => (by cases ha), ?_, ?_, trivial⟩
  · intro a ha _ _
    rw [List.mem_singleton.mp ha]
    decide
  · rw [TellsApart, if_neg (by decide)]
    intro a ha _ _
    rcases List.mem_append.mp ha with hold | hnew
    · rw [List.mem_singleton.mp (List.mem_filter.mp hold).1]
      exact iff_of_true (by decide : (7 : Word) ≠ 0) rfl
    · rw [List.mem_singleton.mp hnew]
      exact iff_of_true (by decide : (7 : Word) ≠ 0) rfl

/-- Two jobs of one time: a share of the second takes the place of one of the
first, and is reported when that one is asked for. -/
theorem two_jobs_one_record :
    (∃ s a b, run (recordsStep workDiff) recordsStart
        [.remember 4 (recordedWork ['a'] 1) 7 1, .remember 4 (recordedWork ['b'] 1) 7 1] = some s ∧
      s.records = [a, b] ∧ a.share.submission.jobid = ['a'] ∧ b.share.submission.jobid = ['b'] ∧
      ¬ RecordsRight s) ∧
    ∃ s q, run (recordsStep workDiff) recordsStart
        [.remember 4 (recordedWork ['b'] 1) 7 1, .ask (recordedWork ['a'] 1).jobId 1] = some s ∧
      s.asked = [q] ∧ q.answer = 7 ∧ ¬ Recorded q.records q.jobId q.nonce ∧ ¬ RecordsRight s := by
  constructor
  · refine ⟨_, _, _, rfl, rfl, rfl, rfl, fun h => ?_⟩
    exact List.rel_of_pairwise_cons h.apart List.mem_cons_self (hashlogKey_eq_iff.mpr ⟨by decide, rfl⟩)
  · have hother : ¬ Recorded (δ := Nat) [{ share := loggedShare 4 (recordedWork ['b'] 1), data := ⟨1, 1, 7⟩ }]
        (recordedWork ['a'] 1).jobId 1 := by
      rintro ⟨a, ha, hjob, _⟩
      rw [List.mem_singleton.mp ha] at hjob
      exact absurd hjob (by decide)
    refine ⟨_, _, rfl, rfl, by decide, hother, fun h => ?_⟩
    exact hother ((h.asked _ (List.mem_singleton.mpr rfl)).reported.mp (by decide))

end VerusMiner
