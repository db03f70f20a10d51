import VerusMiner.HashLog
import VerusMiner.ShareIds

/-! Which difficulty is credited when the pool answers a share: the log is
searched for the number in the answer, and the last difficulty sent is taken
where nothing is found. -/

namespace VerusMiner

/-- What an answer was credited with, the job that was looked up, and the
shares sent by then. -/
structure Credit (δ : Type) where
  id : Word
  connection : Nat
  jobId : CString
  sharediff : δ
  numbered : List SubmittedShare

/-- `unlogged` is the share that is sent and not yet recorded. -/
structure CreditState (δ : Type) where
  ids : IdState
  log : HashLog δ
  sharediff : δ
  unlogged : Option Work
  credits : List (Credit δ)

inductive CreditEvent where
  | ids (e : IdEvent)
  | remember (now : Word)
  | answer (id : Word) (hasResult : Bool)
  | purgeOld (now : Word)
  | purgeAll

def Work.sentNonce (work : Work) : Word := work.nonces work.submitNonceId.toNat

def sentBy (s : IdState) : IdEvent → Option Work
  | .send true =>
    match s.pc with
    | .composed work _ _ => some work
    | _ => none
  | _ => none

section Step

variable {δ : Type} (cfg : MinerConfig) (sentDiff : Work → δ)

/-- With `opt_showdiff` and `check_dups`. A share is recorded before its caller
counts it; the answers are read by another thread. `sentDiff` is the difficulty
stored in a work for the share it is sent with. -/
def creditStep (s : CreditState δ) : CreditEvent → Option (CreditState δ)
  | .ids e =>
    match e, s.unlogged with
    | .count, some _ => none
    | e, unlogged =>
      (idStep cfg s.ids e).map fun ids =>
        let sent := sentBy s.ids e
        { s with
          ids := ids
          sharediff := (sent.map sentDiff).getD s.sharediff
          unlogged := sent <|> unlogged }
  | .remember now =>
    s.unlogged.map fun work =>
      { s with
        log := s.log.rememberSubmit work (sentDiff work) work.sentNonce now s.ids.sharesCount
        unlogged := none }
  | .answer id hasResult =>
    -- the late answers of a login, and what is too big for an `int`
    if id.toInt < 4 then some s
    else
      let sharediff := s.log.getSharediff s.ids.gWork.jobId (id.toInt - 10) s.sharediff
      some (if hasResult then
          { s with
            credits := s.credits ++
              [{ id := id
                 connection := s.ids.connection
                 jobId := s.ids.gWork.jobId
                 sharediff := sharediff
                 numbered := s.ids.numbered }] }
        else s)
  | .purgeOld now => some { s with log := s.log.purgeOld now }
  | .purgeAll => some { s with log := HashLog.purgeAll }

/-- A share of the job that this id was sent with on the connection. -/
def Answers (numbered : List SubmittedShare) (connection : Nat) (jobId : CString) (id : Word)
    (r : SubmittedShare) : Prop :=
  r ∈ numbered ∧ r.connection = connection ∧ r.work.jobId = jobId ∧ r.id = id

def Credit.Right (c : Credit δ) : Prop :=
  ∀ r, Answers c.numbered c.connection c.jobId c.id r → c.sharediff = sentDiff r.work

end Step

/-- Somebody zeroes the counter of the session in this step. -/
def IdState.Zeroes (s : IdState) : IdEvent → Prop
  | .refresh i _ _ => (s.works i).jobId ≠ s.gWork.jobId
  | .freeJob => True
  | _ => False

/-- Nobody zeroes the counter between the making of a line and the recording of
its share; and of the shares sent for jobs of the current number none was
counted, up to a multiple of 256, one before the share that is answered. -/
def IdsApart {δ : Type} (s : CreditState δ) : CreditEvent → Prop
  | .ids e => s.ids.Zeroes e →
      (∀ work sharesCount round, s.ids.pc ≠ .composed work sharesCount round) ∧ s.unlogged = none
  | .answer id hasResult => 4 ≤ id.toInt → hasResult = true → ∀ r ∈ s.ids.numbered,
      jobNumber r.work.jobId = jobNumber s.ids.gWork.jobId →
        (((r.sharesCount + 1).setWidth 8).toNat : Int) ≠ id.toInt - 10
  | _ => True

/-- What is in the log was sent, under the id before the number it is recorded
with, and the difficulty kept aside is that of the share sent last. -/
structure Logged {δ : Type} (sentDiff : Work → δ) (s : CreditState δ) : Prop where
  composed : ∀ work sharesCount round, s.ids.pc = .composed work sharesCount round →
    s.ids.sharesCount = sharesCount
  unlogged : ∀ work, s.unlogged = some work →
    ∃ r ∈ s.ids.numbered, r.work = work ∧ s.ids.sharesCount = r.sharesCount + 1
  logged : ∀ key data, s.log[key]? = some data → ∃ r ∈ s.ids.numbered,
    hashlogKey r.work.jobId r.work.sentNonce = key ∧ data.jobNonceId = (r.sharesCount + 1).setWidth 8
  last : ∀ r, s.ids.numbered.getLast? = some r → s.sharediff = sentDiff r.work

section Steps

variable {δ : Type} {cfg : MinerConfig} {sentDiff : Work → δ} {s s' : CreditState δ} {e : CreditEvent}

/-- What a step of the numbering does to the counter and to the shares sent. -/
theorem idStep_counts {s s' : IdState} {e : IdEvent} (h : idStep cfg s e = some s') :
    (∃ work sharesCount round, s.pc = .composed work sharesCount round ∧ sentBy s e = some work ∧
      s'.pc = .submitted ∧ s'.sharesCount = s.sharesCount + 1 ∧
      s'.numbered = s.numbered ++ [⟨s.connection, work, sharesCount, round⟩]) ∨
    sentBy s e = none ∧ s'.numbered = s.numbered ∧
      (s.Zeroes e ∧ s'.pc = s.pc ∨ e = .count ∧ s'.pc = .idle ∨ s'.sharesCount = s.sharesCount ∧
        ∀ work sharesCount round, s'.pc = .composed work sharesCount round →
          s.pc = .composed work sharesCount round ∨ sharesCount = s.sharesCount) := by
  cases e with
  | refresh i rand1 rand2 =>
    simp only [idStep, Option.some.injEq] at h
    subst h
    split_ifs with hzeroes
    · exact .inr ⟨rfl, rfl, .inl ⟨hzeroes, rfl⟩⟩
    · exact .inr ⟨rfl, rfl, .inr (.inr ⟨rfl, fun _ _ _ hpc => .inl hpc⟩)⟩
  | scan i work =>
    simp only [idStep] at h
    split_ifs at h
    cases h
    exact .inr ⟨rfl, rfl, .inr (.inr ⟨rfl, fun _ _ _ hpc => .inl hpc⟩)⟩
  | install work | submitWork i | connect =>
    cases h
    exact .inr ⟨rfl, rfl, .inr (.inr ⟨rfl, fun _ _ _ hpc => .inl hpc⟩)⟩
  | freeJob =>
    cases h
    exact .inr ⟨rfl, rfl, .inl ⟨trivial, rfl⟩⟩
  | compose allocated =>
    simp only [idStep] at h
    split at h
    · cases h
      refine .inr ⟨rfl, rfl, .inr (.inr ⟨rfl, fun work sharesCount round hpc => .inr ?_⟩)⟩
      change (if allocated then _ else _) = _ at hpc
      split_ifs at hpc
      cases hpc
      rfl
    · cases h
  | send ok =>
    simp only [idStep] at h
    split at h
    · rename_i work sharesCount round hpc
      cases h
      cases ok with
      | true => exact .inl ⟨work, sharesCount, round, hpc, by rw [sentBy, hpc], rfl, rfl, rfl⟩
      | false => exact .inr ⟨rfl, rfl, .inr (.inr ⟨rfl, fun _ _ _ hpc => by cases hpc⟩)⟩
    · cases h
  | count =>
    simp only [idStep] at h
    split at h
    · cases h
      exact .inr ⟨rfl, rfl, .inr (.inl ⟨rfl, rfl⟩)⟩
    · cases h

theorem Logged.ids (h : Logged sentDiff s) {e : IdEvent} (hok : IdsApart s (.ids e))
    (hstep : creditStep cfg sentDiff s (.ids e) = some s') : Logged sentDiff s' := by
  simp only [creditStep] at hstep
  split at hstep
  · cases hstep
  · rename_i e _ _ hcount
    obtain ⟨ids, hids, rfl⟩ := Option.map_eq_some_iff.mp hstep
    rcases idStep_counts hids with ⟨work, sharesCount, round, hpc, hsent, hsubmitted, hadded, hnumbered⟩ |
      ⟨hsent, hnumbered, hends⟩
    · have hline := h.composed work sharesCount round hpc
      refine ⟨fun _ _ _ hcomposed => ?_, fun work' hwork' => ?_, fun key data hdata => ?_, fun r hr => ?_⟩
      · rw [hsubmitted] at hcomposed
        cases hcomposed
      · rw [hsent] at hwork'
        cases hwork'
        refine ⟨_, hnumbered ▸ List.mem_append_right _ (List.mem_singleton_self _), rfl, ?_⟩
        rw [hadded, hline]
      · obtain ⟨r, hr, hrecord⟩ := h.logged key data hdata
        exact ⟨r, hnumbered ▸ List.mem_append_left _ hr, hrecord⟩
      · rw [hnumbered, List.getLast?_concat, Option.some.injEq] at hr
        rw [hsent, ← hr]
        rfl
    · have hunlogged : (sentBy s.ids e <|> s.unlogged) = s.unlogged := by rw [hsent]; rfl
      have hlogged : ∀ key data, s.log[key]? = some data → ∃ r ∈ ids.numbered,
          hashlogKey r.work.jobId r.work.sentNonce = key ∧
            data.jobNonceId = (r.sharesCount + 1).setWidth 8 := hnumbered ▸ h.logged
      have hlast : ∀ r, ids.numbered.getLast? = some r →
          ((sentBy s.ids e).map sentDiff).getD s.sharediff = sentDiff r.work := by
        rw [hsent, hnumbered]
        exact h.last
      refine ⟨fun work sharesCount round hpc => ?_, fun work hwork => ?_, hlogged, hlast⟩
      · rcases hends with ⟨hzeroes, hsame⟩ | ⟨_, hidle⟩ | ⟨hcount', hbefore⟩
        · exact absurd (hsame ▸ hpc) ((hok hzeroes).1 work sharesCount round)
        · rw [hidle] at hpc
          cases hpc
        · rw [hcount']
          rcases hbefore work sharesCount round hpc with hold | hnew
          · exact h.composed work sharesCount round hold
          · exact hnew.symm
      · -- a share that is sent and not recorded keeps the counter where it is
        replace hwork : s.unlogged = some work := hunlogged ▸ hwork
        obtain ⟨r, hr, hrwork, hrcount⟩ := h.unlogged work hwork
        rcases hends with ⟨hzeroes, _⟩ | ⟨rfl, _⟩ | ⟨hsame, _⟩
        · rw [(hok hzeroes).2] at hwork
          cases hwork
        · exact absurd hwork (hcount work rfl)
        · exact ⟨r, hnumbered ▸ hr, hrwork, hsame.trans hrcount⟩

theorem Logged.step (h : Logged sentDiff s) (hok : IdsApart s e)
    (hstep : creditStep cfg sentDiff s e = some s') : Logged sentDiff s' := by
  cases e with
  | ids e => exact h.ids hok hstep
  | remember now =>
    obtain ⟨work, hunlogged, rfl⟩ := Option.map_eq_some_iff.mp hstep
    refine ⟨h.composed, fun _ hwork => (by cases hwork), fun key data hdata => ?_, h.last⟩
    rw [HashLog.getElem?_rememberSubmit] at hdata
    split_ifs at hdata with hkey
    · obtain ⟨r, hr, rfl, hcount⟩ := h.unlogged work hunlogged
      cases hdata
      exact ⟨r, hr, hkey, by rw [hcount]⟩
    · exact h.logged key data hdata
  | answer id hasResult =>
    simp only [creditStep] at hstep
    split_ifs at hstep <;> cases hstep <;> exact ⟨h.composed, h.unlogged, h.logged, h.last⟩
  | purgeOld now =>
    cases hstep
    refine ⟨h.composed, h.unlogged, fun key data hdata => ?_, h.last⟩
    rw [HashLog.getElem?_purgeOld, Option.filter_eq_some_iff] at hdata
    exact h.logged key data hdata.1
  | purgeAll =>
    cases hstep
    refine ⟨h.composed, h.unlogged, fun key data hdata => ?_, h.last⟩
    change (∅ : HashLog δ)[key]? = some data at hdata
    simp at hdata

/-- Nothing is found under the number of an answer, so the difficulty kept
aside is credited. -/
theorem Logged.getSharediff (h : Logged sentDiff s) {id : Word} (hid : 4 ≤ id.toInt)
    (hok : IdsApart s (.answer id true)) :
    s.log.getSharediff s.ids.gWork.jobId (id.toInt - 10) s.sharediff = s.sharediff := by
  refine HashLog.getSharediff_default _ fun {key data} hdata hown => ?_
  obtain ⟨r, hr, rfl, hnumber⟩ := h.logged key data hdata
  rw [OwnKey, hiDword_hashlogKey] at hown
  rw [hnumber]
  exact hok hid rfl r hr hown

end Steps

end VerusMiner
