import VerusMiner.ShareRecords

/-! Which records of the log count as those of a job: what is asked for of a
job and what its purge takes away. -/

namespace VerusMiner

/-- A record with the range of nonces it stands for. -/
structure ScanData (δ : Type) extends HashlogData δ where
  scannedFrom : Word
  scannedTo : Word

abbrev ScanLog (δ : Type) := Std.TreeMap (BitVec 64) (ScanData δ)

namespace ScanLog

variable {δ : Type} (log : ScanLog δ)

def shares : HashLog δ := log.map fun _ data => data.toHashlogData

def purgeJob (jobid : CString) : ScanLog δ := log.filter fun key _ => !(keypfx jobid &&& key == keypfx jobid)

/-- The least and the greatest nonce so far, where 0 is for none. -/
def scanRangeStep (jobid : CString) (data : Word × Word) (i : BitVec 64 × ScanData δ) : Word × Word :=
  if keymsk &&& i.1 = keypfx jobid ∧ 0 < i.2.scannedTo then
    (if i.2.scannedFrom < data.1 ∨ data.1 = 0 then i.2.scannedFrom else data.1,
      if data.2 < i.2.scannedTo then i.2.scannedTo else data.2)
  else data

def getScanRange (jobid : CString) : BitVec 64 :=
  let data := log.toList.foldl (scanRangeStep jobid) (0, 0)
  data.1.setWidth 64 + mkHi64 data.2

def SentOf (jobid : CString) (key : BitVec 64) (data : ScanData δ) : Prop :=
  log[key]? = some data ∧ OwnKey jobid key ∧ data.tmSent ≠ 0

/-- Of the shares of the job that have been sent the one with the greatest key
has the nonce; if there is none it is 0. -/
def LastSentOf (jobid : CString) (nonce : Word) : Prop :=
  (∃ key data, log.SentOf jobid key data ∧ nonce = loDword key ∧
    ∀ key' data', log.SentOf jobid key' data' → (compare key' key).isLE) ∨
  (∀ key data, ¬ log.SentOf jobid key data) ∧ nonce = 0

/-- The operations on a job are about its own records: the last nonce, what the
purge takes, and what the other queries find of each job after it. -/
structure JobScoped (jobid : CString) : Prop where
  lastSent : log.LastSentOf jobid (log.shares.getLastSent jobid)
  purged : ∀ key, (log.purgeJob jobid)[key]? = if OwnKey jobid key then none else log[key]?
  scanRange : ∀ jobid', (log.purgeJob jobid).getScanRange jobid' =
    if jobNumber jobid' = jobNumber jobid then 0 else log.getScanRange jobid'
  sharediff : ∀ jobid' jobNonceid defvalue,
    (log.purgeJob jobid).shares.getSharediff jobid' jobNonceid defvalue =
      if jobNumber jobid' = jobNumber jobid then defvalue
      else log.shares.getSharediff jobid' jobNonceid defvalue

/-- No other job in the log has a number with all the bits of the job's. -/
def CoversOwn (jobid : CString) : Prop := ∀ key ∈ log, Covers jobid key → OwnKey jobid key

end ScanLog

namespace ScanLog

variable {δ : Type} {log : ScanLog δ} {jobid : CString}

theorem getElem?_purgeJob (log : ScanLog δ) (jobid : CString) (key : BitVec 64) :
    (log.purgeJob jobid)[key]? = if Covers jobid key then none else log[key]? := by
  rw [purgeJob, Std.TreeMap.getElem?_filter', keypfx_and_beq]
  split_ifs with h
  · simp [h]
  · cases log[key]? <;> simp [h]

theorem purgeJob_eq_iff (log : ScanLog δ) (jobid : CString) :
    (∀ key, (log.purgeJob jobid)[key]? = if OwnKey jobid key then none else log[key]?) ↔ log.CoversOwn jobid := by
  simp only [getElem?_purgeJob]
  constructor
  · intro h key hmem hcovers
    by_contra hother
    have hkey := h key
    rw [if_pos hcovers, if_neg hother] at hkey
    rw [Std.TreeMap.mem_iff_isSome_getElem?, ← hkey] at hmem
    cases hmem
  · intro h key
    by_cases hown : OwnKey jobid key
    · rw [if_pos hown, if_pos hown.covers]
    · rw [if_neg hown]
      by_cases hcovers : Covers jobid key
      · have hnot : key ∉ log := fun hmem => hown (h key hmem hcovers)
        rw [if_pos hcovers, Std.TreeMap.getElem?_eq_none hnot]
      · rw [if_neg hcovers]

theorem mem_of_getElem? {key : BitVec 64} {data : ScanData δ} (h : log[key]? = some data) : key ∈ log := by
  rw [Std.TreeMap.mem_iff_isSome_getElem?, h]
  rfl

theorem CoversOwn.covers_iff (h : log.CoversOwn jobid) {key : BitVec 64} (hmem : key ∈ log) :
    Covers jobid key ↔ OwnKey jobid key :=
  ⟨h key hmem, OwnKey.covers⟩

theorem CoversOwn.ownKey_left (h : log.CoversOwn jobid) {key : BitVec 64} (hmem : key ∈ log) (jobid' : CString) :
    ¬ Covers jobid key ∧ OwnKey jobid' key ↔ jobNumber jobid' ≠ jobNumber jobid ∧ OwnKey jobid' key := by
  rw [h.covers_iff hmem, OwnKey, OwnKey]
  grind

theorem CoversOwn.lastSent (h : log.CoversOwn jobid) : log.LastSentOf jobid (log.shares.getLastSent jobid) := by
  have htest {key : BitVec 64} {data : ScanData δ} (hdata : log[key]? = some data) :
      (decide (Covers jobid key) && data.tmSent != 0) = true ↔ log.SentOf jobid key data := by
    rw [Bool.and_eq_true, decide_eq_true_iff, bne_iff_ne, h.covers_iff (mem_of_getElem? hdata), SentOf]
    exact (and_iff_right hdata).symm
  simp only [HashLog.getLastSent, shares, lastEntry_map, keypfx_and_beq]
  cases hlast : lastEntry log fun key data => decide (Covers jobid key) && data.tmSent != 0 with
  | none =>
    refine .inr ⟨fun key data hsent => ?_, rfl⟩
    exact Bool.eq_false_iff.mp (lastEntry_eq_none_iff.mp hlast key data hsent.1) ((htest hsent.1).mpr hsent)
  | some e =>
    obtain ⟨hdata, hp, hgreatest⟩ := lastEntry_eq_some hlast
    refine .inl ⟨e.1, e.2, (htest hdata).mp hp, rfl, fun key' data' hsent => ?_⟩
    exact hgreatest key' data' hsent.1 ((htest hsent.1).mpr hsent)

theorem scanRangeStep_of_other {data : Word × Word} {i : BitVec 64 × ScanData δ} (h : ¬ OwnKey jobid i.1) :
    scanRangeStep jobid data i = data := by
  exact if_neg fun htaken => h ((keymsk_and_eq_iff ..).mp htaken.1)

theorem CoversOwn.scanRange (h : log.CoversOwn jobid) (jobid' : CString) :
    (log.purgeJob jobid).getScanRange jobid' =
      if jobNumber jobid' = jobNumber jobid then 0 else log.getScanRange jobid' := by
  have hstep (data : Word × Word) (i : BitVec 64 × ScanData δ) (hmem : i ∈ log.toList) :
      (if (!decide (Covers jobid i.1)) = true then scanRangeStep jobid' data i else data) =
        if jobNumber jobid' = jobNumber jobid then data else scanRangeStep jobid' data i := by
    have hleft := h.ownKey_left (mem_of_getElem? (Std.TreeMap.mem_toList_iff_getElem?_eq_some.mp hmem)) jobid'
    by_cases hown : OwnKey jobid' i.1
    · grind
    · rw [scanRangeStep_of_other hown, ite_self, ite_self]
  simp only [getScanRange, purgeJob, Std.TreeMap.toList_filter, List.foldl_filter, keypfx_and_beq]
  rw [List.foldl_ext _ _ _ hstep]
  split_ifs with hsame
  · rw [List.foldl_fixed]
    rfl
  · rfl

theorem CoversOwn.sharediff (h : log.CoversOwn jobid) (jobid' : CString) (jobNonceid : Int) (defvalue : δ) :
    (log.purgeJob jobid).shares.getSharediff jobid' jobNonceid defvalue =
      if jobNumber jobid' = jobNumber jobid then defvalue
      else log.shares.getSharediff jobid' jobNonceid defvalue := by
  have htest (key : BitVec 64) (data : ScanData δ) (hdata : log[key]? = some data) (b : Bool) :
      (!decide (Covers jobid key) && (decide (OwnKey jobid' key) && b)) =
        (decide (jobNumber jobid' ≠ jobNumber jobid) && (decide (OwnKey jobid' key) && b)) := by
    have hleft := h.ownKey_left (mem_of_getElem? hdata) jobid'
    grind
  simp only [HashLog.getSharediff, shares, purgeJob, lastEntry_map, lastEntry_filter, keymsk_and_beq,
    keypfx_and_beq, Bool.and_assoc]
  rw [lastEntry_congr fun key data hdata => htest key data hdata _]
  split_ifs with hsame
  · rw [lastEntry_eq_none_iff.mpr fun key data _ => by simp [hsame]]
    rfl
  · simp [hsame]

/-- The operations on a job are about its records exactly if the log has no
record of another job whose number has all the bits of the job's. -/
theorem jobScoped_iff (log : ScanLog δ) (jobid : CString) : log.JobScoped jobid ↔ log.CoversOwn jobid :=
  ⟨fun h => (purgeJob_eq_iff log jobid).mp h.purged,
    fun h => ⟨h.lastSent, (purgeJob_eq_iff log jobid).mpr h, h.scanRange, h.sharediff⟩⟩

def otherLog : ScanLog Nat := Std.TreeMap.insert ∅ (hashlogKey ['3'] 7)
  { jobNonceId := 0, sharediff := 1, tmSent := 1, scannedFrom := 1, scannedTo := 9 }

/-- A purge of the job 1 takes it away. -/
theorem otherLog_purged : ¬ otherLog.JobScoped ['1'] := by
  intro h
  have hkept := h.purged (hashlogKey ['3'] 7)
  rw [getElem?_purgeJob, if_pos (by decide), if_neg (by decide), otherLog, Std.TreeMap.getElem?_insert_self] at hkept
  cases hkept

end ScanLog

end VerusMiner
