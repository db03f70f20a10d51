import VerusMiner.Bytes
import VerusMiner.Lib.RetainedLog

/-! The records of the scans: the speeds averaged over them and the history
shown of them, while old ones are purged. -/

namespace VerusMiner

open Std

/-- What the averages and the history read of a record, with values of any type
in place of `double`. -/
structure StatsData (δ : Type) where
  uid : Word
  tmStat : Word
  hashcount : Word
  height : Word
  difficulty : δ
  hashrate : δ
  thrId : Byte
  hashfound : Byte
  ignored : Bool
  globalhashcount : Word

/-- The number of the next scan is a `uint64_t`, which no run comes to the end of. -/
structure ScanStats (δ : Type) where
  tlastscans : TreeMap Nat (StatsData δ)
  uid : Nat

/-- The globals of the miner that a record is made of. -/
structure StatsGlobals (δ : Type) where
  now : Word
  netDiff : δ
  stratumDiff : δ
  globalHashrate : BitVec 64
  optNThreads : Int

structure ScanReport (δ : Type) where
  thrId : Int
  hashcount : Word
  hashrate : δ
  hashfound : Byte
  height : Word

inductive StatsEvent (δ : Type) where
  | remember (g : StatsGlobals δ) (scan : ScanReport δ)
  | purgeOld (now : Word)
  | purgeAll

def statsPurgeTimeout : Word := 120 * 60

section Records

variable {δ : Type}

def staysAt (now : Word) (data : StatsData δ) : Bool :=
  !(data.ignored || statsPurgeTimeout < now - data.tmStat)

def statsPurgeOld (now : Word) (s : ScanStats δ) : ScanStats δ :=
  { s with tlastscans := s.tlastscans.filter fun _ data => staysAt now data }

def statsPurgeAll (s : ScanStats δ) : ScanStats δ := { s with tlastscans := ∅ }

def ofThread (thrId : Int) (data : StatsData δ) : Bool :=
  !data.ignored && (thrId == -1 || (data.thrId.toNat : Int) == thrId)

/-- From the newest record on. -/
def ScanStats.rbegin (s : ScanStats δ) : List (StatsData δ) := (s.tlastscans.toList.map Prod.snd).reverse

def historyLoop (maxRecords thrId : Int) : List (StatsData δ) → Nat → List (StatsData δ)
  | [], _ => []
  | data :: i, records =>
    if (records : Int) < maxRecords then
      if ofThread thrId data then data :: historyLoop maxRecords thrId i (records + 1)
      else historyLoop maxRecords thrId i records
    else []

def statsGetHistory (thrId maxRecords : Int) (s : ScanStats δ) : List (StatsData δ) :=
  historyLoop maxRecords thrId s.rbegin 0

/-- The records that are added up. -/
def averaged (thrId : Int) (data : StatsData δ) : Bool := ofThread thrId data && 1000 < data.hashcount

def speedLoop [Add δ] (optStatsavg thrId : Int) : List (StatsData δ) → δ → Nat → δ × Nat
  | [], speed, records => (speed, records)
  | data :: i, speed, records =>
    if (records : Int) < optStatsavg then
      if averaged thrId data then
        speedLoop optStatsavg thrId i (speed + data.hashrate) (records + 1)
      else speedLoop optStatsavg thrId i speed records
    else (speed, records)

end Records

section Speeds

variable {δ : Type} [Zero δ] [Mul δ] [Div δ] [NatCast δ] [OfScientific δ] [LT δ] [DecidableLT δ] [BEq δ]

/-- Too few hashes to give a speed. -/
def tooShort (scan : ScanReport δ) : Bool := scan.hashcount < 1000 || scan.hashrate < 0.01

def rateIgnored (g : StatsGlobals δ) (hashrate : δ) (uid : Nat) : Bool :=
  if g.optNThreads = 1 ∧ g.globalHashrate ≠ 0 ∧ 10 < uid then
    let ratio := hashrate / (1.0 * (g.globalHashrate.toNat : δ))
    ratio < 0.4 || 1.6 < ratio
  else false

def statsRecord (g : StatsGlobals δ) (scan : ScanReport δ) (uid : Nat) : StatsData δ where
  uid := BitVec.ofNat 32 uid
  tmStat := g.now
  hashcount := scan.hashcount
  height := scan.height
  difficulty := if g.netDiff != 0 then g.netDiff else g.stratumDiff
  hashrate := scan.hashrate
  thrId := BitVec.ofInt 8 scan.thrId
  hashfound := scan.hashfound
  ignored := rateIgnored g scan.hashrate uid
  globalhashcount := g.globalHashrate.setWidth 32

def statsRememberSpeed (g : StatsGlobals δ) (scan : ScanReport δ) (s : ScanStats δ) : ScanStats δ :=
  let key := s.uid
  let s := { s with uid := s.uid + 1 }
  if tooShort scan then s else { s with tlastscans := s.tlastscans.insert key (statsRecord g scan s.uid) }

def statsStep (s : ScanStats δ) : StatsEvent δ → ScanStats δ
  | .remember g scan => statsRememberSpeed g scan s
  | .purgeOld now => statsPurgeOld now s
  | .purgeAll => statsPurgeAll s

/-- What the events do to the records, the newest last. -/
def statsOps : Nat → List (StatsEvent δ) → List (LogOp (StatsData δ))
  | _, [] => []
  | uid, .remember g scan :: es =>
    if tooShort scan then statsOps (uid + 1) es
    else .append (statsRecord g scan (uid + 1)) :: statsOps (uid + 1) es
  | uid, .purgeOld now :: es => .prune (staysAt now) :: statsOps uid es
  | uid, .purgeAll :: es => .prune (fun _ => false) :: statsOps uid es

end Speeds

section Mean

variable {δ : Type} [Zero δ] [Add δ] [Mul δ] [Div δ] [NatCast δ] [IntCast δ]

def statsGetSpeed (optStatsavg optNThreads thrId : Int) (defSpeed : δ) (s : ScanStats δ) : δ :=
  let (speed, records) := speedLoop optStatsavg thrId s.rbegin 0 0
  let speed := if records ≠ 0 then speed / (records : δ) else defSpeed
  if thrId = -1 then speed * (optNThreads : δ) else speed

/-- The mean of the rates, added up in this order, or a default. -/
def meanRate (rates : List δ) (default : δ) : δ :=
  if rates = [] then default else rates.foldl (· + ·) 0 / (rates.length : δ)

end Mean

section Loops

variable {δ : Type}

theorem historyLoop_eq (maxRecords thrId : Int) (i : List (StatsData δ)) (records : Nat) :
    historyLoop maxRecords thrId i records = (i.filter (ofThread thrId)).take (maxRecords - records).toNat := by
  induction i generalizing records with
  | nil => rw [historyLoop, List.filter_nil, List.take_nil]
  | cons data i ih =>
    rw [historyLoop, List.filter_cons]
    by_cases hroom : (records : Int) < maxRecords
    · rw [if_pos hroom]
      by_cases hdata : ofThread thrId data = true
      · have hsucc : (maxRecords - records).toNat = (maxRecords - (records + 1 : Nat)).toNat + 1 := by omega
        rw [if_pos hdata, if_pos hdata, ih, hsucc, List.take_succ_cons]
      · rw [if_neg hdata, if_neg hdata, ih]
    · have hfull : (maxRecords - records).toNat = 0 := by omega
      rw [if_neg hroom, hfull, List.take_zero]

theorem speedLoop_eq [Add δ] (optStatsavg thrId : Int) (i : List (StatsData δ)) (speed : δ) (records : Nat) :
    speedLoop optStatsavg thrId i speed records =
      let rates := ((i.filter (averaged thrId)).take (optStatsavg - records).toNat).map StatsData.hashrate
      (rates.foldl (· + ·) speed, records + rates.length) := by
  induction i generalizing speed records with
  | nil => simp only [speedLoop, List.filter_nil, List.take_nil, List.map_nil, List.foldl_nil, List.length_nil,
      Nat.add_zero]
  | cons data i ih =>
    rw [speedLoop, List.filter_cons]
    by_cases hroom : (records : Int) < optStatsavg
    · rw [if_pos hroom]
      by_cases hdata : averaged thrId data = true
      · have hsucc : (optStatsavg - records).toNat = (optStatsavg - (records + 1 : Nat)).toNat + 1 := by omega
        rw [if_pos hdata, ih, if_pos hdata, hsucc, List.take_succ_cons]
        simp only [List.map_cons, List.foldl_cons, List.length_cons, Prod.mk.injEq, true_and]
        omega
      · rw [if_neg hdata, ih, if_neg hdata]
    · have hfull : (optStatsavg - records).toNat = 0 := by omega
      simp only [if_neg hroom, hfull, List.take_zero, List.map_nil, List.foldl_nil, List.length_nil, Nat.add_zero]

end Loops

def scanStatsStart {δ : Type} : ScanStats δ where
  tlastscans := ∅
  uid := 0

/-- The records as a log: each key is below the next one. -/
structure ScanStats.Logs {δ : Type} (s : ScanStats δ) (log : List (StatsData δ)) : Prop where
  values : s.tlastscans.toList.map Prod.snd = log
  below : ∀ e ∈ s.tlastscans.toList, e.1 < s.uid

theorem purgeOld_logs {δ : Type} {s : ScanStats δ} {log : List (StatsData δ)} (h : s.Logs log) (now : Word) :
    (statsPurgeOld now s).Logs (log.filter (staysAt now)) := by
  have hlist : (statsPurgeOld now s).tlastscans.toList =
      s.tlastscans.toList.filter fun e => staysAt now e.2 := TreeMap.toList_filter
  refine ⟨?_, fun e he => ?_⟩
  · rw [hlist, ← h.values, List.filter_map]
    rfl
  · rw [hlist] at he
    exact h.below e (List.mem_of_mem_filter he)

theorem purgeAll_logs {δ : Type} (s : ScanStats δ) : (statsPurgeAll s).Logs [] :=
  ⟨rfl, fun _ he => absurd he List.not_mem_nil⟩

section Run

variable {δ : Type} [Zero δ] [Mul δ] [Div δ] [NatCast δ] [OfScientific δ] [LT δ] [DecidableLT δ] [BEq δ]

theorem rememberSpeed_logs {s : ScanStats δ} {log : List (StatsData δ)} (h : s.Logs log) (g : StatsGlobals δ)
    (scan : ScanReport δ) :
    (statsRememberSpeed g scan s).Logs (if tooShort scan then log else log ++ [statsRecord g scan (s.uid + 1)]) := by
  rw [statsRememberSpeed]
  split_ifs with hshort
  · exact ⟨h.values, fun e he => Nat.lt_succ_of_lt (h.below e he)⟩
  · have hlist := toList_insert_above (t := s.tlastscans) (k := s.uid) (statsRecord g scan (s.uid + 1))
      fun e he => Nat.compare_eq_lt.mpr (h.below e he)
    refine ⟨?_, fun e he => ?_⟩
    · dsimp only
      rw [hlist, List.map_append, h.values]
      rfl
    · dsimp only at he ⊢
      rw [hlist] at he
      rcases List.mem_append.mp he with hold | hnew
      · exact Nat.lt_succ_of_lt (h.below e hold)
      · rw [List.mem_singleton.mp hnew]
        exact Nat.lt_succ_self _

/-- The run on the map is the run on the log. -/
theorem run_logs {s : ScanStats δ} {log : List (StatsData δ)} (h : s.Logs log) (es : List (StatsEvent δ)) :
    (es.foldl statsStep s).Logs ((statsOps s.uid es).foldl LogOp.apply log) := by
  induction es generalizing s log with
  | nil => exact h
  | cons e es ih =>
    rw [List.foldl_cons]
    cases e with
    | remember g scan =>
      have hnext := ih (rememberSpeed_logs h g scan)
      have huid : (statsRememberSpeed g scan s).uid = s.uid + 1 := by
        rw [statsRememberSpeed]
        split_ifs <;> rfl
      rw [huid] at hnext
      rw [statsOps, statsStep]
      split_ifs at hnext ⊢ <;> exact hnext
    | purgeOld now => exact ih (purgeOld_logs h now)
    | purgeAll =>
      have hnext := ih (purgeAll_logs s)
      have hnone : LogOp.apply log (.prune fun _ => false) = [] := List.filter_false log
      rw [statsOps, List.foldl_cons, hnone]
      exact hnext

/-- The records in use after the events, the newest first. -/
def recentRecords (es : List (StatsEvent δ)) : List (StatsData δ) := (retained (statsOps 0 es)).reverse

theorem run_rbegin (es : List (StatsEvent δ)) : (es.foldl statsStep scanStatsStart).rbegin = recentRecords es := by
  have hlogs := run_logs (s := scanStatsStart (δ := δ)) ⟨rfl, fun _ he => absurd he List.not_mem_nil⟩ es
  rw [ScanStats.rbegin, hlogs.values, recentRecords]
  exact congrArg List.reverse (foldl_apply_nil _)

/-- After every run the speed shown is the mean over the newest records that
were asked for and not purged, and the history is the newest of them. -/
theorem run_statsGetSpeed [Add δ] [IntCast δ] (es : List (StatsEvent δ)) (optStatsavg optNThreads maxRecords thrId : Int) (defSpeed : δ) :
    let s := es.foldl statsStep scanStatsStart
    let speed := meanRate ((((recentRecords es).filter (averaged thrId)).take optStatsavg.toNat).map
      StatsData.hashrate) defSpeed
    statsGetSpeed optStatsavg optNThreads thrId defSpeed s =
        (if thrId = -1 then speed * (optNThreads : δ) else speed) ∧
      statsGetHistory thrId maxRecords s = ((recentRecords es).filter (ofThread thrId)).take maxRecords.toNat := by
  intro s speed
  have hrecords : s.rbegin = recentRecords es := run_rbegin es
  refine ⟨?_, ?_⟩
  · have hmean (rates : List δ) : (if 0 + rates.length ≠ 0 then
        rates.foldl (· + ·) 0 / ((0 + rates.length : Nat) : δ) else defSpeed) = meanRate rates defSpeed := by
      rw [Nat.zero_add, meanRate]
      cases rates with
      | nil => rfl
      | cons rate rates => rfl
    rw [statsGetSpeed, hrecords, speedLoop_eq]
    dsimp only
    rw [hmean, Nat.cast_zero, Int.sub_zero]
  · rw [statsGetHistory, hrecords, historyLoop_eq, Nat.cast_zero, Int.sub_zero]

end Run

end VerusMiner
