import VerusMiner.Notify
import VerusMiner.PoolSettings

/-! A switch of the pool with everything it moves, and what a switch that is
refused has moved by then. -/

namespace VerusMiner

/-- The part of a job that no work is made of. -/
structure JobRest where
  coinbaseSize : Nat
  merkle : List Mem
  nreward : Mem
  sharesCount : Word

def zeroJobRest : JobRest := ⟨0, [], fun _ => 0, 0⟩

/-- The context of the stratum protocol; `connection` is what a switch copies
and does not look at, the url, the socket and its buffer among it. -/
structure PoolStratum (κ : Type) extends StratumCtx where
  jobRest : JobRest
  rpc2 : Bool
  connection : κ

structure WorkFlags where
  allowMininginfo : Bool
  allowGbt : Bool
  checkDups : Bool

structure ConnectOptions where
  retries : Int
  failPause : Int
  timeout : Int

/-- The first six fields are the pools table with the parts of an entry that
`Pools` leaves out, and the copies of them in force; of the records of the
scans and shares there are the keys. -/
structure SwitchState (κ : Type) where
  pools : Pools
  longpoll : Int → Bool
  poolFlags : Int → WorkFlags
  poolStratum : Int → PoolStratum κ
  flags : WorkFlags
  stratum : PoolStratum κ
  connect : ConnectOptions
  wantStratum : Bool
  haveStratum : Bool
  wantLongpoll : Bool
  haveLongpoll : Bool
  optStratumStats : Bool
  thrHashrates : Nat → Float
  tlastscans : List (BitVec 64)
  tlastshares : List (BitVec 64)
  poolSwitchCount : Nat
  netDiff : Float
  gWorkTime : Int
  gWork : Work
  poolIsSwitching : Bool
  stratumNeedReset : Bool
  firstworkTime : Int
  workRestart : Nat → Bool
  conditionalState : Nat → Bool
  stratumQueue : List CString

/-- The time, the number of threads, and what the pool answers to `get_work`. -/
structure SwitchEnv where
  now : Int
  optNThreads : Nat
  getWork : Work → Work

def usesRpc2 (algo : Option ShaAlgos) : Bool :=
  algo == some .wildkeccak || algo == some .cryptonight || algo == some .cryptolight

namespace SwitchState

variable {κ : Type} (env : SwitchEnv) (s : SwitchState κ)

/-- `stratum_free_job` on the context, whose job is zero then. -/
def stratumFreeJob (sctx : PoolStratum κ) : PoolStratum κ := { sctx with job := zeroJob, jobRest := zeroJobRest }

/-- The start of `pool_switch`, before the number is looked at. -/
def saveStratum : SwitchState κ :=
  if (s.pools.pools s.pools.curPooln).type = .stratum then
    { s with
      stratum := stratumFreeJob s.stratum
      poolStratum := Function.update s.poolStratum s.pools.curPooln (stratumFreeJob s.stratum) }
  else s

def forThreads {α : Type} (f : Nat → α) (v : α) : Nat → α := fun n => if n < env.optNThreads then v else f n

def purgeAll : SwitchState κ :=
  { s with
    thrHashrates := forThreads env s.thrHashrates 0.0
    tlastscans := []
    tlastshares := if s.flags.checkDups then [] else s.tlastshares }

def leavePool (pooln : Int) : SwitchState κ :=
  let p := s.pools.pools pooln
  let s := { s with
    poolSwitchCount := s.poolSwitchCount + 1
    netDiff := 0.0
    gWorkTime := 0
    gWork := { s.gWork with data := fun i => if i < 4 then 0 else s.gWork.data i }
    poolIsSwitching := true
    stratumNeedReset := true
    firstworkTime := env.now
    workRestart := forThreads env s.workRestart true
    conditionalState := forThreads env s.conditionalState false
    flags := s.poolFlags pooln }
  let s :=
    if s.wantStratum then
      { s with
        stratum := { s.poolStratum pooln with pooln := BitVec.ofInt 32 pooln, rpc2 := usesRpc2 p.options.algo }
        stratumQueue := s.stratumQueue ++ [p.url] }
    else s
  let wantLongpoll := s.longpoll pooln || p.type != .stratum
  if wantLongpoll then
    { s with wantLongpoll := true, haveLongpoll := false, gWork := env.getWork s.gWork }
  else { s with wantLongpoll := false }

def poolSwitch (pooln : Int) : Bool × SwitchState κ :=
  let prevn := s.pools.curPooln
  let s := s.saveStratum
  if pooln < s.pools.numPools then
    let p := s.pools.pools pooln
    let optAlgo := s.pools.options.algo
    let isStratum := p.type == .stratum
    let s := { s with
      poolFlags := Function.update s.poolFlags prevn s.flags
      pools := s.pools.poolSwitch pooln
      wantStratum := isStratum
      haveStratum := isStratum
      optStratumStats := (strstr p.pass "stats".toList).isSome || p.user == "benchmark".toList }
    let s := if p.options.algo ≠ optAlgo ∧ optAlgo ≠ some .auto then s.purgeAll env else s
    let s := if prevn ≠ pooln then s.leavePool env pooln else s
    (true, { s with stratum := { s.stratum with rpc2 := usesRpc2 p.options.algo } })
  else (false, s)

/-- The option `-o` with what it does beside the credentials. -/
def parseUrl (arg : CString) : Option (SwitchState κ) :=
  let c := s.connect
  (s.pools.parseUrl arg).map fun pools => { s with
    pools := pools
    haveStratum := !pools.benchmark && credType pools.creds.url == .stratum
    poolFlags :=
      if (s.pools.pools pools.curPooln).defined then s.poolFlags
      else Function.update s.poolFlags pools.curPooln s.flags
    connect :=
      if (s.pools.pools s.pools.curPooln).type = .unused then c
      else
        { retries := if c.retries = -1 then 1 else c.retries
          failPause := if c.failPause = 30 then 5 else c.failPause
          timeout := if c.timeout = 300 then 60 else c.timeout } }

def poolSwitchUrl (params : CString) : Option (Bool × SwitchState κ) :=
  let prevn := s.pools.curPooln
  (s.parseUrl params).map fun s =>
    let nextn := s.pools.curPooln
    let s := { s with pools := { s.pools with curPooln := prevn } }
    if nextn = prevn then (false, s) else s.poolSwitch env nextn

end SwitchState

inductive SwitchRequest where
  | pool (pooln : Int)
  | url (params : CString)

section Requests

variable {κ : Type} (env : SwitchEnv) (s : SwitchState κ)

/-- `none` is for a program that shows its usage and leaves. -/
def SwitchState.request : SwitchRequest → Option (Bool × SwitchState κ)
  | .pool pooln => some (s.poolSwitch env pooln)
  | .url params => s.poolSwitchUrl env params

/-- There is no such pool, or the url goes to the place of the current pool. -/
def Refused : SwitchRequest → Prop
  | .pool pooln => s.pools.numPools ≤ pooln
  | .url params => (s.pools.pools s.pools.curPooln).type = .unused ∧ urlAccepted params = true

/-- There is nothing to lose: the current pool is none of stratum, or there is
no job and the context has been saved. -/
def NothingToLose : SwitchRequest → Prop
  | .pool _ => (s.pools.pools s.pools.curPooln).type = .stratum →
    (s.stratum.job = zeroJob ∧ s.stratum.jobRest = zeroJobRest) ∧
      s.poolStratum s.pools.curPooln = s.stratum
  | .url _ => False

end Requests

section Refusals

open SwitchState

variable {κ : Type} {env : SwitchEnv} {s : SwitchState κ}

theorem stratumFreeJob_eq_self_iff (sctx : PoolStratum κ) :
    stratumFreeJob sctx = sctx ↔ sctx.job = zeroJob ∧ sctx.jobRest = zeroJobRest := by
  constructor
  · intro h
    exact ⟨(congrArg (fun c => c.job) h).symm, (congrArg (fun c => c.jobRest) h).symm⟩
  · rintro ⟨hjob, hrest⟩
    rw [stratumFreeJob, ← hjob, ← hrest]

theorem saveStratum_eq_self_iff (pooln : Int) : s.saveStratum = s ↔ NothingToLose s (.pool pooln) := by
  unfold saveStratum NothingToLose
  split_ifs with htype
  · rw [← stratumFreeJob_eq_self_iff]
    constructor
    · intro h _
      have hfree : stratumFreeJob s.stratum = s.stratum := congrArg (fun s => s.stratum) h
      have hsaved := congrFun (congrArg (fun s => s.poolStratum) h) s.pools.curPooln
      exact ⟨hfree, by simpa [hfree] using hsaved.symm⟩
    · intro h
      obtain ⟨hfree, hsaved⟩ := h htype
      rw [hfree, ← hsaved, Function.update_eq_self, hsaved]
  · exact iff_of_true rfl fun h => absurd h htype

theorem poolSwitch_refused {pooln : Int} (h : s.pools.numPools ≤ pooln) :
    s.poolSwitch env pooln = (false, s.saveStratum) := by
  have hnum : ¬ pooln < s.saveStratum.pools.numPools := by
    unfold saveStratum
    split_ifs
    all_goals exact not_lt.mpr h
  simp only [SwitchState.poolSwitch, if_neg hnum]

theorem poolSwitch_accepted {pooln : Int} (h : pooln < s.pools.numPools) :
    (s.poolSwitch env pooln).1 = true := by
  have hnum : pooln < s.saveStratum.pools.numPools := by
    unfold saveStratum
    split_ifs
    all_goals exact h
  simp only [SwitchState.poolSwitch, if_pos hnum]

theorem urlPlace_eq_curPooln_iff (s : Pools) :
    s.urlPlace = s.curPooln ↔ (s.pools s.curPooln).type = .unused := by
  unfold Pools.urlPlace
  split_ifs with htype
  · exact iff_of_true rfl htype
  · refine iff_of_false ?_ htype
    simp only [maxPools, Int.tmod_eq_emod]
    split_ifs <;> omega

theorem curPooln_lt_of_parseUrl {params : CString} {s s' : Pools} (h : s.parseUrl params = some s')
    (htype : (s.pools s.curPooln).type ≠ .unused) : s'.curPooln < s'.numPools := by
  obtain ⟨_, rfl⟩ := parseUrl_cases h
  simp only [if_neg htype]
  exact lt_of_lt_of_le (lt_add_one _) (le_max_left _ _)

theorem parseUrl_isSome {s : Pools} {params : CString} (h : urlAccepted params = true) :
    ∃ s', s.parseUrl params = some s' := by
  simp only [Pools.parseUrl, if_pos h]
  exact ⟨_, rfl⟩

theorem parseUrl_pools {params : CString} {t : SwitchState κ} (h : s.parseUrl params = some t) :
    s.pools.parseUrl params = some t.pools := by
  obtain ⟨pools, hpools, rfl⟩ := Option.map_eq_some_iff.mp h
  exact hpools

/-- A switch to a url fails by staying at its place, which has it by then. -/
theorem poolSwitchUrl_cases {params : CString} {rc : Bool} {s' : SwitchState κ}
    (h : s.poolSwitchUrl env params = some (rc, s')) :
    urlAccepted params = true ∧
      (rc = false ↔ (s.pools.pools s.pools.curPooln).type = .unused) ∧
      (rc = false → (s'.pools.pools s.pools.curPooln).type ≠ .unused) := by
  obtain ⟨t, ht, hcase⟩ := Option.map_eq_some_iff.mp h
  obtain ⟨haccepted, hset⟩ := parseUrl_cases (parseUrl_pools ht)
  have hcur : t.pools.curPooln = s.pools.urlPlace := congrArg (fun p => p.curPooln) hset
  refine ⟨haccepted, ?_⟩
  dsimp only at hcase
  split at hcase
  · rename_i hstays
    obtain ⟨rfl, rfl⟩ := Prod.mk.inj hcase
    have hplace : s.pools.urlPlace = s.pools.curPooln := hcur.symm.trans hstays
    refine ⟨iff_of_true rfl ((urlPlace_eq_curPooln_iff _).mp hplace), fun _ => ?_⟩
    rw [hset, hplace]
    simp only [Function.update_self]
    rw [setCreds_type (setUrl_url_ne_nil haccepted _)]
    exact credType_ne_unused _
  · rename_i hmoves
    have htype : (s.pools.pools s.pools.curPooln).type ≠ .unused := by
      rw [ne_eq, ← urlPlace_eq_curPooln_iff, ← hcur]
      exact hmoves
    have hlt := curPooln_lt_of_parseUrl (parseUrl_pools ht) htype
    obtain rfl : rc = true := (congrArg Prod.fst hcase).symm.trans (poolSwitch_accepted hlt)
    exact ⟨iff_of_false nofun htype, nofun⟩

theorem request_fails_iff (r : SwitchRequest) : (∃ s', s.request env r = some (false, s')) ↔ Refused s r := by
  cases r with
  | pool pooln =>
    constructor
    · rintro ⟨s', h⟩
      have hfst := congrArg Prod.fst (Option.some.inj h)
      by_contra hlt
      rw [poolSwitch_accepted (not_le.mp hlt)] at hfst
      cases hfst
    · intro h
      exact ⟨_, congrArg some (poolSwitch_refused h)⟩
  | url params =>
    constructor
    · rintro ⟨s', h⟩
      obtain ⟨haccepted, hfails, _⟩ := poolSwitchUrl_cases h
      exact ⟨hfails.mp rfl, haccepted⟩
    · rintro ⟨htype, haccepted⟩
      obtain ⟨pools, hpools⟩ := parseUrl_isSome (s := s.pools) haccepted
      obtain ⟨⟨rc, s'⟩, h⟩ : ∃ r, s.poolSwitchUrl env params = some r := by
        simp only [SwitchState.poolSwitchUrl, SwitchState.parseUrl, hpools, Option.map_some]
        exact ⟨_, rfl⟩
      obtain rfl := (poolSwitchUrl_cases h).2.1.mpr htype
      exact ⟨s', h⟩

theorem poolSwitchUrl_ne_self {params : CString} (h : Refused s (.url params)) :
    s.poolSwitchUrl env params ≠ some (false, s) :=
  fun hself => (poolSwitchUrl_cases hself).2.2 rfl h.1

/-- Of the refused requests exactly those that find nothing to lose leave
everything as it was. -/
theorem refused_keeps_iff (env : SwitchEnv) (s : SwitchState κ) (r : SwitchRequest) :
    ((∃ s', s.request env r = some (false, s')) ↔ Refused s r) ∧
    (Refused s r → (s.request env r = some (false, s) ↔ NothingToLose s r)) := by
  refine ⟨request_fails_iff r, fun h => ?_⟩
  cases r with
  | pool pooln =>
    rw [← saveStratum_eq_self_iff pooln, SwitchState.request, poolSwitch_refused h, Option.some.injEq,
      Prod.mk.injEq]
    exact and_iff_right rfl
  | url params => exact iff_of_false (poolSwitchUrl_ne_self h) id

end Refusals

section Examples

def idleStratum : PoolStratum Unit := { zeroCtx with jobRest := zeroJobRest, rpc2 := false, connection := () }

def benchmarkState : SwitchState Unit where
  pools := { initialPools (fun _ => .zero) with benchmark := true }
  longpoll := fun _ => false
  poolFlags := fun _ => ⟨false, false, false⟩
  poolStratum := fun _ => idleStratum
  flags := ⟨true, true, true⟩
  stratum := idleStratum
  connect := ⟨-1, 30, 300⟩
  wantStratum := false
  haveStratum := false
  wantLongpoll := false
  haveLongpoll := false
  optStratumStats := false
  thrHashrates := fun _ => 0.0
  tlastscans := []
  tlastshares := []
  poolSwitchCount := 0
  netDiff := 0.0
  gWorkTime := 0
  gWork := zeroWork
  poolIsSwitching := false
  stratumNeedReset := false
  firstworkTime := 0
  workRestart := fun _ => false
  conditionalState := fun _ => false
  stratumQueue := []

def jobState : SwitchState Unit :=
  { benchmarkState with
    pools := { benchmarkState.pools with pools := fun _ => { PoolEntry.zero with type := .stratum, valid := true } }
    stratum := { idleStratum with job := { zeroJob with jobId := some ['1'] } } }

def demoEnv : SwitchEnv := ⟨0, 1, id⟩

/-- The number of a pool there is not loses the job, and a url that is refused is stored. -/
theorem refused_changes :
    (Refused jobState (.pool 5) ∧ jobState.request demoEnv (.pool 5) ≠ some (false, jobState)) ∧
    Refused benchmarkState (.url "a:1".toList) ∧
      benchmarkState.request demoEnv (.url "a:1".toList) ≠ some (false, benchmarkState) := by
  have hnumber : Refused jobState (.pool 5) := (by decide : (1 : Int) ≤ 5)
  have hurl : Refused benchmarkState (.url "a:1".toList) := ⟨rfl, by decide⟩
  refine ⟨⟨hnumber, fun h => ?_⟩, hurl, poolSwitchUrl_ne_self hurl⟩
  rw [SwitchState.request, poolSwitch_refused hnumber, Option.some.injEq, Prod.mk.injEq] at h
  obtain ⟨⟨hjob, _⟩, _⟩ := (saveStratum_eq_self_iff 5).mp h.2 rfl
  exact absurd (congrArg (fun j => j.jobId) hjob) (by decide)

end Examples

end VerusMiner
