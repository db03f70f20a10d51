import VerusMiner.Job
import VerusMiner.PoolSettings

/-! Whether the thread that speaks to the pool goes where the pool asked it to
reconnect, over its retries, failovers and switches. -/

namespace VerusMiner

/-- `curl` is for a connection that is there. -/
structure Conn where
  url : Option CString
  curl : Bool

inductive ConnectResult where
  | noCurl
  | failed
  | up
  deriving DecidableEq

/-- The url given is always that of a pool, never the one kept already. -/
def stratumConnect (sctx : Conn) (url : CString) : ConnectResult → Conn
  | .noCurl => { sctx with curl := false }
  | .failed => { url := some url, curl := false }
  | .up => { url := some url, curl := true }

def curlUrl (url : CString) : CString :=
  "http".toList ++ match strstr url urlMark with
    | some p => url.drop p
    | none => "(null)".toList

def stratumDisconnect (sctx : Conn) : Conn := { sctx with curl := false }

def stratumReconnect (params : Json) : Option CString :=
  let port := match jsonArrayGet params 1 with
    | some (.string s) => atoi s
    | port => (BitVec.ofInt 32 (jsonIntegerValue port)).toInt
  (jsonStringValue (jsonArrayGet params 0)).bind fun host =>
    if port = 0 then none
    else some ("stratum+tcp://".toList ++ host ++ ':' :: (toString port).toList)

/-- Where the thread is: waiting for a url, at the head of its loop, between
two attempts to connect, waiting for an answer to its subscription, or reading
lines. -/
inductive StratumPhase where
  | waitUrl
  | top
  | connecting (failures : Int)
  | handshake (failures : Int)
  | session
  | out

structure RetryConfig where
  optRetries : Int
  optPoolFailover : Bool

/-- The thread with its pool `pooln` and the number of switches it has seen;
`requested` is the url of a request that no connection and no switch followed
yet, `connects` are the connections made, each with the request it follows. -/
structure StratumThread where
  pools : Pools
  conns : Int → Conn
  stratum : Conn
  switchCount : Nat
  needReset : Bool
  queue : List CString
  pooln : Int
  switchn : Nat
  phase : StratumPhase
  requested : Option CString
  connects : List (Option CString × CString)

namespace StratumThread

def poolUrl (s : StratumThread) : CString := (s.pools.pools s.pooln).url

/-- A switch to another pool keeps the connection of the one before, and the
thread is told the url where the new one has a stratum. -/
def switched (s : StratumThread) (pools : Pools) : StratumThread :=
  if pools.curPooln = s.pools.curPooln then { s with pools := pools }
  else
    let prev := s.pools.pools s.pools.curPooln
    let p := pools.pools pools.curPooln
    let conns := if prev.type = .stratum then Function.update s.conns s.pools.curPooln s.stratum else s.conns
    let s := { s with
      pools := pools
      conns := conns
      switchCount := s.switchCount + 1
      needReset := true
      requested := none }
    if p.type = .stratum then { s with stratum := conns pools.curPooln, queue := s.queue ++ [p.url] } else s

def poolSwitched (s : StratumThread) : StratumThread :=
  { s with
    conns := Function.update s.conns s.pooln (stratumDisconnect (s.conns s.pooln))
    stratum := { s.stratum with url := none }
    phase := .waitUrl }

def checkSwitch (s next : StratumThread) : StratumThread :=
  if s.switchn ≠ s.switchCount then s.poolSwitched else next

def failed (cfg : RetryConfig) (s : StratumThread) (failures : Int) : StratumThread :=
  let s := { s with stratum := stratumDisconnect s.stratum }
  let failures := if 0 ≤ cfg.optRetries then failures + 1 else failures
  if 0 ≤ cfg.optRetries ∧ cfg.optRetries < failures then
    if 1 < s.pools.numPools ∧ cfg.optPoolFailover = true then
      let s := s.switched s.pools.poolSwitchNext
      s.checkSwitch { s with phase := .connecting failures }
    else { s with phase := .out }
  else s.checkSwitch { s with phase := .connecting failures }

def reconnect (s : StratumThread) (params : Json) : StratumThread :=
  match stratumReconnect params with
  | some url => { s with stratum := stratumDisconnect { s.stratum with url := some url }, requested := some url }
  | none => s

def reset (s : StratumThread) : StratumThread :=
  if s.needReset then
    { s with
      needReset := false
      stratum := if s.stratum.url.isSome then stratumDisconnect s.stratum
        else { s.stratum with url := some s.poolUrl } }
  else s

end StratumThread

inductive StratumEvent where
  | pools (e : PoolEvent)
  | pop
  | top
  | connect (r : ConnectResult)
  | handshake (ok : Bool)
  | enter
  | reconnect (params : Json)
  | line
  | lost

/-- A request can come while the answers to the subscription are awaited too. -/
def stratumStep (cfg : RetryConfig) (s : StratumThread) : StratumEvent → Option StratumThread
  | .pools e => (poolsStep s.pools e).map s.switched
  | .pop =>
    match s.phase, s.queue with
    | .waitUrl, url :: queue => some { s with
        queue := queue
        stratum := { s.stratum with url := some url }
        pooln := s.pools.curPooln
        switchn := s.switchCount
        needReset := false
        phase := .top }
    | _, _ => none
  | .top =>
    match s.phase with
    | .top => some { s.reset with phase := .connecting 0 }
    | _ => none
  | .connect r =>
    match s.phase with
    | .connecting failures =>
      if s.stratum.curl then none
      else
        let s := { s with
          connects := s.connects ++ [(s.requested, s.poolUrl)]
          requested := none
          stratum := stratumConnect s.stratum s.poolUrl r }
        some (if r = .up then { s with phase := .handshake failures } else s.failed cfg failures)
    | _ => none
  | .handshake ok =>
    match s.phase with
    | .handshake failures => some (if ok then { s with phase := .connecting failures } else s.failed cfg failures)
    | _ => none
  | .enter =>
    match s.phase with
    | .connecting _ => if s.stratum.curl then some (s.checkSwitch { s with phase := .session }) else none
    | _ => none
  | .reconnect params =>
    match s.phase with
    | .handshake _ => some (s.reconnect params)
    | .session => some (s.checkSwitch { s.reconnect params with phase := .top })
    | _ => none
  | .line =>
    match s.phase with
    | .session => some (s.checkSwitch { s with phase := .top })
    | _ => none
  | .lost =>
    match s.phase with
    | .session => some (s.checkSwitch { s with stratum := stratumDisconnect s.stratum, phase := .top })
    | _ => none

def stratumStart (pools : Pools) : StratumThread where
  pools := pools
  conns := fun _ => ⟨none, false⟩
  stratum := ⟨none, false⟩
  switchCount := 0
  needReset := false
  queue := [pools.creds.url]
  pooln := 0
  switchn := 0
  phase := .waitUrl
  requested := none
  connects := []

section Target

variable {τ : Type} (target : CString → τ)

/-- Both urls make libcurl connect to the same host and port. -/
def SameTarget (url url' : CString) : Prop := target (curlUrl url) = target (curlUrl url')

/-- Every connection that follows a request goes where it asked for. -/
def RequestsHonoured (s : StratumThread) : Prop :=
  ∀ c ∈ s.connects, ∀ url, c.1 = some url → SameTarget target c.2 url

/-- A request that is still open when the thread connects names the host and
port of the url its pool is configured with. -/
def AsksForPool (s : StratumThread) : StratumEvent → Prop
  | .connect _ => ∀ url, s.requested = some url → SameTarget target (s.pools.pools s.pooln).url url
  | _ => True

end Target

section Steps

variable {cfg : RetryConfig} {s s' : StratumThread} {e : StratumEvent}

@[simp] theorem connects_switched (s : StratumThread) (pools : Pools) : (s.switched pools).connects = s.connects := by
  simp only [StratumThread.switched]
  split_ifs <;> rfl

theorem connects_checkSwitch {next : StratumThread} (h : next.connects = s.connects) :
    (s.checkSwitch next).connects = s.connects := by
  rw [StratumThread.checkSwitch]
  split_ifs
  · rfl
  · exact h

theorem connects_checkPhase (s : StratumThread) (phase : StratumPhase) :
    (s.checkSwitch { s with phase := phase }).connects = s.connects := connects_checkSwitch rfl

@[simp] theorem connects_failed (cfg : RetryConfig) (s : StratumThread) (failures : Int) :
    (s.failed cfg failures).connects = s.connects := by
  simp only [StratumThread.failed]
  generalize (if 0 ≤ cfg.optRetries then failures + 1 else failures) = failures
  split_ifs
  · exact (connects_checkPhase _ _).trans (connects_switched _ _)
  · rfl
  · exact connects_checkPhase _ _

@[simp] theorem connects_reconnect (s : StratumThread) (params : Json) :
    (s.reconnect params).connects = s.connects := by
  rw [StratumThread.reconnect]
  split <;> rfl

@[simp] theorem connects_reset (s : StratumThread) : s.reset.connects = s.connects := by
  rw [StratumThread.reset]
  split_ifs <;> rfl

theorem stratumStep_connect {r : ConnectResult} (h : stratumStep cfg s (.connect r) = some s') :
    s'.connects = s.connects ++ [(s.requested, s.poolUrl)] := by
  simp only [stratumStep] at h
  split at h
  · split_ifs at h with hcurl hup
    · rw [← Option.some.inj h]
    · rw [← Option.some.inj h, connects_failed]
  · cases h

theorem stratumStep_other (hother : ∀ r, e ≠ .connect r) (h : stratumStep cfg s e = some s') :
    s'.connects = s.connects := by
  cases e with
  | connect r => exact absurd rfl (hother r)
  | pools e =>
    obtain ⟨pools, _, rfl⟩ := Option.map_eq_some_iff.mp h
    exact connects_switched s pools
  | pop =>
    simp only [stratumStep] at h
    split at h
    · rw [← Option.some.inj h]
    · cases h
  | top =>
    simp only [stratumStep] at h
    split at h
    · rw [← Option.some.inj h]
      exact connects_reset s
    · cases h
  | handshake ok =>
    simp only [stratumStep] at h
    split at h
    · split_ifs at h with hok
      · rw [← Option.some.inj h]
      · rw [← Option.some.inj h, connects_failed]
    · cases h
  | enter =>
    simp only [stratumStep] at h
    split at h
    · split_ifs at h
      rw [← Option.some.inj h, connects_checkPhase]
    · cases h
  | reconnect params =>
    simp only [stratumStep] at h
    split at h
    · rw [← Option.some.inj h, connects_reconnect]
    · rw [← Option.some.inj h]
      exact connects_checkSwitch (connects_reconnect s params)
    · cases h
  | line =>
    simp only [stratumStep] at h
    split at h
    · rw [← Option.some.inj h, connects_checkPhase]
    · cases h
  | lost =>
    simp only [stratumStep] at h
    split at h
    · rw [← Option.some.inj h]
      exact connects_checkSwitch rfl
    · cases h

end Steps

section Runs

variable {τ : Type} (target : CString → τ) {cfg : RetryConfig} {s s' : StratumThread} {e : StratumEvent}

theorem stratumStep_honoured_iff (hs : RequestsHonoured target s) (hstep : stratumStep cfg s e = some s') :
    RequestsHonoured target s' ↔ AsksForPool target s e := by
  by_cases he : ∃ r, e = .connect r
  · obtain ⟨r, rfl⟩ := he
    have hconnects := stratumStep_connect hstep
    constructor
    · intro h url hurl
      exact h (s.requested, s.poolUrl) (hconnects ▸ List.mem_append_right _ List.mem_cons_self) url hurl
    · intro hasks c hc url hurl
      rcases List.mem_append.mp (hconnects ▸ hc) with hbefore | hnew
      · exact hs c hbefore url hurl
      · obtain rfl := List.mem_singleton.mp hnew
        exact hasks url hurl
  · have hconnects := stratumStep_other (fun r hr => he ⟨r, hr⟩) hstep
    refine iff_of_true (fun c hc => hs c (hconnects ▸ hc)) ?_
    cases e with
    | connect r => exact absurd ⟨r, rfl⟩ he
    | _ => trivial

end Runs

/-- In every run the requests are honoured exactly if they only ever name the
host and port the pool is configured with. -/
theorem run_honoured_iff {τ : Type} (target : CString → τ) (cfg : RetryConfig) (pools : Pools)
    {es : List StratumEvent} {s : StratumThread} (hrun : run (stratumStep cfg) (stratumStart pools) es = some s) :
    Throughout (stratumStep cfg) (RequestsHonoured target) (stratumStart pools) es ↔
      Along (stratumStep cfg) (AsksForPool target) (stratumStart pools) es :=
  throughout_iff_along (I := fun _ => True) (fun _ _ => trivial)
    (fun _ h hstep => stratumStep_honoured_iff target h hstep) hrun trivial (fun _ hc => nomatch hc)

section Examples

/-- The host and the port of a url as libcurl takes them from it. -/
def hostPort (url : CString) : CString :=
  (url.drop ((strstr url urlMark).getD 0 + 3)).takeWhile fun c => c != '/' && c != '?' && c != '#'

def poolAtA : Pools :=
  ((run (readOption fun _ => 0.0) (initialPools fun _ => .zero) [(.url, "stratum+tcp://a:1".toList)]).get rfl).start

def requestRun (host : CString) (port : Int) : List StratumEvent :=
  [.pop, .top, .connect .up, .handshake true, .enter, .reconnect (.array [.string host, .integer port]), .top,
    .connect .up]

theorem run_honoured_pool : ∃ s, run (stratumStep ⟨1, true⟩) (stratumStart poolAtA) (requestRun ['a'] 1) = some s ∧
    s.connects.length = 2 ∧
    Throughout (stratumStep ⟨1, true⟩) (RequestsHonoured hostPort) (stratumStart poolAtA) (requestRun ['a'] 1) := by
  refine ⟨_, rfl, rfl, (run_honoured_iff hostPort ⟨1, true⟩ poolAtA rfl).mpr ?_⟩
  have hfirst : ∀ s : StratumThread, s.requested = none → AsksForPool hostPort s (.connect .up) :=
    fun s hnone url hurl => by rw [hnone] at hurl; cases hurl
  refine ⟨trivial, fun s₁ h₁ => ⟨trivial, fun s₂ h₂ => ⟨?_, fun s₃ h₃ => ⟨trivial, fun s₄ h₄ => ⟨trivial,
    fun s₅ h₅ => ⟨trivial, fun s₆ h₆ => ⟨trivial, fun s₇ h₇ => ⟨?_, fun _ _ => trivial⟩⟩⟩⟩⟩⟩⟩⟩
  · obtain rfl := Option.some.inj h₁
    obtain rfl := Option.some.inj h₂
    exact hfirst _ rfl
  · obtain rfl := Option.some.inj h₁
    obtain rfl := Option.some.inj h₂
    obtain rfl := Option.some.inj h₃
    obtain rfl := Option.some.inj h₄
    obtain rfl := Option.some.inj h₅
    obtain rfl := Option.some.inj h₆
    obtain rfl := Option.some.inj h₇
    intro url hurl
    obtain rfl := Option.some.inj hurl
    exact rfl

/-- Asked to reconnect to another host, the thread connects to its pool again. -/
theorem request_ignored : ∃ s, run (stratumStep ⟨1, true⟩) (stratumStart poolAtA) (requestRun ['b'] 2) = some s ∧
    ¬Throughout (stratumStep ⟨1, true⟩) (RequestsHonoured hostPort) (stratumStart poolAtA) (requestRun ['b'] 2) := by
  have hrun : run (stratumStep ⟨1, true⟩) (stratumStart poolAtA) (requestRun ['b'] 2) = some _ := rfl
  refine ⟨_, hrun, fun h => ?_⟩
  have hsecond := throughout_last hrun h (some "stratum+tcp://b:2".toList, "stratum+tcp://a:1".toList)
    (List.mem_cons_of_mem _ List.mem_cons_self) _ rfl
  have hother : hostPort (curlUrl "stratum+tcp://a:1".toList) ≠ hostPort (curlUrl "stratum+tcp://b:2".toList) := by
    decide
  exact hother hsecond

end Examples

end VerusMiner
