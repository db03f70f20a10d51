import VerusMiner.Getwork
import VerusMiner.Lib.Runs

/-! Long polling while pools are switched: a path that a pool told of in a
`getwork` answer is polled by a thread of its own, at the address and with the
credentials of the pool that is then the current one. -/

namespace VerusMiner

structure LpPool where
  url : CString
  url_ne : url ≠ []
  isStratum : Bool

structure LongpollConfig where
  pools : Nat → LpPool
  numPools : Nat
  decode : DecodeConfig

/-- A `get_work` command with its pool, and how many steps of switches there
had been if none was then under way or had run into another. -/
structure LpRequest where
  pooln : Nat
  moves : Option Nat

/-- A path told of in the answer to a request. -/
structure LpPath where
  text : CString
  request : LpRequest

/-- What a poll is made with. It is prompt if no switch took a step between
the request and the making of its address. -/
structure LpTarget where
  path : LpPath
  pool : Nat
  needSlash : Bool
  url : CString
  switchn : Nat
  prompt : Bool

inductive SwitchPc where
  | chosen (prevn pooln : Nat)
  | applied (prevn pooln : Nat)
  | counted (pooln : Nat)

inductive WorkioCall where
  | idle
  | asking (r : LpRequest)
  | calling (r : LpRequest) (lpScanning : Bool)

inductive LongpollPc where
  | waiting
  | popped (path : LpPath)
  | noted (path : LpPath) (switchn : Nat)
  | ready (target : LpTarget)
  | polling (target : LpTarget)
  | decoding (target : LpTarget) (result : Json)
  | ended
  | crashed (prompt : Bool)

/-- `pool` is the pointer of the long polling thread, which nothing sets at
first, and `needSlash` its flag. The switches counted stay below 2^31, the
bound of an `int`. The last four fields count the steps of switches, tell whether the last one begun ran into another, and log the polls
and how many answers since the last path came too late. -/
structure LongpollState where
  curPooln : Nat
  rpcUrl : CString
  haveStratum : Bool
  wantLongpoll : Bool
  haveLongpoll : Bool
  longpoll : Nat → Bool
  switchCount : Nat
  switching : List (Nat × SwitchPc)
  requests : List LpRequest
  call : WorkioCall
  paths : List LpPath
  pc : LongpollPc
  pool : Option Nat
  needSlash : Bool
  submitOld : Bool
  shared : DecodeState
  moves : Nat
  crossed : Bool
  polls : List LpTarget
  late : Nat

inductive LongpollEvent where
  | choose (t pooln : Nat)
  | switch (t : Nat)
  | ask
  | take
  | call
  | told (stratum : Bool) (path : Option CString)
  | done
  | pop
  | note
  | build
  | poll
  | answered (result : Option Json)
  | decode
  | stop

def isFullUrl (path : CString) : Bool := path.tails.any fun s => "://".toList.isPrefixOf s

def endsInSlash (url : CString) : Bool := url.getLast? == some '/'

def lpUrl (needSlash : Bool) (rpcUrl path : CString) : CString :=
  if isFullUrl path then path
  else rpcUrl ++ (if needSlash then ['/'] else []) ++ (if path.head? = some '/' then path.tail else path)

namespace LongpollState

variable (s : LongpollState)

/-- Thread `t` takes its next step in `pool_switch`. -/
def move (t : Nat) (pc : Option SwitchPc) : LongpollState :=
  { s with
    switching := (pc.toList.map fun pc => (t, pc)) ++ s.switching.filter fun e => e.1 ≠ t
    moves := s.moves + 1 }

def settled : Bool := s.switching.isEmpty && !s.crossed

/-- A full address needs no slash and leaves the flag as it was. -/
def slashed (path : CString) : Bool := s.needSlash || !isFullUrl path && !endsInSlash s.rpcUrl

def reinit : LongpollState := { s with haveLongpoll := false, pc := .waiting }

end LongpollState

section Step

variable (cfg : LongpollConfig)

/-- One step of `pool_switch` in one thread. -/
def moveSwitch (s : LongpollState) (t : Nat) : SwitchPc → LongpollState
  | .chosen prevn n => { s.move t (some (.applied prevn n)) with
      rpcUrl := (cfg.pools n).url, haveStratum := (cfg.pools n).isStratum }
  | .applied prevn n =>
    if prevn ≠ s.curPooln then { s.move t (some (.counted n)) with switchCount := s.switchCount + 1 }
    else s.move t none
  | .counted n =>
    let wantLongpoll := s.longpoll n || !(cfg.pools n).isStratum
    { s.move t none with
      wantLongpoll := wantLongpoll
      haveLongpoll := if wantLongpoll then false else s.haveLongpoll }

/-- From the headers of the answer on. -/
def tellPath (s : LongpollState) (r : LpRequest) (lpScanning stratum : Bool) (path : Option CString) :
    LongpollState :=
  let haveStratum := s.haveStratum || stratum
  let s := { s with haveStratum := haveStratum, call := .asking r }
  match path with
  | some text =>
    if lpScanning && !haveStratum then { s with haveLongpoll := true, paths := s.paths ++ [⟨text, r⟩] } else s
  | none => s

/-- The pool is marked through the pointer. -/
def buildUrl (s : LongpollState) (path : LpPath) (switchn : Nat) : LongpollState :=
  let prompt : Bool := path.request.moves = some s.moves
  let needSlash := s.slashed path.text
  match s.pool with
  | none => { s with needSlash := needSlash, pc := .crashed prompt }
  | some n => { s with
      needSlash := needSlash
      longpoll := Function.update s.longpoll n true
      pc := .ready ⟨path, n, needSlash, lpUrl needSlash s.rpcUrl path.text, switchn, prompt⟩ }

/-- The work is decoded in place, also by an answer that is then refused. -/
def decodeAnswer (s : LongpollState) (target : LpTarget) (result : Json) : Option LongpollState :=
  (workDecode cfg.decode result s.shared).map fun r => { s with
    shared := r.2
    pc := .ready target
    late := if target.switchn = s.switchCount then s.late else s.late + 1 }

def longpollStep (s : LongpollState) : LongpollEvent → Option LongpollState
  | .choose t n =>
    if (s.switching.lookup t).isSome || cfg.numPools ≤ n then none
    else some { s.move t (some (.chosen s.curPooln n)) with
      curPooln := n, crossed := !s.switching.isEmpty }
  | .switch t => (s.switching.lookup t).map (moveSwitch cfg s t)
  | .ask => some { s with
      requests := s.requests ++ [⟨s.curPooln, if s.settled then some s.moves else none⟩] }
  | .take => match s.call, s.requests with
    | .idle, r :: rs => some { s with call := .asking r, requests := rs }
    | _, _ => none
  | .call => match s.call with
    | .asking r => some { s with call := .calling r (s.wantLongpoll && !s.haveLongpoll) }
    | _ => none
  | .told stratum path => match s.call with
    | .calling r lpScanning => some (tellPath s r lpScanning stratum path)
    | _ => none
  | .done => match s.call with
    | .asking _ => some { s with call := .idle }
    | _ => none
  | .pop => match s.pc, s.paths with
    | .waiting, path :: paths => some { s with
        paths := paths
        pc := .popped path
        pool := if (cfg.pools s.curPooln).isStratum then s.pool else some s.curPooln
        haveStratum := s.haveStratum || (cfg.pools s.curPooln).isStratum
        late := 0 }
    | _, _ => none
  | .note => match s.pc with
    | .popped path => some { s with pc := .noted path s.switchCount }
    | _ => none
  | .build => match s.pc with
    | .noted path switchn => some (buildUrl s path switchn)
    | _ => none
  | .poll => match s.pc with
    | .ready target =>
      some (if target.switchn ≠ s.switchCount then s.reinit
        else { s with pc := .polling target, polls := s.polls ++ [target] })
    | _ => none
  | .answered result => match s.pc with
    | .polling target =>
      some (if s.haveStratum || target.switchn ≠ s.switchCount then s.reinit
        else match result with
          | some result => { s with
              submitOld := jsonIsTrue (jsonGet result "submitold".toList)
              pc := .decoding target result }
          | none => { s with pc := .ready target })
    | _ => none
  | .decode => match s.pc with
    | .decoding target result => decodeAnswer cfg s target result
    | _ => none
  | .stop => match s.pc with
    | .ready _ => some { s with haveLongpoll := false, pc := .ended }
    | _ => none

/-- After `main` has switched to its first pool, which starts no long polling. -/
def longpollStart (first : Nat) : LongpollState where
  curPooln := first
  rpcUrl := (cfg.pools first).url
  haveStratum := (cfg.pools first).isStratum
  wantLongpoll := false
  haveLongpoll := false
  longpoll := fun _ => false
  switchCount := 0
  switching := []
  requests := []
  call := .idle
  paths := []
  pc := .waiting
  pool := none
  needSlash := false
  submitOld := false
  shared := ⟨zeroWork, 0.0, 0.0⟩
  moves := 0
  crossed := false
  polls := []
  late := 0

end Step

section Invariant

variable (cfg : LongpollConfig) (s : LongpollState)

/-- What a pool switch leaves behind if no other got in its way. -/
structure Current : Prop where
  rpcUrl : s.rpcUrl = (cfg.pools s.curPooln).url
  haveStratum : (cfg.pools s.curPooln).isStratum = true → s.haveStratum = true

def Alone : SwitchPc → Prop
  | .chosen _ n => s.curPooln = n
  | .applied _ n | .counted n => s.curPooln = n ∧ Current cfg s

/-- No switch took a step since the request exactly if its count is still the same. -/
def Fresh (r : LpRequest) : Prop :=
  ∀ m, r.moves = some m → m ≤ s.moves ∧ (m = s.moves → s.settled = true ∧ r.pooln = s.curPooln)

structure PathTold (path : LpPath) : Prop where
  fresh : Fresh s path.request
  wallet : path.request.moves = some s.moves → (cfg.pools s.curPooln).isStratum = false
  counted : 0 < s.switchCount

/-- A prompt poll goes to the pool that told of its path. -/
structure Aimed (target : LpTarget) : Prop where
  pool : target.pool = target.path.request.pooln
  wallet : (cfg.pools target.pool).isStratum = false
  url : target.url = lpUrl target.needSlash (cfg.pools target.pool).url target.path.text
  slash : isFullUrl target.path.text = false → target.needSlash = false →
    endsInSlash (cfg.pools target.pool).url = true

structure TargetSound (target : LpTarget) : Prop where
  aimed : target.prompt = true → Aimed cfg target
  counted : 0 < target.switchn
  le : target.switchn ≤ s.switchCount

def CallFits : WorkioCall → Prop
  | .idle => True
  | .asking r => Fresh s r
  | .calling r lpScanning => Fresh s r ∧ (lpScanning = true → 0 < s.switchCount)

def PcFits : LongpollPc → Prop
  | .waiting | .ended => s.late ≤ 1
  | .popped path =>
    PathTold cfg s path ∧ (path.request.moves = some s.moves → s.pool = some s.curPooln) ∧ s.late = 0
  | .noted path n =>
    PathTold cfg s path ∧ (path.request.moves = some s.moves → s.pool = some s.curPooln) ∧ s.late = 0 ∧
      0 < n ∧ n ≤ s.switchCount
  | .ready target => TargetSound cfg s target ∧ (s.late = 0 ∨ s.late = 1 ∧ target.switchn < s.switchCount)
  | .polling target | .decoding target _ => TargetSound cfg s target ∧ s.late = 0
  | .crashed prompt => prompt = false ∧ s.late = 0

structure LongpollInv : Prop where
  switch : s.crossed = false →
    (s.switching = [] ∧ Current cfg s) ∨ ∃ t pc, s.switching = [(t, pc)] ∧ Alone cfg s pc
  want : s.wantLongpoll = true → 0 < s.switchCount
  counted : ∀ e ∈ s.switching, ∀ n, e.2 = .counted n → 0 < s.switchCount
  requests : ∀ r ∈ s.requests, Fresh s r
  call : CallFits s s.call
  paths : ∀ path ∈ s.paths, PathTold cfg s path
  pc : PcFits cfg s s.pc
  polls : ∀ p ∈ s.polls, TargetSound cfg s p

end Invariant

section Moves

variable {cfg : LongpollConfig} {s s' : LongpollState}

theorem Fresh.moved {r : LpRequest} (h : Fresh s r) (hm : s.moves < s'.moves) : Fresh s' r := by
  intro m hr
  have hle := (h m hr).1
  exact ⟨by omega, fun heq => by omega⟩

theorem not_recent {r : LpRequest} (h : Fresh s r) (hm : s.moves < s'.moves) : r.moves ≠ some s'.moves := by
  intro hr
  have hle := (h _ hr).1
  omega

theorem PathTold.moved {path : LpPath} (h : PathTold cfg s path) (hm : s.moves < s'.moves)
    (hc : s.switchCount ≤ s'.switchCount) : PathTold cfg s' path where
  fresh := h.fresh.moved hm
  wallet hr := absurd hr (not_recent h.fresh hm)
  counted := h.counted.trans_le hc

theorem TargetSound.moved {target : LpTarget} (h : TargetSound cfg s target) (hc : s.switchCount ≤ s'.switchCount) :
    TargetSound cfg s' target where
  aimed := h.aimed
  counted := h.counted
  le := h.le.trans hc

theorem CallFits.moved {call : WorkioCall} (h : CallFits s call) (hm : s.moves < s'.moves)
    (hc : s.switchCount ≤ s'.switchCount) : CallFits s' call := by
  cases call with
  | idle => trivial
  | asking r => exact Fresh.moved h hm
  | calling r lpScanning => exact ⟨h.1.moved hm, fun hscan => (h.2 hscan).trans_le hc⟩

theorem PcFits.late_le {pc : LongpollPc} (h : PcFits cfg s pc) :
    s.late ≤ 1 := by
  cases pc with
  | waiting | ended => exact h
  | popped path => exact h.2.2.trans_le (Nat.zero_le 1)
  | noted path n => exact h.2.2.1.trans_le (Nat.zero_le 1)
  | ready target =>
    have hlate := h.2
    omega
  | polling target | decoding target | crashed prompt => exact h.2.trans_le (Nat.zero_le 1)

theorem PcFits.moved {pc : LongpollPc} (h : PcFits cfg s pc) (hm : s.moves < s'.moves)
    (hc : s.switchCount ≤ s'.switchCount) (hlate : s'.late = s.late) : PcFits cfg s' pc := by
  cases pc with
  | waiting | ended => exact hlate.trans_le h
  | popped path =>
    obtain ⟨htold, -, hnone⟩ := h
    exact ⟨htold.moved hm hc, fun hr => absurd hr (not_recent htold.fresh hm), hlate.trans hnone⟩
  | noted path n =>
    obtain ⟨htold, -, hnone, hpos, hle⟩ := h
    exact ⟨htold.moved hm hc, fun hr => absurd hr (not_recent htold.fresh hm), hlate.trans hnone, hpos,
      hle.trans hc⟩
  | ready target =>
    obtain ⟨hsound, hnone | ⟨hone, hlt⟩⟩ := h
    · exact ⟨hsound.moved hc, .inl (hlate.trans hnone)⟩
    · exact ⟨hsound.moved hc, .inr ⟨hlate.trans hone, hlt.trans_le hc⟩⟩
  | polling target | decoding target => exact ⟨h.1.moved hc, hlate.trans h.2⟩
  | crashed prompt => exact ⟨h.1, hlate.trans h.2⟩

theorem LongpollInv.moved (h : LongpollInv cfg s) (hm : s.moves < s'.moves) (hc : s.switchCount ≤ s'.switchCount)
    (hkept : s'.requests = s.requests ∧ s'.call = s.call ∧ s'.paths = s.paths ∧ s'.pc = s.pc ∧
      s'.polls = s.polls ∧ s'.late = s.late)
    (hswitch : s'.crossed = false →
      (s'.switching = [] ∧ Current cfg s') ∨ ∃ t pc, s'.switching = [(t, pc)] ∧ Alone cfg s' pc)
    (hwant : s'.wantLongpoll = true → 0 < s'.switchCount)
    (hcounted : ∀ e ∈ s'.switching, ∀ n, e.2 = .counted n → 0 < s'.switchCount) : LongpollInv cfg s' := by
  obtain ⟨hrequests, hcall, hpaths, hpc, hpolls, hlate⟩ := hkept
  exact
    { switch := hswitch
      want := hwant
      counted := hcounted
      requests := fun r hr => (h.requests r (hrequests ▸ hr)).moved hm
      call := hcall ▸ h.call.moved hm hc
      paths := fun path hpath => (h.paths path (hpaths ▸ hpath)).moved hm hc
      pc := hpc ▸ h.pc.moved hm hc hlate
      polls := fun p hp => (h.polls p (hpolls ▸ hp)).moved hc }

theorem longpollStart_inv (first : Nat) : LongpollInv cfg (longpollStart cfg first) where
  switch _ := .inl ⟨rfl, ⟨rfl, id⟩⟩
  want h := by cases h
  counted _ h := absurd h List.not_mem_nil
  requests _ h := absurd h List.not_mem_nil
  call := trivial
  paths _ h := absurd h List.not_mem_nil
  pc := Nat.zero_le _
  polls _ h := absurd h List.not_mem_nil

theorem choose_inv {t n : Nat} (h : LongpollInv cfg s) :
    LongpollInv cfg { s.move t (some (.chosen s.curPooln n)) with
      curPooln := n, crossed := !s.switching.isEmpty } := by
  refine h.moved (Nat.lt_succ_self _) le_rfl ⟨rfl, rfl, rfl, rfl, rfl, rfl⟩ (fun hcrossed => ?_) h.want ?_
  · have hnone : s.switching = [] := by simpa using hcrossed
    refine .inr ⟨t, .chosen s.curPooln n, ?_, rfl⟩
    simp only [LongpollState.move, hnone]
    rfl
  · intro e he k hk
    simp only [LongpollState.move, Option.toList_some, List.map_cons, List.map_nil, List.singleton_append,
      List.mem_cons] at he
    rcases he with rfl | he
    · cases hk
    · exact h.counted e (List.mem_of_mem_filter he) k hk

/-- The steps of a switch that runs alone. -/
theorem alone_moveSwitch {t : Nat} {pc : SwitchPc} (h : s.switching = [(t, pc)] ∧ Alone cfg s pc) :
    let s' := moveSwitch cfg s t pc
    (s'.switching = [] ∧ Current cfg s') ∨ ∃ t pc, s'.switching = [(t, pc)] ∧ Alone cfg s' pc := by
  obtain ⟨honly, halone⟩ := h
  have hothers : s.switching.filter (fun e => e.1 ≠ t) = [] := by simp [honly]
  cases pc with
  | chosen prevn n =>
    refine .inr ⟨t, .applied prevn n, ?_, halone, ?_⟩
    · simp only [moveSwitch, LongpollState.move, hothers]
      rfl
    · have hcur : s.curPooln = n := halone
      exact ⟨by rw [← hcur]; rfl, fun hstratum => by rw [← hcur]; exact hstratum⟩
  | applied prevn n =>
    simp only [moveSwitch]
    split_ifs
    · refine .inr ⟨t, .counted n, ?_, halone.1, ⟨halone.2.rpcUrl, halone.2.haveStratum⟩⟩
      simp only [LongpollState.move, hothers]
      rfl
    · refine .inl ⟨?_, ⟨halone.2.rpcUrl, halone.2.haveStratum⟩⟩
      simp only [LongpollState.move, hothers]
      rfl
  | counted n =>
    refine .inl ⟨?_, ⟨halone.2.rpcUrl, halone.2.haveStratum⟩⟩
    simp only [moveSwitch, LongpollState.move, hothers]
    rfl

theorem moveSwitch_kept (cfg : LongpollConfig) (s : LongpollState) (t : Nat) (pc : SwitchPc) :
    let s' := moveSwitch cfg s t pc
    s'.moves = s.moves + 1 ∧ s.switchCount ≤ s'.switchCount ∧ s'.crossed = s.crossed ∧
    s'.requests = s.requests ∧ s'.call = s.call ∧ s'.paths = s.paths ∧ s'.pc = s.pc ∧ s'.polls = s.polls ∧
    s'.late = s.late := by
  cases pc with
  | chosen prevn n => exact ⟨rfl, le_rfl, rfl, rfl, rfl, rfl, rfl, rfl, rfl⟩
  | applied prevn n =>
    simp only [moveSwitch]
    split_ifs
    · exact ⟨rfl, Nat.le_succ _, rfl, rfl, rfl, rfl, rfl, rfl, rfl⟩
    · exact ⟨rfl, le_rfl, rfl, rfl, rfl, rfl, rfl, rfl, rfl⟩
  | counted n => exact ⟨rfl, le_rfl, rfl, rfl, rfl, rfl, rfl, rfl, rfl⟩

/-- Long polling is wanted only after a switch was counted. -/
theorem moveSwitch_counted {t : Nat} {pc : SwitchPc} (h : LongpollInv cfg s) (hmem : (t, pc) ∈ s.switching) :
    let s' := moveSwitch cfg s t pc
    (s'.wantLongpoll = true → 0 < s'.switchCount) ∧
    ∀ e ∈ s'.switching, ∀ n, e.2 = .counted n → 0 < s'.switchCount := by
  have hothers (e : Nat × SwitchPc) (he : e ∈ s.switching.filter fun e => e.1 ≠ t) (n : Nat)
      (hn : e.2 = .counted n) : 0 < s.switchCount := h.counted e (List.mem_of_mem_filter he) n hn
  cases pc with
  | chosen prevn n =>
    refine ⟨h.want, fun e he k hk => ?_⟩
    rcases List.mem_cons.mp he with rfl | he
    · cases hk
    · exact hothers e he k hk
  | applied prevn n =>
    simp only [moveSwitch]
    split_ifs
    · exact ⟨fun _ => Nat.succ_pos _, fun _ _ _ _ => Nat.succ_pos _⟩
    · exact ⟨h.want, hothers⟩
  | counted n => exact ⟨fun _ => h.counted _ hmem n rfl, hothers⟩

theorem switch_inv {t : Nat} {pc : SwitchPc} (h : LongpollInv cfg s) (hpc : s.switching.lookup t = some pc) :
    LongpollInv cfg (moveSwitch cfg s t pc) := by
  have hmem : (t, pc) ∈ s.switching := by
    obtain ⟨l₁, l₂, hsplit, -⟩ := List.lookup_eq_some_iff.mp hpc
    exact hsplit ▸ List.mem_append_right _ List.mem_cons_self
  obtain ⟨hmoves, hcount, hcrossed, hkept⟩ := moveSwitch_kept cfg s t pc
  obtain ⟨hwant, hcounted⟩ := moveSwitch_counted h hmem
  refine h.moved (by omega) hcount hkept (fun hfalse => ?_) hwant hcounted
  rcases h.switch (hcrossed ▸ hfalse) with ⟨hnone, -⟩ | ⟨t', pc', honly, halone⟩
  · rw [hnone] at hmem
    cases hmem
  · rw [honly, List.mem_singleton, Prod.mk.injEq] at hmem
    obtain ⟨rfl, rfl⟩ := hmem
    exact alone_moveSwitch ⟨honly, halone⟩

/-- Steps that are none of a switch. -/
structure Still (s s' : LongpollState) : Prop where
  switching : s'.switching = s.switching
  crossed : s'.crossed = s.crossed
  moves : s'.moves = s.moves
  curPooln : s'.curPooln = s.curPooln
  rpcUrl : s'.rpcUrl = s.rpcUrl
  wantLongpoll : s'.wantLongpoll = s.wantLongpoll
  switchCount : s'.switchCount = s.switchCount
  haveStratum : s.haveStratum = true → s'.haveStratum = true

theorem Still.current (h : Still s s') (hs : Current cfg s) : Current cfg s' where
  rpcUrl := by rw [h.rpcUrl, h.curPooln, hs.rpcUrl]
  haveStratum hstratum := h.haveStratum (hs.haveStratum (h.curPooln ▸ hstratum))

theorem Still.fresh (h : Still s s') {r : LpRequest} (hr : Fresh s r) : Fresh s' r := by
  intro m hm
  rw [h.moves, LongpollState.settled, h.switching, h.crossed, h.curPooln]
  exact hr m hm

theorem Still.told (h : Still s s') {path : LpPath} (hp : PathTold cfg s path) : PathTold cfg s' path where
  fresh := h.fresh hp.fresh
  wallet := by
    rw [h.moves, h.curPooln]
    exact hp.wallet
  counted := h.switchCount ▸ hp.counted

theorem Still.sound (h : Still s s') {target : LpTarget} (ht : TargetSound cfg s target) :
    TargetSound cfg s' target where
  aimed := ht.aimed
  counted := ht.counted
  le := h.switchCount ▸ ht.le

theorem Still.callFits (h : Still s s') {call : WorkioCall} (hcall : CallFits s call) : CallFits s' call := by
  cases call with
  | idle => trivial
  | asking r => exact h.fresh hcall
  | calling r lpScanning => exact ⟨h.fresh hcall.1, fun hscan => h.switchCount ▸ hcall.2 hscan⟩

theorem Still.pcFits (h : Still s s') (hlate : s'.late = s.late) (hpool : s'.pool = s.pool) {pc : LongpollPc}
    (hpc : PcFits cfg s pc) : PcFits cfg s' pc := by
  cases pc with
  | waiting | ended => exact hlate.trans_le hpc
  | popped path =>
    obtain ⟨htold, haimed, hnone⟩ := hpc
    refine ⟨h.told htold, ?_, hlate.trans hnone⟩
    rwa [h.moves, hpool, h.curPooln]
  | noted path n =>
    obtain ⟨htold, haimed, hnone, hpos, hle⟩ := hpc
    refine ⟨h.told htold, ?_, hlate.trans hnone, hpos, h.switchCount ▸ hle⟩
    rwa [h.moves, hpool, h.curPooln]
  | ready target => exact ⟨h.sound hpc.1, by rw [hlate, h.switchCount]; exact hpc.2⟩
  | polling target | decoding target => exact ⟨h.sound hpc.1, hlate.trans hpc.2⟩
  | crashed prompt => exact ⟨hpc.1, hlate.trans hpc.2⟩

theorem LongpollInv.still (h : LongpollInv cfg s) (hs : Still s s') (hrequests : ∀ r ∈ s'.requests, Fresh s' r)
    (hcall : CallFits s' s'.call) (hpaths : ∀ path ∈ s'.paths, PathTold cfg s' path) (hpc : PcFits cfg s' s'.pc)
    (hpolls : ∀ p ∈ s'.polls, TargetSound cfg s' p) : LongpollInv cfg s' where
  switch hcrossed := by
    rw [hs.switching]
    rcases h.switch (hs.crossed ▸ hcrossed) with ⟨hnone, hcurrent⟩ | ⟨t, pc, honly, halone⟩
    · exact .inl ⟨hnone, hs.current hcurrent⟩
    · refine .inr ⟨t, pc, honly, ?_⟩
      cases pc with
      | chosen prevn n => exact hs.curPooln.trans halone
      | applied prevn n | counted n => exact ⟨hs.curPooln.trans halone.1, hs.current halone.2⟩
  want hwant := hs.switchCount ▸ h.want (hs.wantLongpoll ▸ hwant)
  counted e he n hn := hs.switchCount ▸ h.counted e (hs.switching ▸ he) n hn
  requests := hrequests
  call := hcall
  paths := hpaths
  pc := hpc
  polls := hpolls

/-- The thread that polls takes a step, and the others none. -/
theorem LongpollInv.threadStep (h : LongpollInv cfg s) (hs : Still s s')
    (hkept : s'.requests = s.requests ∧ s'.call = s.call) (hpaths : ∀ path ∈ s'.paths, path ∈ s.paths)
    (hpc : PcFits cfg s' s'.pc) (hpolls : ∀ p ∈ s'.polls, TargetSound cfg s p) : LongpollInv cfg s' :=
  h.still hs (fun r hr => hs.fresh (h.requests r (hkept.1 ▸ hr))) (hkept.2 ▸ hs.callFits h.call)
    (fun path hpath => hs.told (h.paths path (hpaths path hpath))) hpc fun p hp => hs.sound (hpolls p hp)

/-- The threads that ask for work take a step, and the one that polls none. -/
theorem LongpollInv.workioStep (h : LongpollInv cfg s) (hs : Still s s')
    (hkept : s'.pc = s.pc ∧ s'.pool = s.pool ∧ s'.polls = s.polls ∧ s'.late = s.late)
    (hrequests : ∀ r ∈ s'.requests, Fresh s' r) (hcall : CallFits s' s'.call)
    (hpaths : ∀ path ∈ s'.paths, PathTold cfg s' path) : LongpollInv cfg s' :=
  h.still hs hrequests hcall hpaths (hkept.1 ▸ hs.pcFits hkept.2.2.2 hkept.2.1 h.pc)
    fun p hp => hs.sound (h.polls p (hkept.2.2.1 ▸ hp))

theorem Fresh.current (h : LongpollInv cfg s) {r : LpRequest} (hr : Fresh s r) (hnow : r.moves = some s.moves) :
    r.pooln = s.curPooln ∧ Current cfg s := by
  obtain ⟨hsettled, hpooln⟩ := (hr _ hnow).2 rfl
  simp only [LongpollState.settled, Bool.and_eq_true, List.isEmpty_iff, Bool.not_eq_true'] at hsettled
  refine ⟨hpooln, ?_⟩
  rcases h.switch hsettled.2 with ⟨-, hcurrent⟩ | ⟨t, pc, honly, -⟩
  · exact hcurrent
  · rw [hsettled.1] at honly
    cases honly

theorem ask_inv (h : LongpollInv cfg s) : LongpollInv cfg { s with
    requests := s.requests ++ [⟨s.curPooln, if s.settled then some s.moves else none⟩] } := by
  have hs : Still s { s with
      requests := s.requests ++ [⟨s.curPooln, if s.settled then some s.moves else none⟩] } :=
    ⟨rfl, rfl, rfl, rfl, rfl, rfl, rfl, id⟩
  refine h.workioStep hs ⟨rfl, rfl, rfl, rfl⟩ (fun r hr => ?_) (hs.callFits h.call)
    fun path hpath => hs.told (h.paths path hpath)
  rcases List.mem_append.mp hr with hr | hr
  · exact hs.fresh (h.requests r hr)
  · rw [List.mem_singleton.mp hr]
    intro m hm
    dsimp only at hm
    split_ifs at hm with hsettled
    cases hm
    exact ⟨le_rfl, fun _ => ⟨hsettled, rfl⟩⟩

/-- A path is told only while no stratum pool is the current one. -/
theorem tellPath_inv {r : LpRequest} {lpScanning : Bool} (h : LongpollInv cfg s)
    (hcall : CallFits s (.calling r lpScanning)) (stratum : Bool) (path : Option CString) :
    LongpollInv cfg (tellPath s r lpScanning stratum path) := by
  obtain ⟨hfresh, hcounted⟩ := hcall
  have hold : LongpollInv cfg { s with haveStratum := s.haveStratum || stratum, call := .asking r } := by
    have hs : Still s { s with haveStratum := s.haveStratum || stratum, call := .asking r } :=
      ⟨rfl, rfl, rfl, rfl, rfl, rfl, rfl, fun htrue => by rw [htrue]; rfl⟩
    exact h.workioStep hs ⟨rfl, rfl, rfl, rfl⟩ (fun r hr => hs.fresh (h.requests r hr)) (hs.fresh hfresh)
      fun path hpath => hs.told (h.paths path hpath)
  simp only [tellPath]
  cases path with
  | none => exact hold
  | some text =>
    dsimp only
    split_ifs with htells
    · simp only [Bool.and_eq_true, Bool.not_eq_true', Bool.or_eq_false_iff] at htells
      have hs : Still s { s with
          haveStratum := s.haveStratum || stratum, call := .asking r, haveLongpoll := true
          paths := s.paths ++ [⟨text, r⟩] } :=
        ⟨rfl, rfl, rfl, rfl, rfl, rfl, rfl, fun htrue => by rw [htrue]; rfl⟩
      refine h.workioStep hs ⟨rfl, rfl, rfl, rfl⟩ (fun r hr => hs.fresh (h.requests r hr)) (hs.fresh hfresh)
        fun path hpath => ?_
      rcases List.mem_append.mp hpath with hpath | hpath
      · exact hs.told (h.paths path hpath)
      · rw [List.mem_singleton.mp hpath]
        refine hs.told ⟨hfresh, fun hnow => ?_, hcounted htells.1⟩
        by_contra hstratum
        have htrue := (hfresh.current h hnow).2.haveStratum (by simpa using hstratum)
        rw [htells.2.1] at htrue
        cases htrue
    · exact hold

theorem pop_inv {path : LpPath} {paths : List LpPath} (h : LongpollInv cfg s) (hpaths : s.paths = path :: paths) :
    LongpollInv cfg { s with
      paths := paths
      pc := .popped path
      pool := if (cfg.pools s.curPooln).isStratum then s.pool else some s.curPooln
      haveStratum := s.haveStratum || (cfg.pools s.curPooln).isStratum
      late := 0 } := by
  have hpath : PathTold cfg s path := h.paths path (hpaths ▸ List.mem_cons_self)
  have hs : Still s { s with
      paths := paths
      pc := .popped path
      pool := if (cfg.pools s.curPooln).isStratum then s.pool else some s.curPooln
      haveStratum := s.haveStratum || (cfg.pools s.curPooln).isStratum
      late := 0 } :=
    ⟨rfl, rfl, rfl, rfl, rfl, rfl, rfl, fun htrue => by rw [htrue]; rfl⟩
  refine h.threadStep hs ⟨rfl, rfl⟩ (fun p hp => hpaths ▸ List.mem_cons_of_mem _ hp)
    ⟨hs.told hpath, fun hnow => ?_, rfl⟩ h.polls
  dsimp only
  rw [hpath.wallet hnow, if_neg Bool.false_ne_true]

theorem note_inv {path : LpPath} (h : LongpollInv cfg s) (hpc : s.pc = .popped path) :
    LongpollInv cfg { s with pc := .noted path s.switchCount } := by
  have hs : Still s { s with pc := .noted path s.switchCount } := ⟨rfl, rfl, rfl, rfl, rfl, rfl, rfl, id⟩
  obtain ⟨htold, haimed, hnone⟩ : PcFits cfg s (.popped path) := hpc ▸ h.pc
  exact h.threadStep hs ⟨rfl, rfl⟩ (fun _ hp => hp) ⟨hs.told htold, haimed, hnone, htold.counted, le_rfl⟩
    h.polls

theorem build_inv {path : LpPath} {n : Nat} (h : LongpollInv cfg s) (hpc : s.pc = .noted path n) :
    LongpollInv cfg (buildUrl s path n) := by
  obtain ⟨htold, haimed, hnone, hpos, hle⟩ : PcFits cfg s (.noted path n) := hpc ▸ h.pc
  rw [buildUrl]
  cases hpool : s.pool with
  | none =>
    dsimp only
    refine h.threadStep ⟨rfl, rfl, rfl, rfl, rfl, rfl, rfl, id⟩ ⟨rfl, rfl⟩ (fun _ hp => hp)
      ⟨decide_eq_false fun hnow => ?_, hnone⟩ h.polls
    rw [haimed hnow] at hpool
    cases hpool
  | some k =>
    dsimp only
    refine h.threadStep ⟨rfl, rfl, rfl, rfl, rfl, rfl, rfl, id⟩ ⟨rfl, rfl⟩ (fun _ hp => hp)
      ⟨⟨fun hprompt => ?_, hpos, hle⟩, .inl hnone⟩ h.polls
    have hnow : path.request.moves = some s.moves := of_decide_eq_true hprompt
    obtain ⟨hpooln, hcurrent⟩ := htold.fresh.current h hnow
    obtain rfl : k = s.curPooln := Option.some.inj (hpool.symm.trans (haimed hnow))
    exact
      { pool := hpooln.symm
        wallet := htold.wallet hnow
        url := by
          dsimp only
          rw [hcurrent.rpcUrl]
        slash := fun hfull hslash => by
          simp only [LongpollState.slashed, Bool.or_eq_false_iff, hfull] at hslash
          rw [← hcurrent.rpcUrl]
          simpa using hslash.2 }

theorem poll_inv {target : LpTarget} (h : LongpollInv cfg s) (hpc : s.pc = .ready target) :
    LongpollInv cfg (if target.switchn ≠ s.switchCount then s.reinit
      else { s with pc := .polling target, polls := s.polls ++ [target] }) := by
  obtain ⟨hsound, hlate⟩ : PcFits cfg s (.ready target) := hpc ▸ h.pc
  split_ifs with hmoved
  · exact h.threadStep ⟨rfl, rfl, rfl, rfl, rfl, rfl, rfl, id⟩ ⟨rfl, rfl⟩ (fun _ hp => hp) h.pc.late_le
      h.polls
  · have hnone : s.late = 0 := by omega
    have hs : Still s { s with pc := .polling target, polls := s.polls ++ [target] } :=
      ⟨rfl, rfl, rfl, rfl, rfl, rfl, rfl, id⟩
    refine h.threadStep hs ⟨rfl, rfl⟩ (fun _ hp => hp) ⟨hs.sound hsound, hnone⟩ fun p hp => ?_
    rcases List.mem_append.mp hp with hp | hp
    · exact h.polls p hp
    · exact List.mem_singleton.mp hp ▸ hsound

theorem decode_inv {target : LpTarget} {result : Json} (h : LongpollInv cfg s)
    (hpc : s.pc = .decoding target result) (hstep : decodeAnswer cfg s target result = some s') :
    LongpollInv cfg s' := by
  obtain ⟨hsound, hnone⟩ : PcFits cfg s (.decoding target result) := hpc ▸ h.pc
  obtain ⟨r, -, rfl⟩ := Option.map_eq_some_iff.mp hstep
  have hs : Still s { s with
      shared := r.2
      pc := .ready target
      late := if target.switchn = s.switchCount then s.late else s.late + 1 } :=
    ⟨rfl, rfl, rfl, rfl, rfl, rfl, rfl, id⟩
  refine h.threadStep hs ⟨rfl, rfl⟩ (fun _ hp => hp) ⟨hs.sound hsound, ?_⟩ h.polls
  have hle := hsound.le
  dsimp only
  split_ifs with hsame
  · exact .inl hnone
  · exact .inr ⟨by rw [hnone], by omega⟩

theorem answered_inv {target : LpTarget} (result : Option Json) (h : LongpollInv cfg s)
    (hpc : s.pc = .polling target) :
    LongpollInv cfg (if s.haveStratum || target.switchn ≠ s.switchCount then s.reinit
      else match result with
        | some result => { s with
            submitOld := jsonIsTrue (jsonGet result "submitold".toList)
            pc := .decoding target result }
        | none => { s with pc := .ready target }) := by
  obtain ⟨hsound, hnone⟩ : PcFits cfg s (.polling target) := hpc ▸ h.pc
  split_ifs
  · exact h.threadStep ⟨rfl, rfl, rfl, rfl, rfl, rfl, rfl, id⟩ ⟨rfl, rfl⟩ (fun _ hp => hp) h.pc.late_le
      h.polls
  · cases result with
    | none =>
      have hs : Still s { s with pc := .ready target } := ⟨rfl, rfl, rfl, rfl, rfl, rfl, rfl, id⟩
      exact h.threadStep hs ⟨rfl, rfl⟩ (fun _ hp => hp) ⟨hs.sound hsound, .inl hnone⟩ h.polls
    | some result =>
      have hs : Still s { s with
          submitOld := jsonIsTrue (jsonGet result "submitold".toList)
          pc := .decoding target result } := ⟨rfl, rfl, rfl, rfl, rfl, rfl, rfl, id⟩
      exact h.threadStep hs ⟨rfl, rfl⟩ (fun _ hp => hp) ⟨hs.sound hsound, hnone⟩ h.polls

theorem take_inv {r : LpRequest} {rs : List LpRequest} (h : LongpollInv cfg s) (hrequests : s.requests = r :: rs) :
    LongpollInv cfg { s with call := .asking r, requests := rs } := by
  have hs : Still s { s with call := .asking r, requests := rs } := ⟨rfl, rfl, rfl, rfl, rfl, rfl, rfl, id⟩
  have hold (r' : LpRequest) (hr : r' ∈ r :: rs) : Fresh s r' := h.requests r' (hrequests ▸ hr)
  exact h.workioStep hs ⟨rfl, rfl, rfl, rfl⟩ (fun r' hr => hs.fresh (hold r' (List.mem_cons_of_mem _ hr)))
    (hs.fresh (hold r List.mem_cons_self)) fun path hpath => hs.told (h.paths path hpath)

theorem call_inv {call : WorkioCall} (h : LongpollInv cfg s) (hcall : CallFits s call) :
    LongpollInv cfg { s with call := call } := by
  have hs : Still s { s with call := call } := ⟨rfl, rfl, rfl, rfl, rfl, rfl, rfl, id⟩
  exact h.workioStep hs ⟨rfl, rfl, rfl, rfl⟩ (fun r hr => hs.fresh (h.requests r hr)) (hs.callFits hcall)
    fun path hpath => hs.told (h.paths path hpath)

theorem stop_inv (h : LongpollInv cfg s) : LongpollInv cfg { s with haveLongpoll := false, pc := .ended } :=
  h.threadStep ⟨rfl, rfl, rfl, rfl, rfl, rfl, rfl, id⟩ ⟨rfl, rfl⟩ (fun _ hp => hp) h.pc.late_le h.polls

theorem longpollStep_inv {e : LongpollEvent} (h : LongpollInv cfg s) (hstep : longpollStep cfg s e = some s') :
    LongpollInv cfg s' := by
  cases e with
  | choose t n =>
    rw [longpollStep] at hstep
    split_ifs at hstep
    exact Option.some.inj hstep ▸ choose_inv h
  | switch t =>
    obtain ⟨pc, hpc, rfl⟩ := Option.map_eq_some_iff.mp hstep
    exact switch_inv h hpc
  | ask => exact Option.some.inj hstep ▸ ask_inv h
  | take =>
    rw [longpollStep] at hstep
    split at hstep
    · rename_i hrequests
      exact Option.some.inj hstep ▸ take_inv h hrequests
    · cases hstep
  | call =>
    rw [longpollStep] at hstep
    split at hstep
    · rename_i r hcall
      have hfresh : CallFits s (.asking r) := hcall ▸ h.call
      refine Option.some.inj hstep ▸ call_inv h ⟨hfresh, fun hscan => h.want ?_⟩
      exact (Bool.and_eq_true_iff.mp hscan).1
    · cases hstep
  | told stratum path =>
    rw [longpollStep] at hstep
    split at hstep
    · rename_i hcall
      exact Option.some.inj hstep ▸ tellPath_inv h (hcall ▸ h.call) stratum path
    · cases hstep
  | done =>
    rw [longpollStep] at hstep
    split at hstep
    · exact Option.some.inj hstep ▸ call_inv h trivial
    · cases hstep
  | pop =>
    rw [longpollStep] at hstep
    split at hstep
    · rename_i hpaths
      exact Option.some.inj hstep ▸ pop_inv h hpaths
    · cases hstep
  | note =>
    rw [longpollStep] at hstep
    split at hstep
    · rename_i hpc
      exact Option.some.inj hstep ▸ note_inv h hpc
    · cases hstep
  | build =>
    rw [longpollStep] at hstep
    split at hstep
    · rename_i hpc
      exact Option.some.inj hstep ▸ build_inv h hpc
    · cases hstep
  | poll =>
    rw [longpollStep] at hstep
    split at hstep
    · rename_i hpc
      exact Option.some.inj hstep ▸ poll_inv h hpc
    · cases hstep
  | answered result =>
    rw [longpollStep] at hstep
    split at hstep
    · rename_i hpc
      exact Option.some.inj hstep ▸ answered_inv result h hpc
    · cases hstep
  | decode =>
    rw [longpollStep] at hstep
    split at hstep
    · rename_i hpc
      exact decode_inv h hpc hstep
    · cases hstep
  | stop =>
    rw [longpollStep] at hstep
    split at hstep
    · exact Option.some.inj hstep ▸ stop_inv h
    · cases hstep

end Moves

/-- Since a path was popped at most one answer was decoded after a switch was counted. -/
theorem run_late (cfg : LongpollConfig) (first : Nat) (events : List LongpollEvent) :
    Throughout (longpollStep cfg) (fun s => s.late ≤ 1) (longpollStart cfg first) events :=
  throughout_of_invariant (I := LongpollInv cfg) (fun h hstep => longpollStep_inv h hstep) (fun h => h.pc.late_le)
    (longpollStart_inv first) events

structure PollsAimed (cfg : LongpollConfig) (s : LongpollState) : Prop where
  counted : ∀ p ∈ s.polls, 0 < p.switchn
  aimed : ∀ p ∈ s.polls, p.prompt = true → Aimed cfg p
  crash : ∀ prompt, s.pc = .crashed prompt → prompt = false

/-- No poll is made before the first pool switch. One whose path was asked for
after the last switch was over, and no switch began until its address was made,
goes to the pool that told of the path, at its address and with its
credentials; and the pointer to the pool is read unset only otherwise. -/
theorem run_pollsAimed (cfg : LongpollConfig) (first : Nat) (events : List LongpollEvent) :
    Throughout (longpollStep cfg) (PollsAimed cfg) (longpollStart cfg first) events := by
  refine throughout_of_invariant (I := LongpollInv cfg) (fun h hstep => longpollStep_inv h hstep) (fun h => ?_)
    (longpollStart_inv first) events
  refine ⟨fun p hp => (h.polls p hp).counted, fun p hp => (h.polls p hp).aimed, fun prompt hpc => ?_⟩
  have hcrash : PcFits cfg _ (.crashed prompt) := hpc ▸ h.pc
  exact hcrash.1

def demoLongpoll : LongpollConfig where
  pools n := ⟨"http://pool".toList ++ Nat.toDigits 10 n, by simp, n = 0⟩
  numPools := 3
  decode := ⟨false, 0.0, false⟩

def switchTo (n : Nat) : List LongpollEvent := [.choose 0 n, .switch 0, .switch 0, .switch 0]

def tell (path : CString) : List LongpollEvent := [.ask, .take, .call, .told false (some path)]

/-- A prompt poll. -/
example : (run (longpollStep demoLongpoll) (longpollStart demoLongpoll 0)
    (switchTo 1 ++ tell "/lp".toList ++ [.pop, .note, .build, .poll])).map (fun s =>
      s.polls.map fun p => (p.path.request.pooln, p.pool, p.url, p.prompt)) =
    some [(1, 1, "http://pool1/lp".toList, true)] := by decide

/-- What pool 1 told of is asked of pool 2, at its address, if it is switched to before the path is popped. -/
example : (run (longpollStep demoLongpoll) (longpollStart demoLongpoll 0)
    (switchTo 1 ++ tell "/lp".toList ++ switchTo 2 ++ [.pop, .note, .build, .poll])).map (fun s =>
      s.polls.map fun p => (p.path.request.pooln, p.pool, p.url, p.prompt)) =
    some [(1, 2, "http://pool2/lp".toList, false)] := by decide

/-- And the pointer is unset if a stratum pool is switched to before the first path is popped. -/
example : (run (longpollStep demoLongpoll) (longpollStart demoLongpoll 0)
    (switchTo 1 ++ tell "/lp".toList ++ switchTo 0 ++ [.pop, .note, .build])).map (fun s =>
      match s.pc with
      | .crashed _ => true
      | _ => false) = some true := by decide

end VerusMiner
