import VerusMiner.Lib.Custody
import VerusMiner.Lib.Runs

/-! The handles of libcurl: a pool switch copies them between the context of
the thread that speaks to the pool and those kept for the pools, while that
thread opens and closes them. -/

namespace VerusMiner

/-- What a `struct stratum_ctx` has of its connection. -/
structure CurlCtx where
  url : Bool
  curl : Option Nat

structure HandleConfig where
  isStratum : Nat → Bool
  numPools : Nat

/-- Where the thread is: waiting for a url, at the head of its loop, at the
test of the loop that connects, before `curl_easy_init` and in
`curl_easy_perform`, subscribing, after an attempt that failed with its
context still open and then closed, or reading lines. -/
inductive ConnPhase where
  | waitUrl
  | top
  | connecting
  | starting
  | dialling (curl : Nat)
  | handshake
  | refused
  | failed
  | session
  | out
  deriving DecidableEq

/-- Neither dialling nor reading lines. -/
def ConnPhase.idle : ConnPhase → Bool
  | .dialling _ | .session => false
  | _ => true

structure HeardLine where
  pooln : Nat
  curl : Option Nat
  isOpen : Bool

/-- A switch has left pool `leaving` once it has saved its context, until it
has loaded that of the other pool: one switch at a time, where the code would
let those of several threads run into each other. They are counted in an `int`
that does not come round. `target` is the pool at whose address a handle was
opened. -/
structure HandleState where
  stratum : CurlCtx
  pools : Nat → CurlCtx
  curPooln : Nat
  leaving : Option Nat
  switchCount : Nat
  needReset : Bool
  queued : Nat
  pooln : Nat
  switchn : Nat
  phase : ConnPhase
  next : Nat
  opened : Finset Nat
  target : Nat → Nat
  faulted : Bool
  heard : List HeardLine

namespace HandleState

/-- `curl_easy_cleanup`. -/
def cleanup (s : HandleState) : Option Nat → HandleState
  | none => s
  | some curl => if curl ∈ s.opened then { s with opened := s.opened.erase curl } else { s with faulted := true }

def setCurl (s : HandleState) (curl : Option Nat) : HandleState :=
  { s with stratum := { s.stratum with curl := curl } }

def setUrl (s : HandleState) (url : Bool) : HandleState := { s with stratum := { s.stratum with url := url } }

/-- `stratum_disconnect` on the shared context. -/
def disconnect (s : HandleState) : HandleState := (s.cleanup s.stratum.curl).setCurl none

/-- `stratum_disconnect` on the context kept for a pool. -/
def disconnectPool (s : HandleState) (n : Nat) : HandleState :=
  { s.cleanup (s.pools n).curl with pools := Function.update s.pools n { s.pools n with curl := none } }

def poolSwitched (s : HandleState) : HandleState :=
  let s := s.disconnectPool s.pooln
  { s.setUrl false with phase := .waitUrl }

def checkSwitch (s next : HandleState) : HandleState :=
  if s.switchn ≠ s.switchCount then s.poolSwitched else next

def savedPools (cfg : HandleConfig) (s : HandleState) : Nat → CurlCtx :=
  if cfg.isStratum s.curPooln then Function.update s.pools s.curPooln s.stratum else s.pools

/-- The first half of `pool_switch`. -/
def save (cfg : HandleConfig) (s : HandleState) (n : Nat) : HandleState :=
  if n < cfg.numPools then { s with pools := s.savedPools cfg, curPooln := n, leaving := some s.curPooln }
  else { s with pools := s.savedPools cfg }

/-- The second half, for a switch that left pool `prevn`. -/
def load (cfg : HandleConfig) (s : HandleState) (prevn : Nat) : HandleState :=
  let s := { s with leaving := none }
  if prevn = s.curPooln then s
  else
    let s := { s with switchCount := s.switchCount + 1, needReset := true }
    if cfg.isStratum s.curPooln then { s with stratum := s.pools s.curPooln, queued := s.queued + 1 } else s

def reset (s : HandleState) : HandleState :=
  if s.needReset then
    let s := { s with needReset := false }
    if s.stratum.url then s.disconnect else s.setUrl true
  else s

/-- `stratum_connect` up to `curl_easy_perform`. -/
def connectInit (s : HandleState) (ok : Bool) : HandleState :=
  let s := s.cleanup s.stratum.curl
  if ok then
    { s with
      stratum := ⟨true, some s.next⟩
      next := s.next + 1
      opened := insert s.next s.opened
      target := Function.update s.target s.next s.pooln
      phase := .dialling s.next }
  else { s.setCurl none with phase := .refused }

end HandleState

inductive HandleEvent where
  | save (n : Nat)
  | load
  | announced
  | pop
  | top
  | test
  | init (ok : Bool)
  | dialled (up : Bool)
  | hello (ok : Bool)
  | reconnect
  | disconnect
  | retry
  | giveUp
  | enter
  | line
  | lost

/-- One switch is made at a time; a failover is one of its own. A wallet can
announce a stratum server. -/
def handleStep (cfg : HandleConfig) (s : HandleState) : HandleEvent → Option HandleState
  | .save n => if s.leaving = none then some (s.save cfg n) else none
  | .load => s.leaving.map fun prevn => s.load cfg prevn
  | .announced => some { s with queued := s.queued + 1 }
  | .pop =>
    if s.phase = .waitUrl ∧ 0 < s.queued then
      some { s with
        queued := s.queued - 1
        stratum := { s.stratum with url := true }
        pooln := s.curPooln
        switchn := s.switchCount
        needReset := false
        phase := .top }
    else none
  | .top => if s.phase = .top then some { s.reset with phase := .connecting } else none
  | .test => if s.phase = .connecting ∧ s.stratum.curl = none then some { s with phase := .starting } else none
  | .init ok => if s.phase = .starting then some (s.connectInit ok) else none
  | .dialled up =>
    match s.phase with
    | .dialling curl =>
      if up then some { s with phase := .handshake }
      else some { (s.cleanup (some curl)).setCurl none with phase := .refused }
    | _ => none
  | .hello ok =>
    if s.phase = .handshake then some { s with phase := if ok then .connecting else .refused } else none
  | .reconnect =>
    match s.phase with
    | .handshake => some (s.setUrl true).disconnect
    | .session => some (s.checkSwitch { (s.setUrl true).disconnect with phase := .top })
    | _ => none
  | .disconnect => if s.phase = .refused then some { s.disconnect with phase := .failed } else none
  | .retry => if s.phase = .failed then some (s.checkSwitch { s with phase := .connecting }) else none
  | .giveUp => if s.phase = .failed then some { s with phase := .out } else none
  | .enter =>
    if s.phase = .connecting ∧ s.stratum.curl.isSome then some (s.checkSwitch { s with phase := .session })
    else none
  | .line =>
    if s.phase = .session then
      some (s.checkSwitch { s with
        heard := s.heard ++ [⟨s.pooln, s.stratum.curl, s.stratum.curl.any (· ∈ s.opened)⟩]
        phase := .top })
    else none
  | .lost => if s.phase = .session then some (s.checkSwitch { s.disconnect with phase := .top }) else none

def handleStart (cfg : HandleConfig) (first : Nat) : HandleState where
  stratum := ⟨false, none⟩
  pools := fun _ => ⟨false, none⟩
  curPooln := first
  leaving := none
  switchCount := 0
  needReset := false
  queued := if cfg.isStratum first then 1 else 0
  pooln := 0
  switchn := 0
  phase := .waitUrl
  next := 0
  opened := ∅
  target := fun _ => 0
  faulted := false
  heard := []

section Kept

variable (cfg : HandleConfig) (s : HandleState)

/-- The pool whose context is the shared one. -/
def HandleState.inUse : Nat := s.leaving.getD s.curPooln

/-- The handle that belongs to pool `n`. -/
def HandleState.own (n : Nat) : Option Nat :=
  if n = s.inUse ∧ cfg.isStratum n = true then s.stratum.curl else (s.pools n).curl

/-- The thread works for the pool whose context is the shared one. -/
def HandleState.Attends : Prop := s.pooln = s.inUse ∧ cfg.isStratum s.pooln = true

/-- Every open handle belongs to one pool and is open at its address, none is
closed twice, a thread that has seen every switch works for the pool in use, and
each line comes over an open handle of the pool it is handled for. -/
structure HandlesKept : Prop where
  custody : Custody (s.own cfg) s.opened
  target : ∀ n curl, s.own cfg n = some curl → s.target curl = n
  safe : s.faulted = false
  attached : s.phase ≠ .waitUrl → s.switchn = s.switchCount → s.Attends cfg
  heard : ∀ l ∈ s.heard, l.isOpen = true ∧ ∃ curl, l.curl = some curl ∧ s.target curl = l.pooln

/-- There is nothing to close in the shared context that another one holds. -/
def HandleState.Closes : Prop := s.stratum.curl = none ∨ cfg.isStratum s.inUse = true

/-- A thread that notices a switch has not come back to the same pool with an
old copy of its handle. -/
def HandleState.Notices : Prop := s.switchn ≠ s.switchCount → s.Attends cfg → (s.pools s.pooln).curl = none

def SwitchesInTime : HandleEvent → Prop
  | .load => ∀ prevn, s.leaving = some prevn → prevn ≠ s.curPooln → cfg.isStratum prevn = true →
      (s.pools prevn).curl = s.stratum.curl
  | .pop => s.inUse = s.curPooln ∧ cfg.isStratum s.curPooln = true
  | .top => s.needReset = true → s.stratum.url = true → s.Closes cfg
  | .init true | .dialled false => s.Attends cfg
  | .init false | .disconnect => s.Closes cfg
  | .reconnect => if s.phase = .handshake then s.Closes cfg else s.Notices cfg
  | .retry | .enter | .line | .lost => s.Notices cfg
  | _ => True

end Kept

/-- What holds whatever the thread closes. -/
structure HandleInv (s : HandleState) : Prop where
  fresh : ∀ curl ∈ s.opened, curl < s.next
  shared : ∀ curl, s.stratum.curl = some curl → curl < s.next
  pools : ∀ n curl, (s.pools n).curl = some curl → curl < s.next
  seen : s.switchn ≤ s.switchCount
  dialling : ∀ curl, s.phase = .dialling curl → curl ∈ s.opened ∧ s.target curl = s.pooln
  session : s.phase = .session → s.switchn = s.switchCount → s.stratum.curl.isSome = true
  heard : ∀ l ∈ s.heard, ∀ curl, l.curl = some curl → curl < s.next

section Steps

variable {cfg : HandleConfig} {s s' : HandleState} {e : HandleEvent}

namespace HandleState

theorem cleanup_eq (s : HandleState) (curl : Option Nat) : ∃ opened faulted,
    opened ⊆ s.opened ∧ s.cleanup curl = { s with opened := opened, faulted := faulted } := by
  cases curl with
  | none => exact ⟨s.opened, s.faulted, subset_rfl, rfl⟩
  | some curl =>
    rw [cleanup]
    split_ifs
    · exact ⟨_, s.faulted, Finset.erase_subset curl s.opened, rfl⟩
    · exact ⟨s.opened, true, subset_rfl, rfl⟩

theorem disconnect_eq (s : HandleState) : ∃ opened faulted, opened ⊆ s.opened ∧
    s.disconnect = { s with stratum := ⟨s.stratum.url, none⟩, opened := opened, faulted := faulted } := by
  obtain ⟨opened, faulted, hopened, heq⟩ := s.cleanup_eq s.stratum.curl
  exact ⟨opened, faulted, hopened, by rw [disconnect, heq]; rfl⟩

theorem disconnectPool_eq (s : HandleState) (n : Nat) : ∃ opened faulted, opened ⊆ s.opened ∧
    s.disconnectPool n = { s with
      pools := Function.update s.pools n ⟨(s.pools n).url, none⟩, opened := opened, faulted := faulted } := by
  obtain ⟨opened, faulted, hopened, heq⟩ := s.cleanup_eq (s.pools n).curl
  exact ⟨opened, faulted, hopened, by rw [disconnectPool, heq]⟩

theorem cleanup_of_mem {curl : Nat} (h : curl ∈ s.opened) :
    s.cleanup (some curl) = { s with opened := s.opened.erase curl } := by
  rw [cleanup, if_pos h]

theorem faulted_cleanup_of_notMem {curl : Nat} (h : curl ∉ s.opened) : (s.cleanup (some curl)).faulted = true := by
  rw [cleanup, if_neg h]

end HandleState

namespace HandleInv

/-- The thread moves on, and may close what is open. -/
theorem move (h : HandleInv s) {opened : Finset Nat} (hopened : opened ⊆ s.opened) (ctx : CurlCtx)
    (hctx : ctx.curl = none ∨ ctx.curl = s.stratum.curl) (phase : ConnPhase) (hphase : phase.idle = true)
    (faulted needReset : Bool) :
    HandleInv { s with
      opened := opened, faulted := faulted, stratum := ctx, needReset := needReset, phase := phase } := by
  refine ⟨fun curl hcurl => h.fresh curl (hopened hcurl), ?_, h.pools, h.seen, ?_, ?_, h.heard⟩
  · intro curl hcurl
    rcases hctx with hnone | hsame
    · rw [hnone] at hcurl
      cases hcurl
    · exact h.shared curl (hsame ▸ hcurl)
  · rintro curl rfl
    cases hphase
  · rintro rfl
    cases hphase

theorem poolSwitched (h : HandleInv s) : HandleInv s.poolSwitched := by
  obtain ⟨opened, faulted, hopened, heq⟩ := s.disconnectPool_eq s.pooln
  have hpools (n curl : Nat) :
      (Function.update s.pools s.pooln ⟨(s.pools s.pooln).url, none⟩ n).curl = some curl → curl < s.next := by
    by_cases hn : n = s.pooln
    · subst hn
      rw [Function.update_self]
      rintro ⟨⟩
    · rw [Function.update_of_ne hn]
      exact h.pools n curl
  rw [HandleState.poolSwitched, heq]
  exact { h.move hopened { s.stratum with url := false } (Or.inr rfl) .waitUrl rfl faulted s.needReset with
    pools := hpools }

theorem checkSwitch (h : HandleInv s) (hnext : s.switchn = s.switchCount → HandleInv s') :
    HandleInv (s.checkSwitch s') := by
  rw [HandleState.checkSwitch]
  split_ifs with hseen
  · exact h.poolSwitched
  · exact hnext (not_not.mp hseen)

theorem save (h : HandleInv s) (n : Nat) : HandleInv (s.save cfg n) := by
  have hpools (m curl : Nat) : (s.savedPools cfg m).curl = some curl → curl < s.next := by
    rw [HandleState.savedPools]
    split_ifs
    · by_cases hm : m = s.curPooln
      · subst hm
        rw [Function.update_self]
        exact h.shared curl
      · rw [Function.update_of_ne hm]
        exact h.pools m curl
    · exact h.pools m curl
  rw [HandleState.save]
  split_ifs
  · exact { h with pools := hpools }
  · exact { h with pools := hpools }

theorem load (h : HandleInv s) (prevn : Nat) : HandleInv (s.load cfg prevn) := by
  have hseen : s.switchn ≤ s.switchCount + 1 := h.seen.trans (Nat.le_succ _)
  have hunseen : s.switchn ≠ s.switchCount + 1 := by
    have := h.seen
    omega
  simp only [HandleState.load]
  split_ifs
  · exact { h with }
  · exact { h with shared := fun curl => h.pools _ curl, seen := hseen, session := fun _ hs => absurd hs hunseen }
  · exact { h with seen := hseen, session := fun _ hs => absurd hs hunseen }

theorem reset (h : HandleInv s) : HandleInv { s.reset with phase := .connecting } := by
  simp only [HandleState.reset]
  split_ifs
  · obtain ⟨opened, faulted, hopened, heq⟩ := ({ s with needReset := false } : HandleState).disconnect_eq
    rw [heq]
    exact h.move hopened ⟨s.stratum.url, none⟩ (Or.inl rfl) .connecting rfl faulted false
  · exact h.move subset_rfl ⟨true, s.stratum.curl⟩ (Or.inr rfl) .connecting rfl s.faulted false
  · exact h.move subset_rfl s.stratum (Or.inr rfl) .connecting rfl s.faulted s.needReset

theorem disconnect (h : HandleInv s) (url : Bool) (phase : ConnPhase) (hphase : phase.idle = true) :
    HandleInv { (s.setUrl url).disconnect with phase := phase } := by
  obtain ⟨opened, faulted, hopened, heq⟩ := (s.setUrl url).disconnect_eq
  rw [heq]
  exact h.move hopened ⟨url, none⟩ (Or.inl rfl) phase hphase faulted s.needReset

theorem connectInit (h : HandleInv s) (ok : Bool) : HandleInv (s.connectInit ok) := by
  obtain ⟨opened, faulted, hopened, heq⟩ := s.cleanup_eq s.stratum.curl
  have hold {curl : Nat} (hcurl : curl < s.next) : curl < s.next + 1 := hcurl.trans (Nat.lt_succ_self _)
  simp only [HandleState.connectInit, heq]
  split_ifs
  · refine ⟨fun curl hcurl => ?_, fun curl hcurl => ?_, fun n curl hcurl => hold (h.pools n curl hcurl), h.seen,
      fun curl hcurl => ?_, ?_, fun l hl curl hcurl => hold (h.heard l hl curl hcurl)⟩
    · rcases Finset.mem_insert.mp hcurl with rfl | hcurl
      · exact Nat.lt_succ_self _
      · exact hold (h.fresh curl (hopened hcurl))
    · cases hcurl
      exact Nat.lt_succ_self _
    · cases hcurl
      exact ⟨Finset.mem_insert_self _ _, Function.update_self _ _ _⟩
    · rintro ⟨⟩
  · exact h.move hopened ⟨s.stratum.url, none⟩ (Or.inl rfl) .refused rfl faulted s.needReset

theorem dialFailed (h : HandleInv s) (curl : Nat) :
    HandleInv { (s.cleanup (some curl)).setCurl none with phase := .refused } := by
  obtain ⟨opened, faulted, hopened, heq⟩ := s.cleanup_eq (some curl)
  rw [heq]
  exact h.move hopened ⟨s.stratum.url, none⟩ (Or.inl rfl) .refused rfl faulted s.needReset

end HandleInv

theorem handleStep_inv (h : HandleInv s) (hstep : handleStep cfg s e = some s') : HandleInv s' := by
  cases e with
  | save n =>
    simp only [handleStep] at hstep
    split_ifs at hstep
    cases hstep
    exact h.save n
  | load =>
    obtain ⟨prevn, _, rfl⟩ := Option.map_eq_some_iff.mp hstep
    exact h.load prevn
  | announced =>
    cases hstep
    exact { h with }
  | pop =>
    simp only [handleStep] at hstep
    split_ifs at hstep
    cases hstep
    refine ⟨h.fresh, h.shared, h.pools, le_rfl, ?_, ?_, h.heard⟩
    · rintro curl ⟨⟩
    · rintro ⟨⟩
  | top =>
    simp only [handleStep] at hstep
    split_ifs at hstep
    cases hstep
    exact h.reset
  | test =>
    simp only [handleStep] at hstep
    split_ifs at hstep
    cases hstep
    exact h.move subset_rfl _ (Or.inr rfl) _ rfl s.faulted s.needReset
  | init ok =>
    simp only [handleStep] at hstep
    split_ifs at hstep
    cases hstep
    exact h.connectInit ok
  | dialled up =>
    simp only [handleStep] at hstep
    split at hstep
    · split_ifs at hstep
      · cases hstep
        exact h.move subset_rfl _ (Or.inr rfl) _ rfl s.faulted s.needReset
      · cases hstep
        exact h.dialFailed _
    · cases hstep
  | hello ok =>
    simp only [handleStep] at hstep
    split at hstep
    · cases hstep
      exact h.move subset_rfl s.stratum (Or.inr rfl) _ (by cases ok <;> rfl) s.faulted s.needReset
    · cases hstep
  | reconnect =>
    simp only [handleStep] at hstep
    split at hstep
    next hphase =>
      cases hstep
      obtain ⟨opened, faulted, hopened, heq⟩ := (s.setUrl true).disconnect_eq
      rw [heq]
      exact h.move hopened ⟨true, none⟩ (Or.inl rfl) s.phase (by rw [hphase]; rfl) faulted s.needReset
    · cases hstep
      exact h.checkSwitch fun _ => h.disconnect true _ rfl
    · cases hstep
  | disconnect =>
    simp only [handleStep] at hstep
    split_ifs at hstep
    cases hstep
    exact h.disconnect s.stratum.url _ rfl
  | retry =>
    simp only [handleStep] at hstep
    split_ifs at hstep
    cases hstep
    exact h.checkSwitch fun _ => h.move subset_rfl _ (Or.inr rfl) _ rfl s.faulted s.needReset
  | giveUp =>
    simp only [handleStep] at hstep
    split_ifs at hstep
    cases hstep
    exact h.move subset_rfl _ (Or.inr rfl) _ rfl s.faulted s.needReset
  | enter =>
    simp only [handleStep] at hstep
    split_ifs at hstep with hcurl
    cases hstep
    refine h.checkSwitch fun _ => { h with dialling := ?_, session := fun _ _ => hcurl.2 }
    rintro curl ⟨⟩
  | line =>
    simp only [handleStep] at hstep
    split_ifs at hstep
    cases hstep
    refine h.checkSwitch fun _ =>
      { h.move subset_rfl s.stratum (Or.inr rfl) .top rfl s.faulted s.needReset with heard := ?_ }
    intro l hl curl hcurl
    rcases List.mem_append.mp hl with hl | hl
    · exact h.heard l hl curl hcurl
    · rw [List.mem_singleton.mp hl] at hcurl
      exact h.shared curl hcurl
  | lost =>
    simp only [handleStep] at hstep
    split_ifs at hstep
    cases hstep
    exact h.checkSwitch fun _ => h.disconnect s.stratum.url _ rfl

namespace HandleState

theorem own_inUse (hst : cfg.isStratum s.inUse = true) : s.own cfg s.inUse = s.stratum.curl := if_pos ⟨rfl, hst⟩

theorem own_of_not {n : Nat} (hn : ¬ (n = s.inUse ∧ cfg.isStratum n = true)) : s.own cfg n = (s.pools n).curl :=
  if_neg hn

/-- The shared context changes, and with it the handle of the pool in use. -/
theorem own_shared (hin : s'.inUse = s.inUse) (hpools : s'.pools = s.pools) (hst : cfg.isStratum s.inUse = true) :
    s'.own cfg = Function.update (s.own cfg) s.inUse s'.stratum.curl := by
  funext n
  by_cases hn : n = s.inUse
  · subst hn
    rw [Function.update_self, own, if_pos ⟨hin.symm, hst⟩]
  · rw [Function.update_of_ne hn, own_of_not (fun h => hn h.1), own_of_not (fun h => hn (h.1.trans hin)), hpools]

/-- Where a wallet is in use, the shared context belongs to no pool. -/
theorem own_wallet (hin : s'.inUse = s.inUse) (hpools : s'.pools = s.pools) (hst : ¬ cfg.isStratum s.inUse = true) :
    s'.own cfg = s.own cfg := by
  funext n
  rw [own_of_not, own_of_not, hpools]
  · rintro ⟨rfl, h⟩
    exact hst h
  · rintro ⟨rfl, h⟩
    exact hst (hin ▸ h)

theorem own_congr (hin : s'.inUse = s.inUse) (hpools : s'.pools = s.pools)
    (hcurl : s'.stratum.curl = s.stratum.curl) : s'.own cfg = s.own cfg := by
  funext n
  rw [own, own, hin, hpools, hcurl]

theorem own_kept {n : Nat} {ctx : CurlCtx} (hin : s'.inUse = s.inUse) (hcurl : s'.stratum.curl = s.stratum.curl)
    (hpools : s'.pools = Function.update s.pools n ctx) (hn : ¬ (n = s.inUse ∧ cfg.isStratum n = true)) :
    s'.own cfg = Function.update (s.own cfg) n ctx.curl := by
  funext m
  by_cases hm : m = n
  · subst hm
    rw [Function.update_self, own_of_not (by rwa [hin]), hpools, Function.update_self]
  · rw [Function.update_of_ne hm, own, own, hin, hpools, hcurl, Function.update_of_ne hm]

/-- The context kept for the pool in use is an old copy. -/
theorem own_copy {n : Nat} {ctx : CurlCtx} (hin : s'.inUse = s.inUse) (hcurl : s'.stratum.curl = s.stratum.curl)
    (hpools : s'.pools = Function.update s.pools n ctx) (hn : n = s.inUse ∧ cfg.isStratum n = true) :
    s'.own cfg = s.own cfg := by
  funext m
  by_cases hm : m = n
  · subst hm
    rw [own, own, hin, hcurl, if_pos hn, if_pos hn]
  · rw [own, own, hin, hcurl, hpools, Function.update_of_ne hm]

/-- Closing a handle is sound when it was open, and what is left is in custody. -/
theorem cleanup_iff (hsafe : s.faulted = false) (holds : Nat → Option Nat) {curl : Nat} :
    Custody holds (s.cleanup (some curl)).opened ∧ (s.cleanup (some curl)).faulted = false ↔
      curl ∈ s.opened ∧ Custody holds (s.opened.erase curl) := by
  by_cases hcurl : curl ∈ s.opened
  · rw [cleanup_of_mem hcurl]
    exact ⟨fun h => ⟨hcurl, h.1⟩, fun h => ⟨h.2, hsafe⟩⟩
  · refine iff_of_false (fun h => ?_) (fun h => hcurl h.1)
    rw [faulted_cleanup_of_notMem hcurl] at h
    cases h.2

end HandleState

namespace HandlesKept

/-- Where no pool gets another handle, only custody and safety are in question. -/
theorem iff_custody (h : HandlesKept cfg s)
    (hown : ∀ n curl, s'.own cfg n = some curl → s.own cfg n = some curl) (htarget : s'.target = s.target)
    (hattached : s'.phase ≠ .waitUrl → s'.switchn = s'.switchCount → s'.Attends cfg)
    (hheard : s'.heard = s.heard) : HandlesKept cfg s' ↔ Custody (s'.own cfg) s'.opened ∧ s'.faulted = false := by
  refine ⟨fun h' => ⟨h'.custody, h'.safe⟩, fun h' => ⟨h'.1, fun n curl hcurl => ?_, h'.2, hattached, ?_⟩⟩
  · rw [htarget]
    exact h.target n curl (hown n curl hcurl)
  · rw [hheard, htarget]
    exact h.heard

/-- Nothing about the handles changes. -/
theorem congr (h : HandlesKept cfg s) (hown : s'.own cfg = s.own cfg) (hopened : s'.opened = s.opened)
    (htarget : s'.target = s.target) (hsafe : s'.faulted = s.faulted)
    (hattached : s'.phase ≠ .waitUrl → s'.switchn = s'.switchCount → s'.Attends cfg)
    (hheard : s'.heard = s.heard) : HandlesKept cfg s' := by
  refine (h.iff_custody (fun n curl hcurl => hown ▸ hcurl) htarget hattached hheard).mpr ⟨?_, ?_⟩
  · rw [hown, hopened]
    exact h.custody
  · rw [hsafe]
    exact h.safe

theorem move (h : HandlesKept cfg s) (hphase : s.phase ≠ .waitUrl) (phase : ConnPhase) :
    HandlesKept cfg { s with phase := phase } :=
  h.congr rfl rfl rfl rfl (fun _ => h.attached hphase) rfl

/-- A handle is closed and what names it is overwritten. -/
theorem close_iff (h : HandlesKept cfg s) {curl : Nat} {ctx : CurlCtx} {pools : Nat → CurlCtx} {phase : ConnPhase}
    (hs' : s' = { s.cleanup (some curl) with stratum := ctx, pools := pools, phase := phase })
    (hphase : phase = .waitUrl ∨ s.phase ≠ .waitUrl)
    (hown : ∀ n curl, s'.own cfg n = some curl → s.own cfg n = some curl) :
    HandlesKept cfg s' ↔ curl ∈ s.opened ∧ Custody (s'.own cfg) (s.opened.erase curl) := by
  obtain ⟨opened, faulted, _, heq⟩ := s.cleanup_eq (some curl)
  rw [h.iff_custody hown, ← HandleState.cleanup_iff h.safe, hs']
  · rw [hs', heq]
  · rw [hs', heq]
    intro hp
    exact h.attached (hphase.resolve_left hp)
  · rw [hs', heq]

theorem not_erase_own (h : HandlesKept cfg s) {curl : Nat} (hopen : curl ∈ s.opened) :
    ¬ Custody (s.own cfg) (s.opened.erase curl) := by
  obtain ⟨n, hn⟩ := (h.custody.held curl).mp hopen
  exact Custody.not_erase hn

theorem forget_iff (h : HandlesKept cfg s) (hphase : s.phase ≠ .waitUrl) (curl : Nat) (phase : ConnPhase) :
    HandlesKept cfg { (s.cleanup (some curl)).setCurl none with phase := phase } ↔
      curl ∈ s.opened ∧ cfg.isStratum s.inUse = true ∧ s.stratum.curl = some curl := by
  obtain ⟨opened, faulted, _, heq⟩ := s.cleanup_eq (some curl)
  generalize hs' : { (s.cleanup (some curl)).setCurl none with phase := phase } = s'
  have hclosed : s' = { s.cleanup (some curl) with
      stratum := ⟨s.stratum.url, none⟩, pools := s.pools, phase := phase } := by
    rw [← hs', heq]
    rfl
  have hin : s'.inUse = s.inUse := by
    rw [hclosed, heq]
    rfl
  have hnone : s'.stratum.curl = none := by rw [hclosed]
  have hpools : s'.pools = s.pools := by rw [hclosed]
  by_cases hst : cfg.isStratum s.inUse = true
  · have hown : s'.own cfg = Function.update (s.own cfg) s.inUse none := by
      rw [HandleState.own_shared hin hpools hst, hnone]
    rw [h.close_iff hclosed (Or.inr hphase), hown]
    · refine and_congr_right fun hopen => ?_
      rw [h.custody.take_iff hopen, HandleState.own_inUse hst]
      exact (and_iff_right hst).symm
    · intro n c hc
      by_cases hn : n = s.inUse
      · subst hn
        rw [hown, Function.update_self] at hc
        cases hc
      · rwa [hown, Function.update_of_ne hn] at hc
  · have hown : s'.own cfg = s.own cfg := HandleState.own_wallet hin hpools hst
    rw [h.close_iff hclosed (Or.inr hphase) (fun n c hc => hown ▸ hc), hown]
    exact and_congr_right fun hopen => iff_of_false (h.not_erase_own hopen) fun h => hst h.1

theorem disconnect_iff (h : HandlesKept cfg s) (hphase : s.phase ≠ .waitUrl) (phase : ConnPhase) :
    HandlesKept cfg { s.disconnect with phase := phase } ↔ s.Closes cfg := by
  cases hcurl : s.stratum.curl with
  | none =>
    rw [HandleState.disconnect, hcurl]
    refine iff_of_true (h.congr ?_ rfl rfl rfl (fun _ => h.attached hphase) rfl) (Or.inl hcurl)
    exact HandleState.own_congr rfl rfl hcurl.symm
  | some curl =>
    rw [HandleState.disconnect, hcurl, h.forget_iff hphase]
    constructor
    · rintro ⟨_, hst, _⟩
      exact Or.inr hst
    · rintro (hnone | hst)
      · rw [hcurl] at hnone
        cases hnone
      · exact ⟨h.custody.mem ((HandleState.own_inUse hst).trans hcurl), hst, hcurl⟩

theorem closes (h : HandlesKept cfg s) (hphase : s.phase ≠ .waitUrl) (hseen : s.switchn = s.switchCount) :
    s.Closes cfg := by
  obtain ⟨hin, hst⟩ := h.attached hphase hseen
  exact Or.inr (hin ▸ hst)

theorem reset_iff (h : HandlesKept cfg s) (hphase : s.phase ≠ .waitUrl) :
    HandlesKept cfg { s.reset with phase := .connecting } ↔
      (s.needReset = true → s.stratum.url = true → s.Closes cfg) := by
  by_cases hreset : s.needReset = true
  · rw [HandleState.reset, if_pos hreset]
    by_cases hurl : s.stratum.url = true
    · have hclosed : HandlesKept cfg { s with needReset := false } :=
        h.congr rfl rfl rfl rfl (fun _ => h.attached hphase) rfl
      dsimp only
      rw [if_pos hurl, hclosed.disconnect_iff hphase]
      exact ⟨fun h' _ _ => h', fun h' => h' hreset hurl⟩
    · dsimp only
      rw [if_neg hurl]
      exact iff_of_true (h.congr rfl rfl rfl rfl (fun _ => h.attached hphase) rfl) fun _ h' => absurd h' hurl
  · rw [HandleState.reset, if_neg hreset]
    exact iff_of_true (h.move hphase .connecting) fun h' => absurd h' hreset

/-- A handle that could not connect is closed by the one that opened it. -/
theorem dialFailed_iff (h : HandlesKept cfg s) (hI : HandleInv s) {curl : Nat} (hphase : s.phase = .dialling curl) :
    HandlesKept cfg { (s.cleanup (some curl)).setCurl none with phase := .refused } ↔ s.Attends cfg := by
  obtain ⟨hopen, htarget⟩ := hI.dialling curl hphase
  obtain ⟨n, hn⟩ := (h.custody.held curl).mp hopen
  obtain rfl : s.pooln = n := htarget.symm.trans (h.target n curl hn)
  rw [h.forget_iff (by rw [hphase]; rintro ⟨⟩)]
  constructor
  · rintro ⟨_, hst, hcurl⟩
    have hin : s.pooln = s.inUse := h.custody.once hn ((HandleState.own_inUse hst).trans hcurl)
    exact ⟨hin, hin ▸ hst⟩
  · rintro ⟨hin, hst⟩
    rw [hin] at hst hn
    exact ⟨hopen, hst, (HandleState.own_inUse hst).symm.trans hn⟩

theorem poolSwitched_iff (h : HandlesKept cfg s) :
    HandlesKept cfg s.poolSwitched ↔ (s.Attends cfg → (s.pools s.pooln).curl = none) := by
  obtain ⟨opened, faulted, _, heq⟩ := s.cleanup_eq (s.pools s.pooln).curl
  generalize hs' : s.poolSwitched = s'
  have hclosed : s' = { s.cleanup (s.pools s.pooln).curl with
      stratum := ⟨false, s.stratum.curl⟩
      pools := Function.update s.pools s.pooln ⟨(s.pools s.pooln).url, none⟩
      phase := .waitUrl } := by
    rw [← hs', HandleState.poolSwitched, HandleState.disconnectPool, heq]
    rfl
  have hin : s'.inUse = s.inUse := by
    rw [hclosed, heq]
    rfl
  have hcurl : s'.stratum.curl = s.stratum.curl := by rw [hclosed]
  have hpools : s'.pools = Function.update s.pools s.pooln ⟨(s.pools s.pooln).url, none⟩ := by rw [hclosed]
  by_cases hatt : s.Attends cfg
  · have hown : s'.own cfg = s.own cfg := HandleState.own_copy hin hcurl hpools hatt
    cases hkept : (s.pools s.pooln).curl with
    | none =>
      rw [hkept] at hclosed
      subst hclosed
      exact iff_of_true (h.congr hown rfl rfl rfl (fun hp => absurd rfl hp) rfl) fun _ => rfl
    | some curl =>
      rw [hkept] at hclosed
      rw [h.close_iff hclosed (Or.inl rfl) (fun n c hc => hown ▸ hc), hown]
      refine iff_of_false (fun h' => h.not_erase_own h'.1 h'.2) fun hnone => ?_
      cases hnone hatt
  · have hmine : s.own cfg s.pooln = (s.pools s.pooln).curl := HandleState.own_of_not hatt
    have hown : s'.own cfg = Function.update (s.own cfg) s.pooln none := HandleState.own_kept hin hcurl hpools hatt
    refine iff_of_true ?_ fun h' => absurd h' hatt
    cases hkept : (s.pools s.pooln).curl with
    | none =>
      rw [hkept] at hclosed hmine
      rw [← hmine, Function.update_eq_self] at hown
      subst hclosed
      exact h.congr hown rfl rfl rfl (fun hp => absurd rfl hp) rfl
    | some curl =>
      rw [hkept] at hclosed hmine
      refine (h.close_iff hclosed (Or.inl rfl) fun n c hc => ?_).mpr ⟨h.custody.mem hmine, ?_⟩
      · by_cases hn : n = s.pooln
        · subst hn
          rw [hown, Function.update_self] at hc
          cases hc
        · rwa [hown, Function.update_of_ne hn] at hc
      · rw [hown]
        exact (h.custody.take_iff (h.custody.mem hmine)).mpr hmine

theorem checkSwitch_iff (h : HandlesKept cfg s) (hnext : s.switchn = s.switchCount → HandlesKept cfg s') :
    HandlesKept cfg (s.checkSwitch s') ↔ s.Notices cfg := by
  rw [HandleState.checkSwitch]
  split_ifs with hseen
  · rw [h.poolSwitched_iff]
    exact ⟨fun h' _ => h', fun h' => h' hseen⟩
  · exact iff_of_true (hnext (not_not.mp hseen)) fun h' => absurd h' hseen

/-- A new handle belongs to the pool in use, if that is the thread's. -/
theorem dial (h : HandlesKept cfg s) (hI : HandleInv s) (hnone : s.stratum.curl = none) (hatt : s.Attends cfg) :
    HandlesKept cfg { s with
      stratum := ⟨true, some s.next⟩
      next := s.next + 1
      opened := insert s.next s.opened
      target := Function.update s.target s.next s.pooln
      phase := .dialling s.next } := by
  have hst : cfg.isStratum s.inUse = true := hatt.1 ▸ hatt.2
  have hfresh : s.next ∉ s.opened := fun hmem => Nat.lt_irrefl _ (hI.fresh _ hmem)
  generalize hs' : ({ s with
      stratum := ⟨true, some s.next⟩, next := s.next + 1, opened := insert s.next s.opened
      target := Function.update s.target s.next s.pooln, phase := .dialling s.next } : HandleState) = s'
  have hown : s'.own cfg = Function.update (s.own cfg) s.inUse (some s.next) := by
    subst hs'
    exact HandleState.own_shared rfl rfl hst
  have htarget {curl : Nat} (hlt : curl < s.next) : Function.update s.target s.next s.pooln curl = s.target curl :=
    Function.update_of_ne (Nat.ne_of_lt hlt) _ _
  subst hs'
  refine ⟨?_, fun n curl hcurl => ?_, h.safe, fun _ _ => hatt, fun l hl => ?_⟩
  · rw [hown]
    exact h.custody.put ((HandleState.own_inUse hst).trans hnone) hfresh
  · rw [hown] at hcurl
    by_cases hn : n = s.inUse
    · subst hn
      rw [Function.update_self] at hcurl
      cases hcurl
      exact (Function.update_self _ _ _).trans hatt.1
    · rw [Function.update_of_ne hn] at hcurl
      exact (htarget (hI.fresh _ (h.custody.mem hcurl))).trans (h.target n curl hcurl)
  · obtain ⟨hopen, curl, hcurl, hpool⟩ := h.heard l hl
    exact ⟨hopen, curl, hcurl, (htarget (hI.heard l hl curl hcurl)).trans hpool⟩

theorem connectInit_iff (h : HandlesKept cfg s) (hI : HandleInv s) (hphase : s.phase ≠ .waitUrl) :
    HandlesKept cfg (s.connectInit true) ↔ s.Attends cfg := by
  obtain ⟨opened, faulted, _, heq⟩ := s.cleanup_eq s.stratum.curl
  constructor
  · intro h'
    have hin : (s.connectInit true).inUse = s.inUse := by
      rw [HandleState.connectInit, heq]
      rfl
    have hpools : (s.connectInit true).pools = s.pools := by
      rw [HandleState.connectInit, heq]
      rfl
    have hcurl : (s.connectInit true).stratum.curl = some s.next := by
      rw [HandleState.connectInit, heq]
      rfl
    have hst : cfg.isStratum s.inUse = true := by
      by_contra hst
      have hmem : s.next ∈ (s.connectInit true).opened := by
        rw [HandleState.connectInit, heq]
        exact Finset.mem_insert_self _ _
      obtain ⟨n, hn⟩ := (h'.custody.held _).mp hmem
      rw [HandleState.own_wallet hin hpools hst] at hn
      exact Nat.lt_irrefl _ (hI.fresh _ (h.custody.mem hn))
    have htarget : (s.connectInit true).target s.next = s.pooln := by
      rw [HandleState.connectInit, heq]
      exact Function.update_self _ _ _
    have hpooln : s.pooln = s.inUse := by
      rw [← htarget, ← hin]
      exact h'.target _ _ ((HandleState.own_inUse (hin ▸ hst)).trans hcurl)
    exact ⟨hpooln, hpooln ▸ hst⟩
  · intro hatt
    have hclosed := (h.disconnect_iff hphase .starting).mpr (Or.inr (hatt.1 ▸ hatt.2))
    have hattends : HandleState.Attends cfg { s.disconnect with phase := .starting } := by
      obtain ⟨opened, faulted, _, heq⟩ := s.disconnect_eq
      rw [heq]
      exact hatt
    exact hclosed.dial (hI.disconnect s.stratum.url .starting rfl) rfl hattends

theorem save (h : HandlesKept cfg s) (hleaving : s.leaving = none) (n : Nat) : HandlesKept cfg (s.save cfg n) := by
  have hcur : s.curPooln = s.inUse := by rw [HandleState.inUse, hleaving, Option.getD_none]
  have hin : (s.save cfg n).inUse = s.inUse := by
    rw [HandleState.save]
    split_ifs
    · exact hcur
    · rfl
  have hstratum : (s.save cfg n).stratum = s.stratum := by
    rw [HandleState.save]
    split_ifs <;> rfl
  have hpools : (s.save cfg n).pools = s.savedPools cfg := by
    rw [HandleState.save]
    split_ifs <;> rfl
  have hown : (s.save cfg n).own cfg = s.own cfg := by
    by_cases hst : cfg.isStratum s.curPooln = true
    · rw [HandleState.savedPools, if_pos hst] at hpools
      exact HandleState.own_copy hin (congrArg CurlCtx.curl hstratum) hpools ⟨hcur, hst⟩
    · rw [HandleState.savedPools, if_neg hst] at hpools
      exact HandleState.own_congr hin hpools (congrArg CurlCtx.curl hstratum)
  refine h.congr hown ?_ ?_ ?_ ?_ ?_
  · rw [HandleState.save]
    split_ifs <;> rfl
  · rw [HandleState.save]
    split_ifs <;> rfl
  · rw [HandleState.save]
    split_ifs <;> rfl
  · rw [HandleState.Attends, hin, HandleState.save]
    split_ifs <;> exact h.attached
  · rw [HandleState.save]
    split_ifs <;> rfl

theorem load_iff (h : HandlesKept cfg s) (hI : HandleInv s) {prevn : Nat} (hprev : s.leaving = some prevn) :
    HandlesKept cfg (s.load cfg prevn) ↔
      (prevn ≠ s.curPooln → cfg.isStratum prevn = true → (s.pools prevn).curl = s.stratum.curl) := by
  have huse : s.inUse = prevn := by rw [HandleState.inUse, hprev, Option.getD_some]
  by_cases hsame : prevn = s.curPooln
  · refine iff_of_true ?_ fun hne => absurd hsame hne
    have hin : ({ s with leaving := none } : HandleState).inUse = s.inUse := by rw [huse, hsame]; rfl
    rw [HandleState.load, if_pos hsame]
    refine h.congr (HandleState.own_congr hin rfl rfl) rfl rfl rfl ?_ rfl
    rw [HandleState.Attends, hin]
    exact h.attached
  · generalize hs' : s.load cfg prevn = s'
    have hload : s' = { s with
        leaving := none, switchCount := s.switchCount + 1, needReset := true
        stratum := if cfg.isStratum s.curPooln then s.pools s.curPooln else s.stratum
        queued := if cfg.isStratum s.curPooln then s.queued + 1 else s.queued } := by
      rw [← hs', HandleState.load, if_neg hsame]
      dsimp only
      split_ifs <;> rfl
    have hload' : s'.switchn ≠ s'.switchCount ∧ s'.opened = s.opened ∧ s'.target = s.target ∧
        s'.faulted = s.faulted ∧ s'.heard = s.heard := by
      have := hI.seen
      rw [hload]
      exact ⟨by dsimp only; omega, rfl, rfl, rfl, rfl⟩
    obtain ⟨hunseen, hopened, htarget, hsafe, hheard⟩ := hload'
    have hown (n : Nat) : s'.own cfg n = (s.pools n).curl := by
      rw [hload]
      by_cases hn : n = s.curPooln ∧ cfg.isStratum n = true
      · obtain ⟨rfl, hst⟩ := hn
        rw [if_pos hst]
        exact HandleState.own_inUse hst
      · exact HandleState.own_of_not hn
    have hcongr (hsaved : s'.own cfg = s.own cfg) : HandlesKept cfg s' :=
      h.congr hsaved hopened htarget hsafe (fun _ hseen => absurd hseen hunseen) hheard
    by_cases hst : cfg.isStratum prevn = true
    · have hmine : s.own cfg prevn = s.stratum.curl := by
        rw [← huse] at hst ⊢
        exact HandleState.own_inUse hst
      have hupdate : s'.own cfg = Function.update (s.own cfg) prevn (s.pools prevn).curl := by
        funext n
        rw [hown]
        by_cases hn : n = prevn
        · rw [hn, Function.update_self]
        · rw [Function.update_of_ne hn, HandleState.own_of_not fun h => hn (h.1.trans huse)]
      constructor
      · intro h' _ _
        have hcustody := h'.custody
        rw [hupdate, hopened] at hcustody
        exact (h.custody.update_iff.mp hcustody).trans hmine
      · intro hsaved
        apply hcongr
        rw [hupdate, hsaved hsame hst, ← hmine, Function.update_eq_self]
    · refine iff_of_true (hcongr (funext fun n => ?_)) fun _ hst' => absurd hst' hst
      rw [hown, HandleState.own_of_not]
      rintro ⟨rfl, hst'⟩
      exact hst (huse ▸ hst')

/-- A line that is handled came over the handle of the thread's pool. -/
theorem line (h : HandlesKept cfg s) (hI : HandleInv s) (hphase : s.phase = .session)
    (hseen : s.switchn = s.switchCount) : HandlesKept cfg { s with
      heard := s.heard ++ [⟨s.pooln, s.stratum.curl, s.stratum.curl.any (· ∈ s.opened)⟩], phase := .top } := by
  have hatt : s.Attends cfg := h.attached (by rw [hphase]; rintro ⟨⟩) hseen
  obtain ⟨curl, hcurl⟩ := Option.isSome_iff_exists.mp (hI.session hphase hseen)
  have hmine : s.own cfg s.pooln = some curl := (if_pos hatt).trans hcurl
  refine ⟨h.custody, h.target, h.safe, fun _ _ => hatt, fun l hl => ?_⟩
  rcases List.mem_append.mp hl with hl | hl
  · exact h.heard l hl
  · rw [List.mem_singleton.mp hl, hcurl]
    exact ⟨by simpa using h.custody.mem hmine, curl, rfl, h.target _ _ hmine⟩

end HandlesKept

theorem handlesKept_step_iff (hI : HandleInv s) (h : HandlesKept cfg s) (hstep : handleStep cfg s e = some s') :
    HandlesKept cfg s' ↔ SwitchesInTime cfg s e := by
  cases e with
  | save n =>
    simp only [handleStep] at hstep
    split_ifs at hstep with hleaving
    cases hstep
    exact iff_of_true (h.save hleaving n) trivial
  | load =>
    obtain ⟨prevn, hprev, rfl⟩ := Option.map_eq_some_iff.mp hstep
    rw [h.load_iff hI hprev, SwitchesInTime, hprev]
    simp
  | announced =>
    cases hstep
    exact iff_of_true (h.congr rfl rfl rfl rfl h.attached rfl) trivial
  | pop =>
    simp only [handleStep] at hstep
    split_ifs at hstep
    cases hstep
    constructor
    · intro h'
      have hatt := h'.attached (by rintro ⟨⟩) rfl
      exact ⟨hatt.1.symm, hatt.2⟩
    · intro hcur
      exact h.congr rfl rfl rfl rfl (fun _ _ => ⟨hcur.1.symm, hcur.2⟩) rfl
  | top =>
    simp only [handleStep] at hstep
    split_ifs at hstep with hphase
    cases hstep
    exact h.reset_iff (by rw [hphase]; rintro ⟨⟩)
  | test =>
    simp only [handleStep] at hstep
    split_ifs at hstep with hphase
    cases hstep
    exact iff_of_true (h.move (by rw [hphase.1]; rintro ⟨⟩) .starting) trivial
  | init ok =>
    simp only [handleStep] at hstep
    split_ifs at hstep with hphase
    cases hstep
    have hwait : s.phase ≠ .waitUrl := by rw [hphase]; rintro ⟨⟩
    cases ok with
    | true => exact h.connectInit_iff hI hwait
    | false => exact h.disconnect_iff hwait .refused
  | dialled up =>
    simp only [handleStep] at hstep
    split at hstep
    next curl hphase =>
      cases up with
      | true =>
        cases hstep
        exact iff_of_true (h.move (by rw [hphase]; rintro ⟨⟩) .handshake) trivial
      | false =>
        cases hstep
        exact h.dialFailed_iff hI hphase
    · cases hstep
  | hello ok =>
    simp only [handleStep] at hstep
    split at hstep
    next hphase =>
      cases hstep
      exact iff_of_true (h.move (by rw [hphase]; rintro ⟨⟩) _) trivial
    · cases hstep
  | reconnect =>
    have hurl (hphase : s.phase ≠ .waitUrl) : HandlesKept cfg (s.setUrl true) :=
      h.congr rfl rfl rfl rfl (fun _ => h.attached hphase) rfl
    simp only [handleStep] at hstep
    split at hstep
    next hphase =>
      have hwait : s.phase ≠ .waitUrl := by rw [hphase]; rintro ⟨⟩
      have hsame : { (s.setUrl true).disconnect with phase := .handshake } = (s.setUrl true).disconnect := by
        obtain ⟨opened, faulted, _, heq⟩ := (s.setUrl true).disconnect_eq
        rw [heq]
        simp only [HandleState.setUrl, hphase]
      cases hstep
      rw [← hsame, (hurl hwait).disconnect_iff hwait, SwitchesInTime, if_pos hphase]
      rfl
    next hphase =>
      have hwait : s.phase ≠ .waitUrl := by rw [hphase]; rintro ⟨⟩
      cases hstep
      rw [SwitchesInTime, if_neg (by rw [hphase]; rintro ⟨⟩)]
      exact h.checkSwitch_iff fun hseen => ((hurl hwait).disconnect_iff hwait .top).mpr (h.closes hwait hseen)
    · cases hstep
  | disconnect =>
    simp only [handleStep] at hstep
    split_ifs at hstep with hphase
    cases hstep
    exact h.disconnect_iff (by rw [hphase]; rintro ⟨⟩) .failed
  | retry =>
    simp only [handleStep] at hstep
    split_ifs at hstep with hphase
    cases hstep
    exact h.checkSwitch_iff fun _ => h.move (by rw [hphase]; rintro ⟨⟩) .connecting
  | giveUp =>
    simp only [handleStep] at hstep
    split_ifs at hstep with hphase
    cases hstep
    exact iff_of_true (h.move (by rw [hphase]; rintro ⟨⟩) .out) trivial
  | enter =>
    simp only [handleStep] at hstep
    split_ifs at hstep with hphase
    cases hstep
    exact h.checkSwitch_iff fun _ => h.move (by rw [hphase.1]; rintro ⟨⟩) .session
  | line =>
    simp only [handleStep] at hstep
    split_ifs at hstep with hphase
    cases hstep
    exact h.checkSwitch_iff fun hseen => h.line hI hphase hseen
  | lost =>
    simp only [handleStep] at hstep
    split_ifs at hstep with hphase
    cases hstep
    have hwait : s.phase ≠ .waitUrl := by rw [hphase]; rintro ⟨⟩
    exact h.checkSwitch_iff fun hseen => (h.disconnect_iff hwait .top).mpr (h.closes hwait hseen)

end Steps

theorem handleStart_inv (cfg : HandleConfig) (first : Nat) : HandleInv (handleStart cfg first) := by
  refine ⟨fun curl hcurl => ?_, fun curl hcurl => ?_, fun n curl hcurl => ?_, le_rfl, fun curl hcurl => ?_,
    fun hphase => ?_, fun l hl => ?_⟩
  · cases hcurl
  · cases hcurl
  · cases hcurl
  · cases hcurl
  · cases hphase
  · cases hl

theorem handleStart_kept (cfg : HandleConfig) (first : Nat) : HandlesKept cfg (handleStart cfg first) := by
  have hown : (handleStart cfg first).own cfg = fun _ => none := by
    funext n
    rw [HandleState.own]
    split_ifs <;> rfl
  refine ⟨?_, fun n curl hcurl => ?_, rfl, fun hphase => absurd rfl hphase, fun l hl => ?_⟩
  · rw [hown]
    exact Custody.empty
  · rw [hown] at hcurl
    cases hcurl
  · cases hl

/-- In every order of pool switches and steps of the thread the handles are
kept exactly as long as every switch comes in time. -/
theorem run_handlesKept_iff (cfg : HandleConfig) (first : Nat) {events : List HandleEvent} {s : HandleState}
    (hrun : run (handleStep cfg) (handleStart cfg first) events = some s) :
    Throughout (handleStep cfg) (HandlesKept cfg) (handleStart cfg first) events ↔
      Along (handleStep cfg) (SwitchesInTime cfg) (handleStart cfg first) events :=
  throughout_iff_along (fun hI hstep => handleStep_inv hI hstep) (fun hI h hstep => handlesKept_step_iff hI h hstep)
    hrun (handleStart_inv cfg first) (handleStart_kept cfg first)

def stratumPools : HandleConfig where
  isStratum := fun _ => true
  numPools := 2

/-- The second pool is switched to while the first is dialled. -/
def switchedDial (up : Bool) : List HandleEvent := [.pop, .top, .test, .init true, .save 1, .load, .dialled up]

/-- The handle that could not connect stays in the first pool's context. -/
theorem run_handlesKept_switched :
    ¬ Throughout (handleStep stratumPools) (HandlesKept stratumPools) (handleStart stratumPools 0) (switchedDial false) := by
  rw [run_handlesKept_iff stratumPools 0 rfl]
  intro h
  have hlate : SwitchesInTime stratumPools _ (.dialled false) :=
    ((((((h.2 _ rfl).2 _ rfl).2 _ rfl).2 _ rfl).2 _ rfl).2 _ rfl).1
  exact absurd hlate.1 (by decide)

/-- Noticed, it is closed a second time. -/
example : (run (handleStep stratumPools) (handleStart stratumPools 0) (switchedDial false ++ [.disconnect, .retry])).map
    (fun s => s.faulted) = some true := by decide

end VerusMiner
