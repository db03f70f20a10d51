import VerusMiner.WorkRequest
import VerusMiner.Lib.Runs

/-! What a step can do to the requests, the replies and the queues, said once. -/

namespace VerusMiner

/-- The request that the workio thread has taken and not yet answered. -/
def ServerPc.inHand : ServerPc → Option WorkioCmd
  | .getting c _ | .submitting c _ | .comparing c _ | .sending c _ | .failed c | .failover c _
  | .replying c _ => some c
  | .idle | .stopped | .crashed => none

@[simp] theorem inHand_idle : ServerPc.inHand .idle = none := rfl

@[simp] theorem inHand_stopped : ServerPc.inHand .stopped = none := rfl

@[simp] theorem inHand_crashed : ServerPc.inHand .crashed = none := rfl

/-- Work is got for a request, a share is what is submitted, and no answer is
waited for. -/
def ServerPc.Fits : ServerPc → Prop
  | .getting (.getWork ..) _ | .submitting (.submitWork ..) _ | .comparing (.submitWork ..) _
  | .sending (.submitWork ..) _ => True
  | .getting _ _ | .submitting _ _ | .comparing _ _ | .sending _ _ | .failover _ .waiting => False
  | _ => True

/-- The steps on a request or a share that is in hand, up to its failure. -/
def RequestEvent.serves : RequestEvent → Bool
  | .fetch _ | .submit _ _ | .compare _ | .send _ => true
  | _ => false

/-- Nothing is posted, answered or taken. -/
structure Quiet (s s' : RequestState) : Prop where
  held : s'.held = s.held
  workQueue : s'.workQueue = s.workQueue
  workFrozen : s'.workFrozen = s.workFrozen
  queues : s'.queues = s.queues
  frozen : s'.frozen = s.frozen
  calls : s'.calls = s.calls
  nextReq : s'.nextReq = s.nextReq
  given : s'.given = s.given
  served : s'.served = s.served
  returned : s'.returned = s.returned
  server : s'.server = s.server ∨ ∃ c, s.server.inHand = some c ∧ s'.server.inHand = some c
  fits : s.server.Fits → s'.server.Fits

namespace Quiet

variable {s s₁ s₂ : RequestState}

theorem refl (s : RequestState) : Quiet s s :=
  ⟨rfl, rfl, rfl, rfl, rfl, rfl, rfl, rfl, rfl, rfl, .inl rfl, id⟩

theorem trans (h : Quiet s s₁) (h' : Quiet s₁ s₂) : Quiet s s₂ where
  held := h'.held.trans h.held
  workQueue := h'.workQueue.trans h.workQueue
  workFrozen := h'.workFrozen.trans h.workFrozen
  queues := h'.queues.trans h.queues
  frozen := h'.frozen.trans h.frozen
  calls := h'.calls.trans h.calls
  nextReq := h'.nextReq.trans h.nextReq
  given := h'.given.trans h.given
  served := h'.served.trans h.served
  returned := h'.returned.trans h.returned
  server := by
    rcases h.server with heq | ⟨c, hc, hc₁⟩
    · rw [← heq]
      exact h'.server
    · rcases h'.server with heq' | ⟨c', hc₁', hc₂⟩
      · exact .inr ⟨c, hc, heq' ▸ hc₁⟩
      · exact .inr ⟨c', hc.trans (hc₁.symm.trans hc₁'), hc₂⟩
  fits hfits := h'.fits (h.fits hfits)

theorem of_threads (s : RequestState) (threads : Thread → RequesterPc) : Quiet s { s with threads := threads } :=
  ⟨rfl, rfl, rfl, rfl, rfl, rfl, rfl, rfl, rfl, rfl, .inl rfl, id⟩

theorem of_table (s : RequestState) (table : PoolTable) (haveStratum : Bool) :
    Quiet s { s with table := table, haveStratum := haveStratum } :=
  ⟨rfl, rfl, rfl, rfl, rfl, rfl, rfl, rfl, rfl, rfl, .inl rfl, id⟩

theorem of_server {pc : ServerPc} {c : WorkioCmd} (h : s.server.inHand = some c)
    (hpc : pc.inHand = some c) (hfits : pc.Fits) : Quiet s { s with server := pc } :=
  ⟨rfl, rfl, rfl, rfl, rfl, rfl, rfl, rfl, rfl, rfl, .inr ⟨c, h, hpc⟩, fun _ => hfits⟩

theorem inHand (h : Quiet s s₁) : s₁.server.inHand = s.server.inHand := by
  rcases h.server with heq | ⟨c, hc, hc₁⟩
  · rw [heq]
  · rw [hc, hc₁]

theorem setStage_of_ne {t : Thread} (ht : t ≠ .workio) (stage : SwitchStage) : Quiet s (s.setStage stage t) := by
  cases t with
  | workio => exact absurd rfl ht
  | miner i => exact of_threads s _
  | other i => exact of_threads s _

theorem setStage (s : RequestState) {stage : SwitchStage} (hstage : stage ≠ .waiting) (t : Thread) :
    Quiet s (s.setStage stage t) := by
  by_cases ht : t = .workio
  · subst ht
    have hfits (c : WorkioCmd) : (ServerPc.failover c stage).Fits := by
      cases stage with
      | waiting => exact absurd rfl hstage
      | _ => trivial
    simp only [RequestState.setStage]
    split
    · rename_i hserver
      exact of_server (by rw [hserver]; rfl) rfl (hfits _)
    · rename_i hserver
      exact of_server (by rw [hserver]; rfl) rfl (hfits _)
    · exact refl s
  · exact setStage_of_ne ht stage

theorem switched (s : RequestState) (ok : Bool) (t : Thread) : Quiet s (s.switched ok t) := by
  cases t with
  | workio =>
    simp only [RequestState.switched]
    split
    · rename_i hserver
      exact of_server (by rw [hserver]; rfl) rfl trivial
    · rename_i hserver
      exact of_server (by rw [hserver]; rfl) rfl trivial
    · exact refl s
  | miner i => exact of_threads s _
  | other i => exact of_threads s _

theorem moveTo (s : RequestState) (t : Thread) (prevn pooln : Int) : Quiet s (s.moveTo t prevn pooln) := by
  unfold RequestState.moveTo
  split_ifs
  · exact (of_table s _ s.haveStratum).trans (setStage _ (fun hstage => by cases hstage) t)
  · exact switched s false t

theorem enterSwitch (s : RequestState) (t : Thread) (pooln : Int) : Quiet s (s.enterSwitch t pooln) := by
  simp only [RequestState.enterSwitch]
  split_ifs
  · exact setStage s (fun hstage => by cases hstage) t
  · exact moveTo s t _ pooln

end Quiet

section Moves

variable (cfg : RequestConfig) (s : RequestState)

/-- One case for every way a step ends, with what it needs. -/
inductive RequestMove : RequestEvent → RequestState → Prop
  | quiet {e : RequestEvent} {s' : RequestState} (h : Quiet s s') : RequestMove e s'
  | enqueued {e : RequestEvent} {s' : RequestState} {c : WorkioCmd} (hreq : c.req = none)
      (h : Quiet (s.enqueue c) s') : RequestMove e s'
  | asked {i : Nat} {s' : RequestState} (hcall : s.calls (.miner i) = none) (hthawed : s.workFrozen = false)
      (h : Quiet (s.post (.miner i) i .gWork) s') : RequestMove (.getWork i) s'
  | switchAsked {t : Thread} {s' : RequestState} (hstage : s.stage t = some .asking)
      (hcall : s.calls t = none) (hthawed : s.workFrozen = false)
      (h : Quiet (s.post t 0 .stratumWork) s') :
      RequestMove (.switch t) s'
  | selfAsked {c : WorkioCmd} (hserver : s.server = .failover c .asking)
      (hcall : s.calls .workio = none) (hthawed : s.workFrozen = false) :
      RequestMove (.switch .workio)
        { s.post .workio 0 .stratumWork with server := .failover c .waiting }
  | received {t : Thread} {c : Call} {r : Reply} {rest : List Reply} {s' : RequestState}
      (hcall : s.calls t = some c) (hqueue : s.queues c.queue = r :: rest)
      (h : Quiet ((s.setQueue c.queue rest).returnCall t c (some r)) s') : RequestMove (.receive t) s'
  | woken {t : Thread} {c : Call} {s' : RequestState} (hcall : s.calls t = some c)
      (hqueue : s.queues c.queue = []) (h : Quiet (s.returnCall t c none) s') : RequestMove (.wake t) s'
  | exited {i : Nat} {s' : RequestState} (h : Quiet (s.freeze i) s') : RequestMove (.exit i) s'
  | taken {allocated : Bool} {c : WorkioCmd} {rest : List WorkioCmd} {pc : ServerPc}
      (hserver : s.server = .idle) (hqueue : s.workQueue = c :: rest) (hpc : pc.inHand = some c)
      (hfits : pc.Fits) : RequestMove (.take allocated) { s with workQueue := rest, server := pc }
  | wokenServer (hserver : s.server = .idle) (hqueue : s.workQueue = []) : RequestMove .wakeServer s.stop
  | answered {answered : Bool} {req thr : Nat} {pooln : Int} (work : Bool)
      (hhand : s.server.inHand = some (.getWork req thr pooln)) :
      RequestMove (.fetch answered)
        ((s.push thr { answers := some req, work := work }).finish (.getWork req thr pooln) true)
  | done {e : RequestEvent} {thr : Nat} {pooln : Int} (he : e.serves = true)
      (hhand : s.server.inHand = some (.submitWork thr pooln)) :
      RequestMove e (s.finish (.submitWork thr pooln) true)
  | gaveUp {c : WorkioCmd} (hserver : s.server = .failed c) (hstop : failsOver cfg s = false) :
      RequestMove .settle (s.finish c false)
  | replied {c : WorkioCmd} {thr : Nat} {ok : Bool} (hserver : s.server = .replying c ok)
      (hthr : c.thr = some thr) :
      RequestMove .reply ((s.push thr { answers := c.req, work := false }).finish c ok)
  | crashed {c : WorkioCmd} {ok : Bool} (hserver : s.server = .replying c ok) (hthr : c.thr = none) :
      RequestMove .reply { s with server := .crashed }

end Moves

variable {cfg : RequestConfig} {s s' : RequestState} {e : RequestEvent}

theorem stage_workio {stage : SwitchStage} (hstage : s.stage .workio = some stage) :
    ∃ c, s.server = .failover c stage := by
  simp only [RequestState.stage] at hstage
  split at hstage
  · rename_i c stage' hserver
    cases hstage
    exact ⟨c, hserver⟩
  · cases hstage

theorem setStage_failover {c : WorkioCmd} {stage : SwitchStage} (hserver : s.server = .failover c stage)
    (stage' : SwitchStage) : s.setStage stage' .workio = { s with server := .failover c stage' } := by
  simp only [RequestState.setStage, hserver]

theorem switchStep_move {t : Thread} {stage : SwitchStage} (hstage : s.stage t = some stage)
    (h : switchStep s t stage = some s') : RequestMove cfg s (.switch t) s' := by
  cases stage with
  | freeing prevn pooln =>
    simp only [switchStep] at h
    split_ifs at h
    cases h
    exact .quiet (.moveTo s t prevn pooln)
  | moved prevn pooln =>
    simp only [switchStep] at h
    split at h
    · cases h
    · cases h
      split_ifs
      · exact .quiet ((Quiet.of_table s s.table _).trans (.setStage _ (fun hstage => by cases hstage) t))
      · exact .quiet ((Quiet.of_table s s.table _).trans (.switched _ _ t))
  | asking =>
    simp only [switchStep] at h
    split_ifs at h with hheld hfrozen
    · cases h
      exact .quiet (.switched s true t)
    · cases h
      rw [Bool.or_eq_true, not_or, Option.not_isSome_iff_eq_none, Option.not_isSome_iff_eq_none] at hheld
      have hthawed : s.workFrozen = false := Bool.not_eq_true _ ▸ hfrozen
      by_cases ht : t = .workio
      · subst ht
        obtain ⟨c, hserver⟩ := stage_workio hstage
        rw [setStage_failover (s := s.post .workio 0 .stratumWork) hserver]
        exact .selfAsked hserver hheld.2 hthawed
      · exact .switchAsked hstage hheld.2 hthawed (.setStage_of_ne ht _)
  | waiting => cases h

theorem requestStep_move (h : requestStep cfg s e = some s') : RequestMove cfg s e s' := by
  cases e with
  | noStratum i =>
    simp only [requestStep] at h
    split at h
    · split_ifs at h
      cases h
      exact .quiet (.of_threads s _)
    · cases h
  | getWork i =>
    simp only [requestStep] at h
    split at h
    · split_ifs at h with hheld hfrozen
      · cases h
        exact .quiet (.of_threads s _)
      · cases h
        rw [Bool.or_eq_true, not_or, Option.not_isSome_iff_eq_none, Option.not_isSome_iff_eq_none] at hheld
        exact .asked hheld.2 (Bool.not_eq_true _ ▸ hfrozen) (.of_threads _ _)
    · cases h
  | submitWork i pooln =>
    simp only [requestStep] at h
    split at h
    · cases h
      exact .enqueued rfl (.refl _)
    · cases h
  | poolSwitch t pooln =>
    simp only [requestStep] at h
    split at h
    · split_ifs at h
      cases h
      exact .quiet (.enterSwitch s t pooln)
    · cases h
  | seturl t params =>
    simp only [requestStep] at h
    split at h
    · split_ifs at h with hended hsame
      · cases h
        exact .quiet (.of_table s _ _)
      · cases h
        exact .quiet ((Quiet.of_table s _ _).trans (.enterSwitch _ t _))
    · cases h
  | switch t =>
    obtain ⟨stage, hstage, h⟩ := Option.bind_eq_some_iff.mp h
    exact switchStep_move hstage h
  | receive t =>
    simp only [requestStep] at h
    split at h
    · cases h
    · rename_i c hcall
      split at h
      · cases h
      · rename_i r rest hqueue
        cases h
        exact .received hcall hqueue (.switched _ true t)
  | wake t =>
    simp only [requestStep] at h
    split at h
    · cases h
    · rename_i c hcall
      split at h
      · rename_i hqueue
        cases h
        exact .woken hcall hqueue (.switched _ true t)
      · cases h
  | exit i =>
    simp only [requestStep] at h
    split at h
    · cases h
      exact .exited (.of_threads _ _)
    · cases h
  | abort flag =>
    cases h
    exact .enqueued (c := .abort) rfl ⟨rfl, rfl, rfl, rfl, rfl, rfl, rfl, rfl, rfl, rfl, .inl rfl, id⟩
  | take allocated =>
    simp only [requestStep] at h
    split at h
    · rename_i c rest hserver hqueue
      cases h
      cases c with
      | getWork req thr pooln =>
        cases allocated with
        | true => exact .taken hserver hqueue rfl trivial
        | false => exact .taken hserver hqueue rfl trivial
      | submitWork thr pooln => exact .taken hserver hqueue rfl trivial
      | abort => exact .taken hserver hqueue rfl trivial
    · cases h
  | wakeServer =>
    simp only [requestStep] at h
    split at h
    · rename_i hserver hqueue
      cases h
      exact .wokenServer hserver hqueue
    · cases h
  | fetch answered =>
    simp only [requestStep] at h
    split at h
    · rename_i req thr pooln failures hserver
      have hhand : s.server.inHand = some (.getWork req thr pooln) := by rw [hserver]; rfl
      cases h
      split_ifs
      · exact .answered true hhand
      · exact .answered false hhand
      · exact .quiet (.of_server hhand rfl trivial)
      · exact .quiet (.of_server hhand rfl trivial)
    · cases h
  | submit isEquihash behind =>
    simp only [requestStep] at h
    split at h
    · rename_i thr pooln failures hserver
      have hhand : s.server.inHand = some (.submitWork thr pooln) := by rw [hserver]; rfl
      cases h
      split_ifs
      · exact .done rfl hhand
      · exact .quiet (.of_server hhand rfl trivial)
      · exact .done rfl hhand
      · exact .quiet (.of_server hhand rfl trivial)
    · cases h
  | compare differs =>
    simp only [requestStep] at h
    split at h
    · rename_i thr pooln failures hserver
      have hhand : s.server.inHand = some (.submitWork thr pooln) := by rw [hserver]; rfl
      split at h
      · cases h
      · cases h
        split_ifs
        · exact .done rfl hhand
        · exact .quiet (.of_server hhand rfl trivial)
    · cases h
  | send ok =>
    simp only [requestStep] at h
    split at h
    · rename_i thr pooln failures hserver
      have hhand : s.server.inHand = some (.submitWork thr pooln) := by rw [hserver]; rfl
      cases h
      split_ifs
      · exact .done rfl hhand
      · exact .quiet (.of_server hhand rfl trivial)
      · exact .quiet (.of_server hhand rfl trivial)
    · cases h
  | settle =>
    simp only [requestStep] at h
    split at h
    · rename_i c hserver
      cases h
      split_ifs with hover
      · exact .quiet (.enterSwitch s .workio _)
      · exact .gaveUp hserver (Bool.not_eq_true _ ▸ hover)
    · cases h
  | reply =>
    simp only [requestStep] at h
    split at h
    · rename_i c ok hserver
      cases h
      cases hthr : c.thr with
      | none => exact .crashed hserver hthr
      | some thr => exact .replied hserver hthr
    · cases h

end VerusMiner
