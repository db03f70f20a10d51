import VerusMiner.RequestService
import VerusMiner.Lib.Exchange

/-! When every call of `get_work` gets the reply to its own request. -/

namespace VerusMiner

/-- One reply to a request for work, on the queue of the thread that made it,
and none to any other command. -/
def Served.Proper (v : Served) : Prop :=
  match v.cmd with
  | .getWork req thr _ => ∃ work, v.given = [(thr, { answers := some req, work := work })]
  | _ => v.given = []

def NoCallOn (s : RequestState) (q : Nat) : Prop := ∀ t c, s.calls t = some c → c.queue ≠ q

/-- Nobody else waits on the queue, and its thread has not ended. -/
def AsksAlone (s : RequestState) (q : Nat) : Prop := s.frozen q = false ∧ NoCallOn s q

/-- No request for work waits in the queue. -/
def NoRequestQueued (s : RequestState) : Prop := ∀ c ∈ s.workQueue, c.req = none

/-- What may go wrong does not: two calls on one queue, a waiting thread woken
for nothing or left without its queue, a wait of the workio thread for itself,
a request that is given up with no pool to fail over to, a failover for a
command that is no request, and an end of the workio thread with requests in
its queue. -/
def PairsSafely (cfg : RequestConfig) (s : RequestState) (e : RequestEvent) : Prop :=
  KeepsClear cfg s e ∧ (e.serves = true → s.abortFlag = true → NoRequestQueued s) ∧
    match e with
    | .getWork i => AsksAlone s i
    | .switch t => s.stage t = some .asking → AsksAlone s 0
    | .wake _ => False
    | .exit i => NoCallOn s i
    | .settle => ∀ c, s.server = .failed c → failsOver cfg s = false → c.req = none ∧ NoRequestQueued s
    | .reply => ∀ c ok, s.server = .replying c ok →
        c.req.isSome ∧ ((ok && !s.abortFlag) = false → NoRequestQueued s)
    | _ => True

/-- The workio thread at its work, or at its end with no request behind it. -/
structure AtService (s : RequestState) : Prop where
  fits : s.server.Fits
  running : s.server ≠ .crashed
  ended : s.server = .stopped → s.workFrozen = true ∧ NoRequestQueued s

namespace AtService

variable {s s' : RequestState}

theorem same (h : AtService s) (hserver : s'.server = s.server) (hfrozen : s'.workFrozen = s.workFrozen)
    (hqueue : s'.workQueue = s.workQueue) : AtService s' where
  fits := hserver ▸ h.fits
  running := hserver ▸ h.running
  ended hstopped := by
    rw [NoRequestQueued, hfrozen, hqueue]
    exact h.ended (hserver ▸ hstopped)

theorem quiet (h : AtService s) (hq : Quiet s s') : AtService s' where
  fits := hq.fits h.fits
  running hcrashed := by
    rcases hq.server with heq | ⟨c, _, hc⟩
    · exact h.running (heq ▸ hcrashed)
    · rw [hcrashed] at hc
      cases hc
  ended hstopped := by
    rw [NoRequestQueued, hq.workFrozen, hq.workQueue]
    rcases hq.server with heq | ⟨c, _, hc⟩
    · exact h.ended (heq ▸ hstopped)
    · rw [hstopped] at hc
      cases hc

theorem thawed (h : AtService s) (hthawed : s.workFrozen = false) : s.server ≠ .stopped := by
  intro hstopped
  have hfrozen := (h.ended hstopped).1
  rw [hthawed] at hfrozen
  cases hfrozen

theorem enqueue (h : AtService s) (c : WorkioCmd) : AtService (s.enqueue c) := by
  unfold RequestState.enqueue
  split_ifs with hfrozen
  · exact h
  · exact ⟨h.fits, h.running, fun hstopped => absurd hstopped (h.thawed (Bool.not_eq_true _ ▸ hfrozen))⟩

theorem post (h : AtService s) (hthawed : s.workFrozen = false) (t : Thread) (thr : Nat) (l : Mutex) :
    AtService (s.post t thr l) :=
  ⟨h.fits, h.running, fun hstopped => absurd hstopped (h.thawed hthawed)⟩

theorem finish (c : WorkioCmd) (ok : Bool) (hlast : (ok && !s.abortFlag) = false → NoRequestQueued s) :
    AtService (s.finish c ok) := by
  unfold RequestState.finish
  split_ifs with hon
  · exact ⟨trivial, fun hcrashed => (by cases hcrashed), fun hstopped => (by cases hstopped)⟩
  · exact ⟨trivial, fun hcrashed => (by cases hcrashed), fun _ => ⟨rfl, hlast (Bool.not_eq_true _ ▸ hon)⟩⟩

theorem finish_push (thr : Nat) (r : Reply) (c : WorkioCmd) (ok : Bool)
    (hlast : (ok && !s.abortFlag) = false → NoRequestQueued s) : AtService ((s.push thr r).finish c ok) := by
  refine finish c ok ?_
  unfold RequestState.push
  split_ifs
  · exact hlast
  · exact hlast

theorem step {cfg : RequestConfig} {e : RequestEvent} (h : AtService s) (hok : PairsSafely cfg s e)
    (hstep : requestStep cfg s e = some s') : AtService s' := by
  obtain ⟨hclear, hlast, hok⟩ := hok
  have hdone (he : e.serves = true) (hend : (true && !s.abortFlag) = false) : NoRequestQueued s :=
    hlast he (by simpa using hend)
  cases requestStep_move hstep with
  | quiet hq => exact h.quiet hq
  | enqueued hreq hq => exact (h.enqueue _).quiet hq
  | asked hcall hthawed hq => exact (h.post hthawed _ _ _).quiet hq
  | switchAsked hstage hcall hthawed hq => exact (h.post hthawed _ _ _).quiet hq
  | selfAsked hserver hcall hthawed => exact absurd rfl (hclear (by rw [RequestState.stage, hserver])).1
  | @received t c r rest _ hcall hqueue hq =>
    have hsame : AtService ((s.setQueue c.queue rest).returnCall t c (some r)) := h.same rfl rfl rfl
    exact hsame.quiet hq
  | woken hcall hqueue hq => exact absurd hok id
  | @exited i _ hq =>
    have hsame : AtService (s.freeze i) := h.same rfl rfl rfl
    exact hsame.quiet hq
  | @taken _ c rest pc hserver hqueue hpc hfits =>
    refine ⟨hfits, fun hcrashed => ?_, fun hstopped => ?_⟩
    · rw [show pc = .crashed from hcrashed] at hpc
      cases hpc
    · rw [show pc = .stopped from hstopped] at hpc
      cases hpc
  | wokenServer hserver hqueue =>
    refine ⟨trivial, fun hcrashed => (by cases hcrashed), fun _ => ⟨rfl, fun c hc => ?_⟩⟩
    change c ∈ s.workQueue at hc
    rw [hqueue] at hc
    cases hc
  | answered work hhand => exact finish_push _ _ _ true (hdone rfl)
  | done he hhand => exact finish _ true (hdone he)
  | @gaveUp c hserver hstop => exact finish c false fun _ => (hok c hserver hstop).2
  | @replied c thr ok hserver hthr => exact finish_push _ _ c ok (hok c ok hserver).2
  | @crashed c ok hserver hthr =>
    have hreq := (hok c ok hserver).1
    cases c with
    | getWork req thr pooln => cases hthr
    | submitWork thr pooln => cases hreq
    | abort => cases hreq

end AtService

def WorkioCmd.request : WorkioCmd → Option (Nat × Nat)
  | .getWork req thr _ => some (req, thr)
  | _ => none

theorem request_eq_none {c : WorkioCmd} (hreq : c.req = none) : c.request = none := by
  cases c with
  | getWork req thr pooln => cases hreq
  | submitWork thr pooln => rfl
  | abort => rfl

/-- The requests of a state and what is on the queues, as calls and letters. -/
def RequestState.exchange (s : RequestState) : Exchange Thread Nat Nat where
  calls t := (s.calls t).map fun c => (c.req, c.queue)
  pending := (s.server.inHand.toList ++ s.workQueue).filterMap WorkioCmd.request
  letters q := (s.queues q).map Reply.answers

structure MatchesReplies (s : RequestState) : Prop where
  returned : ∀ r ∈ s.returned, ∃ reply, r.reply = some reply ∧ reply.answers = some r.call.req
  served : ∀ v ∈ s.served, v.Proper
  matched : s.exchange.Matched
  thawed : ∀ t c, s.calls t = some c → s.frozen c.queue = false
  given : s.given = []

namespace MatchesReplies

variable {s s' : RequestState}

theorem queued (h : MatchesReplies s) {q : Nat} {r : Reply} (hr : r ∈ s.queues q) :
    ∃ t c, s.calls t = some c ∧ c.queue = q ∧ r.answers = some c.req := by
  obtain ⟨r₀, rest, hqueue⟩ := List.exists_cons_of_ne_nil (List.ne_nil_of_mem hr)
  have hletters : s.exchange.letters q = r₀.answers :: rest.map Reply.answers := by
    change (s.queues q).map Reply.answers = _
    rw [hqueue, List.map_cons]
  obtain ⟨hrest, t, req, hcall, ha⟩ := h.matched.letter_called hletters
  obtain ⟨c, hc, heq⟩ := Option.map_eq_some_iff.mp hcall
  rw [hqueue, List.map_eq_nil_iff.mp hrest, List.mem_singleton] at hr
  obtain ⟨hreq, hq⟩ := Prod.mk.inj heq
  exact ⟨t, c, hc, hq, by rw [hr, ha, hreq]⟩

/-- A call has its reply on its queue, or its request is still to be served. -/
theorem kept (h : MatchesReplies s) {t : Thread} {c : Call} (hcall : s.calls t = some c) :
    (∃ r ∈ s.queues c.queue, r.answers = some c.req) ∨
      ∃ cmd, (s.server.inHand = some cmd ∨ cmd ∈ s.workQueue) ∧ cmd.req = some c.req := by
  have hcalled : s.exchange.calls t = some (c.req, c.queue) := congrArg (Option.map _) hcall
  rcases h.matched.kept hcalled with hpending | hletter
  · obtain ⟨cmd, hcmd, hrequest⟩ := List.mem_filterMap.mp hpending
    rw [List.mem_append, Option.mem_toList] at hcmd
    refine .inr ⟨cmd, hcmd, ?_⟩
    cases cmd with
    | getWork req thr pooln => rw [← (Prod.mk.inj (Option.some.inj hrequest)).1]; rfl
    | submitWork thr pooln => cases hrequest
    | abort => cases hrequest
  · have hmem : some c.req ∈ (s.queues c.queue).map Reply.answers := by
      rw [show (s.queues c.queue).map Reply.answers = [some c.req] from hletter]
      exact List.mem_singleton.mpr rfl
    exact .inl (List.mem_map.mp hmem)

theorem quiet (h : MatchesReplies s) (hq : Quiet s s') : MatchesReplies s' where
  returned := by rw [hq.returned]; exact h.returned
  served := by rw [hq.served]; exact h.served
  matched := by
    have hsame : s'.exchange = s.exchange := by
      rw [RequestState.exchange, RequestState.exchange, hq.calls, hq.inHand, hq.workQueue, hq.queues]
    rw [hsame]
    exact h.matched
  thawed := by rw [hq.calls, hq.frozen]; exact h.thawed
  given := hq.given.trans h.given

theorem exchange_calls_ne {q : Nat} (halone : NoCallOn s q) (t : Thread) (req : Nat) :
    s.exchange.calls t ≠ some (req, q) := by
  intro hcall
  obtain ⟨c, hc, heq⟩ := Option.map_eq_some_iff.mp hcall
  exact halone t c hc (Prod.mk.inj heq).2

theorem enqueue (h : MatchesReplies s) {c : WorkioCmd} (hreq : c.req = none) : MatchesReplies (s.enqueue c) := by
  unfold RequestState.enqueue
  split_ifs
  · exact h
  · refine ⟨h.returned, h.served, ?_, h.thawed, h.given⟩
    have hrequest := request_eq_none hreq
    have hsame : RequestState.exchange { s with workQueue := s.workQueue ++ [c] } = s.exchange := by
      simp [RequestState.exchange, List.filterMap_append, hrequest]
    rw [hsame]
    exact h.matched

theorem post (h : MatchesReplies s) {t : Thread} {q : Nat} (l : Mutex) (hcall : s.calls t = none)
    (halone : AsksAlone s q) : MatchesReplies (s.post t q l) := by
  refine ⟨h.returned, h.served, ?_, fun t' c hc => ?_, h.given⟩
  · have hsame : (s.post t q l).exchange = s.exchange.call t (s.nextReq, q) := by
      have hcalls : (s.post t q l).exchange.calls = (s.exchange.call t (s.nextReq, q)).calls :=
        Function.comp_update (Option.map fun c : Call => (c.req, c.queue)) ..
      have hpending : (s.post t q l).exchange.pending = (s.exchange.call t (s.nextReq, q)).pending := by
        simp [RequestState.exchange, RequestState.post, Exchange.call, WorkioCmd.request]
      exact congrArg₂ (fun calls pending => Exchange.mk calls pending s.exchange.letters) hcalls hpending
    rw [hsame]
    exact h.matched.call (congrArg (Option.map _) hcall) (exchange_calls_ne halone.2)
  · change Function.update s.calls t _ t' = some c at hc
    by_cases ht : t' = t
    · rw [ht, Function.update_self] at hc
      cases hc
      exact halone.1
    · rw [Function.update_of_ne ht] at hc
      exact h.thawed t' c hc

theorem collect (h : MatchesReplies s) {t : Thread} {c : Call} {r : Reply} {rest : List Reply}
    (hcall : s.calls t = some c) (hqueue : s.queues c.queue = r :: rest) :
    MatchesReplies ((s.setQueue c.queue rest).returnCall t c (some r)) := by
  have hcalled : s.exchange.calls t = some (c.req, c.queue) :=
    congrArg (Option.map _) hcall
  have hletters : s.exchange.letters c.queue = r.answers :: rest.map Reply.answers := by
    change (s.queues c.queue).map Reply.answers = _
    rw [hqueue, List.map_cons]
  refine ⟨?_, h.served, ?_, fun t' c' hc => ?_, h.given⟩
  · intro r' hr'
    rcases List.mem_append.mp hr' with hold | hnew
    · exact h.returned r' hold
    · rw [List.mem_singleton.mp hnew]
      exact ⟨r, rfl, h.matched.letter_eq hcalled hletters⟩
  · have hsame : ((s.setQueue c.queue rest).returnCall t c (some r)).exchange =
        s.exchange.collect t c.queue (rest.map Reply.answers) := by
      have hcalls : ((s.setQueue c.queue rest).returnCall t c (some r)).exchange.calls =
          (s.exchange.collect t c.queue (rest.map Reply.answers)).calls :=
        Function.comp_update (Option.map fun c : Call => (c.req, c.queue)) ..
      have hboxes : ((s.setQueue c.queue rest).returnCall t c (some r)).exchange.letters =
          (s.exchange.collect t c.queue (rest.map Reply.answers)).letters :=
        Function.comp_update (List.map Reply.answers) ..
      exact congrArg₂ (fun calls letters => Exchange.mk calls s.exchange.pending letters) hcalls hboxes
    rw [hsame]
    exact h.matched.collect hcalled hletters
  · change Function.update s.calls t none t' = some c' at hc
    by_cases ht : t' = t
    · rw [ht, Function.update_self] at hc
      cases hc
    · rw [Function.update_of_ne ht] at hc
      exact h.thawed t' c' hc

theorem exchange_finish (s : RequestState) (c : WorkioCmd) (ok : Bool) : (s.finish c ok).exchange =
    { s.exchange with pending := s.workQueue.filterMap WorkioCmd.request } := by
  unfold RequestState.finish
  split_ifs <;> rfl

/-- The end of a command, given that it was served as it should be. -/
theorem finished (c : WorkioCmd) (ok : Bool)
    (hreturned : ∀ r ∈ s.returned, ∃ reply, r.reply = some reply ∧ reply.answers = some r.call.req)
    (hserved : ∀ v ∈ s.served, v.Proper) (hproper : Served.Proper { cmd := c, given := s.given })
    (hmatched : (s.finish c ok).exchange.Matched)
    (hthawed : ∀ t c, s.calls t = some c → s.frozen c.queue = false) : MatchesReplies (s.finish c ok) := by
  have hall : ∀ v ∈ s.served ++ [{ cmd := c, given := s.given }], v.Proper := by
    intro v hv
    rcases List.mem_append.mp hv with hold | hnew
    · exact hserved v hold
    · rw [List.mem_singleton.mp hnew]
      exact hproper
  unfold RequestState.finish at hmatched ⊢
  split_ifs at hmatched ⊢
  · exact ⟨hreturned, hall, hmatched, hthawed, rfl⟩
  · exact ⟨hreturned, hall, hmatched, hthawed, rfl⟩

theorem finish (h : MatchesReplies s) {c : WorkioCmd} (ok : Bool) (hhand : s.server.inHand = some c)
    (hreq : c.request = none) : MatchesReplies (s.finish c ok) := by
  refine finished c ok h.returned h.served ?_ ?_ h.thawed
  · cases c with
    | getWork req thr pooln => cases hreq
    | submitWork thr pooln => exact h.given
    | abort => exact h.given
  · have hsame : (s.finish c ok).exchange = s.exchange := by
      rw [exchange_finish]
      simp [RequestState.exchange, hhand, hreq]
    rw [hsame]
    exact h.matched

theorem answer (h : MatchesReplies s) {req thr : Nat} {pooln : Int} (work ok : Bool)
    (hhand : s.server.inHand = some (.getWork req thr pooln)) :
    MatchesReplies ((s.push thr { answers := some req, work := work }).finish (.getWork req thr pooln) ok) := by
  have hpending : s.exchange.pending = (req, thr) :: s.workQueue.filterMap WorkioCmd.request := by
    simp [RequestState.exchange, hhand, WorkioCmd.request]
  obtain ⟨⟨t, hcalled⟩, _⟩ := h.matched.pending_called (req, thr) (by rw [hpending]; exact List.mem_cons_self)
  obtain ⟨c, hc, heq⟩ := Option.map_eq_some_iff.mp hcalled
  have hthawed := h.thawed t c hc
  rw [(Prod.mk.inj heq).2] at hthawed
  have hpush : s.push thr { answers := some req, work := work } =
      { s.setQueue thr (s.queues thr ++ [{ answers := some req, work := work }]) with
        given := s.given ++ [(thr, { answers := some req, work := work })] } := by
    rw [RequestState.push, hthawed]
    rfl
  rw [hpush]
  refine finished _ ok h.returned h.served ⟨work, ?_⟩ ?_ h.thawed
  · change s.given ++ _ = _
    rw [h.given, List.nil_append]
  · rw [exchange_finish]
    have hboxes : (fun q => ((Function.update s.queues thr
        (s.queues thr ++ [{ answers := some req, work := work }])) q).map Reply.answers) =
        (s.exchange.answer (req, thr) (s.workQueue.filterMap WorkioCmd.request)).letters := by
      refine (Function.comp_update (List.map Reply.answers) ..).trans ?_
      rw [List.map_append]
      rfl
    have hanswered := h.matched.answer hpending
    exact (congrArg (fun letters => (Exchange.mk s.exchange.calls
      (s.workQueue.filterMap WorkioCmd.request) letters).Matched) hboxes).mpr hanswered

theorem replace (h : MatchesReplies s) (hqueue : s'.exchange = s.exchange) (hreturned : s'.returned = s.returned)
    (hserved : s'.served = s.served) (hcalls : s'.calls = s.calls) (hfrozen : s'.frozen = s.frozen)
    (hgiven : s'.given = s.given) : MatchesReplies s' where
  returned := by rw [hreturned]; exact h.returned
  served := by rw [hserved]; exact h.served
  matched := by rw [hqueue]; exact h.matched
  thawed := by rw [hcalls, hfrozen]; exact h.thawed
  given := hgiven.trans h.given

end MatchesReplies

section Steps

variable {cfg : RequestConfig} {s s' : RequestState} {e : RequestEvent}

theorem MatchesReplies.step (h : MatchesReplies s) (hok : PairsSafely cfg s e)
    (hstep : requestStep cfg s e = some s') : MatchesReplies s' := by
  obtain ⟨hclear, _, hok⟩ := hok
  cases requestStep_move hstep with
  | quiet hq => exact h.quiet hq
  | enqueued hreq hq => exact (h.enqueue hreq).quiet hq
  | asked hcall hthawed hq => exact (h.post .gWork hcall hok).quiet hq
  | switchAsked hstage hcall hthawed hq => exact (h.post .stratumWork hcall (hok hstage)).quiet hq
  | selfAsked hserver hcall hthawed => exact absurd rfl (hclear (by rw [RequestState.stage, hserver])).1
  | received hcall hqueue hq => exact (h.collect hcall hqueue).quiet hq
  | woken hcall hqueue hq => exact absurd hok id
  | @exited i _ hq =>
    have hthawed : ∀ t c, (s.freeze i).calls t = some c → (s.freeze i).frozen c.queue = false := by
      intro t c hc
      exact (Function.update_of_ne (hok t c hc) ..).trans (h.thawed t c hc)
    have hfrozen : MatchesReplies (s.freeze i) := ⟨h.returned, h.served, h.matched, hthawed, h.given⟩
    exact hfrozen.quiet hq
  | taken hserver hqueue hpc hfits =>
    refine h.replace ?_ rfl rfl rfl rfl rfl
    have hidle : s.server.inHand = none := by
      rw [hserver]
      rfl
    simp [RequestState.exchange, hidle, hqueue, hpc, List.filterMap_cons]
  | wokenServer hserver hqueue =>
    refine h.replace ?_ rfl rfl rfl rfl rfl
    have hidle : s.server.inHand = none := by
      rw [hserver]
      rfl
    have hstopped : s.stop.server.inHand = none := rfl
    simp only [RequestState.exchange, hidle, hstopped]
    rfl
  | answered work hhand => exact h.answer work true hhand
  | done he hhand => exact h.finish true hhand rfl
  | @gaveUp c hserver hstop =>
    exact h.finish false (by rw [hserver]; rfl) (request_eq_none (hok c hserver hstop).1)
  | @replied c thr ok hserver hthr =>
    have hhand : s.server.inHand = some c := by rw [hserver]; rfl
    have hreq := (hok c ok hserver).1
    cases c with
    | getWork req thr' pooln =>
      cases hthr
      exact h.answer false ok hhand
    | submitWork thr' pooln => cases hreq
    | abort => cases hreq
  | @crashed c ok hserver hthr =>
    have hreq := (hok c ok hserver).1
    cases c with
    | getWork req thr' pooln => cases hthr
    | submitWork thr' pooln => cases hreq
    | abort => cases hreq

/-- All that a run of steps that pair safely keeps. -/
structure KeepsPaired (s : RequestState) : Prop where
  replies : MatchesReplies s
  service : AtService s
  locks : LocksCalled s
  clear : NoSelfWait s
  counted : s.history.filterMap WorkioCmd.req = List.range s.nextReq

theorem KeepsPaired.step (h : KeepsPaired s) (hok : PairsSafely cfg s e)
    (hstep : requestStep cfg s e = some s') : KeepsPaired s' := by
  have hservice := h.service.step hok hstep
  refine ⟨h.replies.step hok hstep, hservice, h.locks.step hstep,
    (noSelfWait_step h.locks h.clear hstep).mpr hok.1, ?_⟩
  obtain ⟨new, hhistory, hnext⟩ := historyGrows_step hstep hservice.running
  rw [hhistory, List.filterMap_append, h.counted, hnext]

end Steps

end VerusMiner
