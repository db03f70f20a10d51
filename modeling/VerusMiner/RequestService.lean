import VerusMiner.SelfWait

/-! The workio thread serves the commands of its queue in their order, each
after so many steps of its own. -/

namespace VerusMiner

/-- The commands in the order they were put on the queue: those served, the one
in hand and those that wait. -/
def RequestState.history (s : RequestState) : List WorkioCmd :=
  s.served.map Served.cmd ++ s.server.inHand.toList ++ s.workQueue

section Steps

variable {cfg : RequestConfig} {s s' : RequestState} {e : RequestEvent} {es : List RequestEvent}

/-- Commands are put behind the others, and every request among them has the
next number. -/
def HistoryGrows (s s' : RequestState) : Prop :=
  ∃ new, s'.history = s.history ++ new ∧
    List.range s'.nextReq = List.range s.nextReq ++ new.filterMap WorkioCmd.req

namespace HistoryGrows

variable {s₁ : RequestState}

theorem same (hhistory : s'.history = s.history) (hnext : s'.nextReq = s.nextReq) : HistoryGrows s s' :=
  ⟨[], by rw [hhistory, List.append_nil], by rw [hnext, List.filterMap_nil, List.append_nil]⟩

theorem trans (h : HistoryGrows s s₁) (h' : HistoryGrows s₁ s') : HistoryGrows s s' := by
  obtain ⟨new, hhistory, hnext⟩ := h
  obtain ⟨new', hhistory', hnext'⟩ := h'
  refine ⟨new ++ new', ?_, ?_⟩
  · rw [hhistory', hhistory, List.append_assoc]
  · rw [hnext', hnext, List.filterMap_append, List.append_assoc]

theorem of_quiet (hq : Quiet s s') : HistoryGrows s s' := by
  refine same ?_ hq.nextReq
  rw [RequestState.history, RequestState.history, hq.served, hq.inHand, hq.workQueue]

theorem server {pc : ServerPc} (hpc : pc.inHand = s.server.inHand) : HistoryGrows s { s with server := pc } := by
  refine same ?_ rfl
  rw [RequestState.history, RequestState.history, hpc]

theorem enqueue {c : WorkioCmd} (hreq : c.req = none) : HistoryGrows s (s.enqueue c) := by
  unfold RequestState.enqueue
  split_ifs
  · exact same rfl rfl
  · refine ⟨[c], (List.append_assoc ..).symm, ?_⟩
    rw [List.filterMap_cons_none hreq, List.filterMap_nil, List.append_nil]

theorem post (s : RequestState) (t : Thread) (thr : Nat) (l : Mutex) : HistoryGrows s (s.post t thr l) :=
  ⟨[.getWork s.nextReq thr s.table.curPooln], (List.append_assoc ..).symm, List.range_succ⟩

theorem push (s : RequestState) (thr : Nat) (r : Reply) : HistoryGrows s (s.push thr r) := by
  unfold RequestState.push
  split_ifs
  · exact same rfl rfl
  · exact same rfl rfl

theorem finish {c : WorkioCmd} (ok : Bool) (hhand : s.server.inHand = some c) :
    HistoryGrows s (s.finish c ok) := by
  unfold RequestState.finish
  split_ifs
  · exact same (by simp [RequestState.history, RequestState.free, hhand]) rfl
  · exact same (by simp [RequestState.history, RequestState.free, RequestState.stop, hhand]) rfl

end HistoryGrows

theorem historyGrows_step (hstep : requestStep cfg s e = some s') (hrunning : s'.server ≠ .crashed) :
    HistoryGrows s s' := by
  cases requestStep_move hstep with
  | quiet hq => exact .of_quiet hq
  | enqueued hreq hq => exact (HistoryGrows.enqueue hreq).trans (.of_quiet hq)
  | asked hcall hthawed hq => exact (HistoryGrows.post s _ _ _).trans (.of_quiet hq)
  | switchAsked hstage hcall hthawed hq => exact (HistoryGrows.post s _ _ _).trans (.of_quiet hq)
  | @selfAsked c hserver hcall hthawed =>
    refine (HistoryGrows.post s .workio 0 .stratumWork).trans (.server ?_)
    change some c = s.server.inHand
    rw [hserver]
    rfl
  | @received t c r rest _ hcall hqueue hq =>
    have hsame : HistoryGrows s ((s.setQueue c.queue rest).returnCall t c (some r)) := .same rfl rfl
    exact hsame.trans (.of_quiet hq)
  | @woken t c _ hcall hqueue hq =>
    have hsame : HistoryGrows s (s.returnCall t c none) := .same rfl rfl
    exact hsame.trans (.of_quiet hq)
  | @exited i _ hq =>
    have hsame : HistoryGrows s (s.freeze i) := .same rfl rfl
    exact hsame.trans (.of_quiet hq)
  | taken hserver hqueue hpc hfits =>
    exact .same (by simp [RequestState.history, hserver, hqueue, hpc]) rfl
  | wokenServer hserver hqueue =>
    exact .same (by simp [RequestState.history, RequestState.stop, hserver]) rfl
  | answered work hhand => exact (HistoryGrows.push s _ _).trans (.finish true ((push_server s _ _) ▸ hhand))
  | done he hhand => exact .finish true hhand
  | gaveUp hserver hstop => exact .finish false (by rw [hserver]; rfl)
  | replied hserver hthr =>
    exact (HistoryGrows.push s _ _).trans (.finish _ (by rw [push_server, hserver]; rfl))
  | crashed hserver hthr => exact absurd rfl hrunning

end Steps

end VerusMiner
