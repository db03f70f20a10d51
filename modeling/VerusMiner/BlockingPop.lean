import VerusMiner.ThreadQueue

/-! What a pop without a time limit returns: its callers take a null pointer
for the end of the queue, so there should be a reason for one. -/

namespace VerusMiner

/-- The queue with what has happened to it: whether it has been frozen, and
what each pop without a time limit returned, with whether a null pointer had a
reason by then. -/
structure PopWatch where
  queue : QueueState
  wasFrozen : Bool
  blocking : List (Option Addr × Bool)

def QueueEvent.freezes : QueueEvent → Bool
  | .freezethaw _ frozen => frozen
  | _ => false

def QueueState.blockingTurn (s : QueueState) : QueueEvent → Bool
  | .pop _ timed => !timed
  | .wake t _ => s.pc t = .waiting false
  | _ => false

def poppedSince (s s' : QueueState) : List (Option Addr) :=
  (s'.returns.drop s.returns.length).filterMap fun
    | .pop _ rval => some rval
    | _ => none

/-- The queue has been frozen, or a null pointer has been pushed. -/
def PopWatch.reason (w : PopWatch) : Bool := w.wasFrozen || (accepted w.queue.returns).contains 0

def watchStep (w : PopWatch) (e : QueueEvent) : Option PopWatch :=
  (queueStep w.queue e).map fun s =>
    { queue := s
      wasFrozen := w.wasFrozen || e.freezes
      blocking := w.blocking ++
        if w.queue.blockingTurn e then (poppedSince w.queue s).map fun rval => (rval, w.reason) else [] }

def watchNew (head : Addr) : PopWatch := { queue := tqNew head, wasFrozen := false, blocking := [] }

def NullForReason (w : PopWatch) : Prop := ∀ r ∈ w.blocking, r.1.getD 0 = 0 → r.2 = true

/-- A pop that waits without a time limit does not come back to an empty list
for nothing. -/
def WokenInTime (w : PopWatch) : QueueEvent → Prop
  | .wake t _ =>
    w.queue.pc t = .waiting false → w.queue.heap.listEmpty w.queue.head = some true → w.reason = true
  | _ => True

section Turns

variable {s s' : QueueState} {e : QueueEvent}

inductive BlockingTurn (s s' : QueueState) : QueueEvent → Prop
  | waits (t : Nat) (hreturns : s'.returns = s.returns) : BlockingTurn s s' (.pop t false)
  | takes {e : QueueEvent} (t : Nat) (d : Addr) (hreturns : s'.returns = s.returns ++ [.pop t (some d)])
      (hsome : s.heap.listEmpty s.head = some false) : BlockingTurn s s' e
  | nothing {t : Nat} (hwaits : s.pc t = .waiting false) (hempty : s.heap.listEmpty s.head = some true)
      (hreturns : s'.returns = s.returns ++ [.pop t none]) : BlockingTurn s s' (.wake t false)

theorem tqPopEnt_returns {t : Nat} (h : s.tqPopEnt t = some s') :
    ∃ d, s'.returns = s.returns ++ [.pop t (some d)] := by
  simp only [QueueState.tqPopEnt, Option.bind_eq_bind, Option.bind_eq_some_iff, Option.pure_def,
    Option.some.injEq] at h
  obtain ⟨n, _, d, _, h₁, _, h₂, _, rfl⟩ := h
  exact ⟨d, rfl⟩

theorem listEmpty_cases {nodes items : List Addr} (h : QueueInv s nodes items) (t : Nat) :
    s.heap.listEmpty s.head = some true ∨
    s.heap.listEmpty s.head = some false ∧ ∃ s₁ d, s.tqPopEnt t = some s₁ ∧
      s₁.returns = s.returns ++ [.pop t (some d)] := by
  obtain ⟨n, hn, ⟨hnext, _⟩ | ⟨d, nodes', items', hnodes, hitems, hne⟩⟩ := h.heap.first
  · exact .inl (by simp [Heap.listEmpty, hn, hnext])
  · obtain ⟨s₁, hpop, _⟩ := tqPopEnt_inv (t := t) h hn hnodes hitems
    obtain ⟨d, hreturns⟩ := tqPopEnt_returns hpop
    exact .inr ⟨by simp [Heap.listEmpty, hn, hne], s₁, d, hpop, hreturns⟩

theorem queueStep_blockingTurn {nodes items : List Addr} (h : QueueInv s nodes items)
    (hstep : queueStep s e = some s') (hturn : s.blockingTurn e = true) : BlockingTurn s s' e := by
  rw [queueStep.eq_def, Option.ite_none_left_eq_some] at hstep
  obtain ⟨_, hstep⟩ := hstep
  cases e with
  | pop t timed =>
    obtain rfl : timed = false := by simpa [QueueState.blockingTurn] using hturn
    obtain ⟨_, hs'⟩ := Option.ite_none_right_eq_some.mp hstep
    obtain rfl := Option.some.inj hs'
    rcases listEmpty_cases h t with hempty | ⟨hsome, s₁, d, hpop, hreturns⟩
    · have hgoto : s.tqPop t false = some (s.goto t (.waiting false)) := by
        simp [QueueState.tqPop, hempty]
      rw [orFault_of_some hgoto]
      exact .waits t rfl
    · have htake : s.tqPop t false = some s₁ := by simp [QueueState.tqPop, hsome, hpop]
      rw [orFault_of_some htake]
      exact .takes t d hreturns hsome
  | wake t rc =>
    have hwaits : s.pc t = .waiting false := by simpa [QueueState.blockingTurn] using hturn
    simp only [hwaits] at hstep
    cases rc with
    | true => simp at hstep
    | false =>
      simp only [Bool.false_and, Bool.false_eq_true, if_false, Option.some.injEq] at hstep
      subst hstep
      rcases listEmpty_cases h t with hempty | ⟨hsome, s₁, d, hpop, hreturns⟩
      · have hnone : s.tqPopWoken t false = some (s.leave t (.pop t none)) := by
          simp [QueueState.tqPopWoken, hempty]
        rw [orFault_of_some hnone]
        exact .nothing hwaits hempty rfl
      · have htake : s.tqPopWoken t false = some s₁ := by simp [QueueState.tqPopWoken, hsome, hpop]
        rw [orFault_of_some htake]
        exact .takes t d hreturns hsome
  | push | enqueue | freezethaw => cases hturn

theorem poppedSince_of_append {t : Nat} {rval : Option Addr}
    (h : s'.returns = s.returns ++ [.pop t rval]) : poppedSince s s' = [rval] := by
  rw [poppedSince, h, List.drop_left]
  rfl

/-- A null pointer that a pop takes from the list has been pushed. -/
theorem accepted_of_taken (h : QueueOk s') {t : Nat} {d : Addr}
    (hreturns : s'.returns = s.returns ++ [.pop t (some d)]) : d ∈ accepted s.returns := by
  obtain ⟨nodes, items, hinv⟩ := h
  have hall : accepted s'.returns = accepted s.returns := by
    rw [hreturns, accepted_append]
    exact List.append_nil _
  rw [← hall, hinv.accepted, hreturns, delivered_append]
  exact List.mem_append_left _ (List.mem_append_right _ List.mem_cons_self)

end Turns

section Watch

variable {w w' : PopWatch} {e : QueueEvent}

theorem watchStep_queue (hstep : watchStep w e = some w') : ∃ s, queueStep w.queue e = some s ∧
    w' = { queue := s
           wasFrozen := w.wasFrozen || e.freezes
           blocking := w.blocking ++
             if w.queue.blockingTurn e then (poppedSince w.queue s).map fun rval => (rval, w.reason) else [] } := by
  obtain ⟨s, hs, rfl⟩ := Option.map_eq_some_iff.mp hstep
  exact ⟨s, hs, rfl⟩

theorem nullForReason_append (rs : List (Option Addr × Bool)) (s : QueueState) (wasFrozen : Bool)
    (h : NullForReason w) : NullForReason ⟨s, wasFrozen, w.blocking ++ rs⟩ ↔
      ∀ r ∈ rs, r.1.getD 0 = 0 → r.2 = true := by
  rw [NullForReason, List.forall_mem_append]
  exact and_iff_right h

theorem watchStep_nullForReason_iff (hok : QueueOk w.queue) (h : NullForReason w)
    (hstep : watchStep w e = some w') : NullForReason w' ↔ WokenInTime w e := by
  obtain ⟨s', hs', rfl⟩ := watchStep_queue hstep
  rw [nullForReason_append _ _ _ h]
  cases hturn : w.queue.blockingTurn e with
  | false =>
    refine iff_of_true (by simp) ?_
    cases e with
    | wake t rc => exact fun hwaits => absurd hturn (by simp [QueueState.blockingTurn, hwaits])
    | _ => trivial
  | true =>
    rw [if_pos rfl, List.forall_mem_map]
    obtain ⟨nodes, items, hinv⟩ := hok
    have hafter := queueStep_ok ⟨nodes, items, hinv⟩ hs'
    cases queueStep_blockingTurn hinv hs' hturn with
    | waits t hreturns =>
      refine iff_of_true ?_ trivial
      simp [poppedSince, hreturns]
    | takes t d hreturns hsome =>
      have htaken := accepted_of_taken hafter hreturns
      rw [poppedSince_of_append hreturns]
      refine iff_of_true ?_ ?_
      · simp only [List.mem_singleton, forall_eq, Option.getD_some]
        rintro rfl
        simp [PopWatch.reason, htaken]
      · cases e with
        | wake t rc => exact fun _ hempty => by simp [hsome] at hempty
        | _ => trivial
    | nothing hwaits hempty hreturns =>
      rw [poppedSince_of_append hreturns]
      simp [WokenInTime, hwaits, hempty]

end Watch

theorem run_nullForReason_iff {head : Addr} {es : List QueueEvent} {w : PopWatch}
    (hrun : run watchStep (watchNew head) es = some w) :
    Throughout watchStep NullForReason (watchNew head) es ↔ Along watchStep WokenInTime (watchNew head) es := by
  refine throughout_iff_along (I := fun w => QueueOk w.queue) ?_ watchStep_nullForReason_iff hrun (tqNew_ok head) nofun
  intro w e w' hok hstep
  obtain ⟨s, hs, rfl⟩ := watchStep_queue hstep
  exact queueStep_ok hok hs

theorem run_nullForReason_delivered :
    Throughout watchStep NullForReason (watchNew 1)
      [.pop 0 false, .push 2 7 (some 5), .enqueue 2, .wake 0 false] := by
  refine (run_nullForReason_iff (w := _) rfl).mpr ?_
  rw [along_cons rfl, along_cons rfl, along_cons rfl, along_cons rfl]
  refine ⟨trivial, trivial, trivial, fun _ hempty => ?_, trivial⟩
  exact absurd hempty (by decide)

/-- Two consumers and one item: the one that waits comes back to an empty list. -/
theorem run_nullForReason_taken : ∃ w, run watchStep (watchNew 1)
    [.pop 0 false, .push 2 7 (some 5), .enqueue 2, .pop 1 false, .wake 0 false] = some w ∧
    ¬ NullForReason w := by
  refine ⟨_, rfl, fun h => ?_⟩
  have htaken := h (none, false)
  exact absurd (htaken (List.mem_cons_of_mem _ List.mem_cons_self) rfl) (by decide)

end VerusMiner
