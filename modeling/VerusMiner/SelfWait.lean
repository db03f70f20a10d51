import VerusMiner.RequestMoves

/-! When the workio thread waits for itself: in its own request, or at a lock
that is held by a thread waiting for its reply. -/

namespace VerusMiner

/-- The lock the workio thread is at. -/
def ServerPc.wants : ServerPc → Option Mutex
  | .comparing _ _ => some .gWork
  | .failover _ .waiting => none
  | .failover _ _ => some .stratumWork
  | _ => none

/-- The workio thread waits for no reply, and no thread that waits for one
holds the lock it is at. -/
def NoSelfWait (s : RequestState) : Prop :=
  s.calls .workio = none ∧
    ∀ t l, (s.calls t).isSome → s.held l = some t → s.server.wants ≠ some l

/-- A step leads into no wait of the workio thread for itself: it asks for no
work, and comes to no lock with a waiting holder; no thread starts to wait
under the lock it is at. -/
def KeepsClear (cfg : RequestConfig) (s : RequestState) : RequestEvent → Prop
  | .getWork _ => s.server.wants ≠ some .gWork
  | .submit isEquihash behind => ∀ thr pooln failures,
      s.server = .submitting (.submitWork thr pooln) failures →
      comparesJobs cfg s pooln isEquihash behind = true → s.held .gWork = none
  | .settle => ∀ c, s.server = .failed c → failsOver cfg s = true → s.held .stratumWork = none
  | .switch t => s.stage t = some .asking → t ≠ .workio ∧ s.server.wants ≠ some .stratumWork
  | _ => True

structure LocksCalled (s : RequestState) : Prop where
  called : ∀ l t, s.held l = some t → (s.calls t).isSome
  stopped : s.workFrozen = true → s.server = .stopped

namespace LocksCalled

variable {s s' : RequestState}

theorem quiet (h : LocksCalled s) (hq : Quiet s s') : LocksCalled s' where
  called l t hheld := by
    rw [hq.calls]
    rw [hq.held] at hheld
    exact h.called l t hheld
  stopped hfrozen := by
    rw [hq.workFrozen] at hfrozen
    have hstopped := h.stopped hfrozen
    rcases hq.server with heq | ⟨c, hc, _⟩
    · rw [heq, hstopped]
    · rw [hstopped] at hc
      cases hc

theorem server (h : LocksCalled s) {pc : ServerPc} (hpc : s.server ≠ .stopped) :
    LocksCalled { s with server := pc } :=
  ⟨h.called, fun hfrozen => absurd (h.stopped hfrozen) hpc⟩

theorem post (h : LocksCalled s) (t : Thread) (thr : Nat) (l : Mutex) : LocksCalled (s.post t thr l) where
  called l' t' hheld := by
    change (Function.update s.calls t _ t').isSome
    by_cases ht : t' = t
    · rw [ht, Function.update_self]
      rfl
    · rw [Function.update_of_ne ht]
      change Function.update s.held l (some t) l' = some t' at hheld
      by_cases hl : l' = l
      · rw [hl, Function.update_self] at hheld
        exact absurd (Option.some.inj hheld).symm ht
      · rw [Function.update_of_ne hl] at hheld
        exact h.called l' t' hheld
  stopped := h.stopped

theorem returnCall (h : LocksCalled s) (t : Thread) (c : Call) (reply : Option Reply) :
    LocksCalled (s.returnCall t c reply) := by
  refine ⟨fun l t' hheld => ?_, h.stopped⟩
  change (if s.held l = some t then none else s.held l) = some t' at hheld
  change (Function.update s.calls t none t').isSome
  split_ifs at hheld with hmine
  rw [Function.update_of_ne]
  · exact h.called l t' hheld
  · rintro rfl
    exact hmine hheld

theorem push (h : LocksCalled s) (thr : Nat) (r : Reply) : LocksCalled (s.push thr r) := by
  unfold RequestState.push
  split_ifs
  · exact h
  · exact ⟨h.called, h.stopped⟩

theorem stop (h : LocksCalled s) : LocksCalled s.stop := ⟨h.called, fun _ => rfl⟩

theorem finish (h : LocksCalled s) (c : WorkioCmd) (ok : Bool) (hhand : s.server.inHand.isSome) :
    LocksCalled (s.finish c ok) := by
  have hfree : LocksCalled (s.free c) := ⟨h.called, h.stopped⟩
  unfold RequestState.finish
  split_ifs
  · refine hfree.server fun hstopped => ?_
    rw [show s.server = .stopped from hstopped] at hhand
    cases hhand
  · exact hfree.stop

end LocksCalled

section Steps

variable {cfg : RequestConfig} {s s' : RequestState} {e : RequestEvent}

theorem push_server (s : RequestState) (thr : Nat) (r : Reply) : (s.push thr r).server = s.server := by
  unfold RequestState.push
  split_ifs <;> rfl

theorem LocksCalled.step (h : LocksCalled s) (hstep : requestStep cfg s e = some s') : LocksCalled s' := by
  cases requestStep_move hstep with
  | quiet hq => exact h.quiet hq
  | enqueued hreq hq =>
    refine LocksCalled.quiet ?_ hq
    unfold RequestState.enqueue
    split_ifs
    · exact h
    · exact ⟨h.called, h.stopped⟩
  | asked hcall hthawed hq => exact (h.post _ _ _).quiet hq
  | switchAsked hstage hcall hthawed hq => exact (h.post _ _ _).quiet hq
  | selfAsked hserver hcall hthawed =>
    refine (h.post _ _ _).server fun hstopped => ?_
    rw [show s.server = .stopped from hstopped] at hserver
    cases hserver
  | @received t c r rest _ hcall hqueue hq =>
    have hpopped : LocksCalled (s.setQueue c.queue rest) := ⟨h.called, h.stopped⟩
    exact (hpopped.returnCall _ _ _).quiet hq
  | woken hcall hqueue hq => exact (h.returnCall _ _ _).quiet hq
  | @exited i _ hq =>
    have hfrozen : LocksCalled (s.freeze i) := ⟨h.called, h.stopped⟩
    exact hfrozen.quiet hq
  | taken hserver hqueue hpc hfits =>
    refine ⟨h.called, fun hfrozen => ?_⟩
    rw [h.stopped hfrozen] at hserver
    cases hserver
  | wokenServer hserver hqueue => exact h.stop
  | answered work hhand =>
    refine (h.push _ _).finish _ _ ?_
    rw [push_server, hhand]
    rfl
  | done he hhand => exact h.finish _ _ (by rw [hhand]; rfl)
  | gaveUp hserver hstop => exact h.finish _ _ (by rw [hserver]; rfl)
  | replied hserver hthr =>
    refine (h.push _ _).finish _ _ ?_
    rw [push_server, hserver]
    rfl
  | crashed hserver hthr => exact h.server (by rw [hserver]; exact fun hpc => by cases hpc)

theorem noSelfWait_iff (h : LocksCalled s) :
    NoSelfWait s ↔ s.calls .workio = none ∧ ∀ l, s.server.wants = some l → s.held l = none := by
  refine and_congr_right fun _ => ⟨fun hclear l hwants => ?_, fun hclear t l _ hheld hwants => ?_⟩
  · cases hheld : s.held l with
    | none => rfl
    | some t => exact absurd hwants (hclear t l (h.called l t hheld) hheld)
  · rw [hclear l hwants] at hheld
    cases hheld

theorem NoSelfWait.of_wants_none (hcalls : s.calls .workio = none) (hwants : s.server.wants = none) :
    NoSelfWait s := by
  refine ⟨hcalls, fun t l _ _ h => ?_⟩
  rw [hwants] at h
  cases h

theorem NoSelfWait.of_free (hcalls : s.calls .workio = none) {l : Mutex} (hfree : s.held l = none)
    (hwants : ∀ l', s.server.wants = some l' → l' = l) : NoSelfWait s := by
  refine ⟨hcalls, fun t l' _ hheld h => ?_⟩
  rw [hwants l' h, hfree] at hheld
  cases hheld

theorem noSelfWait_congr (hheld : s'.held = s.held) (hcalls : s'.calls = s.calls)
    (hserver : s'.server = s.server) : NoSelfWait s' ↔ NoSelfWait s := by
  rw [NoSelfWait, NoSelfWait, hheld, hcalls, hserver]

theorem noSelfWait_post (h : LocksCalled s) (hclear : NoSelfWait s) {t : Thread} (ht : t ≠ .workio)
    (thr : Nat) (l : Mutex) : NoSelfWait (s.post t thr l) ↔ s.server.wants ≠ some l := by
  have hcalled : ((s.post t thr l).calls t).isSome := by
    change (Function.update s.calls t _ t).isSome
    rw [Function.update_self]
    rfl
  have hholds : (s.post t thr l).held l = some t := by
    change Function.update s.held l (some t) l = some t
    rw [Function.update_self]
  constructor
  · intro hafter
    exact hafter.2 t l hcalled hholds
  · intro hwants
    refine ⟨(Function.update_of_ne ht.symm _ _).trans hclear.1, fun t' l' _ hheld => ?_⟩
    by_cases hl : l' = l
    · rw [hl]
      exact hwants
    · change Function.update s.held l (some t) l' = some t' at hheld
      rw [Function.update_of_ne hl] at hheld
      exact hclear.2 t' l' (h.called l' t' hheld) hheld

theorem setStage_server_of_ne {t : Thread} (ht : t ≠ .workio) (stage : SwitchStage) :
    (s.setStage stage t).server = s.server := by
  cases t with
  | workio => exact absurd rfl ht
  | miner i => rfl
  | other i => rfl

theorem switched_server_of_ne {t : Thread} (ht : t ≠ .workio) (ok : Bool) :
    (s.switched ok t).server = s.server := by
  cases t with
  | workio => exact absurd rfl ht
  | miner i => rfl
  | other i => rfl

theorem moveTo_server_of_ne {t : Thread} (ht : t ≠ .workio) (prevn pooln : Int) :
    (s.moveTo t prevn pooln).server = s.server := by
  unfold RequestState.moveTo
  split_ifs
  · exact setStage_server_of_ne ht _
  · exact switched_server_of_ne ht _

theorem enterSwitch_server_of_ne {t : Thread} (ht : t ≠ .workio) (pooln : Int) :
    (s.enterSwitch t pooln).server = s.server := by
  simp only [RequestState.enterSwitch]
  split_ifs
  · exact setStage_server_of_ne ht _
  · exact moveTo_server_of_ne ht _ _

theorem finish_calls (s : RequestState) (c : WorkioCmd) (ok : Bool) : (s.finish c ok).calls = s.calls := by
  unfold RequestState.finish
  split_ifs <;> rfl

theorem NoSelfWait.finish (hclear : NoSelfWait s) (c : WorkioCmd) (ok : Bool) :
    NoSelfWait (s.finish c ok) := by
  refine .of_wants_none ((congrFun (finish_calls s c ok) .workio).trans hclear.1) ?_
  unfold RequestState.finish
  split_ifs <;> rfl

theorem NoSelfWait.push (hclear : NoSelfWait s) (thr : Nat) (r : Reply) : NoSelfWait (s.push thr r) := by
  unfold RequestState.push
  split_ifs
  · exact hclear
  · exact hclear

theorem NoSelfWait.returnCall (hclear : NoSelfWait s) (t : Thread) (c : Call) (reply : Option Reply) :
    NoSelfWait (s.returnCall t c reply) := by
  constructor
  · change Function.update s.calls t none .workio = none
    by_cases ht : Thread.workio = t
    · rw [ht, Function.update_self]
    · rw [Function.update_of_ne ht, hclear.1]
  · intro t' l hcalls hheld
    change (Function.update s.calls t none t').isSome at hcalls
    change (if s.held l = some t then none else s.held l) = some t' at hheld
    split_ifs at hheld with hmine
    rw [Function.update_of_ne] at hcalls
    · exact hclear.2 t' l hcalls hheld
    · rintro rfl
      exact hmine hheld

theorem noSelfWait_enterSwitch {t : Thread} (ht : t ≠ .workio) (pooln : Int) :
    NoSelfWait (s.enterSwitch t pooln) ↔ NoSelfWait s :=
  have hquiet := Quiet.enterSwitch s t pooln
  noSelfWait_congr hquiet.held hquiet.calls (enterSwitch_server_of_ne ht pooln)

theorem setStage_workio {c : WorkioCmd} {stage' : SwitchStage}
    (hserver : s.server = .failed c ∨ s.server = .failover c stage') (stage : SwitchStage) :
    (s.setStage stage .workio).server = .failover c stage := by
  simp only [RequestState.setStage]
  rcases hserver with hserver | hserver
  · rw [hserver]
  · rw [hserver]

theorem switched_workio {c : WorkioCmd} {stage' : SwitchStage}
    (hserver : s.server = .failed c ∨ s.server = .failover c stage') (ok : Bool) :
    (s.switched ok .workio).server = .replying c ok := by
  simp only [RequestState.switched]
  rcases hserver with hserver | hserver
  · rw [hserver]
  · rw [hserver]

theorem moveTo_workio_wants {c : WorkioCmd} {stage' : SwitchStage}
    (hserver : s.server = .failed c ∨ s.server = .failover c stage') (prevn pooln : Int) :
    (s.moveTo .workio prevn pooln).server.wants =
      if pooln < s.table.numPools then some .stratumWork else none := by
  unfold RequestState.moveTo
  split_ifs
  · have hmoved := setStage_workio (s := { s with table := { s.table with curPooln := pooln } })
      hserver (.moved prevn pooln)
    rw [hmoved]
    rfl
  · rw [switched_workio hserver]
    rfl

theorem poolGetFirstValid_lt {s : PoolTable} (hnum : 0 < s.numPools) (startfrom : Int) :
    (poolGetFirstValid s startfrom).1 < s.numPools := by
  have hloop (n : Nat) (i : Int) : (firstValidLoop s startfrom n i).1 < s.numPools := by
    induction n generalizing i with
    | zero => exact hnum
    | succ n ih =>
      rw [firstValidLoop]
      split_ifs
      · exact Int.tmod_lt_of_pos _ hnum
      · exact ih (i + 1)
  exact hloop _ 0

theorem NoSelfWait.enqueue (hclear : NoSelfWait s) (c : WorkioCmd) : NoSelfWait (s.enqueue c) := by
  unfold RequestState.enqueue
  split_ifs
  · exact hclear
  · exact hclear

/-- A stage of a pool switch that only passes the lock. -/
theorem NoSelfWait.pass (hclear : NoSelfWait s) {t : Thread} (hquiet : Quiet s s')
    (hfree : s.held .stratumWork = none) (hother : t ≠ .workio → s'.server = s.server)
    (hwants : t = .workio → ∀ l, s'.server.wants = some l → l = .stratumWork) : NoSelfWait s' := by
  by_cases ht : t = .workio
  · exact .of_free ((congrFun hquiet.calls _).trans hclear.1) ((congrFun hquiet.held _).trans hfree)
      (hwants ht)
  · exact (noSelfWait_congr hquiet.held hquiet.calls (hother ht)).mpr hclear

theorem noSelfWait_switch (h : LocksCalled s) (hclear : NoSelfWait s) {t : Thread} {stage : SwitchStage}
    (hstage : s.stage t = some stage) (hstep : switchStep s t stage = some s') :
    NoSelfWait s' ↔ (stage = .asking → t ≠ .workio ∧ s.server.wants ≠ some .stratumWork) := by
  cases stage with
  | freeing prevn pooln =>
    simp only [switchStep] at hstep
    split_ifs at hstep with hheld
    cases hstep
    refine iff_of_true ?_ (fun hasking => by cases hasking)
    refine hclear.pass (.moveTo s t prevn pooln) (Option.not_isSome_iff_eq_none.mp hheld)
      (fun ht => moveTo_server_of_ne ht _ _) ?_
    rintro rfl l hwants
    obtain ⟨c, hserver⟩ := stage_workio hstage
    rw [moveTo_workio_wants (.inr hserver)] at hwants
    split_ifs at hwants
    exact (Option.some.inj hwants).symm
  | moved prevn pooln =>
    simp only [switchStep] at hstep
    split at hstep
    · cases hstep
    · rename_i hheld
      have hfree := Option.not_isSome_iff_eq_none.mp hheld
      have hquiet := Quiet.of_table s s.table (decide ((s.table.pools pooln).type = .stratum))
      refine iff_of_true ?_ (fun hasking => by cases hasking)
      cases hstep
      split_ifs
      · refine hclear.pass (hquiet.trans (.setStage _ (fun hasking => by cases hasking) t)) hfree
          (fun ht => setStage_server_of_ne ht _) ?_
        rintro rfl l hwants
        obtain ⟨c, hserver⟩ := stage_workio hstage
        rw [setStage_workio (s := s.setHaveStratum (decide _)) (.inr hserver)] at hwants
        exact (Option.some.inj hwants).symm
      · refine hclear.pass (hquiet.trans (.switched _ _ t)) hfree
          (fun ht => switched_server_of_ne ht _) ?_
        rintro rfl l hwants
        obtain ⟨c, hserver⟩ := stage_workio hstage
        rw [switched_workio (s := s.setHaveStratum (decide _)) (.inr hserver)] at hwants
        cases hwants
  | asking =>
    simp only [switchStep] at hstep
    split_ifs at hstep with hheld hfrozen
    · -- the queue is frozen by the workio thread alone, at its end
      cases hstep
      have hstopped := h.stopped hfrozen
      have ht : t ≠ .workio := by
        rintro rfl
        obtain ⟨c, hserver⟩ := stage_workio hstage
        rw [hserver] at hstopped
        cases hstopped
      have hquiet := Quiet.switched s true t
      refine iff_of_true ((noSelfWait_congr hquiet.held hquiet.calls
        (switched_server_of_ne ht true)).mpr hclear) fun _ => ⟨ht, ?_⟩
      rw [hstopped]
      exact fun hwants => by cases hwants
    · cases hstep
      by_cases ht : t = .workio
      · refine iff_of_false (fun hafter => ?_) (fun hok => (hok rfl).1 ht)
        subst ht
        obtain ⟨c, hserver⟩ := stage_workio hstage
        rw [setStage_failover (s := s.post .workio 0 .stratumWork) hserver] at hafter
        have hcalls : Function.update s.calls .workio _ .workio = none := hafter.1
        rw [Function.update_self] at hcalls
        cases hcalls
      · have hquiet : Quiet (s.post t 0 .stratumWork) _ := .setStage_of_ne ht .waiting
        rw [noSelfWait_congr hquiet.held hquiet.calls (setStage_server_of_ne ht _),
          noSelfWait_post h hclear ht]
        exact ⟨fun hwants _ => ⟨ht, hwants⟩, fun hok => (hok rfl).2⟩
  | waiting => cases hstep

theorem noSelfWait_resumed (hclear : NoSelfWait s) {t : Thread} (ht : t ≠ .workio) (c : Call)
    (reply : Option Reply) : NoSelfWait (s.resumed t c reply) := by
  have hquiet := Quiet.switched (s.returnCall t c reply) true t
  exact (noSelfWait_congr hquiet.held hquiet.calls (switched_server_of_ne ht true)).mpr
    (hclear.returnCall t c reply)

theorem noSelfWait_failover (h : LocksCalled s) (hclear : NoSelfWait s) {c : WorkioCmd}
    (hserver : s.server = .failed c) (hover : failsOver cfg s = true) :
    NoSelfWait (s.enterSwitch .workio (poolGetFirstValid s.table (s.table.curPooln + 1)).1) ↔
      s.held .stratumWork = none := by
  have hnum : 1 < s.table.numPools := by
    rw [failsOver, Bool.and_eq_true, decide_eq_true_eq] at hover
    exact hover.1
  have hfirst := poolGetFirstValid_lt (s := s.table) (by omega) (s.table.curPooln + 1)
  have hquiet := Quiet.enterSwitch s .workio (poolGetFirstValid s.table (s.table.curPooln + 1)).1
  have hfailed : s.server = .failed c ∨ s.server = .failover c .waiting := .inl hserver
  have hwants : (s.enterSwitch .workio (poolGetFirstValid s.table (s.table.curPooln + 1)).1).server.wants =
      some .stratumWork := by
    simp only [RequestState.enterSwitch]
    split_ifs
    · rw [setStage_workio hfailed]
      rfl
    · rw [moveTo_workio_wants hfailed, if_pos hfirst]
  rw [noSelfWait_iff (h.quiet hquiet), hquiet.calls, hquiet.held, hwants]
  exact ⟨fun hafter => hafter.2 _ rfl, fun hfree => ⟨hclear.1, fun l hl => Option.some.inj hl ▸ hfree⟩⟩

theorem noSelfWait_comparing (h : LocksCalled s) (hclear : NoSelfWait s) {c : WorkioCmd} {failures : Nat}
    (hserver : s.server = .submitting c failures) :
    NoSelfWait { s with server := .comparing c failures } ↔ s.held .gWork = none := by
  have hcalled : LocksCalled { s with server := .comparing c failures } :=
    h.server (by rw [hserver]; exact fun hpc => by cases hpc)
  rw [noSelfWait_iff hcalled]
  exact ⟨fun hafter => hafter.2 _ rfl, fun hfree => ⟨hclear.1, fun l hl => Option.some.inj hl ▸ hfree⟩⟩

theorem keepsClear_submit_iff {thr failures : Nat} {pooln : Int} {isEquihash behind : Bool}
    (hserver : s.server = .submitting (.submitWork thr pooln) failures) :
    KeepsClear cfg s (.submit isEquihash behind) ↔
      (comparesJobs cfg s pooln isEquihash behind = true → s.held .gWork = none) := by
  constructor
  · intro hok
    exact hok thr pooln failures hserver
  · intro hfree thr' pooln' failures' hserver'
    rw [hserver] at hserver'
    cases hserver'
    exact hfree

theorem noSelfWait_step (h : LocksCalled s) (hclear : NoSelfWait s)
    (hstep : requestStep cfg s e = some s') : NoSelfWait s' ↔ KeepsClear cfg s e := by
  have hcaller {t : Thread} {c : Call} (hcall : s.calls t = some c) : t ≠ .workio := by
    rintro rfl
    rw [hclear.1] at hcall
    cases hcall
  cases e with
  | noStratum i =>
    simp only [requestStep] at hstep
    split at hstep
    · split_ifs at hstep
      cases hstep
      exact iff_of_true hclear trivial
    · cases hstep
  | getWork i =>
    simp only [requestStep] at hstep
    split at hstep
    · split_ifs at hstep with hheld hfrozen
      · cases hstep
        refine iff_of_true hclear ?_
        rw [KeepsClear, h.stopped hfrozen]
        exact fun hwants => by cases hwants
      · cases hstep
        have ht : Thread.miner i ≠ .workio := fun ht => by cases ht
        exact noSelfWait_post h hclear ht i .gWork
    · cases hstep
  | submitWork i pooln =>
    simp only [requestStep] at hstep
    split at hstep
    · cases hstep
      exact iff_of_true (hclear.enqueue _) trivial
    · cases hstep
  | poolSwitch t pooln =>
    simp only [requestStep] at hstep
    split at hstep
    · split_ifs at hstep with ht
      cases hstep
      exact iff_of_true ((noSelfWait_enterSwitch ht pooln).mpr hclear) trivial
    · cases hstep
  | seturl t params =>
    simp only [requestStep] at hstep
    split at hstep
    · split_ifs at hstep with hnot
      · cases hstep
        exact iff_of_true hclear trivial
      · cases hstep
        rw [not_or] at hnot
        exact iff_of_true ((noSelfWait_enterSwitch hnot.1 _).mpr hclear) trivial
    · cases hstep
  | switch t =>
    obtain ⟨stage, hstage, hstep⟩ := Option.bind_eq_some_iff.mp hstep
    rw [noSelfWait_switch h hclear hstage hstep, KeepsClear, hstage, Option.some.injEq]
  | receive t =>
    simp only [requestStep] at hstep
    split at hstep
    · cases hstep
    · rename_i c hcall
      split at hstep
      · cases hstep
      · rename_i r rest hqueue
        cases hstep
        have hpopped : NoSelfWait (s.setQueue c.queue rest) := hclear
        exact iff_of_true (noSelfWait_resumed hpopped (hcaller hcall) c _) trivial
  | wake t =>
    simp only [requestStep] at hstep
    split at hstep
    · cases hstep
    · rename_i c hcall
      split at hstep
      · cases hstep
        exact iff_of_true (noSelfWait_resumed hclear (hcaller hcall) c none) trivial
      · cases hstep
  | exit i =>
    simp only [requestStep] at hstep
    split at hstep
    · cases hstep
      exact iff_of_true hclear trivial
    · cases hstep
  | abort flag =>
    cases hstep
    exact iff_of_true (hclear.enqueue .abort) trivial
  | take allocated =>
    simp only [requestStep] at hstep
    split at hstep
    · rename_i c rest hserver hqueue
      cases hstep
      refine iff_of_true (.of_wants_none hclear.1 ?_) trivial
      cases c with
      | getWork req thr pooln => cases allocated <;> rfl
      | submitWork thr pooln => rfl
      | abort => rfl
    · cases hstep
  | wakeServer =>
    simp only [requestStep] at hstep
    split at hstep
    · cases hstep
      exact iff_of_true (.of_wants_none hclear.1 rfl) trivial
    · cases hstep
  | fetch answered =>
    simp only [requestStep] at hstep
    split at hstep
    · cases hstep
      refine iff_of_true ?_ trivial
      split_ifs
      · exact (hclear.push _ _).finish _ _
      · exact (hclear.push _ _).finish _ _
      · exact .of_wants_none hclear.1 rfl
      · exact .of_wants_none hclear.1 rfl
    · cases hstep
  | submit isEquihash behind =>
    simp only [requestStep] at hstep
    split at hstep
    · rename_i thr pooln failures hserver
      rw [keepsClear_submit_iff hserver]
      cases hstep
      split_ifs with hverus hcompares
      · refine iff_of_true (hclear.finish _ _) fun hcompares => ?_
        simp [comparesJobs, hverus] at hcompares
      · rw [noSelfWait_comparing h hclear hserver]
        exact ⟨fun hfree _ => hfree, fun hok => hok hcompares⟩
      · exact iff_of_true (hclear.finish _ _) fun hcompares' => absurd hcompares' hcompares
      · exact iff_of_true (.of_wants_none hclear.1 rfl) fun hcompares' => absurd hcompares' hcompares
    · cases hstep
  | compare differs =>
    simp only [requestStep] at hstep
    split at hstep
    · split at hstep
      · cases hstep
      · cases hstep
        refine iff_of_true ?_ trivial
        split_ifs
        · exact hclear.finish _ _
        · exact .of_wants_none hclear.1 rfl
    · cases hstep
  | send ok =>
    simp only [requestStep] at hstep
    split at hstep
    · cases hstep
      refine iff_of_true ?_ trivial
      split_ifs
      · exact hclear.finish _ _
      · exact .of_wants_none hclear.1 rfl
      · exact .of_wants_none hclear.1 rfl
    · cases hstep
  | settle =>
    simp only [requestStep] at hstep
    split at hstep
    · rename_i c hserver
      cases hstep
      split_ifs with hover
      · rw [noSelfWait_failover h hclear hserver hover]
        exact ⟨fun hfree _ _ _ => hfree, fun hok => hok c hserver hover⟩
      · refine iff_of_true (hclear.finish _ _) fun _ _ hover' => absurd hover' hover
    · cases hstep
  | reply =>
    simp only [requestStep] at hstep
    split at hstep
    · rename_i c ok hserver
      cases hstep
      refine iff_of_true ?_ trivial
      cases hthr : c.thr with
      | none => exact .of_wants_none hclear.1 rfl
      | some thr => exact (hclear.push _ _).finish _ _
    · cases hstep

end Steps

theorem requestStart_locksCalled (pools : PoolConfig) : LocksCalled (requestStart pools) :=
  ⟨fun _ _ hheld => (by cases hheld), fun hfrozen => (by cases hfrozen)⟩

theorem requestStart_noSelfWait (pools : PoolConfig) : NoSelfWait (requestStart pools) :=
  .of_wants_none rfl rfl

/-- In every run the workio thread never waits for itself exactly if no step
comes to such a wait. -/
theorem run_noSelfWait_iff (cfg : RequestConfig) (pools : PoolConfig) {es : List RequestEvent}
    {s : RequestState} (hrun : run (requestStep cfg) (requestStart pools) es = some s) :
    Throughout (requestStep cfg) NoSelfWait (requestStart pools) es ↔
      Along (requestStep cfg) (KeepsClear cfg) (requestStart pools) es :=
  throughout_iff_along LocksCalled.step noSelfWait_step hrun (requestStart_locksCalled pools)
    (requestStart_noSelfWait pools)

def openPool (type : PoolType) : PoolSlot :=
  { type := type, valid := true, disabled := false, removed := false }

def getworkPools : PoolConfig := { twoPools with pools := fun _ => openPool .getwork }

def oneRetry : RequestConfig where
  optRetries := 0
  optPoolFailover := true
  optSubmitStale := false
  submitOld := false

theorem run_noSelfWait_served :
    Throughout (requestStep oneRetry) NoSelfWait (requestStart getworkPools)
      [.noStratum 0, .getWork 0, .take true, .fetch true, .receive (.miner 0)] := by
  refine (run_noSelfWait_iff oneRetry getworkPools rfl).mpr ?_
  refine (along_cons rfl).mpr ⟨trivial, (along_cons rfl).mpr ⟨fun hwants => (by cases hwants), ?_⟩⟩
  exact (along_cons rfl).mpr ⟨trivial, (along_cons rfl).mpr ⟨trivial, (along_cons rfl).mpr ⟨trivial, trivial⟩⟩⟩

/-- The request that cannot be had from one getwork pool is asked for at the
next one, by the thread that would have to answer it. -/
theorem failover_waits_for_itself :
    ∃ s, run (requestStep oneRetry) (requestStart getworkPools)
        [.noStratum 0, .getWork 0, .take true, .fetch false, .settle, .switch .workio,
          .switch .workio] = some s ∧
      (s.calls .workio).isSome ∧ (s.calls (.miner 0)).isSome ∧ s.held .gWork = some (.miner 0) ∧
      ¬ NoSelfWait s := by
  refine ⟨_, rfl, rfl, rfl, rfl, fun h => ?_⟩
  have hcalls := h.1
  cases hcalls

end VerusMiner
