import VerusMiner.WorkioMoves

/-! What becomes of the shares the workio thread takes off its queue: which
are lost without a word. -/

namespace VerusMiner

/-- A share handed over by this algorithm's branch counts as done only when
its whole line was written, or it was discarded. -/
def Completion.Honest (x : Completion) : Prop :=
  x.choice = .verus → x.ok = true →
    (∃ p, x.how = .written p ∧ p.isWhole = true) ∨ x.how = .discarded ∨ x.how = .poolChanged

def NoSilentLoss (s : WorkioState) : Prop := ∀ x ∈ s.completed, x.Honest

/-- The message can be put together, and the socket takes all of it. -/
def WritesWhole (s : WorkioState) : WorkioEvent → Prop
  | .compose allocated => allocated = true
  | .send outs => ∀ c user line x due, s.pc = .composed c user line x due → line.length < carried outs
  | _ => True

section Loss

variable {cfg : WorkioConfig} {s s' : WorkioState} {e : WorkioEvent}

theorem noSilentLoss_append {x : Completion} (h : s'.completed = s.completed ++ [x]) :
    NoSilentLoss s' ↔ NoSilentLoss s ∧ x.Honest := by
  simp [NoSilentLoss, h, or_imp, forall_and]

theorem noSilentLoss_same (h : s'.completed = s.completed) : NoSilentLoss s' ↔ NoSilentLoss s := by
  rw [NoSilentLoss, h, NoSilentLoss]

theorem judge_noSilentLoss {c : Command} {failures : Nat} {solved sent : Bool}
    (h : NoSilentLoss s) : NoSilentLoss (s.judge cfg c failures solved sent) := by
  obtain ⟨_, _, ⟨how, hv, _, hcompleted⟩ | ⟨_, _, _, hcompleted⟩⟩ :=
    judge_cases cfg c failures solved sent s
  · refine (noSilentLoss_append hcompleted).mpr ⟨h, fun hverus => ?_⟩
    rcases hv with ⟨hstale, _⟩ | ⟨hknown, _⟩
    · exact absurd (hstale.symm.trans hverus) (by decide)
    · exact absurd (hknown.symm.trans hverus) (by decide)
  · exact (noSilentLoss_same hcompleted).mpr h

theorem workioStep_noSilentLoss (hs : NoSilentLoss s) (h : workioStep cfg s e = some s') :
    NoSilentLoss s' ↔ WritesWhole s e := by
  cases workioStep_move h with
  | submitWork | install | startStratum | connect | subscribed | setTarget | plainFailed
  | unanswered | retried => exact iff_of_true hs trivial
  | poolSwitch pooln | failover =>
    exact iff_of_true ((noSilentLoss_same (poolSwitch_ledgers cfg _ s).1).mpr hs) trivial
  | taken | again => exact iff_of_true (judge_noSilentLoss hs) trivial
  | composed => exact iff_of_true hs rfl
  | unsent =>
    -- the share is done with, and nothing of it was written
    refine iff_of_false (fun hloss => ?_) Bool.false_ne_true
    have hhonest := ((noSilentLoss_append (s := s) rfl).mp hloss).2 rfl rfl
    simp at hhonest
  | @sent c user line x due outs part ret hpc hline =>
    obtain ⟨htext, hsent, _⟩ := sendLine_eq hline
    have hwhole : part.isWhole = true ↔ line.length < carried outs := by
      simp only [Part.isWhole, beq_iff_eq, htext, hsent, terminated, List.length_append,
        List.length_singleton]
      omega
    have hhonest : (⟨c, .verus, true, .written part⟩ : Completion).Honest ↔ part.isWhole = true := by
      simp [Completion.Honest]
    rw [noSilentLoss_append (s := s) rfl, hhonest, hwhole, and_iff_right hs]
    constructor
    · intro hline c' user' line' x' due' hpc'
      cases hpc.symm.trans hpc'
      exact hline
    · exact fun hall => hall c user line x due hpc
  | plainSent | answered =>
    exact iff_of_true ((noSilentLoss_append (s := s) rfl).mpr ⟨hs, fun h => by cases h⟩) trivial
  | poolChanged =>
    exact iff_of_true ((noSilentLoss_append (s := s) rfl).mpr ⟨hs, fun _ _ => .inr (.inr rfl)⟩) trivial
  | gaveUp =>
    exact iff_of_true ((noSilentLoss_append (s := s) rfl).mpr ⟨hs, fun _ hok => by cases hok⟩) trivial

/-- Of the shares that went by this algorithm's branch none is ever reported
done without having been written whole, exactly when every one is. -/
theorem run_noSilentLoss_iff {t : WorkioState} {es : List WorkioEvent} (hs : s.completed = [])
    (hrun : run (workioStep cfg) s es = some t) :
    Throughout (workioStep cfg) NoSilentLoss s es ↔ Along (workioStep cfg) WritesWhole s es :=
  throughout_iff_along (I := fun _ => True) (fun _ _ => trivial)
    (fun _ hs h => workioStep_noSilentLoss hs h) hrun trivial (by simp [NoSilentLoss, hs])

end Loss

/-- The socket is not writable when the share is sent. -/
theorem share_dropped : ∃ es t, run (workioStep demoWorkio) startedWorkio es = some t ∧
    ¬ Throughout (workioStep demoWorkio) NoSilentLoss startedWorkio es := by
  obtain ⟨s, hcomposed, hpc, hcompleted, _⟩ := run_composedShare
  obtain ⟨t, hsend, hlast, _⟩ := workioStep_send demoWorkio hpc
    (rfl : sendLine [.notWritable] shareLine = some (.start (terminated shareLine), false))
  have hrun := run_append.mpr ⟨s, hcomposed, run_singleton hsend⟩
  refine ⟨_, t, hrun, fun h => ?_⟩
  have hhonest := throughout_last hrun h _ (by rw [hlast]; exact List.mem_append_right _ (.head _)) rfl rfl
  simp [start_not_whole] at hhonest

theorem run_noSilentLoss_written :
    ∃ t, run (workioStep demoWorkio) startedWorkio (composedShare ++ [.send [.sent 20480]]) = some t ∧
      Throughout (workioStep demoWorkio) NoSilentLoss startedWorkio
        (composedShare ++ [.send [.sent 20480]]) := by
  obtain ⟨s, hcomposed, hpc, _⟩ := run_composedShare
  obtain ⟨part, hline⟩ := sendLine_shareLine
  obtain ⟨t, hsend, _⟩ := workioStep_send demoWorkio hpc hline
  have hrun := run_append.mpr ⟨s, hcomposed, run_singleton hsend⟩
  refine ⟨t, hrun, (run_noSilentLoss_iff rfl hrun).mpr ((along_append hcomposed).mpr ⟨?_, ?_, ?_⟩)⟩
  · exact ⟨trivial, fun _ _ => ⟨trivial, fun _ _ => ⟨rfl, fun _ _ => trivial⟩⟩⟩
  · intro c user line x due hpc'
    cases hpc.symm.trans hpc'
    exact length_submitLine ..
  · exact fun _ _ => trivial

end VerusMiner
