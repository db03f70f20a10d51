import VerusMiner.Lib.Framing
import VerusMiner.Lib.Runs
import VerusMiner.HexText

/-! Lines written to the socket of a pool: what one call of `send_line` leaves
on the connection, and what many of them do. -/

namespace VerusMiner

/-- What one turn of `send_line` meets: a socket that `select` finds not
writable, or a `send` that takes some bytes, would block, or fails. -/
inductive SockOutcome where
  | notWritable
  | sent (n : Nat)
  | wouldBlock
  | failed

def SockOutcome.taken : SockOutcome → Nat
  | .sent n => n
  | _ => 0

def SockOutcome.goesOn : SockOutcome → Bool
  | .sent _ | .wouldBlock => true
  | .notWritable | .failed => false

/-- How much the socket takes before a call gives up. -/
def carried (outs : List SockOutcome) : Nat :=
  ((outs.takeWhile SockOutcome.goesOn).map SockOutcome.taken).sum

def terminated (s : CString) : CString := s ++ ['\n']

/-- One turn of the loop, and what is returned if it is the last. -/
def sendTurn (p : Part Char) : SockOutcome → Part Char × Option Bool
  | .notWritable | .failed => (p, some false)
  | .wouldBlock => (p, none)
  | .sent n => (p.add n, if (p.add n).isWhole then some true else none)

def sendLoop : List SockOutcome → Part Char → Option (Part Char × Bool)
  | [], _ => none
  | o :: outs, p =>
    match sendTurn p o with
    | (p, some ret) => some (p, ret)
    | (p, none) => sendLoop outs p

def sendLine (outs : List SockOutcome) (s : CString) : Option (Part Char × Bool) :=
  sendLoop outs (.start (terminated s))

section Call

theorem carried_cons_of_goesOn {o : SockOutcome} (h : o.goesOn = true) (outs : List SockOutcome) :
    carried (o :: outs) = o.taken + carried outs := by
  simp [carried, List.takeWhile_cons_of_pos h]

theorem carried_cons_of_stops {o : SockOutcome} (h : o.goesOn = false) (outs : List SockOutcome) :
    carried (o :: outs) = 0 := by
  rw [carried, List.takeWhile_cons_of_neg (by simp [h])]
  rfl

theorem isWhole_add {p : Part Char} {n : Nat} :
    (p.add n).isWhole = true ↔ p.text.length ≤ p.sent + n := by
  simp only [Part.isWhole, Part.add, beq_iff_eq]
  omega

theorem sendLoop_eq {outs : List SockOutcome} {p q : Part Char} {ret : Bool}
    (hp : p.isWhole = false) (h : sendLoop outs p = some (q, ret)) :
    q = p.add (carried outs) ∧ ret = (p.add (carried outs)).isWhole := by
  -- the part carried along is one the socket has not taken whole
  induction outs generalizing p with
  | nil => cases h
  | cons o outs ih =>
    rw [sendLoop] at h
    cases o with
    | notWritable | failed =>
      cases h
      rw [carried_cons_of_stops rfl, Part.add_zero]
      exact ⟨rfl, hp.symm⟩
    | wouldBlock =>
      rw [carried_cons_of_goesOn rfl]
      simp only [SockOutcome.taken, Nat.zero_add]
      exact ih hp h
    | sent n =>
      rw [carried_cons_of_goesOn rfl, SockOutcome.taken]
      simp only [sendTurn] at h
      cases hwhole : (p.add n).isWhole with
      | true =>
        rw [hwhole] at h
        cases h
        have hle := isWhole_add.mp hwhole
        have hsame : p.add (n + carried outs) = p.add n := by
          simp only [Part.add, Part.mk.injEq, true_and]
          omega
        rw [hsame, hwhole]
        exact ⟨rfl, rfl⟩
      | false =>
        rw [hwhole] at h
        rw [← Part.add_add]
        exact ih hwhole h

theorem start_not_whole (s : CString) : (Part.start (terminated s)).isWhole = false := by
  simp [Part.start, Part.isWhole, terminated]

theorem sendLine_eq {outs : List SockOutcome} {s : CString} {q : Part Char} {ret : Bool}
    (h : sendLine outs s = some (q, ret)) :
    q.text = terminated s ∧ q.sent = min (carried outs) (s.length + 1) ∧
      (ret = true ↔ s.length < carried outs) := by
  obtain ⟨rfl, rfl⟩ := sendLoop_eq (start_not_whole s) h
  have hlength : (terminated s).length = s.length + 1 := List.length_append
  have hsent : ((Part.start (terminated s)).add (carried outs)).sent =
      min (0 + carried outs) (terminated s).length := rfl
  refine ⟨rfl, ?_, isWhole_add.trans ?_⟩
  · rw [hsent, hlength, Nat.zero_add]
  · rw [Part.start, hlength, Nat.zero_add]
    exact Nat.succ_le_iff

theorem sendLine_whole {n : Nat} {s : CString} (h : s.length < n) :
    sendLine [.sent n] s = some ((Part.start (terminated s)).add n, true) := by
  have hwhole : ((Part.start (terminated s)).add n).isWhole = true := by
    rw [isWhole_add]
    simp [Part.start, terminated, Nat.succ_le_of_lt h]
  simp only [sendLine, sendLoop, sendTurn, hwhole, if_true]

end Call

structure Connection where
  calls : List (Part Char)
  delivered : CString

/-- All connections ever opened, the one new calls write to, and the call
that holds `stratum_sock_lock` with the connection it began on. -/
structure Wire where
  conns : Nat → Connection
  sock : Nat
  sending : Option (Nat × Part Char)

inductive WireEvent where
  | send (s : CString)
  | turn (o : SockOutcome)
  | connect (sock : Nat)

def wireStep (w : Wire) : WireEvent → Option Wire
  | .send s =>
    match w.sending with
    | none => some { w with sending := some (w.sock, .start (terminated s)) }
    | some _ => none
  | .turn o =>
    match w.sending with
    | none => none
    | some (c, p) =>
      let conn := w.conns c
      let delivered := conn.delivered ++ p.rest o.taken
      match sendTurn p o with
      | (q, none) => some { w with
          conns := Function.update w.conns c { conn with delivered := delivered }
          sending := some (c, q) }
      | (q, some _) => some { w with
          conns := Function.update w.conns c { calls := conn.calls ++ [q], delivered := delivered }
          sending := none }
  | .connect sock => if (w.conns sock).calls = [] then some { w with sock := sock } else none

def Wire.running (w : Wire) (c : Nat) : List (Part Char) :=
  match w.sending with
  | some (c', p) => if c' = c then [p] else []
  | none => []

/-- The calls made on a connection, the one under way as the last. -/
def Wire.parts (w : Wire) (c : Nat) : List (Part Char) := (w.conns c).calls ++ w.running c

/-- Every connection carries whole lines, and then at most a beginning of the
line sent last. -/
def OutboundFramed (w : Wire) : Prop := ∀ c, Part.Framed (w.conns c).delivered (w.parts c)

/-- What the calls and the outcomes at the socket tell by themselves: the
connection new calls write to and the one of the last call, how long the line
of that call is and how much of it the socket took, and which connections
refused to take the rest of a line. -/
structure Outcomes where
  sock : Nat
  conn : Nat
  length : Nat
  taken : Nat
  cut : Nat → Bool

def Outcomes.after (h : Outcomes) : WireEvent → Outcomes
  | .send s => { h with conn := h.sock, length := (terminated s).length, taken := 0 }
  | .turn o => { h with
      taken := h.taken + o.taken
      -- a socket that would block has not refused
      cut := if o.goesOn = false ∧ 0 < h.taken ∧ h.taken < h.length then Function.update h.cut h.conn true
        else h.cut }
  | .connect sock => { h with sock := sock }

/-- No call is made on a connection whose socket took a line in part and then
refused to go on. -/
def BeginsUncut (h : Outcomes) : WireEvent → Prop
  | .send _ => h.cut h.sock = false
  | _ => True

/-- What was overheard so far is what the calls came to. -/
structure Heard (w : Wire) (h : Outcomes) : Prop where
  sock : h.sock = w.sock
  sending : ∀ c p, w.sending = some (c, p) →
    c = h.conn ∧ p.text.length = h.length ∧ p.sent = h.taken ∧ h.taken < h.length
  cut : ∀ c, h.cut c = false ↔ ∀ p ∈ (w.conns c).calls, p.Clean

def Wire.Traced (w : Wire) : Prop := ∀ c, (w.conns c).delivered = (w.parts c).flatMap Part.bytes

section Wire

variable {w w' : Wire} {e : WireEvent}

theorem sendTurn_bytes (p : Part Char) (o : SockOutcome) :
    (sendTurn p o).1.bytes = p.bytes ++ p.rest o.taken := by
  have hsame : p.bytes = p.bytes ++ p.rest 0 := by simp [Part.rest]
  cases o with
  | sent n => exact p.bytes_add n
  | notWritable | wouldBlock | failed => exact hsame

theorem parts_of_idle (h : w.sending = none) (c : Nat) : w.parts c = (w.conns c).calls := by
  simp [Wire.parts, Wire.running, h]

theorem parts_of_sending {c : Nat} {p : Part Char} (h : w.sending = some (c, p)) (d : Nat) :
    w.parts d = if d = c then (w.conns c).calls ++ [p] else (w.conns d).calls := by
  by_cases hd : d = c
  · subst hd
    simp [Wire.parts, Wire.running, h]
  · have hc : ¬ c = d := Ne.symm hd
    simp [Wire.parts, Wire.running, h, hd, hc]

theorem wireStep_turn {o : SockOutcome} (h : wireStep w (.turn o) = some w') :
    ∃ c p, w.sending = some (c, p) ∧
      (w'.conns c).delivered = (w.conns c).delivered ++ p.rest o.taken ∧
      w'.parts c = (w.conns c).calls ++ [(sendTurn p o).1] ∧
      ∀ d ≠ c, w'.conns d = w.conns d ∧ w'.parts d = w.parts d := by
  simp only [wireStep] at h
  split at h
  · cases h
  · rename_i c p hsending
    refine ⟨c, p, hsending, ?_⟩
    split at h
    · rename_i q hturn
      cases h
      refine ⟨by simp, ?_, fun d hd => ⟨Function.update_of_ne hd .., ?_⟩⟩
      · rw [parts_of_sending rfl, if_pos rfl]
        simp [hturn]
      · rw [parts_of_sending rfl, parts_of_sending hsending, if_neg hd, if_neg hd]
        simp [hd]
    · rename_i q ret hturn
      cases h
      refine ⟨by simp, ?_, fun d hd => ⟨Function.update_of_ne hd .., ?_⟩⟩
      · rw [parts_of_idle rfl]
        simp [hturn]
      · rw [parts_of_idle rfl, parts_of_sending hsending, if_neg hd]
        simp [hd]

theorem wireStep_send {s : CString} (h : wireStep w (.send s) = some w') :
    w.sending = none ∧ w'.conns = w.conns ∧
      w'.parts w.sock = (w.conns w.sock).calls ++ [.start (terminated s)] ∧
      ∀ d ≠ w.sock, w'.parts d = w.parts d := by
  simp only [wireStep] at h
  split at h
  · rename_i hidle
    cases h
    refine ⟨hidle, rfl, ?_, fun d hd => ?_⟩
    · rw [parts_of_sending rfl, if_pos rfl]
    · rw [parts_of_sending rfl, parts_of_idle hidle, if_neg hd]
  · cases h

theorem wireStep_connect {sock : Nat} (h : wireStep w (.connect sock) = some w') :
    w'.conns = w.conns ∧ w'.parts = w.parts := by
  simp only [wireStep] at h
  split_ifs at h
  cases h
  exact ⟨rfl, rfl⟩

theorem wireStep_traced (hw : w.Traced) (h : wireStep w e = some w') : w'.Traced := by
  cases e with
  | send s =>
    obtain ⟨hidle, hconns, hparts, hothers⟩ := wireStep_send h
    intro d
    rw [hconns, hw d]
    by_cases hd : d = w.sock
    · subst hd
      rw [hparts, parts_of_idle hidle]
      simp [Part.start, Part.bytes]
    · rw [hothers d hd]
  | turn o =>
    obtain ⟨c, p, hsending, hdelivered, hparts, hothers⟩ := wireStep_turn h
    intro d
    by_cases hd : d = c
    · subst hd
      have hbefore := hw d
      rw [parts_of_sending hsending, if_pos rfl, List.flatMap_append, List.flatMap_singleton] at hbefore
      rw [hdelivered, hbefore, hparts, List.flatMap_append, List.flatMap_singleton, sendTurn_bytes,
        List.append_assoc]
    · rw [(hothers d hd).1, (hothers d hd).2]
      exact hw d
  | connect sock =>
    obtain ⟨hconns, hparts⟩ := wireStep_connect h
    intro d
    rw [hconns, hparts]
    exact hw d

theorem sendTurn_goesOn {p q : Part Char} {o : SockOutcome} (hp : p.sent < p.text.length)
    (h : sendTurn p o = (q, none)) :
    o.goesOn = true ∧ q.text = p.text ∧ q.sent = p.sent + o.taken ∧ q.sent < q.text.length := by
  cases o with
  | notWritable | failed => cases h
  | wouldBlock =>
    cases h
    exact ⟨rfl, rfl, rfl, hp⟩
  | sent n =>
    simp only [sendTurn, Prod.mk.injEq] at h
    obtain ⟨rfl, hnot⟩ := h
    have hpart : ¬ p.text.length ≤ p.sent + n := fun hle => by
      rw [if_pos (isWhole_add.mpr hle)] at hnot
      cases hnot
    have hsent : (p.add n).sent = p.sent + n := Nat.min_eq_left (Nat.le_of_not_le hpart)
    exact ⟨rfl, rfl, hsent, by rw [hsent]; exact Nat.lt_of_not_le hpart⟩

theorem sendTurn_ends {p q : Part Char} {o : SockOutcome} {ret : Bool} (hp : p.sent < p.text.length)
    (h : sendTurn p o = (q, some ret)) : q.Clean ↔ ¬ (o.goesOn = false ∧ 0 < p.sent) := by
  have hsame : p.Clean ↔ p.sent = 0 := or_iff_left (by simpa [Part.isWhole] using hp.ne)
  cases o with
  | notWritable | failed =>
    cases h
    rw [hsame]
    simp [SockOutcome.goesOn]
  | wouldBlock => cases h
  | sent n =>
    simp only [sendTurn, Prod.mk.injEq] at h
    obtain ⟨rfl, hret⟩ := h
    split_ifs at hret with hwhole
    exact iff_of_true (.inr hwhole) (fun hstop => by cases hstop.1)

theorem wireStep_turn_calls {o : SockOutcome} (h : wireStep w (.turn o) = some w') :
    ∃ c p, w.sending = some (c, p) ∧ w'.sock = w.sock ∧
      ((∃ q, sendTurn p o = (q, none) ∧ w'.sending = some (c, q) ∧
          ∀ d, (w'.conns d).calls = (w.conns d).calls) ∨
        ∃ q ret, sendTurn p o = (q, some ret) ∧ w'.sending = none ∧
          (w'.conns c).calls = (w.conns c).calls ++ [q] ∧ ∀ d ≠ c, w'.conns d = w.conns d) := by
  simp only [wireStep] at h
  split at h
  · cases h
  · rename_i c p hsending
    refine ⟨c, p, hsending, ?_⟩
    split at h
    · rename_i q hturn
      cases h
      refine ⟨rfl, .inl ⟨q, hturn, rfl, fun d => ?_⟩⟩
      by_cases hd : d = c
      · subst hd
        simp
      · simp [hd]
    · rename_i q ret hturn
      cases h
      exact ⟨rfl, .inr ⟨q, ret, hturn, rfl, by simp, fun d hd => Function.update_of_ne hd ..⟩⟩

theorem wireStep_heard {h : Outcomes} (hheard : Heard w h) (hstep : wireStep w e = some w') :
    Heard w' (h.after e) := by
  cases e with
  | send s =>
    simp only [wireStep] at hstep
    split at hstep
    · cases hstep
      refine ⟨hheard.sock, ?_, hheard.cut⟩
      rintro _ _ ⟨⟩
      exact ⟨hheard.sock.symm, rfl, rfl, by simp [Outcomes.after, terminated]⟩
    · cases hstep
  | connect sock =>
    simp only [wireStep] at hstep
    split_ifs at hstep
    cases hstep
    exact ⟨rfl, hheard.sending, hheard.cut⟩
  | turn o =>
    obtain ⟨c, p, hsending, hsock, hend⟩ := wireStep_turn_calls hstep
    obtain ⟨rfl, hlength, hsent, hlt⟩ := hheard.sending c p hsending
    have hp : p.sent < p.text.length := by omega
    rcases hend with ⟨q, hturn, hgoes, hcalls⟩ | ⟨q, ret, hturn, hidle, hcalls, hothers⟩
    · obtain ⟨hgoesOn, htext, htaken, hpart⟩ := sendTurn_goesOn hp hturn
      have hcut : (h.after (.turn o)).cut = h.cut := if_neg (by simp [hgoesOn])
      refine ⟨hheard.sock.trans hsock.symm, ?_, fun d => ?_⟩
      · rw [hgoes]
        rintro _ _ ⟨⟩
        refine ⟨rfl, htext ▸ hlength, ?_, ?_⟩
        · rw [htaken, hsent]
          rfl
        · rw [htaken, hsent, htext, hlength] at hpart
          exact hpart
      · rw [hcut, hcalls]
        exact hheard.cut d
    · have hclean := sendTurn_ends hp hturn
      have hidle (d : Nat) (r : Part Char) : w'.sending ≠ some (d, r) := by
        rw [hidle]
        simp
      refine ⟨hheard.sock.trans hsock.symm, fun d r hr => absurd hr (hidle d r), fun d => ?_⟩
      have hcut : (h.after (.turn o)).cut =
          if o.goesOn = false ∧ 0 < p.sent then Function.update h.cut h.conn true else h.cut := by
        have hpart : (o.goesOn = false ∧ 0 < h.taken ∧ h.taken < h.length) ↔
            o.goesOn = false ∧ 0 < p.sent := by
          rw [hsent, and_iff_left hlt]
        simp only [Outcomes.after, hpart]
      rw [hcut]
      by_cases hd : d = h.conn
      · subst hd
        rw [hcalls, List.forall_mem_append, List.forall_mem_singleton, hclean, ← hheard.cut]
        split_ifs with hstop
        · simp [hstop]
        · exact (and_iff_left hstop).symm
      · rw [hothers d hd, ← hheard.cut]
        split_ifs
        · rw [Function.update_of_ne hd]
        · rfl

/-- Before the call under way the last one on each connection was clean. -/
theorem clean_of_framed (hw : w.Traced) (hframed : OutboundFramed w) {c : Nat}
    (hidle : w.sending = none) :
    (∀ p, (w.conns c).calls.getLast? = some p → p.Clean) ↔ ∀ p ∈ (w.conns c).calls, p.Clean := by
  have hc := hframed c
  rw [hw, Part.framed_iff, parts_of_idle hidle] at hc
  cases hcalls : (w.conns c).calls using List.reverseRecOn with
  | nil => simp
  | append_singleton ps p =>
    rw [hcalls, List.dropLast_concat] at hc
    simp only [List.getLast?_concat, Option.some.injEq, forall_eq', List.forall_mem_append,
      List.forall_mem_singleton]
    exact (and_iff_right hc).symm

theorem wireStep_framed_iff {h : Outcomes} (hw : w.Traced) (hheard : Heard w h)
    (hframed : OutboundFramed w) (hstep : wireStep w e = some w') : OutboundFramed w' ↔ BeginsUncut h e := by
  cases e with
  | send s =>
    obtain ⟨hidle, hconns, hparts, hothers⟩ := wireStep_send hstep
    have hsock := hframed w.sock
    rw [hw, parts_of_idle hidle] at hsock
    have hstart := Part.framed_start_iff hsock (terminated s)
    rw [← hparts, ← parts_of_idle hidle, ← hw, ← hconns, parts_of_idle hidle,
      clean_of_framed hw hframed hidle] at hstart
    rw [BeginsUncut, hheard.cut, hheard.sock, ← hstart]
    refine ⟨fun hall => hall _, fun hone d => ?_⟩
    by_cases hd : d = w.sock
    · rw [hd]
      exact hone
    · rw [hconns, hothers d hd]
      exact hframed d
  | turn o =>
    obtain ⟨c, p, hsending, _, hparts, hothers⟩ := wireStep_turn hstep
    refine iff_of_true (fun d => ?_) trivial
    by_cases hd : d = c
    · -- a turn changes the last part only, and that one may be a beginning
      subst hd
      have hbefore := hframed d
      rw [hw, Part.framed_iff, parts_of_sending hsending, if_pos rfl, List.dropLast_concat] at hbefore
      rw [wireStep_traced hw hstep, Part.framed_iff, hparts, List.dropLast_concat]
      exact hbefore
    · rw [(hothers d hd).1, (hothers d hd).2]
      exact hframed d
  | connect sock =>
    obtain ⟨hconns, hparts⟩ := wireStep_connect hstep
    refine iff_of_true (fun d => ?_) trivial
    rw [hconns, hparts]
    exact hframed d

theorem run_turns {c : Nat} {p q : Part Char} {outs : List SockOutcome} {ret : Bool}
    (hsending : w.sending = some (c, p)) (h : sendLoop outs p = some (q, ret)) :
    ∃ n w', run wireStep w ((outs.take n).map .turn) = some w' ∧ w'.sending = none ∧
      w'.sock = w.sock ∧ (w'.conns c).calls = (w.conns c).calls ++ [q] := by
  induction outs generalizing w p with
  | nil => cases h
  | cons o outs ih =>
    rw [sendLoop] at h
    split at h
    · rename_i q' ret' hturn
      cases h
      have hstep : wireStep w (.turn o) = some { w with
          conns := Function.update w.conns c
            { calls := (w.conns c).calls ++ [q]
              delivered := (w.conns c).delivered ++ p.rest o.taken }
          sending := none } := by simp only [wireStep, hsending, hturn]
      exact ⟨1, _, run_singleton hstep, rfl, rfl, by simp⟩
    · rename_i q' hturn
      obtain ⟨w₁, hw₁⟩ : ∃ w₁ : Wire, w₁ = { w with
          conns := Function.update w.conns c
            { w.conns c with delivered := (w.conns c).delivered ++ p.rest o.taken }
          sending := some (c, q') } := ⟨_, rfl⟩
      have hstep : wireStep w (.turn o) = some w₁ := by simp only [wireStep, hsending, hturn, hw₁]
      obtain ⟨n, w', hrun, hidle, hsock, hcalls⟩ := ih (w := w₁) (by rw [hw₁]) h
      refine ⟨n + 1, w', run_cons.mpr ⟨w₁, hstep, hrun⟩, hidle, ?_, ?_⟩
      · rw [hsock, hw₁]
      · rw [hcalls, hw₁]
        simp

/-- What `sendLine` says of one call is what the call does on the wire. -/
theorem run_sendLine {s : CString} {q : Part Char} {outs : List SockOutcome} {ret : Bool}
    (hidle : w.sending = none) (h : sendLine outs s = some (q, ret)) :
    ∃ n w', run wireStep w (.send s :: (outs.take n).map .turn) = some w' ∧ w'.sending = none ∧
      (w'.conns w.sock).calls = (w.conns w.sock).calls ++ [q] := by
  have hsend : wireStep w (.send s) =
      some { w with sending := some (w.sock, .start (terminated s)) } := by
    simp only [wireStep, hidle]
  obtain ⟨n, w', hrun, hdone, _, hcalls⟩ :=
    run_turns (w := { w with sending := some (w.sock, .start (terminated s)) }) rfl h
  exact ⟨n, w', run_cons.mpr ⟨_, hsend, hrun⟩, hdone, hcalls⟩

def freshWire : Wire where
  conns := fun _ => { calls := [], delivered := [] }
  sock := 0
  sending := none

def freshOutcomes : Outcomes where
  sock := 0
  conn := 0
  length := 0
  taken := 0
  cut := fun _ => false

theorem freshWire_framed : freshWire.Traced ∧ OutboundFramed freshWire := ⟨fun _ => rfl, fun _ => rfl⟩

theorem heard_fresh : Heard freshWire freshOutcomes :=
  ⟨rfl, fun _ _ h => (by cases h), fun _ => iff_of_true rfl fun _ hp => absurd hp List.not_mem_nil⟩

/-- On every connection the lines stay whole exactly when no call is made
after the socket took a line in part and refused to go on. -/
theorem run_outboundFramed_iff {w : Wire} {es : List WireEvent}
    (hrun : run wireStep freshWire es = some w) :
    Throughout wireStep OutboundFramed freshWire es ↔
      Along (fun h e => some (Outcomes.after h e)) BeginsUncut freshOutcomes es := by
  refine throughout_iff_along_told (R := fun w h => w.Traced ∧ Heard w h) ?_ ?_ hrun
    ⟨freshWire_framed.1, heard_fresh⟩ freshWire_framed.2
  · exact fun hw hstep => ⟨wireStep_traced hw.1 hstep, wireStep_heard hw.2 hstep⟩
  · exact fun hw hP hstep => wireStep_framed_iff hw.1 hw.2 hP hstep

end Wire

/-- A line that took three turns, one of them at a socket that would block, and
the next one. -/
theorem run_outboundFramed_whole : ∃ w, run wireStep freshWire
      [.send ['a', 'b'], .turn (.sent 1), .turn .wouldBlock, .turn (.sent 2), .send ['c']] = some w ∧
    Throughout wireStep OutboundFramed freshWire
      [.send ['a', 'b'], .turn (.sent 1), .turn .wouldBlock, .turn (.sent 2), .send ['c']] := by
  refine ⟨_, rfl, (run_outboundFramed_iff rfl).mpr ?_⟩
  refine (along_cons rfl).mpr ⟨rfl, (along_cons rfl).mpr ⟨trivial, (along_cons rfl).mpr ⟨trivial,
    (along_cons rfl).mpr ⟨trivial, (along_cons rfl).mpr ⟨?_, trivial⟩⟩⟩⟩⟩
  rfl

/-- A line is given up after its first byte, and the next one follows it. -/
theorem line_cut_short : ∃ es w, run wireStep freshWire es = some w ∧
    (w.conns 0).delivered = ['a', 'c', 'd', '\n'] ∧ ¬ Throughout wireStep OutboundFramed freshWire es := by
  refine ⟨[.send ['a', 'b'], .turn (.sent 1), .turn .notWritable, .send ['c', 'd'], .turn (.sent 3)],
    _, rfl, rfl, fun h => ?_⟩
  have hframed : Part.Framed ['a', 'c', 'd', '\n']
      [(Part.start (terminated ['a', 'b'])).add 1, (Part.start (terminated ['c', 'd'])).add 3] :=
    ((((h.2 _ rfl).2 _ rfl).2 _ rfl).2 _ rfl).2 _ rfl 0
  revert hframed
  decide

end VerusMiner
