import VerusMiner.Lib.Blocks
import VerusMiner.Lib.CMemory
import VerusMiner.Lib.Runs
import VerusMiner.Notify

/-! Subscribing to a pool: the request and its second try after a refusal, with
the blocks it allocates. -/

namespace VerusMiner

def jsonGet (v : Json) (key : CString) : Option Json :=
  match v with
  | .object members => members.reverse.lookup key
  | _ => none

def jsonIsNull : Option Json → Bool
  | some .null => true
  | _ => false

def userAgent : CString := "ccminer-verus-apple/3.8.3".toList

/-- The first entry of the list of subscriptions that is for the jobs. -/
def getStratumSessionId (val : Json) : Option CString :=
  let rec search : List Json → Option CString
    | .array arr :: rest =>
      match jsonStringValue (jsonArrayGet (.array arr) 0) with
      | none => search rest
      | some notify =>
        if strcasecmp notify "mining.notify".toList then jsonStringValue (jsonArrayGet (.array arr) 1)
        else search rest
    | _ => none
  match jsonArrayGet val 0 with
  | some (.array arr) => search arr
  | _ => none

/-- The session's text and the block it is in. -/
structure Subscriber where
  blocks : Blocks
  sctx : StratumCtx
  sessionId : Option (Nat × CString)

def subscribeLine (retry : Bool) (sessionId : Option CString) : CString :=
  let request := "\x7b\"id\": 1, \"method\": \"mining.subscribe\", \"params\": [".toList
  if retry then request ++ "]\x7d".toList
  else match sessionId with
    | some sid => request ++ "\"".toList ++ userAgent ++ "\", \"".toList ++ sid ++ "\"]\x7d".toList
    | none => request ++ "\"".toList ++ userAgent ++ "\"]\x7d".toList

inductive SubscribeOutcome where
  | unanswered
  | noLine
  | line (text : CString) (val : Option Json)

def SubscribeOutcome.silent : SubscribeOutcome → Bool
  | .line _ _ => false
  | _ => true

/-- The pointers that live on when the request is made again. -/
structure SubscribeVars where
  sret : Option Nat
  val : Option Nat

/-- What the answer says, before the extranonces in it are looked at. -/
def subscribeResVal (val : Json) : Option Json :=
  let resVal := jsonGet val "result".toList
  let errVal := jsonGet val "error".toList
  if jsonIsNull resVal ∨ (errVal.isSome ∧ ¬ jsonIsNull errVal) then none else resVal

def subscribeAccepts (val : Json) (sctx : StratumCtx) : Option StratumCtx :=
  (subscribeResVal val).bind fun resVal =>
    match stratumParseExtranonce sctx resVal 1 with
    | (true, sctx) => some sctx
    | (false, _) => none

/-- The text of the error, which replaces the request in `s`; only an array or
an object can be printed. -/
def errorText (blocks : Blocks) (errVal : Option Json) : Option Nat × Blocks :=
  match errVal with
  | none => let (s, blocks) := blocks.malloc ("(unknown reason)".length + 1); (some s, blocks)
  | some (.array _) | some (.object _) => let (s, blocks) := blocks.malloc 1; (some s, blocks)
  | some _ => (none, blocks)

/-- The old session is freed and the one of the answer copied. -/
def takeSession (sctx : StratumCtx) (sid : Option CString) (s : Subscriber) : Except BlockFault Subscriber := do
  let blocks ← s.blocks.free (s.sessionId.map Prod.fst)
  let sctx := { sctx with nextDiff := 1.0 }
  match sid with
  | none => return { blocks := blocks, sctx := sctx, sessionId := none }
  | some sid =>
    let (p, blocks) := blocks.malloc (sid.length + 1)
    return { blocks := blocks, sctx := sctx, sessionId := some (p, sid) }

def subscribeOut (ret : Bool) (request : Option Nat) (v : SubscribeVars) (s : Subscriber) :
    Except BlockFault (Bool × SubscribeVars × Subscriber) := do
  let blocks ← s.blocks.free request
  let blocks ← blocks.free v.val
  return (ret, v, { s with blocks := blocks })

def sendSubscribe (retry : Bool) (s : Subscriber) : Except BlockFault (Nat × Blocks) := do
  let sid := s.sessionId.map Prod.snd
  if let some (p, text) := s.sessionId then s.blocks.touch p (text.length + 1)
  let (request, blocks) := s.blocks.malloc (128 + (sid.getD []).length)
  blocks.touch request ((subscribeLine retry sid).length + 1)
  return (request, blocks)

/-- From the label `start` on. -/
def subscribeAttempt (optDebug retry : Bool) (v : SubscribeVars) (s : Subscriber) (o : SubscribeOutcome) :
    Except BlockFault (Bool × SubscribeVars × Subscriber) := do
  let (request, blocks) ← sendSubscribe retry s
  match o with
  | .unanswered => subscribeOut false (some request) v { s with blocks := blocks }
  | .noLine => subscribeOut false (some request) { v with sret := none } { s with blocks := blocks }
  | .line text val =>
    let (sret, blocks) := blocks.malloc (text.length + 1)
    match val with
    | none =>
      let blocks ← blocks.free (some sret)
      subscribeOut false (some request) ⟨some sret, none⟩ { s with blocks := blocks }
    | some val =>
      let (valPtr, blocks) := blocks.malloc 1
      let blocks ← blocks.free (some sret)
      let v : SubscribeVars := ⟨some sret, some valPtr⟩
      match subscribeAccepts val s.sctx with
      | some sctx =>
        let sid := (subscribeResVal val).bind getStratumSessionId
        let s ← takeSession sctx sid { s with blocks := blocks }
        subscribeOut true (some request) v s
      | none =>
        if (subscribeResVal val).isNone ∧ (optDebug ∨ retry) then do
          let blocks ← blocks.free (some request)
          let (text, blocks) := errorText blocks (jsonGet val "error".toList)
          subscribeOut false text v { s with blocks := blocks }
        else subscribeOut false (some request) v { s with blocks := blocks }

def stratumSubscribe (optDebug : Bool) (s : Subscriber) (first second : SubscribeOutcome) :
    Except BlockFault (Bool × Subscriber) := do
  let (ret, v, s) ← subscribeAttempt optDebug false ⟨none, none⟩ s first
  if ¬ ret ∧ v.sret.isSome then do
    let (ret, _, s) ← subscribeAttempt optDebug true v s second
    return (ret, s)
  else return (ret, s)

def Subscriber.own (s : Subscriber) : List (Nat × Nat) :=
  match s.sessionId with
  | some (p, text) => [(p, text.length + 1)]
  | none => []

/-- Of all that was allocated only the text of the session is left. -/
def Subscriber.Tidy (s : Subscriber) : Prop := s.blocks.Holds s.own

def Subscriber.Dangles (s : Subscriber) (p : Nat) : Prop := p < s.blocks.next ∧ p ∉ s.own.map Prod.fst

theorem length_subscribeLine (retry : Bool) (sid : Option CString) :
    (subscribeLine retry sid).length + 1 ≤ 128 + (sid.getD []).length := by
  have hagent : userAgent.length = 25 := by decide
  cases retry with
  | true =>
    simp [subscribeLine]
    omega
  | false =>
    cases sid with
    | none => simp [subscribeLine, hagent]
    | some sid =>
      simp [subscribeLine, hagent]
      omega

section Attempt

variable {s : Subscriber} {v : SubscribeVars}

theorem sendSubscribe_ok (h : s.Tidy) (retry : Bool) :
    ∃ blocks size, sendSubscribe retry s = .ok (s.blocks.next, blocks) ∧
      blocks.Holds ((s.blocks.next, size) :: s.own) ∧ blocks.next = s.blocks.next + 1 := by
  have hblocks := h.malloc (128 + ((s.sessionId.map Prod.snd).getD []).length)
  have htext := hblocks.touch List.mem_cons_self (length_subscribeLine retry (s.sessionId.map Prod.snd))
  refine ⟨_, _, ?_, hblocks, rfl⟩
  have hnext : (s.blocks.malloc (128 + ((s.sessionId.map Prod.snd).getD []).length)).1 = s.blocks.next := rfl
  simp only [sendSubscribe, hnext, htext]
  cases hid : s.sessionId with
  | none => rfl
  | some sid =>
    have hsid : s.blocks.touch sid.1 (sid.2.length + 1) = .ok () :=
      h.touch (by rw [Subscriber.own, hid]; exact List.mem_singleton_self _) (Nat.le_refl _)
    simp only [hsid, ok_bind]
    rfl

theorem subscribeOut_ok (ret : Bool) {q : Option Nat} {n m : Nat} {own : List (Nat × Nat)}
    (h : s.blocks.Holds own)
    (hown : own.Perm ((q.map fun p => (p, n)).toList ++ ((v.val.map fun p => (p, m)).toList ++ s.own))) :
    ∃ blocks, subscribeOut ret q v s = .ok (ret, v, { s with blocks := blocks }) ∧
      ({ s with blocks := blocks } : Subscriber).Tidy ∧ blocks.next = s.blocks.next := by
  obtain ⟨h₁, hfree₁, hh₁, hnext₁⟩ := h.free_pointer hown
  obtain ⟨h₂, hfree₂, hh₂, hnext₂⟩ := hh₁.free_pointer (List.Perm.refl _)
  refine ⟨h₂, ?_, hh₂, hnext₂.trans hnext₁⟩
  rw [subscribeOut, hfree₁, ok_bind, hfree₂, ok_bind]
  rfl

theorem takeSession_ok (sctx : StratumCtx) (own : List (Nat × Nat)) (sid : Option CString)
    (h : s.blocks.Holds (own ++ s.own)) :
    ∃ s', takeSession sctx sid s = .ok s' ∧ s'.blocks.Holds (own ++ s'.own) ∧
      s'.sctx = { sctx with nextDiff := 1.0 } ∧ s'.sessionId.map Prod.snd = sid := by
  have hown : ∃ size, (own ++ s.own).Perm (((s.sessionId.map Prod.fst).map fun p => (p, size)).toList ++ own) := by
    rw [Subscriber.own]
    cases s.sessionId with
    | none => exact ⟨0, by simp⟩
    | some sid => exact ⟨sid.2.length + 1, List.perm_append_singleton _ _⟩
  obtain ⟨size, hown⟩ := hown
  obtain ⟨blocks, hfree, hblocks, -⟩ := h.free_pointer hown
  simp only [takeSession, hfree, ok_bind]
  cases sid with
  | none => exact ⟨_, rfl, by rwa [Subscriber.own, List.append_nil], rfl, rfl⟩
  | some sid =>
    refine ⟨_, rfl, ?_, rfl, rfl⟩
    exact (hblocks.malloc (sid.length + 1)).perm (List.perm_append_singleton _ _).symm

/-- Nothing comes back: what the pointers are is decided by the first try. -/
theorem subscribeAttempt_silent (h : s.Tidy) (optDebug retry : Bool) {o : SubscribeOutcome}
    (ho : o.silent = true) (hval : v.val = none) :
    ∃ v' blocks, subscribeAttempt optDebug retry v s o = .ok (false, v', { s with blocks := blocks }) ∧
      ({ s with blocks := blocks } : Subscriber).Tidy ∧ (v'.sret = none ∨ v'.sret = v.sret) ∧
      v'.val = none := by
  obtain ⟨blocks, size, hsend, hblocks, -⟩ := sendSubscribe_ok h retry
  have hout (v' : SubscribeVars) (hval' : v'.val = none) :
      ∃ b, subscribeOut false (some s.blocks.next) v' { s with blocks := blocks } =
          .ok (false, v', { s with blocks := b }) ∧ ({ s with blocks := b } : Subscriber).Tidy := by
    obtain ⟨b, hout, htidy, -⟩ := subscribeOut_ok (s := { s with blocks := blocks }) (v := v') false
      (q := some s.blocks.next) (n := size) (m := 0) hblocks (by rw [hval']; exact List.Perm.refl _)
    exact ⟨b, hout, htidy⟩
  cases o with
  | unanswered =>
    obtain ⟨b, hb, htidy⟩ := hout v hval
    exact ⟨v, b, by rw [subscribeAttempt, hsend]; exact hb, htidy, .inr rfl, hval⟩
  | noLine =>
    obtain ⟨b, hb, htidy⟩ := hout { v with sret := none } hval
    exact ⟨{ v with sret := none }, b, by rw [subscribeAttempt, hsend]; exact hb, htidy, .inl rfl, hval⟩
  | line text val => exact absurd ho Bool.false_ne_true

theorem subscribeAttempt_dangling (h : s.Tidy) (optDebug retry : Bool) {o : SubscribeOutcome}
    (ho : o.silent = true) {p : Nat} (hval : v.val = some p) (hp : s.Dangles p) :
    subscribeAttempt optDebug retry v s o = .error .dangling := by
  obtain ⟨blocks, size, hsend, hblocks, -⟩ := sendSubscribe_ok h retry
  have hout (v' : SubscribeVars) (hval' : v'.val = some p) :
      subscribeOut false (some s.blocks.next) v' { s with blocks := blocks } = .error .dangling := by
    obtain ⟨b, hfree, hb⟩ := hblocks.free (List.Perm.refl _)
    simp only [subscribeOut, hfree, ok_bind, hval', hb.free_dangling hp.2]
    rfl
  cases o with
  | unanswered =>
    rw [subscribeAttempt, hsend]
    exact hout v hval
  | noLine =>
    rw [subscribeAttempt, hsend]
    exact hout { v with sret := none } hval
  | line text val => exact absurd ho Bool.false_ne_true

theorem subscribeAttempt_undecoded (h : s.Tidy) (optDebug retry : Bool) (text : CString) :
    ∃ blocks sret, subscribeAttempt optDebug retry v s (.line text none) =
        .ok (false, ⟨some sret, none⟩, { s with blocks := blocks }) ∧
      ({ s with blocks := blocks } : Subscriber).Tidy := by
  obtain ⟨blocks, size, hsend, hblocks, -⟩ := sendSubscribe_ok h retry
  obtain ⟨blocks', hfree, hblocks'⟩ := (hblocks.malloc (text.length + 1)).free (List.Perm.refl _)
  obtain ⟨b, hout, htidy, -⟩ := subscribeOut_ok (s := { s with blocks := blocks' })
    (v := ⟨some blocks.next, none⟩) false (q := some s.blocks.next) (n := size) (m := 0)
    hblocks' (List.Perm.refl _)
  refine ⟨b, blocks.next, ?_, htidy⟩
  have hnext : (blocks.malloc (text.length + 1)).1 = blocks.next := rfl
  simp only [subscribeAttempt, hsend, ok_bind, hnext, hfree]
  exact hout

/-- The line is freed, the answer not yet. -/
theorem answer_blocks {blocks : Blocks} {own : List (Nat × Nat)} (h : blocks.Holds own) (n : Nat) :
    ∃ b, ((blocks.malloc n).2.malloc 1).2.free (some blocks.next) = .ok b ∧
      b.Holds ((blocks.next + 1, 1) :: own) ∧ b.next = blocks.next + 2 := by
  obtain ⟨b, hfree, hb, hnext⟩ := ((h.malloc n).malloc 1).free_pointer (q := some blocks.next)
    (n := n) (r := (blocks.next + 1, 1) :: own) (List.Perm.swap _ _ _)
  exact ⟨b, hfree, hb, hnext⟩

theorem errorText_ok {blocks : Blocks} {own : List (Nat × Nat)} (h : blocks.Holds own) (errVal : Option Json) :
    ∃ q n b, errorText blocks errVal = (q, b) ∧ b.Holds ((q.map fun p => (p, n)).toList ++ own) ∧
      blocks.next ≤ b.next := by
  have hprinted (n : Nat) : ((blocks.malloc n).2.Holds (((some blocks.next).map fun p => (p, n)).toList ++ own)) ∧
      blocks.next ≤ (blocks.malloc n).2.next := ⟨h.malloc n, Nat.le_succ _⟩
  simp only [errorText]
  split
  · exact ⟨_, _, _, rfl, hprinted _⟩
  · exact ⟨_, _, _, rfl, hprinted _⟩
  · exact ⟨_, _, _, rfl, hprinted _⟩
  · exact ⟨none, 0, _, rfl, h, Nat.le_refl _⟩

theorem subscribeAttempt_refused (h : s.Tidy) (optDebug retry : Bool) (text : CString) {val : Json}
    (hval : subscribeAccepts val s.sctx = none) :
    ∃ blocks sret p, subscribeAttempt optDebug retry v s (.line text (some val)) =
        .ok (false, ⟨some sret, some p⟩, { s with blocks := blocks }) ∧
      ({ s with blocks := blocks } : Subscriber).Tidy ∧ ({ s with blocks := blocks } : Subscriber).Dangles p := by
  obtain ⟨blocks, size, hsend, hblocks, -⟩ := sendSubscribe_ok h retry
  obtain ⟨b, hfree, hb, hnext⟩ := answer_blocks hblocks (text.length + 1)
  have hdangles {b' : Blocks} (hb' : b.next ≤ b'.next) :
      ({ s with blocks := b' } : Subscriber).Dangles (blocks.next + 1) := by
    refine ⟨by change blocks.next + 1 < b'.next; omega, fun hmem => ?_⟩
    obtain ⟨⟨p, n⟩, hown, hp⟩ := List.mem_map.mp hmem
    have hlt := hblocks.lt_next (List.mem_cons_of_mem _ hown)
    dsimp only at hp
    omega
  have hsret : (blocks.malloc (text.length + 1)).1 = blocks.next := rfl
  have hptr : ((blocks.malloc (text.length + 1)).2.malloc 1).1 = blocks.next + 1 := rfl
  by_cases hprint : (subscribeResVal val).isNone = true ∧ (optDebug = true ∨ retry = true)
  · obtain ⟨b₁, hfree₁, hb₁, hnext₁⟩ := hb.free_pointer (q := some s.blocks.next) (n := size)
      (r := (blocks.next + 1, 1) :: s.own) (List.Perm.swap _ _ _)
    obtain ⟨q, n, b₂, htext, hb₂, hnext₂⟩ := errorText_ok hb₁ (jsonGet val "error".toList)
    obtain ⟨b', hout, htidy, hnext'⟩ := subscribeOut_ok (s := { s with blocks := b₂ })
      (v := ⟨some blocks.next, some (blocks.next + 1)⟩) false (q := q) (n := n) (m := 1)
      hb₂ (List.Perm.refl _)
    refine ⟨b', blocks.next, blocks.next + 1, ?_, htidy, hdangles (by rw [hnext', ← hnext₁]; exact hnext₂)⟩
    simp only [subscribeAttempt, hsend, ok_bind, hsret, hptr, hfree, hval, if_pos hprint, hfree₁, htext]
    exact hout
  · obtain ⟨b', hout, htidy, hnext'⟩ := subscribeOut_ok (s := { s with blocks := b })
      (v := ⟨some blocks.next, some (blocks.next + 1)⟩) false (q := some s.blocks.next) (n := size)
      (m := 1) hb (List.Perm.swap _ _ _)
    refine ⟨b', blocks.next, blocks.next + 1, ?_, htidy, hdangles (Nat.le_of_eq hnext'.symm)⟩
    simp only [subscribeAttempt, hsend, ok_bind, hsret, hptr, hfree, hval, if_neg hprint]
    exact hout

theorem subscribeAttempt_accepted (h : s.Tidy) (optDebug retry : Bool) (text : CString) {val : Json}
    {sctx : StratumCtx} (hval : subscribeAccepts val s.sctx = some sctx) :
    ∃ v' s', subscribeAttempt optDebug retry v s (.line text (some val)) = .ok (true, v', s') ∧ s'.Tidy ∧
      s'.sctx = { sctx with nextDiff := 1.0 } ∧
      s'.sessionId.map Prod.snd = (subscribeResVal val).bind getStratumSessionId := by
  obtain ⟨blocks, size, hsend, hblocks, -⟩ := sendSubscribe_ok h retry
  obtain ⟨b, hfree, hb, -⟩ := answer_blocks hblocks (text.length + 1)
  obtain ⟨s', htake, hs', hsctx, hsid⟩ := takeSession_ok (s := { s with blocks := b }) sctx
    [(blocks.next + 1, 1), (s.blocks.next, size)] ((subscribeResVal val).bind getStratumSessionId) hb
  obtain ⟨b', hout, htidy, -⟩ := subscribeOut_ok (s := s') (v := ⟨some blocks.next, some (blocks.next + 1)⟩)
    true (q := some s.blocks.next) (n := size) (m := 1) hs' (List.Perm.swap _ _ _)
  refine ⟨⟨some blocks.next, some (blocks.next + 1)⟩, { s' with blocks := b' }, ?_, htidy, hsctx, hsid⟩
  have hsret : (blocks.malloc (text.length + 1)).1 = blocks.next := rfl
  have hptr : ((blocks.malloc (text.length + 1)).2.malloc 1).1 = blocks.next + 1 := rfl
  simp only [subscribeAttempt, hsend, ok_bind, hsret, hptr, hfree, hval, htake]
  exact hout

end Attempt

/-- The answer to the first request is refused and nothing comes back to the
second. -/
def RefusedThenSilent (call : SubscribeOutcome × SubscribeOutcome) : Prop :=
  (∃ text val, call.1 = .line text (some val) ∧ (subscribeAccepts val zeroCtx).isNone = true) ∧
  call.2.silent = true

structure SessionView where
  sctx : StratumCtx
  sessionId : Option CString

def Subscriber.view (s : Subscriber) : SessionView := ⟨s.sctx, s.sessionId.map Prod.snd⟩

/-- What an answer makes of the session, if it is taken. -/
def SessionView.take (w : SessionView) : SubscribeOutcome → Option SessionView
  | .line _ (some val) => (subscribeAccepts val w.sctx).map fun sctx =>
      { sctx := { sctx with nextDiff := 1.0 }, sessionId := (subscribeResVal val).bind getStratumSessionId }
  | _ => none

/-- The first answer that is taken decides; there is a second request only
after a line. -/
def SessionView.subscribe (w : SessionView) (call : SubscribeOutcome × SubscribeOutcome) : Bool × SessionView :=
  match w.take call.1 with
  | some w' => (true, w')
  | none =>
    if call.1.silent then (false, w)
    else match w.take call.2 with
      | some w' => (true, w')
      | none => (false, w)

theorem subscribeAccepts_isNone (val : Json) (sctx sctx' : StratumCtx) :
    (subscribeAccepts val sctx).isNone = (subscribeAccepts val sctx').isNone := by
  simp only [subscribeAccepts]
  cases subscribeResVal val with
  | none => rfl
  | some resVal =>
    simp only [Option.bind_some, stratumParseExtranonce]
    cases jsonStringValue (jsonArrayGet resVal 1) with
    | none => rfl
    | some xnonce1 =>
      dsimp only
      split_ifs <;> rfl

section Calls

variable {s : Subscriber}

/-- An attempt that is taken decides the session. -/
theorem subscribeAttempt_taken (h : s.Tidy) (optDebug retry : Bool) (v : SubscribeVars) {o : SubscribeOutcome}
    {w : SessionView} (hw : s.view.take o = some w) :
    ∃ v' s', subscribeAttempt optDebug retry v s o = .ok (true, v', s') ∧ s'.Tidy ∧ s'.view = w := by
  cases o with
  | unanswered => exact nomatch hw
  | noLine => exact nomatch hw
  | line text val =>
    cases val with
    | none => exact nomatch hw
    | some val =>
      obtain ⟨sctx, haccepts, rfl⟩ := Option.map_eq_some_iff.mp hw
      obtain ⟨v', s', hattempt, htidy, hsctx, hsid⟩ :=
        subscribeAttempt_accepted (v := v) h optDebug retry text haccepts
      exact ⟨v', s', hattempt, htidy, by rw [Subscriber.view, hsctx, hsid]⟩

/-- An attempt that is not taken and does not meet a dangling pointer leaves the
session as it was; the answer dangles if there was one. -/
theorem subscribeAttempt_not_taken (h : s.Tidy) (optDebug retry : Bool) {v : SubscribeVars} {o : SubscribeOutcome}
    (hw : s.view.take o = none) (hval : v.val = none ∨ o.silent = false) :
    ∃ v' s', subscribeAttempt optDebug retry v s o = .ok (false, v', s') ∧ s'.Tidy ∧ s'.view = s.view ∧
      (v.sret = none → v'.sret.isSome = !o.silent) ∧
      ((∃ text val, o = .line text (some val)) → ∃ p, v'.val = some p ∧ s'.Dangles p) ∧
      ((∀ text val, o ≠ .line text (some val)) → v'.val = none) := by
  cases hsilent : o.silent with
  | true =>
    obtain ⟨v', blocks, hattempt, htidy, hsret, hval'⟩ := subscribeAttempt_silent h optDebug retry hsilent
      (hval.resolve_right (by rw [hsilent]; exact Bool.noConfusion))
    refine ⟨v', _, hattempt, htidy, rfl, fun hnone => ?_, ?_, fun _ => hval'⟩
    · rcases hsret with hsret | hsret
      · rw [hsret]; rfl
      · rw [hsret, hnone]; rfl
    · rintro ⟨text, val, rfl⟩
      exact absurd hsilent Bool.false_ne_true
  | false =>
    cases o with
    | unanswered => exact absurd hsilent.symm Bool.false_ne_true
    | noLine => exact absurd hsilent.symm Bool.false_ne_true
    | line text val =>
      cases val with
      | none =>
        obtain ⟨blocks, sret, hattempt, htidy⟩ := subscribeAttempt_undecoded (v := v) h optDebug retry text
        exact ⟨_, _, hattempt, htidy, rfl, fun _ => rfl, fun ⟨_, _, heq⟩ => (nomatch heq), fun _ => rfl⟩
      | some val =>
        obtain ⟨blocks, sret, p, hattempt, htidy, hp⟩ := subscribeAttempt_refused (v := v) h optDebug retry text
          (Option.map_eq_none_iff.mp hw)
        exact ⟨_, _, hattempt, htidy, rfl, fun _ => rfl, fun _ => ⟨p, rfl, hp⟩,
          fun hne => absurd rfl (hne text val)⟩

theorem refusedThenSilent_iff (s : Subscriber) (first second : SubscribeOutcome) :
    RefusedThenSilent (first, second) ↔
      (∃ text val, first = .line text (some val)) ∧ s.view.take first = none ∧ second.silent = true := by
  constructor
  · rintro ⟨⟨text, val, rfl, hrefused⟩, hsilent⟩
    refine ⟨⟨text, val, rfl⟩, Option.map_eq_none_iff.mpr ?_, hsilent⟩
    rw [← Option.isNone_iff_eq_none, subscribeAccepts_isNone val _ zeroCtx, hrefused]
  · rintro ⟨⟨text, val, rfl⟩, htake, hsilent⟩
    refine ⟨⟨text, val, rfl, ?_⟩, hsilent⟩
    have hrefused : subscribeAccepts val s.sctx = none := Option.map_eq_none_iff.mp htake
    rw [subscribeAccepts_isNone val _ s.sctx, hrefused, Option.isNone_none]

theorem stratumSubscribe_dangling (h : s.Tidy) (optDebug : Bool) {first second : SubscribeOutcome}
    (hbad : RefusedThenSilent (first, second)) : stratumSubscribe optDebug s first second = .error .dangling := by
  obtain ⟨hline, htake, hsilent⟩ := (refusedThenSilent_iff s first second).mp hbad
  have hspoken : first.silent = false := by
    obtain ⟨text, val, rfl⟩ := hline
    rfl
  obtain ⟨v', s', hattempt, htidy, -, hsret, hdangles, -⟩ :=
    subscribeAttempt_not_taken (v := ⟨none, none⟩) h optDebug false htake (.inl rfl)
  obtain ⟨p, hp, hdangles⟩ := hdangles hline
  have hretry : ¬ (false = true) ∧ v'.sret.isSome = true := by
    rw [hsret rfl, hspoken]
    decide
  simp only [stratumSubscribe, hattempt, ok_bind, if_pos hretry,
    subscribeAttempt_dangling htidy optDebug true hsilent hp hdangles]
  rfl

theorem stratumSubscribe_eq (h : s.Tidy) (optDebug : Bool) {first second : SubscribeOutcome}
    (hok : ¬ RefusedThenSilent (first, second)) :
    ∃ s', stratumSubscribe optDebug s first second = .ok ((s.view.subscribe (first, second)).1, s') ∧ s'.Tidy ∧
      s'.view = (s.view.subscribe (first, second)).2 := by
  rw [refusedThenSilent_iff s] at hok
  cases htake : s.view.take first with
  | some w =>
    obtain ⟨v', s', hattempt, htidy, hview⟩ := subscribeAttempt_taken h optDebug false ⟨none, none⟩ htake
    refine ⟨s', ?_, htidy, ?_⟩
    · simp only [stratumSubscribe, hattempt, ok_bind, SessionView.subscribe, htake, not_true, false_and, if_false]
      rfl
    · rw [SessionView.subscribe, htake, hview]
  | none =>
    obtain ⟨v₁, s₁, hattempt₁, htidy₁, hview₁, hsret₁, -, hval₁⟩ :=
      subscribeAttempt_not_taken (v := ⟨none, none⟩) h optDebug false htake (.inl rfl)
    have hsret₁ := hsret₁ rfl
    cases hsilent : first.silent with
    | true =>
      have hstop : ¬ (¬ (false = true) ∧ v₁.sret.isSome = true) := by rw [hsret₁, hsilent]; decide
      refine ⟨s₁, ?_, htidy₁, ?_⟩
      · simp only [stratumSubscribe, hattempt₁, ok_bind, if_neg hstop, SessionView.subscribe, htake, hsilent,
          if_true]
        rfl
      · rw [SessionView.subscribe, htake, hsilent, hview₁]
        rfl
    | false =>
      have hretry : ¬ (false = true) ∧ v₁.sret.isSome = true := by rw [hsret₁, hsilent]; decide
      have hview : s₁.view.take second = s.view.take second := by rw [hview₁]
      cases htake₂ : s.view.take second with
      | some w =>
        obtain ⟨v₂, s₂, hattempt₂, htidy₂, hview₂⟩ :=
          subscribeAttempt_taken htidy₁ optDebug true v₁ (hview.trans htake₂)
        refine ⟨s₂, ?_, htidy₂, ?_⟩
        · simp only [stratumSubscribe, hattempt₁, ok_bind, if_pos hretry, hattempt₂, SessionView.subscribe,
            htake, hsilent, htake₂]
          rfl
        · simp only [SessionView.subscribe, htake, hsilent, htake₂, hview₂]
          rfl
      | none =>
        have hvars : v₁.val = none ∨ second.silent = false := by
          by_cases hline : ∃ text val, first = .line text (some val)
          · exact .inr (Bool.eq_false_iff.mpr fun hsilent₂ => hok ⟨hline, htake, hsilent₂⟩)
          · exact .inl (hval₁ fun text val heq => hline ⟨text, val, heq⟩)
        obtain ⟨v₂, s₂, hattempt₂, htidy₂, hview₂, -⟩ :=
          subscribeAttempt_not_taken htidy₁ optDebug true (hview.trans htake₂) hvars
        refine ⟨s₂, ?_, htidy₂, ?_⟩
        · simp only [stratumSubscribe, hattempt₁, ok_bind, if_pos hretry, hattempt₂, SessionView.subscribe,
            htake, hsilent, htake₂]
          rfl
        · simp only [SessionView.subscribe, htake, hsilent, htake₂, hview₂, hview₁]
          rfl

end Calls

abbrev SubscribeCall := SubscribeOutcome × SubscribeOutcome

/-- One call after the other, each with what came back to it, and what they
returned. -/
def subscribeStep (optDebug : Bool) (s : Subscriber × List Bool) (call : SubscribeCall) :
    Option (Subscriber × List Bool) :=
  (stratumSubscribe optDebug s.1 call.1 call.2).toOption.map fun r => (r.2, s.2 ++ [r.1])

def SessionView.step (w : SessionView × List Bool) (call : SubscribeCall) : SessionView × List Bool :=
  ((w.1.subscribe call).2, w.2 ++ [(w.1.subscribe call).1])

def subscribeStart : Subscriber × List Bool := (⟨.empty, zeroCtx, none⟩, [])

theorem subscribeStep_some {s : Subscriber × List Bool} (h : s.1.Tidy) (optDebug : Bool) {call : SubscribeCall}
    (hok : ¬ RefusedThenSilent call) :
    ∃ s', subscribeStep optDebug s call = some s' ∧ s'.1.Tidy ∧
      (s'.1.view, s'.2) = SessionView.step (s.1.view, s.2) call := by
  obtain ⟨s', hcall, htidy, hview⟩ := stratumSubscribe_eq h optDebug hok
  refine ⟨(s', s.2 ++ [(s.1.view.subscribe call).1]), ?_, htidy, ?_⟩
  · rw [subscribeStep, hcall]
    rfl
  · rw [hview]
    rfl

theorem run_subscribe_iff_of_tidy (optDebug : Bool) {s : Subscriber × List Bool} (h : s.1.Tidy)
    (calls : List SubscribeCall) :
    (∃ t, run (subscribeStep optDebug) s calls = some t ∧ t.1.Tidy ∧
      (t.1.view, t.2) = calls.foldl SessionView.step (s.1.view, s.2)) ↔
      ∀ call ∈ calls, ¬ RefusedThenSilent call := by
  induction calls generalizing s with
  | nil => exact iff_of_true ⟨s, rfl, h, rfl⟩ fun _ hcall => absurd hcall List.not_mem_nil
  | cons call calls ih =>
    rw [List.forall_mem_cons]
    by_cases hbad : RefusedThenSilent call
    · refine iff_of_false ?_ fun hok => hok.1 hbad
      rintro ⟨t, hrun, -⟩
      obtain ⟨s', hstep, -⟩ := run_cons.mp hrun
      rw [subscribeStep, stratumSubscribe_dangling h optDebug hbad] at hstep
      exact nomatch hstep
    · obtain ⟨s', hstep, htidy, hview⟩ := subscribeStep_some h optDebug hbad
      rw [List.foldl_cons, ← hview, and_iff_right hbad, ← ih htidy]
      refine exists_congr fun t => and_congr_left fun _ => ?_
      rw [run_cons]
      constructor
      · rintro ⟨s₁, hstep₁, hrun⟩
        obtain rfl := Option.some.inj (hstep.symm.trans hstep₁)
        exact hrun
      · exact fun hrun => ⟨s', hstep, hrun⟩

/-- In every sequence of calls the blocks are freed once each, none of them is
left but the session's, and the session is that of the last answer taken,
exactly when no refusal is followed by silence. -/
theorem run_subscribe_iff (optDebug : Bool) (calls : List SubscribeCall) :
    (∃ s, run (subscribeStep optDebug) subscribeStart calls = some s ∧ s.1.Tidy ∧
      (s.1.view, s.2) = calls.foldl SessionView.step (subscribeStart.1.view, subscribeStart.2)) ↔
      ∀ call ∈ calls, ¬ RefusedThenSilent call :=
  run_subscribe_iff_of_tidy optDebug (s := subscribeStart) Blocks.empty_holds calls

end VerusMiner
