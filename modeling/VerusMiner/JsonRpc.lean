import VerusMiner.HttpExchange
import VerusMiner.Lib.Utf8
import VerusMiner.Subscription

/-! A JSON-RPC call over HTTP: what the callbacks have gathered becomes an
answer, an error, or the start of stratum or of long polling. -/

namespace VerusMiner

structure RpcOptions where
  wantStratum : Bool
  longpollScan : Bool
  longpoll : Bool
  httpProxy : Bool

/-- `toStratum` and `toLongpoll` are what was pushed to the queues of these
threads; `curlErr` is there if the caller asks for it. -/
structure RpcState where
  haveStratum : Bool
  haveLongpoll : Bool
  toStratum : Option HeaderValue
  toLongpoll : Option HeaderValue
  curlErr : Option Int
  exchange : HttpExchange

abbrev RpcResult := Except BlockFault (Option (Nat × Json) × RpcState)

def stratumScheme : CString := "stratum+tcp://".toList

def startsStratum (o : RpcOptions) (url : CString) : Bool :=
  o.wantStratum && strncasecmp url stratumScheme 14 && !o.httpProxy

def activateStratum (o : RpcOptions) (s : RpcState) : RpcState :=
  match s.exchange.hi.stratumUrl with
  | some url =>
    if startsStratum o url.text then { s with
      haveStratum := true
      toStratum := some url
      exchange := { s.exchange with hi := s.exchange.hi.put .stratumUrl none } }
    else s
  | none => s

def activateLongpoll (lpScanning : Bool) (s : RpcState) : RpcState :=
  match s.exchange.hi.lpPath with
  | some path =>
    if lpScanning && !s.haveStratum then { s with
      haveLongpoll := true
      toLongpoll := some path
      exchange := { s.exchange with hi := s.exchange.hi.put .lpPath none } }
    else s
  | none => s

def databufFree (s : RpcState) : Except BlockFault RpcState := do
  let h ← s.exchange.blocks.free s.exchange.allData.buf
  return { s with exchange := { s.exchange with blocks := h, allData := ⟨none, 0, []⟩ } }

def rpcErrOut (s : RpcState) : RpcResult := do
  let hi := s.exchange.hi
  let h ← s.exchange.blocks.free (hi.lpPath.map HeaderValue.ptr)
  let h ← h.free (hi.reason.map HeaderValue.ptr)
  let h ← h.free (hi.stratumUrl.map HeaderValue.ptr)
  let s ← databufFree { s with exchange := { s.exchange with blocks := h, hi := ⟨none, none, none⟩ } }
  return (none, s)

/-- The other values are shared and counted by nobody. -/
def jsonCounted : Option Json → Bool
  | none | some .null | some (.bool _) => false
  | _ => true

/-- A message takes the place of the whole error; with the one of a wallet
without getwork nothing is logged. -/
def rpcErrorText (h : Blocks) (errVal : Option Json) : Except BlockFault (Option Nat × Blocks) := do
  let (s, h) := errorText h errVal
  match jsonStringValue (errVal.bind fun errVal => jsonGet errVal "message".toList) with
  | some msg =>
    let h ← h.free s
    let (s, h) := h.malloc (msg.length + 1)
    return (some s, h)
  | none => return (s, h)

def rpcErrorCode (errVal : Option Json) (rc : Int) : Int :=
  let code := jsonIntegerValue (errVal.bind fun errVal => jsonGet errVal "code".toList)
  if code ≠ 0 then (BitVec.ofInt 32 code).toInt else rc

/-- The error is released though the answer still has it; the answer is not. -/
def rpcRefused (err : Option Nat) (errVal : Option Json) (s : RpcState) : RpcResult := do
  let (text, h) ← rpcErrorText s.exchange.blocks errVal
  let h ← h.free err
  let h ← h.free text
  rpcErrOut { s with
    curlErr := s.curlErr.map (rpcErrorCode errVal)
    exchange := { s.exchange with blocks := h } }

def rpcRefuses (val : Json) : Bool :=
  let resVal := jsonGet val "result".toList
  let errVal := jsonGet val "error".toList
  resVal.isNone || jsonIsNull resVal || errVal.isSome && !jsonIsNull errVal

/-- `json_object_set_new`; a text that is no UTF-8 makes no string. -/
def setRejectReason (reason : Option CString) (val : Json) : Json :=
  match reason, val with
  | some reason, .object members =>
    if utf8Valid reason then .object (members ++ [("reject-reason".toList, .string reason)]) else val
  | _, _ => val

/-- The answer and its error, if it has one, are the blocks of what
`JSON_LOADS` makes of the text. -/
def rpcAnswer (val : Json) (s : RpcState) : RpcResult := do
  let errVal := jsonGet val "error".toList
  let (valPtr, h) := s.exchange.blocks.malloc 1
  let (err, h) := if jsonCounted errVal then let (p, h) := h.malloc 1; (some p, h) else (none, h)
  let s := { s with exchange := { s.exchange with blocks := h } }
  if rpcRefuses val then rpcRefused err errVal s
  else
    let reason := s.exchange.hi.reason.map HeaderValue.text
    let s ← databufFree s
    return (some (valPtr, setRejectReason reason val), s)

def isJsonText (httpdata : CString) : Bool := httpdata.head? == some '{' || httpdata.head? == some '['

def rpcReply (loads : CString → Option Json) (unauthorized : Bool) (s : RpcState) : RpcResult := do
  match s.exchange.allData.buf with
  | none => rpcErrOut s
  | some buf =>
    if s.exchange.allData.len = 0 then rpcErrOut s
    else
      let httpdata := cstr s.exchange.allData.mem
      s.exchange.blocks.touch buf (httpdata.length + 1)
      if !isJsonText httpdata && unauthorized then rpcErrOut s
      else match loads httpdata with
        | none => rpcErrOut s
        | some val => rpcAnswer val s

def curleOperationTimedout : Int := 28

/-- From the return of `curl_easy_perform` on. `unauthorized` says that the
answer came with the code 401. -/
def jsonRpcCall (o : RpcOptions) (loads : CString → Option Json) (rc : Int) (unauthorized : Bool) (s : RpcState) :
    RpcResult :=
  let lpScanning := o.longpollScan && !s.haveLongpoll
  let s := { s with curlErr := s.curlErr.map fun _ => rc }
  if rc ≠ 0 ∧ ¬ (o.longpoll ∧ rc = curleOperationTimedout) then rpcErrOut s
  else rpcReply loads unauthorized (activateLongpoll lpScanning (activateStratum o s))

/-- What was pushed belongs to the thread that pops it. -/
def RpcState.handed (s : RpcState) : List (Nat × Nat) :=
  (s.toStratum.map HeaderValue.owned).toList ++ (s.toLongpoll.map HeaderValue.owned).toList

/-- What the caller gets is one block, if anything. -/
def answerOwn (v : Option (Nat × Json)) : List (Nat × Nat) := (v.map fun v => (v.1, 1)).toList

/-- Which way the call ends. -/
inductive RpcEnd where
  | failed
  | refused
  | answered (val : Json)

def replyEnd (loads : CString → Option Json) (unauthorized : Bool) (body : List Char) : RpcEnd :=
  if body = [] then .failed
  else if !isJsonText (cstr body) && unauthorized then .failed
  else match loads (cstr body) with
    | none => .failed
    | some val => if rpcRefuses val then .refused else .answered val

def rpcEnd (o : RpcOptions) (loads : CString → Option Json) (rc : Int) (unauthorized : Bool) (body : List Char) :
    RpcEnd :=
  if rc ≠ 0 ∧ ¬ (o.longpoll ∧ rc = curleOperationTimedout) then .failed else replyEnd loads unauthorized body

/-- What the caller gets, and what is left of memory that nobody will free. -/
def RpcEnd.Leaves (hi : HeaderInfo) (v : Option (Nat × Json)) (left : List (Nat × Nat)) : RpcEnd → Prop
  | .failed => v = none ∧ left = []
  | .refused => v = none ∧ left ≠ []
  | .answered val =>
    v.map Prod.snd = some (setRejectReason (hi.reason.map HeaderValue.text) val) ∧ left = hi.own

section Cleanup

variable {s : RpcState} {r : List (Nat × Nat)}

theorem databufFree_ok (hh : s.exchange.blocks.Holds (s.exchange.own ++ r)) :
    ∃ h, databufFree s = .ok { s with exchange := { s.exchange with blocks := h, allData := ⟨none, 0, []⟩ } } ∧
      h.Holds (s.exchange.hi.own ++ r) := by
  rw [HttpExchange.own, List.append_assoc] at hh
  obtain ⟨h, hfree, hh', -⟩ := hh.free_pointer (List.Perm.refl _)
  exact ⟨h, by rw [databufFree, hfree]; rfl, hh'⟩

theorem free_header {h : Blocks} {own : List (Nat × Nat)} (v : Option HeaderValue)
    (hh : h.Holds ((v.map HeaderValue.owned).toList ++ own)) :
    ∃ h', h.free (v.map HeaderValue.ptr) = .ok h' ∧ h'.Holds own := by
  obtain ⟨h', hfree, hh', -⟩ := hh.free_pointer (q := v.map HeaderValue.ptr) (n := (v.map HeaderValue.size).getD 0)
    (r := own) (by cases v <;> exact List.Perm.refl _)
  exact ⟨h', hfree, hh'⟩

theorem rpcErrOut_ok (hh : s.exchange.blocks.Holds (s.exchange.own ++ r)) :
    ∃ e, rpcErrOut s = .ok (none, { s with exchange := e }) ∧ e.blocks.Holds r := by
  have hperm : (s.exchange.own ++ r).Perm ((s.exchange.hi.lpPath.map HeaderValue.owned).toList ++
      ((s.exchange.hi.reason.map HeaderValue.owned).toList ++
        ((s.exchange.hi.stratumUrl.map HeaderValue.owned).toList ++
          ((s.exchange.allData.buf.map fun p => (p, s.exchange.allData.len + 1)).toList ++ r)))) := by
    refine List.perm_iff_count.mpr fun b => ?_
    simp only [HttpExchange.own, HeaderInfo.own, List.count_append]
    omega
  obtain ⟨h₁, hfree₁, hh₁⟩ := free_header _ (hh.perm hperm)
  obtain ⟨h₂, hfree₂, hh₂⟩ := free_header _ hh₁
  obtain ⟨h₃, hfree₃, hh₃⟩ := free_header _ hh₂
  obtain ⟨h₄, hdatabuf, hh₄⟩ := databufFree_ok
    (s := { s with exchange := { s.exchange with blocks := h₃, hi := ⟨none, none, none⟩ } }) (r := r)
    (by simpa only [HttpExchange.own, HeaderInfo.own, Option.map_none, Option.toList_none, List.append_nil] using hh₃)
  refine ⟨{ s.exchange with blocks := h₄, hi := ⟨none, none, none⟩, allData := ⟨none, 0, []⟩ }, ?_, hh₄⟩
  simp only [rpcErrOut, hfree₁, hfree₂, hfree₃, ok_bind, hdatabuf]
  rfl

theorem rpcErrorText_ok {h : Blocks} {own : List (Nat × Nat)} (hh : h.Holds own) (errVal : Option Json) :
    ∃ q n h', rpcErrorText h errVal = .ok (q, h') ∧ h'.Holds ((q.map fun p => (p, n)).toList ++ own) := by
  obtain ⟨q, n, h₁, htext, hh₁, -⟩ := errorText_ok hh errVal
  rw [rpcErrorText, htext]
  dsimp only
  cases jsonStringValue (errVal.bind fun errVal => jsonGet errVal "message".toList) with
  | none => exact ⟨q, n, h₁, rfl, hh₁⟩
  | some msg =>
    obtain ⟨h₂, hfree, hh₂, -⟩ := hh₁.free_pointer (List.Perm.refl _)
    exact ⟨some h₂.next, msg.length + 1, _, by simp only [hfree, ok_bind]; rfl, hh₂.malloc _⟩

theorem rpcRefused_ok {err : Option Nat} (errVal : Option Json)
    (hh : s.exchange.blocks.Holds ((err.map fun p => (p, 1)).toList ++ (s.exchange.own ++ r))) :
    ∃ e curlErr, rpcRefused err errVal s = .ok (none, { s with curlErr := curlErr, exchange := e }) ∧
      e.blocks.Holds r := by
  obtain ⟨q, n, h₁, htext, hh₁⟩ := rpcErrorText_ok hh errVal
  have hperm : ((q.map fun p => (p, n)).toList ++ ((err.map fun p => (p, 1)).toList ++ (s.exchange.own ++ r))).Perm
      ((err.map fun p => (p, 1)).toList ++ ((q.map fun p => (p, n)).toList ++ (s.exchange.own ++ r))) := by
    refine List.perm_iff_count.mpr fun b => ?_
    simp only [List.count_append]
    omega
  obtain ⟨h₂, hfree₂, hh₂, -⟩ := hh₁.free_pointer hperm
  obtain ⟨h₃, hfree₃, hh₃, -⟩ := hh₂.free_pointer (List.Perm.refl _)
  obtain ⟨e, hout, he⟩ := rpcErrOut_ok (s := { s with
    curlErr := s.curlErr.map (rpcErrorCode errVal), exchange := { s.exchange with blocks := h₃ } }) hh₃
  refine ⟨e, s.curlErr.map (rpcErrorCode errVal), ?_, he⟩
  simp only [rpcRefused, htext, ok_bind, hfree₂, hfree₃]
  exact hout

theorem rpcAnswer_ok (val : Json) (hh : s.exchange.blocks.Holds (s.exchange.own ++ r)) :
    ∃ v s' left, rpcAnswer val s = .ok (v, s') ∧ s'.handed = s.handed ∧
      s'.exchange.blocks.Holds (left ++ (answerOwn v ++ r)) ∧
      (if rpcRefuses val then RpcEnd.refused else .answered val).Leaves s.exchange.hi v left := by
  have hval := hh.malloc 1
  have hptr : (s.exchange.blocks.malloc 1).1 = s.exchange.blocks.next := rfl
  by_cases hrefuses : rpcRefuses val = true
  · have hrefused {err : Option Nat} {h : Blocks} (hh : h.Holds ((err.map fun p => (p, 1)).toList ++
        ((s.exchange.blocks.next, 1) :: (s.exchange.own ++ r)))) :
        ∃ v s' left, rpcRefused err (jsonGet val "error".toList)
          { s with exchange := { s.exchange with blocks := h } } = .ok (v, s') ∧ s'.handed = s.handed ∧
          s'.exchange.blocks.Holds (left ++ (answerOwn v ++ r)) ∧ RpcEnd.refused.Leaves s.exchange.hi v left := by
      obtain ⟨e, curlErr, hrefused, he⟩ := rpcRefused_ok (s := { s with exchange := { s.exchange with blocks := h } })
        (r := (s.exchange.blocks.next, 1) :: r) (jsonGet val "error".toList)
        (hh.perm (List.perm_middle.symm.append_left _))
      exact ⟨none, _, [(s.exchange.blocks.next, 1)], hrefused, rfl, he, rfl, List.cons_ne_nil _ _⟩
    rw [if_pos hrefuses]
    simp only [rpcAnswer, hptr, if_pos hrefuses]
    by_cases hcounted : jsonCounted (jsonGet val "error".toList) = true
    · simp only [if_pos hcounted]
      exact hrefused (hval.malloc 1)
    · simp only [if_neg hcounted]
      exact hrefused hval
  · have herr : jsonCounted (jsonGet val "error".toList) = false := by
      simp only [rpcRefuses, Bool.or_eq_true, Bool.and_eq_true, Bool.not_eq_true', not_or, not_and] at hrefuses
      cases herror : jsonGet val "error".toList with
      | none => rfl
      | some err =>
        have hnull := hrefuses.2
        rw [herror] at hnull
        cases err <;> first | rfl | exact absurd rfl (hnull rfl)
    obtain ⟨h, hdatabuf, hh'⟩ := databufFree_ok
      (s := { s with exchange := { s.exchange with blocks := (s.exchange.blocks.malloc 1).2 } })
      (r := (s.exchange.blocks.next, 1) :: r) (hval.perm List.perm_middle.symm)
    rw [if_neg hrefuses]
    refine ⟨some (s.exchange.blocks.next, setRejectReason (s.exchange.hi.reason.map HeaderValue.text) val),
      { s with exchange := { s.exchange with blocks := h, allData := ⟨none, 0, []⟩ } },
      s.exchange.hi.own, ?_, rfl, hh', rfl, rfl⟩
    simp only [rpcAnswer, hptr, if_neg hrefuses, herr, hdatabuf, ok_bind, Bool.false_eq_true, if_false]
    rfl

/-- The body ends with a zero inside its block. -/
theorem rpcReply_ok (loads : CString → Option Json) (unauthorized : Bool) {rpcReq : CString}
    (hs : s.exchange.Sound rpcReq r) :
    ∃ v s' left, rpcReply loads unauthorized s = .ok (v, s') ∧ s'.handed = s.handed ∧
      s'.exchange.blocks.Holds (left ++ (answerOwn v ++ r)) ∧
      (replyEnd loads unauthorized s.exchange.body).Leaves s.exchange.hi v left := by
  have hfailed : ∃ v s' left, rpcErrOut s = .ok (v, s') ∧ s'.handed = s.handed ∧
      s'.exchange.blocks.Holds (left ++ (answerOwn v ++ r)) ∧ RpcEnd.failed.Leaves s.exchange.hi v left := by
    obtain ⟨e, hout, he⟩ := rpcErrOut_ok hs.blocks
    exact ⟨none, _, [], hout, rfl, he, rfl, rfl⟩
  rw [rpcReply, replyEnd]
  cases hbuf : s.exchange.allData.buf with
  | none =>
    have hempty : s.exchange.body = [] := List.length_eq_zero_iff.mp (hs.body.trans (hs.empty hbuf))
    rw [if_pos hempty]
    exact hfailed
  | some buf =>
    dsimp only
    by_cases hlen : s.exchange.allData.len = 0
    · have hempty : s.exchange.body = [] := List.length_eq_zero_iff.mp (hs.body.trans hlen)
      rw [if_pos hlen, if_pos hempty]
      exact hfailed
    · have hnonempty : s.exchange.body ≠ [] := fun hempty => hlen (by rw [← hs.body, hempty]; rfl)
      have htext : cstr s.exchange.allData.mem = cstr s.exchange.body := by
        rw [hs.terminated buf hbuf]
        exact (holdsString_cstr s.exchange.body []).cstr_eq
      have hread : s.exchange.blocks.touch buf ((cstr s.exchange.body).length + 1) = .ok () := by
        refine hs.blocks.touch (n := s.exchange.allData.len + 1) ?_ ?_
        · rw [HttpExchange.own, hbuf]
          exact List.mem_append_left _ (List.mem_append_left _ (List.mem_singleton_self _))
        · rw [← hs.body]
          exact Nat.succ_le_succ (length_cstr_le _)
      rw [if_neg hlen, if_neg hnonempty, htext, hread, ok_bind]
      by_cases hunauthorized : (!isJsonText (cstr s.exchange.body) && unauthorized) = true
      · rw [if_pos hunauthorized, if_pos hunauthorized]
        exact hfailed
      · rw [if_neg hunauthorized, if_neg hunauthorized]
        cases loads (cstr s.exchange.body) with
        | none => exact hfailed
        | some val => exact rpcAnswer_ok val hs.blocks

end Cleanup

/-- Before the call nothing is pushed. -/
def RpcState.Fresh (s : RpcState) : Prop := s.toStratum = none ∧ s.toLongpoll = none

def stratumStarts (o : RpcOptions) (texts : HeaderKind → Option CString) : Bool :=
  (texts .stratumUrl).any fun url => startsStratum o url

/-- With the answer each header that was told is pushed to its thread; a reason
for a rejection never is. -/
structure HeadersTaken (o : RpcOptions) (haveStratum haveLongpoll : Bool) (texts : HeaderKind → Option CString) :
    Prop where
  reason : texts .reason = none
  stratumUrl : (texts .stratumUrl).isSome = true → stratumStarts o texts = true
  lpPath : (texts .lpPath).isSome = true →
    (o.longpollScan && !haveLongpoll && !(haveStratum || stratumStarts o texts)) = true

def RpcEnd.value (reason : Option CString) : RpcEnd → Option Json
  | .answered val => some (setRejectReason reason val)
  | _ => none

def RpcEnd.Frees (taken : Prop) : RpcEnd → Prop
  | .failed => True
  | .refused => False
  | .answered _ => taken

theorem activateStratum_haveStratum (o : RpcOptions) (s : RpcState) :
    (activateStratum o s).haveStratum = (s.haveStratum || stratumStarts o s.exchange.hi.text) := by
  rw [activateStratum, stratumStarts, HeaderInfo.text, HeaderInfo.get]
  cases s.exchange.hi.stratumUrl with
  | none => exact (Bool.or_false _).symm
  | some url =>
    simp only [Option.map_some, Option.any_some]
    by_cases hstarts : startsStratum o url.text = true
    · rw [if_pos hstarts, hstarts, Bool.or_true]
    · rw [if_neg hstarts, Bool.eq_false_iff.mpr hstarts, Bool.or_false]

theorem activateStratum_own {s : RpcState} (o : RpcOptions) (hs : s.toStratum = none) :
    s.exchange.hi.own.Perm ((activateStratum o s).exchange.hi.own ++
      ((activateStratum o s).toStratum.map HeaderValue.owned).toList) := by
  rw [activateStratum]
  cases hurl : s.exchange.hi.stratumUrl with
  | none => simp only [hs, Option.map_none, Option.toList_none, List.append_nil, List.Perm.refl]
  | some url =>
    dsimp only
    split_ifs
    · refine List.perm_iff_count.mpr fun b => ?_
      simp only [HeaderInfo.own, HeaderInfo.put, hurl, Option.map_some, Option.map_none, Option.toList_some,
        Option.toList_none, List.count_append, List.count_nil]
      omega
    · simp only [hs, Option.map_none, Option.toList_none, List.append_nil, List.Perm.refl]

theorem activateLongpoll_own {s : RpcState} (lpScanning : Bool) (hs : s.toLongpoll = none) :
    s.exchange.hi.own.Perm ((activateLongpoll lpScanning s).exchange.hi.own ++
      ((activateLongpoll lpScanning s).toLongpoll.map HeaderValue.owned).toList) := by
  rw [activateLongpoll]
  cases hpath : s.exchange.hi.lpPath with
  | none => simp only [hs, Option.map_none, Option.toList_none, List.append_nil, List.Perm.refl]
  | some path =>
    dsimp only
    split_ifs
    · refine List.perm_iff_count.mpr fun b => ?_
      simp only [HeaderInfo.own, HeaderInfo.put, hpath, Option.map_some, Option.map_none, Option.toList_some,
        Option.toList_none, List.count_append, List.count_nil]
      omega
    · simp only [hs, Option.map_none, Option.toList_none, List.append_nil, List.Perm.refl]

theorem activateStratum_eq (o : RpcOptions) (s : RpcState) :
    (activateStratum o s).toLongpoll = s.toLongpoll ∧
    ∃ hi, (activateStratum o s).exchange = { s.exchange with hi := hi } ∧ hi.lpPath = s.exchange.hi.lpPath ∧
      hi.reason = s.exchange.hi.reason ∧
      (hi.stratumUrl = none ↔
        ((s.exchange.hi.text .stratumUrl).isSome = true → stratumStarts o s.exchange.hi.text = true)) := by
  rw [activateStratum, stratumStarts, HeaderInfo.text, HeaderInfo.get]
  cases hurl : s.exchange.hi.stratumUrl with
  | none => exact ⟨rfl, s.exchange.hi, rfl, rfl, rfl, iff_of_true hurl fun hsome => by cases hsome⟩
  | some url =>
    simp only [Option.map_some, Option.any_some, Option.isSome_some, forall_const]
    split_ifs with hstarts
    · exact ⟨rfl, _, rfl, rfl, rfl, iff_of_true rfl hstarts⟩
    · refine ⟨rfl, s.exchange.hi, rfl, rfl, rfl, iff_of_false ?_ hstarts⟩
      rw [hurl]
      exact Option.some_ne_none _

theorem activateLongpoll_eq (lpScanning : Bool) (s : RpcState) :
    (activateLongpoll lpScanning s).toStratum = s.toStratum ∧
    ∃ hi, (activateLongpoll lpScanning s).exchange = { s.exchange with hi := hi } ∧
      hi.stratumUrl = s.exchange.hi.stratumUrl ∧ hi.reason = s.exchange.hi.reason ∧
      (hi.lpPath = none ↔ ((s.exchange.hi.text .lpPath).isSome = true → (lpScanning && !s.haveStratum) = true)) := by
  rw [activateLongpoll, HeaderInfo.text, HeaderInfo.get]
  cases hpath : s.exchange.hi.lpPath with
  | none => exact ⟨rfl, s.exchange.hi, rfl, rfl, rfl, iff_of_true hpath fun hsome => by cases hsome⟩
  | some path =>
    simp only [Option.map_some, Option.isSome_some, forall_const]
    split_ifs with hstarts
    · exact ⟨rfl, _, rfl, rfl, rfl, iff_of_true rfl hstarts⟩
    · refine ⟨rfl, s.exchange.hi, rfl, rfl, rfl, iff_of_false ?_ hstarts⟩
      rw [hpath]
      exact Option.some_ne_none _

theorem own_eq_nil_iff (hi : HeaderInfo) :
    hi.own = [] ↔ hi.lpPath = none ∧ hi.reason = none ∧ hi.stratumUrl = none := by
  simp only [HeaderInfo.own, List.append_eq_nil_iff, Option.toList_eq_nil_iff, Option.map_eq_none_iff]

/-- What the two threads get is no longer the call's. -/
theorem activated_sound {s : RpcState} (hfresh : s.Fresh) {rpcReq : CString} {lost : List (Nat × Nat)}
    (hs : s.exchange.Sound rpcReq lost) (o : RpcOptions) :
    let t := activateLongpoll (o.longpollScan && !s.haveLongpoll) (activateStratum o s)
    t.exchange.Sound rpcReq (t.handed ++ lost) ∧ t.exchange.body = s.exchange.body ∧
      t.exchange.hi.reason = s.exchange.hi.reason ∧
      (t.exchange.hi.own = [] ↔ HeadersTaken o s.haveStratum s.haveLongpoll s.exchange.hi.text) := by
  intro t
  obtain ⟨hto₁, hi₁, heq₁, hlp₁, hreason₁, hurl₁⟩ := activateStratum_eq o s
  obtain ⟨hto₂, hi₂, heq₂, hurl₂, hreason₂, hlp₂⟩ :=
    activateLongpoll_eq (o.longpollScan && !s.haveLongpoll) (activateStratum o s)
  have hown₁ := activateStratum_own o hfresh.1
  have hown₂ := activateLongpoll_own (s := activateStratum o s) (o.longpollScan && !s.haveLongpoll)
    (hto₁.trans hfresh.2)
  have hexchange : t.exchange = { s.exchange with hi := hi₂ } := by rw [heq₂, heq₁]
  have hhi : t.exchange.hi = hi₂ := by rw [hexchange]
  have hhi₁ : (activateStratum o s).exchange.hi = hi₁ := by rw [heq₁]
  have hperm : s.exchange.hi.own.Perm (hi₂.own ++ t.handed) := by
    refine List.perm_iff_count.mpr fun b => ?_
    have hcount₁ := List.perm_iff_count.mp hown₁ b
    have hcount₂ := List.perm_iff_count.mp hown₂ b
    change _ = List.count b (t.exchange.hi.own ++ (t.toLongpoll.map HeaderValue.owned).toList) at hcount₂
    rw [hhi] at hcount₂
    rw [RpcState.handed, hto₂]
    simp only [List.count_append] at hcount₁ hcount₂ ⊢
    omega
  refine ⟨?_, by rw [hexchange]; rfl, ?_, ?_⟩
  · rw [hexchange]
    refine ⟨hs.blocks.perm ?_, hs.body, hs.terminated, hs.empty, hs.request, hs.pos, hs.got⟩
    refine List.perm_iff_count.mpr fun b => ?_
    have hcount := List.perm_iff_count.mp hperm b
    simp only [HttpExchange.own, List.count_append] at hcount ⊢
    omega
  · rw [hhi, hreason₂, hhi₁, hreason₁]
  · rw [own_eq_nil_iff, hhi, hlp₂, hurl₂, hreason₂, hhi₁, hreason₁, hurl₁, activateStratum_haveStratum]
    have hlp : hi₁.text .lpPath = s.exchange.hi.text .lpPath := congrArg (Option.map HeaderValue.text) hlp₁
    have hreason : s.exchange.hi.reason = none ↔ s.exchange.hi.text .reason = none := Option.map_eq_none_iff.symm
    rw [hlp, hreason]
    constructor
    · rintro ⟨hpath, hreason, hurl⟩
      exact ⟨hreason, hurl, hpath⟩
    · exact fun h => ⟨h.lpPath, h.reason, h.stratumUrl⟩

/-- Whatever libcurl calls, the caller gets the answer and nothing is left of
the call's memory, but the answer and what the two threads get, exactly when no
header came twice and the answer is not refused nor comes with a header that is
for nobody. -/
theorem jsonRpcCall_frees_iff {h : Blocks} {r : List (Nat × Nat)} (hh : h.Holds r) {rpcReq : CString}
    (hreq : rpcReq.length < 0x10000000000000000) {cs : List CurlCall} {s : RpcState} (hfresh : s.Fresh)
    (hrun : run curlRun (exchangeStart h rpcReq) cs = some s.exchange) (o : RpcOptions)
    (loads : CString → Option Json) (rc : Int) (unauthorized : Bool) :
    ∃ v s', jsonRpcCall o loads rc unauthorized s = .ok (v, s') ∧
      v.map Prod.snd = (rpcEnd o loads rc unauthorized (bodyOf cs)).value ((headersOf cs).reverse.lookup .reason) ∧
      (s'.exchange.blocks.Holds (answerOwn v ++ (s'.handed ++ r)) ↔ ((headersOf cs).map Prod.fst).Nodup ∧
        (rpcEnd o loads rc unauthorized (bodyOf cs)).Frees
          (HeadersTaken o s.haveStratum s.haveLongpoll fun k => (headersOf cs).reverse.lookup k)) := by
  have hcollected := run_curl_collected hh hreq hrun
  obtain ⟨lost, hs, hlost⟩ := hcollected.sound
  have htexts : s.exchange.hi.text = fun k => (headersOf cs).reverse.lookup k := funext hcollected.text
  rw [← htexts, ← hcollected.text, ← hlost, ← hcollected.body, jsonRpcCall, rpcEnd]
  by_cases hrc : rc ≠ 0 ∧ ¬ (o.longpoll ∧ rc = curleOperationTimedout)
  · rw [if_pos hrc, if_pos hrc]
    obtain ⟨e, hout, he⟩ := rpcErrOut_ok (s := { s with curlErr := s.curlErr.map fun _ => rc }) hs.blocks
    refine ⟨none, _, hout, rfl, ?_⟩
    have hhanded : s.handed = [] := by rw [RpcState.handed, hfresh.1, hfresh.2]; rfl
    change e.blocks.Holds (s.handed ++ r) ↔ _
    rw [hhanded, List.nil_append, he.left_iff]
    exact (and_iff_left trivial).symm
  · rw [if_neg hrc, if_neg hrc]
    obtain ⟨ht, hbody, hreason, hown⟩ := activated_sound (s := { s with curlErr := s.curlErr.map fun _ => rc })
      hfresh hs o
    obtain ⟨v, s', left, hreply, hhanded, hs', hleaves⟩ := rpcReply_ok loads unauthorized ht
    rw [hbody] at hleaves
    rw [← hhanded] at hs'
    have hperm : (left ++ (answerOwn v ++ (s'.handed ++ (lost ++ r)))).Perm
        ((left ++ lost) ++ (answerOwn v ++ (s'.handed ++ r))) := by
      refine List.perm_iff_count.mpr fun b => ?_
      simp only [List.count_append]
      omega
    refine ⟨v, s', hreply, ?_, ?_⟩
    · cases hend : replyEnd loads unauthorized s.exchange.body with
      | failed =>
        rw [hend] at hleaves
        rw [hleaves.1]
        rfl
      | refused =>
        rw [hend] at hleaves
        rw [hleaves.1]
        rfl
      | answered val =>
        rw [hend] at hleaves
        rw [hleaves.1, hreason]
        rfl
    · rw [(hs'.perm hperm).left_iff, List.append_eq_nil_iff, and_comm]
      refine and_congr_right fun _ => ?_
      cases hend : replyEnd loads unauthorized s.exchange.body with
      | failed =>
        rw [hend] at hleaves
        exact iff_of_true hleaves.2 trivial
      | refused =>
        rw [hend] at hleaves
        exact iff_of_false hleaves.2 id
      | answered val =>
        rw [hend] at hleaves
        rw [hleaves.2]
        exact hown

theorem jsonRpcCall_refused : ∃ e v s',
    run curlRun (exchangeStart .empty "[]".toList) [.write "\x7b\x7d".toList] = some e ∧
    jsonRpcCall ⟨true, true, false, false⟩ (fun _ => some (.object [])) 0 false
      ⟨false, false, none, none, none, e⟩ = .ok (v, s') ∧ v.isNone = true ∧
    ¬ s'.exchange.blocks.Holds (answerOwn v ++ (s'.handed ++ [])) := by
  have hreq : "[]".toList.length < 0x10000000000000000 := by decide
  obtain ⟨e, hrun⟩ := (run_curl_runs_iff Blocks.empty_holds hreq [.write "\x7b\x7d".toList]).mpr
    ⟨trivial, fun _ _ => trivial⟩
  obtain ⟨v, s', hcall, hvalue, hfrees⟩ := jsonRpcCall_frees_iff Blocks.empty_holds hreq
    (s := ⟨false, false, none, none, none, e⟩) ⟨rfl, rfl⟩ hrun ⟨true, true, false, false⟩
    (fun _ => some (.object [])) 0 false
  refine ⟨e, v, s', hrun, hcall, ?_, fun hholds => (hfrees.mp hholds).2⟩
  cases v with
  | none => rfl
  | some v => cases hvalue

end VerusMiner
