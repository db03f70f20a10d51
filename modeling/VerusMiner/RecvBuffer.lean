import VerusMiner.Lib.CMemory
import VerusMiner.Lib.Runs
import VerusMiner.RecvLine

/-! The memory behind the lines that are read from a pool: the buffer is made,
grown, cut and emptied with every access to it checked. -/

namespace VerusMiner

/-- What `recv` puts into its array: at most what it is asked for. -/
structure Chunk where
  bytes : CString
  size_le : bytes.length ≤ recvSize

def rbufSize : Nat := 2048

/-- The array of a turn of the loop, which is cleared before `recv` writes to it. -/
def Chunk.array (c : Chunk) : CString := c.bytes ++ List.replicate (rbufSize - c.bytes.length) '\x00'

structure RecvBuffer where
  sockbuf : Option CString
  sockbufSize : BitVec 64

def freshBuffer : RecvBuffer :=
  { sockbuf := some (List.replicate rbufSize '\x00'), sockbufSize := BitVec.ofNat 64 rbufSize }

def checkedClear (b : RecvBuffer) : MemChecked RecvBuffer := do
  let m ← checkedStore (← deref b.sockbuf) 0 '\x00'
  return { b with sockbuf := some m }

/-- The part of `stratum_connect` about the buffer. -/
def checkedConnect (b : RecvBuffer) : MemChecked RecvBuffer :=
  checkedClear (if b.sockbuf.isNone then freshBuffer else b)

def checkedDisconnect (b : RecvBuffer) : MemChecked RecvBuffer :=
  if b.sockbuf.isNone then .ok b else checkedClear b

def checkedBufferAppend (b : RecvBuffer) (s : CString) (fresh : Nat → Char) : MemChecked RecvBuffer := do
  let m ← deref b.sockbuf
  let old ← checkedStrlen m
  let snew := BitVec.ofNat 64 old + BitVec.ofNat 64 (← checkedStrlen s) + 1
  if b.sockbufSize ≤ snew then
    let size := snew + (BitVec.ofNat 64 rbufSize - snew % BitVec.ofNat 64 rbufSize)
    let m ← checkedRealloc m size.toNat fresh
    return { sockbuf := some (← checkedStrcpy m old s), sockbufSize := size }
  else return { b with sockbuf := some (← checkedStrcpy m old s) }

/-- The token, and the memory with a zero in place of the newline behind it. -/
def checkedStrtok (m : CString) : MemChecked (Option CString × CString) := do
  let n ← checkedStrlen m
  match strtok (cstr m) with
  | none => return (none, m)
  | some (start, tok) =>
    if start + tok.length < n then return (some tok, ← checkedStore m (start + tok.length) '\x00')
    else return (some tok, m)

def checkedTakeLine (b : RecvBuffer) : MemChecked (Option CString × RecvBuffer) := do
  let m ← deref b.sockbuf
  let buflen ← checkedStrlen m
  match ← checkedStrtok m with
  | (none, m) => return (none, { b with sockbuf := some m })
  | (some sret, m) =>
    let len := sret.length
    let m ← if len + 1 < buflen then checkedMemmove m 0 (len + 1) (buflen - len + 1) else checkedStore m 0 '\x00'
    return (some sret, { b with sockbuf := some m })

/-- `strstr` of the newline in the buffer. -/
def holdsLine (b : RecvBuffer) : MemChecked Bool := do
  let m ← deref b.sockbuf
  let _ ← checkedStrlen m
  return (cstr m).contains '\n'

inductive TurnOutcome where
  | data (c : Chunk) (fresh : Nat → Char)
  | blocked
  | closed

structure RecvTurn where
  outcome : TurnOutcome
  late : Bool

/-- Whether the loop has ended, for another reason than a failure. -/
def loopEnds (late : Bool) (b : RecvBuffer) : MemChecked Bool := if late then .ok true else holdsLine b

/-- A turn of the loop of `stratum_recv_line`, and `ret` behind the last one. -/
def checkedTurn (b : RecvBuffer) (r : RecvTurn) : MemChecked (RecvBuffer × Option Bool) :=
  match r.outcome with
  | .closed => .ok (b, some false)
  | .blocked => do
    if ← loopEnds r.late b then return (b, some true) else return (b, none)
  | .data c fresh => do
    let b ← checkedBufferAppend b c.array fresh
    if ← loopEnds r.late b then return (b, some true) else return (b, none)

/-- `receiving` is for a call of `stratum_recv_line` that is in its loop, and
`lines` are what the calls have returned. -/
structure RecvState where
  buffer : RecvBuffer
  receiving : Bool
  lines : List (Option CString)

def RecvState.returns (s : RecvState) (r : Option CString × RecvBuffer) : RecvState :=
  { buffer := r.2, receiving := false, lines := s.lines ++ [r.1] }

def RecvState.call (s : RecvState) (ready : Bool) : MemChecked RecvState :=
  match s.buffer.sockbuf with
  | none => .ok (s.returns (none, s.buffer))
  | some _ => do
    if ← holdsLine s.buffer then return s.returns (← checkedTakeLine s.buffer)
    else if ready then return { s with receiving := true }
    else return s.returns (none, s.buffer)

def RecvState.turn (s : RecvState) (r : RecvTurn) : MemChecked RecvState := do
  match ← checkedTurn s.buffer r with
  | (b, none) => return { s with buffer := b }
  | (b, some false) => return s.returns (none, b)
  | (b, some true) => return s.returns (← checkedTakeLine b)

inductive RecvEvent where
  | connect
  | disconnect
  | append (c : Chunk) (fresh : Nat → Char)
  | call (ready : Bool)
  | turn (r : RecvTurn)

def RecvState.event (s : RecvState) : RecvEvent → Option (MemChecked RecvState)
  | .connect => if s.receiving then none else some ((checkedConnect s.buffer).map fun b => { s with buffer := b })
  | .disconnect =>
    if s.receiving then none else some ((checkedDisconnect s.buffer).map fun b => { s with buffer := b })
  | .append c fresh =>
    -- its one caller has looked at the pointer
    if s.buffer.sockbuf.isNone then none
    else some ((checkedBufferAppend s.buffer c.array fresh).map fun b => { s with buffer := b })
  | .call ready => if s.receiving then none else some (s.call ready)
  | .turn r => if s.receiving then some (s.turn r) else none

/-- Nothing is done any more after a fault. -/
def recvStep : MemChecked RecvState → RecvEvent → Option (MemChecked RecvState)
  | .ok s, e => s.event e
  | .error _, _ => none

/-- The buffer holds `text` and has a byte to spare behind its end. -/
structure RecvBuffer.Holds (b : RecvBuffer) (text : CString) : Prop where
  string : ∃ m, b.sockbuf = some m ∧ m.length = b.sockbufSize.toNat ∧ HoldsString m text
  slack : text.length + 2 ≤ b.sockbufSize.toNat
  size_lt : b.sockbufSize.toNat < 0x8000000000000000

/-- There is no buffer before the first connection. -/
def RecvBuffer.Intact (b : RecvBuffer) : Prop := b.sockbuf = none ∨ ∃ text, b.Holds text

/-- No access but those inside the buffer: all that can go wrong is that there
is no memory left. -/
def NeverOverrun : MemChecked RecvState → Prop
  | .ok s => s.buffer.Intact
  | .error fault => fault = .noMemory

structure RecvState.Safe (s : RecvState) : Prop where
  intact : s.buffer.Intact
  receiving : s.receiving = true → ∃ text, s.buffer.Holds text

def RecvTurn.recv (r : RecvTurn) : Recv where
  outcome :=
    match r.outcome with
    | .data c _ => .data c.bytes
    | .blocked => .blocked
    | .closed => .closed
  late := r.late

/-- What a call returns behind its loop, and the text it leaves. -/
def callResult (ret : Bool) (text : CString) : Option CString × CString :=
  if ret then takeLine text else (none, text)

def CallEnds (s : RecvState) (r : Option CString × CString) (t : MemChecked RecvState) : Prop :=
  t = .error .noMemory ∨ ∃ b, t = .ok (s.returns (r.1, b)) ∧ b.Holds r.2

section Buffer

variable {b : RecvBuffer} {text : CString}

theorem Chunk.array_holds (c : Chunk) : HoldsString c.array (cstr c.bytes) := by
  have hsize := c.size_le
  obtain ⟨k, hk⟩ : ∃ k, rbufSize - c.bytes.length = k + 1 :=
    Nat.exists_eq_succ_of_ne_zero (by unfold recvSize at hsize; unfold rbufSize; omega)
  rw [Chunk.array, hk, List.replicate_succ]
  exact holdsString_cstr c.bytes _

theorem freshBuffer_holds : freshBuffer.Holds [] where
  string := ⟨_, rfl, List.length_replicate, holdsString_append List.not_mem_nil (List.replicate 2047 '\x00')⟩
  slack := by decide
  size_lt := by decide

theorem RecvBuffer.Holds.clear (h : b.Holds text) : ∃ b', checkedClear b = .ok b' ∧ b'.Holds [] := by
  obtain ⟨⟨m, hbuf, hlen, hs⟩, hslack, hlt⟩ := h
  obtain ⟨m', hstore, hs', hlen'⟩ := checkedStore_zero (Nat.zero_lt_of_lt hs.length_lt)
  refine ⟨{ b with sockbuf := some m' }, ?_, ⟨m', rfl, hlen'.trans hlen, hs'⟩, ?_, hlt⟩
  · simp only [checkedClear, hbuf, deref, hstore, bind, Except.bind, pure, Except.pure]
  · exact (Nat.add_le_add_right (Nat.zero_le _) 2).trans hslack

theorem RecvBuffer.Holds.isNone (h : b.Holds text) : b.sockbuf.isNone = false := by
  obtain ⟨⟨m, hbuf, _⟩, _⟩ := h
  rw [hbuf]
  rfl

theorem checkedConnect_intact (h : b.Intact) : ∃ b', checkedConnect b = .ok b' ∧ b'.Holds [] := by
  rw [checkedConnect]
  rcases h with hnull | ⟨text, h⟩
  · rw [hnull]
    exact freshBuffer_holds.clear
  · rw [h.isNone]
    exact h.clear

theorem checkedDisconnect_intact (h : b.Intact) : ∃ b', checkedDisconnect b = .ok b' ∧ b'.Intact := by
  rcases h with hnull | ⟨text, h⟩
  · exact ⟨b, if_pos (by rw [hnull]; rfl), .inl hnull⟩
  · obtain ⟨b', hclear, hb'⟩ := h.clear
    exact ⟨b', by rw [checkedDisconnect, h.isNone]; exact hclear, .inr ⟨[], hb'⟩⟩

theorem grown_size {old n : Nat} (hold : old + 2 < 0x8000000000000000) (hn : n ≤ recvSize) :
    let snew := BitVec.ofNat 64 old + BitVec.ofNat 64 n + 1
    snew.toNat = old + n + 1 ∧
      (snew + (BitVec.ofNat 64 rbufSize - snew % BitVec.ofNat 64 rbufSize)).toNat =
        old + n + 1 + (rbufSize - (old + n + 1) % rbufSize) := by
  unfold recvSize at hn
  unfold rbufSize
  have hsnew : (BitVec.ofNat 64 old + BitVec.ofNat 64 n + 1).toNat = old + n + 1 := by
    simp only [BitVec.toNat_add, BitVec.toNat_ofNat, BitVec.ofNat_eq_ofNat]
    omega
  have hrbuf : (BitVec.ofNat 64 2048).toNat = 2048 := rfl
  refine ⟨hsnew, ?_⟩
  simp only [BitVec.toNat_add _ (_ - _), BitVec.toNat_sub, BitVec.toNat_umod, hsnew, hrbuf]
  omega

theorem RecvBuffer.Holds.append (h : b.Holds text) (c : Chunk) (fresh : Nat → Char) :
    checkedBufferAppend b c.array fresh = .error .noMemory ∨
      ∃ b', checkedBufferAppend b c.array fresh = .ok b' ∧ b'.Holds (text ++ cstr c.bytes) := by
  obtain ⟨⟨m, hbuf, hlen, hs⟩, hslack, hlt⟩ := h
  have hchunk : (cstr c.bytes).length ≤ recvSize := (length_cstr_le _).trans c.size_le
  have hold : text.length + 2 < 0x8000000000000000 := hslack.trans_lt hlt
  obtain ⟨hsnew, hsize⟩ := grown_size hold hchunk
  have harray := c.array_holds
  have hlength : (text ++ cstr c.bytes).length = text.length + (cstr c.bytes).length := List.length_append
  simp only [checkedBufferAppend, hbuf, deref, hs.checkedStrlen_eq, harray.checkedStrlen_eq, bind, Except.bind, pure,
    Except.pure]
  generalize BitVec.ofNat 64 text.length + BitVec.ofNat 64 (cstr c.bytes).length + 1 = snew at hsnew hsize ⊢
  have hgrows : b.sockbufSize ≤ snew ↔ b.sockbufSize.toNat ≤ text.length + (cstr c.bytes).length + 1 := by
    rw [BitVec.le_def, hsnew]
  split_ifs with hgrow
  · rw [hgrows] at hgrow
    generalize snew + (BitVec.ofNat 64 rbufSize - snew % BitVec.ofNat 64 rbufSize) = size at hsize ⊢
    have hmod : (text.length + (cstr c.bytes).length + 1) % rbufSize < rbufSize := Nat.mod_lt _ (by decide)
    by_cases halloc : size.toNat < 0x8000000000000000
    · obtain ⟨m₁, hrealloc, hs₁, hlen₁⟩ := checkedRealloc_grow hs (by omega) halloc fresh
      obtain ⟨m', hcopy, hs', hlen'⟩ := checkedStrcpy_end hs₁ harray (by omega)
      refine .inr ⟨{ sockbuf := some m', sockbufSize := size }, ?_, ⟨m', rfl, hlen'.trans hlen₁, hs'⟩, ?_,
        halloc⟩
      · simp only [hrealloc, hcopy]
      · dsimp only
        omega
    · left
      simp only [checkedRealloc, if_neg halloc]
  · rw [hgrows] at hgrow
    obtain ⟨m', hcopy, hs', hlen'⟩ := checkedStrcpy_end hs harray (by omega)
    refine .inr ⟨{ b with sockbuf := some m' }, ?_, ⟨m', rfl, hlen'.trans hlen, hs'⟩, ?_, hlt⟩
    · simp only [hcopy]
    · dsimp only
      omega

theorem strtok_le {s : CString} {start : Nat} {tok : CString} (h : strtok s = some (start, tok)) :
    start + tok.length ≤ s.length := by
  simp only [strtok] at h
  split_ifs at h
  cases h
  have htake : (s.takeWhile (· == '\n')).length + (s.dropWhile (· == '\n')).length = s.length := by
    rw [← List.length_append, List.takeWhile_append_dropWhile]
  have htok := (List.takeWhile_prefix (l := s.dropWhile (· == '\n')) (· != '\n')).length_le
  omega

theorem checkedStrtok_none {m : CString} (hs : HoldsString m text) (h : strtok text = none) :
    checkedStrtok m = .ok (none, m) := by
  simp only [checkedStrtok, hs.checkedStrlen_eq, hs.cstr_eq, h, bind, Except.bind, pure, Except.pure]

theorem checkedStrtok_some {m : CString} (hs : HoldsString m text) {start : Nat} {tok : CString}
    (h : strtok text = some (start, tok)) :
    ∃ m', checkedStrtok m = .ok (some tok, m') ∧ m'.length = m.length ∧
      ∀ j ≤ text.length, HoldsString (m'.drop j) (cstr ((text.set (start + tok.length) '\x00').drop j)) := by
  have hle := strtok_le h
  have hlt := hs.length_lt
  simp only [checkedStrtok, hs.checkedStrlen_eq, hs.cstr_eq, h, bind, Except.bind, pure, Except.pure]
  split_ifs with hend
  · refine ⟨m.set (start + tok.length) '\x00', ?_, List.length_set, fun j hj => hs.drop_set hend hj⟩
    simp only [checkedStore, if_pos (hend.trans hlt)]
  · refine ⟨m, rfl, rfl, fun j hj => ?_⟩
    have hplain : '\x00' ∉ text.drop j := fun hmem => hs.plain (List.mem_of_mem_drop hmem)
    rw [List.set_eq_of_length_le (by omega), cstr_of_not_mem hplain]
    exact hs.drop hj

/-- The extra byte that is moved is the one to spare. -/
theorem RecvBuffer.Holds.takeLine (h : b.Holds text) :
    ∃ b', checkedTakeLine b = .ok ((takeLine text).1, b') ∧ b'.Holds (takeLine text).2 := by
  obtain ⟨⟨m, hbuf, hlen, hs⟩, hslack, hlt⟩ := h
  cases htok : strtok text with
  | none =>
    refine ⟨b, ?_, ?_⟩
    · simp only [checkedTakeLine, hbuf, deref, hs.checkedStrlen_eq, checkedStrtok_none hs htok, VerusMiner.takeLine,
        htok, bind, Except.bind, pure, Except.pure]
      rw [← hbuf]
    · simp only [VerusMiner.takeLine, htok]
      exact ⟨⟨m, hbuf, hlen, hs⟩, hslack, hlt⟩
  | some r =>
    obtain ⟨start, tok⟩ := r
    obtain ⟨m₁, hmarks, hlen₁, hs₁⟩ := checkedStrtok_some hs htok
    simp only [checkedTakeLine, hbuf, deref, hs.checkedStrlen_eq, hmarks, VerusMiner.takeLine, htok, bind,
      Except.bind, pure, Except.pure]
    split_ifs with hmore
    · have hrest := hs₁ (tok.length + 1) hmore.le
      have hshort := length_cstr_le ((text.set (start + tok.length) '\x00').drop (tok.length + 1))
      rw [List.length_drop, List.length_set] at hshort
      obtain ⟨m', hmove, hs', hlen'⟩ := checkedMemmove_front (n := text.length - tok.length + 1) (by omega) hrest
        (by omega)
      refine ⟨{ b with sockbuf := some m' }, ?_, ⟨m', rfl, hlen'.trans (hlen₁.trans hlen), hs'⟩, ?_, hlt⟩
      · simp only [hmove]
      · dsimp only
        omega
    · obtain ⟨m', hstore, hs', hlen'⟩ := checkedStore_zero (m := m₁) (by omega)
      refine ⟨{ b with sockbuf := some m' }, ?_, ⟨m', rfl, hlen'.trans (hlen₁.trans hlen), hs'⟩, ?_, hlt⟩
      · simp only [hstore]
      · exact (Nat.add_le_add_right (Nat.zero_le _) 2).trans hslack

theorem RecvBuffer.Holds.holdsLine (h : b.Holds text) : holdsLine b = .ok (text.contains '\n') := by
  obtain ⟨⟨m, hbuf, _, hs⟩, _⟩ := h
  simp only [VerusMiner.holdsLine, hbuf, deref, hs.checkedStrlen_eq, hs.cstr_eq, bind, Except.bind, pure, Except.pure]

theorem RecvBuffer.Holds.loopEnds (h : b.Holds text) (late : Bool) :
    loopEnds late b = .ok (late || text.contains '\n') := by
  cases late with
  | true => rfl
  | false => exact h.holdsLine

theorem RecvBuffer.Holds.intact (h : b.Holds text) : b.Intact := .inr ⟨text, h⟩

theorem RecvBuffer.Holds.turn (h : b.Holds text) (r : RecvTurn) :
    checkedTurn b r = .error .noMemory ∨
      ∃ b' text' ret, checkedTurn b r = .ok (b', ret) ∧ b'.Holds text' ∧
        ∀ rs, recvLoop text (r.recv :: rs) = ret.elim (recvLoop text' rs) fun ret => some (text', ret, rs) := by
  obtain ⟨outcome, late⟩ := r
  cases outcome with
  | closed => exact .inr ⟨b, text, some false, rfl, h, fun rs => rfl⟩
  | blocked =>
    right
    simp only [checkedTurn, h.loopEnds, recvLoop, RecvTurn.recv, bind, Except.bind, pure, Except.pure]
    split_ifs with hends
    · exact ⟨b, text, some true, rfl, h, fun rs => if_pos hends⟩
    · exact ⟨b, text, none, rfl, h, fun rs => if_neg hends⟩
  | data c fresh =>
    rcases h.append c fresh with hfull | ⟨b', happend, h'⟩
    · left
      simp only [checkedTurn, hfull, bind, Except.bind]
    · right
      simp only [checkedTurn, happend, h'.loopEnds, recvLoop, RecvTurn.recv, bind, Except.bind, pure, Except.pure]
      split_ifs with hends
      · exact ⟨b', _, some true, rfl, h', fun rs => if_pos hends⟩
      · exact ⟨b', _, none, rfl, h', fun rs => if_neg hends⟩

end Buffer

section Run

variable {s : RecvState} {t : MemChecked RecvState} {e : RecvEvent}

theorem RecvState.Safe.of_idle {b : RecvBuffer} (hidle : s.receiving = false) (h : b.Intact) :
    RecvState.Safe { s with buffer := b } :=
  ⟨h, fun hreceiving => by rw [hidle] at hreceiving; cases hreceiving⟩

theorem RecvState.Safe.of_holds {b : RecvBuffer} {text : CString} (h : b.Holds text) (s : RecvState) :
    RecvState.Safe { s with buffer := b } := ⟨h.intact, fun _ => ⟨text, h⟩⟩

theorem RecvState.safe_returns (s : RecvState) {b : RecvBuffer} (h : b.Intact) (line : Option CString) :
    (s.returns (line, b)).Safe := ⟨h, fun hreceiving => by cases hreceiving⟩

theorem RecvState.call_holds {text : CString} (h : s.buffer.Holds text) (ready : Bool) :
    if text.contains '\n' then
      ∃ b, s.call ready = .ok (s.returns ((takeLine text).1, b)) ∧ b.Holds (takeLine text).2
    else s.call ready = .ok (if ready then { s with receiving := true } else s.returns (none, s.buffer)) := by
  obtain ⟨b, htake, hb⟩ := h.takeLine
  obtain ⟨m, hbuf, _⟩ := h.string
  simp only [RecvState.call, hbuf, h.holdsLine, htake, bind, Except.bind, pure, Except.pure]
  split_ifs
  · exact ⟨b, rfl, hb⟩
  · rfl
  · rfl

theorem RecvState.turn_holds {text : CString} (h : s.buffer.Holds text) (r : RecvTurn) :
    s.turn r = .error .noMemory ∨
      (∃ b text', s.turn r = .ok { s with buffer := b } ∧ b.Holds text' ∧
        ∀ rs, recvLoop text (r.recv :: rs) = recvLoop text' rs) ∨
      ∃ text' ret, CallEnds s (callResult ret text') (s.turn r) ∧
        ∀ rs, recvLoop text (r.recv :: rs) = some (text', ret, rs) := by
  rcases h.turn r with hfull | ⟨b, text', ret, hturn, hb, hloop⟩
  · left
    simp only [RecvState.turn, hfull, bind, Except.bind]
  · right
    simp only [RecvState.turn, hturn, bind, Except.bind, pure, Except.pure]
    cases ret with
    | none => exact .inl ⟨b, text', rfl, hb, hloop⟩
    | some ret =>
      refine .inr ⟨text', ret, .inr ?_, hloop⟩
      cases ret with
      | false => exact ⟨b, rfl, hb⟩
      | true =>
        obtain ⟨b', htake, hb'⟩ := hb.takeLine
        exact ⟨b', by simp only [htake]; rfl, hb'⟩

theorem CallEnds.safe {r : Option CString × CString} (h : CallEnds s r t) :
    t = .error .noMemory ∨ ∃ s', t = .ok s' ∧ s'.Safe := by
  rcases h with hfull | ⟨b, ht, hb⟩
  · exact .inl hfull
  · exact .inr ⟨_, ht, s.safe_returns hb.intact r.1⟩

theorem RecvState.Safe.call (h : s.Safe) (ready : Bool) : ∃ s', s.call ready = .ok s' ∧ s'.Safe := by
  rcases h.intact with hnull | ⟨text, hholds⟩
  · exact ⟨s.returns (none, s.buffer), by simp only [RecvState.call, hnull], s.safe_returns h.intact none⟩
  · have hcall := RecvState.call_holds hholds ready
    split_ifs at hcall
    · obtain ⟨b, hcall, hb⟩ := hcall
      exact ⟨_, hcall, s.safe_returns hb.intact _⟩
    · exact ⟨_, hcall, h.intact, fun _ => ⟨text, hholds⟩⟩
    · exact ⟨_, hcall, s.safe_returns h.intact none⟩

theorem RecvState.Safe.turn (h : s.Safe) (hreceiving : s.receiving = true) (r : RecvTurn) :
    s.turn r = .error .noMemory ∨ ∃ s', s.turn r = .ok s' ∧ s'.Safe := by
  obtain ⟨text, hholds⟩ := h.receiving hreceiving
  rcases RecvState.turn_holds hholds r with hfull | ⟨b, text', hturn, hb, _⟩ | ⟨text', ret, hends, _⟩
  · exact .inl hfull
  · exact .inr ⟨_, hturn, .of_holds hb s⟩
  · exact hends.safe

theorem recvStep_safe (h : s.Safe) (hstep : recvStep (.ok s) e = some t) :
    t = .error .noMemory ∨ ∃ s', t = .ok s' ∧ s'.Safe := by
  cases e with
  | connect =>
    simp only [recvStep, RecvState.event] at hstep
    split_ifs at hstep with hreceiving
    obtain ⟨b', hconnect, h'⟩ := checkedConnect_intact h.intact
    rw [hconnect] at hstep
    cases hstep
    exact .inr ⟨_, rfl, .of_holds h' s⟩
  | disconnect =>
    simp only [recvStep, RecvState.event] at hstep
    split_ifs at hstep with hreceiving
    obtain ⟨b', hdisconnect, h'⟩ := checkedDisconnect_intact h.intact
    rw [hdisconnect] at hstep
    cases hstep
    exact .inr ⟨_, rfl, .of_idle (Bool.not_eq_true _ ▸ hreceiving) h'⟩
  | append c fresh =>
    simp only [recvStep, RecvState.event] at hstep
    split_ifs at hstep with hnull
    rcases h.intact with hnone | ⟨text, hholds⟩
    · rw [hnone] at hnull
      exact absurd rfl hnull
    · rcases hholds.append c fresh with hfull | ⟨b', happend, h'⟩
      · rw [hfull] at hstep
        cases hstep
        exact .inl rfl
      · rw [happend] at hstep
        cases hstep
        exact .inr ⟨_, rfl, .of_holds h' s⟩
  | call ready =>
    simp only [recvStep, RecvState.event] at hstep
    split_ifs at hstep
    obtain ⟨s', hcall, h'⟩ := h.call ready
    rw [hcall] at hstep
    cases hstep
    exact .inr ⟨s', rfl, h'⟩
  | turn r =>
    simp only [recvStep, RecvState.event] at hstep
    split_ifs at hstep with hreceiving
    cases hstep
    exact h.turn hreceiving r

def RecvSafe : MemChecked RecvState → Prop
  | .ok s => s.Safe
  | .error fault => fault = .noMemory

def unconnected : RecvState where
  buffer := { sockbuf := none, sockbufSize := 0 }
  receiving := false
  lines := []

theorem unconnected_safe : unconnected.Safe := ⟨.inl rfl, fun hreceiving => (by cases hreceiving)⟩

/-- However connections, calls and what arrives follow each other, the buffer
is never overrun. -/
theorem run_neverOverrun (es : List RecvEvent) : Throughout recvStep NeverOverrun (.ok unconnected) es := by
  have hstart : RecvSafe (.ok unconnected) := unconnected_safe
  refine throughout_of_invariant (I := RecvSafe) ?_ ?_ hstart es
  · intro t e t' h hstep
    cases t with
    | error fault => cases hstep
    | ok s =>
      rcases recvStep_safe h hstep with rfl | ⟨s', rfl, h'⟩
      · rfl
      · exact h'
  · intro t h
    cases t with
    | error fault => exact h
    | ok s => exact h.intact

theorem run_recvTurns {text text' : CString} {ret : Bool} {rs : List RecvTurn} {rest : List Recv}
    (hreceiving : s.receiving = true) (h : s.buffer.Holds text)
    (hloop : recvLoop text (rs.map RecvTurn.recv) = some (text', ret, rest)) :
    ∃ n t, run recvStep (.ok s) ((rs.take n).map .turn) = some t ∧ CallEnds s (callResult ret text') t := by
  induction rs generalizing s text with
  | nil => cases hloop
  | cons r rs ih =>
    have hstep : recvStep (.ok s) (.turn r) = some (s.turn r) := if_pos hreceiving
    rcases RecvState.turn_holds h r with hfull | ⟨b, text₁, hturn, hb, hnext⟩ | ⟨_, _, hends, hnext⟩
    · exact ⟨1, _, run_singleton hstep, .inl hfull⟩
    · rw [List.map_cons, hnext] at hloop
      obtain ⟨n, t, hrun, hends⟩ := ih (s := { s with buffer := b }) hreceiving hb hloop
      exact ⟨n + 1, t, run_cons.mpr ⟨_, hstep, by rw [hturn]; exact hrun⟩, hends⟩
    · rw [List.map_cons, hnext] at hloop
      cases hloop
      exact ⟨1, _, run_singleton hstep, hends⟩

/-- What `stratumRecvLine` says of the text is what a call does in the memory. -/
theorem run_stratumRecvLine {text text' : CString} {line : Option CString} {ready : Bool} {rs : List RecvTurn}
    {rest : List Recv} (hidle : s.receiving = false) (h : s.buffer.Holds text)
    (hline : stratumRecvLine ready text (rs.map RecvTurn.recv) = some (line, text', rest)) :
    ∃ n t, run recvStep (.ok s) (.call ready :: (rs.take n).map .turn) = some t ∧ CallEnds s (line, text') t := by
  have hstep : recvStep (.ok s) (.call ready) = some (s.call ready) :=
    if_neg (by rw [hidle]; exact Bool.false_ne_true)
  have hcall := RecvState.call_holds h ready
  by_cases hnewline : text.contains '\n' = true
  · rw [if_pos hnewline] at hcall
    obtain ⟨b, hcall, hb⟩ := hcall
    rw [stratumRecvLine, if_pos hnewline] at hline
    cases hline
    exact ⟨0, _, run_singleton hstep, .inr ⟨b, hcall, hb⟩⟩
  · rw [if_neg hnewline] at hcall
    rw [stratumRecvLine, if_neg hnewline] at hline
    cases ready with
    | false =>
      cases hline
      exact ⟨0, _, run_singleton hstep, .inr ⟨s.buffer, hcall, h⟩⟩
    | true =>
      obtain ⟨⟨text₁, ret, rest₁⟩, hloop, hret⟩ := Option.map_eq_some_iff.mp hline
      have hresult : callResult ret text₁ = (line, text') := by
        cases ret with
        | false =>
          cases hret
          rfl
        | true =>
          cases hret
          rfl
      obtain ⟨n, t, hrun, hends⟩ := run_recvTurns (s := { s with receiving := true }) rfl h hloop
      rw [hresult] at hends
      exact ⟨n, t, run_cons.mpr ⟨_, hstep, by rw [hcall]; exact hrun⟩, hends⟩

end Run

end VerusMiner
