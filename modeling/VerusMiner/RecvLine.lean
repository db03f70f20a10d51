import VerusMiner.Lib.CText
import VerusMiner.SendLine

/-! Lines read from the socket of a pool: how `stratum_recv_line` finds them in
what arrives, however that is cut into pieces. -/

namespace VerusMiner

/-- What a turn of the receive loop meets, a socket with nothing to come
counting as closed, and whether the time is over after it. -/
inductive RecvOutcome where
  | data (s : CString)
  | blocked
  | closed

structure Recv where
  outcome : RecvOutcome
  late : Bool

/-- `strtok` with the newline as delimiter: where the token starts. -/
def strtok (s : CString) : Option (Nat × CString) :=
  let tok := (s.dropWhile (· == '\n')).takeWhile (· != '\n')
  if tok = [] then none else some ((s.takeWhile (· == '\n')).length, tok)

/-- The end of `stratum_recv_line`: a line is cut from the buffer, which then
holds what follows the length of that line. -/
def takeLine (sockbuf : CString) : Option CString × CString :=
  match strtok sockbuf with
  | none => (none, sockbuf)
  | some (start, tok) =>
    -- `strtok` ends the token in the buffer itself
    let marked := sockbuf.set (start + tok.length) '\x00'
    (some tok, if tok.length + 1 < sockbuf.length then cstr (marked.drop (tok.length + 1)) else [])

def recvLoop : CString → List Recv → Option (CString × Bool × List Recv)
  | _, [] => none
  | sockbuf, r :: rs =>
    match r.outcome with
    | .closed => some (sockbuf, false, rs)
    | .blocked =>
      if r.late || sockbuf.contains '\n' then some (sockbuf, true, rs) else recvLoop sockbuf rs
    | .data s =>
      let sockbuf := sockbuf ++ cstr s
      if r.late || sockbuf.contains '\n' then some (sockbuf, true, rs) else recvLoop sockbuf rs

/-- What is returned, the buffer, and what is still to arrive; nothing as long
as the call waits. -/
def stratumRecvLine (ready : Bool) (sockbuf : CString) (rs : List Recv) :
    Option (Option CString × CString × List Recv) :=
  if sockbuf.contains '\n' then some ((takeLine sockbuf).1, (takeLine sockbuf).2, rs)
  else if !ready then some (none, sockbuf, rs)
  else
    (recvLoop sockbuf rs).map fun (sockbuf, ret, rs) =>
      if ret then ((takeLine sockbuf).1, (takeLine sockbuf).2, rs) else (none, sockbuf, rs)

def arrives (s : CString) : Recv := { outcome := .data s, late := false }

/-- The results of up to `n` calls, with nothing but data arriving. -/
def recvCalls : Nat → CString → List Recv → List (Option CString)
  | 0, _, _ => []
  | n + 1, sockbuf, rs =>
    match stratumRecvLine true sockbuf rs with
    | none => []
    | some (line, sockbuf, rs) => line :: recvCalls n sockbuf rs

def recvSize : Nat := 2048 - 4

structure Segments (lines chunks : List CString) : Prop where
  whole : chunks.flatten = lines.flatMap terminated
  nonempty : ∀ c ∈ chunks, c ≠ []
  size : ∀ c ∈ chunks, c.length ≤ recvSize

def nonEmpty (lines : List CString) : List CString := lines.filter (· ≠ [])

/-- The calls return the non-empty lines in order and never NULL: once all of
them are returned, the next call waits. -/
def InboundFramed (lines chunks : List CString) : Prop :=
  ∀ n, recvCalls n [] (chunks.map arrives) = ((nonEmpty lines).take n).map some

def Plain (lines : List CString) : Prop := ∀ l ∈ lines, '\n' ∉ l ∧ '\x00' ∉ l

section Lines

theorem nul_not_mem_stream {lines : List CString} (hplain : Plain lines) :
    '\x00' ∉ lines.flatMap terminated := by
  intro hmem
  obtain ⟨l, hl, hc⟩ := List.mem_flatMap.mp hmem
  rcases List.mem_append.mp hc with hin | hend
  · exact (hplain l hl).2 hin
  · simp at hend

theorem takeWhile_line {l : CString} (h : '\n' ∉ l) (t : CString) :
    (l ++ '\n' :: t).takeWhile (· != '\n') = l := by
  rw [List.takeWhile_append_of_pos (bne_of_not_mem h)]
  simp

theorem takeLine_line {l t : CString} (hne : l ≠ []) (hl : '\n' ∉ l) (ht : '\x00' ∉ t) :
    takeLine (l ++ '\n' :: t) = (some l, t) := by
  obtain ⟨c, l, rfl⟩ := List.exists_cons_of_ne_nil hne
  have hc : (c == '\n') = false := by
    rw [beq_eq_false_iff_ne]
    rintro rfl
    exact hl (.head _)
  have htok : strtok (c :: l ++ '\n' :: t) = some (0, c :: l) := by
    have hdrop : (c :: l ++ '\n' :: t).dropWhile (· == '\n') = c :: l ++ '\n' :: t := by
      simp [hc]
    simp only [strtok, hdrop, takeWhile_line hl]
    simp [hc]
  have hmarked : ((c :: l ++ '\n' :: t).set (0 + (c :: l).length) '\x00').drop ((c :: l).length + 1) = t := by
    simp
  simp only [takeLine, htok, hmarked, cstr_of_not_mem ht]
  split_ifs with hlength
  · rfl
  · cases t with
    | nil => rfl
    | cons => simp at hlength

end Lines

section Calls

theorem split_line {a b l rest : CString} (hl : '\n' ∉ l) (h : a ++ b = l ++ '\n' :: rest)
    (ha : '\n' ∈ a) : ∃ t, a = l ++ '\n' :: t ∧ t ++ b = rest := by
  rcases List.append_eq_append_iff.mp h with ⟨x, hx, _⟩ | ⟨x, hx, hrest⟩
  · exact absurd (hx ▸ List.mem_append_left _ ha) hl
  · cases x with
    | nil =>
      rw [hx, List.append_nil] at ha
      exact absurd ha hl
    | cons c t =>
      rw [List.cons_append, List.cons.injEq] at hrest
      exact ⟨t, by rw [hx, hrest.1], hrest.2.symm⟩

theorem recvLoop_cases (chunks : List CString) (hnul : ∀ c ∈ chunks, '\x00' ∉ c) {sockbuf : CString}
    (hbuf : '\n' ∉ sockbuf) :
    (recvLoop sockbuf (chunks.map arrives) = none ∧ '\n' ∉ sockbuf ++ chunks.flatten) ∨
      ∃ got left, chunks = got ++ left ∧ '\n' ∈ sockbuf ++ got.flatten ∧
        recvLoop sockbuf (chunks.map arrives) =
          some (sockbuf ++ got.flatten, true, left.map arrives) := by
  -- the buffer carried along has no newline yet
  induction chunks generalizing sockbuf with
  | nil => exact .inl ⟨rfl, by simpa using hbuf⟩
  | cons c chunks ih =>
    obtain ⟨hc, hchunks⟩ := List.forall_mem_cons.mp hnul
    rw [List.map_cons]
    simp only [recvLoop, arrives, cstr_of_not_mem hc, Bool.false_or]
    by_cases hfound : '\n' ∈ sockbuf ++ c
    · rw [if_pos (List.contains_iff_mem.mpr hfound)]
      exact .inr ⟨[c], chunks, rfl, by simpa using hfound, by simp⟩
    · rw [if_neg (by rw [List.contains_iff_mem]; exact hfound)]
      rcases ih hchunks hfound with ⟨hwaits, hnone⟩ | ⟨got, left, hsplit, hmem, hloop⟩
      · exact .inl ⟨hwaits, by rw [List.flatten_cons, ← List.append_assoc]; exact hnone⟩
      · refine .inr ⟨c :: got, left, by rw [hsplit]; rfl, ?_, ?_⟩
        · rw [List.flatten_cons, ← List.append_assoc]
          exact hmem
        · rw [List.flatten_cons, ← List.append_assoc]
          exact hloop

theorem stratumRecvLine_cases (chunks : List CString) (hnul : ∀ c ∈ chunks, '\x00' ∉ c)
    (sockbuf : CString) :
    (stratumRecvLine true sockbuf (chunks.map arrives) = none ∧ '\n' ∉ sockbuf ++ chunks.flatten) ∨
      ∃ got left, chunks = got ++ left ∧ '\n' ∈ sockbuf ++ got.flatten ∧
        stratumRecvLine true sockbuf (chunks.map arrives) =
          some ((takeLine (sockbuf ++ got.flatten)).1, (takeLine (sockbuf ++ got.flatten)).2,
            left.map arrives) := by
  by_cases hbuf : '\n' ∈ sockbuf
  · refine .inr ⟨[], chunks, rfl, by simpa using hbuf, ?_⟩
    simp [stratumRecvLine, hbuf]
  · rcases recvLoop_cases chunks hnul hbuf with ⟨hwaits, hnone⟩ | ⟨got, left, hsplit, hmem, hloop⟩
    · exact .inl ⟨by simp [stratumRecvLine, hbuf, hwaits], hnone⟩
    · exact .inr ⟨got, left, hsplit, hmem, by simp [stratumRecvLine, hbuf, hloop]⟩

theorem stratumRecvLine_line {l rest : CString} {sockbuf : CString} {chunks : List CString}
    (hne : l ≠ []) (hl : '\n' ∉ l) (hnul : ∀ c ∈ chunks, '\x00' ∉ c) (hrest : '\x00' ∉ rest)
    (h : sockbuf ++ chunks.flatten = l ++ '\n' :: rest) :
    ∃ (t : CString) (left : List CString),
      stratumRecvLine true sockbuf (chunks.map arrives) = some (some l, t, left.map arrives) ∧
      t ++ left.flatten = rest ∧ ∀ c ∈ left, c ∈ chunks := by
  rcases stratumRecvLine_cases chunks hnul sockbuf with ⟨_, hnone⟩ | ⟨got, left, hsplit, hmem, hline⟩
  · rw [h] at hnone
    simp at hnone
  · rw [hsplit, List.flatten_append, ← List.append_assoc] at h
    obtain ⟨t, hbuf, ht⟩ := split_line hl h hmem
    have htake := takeLine_line (t := t) hne hl fun hmem => hrest (ht ▸ List.mem_append_left _ hmem)
    rw [hbuf, htake] at hline
    exact ⟨t, left, hline, ht, fun c hc => hsplit ▸ List.mem_append_right _ hc⟩

theorem recvCalls_eq (n : Nat) {lines : List CString} (hplain : Plain lines)
    (hfull : ∀ l ∈ lines, l ≠ []) {sockbuf : CString} {chunks : List CString}
    (hnul : ∀ c ∈ chunks, '\x00' ∉ c) (h : sockbuf ++ chunks.flatten = lines.flatMap terminated) :
    recvCalls n sockbuf (chunks.map arrives) = (lines.take n).map some := by
  induction lines generalizing n sockbuf chunks with
  | nil =>
    cases n with
    | zero => rfl
    | succ n =>
      -- nothing is left to arrive, so the call waits
      rcases stratumRecvLine_cases chunks hnul sockbuf with ⟨hwaits, _⟩ | ⟨got, left, hsplit, hmem, _⟩
      · rw [recvCalls, hwaits]
        rfl
      · rw [hsplit, List.flatten_append, ← List.append_assoc] at h
        rw [(List.append_eq_nil_iff.mp h).1] at hmem
        cases hmem
  | cons l lines ih =>
    obtain ⟨⟨hl, _⟩, hlines⟩ := List.forall_mem_cons.mp hplain
    obtain ⟨hne, hfull⟩ := List.forall_mem_cons.mp hfull
    cases n with
    | zero => rfl
    | succ n =>
      rw [List.flatMap_cons, terminated, List.append_assoc, List.singleton_append] at h
      obtain ⟨t, left, hline, ht, hleft⟩ := stratumRecvLine_line hne hl hnul (nul_not_mem_stream hlines) h
      rw [recvCalls, hline, List.take_succ_cons, List.map_cons]
      exact congrArg (some l :: ·) (ih n hlines hfull (fun c hc => hnul c (hleft c hc)) ht)

end Calls

section OneByOne

def oneByOne (s : CString) : List CString := s.map ([·])

theorem flatten_oneByOne (s : CString) : (oneByOne s).flatten = s := by
  induction s with
  | nil => rfl
  | cons c s ih => exact congrArg (c :: ·) ih

theorem segments_oneByOne (lines : List CString) :
    Segments lines (oneByOne (lines.flatMap terminated)) where
  whole := flatten_oneByOne _
  nonempty := by
    intro c hc
    obtain ⟨x, _, rfl⟩ := List.mem_map.mp hc
    exact List.cons_ne_nil x []
  size := by
    intro c hc
    obtain ⟨x, _, rfl⟩ := List.mem_map.mp hc
    exact Nat.le_add_left 1 2043

theorem recvLoop_oneByOne {l : CString} (hl : '\n' ∉ l) (hnul : '\x00' ∉ l) (rest : CString)
    {sockbuf : CString} (hbuf : '\n' ∉ sockbuf) :
    recvLoop sockbuf ((oneByOne (l ++ '\n' :: rest)).map arrives) =
      some (sockbuf ++ l ++ ['\n'], true, (oneByOne rest).map arrives) := by
  induction l generalizing sockbuf with
  | nil =>
    have hstr : cstr ['\n'] = ['\n'] := rfl
    simp [oneByOne, recvLoop, arrives, hstr]
  | cons c l ih =>
    obtain ⟨hc, hl⟩ : '\n' ≠ c ∧ '\n' ∉ l := by simpa using hl
    obtain ⟨hc0, hnul⟩ : '\x00' ≠ c ∧ '\x00' ∉ l := by simpa using hnul
    have hstr : cstr [c] = [c] := cstr_of_not_mem (by simpa using hc0)
    have hnext : '\n' ∉ sockbuf ++ [c] := by simpa using ⟨hbuf, hc⟩
    have hloop := ih hl hnul hnext
    simpa [oneByOne, recvLoop, arrives, hstr, hbuf, hc] using hloop

theorem stratumRecvLine_oneByOne {l : CString} (hl : '\n' ∉ l) (hnul : '\x00' ∉ l) (rest : CString) :
    stratumRecvLine true [] ((oneByOne (l ++ '\n' :: rest)).map arrives) =
      some ((takeLine (l ++ ['\n'])).1, (takeLine (l ++ ['\n'])).2, (oneByOne rest).map arrives) := by
  simp [stratumRecvLine, recvLoop_oneByOne hl hnul rest List.not_mem_nil]

theorem recvCalls_oneByOne {l : CString} (hne : l ≠ []) (hl : '\n' ∉ l) (hnul : '\x00' ∉ l)
    (rest : CString) (n : Nat) :
    recvCalls (n + 1) [] ((oneByOne (l ++ '\n' :: rest)).map arrives) =
      some l :: recvCalls n [] ((oneByOne rest).map arrives) := by
  rw [recvCalls, stratumRecvLine_oneByOne hl hnul, takeLine_line hne hl List.not_mem_nil]

theorem recvCalls_newline (rest : CString) :
    recvCalls 1 [] ((oneByOne ('\n' :: rest)).map arrives) = [none] := by
  have hline := stratumRecvLine_oneByOne (l := []) List.not_mem_nil List.not_mem_nil rest
  rw [List.nil_append] at hline
  rw [recvCalls, hline]
  rfl

/-- Byte by byte, the first empty line is a call that returns NULL. -/
theorem full_of_oneByOne {lines : List CString} (hplain : Plain lines)
    (h : InboundFramed lines (oneByOne (lines.flatMap terminated))) : ∀ l ∈ lines, l ≠ [] := by
  induction lines with
  | nil => exact fun _ hl => absurd hl List.not_mem_nil
  | cons l lines ih =>
    obtain ⟨⟨hl, hnul⟩, hlines⟩ := List.forall_mem_cons.mp hplain
    have hstream : (l :: lines).flatMap terminated = l ++ '\n' :: lines.flatMap terminated := by
      simp [terminated]
    rw [hstream] at h
    by_cases hne : l = []
    · subst hne
      have hfirst := h 1
      rw [List.nil_append, recvCalls_newline] at hfirst
      obtain ⟨_, _, hnone⟩ := List.mem_map.mp (hfirst ▸ List.mem_singleton_self (none : Option CString))
      cases hnone
    · have hcons : nonEmpty (l :: lines) = l :: nonEmpty lines := by simp [nonEmpty, hne]
      refine List.forall_mem_cons.mpr ⟨hne, ih hlines fun n => ?_⟩
      have hnext := h (n + 1)
      rw [recvCalls_oneByOne hne hl hnul, hcons] at hnext
      exact (List.cons.injEq .. ▸ hnext).2

end OneByOne

/-- However the lines are cut into chunks they are read as they were sent,
and no call returns NULL, exactly if none of them is empty. -/
theorem inboundFramed_iff {lines : List CString} (hplain : Plain lines) :
    (∀ chunks, Segments lines chunks → InboundFramed lines chunks) ↔ ∀ l ∈ lines, l ≠ [] := by
  constructor
  · intro h
    exact full_of_oneByOne hplain (h _ (segments_oneByOne lines))
  · intro hfull chunks hsegments n
    have hnonEmpty : nonEmpty lines = lines := by simpa [nonEmpty] using hfull
    rw [hnonEmpty]
    refine recvCalls_eq n hplain hfull (fun c hc hmem => nul_not_mem_stream hplain ?_) hsegments.whole
    rw [← hsegments.whole]
    exact List.mem_flatten.mpr ⟨c, hc, hmem⟩

theorem inboundFramed_two_lines :
    Plain [['a'], ['b']] ∧
      ∀ chunks, Segments [['a'], ['b']] chunks → InboundFramed [['a'], ['b']] chunks :=
  ⟨by simp [Plain], (inboundFramed_iff (by simp [Plain])).mpr (by simp)⟩

/-- After an empty line the length of the line is cut from the wrong place: the
line that came with it is lost. -/
theorem line_after_empty_lost :
    ∃ lines chunks, Plain lines ∧ Segments lines chunks ∧ ¬InboundFramed lines chunks := by
  refine ⟨[[], ['a'], ['b']], [['\n', 'a', '\n', 'b', '\n']], by simp [Plain],
    ⟨by decide, by decide, by decide⟩, fun h => ?_⟩
  have hcalls : recvCalls 2 [] ([['\n', 'a', '\n', 'b', '\n']].map arrives) = [some ['a']] := by
    decide
  have hlength := congrArg List.length (hcalls.symm.trans (h 2))
  simp [nonEmpty] at hlength

end VerusMiner
