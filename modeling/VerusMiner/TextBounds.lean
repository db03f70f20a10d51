import VerusMiner.ApiRequest
import VerusMiner.Notify
import VerusMiner.ShowMessage

/-! Texts from outside and the arrays they are copied into: which requests and
messages fit. -/

namespace VerusMiner

def requestText (req : List Char) : CString := cstr (received req)

def headerLine (text : CString) (header : Nat) : CString := (text.drop header).takeWhile (· != '\r')

def keyStart (line : CString) (colon : Nat) : Nat :=
  colon + 1 + ((line.drop (colon + 1)).takeWhile (· == ' ')).length

def namesCommand (cmd : CString) : Prop := ∃ c : ApiCommand, c.name = cmd.takeWhile (· != '|')

def withoutBar (cmd : CString) : CString := if cmd.getLast? = some '|' then cmd.dropLast else cmd

/-- A key that starts within the length of the command is covered by it. -/
def keyLength (cmd line : CString) (header colon : Nat) : Nat :=
  if header + keyStart line colon ≤ cmd.length then (withoutBar cmd).length - (header + keyStart line colon)
  else line.length - keyStart line colon

/-- The path is at most 255 characters long, a key header has its colon, and
the key that comes with a command has at most 91 characters. -/
def GetFits (text : CString) (msg : Nat) : Prop :=
  let word := scanWord (text.drop (msg + 5))
  word.length ≤ 255 ∧
    ∀ k, strstr (text.drop msg) keyText = some k →
      let line := headerLine text (msg + k)
      ∃ colon, strchr line ':' = some colon ∧
        (namesCommand (slashes word) → keyLength (slashes word) line (msg + k) colon ≤ 91)

def RequestFits (text : CString) : Prop := ∀ msg, findGet text = some msg → GetFits text msg

section Parse

theorem findGet_lt {s : CString} {msg : Nat} (h : findGet s = some msg) : msg + 5 < s.length := by
  obtain ⟨_, hlength⟩ := Option.filter_eq_some_iff.mp h
  rw [decide_eq_true_iff, List.length_drop] at hlength
  omega

theorem strAt_endHeader {buf : List Char} {header : Nat} (h : header ≤ (cstr buf).length) :
    strAt (endHeader buf header) header = headerLine (cstr buf) header := by
  rw [endHeader, headerLine, ← strAt_of_le h]
  cases heol : strchr (strAt buf header) '\r' with
  | none => exact (takeWhile_of_strchr_none heol).symm
  | some eol =>
    rw [takeWhile_of_strchr heol]
    exact strAt_set (strchr_lt heol)

theorem scanAccess_safe_iff (word : CString) : (∀ a ∈ scanAccess word, a.Safe) ↔ word.length ≤ 255 := by
  rw [scanAccess]
  split_ifs with hword
  · simp [hword]
  · simp only [List.forall_mem_singleton, Access.Safe]
    omega

variable {buf : List Char} {msg : Nat} {word : CString}

theorem parseGet_of_no_key (hword : scanWord ((cstr buf).drop (msg + 5)) = word)
    (hmsg : msg + 5 < (cstr buf).length) (hkey : strstr ((cstr buf).drop msg) keyText = none) :
    parseGet buf msg =
      (scanAccess word ++ [.write mybufsiz ((slashes word).length + 1)],
        some ⟨strcpy buf (slashes word), none⟩) := by
  have hpath : msg + 5 ≤ (cstr buf).length := by omega
  have hbelow : msg ≤ (cstr buf).length := by omega
  rw [parseGet, strAt_of_le hpath, strAt_of_le hbelow, hword, hkey]

theorem header_le {k : Nat} (hmsg : msg ≤ (cstr buf).length)
    (hkey : strstr ((cstr buf).drop msg) keyText = some k) : msg + k ≤ (cstr buf).length := by
  obtain ⟨_, _, hk⟩ := strstr_eq_some hkey
  rw [List.length_drop] at hk
  omega

variable {k : Nat} {line : CString}

theorem parseGet_of_no_colon (hline : headerLine (cstr buf) (msg + k) = line)
    (hmsg : msg + 5 < (cstr buf).length) (hkey : strstr ((cstr buf).drop msg) keyText = some k)
    (hcolon : strchr line ':' = none) : .follow none ∈ (parseGet buf msg).1 := by
  have hbelow : msg ≤ (cstr buf).length := by omega
  have hended := strAt_endHeader (header_le hbelow hkey)
  rw [hline] at hended
  rw [parseGet, strAt_of_le hbelow, hkey]
  simp only [hended, hcolon]
  exact List.mem_append_right _ List.mem_cons_self

theorem keyStart_le {colon : Nat} (hcolon : strchr line ':' = some colon) :
    keyStart line colon ≤ line.length := by
  have hcolonlt := strchr_lt hcolon
  have hspaces := (List.takeWhile_prefix (· == ' ') (l := line.drop (colon + 1))).length_le
  rw [List.length_drop] at hspaces
  rw [keyStart]
  omega

theorem parseGet_of_colon {colon : Nat} (hword : scanWord ((cstr buf).drop (msg + 5)) = word)
    (hline : headerLine (cstr buf) (msg + k) = line) (hmsg : msg + 5 < (cstr buf).length)
    (hkey : strstr ((cstr buf).drop msg) keyText = some k) (hcolon : strchr line ':' = some colon) :
    ∃ start, start = msg + k + keyStart line colon ∧
      (strAt (endHeader buf (msg + k)) start).length = line.length - keyStart line colon ∧
      parseGet buf msg =
        (scanAccess word ++
            [.follow (some start), .write mybufsiz ((slashes word).length + 1)],
          some ⟨strcpy (endHeader buf (msg + k)) (slashes word), some start⟩) := by
  have hpath : msg + 5 ≤ (cstr buf).length := by omega
  have hbelow : msg ≤ (cstr buf).length := by omega
  have hended := strAt_endHeader (header_le hbelow hkey)
  rw [hline] at hended
  have hafter : strAt (endHeader buf (msg + k)) (msg + k + colon + 1) = line.drop (colon + 1) := by
    rw [Nat.add_assoc, strAt_strAt (by rw [hended]; exact strchr_lt hcolon), hended]
  refine ⟨_, rfl, ?_, ?_⟩
  · rw [strAt_strAt (by rw [hended]; exact keyStart_le hcolon), hended, List.length_drop]
  · rw [parseGet, strAt_of_le hpath, strAt_of_le hbelow, hword, hkey]
    simp only [hended, hcolon, hafter]
    simp only [keyStart, Nat.add_assoc]

end Parse

section Dispatch

variable {b : List Char} {cmd : CString}

theorem cstr_strcpy (hcmd : '\x00' ∉ cmd) : cstr (strcpy b cmd) = cmd := by
  rw [← strAt_zero, strAt_strcpy hcmd, if_pos (Nat.zero_le _), List.drop_zero]

theorem splitParams_name (hcmd : '\x00' ∉ cmd) :
    cstr (splitParams (strcpy b cmd)).1 = cmd.takeWhile (· != '|') := by
  rw [splitParams, cstr_strcpy hcmd]
  cases hbar : strchr cmd '|' with
  | none =>
    rw [takeWhile_of_strchr_none hbar]
    exact cstr_strcpy hcmd
  | some bar =>
    have hset := strAt_set (m := strcpy b cmd) (i := 0) (j := bar) (by
      rw [strAt_zero, cstr_strcpy hcmd]
      exact strchr_lt hbar)
    rw [Nat.zero_add, strAt_zero, strAt_zero, cstr_strcpy hcmd] at hset
    rw [takeWhile_of_strchr hbar]
    exact hset

theorem dispatch_eq_none_iff (hcmd : '\x00' ∉ cmd) (wskey : Option Nat) :
    dispatch ⟨strcpy b cmd, wskey⟩ = none ↔ ¬namesCommand cmd := by
  simp only [dispatch, Option.map_eq_none_iff, splitParams_name hcmd, findCommand_eq_none_iff,
    namesCommand, not_exists]

theorem length_strAt_trimParams (hcmd : '\x00' ∉ cmd) {bar start : Nat}
    (hbar : strchr cmd '|' = some bar) (hstart : bar + 1 < start) :
    (strAt (trimParams ((strcpy b cmd).set bar '\x00') (some (bar + 1))) start).length =
      if start ≤ cmd.length then (withoutBar cmd).length - start else (strAt b start).length := by
  have hlt := strchr_lt hbar
  have hparams : strAt ((strcpy b cmd).set bar '\x00') (bar + 1) = cmd.drop (bar + 1) := by
    rw [strAt_set_of_lt _ (Nat.lt_add_one bar), strAt_strcpy hcmd, if_pos (Nat.succ_le_of_lt hlt)]
  have hcopied : strAt ((strcpy b cmd).set bar '\x00') start =
      if start ≤ cmd.length then cmd.drop start else strAt b start := by
    rw [strAt_set_of_lt _ (Nat.lt_of_succ_lt hstart), strAt_strcpy hcmd]
  rw [trimParams, hparams, withoutBar, List.getLast?_drop]
  by_cases hend : cmd.length ≤ bar + 1
  · -- there are no parameters, and the key starts behind the command
    rw [if_pos hend, if_neg (by simp), hcopied, if_neg (by omega), if_neg (by omega)]
  · rw [if_neg hend, List.length_drop]
    by_cases hlast : cmd.getLast? = some '|'
    · rw [if_pos hlast, if_pos hlast, List.length_dropLast]
      by_cases hin : start < cmd.length
      · -- the bar is the last character of the key
        have hset := strAt_set (m := (strcpy b cmd).set bar '\x00') (i := start)
          (j := cmd.length - 1 - start) (by
            rw [hcopied, if_pos (by omega), List.length_drop]
            omega)
        have hplace : bar + 1 + (cmd.length - (bar + 1) - 1) = start + (cmd.length - 1 - start) := by omega
        rw [hplace, hset, hcopied, if_pos (by omega), if_pos (by omega), List.length_take, List.length_drop]
        omega
      · rw [strAt_set_of_lt _ (by omega), hcopied]
        split_ifs with hcovered
        · rw [List.length_drop]
          omega
        · rfl
    · rw [if_neg hlast, if_neg hlast, hcopied]
      split_ifs with hcovered
      · exact List.length_drop
      · rfl

theorem dispatch_key (hcmd : '\x00' ∉ cmd) {start : Nat} (hstart : 11 < start) {d : Dispatched}
    (h : dispatch ⟨strcpy b cmd, some start⟩ = some d) :
    ∃ key, d.wskey = some key ∧ key.length =
      if start ≤ cmd.length then (withoutBar cmd).length - start else (strAt b start).length := by
  simp only [dispatch, Option.map_eq_some_iff, splitParams_name hcmd] at h
  obtain ⟨c, hfound, rfl⟩ := h
  refine ⟨_, rfl, ?_⟩
  have hname := c.length_name_le
  rw [← findCommand_eq_some hfound] at hname
  rw [splitParams, cstr_strcpy hcmd]
  cases hbar : strchr cmd '|' with
  | none =>
    rw [takeWhile_of_strchr_none hbar] at hname
    simp only [trimParams, strAt_strcpy hcmd]
    rw [if_neg (by omega), if_neg (by omega)]
  | some bar =>
    rw [takeWhile_of_strchr hbar, List.length_take, min_eq_left (strchr_lt hbar).le] at hname
    exact length_strAt_trimParams hcmd hbar (by omega)

end Dispatch

section Bounds

variable (sha1 : List Byte → Vector Byte 20) (result : ApiCommand → Option CString → CString)

theorem colon_ge {line : CString} {rest : CString} {colon : Nat} (hline : line = keyText ++ rest)
    (h : strchr line ':' = some colon) : keyText.length ≤ colon := by
  obtain ⟨t, u, hsplit, _, rfl⟩ := strchr_eq_some_iff.mp h
  have hkey : ':' ∉ keyText := by decide
  by_contra hlt
  have htext : t ++ [':'] <+: line := ⟨u, by rw [hsplit, List.append_assoc, List.singleton_append]⟩
  have hkeyText : keyText <+: line := ⟨rest, hline.symm⟩
  have hstart : t ++ [':'] <+: keyText := by
    refine List.prefix_of_prefix_length_le htext hkeyText ?_
    rw [List.length_append, List.length_singleton]
    omega
  exact hkey (hstart.subset (List.mem_append_right _ List.mem_cons_self))

theorem headerLine_key {text : CString} {header : Nat} {rest : CString}
    (h : text.drop header = keyText ++ rest) : ∃ rest', headerLine text header = keyText ++ rest' := by
  refine ⟨rest.takeWhile (· != '\r'), ?_⟩
  rw [headerLine, h, List.takeWhile_append_of_pos]
  exact List.all_eq_true.mp rfl

theorem dispatch_no_key {buf : List Char} {d : Dispatched} (h : dispatch ⟨buf, none⟩ = some d) :
    d.wskey = none := by
  obtain ⟨c, _, rfl⟩ := Option.map_eq_some_iff.mp h
  rfl

theorem answerAccesses_no_key (buf : List Char) : answerAccesses sha1 result (some ⟨buf, none⟩) = [] := by
  rw [answerAccesses, Option.bind_some]
  cases hd : dispatch ⟨buf, none⟩ with
  | none => rfl
  | some d => simp only [replyAccesses, dispatch_no_key hd]

theorem answerAccesses_safe_iff {b : List Char} {cmd : CString} (hcmd : '\x00' ∉ cmd) {start : Nat}
    (hstart : 11 < start) :
    (∀ a ∈ answerAccesses sha1 result (some ⟨strcpy b cmd, some start⟩), a.Safe) ↔
      (namesCommand cmd → (if start ≤ cmd.length then (withoutBar cmd).length - start
        else (strAt b start).length) ≤ 91) := by
  rw [answerAccesses, Option.bind_some]
  cases hd : dispatch ⟨strcpy b cmd, some start⟩ with
  | none =>
    have hnot := (dispatch_eq_none_iff hcmd _).mp hd
    exact ⟨fun _ h => absurd h hnot, fun _ a ha => absurd ha List.not_mem_nil⟩
  | some d =>
    have hnamed : namesCommand cmd := by
      by_contra hnot
      rw [(dispatch_eq_none_iff hcmd _).mpr hnot] at hd
      cases hd
    obtain ⟨key, hkey, hlength⟩ := dispatch_key hcmd hstart hd
    rw [← hlength, imp_iff_right hnamed]
    simp only [replyAccesses, hkey]
    exact websocketHandshake_safe_iff ..

theorem getAccesses_safe_iff {buf : List Char} {msg : Nat} (hbuf : (cstr buf).length < mybufsiz)
    (hmsg : msg + 5 < (cstr buf).length) :
    (∀ a ∈ (parseGet buf msg).1 ++ answerAccesses sha1 result (parseGet buf msg).2, a.Safe) ↔
      GetFits (cstr buf) msg := by
  obtain ⟨word, hword⟩ : ∃ word, scanWord ((cstr buf).drop (msg + 5)) = word := ⟨_, rfl⟩
  have hprint : (Access.write mybufsiz ((slashes word).length + 1)).Safe := by
    have hscanned := length_scanWord_le ((cstr buf).drop (msg + 5))
    have hcmd := length_slashes_le word
    rw [hword, List.length_drop] at hscanned
    rw [Access.Safe]
    omega
  have hnul : '\x00' ∉ slashes word :=
    hword ▸ not_mem_slashes (not_mem_scanWord fun hmem => not_mem_cstr buf (List.mem_of_mem_drop hmem))
  cases hkey : strstr ((cstr buf).drop msg) keyText with
  | none =>
    rw [parseGet_of_no_key hword hmsg hkey, answerAccesses_no_key, List.append_nil,
      List.forall_mem_append, scanAccess_safe_iff, List.forall_mem_singleton, GetFits, hkey, hword]
    simp [hprint]
  | some k =>
    obtain ⟨line, hline⟩ : ∃ line, headerLine (cstr buf) (msg + k) = line := ⟨_, rfl⟩
    cases hcolon : strchr line ':' with
    | none =>
      -- a null pointer is followed
      constructor
      · intro hsafe
        have hnull :=
          hsafe _ (List.mem_append_left _ (parseGet_of_no_colon hline hmsg hkey hcolon))
        cases hnull
      · rintro ⟨_, hcolons⟩
        obtain ⟨colon, hsome, _⟩ := hcolons k hkey
        rw [hline, hcolon] at hsome
        cases hsome
    | some colon =>
      obtain ⟨start, hstart, hlength, hparse⟩ := parseGet_of_colon hword hline hmsg hkey hcolon
      -- the key starts behind the name of every command and the zero after it
      have hbelow : 11 < start := by
        obtain ⟨rest, hrest, _⟩ := strstr_eq_some hkey
        rw [List.drop_drop] at hrest
        obtain ⟨rest', hkeyLine⟩ := headerLine_key hrest
        have hge := colon_ge (hline.symm.trans hkeyLine) hcolon
        have hkeyText : keyText.length = 17 := by decide
        rw [hstart, keyStart]
        omega
      have hanswer := answerAccesses_safe_iff sha1 result hnul hbelow (b := endHeader buf (msg + k))
      rw [hlength] at hanswer
      have hfits : GetFits (cstr buf) msg ↔ word.length ≤ 255 ∧
          (namesCommand (slashes word) → keyLength (slashes word) line (msg + k) colon ≤ 91) := by
        simp only [GetFits, hword, hkey, hline, hcolon, Option.some.injEq, forall_eq', exists_eq_left']
      have hfollow : (Access.follow (some start)).Safe := rfl
      rw [hparse, hfits, List.forall_mem_append, List.forall_mem_append, List.forall_mem_cons,
        List.forall_mem_singleton, scanAccess_safe_iff, hanswer, keyLength, ← hstart]
      exact and_congr_left' (and_iff_left ⟨hfollow, hprint⟩)

theorem requestAccesses_safe_iff {req : List Char} (hreq : req.length ≤ sockRecBufsz) :
    (∀ a ∈ requestAccesses sha1 result req, a.Safe) ↔ RequestFits (requestText req) := by
  have hreceived : (Access.write mybufsiz (req.length + 1)).Safe := by
    rw [Access.Safe, mybufsiz]
    rw [sockRecBufsz] at hreq
    omega
  have htext : (cstr (received req)).length < mybufsiz := by
    have hle := (List.takeWhile_prefix (· != '\x00') (l := received req)).length_le
    rw [length_received] at hle
    rw [cstr, mybufsiz]
    rw [sockRecBufsz] at hreq
    omega
  rw [requestAccesses, List.forall_mem_cons, and_iff_right hreceived, parseRequest, RequestFits, requestText]
  cases hget : findGet (cstr (received req)) with
  | none => simp [answerAccesses_no_key]
  | some msg =>
    simp only [getAccesses_safe_iff sha1 result htext (findGet_lt hget), Option.some.injEq, forall_eq']

/-- A request or a message shown by a pool is handled within the bounds of the
arrays exactly if its texts fit, and a key header has its colon. -/
theorem untrustedText_safe_iff {req : List Char} (hreq : req.length ≤ sockRecBufsz)
    (jsonDumps : Json → CString) (stratumSendLine : CString → Bool) (sctx : StratumCtx)
    (id : Option Json) (params : Json) :
    ((∀ a ∈ requestAccesses sha1 result req, a.Safe) ↔ RequestFits (requestText req)) ∧
      ((∀ a ∈ (verusStratumShowMessage jsonDumps stratumSendLine sctx id params).accesses, a.Safe) ↔
        ∀ data, jsonStringValue (jsonArrayGet params 0) = some data → (symbolOf data).length ≤ 31) :=
  ⟨requestAccesses_safe_iff sha1 result hreq, verusStratumShowMessage_safe_iff ..⟩

end Bounds

section Examples

def noDigest : List Byte → Vector Byte 20 := fun _ => Vector.replicate 20 0

def bye : ApiCommand → Option CString → CString := fun _ _ => "bye|".toList

theorem untrustedText_safe_quit :
    "quit".toList.length ≤ sockRecBufsz ∧
      ((∀ a ∈ requestAccesses noDigest bye "quit".toList, a.Safe) ↔ RequestFits (requestText "quit".toList)) :=
  ⟨by decide, (untrustedText_safe_iff noDigest bye (by decide) (fun _ => []) (fun _ => true)
    zeroCtx none .null).1⟩

/-- A path of 256 characters is one too long; without a colon in the key header
a null pointer is used; a symbol of 32 characters is one too long. -/
theorem untrusted_text_overflows :
    (∃ req : List Char, req.length ≤ sockRecBufsz ∧
      ∃ a ∈ requestAccesses noDigest bye req, a = .write 256 257 ∧ ¬a.Safe) ∧
    (∃ req : List Char, req.length ≤ sockRecBufsz ∧
      ∃ a ∈ requestAccesses noDigest bye req, a = .follow none ∧ ¬a.Safe) ∧
    ∃ params : Json, ∃ a ∈ (verusStratumShowMessage (fun _ => []) (fun _ => true) zeroCtx none
      params).accesses, a = .write 32 33 ∧ ¬a.Safe :=
  ⟨⟨"GET /".toList ++ List.replicate 256 'a', by decide +kernel, _, by decide +kernel, rfl, by decide⟩,
    ⟨"GET /quit Sec-WebSocket-Key".toList, by decide +kernel, _, by decide +kernel, rfl, by decide⟩,
    ⟨.array [.string ("equihash".toList ++ List.replicate 32 'V')], _, by decide +kernel, rfl, by decide⟩⟩

end Examples

end VerusMiner
