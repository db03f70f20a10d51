import Mathlib.Data.List.DropRight
import VerusMiner.Lib.Blocks
import VerusMiner.Lib.CMemory
import VerusMiner.Lib.Runs
import VerusMiner.PoolIndex

/-! One HTTP request to a wallet or a long-polling pool: the buffers that
libcurl fills and empties through its callbacks, in any order it calls them. -/

namespace VerusMiner

structure DataBuffer where
  buf : Option Nat
  len : Nat
  mem : List Char

structure UploadBuffer where
  buf : CString
  pos : Nat

structure HeaderValue where
  ptr : Nat
  size : Nat
  text : CString

structure HeaderInfo where
  lpPath : Option HeaderValue
  reason : Option HeaderValue
  stratumUrl : Option HeaderValue

inductive HeaderKind where
  | lpPath
  | reason
  | stratumUrl
  deriving DecidableEq

def HeaderKind.name : HeaderKind → CString
  | .lpPath => "X-Long-Polling".toList
  | .reason => "X-Reject-Reason".toList
  | .stratumUrl => "X-Stratum".toList

def HeaderInfo.get (hi : HeaderInfo) : HeaderKind → Option HeaderValue
  | .lpPath => hi.lpPath
  | .reason => hi.reason
  | .stratumUrl => hi.stratumUrl

def HeaderInfo.put (hi : HeaderInfo) (k : HeaderKind) (v : Option HeaderValue) : HeaderInfo :=
  match k with
  | .lpPath => { hi with lpPath := v }
  | .reason => { hi with reason := v }
  | .stratumUrl => { hi with stratumUrl := v }

/-- `got` is what libcurl has read of the request since it last sought. -/
structure HttpExchange where
  blocks : Blocks
  allData : DataBuffer
  uploadData : UploadBuffer
  hi : HeaderInfo
  got : CString

inductive SeekOrigin where
  | set
  | cur
  | fromEnd
  | other
  deriving DecidableEq

inductive CurlCall where
  | write (ptr : List Char)
  | read (size : Nat)
  | seek (offset : Int) (origin : SeekOrigin)
  | header (ptr : List Char)

def sizeT (i : Int) : Nat := (i % 0x10000000000000000).toNat

def allDataCb (ptr : List Char) (h : Blocks) (db : DataBuffer) : Except BlockFault (Blocks × DataBuffer) := do
  let newlen := db.len + ptr.length
  let (newmem, h) ← h.realloc db.buf (newlen + 1)
  h.touch newmem (db.len + ptr.length)
  h.touch newmem (newlen + 1)
  return (h, { buf := some newmem, len := newlen, mem := db.mem.take db.len ++ ptr ++ ['\x00'] })

/-- The request ends with a zero; nothing behind that may be copied. -/
def uploadDataCb (size : Nat) (ub : UploadBuffer) : Except BlockFault (CString × UploadBuffer) :=
  let len := size % 0x100000000
  let left := sizeT (ub.buf.length - ub.pos)
  let len := if left < len then left else len
  if len = 0 then .ok ([], ub)
  else if ub.pos + len ≤ ub.buf.length + 1 then
    .ok ((ub.buf.drop ub.pos).take len, { ub with pos := ub.pos + len })
  else .error .outside

def seekDataCb (offset : Int) (origin : SeekOrigin) (ub : UploadBuffer) : UploadBuffer × Bool :=
  match origin with
  | .set => ({ ub with pos := sizeT offset }, true)
  | .cur => ({ ub with pos := sizeT (ub.pos + offset) }, true)
  | .fromEnd => ({ ub with pos := sizeT (ub.buf.length + offset) }, true)
  | .other => (ub, false)

/-- What is not stolen from `val` is left in it to be freed. -/
def stealHeader (k : HeaderKind) (key : CString) (hv : HeaderInfo × Option HeaderValue) :
    HeaderInfo × Option HeaderValue :=
  if strcasecmp k.name key then (hv.1.put k hv.2, none) else hv

def keepHeader (key : CString) (hi : HeaderInfo) (val : Option HeaderValue) : HeaderInfo × Option HeaderValue :=
  stealHeader .stratumUrl key (stealHeader .reason key (stealHeader .lpPath key (hi, val)))

def respHdrOut (key val : Option Nat) (h : Blocks) (hi : HeaderInfo) : Except BlockFault (Blocks × HeaderInfo) := do
  let h ← h.free key
  let h ← h.free val
  return (h, hi)

/-- Both ends trimmed; a zero ends the text. -/
def trimmedValue (rest : List Char) : CString := (cstr (rest.dropWhile isspace)).rdropWhile isspace

def respHdrCb (ptr : List Char) (h : Blocks) (hi : HeaderInfo) : Except BlockFault (Blocks × HeaderInfo) := do
  let (val, h) := h.malloc ptr.length
  let (key, h) := h.malloc ptr.length
  match strchr ptr ':' with
  | none | some 0 => respHdrOut (some key) (some val) h hi
  | some slen =>
    if slen + 1 = ptr.length then respHdrOut (some key) (some val) h hi
    else
      h.touch key slen
      h.touch key (slen + 1)
      let rem := (ptr.drop (slen + 1)).dropWhile isspace
      h.touch val rem.length
      h.touch val (rem.length + 1)
      let text := trimmedValue (ptr.drop (slen + 1))
      if text = [] then respHdrOut (some key) (some val) h hi
      else
        let (hi, kept) := keepHeader (cstr (ptr.take slen)) hi (some ⟨val, ptr.length, text⟩)
        respHdrOut (some key) (kept.map HeaderValue.ptr) h hi

def curlStep (s : HttpExchange) : CurlCall → Except BlockFault HttpExchange
  | .write ptr => do
    let (blocks, allData) ← allDataCb ptr s.blocks s.allData
    return { s with blocks := blocks, allData := allData }
  | .read size => do
    let (bytes, uploadData) ← uploadDataCb size s.uploadData
    return { s with uploadData := uploadData, got := s.got ++ bytes }
  | .seek offset origin =>
    let (uploadData, moved) := seekDataCb offset origin s.uploadData
    .ok { s with uploadData := uploadData, got := if moved then [] else s.got }
  | .header ptr => do
    let (blocks, hi) ← respHdrCb ptr s.blocks s.hi
    return { s with blocks := blocks, hi := hi }

def exchangeStart (blocks : Blocks) (rpcReq : CString) : HttpExchange where
  blocks := blocks
  allData := ⟨none, 0, []⟩
  uploadData := ⟨rpcReq, 0⟩
  hi := ⟨none, none, none⟩
  got := []

def curlRun (s : HttpExchange) (c : CurlCall) : Option HttpExchange := (curlStep s c).toOption

def headerKind (key : CString) : Option HeaderKind :=
  if strcasecmp HeaderKind.lpPath.name key then some .lpPath
  else if strcasecmp HeaderKind.reason.name key then some .reason
  else if strcasecmp HeaderKind.stratumUrl.name key then some .stratumUrl
  else none

/-- What a line of the answer's head says to the miner, if anything. -/
def respHeader (ptr : List Char) : Option (HeaderKind × CString) :=
  match strchr ptr ':' with
  | none | some 0 => none
  | some slen =>
    let key := cstr (ptr.take slen)
    let text := trimmedValue (ptr.drop (slen + 1))
    if text = [] then none
    else (headerKind key).map (·, text)

def HeaderValue.owned (v : HeaderValue) : Nat × Nat := (v.ptr, v.size)

def HeaderInfo.own (hi : HeaderInfo) : List (Nat × Nat) :=
  (hi.lpPath.map HeaderValue.owned).toList ++
    ((hi.reason.map HeaderValue.owned).toList ++ (hi.stratumUrl.map HeaderValue.owned).toList)

def HeaderInfo.text (hi : HeaderInfo) (k : HeaderKind) : Option CString := (hi.get k).map HeaderValue.text

/-- The value that a line of the head displaces; nothing points to it any
more. -/
def HeaderInfo.displaced (hi : HeaderInfo) (ptr : List Char) : List (Nat × Nat) :=
  match respHeader ptr with
  | none => []
  | some (k, _) => ((hi.get k).map HeaderValue.owned).toList

theorem put_own (hi : HeaderInfo) (k : HeaderKind) (v : HeaderValue) :
    (v.owned :: hi.own).Perm ((hi.put k v).own ++ ((hi.get k).map HeaderValue.owned).toList) := by
  refine List.perm_iff_count.mpr fun b => ?_
  cases k with
  | lpPath =>
    simp only [HeaderInfo.own, HeaderInfo.put, HeaderInfo.get, Option.map_some, Option.toList_some,
      List.count_append, List.count_cons, List.count_nil]
    omega
  | reason =>
    simp only [HeaderInfo.own, HeaderInfo.put, HeaderInfo.get, Option.map_some, Option.toList_some,
      List.count_append, List.count_cons, List.count_nil]
    omega
  | stratumUrl =>
    simp only [HeaderInfo.own, HeaderInfo.put, HeaderInfo.get, Option.map_some, Option.toList_some,
      List.count_append, List.count_cons, List.count_nil]
    omega

theorem put_get (hi : HeaderInfo) (k k' : HeaderKind) (v : Option HeaderValue) :
    (hi.put k v).get k' = if k' = k then v else hi.get k' := by
  cases k <;> cases k' <;> rfl

theorem not_strcasecmp_name {k k' : HeaderKind} {key : CString} (hk : strcasecmp k.name key = true)
    (hne : k' ≠ k) : ¬ strcasecmp k'.name key = true := by
  intro hk'
  have hnames : k'.name.map Char.toLower = k.name.map Char.toLower := (beq_iff_eq.mp hk').trans (beq_iff_eq.mp hk).symm
  cases k <;> cases k' <;> first | exact hne rfl | exact absurd hnames (by decide)

/-- The three names differ, so at most one of the tests steals the value. -/
theorem keepHeader_eq (key : CString) (hi : HeaderInfo) (v : Option HeaderValue) :
    keepHeader key hi v =
      match headerKind key with
      | some k => (hi.put k v, none)
      | none => (hi, v) := by
  simp only [keepHeader, headerKind, stealHeader]
  by_cases hlp : strcasecmp HeaderKind.lpPath.name key = true
  · rw [if_pos hlp, if_pos hlp, if_neg (not_strcasecmp_name hlp (by decide)),
      if_neg (not_strcasecmp_name hlp (by decide))]
  · rw [if_neg hlp, if_neg hlp]
    by_cases hreason : strcasecmp HeaderKind.reason.name key = true
    · rw [if_pos hreason, if_pos hreason, if_neg (not_strcasecmp_name hreason (by decide))]
    · rw [if_neg hreason, if_neg hreason]
      split_ifs <;> rfl

section Header

variable {hi : HeaderInfo} {h : Blocks} {r : List (Nat × Nat)}

theorem respHdrOut_ok (hi : HeaderInfo) (key val : Option Nat) {n m : Nat} {own : List (Nat × Nat)} (hh : h.Holds own)
    (hown : own.Perm ((key.map fun p => (p, n)).toList ++ ((val.map fun p => (p, m)).toList ++ r))) :
    ∃ h', respHdrOut key val h hi = .ok (h', hi) ∧ h'.Holds r := by
  obtain ⟨h₁, hfree₁, hh₁, -⟩ := hh.free_pointer hown
  obtain ⟨h₂, hfree₂, hh₂, -⟩ := hh₁.free_pointer (List.Perm.refl _)
  exact ⟨h₂, by rw [respHdrOut, hfree₁, ok_bind, hfree₂]; rfl, hh₂⟩

/-- A line is read within its copies, and only a value that is kept stays
allocated. -/
theorem respHdrCb_ok (hh : h.Holds (hi.own ++ r)) (ptr : List Char) :
    ∃ h' hi', respHdrCb ptr h hi = .ok (h', hi') ∧ h'.Holds (hi'.own ++ (hi.displaced ptr ++ r)) ∧
      hi' = match respHeader ptr with
        | none => hi
        | some (k, text) => hi.put k (some ⟨h.next, ptr.length, text⟩) := by
  have hmalloc := (hh.malloc ptr.length).malloc ptr.length
  have hptr : (h.malloc ptr.length).1 = h.next ∧ ((h.malloc ptr.length).2.malloc ptr.length).1 = h.next + 1 :=
    ⟨rfl, rfl⟩
  have hskip : ∃ h', respHdrOut (some (h.next + 1)) (some h.next)
      ((h.malloc ptr.length).2.malloc ptr.length).2 hi = .ok (h', hi) ∧ h'.Holds (hi.own ++ r) :=
    respHdrOut_ok hi (some (h.next + 1)) (some h.next) hmalloc (List.Perm.refl _)
  obtain ⟨h', hout, hh'⟩ := hskip
  cases hcolon : strchr ptr ':' with
  | none =>
    simp only [respHdrCb, respHeader, HeaderInfo.displaced, hptr, hcolon]
    exact ⟨h', hi, hout, hh', rfl⟩
  | some slen =>
    have hslen : slen < ptr.length := strchr_lt hcolon
    cases slen with
    | zero =>
      simp only [respHdrCb, respHeader, HeaderInfo.displaced, hptr, hcolon]
      exact ⟨h', hi, hout, hh', rfl⟩
    | succ n =>
      by_cases hlast : n + 1 + 1 = ptr.length
      · have hempty : trimmedValue (ptr.drop (n + 1 + 1)) = [] := by
          rw [hlast, List.drop_length]
          rfl
        simp only [respHdrCb, respHeader, HeaderInfo.displaced, hptr, hcolon, if_pos hlast, hempty, if_true]
        exact ⟨h', hi, hout, hh', rfl⟩
      · have hrem : ((ptr.drop (n + 1 + 1)).dropWhile isspace).length + 1 ≤ ptr.length := by
          have hle := (List.dropWhile_suffix isspace (l := ptr.drop (n + 1 + 1))).length_le
          rw [List.length_drop] at hle
          omega
        have hkey (k : Nat) (hk : k ≤ ptr.length) :
            ((h.malloc ptr.length).2.malloc ptr.length).2.touch (h.next + 1) k = .ok () :=
          hmalloc.touch List.mem_cons_self hk
        have hval (k : Nat) (hk : k ≤ ptr.length) :
            ((h.malloc ptr.length).2.malloc ptr.length).2.touch h.next k = .ok () :=
          hmalloc.touch (List.mem_cons_of_mem _ List.mem_cons_self) hk
        simp only [respHdrCb, respHeader, HeaderInfo.displaced, hptr, hcolon, if_neg hlast,
          hkey (n + 1) (by omega), hkey (n + 1 + 1) (by omega), hval _ (Nat.le_of_succ_le hrem), hval _ hrem, ok_bind]
        by_cases hempty : trimmedValue (ptr.drop (n + 1 + 1)) = []
        · simp only [if_pos hempty]
          exact ⟨h', hi, hout, hh', rfl⟩
        · simp only [if_neg hempty, keepHeader_eq]
          cases headerKind (cstr (ptr.take (n + 1))) with
          | none => exact ⟨h', hi, hout, hh', rfl⟩
          | some k =>
            let v : HeaderValue := ⟨h.next, ptr.length, trimmedValue (ptr.drop (n + 1 + 1))⟩
            have hown := (put_own hi k v).append_right r
            rw [List.append_assoc] at hown
            obtain ⟨h₁, hout₁, hh₁⟩ := respHdrOut_ok (hi.put k (some v)) (some (h.next + 1)) none (m := 0) hmalloc
              (hown.cons _)
            exact ⟨h₁, _, hout₁, hh₁, rfl⟩

end Header

/-- Where the next upload starts in a request of `len` bytes. -/
def uploadNext (len pos : Nat) : CurlCall → Nat
  | .read size => pos + min (size % 0x100000000) (len - pos)
  | .seek offset .set => sizeT offset
  | .seek offset .cur => sizeT (pos + offset)
  | .seek offset .fromEnd => sizeT (len + offset)
  | _ => pos

/-- Nothing is asked for from behind the end of the request. -/
def Uploadable (len pos : Nat) : CurlCall → Prop
  | .read size => size % 0x100000000 = 0 ∨ pos ≤ len
  | _ => True

theorem sizeT_lt (i : Int) : sizeT i < 0x10000000000000000 := by
  rw [sizeT]
  omega

theorem sizeT_left {len pos : Nat} (hlen : len < 0x10000000000000000) (hpos : pos < 0x10000000000000000) :
    sizeT (len - pos) = if pos ≤ len then len - pos else len + 0x10000000000000000 - pos := by
  rw [sizeT]
  split_ifs with hle
  · omega
  · omega

section Upload

variable {ub : UploadBuffer}

theorem uploadDataCb_inside (hlen : ub.buf.length < 0x10000000000000000) (hpos : ub.pos < 0x10000000000000000)
    {size : Nat} (hsize : size % 0x100000000 = 0 ∨ ub.pos ≤ ub.buf.length) :
    uploadDataCb size ub = .ok ((ub.buf.drop ub.pos).take (size % 0x100000000),
      { ub with pos := ub.pos + min (size % 0x100000000) (ub.buf.length - ub.pos) }) := by
  simp only [uploadDataCb]
  by_cases hzero : size % 0x100000000 = 0
  · rw [hzero, Nat.zero_min, List.take_zero, if_neg (Nat.not_lt_zero _), if_pos rfl]
    rfl
  · have hle := hsize.resolve_left hzero
    rw [sizeT_left hlen hpos, if_pos hle]
    have hmin : (if ub.buf.length - ub.pos < size % 0x100000000 then ub.buf.length - ub.pos
        else size % 0x100000000) = min (size % 0x100000000) (ub.buf.length - ub.pos) := by
      rw [Nat.min_def]
      split_ifs <;> omega
    have htake : (ub.buf.drop ub.pos).take (min (size % 0x100000000) (ub.buf.length - ub.pos)) =
        (ub.buf.drop ub.pos).take (size % 0x100000000) := by
      rw [← List.length_drop, ← List.take_eq_take_min]
    rw [hmin, htake]
    by_cases hnone : min (size % 0x100000000) (ub.buf.length - ub.pos) = 0
    · have hempty : (ub.buf.drop ub.pos).take (size % 0x100000000) = [] := by
        rw [← htake, hnone, List.take_zero]
      rw [if_pos hnone, hempty, hnone]
      rfl
    · rw [if_neg hnone, if_pos (by omega)]

theorem uploadDataCb_outside (hlen : ub.buf.length < 0x10000000000000000) (hpos : ub.pos < 0x10000000000000000)
    {size : Nat} (hsize : ¬ (size % 0x100000000 = 0 ∨ ub.pos ≤ ub.buf.length)) :
    uploadDataCb size ub = .error .outside := by
  rw [not_or, Nat.not_le] at hsize
  have hleft := sizeT_left hlen hpos
  rw [if_neg (Nat.not_le.mpr hsize.2)] at hleft
  simp only [uploadDataCb, hleft]
  rw [if_neg (by split_ifs <;> omega), if_neg (by split_ifs <;> omega)]

end Upload

namespace HttpExchange

def own (s : HttpExchange) : List (Nat × Nat) :=
  (s.allData.buf.map fun p => (p, s.allData.len + 1)).toList ++ s.hi.own

def body (s : HttpExchange) : List Char := s.allData.mem.take s.allData.len

/-- `lost` is what stays allocated without a pointer to it. -/
structure Sound (rpcReq : CString) (s : HttpExchange) (lost : List (Nat × Nat)) : Prop where
  blocks : s.blocks.Holds (s.own ++ lost)
  body : s.body.length = s.allData.len
  terminated : ∀ p, s.allData.buf = some p → s.allData.mem = s.body ++ ['\x00']
  empty : s.allData.buf = none → s.allData.len = 0
  request : s.uploadData.buf = rpcReq
  pos : s.uploadData.pos < 0x10000000000000000
  got : s.got.length ≤ s.uploadData.pos ∧ s.got <+: rpcReq.drop (s.uploadData.pos - s.got.length)

end HttpExchange

def CurlCall.written : CurlCall → List Char
  | .write ptr => ptr
  | _ => []

def CurlCall.told : CurlCall → Option (HeaderKind × CString)
  | .header ptr => respHeader ptr
  | _ => none

def HeaderInfo.tell (texts : HeaderKind → Option CString) : Option (HeaderKind × CString) → HeaderKind → Option CString
  | none => texts
  | some (k, text) => Function.update texts k (some text)

/-- What a call does to the exchange, seen from outside its memory. -/
structure HttpExchange.Follows (rpcReq : CString) (s : HttpExchange) (c : CurlCall) (s' : HttpExchange) : Prop where
  body : s'.body = s.body ++ c.written
  pos : s'.uploadData.pos = uploadNext rpcReq.length s.uploadData.pos c
  text : s'.hi.text = HeaderInfo.tell s.hi.text c.told

def HttpExchange.displaced (s : HttpExchange) : CurlCall → List (Nat × Nat)
  | .header ptr => s.hi.displaced ptr
  | _ => []

namespace HttpExchange

section Step

variable {rpcReq : CString} {s : HttpExchange} {lost : List (Nat × Nat)}

theorem write_sound (hs : s.Sound rpcReq lost) (ptr : List Char) :
    ∃ s', curlStep s (.write ptr) = .ok s' ∧ s'.Sound rpcReq lost ∧ s.Follows rpcReq (.write ptr) s' := by
  obtain ⟨h, hrealloc, hh⟩ := hs.blocks.realloc (q := s.allData.buf) (n := s.allData.len + 1)
    (r := s.hi.own ++ lost) (by rw [own, List.append_assoc]) (s.allData.len + ptr.length + 1)
  have htouch (k : Nat) (hk : k ≤ s.allData.len + ptr.length + 1) : h.touch s.blocks.next k = .ok () :=
    hh.touch List.mem_cons_self hk
  have hbody : (s.body ++ ptr ++ ['\x00']).take (s.allData.len + ptr.length) = s.body ++ ptr := by
    rw [← hs.body, ← List.length_append, List.take_left]
  refine ⟨{ s with blocks := h, allData := ⟨some s.blocks.next, _, s.body ++ ptr ++ ['\x00']⟩ }, ?_, ⟨hh, ?_, ?_, ?_,
    hs.request, hs.pos, hs.got⟩, ⟨hbody, rfl, rfl⟩⟩
  · simp only [curlStep, allDataCb, hrealloc, ok_bind, htouch _ (Nat.le_succ _), htouch _ (Nat.le_refl _)]
    rfl
  · exact (congrArg List.length hbody).trans (by rw [List.length_append, hs.body])
  · exact fun _ _ => congrArg (· ++ ['\x00']) hbody.symm
  · exact fun hnone => nomatch hnone

theorem read_sound (hreq : rpcReq.length < 0x10000000000000000) (hs : s.Sound rpcReq lost) {size : Nat}
    (hsize : Uploadable rpcReq.length s.uploadData.pos (.read size)) :
    ∃ s', curlStep s (.read size) = .ok s' ∧ s'.Sound rpcReq lost ∧ s.Follows rpcReq (.read size) s' := by
  obtain ⟨hgot, hprefix⟩ := hs.got
  have hrequest := hs.request
  subst hrequest
  have hupload := uploadDataCb_inside hreq hs.pos hsize
  set bytes := (s.uploadData.buf.drop s.uploadData.pos).take (size % 0x100000000) with hbytes
  have hlength : bytes.length = min (size % 0x100000000) (s.uploadData.buf.length - s.uploadData.pos) := by
    rw [hbytes, List.length_take, List.length_drop]
  refine ⟨{ s with
    uploadData := { s.uploadData with
      pos := s.uploadData.pos + min (size % 0x100000000) (s.uploadData.buf.length - s.uploadData.pos) }
    got := s.got ++ bytes }, by rw [curlStep, hupload]; rfl,
    ⟨hs.blocks, hs.body, hs.terminated, hs.empty, rfl, ?_, ?_⟩, ⟨(List.append_nil _).symm, rfl, rfl⟩⟩
  · dsimp only
    have hpos := hs.pos
    omega
  · dsimp only
    rw [List.length_append, hlength]
    refine ⟨by omega, ?_⟩
    rw [Nat.add_sub_add_right]
    rw [List.prefix_iff_eq_append] at hprefix
    rw [← hprefix, List.drop_drop, Nat.sub_add_cancel hgot, List.prefix_append_right_inj]
    exact List.take_prefix _ _

theorem read_outside (hreq : rpcReq.length < 0x10000000000000000) (hs : s.Sound rpcReq lost) {size : Nat}
    (hsize : ¬ Uploadable rpcReq.length s.uploadData.pos (.read size)) :
    curlStep s (.read size) = .error .outside := by
  have hrequest := hs.request
  subst hrequest
  rw [curlStep, uploadDataCb_outside hreq hs.pos hsize]
  rfl

theorem seek_sound (hs : s.Sound rpcReq lost) (offset : Int) (origin : SeekOrigin) :
    ∃ s', curlStep s (.seek offset origin) = .ok s' ∧ s'.Sound rpcReq lost ∧
      s.Follows rpcReq (.seek offset origin) s' := by
  have hnil (pos : Nat) : ([] : CString).length ≤ pos ∧ [] <+: rpcReq.drop (pos - 0) :=
    ⟨Nat.zero_le _, List.nil_prefix⟩
  cases origin with
  | set => exact ⟨_, rfl, ⟨hs.blocks, hs.body, hs.terminated, hs.empty, hs.request, sizeT_lt _, hnil _⟩,
      ⟨(List.append_nil _).symm, rfl, rfl⟩⟩
  | cur => exact ⟨_, rfl, ⟨hs.blocks, hs.body, hs.terminated, hs.empty, hs.request, sizeT_lt _, hnil _⟩,
      ⟨(List.append_nil _).symm, rfl, rfl⟩⟩
  | fromEnd =>
    have hrequest := hs.request
    subst hrequest
    exact ⟨_, rfl, ⟨hs.blocks, hs.body, hs.terminated, hs.empty, rfl, sizeT_lt _, hnil _⟩,
      ⟨(List.append_nil _).symm, rfl, rfl⟩⟩
  | other => exact ⟨_, rfl, hs, ⟨(List.append_nil _).symm, rfl, rfl⟩⟩

theorem header_sound (hs : s.Sound rpcReq lost) (ptr : List Char) :
    ∃ s', curlStep s (.header ptr) = .ok s' ∧ s'.Sound rpcReq (s.hi.displaced ptr ++ lost) ∧
      s.Follows rpcReq (.header ptr) s' := by
  have hperm : (s.own ++ lost).Perm (s.hi.own ++
      ((s.allData.buf.map fun p => (p, s.allData.len + 1)).toList ++ lost)) := by
    refine List.perm_iff_count.mpr fun b => ?_
    simp only [own, List.count_append]
    omega
  obtain ⟨h, hi, hheader, hh, hhi⟩ := respHdrCb_ok (hs.blocks.perm hperm) ptr
  refine ⟨{ s with blocks := h, hi := hi }, by rw [curlStep, hheader]; rfl,
    ⟨hh.perm ?_, hs.body, hs.terminated, hs.empty, hs.request, hs.pos, hs.got⟩,
    ⟨(List.append_nil _).symm, rfl, ?_⟩⟩
  · refine List.perm_iff_count.mpr fun b => ?_
    simp only [own, List.count_append]
    omega
  · rw [hhi, CurlCall.told]
    cases respHeader ptr with
    | none => rfl
    | some told =>
      funext k
      simp only [HeaderInfo.text, put_get, HeaderInfo.tell, Function.update_apply]
      split_ifs <;> rfl

theorem curlStep_sound (hreq : rpcReq.length < 0x10000000000000000) (hs : s.Sound rpcReq lost) (c : CurlCall)
    (hc : Uploadable rpcReq.length s.uploadData.pos c) :
    ∃ s', curlStep s c = .ok s' ∧ s'.Sound rpcReq (s.displaced c ++ lost) ∧ s.Follows rpcReq c s' := by
  cases c with
  | write ptr => exact write_sound hs ptr
  | read size => exact read_sound hreq hs hc
  | seek offset origin => exact seek_sound hs offset origin
  | header ptr => exact header_sound hs ptr

theorem curlRun_iff (hreq : rpcReq.length < 0x10000000000000000) (hs : s.Sound rpcReq lost) (c : CurlCall) :
    (∃ s', curlRun s c = some s') ↔ Uploadable rpcReq.length s.uploadData.pos c := by
  constructor
  · rintro ⟨s', hstep⟩
    rw [curlRun, toOption_eq_some] at hstep
    by_contra hnot
    cases c with
    | read size => exact nomatch (read_outside hreq hs hnot).symm.trans hstep
    | write ptr => exact hnot trivial
    | seek offset origin => exact hnot trivial
    | header ptr => exact hnot trivial
  · intro hc
    obtain ⟨s', hstep, -⟩ := curlStep_sound hreq hs c hc
    exact ⟨s', by rw [curlRun, hstep]; rfl⟩

theorem curlRun_sound (hreq : rpcReq.length < 0x10000000000000000) (hs : s.Sound rpcReq lost) {c : CurlCall}
    {s' : HttpExchange} (hstep : curlRun s c = some s') :
    s'.Sound rpcReq (s.displaced c ++ lost) ∧ s.Follows rpcReq c s' := by
  obtain ⟨s₁, hstep₁, hs₁, hfollows⟩ := curlStep_sound hreq hs c ((curlRun_iff hreq hs c).mp ⟨s', hstep⟩)
  rw [curlRun, hstep₁] at hstep
  cases hstep
  exact ⟨hs₁, hfollows⟩

theorem displaced_eq_nil_iff (c : CurlCall) :
    s.displaced c = [] ↔ ∀ told, c.told = some told → s.hi.text told.1 = none := by
  cases c with
  | header ptr =>
    rw [displaced, HeaderInfo.displaced, CurlCall.told]
    cases respHeader ptr with
    | none => exact iff_of_true rfl fun _ h => nomatch h
    | some told =>
      simp only [Option.toList_eq_nil_iff, Option.map_eq_none_iff, Option.some.injEq, HeaderInfo.text]
      exact ⟨fun hnone _ heq => heq ▸ hnone, fun hall => hall told rfl⟩
  | write ptr => exact iff_of_true rfl fun _ h => nomatch h
  | read size => exact iff_of_true rfl fun _ h => nomatch h
  | seek offset origin => exact iff_of_true rfl fun _ h => nomatch h

end Step

end HttpExchange

def headersOf (cs : List CurlCall) : List (HeaderKind × CString) := cs.filterMap CurlCall.told

def bodyOf (cs : List CurlCall) : List Char := cs.flatMap CurlCall.written

theorem headersOf_cons (c : CurlCall) (cs : List CurlCall) : headersOf (c :: cs) = c.told.toList ++ headersOf cs := by
  rw [headersOf, List.filterMap_cons]
  cases c.told <;> rfl

theorem tell_lookup (texts : HeaderKind → Option CString) (told : Option (HeaderKind × CString))
    (later : List (HeaderKind × CString)) (k : HeaderKind) :
    (later.reverse.lookup k).or (HeaderInfo.tell texts told k) =
      ((told.toList ++ later).reverse.lookup k).or (texts k) := by
  rw [List.reverse_append, List.lookup_append, Option.or_assoc]
  congr 1
  cases told with
  | none => rfl
  | some told =>
    rw [HeaderInfo.tell, Function.update_apply, Option.toList_some, List.reverse_singleton, List.lookup_cons]
    split_ifs with heq
    · rw [heq, beq_self_eq_true]
      rfl
    · rw [beq_false_of_ne heq]
      rfl

/-- A first line of its kind, and then only lines of other kinds. -/
theorem told_once_iff (texts : HeaderKind → Option CString) (told : Option (HeaderKind × CString))
    (later : List (HeaderKind × CString)) :
    (((later.map Prod.fst).Nodup ∧ ∀ k ∈ later.map Prod.fst, HeaderInfo.tell texts told k = none) ∧
        ∀ t, told = some t → texts t.1 = none) ↔
      ((told.toList ++ later).map Prod.fst).Nodup ∧
        ∀ k ∈ (told.toList ++ later).map Prod.fst, texts k = none := by
  cases told with
  | none => exact and_iff_left fun _ h => by cases h
  | some told =>
    simp only [Option.toList_some, List.singleton_append, List.map_cons, List.nodup_cons, List.forall_mem_cons,
      Option.some.injEq, forall_eq', HeaderInfo.tell]
    constructor
    · rintro ⟨⟨hnodup, hlater⟩, hfirst⟩
      refine ⟨⟨fun hmem => ?_, hnodup⟩, hfirst, fun k hk => ?_⟩
      · have hnone := hlater told.1 hmem
        rw [Function.update_self] at hnone
        cases hnone
      · have hnone := hlater k hk
        rw [Function.update_apply] at hnone
        split_ifs at hnone
        exact hnone
    · rintro ⟨⟨hnew, hnodup⟩, hfirst, hlater⟩
      refine ⟨⟨hnodup, fun k hk => ?_⟩, hfirst⟩
      have hne : k ≠ told.1 := fun heq => hnew (heq ▸ hk)
      rw [Function.update_of_ne hne, hlater k hk]

/-- After the calls: the body is all that was written, each header says what
its last line said, and memory is lost exactly when a header came twice. -/
structure HttpExchange.Collected (rpcReq : CString) (r : List (Nat × Nat)) (cs : List CurlCall) (s : HttpExchange) : Prop where
  body : s.body = bodyOf cs
  text : ∀ k, s.hi.text k = (headersOf cs).reverse.lookup k
  sound : ∃ lost, s.Sound rpcReq (lost ++ r) ∧ (lost = [] ↔ ((headersOf cs).map Prod.fst).Nodup)

theorem exchangeStart_sound {h : Blocks} {r : List (Nat × Nat)} (hh : h.Holds r) (rpcReq : CString) :
    (exchangeStart h rpcReq).Sound rpcReq r :=
  ⟨hh, rfl, (fun _ hsome => nomatch hsome), fun _ => rfl, rfl, Nat.succ_pos _, Nat.le_refl _, List.nil_prefix⟩

theorem run_curl_collects {rpcReq : CString} (hreq : rpcReq.length < 0x10000000000000000) {cs : List CurlCall}
    {s t : HttpExchange} {lost : List (Nat × Nat)} (hrun : run curlRun s cs = some t) (hs : s.Sound rpcReq lost) :
    t.body = s.body ++ bodyOf cs ∧ (∀ k, t.hi.text k = ((headersOf cs).reverse.lookup k).or (s.hi.text k)) ∧
    ∃ lost', t.Sound rpcReq (lost' ++ lost) ∧ (lost' = [] ↔ ((headersOf cs).map Prod.fst).Nodup ∧
      ∀ k ∈ (headersOf cs).map Prod.fst, s.hi.text k = none) := by
  induction cs generalizing s lost with
  | nil =>
    cases hrun
    exact ⟨(List.append_nil _).symm, fun _ => rfl, [], hs,
      iff_of_true rfl ⟨List.nodup_nil, fun _ hk => absurd hk List.not_mem_nil⟩⟩
  | cons c cs ih =>
    obtain ⟨s₁, hstep, hrun⟩ := run_cons.mp hrun
    obtain ⟨hs₁, hfollows⟩ := HttpExchange.curlRun_sound hreq hs hstep
    obtain ⟨hbody, htext, lost', ht, hlost⟩ := ih hrun hs₁
    refine ⟨?_, fun k => ?_, lost' ++ s.displaced c, ?_, ?_⟩
    · rw [hbody, hfollows.body, List.append_assoc]
      rfl
    · rw [htext, hfollows.text, tell_lookup, headersOf_cons]
    · rwa [List.append_assoc]
    · rw [List.append_eq_nil_iff, hlost, HttpExchange.displaced_eq_nil_iff, hfollows.text, headersOf_cons]
      exact told_once_iff s.hi.text c.told _

theorem run_curl_runs_iff {h : Blocks} {r : List (Nat × Nat)} (hh : h.Holds r) {rpcReq : CString}
    (hreq : rpcReq.length < 0x10000000000000000) (cs : List CurlCall) :
    (∃ s, run curlRun (exchangeStart h rpcReq) cs = some s) ↔
      Along (fun pos c => some (uploadNext rpcReq.length pos c)) (Uploadable rpcReq.length) 0 cs := by
  refine exists_run_iff_along (R := fun s pos => (∃ lost, s.Sound rpcReq lost) ∧ s.uploadData.pos = pos)
    ?_ ?_ ⟨⟨r, exchangeStart_sound hh rpcReq⟩, rfl⟩
  · rintro s _ c ⟨⟨lost, hs⟩, rfl⟩
    exact HttpExchange.curlRun_iff hreq hs c
  · rintro s _ c s' ⟨⟨lost, hs⟩, rfl⟩ hstep
    obtain ⟨hs', hfollows⟩ := HttpExchange.curlRun_sound hreq hs hstep
    exact ⟨⟨_, hs'⟩, hfollows.pos⟩

theorem run_curl_collected {h : Blocks} {r : List (Nat × Nat)} (hh : h.Holds r) {rpcReq : CString}
    (hreq : rpcReq.length < 0x10000000000000000) {cs : List CurlCall} {s : HttpExchange}
    (hrun : run curlRun (exchangeStart h rpcReq) cs = some s) : s.Collected rpcReq r cs := by
  obtain ⟨hbody, htext, lost, hs, hlost⟩ := run_curl_collects hreq hrun (exchangeStart_sound hh rpcReq)
  refine ⟨hbody, fun k => ?_, lost, hs, hlost.trans ?_⟩
  · rw [htext]
    cases k <;> exact Option.or_none
  · refine and_iff_left fun k _ => ?_
    cases k <;> rfl

/-- Over every order of libcurl's calls nothing outside a buffer is touched
exactly when no upload is asked for from behind the end of the request. -/
theorem run_curl_iff {h : Blocks} {r : List (Nat × Nat)} (hh : h.Holds r) {rpcReq : CString}
    (hreq : rpcReq.length < 0x10000000000000000) (cs : List CurlCall) :
    (∃ s, run curlRun (exchangeStart h rpcReq) cs = some s ∧ s.Collected rpcReq r cs) ↔
      Along (fun pos c => some (uploadNext rpcReq.length pos c)) (Uploadable rpcReq.length) 0 cs := by
  rw [← run_curl_runs_iff hh hreq]
  constructor
  · rintro ⟨s, hrun, -⟩
    exact ⟨s, hrun⟩
  · rintro ⟨s, hrun⟩
    exact ⟨s, hrun, run_curl_collected hh hreq hrun⟩

/-- libcurl sends the request again from its start after it has been answered. -/
theorem run_curl_resent :
    ∃ s, run curlRun (exchangeStart .empty "[]".toList)
        [.read 1, .header "X-Reject-Reason: stale ".toList, .seek 0 .set, .read 16, .write ['0']] = some s ∧
      s.Collected "[]".toList []
        [.read 1, .header "X-Reject-Reason: stale ".toList, .seek 0 .set, .read 16, .write ['0']] := by
  refine (run_curl_iff Blocks.empty_holds (by decide) _).mpr ?_
  simp [Along, Uploadable, uploadNext, sizeT]

end VerusMiner
