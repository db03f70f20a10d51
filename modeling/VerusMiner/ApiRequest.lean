import VerusMiner.Handshake

/-! Requests of API clients: how their text is taken apart in the buffer it was
received into, and the command that is found in it. -/

namespace VerusMiner

inductive ApiCommand where
  | summary
  | threads
  | pool
  | histo
  | hwinfo
  | meminfo
  | scanlog
  | seturl
  | switchpool
  | quit
  | help
  deriving DecidableEq

namespace ApiCommand

def name : ApiCommand → CString
  | summary => "summary".toList
  | threads => "threads".toList
  | pool => "pool".toList
  | histo => "histo".toList
  | hwinfo => "hwinfo".toList
  | meminfo => "meminfo".toList
  | scanlog => "scanlog".toList
  | seturl => "seturl".toList
  | switchpool => "switchpool".toList
  | quit => "quit".toList
  | help => "help".toList

def iswritemode : ApiCommand → Bool
  | seturl | switchpool | quit => true
  | _ => false

end ApiCommand

/-- In the order of the table, with `help` kept last. -/
def cmds : List ApiCommand :=
  [.summary, .threads, .pool, .histo, .hwinfo, .meminfo, .scanlog, .seturl, .switchpool, .quit, .help]

def mybufsiz : Nat := 16384

def sockRecBufsz : Nat := 1024

/-- The buffer after a request was received, up to the zero behind it; a line
end is cut off. -/
def received (req : List Char) : List Char :=
  let buf := req ++ ['\x00']
  if req.getLast? = some '\n' then
    let n := req.length - 1
    let buf := buf.set n '\x00'
    if 0 < n ∧ buf[n - 1]? = some '\r' then buf.set (n - 1) '\x00' else buf
  else buf

/-- The first slash of a path becomes a bar, the next one ends it. -/
def slashes (word : CString) : CString :=
  match strchr word '/' with
  | none => word
  | some i =>
    let cmd := word.set i '|'
    match strchr cmd '/' with
    | none => cmd
    | some j => cmd.take j

def getText : CString := "GET /".toList

def keyText : CString := "Sec-WebSocket-Key".toList

structure Parsed where
  buf : List Char
  wskey : Option Nat

def scanAccess (word : CString) : List Access :=
  if word = [] then [] else [.write 256 (word.length + 1)]

def endHeader (buf : List Char) (header : Nat) : List Char :=
  match strchr (strAt buf header) '\r' with
  | none => buf
  | some eol => buf.set (header + eol) '\x00'

/-- The command of a GET request is printed over the start of the buffer, in
which `wskey` still points to the key. Nothing follows a null pointer. -/
def parseGet (buf : List Char) (msg : Nat) : List Access × Option Parsed :=
  let word := scanWord (strAt buf (msg + 5))
  let cmd := slashes word
  let print := Access.write mybufsiz (cmd.length + 1)
  match strstr (strAt buf msg) keyText with
  | none => (scanAccess word ++ [print], some ⟨strcpy buf cmd, none⟩)
  | some k =>
    let buf := endHeader buf (msg + k)
    -- the result of this search is used without a test
    match strchr (strAt buf (msg + k)) ':' with
    | none => (scanAccess word ++ [.follow none], none)
    | some colon =>
      let wskey := msg + k + colon + 1
      let wskey := wskey + ((strAt buf wskey).takeWhile (· == ' ')).length
      (scanAccess word ++ [.follow (some wskey), print], some ⟨strcpy buf cmd, some wskey⟩)

def findGet (s : CString) : Option Nat := (strstr s getText).filter fun msg => 5 < (s.drop msg).length

def parseRequest (buf : List Char) : List Access × Option Parsed :=
  match findGet (cstr buf) with
  | none => ([], some ⟨buf, none⟩)
  | some msg => parseGet buf msg

def splitParams (buf : List Char) : List Char × Option Nat :=
  match strchr (cstr buf) '|' with
  | none => (buf, none)
  | some bar => (buf.set bar '\x00', some (bar + 1))

/-- A bar at the end of the parameters is removed. -/
def trimParams (buf : List Char) : Option Nat → List Char
  | none => buf
  | some params =>
    if (strAt buf params).getLast? = some '|' then
      buf.set (params + ((strAt buf params).length - 1)) '\x00'
    else buf

def findCommand (name : CString) : Option ApiCommand :=
  cmds.find? fun cmd => name == cmd.name && name != []

structure Dispatched where
  cmd : ApiCommand
  params : Option CString
  wskey : Option CString

def dispatch (p : Parsed) : Option Dispatched :=
  let (buf, params) := splitParams p.buf
  (findCommand (cstr buf)).map fun cmd =>
    let buf := trimParams buf params
    { cmd := cmd, params := params.map (strAt buf), wskey := p.wskey.map (strAt buf) }

section Accesses

variable (sha1 : List Byte → Vector Byte 20) (result : ApiCommand → Option CString → CString)

def replyAccesses (d : Dispatched) : List Access :=
  match d.wskey with
  | none => []
  | some clientkey => (websocketHandshake sha1 (result d.cmd d.params) clientkey).accesses

def answerAccesses (parsed : Option Parsed) : List Access :=
  match parsed.bind dispatch with
  | none => []
  | some d => replyAccesses sha1 result d

/-- What is done with memory for a request, from its receipt to the reply. -/
def requestAccesses (req : List Char) : List Access :=
  let (parse, parsed) := parseRequest (received req)
  .write mybufsiz (req.length + 1) :: (parse ++ answerAccesses sha1 result parsed)

end Accesses

section Text

theorem ApiCommand.length_name_le (cmd : ApiCommand) : cmd.name.length ≤ 10 := by
  cases cmd <;> decide

theorem length_received (req : List Char) : (received req).length = req.length + 1 := by
  simp only [received]
  split_ifs <;> simp

theorem length_slashes_le (word : CString) : (slashes word).length ≤ word.length := by
  rw [slashes]
  split
  · exact Nat.le_refl _
  · simp only
    split
    · exact (List.length_set ..).le
    · exact ((List.take_prefix ..).length_le).trans (List.length_set ..).le

theorem not_mem_slashes {word : CString} (h : '\x00' ∉ word) : '\x00' ∉ slashes word := by
  have hset : ∀ i, '\x00' ∉ word.set i '|' := by
    intro i hmem
    rcases List.mem_or_eq_of_mem_set hmem with hin | hbar
    · exact h hin
    · exact absurd hbar (by decide)
  rw [slashes]
  split
  · exact h
  · simp only
    split
    · exact hset _
    · exact fun hmem => hset _ (List.mem_of_mem_take hmem)

theorem not_mem_scanWord {s : CString} (h : '\x00' ∉ s) : '\x00' ∉ scanWord s := fun hmem =>
  h ((List.dropWhile_suffix _).subset ((List.takeWhile_prefix _).subset hmem))

theorem findCommand_eq_some {name : CString} {cmd : ApiCommand} (h : findCommand name = some cmd) :
    name = cmd.name := by
  have hfound := List.find?_some h
  simpa using (Bool.and_eq_true_iff.mp hfound).1

theorem findCommand_name (cmd : ApiCommand) : findCommand cmd.name = some cmd := by
  cases cmd <;> decide +kernel

theorem findCommand_eq_none_iff {name : CString} :
    findCommand name = none ↔ ∀ cmd : ApiCommand, cmd.name ≠ name := by
  constructor
  · rintro hnone cmd rfl
    rw [findCommand_name] at hnone
    cases hnone
  · intro hall
    cases hfound : findCommand name with
    | none => rfl
    | some cmd => exact absurd (findCommand_eq_some hfound).symm (hall cmd)

end Text

end VerusMiner
