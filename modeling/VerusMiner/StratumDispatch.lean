import VerusMiner.JobMemory
import VerusMiner.Reconnect
import VerusMiner.ShowMessage
import VerusMiner.Subscription

/-! The lines of a pool: which method a line calls, what it changes and what is
answered, and the authorization, whose answer comes among them. -/

namespace VerusMiner

/-- What was given to `stratum_send_line`: an object, or the text of the pong
with its id. -/
inductive SentAnswer where
  | dumped (v : Json)
  | pong (id : Int)

/-- `connected` while the connection is there that the lines come over; `sent`
is what was written to the pool. -/
structure PoolSession where
  mem : JobMemory
  url : Option CString
  connected : Bool
  sent : List SentAnswer

/-- A line as it was parsed, whether an answer to it gets out, the algorithm of
the time, what `stratum_benchdata` reports unless it is disabled, and what the
clock, the stack and the allocator have in store. -/
structure LineEvent where
  val : Option Json
  sends : Bool
  algo : CString
  benchdata : Option Json
  now : Word
  ntimeStack : Mem
  fresh : Mem
  stack : SetTargetStack

inductive StratumMethod where
  | notify
  | ping
  | setDifficulty
  | setTarget
  | setExtranonce
  | reconnect
  | getAlgo
  | getStats
  | getVersion
  | showMessage

def jsonNumberValue : Option Json → Float
  | some (.integer n) => Float.ofInt n
  | some (.real x) => x
  | _ => 0.0

def stratumSetDifficulty (params : Json) (s : JobMemory) : JobMemory :=
  let diff := jsonNumberValue (jsonArrayGet params 0)
  if diff ≤ 0.0 then { s with ret := false }
  else { s with ret := true, sctx := { s.sctx with nextDiff := diff } }

/-- An id that asks for an answer. -/
def wantsAnswer : Option Json → Option Json
  | none => none
  | some .null => none
  | some id => some id

def errorObject (code : Int) (msg : CString) : Json :=
  .object [("code".toList, .integer code), ("message".toList, .string msg)]

/-- The low 32 bits of an integer, and 0 for an id that is none. -/
def pongId (id : Json) : Int := (BitVec.ofInt 32 (jsonIntegerValue (some id))).toInt

def algoAnswer (algo : CString) (id : Json) : Json :=
  .object [("id".toList, id), ("error".toList, .null), ("result".toList, .string algo)]

def statsAnswer (benchdata : Option Json) (id : Json) : Json :=
  match benchdata with
  | none => .object [("id".toList, id), ("error".toList, errorObject 1 "disabled".toList)]
  | some result => .object [("id".toList, id), ("result".toList, result), ("error".toList, .null)]

def versionAnswer (id : Json) : Json :=
  .object [("id".toList, id), ("result".toList, .string userAgent), ("error".toList, .null)]

def messageAnswer (id : Json) : Json :=
  .object [("id".toList, id), ("error".toList, .null), ("result".toList, .bool true)]

def unknownAnswer (id : Json) : Json :=
  .object [("id".toList, id), ("result".toList, .bool false),
    ("error".toList, errorObject 38 "unknown method".toList)]

namespace PoolSession

/-- Nothing is sent and `ret` returned where no answer is asked for. -/
def reply (s : PoolSession) (l : LineEvent) (id : Option Json) (ret : Bool) (text : Json → SentAnswer) :
    Bool × PoolSession :=
  match wantsAnswer id with
  | none => (ret, s)
  | some id => (l.sends, { s with sent := if l.sends then s.sent ++ [text id] else s.sent })

def remember (s : PoolSession) (mem : JobMemory) : Bool × PoolSession := (mem.ret, { s with mem := mem })

/-- The new url is kept and the connection ended. -/
def reconnectTo (s : PoolSession) (params : Json) : Except BlockFault (Bool × PoolSession) :=
  match stratumReconnect params with
  | none => .ok (false, s)
  | some url => do
    let mem ← freeJobMemory s.mem
    return (true, { s with mem := mem, url := some url, connected := false })

/-- A pool that has set a target may show a height, with a symbol that is copied
into an array of 32. -/
def showBlock (s : PoolSession) (params : Json) : Except BlockFault PoolSession :=
  if s.mem.isEquihash then
    let shown := showHeight s.mem.sctx params
    if ∀ a ∈ shown.2, a.Safe then .ok { s with mem := { s.mem with sctx := shown.1 } } else .error .outside
  else .ok s

def stratumPong (s : PoolSession) (l : LineEvent) (id : Option Json) : Bool × PoolSession :=
  s.reply l id false fun id => .pong (pongId id)

def stratumGetAlgo (s : PoolSession) (l : LineEvent) (id : Option Json) : Bool × PoolSession :=
  s.reply l id false fun id => .dumped (algoAnswer l.algo id)

def stratumGetStats (s : PoolSession) (l : LineEvent) (id : Option Json) : Bool × PoolSession :=
  s.reply l id false fun id => .dumped (statsAnswer l.benchdata id)

def stratumGetVersion (s : PoolSession) (l : LineEvent) (id : Option Json) : Bool × PoolSession :=
  s.reply l id false fun id => .dumped (versionAnswer id)

/-- `verus_stratum_show_message` answers as the other does. -/
def stratumShowMessage (s : PoolSession) (l : LineEvent) (id : Option Json) (params : Json) :
    Except BlockFault (Bool × PoolSession) := do
  let s ← s.showBlock params
  return s.reply l id true fun id => .dumped (messageAnswer id)

def stratumUnknownMethod (s : PoolSession) (l : LineEvent) (id : Option Json) : Bool × PoolSession :=
  s.reply l id false fun id => .dumped (unknownAnswer id)

def call (s : PoolSession) (l : LineEvent) (id : Option Json) (params : Json) :
    Option StratumMethod → Except BlockFault (Bool × PoolSession)
  | some .notify => do
    let mem ← jobMemoryStep s.mem (.notify l.now l.ntimeStack l.fresh params)
    return s.remember mem
  | some .ping => .ok (s.stratumPong l id)
  | some .setDifficulty => .ok (s.remember (stratumSetDifficulty params s.mem))
  | some .setTarget => do
    let mem ← jobMemoryStep s.mem (.setTarget l.stack params)
    return s.remember mem
  | some .setExtranonce => do
    let mem ← jobMemoryStep s.mem (.extranonce params 0)
    return s.remember mem
  | some .reconnect => s.reconnectTo params
  | some .getAlgo => .ok (s.stratumGetAlgo l id)
  | some .getStats => .ok (s.stratumGetStats l id)
  | some .getVersion => .ok (s.stratumGetVersion l id)
  | some .showMessage => s.stratumShowMessage l id params
  | none => .ok (s.stratumUnknownMethod l id)

end PoolSession

section Answers

variable {s s' : PoolSession} {l : LineEvent} {id : Option Json} {ret : Bool}

end Answers

end VerusMiner
