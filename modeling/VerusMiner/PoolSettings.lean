import VerusMiner.PoolIndex

/-! The pools with their credentials and options: how the options of the
program fill them, when what is left open is resolved, and how a switch makes a
pool's options the active ones. -/

namespace VerusMiner

inductive ShaAlgos where
  | blakecoin | blake | blake2s | allium | bmw | bastion | c11 | cryptolight | cryptonight | deep
  | decred | dmdGr | equihash | fresh | fugue256 | groestl | heavy | hmq1725 | hsr | keccak
  | keccakc | jackpot | jha | lbry | luffa | lyra2 | lyra2v2 | lyra2z | mjollnir | myrGr
  | neoscrypt | nist5 | pentablake | phi | phi2 | polytimos | quark | qubit | scrypt | scryptJane
  | sha256d | sha256t | sia | sib | skein | skein2 | skunk | sonoa | s3 | timetravel | tribus
  | bitcore | x11evo | x11 | x12 | x13 | x14 | x15 | x16r | x16s | x17 | vanilla | veltor
  | whirlcoin | whirlpool | whirlpoolx | wildkeccak | zr5 | monero | graft | stellite | auto
  deriving DecidableEq

/-- The names in their order, then the aliases. -/
def algoNames : List (CString × ShaAlgos) :=
  [("blakecoin".toList, .blakecoin), ("blake".toList, .blake), ("blake2s".toList, .blake2s),
   ("allium".toList, .allium), ("bmw".toList, .bmw), ("bastion".toList, .bastion),
   ("c11".toList, .c11), ("cryptolight".toList, .cryptolight), ("cryptonight".toList, .cryptonight),
   ("deep".toList, .deep), ("decred".toList, .decred), ("dmd-gr".toList, .dmdGr),
   ("verus".toList, .equihash), ("fresh".toList, .fresh), ("fugue256".toList, .fugue256),
   ("groestl".toList, .groestl), ("heavy".toList, .heavy), ("hmq1725".toList, .hmq1725),
   ("hsr".toList, .hsr), ("keccak".toList, .keccak), ("keccakc".toList, .keccakc),
   ("jackpot".toList, .jackpot), ("jha".toList, .jha), ("lbry".toList, .lbry),
   ("luffa".toList, .luffa), ("lyra2".toList, .lyra2), ("lyra2v2".toList, .lyra2v2),
   ("lyra2z".toList, .lyra2z), ("mjollnir".toList, .mjollnir), ("myr-gr".toList, .myrGr),
   ("neoscrypt".toList, .neoscrypt), ("nist5".toList, .nist5), ("penta".toList, .pentablake),
   ("phi".toList, .phi), ("phi2".toList, .phi2), ("polytimos".toList, .polytimos),
   ("quark".toList, .quark), ("qubit".toList, .qubit), ("scrypt".toList, .scrypt),
   ("scrypt-jane".toList, .scryptJane), ("sha256d".toList, .sha256d), ("sha256t".toList, .sha256t),
   ("sia".toList, .sia), ("sib".toList, .sib), ("skein".toList, .skein), ("skein2".toList, .skein2),
   ("skunk".toList, .skunk), ("sonoa".toList, .sonoa), ("s3".toList, .s3),
   ("timetravel".toList, .timetravel), ("tribus".toList, .tribus), ("bitcore".toList, .bitcore),
   ("x11evo".toList, .x11evo), ("x11".toList, .x11), ("x12".toList, .x12), ("x13".toList, .x13),
   ("x14".toList, .x14), ("x15".toList, .x15), ("x16r".toList, .x16r), ("x16s".toList, .x16s),
   ("x17".toList, .x17), ("vanilla".toList, .vanilla), ("veltor".toList, .veltor),
   ("whirlcoin".toList, .whirlcoin), ("whirlpool".toList, .whirlpool),
   ("whirlpoolx".toList, .whirlpoolx), ("wildkeccak".toList, .wildkeccak), ("zr5".toList, .zr5),
   ("monero".toList, .monero), ("graft".toList, .graft), ("stellite".toList, .stellite),
   ("auto".toList, .auto), ("all".toList, .auto), ("cryptonight-light".toList, .cryptolight),
   ("cryptonight-lite".toList, .cryptolight), ("flax".toList, .c11), ("diamond".toList, .dmdGr),
   ("equi".toList, .equihash), ("doom".toList, .luffa), ("hmq17".toList, .hmq1725),
   ("hshare".toList, .hsr), ("lyra2re".toList, .lyra2), ("lyra2rev2".toList, .lyra2v2),
   ("phi1612".toList, .phi), ("bitcoin".toList, .sha256d), ("sha256".toList, .sha256d),
   ("thorsriddle".toList, .veltor), ("timetravel10".toList, .bitcore), ("whirl".toList, .whirlpool),
   ("ziftr".toList, .zr5)]

def algoToInt (arg : CString) : Option ShaAlgos :=
  (algoNames.find? fun a => strcasecmp arg a.1).map (·.2)

/-- The options a pool can set for itself; -1, for an algorithm `none`, is the
mark of one that is not set. -/
structure PoolOptions where
  algo : Option ShaAlgos
  scantime : Int
  maxDiff : Float
  maxRate : Float
  sharesLimit : Int
  timeLimit : Int

def PoolOptions.unset : PoolOptions := ⟨none, -1, -1.0, -1.0, -1, -1⟩

def PoolOptions.resolve (own opts : PoolOptions) : PoolOptions where
  algo := if own.algo = none then opts.algo else own.algo
  scantime := if own.scantime = -1 then opts.scantime else own.scantime
  maxDiff := if own.maxDiff == -1.0 then opts.maxDiff else own.maxDiff
  maxRate := if own.maxRate == -1.0 then opts.maxRate else own.maxRate
  sharesLimit := if own.sharesLimit = -1 then opts.sharesLimit else own.sharesLimit
  timeLimit := if own.timeLimit = -1 then opts.timeLimit else own.timeLimit

/-- The url and its parts that are in force, with `short_url` null at first. -/
structure Creds where
  url : CString
  shortUrl : Option CString
  user : CString
  pass : CString

structure PoolEntry where
  type : PoolType
  defined : Bool
  valid : Bool
  disabled : Bool
  removed : Bool
  name : CString
  url : CString
  shortUrl : CString
  user : CString
  pass : CString
  options : PoolOptions

def PoolEntry.zero : PoolEntry where
  type := .unused
  defined := false
  valid := false
  disabled := false
  removed := false
  name := []
  url := []
  shortUrl := []
  user := []
  pass := []
  options := ⟨some .blakecoin, 0, 0.0, 0.0, 0, 0⟩

def credType (url : CString) : PoolType := if strncasecmp url "stratum".toList 7 then .stratum else .getwork

/-- `pool_set_creds` on its pool. -/
def PoolEntry.setCreds (p : PoolEntry) (c : Creds) : PoolEntry :=
  let p := { p with
    url := c.url.take 511
    shortUrl := (c.shortUrl.getD "(null)".toList).take 63
    user := c.user.take 191
    pass := c.pass.take 383 }
  let p := if p.defined then p else { p with defined := true, options := .unset }
  if c.url = [] then p else { p with type := credType c.url, valid := true }

inductive PoolAttr where
  | name
  | algo
  | scantime
  | maxDiff
  | maxRate
  | sharesLimit
  | timeLimit
  | disabled

/-- The pools and what is in force; `switched` are the switches that returned
true, each with the options that were active behind it. -/
structure Pools where
  pools : Int → PoolEntry
  numPools : Int
  curPooln : Int
  creds : Creds
  options : PoolOptions
  benchmark : Bool
  switched : List (Int × PoolOptions)

def Pools.table (s : Pools) : PoolTable where
  curPooln := s.curPooln
  numPools := s.numPools
  pools := fun i =>
    { type := (s.pools i).type, valid := (s.pools i).valid, disabled := (s.pools i).disabled,
      removed := (s.pools i).removed }
  used := []
  ended := false

section Options

variable (atof : CString → Float)

/-- `pool_set_attr` on its pool. -/
def PoolEntry.setAttr (p : PoolEntry) (attr : PoolAttr) (arg : CString) : PoolEntry :=
  match attr with
  | .name => { p with name := arg.take 63 }
  | .algo => { p with options := { p.options with algo := algoToInt arg } }
  | .scantime => { p with options := { p.options with scantime := atoi arg } }
  | .maxDiff => { p with options := { p.options with maxDiff := atof arg } }
  | .maxRate => { p with options := { p.options with maxRate := atof arg } }
  | .sharesLimit => { p with options := { p.options with sharesLimit := atoi arg } }
  | .timeLimit => { p with options := { p.options with timeLimit := atoi arg } }
  | .disabled => if atoi arg = 0 then p else { p with removed := true }

def Pools.poolSetCreds (s : Pools) (pooln : Int) : Pools :=
  { s with pools := Function.update s.pools pooln ((s.pools pooln).setCreds s.creds) }

def Pools.poolSetAttr (s : Pools) (pooln : Int) (attr : PoolAttr) (arg : CString) : Pools :=
  { s with pools := Function.update s.pools pooln ((s.pools pooln).setAttr atof attr arg) }

/-- The url without the user and the password in front of its host, which
become those in force. -/
def Creds.setUrl (c : Creds) (arg : CString) : Creds :=
  let (url, host) := match strstr arg urlMark with
    | some p => (arg, p + 3)
    | none => ("http://".toList ++ arg, 7)
  match strrchr url '@' with
  | none => { c with url := url, shortUrl := some (url.drop host) }
  | some p =>
    let ap := ((strstr (url.take p) urlMark).getD 0) + 3
    let login := (url.take p).drop ap
    let c := match strchr login ':' with
      | some sp => { c with user := login.take sp, pass := login.drop (sp + 1) }
      | none => { c with user := login }
    { c with url := url.take ap ++ url.drop (p + 1), shortUrl := some (url.drop (p + 1)) }

/-- The option `-o`: the next place is taken, unless the current one is free. -/
def Pools.parseUrl (s : Pools) (arg : CString) : Option Pools :=
  let s :=
    if (s.pools s.curPooln).type = .unused then s
    else
      let cur := (s.curPooln + 1).tmod maxPools
      { s with curPooln := cur, numPools := max (cur + 1) s.numPools }
  if urlAccepted arg then some ({ s with creds := s.creds.setUrl arg }.poolSetCreds s.curPooln) else none

inductive OptKey where
  | algo
  | scantime
  | maxDiff
  | maxRate
  | sharesLimit
  | timeLimit
  | url
  | user
  | pass
  | userpass
  | proxy
  | benchmark
  | pool (attr : PoolAttr)

def cryptonightVariant : ShaAlgos → ShaAlgos
  | .monero | .graft | .stellite => .cryptonight
  | a => a

def rateArg (arg : CString) : Float :=
  let d := atof arg
  let d := if arg.contains 'K' then d * 1e3 else d
  let d := if arg.contains 'M' then d * 1e6 else d
  if arg.contains 'G' then d * 1e9 else d

/-- `none` is for a program that shows its usage and leaves. -/
def Pools.parseArg (s : Pools) (key : OptKey) (arg : CString) : Option Pools :=
  match key with
  | .algo => (algoToInt (arg.takeWhile (· != ':'))).map fun a =>
      { s with options := { s.options with algo := some (cryptonightVariant a) } }
  | .scantime =>
    let v := atoi arg
    if v < 1 ∨ 9999 < v then none else some { s with options := { s.options with scantime := v } }
  | .maxDiff => some { s with options := { s.options with maxDiff := atof arg } }
  | .maxRate => some { s with options := { s.options with maxRate := rateArg atof arg } }
  | .sharesLimit => some { s with options := { s.options with sharesLimit := atoi arg } }
  | .timeLimit => some { s with options := { s.options with timeLimit := atoi arg } }
  | .url => s.parseUrl arg
  | .user => some ({ s with creds := { s.creds with user := arg } }.poolSetCreds s.curPooln)
  | .pass => some ({ s with creds := { s.creds with pass := arg } }.poolSetCreds s.curPooln)
  | .userpass => (strchr arg ':').map fun p =>
      { s with creds := { s.creds with user := arg.take p, pass := arg.drop (p + 1) } }.poolSetCreds s.curPooln
  | .proxy => some (s.poolSetCreds s.curPooln)
  | .benchmark => some { s with benchmark := true }
  | .pool attr => some (s.poolSetAttr atof s.curPooln attr arg)

end Options

section Switches

def Pools.poolInitDefaults (s : Pools) : Pools :=
  { s with pools := fun i =>
      if 0 ≤ i ∧ i < s.numPools then { s.pools i with options := (s.pools i).options.resolve s.options }
      else s.pools i }

def Pools.poolSwitch (s : Pools) (pooln : Int) : Pools :=
  if pooln < s.numPools then
    let p := s.pools pooln
    { s with
      curPooln := pooln
      creds := ⟨p.url, some p.shortUrl, p.user, p.pass⟩
      options := p.options
      switched := s.switched ++ [(pooln, p.options)] }
  else s

def Pools.poolSwitchNext (s : Pools) : Pools :=
  if 1 < s.numPools then s.poolSwitch (poolGetFirstValid s.table (s.curPooln + 1)).1 else s

def Pools.poolSwitchUrl (s : Pools) (params : CString) : Option Pools :=
  (s.parseUrl params).map fun s' =>
    let nextn := s'.curPooln
    let s' := { s' with curPooln := s.curPooln }
    if nextn = s.curPooln then s' else s'.poolSwitch nextn

def Pools.remoteSwitchpool (s : Pools) (params : Option CString) : Pools :=
  match params with
  | none | some [] => s.poolSwitchNext
  | some params =>
    let n := atoi params
    if n = s.curPooln then s else if n < s.numPools then s.poolSwitch n else s

def Pools.remoteSeturl (s : Pools) (params : Option CString) : Option Pools :=
  match params with
  | none | some [] => some s.poolSwitchNext
  | some params => s.poolSwitchUrl params

def poolsStep (s : Pools) : PoolEvent → Option Pools
  | .pool _ | .wannaMine _ _ => some s
  | .switchpool params => some (s.remoteSwitchpool params)
  | .seturl params => s.remoteSeturl params
  | .failover | .conditionSwitch => some s.poolSwitchNext

/-- The globals before the options are read; what lies beyond the table is not
known. -/
def initialPools (beyond : Int → PoolEntry) : Pools where
  pools := fun i => if 0 ≤ i ∧ i < maxPools then .zero else beyond i
  numPools := 1
  curPooln := 0
  creds := ⟨[], none, [], []⟩
  options := ⟨some .auto, 10, -1.0, -1.0, -1, -1⟩
  benchmark := false
  switched := []

def readOption (atof : CString → Float) (s : Pools) (o : OptKey × CString) : Option Pools :=
  s.parseArg atof o.1 o.2

/-- Without a url there is a pool for a benchmark only. -/
def Pools.ensurePool (s : Pools) : Option Pools :=
  if s.creds.url ≠ [] then some s else if s.benchmark then some (s.poolSetCreds 0) else none

def Configures (atof : CString → Float) (beyond : Int → PoolEntry) (os : List (OptKey × CString)) (s : Pools) :
    Prop :=
  (run (readOption atof) (initialPools beyond) os).bind Pools.ensurePool = some s

def Pools.start (s : Pools) : Pools :=
  let s := s.poolInitDefaults
  let first := (poolGetFirstValid s.table 0).1
  { s with curPooln := first }.poolSwitch first

end Switches

section Entries

@[simp] theorem setCreds_defined (p : PoolEntry) (c : Creds) : (p.setCreds c).defined = true := by
  by_cases hdefined : p.defined = true
  · simp only [PoolEntry.setCreds, if_pos hdefined]
    split_ifs
    all_goals exact hdefined
  · simp only [PoolEntry.setCreds, if_neg hdefined]
    split_ifs <;> rfl

theorem setCreds_options {p : PoolEntry} (h : p.defined = true) (c : Creds) :
    (p.setCreds c).options = p.options := by
  simp only [PoolEntry.setCreds, h, if_true]
  split_ifs <;> rfl

theorem credType_ne_unused (url : CString) : credType url ≠ .unused := by
  unfold credType
  split_ifs <;> nofun

theorem setCreds_type {c : Creds} (h : c.url ≠ []) (p : PoolEntry) : (p.setCreds c).type = credType c.url := by
  simp only [PoolEntry.setCreds, if_neg h]

@[simp] theorem setAttr_defined (atof : CString → Float) (p : PoolEntry) (attr : PoolAttr) (arg : CString) :
    (p.setAttr atof attr arg).defined = p.defined := by
  cases attr <;> simp only [PoolEntry.setAttr]
  split_ifs <;> rfl

@[simp] theorem setAttr_type (atof : CString → Float) (p : PoolEntry) (attr : PoolAttr) (arg : CString) :
    (p.setAttr atof attr arg).type = p.type := by
  cases attr <;> simp only [PoolEntry.setAttr]
  split_ifs <;> rfl

theorem pools_poolSetCreds (s : Pools) (pooln i : Int) : (s.poolSetCreds pooln).pools i =
    if i = pooln then (s.pools pooln).setCreds s.creds else s.pools i :=
  Function.update_apply ..

def Pools.urlPlace (s : Pools) : Int :=
  if (s.pools s.curPooln).type = .unused then s.curPooln else (s.curPooln + 1).tmod maxPools

/-- What the option `-o` changes: its place has the credentials in force, and
nothing else of the table is another. -/
theorem parseUrl_cases {s s' : Pools} {arg : CString} (h : s.parseUrl arg = some s') :
    urlAccepted arg = true ∧ s' = { s with
      pools := Function.update s.pools s.urlPlace ((s.pools s.urlPlace).setCreds (s.creds.setUrl arg))
      numPools := if (s.pools s.curPooln).type = .unused then s.numPools else max (s.urlPlace + 1) s.numPools
      curPooln := s.urlPlace
      creds := s.creds.setUrl arg } := by
  simp only [Pools.parseUrl] at h
  split at h
  · rename_i haccepted
    refine ⟨haccepted, ?_⟩
    rw [← Option.some.inj h, Pools.poolSetCreds, Pools.urlPlace]
    split_ifs <;> rfl
  · cases h

theorem setUrl_url_ne_nil {arg : CString} (h : urlAccepted arg = true) (c : Creds) : (c.setUrl arg).url ≠ [] := by
  have hsplit : (match strstr arg urlMark with
      | some p => (arg, p + 3)
      | none => ("http://".toList ++ arg, 7)).1 ≠ [] := by
    split
    · rintro rfl
      cases h
    · exact List.cons_ne_nil _ _
  simp only [Creds.setUrl]
  split
  · exact hsplit
  · -- what stands in front of the user is not empty
    intro hnil
    have htake := (List.append_eq_nil_iff.mp hnil).1
    rw [List.take_eq_nil_iff] at htake
    exact htake.elim (Nat.succ_ne_zero _) hsplit

end Entries

end VerusMiner
