import VerusMiner.Job
import VerusMiner.Lib.Rotation
import VerusMiner.PoolSettings

/-! The pools of a configuration file: what the table holds after an array of
objects was read through the options of the command line. -/

namespace VerusMiner

abbrev JsonObject := List (CString × Json)

def jsonObjectGet (o : JsonObject) (key : CString) : Option Json := o.reverse.lookup key

/-- The argument an option gets: a string as it is, a number as `%f` prints it
into its buffer. -/
def cfgArg : Json → CString
  | .string s => s
  | .bool true => (toString (1.0 : Float)).toList.take 30
  | .integer n => (toString (1.0 * Float.ofInt n)).toList.take 30
  | .real x => (toString x).toList.take 30
  | _ => (toString (0.0 : Float)).toList.take 30

def cfgArrayKeys : List (CString × OptKey) :=
  [("url".toList, .url), ("user".toList, .user), ("pass".toList, .pass), ("userpass".toList, .userpass),
   ("name".toList, .pool .name), ("algo".toList, .pool .algo), ("scantime".toList, .pool .scantime),
   ("max-diff".toList, .pool .maxDiff), ("max-rate".toList, .pool .maxRate),
   ("disabled".toList, .pool .disabled), ("time-limit".toList, .pool .timeLimit)]

section Parse

variable (atof : CString → Float)

def parsePoolKey (o : JsonObject) (s : Pools) (key : CString × OptKey) : Option Pools :=
  match jsonObjectGet o key.1 with
  | none => some s
  | some val => s.parseArg atof key.2 (cfgArg val)

def parsePoolElement (s : Pools) : Json → Option Pools
  | .object o => cfgArrayKeys.foldlM (parsePoolKey atof o) s
  | _ => some s

def parsePoolArray (s : Pools) : Json → Option (Bool × Pools)
  | .array elements => (elements.foldlM (parsePoolElement atof) s).map fun s => (true, s)
  | _ => some (false, s)

def given (o : JsonObject) (key : String) : Option CString := (jsonObjectGet o key.toList).map cfgArg

def givenLogin (o : JsonObject) : Option (CString × CString) :=
  (given o "userpass").bind fun arg => (strchr arg ':').map fun p => (arg.take p, arg.drop (p + 1))

def withLogin (c : Creds) (o : JsonObject) : Creds :=
  let c := { c with user := (given o "user").getD c.user, pass := (given o "pass").getD c.pass }
  (givenLogin o).elim c fun l => { c with user := l.1, pass := l.2 }

/-- The credentials in force behind an object: its own, or else those before. -/
def credsAfter (c : Creds) (o : JsonObject) : Creds := withLogin ((given o "url").elim c c.setUrl) o

/-- What an object leaves at its place: the credentials in force, and of the
other values those it gives. -/
def PoolEntry.ofObject (old : PoolEntry) (c : Creds) (o : JsonObject) : PoolEntry :=
  let own := if old.defined then old.options else .unset
  { type := credType c.url
    defined := true
    valid := true
    disabled := old.disabled
    removed := (given o "disabled").any (atoi · != 0) || old.removed
    name := ((given o "name").map (·.take 63)).getD old.name
    url := c.url.take 511
    shortUrl := (c.shortUrl.getD "(null)".toList).take 63
    user := c.user.take 191
    pass := c.pass.take 383
    options :=
      { algo := ((given o "algo").map algoToInt).getD own.algo
        scantime := ((given o "scantime").map atoi).getD own.scantime
        maxDiff := ((given o "max-diff").map atof).getD own.maxDiff
        maxRate := ((given o "max-rate").map atof).getD own.maxRate
        sharesLimit := own.sharesLimit
        timeLimit := ((given o "time-limit").map atoi).getD own.timeLimit } }

def withCreds : Creds → List JsonObject → List (Creds × JsonObject)
  | _, [] => []
  | c, o :: objs => (credsAfter c o, o) :: withCreds (credsAfter c o) objs

end Parse

section Keys

variable {atof : CString → Float} {s : Pools} {p : PoolEntry} {c : Creds} {o : JsonObject}

def Pools.withCur (s : Pools) (p : PoolEntry) (c : Creds) : Pools :=
  { s with pools := Function.update s.pools s.curPooln p, creds := c }

def Pools.inForce (s : Pools) (p : PoolEntry) (c : Creds) : Pools := s.withCur (p.setCreds c) c

theorem setCreds_setCreds {c' : Creds} (hurl : c.url ≠ []) (hsame : c'.url = c.url) :
    (p.setCreds c).setCreds c' = p.setCreds c' := by
  have hurl' : c'.url ≠ [] := hsame ▸ hurl
  cases hdefined : p.defined <;> simp [PoolEntry.setCreds, hdefined, hurl, hurl']

theorem inForce_setCreds {c' : Creds} (hurl : c.url ≠ []) (hsame : c'.url = c.url) :
    Pools.poolSetCreds { s.inForce p c with creds := c' } s.curPooln = s.inForce p c' := by
  rw [Pools.inForce, Pools.inForce, ← setCreds_setCreds hurl hsame]
  simp [Pools.poolSetCreds, Pools.withCur]

theorem parsePoolKey_user (hurl : c.url ≠ []) : parsePoolKey atof o (s.inForce p c) ("user".toList, .user) =
    some (s.inForce p { c with user := (given o "user").getD c.user }) := by
  unfold parsePoolKey given
  cases jsonObjectGet o "user".toList with
  | none => rfl
  | some val => exact congrArg some (inForce_setCreds hurl rfl)

theorem parsePoolKey_pass (hurl : c.url ≠ []) : parsePoolKey atof o (s.inForce p c) ("pass".toList, .pass) =
    some (s.inForce p { c with pass := (given o "pass").getD c.pass }) := by
  unfold parsePoolKey given
  cases jsonObjectGet o "pass".toList with
  | none => rfl
  | some val => exact congrArg some (inForce_setCreds hurl rfl)

theorem parsePoolKey_userpass (hurl : c.url ≠ []) (hcolon : ∀ arg, given o "userpass" = some arg → ':' ∈ arg) :
    parsePoolKey atof o (s.inForce p c) ("userpass".toList, .userpass) =
      some (s.inForce p ((givenLogin o).elim c fun l => { c with user := l.1, pass := l.2 })) := by
  rw [givenLogin]
  unfold parsePoolKey given at *
  cases hget : jsonObjectGet o "userpass".toList with
  | none => rfl
  | some val =>
    have hmem : ':' ∈ cfgArg val := hcolon _ (by rw [hget]; rfl)
    cases hfound : strchr (cfgArg val) ':' with
    | none => exact absurd hmem (strchr_eq_none_iff.mp hfound)
    | some i =>
      simp only [Pools.parseArg, Option.map_some, Option.bind_some, hfound, Option.elim_some]
      exact congrArg some (inForce_setCreds hurl rfl)

theorem parsePoolKey_attr (key : String) (attr : PoolAttr) :
    parsePoolKey atof o (s.withCur p c) (key.toList, .pool attr) =
      some (s.withCur ((given o key).elim p (p.setAttr atof attr)) c) := by
  unfold parsePoolKey given
  cases jsonObjectGet o key.toList with
  | none => rfl
  | some val => exact congrArg some (by simp [Pools.poolSetAttr, Pools.withCur])

def Pools.moved (s : Pools) : Pools :=
  { s with
    numPools := if (s.pools s.curPooln).type = .unused then s.numPools else max (s.urlPlace + 1) s.numPools
    curPooln := s.urlPlace }

theorem parseUrl_eq {arg : CString} (h : urlAccepted arg = true) :
    s.parseUrl arg = some (s.moved.inForce (s.pools s.urlPlace) (s.creds.setUrl arg)) := by
  obtain ⟨s', hs'⟩ : ∃ s', s.parseUrl arg = some s' := ⟨_, if_pos h⟩
  rw [hs', (parseUrl_cases hs').2]
  rfl

theorem setCreds_eq (hurl : c.url ≠ []) (p : PoolEntry) : p.setCreds c = { p with
    url := c.url.take 511
    shortUrl := (c.shortUrl.getD "(null)".toList).take 63
    user := c.user.take 191
    pass := c.pass.take 383
    defined := true
    options := if p.defined then p.options else .unset
    type := credType c.url
    valid := true } := by
  cases hdefined : p.defined <;> simp [PoolEntry.setCreds, hdefined, hurl]

def PoolEntry.withAttr (atof : CString → Float) (p : PoolEntry) (attr : PoolAttr) (t : Option CString) :
    PoolEntry :=
  match attr with
  | .name => { p with name := (t.map (·.take 63)).getD p.name }
  | .algo => { p with options := { p.options with algo := (t.map algoToInt).getD p.options.algo } }
  | .scantime => { p with options := { p.options with scantime := (t.map atoi).getD p.options.scantime } }
  | .maxDiff => { p with options := { p.options with maxDiff := (t.map atof).getD p.options.maxDiff } }
  | .maxRate => { p with options := { p.options with maxRate := (t.map atof).getD p.options.maxRate } }
  | .sharesLimit => { p with options := { p.options with sharesLimit := (t.map atoi).getD p.options.sharesLimit } }
  | .timeLimit => { p with options := { p.options with timeLimit := (t.map atoi).getD p.options.timeLimit } }
  | .disabled => { p with removed := t.any (atoi · != 0) || p.removed }

theorem setAttr_elim (attr : PoolAttr) (t : Option CString) :
    t.elim p (p.setAttr atof attr) = p.withAttr atof attr t := by
  cases t with
  | none => cases attr <;> rfl
  | some arg =>
    cases attr with
    | disabled => by_cases hzero : atoi arg = 0 <;> simp [PoolEntry.setAttr, PoolEntry.withAttr, hzero]
    | _ => rfl

def credKeys : List (CString × OptKey) :=
  [("user".toList, .user), ("pass".toList, .pass), ("userpass".toList, .userpass)]

theorem parse_credKeys (hurl : c.url ≠ []) (hcolon : ∀ arg, given o "userpass" = some arg → ':' ∈ arg) :
    credKeys.foldlM (parsePoolKey atof o) (s.inForce p c) = some (s.inForce p (withLogin c o)) := by
  let cUser := { c with user := (given o "user").getD c.user }
  let cPass := { cUser with pass := (given o "pass").getD c.pass }
  have hpass : parsePoolKey atof o (s.inForce p cUser) ("pass".toList, .pass) = some (s.inForce p cPass) :=
    parsePoolKey_pass (c := cUser) hurl
  have huserpass : parsePoolKey atof o (s.inForce p cPass) ("userpass".toList, .userpass) =
      some (s.inForce p (withLogin c o)) := parsePoolKey_userpass (c := cPass) hurl hcolon
  simp only [credKeys, List.foldlM_cons, List.foldlM_nil, Option.bind_eq_bind]
  rw [parsePoolKey_user hurl, Option.bind_some, hpass, Option.bind_some, huserpass]
  rfl

def attrKeys : List (CString × OptKey) :=
  [("name".toList, .pool .name), ("algo".toList, .pool .algo), ("scantime".toList, .pool .scantime),
   ("max-diff".toList, .pool .maxDiff), ("max-rate".toList, .pool .maxRate),
   ("disabled".toList, .pool .disabled), ("time-limit".toList, .pool .timeLimit)]

theorem parse_attrKeys (hurl : c.url ≠ []) : attrKeys.foldlM (parsePoolKey atof o) (s.inForce p c) =
    some (s.withCur (p.ofObject atof c o) c) := by
  simp only [attrKeys, List.foldlM_cons, List.foldlM_nil, Option.bind_eq_bind, Pools.inForce]
  simp only [parsePoolKey_attr, Option.bind_some, setAttr_elim, PoolEntry.withAttr, setCreds_eq hurl]
  rfl

theorem parsePoolElement_object {u : CString} (hurl : given o "url" = some u) (haccepted : urlAccepted u = true)
    (hcolon : ∀ arg, given o "userpass" = some arg → ':' ∈ arg) :
    parsePoolElement atof s (.object o) = some (s.moved.withCur
      ((s.pools s.urlPlace).ofObject atof (credsAfter s.creds o) o) (credsAfter s.creds o)) := by
  have hne := setUrl_url_ne_nil haccepted s.creds
  have hfirst : parsePoolKey atof o s ("url".toList, .url) =
      some (s.moved.inForce (s.pools s.urlPlace) (s.creds.setUrl u)) := by
    obtain ⟨val, hval, rfl⟩ := Option.map_eq_some_iff.mp hurl
    simp only [parsePoolKey, hval]
    exact parseUrl_eq haccepted
  have hcreds : credsAfter s.creds o = withLogin (s.creds.setUrl u) o := by rw [credsAfter, hurl]; rfl
  have hbehind : (credsAfter s.creds o).url ≠ [] := by
    rw [hcreds, withLogin]
    cases givenLogin o <;> exact hne
  have hkeys : cfgArrayKeys = ("url".toList, .url) :: (credKeys ++ attrKeys) := rfl
  rw [parsePoolElement, hkeys, List.foldlM_cons, hfirst, Option.bind_eq_bind, Option.bind_some, List.foldlM_append,
    parse_credKeys hne hcolon, Option.bind_eq_bind, Option.bind_some, ← hcreds, parse_attrKeys hbehind]

end Keys

section Array

variable {atof : CString → Float} {s : Pools}

/-- The table when `n` objects have been read: their places are taken in turn. -/
structure ObjectsRead (s : Pools) (n : Nat) : Prop where
  cur : s.curPooln = ((n - 1) % 8 : Nat)
  num : s.numPools = (min (max n 1) 8 : Nat)
  free : ∀ i : Nat, i < 8 → ((s.pools i).type = .unused ↔ n ≤ i)

theorem ObjectsRead.urlPlace {n : Nat} (h : ObjectsRead s n) : s.urlPlace = (n % 8 : Nat) := by
  have hcur := h.cur
  have hfree := h.free ((n - 1) % 8) (Nat.mod_lt _ (by decide))
  rw [Pools.urlPlace, hcur]
  split_ifs with hunused
  · have hle := hfree.mp hunused
    omega
  · have hle : ¬n ≤ (n - 1) % 8 := fun hle => hunused (hfree.mpr hle)
    rw [Int.tmod_eq_emod_of_nonneg (by omega), maxPools]
    omega

theorem ObjectsRead.moved {n : Nat} (h : ObjectsRead s n) {p : PoolEntry} (hp : p.type ≠ .unused) (c : Creds) :
    ObjectsRead (s.moved.withCur p c) (n + 1) := by
  have hplace := h.urlPlace
  have hnum := h.num
  refine ⟨hplace, ?_, fun i hi => ?_⟩
  · have hfree := h.free ((n - 1) % 8) (Nat.mod_lt _ (by decide))
    rw [← h.cur] at hfree
    simp only [Pools.moved, Pools.withCur, hplace]
    split_ifs with hunused
    · have hle := hfree.mp hunused
      omega
    · have hle : ¬n ≤ (n - 1) % 8 := fun hle => hunused (hfree.mpr hle)
      rw [hnum]
      omega
  · have hmoved : (s.moved.withCur p c).pools i = if (i : Int) = (n % 8 : Nat) then p else s.pools i := by
      simp only [Pools.withCur, Pools.moved, hplace, Function.update_apply]
    rw [hmoved]
    split_ifs with hi'
    · exact iff_of_false hp (by omega)
    · rw [h.free i hi]
      omega

/-- A url that is accepted, and a colon in a `userpass` if there is one. -/
structure Readable (o : JsonObject) : Prop where
  url : ∃ u, given o "url" = some u ∧ urlAccepted u = true
  userpass : ∀ arg, given o "userpass" = some arg → ':' ∈ arg

/-- The place of an object, and what it makes of the pool there. -/
def objectPlace (e : (Creds × JsonObject) × Nat) : Int := (e.2 % 8 : Nat)

def fillPlace (atof : CString → Float) (p : PoolEntry) (e : (Creds × JsonObject) × Nat) : PoolEntry :=
  p.ofObject atof e.1.1 e.1.2

variable (atof) in
theorem parse_objects {objs : List JsonObject} (hobjs : ∀ o ∈ objs, Readable o) {n : Nat} (h : ObjectsRead s n) :
    ∃ s', (objs.map Json.object).foldlM (parsePoolElement atof) s = some s' ∧ ObjectsRead s' (n + objs.length) ∧
      s'.pools = fillAll objectPlace (fillPlace atof) s.pools ((withCreds s.creds objs).zipIdx n) := by
  induction objs generalizing s n with
  | nil => exact ⟨s, rfl, h, rfl⟩
  | cons o objs ih =>
    obtain ⟨⟨u, hurl, haccepted⟩, hcolon⟩ := hobjs o List.mem_cons_self
    have helement : parsePoolElement atof s (.object o) = _ := parsePoolElement_object hurl haccepted hcolon
    have hnext := h.moved (p := (s.pools s.urlPlace).ofObject atof (credsAfter s.creds o) o)
      (credType_ne_unused _) (credsAfter s.creds o)
    obtain ⟨s', hrest, hread, hpools⟩ := ih (fun o' ho' => hobjs o' (List.mem_cons_of_mem _ ho')) hnext
    refine ⟨s', ?_, ?_, ?_⟩
    · rw [List.map_cons, List.foldlM_cons, helement]
      exact hrest
    · rw [List.length_cons, Nat.add_comm objs.length, ← Nat.add_assoc]
      exact hread
    · rw [hpools, withCreds, List.zipIdx_cons, fillAll]
      simp only [Pools.withCur, Pools.moved, h.urlPlace, objectPlace, fillPlace]

structure EmptyTable (s : Pools) : Prop where
  cur : s.curPooln = 0
  num : s.numPools = 1
  zero : ∀ i, 0 ≤ i → i < maxPools → s.pools i = .zero

theorem EmptyTable.objectsRead (h : EmptyTable s) : ObjectsRead s 0 where
  cur := h.cur
  num := h.num
  free := fun i hi => iff_of_true (by rw [h.zero i (by omega) (by rw [maxPools]; omega)]; rfl) (Nat.zero_le i)

theorem withCreds_getElem? (c : Creds) {objs : List JsonObject} {i : Nat} {o : JsonObject} (h : objs[i]? = some o) :
    (withCreds c objs)[i]? = some ((objs.take (i + 1)).foldl credsAfter c, o) := by
  induction objs generalizing c i with
  | nil => cases h
  | cons x objs ih =>
    cases i with
    | zero => exact congrArg (fun o => some (credsAfter c x, o)) (Option.some.inj h)
    | succ i => exact ih (credsAfter c x) h

theorem length_withCreds (c : Creds) (objs : List JsonObject) : (withCreds c objs).length = objs.length := by
  induction objs generalizing c with
  | nil => rfl
  | cons o objs ih => exact congrArg Nat.succ (ih _)

end Array

/-- Objects that can be read take the places in turn: a pool holds what the
objects of its place made of it, and up to eight objects have a pool each. -/
theorem parsePoolArray_pools (atof : CString → Float) {s : Pools} (hempty : EmptyTable s)
    {objs : List JsonObject} (hobjs : ∀ o ∈ objs, Readable o) :
    ∃ s', parsePoolArray atof s (.array (objs.map .object)) = some (true, s') ∧
      s'.numPools = (min (max objs.length 1) 8 : Nat) ∧
      (∀ i : Nat, i < 8 → s'.pools i =
        (turns 8 i (withCreds s.creds objs)).foldl (fun p e => p.ofObject atof e.1 e.2) .zero) ∧
      (objs.length ≤ 8 → ∀ (i : Nat) (o : JsonObject), objs[i]? = some o →
        s'.pools i = PoolEntry.zero.ofObject atof ((objs.take (i + 1)).foldl credsAfter s.creds) o) := by
  obtain ⟨s', hparse, hread, hpools⟩ := parse_objects atof hobjs hempty.objectsRead
  have hplaces : ∀ i : Nat, i < 8 → s'.pools i =
      (turns 8 i (withCreds s.creds objs)).foldl (fun p e => p.ofObject atof e.1 e.2) .zero := by
    intro i hi
    have hfilter : ((withCreds s.creds objs).zipIdx.filter fun e => objectPlace e = (i : Int)) =
        (withCreds s.creds objs).zipIdx.filter fun e => e.2 % 8 = i :=
      List.filter_congr fun e _ => decide_eq_decide.mpr Nat.cast_inj
    rw [hpools, fillAll_apply, hempty.zero i (by omega) (by rw [maxPools]; omega), hfilter, turns, List.foldl_map]
    rfl
  refine ⟨s', by rw [parsePoolArray, hparse]; rfl, ?_, hplaces, fun hle i o hi => ?_⟩
  · rw [hread.num, Nat.zero_add]
  · have hlt : i < objs.length := (List.getElem?_eq_some_iff.mp hi).1
    have hturn := turns_of_le ((length_withCreds s.creds objs).trans_le hle) (withCreds_getElem? s.creds hi)
    rw [hplaces i (by omega), hturn]
    rfl

section Examples

theorem emptyTable_initialPools (beyond : Int → PoolEntry) : EmptyTable (initialPools beyond) where
  cur := rfl
  num := rfl
  zero := fun _ hpos hlt => if_pos ⟨hpos, hlt⟩

def twoObjects : List JsonObject :=
  [[("url".toList, .string "stratum+tcp://a".toList), ("userpass".toList, .string "u:x".toList)],
    [("url".toList, .string "b".toList), ("scantime".toList, .string "30".toList)]]

theorem parsePoolArray_two : ∃ s', parsePoolArray (fun _ => 0.0) (initialPools fun _ => .zero)
      (.array (twoObjects.map .object)) = some (true, s') ∧ s'.numPools = 2 ∧
    (s'.pools 0).url = "stratum+tcp://a".toList ∧ (s'.pools 1).url = "http://b".toList ∧
    (s'.pools 1).user = "u".toList ∧ (s'.pools 1).options.scantime = 30 := by
  have hreadable : ∀ o ∈ twoObjects, Readable o := by
    simp only [twoObjects, List.forall_mem_cons]
    refine ⟨⟨⟨_, rfl, rfl⟩, fun arg harg => ?_⟩, ⟨⟨_, rfl, rfl⟩, fun arg harg => nomatch harg⟩, fun _ h => nomatch h⟩
    obtain rfl : "u:x".toList = arg := Option.some.inj harg
    decide
  obtain ⟨s', hparse, hnum, _, hpools⟩ :=
    parsePoolArray_pools (fun _ => 0.0) (emptyTable_initialPools fun _ => .zero) hreadable
  have hfirst := hpools (by decide) 0 _ rfl
  have hsecond := hpools (by decide) 1 _ rfl
  refine ⟨s', hparse, hnum, ?_, ?_, ?_, ?_⟩
  · exact (congrArg PoolEntry.url hfirst).trans rfl
  · exact (congrArg PoolEntry.url hsecond).trans rfl
  · exact (congrArg PoolEntry.user hsecond).trans rfl
  · exact (congrArg (·.options.scantime) hsecond).trans rfl

/-- As many pools as objects, up to the table, each with the url of its own object. -/
structure PoolsInOrder (s : Pools) (objs : List JsonObject) : Prop where
  numPools : s.numPools = (min objs.length 8 : Nat)
  url : ∀ (i : Nat) (o : JsonObject) (u : CString), i < 8 → objs[i]? = some o → given o "url" = some u →
    (s.pools i).url = (s.creds.setUrl u).url.take 511

def nineObjects : List JsonObject :=
  ['0', '1', '2', '3', '4', '5', '6', '7', '8'].map fun d => [("url".toList, .string [d])]

/-- The ninth object takes the place of the first, and without any object there
is a pool already. -/
theorem ninth_object_overwrites :
    (∃ s, parsePoolArray (fun _ => 0.0) (initialPools fun _ => .zero) (.array (nineObjects.map .object)) =
      some (true, s) ∧ ¬PoolsInOrder s nineObjects) ∧
    ∃ s, parsePoolArray (fun _ => 0.0) (initialPools fun _ => .zero) (.array []) = some (true, s) ∧
      ¬PoolsInOrder s [] := by
  refine ⟨⟨_, rfl, fun h => ?_⟩, _, rfl, fun h => absurd h.numPools (by decide)⟩
  have hurl := h.url 0 _ _ (by decide) rfl rfl
  exact absurd hurl (by decide)

end Examples

end VerusMiner
