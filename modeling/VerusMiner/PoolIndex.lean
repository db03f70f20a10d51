import VerusMiner.ApiRequest
import VerusMiner.Lib.Runs

/-! The index of the current pool: the requests, failovers and condition
switches that move it, and the places of the pools table they use. -/

namespace VerusMiner

inductive PoolType where
  | unused
  | getwork
  | stratum
  deriving DecidableEq

structure PoolSlot where
  type : PoolType
  valid : Bool
  disabled : Bool
  removed : Bool

/-- The table with the indices used so far, each with the number of pools there
were at the time; `ended` is for a program that has shown its usage and left. -/
structure PoolTable where
  curPooln : Int
  numPools : Int
  pools : Int → PoolSlot
  used : List (Int × Int)
  ended : Bool

def maxPools : Int := 8

def PoolTable.use (s : PoolTable) (is : List Int) : PoolTable :=
  { s with used := s.used ++ is.map fun i => (i, s.numPools) }

/-- The turns of the search from `i` on, and the indices it looks at. -/
def firstValidLoop (s : PoolTable) (startfrom : Int) : Nat → Int → Int × List Int
  | 0, _ => (0, [])
  | n + 1, i =>
    let pooln := (startfrom + i).tmod s.numPools
    let p := s.pools pooln
    if p.valid && !p.disabled && !p.removed then (pooln, [pooln])
    else
      let rest := firstValidLoop s startfrom n (i + 1)
      (rest.1, pooln :: rest.2)

def poolGetFirstValid (s : PoolTable) (startfrom : Int) : Int × List Int :=
  firstValidLoop s startfrom s.numPools.toNat 0

def poolSwitch (s : PoolTable) (pooln : Int) : PoolTable :=
  let s := s.use [s.curPooln]
  if pooln < s.numPools then { s with curPooln := pooln }.use [pooln] else s

def poolSwitchNext (s : PoolTable) : PoolTable :=
  if 1 < s.numPools then
    let (pooln, looked) := poolGetFirstValid s (s.curPooln + 1)
    poolSwitch (s.use looked) pooln
  else s

def strncasecmp (s t : CString) (n : Nat) : Bool := strcasecmp (s.take n) (t.take n)

def urlMark : CString := "://".toList

def urlAccepted (arg : CString) : Bool :=
  if (strstr arg urlMark).isSome then
    strncasecmp arg "http://".toList 7 || strncasecmp arg "https://".toList 8 ||
      strncasecmp arg "stratum+tcp://".toList 14
  else arg != [] && arg.head? != some '/'

def urlType (arg : CString) : PoolType :=
  if (strstr arg urlMark).isSome && strncasecmp arg "stratum".toList 7 then .stratum else .getwork

def poolSetCreds (s : PoolTable) (pooln : Int) (arg : CString) : PoolTable :=
  let p := { s.pools pooln with type := urlType arg, valid := true }
  { s with pools := Function.update s.pools pooln p }.use [pooln]

/-- The place after the current pool is taken, unless that one is free itself. -/
def takePlace (s : PoolTable) : PoolTable :=
  if (s.pools s.curPooln).type = .unused then s
  else
    let cur := (s.curPooln + 1).tmod maxPools
    { s with curPooln := cur, numPools := max (cur + 1) s.numPools }

/-- The option `-o` with a url. -/
def parseArgUrl (s : PoolTable) (arg : CString) : PoolTable :=
  let s := takePlace (s.use [s.curPooln])
  if urlAccepted arg then poolSetCreds s s.curPooln arg else { s with ended := true }

def poolSwitchUrl (s : PoolTable) (params : CString) : PoolTable :=
  let prevn := s.curPooln
  let s := parseArgUrl s params
  if s.ended then s
  else
    let nextn := s.curPooln
    let s := { s with curPooln := prevn }
    if nextn = prevn then s else poolSwitch s nextn

def getpoolnfo (s : PoolTable) (params : Option CString) : PoolTable :=
  s.use [match params with
    | some params => (atoi params).tmod s.numPools
    | none => s.curPooln]

def remoteSwitchpool (s : PoolTable) (params : Option CString) : PoolTable :=
  match params with
  | none | some [] => poolSwitchNext s
  | some params =>
    let n := atoi params
    if n = s.curPooln then s else if n < s.numPools then poolSwitch s n else s

def remoteSeturl (s : PoolTable) (params : Option CString) : PoolTable :=
  match params with
  | none | some [] => poolSwitchNext s
  | some params => poolSwitchUrl s params

/-- The pools `wanna_mine` compares, for the difficulty limit and the rate limit. -/
def wannaMine (s : PoolTable) (overDiff overRate : Bool) : PoolTable :=
  let (next, looked) := poolGetFirstValid s (s.curPooln + 1)
  let s := if overDiff then s.use (looked ++ if 1 < s.numPools then [next, s.curPooln] else []) else s
  if overRate then s.use (looked ++ [next, s.curPooln]) else s

inductive PoolEvent where
  | pool (params : Option CString)
  | switchpool (params : Option CString)
  | seturl (params : Option CString)
  | failover
  | wannaMine (overDiff overRate : Bool)
  | conditionSwitch

/-- A condition switch follows a look at a limit of the current pool. -/
def poolStep (s : PoolTable) (e : PoolEvent) : Option PoolTable :=
  if s.ended then none
  else
    some (match e with
      | .pool params => getpoolnfo s params
      | .switchpool params => remoteSwitchpool s params
      | .seturl params => remoteSeturl s params
      | .failover => poolSwitchNext s
      | .wannaMine overDiff overRate => wannaMine s overDiff overRate
      | .conditionSwitch => poolSwitchNext (s.use [s.curPooln]))

structure PoolConfig where
  pools : Int → PoolSlot
  numPools : Int
  one_le : 1 ≤ numPools
  le_max : numPools ≤ maxPools

def configured (cfg : PoolConfig) : PoolTable where
  curPooln := 0
  numPools := cfg.numPools
  pools := cfg.pools
  used := []
  ended := false

def startTable (cfg : PoolConfig) : PoolTable :=
  let (first, looked) := poolGetFirstValid (configured cfg) 0
  poolSwitch { (configured cfg).use looked with curPooln := first } first

def InRange (s : PoolTable) : Prop :=
  (0 ≤ s.curPooln ∧ s.curPooln < s.numPools) ∧ ∀ u ∈ s.used, 0 ≤ u.1 ∧ u.1 < u.2

/-- The number in a request is not a negative one: for `pool` not with a rest,
for `switchpool` not at all. -/
def IndexTaken (s : PoolTable) : PoolEvent → Prop
  | .pool params => ∀ p, params = some p → 0 ≤ (atoi p).tmod s.numPools
  | .switchpool params => ∀ p, params = some p → p ≠ [] → 0 ≤ atoi p
  | _ => True

section Uses

variable {s : PoolTable}

theorem InRange.use (h : InRange s) {is : List Int} (his : ∀ i ∈ is, 0 ≤ i ∧ i < s.numPools) :
    InRange (s.use is) := by
  refine ⟨h.1, fun u hu => ?_⟩
  rcases List.mem_append.mp hu with hin | hnew
  · exact h.2 u hin
  · obtain ⟨i, hi, rfl⟩ := List.mem_map.mp hnew
    exact his i hi

theorem tmod_in_range {a n : Int} (hn : 0 < n) (ha : 0 ≤ a) : 0 ≤ a.tmod n ∧ a.tmod n < n :=
  ⟨Int.tmod_nonneg n ha, Int.tmod_lt_of_pos a hn⟩

theorem firstValidLoop_in_range {startfrom : Int} (hnum : 0 < s.numPools) (n : Nat) {i : Int}
    (hi : 0 ≤ startfrom + i) :
    (0 ≤ (firstValidLoop s startfrom n i).1 ∧ (firstValidLoop s startfrom n i).1 < s.numPools) ∧
      ∀ j ∈ (firstValidLoop s startfrom n i).2, 0 ≤ j ∧ j < s.numPools := by
  induction n generalizing i with
  | zero => exact ⟨⟨Int.le_refl 0, hnum⟩, by simp [firstValidLoop]⟩
  | succ n ih =>
    have hindex := tmod_in_range hnum hi
    rw [firstValidLoop]
    split_ifs
    · exact ⟨hindex, by simpa using hindex⟩
    · -- the next turn starts further from zero
      obtain ⟨hfound, hlooked⟩ := ih (i := i + 1) (by omega)
      exact ⟨hfound, List.forall_mem_cons.mpr ⟨hindex, hlooked⟩⟩

theorem poolGetFirstValid_in_range {startfrom : Int} (hnum : 0 < s.numPools) (hstart : 0 ≤ startfrom) :
    (0 ≤ (poolGetFirstValid s startfrom).1 ∧ (poolGetFirstValid s startfrom).1 < s.numPools) ∧
      ∀ j ∈ (poolGetFirstValid s startfrom).2, 0 ≤ j ∧ j < s.numPools :=
  firstValidLoop_in_range hnum _ (by omega)

theorem InRange.numPools_pos (h : InRange s) : 0 < s.numPools := lt_of_le_of_lt h.1.1 h.1.2

theorem InRange.next (h : InRange s) :
    (0 ≤ (poolGetFirstValid s (s.curPooln + 1)).1 ∧
        (poolGetFirstValid s (s.curPooln + 1)).1 < s.numPools) ∧
      ∀ j ∈ (poolGetFirstValid s (s.curPooln + 1)).2, 0 ≤ j ∧ j < s.numPools :=
  poolGetFirstValid_in_range h.numPools_pos (by have := h.1.1; omega)

theorem InRange.useCur (h : InRange s) : InRange (s.use [s.curPooln]) :=
  h.use (List.forall_mem_singleton.mpr h.1)

theorem poolSwitch_inRange_iff (h : InRange s) {pooln : Int} (hlt : pooln < s.numPools) :
    InRange (poolSwitch s pooln) ↔ 0 ≤ pooln := by
  have hswitch : poolSwitch s pooln = ({ s.use [s.curPooln] with curPooln := pooln }).use [pooln] :=
    if_pos hlt
  rw [hswitch]
  refine ⟨fun hafter => hafter.1.1, fun hpos => ?_⟩
  have hmoved : InRange { s.use [s.curPooln] with curPooln := pooln } := ⟨⟨hpos, hlt⟩, h.useCur.2⟩
  exact hmoved.use (List.forall_mem_singleton.mpr ⟨hpos, hlt⟩)

theorem InRange.switchNext (h : InRange s) : InRange (poolSwitchNext s) := by
  rw [poolSwitchNext]
  split_ifs
  · obtain ⟨⟨hpos, hlt⟩, hlooked⟩ := h.next
    exact (poolSwitch_inRange_iff (h.use hlooked) hlt).mpr hpos
  · exact h

theorem InRange.wannaMine (h : InRange s) (overDiff overRate : Bool) :
    InRange (wannaMine s overDiff overRate) := by
  obtain ⟨hnext, hlooked⟩ := h.next
  have hboth : ∀ j ∈ (poolGetFirstValid s (s.curPooln + 1)).2 ++
      [(poolGetFirstValid s (s.curPooln + 1)).1, s.curPooln], 0 ≤ j ∧ j < s.numPools :=
    List.forall_mem_append.mpr ⟨hlooked, by simpa using ⟨hnext, h.1⟩⟩
  have hdiff : InRange (if overDiff = true then s.use ((poolGetFirstValid s (s.curPooln + 1)).2 ++
      if 1 < s.numPools then [(poolGetFirstValid s (s.curPooln + 1)).1, s.curPooln] else []) else s) := by
    split_ifs
    · exact h.use hboth
    · exact h.use (by simpa using hlooked)
    · exact h
  rw [VerusMiner.wannaMine]
  cases overRate with
  | false => exact hdiff
  | true =>
    refine hdiff.use ?_
    split_ifs
    all_goals exact hboth

theorem le_numPools_takePlace (s : PoolTable) : s.numPools ≤ (takePlace s).numPools := by
  rw [takePlace]
  split_ifs
  · exact le_refl _
  · exact le_max_right _ _

theorem InRange.takePlace (h : InRange s) : InRange (takePlace s) := by
  rw [VerusMiner.takePlace]
  split_ifs
  · exact h
  · have hcur := h.1.1
    have hplace := tmod_in_range (a := s.curPooln + 1) (n := maxPools) (by decide) (by omega)
    exact ⟨⟨hplace.1, lt_of_lt_of_le (lt_add_one _) (le_max_left _ _)⟩, h.2⟩

theorem InRange.parseArgUrl (h : InRange s) (arg : CString) :
    InRange (parseArgUrl s arg) ∧ s.numPools ≤ (parseArgUrl s arg).numPools := by
  have hplace := h.useCur.takePlace
  have hnum := le_numPools_takePlace (s.use [s.curPooln])
  rw [VerusMiner.parseArgUrl]
  split_ifs
  · exact ⟨InRange.useCur (s := { VerusMiner.takePlace (s.use [s.curPooln]) with pools := _ }) hplace, hnum⟩
  · exact ⟨hplace, hnum⟩

theorem InRange.switchUrl (h : InRange s) (params : CString) : InRange (poolSwitchUrl s params) := by
  obtain ⟨hparsed, hnum⟩ := h.parseArgUrl params
  have hback : InRange { VerusMiner.parseArgUrl s params with curPooln := s.curPooln } :=
    ⟨⟨h.1.1, lt_of_lt_of_le h.1.2 hnum⟩, hparsed.2⟩
  simp only [poolSwitchUrl]
  split_ifs
  · exact hparsed
  · exact hback
  · exact (poolSwitch_inRange_iff hback hparsed.1.2).mpr hparsed.1.1

end Uses

section Steps

variable {s s' : PoolTable} {e : PoolEvent}

theorem getpoolnfo_inRange_iff (h : InRange s) (params : Option CString) :
    InRange (getpoolnfo s params) ↔ ∀ p, params = some p → 0 ≤ (atoi p).tmod s.numPools := by
  cases params with
  | none => exact ⟨fun _ p hp => (by cases hp), fun _ => h.useCur⟩
  | some p =>
    constructor
    · rintro hafter p' hp
      cases hp
      exact (hafter.2 _ (List.mem_append_right _ (List.mem_map_of_mem List.mem_cons_self))).1
    · intro hok
      exact h.use (List.forall_mem_singleton.mpr ⟨hok p rfl, Int.tmod_lt_of_pos _ h.numPools_pos⟩)

theorem remoteSwitchpool_inRange_iff (h : InRange s) (params : Option CString) :
    InRange (remoteSwitchpool s params) ↔ ∀ p, params = some p → p ≠ [] → 0 ≤ atoi p := by
  cases params with
  | none => exact ⟨fun _ p hp => (by cases hp), fun _ => h.switchNext⟩
  | some p =>
    cases p with
    | nil => exact ⟨fun _ p hp hne => absurd (Option.some.inj hp).symm hne, fun _ => h.switchNext⟩
    | cons c p =>
      have hok : (∀ p', some (c :: p) = some p' → p' ≠ [] → 0 ≤ atoi p') ↔ 0 ≤ atoi (c :: p) :=
        ⟨fun hall => hall _ rfl (List.cons_ne_nil c p), fun hpos p' hp _ => Option.some.inj hp ▸ hpos⟩
      rw [hok]
      change InRange (if atoi (c :: p) = s.curPooln then s
        else if atoi (c :: p) < s.numPools then poolSwitch s (atoi (c :: p)) else s) ↔ _
      split_ifs with hcur hlt
      · exact iff_of_true h (hcur ▸ h.1.1)
      · exact poolSwitch_inRange_iff h hlt
      · -- a number past the last pool is refused
        have hnum := h.numPools_pos
        exact iff_of_true h (by omega)

theorem remoteSeturl_inRange (h : InRange s) (params : Option CString) : InRange (remoteSeturl s params) := by
  cases params with
  | none => exact h.switchNext
  | some p =>
    cases p with
    | nil => exact h.switchNext
    | cons c p => exact h.switchUrl _

theorem poolStep_inRange_iff (h : InRange s) (hstep : poolStep s e = some s') :
    InRange s' ↔ IndexTaken s e := by
  unfold poolStep at hstep
  split_ifs at hstep
  cases hstep
  cases e with
  | pool params => exact getpoolnfo_inRange_iff h params
  | switchpool params => exact remoteSwitchpool_inRange_iff h params
  | seturl params => exact iff_of_true (remoteSeturl_inRange h params) trivial
  | failover => exact iff_of_true h.switchNext trivial
  | wannaMine overDiff overRate => exact iff_of_true (h.wannaMine overDiff overRate) trivial
  | conditionSwitch => exact iff_of_true h.useCur.switchNext trivial

theorem startTable_inRange (cfg : PoolConfig) : InRange (startTable cfg) := by
  have hnum : 0 < (configured cfg).numPools := cfg.one_le
  have hconfigured : InRange (configured cfg) := ⟨⟨Int.le_refl 0, hnum⟩, fun u hu => (by cases hu)⟩
  obtain ⟨hfirst, hlooked⟩ := poolGetFirstValid_in_range hnum (Int.le_refl 0)
  have hmoved : InRange { (configured cfg).use (poolGetFirstValid (configured cfg) 0).2 with
      curPooln := (poolGetFirstValid (configured cfg) 0).1 } := ⟨hfirst, (hconfigured.use hlooked).2⟩
  exact (poolSwitch_inRange_iff hmoved hfirst.2).mpr hfirst.1

end Steps

/-- In every run from the configured pools the indices stay in range exactly
if no request gives a negative one. -/
theorem run_inRange_iff (cfg : PoolConfig) {es : List PoolEvent} {s : PoolTable}
    (hrun : run poolStep (startTable cfg) es = some s) :
    Throughout poolStep InRange (startTable cfg) es ↔ Along poolStep IndexTaken (startTable cfg) es :=
  throughout_iff_along (I := fun _ => True) (fun _ _ => trivial)
    (fun _ h hstep => poolStep_inRange_iff h hstep) hrun trivial (startTable_inRange cfg)

section Places

theorem numPools_poolSwitch (s : PoolTable) (pooln : Int) : (poolSwitch s pooln).numPools = s.numPools := by
  simp only [poolSwitch]
  split_ifs <;> rfl

theorem numPools_poolSwitchNext (s : PoolTable) : (poolSwitchNext s).numPools = s.numPools := by
  unfold poolSwitchNext
  split_ifs
  · exact numPools_poolSwitch _ _
  · rfl

theorem numPools_wannaMine (s : PoolTable) (overDiff overRate : Bool) :
    (wannaMine s overDiff overRate).numPools = s.numPools := by
  cases overDiff <;> cases overRate <;> rfl

theorem numPools_takePlace_le {s : PoolTable} (h : s.numPools ≤ maxPools) :
    (takePlace s).numPools ≤ maxPools := by
  unfold takePlace
  split_ifs
  · exact h
  · have hplace : (s.curPooln + 1).tmod maxPools < maxPools := Int.tmod_lt_of_pos _ (by decide)
    exact max_le (by omega) h

theorem numPools_parseArgUrl (s : PoolTable) (arg : CString) :
    (parseArgUrl s arg).numPools = (takePlace (s.use [s.curPooln])).numPools := by
  simp only [parseArgUrl]
  split_ifs <;> rfl

theorem numPools_poolSwitchUrl (s : PoolTable) (params : CString) :
    (poolSwitchUrl s params).numPools = (takePlace (s.use [s.curPooln])).numPools := by
  rw [← numPools_parseArgUrl s params]
  simp only [poolSwitchUrl]
  split_ifs
  · rfl
  · rfl
  · exact numPools_poolSwitch _ _

theorem poolStep_numPools_le {s s' : PoolTable} {e : PoolEvent} (h : s.numPools ≤ maxPools)
    (hstep : poolStep s e = some s') : s'.numPools ≤ maxPools := by
  unfold poolStep at hstep
  split_ifs at hstep
  cases hstep
  cases e with
  | pool params => exact h
  | switchpool params =>
    simp only [remoteSwitchpool]
    split
    · exact (numPools_poolSwitchNext s).trans_le h
    · exact (numPools_poolSwitchNext s).trans_le h
    · split_ifs
      · exact h
      · exact (numPools_poolSwitch s _).trans_le h
      · exact h
  | seturl params =>
    simp only [remoteSeturl]
    split
    · exact (numPools_poolSwitchNext s).trans_le h
    · exact (numPools_poolSwitchNext s).trans_le h
    · exact (numPools_poolSwitchUrl s _).trans_le (numPools_takePlace_le h)
  | failover => exact (numPools_poolSwitchNext s).trans_le h
  | wannaMine overDiff overRate => exact (numPools_wannaMine s overDiff overRate).trans_le h
  | conditionSwitch => exact (numPools_poolSwitchNext _).trans_le h

/-- Whatever the requests say there are never more pools than places in the table. -/
theorem run_numPools_le (cfg : PoolConfig) {es : List PoolEvent} {s : PoolTable}
    (hrun : run poolStep (startTable cfg) es = some s) : s.numPools ≤ maxPools := by
  have hstart : (startTable cfg).numPools ≤ maxPools := (numPools_poolSwitch _ _).trans_le cfg.le_max
  exact run_invariant poolStep_numPools_le hrun hstart

end Places

section Examples

def twoPools : PoolConfig where
  pools := fun _ => { type := .stratum, valid := true, disabled := false, removed := false }
  numPools := 2
  one_le := by decide
  le_max := by decide

theorem run_inRange_rotated : ∃ s, run poolStep (startTable twoPools)
      [.switchpool (some ['1']), .pool (some ['7']), .failover] = some s ∧
    Throughout poolStep InRange (startTable twoPools)
      [.switchpool (some ['1']), .pool (some ['7']), .failover] := by
  refine ⟨_, rfl, (run_inRange_iff twoPools rfl).mpr ⟨fun p hp _ => ?_, fun s₁ h₁ => ⟨fun p hp => ?_,
    fun _ _ => ⟨trivial, fun _ _ => trivial⟩⟩⟩⟩
  · cases hp
    decide
  · cases hp
    cases h₁
    decide

/-- The request `switchpool|-1` makes -1 the current pool, and `pool|-1` reads
the place before the table. -/
theorem negative_index_used :
    (∃ es s, run poolStep (startTable twoPools) es = some s ∧ s.curPooln = -1 ∧
      ¬Throughout poolStep InRange (startTable twoPools) es) ∧
    ∃ es s, run poolStep (startTable twoPools) es = some s ∧ (-1, 2) ∈ s.used ∧ s.curPooln = 0 ∧
      ¬Throughout poolStep InRange (startTable twoPools) es := by
  have hswitch : run poolStep (startTable twoPools) [.switchpool (some ['-', '1'])] = some _ := rfl
  have hpool : run poolStep (startTable twoPools) [.pool (some ['-', '1'])] = some _ := rfl
  refine ⟨⟨_, _, hswitch, by decide, fun h => ?_⟩, ⟨_, _, hpool, by decide, by decide, fun h => ?_⟩⟩
  · exact absurd (throughout_last hswitch h).1.1 (by decide)
  · have hused := (throughout_last hpool h).2 (-1, 2) (by decide)
    exact absurd hused.1 (by decide)

end Examples

end VerusMiner
