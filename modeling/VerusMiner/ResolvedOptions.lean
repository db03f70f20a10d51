import VerusMiner.PoolSettings

/-! Whether a switch can make an option active that is still at the mark of an
unset one, for pools that were there when the unset ones were resolved. -/

namespace VerusMiner

/-- The miner threads scan with one algorithm and leave for any other. -/
def Scans (algo : Option ShaAlgos) : Prop := algo = some .equihash

def NoneUnset (o : PoolOptions) : Prop :=
  o.algo ≠ none ∧ o.scantime ≠ -1 ∧ o.maxDiff ≠ -1.0 ∧ o.maxRate ≠ -1.0 ∧ o.sharesLimit ≠ -1 ∧ o.timeLimit ≠ -1

/-- The active options of a pool with options of its own, in a program with
options of its own: each is the pool's where that is set and the program's
where not. A limit of -1 is a limit that neither of them sets. -/
structure ResolvedFrom (own opts active : PoolOptions) : Prop where
  eq : active = own.resolve opts
  algo : active.algo ≠ none
  scantime : active.scantime ≠ -1
  maxDiff : (active.maxDiff == -1.0) = true → (own.maxDiff == -1.0) = true ∧ (opts.maxDiff == -1.0) = true
  maxRate : (active.maxRate == -1.0) = true → (own.maxRate == -1.0) = true ∧ (opts.maxRate == -1.0) = true
  sharesLimit : active.sharesLimit = -1 → own.sharesLimit = -1 ∧ opts.sharesLimit = -1
  timeLimit : active.timeLimit = -1 → own.timeLimit = -1 ∧ opts.timeLimit = -1
  scans : ¬Scans active.algo → ∃ a ≠ .equihash, own.algo = some a ∨ own.algo = none ∧ opts.algo = some a

section Resolve

variable {α : Type} {m : α → Prop} [DecidablePred m] {own opts : α}

/-- What has the mark behind a resolution had it on both sides. -/
theorem marked_of_resolved (h : m (if m own then opts else own)) : m own ∧ m opts := by
  split_ifs at h with hown
  · exact ⟨hown, h⟩
  · exact absurd h hown

end Resolve

theorem resolvedFrom_resolve {own opts : PoolOptions} (halgo : opts.algo ≠ none)
    (hscantime : opts.scantime ≠ -1) : ResolvedFrom own opts (own.resolve opts) where
  eq := rfl
  algo := fun h => halgo (marked_of_resolved (m := (· = none)) h).2
  scantime := fun h => hscantime (marked_of_resolved (m := (· = -1)) h).2
  maxDiff := marked_of_resolved (m := fun x => (x == -1.0) = true)
  maxRate := marked_of_resolved (m := fun x => (x == -1.0) = true)
  sharesLimit := marked_of_resolved (m := (· = -1))
  timeLimit := marked_of_resolved (m := (· = -1))
  scans := by
    intro hscans
    simp only [PoolOptions.resolve, Scans] at hscans
    split_ifs at hscans with h
    · obtain ⟨a, ha⟩ := Option.ne_none_iff_exists'.mp halgo
      exact ⟨a, fun heq => hscans (by rw [ha, heq]), .inr ⟨h, ha⟩⟩
    · obtain ⟨a, ha⟩ := Option.ne_none_iff_exists'.mp h
      exact ⟨a, fun heq => hscans (by rw [ha, heq]), .inl ha⟩

section Reading

variable {atof : CString → Float} {s s' : Pools}

def AllDefined (s : Pools) : Prop := ∀ i, 0 ≤ i → i < s.numPools → (s.pools i).defined = true

/-- While options are read: all pools are defined, or there is no url yet. -/
structure Reading (s : Pools) : Prop where
  algo : s.options.algo ≠ none
  scantime : s.options.scantime ≠ -1
  cur : 0 ≤ s.curPooln ∧ s.curPooln < s.numPools
  num : s.numPools ≤ maxPools
  switched : s.switched = []
  defined : AllDefined s ∨ (s.numPools = 1 ∧ s.creds.url = [] ∧ (s.pools 0).type = .unused)

theorem AllDefined.update (h : AllDefined s) {pooln : Int} {p : PoolEntry}
    (hp : (s.pools pooln).defined = true → p.defined = true) :
    AllDefined { s with pools := Function.update s.pools pooln p } := by
  intro i hpos hlt
  have hi := h i hpos hlt
  by_cases hpooln : i = pooln
  · subst hpooln
    simpa using hp hi
  · simpa [Function.update_of_ne hpooln] using hi

theorem Reading.allDefined (h : Reading s) : AllDefined (s.poolSetCreds s.curPooln) := by
  rcases h.defined with hall | ⟨hone, _, _⟩
  · exact hall.update fun _ => setCreds_defined _ _
  · intro i hpos hlt
    have hcur := h.cur
    have hnum : i < s.numPools := hlt
    obtain rfl : i = s.curPooln := by omega
    rw [pools_poolSetCreds, if_pos rfl]
    exact setCreds_defined _ _

theorem Reading.poolSetCreds (h : Reading s) : Reading (s.poolSetCreds s.curPooln) :=
  ⟨h.algo, h.scantime, h.cur, h.num, h.switched, .inl h.allDefined⟩

theorem Reading.withCreds (h : Reading s) {c : Creds} (hurl : c.url = s.creds.url) :
    Reading { s with creds := c } where
  algo := h.algo
  scantime := h.scantime
  cur := h.cur
  num := h.num
  switched := h.switched
  defined := h.defined.imp_right fun hnone => ⟨hnone.1, hurl.trans hnone.2.1, hnone.2.2⟩

theorem Reading.poolSetAttr (h : Reading s) (attr : PoolAttr) (arg : CString) :
    Reading (s.poolSetAttr atof s.curPooln attr arg) := by
  refine ⟨h.algo, h.scantime, h.cur, h.num, h.switched, ?_⟩
  rcases h.defined with hall | ⟨hone, hurl, htype⟩
  · exact .inl (hall.update fun hdefined => (setAttr_defined ..).trans hdefined)
  · refine .inr ⟨hone, hurl, ?_⟩
    by_cases hcur : (0 : Int) = s.curPooln
    · simpa [Pools.poolSetAttr, ← hcur] using htype
    · simpa [Pools.poolSetAttr, Function.update_of_ne hcur] using htype

theorem Reading.urlPlace (h : Reading s) : 0 ≤ s.urlPlace ∧ s.urlPlace ≤ s.numPools ∧ s.urlPlace < maxPools ∧
    ((s.pools s.curPooln).type = .unused → s.urlPlace = s.curPooln) := by
  have hcur := h.cur
  have hnum := h.num
  rw [Pools.urlPlace]
  split_ifs with hunused
  · exact ⟨hcur.1, by omega, by omega, fun _ => rfl⟩
  · have hplace := tmod_in_range (a := s.curPooln + 1) (n := maxPools) (by decide) (by omega)
    have hle : (s.curPooln + 1).tmod maxPools ≤ s.curPooln + 1 := by
      rw [Int.tmod_eq_emod_of_nonneg (by omega), maxPools]
      omega
    exact ⟨hplace.1, by omega, hplace.2, fun hunused' => absurd hunused' hunused⟩

theorem Reading.parseUrl (h : Reading s) {arg : CString} (hparse : s.parseUrl arg = some s') : Reading s' := by
  obtain ⟨_, rfl⟩ := parseUrl_cases hparse
  obtain ⟨hpos, hle, hlt, hfree⟩ := h.urlPlace
  have hcur := h.cur
  have hmax := h.num
  refine ⟨h.algo, h.scantime, ⟨hpos, ?_⟩, ?_, h.switched, .inl ?_⟩
  · simp only
    split_ifs with hunused
    · rw [hfree hunused]
      exact hcur.2
    · exact lt_of_lt_of_le (lt_add_one _) (le_max_left _ _)
  · simp only
    split_ifs
    · exact hmax
    · exact max_le hlt hmax
  · intro i hi hlt
    by_cases hplace : i = s.urlPlace
    · subst hplace
      simp
    · simp only [Function.update_of_ne hplace]
      -- a place other than the one taken was there before
      have hnum : i < s.numPools := by
        simp only at hlt
        split_ifs at hlt
        · exact hlt
        · rcases lt_max_iff.mp hlt with hlt | hlt <;> omega
      rcases h.defined with hall | ⟨hone, _, htype⟩
      · exact hall i hi hnum
      · have hzero : s.curPooln = 0 := by omega
        rw [hfree (hzero ▸ htype)] at hplace
        omega

theorem Reading.parseArg (h : Reading s) {key : OptKey} {arg : CString}
    (hparse : s.parseArg atof key arg = some s') : Reading s' := by
  cases key with
  | algo =>
    obtain ⟨a, _, rfl⟩ := Option.map_eq_some_iff.mp hparse
    exact ⟨Option.some_ne_none _, h.scantime, h.cur, h.num, h.switched, h.defined⟩
  | scantime =>
    simp only [Pools.parseArg] at hparse
    split_ifs at hparse with hrange
    obtain rfl := Option.some.inj hparse
    exact ⟨h.algo, fun hmark => hrange (.inl (lt_of_eq_of_lt hmark (by decide))), h.cur, h.num, h.switched, h.defined⟩
  | maxDiff | maxRate | sharesLimit | timeLimit | benchmark =>
    obtain rfl := Option.some.inj hparse
    exact ⟨h.algo, h.scantime, h.cur, h.num, h.switched, h.defined⟩
  | url => exact h.parseUrl hparse
  | user =>
    obtain rfl := Option.some.inj hparse
    exact (h.withCreds (c := { s.creds with user := arg }) rfl).poolSetCreds
  | pass =>
    obtain rfl := Option.some.inj hparse
    exact (h.withCreds (c := { s.creds with pass := arg }) rfl).poolSetCreds
  | userpass =>
    obtain ⟨i, _, rfl⟩ := Option.map_eq_some_iff.mp hparse
    exact (h.withCreds (c := { s.creds with user := arg.take i, pass := arg.drop (i + 1) }) rfl).poolSetCreds
  | proxy =>
    obtain rfl := Option.some.inj hparse
    exact h.poolSetCreds
  | pool attr =>
    obtain rfl := Option.some.inj hparse
    exact h.poolSetAttr attr arg

theorem reading_initialPools (beyond : Int → PoolEntry) : Reading (initialPools beyond) where
  algo := Option.some_ne_none _
  scantime := show (10 : Int) ≠ -1 by decide
  cur := ⟨Int.le_refl 0, Int.zero_lt_one⟩
  num := show (1 : Int) ≤ 8 by decide
  switched := rfl
  defined := .inr ⟨rfl, rfl, by simp [initialPools, maxPools, PoolEntry.zero]⟩

theorem Configures.reading {beyond : Int → PoolEntry} {os : List (OptKey × CString)}
    (h : Configures atof beyond os s) : Reading s ∧ AllDefined s := by
  obtain ⟨s₁, hread, hensure⟩ := Option.bind_eq_some_iff.mp h
  have hreading : Reading s₁ := run_invariant (fun h hstep => h.parseArg hstep) hread (reading_initialPools beyond)
  simp only [Pools.ensurePool] at hensure
  split_ifs at hensure with hurl hbenchmark
  · obtain rfl := Option.some.inj hensure
    exact ⟨hreading, hreading.defined.resolve_right fun hnone => hurl hnone.2.1⟩
  · obtain rfl := Option.some.inj hensure
    rcases hreading.defined with hall | ⟨hone, _, _⟩
    · have hall' : AllDefined (s₁.poolSetCreds 0) := hall.update fun _ => setCreds_defined _ _
      exact ⟨⟨hreading.algo, hreading.scantime, hreading.cur, hreading.num, hreading.switched, .inl hall'⟩, hall'⟩
    · have hcur := hreading.cur
      have hzero : s₁.curPooln = 0 := by omega
      exact hzero ▸ ⟨hreading.poolSetCreds, hreading.allDefined⟩

end Reading

section Running

variable {s₀ s s' : Pools}

def Pools.resolved (s₀ : Pools) (i : Int) : PoolOptions := (s₀.pools i).options.resolve s₀.options

/-- The pools there were when the unset options were resolved still have them
resolved, and so has every switch to one of them. -/
structure StaysResolved (s₀ s : Pools) : Prop where
  kept : ∀ i, 0 ≤ i → i < s₀.numPools → (s.pools i).defined = true ∧ (s.pools i).options = s₀.resolved i
  switched : ∀ sw ∈ s.switched, 0 ≤ sw.1 → sw.1 < s₀.numPools → sw.2 = s₀.resolved sw.1

theorem StaysResolved.poolSwitch (h : StaysResolved s₀ s) (pooln : Int) : StaysResolved s₀ (s.poolSwitch pooln) := by
  rw [Pools.poolSwitch]
  split_ifs with hlt
  · refine ⟨h.kept, fun sw hsw hpos hnum => ?_⟩
    rcases List.mem_append.mp hsw with hbefore | hnew
    · exact h.switched sw hbefore hpos hnum
    · obtain rfl := List.mem_singleton.mp hnew
      exact (h.kept pooln hpos hnum).2
  · exact h

theorem StaysResolved.poolSwitchNext (h : StaysResolved s₀ s) : StaysResolved s₀ s.poolSwitchNext := by
  rw [Pools.poolSwitchNext]
  split_ifs
  · exact h.poolSwitch _
  · exact h

theorem StaysResolved.parseUrl (h : StaysResolved s₀ s) {arg : CString} (hparse : s.parseUrl arg = some s') :
    StaysResolved s₀ s' := by
  obtain ⟨_, rfl⟩ := parseUrl_cases hparse
  refine ⟨fun i hpos hnum => ?_, h.switched⟩
  obtain ⟨hdefined, hoptions⟩ := h.kept i hpos hnum
  by_cases hplace : i = s.urlPlace
  · subst hplace
    simp only [Function.update_self]
    exact ⟨setCreds_defined _ _, (setCreds_options hdefined _).trans hoptions⟩
  · simp only [Function.update_of_ne hplace]
    exact ⟨hdefined, hoptions⟩

theorem StaysResolved.poolSwitchUrl (h : StaysResolved s₀ s) {params : CString}
    (hswitch : s.poolSwitchUrl params = some s') : StaysResolved s₀ s' := by
  obtain ⟨s₁, hparse, rfl⟩ := Option.map_eq_some_iff.mp hswitch
  have hparsed := h.parseUrl hparse
  have hback : StaysResolved s₀ { s₁ with curPooln := s.curPooln } := ⟨hparsed.kept, hparsed.switched⟩
  simp only
  split_ifs
  · exact hback
  · exact hback.poolSwitch _

theorem StaysResolved.step (h : StaysResolved s₀ s) {e : PoolEvent} (hstep : poolsStep s e = some s') :
    StaysResolved s₀ s' := by
  cases e with
  | pool params => exact Option.some.inj hstep ▸ h
  | wannaMine overDiff overRate => exact Option.some.inj hstep ▸ h
  | switchpool params =>
    obtain rfl := Option.some.inj hstep
    simp only [Pools.remoteSwitchpool]
    split
    · exact h.poolSwitchNext
    · exact h.poolSwitchNext
    · split_ifs
      · exact h
      · exact h.poolSwitch _
      · exact h
  | seturl params =>
    simp only [poolsStep, Pools.remoteSeturl] at hstep
    split at hstep
    · exact Option.some.inj hstep ▸ h.poolSwitchNext
    · exact Option.some.inj hstep ▸ h.poolSwitchNext
    · exact h.poolSwitchUrl hstep
  | failover => exact Option.some.inj hstep ▸ h.poolSwitchNext
  | conditionSwitch => exact Option.some.inj hstep ▸ h.poolSwitchNext

theorem stays_poolInitDefaults (hdefined : AllDefined s₀) (hswitched : s₀.switched = []) :
    StaysResolved s₀ s₀.poolInitDefaults := by
  refine ⟨fun i hpos hnum => ?_, fun sw hsw => ?_⟩
  · simp only [Pools.poolInitDefaults, if_pos (And.intro hpos hnum)]
    exact ⟨hdefined i hpos hnum, rfl⟩
  · rw [show s₀.poolInitDefaults.switched = [] from hswitched] at hsw
    cases hsw

theorem stays_start (hdefined : AllDefined s₀) (hswitched : s₀.switched = []) : StaysResolved s₀ s₀.start := by
  have hresolved := stays_poolInitDefaults hdefined hswitched
  have hmoved : StaysResolved s₀
      { s₀.poolInitDefaults with curPooln := (poolGetFirstValid s₀.poolInitDefaults.table 0).1 } :=
    ⟨hresolved.kept, hresolved.switched⟩
  exact hmoved.poolSwitch _

end Running

/-- However the options were read and whatever the requests are, a switch to a
pool that was there when the unset options were resolved has them resolved. -/
theorem run_switches_resolved {atof : CString → Float} {beyond : Int → PoolEntry}
    {os : List (OptKey × CString)} {s₀ s : Pools} {es : List PoolEvent}
    (hread : Configures atof beyond os s₀) (hrun : run poolsStep s₀.start es = some s) :
    ∀ sw ∈ s.switched, 0 ≤ sw.1 → sw.1 < s₀.numPools →
      ResolvedFrom (s₀.pools sw.1).options s₀.options sw.2 := by
  obtain ⟨hreading, hdefined⟩ := hread.reading
  have hstays : StaysResolved s₀ s :=
    run_invariant (fun h hstep => h.step hstep) hrun (stays_start hdefined hreading.switched)
  intro sw hsw hpos hnum
  rw [hstays.switched sw hsw hpos hnum]
  exact resolvedFrom_resolve hreading.algo hreading.scantime

section Examples

def twoUrls : List (OptKey × CString) :=
  [(.algo, "verus".toList), (.url, "stratum+tcp://a".toList), (.url, "stratum+tcp://b".toList),
    (.pool .timeLimit, "60".toList)]

def twoUrlPools : Pools :=
  ((run (readOption fun _ => 0.0) (initialPools fun _ => .zero) twoUrls).bind Pools.ensurePool).get rfl

theorem run_switches_resolved_failover :
    ∃ sw ∈ twoUrlPools.start.poolSwitchNext.switched, sw.1 = 1 ∧ sw.2.timeLimit = 60 ∧
      ResolvedFrom (twoUrlPools.pools sw.1).options twoUrlPools.options sw.2 := by
  have hread : Configures (fun _ => 0.0) (fun _ => .zero) twoUrls twoUrlPools := rfl
  have hrun : run poolsStep twoUrlPools.start [.failover] = some twoUrlPools.start.poolSwitchNext := rfl
  have hsecond : (1, twoUrlPools.resolved 1) ∈ twoUrlPools.start.poolSwitchNext.switched :=
    List.mem_cons_of_mem _ List.mem_cons_self
  exact ⟨_, hsecond, rfl, rfl, run_switches_resolved hread hrun _ hsecond (by decide) (by decide)⟩

/-- Without a limit of its own and without one of the program a pool keeps the
mark. -/
theorem limits_left_unset :
    ∃ s₀ s, Configures (fun _ => 0.0) (fun _ => .zero) [(.algo, "verus".toList), (.url, "a".toList)] s₀ ∧
      run poolsStep s₀.start [] = some s ∧ ¬∀ sw ∈ s.switched, NoneUnset sw.2 :=
  ⟨_, _, rfl, rfl, fun h => (h _ List.mem_cons_self).2.2.2.2.2 rfl⟩

end Examples

end VerusMiner
