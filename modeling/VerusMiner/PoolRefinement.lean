import VerusMiner.ResolvedOptions

/-! The pools with their credentials and options, seen through their table, do
what the table of the pool indices does. -/

namespace VerusMiner

section Url

theorem eq_of_toLower_eq {x c : Char} (h : x.toLower = c) (hc : ¬(97 ≤ c.toNat ∧ c.toNat ≤ 122)) : x = c := by
  delta Char.toLower at h
  split_ifs at h with hupper
  · subst h
    obtain ⟨hle, hge⟩ := hupper
    rw [ge_iff_le, UInt32.le_iff_toNat_le] at hle
    rw [UInt32.le_iff_toNat_le] at hge
    have hle' : 65 ≤ x.val.toNat := hle
    have hge' : x.val.toNat ≤ 90 := hge
    have hvalue : (x.val + ('a'.val - 'A'.val)).toNat = x.val.toNat + 32 := by
      rw [UInt32.toNat_add, show ('a'.val - 'A'.val).toNat = 32 by decide]
      omega
    refine absurd ?_ hc
    change 97 ≤ (x.val + ('a'.val - 'A'.val)).toNat ∧ (x.val + ('a'.val - 'A'.val)).toNat ≤ 122
    omega
  · exact h

/-- Where a text has a scheme in it up to its case, it has the mark behind it. -/
theorem scheme_of_lower {arg : CString} (pre : CString) (hcolon : ':' ∉ pre) (hat : '@' ∉ pre)
    (h : (arg.take (pre.length + 3)).map Char.toLower = pre ++ urlMark) :
    ∃ s t, arg = s ++ urlMark ++ t ∧ s.length = pre.length ∧ ':' ∉ s ∧ '@' ∉ s := by
  obtain ⟨s, m, hsplit, hs, hm⟩ := List.map_eq_append_iff.mp h
  have hmark : m = urlMark := by
    obtain ⟨x, y, z, rfl⟩ : ∃ x y z, m = [x, y, z] := List.length_eq_three.mp
      ((List.length_map _).symm.trans (congrArg List.length hm))
    obtain ⟨hx, hyz⟩ := List.cons.inj hm
    obtain ⟨hy, hz⟩ := List.cons.inj hyz
    obtain ⟨hz, _⟩ := List.cons.inj hz
    rw [eq_of_toLower_eq hx (by decide), eq_of_toLower_eq hy (by decide), eq_of_toLower_eq hz (by decide)]
    rfl
  refine ⟨s, arg.drop (pre.length + 3), ?_, ?_, fun hmem => hcolon ?_, fun hmem => hat ?_⟩
  · rw [← hmark, ← hsplit, List.take_append_drop]
  · rw [← hs, List.length_map]
  · exact hs ▸ List.mem_map_of_mem (f := Char.toLower) hmem
  · exact hs ▸ List.mem_map_of_mem (f := Char.toLower) hmem

def baseUrl (arg : CString) : CString := if (strstr arg urlMark).isSome then arg else "http://".toList ++ arg

theorem accepted_scheme {arg : CString} (h : urlAccepted arg = true) :
    ∃ s t, baseUrl arg = s ++ urlMark ++ t ∧ 4 ≤ s.length ∧ ':' ∉ s ∧ '@' ∉ s := by
  rw [urlAccepted] at h
  rw [baseUrl]
  split_ifs at h ⊢
  · rw [Bool.or_eq_true, Bool.or_eq_true] at h
    rcases h with (h | h) | h
    · obtain ⟨s, t, harg, hlength, hmem⟩ :=
        scheme_of_lower "http".toList (by decide) (by decide) (beq_iff_eq.mp h)
      exact ⟨s, t, harg, hlength.ge, hmem⟩
    · obtain ⟨s, t, harg, hlength, hmem⟩ :=
        scheme_of_lower "https".toList (by decide) (by decide) (beq_iff_eq.mp h)
      exact ⟨s, t, harg, hlength.ge.trans' (by decide), hmem⟩
    · obtain ⟨s, t, harg, hlength, hmem⟩ :=
        scheme_of_lower "stratum+tcp".toList (by decide) (by decide) (beq_iff_eq.mp h)
      exact ⟨s, t, harg, hlength.ge.trans' (by decide), hmem⟩
  · exact ⟨"http".toList, arg, rfl, by decide, by decide, by decide⟩

theorem setUrl_url (c : Creds) (arg : CString) : (c.setUrl arg).url = match strrchr (baseUrl arg) '@' with
    | none => baseUrl arg
    | some p => (baseUrl arg).take (((strstr ((baseUrl arg).take p) urlMark).getD 0) + 3) ++
        (baseUrl arg).drop (p + 1) := by
  simp only [Creds.setUrl, baseUrl]
  cases strstr arg urlMark with
  | none =>
    simp only [Option.isSome_none, Bool.false_eq_true, if_false]
    cases strrchr ("http://".toList ++ arg) '@' <;> rfl
  | some p =>
    simp only [Option.isSome_some, if_true]
    cases strrchr arg '@' <;> rfl

/-- The scheme of a url stays when the user in front of its host is taken out. -/
theorem setUrl_take {arg s t : CString} (hbase : baseUrl arg = s ++ urlMark ++ t) (hcolon : ':' ∉ s)
    (hat : '@' ∉ s) (c : Creds) : (c.setUrl arg).url.take (s.length + 3) = s ++ urlMark := by
  have hlength : (s ++ urlMark).length = s.length + 3 := List.length_append
  rw [setUrl_url, hbase]
  split
  · rw [← hlength, List.take_left]
  · rename_i p hp
    obtain ⟨before, behind, hsplit, rfl⟩ := strrchr_eq_some hp
    -- the scheme has no `@`, so the last one stands behind it
    have hnot : '@' ∉ s ++ urlMark := by
      rw [List.mem_append, not_or]
      exact ⟨hat, by decide⟩
    obtain ⟨w, rfl⟩ : ∃ w, before = s ++ urlMark ++ w := by
      rcases List.append_eq_append_iff.mp hsplit with ⟨w, hw, _⟩ | ⟨w, hw, hrest⟩
      · exact ⟨w, hw⟩
      · cases w with
        | nil => exact ⟨[], by rw [List.append_nil, hw, List.append_nil]⟩
        | cons x w =>
          obtain ⟨rfl, _⟩ := List.cons.inj hrest
          exact absurd (hw ▸ List.mem_append_right _ List.mem_cons_self) hnot
    have htake : (s ++ urlMark ++ t).take (s ++ urlMark ++ w).length = s ++ urlMark ++ w := by
      rw [hsplit, List.take_left]
    obtain ⟨i, hi⟩ := Option.isSome_iff_exists.mp
      (strstr_isSome_iff.mpr ⟨s, w, rfl⟩ : (strstr (s ++ urlMark ++ w) urlMark).isSome)
    obtain ⟨rest, hrest, _⟩ := strstr_eq_some hi
    have hle : s.length ≤ i := by
      by_contra hlt
      have hlt : i < s.length := Nat.lt_of_not_le hlt
      rw [List.append_assoc, List.drop_append_of_le_length hlt.le, List.drop_eq_getElem_cons hlt] at hrest
      have hchar : s[i] = ':' := (List.cons.inj hrest).1
      exact hcolon (hchar ▸ List.getElem_mem hlt)
    rw [htake, hi, Option.getD_some, List.take_append_of_le_length, List.take_take, Nat.min_eq_left (by omega),
      ← hlength, List.take_left]
    rw [List.length_take, List.length_append]
    omega

theorem credType_setUrl {arg : CString} (h : urlAccepted arg = true) (c : Creds) :
    credType (c.setUrl arg).url = urlType arg := by
  obtain ⟨s, t, hbase, hlength, hcolon, hat⟩ := accepted_scheme h
  have hseven : (c.setUrl arg).url.take 7 = (baseUrl arg).take 7 := by
    rw [show 7 = min 7 (s.length + 3) by omega, ← List.take_take, setUrl_take hbase hcolon hat, hbase,
      ← List.take_take, List.take_left' (show (s ++ urlMark).length = s.length + 3 from List.length_append)]
  rw [credType, urlType, strncasecmp, hseven, baseUrl]
  cases strstr arg urlMark with
  | none => rfl
  | some p => rfl

end Url

section Table

variable {s s' : Pools} {t : PoolTable}

def PoolEntry.slot (p : PoolEntry) : PoolSlot :=
  { type := p.type, valid := p.valid, disabled := p.disabled, removed := p.removed }

/-- The table of a program that goes on, whatever places it has used. -/
structure ShowsTable (s : Pools) (t : PoolTable) : Prop where
  cur : t.curPooln = s.curPooln
  num : t.numPools = s.numPools
  pools : ∀ i, t.pools i = (s.pools i).slot
  ended : t.ended = false

theorem ShowsTable.use (h : ShowsTable s t) (is : List Int) : ShowsTable s (t.use is) :=
  ⟨h.cur, h.num, h.pools, h.ended⟩

theorem firstValidLoop_congr {t t' : PoolTable} (hnum : t.numPools = t'.numPools)
    (hpools : ∀ i, t.pools i = t'.pools i) (startfrom : Int) (n : Nat) (i : Int) :
    firstValidLoop t startfrom n i = firstValidLoop t' startfrom n i := by
  induction n generalizing i with
  | zero => rfl
  | succ n ih => rw [firstValidLoop, firstValidLoop, ih, hnum, hpools]

theorem ShowsTable.firstValid (h : ShowsTable s t) (startfrom : Int) :
    poolGetFirstValid t startfrom = poolGetFirstValid s.table startfrom := by
  rw [poolGetFirstValid, poolGetFirstValid, h.num]
  exact firstValidLoop_congr h.num h.pools startfrom _ 0

theorem ShowsTable.poolSwitch (h : ShowsTable s t) (pooln : Int) :
    ShowsTable (s.poolSwitch pooln) (poolSwitch t pooln) := by
  simp only [VerusMiner.poolSwitch, Pools.poolSwitch, PoolTable.use, h.num]
  split_ifs
  · exact ⟨rfl, rfl, h.pools, h.ended⟩
  · exact ⟨h.cur, rfl, h.pools, h.ended⟩

theorem ShowsTable.poolSwitchNext (h : ShowsTable s t) : ShowsTable s.poolSwitchNext (poolSwitchNext t) := by
  rw [VerusMiner.poolSwitchNext, Pools.poolSwitchNext, h.num]
  split_ifs
  · rw [h.cur, h.firstValid]
    exact (h.use _).poolSwitch _
  · exact h

theorem slot_setCreds {p : PoolEntry} {c : Creds} (hurl : c.url ≠ []) :
    (p.setCreds c).slot = { p.slot with type := credType c.url, valid := true } := by
  simp only [PoolEntry.setCreds, if_neg hurl]
  split_ifs <;> rfl

theorem ShowsTable.place (h : ShowsTable s t) : (takePlace t).curPooln = s.urlPlace ∧
    (takePlace t).numPools =
      (if (s.pools s.curPooln).type = .unused then s.numPools else max (s.urlPlace + 1) s.numPools) ∧
    (takePlace t).pools = t.pools ∧ (takePlace t).ended = t.ended := by
  have htype : (t.pools t.curPooln).type = (s.pools s.curPooln).type := by rw [h.cur, h.pools]; rfl
  rw [takePlace, Pools.urlPlace, htype]
  split_ifs
  · exact ⟨h.cur, h.num, rfl, rfl⟩
  · rw [h.cur, h.num]
    exact ⟨rfl, rfl, rfl, rfl⟩

theorem ShowsTable.parseUrl (h : ShowsTable s t) {arg : CString} (hparse : s.parseUrl arg = some s') :
    ShowsTable s' (parseArgUrl t arg) := by
  obtain ⟨haccepted, rfl⟩ := parseUrl_cases hparse
  have hslot := slot_setCreds (p := s.pools s.urlPlace) (setUrl_url_ne_nil haccepted s.creds)
  rw [credType_setUrl haccepted] at hslot
  obtain ⟨hcur, hnum, hpools, hended⟩ := (h.use [t.curPooln]).place
  rw [parseArgUrl, if_pos haccepted]
  refine ⟨hcur, hnum, fun i => ?_, hended.trans h.ended⟩
  have hfilled : (poolSetCreds (takePlace (t.use [t.curPooln])) (takePlace (t.use [t.curPooln])).curPooln arg).pools =
      Function.update t.pools s.urlPlace { t.pools s.urlPlace with type := urlType arg, valid := true } := by
    rw [poolSetCreds, hcur, hpools]
    rfl
  rw [hfilled, h.pools]
  by_cases hi : i = s.urlPlace
  · subst hi
    rw [Function.update_self]
    simp only [Function.update_self]
    exact hslot.symm
  · rw [Function.update_of_ne hi]
    simp only [Function.update_of_ne hi]
    exact h.pools i

theorem ShowsTable.poolSwitchUrl (h : ShowsTable s t) {params : CString}
    (hswitch : s.poolSwitchUrl params = some s') : ShowsTable s' (poolSwitchUrl t params) := by
  obtain ⟨s₁, hparse, rfl⟩ := Option.map_eq_some_iff.mp hswitch
  have hparsed := h.parseUrl hparse
  have hback : ShowsTable { s₁ with curPooln := s.curPooln }
      { parseArgUrl t params with curPooln := s.curPooln } := ⟨rfl, hparsed.num, hparsed.pools, hparsed.ended⟩
  have hgoes : VerusMiner.poolSwitchUrl t params =
      if (parseArgUrl t params).curPooln = t.curPooln then { parseArgUrl t params with curPooln := t.curPooln }
      else VerusMiner.poolSwitch { parseArgUrl t params with curPooln := t.curPooln }
        (parseArgUrl t params).curPooln := if_neg (hparsed.ended ▸ Bool.false_ne_true)
  rw [hgoes, hparsed.cur, h.cur]
  simp only
  split_ifs
  · exact hback
  · exact hback.poolSwitch s₁.curPooln

theorem ShowsTable.step (h : ShowsTable s t) {e : PoolEvent} (hstep : poolsStep s e = some s') :
    ∃ t', poolStep t e = some t' ∧ ShowsTable s' t' := by
  refine ⟨_, if_neg (h.ended ▸ Bool.false_ne_true), ?_⟩
  cases e with
  | pool params => exact Option.some.inj hstep ▸ h.use _
  | wannaMine overDiff overRate =>
    obtain rfl := Option.some.inj hstep
    cases overDiff <;> cases overRate <;> exact ⟨h.cur, h.num, h.pools, h.ended⟩
  | failover => exact Option.some.inj hstep ▸ h.poolSwitchNext
  | conditionSwitch => exact Option.some.inj hstep ▸ (h.use _).poolSwitchNext
  | switchpool params =>
    obtain rfl := Option.some.inj hstep
    simp only [remoteSwitchpool, Pools.remoteSwitchpool]
    split
    · exact h.poolSwitchNext
    · exact h.poolSwitchNext
    · simp only [h.cur, h.num]
      split_ifs
      · exact h
      · exact h.poolSwitch _
      · exact h
  | seturl params =>
    cases params with
    | none => exact Option.some.inj hstep ▸ h.poolSwitchNext
    | some params =>
      cases params with
      | nil => exact Option.some.inj hstep ▸ h.poolSwitchNext
      | cons c params => exact h.poolSwitchUrl hstep

def Pools.config (s : Pools) (hpos : 1 ≤ s.numPools) (hmax : s.numPools ≤ maxPools) : PoolConfig where
  pools := fun i => (s.pools i).slot
  numPools := s.numPools
  one_le := hpos
  le_max := hmax

theorem start_showsTable (hpos : 1 ≤ s.numPools) (hmax : s.numPools ≤ maxPools) :
    ShowsTable s.start (startTable (s.config hpos hmax)) := by
  have hslot : ∀ i, (s.pools i).slot = (s.poolInitDefaults.pools i).slot := by
    intro i
    simp only [Pools.poolInitDefaults]
    split_ifs <;> rfl
  have hfirst : poolGetFirstValid (configured (s.config hpos hmax)) 0 =
      poolGetFirstValid s.poolInitDefaults.table 0 := by
    rw [poolGetFirstValid, poolGetFirstValid]
    exact firstValidLoop_congr (by rfl) hslot 0 _ 0
  have hmoved : ShowsTable
      { s.poolInitDefaults with curPooln := (poolGetFirstValid s.poolInitDefaults.table 0).1 }
      { (configured (s.config hpos hmax)).use (poolGetFirstValid s.poolInitDefaults.table 0).2 with
        curPooln := (poolGetFirstValid s.poolInitDefaults.table 0).1 } := ⟨rfl, rfl, hslot, rfl⟩
  rw [startTable, hfirst]
  exact hmoved.poolSwitch _

end Table

/-- Every run of a program with its options is a run of the table it starts with. -/
theorem run_showsTable {atof : CString → Float} {beyond : Int → PoolEntry} {os : List (OptKey × CString)}
    {s₀ s : Pools} {es : List PoolEvent} (hread : Configures atof beyond os s₀)
    (hrun : run poolsStep s₀.start es = some s) :
    ∃ cfg t, run poolStep (startTable cfg) es = some t ∧ ShowsTable s t := by
  obtain ⟨hreading, _⟩ := hread.reading
  have hcur := hreading.cur
  have hpos : 1 ≤ s₀.numPools := by omega
  have hsteps {s s' : Pools} {t : PoolTable} {e : PoolEvent} (h : ShowsTable s t) (hstep : poolsStep s e = some s') :
      ∃ t', poolStep t e = some t' ∧ ShowsTable s' t' := h.step hstep
  obtain ⟨t, hrun', hshows⟩ := run_simulates hsteps hrun (start_showsTable hpos hreading.num)
  exact ⟨_, t, hrun', hshows⟩

/-- So there are never more pools than places in the table. -/
theorem pools_numPools_le {atof : CString → Float} {beyond : Int → PoolEntry} {os : List (OptKey × CString)}
    {s₀ s : Pools} {es : List PoolEvent} (hread : Configures atof beyond os s₀)
    (hrun : run poolsStep s₀.start es = some s) : s.numPools ≤ maxPools := by
  obtain ⟨cfg, t, hrun', hshows⟩ := run_showsTable hread hrun
  exact hshows.num ▸ run_numPools_le cfg hrun'

end VerusMiner
