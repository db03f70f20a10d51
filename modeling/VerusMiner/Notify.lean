import VerusMiner.Job

/-! What a notify message says and what of it reaches the job. -/

namespace VerusMiner

structure JobBytes where
  version : List Byte
  prevhash : List Byte
  merkle : List Byte
  reserved : List Byte
  ntime : List Byte
  nbits : List Byte
  solution : List Byte

def fieldBytes (params : Json) (i n : Nat) : Option (List Byte) :=
  ((jsonStringValue (jsonArrayGet params i)).bind hexDecode).filter (·.length = n)

/-- The message has all fields, each in hex digits and of its length, and
these are its values. -/
structure Encodes (params : Json) (jobId : CString) (b : JobBytes) : Prop where
  jobId : jsonStringValue (jsonArrayGet params 0) = some jobId
  version : fieldBytes params 1 4 = some b.version
  prevhash : fieldBytes params 2 32 = some b.prevhash
  merkle : fieldBytes params 3 32 = some b.merkle
  reserved : fieldBytes params 4 32 = some b.reserved
  ntime : fieldBytes params 5 4 = some b.ntime
  nbits : fieldBytes params 6 4 = some b.nbits
  solution : fieldBytes params 8 1344 = some b.solution

def TextEncodes (s : CString) (n : Nat) (bs : List Byte) : Prop :=
  hexDecode s = some bs ∧ bs.length = n

structure ParamsEncode (p : NotifyParams) (b : JobBytes) : Prop where
  version : TextEncodes p.version 4 b.version
  prevhash : TextEncodes p.prevhash 32 b.prevhash
  merkle : TextEncodes p.coinb1 32 b.merkle
  reserved : TextEncodes p.coinb2 32 b.reserved
  ntime : TextEncodes p.stime 4 b.ntime
  nbits : TextEncodes p.nbits 4 b.nbits
  solution : ∃ s, p.solution = some s ∧ TextEncodes s 1344 b.solution

def Holds (m : Mem) (off : Nat) (bs : List Byte) : Prop :=
  ∀ i < bs.length, m (off + i) = ofBytes bs i

/-- The fields written under the lock. -/
structure HeaderHolds (job : StratumJob) (jobId : CString) (b : JobBytes) : Prop where
  jobId : job.jobId = some jobId
  version : Holds job.version 0 b.version
  prevhash : Holds job.prevhash 0 b.prevhash
  merkle : Holds job.coinbase 0 b.merkle
  reserved : Holds job.coinbase 32 b.reserved
  ntime : Holds job.ntime 0 b.ntime
  nbits : Holds job.nbits 0 b.nbits

structure JobHolds (job : StratumJob) (jobId : CString) (b : JobBytes) : Prop
    extends HeaderHolds job jobId b where
  solution : Holds job.solution 0 b.solution

theorem fieldBytes_eq_some {params : Json} {i n : Nat} {bs : List Byte} :
    fieldBytes params i n = some bs ↔
      ∃ s, jsonStringValue (jsonArrayGet params i) = some s ∧ TextEncodes s n bs := by
  simp only [fieldBytes, TextEncodes, Option.filter_eq_some_iff, Option.bind_eq_some_iff,
    decide_eq_true_eq]
  constructor
  · rintro ⟨⟨s, hs, hd⟩, hn⟩
    exact ⟨s, hs, hd, hn⟩
  · rintro ⟨s, hs, hd, hn⟩
    exact ⟨⟨s, hs, hd⟩, hn⟩

theorem TextEncodes.length {s : CString} {n : Nat} {bs : List Byte} (h : TextEncodes s n bs) :
    s.length = 2 * n := by
  rw [hexDecode_length h.1, h.2]

theorem TextEncodes.holds {s : CString} {n : Nat} {bs : List Byte} (h : TextEncodes s n bs)
    (m : Mem) (off : Nat) : Holds (hex2bin m off s n).1 off bs := by
  obtain ⟨hd, hn⟩ := h
  intro i hi
  rw [← hn, hex2bin_of_hexDecode hd]
  dsimp only
  rw [memcpy_at hi, Nat.zero_add]

theorem Holds.memcpy_off {m src : Mem} {off soff n a : Nat} {bs : List Byte} (h : Holds m a bs)
    (hoff : a + bs.length ≤ off) : Holds (memcpy m off src soff n) a bs := by
  intro i hi
  rw [VerusMiner.memcpy_off (.inl (by omega)), h i hi]

theorem Holds.hex2bin_off {m : Mem} {s : CString} {off n a : Nat} {bs : List Byte}
    (h : Holds m a bs) (hoff : a + bs.length ≤ off) : Holds (hex2bin m off s n).1 a bs := by
  intro i hi
  rw [VerusMiner.hex2bin_off m off s n (.inl (by omega)), h i hi]

theorem Encodes.notifyParams {params : Json} {jobId : CString} {b : JobBytes}
    (h : Encodes params jobId b) :
    ∃ p, notifyParams params = some p ∧ p.jobId = jobId ∧ ParamsEncode p b := by
  obtain ⟨_, hs1, h1⟩ := fieldBytes_eq_some.mp h.version
  obtain ⟨_, hs2, h2⟩ := fieldBytes_eq_some.mp h.prevhash
  obtain ⟨_, hs3, h3⟩ := fieldBytes_eq_some.mp h.merkle
  obtain ⟨_, hs4, h4⟩ := fieldBytes_eq_some.mp h.reserved
  obtain ⟨_, hs5, h5⟩ := fieldBytes_eq_some.mp h.ntime
  obtain ⟨_, hs6, h6⟩ := fieldBytes_eq_some.mp h.nbits
  obtain ⟨s8, hs8, h8⟩ := fieldBytes_eq_some.mp h.solution
  simp only [VerusMiner.notifyParams, h.jobId, hs1, hs2, hs3, hs4, hs5, hs6, hs8, Option.bind_eq_bind,
    Option.bind_some, h1.length, h2.length, h3.length, h4.length, h5.length, h6.length]
  refine ⟨_, rfl, rfl, ?_⟩
  exact
    { version := h1, prevhash := h2, merkle := h3, reserved := h4, ntime := h5, nbits := h6
      solution := ⟨s8, rfl, h8⟩ }

section Locked

variable {p : NotifyParams} {b : JobBytes}

theorem notifySolution_holds (h : ParamsEncode p b) (sctx : StratumCtx) :
    ∃ sctx', notifySolution p sctx = some sctx' ∧ Holds sctx'.job.solution 0 b.solution := by
  obtain ⟨s, hs, henc⟩ := h.solution
  rw [notifySolution, hs]
  exact ⟨_, rfl, henc.holds _ _⟩

theorem notifyLocked_holds (h : ParamsEncode p b) (sctx : StratumCtx) :
    HeaderHolds (notifyLocked p sctx).job p.jobId b := by
  have h1 : p.coinb1.length / 2 = 32 := by
    rw [h.merkle.length]
  have h2 : p.coinb2.length / 2 = 32 := by
    rw [h.reserved.length]
  simp only [notifyLocked, h1, h2]
  exact
    { jobId := rfl
      version := h.version.holds _ _
      prevhash := h.prevhash.holds _ _
      merkle := ((h.merkle.holds _ _).hex2bin_off (by rw [h.merkle.2])).memcpy_off
        (by rw [h.merkle.2]; omega)
      reserved := (h.reserved.holds _ _).memcpy_off (by rw [h.reserved.2])
      ntime := h.ntime.holds _ _
      nbits := h.nbits.holds _ _ }

theorem notifyLocked_solution (p : NotifyParams) (sctx : StratumCtx) :
    (notifyLocked p sctx).job.solution = sctx.job.solution := rfl

theorem notifySrvtime_job (now : Word) (ntimeStack : Mem) (p : NotifyParams) (sctx : StratumCtx) :
    (notifySrvtime now ntimeStack p sctx).job = sctx.job := by
  dsimp only [notifySrvtime]
  split_ifs <;> rfl

end Locked

theorem verusStratumNotify_holds (now : Word) (ntimeStack : Mem) {params : Json} {jobId : CString}
    {b : JobBytes} (h : Encodes params jobId b) (sctx : StratumCtx) :
    ∃ sctx', verusStratumNotify now ntimeStack sctx params = some (true, sctx') ∧
      JobHolds sctx'.job jobId b := by
  obtain ⟨p, hp, rfl, henc⟩ := h.notifyParams
  obtain ⟨sctx₁, h₁, hsol⟩ := notifySolution_holds henc sctx
  refine ⟨notifyLocked p (notifySrvtime now ntimeStack p sctx₁), ?_, ?_⟩
  · simp only [verusStratumNotify, hp, h₁, Option.map_some]
  · refine ⟨notifyLocked_holds henc _, ?_⟩
    rw [notifyLocked_solution, notifySrvtime_job]
    exact hsol

structure JobBytes.Sized (b : JobBytes) : Prop where
  version : b.version.length = 4
  prevhash : b.prevhash.length = 32
  merkle : b.merkle.length = 32
  reserved : b.reserved.length = 32
  ntime : b.ntime.length = 4
  nbits : b.nbits.length = 4
  solution : b.solution.length = 1344

theorem Encodes.sized {params : Json} {jobId : CString} {b : JobBytes} (h : Encodes params jobId b) :
    b.Sized := by
  have hlen {i n : Nat} {bs : List Byte} (hf : fieldBytes params i n = some bs) : bs.length = n := by
    obtain ⟨_, _, henc⟩ := fieldBytes_eq_some.mp hf
    exact henc.2
  exact ⟨hlen h.version, hlen h.prevhash, hlen h.merkle, hlen h.reserved, hlen h.ntime,
    hlen h.nbits, hlen h.solution⟩

structure WorkOf (work : Work) (b : JobBytes) : Prop where
  version : Holds work.data 0 b.version
  prevhash : Holds work.data 4 b.prevhash
  merkle : Holds work.data 36 b.merkle
  reserved : Holds work.data 68 b.reserved
  ntime : Holds work.data 100 b.ntime
  nbits : Holds work.data 104 b.nbits
  solution : Holds work.solution 0 b.solution

theorem genWorkData_workOf {sctx : StratumCtx} {jobId : CString} {b : JobBytes} (hb : b.Sized)
    (h : JobHolds sctx.job jobId b) {work : Work} (hdata : work.data = genWorkData sctx)
    (hsolution : ∀ i < 1344, work.solution i = sctx.job.solution i) : WorkOf work b := by
  have hat {i : Nat} (hi : i < 140) := hdata ▸ genWorkData_at sctx hi
  constructor
  · intro i hi
    have hlt := hb.version
    rw [hat (by omega), if_pos (by omega)]
    exact h.version i hi
  · intro i hi
    have hlt := hb.prevhash
    rw [hat (by omega), if_neg (by omega), if_pos (by omega), Nat.add_sub_cancel_left,
      ← h.prevhash i hi, Nat.zero_add]
  · intro i hi
    have hlt := hb.merkle
    rw [hat (by omega), if_neg (by omega), if_neg (by omega), if_pos (by omega),
      Nat.add_sub_cancel_left, ← h.merkle i hi, Nat.zero_add]
  · intro i hi
    have hlt := hb.reserved
    rw [hat (by omega), if_neg (by omega), if_neg (by omega), if_pos (by omega),
      show 68 + i - 36 = 32 + i by omega, ← h.reserved i hi]
  · intro i hi
    have hlt := hb.ntime
    rw [hat (by omega), if_neg (by omega), if_neg (by omega), if_neg (by omega), if_pos (by omega),
      Nat.add_sub_cancel_left, ← h.ntime i hi, Nat.zero_add]
  · intro i hi
    have hlt := hb.nbits
    rw [hat (by omega), if_neg (by omega), if_neg (by omega), if_neg (by omega),
      if_neg (by omega), if_pos (by omega), Nat.add_sub_cancel_left, ← h.nbits i hi, Nat.zero_add]
  · intro i hi
    have hlt := hb.solution
    rw [Nat.zero_add, hsolution i (by omega), ← h.solution i hi, Nat.zero_add]

/-- Accepted as a whole or refused as a whole. -/
def NotifyAtomic (now : Word) (ntimeStack : Mem) (sctx : StratumCtx) (params : Json) : Prop :=
  ∃ ret sctx', verusStratumNotify now ntimeStack sctx params = some (ret, sctx') ∧
    (ret = true → ∃ jobId b, Encodes params jobId b ∧ JobHolds sctx'.job jobId b) ∧
    ((¬ ∃ jobId b, Encodes params jobId b) → ret = false ∧ sctx'.job = sctx.job)

/-- Only the string types and the lengths of the first fields are checked, so
a message is taken atomically when these fail or nothing is wrong with it. -/
theorem notifyAtomic_iff (now : Word) (ntimeStack : Mem) (sctx : StratumCtx) (params : Json) :
    NotifyAtomic now ntimeStack sctx params ↔
      notifyParams params = none ∨ ∃ jobId b, Encodes params jobId b := by
  constructor
  · rintro ⟨ret, sctx', hrun, htrue, _⟩
    cases hp : notifyParams params with
    | none => exact .inl rfl
    | some p =>
      simp only [verusStratumNotify, hp, Option.map_eq_some_iff] at hrun
      obtain ⟨_, _, hret⟩ := hrun
      obtain ⟨jobId, b, henc, _⟩ := htrue (congrArg Prod.fst hret).symm
      exact .inr ⟨jobId, b, henc⟩
  · rintro (hp | ⟨jobId, b, henc⟩)
    · refine ⟨false, sctx, by simp only [verusStratumNotify, hp], by simp, fun _ => ⟨rfl, rfl⟩⟩
    · obtain ⟨sctx', hrun, hholds⟩ := verusStratumNotify_holds now ntimeStack henc sctx
      exact ⟨true, sctx', hrun, fun _ => ⟨jobId, b, henc, hholds⟩, fun h => absurd ⟨jobId, b, henc⟩ h⟩

def zeroJob : StratumJob where
  jobId := none
  prevhash := fun _ => 0
  coinbase := fun _ => 0
  version := fun _ => 0
  nbits := fun _ => 0
  ntime := fun _ => 0
  extra := fun _ => 0
  clean := false
  height := 0
  diff := 0.0
  solution := fun _ => 0

def zeroCtx : StratumCtx where
  nextDiff := 0.0
  xnonce1Size := 0
  xnonce1 := fun _ => 0
  xnonce2Size := 0
  job := zeroJob
  pooln := 0
  srvtimeDiff := 0

def notified (sctx : StratumCtx) (params : Json) : StratumCtx :=
  ((verusStratumNotify 0 (fun _ => 0) sctx params).getD (false, sctx)).2

def generated (sctx : StratumCtx) : Work := (stratumGenWork 1.0 sctx zeroWork).getD zeroWork

theorem stratumGenWork_generated {sctx : StratumCtx} (h : sctx.job.jobId.isSome = true) :
    stratumGenWork 1.0 sctx zeroWork = some (generated sctx) := by
  obtain ⟨jobId, hjob⟩ := Option.isSome_iff_exists.mp h
  simp only [generated, stratumGenWork, hjob, Option.map_some, Option.getD_some]

theorem generated_target (sctx : StratumCtx) (h : sctx.job.jobId.isSome = true) {i : Nat}
    (hi : i < 32) : (generated sctx).target i = sctx.job.extra i :=
  (stratumGenWork_eq (stratumGenWork_generated h)).2.2 i hi

def zeroNotify (jobId : CString) (digit : Char) (solution : CString) : Json :=
  let zeros (n : Nat) : Json := .string (List.replicate n '0')
  .array [.string jobId, .string (digit :: List.replicate 7 '0'), zeros 64, zeros 64, zeros 64,
    zeros 8, zeros 8, .bool false, .string solution]

theorem textEncodes_zeros {k n : Nat} (h : k = 2 * n) :
    TextEncodes (List.replicate k '0') n (List.replicate n 0) := by
  subst h
  exact ⟨hexDecode_zeros n, List.length_replicate⟩

def zeroBytes (version solution : List Byte) : JobBytes where
  version := version
  prevhash := List.replicate 32 0
  merkle := List.replicate 32 0
  reserved := List.replicate 32 0
  ntime := List.replicate 4 0
  nbits := List.replicate 4 0
  solution := solution

theorem zeroNotify_encodes (jobId : CString) (digit : Char) {version : List Byte}
    (hversion : TextEncodes (digit :: List.replicate 7 '0') 4 version) {text : CString}
    {solution : List Byte} (hsolution : TextEncodes text 1344 solution) :
    Encodes (zeroNotify jobId digit text) jobId (zeroBytes version solution) where
  jobId := rfl
  version := fieldBytes_eq_some.mpr ⟨_, rfl, hversion⟩
  prevhash := fieldBytes_eq_some.mpr ⟨_, rfl, textEncodes_zeros rfl⟩
  merkle := fieldBytes_eq_some.mpr ⟨_, rfl, textEncodes_zeros rfl⟩
  reserved := fieldBytes_eq_some.mpr ⟨_, rfl, textEncodes_zeros rfl⟩
  ntime := fieldBytes_eq_some.mpr ⟨_, rfl, textEncodes_zeros rfl⟩
  nbits := fieldBytes_eq_some.mpr ⟨_, rfl, textEncodes_zeros rfl⟩
  solution := fieldBytes_eq_some.mpr ⟨_, rfl, hsolution⟩

/-- A solution of one byte is taken, and the other 1343 stay the old job's. -/
theorem notify_short_solution :
    ¬ NotifyAtomic 0 (fun _ => 0)
      { zeroCtx with job := { zeroJob with solution := fun _ => 0xff } }
      (zeroNotify ['1'] '0' ['0', '0']) := by
  rintro ⟨ret, sctx', hrun, htrue, _⟩
  have hret : ret = true := (congrArg Prod.fst (Option.some.inj hrun)).symm
  obtain ⟨jobId, b, henc, _⟩ := htrue hret
  have hnone : fieldBytes (zeroNotify ['1'] '0' ['0', '0']) 8 1344 = none := by decide
  have hsolution := henc.solution
  rw [hnone] at hsolution
  cases hsolution

end VerusMiner
