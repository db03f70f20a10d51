import VerusMiner.Lib.Blocks
import VerusMiner.Lib.CMemory
import VerusMiner.Lib.Runs
import VerusMiner.Notify

/-! The blocks a job lives in: what the notifies allocate, before the pool has
set a target and after, and what they and the end of a connection free. -/

namespace VerusMiner

structure ClassicParams where
  jobId : CString
  prevhash : CString
  coinb1 : CString
  coinb2 : CString
  merkle : List Json
  version : CString
  nbits : CString
  stime : CString
  clean : Bool
  solution : Option CString

def classicParams (params : Json) : Option ClassicParams := do
  let param (p : Nat) := jsonStringValue (jsonArrayGet params p)
  let merkle ← match jsonArrayGet params 4 with
    | some (.array merkle) => some merkle
    | _ => none
  let jobId ← param 0
  let prevhash ← param 1
  let coinb1 ← param 2
  let coinb2 ← param 3
  let version ← param 5
  let nbits ← param 6
  let stime ← param 7
  if prevhash.length ≠ 64 ∨ version.length ≠ 8 ∨ nbits.length ≠ 8 ∨ stime.length ≠ 8 then none
  else
    some { jobId, prevhash, coinb1, coinb2, merkle, version, nbits, stime,
           clean := jsonIsTrue (jsonArrayGet params 8), solution := param 9 }

/-- From the place `p` on, over at most `n` bytes that are as asked. -/
def skipBytes (ask : Byte → Bool) (m : Mem) (p : Nat) : Nat → Nat
  | 0 => p
  | n + 1 => if ask (m p) then skipBytes ask m (p + 1) n else p

/-- The first byte behind the tag, which is looked for in 128 bytes. -/
def heightTag (coinbase : Mem) : Nat :=
  let p := skipBytes (· != 0xff) coinbase 32 128
  skipBytes (· == 0xff) coinbase p (160 - p)

def le16dec (m : Mem) (p : Nat) : Word := (m (p + 1) ++ m p).setWidth 32

def heightTagged (coinbase : Mem) : Bool :=
  coinbase (heightTag coinbase - 1) == 0xff && coinbase (heightTag coinbase - 2) == 0xff

def getblocheight (coinbase : Mem) : Word :=
  let p := heightTag coinbase
  if heightTagged coinbase then
    let height := le16dec coinbase (p + 2)
    if coinbase (p + 1) = 4 then height + 0x10000 * le16dec coinbase (p + 4)
    else if coinbase (p + 1) = 3 then height + 0x10000 * (coinbase (p + 4)).setWidth 32
    else height
  else 0

/-- The end of what `getblocheight` reads, which nothing bounds. -/
def heightEnd (coinbase : Mem) : Nat :=
  let p := heightTag coinbase
  if heightTagged coinbase then
    if coinbase (p + 1) = 4 then p + 6 else if coinbase (p + 1) = 3 then p + 5 else p + 4
  else p + 1

/-- The addresses of what the job and the extranonce point to; `ret` is what the
last message returned. -/
structure JobMemory where
  ret : Bool
  blocks : Blocks
  jobId : Option Nat
  coinbase : Option Nat
  coinbaseSize : Nat
  merkle : Option Nat
  branches : List Nat
  xnonce1 : Option Nat
  isEquihash : Bool
  sctx : StratumCtx

def touchPointer (h : Blocks) (q : Option Nat) (n : Nat) : Except BlockFault Unit :=
  match q with
  | some p => h.touch p n
  | none => if n = 0 then .ok () else .error .null

/-- Whether all branches are 64 characters, and the blocks up to the first
that is not. -/
def mallocBranches (merkle : Option Nat) (h : Blocks) (ptrs : List Nat) :
    List Json → Except BlockFault (Bool × List Nat × Blocks)
  | [] => .ok (true, ptrs, h)
  | branch :: rest =>
    match jsonStringValue (some branch) with
    | none => .ok (false, ptrs, h)
    | some s =>
      if s.length ≠ 64 then .ok (false, ptrs, h)
      else do
        let (p, h) := h.malloc 32
        touchPointer h merkle (8 * (ptrs.length + 1))
        mallocBranches merkle h (ptrs ++ [p]) rest

def classicSrvtime (now : Word) (ntimeStack : Mem) (p : ClassicParams) (sctx : StratumCtx) : StratumCtx :=
  let ntime := swab32 (le32dec (hex2bin ntimeStack 0 p.stime 4).1 0) - now
  if ntime.toInt > sctx.srvtimeDiff.toInt then { sctx with srvtimeDiff := ntime } else sctx

/-- The bytes of the new block, of which `fresh` are those the allocator gives. -/
def classicCoinbase (fresh : Mem) (p : ClassicParams) (s : JobMemory) : Mem :=
  let coinb1Size := p.coinb1.length / 2
  let xnonce1Size := s.sctx.xnonce1Size
  let xnonce2Size := s.sctx.xnonce2Size.toNat
  let coinbase : Mem := fun i => if i < s.coinbaseSize then s.sctx.job.coinbase i else fresh i
  let coinbase := (hex2bin coinbase 0 p.coinb1 coinb1Size).1
  let coinbase := memcpy coinbase coinb1Size s.sctx.xnonce1 0 xnonce1Size
  let coinbase :=
    if s.sctx.job.jobId = some p.jobId then coinbase
    else memset coinbase (coinb1Size + xnonce1Size) 0 xnonce2Size
  (hex2bin coinbase (coinb1Size + xnonce1Size + xnonce2Size) p.coinb2 (p.coinb2.length / 2)).1

def classicLocked (coinbase : Mem) (p : ClassicParams) (solution : CString) (sctx : StratumCtx) : StratumCtx :=
  let job := sctx.job
  { sctx with
    job := { job with
      jobId := some p.jobId
      prevhash := (hex2bin job.prevhash 0 p.prevhash 32).1
      coinbase := coinbase
      version := (hex2bin job.version 0 p.version 4).1
      nbits := (hex2bin job.nbits 0 p.nbits 4).1
      ntime := (hex2bin job.ntime 0 p.stime 4).1
      clean := p.clean
      height := getblocheight coinbase
      diff := sctx.nextDiff
      solution := (hex2bin job.solution 0 solution 1344).1 } }

def coinbaseBytes (coinb1 coinb2 : CString) (sctx : StratumCtx) : Nat :=
  coinb1.length / 2 + coinb2.length / 2 + sctx.xnonce1Size + sctx.xnonce2Size.toNat

/-- The writes into the new block end at its end. -/
def writeCoinbase (h : Blocks) (coinbase : Nat) (coinb1 coinb2 : CString) (xnonce1 : Option Nat)
    (sctx : StratumCtx) : Except BlockFault Unit := do
  touchPointer h xnonce1 sctx.xnonce1Size
  h.touch coinbase (coinbaseBytes coinb1 coinb2 sctx)

def freeBranches (h : Blocks) (s : JobMemory) : Except BlockFault Blocks := do
  let h ← h.freeAll s.branches
  h.free s.merkle

def mallocMerkle (h : Blocks) (count : Nat) : Option Nat × Blocks :=
  if count = 0 then (none, h) else ((h.malloc (8 * count)).1, (h.malloc (8 * count)).2)

/-- With the new coinbase and the new id in place. -/
def classicFields (bytes : Mem) (p : ClassicParams) (s : JobMemory) (jobId coinbase merkle : Option Nat)
    (branches : List Nat) : Except BlockFault JobMemory := do
  touchPointer s.blocks coinbase (heightEnd bytes)
  let blocks ← freeBranches s.blocks s
  match p.solution with
  | none => .error .null
  | some solution =>
    return { s with
      ret := true
      blocks := blocks
      jobId := jobId
      coinbase := coinbase
      coinbaseSize := coinbaseBytes p.coinb1 p.coinb2 s.sctx
      merkle := merkle
      branches := branches
      sctx := classicLocked bytes p solution s.sctx }

/-- After the time of the server was noted. -/
def classicJob (fresh : Mem) (p : ClassicParams) (s : JobMemory) : Except BlockFault JobMemory := do
  let (merkle, blocks) := mallocMerkle s.blocks p.merkle.length
  let (allDecoded, branches, blocks) ← mallocBranches merkle blocks [] p.merkle
  if ¬ allDecoded then do
    let blocks ← blocks.freeAll branches.reverse
    let blocks ← blocks.free merkle
    return { s with ret := false, blocks := blocks }
  else do
    let bytes := classicCoinbase fresh p s
    let (coinbase, blocks) ← blocks.realloc s.coinbase (coinbaseBytes p.coinb1 p.coinb2 s.sctx)
    writeCoinbase blocks coinbase p.coinb1 p.coinb2 s.xnonce1 s.sctx
    let blocks ← blocks.free s.jobId
    let (jobId, blocks) := blocks.malloc (p.jobId.length + 1)
    classicFields bytes p { s with blocks := blocks } (some jobId) (some coinbase) merkle branches

def classicNotify (now : Word) (ntimeStack fresh : Mem) (p : ClassicParams) (s : JobMemory) :
    Except BlockFault JobMemory :=
  classicJob fresh p { s with sctx := classicSrvtime now ntimeStack p s.sctx }

/-- With the solution decoded and the time of the server noted. -/
def verusJob (p : NotifyParams) (sctx : StratumCtx) (s : JobMemory) : Except BlockFault JobMemory := do
  let (coinbase, blocks) ← s.blocks.realloc s.coinbase (coinbaseBytes p.coinb1 p.coinb2 sctx)
  writeCoinbase blocks coinbase p.coinb1 p.coinb2 s.xnonce1 sctx
  let blocks ← freeBranches blocks s
  let blocks ← blocks.free s.jobId
  let (jobId, blocks) := blocks.malloc (p.jobId.length + 1)
  return { s with
    ret := true
    blocks := blocks
    jobId := some jobId
    coinbase := some coinbase
    coinbaseSize := coinbaseBytes p.coinb1 p.coinb2 sctx
    merkle := none
    branches := []
    sctx := notifyLocked p sctx }

def verusNotify (now : Word) (ntimeStack : Mem) (p : NotifyParams) (s : JobMemory) : Except BlockFault JobMemory :=
  match notifySolution p s.sctx with
  | none => .error .null
  | some sctx => verusJob p (notifySrvtime now ntimeStack p sctx) s

def freeMerkle (h : Blocks) (s : JobMemory) : Except BlockFault Blocks :=
  if s.branches = [] then .ok h else freeBranches h s

/-- When a connection ends with a job. -/
def freeJobMemory (s : JobMemory) : Except BlockFault JobMemory :=
  match s.jobId with
  | none => .ok s
  | some jobId => do
    let blocks ← s.blocks.free (some jobId)
    let blocks ← freeMerkle blocks s
    let blocks ← blocks.free s.coinbase
    return { s with
      blocks := blocks, jobId := none, coinbase := none, coinbaseSize := 0, merkle := none, branches := []
      sctx := { s.sctx with job := zeroJob } }

def extranonceMemory (params : Json) (pndx : Nat) (s : JobMemory) : Except BlockFault JobMemory :=
  match stratumParseExtranonce s.sctx params pndx with
  | (false, _) => .ok { s with ret := false }
  | (true, sctx) => do
    let blocks ← s.blocks.free s.xnonce1
    let (xnonce1, blocks) := blocks.malloc sctx.xnonce1Size
    return { s with ret := true, blocks := blocks, xnonce1 := some xnonce1, sctx := sctx }

inductive JobMemoryEvent where
  | extranonce (params : Json) (pndx : Nat)
  | setTarget (stack : SetTargetStack) (params : Json)
  | notify (now : Word) (ntimeStack fresh : Mem) (params : Json)
  | freeJob

def jobMemoryStep (s : JobMemory) : JobMemoryEvent → Except BlockFault JobMemory
  | .extranonce params pndx => extranonceMemory params pndx s
  | .setTarget stack params =>
    let (ret, sctx) := verusStratumSetTarget stack s.sctx params
    .ok { s with ret := ret, isEquihash := true, sctx := sctx }
  | .notify now ntimeStack fresh params =>
    if s.isEquihash then
      match notifyParams params with
      | none => .ok { s with ret := false }
      | some p => verusNotify now ntimeStack p s
    else
      match classicParams params with
      | none => .ok { s with ret := false }
      | some p => classicNotify now ntimeStack fresh p s
  | .freeJob => freeJobMemory s

namespace JobMemory

def jobIdSize (s : JobMemory) : Nat := (s.sctx.job.jobId.getD []).length + 1

/-- What the pointers of the job and the extranonce own. -/
def own (s : JobMemory) : List (Nat × Nat) :=
  (s.jobId.map fun p => (p, s.jobIdSize)).toList ++ ((s.coinbase.map fun p => (p, s.coinbaseSize)).toList ++
    (s.branches.map (fun p => (p, 32)) ++ ((s.merkle.map fun p => (p, 8 * s.branches.length)).toList ++
      (s.xnonce1.map fun p => (p, s.sctx.xnonce1Size)).toList)))

/-- What is allocated is what the pointers own, and they go together. -/
structure Tidy (s : JobMemory) : Prop where
  blocks : s.blocks.Holds s.own
  job : s.jobId = none → s.coinbase = none ∧ s.branches = [] ∧ s.merkle = none
  merkle : s.branches = [] → s.merkle = none
  xnonce1 : s.xnonce1 = none → s.sctx.xnonce1Size = 0

def IsBranch (branch : Json) : Prop := ∃ s, jsonStringValue (some branch) = some s ∧ s.length = 64

instance (branch : Json) : Decidable (IsBranch branch) :=
  decidable_of_iff ((jsonStringValue (some branch)).map List.length = some 64) Option.map_eq_some_iff

/-- What is read of the coinbase for the height lies in its block, and there is
a solution to decode. -/
def Readable (s : JobMemory) (fresh : Mem) (p : ClassicParams) : Prop :=
  heightEnd (classicCoinbase fresh p s) ≤ coinbaseBytes p.coinb1 p.coinb2 s.sctx ∧ p.solution.isSome = true

/-- A notify that passes the checks can be carried out. -/
def Fits (s : JobMemory) : JobMemoryEvent → Prop
  | .notify _ _ fresh params =>
    if s.isEquihash then ∀ p, notifyParams params = some p → p.solution.isSome = true
    else ∀ p, classicParams params = some p → (∀ branch ∈ p.merkle, IsBranch branch) → s.Readable fresh p
  | _ => True

variable {s : JobMemory}

theorem freeBranches_ok {h : Blocks} {own r : List (Nat × Nat)} (hh : h.Holds own)
    (hown : own.Perm (s.branches.map (fun p => (p, 32)) ++
      ((s.merkle.map fun p => (p, 8 * s.branches.length)).toList ++ r))) :
    ∃ h', freeBranches h s = .ok h' ∧ h'.Holds r := by
  obtain ⟨h₁, hall, hh₁, -⟩ := hh.freeAll _ hown
  obtain ⟨h₂, hfree, hh₂, -⟩ := hh₁.free_pointer (List.Perm.refl _)
  refine ⟨h₂, ?_, hh₂⟩
  rw [freeBranches, hall, ok_bind, hfree]

theorem touchPointer_ok {h : Blocks} {own : List (Nat × Nat)} (hh : h.Holds own) {q : Option Nat} {n k : Nat}
    (hq : ∀ p, q = some p → (p, n) ∈ own) (hk : k ≤ n) (hnone : q = none → k = 0) :
    touchPointer h q k = .ok () := by
  cases q with
  | none => exact if_pos (hnone rfl)
  | some p => exact hh.touch (hq p rfl) hk

/-- What lives on besides the old coinbase while the new one is written. -/
def keepsCoinbase (s : JobMemory) : List (Nat × Nat) :=
  (s.jobId.map fun p => (p, s.jobIdSize)).toList ++ (s.branches.map (fun p => (p, 32)) ++
    ((s.merkle.map fun p => (p, 8 * s.branches.length)).toList ++
      (s.xnonce1.map fun p => (p, s.sctx.xnonce1Size)).toList))

theorem own_perm (s : JobMemory) (extra : List (Nat × Nat)) :
    (extra ++ s.own).Perm ((s.coinbase.map fun p => (p, s.coinbaseSize)).toList ++ (extra ++ s.keepsCoinbase)) := by
  refine List.perm_iff_count.mpr fun b => ?_
  simp only [own, keepsCoinbase, List.count_append]
  omega

theorem mallocBranches_ok {h : Blocks} {own : List (Nat × Nat)} (hh : h.Holds own) (merkle : Option Nat) {m : Nat}
    (ptrs : List Nat) {list : List Json}
    (hmerkle : list ≠ [] → ∃ p, merkle = some p ∧ (p, m) ∈ own ∧ 8 * (ptrs.length + list.length) ≤ m) :
    ∃ decoded ptrs' h', mallocBranches merkle h ptrs list = .ok (decoded, ptrs ++ ptrs', h') ∧
      h'.Holds (ptrs'.map (fun p => (p, 32)) ++ own) ∧ (decoded = true ↔ ∀ branch ∈ list, IsBranch branch) ∧
      (decoded = true → ptrs'.length = list.length) := by
  induction list generalizing h own ptrs with
  | nil =>
    exact ⟨true, [], h, by rw [mallocBranches, List.append_nil], hh,
      iff_of_true rfl (fun _ hb => absurd hb List.not_mem_nil), fun _ => rfl⟩
  | cons branch rest ih =>
    obtain ⟨q, rfl, hq, hsize⟩ := hmerkle (List.cons_ne_nil _ _)
    rw [List.length_cons] at hsize
    have hstop (hnot : ¬ IsBranch branch) :
        (false = true ↔ ∀ b ∈ branch :: rest, IsBranch b) ∧
          (false = true → ([] : List Nat).length = (branch :: rest).length) :=
      ⟨iff_of_false Bool.false_ne_true (fun hall => hnot (hall _ List.mem_cons_self)),
        fun hfalse => absurd hfalse Bool.false_ne_true⟩
    cases hs : jsonStringValue (some branch) with
    | none =>
      refine ⟨false, [], h, ?_, hh, hstop ?_⟩
      · simp only [mallocBranches, hs, List.append_nil]
      · rintro ⟨s, hs', -⟩
        exact nomatch hs.symm.trans hs'
    | some s =>
      by_cases hlen : s.length = 64
      · have htouch : touchPointer (h.malloc 32).2 (some q) (8 * (ptrs.length + 1)) = .ok () :=
          (hh.malloc 32).touch (List.mem_cons_of_mem _ hq) (by omega)
        have hroom : 8 * ((ptrs ++ [h.next]).length + rest.length) ≤ m := by
          rw [List.length_append, List.length_singleton]
          omega
        obtain ⟨decoded, ptrs', h', hrest, hh', hiff, hlength⟩ := ih (hh.malloc 32) (ptrs ++ [h.next])
          (fun _ => ⟨q, rfl, List.mem_cons_of_mem _ hq, hroom⟩)
        refine ⟨decoded, h.next :: ptrs', h', ?_, ?_, ?_, fun hdecoded => ?_⟩
        · have hptr : (h.malloc 32).1 = h.next := rfl
          simp only [mallocBranches, hs, if_neg (not_not.mpr hlen), hptr, htouch, ok_bind]
          rw [hrest, List.append_assoc, List.singleton_append]
        · exact hh'.perm List.perm_middle
        · rw [hiff, List.forall_mem_cons, and_iff_right ⟨s, hs, hlen⟩]
        · rw [List.length_cons, List.length_cons, hlength hdecoded]
      · refine ⟨false, [], h, ?_, hh, hstop ?_⟩
        · simp only [mallocBranches, hs, if_pos hlen, List.append_nil]
        · rintro ⟨s', hs', hlen'⟩
          obtain rfl := Option.some.inj (hs.symm.trans hs')
          exact hlen hlen'

/-- The old coinbase goes and the new one is written inside its block. -/
theorem replaceCoinbase_ok (hs : s.Tidy) {h : Blocks} (extra : List (Nat × Nat)) (hh : h.Holds (extra ++ s.own))
    (coinb1 coinb2 : CString) {sctx : StratumCtx} (hsctx : sctx.xnonce1Size = s.sctx.xnonce1Size) :
    ∃ h', h.realloc s.coinbase (coinbaseBytes coinb1 coinb2 sctx) = .ok (h.next, h') ∧
      writeCoinbase h' h.next coinb1 coinb2 s.xnonce1 sctx = .ok () ∧
      h'.Holds ((h.next, coinbaseBytes coinb1 coinb2 sctx) :: (extra ++ s.keepsCoinbase)) := by
  obtain ⟨h', hrealloc, hh'⟩ := hh.realloc (s.own_perm extra) (coinbaseBytes coinb1 coinb2 sctx)
  have hxnonce1 : touchPointer h' s.xnonce1 sctx.xnonce1Size = .ok () := by
    rw [hsctx]
    refine touchPointer_ok hh' (n := s.sctx.xnonce1Size) (fun p hp => ?_) (Nat.le_refl _) hs.xnonce1
    rw [keepsCoinbase, hp]
    simp
  refine ⟨h', hrealloc, ?_, hh'⟩
  rw [writeCoinbase, hxnonce1, ok_bind]
  exact hh'.touch List.mem_cons_self (Nat.le_refl _)

theorem decodeMerkle_ok {h : Blocks} {own : List (Nat × Nat)} (hh : h.Holds own) (list : List Json) :
    ∃ merkle b decoded ptrs h', mallocMerkle h list.length = (merkle, b) ∧
      mallocBranches merkle b [] list = .ok (decoded, ptrs, h') ∧
      h'.Holds (ptrs.map (fun p => (p, 32)) ++ ((merkle.map fun p => (p, 8 * list.length)).toList ++ own)) ∧
      (decoded = true ↔ ∀ branch ∈ list, IsBranch branch) ∧
      (decoded = true → ptrs.length = list.length) ∧ (list = [] → merkle = none) := by
  cases list with
  | nil => exact ⟨none, h, true, [], h, rfl, rfl, hh, iff_of_true rfl (fun _ hb => absurd hb List.not_mem_nil),
      fun _ => rfl, fun _ => rfl⟩
  | cons branch rest =>
    have hb := hh.malloc (8 * (branch :: rest).length)
    obtain ⟨decoded, ptrs, h', hdecode, hh', hiff, hlength⟩ := mallocBranches_ok hb (some h.next)
      (m := 8 * (branch :: rest).length) []
      (fun _ => ⟨_, rfl, List.mem_cons_self, by rw [List.length_nil, Nat.zero_add]⟩)
    exact ⟨some h.next, _, decoded, ptrs, h', rfl, hdecode, hh', hiff, hlength, fun hnil => nomatch hnil⟩

theorem classicJob_undecoded (hs : s.Tidy) (fresh : Mem) {p : ClassicParams}
    (hbranches : ¬ ∀ branch ∈ p.merkle, IsBranch branch) :
    ∃ s', classicJob fresh p s = .ok s' ∧ s'.Tidy := by
  obtain ⟨merkle, b, decoded, ptrs, h₁, hmalloc, hdecode, hh₁, hiff, -, -⟩ :=
    decodeMerkle_ok hs.blocks p.merkle
  have hstop : ¬ decoded = true := fun hdecoded => hbranches (hiff.mp hdecoded)
  obtain ⟨h₂, hall, hh₂, -⟩ := hh₁.freeAll ptrs.reverse (n := 32)
    (r := (merkle.map fun q => (q, 8 * p.merkle.length)).toList ++ s.own)
    ((List.reverse_perm ptrs).symm.map _ |>.append_right _)
  obtain ⟨h₃, hfree, hh₃, -⟩ := hh₂.free_pointer (List.Perm.refl _)
  refine ⟨{ s with ret := false, blocks := h₃ }, ?_, ⟨hh₃, hs.job, hs.merkle, hs.xnonce1⟩⟩
  simp only [classicJob, hmalloc, hdecode, ok_bind, if_pos hstop, hall, hfree]
  rfl

/-- A classic job comes to its fields with everything in place but what the
old job leaves. -/
theorem classicJob_fields (hs : s.Tidy) (fresh : Mem) {p : ClassicParams}
    (hbranches : ∀ branch ∈ p.merkle, IsBranch branch) :
    ∃ h jobId coinbase merkle branches,
      classicJob fresh p s = classicFields (classicCoinbase fresh p s) p { s with blocks := h } (some jobId)
        (some coinbase) merkle branches ∧
      h.Holds ((jobId, p.jobId.length + 1) :: (coinbase, coinbaseBytes p.coinb1 p.coinb2 s.sctx) ::
        (branches.map (fun p => (p, 32)) ++ ((merkle.map fun p => (p, 8 * branches.length)).toList ++
          (s.branches.map (fun p => (p, 32)) ++ ((s.merkle.map fun p => (p, 8 * s.branches.length)).toList ++
            (s.xnonce1.map fun p => (p, s.sctx.xnonce1Size)).toList))))) ∧
      (branches = [] → merkle = none) := by
  obtain ⟨merkle, b, decoded, ptrs, h₁, hmalloc, hdecode, hh₁, hiff, hlength, hnone⟩ :=
    decodeMerkle_ok hs.blocks p.merkle
  have hdecoded : decoded = true := hiff.mpr hbranches
  have hgo : ¬ ¬ decoded = true := not_not.mpr hdecoded
  rw [← List.append_assoc] at hh₁
  obtain ⟨h₂, hrealloc, hwrite, hh₂⟩ := replaceCoinbase_ok hs _ hh₁ p.coinb1 p.coinb2 rfl
  obtain ⟨h₃, hfree, hh₃, -⟩ := hh₂.free_pointer (q := s.jobId) (n := s.jobIdSize)
    (r := (h₁.next, coinbaseBytes p.coinb1 p.coinb2 s.sctx) ::
      (ptrs.map (fun p => (p, 32)) ++ ((merkle.map fun p => (p, 8 * ptrs.length)).toList ++
        (s.branches.map (fun p => (p, 32)) ++ ((s.merkle.map fun p => (p, 8 * s.branches.length)).toList ++
          (s.xnonce1.map fun p => (p, s.sctx.xnonce1Size)).toList)))))
    (List.perm_iff_count.mpr fun b => by
      simp only [keepsCoinbase, hlength hdecoded, List.count_append, List.count_cons]
      omega)
  have hh₄ := hh₃.malloc (p.jobId.length + 1)
  refine ⟨_, _, _, merkle, ptrs, ?_, hh₄, fun hnil => hnone ?_⟩
  · simp only [classicJob, hmalloc, hdecode, ok_bind, if_neg hgo, hrealloc, hwrite, hfree]
    rfl
  · rw [← List.length_eq_zero_iff, ← hlength hdecoded, hnil, List.length_nil]

theorem classicJob_iff (hs : s.Tidy) (fresh : Mem) {p : ClassicParams}
    (hbranches : ∀ branch ∈ p.merkle, IsBranch branch) :
    ((∃ s', classicJob fresh p s = .ok s') ↔ s.Readable fresh p) ∧
    ∀ s', classicJob fresh p s = .ok s' → s'.Tidy := by
  obtain ⟨h, jobId, coinbase, merkle, branches, hjob, hh, hnone⟩ := classicJob_fields hs fresh hbranches
  have htouch := hh.touch_iff (k := heightEnd (classicCoinbase fresh p s)) (List.mem_cons_of_mem _ List.mem_cons_self)
  obtain ⟨h', hfree, hh'⟩ := freeBranches_ok (s := { s with blocks := h })
    (r := (jobId, p.jobId.length + 1) :: (coinbase, coinbaseBytes p.coinb1 p.coinb2 s.sctx) ::
      (branches.map (fun p => (p, 32)) ++ ((merkle.map fun p => (p, 8 * branches.length)).toList ++
        (s.xnonce1.map fun p => (p, s.sctx.xnonce1Size)).toList))) hh
    (List.perm_iff_count.mpr fun b => by
      simp only [List.count_append, List.count_cons]
      omega)
  have hfields (hheight : heightEnd (classicCoinbase fresh p s) ≤ coinbaseBytes p.coinb1 p.coinb2 s.sctx)
      {solution : CString} (hsolution : p.solution = some solution) :
      classicJob fresh p s = .ok { s with
        ret := true
        blocks := h'
        jobId := some jobId
        coinbase := some coinbase
        coinbaseSize := coinbaseBytes p.coinb1 p.coinb2 s.sctx
        merkle := merkle
        branches := branches
        sctx := classicLocked (classicCoinbase fresh p s) p solution s.sctx } := by
    simp only [hjob, classicFields, touchPointer, htouch.mpr hheight, ok_bind, hfree, hsolution]
    rfl
  have hread {s' : JobMemory} (hs' : classicJob fresh p s = .ok s') : s.Readable fresh p := by
    rw [hjob, classicFields] at hs'
    obtain ⟨_, hheight, hs'⟩ := bind_eq_ok.mp hs'
    obtain ⟨_, -, hs'⟩ := bind_eq_ok.mp hs'
    refine ⟨htouch.mp hheight, ?_⟩
    cases hsolution : p.solution with
    | none =>
      rw [hsolution] at hs'
      exact nomatch hs'
    | some solution => rfl
  refine ⟨⟨fun ⟨_, hs'⟩ => hread hs', fun hreads => ?_⟩, fun s' hs' => ?_⟩
  · obtain ⟨solution, hsolution⟩ := Option.isSome_iff_exists.mp hreads.2
    exact ⟨_, hfields hreads.1 hsolution⟩
  · have hreads := hread hs'
    obtain ⟨solution, hsolution⟩ := Option.isSome_iff_exists.mp hreads.2
    obtain rfl := Except.ok.inj ((hfields hreads.1 hsolution).symm.trans hs')
    refine ⟨hh'.perm ?_, fun hnone' => (nomatch hnone'), hnone, hs.xnonce1⟩
    refine List.perm_iff_count.mpr fun b => ?_
    simp only [own, jobIdSize, classicLocked, Option.map_some, Option.toList_some, Option.getD_some,
      List.count_append, List.count_cons, List.count_nil]
    omega

theorem verusJob_ok (hs : s.Tidy) (p : NotifyParams) {sctx : StratumCtx}
    (hsctx : sctx.xnonce1Size = s.sctx.xnonce1Size) : ∃ s', verusJob p sctx s = .ok s' ∧ s'.Tidy := by
  obtain ⟨h₁, hrealloc, hwrite, hh₁⟩ := replaceCoinbase_ok hs [] hs.blocks p.coinb1 p.coinb2 hsctx
  obtain ⟨h₂, hbranches, hh₂⟩ := freeBranches_ok (s := s)
    (r := (s.jobId.map fun p => (p, s.jobIdSize)).toList ++
      ((s.blocks.next, coinbaseBytes p.coinb1 p.coinb2 sctx) ::
        (s.xnonce1.map fun p => (p, s.sctx.xnonce1Size)).toList)) hh₁
    (List.perm_iff_count.mpr fun b => by
      simp only [keepsCoinbase, List.nil_append, List.count_append, List.count_cons]
      omega)
  obtain ⟨h₃, hfree, hh₃, -⟩ := hh₂.free_pointer (List.Perm.refl _)
  refine ⟨{ s with
    ret := true
    blocks := (h₃.malloc (p.jobId.length + 1)).2
    jobId := some h₃.next
    coinbase := some s.blocks.next
    coinbaseSize := coinbaseBytes p.coinb1 p.coinb2 sctx
    merkle := none
    branches := []
    sctx := notifyLocked p sctx }, ?_, ?_⟩
  · simp only [verusJob, hrealloc, ok_bind, hwrite, hbranches, hfree]
    rfl
  · refine ⟨(hh₃.malloc (p.jobId.length + 1)).perm ?_, fun hnone => ?_, fun _ => rfl, fun hnone => ?_⟩
    · refine List.perm_iff_count.mpr fun b => ?_
      simp only [own, jobIdSize, notifyLocked, hsctx, Option.map_some, Option.map_none, Option.toList_some,
        Option.toList_none, Option.getD_some, List.map_nil, List.count_append, List.count_cons, List.count_nil]
      omega
    · cases hnone
    · exact hsctx.trans (hs.xnonce1 hnone)

theorem notifySrvtime_xnonce1Size (now : Word) (ntimeStack : Mem) (p : NotifyParams) (sctx : StratumCtx) :
    (notifySrvtime now ntimeStack p sctx).xnonce1Size = sctx.xnonce1Size := by
  rw [notifySrvtime]
  split <;> rfl

theorem verusNotify_ok (hs : s.Tidy) (now : Word) (ntimeStack : Mem) {p : NotifyParams}
    (hsolution : p.solution.isSome = true) : ∃ s', verusNotify now ntimeStack p s = .ok s' ∧ s'.Tidy := by
  obtain ⟨solution, hsolution⟩ := Option.isSome_iff_exists.mp hsolution
  simp only [verusNotify, notifySolution, hsolution, Option.map_some]
  exact verusJob_ok hs p (notifySrvtime_xnonce1Size now ntimeStack p _)

theorem verusNotify_null (now : Word) (ntimeStack : Mem) {p : NotifyParams} (hsolution : p.solution = none) :
    verusNotify now ntimeStack p s = .error .null := by
  simp only [verusNotify, notifySolution, hsolution, Option.map_none]

theorem Tidy.returns (hs : s.Tidy) (ret : Bool) : Tidy { s with ret := ret } :=
  ⟨hs.blocks, hs.job, hs.merkle, hs.xnonce1⟩

theorem freeJobMemory_ok (hs : s.Tidy) : ∃ s', freeJobMemory s = .ok s' ∧ s'.Tidy := by
  cases hjob : s.jobId with
  | none => exact ⟨s, by simp only [freeJobMemory, hjob], hs⟩
  | some jobId =>
    obtain ⟨h₁, hfree₁, hh₁, -⟩ := hs.blocks.free_pointer (q := some jobId) (n := s.jobIdSize)
      (r := (s.coinbase.map fun p => (p, s.coinbaseSize)).toList ++ (s.branches.map (fun p => (p, 32)) ++
        ((s.merkle.map fun p => (p, 8 * s.branches.length)).toList ++
          (s.xnonce1.map fun p => (p, s.sctx.xnonce1Size)).toList))) (by rw [own, hjob])
    obtain ⟨h₂, hfree₂, hh₂⟩ : ∃ h, freeMerkle h₁ s = .ok h ∧
        h.Holds ((s.coinbase.map fun p => (p, s.coinbaseSize)).toList ++
          (s.xnonce1.map fun p => (p, s.sctx.xnonce1Size)).toList) := by
      rw [freeMerkle]
      split
      case isTrue hnil =>
        rw [hnil, hs.merkle hnil] at hh₁
        exact ⟨h₁, rfl, hh₁⟩
      case isFalse =>
        refine freeBranches_ok hh₁ (List.perm_iff_count.mpr fun b => ?_)
        simp only [List.count_append]
        omega
    obtain ⟨h₃, hfree₃, hh₃, -⟩ := hh₂.free_pointer (List.Perm.refl _)
    refine ⟨{ s with
      blocks := h₃, jobId := none, coinbase := none, coinbaseSize := 0, merkle := none, branches := []
      sctx := { s.sctx with job := zeroJob } }, ?_, hh₃, fun _ => ⟨rfl, rfl, rfl⟩, fun _ => rfl, hs.xnonce1⟩
    simp only [freeJobMemory, hjob, hfree₁, ok_bind, hfree₂, hfree₃]
    rfl

theorem parseExtranonce_job (sctx : StratumCtx) (params : Json) (pndx : Nat) :
    (stratumParseExtranonce sctx params pndx).2.job = sctx.job := by
  simp only [stratumParseExtranonce]
  cases jsonStringValue (jsonArrayGet params pndx) with
  | none => rfl
  | some xnonce1 =>
    dsimp only
    split_ifs <;> rfl

theorem extranonceMemory_ok (hs : s.Tidy) (params : Json) (pndx : Nat) :
    ∃ s', extranonceMemory params pndx s = .ok s' ∧ s'.Tidy := by
  cases hparse : stratumParseExtranonce s.sctx params pndx with
  | mk accepted sctx =>
    cases accepted with
    | false =>
      refine ⟨{ s with ret := false }, ?_, hs.returns false⟩
      simp only [extranonceMemory, hparse]
    | true =>
      have hjob : sctx.job = s.sctx.job := by
        rw [← parseExtranonce_job s.sctx params pndx, hparse]
      obtain ⟨h₁, hfree, hh₁, -⟩ := hs.blocks.free_pointer (q := s.xnonce1) (n := s.sctx.xnonce1Size)
        (r := (s.jobId.map fun p => (p, s.jobIdSize)).toList ++
          ((s.coinbase.map fun p => (p, s.coinbaseSize)).toList ++ (s.branches.map (fun p => (p, 32)) ++
            (s.merkle.map fun p => (p, 8 * s.branches.length)).toList)))
        (List.perm_iff_count.mpr fun b => by
          simp only [own, List.count_append]
          omega)
      refine ⟨{ s with
        ret := true, blocks := (h₁.malloc sctx.xnonce1Size).2, xnonce1 := some h₁.next, sctx := sctx }, ?_, ?_⟩
      · simp only [extranonceMemory, hparse, hfree, ok_bind]
        rfl
      · refine ⟨(hh₁.malloc sctx.xnonce1Size).perm ?_, hs.job, hs.merkle, fun hnone => (nomatch hnone)⟩
        refine List.perm_iff_count.mpr fun b => ?_
        simp only [own, jobIdSize, hjob, Option.map_some, Option.toList_some, List.count_append, List.count_cons,
          List.count_nil]
        omega

theorem setTarget_tidy (hs : s.Tidy) (stack : SetTargetStack) (params : Json) :
    Tidy { s with
      ret := (verusStratumSetTarget stack s.sctx params).1, isEquihash := true
      sctx := (verusStratumSetTarget stack s.sctx params).2 } := by
  rw [verusStratumSetTarget]
  split
  · exact ⟨hs.blocks, hs.job, hs.merkle, hs.xnonce1⟩
  · exact ⟨hs.blocks, hs.job, hs.merkle, hs.xnonce1⟩
  · exact ⟨hs.blocks, hs.job, hs.merkle, hs.xnonce1⟩

theorem classicSrvtime_eq (now : Word) (ntimeStack : Mem) (p : ClassicParams) (sctx : StratumCtx) :
    ∃ srvtimeDiff, classicSrvtime now ntimeStack p sctx = { sctx with srvtimeDiff := srvtimeDiff } := by
  rw [classicSrvtime]
  split
  · exact ⟨_, rfl⟩
  · exact ⟨_, rfl⟩

theorem classicNotify_iff (hs : s.Tidy) (now : Word) (ntimeStack fresh : Mem) (p : ClassicParams) :
    ((∃ s', classicNotify now ntimeStack fresh p s = .ok s') ↔
      ((∀ branch ∈ p.merkle, IsBranch branch) → s.Readable fresh p)) ∧
    ∀ s', classicNotify now ntimeStack fresh p s = .ok s' → s'.Tidy := by
  obtain ⟨srvtimeDiff, hsrv⟩ := classicSrvtime_eq now ntimeStack p s.sctx
  rw [classicNotify, hsrv]
  have hs₁ : Tidy { s with sctx := { s.sctx with srvtimeDiff := srvtimeDiff } } :=
    ⟨hs.blocks, hs.job, hs.merkle, hs.xnonce1⟩
  by_cases hbranches : ∀ branch ∈ p.merkle, IsBranch branch
  · obtain ⟨hiff, htidy⟩ := classicJob_iff hs₁ fresh hbranches
    refine ⟨hiff.trans ?_, htidy⟩
    exact ⟨fun hread _ => hread, fun hread => hread hbranches⟩
  · obtain ⟨s', hjob, htidy⟩ := classicJob_undecoded hs₁ fresh hbranches
    exact ⟨iff_of_true ⟨s', hjob⟩ fun hall => absurd hall hbranches,
      fun _ heq => Except.ok.inj (hjob.symm.trans heq) ▸ htidy⟩

theorem step_iff (hs : s.Tidy) (e : JobMemoryEvent) :
    ((∃ s', jobMemoryStep s e = .ok s') ↔ s.Fits e) ∧ ∀ s', jobMemoryStep s e = .ok s' → s'.Tidy := by
  have hdone {x : Except BlockFault JobMemory} {q : Prop} (h : ∃ s', x = .ok s' ∧ s'.Tidy) (hq : q) :
      ((∃ s', x = .ok s') ↔ q) ∧ ∀ s', x = .ok s' → s'.Tidy := by
    obtain ⟨s', rfl, htidy⟩ := h
    exact ⟨iff_of_true ⟨s', rfl⟩ hq, fun _ heq => Except.ok.inj heq ▸ htidy⟩
  cases e with
  | extranonce params pndx => exact hdone (extranonceMemory_ok hs params pndx) trivial
  | setTarget stack params => exact hdone ⟨_, rfl, setTarget_tidy hs stack params⟩ trivial
  | freeJob => exact hdone (freeJobMemory_ok hs) trivial
  | notify now ntimeStack fresh params =>
    rw [jobMemoryStep, Fits]
    by_cases hequihash : s.isEquihash = true
    · rw [if_pos hequihash, if_pos hequihash]
      cases notifyParams params with
      | none => exact hdone ⟨_, rfl, hs.returns false⟩ fun _ hp => (nomatch hp)
      | some p =>
        cases hsolution : p.solution with
        | some solution =>
          have hsome : p.solution.isSome = true := by rw [hsolution, Option.isSome_some]
          exact hdone (verusNotify_ok hs now ntimeStack hsome) fun _ hp => Option.some.inj hp ▸ hsome
        | none =>
          have hfault := verusNotify_null (s := s) now ntimeStack hsolution
          refine ⟨iff_of_false ?_ fun hall => ?_, fun s' heq => ?_⟩
          · rintro ⟨s', heq⟩
            exact nomatch hfault.symm.trans heq
          · have hsome := hall p rfl
            rw [hsolution] at hsome
            exact nomatch hsome
          · exact nomatch hfault.symm.trans heq
    · rw [if_neg hequihash, if_neg hequihash]
      cases classicParams params with
      | none => exact hdone ⟨_, rfl, hs.returns false⟩ fun _ hp => (nomatch hp)
      | some p =>
        obtain ⟨hiff, htidy⟩ := classicNotify_iff hs now ntimeStack fresh p
        refine ⟨hiff.trans ?_, htidy⟩
        exact ⟨fun hread _ hp => Option.some.inj hp ▸ hread, fun hread => hread p rfl⟩

end JobMemory

def jobMemoryStart : JobMemory where
  ret := false
  blocks := .empty
  jobId := none
  coinbase := none
  coinbaseSize := 0
  merkle := none
  branches := []
  xnonce1 := none
  isEquihash := false
  sctx := zeroCtx

theorem jobMemoryStart_tidy : jobMemoryStart.Tidy :=
  ⟨Blocks.empty_holds, fun _ => ⟨rfl, rfl, rfl⟩, fun _ => rfl, fun _ => rfl⟩

def jobMemoryRun (s : JobMemory) (e : JobMemoryEvent) : Option JobMemory := (jobMemoryStep s e).toOption

/-- Over every order of the messages and of the ends of connections each block
is freed once and what is left allocated is what the job points to, exactly
when every notify can be carried out. -/
theorem run_jobMemory_iff (es : List JobMemoryEvent) :
    (∃ s, run jobMemoryRun jobMemoryStart es = some s ∧ s.Tidy) ↔
      Along jobMemoryRun JobMemory.Fits jobMemoryStart es := by
  refine exists_run_iff (I := JobMemory.Tidy) ?_ ?_ jobMemoryStart_tidy
  · intro s e hs
    simp only [jobMemoryRun, toOption_eq_some]
    exact (JobMemory.step_iff hs e).1
  · intro s e s' hs he
    exact (JobMemory.step_iff hs e).2 s' (toOption_eq_some.mp he)

end VerusMiner
