import VerusMiner.Lib.LinkedRing
import VerusMiner.Lib.Runs

/-! The thread queue: entries linked on the heap, under a mutex. What a thread
does while it holds the mutex is one step; waiting for the condition gives the
mutex away, and a thread may come back from it at any time. -/

namespace VerusMiner

abbrev Addr := Nat

/-- The links there are, of the queue and of the entries that are allocated,
and the data of these. An entry is known by the address of its `q_node`. -/
structure Heap where
  node : Addr → Option (ListHead Addr)
  data : Addr → Option Addr

namespace Heap

/-! No result is an access to what is not allocated. -/

def setNext (h : Heap) (a v : Addr) : Option Heap :=
  (h.node a).map fun n => { h with node := Function.update h.node a (some { n with next := v }) }

def setPrev (h : Heap) (a v : Addr) : Option Heap :=
  (h.node a).map fun n => { h with node := Function.update h.node a (some { n with prev := v }) }

def setData (h : Heap) (ent v : Addr) : Option Heap :=
  (h.data ent).map fun _ => { h with data := Function.update h.data ent (some v) }

def calloc (h : Heap) (ent : Addr) : Heap where
  node := Function.update h.node ent (some ⟨0, 0⟩)
  data := Function.update h.data ent (some 0)

def free (h : Heap) (ent : Addr) : Option Heap :=
  (h.data ent).map fun _ =>
    { node := Function.update h.node ent none, data := Function.update h.data ent none }

def initListHead (h : Heap) (ptr : Addr) : Option Heap := do
  let h ← h.setNext ptr ptr
  h.setPrev ptr ptr

/-- The entry of `tq_push`, before the mutex is taken. -/
def makeEnt (h : Heap) (ent data : Addr) : Option Heap := do
  let h ← (h.calloc ent).setData ent data
  h.initListHead ent

/-- `__list_add`. -/
def listAddBetween (h : Heap) (lnew prev next : Addr) : Option Heap := do
  let h ← h.setPrev next lnew
  let h ← h.setNext lnew next
  let h ← h.setPrev lnew prev
  h.setNext prev lnew

def listAddTail (h : Heap) (lnew head : Addr) : Option Heap := do
  let n ← h.node head
  h.listAddBetween lnew n.prev head

/-- `__list_del`. -/
def listDelBetween (h : Heap) (prev next : Addr) : Option Heap := do
  let h ← h.setPrev next prev
  h.setNext prev next

def listDel (h : Heap) (entry : Addr) : Option Heap := do
  let n ← h.node entry
  let h ← h.listDelBetween n.prev n.next
  let h ← h.setNext entry 0
  h.setPrev entry 0

def listEmpty (h : Heap) (head : Addr) : Option Bool := do
  let n ← h.node head
  return n.next == head

end Heap

/-- Where a thread is: outside the queue, with an entry it has made and not
yet put in, or waiting for the condition, with a time limit or not. -/
inductive QueuePc where
  | idle
  | pushing (ent data : Addr)
  | waiting (timed : Bool)
  deriving DecidableEq

/-- A pop that finds an entry returns its data, and else a null pointer. -/
inductive QueueReturn where
  | push (t : Nat) (data : Addr) (rc : Bool)
  | pop (t : Nat) (rval : Option Addr)
  deriving DecidableEq

/-- `returns` are the calls that have returned, in the order in which they
held the mutex last; after a `fault` nothing more is done. -/
structure QueueState where
  head : Addr
  heap : Heap
  frozen : Bool
  pc : Nat → QueuePc
  returns : List QueueReturn
  fault : Bool

/-- `mem` is what `calloc` returns, `rc` that the wait ended with an error. -/
inductive QueueEvent where
  | push (t : Nat) (data : Addr) (mem : Option Addr)
  | enqueue (t : Nat)
  | pop (t : Nat) (timed : Bool)
  | wake (t : Nat) (rc : Bool)
  | freezethaw (t : Nat) (frozen : Bool)

namespace QueueState

def goto (s : QueueState) (t : Nat) (pc : QueuePc) : QueueState := { s with pc := Function.update s.pc t pc }

def leave (s : QueueState) (t : Nat) (r : QueueReturn) : QueueState :=
  { s.goto t .idle with returns := s.returns ++ [r] }

def orFault (s : QueueState) (r : Option QueueState) : QueueState := r.getD { s with fault := true }

def tqMakeEnt (s : QueueState) (t ent data : Addr) : Option QueueState := do
  let h ← s.heap.makeEnt ent data
  return { s.goto t (.pushing ent data) with heap := h }

def tqPush (s : QueueState) (t ent data : Addr) : Option QueueState :=
  if !s.frozen then do
    let h ← s.heap.listAddTail ent s.head
    return { s.leave t (.push t data true) with heap := h }
  else do
    let h ← s.heap.free ent
    return { s.leave t (.push t data false) with heap := h }

/-- From the label `pop` on. -/
def tqPopEnt (s : QueueState) (t : Nat) : Option QueueState := do
  let n ← s.heap.node s.head
  let rval ← s.heap.data n.next
  let h ← s.heap.listDel n.next
  let h ← h.free n.next
  return { s.leave t (.pop t (some rval)) with heap := h }

def tqPop (s : QueueState) (t : Nat) (timed : Bool) : Option QueueState := do
  if !(← s.heap.listEmpty s.head) then s.tqPopEnt t else return s.goto t (.waiting timed)

def tqPopWoken (s : QueueState) (t : Nat) (rc : Bool) : Option QueueState := do
  if rc then return s.leave t (.pop t none)
  else if ← s.heap.listEmpty s.head then return s.leave t (.pop t none)
  else s.tqPopEnt t

end QueueState

/-- The signals wake nobody who could not come back without them. -/
def queueStep (s : QueueState) (e : QueueEvent) : Option QueueState :=
  if s.fault then none
  else match e with
    | .push t data none => if s.pc t = .idle then some (s.leave t (.push t data false)) else none
    | .push t data (some ent) =>
      if s.pc t = .idle ∧ ent ≠ 0 ∧ (s.heap.node ent).isNone ∧ (s.heap.data ent).isNone then
        some (s.orFault (s.tqMakeEnt t ent data))
      else none
    | .enqueue t => match s.pc t with
      | .pushing ent data => some (s.orFault (s.tqPush t ent data))
      | _ => none
    | .pop t timed => if s.pc t = .idle then some (s.orFault (s.tqPop t timed)) else none
    | .wake t rc => match s.pc t with
      | .waiting timed => if rc && !timed then none else some (s.orFault (s.tqPopWoken t rc))
      | _ => none
    | .freezethaw t frozen => if s.pc t = .idle then some { s with frozen := frozen } else none

/-- The queue that `tq_new` makes, with its list at `head`. -/
def tqNew (head : Addr) : QueueState where
  head := head
  heap := { node := Function.update (fun _ => none) head (some ⟨head, head⟩), data := fun _ => none }
  frozen := false
  pc := fun _ => .idle
  returns := []
  fault := false

/-- The data whose push returned true. -/
def accepted (returns : List QueueReturn) : List Addr :=
  returns.filterMap fun
    | .push _ data true => some data
    | _ => none

def delivered (returns : List QueueReturn) : List Addr :=
  returns.filterMap fun
    | .pop _ rval => rval
    | _ => none

theorem isSome_nextAt (m : Addr → Option (ListHead Addr)) (a : Addr) :
    (nextAt m a).isSome = (m a).isSome := Option.isSome_map

theorem nextAt_setNext {h h' : Heap} {a v : Addr} (hset : h.setNext a v = some h') :
    nextAt h'.node = Function.update (nextAt h.node) a (some v) ∧ prevAt h'.node = prevAt h.node ∧
    h'.data = h.data := by
  obtain ⟨n, hn, rfl⟩ := Option.map_eq_some_iff.mp hset
  refine ⟨funext fun x => ?_, funext fun x => ?_, rfl⟩
  · by_cases hx : x = a
    · subst hx
      simp [nextAt]
    · simp [nextAt, hx]
  · by_cases hx : x = a
    · subst hx
      simp [prevAt, hn]
    · simp [prevAt, hx]

theorem prevAt_setPrev {h h' : Heap} {a v : Addr} (hset : h.setPrev a v = some h') :
    prevAt h'.node = Function.update (prevAt h.node) a (some v) ∧ nextAt h'.node = nextAt h.node ∧
    h'.data = h.data := by
  obtain ⟨n, hn, rfl⟩ := Option.map_eq_some_iff.mp hset
  refine ⟨funext fun x => ?_, funext fun x => ?_, rfl⟩
  · by_cases hx : x = a
    · subst hx
      simp [prevAt]
    · simp [prevAt, hx]
  · by_cases hx : x = a
    · subst hx
      simp [nextAt, hn]
    · simp [nextAt, hx]

theorem exists_setNext {h : Heap} {a : Addr} (ha : (nextAt h.node a).isSome) (v : Addr) :
    ∃ h', h.setNext a v = some h' := by
  rw [isSome_nextAt] at ha
  obtain ⟨n, hn⟩ := Option.isSome_iff_exists.mp ha
  exact ⟨_, Option.map_eq_some_iff.mpr ⟨n, hn, rfl⟩⟩

theorem exists_setPrev {h : Heap} {a : Addr} (ha : (nextAt h.node a).isSome) (v : Addr) :
    ∃ h', h.setPrev a v = some h' := by
  rw [isSome_nextAt] at ha
  obtain ⟨n, hn⟩ := Option.isSome_iff_exists.mp ha
  exact ⟨_, Option.map_eq_some_iff.mpr ⟨n, hn, rfl⟩⟩

theorem listAddBetween_spec {h : Heap} {lnew prev next : Addr} (hnew : (nextAt h.node lnew).isSome)
    (hprev : (nextAt h.node prev).isSome) (hnext : (nextAt h.node next).isSome) :
    ∃ h', h.listAddBetween lnew prev next = some h' ∧ h'.data = h.data ∧
      nextAt h'.node =
        Function.update (Function.update (nextAt h.node) lnew (some next)) prev (some lnew) ∧
      prevAt h'.node =
        Function.update (Function.update (prevAt h.node) next (some lnew)) lnew (some prev) := by
  obtain ⟨h₁, he₁⟩ := exists_setPrev hnext lnew
  obtain ⟨hp₁, hn₁, hd₁⟩ := prevAt_setPrev he₁
  obtain ⟨h₂, he₂⟩ := exists_setNext (h := h₁) (a := lnew) (hn₁ ▸ hnew) next
  obtain ⟨hn₂, hp₂, hd₂⟩ := nextAt_setNext he₂
  have hnew₂ : (nextAt h₂.node lnew).isSome := by rw [hn₂, Function.update_self, Option.isSome_some]
  obtain ⟨h₃, he₃⟩ := exists_setPrev hnew₂ prev
  obtain ⟨hp₃, hn₃, hd₃⟩ := prevAt_setPrev he₃
  have hprev₃ : (nextAt h₃.node prev).isSome := by
    rw [hn₃, hn₂, hn₁]
    by_cases he : prev = lnew
    · rw [he, Function.update_self, Option.isSome_some]
    · rw [Function.update_of_ne he, hprev]
  obtain ⟨h₄, he₄⟩ := exists_setNext hprev₃ lnew
  obtain ⟨hn₄, hp₄, hd₄⟩ := nextAt_setNext he₄
  refine ⟨h₄, ?_, ?_, ?_, ?_⟩
  · simp only [Heap.listAddBetween, he₁, he₂, he₃, he₄, Option.bind_eq_bind, Option.bind_some]
  · rw [hd₄, hd₃, hd₂, hd₁]
  · rw [hn₄, hn₃, hn₂, hn₁]
  · rw [hp₄, hp₃, hp₂, hp₁]

theorem isSome_update {m : Addr → Option Addr} {a v : Addr} (ha : (m a).isSome) (x : Addr) :
    (Function.update m a (some v) x).isSome = (m x).isSome := by
  by_cases hx : x = a
  · rw [hx, Function.update_self, Option.isSome_some, ha]
  · rw [Function.update_of_ne hx]

theorem listAddTail_ring {h : Heap} {head ent : Addr} {nodes : List Addr} (hring : Ring h.node head nodes)
    (hent : (nextAt h.node ent).isSome) (hnew : ent ∉ head :: nodes) :
    ∃ h', h.listAddTail ent head = some h' ∧ h'.data = h.data ∧ Ring h'.node head (nodes ++ [ent]) ∧
      ∀ a, (nextAt h'.node a).isSome = (nextAt h.node a).isSome := by
  obtain ⟨l₁, last, hlast⟩ : ∃ l₁ last, head :: nodes = l₁ ++ [last] :=
    ⟨_, _, (List.dropLast_concat_getLast (List.cons_ne_nil head nodes)).symm⟩
  have hsplit : head :: (nodes ++ [head]) = l₁ ++ last :: head :: [] := by
    rw [← List.cons_append, hlast, List.append_assoc, List.singleton_append]
  have hlink : Linked h.node last head := (List.isChain_append_cons_cons.mp (hsplit ▸ hring.chain)).2.1
  obtain ⟨n, hn, hprev⟩ := Option.map_eq_some_iff.mp hlink.2
  have hlastSome : (nextAt h.node last).isSome := by rw [hlink.1, Option.isSome_some]
  have hheadSome : (nextAt h.node head).isSome := by rw [isSome_nextAt, hn, Option.isSome_some]
  obtain ⟨h', hadd, hdata, hnext', hprev'⟩ := listAddBetween_spec hent hlastSome hheadSome
  have hlastNe : last ≠ ent := by
    rintro rfl
    exact hnew (hlast ▸ List.mem_append_right _ List.mem_cons_self)
  have hheadNe : head ≠ ent := fun he => hnew (he ▸ List.mem_cons_self)
  refine ⟨h', ?_, hdata, ?_, fun a => ?_⟩
  · rw [Heap.listAddTail, hn, Option.bind_eq_bind, Option.bind_some, hprev, hadd]
  · have hsplit' : head :: ((nodes ++ [ent]) ++ [head]) = l₁ ++ last :: ent :: head :: [] := by
      rw [List.append_assoc, ← List.cons_append, hlast, List.append_assoc]
      rfl
    refine hring.insert hsplit hsplit' hnew ⟨?_, ?_⟩ ⟨?_, ?_⟩ (fun a hb hx => ?_) fun a hc hx => ?_
    · rw [hnext', Function.update_self]
    · rw [hprev', Function.update_self]
    · rw [hnext', Function.update_of_ne hlastNe.symm, Function.update_self]
    · rw [hprev', Function.update_of_ne hheadNe, Function.update_self]
    · rw [hnext', Function.update_of_ne hb, Function.update_of_ne hx]
    · rw [hprev', Function.update_of_ne hx, Function.update_of_ne hc]
  · rw [hnext', isSome_update (by rwa [isSome_update hent]), isSome_update hent]

theorem listDel_spec {h : Heap} {entry prev next : Addr} (hentry : nextAt h.node entry = some next)
    (hback : prevAt h.node entry = some prev) (hprev : (nextAt h.node prev).isSome)
    (hnext : (nextAt h.node next).isSome) :
    ∃ h', h.listDel entry = some h' ∧ h'.data = h.data ∧
      nextAt h'.node =
        Function.update (Function.update (nextAt h.node) prev (some next)) entry (some 0) ∧
      prevAt h'.node =
        Function.update (Function.update (prevAt h.node) next (some prev)) entry (some 0) := by
  obtain ⟨n, hn, rfl⟩ := Option.map_eq_some_iff.mp hentry
  obtain ⟨n', hn', rfl⟩ := Option.map_eq_some_iff.mp hback
  obtain rfl : n = n' := Option.some.inj (hn.symm.trans hn')
  have hsome : (nextAt h.node entry).isSome := by rw [hentry, Option.isSome_some]
  obtain ⟨h₁, he₁⟩ := exists_setPrev hnext n.prev
  obtain ⟨hp₁, hn₁, hd₁⟩ := prevAt_setPrev he₁
  obtain ⟨h₂, he₂⟩ := exists_setNext (h := h₁) (a := n.prev) (hn₁ ▸ hprev) n.next
  obtain ⟨hn₂, hp₂, hd₂⟩ := nextAt_setNext he₂
  obtain ⟨h₃, he₃⟩ := exists_setNext (h := h₂) (a := entry)
    (by rwa [hn₂, isSome_update (hn₁ ▸ hprev), hn₁]) 0
  obtain ⟨hn₃, hp₃, hd₃⟩ := nextAt_setNext he₃
  obtain ⟨h₄, he₄⟩ := exists_setPrev (h := h₃) (a := entry)
    (by rw [hn₃, Function.update_self, Option.isSome_some]) 0
  obtain ⟨hp₄, hn₄, hd₄⟩ := prevAt_setPrev he₄
  refine ⟨h₄, ?_, ?_, ?_, ?_⟩
  · simp only [Heap.listDel, Heap.listDelBetween, hn, he₁, he₂, he₃, he₄, Option.bind_eq_bind,
      Option.bind_some]
  · rw [hd₄, hd₃, hd₂, hd₁]
  · rw [hn₄, hn₃, hn₂, hn₁]
  · rw [hp₄, hp₃, hp₂, hp₁]

theorem listDel_ring {h : Heap} {head ent : Addr} {nodes : List Addr}
    (hring : Ring h.node head (ent :: nodes)) :
    ∃ h', h.listDel ent = some h' ∧ h'.data = h.data ∧ Ring h'.node head nodes ∧
      ∀ a, (nextAt h'.node a).isSome = (nextAt h.node a).isSome := by
  obtain ⟨next, l₂, hnext⟩ : ∃ next l₂, nodes ++ [head] = next :: l₂ :=
    List.exists_cons_of_ne_nil (by simp)
  have hchain := hring.chain
  rw [List.cons_append, hnext, List.isChain_cons_cons, List.isChain_cons_cons] at hchain
  obtain ⟨hfirst, hsecond, _⟩ := hchain
  have hnodup := hring.nodup
  have hheadNe : head ≠ ent := fun he => (List.nodup_cons.mp hnodup).1 (he ▸ List.mem_cons_self)
  have hnextNe : next ≠ ent := by
    have hmem : next ∈ nodes ++ [head] := hnext ▸ List.mem_cons_self
    rintro rfl
    rcases List.mem_append.mp hmem with hmem | hmem
    · exact (List.nodup_cons.mp (List.nodup_cons.mp hnodup).2).1 hmem
    · exact hheadNe (List.mem_singleton.mp hmem).symm
  have hheadSome : (nextAt h.node head).isSome := by rw [hfirst.1, Option.isSome_some]
  have hnextSome : (nextAt h.node next).isSome := by
    obtain ⟨n, hn, _⟩ := Option.map_eq_some_iff.mp hsecond.2
    rw [isSome_nextAt, hn, Option.isSome_some]
  obtain ⟨h', hdel, hdata, hnext', hprev'⟩ := listDel_spec hsecond.1 hfirst.2 hheadSome hnextSome
  refine ⟨h', hdel, hdata, ?_, fun a => ?_⟩
  · have hsplit : head :: ((ent :: nodes) ++ [head]) = [] ++ head :: ent :: next :: l₂ := by
      rw [List.cons_append, hnext, List.nil_append]
    have hsplit' : head :: (nodes ++ [head]) = [] ++ head :: next :: l₂ := by
      rw [hnext, List.nil_append]
    refine hring.remove hsplit hsplit' ⟨?_, ?_⟩ (fun a hb hx => ?_) fun a hc hx => ?_
    · rw [hnext', Function.update_of_ne hheadNe, Function.update_self]
    · rw [hprev', Function.update_of_ne hnextNe, Function.update_self]
    · rw [hnext', Function.update_of_ne hx, Function.update_of_ne hb]
    · rw [hprev', Function.update_of_ne hx, Function.update_of_ne hc]
  · have hentSome : (nextAt h.node ent).isSome := by rw [hsecond.1, Option.isSome_some]
    rw [hnext', isSome_update (by rwa [isSome_update hheadSome]), isSome_update hheadSome]

/-- The list is a ring through its head and `items` are its data; an entry on
its way into it belongs to one thread alone. -/
structure HeapInv (head : Addr) (heap : Heap) (pc : Nat → QueuePc) (nodes items : List Addr) : Prop where
  ring : Ring heap.node head nodes
  data : nodes.map heap.data = items.map some
  pushing : ∀ {t ent d}, pc t = .pushing ent d →
    (nextAt heap.node ent).isSome ∧ heap.data ent = some d ∧ ent ∉ head :: nodes
  apart : ∀ {t u ent d e}, pc t = .pushing ent d → pc u = .pushing ent e → t = u

section HeapInv

variable {head : Addr} {heap : Heap} {pc : Nat → QueuePc} {nodes items : List Addr} {t : Nat}

theorem pushing_of_update {u : Nat} {pc' : QueuePc} {ent d : Addr} (hpc' : ∀ ent d, pc' ≠ .pushing ent d)
    (h : Function.update pc t pc' u = .pushing ent d) : u ≠ t ∧ pc u = .pushing ent d := by
  by_cases hu : u = t
  · subst hu
    rw [Function.update_self] at h
    exact absurd h (hpc' ent d)
  · rw [Function.update_of_ne hu] at h
    exact ⟨hu, h⟩

theorem HeapInv.goto (h : HeapInv head heap pc nodes items) (t : Nat) {pc' : QueuePc}
    (hpc' : ∀ ent d, pc' ≠ .pushing ent d) : HeapInv head heap (Function.update pc t pc') nodes items where
  ring := h.ring
  data := h.data
  pushing hp := h.pushing (pushing_of_update hpc' hp).2
  apart hp hq := h.apart (pushing_of_update hpc' hp).2 (pushing_of_update hpc' hq).2

theorem HeapInv.free (h : HeapInv head heap pc nodes items) {ent d : Addr} (hdata : heap.data ent = some d)
    (hent : ent ∉ head :: nodes) (hpc : ∀ t d, pc t ≠ .pushing ent d) :
    ∃ heap', heap.free ent = some heap' ∧ HeapInv head heap' pc nodes items ∧
      ∀ a, a ≠ ent → heap'.node a = heap.node a ∧ heap'.data a = heap.data a := by
  obtain ⟨heap', hfree, hoff⟩ : ∃ heap', heap.free ent = some heap' ∧
      ∀ a, a ≠ ent → heap'.node a = heap.node a ∧ heap'.data a = heap.data a :=
    ⟨_, Option.map_eq_some_iff.mpr ⟨d, hdata, rfl⟩, fun a ha =>
      ⟨Function.update_of_ne ha _ _, Function.update_of_ne ha _ _⟩⟩
  have hne {a : Addr} (ha : a ∈ head :: nodes) : a ≠ ent := fun he => hent (he ▸ ha)
  refine ⟨heap', hfree, ⟨?_, ?_, ?_, h.apart⟩, hoff⟩
  · exact h.ring.congr fun a ha => (hoff a (hne ha)).1
  · rw [← h.data, List.map_inj_left]
    exact fun a ha => (hoff a (hne (List.mem_cons_of_mem head ha))).2
  · intro u e d hp
    have he : e ≠ ent := fun he => hpc u d (he ▸ hp)
    obtain ⟨hsome, hdata, hmem⟩ := h.pushing hp
    rw [isSome_nextAt] at hsome ⊢
    rw [(hoff e he).1, (hoff e he).2]
    exact ⟨hsome, hdata, hmem⟩

theorem makeEnt_spec (heap : Heap) (ent data : Addr) :
    ∃ heap', heap.makeEnt ent data = some heap' ∧ heap'.node ent = some ⟨ent, ent⟩ ∧
      heap'.data ent = some data ∧
      ∀ a, a ≠ ent → heap'.node a = heap.node a ∧ heap'.data a = heap.data a := by
  simp only [Heap.makeEnt, Heap.calloc, Heap.setData, Heap.initListHead, Heap.setNext, Heap.setPrev,
    Function.update_self, Option.map_some, Option.bind_eq_bind, Option.bind_some,
    Function.update_idem, Option.some.injEq, exists_eq_left', true_and]
  exact fun a ha => ⟨Function.update_of_ne ha _ _, Function.update_of_ne ha _ _⟩

theorem HeapInv.makeEnt (h : HeapInv head heap pc nodes items) {ent : Addr} (data : Addr)
    (hnode : heap.node ent = none) :
    ∃ heap', heap.makeEnt ent data = some heap' ∧
      HeapInv head heap' (Function.update pc t (.pushing ent data)) nodes items := by
  obtain ⟨heap', hmake, hnode', hdata', hoff⟩ := makeEnt_spec heap ent data
  have hlive {a : Addr} (ha : (nextAt heap.node a).isSome) : a ≠ ent := by
    rintro rfl
    rw [isSome_nextAt, hnode] at ha
    cases ha
  have hne {a : Addr} (ha : a ∈ head :: nodes) : a ≠ ent := hlive (h.ring.isSome_next ha)
  have hcase {u : Nat} {e d : Addr} (hp : Function.update pc t (.pushing ent data) u = .pushing e d) :
      u = t ∧ e = ent ∧ d = data ∨ pc u = .pushing e d ∧ e ≠ ent := by
    by_cases hu : u = t
    · subst hu
      rw [Function.update_self] at hp
      cases hp
      exact .inl ⟨rfl, rfl, rfl⟩
    · rw [Function.update_of_ne hu] at hp
      exact .inr ⟨hp, hlive (h.pushing hp).1⟩
  refine ⟨heap', hmake, ?_, ?_, ?_, ?_⟩
  · exact h.ring.congr fun a ha => (hoff a (hne ha)).1
  · rw [← h.data, List.map_inj_left]
    exact fun a ha => (hoff a (hne (List.mem_cons_of_mem head ha))).2
  · intro u e d hp
    rcases hcase hp with ⟨rfl, rfl, rfl⟩ | ⟨hp, he⟩
    · rw [isSome_nextAt, hnode', hdata']
      exact ⟨rfl, rfl, fun hmem => hne hmem rfl⟩
    · obtain ⟨hsome, hdata, hmem⟩ := h.pushing hp
      rw [isSome_nextAt] at hsome ⊢
      rw [(hoff e he).1, (hoff e he).2]
      exact ⟨hsome, hdata, hmem⟩
  · intro u v e d d' hp hq
    rcases hcase hp with ⟨hu, he, _⟩ | ⟨hp, he⟩ <;> rcases hcase hq with ⟨hv, he', _⟩ | ⟨hq, he'⟩
    · exact hu.trans hv.symm
    · exact absurd he he'
    · exact absurd he' he
    · exact h.apart hp hq

theorem HeapInv.add (h : HeapInv head heap pc nodes items) {ent d : Addr} (hpc : pc t = .pushing ent d) :
    ∃ heap', heap.listAddTail ent head = some heap' ∧
      HeapInv head heap' (Function.update pc t .idle) (nodes ++ [ent]) (items ++ [d]) := by
  obtain ⟨hsome, hdata, hmem⟩ := h.pushing hpc
  obtain ⟨heap', hadd, hdata', hring', hsome'⟩ := listAddTail_ring h.ring hsome hmem
  refine ⟨heap', hadd, hring', ?_, ?_, ?_⟩
  · rw [List.map_append, List.map_append, hdata', h.data, List.map_singleton, hdata, List.map_singleton]
  · intro u e d' hp
    obtain ⟨hu, hp⟩ := pushing_of_update (by simp) hp
    obtain ⟨hesome, hedata, hemem⟩ := h.pushing hp
    refine ⟨by rw [hsome', hesome], by rw [hdata', hedata], fun hin => ?_⟩
    rw [← List.cons_append, List.mem_append, List.mem_singleton] at hin
    rcases hin with hin | rfl
    · exact hemem hin
    · exact hu (h.apart hp hpc)
  · exact fun hp hq => h.apart (pushing_of_update (by simp) hp).2 (pushing_of_update (by simp) hq).2

theorem HeapInv.take {ent d : Addr} (h : HeapInv head heap pc (ent :: nodes) (d :: items)) :
    ∃ h₁ h₂, heap.data ent = some d ∧ heap.listDel ent = some h₁ ∧ h₁.free ent = some h₂ ∧
      HeapInv head h₂ pc nodes items := by
  obtain ⟨hdata, hrest⟩ := List.cons.inj h.data
  obtain ⟨h₁, hdel, hdata₁, hring₁, hsome₁⟩ := listDel_ring h.ring
  have hnodup := h.ring.nodup
  have hmem : ent ∉ head :: nodes := by
    rw [List.nodup_cons, List.nodup_cons, List.mem_cons, not_or] at hnodup
    rw [List.mem_cons, not_or]
    exact ⟨fun he => hnodup.1.1 he.symm, hnodup.2.1⟩
  have hkept : HeapInv head h₁ pc nodes items := by
    refine ⟨hring₁, by rw [hdata₁]; exact hrest, fun hp => ?_, h.apart⟩
    obtain ⟨hsome, hedata, hemem⟩ := h.pushing hp
    refine ⟨by rw [hsome₁, hsome], by rw [hdata₁, hedata], fun hin => hemem ?_⟩
    rw [List.mem_cons] at hin ⊢
    exact hin.imp_right (List.mem_cons_of_mem ent)
  obtain ⟨h₂, hfree, hinv, _⟩ := hkept.free (by rw [hdata₁, hdata]) hmem fun u d' hp =>
    (h.pushing hp).2.2 (List.mem_cons_of_mem head List.mem_cons_self)
  exact ⟨h₁, h₂, hdata, hdel, hfree, hinv⟩

theorem HeapInv.first (h : HeapInv head heap pc nodes items) :
    ∃ n, heap.node head = some n ∧ (n.next = head ∧ nodes = [] ∧ items = [] ∨
      ∃ d nodes' items', nodes = n.next :: nodes' ∧ items = d :: items' ∧ n.next ≠ head) := by
  obtain ⟨n, hn, hnext⟩ := Option.map_eq_some_iff.mp h.ring.next_head
  refine ⟨n, hn, ?_⟩
  cases nodes with
  | nil => exact .inl ⟨hnext, rfl, List.map_eq_nil_iff.mp h.data.symm⟩
  | cons ent nodes =>
    obtain rfl : n.next = ent := hnext
    cases items with
    | nil => cases h.data
    | cons d items =>
      refine .inr ⟨d, nodes, items, rfl, rfl, fun he => ?_⟩
      exact (List.nodup_cons.mp h.ring.nodup).1 (he ▸ List.mem_cons_self)

end HeapInv

/-- What was accepted and not delivered is in the list. -/
structure QueueInv (s : QueueState) (nodes items : List Addr) : Prop where
  alive : s.fault = false
  heap : HeapInv s.head s.heap s.pc nodes items
  accepted : accepted s.returns = delivered s.returns ++ items

structure Unchanged (s s' : QueueState) (nodes : List Addr) : Prop where
  head : s'.head = s.head
  frozen : s'.frozen = s.frozen
  cells : ∀ a ∈ s.head :: nodes, s'.heap.node a = s.heap.node a ∧ s'.heap.data a = s.heap.data a

/-- Where a push is refused the queue is as it was. -/
def RefusesOnly (s s' : QueueState) (nodes : List Addr) : Prop :=
  ∀ t data, s'.returns = s.returns ++ [.push t data false] → Unchanged s s' nodes

@[simp] theorem accepted_append (rs rs' : List QueueReturn) :
    accepted (rs ++ rs') = accepted rs ++ accepted rs' := List.filterMap_append

@[simp] theorem delivered_append (rs rs' : List QueueReturn) :
    delivered (rs ++ rs') = delivered rs ++ delivered rs' := List.filterMap_append

inductive QueueMove (s : QueueState) : QueueState → Prop
  | noMemory (t : Nat) (data : Addr) : QueueMove s (s.leave t (.push t data false))
  | made (t : Nat) {ent : Addr} (data : Addr) (hnode : s.heap.node ent = none) :
    QueueMove s (s.orFault (s.tqMakeEnt t ent data))
  | pushed {t : Nat} {ent data : Addr} (hpc : s.pc t = .pushing ent data) :
    QueueMove s (s.orFault (s.tqPush t ent data))
  | popped (t : Nat) (timed : Bool) : QueueMove s (s.orFault (s.tqPop t timed))
  | woken (t : Nat) (rc : Bool) : QueueMove s (s.orFault (s.tqPopWoken t rc))
  | froze (frozen : Bool) : QueueMove s { s with frozen := frozen }

section Steps

variable {s s' : QueueState} {nodes items : List Addr} {t : Nat}

theorem queueStep_move {e : QueueEvent} (hstep : queueStep s e = some s') : QueueMove s s' := by
  rw [queueStep.eq_def, Option.ite_none_left_eq_some] at hstep
  obtain ⟨_, hstep⟩ := hstep
  cases e with
  | push t data mem =>
    cases mem with
    | none =>
      obtain ⟨_, hs'⟩ := Option.ite_none_right_eq_some.mp hstep
      cases hs'
      exact .noMemory t data
    | some ent =>
      obtain ⟨⟨_, _, hnode, _⟩, hs'⟩ := Option.ite_none_right_eq_some.mp hstep
      cases hs'
      exact .made t data (Option.isNone_iff_eq_none.mp hnode)
  | enqueue t =>
    cases hpc : s.pc t with
    | idle => simp [hpc] at hstep
    | waiting timed => simp [hpc] at hstep
    | pushing ent data =>
      simp only [hpc, Option.some.injEq] at hstep
      exact hstep ▸ .pushed hpc
  | pop t timed =>
    obtain ⟨_, hs'⟩ := Option.ite_none_right_eq_some.mp hstep
    cases hs'
    exact .popped t timed
  | wake t rc =>
    cases hpc : s.pc t with
    | idle => simp [hpc] at hstep
    | pushing ent data => simp [hpc] at hstep
    | waiting timed =>
      simp only [hpc] at hstep
      obtain ⟨_, hs'⟩ := Option.ite_none_left_eq_some.mp hstep
      cases hs'
      exact .woken t rc
  | freezethaw t frozen =>
    obtain ⟨_, hs'⟩ := Option.ite_none_right_eq_some.mp hstep
    cases hs'
    exact .froze frozen

theorem refusesOnly_of_same (h : s'.returns = s.returns) : RefusesOnly s s' nodes := fun t data hr => by
  simp [h] at hr

theorem refusesOnly_of_return {r : QueueReturn} (h : s'.returns = s.returns ++ [r])
    (hr : ∀ t data, r ≠ .push t data false) : RefusesOnly s s' nodes := fun t data hr' => by
  rw [h, List.append_cancel_left_eq, List.singleton_inj] at hr'
  exact absurd hr' (hr t data)

theorem QueueInv.goto (h : QueueInv s nodes items) {pc : QueuePc} (hpc : ∀ ent d, pc ≠ .pushing ent d) :
    QueueInv (s.goto t pc) nodes items := ⟨h.alive, h.heap.goto t hpc, h.accepted⟩

theorem QueueInv.leave (h : QueueInv s nodes items) {r : QueueReturn} (hr : VerusMiner.accepted [r] = [])
    (hr' : delivered [r] = []) : QueueInv (s.leave t r) nodes items := by
  refine ⟨h.alive, h.heap.goto t (by simp), ?_⟩
  rw [QueueState.leave, accepted_append, delivered_append, hr, hr', List.append_nil, List.append_nil]
  exact h.accepted

theorem tqPush_inv (h : QueueInv s nodes items) {ent d : Addr} (hpc : s.pc t = .pushing ent d) :
    ∃ s' nodes' items', s.tqPush t ent d = some s' ∧ QueueInv s' nodes' items' ∧
      RefusesOnly s s' nodes := by
  obtain ⟨_, hdata, hmem⟩ := h.heap.pushing hpc
  cases hfrozen : s.frozen with
  | false =>
    obtain ⟨heap', hadd, hinv⟩ := h.heap.add hpc
    refine ⟨{ s.leave t (.push t d true) with heap := heap' }, nodes ++ [ent], items ++ [d], ?_,
      ⟨h.alive, hinv, ?_⟩, refusesOnly_of_return rfl (by simp)⟩
    · simp [QueueState.tqPush, hfrozen, hadd]
    · rw [QueueState.leave, accepted_append, delivered_append, h.accepted]
      simp [accepted, delivered]
  | true =>
    have hleft : HeapInv s.head s.heap (s.leave t (.push t d false)).pc nodes items :=
      h.heap.goto t (by simp)
    have hnobody : ∀ u d', (s.leave t (.push t d false)).pc u ≠ .pushing ent d' := by
      intro u d' hp
      obtain ⟨hu, hp⟩ := pushing_of_update (by simp) hp
      exact hu (h.heap.apart hp hpc)
    obtain ⟨heap', hfree, hinv, hoff⟩ := hleft.free hdata hmem hnobody
    refine ⟨{ s.leave t (.push t d false) with heap := heap' }, nodes, items, ?_, ⟨h.alive, hinv, ?_⟩,
      fun _ _ _ => ⟨rfl, rfl, fun a ha => hoff a fun he => hmem (he ▸ ha)⟩⟩
    · simp [QueueState.tqPush, hfrozen, hfree]
    · rw [QueueState.leave, accepted_append, delivered_append, h.accepted]
      simp [accepted, delivered]

theorem tqPopEnt_inv (h : QueueInv s nodes items) {n : ListHead Addr} (hn : s.heap.node s.head = some n)
    {d : Addr} {nodes' items' : List Addr} (hnodes : nodes = n.next :: nodes')
    (hitems : items = d :: items') :
    ∃ s', s.tqPopEnt t = some s' ∧ QueueInv s' nodes' items' ∧ s'.returns = s.returns ++ [.pop t (some d)] := by
  subst hnodes hitems
  obtain ⟨h₁, h₂, hdata, hdel, hfree, hinv⟩ := h.heap.take
  refine ⟨{ s.leave t (.pop t (some d)) with heap := h₂ }, ?_, ⟨h.alive, hinv.goto t (by simp), ?_⟩, rfl⟩
  · simp [QueueState.tqPopEnt, hn, hdata, hdel, hfree]
  · rw [QueueState.leave, accepted_append, delivered_append, h.accepted]
    simp [accepted, delivered]

/-- With an entry in the list a thread that holds the mutex gets the data of the first. -/
theorem tqPop_head {d : Addr} (h : QueueInv s nodes (d :: items)) (t : Nat) :
    ∃ s', (∀ timed, s.tqPop t timed = some s') ∧ s.tqPopWoken t false = some s' ∧
      s'.returns = s.returns ++ [.pop t (some d)] := by
  obtain ⟨n, hn, ⟨_, _, hnone⟩ | ⟨d', nodes', items', hnodes, hitems, hne⟩⟩ := h.heap.first
  · cases hnone
  · obtain ⟨s', hpop, _, hreturns⟩ := tqPopEnt_inv (t := t) h hn hnodes hitems
    rw [← (List.cons.inj hitems).1] at hreturns
    refine ⟨s', fun timed => ?_, ?_, hreturns⟩
    · simp [QueueState.tqPop, Heap.listEmpty, hn, hne, hpop]
    · simp [QueueState.tqPopWoken, Heap.listEmpty, hn, hne, hpop]

theorem tqPop_inv (h : QueueInv s nodes items) (timed : Bool) :
    ∃ s' nodes' items', s.tqPop t timed = some s' ∧ QueueInv s' nodes' items' ∧
      RefusesOnly s s' nodes := by
  obtain ⟨n, hn, ⟨hnext, _⟩ | ⟨d, nodes', items', hnodes, hitems, hne⟩⟩ := h.heap.first
  · refine ⟨s.goto t (.waiting timed), nodes, items, ?_, h.goto (by simp), refusesOnly_of_same rfl⟩
    simp [QueueState.tqPop, Heap.listEmpty, hn, hnext]
  · obtain ⟨s', hpop, hinv, hreturns⟩ := tqPopEnt_inv (t := t) h hn hnodes hitems
    refine ⟨s', nodes', items', ?_, hinv, refusesOnly_of_return hreturns (by simp)⟩
    simp [QueueState.tqPop, Heap.listEmpty, hn, hne, hpop]

theorem tqPopWoken_inv (h : QueueInv s nodes items) (rc : Bool) :
    ∃ s' nodes' items', s.tqPopWoken t rc = some s' ∧ QueueInv s' nodes' items' ∧
      RefusesOnly s s' nodes := by
  have hnone : RefusesOnly s (s.leave t (.pop t none)) nodes := refusesOnly_of_return rfl (by simp)
  cases rc with
  | true => exact ⟨_, nodes, items, rfl, h.leave rfl rfl, hnone⟩
  | false =>
    obtain ⟨n, hn, ⟨hnext, _⟩ | ⟨d, nodes', items', hnodes, hitems, hne⟩⟩ := h.heap.first
    · refine ⟨s.leave t (.pop t none), nodes, items, ?_, h.leave rfl rfl, hnone⟩
      simp [QueueState.tqPopWoken, Heap.listEmpty, hn, hnext]
    · obtain ⟨s', hpop, hinv, hreturns⟩ := tqPopEnt_inv (t := t) h hn hnodes hitems
      refine ⟨s', nodes', items', ?_, hinv, refusesOnly_of_return hreturns (by simp)⟩
      simp [QueueState.tqPopWoken, Heap.listEmpty, hn, hne, hpop]

theorem orFault_of_some {r : Option QueueState} (h : r = some s') : s.orFault r = s' := by
  rw [h, QueueState.orFault, Option.getD_some]

theorem QueueMove.inv (hmove : QueueMove s s') (h : QueueInv s nodes items) :
    ∃ nodes' items', QueueInv s' nodes' items' ∧ RefusesOnly s s' nodes := by
  cases hmove with
  | noMemory t data =>
    exact ⟨nodes, items, h.leave rfl rfl, fun _ _ _ => ⟨rfl, rfl, fun _ _ => ⟨rfl, rfl⟩⟩⟩
  | @made t ent data hnode =>
    obtain ⟨heap', hmake, hinv⟩ := h.heap.makeEnt (t := t) data hnode
    have hs' : s.tqMakeEnt t ent data = some { s.goto t (.pushing ent data) with heap := heap' } := by
      simp [QueueState.tqMakeEnt, hmake]
    rw [orFault_of_some hs']
    exact ⟨nodes, items, ⟨h.alive, hinv, h.accepted⟩, refusesOnly_of_same rfl⟩
  | pushed hpc =>
    obtain ⟨s₁, nodes', items', hpush, hinv⟩ := tqPush_inv h hpc
    exact ⟨nodes', items', (orFault_of_some hpush).symm ▸ hinv⟩
  | popped t timed =>
    obtain ⟨s₁, nodes', items', hpop, hinv⟩ := tqPop_inv (t := t) h timed
    exact ⟨nodes', items', (orFault_of_some hpop).symm ▸ hinv⟩
  | woken t rc =>
    obtain ⟨s₁, nodes', items', hpop, hinv⟩ := tqPopWoken_inv (t := t) h rc
    exact ⟨nodes', items', (orFault_of_some hpop).symm ▸ hinv⟩
  | froze frozen => exact ⟨nodes, items, ⟨h.alive, h.heap, h.accepted⟩, refusesOnly_of_same rfl⟩

end Steps

/-- `nodes` are the entries of the list in their order and `items` their data. -/
structure ListOf (s : QueueState) (nodes items : List Addr) : Prop where
  ring : Ring s.heap.node s.head nodes
  data : nodes.map s.heap.data = items.map some

/-- A pop that begins, or comes back without an error, takes the first entry if
there is one. -/
def PopsFirst (s : QueueState) (items : List Addr) : Prop :=
  ∀ d rest, items = d :: rest → ∀ t e, (s.pc t = .idle ∧ ∃ timed, e = .pop t timed) ∨
    ((∃ timed, s.pc t = .waiting timed) ∧ e = .wake t false) →
    ∃ s', queueStep s e = some s' ∧ s'.returns = s.returns ++ [.pop t (some d)]

/-- What was accepted comes out once and in its order: it has been delivered,
or else it is in the list, from its head on. -/
structure ExactlyOnce (s : QueueState) : Prop where
  alive : s.fault = false
  order : delivered s.returns <+: accepted s.returns
  list : ∃ nodes items, ListOf s nodes items ∧ accepted s.returns = delivered s.returns ++ items ∧
    PopsFirst s items ∧ ∀ e s', queueStep s e = some s' → RefusesOnly s s' nodes

def QueueOk (s : QueueState) : Prop := ∃ nodes items, QueueInv s nodes items

theorem tqNew_ok (head : Addr) : QueueOk (tqNew head) := by
  refine ⟨[], [], rfl, ⟨⟨?_, List.nodup_singleton head⟩, rfl, nofun, nofun⟩, rfl⟩
  refine .cons_cons ⟨?_, ?_⟩ (.singleton head)
  · simp [tqNew, nextAt]
  · simp [tqNew, prevAt]

theorem queueStep_ok {s s' : QueueState} {e : QueueEvent} (h : QueueOk s) (hstep : queueStep s e = some s') :
    QueueOk s' := by
  obtain ⟨nodes, items, h⟩ := h
  obtain ⟨nodes', items', hinv, _⟩ := (queueStep_move hstep).inv h
  exact ⟨nodes', items', hinv⟩

theorem QueueInv.popsFirst {s : QueueState} {nodes items : List Addr} (h : QueueInv s nodes items) :
    PopsFirst s items := by
  rintro d rest rfl t e hcalls
  obtain ⟨s', hpop, hwoken, hreturns⟩ := tqPop_head h t
  refine ⟨s', ?_, hreturns⟩
  rcases hcalls with ⟨hpc, timed, rfl⟩ | ⟨⟨timed, hpc⟩, rfl⟩
  · simp [queueStep, h.alive, hpc, orFault_of_some (hpop timed)]
  · simp [queueStep, h.alive, hpc, orFault_of_some hwoken]

theorem QueueOk.exactlyOnce {s : QueueState} (h : QueueOk s) : ExactlyOnce s := by
  obtain ⟨nodes, items, h⟩ := h
  refine ⟨h.alive, ⟨items, h.accepted.symm⟩, nodes, items, ⟨h.heap.ring, h.heap.data⟩, h.accepted,
    h.popsFirst, fun e s' hstep => ?_⟩
  obtain ⟨_, _, _, hrefuses⟩ := (queueStep_move hstep).inv h
  exact hrefuses

/-- In every run, whatever the threads do and in whatever order, the queue is
a list that gives back exactly once and in order what it took. -/
theorem run_exactlyOnce (head : Addr) (es : List QueueEvent) :
    Throughout queueStep ExactlyOnce (tqNew head) es :=
  throughout_of_invariant queueStep_ok QueueOk.exactlyOnce (tqNew_ok head) es

/-- Two threads push while a third waits; it pops what was enqueued first. -/
def twoPushes : List QueueEvent :=
  [.pop 2 false, .push 0 10 (some 3), .push 1 11 (some 4), .enqueue 1, .enqueue 0, .wake 2 false, .pop 2 false]

theorem run_exactlyOnce_two : ∃ s, run queueStep (tqNew 1) twoPushes = some s ∧ ExactlyOnce s ∧
    accepted s.returns = [11, 10] ∧ delivered s.returns = [11, 10] := by
  have hrun := run_exactlyOnce 1 twoPushes
  obtain ⟨s, hs⟩ : ∃ s, run queueStep (tqNew 1) twoPushes = some s := ⟨_, rfl⟩
  have hreturns : (run queueStep (tqNew 1) twoPushes).map (fun s => s.returns) =
      some [.push 1 11 true, .push 0 10 true, .pop 2 (some 11), .pop 2 (some 10)] := by decide
  rw [hs, Option.map_some] at hreturns
  refine ⟨s, hs, throughout_last hs hrun, ?_⟩
  rw [Option.some.inj hreturns]
  decide

end VerusMiner
