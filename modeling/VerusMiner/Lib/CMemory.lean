import VerusMiner.Lib.CText

/-! Blocks of memory that hold a string, and what C does to them with every
access checked against the size of the block. -/

namespace VerusMiner

inductive MemFault where
  | null
  | unterminated
  | outside
  | noMemory
  deriving DecidableEq

abbrev MemChecked := Except MemFault

theorem ok_bind {ε α β : Type} (a : α) (f : α → Except ε β) : (Except.ok a >>= f) = f a := rfl

theorem bind_eq_ok {ε α β : Type} {x : Except ε α} {f : α → Except ε β} {b : β} :
    x >>= f = .ok b ↔ ∃ a, x = .ok a ∧ f a = .ok b := by
  cases x with
  | ok a => exact ⟨fun h => ⟨a, rfl, h⟩, fun ⟨_, rfl, h⟩ => h⟩
  | error fault => exact iff_of_false (fun h => nomatch h) (fun ⟨_, h, _⟩ => nomatch h)

theorem toOption_eq_some {ε α : Type} {x : Except ε α} {a : α} : x.toOption = some a ↔ x = .ok a := by
  cases x with
  | ok b => exact ⟨fun h => congrArg _ (Option.some.inj h), fun h => congrArg _ (Except.ok.inj h)⟩
  | error fault => exact iff_of_false (fun h => nomatch h) (fun h => nomatch h)

def deref {α : Type} : Option α → MemChecked α
  | none => .error .null
  | some a => .ok a

theorem deref_eq_ok {α : Type} {p : Option α} {a : α} : deref p = .ok a ↔ p = some a := by
  cases p with
  | none => exact iff_of_false (fun h => nomatch h) (fun h => nomatch h)
  | some b => exact ⟨fun h => congrArg _ (Except.ok.inj h), fun h => congrArg _ (Option.some.inj h)⟩

def checkedStrlen (m : List Char) : MemChecked Nat :=
  if '\x00' ∈ m then .ok (cstr m).length else .error .unterminated

def checkedStore (m : List Char) (i : Nat) (c : Char) : MemChecked (List Char) :=
  if i < m.length then .ok (m.set i c) else .error .outside

def checkedStrcpy (m : List Char) (off : Nat) (s : List Char) : MemChecked (List Char) := do
  let n ← checkedStrlen s
  if off + n + 1 ≤ m.length then .ok (m.take off ++ strcpy (m.drop off) (cstr s)) else .error .outside

def checkedMemmove (m : List Char) (dst src n : Nat) : MemChecked (List Char) :=
  if src + n ≤ m.length ∧ dst + n ≤ m.length then
    .ok (m.take dst ++ (m.drop src).take n ++ m.drop (dst + n))
  else .error .outside

/-- What lies behind the bytes that are kept is up to the allocator, and no
block has 2^63 bytes. -/
def checkedRealloc (m : List Char) (size : Nat) (fresh : Nat → Char) : MemChecked (List Char) :=
  if size < 0x8000000000000000 then .ok (m.take size ++ (List.range (size - m.length)).map fresh) else .error .noMemory

structure HoldsString (m s : List Char) : Prop where
  plain : '\x00' ∉ s
  starts : s ++ ['\x00'] <+: m

section Blocks

variable {m s t : List Char}

theorem length_cstr_le (m : List Char) : (cstr m).length ≤ m.length := (List.takeWhile_prefix _).length_le

theorem holdsString_append (hs : '\x00' ∉ s) (t : List Char) : HoldsString (s ++ '\x00' :: t) s :=
  ⟨hs, t, by rw [List.append_assoc, List.singleton_append]⟩

theorem holdsString_cstr (u t : List Char) : HoldsString (u ++ '\x00' :: t) (cstr u) := by
  obtain ⟨v, hu, hv⟩ := cstr_split u
  have hplain := not_mem_cstr u
  rcases hv with rfl | ⟨v', rfl⟩
  · rw [List.append_nil] at hu
    rw [← hu] at hplain ⊢
    exact holdsString_append hplain t
  · have hsplit : u ++ '\x00' :: t = cstr u ++ '\x00' :: (v' ++ '\x00' :: t) := by
      rw [← List.cons_append, ← List.append_assoc, ← hu]
    rw [hsplit]
    exact holdsString_append hplain _

namespace HoldsString

theorem exists_eq (h : HoldsString m s) : ∃ t, m = s ++ '\x00' :: t := by
  obtain ⟨t, rfl⟩ := h.starts
  exact ⟨t, by rw [List.append_assoc, List.singleton_append]⟩

theorem cstr_eq (h : HoldsString m s) : cstr m = s := by
  obtain ⟨t, rfl⟩ := h.exists_eq
  rw [cstr_append h.plain, cstr_nul, List.append_nil]

theorem length_lt (h : HoldsString m s) : s.length < m.length := by
  have hle := h.starts.length_le
  rwa [List.length_append, List.length_singleton] at hle

theorem checkedStrlen_eq (h : HoldsString m s) : checkedStrlen m = .ok s.length := by
  have hmem : '\x00' ∈ m := h.starts.subset (List.mem_append_right _ List.mem_cons_self)
  rw [checkedStrlen, if_pos hmem, h.cstr_eq]

theorem take (h : HoldsString m s) {n : Nat} (hn : s.length < n) : HoldsString (m.take n) s := by
  refine ⟨h.plain, List.prefix_take_iff.mpr ⟨h.starts, ?_⟩⟩
  rw [List.length_append, List.length_singleton]
  omega

theorem append (h : HoldsString m s) (t : List Char) : HoldsString (m ++ t) s :=
  ⟨h.plain, h.starts.trans (List.prefix_append m t)⟩

theorem drop_set (h : HoldsString m s) {i j : Nat} (hi : i < s.length) (hj : j ≤ s.length) :
    HoldsString ((m.set i '\x00').drop j) (cstr ((s.set i '\x00').drop j)) := by
  obtain ⟨t, rfl⟩ := h.exists_eq
  rw [List.set_append_left _ _ hi, List.drop_append_of_le_length (by rwa [List.length_set])]
  exact holdsString_cstr _ t

theorem drop (h : HoldsString m s) {j : Nat} (hj : j ≤ s.length) : HoldsString (m.drop j) (s.drop j) := by
  obtain ⟨t, rfl⟩ := h.exists_eq
  rw [List.drop_append_of_le_length hj]
  exact holdsString_append (fun hmem => h.plain (List.mem_of_mem_drop hmem)) t

end HoldsString

theorem checkedStore_zero (h : 0 < m.length) :
    ∃ m', checkedStore m 0 '\x00' = .ok m' ∧ HoldsString m' [] ∧ m'.length = m.length := by
  refine ⟨m.set 0 '\x00', if_pos h, ?_, List.length_set⟩
  obtain ⟨c, m, rfl⟩ := List.exists_cons_of_length_pos h
  exact holdsString_append List.not_mem_nil m

theorem checkedStrcpy_end (h : HoldsString m s) {t : List Char} {u : List Char} (ht : HoldsString u t)
    (hroom : s.length + t.length + 1 ≤ m.length) :
    ∃ m', checkedStrcpy m s.length u = .ok m' ∧ HoldsString m' (s ++ t) ∧ m'.length = m.length := by
  obtain ⟨v, rfl⟩ := h.exists_eq
  refine ⟨s ++ (t ++ '\x00' :: ('\x00' :: v).drop (t.length + 1)), ?_, ?_, ?_⟩
  · rw [checkedStrcpy, ht.checkedStrlen_eq, ht.cstr_eq]
    change (if _ then _ else _) = _
    rw [if_pos hroom, List.take_left, List.drop_left, strcpy]
  · rw [← List.append_assoc]
    refine holdsString_append (fun hmem => ?_) _
    exact (List.mem_append.mp hmem).elim h.plain ht.plain
  · simp only [List.length_append, List.length_cons, List.length_drop] at hroom ⊢
    omega

theorem checkedMemmove_front {n src : Nat} (hsrc : src + n ≤ m.length) (hs : HoldsString (m.drop src) s)
    (hn : s.length < n) :
    ∃ m', checkedMemmove m 0 src n = .ok m' ∧ HoldsString m' s ∧ m'.length = m.length := by
  refine ⟨(m.drop src).take n ++ m.drop n, ?_, (hs.take hn).append _, ?_⟩
  · rw [checkedMemmove, if_pos ⟨hsrc, by omega⟩, List.take_zero, List.nil_append, Nat.zero_add]
  · rw [List.length_append, List.length_take, List.length_drop, List.length_drop]
    omega

theorem checkedRealloc_grow (h : HoldsString m s) {size : Nat} (hle : m.length ≤ size)
    (hsize : size < 0x8000000000000000) (fresh : Nat → Char) :
    ∃ m', checkedRealloc m size fresh = .ok m' ∧ HoldsString m' s ∧ m'.length = size := by
  refine ⟨m ++ (List.range (size - m.length)).map fresh, ?_, h.append _, ?_⟩
  · rw [checkedRealloc, if_pos hsize, List.take_of_length_le hle]
  · rw [List.length_append, List.length_map, List.length_range]
    omega

end Blocks

end VerusMiner
