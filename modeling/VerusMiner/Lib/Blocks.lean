import Mathlib.Logic.Function.Basic

/-! Blocks handed out by an allocator and taken back: a pointer to a block that
was taken back dangles, and what uses it has no result. -/

namespace VerusMiner

inductive BlockFault where
  | null
  | dangling
  | outside
  deriving DecidableEq

/-- The sizes of the blocks in use; the addresses from `next` on are fresh. -/
structure Blocks where
  next : Nat
  sizes : Nat → Option Nat

namespace Blocks

def empty : Blocks where
  next := 0
  sizes := fun _ => none

def malloc (h : Blocks) (size : Nat) : Nat × Blocks :=
  (h.next, { next := h.next + 1, sizes := Function.update h.sizes h.next (some size) })

def free (h : Blocks) : Option Nat → Except BlockFault Blocks
  | none => .ok h
  | some p =>
    if (h.sizes p).isSome then .ok { h with sizes := Function.update h.sizes p none } else .error .dangling

/-- An access to the first `n` bytes of a block. -/
def touch (h : Blocks) (p n : Nat) : Except BlockFault Unit :=
  match h.sizes p with
  | none => .error .dangling
  | some size => if n ≤ size then .ok () else .error .outside

def freeAll (h : Blocks) (ps : List Nat) : Except BlockFault Blocks := ps.foldlM (fun h p => h.free (some p)) h

def realloc (h : Blocks) (q : Option Nat) (size : Nat) : Except BlockFault (Nat × Blocks) := do
  let h ← h.free q
  return h.malloc size

/-- The blocks in use are the listed ones, each by its address and size. -/
structure Holds (h : Blocks) (own : List (Nat × Nat)) : Prop where
  fresh : ∀ p, h.next ≤ p → h.sizes p = none
  nodup : (own.map Prod.fst).Nodup
  sizes : ∀ p n, h.sizes p = some n ↔ (p, n) ∈ own

theorem empty_holds : empty.Holds [] :=
  ⟨fun _ _ => rfl, List.nodup_nil, fun _ _ => iff_of_false (fun h => nomatch h) List.not_mem_nil⟩

namespace Holds

variable {h : Blocks} {own r : List (Nat × Nat)}

theorem perm (hh : h.Holds own) (hown : own.Perm r) : h.Holds r :=
  ⟨hh.fresh, ((hown.map Prod.fst).nodup_iff).mp hh.nodup, fun p n => (hh.sizes p n).trans hown.mem_iff⟩

theorem lt_next (hh : h.Holds own) {p n : Nat} (hp : (p, n) ∈ own) : p < h.next := by
  by_contra hge
  have hnone := hh.fresh p (by omega)
  rw [(hh.sizes p n).mpr hp] at hnone
  exact nomatch hnone

theorem malloc (hh : h.Holds own) (size : Nat) : (h.malloc size).2.Holds ((h.next, size) :: own) := by
  have hnew (n : Nat) : (h.next, n) ∉ own := fun hmem => Nat.lt_irrefl _ (hh.lt_next hmem)
  refine ⟨fun p hp => ?_, ?_, fun p n => ?_⟩
  · change h.next + 1 ≤ p at hp
    change Function.update h.sizes h.next (some size) p = none
    rw [Function.update_of_ne (by omega), hh.fresh p (by omega)]
  · rw [List.map_cons, List.nodup_cons]
    refine ⟨fun hmem => ?_, hh.nodup⟩
    obtain ⟨⟨p, n⟩, hown, rfl⟩ := List.mem_map.mp hmem
    exact hnew n hown
  · rw [Blocks.malloc, List.mem_cons, Prod.mk.injEq]
    dsimp only
    by_cases hp : p = h.next
    · subst hp
      rw [Function.update_self, Option.some.injEq]
      constructor
      · rintro rfl
        exact .inl ⟨rfl, rfl⟩
      · rintro (⟨-, rfl⟩ | hmem)
        · rfl
        · exact absurd hmem (hnew n)
    · rw [Function.update_of_ne hp, hh.sizes]
      simp only [hp, false_and, false_or]

theorem free {p n : Nat} (hh : h.Holds own) (hown : own.Perm ((p, n) :: r)) :
    ∃ h', h.free (some p) = .ok h' ∧ h'.Holds r := by
  have hh := hh.perm hown
  have hp := (hh.sizes p n).mpr List.mem_cons_self
  have hnodup := List.nodup_cons.mp hh.nodup
  refine ⟨_, by rw [Blocks.free, hp, Option.isSome_some, if_pos rfl], fun q hq => ?_, hnodup.2, fun q m => ?_⟩
  · dsimp only at hq ⊢
    rw [Function.update_of_ne, hh.fresh q hq]
    rintro rfl
    exact absurd (hh.lt_next List.mem_cons_self) (by omega)
  · dsimp only
    by_cases hq : q = p
    · subst hq
      rw [Function.update_self]
      exact iff_of_false (fun h => nomatch h) fun hmem => hnodup.1 (List.mem_map.mpr ⟨_, hmem, rfl⟩)
    · rw [Function.update_of_ne hq, hh.sizes, List.mem_cons, Prod.mk.injEq]
      simp only [hq, false_and, false_or]

theorem free_pointer {q : Option Nat} {n : Nat} (hh : h.Holds own)
    (hown : own.Perm ((q.map fun p => (p, n)).toList ++ r)) :
    ∃ h', h.free q = .ok h' ∧ h'.Holds r ∧ h'.next = h.next := by
  cases q with
  | none => exact ⟨h, rfl, hh.perm hown, rfl⟩
  | some p =>
    obtain ⟨h', hfree, hh'⟩ := hh.free hown
    refine ⟨h', hfree, hh', ?_⟩
    rw [Blocks.free] at hfree
    split at hfree
    · cases hfree
      rfl
    · exact nomatch hfree

theorem freeAll {n : Nat} (hh : h.Holds own) (ps : List Nat)
    (hown : own.Perm (ps.map (fun p => (p, n)) ++ r)) :
    ∃ h', h.freeAll ps = .ok h' ∧ h'.Holds r ∧ h'.next = h.next := by
  induction ps generalizing h own with
  | nil => exact ⟨h, rfl, hh.perm hown, rfl⟩
  | cons p ps ih =>
    obtain ⟨h₁, hfree, hh₁, hnext₁⟩ := hh.free_pointer (q := some p) (n := n)
      (r := ps.map (fun p => (p, n)) ++ r) hown
    obtain ⟨h₂, hall, hh₂, hnext₂⟩ := ih hh₁ (List.Perm.refl _)
    refine ⟨h₂, ?_, hh₂, hnext₂.trans hnext₁⟩
    rw [Blocks.freeAll, List.foldlM_cons, hfree]
    exact hall

theorem realloc {q : Option Nat} {n : Nat} (hh : h.Holds own)
    (hown : own.Perm ((q.map fun p => (p, n)).toList ++ r)) (size : Nat) :
    ∃ h', h.realloc q size = .ok (h.next, h') ∧ h'.Holds ((h.next, size) :: r) := by
  obtain ⟨h₁, hfree, hh₁, hnext⟩ := hh.free_pointer hown
  refine ⟨(h₁.malloc size).2, ?_, ?_⟩
  · rw [Blocks.realloc, hfree, ← hnext]
    rfl
  · rw [← hnext]
    exact hh₁.malloc size

theorem free_dangling {p : Nat} (hh : h.Holds own) (hp : p ∉ own.map Prod.fst) :
    h.free (some p) = .error .dangling := by
  have hnone : h.sizes p = none := by
    cases hsize : h.sizes p with
    | none => rfl
    | some n => exact absurd (List.mem_map.mpr ⟨_, (hh.sizes p n).mp hsize, rfl⟩) hp
  rw [Blocks.free, hnone, Option.isSome_none, if_neg Bool.false_ne_true]

theorem touch {p n k : Nat} (hh : h.Holds own) (hp : (p, n) ∈ own) (hk : k ≤ n) : h.touch p k = .ok () := by
  simp only [Blocks.touch, (hh.sizes p n).mpr hp, if_pos hk]

theorem touch_iff {p n k : Nat} (hh : h.Holds own) (hp : (p, n) ∈ own) : h.touch p k = .ok () ↔ k ≤ n := by
  rw [Blocks.touch, (hh.sizes p n).mpr hp]
  dsimp only
  split
  case isTrue hk => exact iff_of_true rfl hk
  case isFalse hk => exact iff_of_false (fun hfault => nomatch hfault) hk

/-- What is in use beside `own` is nothing exactly when `own` is all that is. -/
theorem left_iff {left : List (Nat × Nat)} (hh : h.Holds (left ++ own)) : h.Holds own ↔ left = [] := by
  constructor
  · intro hown
    by_contra hne
    obtain ⟨⟨p, n⟩, rest, rfl⟩ := List.exists_cons_of_ne_nil hne
    have hused := (hh.sizes p n).mpr List.mem_cons_self
    have hmem : p ∈ (rest ++ own).map Prod.fst :=
      List.mem_map.mpr ⟨(p, n), List.mem_append_right _ ((hown.sizes p n).mp hused), rfl⟩
    exact (List.nodup_cons.mp hh.nodup).1 hmem
  · rintro rfl
    exact hh

end Holds

end Blocks

end VerusMiner
