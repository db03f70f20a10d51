import Mathlib

/-! A log that grows at its end and is thinned out now and then, and a sorted
map with rising keys as the store of one. -/

namespace VerusMiner

open Std

section Retained

variable {α : Type*}

inductive LogOp (α : Type*) where
  | append (a : α)
  | prune (keep : α → Bool)

def LogOp.apply (l : List α) : LogOp α → List α
  | .append a => l ++ [a]
  | .prune keep => l.filter keep

/-- Every thinning out keeps the entry. -/
def outlives (ops : List (LogOp α)) (a : α) : Bool :=
  ops.all fun
    | .append _ => true
    | .prune keep => keep a

/-- The entries that all that comes after them keeps. -/
def retained : List (LogOp α) → List α
  | [] => []
  | .append a :: ops => if outlives ops a then a :: retained ops else retained ops
  | .prune _ :: ops => retained ops

theorem outlives_append (a : α) (ops : List (LogOp α)) : outlives (.append a :: ops) = outlives ops := rfl

theorem outlives_prune (keep : α → Bool) (ops : List (LogOp α)) (a : α) :
    outlives (.prune keep :: ops) a = (keep a && outlives ops a) := rfl

theorem foldl_apply (l : List α) (ops : List (LogOp α)) :
    ops.foldl LogOp.apply l = l.filter (outlives ops) ++ retained ops := by
  induction ops generalizing l with
  | nil =>
    have hall : l.filter (outlives []) = l := List.filter_eq_self.mpr fun _ _ => rfl
    rw [List.foldl_nil, hall, retained, List.append_nil]
  | cons op ops ih =>
    rw [List.foldl_cons, ih]
    cases op with
    | append a =>
      rw [LogOp.apply, List.filter_append, outlives_append, retained, List.append_assoc, List.filter_singleton]
      cases outlives ops a <;> rfl
    | prune keep =>
      rw [LogOp.apply, List.filter_filter, retained]
      congr 1
      refine List.filter_congr fun a _ => ?_
      rw [outlives_prune, Bool.and_comm]

theorem foldl_apply_nil (ops : List (LogOp α)) : ops.foldl LogOp.apply [] = retained ops := by
  rw [foldl_apply, List.filter_nil, List.nil_append]

end Retained

section Keys

variable {α β : Type*} {cmp : α → α → Ordering} [TransCmp cmp] [LawfulEqCmp cmp] {t : TreeMap α β cmp}

/-- A key above all others comes last. -/
theorem toList_insert_above {k : α} (v : β) (h : ∀ e ∈ t.toList, cmp e.1 k = .lt) :
    (t.insert k v).toList = t.toList ++ [(k, v)] := by
  classical
  let _ : BEq α := instBEqOfDecidableEq
  have hother : t.toList.filter (fun e => ¬k == e.1) = t.toList := by
    refine List.filter_eq_self.mpr fun e he => decide_eq_true fun heq => ?_
    have hlt := h e he
    have hself : cmp e.1 e.1 = .eq := ReflCmp.compare_self
    rw [eq_of_beq heq, hself] at hlt
    cases hlt
  have hperm : (t.insert k v).toList.Perm (t.toList ++ [(k, v)]) := by
    have hinsert := TreeMap.toList_insert_perm (t := t) (k := k) (v := v)
    rw [hother] at hinsert
    exact hinsert.trans (List.perm_append_singleton _ _).symm
  refine hperm.eq_of_pairwise (fun a b _ _ hab hba => ?_)
    TreeMap.ordered_keys_toList ?_
  · have haa : cmp a.1 a.1 = .lt := TransCmp.lt_trans hab hba
    have hself : cmp a.1 a.1 = .eq := ReflCmp.compare_self
    rw [hself] at haa
    cases haa
  · refine List.pairwise_append.mpr ⟨TreeMap.ordered_keys_toList, List.pairwise_singleton _ _, ?_⟩
    intro a ha b hb
    rw [List.mem_singleton.mp hb]
    exact h a ha

end Keys

end VerusMiner
