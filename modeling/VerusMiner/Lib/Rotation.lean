import Mathlib.Data.List.Basic
import Mathlib.Logic.Function.Basic

/-! A table whose places are filled one entry after the other, in turn where
the entries are more than the places. -/

namespace VerusMiner

variable {ι α ε : Type*} [DecidableEq ι]

/-- Each entry changes the place that `key` gives it. -/
def fillAll (key : ε → ι) (g : α → ε → α) : (ι → α) → List ε → ι → α
  | f, [] => f
  | f, e :: es => fillAll key g (Function.update f (key e) (g (f (key e)) e)) es

/-- A place holds what its own entries made of it. -/
theorem fillAll_apply (key : ε → ι) (g : α → ε → α) (f : ι → α) (es : List ε) (i : ι) :
    fillAll key g f es i = (es.filter fun e => key e = i).foldl g (f i) := by
  induction es generalizing f with
  | nil => rfl
  | cons e es ih =>
    rw [fillAll, ih]
    by_cases hkey : key e = i
    · subst hkey
      simp
    · rw [Function.update_of_ne (Ne.symm hkey), List.filter_cons_of_neg (by simpa using hkey)]

/-- The entries whose turn comes at place `i` of `m`. -/
def turns (m i : Nat) (es : List ε) : List ε := (es.zipIdx.filter fun e => e.2 % m = i).map (·.1)

theorem zipIdx_filter_eq {i : Nat} {e : ε} {es : List ε} (n : Nat) (h : es[i]? = some e) :
    (es.zipIdx n).filter (fun x => x.2 = n + i) = [(e, n + i)] := by
  induction es generalizing i n with
  | nil => cases h
  | cons x es ih =>
    cases i with
    | zero =>
      obtain rfl := Option.some.inj h
      have hrest : (es.zipIdx (n + 1)).filter (fun x => x.2 = n + 0) = [] := by
        rw [List.filter_eq_nil_iff]
        intro y hy
        have hle := List.le_snd_of_mem_zipIdx hy
        simp only [decide_eq_true_eq]
        omega
      rw [List.zipIdx_cons, List.filter_cons_of_pos (by simp), hrest]
      rfl
    | succ i =>
      have htail := ih (n + 1) (List.getElem?_cons_succ ▸ h)
      rw [List.zipIdx_cons, List.filter_cons_of_neg (by simp),
        show n + (i + 1) = n + 1 + i by omega, htail]

/-- As long as there is a place for each, each has its own. -/
theorem turns_of_le {m i : Nat} {e : ε} {es : List ε} (hle : es.length ≤ m) (h : es[i]? = some e) :
    turns m i es = [e] := by
  have hplace : es.zipIdx.filter (fun x => x.2 % m = i) = es.zipIdx.filter (fun x => x.2 = 0 + i) := by
    refine List.filter_congr fun x hx => ?_
    have hlt := List.snd_lt_of_mem_zipIdx hx
    rw [Nat.mod_eq_of_lt (by omega), Nat.zero_add]
  rw [turns, hplace, zipIdx_filter_eq 0 h]
  rfl

end VerusMiner
