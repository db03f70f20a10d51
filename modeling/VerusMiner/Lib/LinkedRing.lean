import Mathlib.Data.List.Chain
import Mathlib.Data.List.Nodup
import Mathlib.Logic.Function.Basic

/-! Doubly linked rings in a partial store of link cells: a cell is put between
two neighbors or taken out from between them, and the rest is left alone. -/

namespace VerusMiner

variable {α : Type*}

structure ListHead (α : Type*) where
  next : α
  prev : α

def nextAt (m : α → Option (ListHead α)) (a : α) : Option α := (m a).map ListHead.next

def prevAt (m : α → Option (ListHead α)) (a : α) : Option α := (m a).map ListHead.prev

def Linked (m : α → Option (ListHead α)) (a b : α) : Prop := nextAt m a = some b ∧ prevAt m b = some a

/-- From the head through the nodes in their order and back to the head, each
link with its inverse, and no cell twice. -/
structure Ring (m : α → Option (ListHead α)) (head : α) (nodes : List α) : Prop where
  chain : (head :: (nodes ++ [head])).IsChain (Linked m)
  nodup : (head :: nodes).Nodup

/-- A chain holds of any other links that its sources and targets keep. -/
theorem chain_frame {R S : α → α → Prop} {l : List α} (h : l.IsChain R)
    (hkeep : ∀ a ∈ l.dropLast, ∀ b ∈ l.tail, R a b → S a b) : l.IsChain S := by
  induction h with
  | nil => exact .nil
  | singleton a => exact .singleton a
  | @cons_cons a b l hab h ih =>
    refine .cons_cons (hkeep a (by simp) b (by simp) hab) (ih fun x hx y hy => ?_)
    exact hkeep x (List.mem_cons_of_mem a hx) y (List.mem_cons_of_mem b hy)

section Frame

variable {m m' : α → Option (ListHead α)} {head b c x : α} {l₁ l₂ mid nodes nodes' : List α}

theorem apart_of_nodup (h : (l₁ ++ b :: (mid ++ l₂)).Nodup) {y : α} (hy : y ∈ l₁ ∨ y ∈ l₂) :
    y ≠ b ∧ y ∉ mid := by
  simp only [List.nodup_append', List.nodup_cons, List.mem_append, List.disjoint_cons_right,
    List.disjoint_append_right] at h
  obtain ⟨_, ⟨hb, _, _, hmid⟩, hb', hmid', _⟩ := h
  rcases hy with hy | hy
  · exact ⟨fun he => hb' (he ▸ hy), hmid' hy⟩
  · exact ⟨fun he => hb (.inr (he ▸ hy)), fun hm => hmid hm hy⟩

/-- Links that change only from `b` forward, from `c` backward and between the
two stay what they were on both sides. -/
theorem chain_sides (mid : List α) (h : (l₁ ++ b :: (mid ++ c :: l₂)).IsChain (Linked m))
    (hdrop : (l₁ ++ b :: (mid ++ c :: l₂)).dropLast.Nodup)
    (htail : (l₁ ++ b :: (mid ++ c :: l₂)).tail.Nodup)
    (hnext : ∀ a ∈ l₁ ++ c :: l₂, a ≠ b → a ∉ mid → nextAt m' a = nextAt m a)
    (hprev : ∀ a ∈ (l₁ ++ [b]) ++ l₂, a ≠ c → a ∉ mid → prevAt m' a = prevAt m a) :
    (l₁ ++ [b]).IsChain (Linked m') ∧ (c :: l₂).IsChain (Linked m') := by
  have hsources : (l₁ ++ b :: (mid ++ (c :: l₂).dropLast)).Nodup := by
    rwa [List.dropLast_append_of_ne_nil (by simp), List.dropLast_cons_of_ne_nil (by simp),
      List.dropLast_append_of_ne_nil (by simp)] at hdrop
  have htargets : ((l₁ ++ [b]).tail ++ c :: (mid ++ l₂)).Nodup := by
    rw [List.append_cons, List.tail_append_of_ne_nil (by simp)] at htail
    refine (List.Perm.nodup_iff ?_).mp htail
    exact List.perm_middle.append_left _
  have hsource {y : α} (hy : y ∈ l₁ ∨ y ∈ (c :: l₂).dropLast) := apart_of_nodup hsources hy
  have htarget {z : α} (hz : z ∈ (l₁ ++ [b]).tail ∨ z ∈ l₂) := apart_of_nodup htargets hz
  have hboth : (l₁ ++ [b]).IsChain (Linked m) ∧ (c :: l₂).IsChain (Linked m) := by
    rw [List.append_cons] at h
    exact ⟨h.left_of_append, h.right_of_append.right_of_append⟩
  constructor
  · refine chain_frame hboth.1 fun y hy z hz hyz => ?_
    rw [List.dropLast_concat] at hy
    obtain ⟨hyb, hym⟩ := hsource (.inl hy)
    obtain ⟨hzc, hzm⟩ := htarget (.inl hz)
    refine ⟨?_, ?_⟩
    · rw [hnext y (List.mem_append_left _ hy) hyb hym]
      exact hyz.1
    · rw [hprev z (List.mem_append_left _ (List.mem_of_mem_tail hz)) hzc hzm]
      exact hyz.2
  · refine chain_frame hboth.2 fun y hy z hz hyz => ?_
    obtain ⟨hyb, hym⟩ := hsource (.inr hy)
    obtain ⟨hzc, hzm⟩ := htarget (.inr hz)
    refine ⟨?_, ?_⟩
    · rw [hnext y (List.mem_append_right _ (List.dropLast_subset _ hy)) hyb hym]
      exact hyz.1
    · rw [hprev z (List.mem_append_right _ hz) hzc hzm]
      exact hyz.2

theorem Ring.congr (h : Ring m head nodes) (hsame : ∀ a ∈ head :: nodes, m' a = m a) :
    Ring m' head nodes := by
  refine ⟨h.chain.imp_of_mem_imp fun a b ha hb hab => ?_, h.nodup⟩
  have hmem {x : α} (hx : x ∈ head :: (nodes ++ [head])) : x ∈ head :: nodes := by
    simp only [List.mem_cons, List.mem_append, List.not_mem_nil, or_false] at hx ⊢
    tauto
  rw [Linked, nextAt, prevAt, hsame a (hmem ha), hsame b (hmem hb)]
  exact hab

theorem Ring.next_head (h : Ring m head nodes) : nextAt m head = some (nodes.headD head) := by
  have hchain := h.chain
  cases nodes with
  | nil => exact (List.isChain_cons_cons.mp hchain).1.1
  | cons x nodes => exact (List.isChain_cons_cons.mp hchain).1.1

theorem Ring.isSome_next (h : Ring m head nodes) {a : α} (ha : a ∈ head :: nodes) :
    (nextAt m a).isSome := by
  obtain ⟨l₁, l₂, hsplit⟩ := List.append_of_mem ha
  obtain ⟨b, l₃, hb⟩ : ∃ b l₃, l₂ ++ [head] = b :: l₃ := List.exists_cons_of_ne_nil (by simp)
  have hchain := h.chain
  rw [← List.cons_append, hsplit, List.append_assoc, List.cons_append, hb,
    List.isChain_append_cons_cons] at hchain
  rw [hchain.2.1.1, Option.isSome_some]

theorem Ring.drop_tail_nodup (h : Ring m head nodes) :
    (head :: (nodes ++ [head])).dropLast.Nodup ∧ (head :: (nodes ++ [head])).tail.Nodup := by
  constructor
  · rw [← List.cons_append, List.dropLast_concat]
    exact h.nodup
  · exact (List.perm_append_singleton head nodes).nodup_iff.mpr h.nodup

/-- A cell that is linked both ways between two neighbors is one more node. -/
theorem Ring.insert (h : Ring m head nodes) (hsplit : head :: (nodes ++ [head]) = l₁ ++ b :: c :: l₂)
    (hsplit' : head :: (nodes' ++ [head]) = l₁ ++ b :: x :: c :: l₂) (hx : x ∉ head :: nodes)
    (hbx : Linked m' b x) (hxc : Linked m' x c)
    (hnext : ∀ a, a ≠ b → a ≠ x → nextAt m' a = nextAt m a)
    (hprev : ∀ a, a ≠ c → a ≠ x → prevAt m' a = prevAt m a) : Ring m' head nodes' := by
  obtain ⟨hdrop, htail⟩ := h.drop_tail_nodup
  have hchain := h.chain
  rw [hsplit] at hdrop htail hchain
  have hxl : x ∉ l₁ ++ b :: c :: l₂ := by
    rw [← hsplit]
    simp only [List.mem_cons, List.mem_append, List.not_mem_nil, or_false, not_or] at hx ⊢
    exact ⟨hx.1, hx.2, hx.1⟩
  have hsources : l₁ ++ c :: l₂ ⊆ l₁ ++ b :: c :: l₂ :=
    ((List.sublist_cons_self b (c :: l₂)).append_left l₁).subset
  have htargets : (l₁ ++ [b]) ++ l₂ ⊆ l₁ ++ b :: c :: l₂ := by
    rw [List.append_cons l₁ b (c :: l₂)]
    exact ((List.sublist_cons_self c l₂).append_left (l₁ ++ [b])).subset
  obtain ⟨hleft, hright⟩ := chain_sides [] hchain hdrop htail
    (fun a ha hab _ => hnext a hab fun he => hxl (he ▸ hsources ha))
    (fun a ha hac _ => hprev a hac fun he => hxl (he ▸ htargets ha))
  have hperm : ((head :: nodes') ++ [head]).Perm ((x :: head :: nodes) ++ [head]) := by
    rw [List.cons_append, hsplit', List.cons_append, List.cons_append, hsplit,
      List.append_cons l₁ b (x :: c :: l₂), List.append_cons l₁ b (c :: l₂)]
    exact List.perm_middle
  constructor
  · rw [hsplit', List.isChain_append_cons_cons, List.isChain_cons_cons]
    exact ⟨hleft, hbx, hxc, hright⟩
  · rw [((List.perm_append_right_iff [head]).mp hperm).nodup_iff]
    exact List.nodup_cons.mpr ⟨hx, h.nodup⟩

/-- Two cells that are linked past the one between them have it taken out. -/
theorem Ring.remove (h : Ring m head nodes)
    (hsplit : head :: (nodes ++ [head]) = l₁ ++ b :: x :: c :: l₂)
    (hsplit' : head :: (nodes' ++ [head]) = l₁ ++ b :: c :: l₂) (hbc : Linked m' b c)
    (hnext : ∀ a, a ≠ b → a ≠ x → nextAt m' a = nextAt m a)
    (hprev : ∀ a, a ≠ c → a ≠ x → prevAt m' a = prevAt m a) : Ring m' head nodes' := by
  obtain ⟨hdrop, htail⟩ := h.drop_tail_nodup
  have hchain := h.chain
  rw [hsplit] at hdrop htail hchain
  obtain ⟨hleft, hright⟩ := chain_sides [x] hchain hdrop htail
    (fun a _ hab hax => hnext a hab (List.ne_of_not_mem_cons hax))
    (fun a _ hac hax => hprev a hac (List.ne_of_not_mem_cons hax))
  have hsub : ((head :: nodes') ++ [head]).Sublist ((head :: nodes) ++ [head]) := by
    rw [List.cons_append, hsplit', List.cons_append, hsplit]
    exact ((List.sublist_cons_self x (c :: l₂)).cons_cons b).append_left l₁
  constructor
  · rw [hsplit', List.isChain_append_cons_cons]
    exact ⟨hleft, hbc, hright⟩
  · exact h.nodup.sublist ((List.append_sublist_append_right [head]).mp hsub)

end Frame

end VerusMiner
