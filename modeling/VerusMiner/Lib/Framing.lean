import Mathlib.Data.List.Induction

/-! Texts that are written to a stream one after the other, each of them
perhaps only in part. -/

namespace VerusMiner

variable {α : Type*}

structure Part (α : Type*) where
  text : List α
  sent : Nat
  sent_le : sent ≤ text.length

namespace Part

def start (text : List α) : Part α := ⟨text, 0, Nat.zero_le _⟩

def bytes (p : Part α) : List α := p.text.take p.sent

def rest (p : Part α) (n : Nat) : List α := (p.text.drop p.sent).take n

def add (p : Part α) (n : Nat) : Part α :=
  ⟨p.text, min (p.sent + n) p.text.length, Nat.min_le_right ..⟩

def isWhole (p : Part α) : Bool := p.sent == p.text.length

/-- All of the text was written, or nothing. -/
def Clean (p : Part α) : Prop := p.sent = 0 ∨ p.isWhole = true

/-- The stream holds whole texts, and after them a beginning of the last one. -/
def Framed (stream : List α) (ps : List (Part α)) : Prop :=
  stream = (ps.dropLast.filter isWhole).flatMap text ++ (ps.getLast?.map bytes).getD []

instance [DecidableEq α] {stream : List α} {ps : List (Part α)} : Decidable (Framed stream ps) :=
  inferInstanceAs (Decidable (_ = _))

theorem bytes_add (p : Part α) (n : Nat) : (p.add n).bytes = p.bytes ++ p.rest n := by
  simp only [bytes, rest, add]
  rw [← List.take_add, ← List.take_eq_take_min]

theorem add_zero (p : Part α) : p.add 0 = p := by
  simp only [add, Nat.add_zero, Nat.min_eq_left p.sent_le]

theorem add_add (p : Part α) (m n : Nat) : (p.add m).add n = p.add (m + n) := by
  simp only [add, mk.injEq, true_and]
  omega

theorem bytes_of_whole {p : Part α} (h : p.isWhole = true) : p.bytes = p.text := by
  have hsent : p.sent = p.text.length := by simpa [isWhole] using h
  rw [bytes, hsent, List.take_length]

theorem length_bytes (p : Part α) : p.bytes.length = p.sent := by
  rw [bytes, List.length_take, Nat.min_eq_left p.sent_le]

theorem length_whole_le (ps : List (Part α)) :
    ((ps.filter isWhole).flatMap text).length ≤ (ps.flatMap bytes).length := by
  induction ps with
  | nil => exact Nat.le_refl _
  | cons p ps ih =>
    rw [List.flatMap_cons, List.length_append]
    cases h : p.isWhole with
    | true =>
      rw [List.filter_cons_of_pos h, List.flatMap_cons, List.length_append, bytes_of_whole h]
      exact Nat.add_le_add_left ih _
    | false =>
      rw [List.filter_cons_of_neg (by simp [h])]
      exact Nat.le_trans ih (Nat.le_add_left ..)

theorem flatMap_bytes_eq_iff (ps : List (Part α)) :
    ps.flatMap bytes = (ps.filter isWhole).flatMap text ↔ ∀ p ∈ ps, p.Clean := by
  induction ps with
  | nil => simp
  | cons p ps ih =>
    rw [List.forall_mem_cons, ← ih, List.flatMap_cons]
    cases h : p.isWhole with
    | true =>
      rw [List.filter_cons_of_pos h, List.flatMap_cons, bytes_of_whole h, List.append_cancel_left_eq]
      exact (and_iff_right (.inr h)).symm
    | false =>
      rw [List.filter_cons_of_neg (by simp [h])]
      -- a text written in part makes the stream longer than the whole texts are
      have hclean : p.Clean ↔ p.bytes = [] := by
        rw [Clean, h, ← List.length_eq_zero_iff, length_bytes]
        simp
      rw [hclean]
      constructor
      · intro heq
        have hlength := congrArg List.length heq
        rw [List.length_append] at hlength
        have hle := length_whole_le ps
        have hnil : p.bytes = [] := List.length_eq_zero_iff.mp (by omega)
        rw [hnil, List.nil_append] at heq
        exact ⟨hnil, heq⟩
      · rintro ⟨hnil, heq⟩
        rw [hnil, heq, List.nil_append]

theorem framed_iff (ps : List (Part α)) :
    Framed (ps.flatMap bytes) ps ↔ ∀ p ∈ ps.dropLast, p.Clean := by
  rw [← flatMap_bytes_eq_iff, Framed]
  cases ps using List.reverseRecOn with
  | nil => simp
  | append_singleton ps p =>
    simp only [List.flatMap_append, List.flatMap_singleton, List.dropLast_concat,
      List.getLast?_concat, Option.map_some, Option.getD_some, List.append_cancel_right_eq]

theorem framed_start_iff {ps : List (Part α)} (h : Framed (ps.flatMap bytes) ps) (text : List α) :
    Framed (ps.flatMap bytes) (ps ++ [start text]) ↔ ∀ p, ps.getLast? = some p → p.Clean := by
  have hbytes : ps.flatMap bytes = (ps ++ [start text]).flatMap bytes := by
    simp [start, bytes]
  rw [hbytes, framed_iff, List.dropLast_concat]
  rw [framed_iff] at h
  cases ps using List.reverseRecOn with
  | nil => simp
  | append_singleton ps p =>
    simp only [List.dropLast_concat] at h
    simp only [List.getLast?_concat, Option.some.injEq, forall_eq', List.forall_mem_append,
      List.forall_mem_singleton]
    exact and_iff_right h

end Part

end VerusMiner
