import Mathlib.Data.List.Nodup
import Mathlib.Logic.Function.Basic

/-! Requests and answers over mailboxes: a caller waits at a mailbox for the
answer to its request, and takes whatever is put there first. -/

namespace VerusMiner

/-- `pending` are the requests without an answer, in the order they are served;
a letter says which request it answers, if any. -/
structure Exchange (τ κ ρ : Type*) where
  calls : τ → Option (ρ × κ)
  pending : List (ρ × κ)
  letters : κ → List (Option ρ)

namespace Exchange

variable {τ κ ρ : Type*} (x : Exchange τ κ ρ)

def call [DecidableEq τ] (t : τ) (p : ρ × κ) : Exchange τ κ ρ where
  calls := Function.update x.calls t (some p)
  pending := x.pending ++ [p]
  letters := x.letters

def answer [DecidableEq κ] (p : ρ × κ) (rest : List (ρ × κ)) : Exchange τ κ ρ where
  calls := x.calls
  pending := rest
  letters := Function.update x.letters p.2 (x.letters p.2 ++ [some p.1])

def collect [DecidableEq τ] [DecidableEq κ] (t : τ) (k : κ) (rest : List (Option ρ)) :
    Exchange τ κ ρ where
  calls := Function.update x.calls t none
  pending := x.pending
  letters := Function.update x.letters k rest

/-- One caller at a mailbox, and for its request either the request itself or
one letter, the only one there; no request of a caller is lost. -/
structure Matched : Prop where
  alone : ∀ {t t' : τ} {r r' : ρ} {k : κ}, x.calls t = some (r, k) → x.calls t' = some (r', k) → t = t'
  pending_called : ∀ p ∈ x.pending, (∃ t, x.calls t = some p) ∧ x.letters p.2 = []
  letter_called : ∀ {k : κ} {a : Option ρ} {rest : List (Option ρ)}, x.letters k = a :: rest →
    rest = [] ∧ ∃ t r, x.calls t = some (r, k) ∧ a = some r
  nodup : x.pending.Nodup
  kept : ∀ {t : τ} {p : ρ × κ}, x.calls t = some p → p ∈ x.pending ∨ x.letters p.2 = [some p.1]

namespace Matched

variable {x : Exchange τ κ ρ} {t : τ} {p : ρ × κ} {rest : List (ρ × κ)}

theorem letters_eq_nil (h : x.Matched) {k : κ} (halone : ∀ t r, x.calls t ≠ some (r, k)) :
    x.letters k = [] := by
  cases hletters : x.letters k with
  | nil => rfl
  | cons a rest =>
    obtain ⟨_, t, r, hcall, _⟩ := h.letter_called hletters
    exact absurd hcall (halone t r)

/-- What a caller takes is the answer to its own request. -/
theorem letter_eq (h : x.Matched) {r : ρ} {k : κ} {a : Option ρ} {rest : List (Option ρ)}
    (hcall : x.calls t = some (r, k)) (hletters : x.letters k = a :: rest) : a = some r := by
  obtain ⟨_, t', r', hcall', ha⟩ := h.letter_called hletters
  rw [h.alone hcall' hcall, hcall] at hcall'
  rw [ha, (Prod.mk.inj (Option.some.inj hcall')).1]

theorem call [DecidableEq τ] (h : x.Matched) (ht : x.calls t = none) (halone : ∀ t' r, x.calls t' ≠ some (r, p.2)) :
    (x.call t p).Matched := by
  have hnew : (x.call t p).calls t = some p := Function.update_self ..
  have hold {t' : τ} (ht' : t' ≠ t) : (x.call t p).calls t' = x.calls t' := Function.update_of_ne ht' ..
  have hkept {t' : τ} {q : ρ × κ} (hcall : x.calls t' = some q) : (x.call t p).calls t' = some q := by
    rw [hold, hcall]
    rintro rfl
    rw [ht] at hcall
    cases hcall
  have hfresh : ∀ q ∈ x.pending, q.2 ≠ p.2 := by
    intro q hq heq
    obtain ⟨⟨t', hcall⟩, _⟩ := h.pending_called q hq
    exact halone t' q.1 (by rw [hcall, ← heq])
  constructor
  · intro t₁ t₂ r₁ r₂ k h₁ h₂
    by_cases ht₁ : t₁ = t
    · by_cases ht₂ : t₂ = t
      · rw [ht₁, ht₂]
      · rw [ht₁, hnew] at h₁
        rw [hold ht₂] at h₂
        exact absurd h₂ (by rw [Option.some.inj h₁] at halone; exact halone t₂ r₂)
    · rw [hold ht₁] at h₁
      by_cases ht₂ : t₂ = t
      · rw [ht₂, hnew] at h₂
        exact absurd h₁ (by rw [Option.some.inj h₂] at halone; exact halone t₁ r₁)
      · rw [hold ht₂] at h₂
        exact h.alone h₁ h₂
  · intro q hq
    rcases List.mem_append.mp hq with hq | hq
    · obtain ⟨⟨t', hcall⟩, hletters⟩ := h.pending_called q hq
      exact ⟨⟨t', hkept hcall⟩, hletters⟩
    · rw [List.mem_singleton.mp hq]
      exact ⟨⟨t, hnew⟩, h.letters_eq_nil halone⟩
  · intro k a rest hletters
    obtain ⟨hrest, t', r, hcall, ha⟩ := h.letter_called hletters
    exact ⟨hrest, t', r, hkept hcall, ha⟩
  · refine List.nodup_append.mpr ⟨h.nodup, List.nodup_singleton p, fun q hq q' hq' heq => ?_⟩
    rw [List.mem_singleton.mp hq'] at heq
    exact hfresh q hq (by rw [heq])
  · intro t' q hcall
    by_cases ht' : t' = t
    · rw [ht', hnew] at hcall
      exact .inl (List.mem_append_right _ (List.mem_singleton.mpr (Option.some.inj hcall).symm))
    · rw [hold ht'] at hcall
      exact (h.kept hcall).imp_left (List.mem_append_left _)

theorem answer [DecidableEq κ] (h : x.Matched) (hpending : x.pending = p :: rest) : (x.answer p rest).Matched := by
  obtain ⟨⟨t, hcall⟩, hempty⟩ := h.pending_called p (by rw [hpending]; exact List.mem_cons_self)
  have hnodup := h.nodup
  rw [hpending, List.nodup_cons] at hnodup
  have hhere : (x.answer p rest).letters p.2 = [some p.1] := by
    change Function.update x.letters p.2 (x.letters p.2 ++ [some p.1]) p.2 = _
    rw [Function.update_self, hempty, List.nil_append]
  have helse {k : κ} (hk : k ≠ p.2) : (x.answer p rest).letters k = x.letters k :=
    Function.update_of_ne hk ..
  constructor
  · exact h.alone
  · intro q hq
    obtain ⟨⟨t', hcall'⟩, hletters⟩ := h.pending_called q (by rw [hpending]; exact List.mem_cons_of_mem _ hq)
    refine ⟨⟨t', hcall'⟩, ?_⟩
    rw [helse, hletters]
    intro hk
    have ht : t' = t := h.alone (r := q.1) (k := p.2) (by rw [hcall', ← hk]) hcall
    rw [ht, hcall] at hcall'
    exact hnodup.1 (Option.some.inj hcall' ▸ hq)
  · intro k a rest' hletters
    by_cases hk : k = p.2
    · rw [hk, hhere] at hletters
      obtain ⟨rfl, rfl⟩ := List.cons.inj hletters
      exact ⟨rfl, t, p.1, by rw [hk]; exact hcall, rfl⟩
    · rw [helse hk] at hletters
      exact h.letter_called hletters
  · exact hnodup.2
  · intro t' q hcall'
    by_cases hk : q.2 = p.2
    · have ht : t' = t := h.alone (r := q.1) (k := p.2) (by rw [← hk]; exact hcall') hcall
      have hcall₁ : x.calls t' = some q := hcall'
      rw [ht, hcall] at hcall₁
      rw [← Option.some.inj hcall₁]
      exact .inr hhere
    · rw [helse hk]
      refine (h.kept hcall').imp_left fun hq => ?_
      rw [hpending] at hq
      rcases List.mem_cons.mp hq with rfl | hq
      · exact absurd rfl hk
      · exact hq

theorem collect [DecidableEq τ] [DecidableEq κ] (h : x.Matched) {r : ρ} {k : κ} {a : Option ρ}
    {rest : List (Option ρ)} (hcall : x.calls t = some (r, k)) (hletters : x.letters k = a :: rest) :
    (x.collect t k rest).Matched := by
  obtain ⟨rfl, _⟩ := h.letter_called hletters
  have hhere : (x.collect t k []).letters k = [] := Function.update_self ..
  have helse {k' : κ} (hk : k' ≠ k) : (x.collect t k []).letters k' = x.letters k' :=
    Function.update_of_ne hk ..
  have hkept {t' : τ} {q : ρ × κ} (hcall' : x.calls t' = some q) (hq : q.2 ≠ k) :
      (x.collect t k []).calls t' = some q := by
    refine (Function.update_of_ne ?_ ..).trans hcall'
    rintro rfl
    rw [hcall] at hcall'
    exact hq (by rw [← Option.some.inj hcall'])
  have hcalled {t' : τ} {q : ρ × κ} (hcall' : (x.collect t k []).calls t' = some q) :
      x.calls t' = some q := by
    change Function.update x.calls t none t' = some q at hcall'
    by_cases ht : t' = t
    · rw [ht, Function.update_self] at hcall'
      cases hcall'
    · rwa [Function.update_of_ne ht] at hcall'
  constructor
  · intro t₁ t₂ r₁ r₂ k' h₁ h₂
    exact h.alone (hcalled h₁) (hcalled h₂)
  · intro q hq
    obtain ⟨⟨t', hcall'⟩, hempty⟩ := h.pending_called q hq
    have hk : q.2 ≠ k := by
      rintro hk
      rw [hk, hletters] at hempty
      cases hempty
    exact ⟨⟨t', hkept hcall' hk⟩, by rw [helse hk, hempty]⟩
  · intro k' a' rest' hletters'
    have hk : k' ≠ k := by
      rintro rfl
      rw [hhere] at hletters'
      cases hletters'
    rw [helse hk] at hletters'
    obtain ⟨hrest, t', r', hcall', ha⟩ := h.letter_called hletters'
    exact ⟨hrest, t', r', hkept hcall' hk, ha⟩
  · exact h.nodup
  · intro t' q hcall'
    have hold := hcalled hcall'
    have hk : q.2 ≠ k := by
      intro hk
      have ht : t' = t := h.alone (r := q.1) (k := k) (by rw [hold, ← hk]) hcall
      change Function.update x.calls t none t' = some q at hcall'
      rw [ht, Function.update_self] at hcall'
      cases hcall'
    rw [helse hk]
    exact h.kept hold

end Matched

end Exchange

end VerusMiner
