import Mathlib.Data.List.Basic
import Mathlib.Tactic.Common

/-!
# Pairs joined by a delimiter

Two non-empty lists joined by a delimiter that may occur in them.

* `split_cases`  how two such joins can be equal;
* `unique_split`  **the pair can be read back exactly when the delimiter occurs in neither part**, the outer
  ends of the join apart.
-/

namespace Delim

open List

variable {α : Type*} {d : α} {n n' x x' : List α}

theorem split_cases (h : n' ++ d :: x' = n ++ d :: x) : n' = n ∧ x' = x ∨ (∃ c, n = n' ++ d :: c ∧ x' = c ++ d :: x) ∨
      ∃ c, n' = n ++ d :: c ∧ x = c ++ d :: x' := by
  rcases append_eq_append_iff.mp h with ⟨c, hn, hx⟩ | ⟨c, hn, hx⟩
  · cases c with
    | nil =>
      rw [append_nil] at hn
      cases hx
      exact .inl ⟨hn.symm, rfl⟩
    | cons a c =>
      cases hx
      exact .inr (.inl ⟨c, hn, rfl⟩)
  · cases c with
    | nil =>
      rw [append_nil] at hn
      cases hx
      exact .inl ⟨hn, rfl⟩
    | cons a c =>
      cases hx
      exact .inr (.inr ⟨c, hn, rfl⟩)

theorem mem_tail_of_append (hn : n' ≠ []) (c : List α) : d ∈ (n' ++ d :: c).tail := by
  cases n' with
  | nil => exact absurd rfl hn
  | cons a s => exact mem_append_right s (mem_cons_self ..)

theorem mem_dropLast_of_append (hx : x' ≠ []) (c : List α) : d ∈ (c ++ d :: x').dropLast := by
  rw [dropLast_append_of_ne_nil (cons_ne_nil _ _), dropLast_cons_of_ne_nil hx]
  exact mem_append_right c (mem_cons_self ..)

theorem exists_of_mem_tail (h : d ∈ n.tail) : ∃ s c, s ≠ [] ∧ n = s ++ d :: c := by
  cases n with
  | nil => cases h
  | cons a t =>
    obtain ⟨s, c, rfl⟩ := append_of_mem h
    exact ⟨a :: s, c, cons_ne_nil _ _, rfl⟩

theorem exists_of_mem_dropLast (h : d ∈ x.dropLast) : ∃ c t, t ≠ [] ∧ x = c ++ d :: t := by
  have hx : x ≠ [] := by
    rintro rfl
    cases h
  obtain ⟨c, t, ht⟩ := append_of_mem h
  refine ⟨c, t ++ [x.getLast hx], append_ne_nil_of_right_ne_nil _ (cons_ne_nil _ _), ?_⟩
  have hlast := dropLast_append_getLast hx
  rw [ht, append_assoc] at hlast
  exact hlast.symm

/-- **A pair can be read back from its join exactly when the delimiter is in neither part**, the outer
ends apart. -/
theorem unique_split (hx : x ≠ []) : (∀ n' x', n' ≠ [] → x' ≠ [] → n' ++ d :: x' = n ++ d :: x → n' = n ∧ x' = x) ↔
      d ∉ n.tail ∧ d ∉ x.dropLast := by
  constructor
  · intro h
    refine ⟨fun hmem => ?_, fun hmem => ?_⟩
    · obtain ⟨s, c, hs, rfl⟩ := exists_of_mem_tail hmem
      have hjoin : s ++ d :: (c ++ d :: x) = (s ++ d :: c) ++ d :: x := by
        rw [append_assoc, cons_append]
      have heq := (h s (c ++ d :: x) hs (append_ne_nil_of_right_ne_nil _ (cons_ne_nil _ _)) hjoin).1
      exact cons_ne_nil _ _ (self_eq_append_right.mp heq)
    · obtain ⟨c, t, ht, rfl⟩ := exists_of_mem_dropLast hmem
      have hjoin : (n ++ d :: c) ++ d :: t = n ++ d :: (c ++ d :: t) := by
        rw [append_assoc, cons_append]
      have heq := (h (n ++ d :: c) t (append_ne_nil_of_right_ne_nil _ (cons_ne_nil _ _)) ht hjoin).1
      exact cons_ne_nil _ _ (self_eq_append_right.mp heq.symm)
  · rintro ⟨hn, hd⟩ n' x' hn' hx' heq
    rcases split_cases heq with h | ⟨c, rfl, -⟩ | ⟨c, -, rfl⟩
    · exact h
    · exact absurd (mem_tail_of_append hn' c) hn
    · exact absurd (mem_dropLast_of_append hx' c) hd

end Delim
