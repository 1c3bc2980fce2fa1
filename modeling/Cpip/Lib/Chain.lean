import Mathlib.Data.List.Basic
import Mathlib.Data.List.Induction
import Mathlib.Tactic.Common

/-!
# Chains: the part of a list from its last marked element on

A log of checkpoints and deltas is read from its last checkpoint forward.  `chain p l` is the
suffix of `l` that starts at the last element with `p`, and the whole list when there is none;
it is written as the backward scan an implementation makes.

* `chain_snoc_pos`, `chain_snoc_neg`  appending a checkpoint or a delta.
-/

namespace Chain

open List

variable {α : Type*} {p : α → Bool}

/-- scan down from position `n`: the last position below `n` that is marked, else `0` -/
def base (p : α → Bool) (l : List α) : Nat → Nat
  | 0 => 0
  | n + 1 => if (l[n]?).any p then n else base p l n

def chain (p : α → Bool) (l : List α) : List α := l.drop (base p l l.length)

variable (l : List α)

theorem base_le (n : Nat) : base p l n ≤ n := by
  induction n with
  | zero => exact Nat.le_refl 0
  | succ n ih =>
    unfold base
    split <;> omega

theorem base_append (l m : List α) (n : Nat) (hn : n ≤ l.length) : base p (l ++ m) n = base p l n := by
  induction n with
  | zero => rfl
  | succ n ih =>
    unfold base
    rw [getElem?_append_left hn, ih (by omega)]

theorem chain_snoc_pos (a : α) (h : p a = true) : chain p (l ++ [a]) = [a] := by
  have hb : base p (l ++ [a]) (l ++ [a]).length = l.length := by
    rw [length_append, length_singleton]
    unfold base
    simp [h]
  unfold chain
  rw [hb, drop_left]

theorem chain_snoc_neg (a : α) (h : p a = false) : chain p (l ++ [a]) = chain p l ++ [a] := by
  have hb : base p (l ++ [a]) (l ++ [a]).length = base p l l.length := by
    rw [length_append, length_singleton]
    conv_lhs => unfold base
    rw [getElem?_append_right (Nat.le_refl _)]
    simp only [Nat.sub_self, getElem?_cons_zero, Option.any_some, h, Bool.false_eq_true, if_false]
    exact base_append l [a] l.length (Nat.le_refl _)
  unfold chain
  rw [hb, drop_append_of_le_length (base_le l l.length)]

/-- the newest `k` elements of `l ++ [a]`, for positive `k` -/
theorem drop_snoc (a : α) (k : Nat) :
    (l ++ [a]).drop ((l ++ [a]).length - (k + 1)) = l.drop (l.length - k) ++ [a] := by
  rw [length_append, length_singleton, Nat.add_sub_add_right, drop_append_of_le_length (Nat.sub_le _ _)]

/-- **Retention keeps a short chain**: the newest `k` elements have the same chain when the chain
is at most `k` long. -/
theorem chain_keep (k : Nat) (h : (chain p l).length ≤ k) :
    chain p (l.drop (l.length - k)) = chain p l := by
  induction l using reverseRecOn generalizing k with
  | nil => simp [chain]
  | append_singleton l a ih =>
    cases hp : p a with
    | true =>
      rw [chain_snoc_pos l a hp] at h ⊢
      obtain ⟨k, rfl⟩ : ∃ j, k = j + 1 := ⟨k - 1, by simp at h; omega⟩
      rw [drop_snoc, chain_snoc_pos _ a hp]
    | false =>
      rw [chain_snoc_neg l a hp, length_append, length_singleton] at h
      obtain ⟨k, rfl⟩ : ∃ j, k = j + 1 := ⟨k - 1, by omega⟩
      rw [drop_snoc, chain_snoc_neg _ a hp, chain_snoc_neg _ a hp, ih k (by omega)]

theorem chain_ne_nil {l : List α} (h : l ≠ []) : chain p l ≠ [] := by
  induction l using reverseRecOn with
  | nil => exact absurd rfl h
  | append_singleton l a _ =>
    cases hp : p a with
    | true => rw [chain_snoc_pos l a hp]; simp
    | false => rw [chain_snoc_neg l a hp]; simp

theorem mem_of_mem_chain {l : List α} {a : α} (h : a ∈ chain p l) : a ∈ l :=
  mem_of_mem_drop h

theorem chain_getLast? : (chain p l).getLast? = l.getLast? := by
  induction l using reverseRecOn with
  | nil => rfl
  | append_singleton l a _ =>
    cases hp : p a with
    | true => rw [chain_snoc_pos l a hp]; simp
    | false => rw [chain_snoc_neg l a hp]; simp

end Chain
