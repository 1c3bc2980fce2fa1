import Mathlib.Algebra.Order.Ring.Int
import Mathlib.Data.List.Nodup
import Mathlib.Logic.Function.Basic
import Mathlib.Tactic.Common

/-!
# Families of numbered items with a head

Items of families; each has a number in its family, and one of the family is its head.

* `Sound`  the numbers of a family differ, none is given twice, and there is one head;
* `sound_add`, `sound_move`, `sound_remove`, `sound_end`  **kept** by a new item above all numbers, a move of the
  head, and the removal of an item that is neither the head nor the highest, or of the only one.
-/

set_option linter.unusedSectionVars false

namespace Versions

open Function

variable {ι κ : Type*}

/-- the family of an item, its number and whether it is the head -/
structure Item (κ : Type*) where
  family : κ
  number : Int
  head : Bool

abbrev Items (ι κ : Type*) := ι → Option (Item κ)

/-- one head for each family, numbers that differ, and no number given twice -/
structure Sound (h : Items ι κ) (given : List (κ × Int)) : Prop where
  headed : ∀ i x, h i = some x → ∃ j y, h j = some y ∧ y.family = x.family ∧ y.head = true
  single : ∀ i j x y, h i = some x → h j = some y → x.family = y.family → x.head = true → y.head = true → i = j
  numbered : ∀ i j x y, h i = some x → h j = some y → x.family = y.family → x.number = y.number → i = j
  covered : ∀ p ∈ given, ∃ i x, h i = some x ∧ x.family = p.1 ∧ p.2 ≤ x.number
  once : given.Nodup

theorem sound_empty : Sound (fun _ => none : Items ι κ) [] where
  headed _ _ h := nomatch h
  single _ _ _ _ h := nomatch h
  numbered _ _ _ _ h := nomatch h
  covered _ h := nomatch h
  once := List.nodup_nil

def rehead (f : ι → Item κ → Bool) (h : Items ι κ) : Items ι κ :=
  fun i => (h i).map fun x => { x with head := f i x }

section
variable {h : Items ι κ} {given : List (κ × Int)} {i : ι} {k : κ} {f : ι → Item κ → Bool} {x : Item κ}

theorem rehead_some (hx : h i = some x) : rehead f h i = some { x with head := f i x } := by
  unfold rehead
  rw [hx, Option.map_some]

variable {y : Item κ}

theorem of_rehead (hy : rehead f h i = some y) : ∃ x, h i = some x ∧ y = { x with head := f i x } := by
  obtain ⟨x, hx, rfl⟩ := Option.map_eq_some_iff.mp hy
  exact ⟨x, hx, rfl⟩

theorem sound_rehead (hs : Sound h given)
    (hheaded : ∀ i x, h i = some x → ∃ j y, h j = some y ∧ y.family = x.family ∧ f j y = true)
    (hsingle : ∀ i j x y, h i = some x → h j = some y → x.family = y.family → f i x = true → f j y = true → i = j) :
    Sound (rehead f h) given where
  headed i x hx := by
    obtain ⟨x', hx', rfl⟩ := of_rehead hx
    obtain ⟨j, y, hy, hfam, hhead⟩ := hheaded i x' hx'
    exact ⟨j, _, rehead_some hy, hfam, hhead⟩
  single i j x y hx hy hfam hxh hyh := by
    obtain ⟨x', hx', rfl⟩ := of_rehead hx
    obtain ⟨y', hy', rfl⟩ := of_rehead hy
    exact hsingle i j x' y' hx' hy' hfam hxh hyh
  numbered i j x y hx hy hfam hnum := by
    obtain ⟨x', hx', rfl⟩ := of_rehead hx
    obtain ⟨y', hy', rfl⟩ := of_rehead hy
    exact hs.numbered i j x' y' hx' hy' hfam hnum
  covered p hp := by
    obtain ⟨j, y, hy, hfam, hle⟩ := hs.covered p hp
    exact ⟨j, _, rehead_some hy, hfam, hle⟩
  once := hs.once

variable [DecidableEq ι] [DecidableEq κ]

theorem sound_move (hs : Sound h given) (hx : h i = some x) (hk : x.family = k) :
    Sound (rehead (fun j y => if y.family = k then j = i else y.head) h) given := by
  refine sound_rehead hs (fun j y hy => ?_) fun j j' y y' hy hy' hfam hyh hyh' => ?_
  · by_cases hyk : y.family = k
    · refine ⟨i, x, hx, hk.trans hyk.symm, ?_⟩
      rw [if_pos hk]
      exact decide_eq_true rfl
    · obtain ⟨j', y', hy', hfam, hhead⟩ := hs.headed j y hy
      refine ⟨j', y', hy', hfam, ?_⟩
      rw [if_neg (by rw [hfam]; exact hyk)]
      exact hhead
  · by_cases hyk : y.family = k
    · rw [if_pos hyk] at hyh
      rw [if_pos (hfam.symm.trans hyk)] at hyh'
      exact (of_decide_eq_true hyh).trans (of_decide_eq_true hyh').symm
    · rw [if_neg hyk] at hyh
      rw [if_neg (by rw [← hfam]; exact hyk)] at hyh'
      exact hs.single j j' y y' hy hy' hfam hyh hyh'

theorem sound_move_none (hs : Sound h given) (hnone : ∀ j y, h j = some y → y.family ≠ k) :
    Sound (rehead (fun j y => if y.family = k then j = i else y.head) h) given := by
  refine sound_rehead hs (fun j y hy => ?_) fun j j' y y' hy hy' hfam hyh hyh' => ?_
  · obtain ⟨j', y', hy', hfam, hhead⟩ := hs.headed j y hy
    refine ⟨j', y', hy', hfam, ?_⟩
    rw [if_neg (hnone j' y' hy')]
    exact hhead
  · rw [if_neg (hnone j y hy)] at hyh
    rw [if_neg (hnone j' y' hy')] at hyh'
    exact hs.single j j' y y' hy hy' hfam hyh hyh'

/-- the items of a family lose the head, and a new one has it -/
def added (h : Items ι κ) (i : ι) (k : κ) (n : Int) : Items ι κ :=
  update (rehead (fun _ y => y.head && y.family ≠ k) h) i (some ⟨k, n, true⟩)

variable {n : Int}

theorem added_self : added h i k n i = some ⟨k, n, true⟩ := update_self ..

variable {j : ι}

theorem added_ne (hne : j ≠ i) (hy : h j = some y) :
    added h i k n j = some { y with head := y.head && y.family ≠ k } :=
  (update_of_ne hne ..).trans (rehead_some hy)

theorem of_added (hy : added h i k n j = some y) :
    j = i ∧ y = ⟨k, n, true⟩ ∨ ∃ x, h j = some x ∧ y = { x with head := x.head && x.family ≠ k } := by
  unfold added at hy
  by_cases hj : j = i
  · subst hj
    rw [update_self] at hy
    exact .inl ⟨rfl, (Option.some.inj hy).symm⟩
  · rw [update_of_ne hj] at hy
    exact .inr (of_rehead hy)

/-- **A new item** is the head of its family, with a number above the others. -/
theorem sound_add (hs : Sound h given) (hi : h i = none) (habove : ∀ j y, h j = some y → y.family = k → y.number < n) :
    Sound (added h i k n) (given ++ [(k, n)]) where
  headed j y hy := by
    by_cases hyk : y.family = k
    · exact ⟨i, _, added_self, hyk.symm, rfl⟩
    rcases of_added hy with ⟨-, rfl⟩ | ⟨x, hx, rfl⟩
    · exact absurd rfl hyk
    obtain ⟨j', z, hz, hfam, hhead⟩ := hs.headed j x hx
    have hne : j' ≠ i := by
      rintro rfl
      rw [hi] at hz
      cases hz
    refine ⟨j', _, added_ne hne hz, hfam, ?_⟩
    have hzk : z.family ≠ k := hfam ▸ hyk
    simp only [hhead, hzk, ne_eq, not_false_eq_true, decide_true, Bool.and_self]
  single j j' y y' hy hy' hfam hyh hyh' := by
    rcases of_added hy with ⟨rfl, rfl⟩ | ⟨x, hx, rfl⟩ <;> rcases of_added hy' with ⟨rfl, rfl⟩ | ⟨x', hx', rfl⟩
    · rfl
    · simp only [Bool.and_eq_true, decide_eq_true_eq] at hyh'
      exact absurd hfam.symm hyh'.2
    · simp only [Bool.and_eq_true, decide_eq_true_eq] at hyh
      exact absurd hfam hyh.2
    · simp only [Bool.and_eq_true, decide_eq_true_eq] at hyh hyh'
      exact hs.single j j' x x' hx hx' hfam hyh.1 hyh'.1
  numbered j j' y y' hy hy' hfam hnum := by
    rcases of_added hy with ⟨rfl, rfl⟩ | ⟨x, hx, rfl⟩ <;> rcases of_added hy' with ⟨rfl, rfl⟩ | ⟨x', hx', rfl⟩
    · rfl
    · exact absurd hnum.symm (habove j' x' hx' hfam.symm).ne
    · exact absurd hnum (habove j x hx hfam).ne
    · exact hs.numbered j j' x x' hx hx' hfam hnum
  covered p hp := by
    rcases List.mem_append.mp hp with hp | hp
    · obtain ⟨j, y, hy, hfam, hle⟩ := hs.covered p hp
      have hne : j ≠ i := by
        rintro rfl
        rw [hi] at hy
        cases hy
      exact ⟨j, _, added_ne hne hy, hfam, hle⟩
    · cases List.mem_singleton.mp hp
      exact ⟨i, _, added_self, rfl, le_rfl⟩
  once := by
    rw [List.nodup_append]
    refine ⟨hs.once, List.nodup_singleton _, fun p hp q hq => ?_⟩
    cases List.mem_singleton.mp hq
    rintro rfl
    -- the number is above those that were given
    obtain ⟨j, y, hy, hfam, hle⟩ := hs.covered _ hp
    exact absurd hle (not_le.mpr (habove j y hy hfam))

theorem of_removed (hy : update h i none j = some y) : j ≠ i ∧ h j = some y := by
  by_cases hj : j = i
  · subst hj
    rw [update_self] at hy
    cases hy
  · rw [update_of_ne hj] at hy
    exact ⟨hj, hy⟩

/-- **An item is removed** that is neither the head nor the highest of its family. -/
theorem sound_remove (hs : Sound h given) (hi : h i = some x) (hhead : x.head = false)
    (hhigh : ∃ j y, h j = some y ∧ y.family = x.family ∧ x.number < y.number) : Sound (update h i none) given where
  headed j y hy := by
    obtain ⟨j', z, hz, hfam, hzh⟩ := hs.headed j y (of_removed hy).2
    have hne : j' ≠ i := by
      rintro rfl
      cases hi.symm.trans hz
      rw [hhead] at hzh
      cases hzh
    exact ⟨j', z, (update_of_ne hne ..).trans hz, hfam, hzh⟩
  single j j' y y' hy hy' := hs.single j j' y y' (of_removed hy).2 (of_removed hy').2
  numbered j j' y y' hy hy' := hs.numbered j j' y y' (of_removed hy).2 (of_removed hy').2
  covered p hp := by
    obtain ⟨j, y, hy, hfam, hle⟩ := hs.covered p hp
    by_cases hj : j = i
    · subst hj
      cases hi.symm.trans hy
      obtain ⟨j', z, hz, hzfam, hlt⟩ := hhigh
      have hne : j' ≠ j := by
        rintro rfl
        cases hi.symm.trans hz
        exact lt_irrefl _ hlt
      exact ⟨j', z, (update_of_ne hne ..).trans hz, hzfam.trans hfam, hle.trans hlt.le⟩
    · exact ⟨j, y, (update_of_ne hj ..).trans hy, hfam, hle⟩
  once := hs.once

/-- **The only item of a family is removed**, and its numbers are free again. -/
theorem sound_end (hs : Sound h given) (hi : h i = some x) (honly : ∀ j y, h j = some y → y.family = x.family → j = i) :
    Sound (update h i none) (given.filter (·.1 ≠ x.family)) where
  headed j y hy := by
    obtain ⟨hj, hold⟩ := of_removed hy
    obtain ⟨j', z, hz, hfam, hzh⟩ := hs.headed j y hold
    have hne : j' ≠ i := by
      rintro rfl
      cases hi.symm.trans hz
      exact hj (honly j y hold hfam.symm)
    exact ⟨j', z, (update_of_ne hne ..).trans hz, hfam, hzh⟩
  single j j' y y' hy hy' := hs.single j j' y y' (of_removed hy).2 (of_removed hy').2
  numbered j j' y y' hy hy' := hs.numbered j j' y y' (of_removed hy).2 (of_removed hy').2
  covered p hp := by
    obtain ⟨hp, hne⟩ := List.mem_filter.mp hp
    obtain ⟨j, y, hy, hfam, hle⟩ := hs.covered p hp
    have hj : j ≠ i := by
      rintro rfl
      cases hi.symm.trans hy
      exact of_decide_eq_true hne hfam.symm
    exact ⟨j, y, (update_of_ne hj ..).trans hy, hfam, hle⟩
  once := hs.once.filter _

end

end Versions
