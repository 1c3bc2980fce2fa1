import Mathlib.Data.List.Basic
import Mathlib.Logic.Function.Basic
import Mathlib.Tactic.Common

/-!
# Writes that land one by one

Writes to a record that were started one after another and land in an order of their own.

* `land`  one write lands;
* `settle_eraseIdx`  **a write may land before the others** as long as none of its key was started before it.
-/

namespace Drain

variable {κ β : Type*} [DecidableEq κ]

def land (f : κ → Option β) (x : κ × Option β) : κ → Option β := Function.update f x.1 x.2

/-- the writes land in the order in which they were started -/
def settle (f : κ → Option β) (xs : List (κ × Option β)) : κ → Option β := xs.foldl land f

variable {f : κ → Option β} {xs ys : List (κ × Option β)} {x y : κ × Option β} {k : κ}

theorem settle_append (f : κ → Option β) (xs ys : List (κ × Option β)) :
    settle f (xs ++ ys) = settle (settle f xs) ys := List.foldl_append

theorem land_self (f : κ → Option β) (x : κ × Option β) : land f x x.1 = x.2 := Function.update_self ..

theorem land_of_ne (f : κ → Option β) (h : k ≠ x.1) : land f x k = f k := Function.update_of_ne h ..

theorem settle_of_ne (h : ∀ x ∈ xs, k ≠ x.1) : settle f xs k = f k := by
  induction xs generalizing f with
  | nil => rfl
  | cons x xs ih =>
    show settle (land f x) xs k = f k
    rw [ih fun y hy => h y (List.mem_cons_of_mem _ hy), land_of_ne f (h x (List.mem_cons_self ..))]

theorem land_comm (h : x.1 ≠ y.1) : land (land f x) y = land (land f y) x := Function.update_comm h ..

/-- **A write may land before the others** as long as none of its key was started before it. -/
theorem settle_eraseIdx {n : Nat} (hx : xs[n]? = some x) (hfirst : ∀ m < n, ∀ y, xs[m]? = some y → y.1 ≠ x.1) :
    settle (land f x) (xs.eraseIdx n) = settle f xs := by
  induction xs generalizing f n with
  | nil => cases hx
  | cons y xs ih =>
    cases n with
    | zero =>
      cases hx
      rfl
    | succ n =>
      have hne : y.1 ≠ x.1 := hfirst 0 (Nat.succ_pos n) y rfl
      show settle (land (land f x) y) (xs.eraseIdx n) = settle (land f y) xs
      rw [land_comm hne.symm]
      exact ih hx fun m hm z hz => hfirst (m + 1) (Nat.succ_lt_succ hm) z hz

end Drain
