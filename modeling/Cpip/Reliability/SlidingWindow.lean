import Mathlib.Data.List.Basic
import Mathlib.Order.MinMax
import Mathlib.Tactic.Common

/-!
# Reliability: the sliding window limiter

`SlidingWindow.Allow` of `reliability/ratelimit`, over every sequence of calls.

* `prune`, `allow`  the loop over the timestamps, and one call;
* `prune_spec`  **what is pruned is old, and nothing old is left**, but when the last timestamp is on the edge;
* `allow_exact`  **a call is admitted when fewer than the limit count, and no window has more**.
-/

namespace Reliability

open List

/-- the timestamps, and `admitted`, the times of all admitted calls, which nothing reads -/
structure SlidingWindow where
  timestamps : List Int := []
  admitted : List Int := []

namespace SlidingWindow

def prune (cutoff : Int) (timestamps : List Int) : List Int :=
  let wIdx := (timestamps.findIdx? (cutoff < ·)).getD 0
  if timestamps.getLast?.any (· < cutoff) then []
  else if 0 < wIdx then timestamps.drop wIdx
  else timestamps

def allow (windowSize maxRequests : Int) (sw : SlidingWindow) (now : Int) : Bool × SlidingWindow :=
  let live := prune (now - windowSize) sw.timestamps
  if live.length < maxRequests then (true, ⟨live ++ [now], sw.admitted ++ [now]⟩) else (false, ⟨live, sw.admitted⟩)

def calls (windowSize maxRequests : Int) (sw : SlidingWindow) (times : List Int) : SlidingWindow :=
  times.foldl (fun sw now => (sw.allow windowSize maxRequests now).2) sw

/-- how many calls were admitted later than `x` and no later than `y` -/
def count (sw : SlidingWindow) (x y : Int) : Nat := sw.admitted.countP fun a => x < a ∧ a ≤ y

variable {ts : List Int}

theorem sorted_split (hs : ts.Pairwise (· ≤ ·)) (cutoff : Int) :
    ∃ old live, ts = old ++ live ∧ (∀ a ∈ old, a ≤ cutoff) ∧ ∀ a ∈ live, cutoff < a := by
  induction ts with
  | nil => exact ⟨[], [], rfl, by simp, by simp⟩
  | cons t ts ih =>
    rw [pairwise_cons] at hs
    by_cases ht : t ≤ cutoff
    · obtain ⟨old, live, rfl, hold, hlive⟩ := ih hs.2
      exact ⟨t :: old, live, rfl, forall_mem_cons.mpr ⟨ht, hold⟩, hlive⟩
    · refine ⟨[], t :: ts, rfl, by simp, forall_mem_cons.mpr ⟨by omega, fun a ha => ?_⟩⟩
      have := hs.1 a ha
      omega

theorem prune_spec (hs : ts.Pairwise (· ≤ ·)) (cutoff : Int) : ∃ old, ts = old ++ prune cutoff ts ∧
    (∀ a ∈ old, a ≤ cutoff) ∧ (ts.getLast? ≠ some cutoff → ∀ a ∈ prune cutoff ts, cutoff < a) := by
  obtain ⟨old, live, rfl, hold, hlive⟩ := sorted_split hs cutoff
  have hfind : old.findIdx? (cutoff < ·) = none := findIdx?_eq_none_iff.mpr fun a ha => by simp [hold a ha]
  cases live with
  | nil =>
    rw [append_nil, prune, hfind]
    dsimp only [Option.getD_none]
    split
    · exact ⟨old, (append_nil _).symm, hold, fun _ _ h => absurd h not_mem_nil⟩
    · rename_i hlast
      refine ⟨[], rfl, by simp, fun hne a ha => ?_⟩
      cases hz : old.getLast? with
      | none => exact absurd (getLast?_eq_none_iff.mp hz ▸ ha) not_mem_nil
      | some z =>
        have hle := hold z (mem_of_getLast? hz)
        have hge : ¬ z < cutoff := by simpa [hz] using hlast
        exact absurd (hz.trans (congrArg some (by omega))) hne
  | cons b live =>
    have hb := hlive b mem_cons_self
    have hlast : ¬ (old ++ b :: live).getLast?.any (· < cutoff) = true := by
      rw [getLast?_append_cons, Option.any_eq_true]
      rintro ⟨z, hz, hlt⟩
      have := hlive z (mem_of_getLast? hz)
      simp at hlt
      omega
    have hprune : prune cutoff (old ++ b :: live) = b :: live := by
      rw [prune, if_neg hlast, findIdx?_append, hfind]
      cases old <;> simp [findIdx?_cons, hb]
    rw [hprune]
    exact ⟨old, rfl, hold, fun _ => hlive⟩

/-! ## every sequence of calls -/

section
variable {w n now t : Int} {sw : SlidingWindow}

/-- the timestamps are the admitted calls but for old ones, and no window has too many -/
structure Kept (w n : Int) (sw : SlidingWindow) (now : Int) : Prop where
  sorted : sw.admitted.Pairwise (· ≤ ·)
  past : ∀ a ∈ sw.admitted, a ≤ now
  kept : ∃ old, sw.admitted = old ++ sw.timestamps ∧ ∀ a ∈ old, a ≤ now - w
  bound : ∀ x, (sw.count x (x + w) : Int) ≤ max n 0

theorem Kept.later (h : Kept w n sw now) (ht : now ≤ t) : Kept w n sw t := by
  obtain ⟨old, hadm, hold⟩ := h.kept
  refine ⟨h.sorted, fun a ha => (h.past a ha).trans ht, ⟨old, hadm, fun a ha => ?_⟩, h.bound⟩
  have := hold a ha
  omega

/-- what a call at `t` looks at -/
theorem Kept.prune (h : Kept w n sw t) : ∃ old live, prune (t - w) sw.timestamps = live ∧ sw.admitted = old ++ live ∧
    (∀ a ∈ old, a ≤ t - w) ∧ sw.count (t - w) t ≤ live.length ∧
    (sw.admitted.getLast? ≠ some (t - w) → sw.count (t - w) t = live.length) := by
  obtain ⟨old, hadm, hold⟩ := h.kept
  obtain ⟨old', hts, hold', hlive⟩ := prune_spec (pairwise_append.mp (hadm ▸ h.sorted)).2.1 (t - w)
  generalize SlidingWindow.prune (t - w) sw.timestamps = live at hts hlive ⊢
  have hall : sw.admitted = (old ++ old') ++ live := by rw [hadm, hts, append_assoc]
  have hgone : ∀ a ∈ old ++ old', a ≤ t - w := fun a ha => (mem_append.mp ha).elim (hold a) (hold' a)
  have hcount : sw.count (t - w) t = live.countP fun a => t - w < a ∧ a ≤ t := by
    rw [count, hall, countP_append, countP_eq_zero.mpr, Nat.zero_add]
    intro a ha
    have := hgone a ha
    simp
    omega
  refine ⟨old ++ old', live, rfl, hall, hgone, hcount ▸ countP_le_length, fun hne => ?_⟩
  rw [hcount, countP_eq_length]
  intro a ha
  have hpast := h.past a (hall ▸ mem_append_right _ ha)
  have hnew := hlive (fun hl => hne (by rw [hadm, getLast?_append, hl]; rfl)) a ha
  simp [hnew, hpast]

/-- **One call.** -/
theorem kept_allow (h : Kept w n sw t) : Kept w n (sw.allow w n t).2 t := by
  obtain ⟨old, live, hlive, hadm, hold, hle, -⟩ := h.prune
  unfold allow
  rw [hlive]
  dsimp only
  split
  · rename_i hfree
    refine ⟨?_, fun a ha => ?_, ⟨old, by rw [hadm, append_assoc], hold⟩, fun x => ?_⟩
    · exact pairwise_append.mpr ⟨h.sorted, pairwise_singleton _ _, fun a ha b hb => mem_singleton.mp hb ▸ h.past a ha⟩
    · rcases mem_append.mp ha with ha | ha
      · exact h.past a ha
      · exact le_of_eq (mem_singleton.mp ha)
    have hbound := h.bound x
    unfold count at hbound hle ⊢
    rw [countP_append, countP_singleton]
    split
    · rename_i hx
      -- the calls of a window that reaches up to now are among those that count
      have hmono : sw.count x (x + w) ≤ sw.count (t - w) t := by
        refine countP_mono_left fun a ha hwin => ?_
        have := h.past a ha
        simp at hx hwin ⊢
        omega
      unfold count at hmono
      omega
    · exact hbound
  · exact ⟨h.sorted, h.past, ⟨old, hadm, hold⟩, h.bound⟩

theorem kept_calls {times : List Int} (h : Kept w n sw now) (hs : (now :: (times ++ [t])).Pairwise (· ≤ ·)) :
    Kept w n (sw.calls w n times) t := by
  induction times generalizing sw now with
  | nil => exact h.later ((pairwise_cons.mp hs).1 t mem_cons_self)
  | cons a times ih =>
    obtain ⟨hnow, hs⟩ := pairwise_cons.mp hs
    exact ih (kept_allow (h.later (hnow a mem_cons_self))) hs

theorem kept_new (w n now : Int) : Kept w n {} now where
  sorted := List.Pairwise.nil
  past _ ha := absurd ha not_mem_nil
  kept := ⟨[], rfl, fun _ ha => absurd ha not_mem_nil⟩
  bound _ := le_max_right ..

end

/-- **A call is admitted exactly when fewer than `maxRequests` are in the window**, unless one is on its edge. -/
theorem allow_exact (windowSize maxRequests : Int) {times : List Int} {t : Int} (hs : (times ++ [t]).Pairwise (· ≤ ·)) :
    ((calls windowSize maxRequests {} times).admitted.getLast? ≠ some (t - windowSize) →
      (((calls windowSize maxRequests {} times).allow windowSize maxRequests t).1 = true ↔
        ((calls windowSize maxRequests {} times).count (t - windowSize) t : Int) < maxRequests)) ∧
    ∀ x, ((calls windowSize maxRequests {} times).count x (x + windowSize) : Int) ≤ max maxRequests 0 := by
  have h : Kept windowSize maxRequests (calls windowSize maxRequests {} times) t := by
    cases times with
    | nil => exact kept_new ..
    | cons a times => exact kept_calls (kept_new _ _ a) (by simp_all)
  refine ⟨fun hne => ?_, h.bound⟩
  obtain ⟨old, live, hlive, -, -, -, hcount⟩ := h.prune
  rw [hcount hne, allow, hlive]
  split <;> simp_all

theorem allow_exact_three : [0, 4, 12].Pairwise (α := Int) (· ≤ ·) ∧
    ((calls 10 2 {} [0, 4]).allow 10 2 12).1 = true := by
  have hs : ([0, 4] ++ [12]).Pairwise (α := Int) (· ≤ ·) := by decide
  exact ⟨hs, ((allow_exact 10 2 hs).1 (by decide)).mpr (by decide)⟩

/-- **A call that comes just when the last admitted one has left the window is refused.** -/
theorem edge_refused : ((calls 10 1 {} [0]).allow 10 1 10).1 = false ∧ (calls 10 1 {} [0]).count 0 10 = 0 := by decide

end SlidingWindow

end Reliability
