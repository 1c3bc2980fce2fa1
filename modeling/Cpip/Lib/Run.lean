import Mathlib.Data.List.Basic
import Mathlib.Logic.Function.Basic
import Mathlib.Tactic.Common

/-!
# Labelled transition systems: runs and guarded runs

A system is a partial step function `step : σ → ℓ → Option σ`; `none` means that the label is
not enabled.  The labels carry every choice (which call moves, what the environment answers), so
a run is a list of labels and can be evaluated.

* `run step s ls`  the state after the labels `ls`;
* `Along step C s ls`  every label of `ls` is taken in a state where the guard `C` holds;
* `along_step`  what every guarded step satisfies holds all along a run;
* `along_append`  a guarded run can be cut anywhere.
-/

namespace Lts

variable {σ ℓ : Type*}

/-- the state after the labels `ls`; `none` as soon as one of them is not enabled -/
def run (step : σ → ℓ → Option σ) : σ → List ℓ → Option σ
  | s, [] => some s
  | s, l :: ls => (step s l).bind fun s' => run step s' ls

/-- every label is taken in a state that satisfies the guard -/
def Along (step : σ → ℓ → Option σ) (C : σ → ℓ → Prop) : σ → List ℓ → Prop
  | _, [] => True
  | s, l :: ls => C s l ∧ ∀ s', step s l = some s' → Along step C s' ls

variable {step : σ → ℓ → Option σ} {C : σ → ℓ → Prop}

theorem run_nil (s : σ) : run step s [] = some s := rfl

theorem run_cons (s : σ) (l : ℓ) (ls : List ℓ) :
    run step s (l :: ls) = (step s l).bind fun s' => run step s' ls := rfl

variable {ls : List ℓ}

theorem run_cons_eq {s t : σ} {l : ℓ} (h : run step s (l :: ls) = some t) :
    ∃ s', step s l = some s' ∧ run step s' ls = some t := by
  exact Option.bind_eq_some_iff.mp h

theorem run_append (s : σ) (a b : List ℓ) : run step s (a ++ b) = (run step s a).bind fun s' => run step s' b := by
  induction a generalizing s with
  | nil => rfl
  | cons l ls ih =>
    rw [List.cons_append, run_cons, run_cons]
    cases h : step s l with
    | none => rfl
    | some s' => exact ih s'

theorem run_append_eq {s t u : σ} {a b : List ℓ} (ha : run step s a = some t)
    (hb : run step t b = some u) : run step s (a ++ b) = some u := by
  rw [run_append, ha]
  exact hb

/-- what the end of a run satisfies, and what follows from it -/
theorem exists_run_and {o : Option σ} {p q : σ → Prop} (h : ∃ s ∈ o, p s) (hq : ∀ s, o = some s → p s → q s) :
    ∃ s ∈ o, p s ∧ q s := by
  obtain ⟨s, hs, hp⟩ := h
  exact ⟨s, hs, hp, hq s hs hp⟩

theorem along_cons {s s' : σ} {l : ℓ} (hC : C s l) (hs : step s l = some s')
    (h : Along step C s' ls) : Along step C s (l :: ls) := by
  refine ⟨hC, fun t ht => ?_⟩
  cases hs.symm.trans ht
  exact h

theorem along_append (s : σ) (a b : List ℓ) : Along step C s (a ++ b) ↔
      Along step C s a ∧ ∀ t, run step s a = some t → Along step C t b := by
  induction a generalizing s with
  | nil =>
    constructor
    · intro h
      refine ⟨trivial, fun t ht => ?_⟩
      cases ht
      exact h
    · intro h
      exact h.2 s rfl
  | cons l ls ih =>
    constructor
    · rintro ⟨hl, hs⟩
      refine ⟨⟨hl, fun s' e => ((ih s').mp (hs s' e)).1⟩, fun t ht => ?_⟩
      obtain ⟨s', e, hr⟩ := run_cons_eq ht
      exact ((ih s').mp (hs s' e)).2 t hr
    · rintro ⟨⟨hl, hs⟩, ht⟩
      refine ⟨hl, fun s' e => (ih s').mpr ⟨hs s' e, fun t hr => ht t ?_⟩⟩
      rw [run_cons, e]
      exact hr

variable {D : σ → ℓ → Prop}

theorem along_mono (hCD : ∀ s l, C s l → D s l) (s : σ) (ls : List ℓ)
    (h : Along step C s ls) : Along step D s ls := by
  induction ls generalizing s with
  | nil => trivial
  | cons l ls ih => exact ⟨hCD s l h.1, fun s' e => ih s' (h.2 s' e)⟩

theorem along_and {s : σ} (h : Along step C s ls)
    (h' : Along step D s ls) : Along step (fun s l => C s l ∧ D s l) s ls := by
  induction ls generalizing s with
  | nil => trivial
  | cons l ls ih => exact ⟨⟨h.1, h'.1⟩, fun s' e => ih (h.2 s' e) (h'.2 s' e)⟩

theorem along_true (s : σ) (ls : List ℓ) : Along step (fun _ _ => True) s ls := by
  induction ls generalizing s with
  | nil => trivial
  | cons l ls ih => exact ⟨trivial, fun s' _ => ih s'⟩

theorem along_of_forall {D : ℓ → Prop} (h : ∀ l ∈ ls, D l) (s : σ) :
    Along step (fun _ l => D l) s ls := by
  induction ls generalizing s with
  | nil => trivial
  | cons l ls ih =>
    exact ⟨h l (List.mem_cons_self ..), fun s' _ => ih (fun l' hl => h l' (List.mem_cons_of_mem _ hl)) s'⟩

/-- whether a run is guarded can be evaluated when the guard can -/
instance decidableAlong [∀ s l, Decidable (C s l)] : ∀ s ls, Decidable (Along step C s ls)
  | _, [] => isTrue trivial
  | s, l :: ls =>
    match hs : step s l with
    | none => decidable_of_iff (C s l) ⟨fun h => ⟨h, fun s' e => by rw [hs] at e; cases e⟩, fun h => h.1⟩
    | some t =>
      have := decidableAlong t ls
      decidable_of_iff (C s l ∧ Along step C t ls) ⟨fun h => along_cons h.1 hs h.2, fun h => ⟨h.1, h.2 t hs⟩⟩

variable {I : σ → Prop}

/-- **An invariant kept by every guarded step holds after every guarded run.** -/
theorem run_inv (hstep : ∀ s l s', I s → C s l → step s l = some s' → I s') {s t : σ}
    (h0 : I s) (hC : Along step C s ls) (hr : run step s ls = some t) : I t := by
  induction ls generalizing s with
  | nil =>
    cases hr
    exact h0
  | cons l ls ih =>
    obtain ⟨s', e, hr'⟩ := run_cons_eq hr
    exact ih (hstep s l s' h0 hC.1 e) (hC.2 s' e) hr'

theorem along_inv (hstep : ∀ s l s', I s → C s l → step s l = some s' → I s') {s : σ}
    (h0 : I s) (hC : Along step C s ls) : Along step (fun s _ => I s) s ls := by
  induction ls generalizing s with
  | nil => trivial
  | cons l ls ih => exact ⟨h0, fun s' e => ih (hstep s l s' h0 hC.1 e) (hC.2 s' e)⟩

theorem along_step (hD : ∀ s l s', C s l → step s l = some s' → D s l) {s t : σ}
    (hC : Along step C s ls) (hr : run step s ls = some t) : Along step D s ls := by
  induction ls generalizing s with
  | nil => trivial
  | cons l ls ih =>
    obtain ⟨s', e, hr'⟩ := run_cons_eq hr
    exact along_cons (hD s l s' hC.1 e) e (ih (hC.2 s' e) hr')

theorem run_inv_all (hstep : ∀ s l s', I s → step s l = some s' → I s')
    {s t : σ} (h0 : I s) (hr : run step s ls = some t) : I t := by
  exact run_inv (fun s l s' hI _ e => hstep s l s' hI e) h0 (along_true s ls) hr

/-- what is under way stays so when something else arrives -/
theorem mem_eraseIdx_of_ne {xs : List ℓ} {n : Nat} {x y : ℓ} (hx : xs[n]? = some x) (hy : y ∈ xs) (hne : y ≠ x) :
    y ∈ xs.eraseIdx n := by
  obtain ⟨m, hm⟩ := List.mem_iff_getElem?.mp hy
  refine List.mem_eraseIdx_iff_getElem?.mpr ⟨m, ?_, hm⟩
  rintro rfl
  exact hne (Option.some.inj (hm.symm.trans hx))

end Lts
