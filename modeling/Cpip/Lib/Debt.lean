import Cpip.Lib.Pool

/-!
# Debts of threads

Work that is split over several steps of a thread leaves items behind that are not yet as they
should be, and the thread still owes them.

* `Owed Fine Owes`  every item is fine, or some thread owes it;
* `owed_run`  **when every step pays, every item is fine or owed after every guarded run**;
* `Owed.fine`  an item that nobody owes is fine.
-/

namespace Pool

open Function

variable {κ σ τ α ι : Type*}

/-- every item is fine, or some thread owes it -/
def Owed (Fine : σ → ι → Prop) (Owes : σ → τ → ι → Prop) (s : Sys σ τ) : Prop :=
  ∀ x, Fine s.shared x ∨ ∃ i t, s.pool i = some t ∧ Owes s.shared t x

/-- another thread than `i` owes the item -/
def Backed (Owes : σ → τ → ι → Prop) (s : Sys σ τ) (i : Nat) (x : ι) : Prop :=
  ∃ j t, j ≠ i ∧ s.pool j = some t ∧ Owes s.shared t x

/-- what a step of thread `i` from `t` to `t'` and to the shared state `m` does for an item -/
inductive Pays (Fine : σ → ι → Prop) (Owes : σ → τ → ι → Prop) (s : Sys σ τ) (i : Nat) (t t' : τ)
    (m : σ) (x : ι) : Prop
  | settles (h : Fine m x ∨ Owes m t' x)
  | leaves (hfine : Fine s.shared x → Fine m x) (hself : Owes s.shared t x → Fine m x ∨ Owes m t' x)
      (hother : ∀ u, Owes s.shared u x → Owes m u x)
  | backed (h : Backed Owes s i x) (hother : ∀ u, Owes s.shared u x → Owes m u x)

variable {P : Prog κ σ τ α} {Fine : σ → ι → Prop} {Owes : σ → τ → ι → Prop}

theorem owed_idle {s : σ} (h : ∀ x, Fine s x) : Owed Fine Owes (idle s : Sys σ τ) :=
  fun x => .inl (h x)

theorem Owed.fine {s : Sys σ τ} (h : Owed Fine Owes s) {x : ι}
    (hno : ∀ i t, s.pool i = some t → ¬ Owes s.shared t x) : Fine s.shared x := by
  rcases h x with hf | ⟨i, t, ht, ho⟩
  · exact hf
  · exact absurd ho (hno i t ht)

theorem owed_step {s : Sys σ τ} {i : Nat} {t t' : τ} {m : σ} (hp : s.pool i = some t)
    (hpay : ∀ x, Pays Fine Owes s i t t' m x) (h : Owed Fine Owes s) :
    Owed Fine Owes ⟨m, update s.pool i (some t')⟩ := by
  intro x
  have hself : Owes m t' x → ∃ j u, (update s.pool i (some t')) j = some u ∧ Owes m u x :=
    fun ho => ⟨i, t', update_self .., ho⟩
  have hother : ∀ j u, j ≠ i → s.pool j = some u → Owes m u x →
      ∃ j u, (update s.pool i (some t')) j = some u ∧ Owes m u x := by
    intro j u hj hu ho
    refine ⟨j, u, ?_, ho⟩
    rw [update_of_ne hj]
    exact hu
  cases hpay x with
  | settles hx => exact hx.imp_right hself
  | leaves hf ht hu =>
    rcases h x with hx | ⟨j, u, hj, ho⟩
    · exact .inl (hf hx)
    by_cases hji : j = i
    · subst hji
      cases hp.symm.trans hj
      exact (ht ho).imp_right hself
    · exact .inr (hother j u hji hj (hu u ho))
  | backed hb hu =>
    obtain ⟨j, u, hji, hj, ho⟩ := hb
    exact .inr (hother j u hji hj (hu u ho))

/-- **When every guarded step pays, every item is fine or owed after every guarded run.** -/
theorem owed_run {C : Sys σ τ → Act κ α → Prop} (hstep : ∀ s i a t t' m, C s (.step i a) → s.pool i = some t →
      P.step t s.shared a = some (t', m) → ∀ x, Pays Fine Owes s i t t' m x)
    {s s' : Sys σ τ} {as : List (Act κ α)} (h0 : Owed Fine Owes s) (hC : Lts.Along P.next C s as)
    (hr : Lts.run P.next s as = some s') : Owed Fine Owes s' := by
  refine Lts.run_inv (fun s l s' hi hc hn => ?_) h0 hC hr
  cases l with
  | spawn i c =>
    obtain ⟨hnone, rfl⟩ := next_spawn hn
    intro x
    rcases hi x with hf | ⟨j, t, hj, ho⟩
    · exact .inl hf
    refine .inr ⟨j, t, ?_, ho⟩
    have hji : j ≠ i := by
      rintro rfl
      cases hnone.symm.trans hj
    show update s.pool i _ j = some t
    rw [update_of_ne hji]
    exact hj
  | step i a =>
    obtain ⟨t, t', m, hp, hs, rfl⟩ := next_step hn
    exact owed_step hp (hstep s i a t t' m hc hp hs) hi

end Pool
