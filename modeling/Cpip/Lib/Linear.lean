import Mathlib.Data.List.Nodup
import Mathlib.Logic.Function.Iterate
import Cpip.Lib.Pool

/-!
# Calls that take effect at one step

Calls over a shared document of which each takes effect, if at all, at one of its steps.

* `Linear`  **the document comes from the first one by the effects of exactly the calls that took effect**.
-/

namespace Pool

open Function List

variable {κ σ τ α δ : Type*}

inductive Applied (eff : Nat → δ → δ → Prop) (d₀ : δ) : List Nat → δ → Prop
  | nil : Applied eff d₀ [] d₀
  | snoc {order : List Nat} {i : Nat} {d d' : δ} (h : Applied eff d₀ order d) (he : eff i d d') :
      Applied eff d₀ (order ++ [i]) d'

variable {d : δ} {order : List Nat}

theorem Applied.mono {eff eff' : Nat → δ → δ → Prop} {d₀ : δ} (h : Applied eff d₀ order d)
    (he : ∀ i ∈ order, ∀ a b, eff i a b → eff' i a b) : Applied eff' d₀ order d := by
  induction h with
  | nil => exact .nil
  | snoc h hi ih =>
    refine .snoc (ih fun i hmem => he i (mem_append_left _ hmem)) (he _ ?_ _ _ hi)
    exact mem_append_right _ (mem_singleton_self _)

theorem Applied.count {eff : Nat → δ → δ → Prop} {d₀ : δ} {β : Type*} {f : δ → β} {g : β → β}
    (hf : ∀ i ∈ order, ∀ a b, eff i a b → f b = g (f a)) (h : Applied eff d₀ order d) :
    f d = g^[order.length] (f d₀) := by
  induction h with
  | nil => rfl
  | snoc h he ih =>
    rw [length_append, length_singleton, iterate_succ_apply', ← ih fun i hi =>
      hf i (mem_append_left _ hi)]
    exact hf _ (mem_append_right _ (mem_singleton_self _)) _ _ he

section
variable (doc : σ → Option δ) (won : τ → Prop) (eff : τ → δ → δ → Prop)

/-- what a step from `t` to `t'` and from `s` to `m` does to the document -/
inductive Takes (t t' : τ) (s m : σ) : Prop
  | quiet (hdoc : ∀ d, doc m = some d → doc s = some d) (hwon : won t' ↔ won t)
  | effect {d d' : δ} (hnot : ¬ won t) (hwon : won t') (hs : doc s = some d) (hm : doc m = some d') (he : eff t d d')

/-- the document comes from `d₀` by the effects of the calls that took effect -/
def Linear (d₀ : δ) (s : Sys σ τ) : Prop :=
  ∀ d, doc s.shared = some d → ∃ order : List Nat, order.Nodup ∧ (∀ i, i ∈ order ↔ ∃ t, s.pool i = some t ∧ won t) ∧
    Applied (fun i a b => ∃ t, s.pool i = some t ∧ eff t a b) d₀ order d

end

variable {P : Prog κ σ τ α} {doc : σ → Option δ} {won : τ → Prop} {eff : τ → δ → δ → Prop} {d₀ : δ}
variable {s : Sys σ τ} {i : Nat} {t' : τ}

theorem Applied.update (h : Applied (fun j a b => ∃ t, s.pool j = some t ∧ eff t a b) d₀ order d)
    (hsame : ∀ t, s.pool i = some t → ∀ a b, eff t a b → eff t' a b) :
    Applied (fun j a b => ∃ t, update s.pool i (some t') j = some t ∧ eff t a b) d₀ order d := by
  refine h.mono fun j _ a b ⟨t, ht, he⟩ => ?_
  by_cases hj : j = i
  · subst hj
    exact ⟨t', update_self .., hsame t ht a b he⟩
  · exact ⟨t, by rwa [update_of_ne hj], he⟩

theorem won_update (j : Nat) : (∃ t, update s.pool i (some t') j = some t ∧ won t) ↔
      (j = i ∧ won t') ∨ (j ≠ i ∧ ∃ t, s.pool j = some t ∧ won t) := by
  by_cases hj : j = i
  · subst hj
    simp
  · simp [hj]

theorem linear_spawn {t : τ} (hi : Linear doc won eff d₀ s) (hnone : s.pool i = none) (hnot : ¬ won t) :
    Linear doc won eff d₀ ⟨s.shared, update s.pool i (some t)⟩ := by
  intro d hd
  obtain ⟨order, hnodup, hmem, happ⟩ := hi d hd
  refine ⟨order, hnodup, fun j => ?_, happ.update fun u hu => ?_⟩
  · rw [won_update, hmem]
    constructor
    · rintro ⟨u, hu, hw⟩
      refine .inr ⟨?_, u, hu, hw⟩
      rintro rfl
      cases hnone.symm.trans hu
    · rintro (⟨-, hw⟩ | ⟨-, h⟩)
      · exact absurd hw hnot
      · exact h
  · cases hnone.symm.trans hu

theorem linear_step {t : τ} {m : σ} (hi : Linear doc won eff d₀ s) (hp : s.pool i = some t)
    (htakes : Takes doc won eff t t' s.shared m) (hsame : ∀ x y, eff t x y → eff t' x y) :
    Linear doc won eff d₀ ⟨m, update s.pool i (some t')⟩ := by
  have heff : ∀ u, s.pool i = some u → ∀ x y, eff u x y → eff t' x y := by
    intro u hu
    cases hp.symm.trans hu
    exact hsame
  intro d hd
  cases htakes with
  | quiet hdoc hwon =>
    obtain ⟨order, hnodup, hmem, happ⟩ := hi d (hdoc d hd)
    refine ⟨order, hnodup, fun j => ?_, happ.update heff⟩
    rw [won_update, hmem, hwon]
    by_cases hj : j = i
    · subst hj
      simp [hp]
    · simp [hj]
  | effect hnot hwon hds hdm he =>
    cases hdm.symm.trans hd
    obtain ⟨order, hnodup, hmem, happ⟩ := hi _ hds
    have hfresh : i ∉ order := by
      intro h
      obtain ⟨u, hu, hw⟩ := (hmem i).mp h
      cases hp.symm.trans hu
      exact hnot hw
    refine ⟨order ++ [i], concat_eq_append ▸ List.Nodup.concat hfresh hnodup, fun j => ?_,
      .snoc (happ.update heff) ⟨t', update_self .., hsame _ _ he⟩⟩
    rw [mem_append, mem_singleton, won_update, hmem]
    by_cases hj : j = i
    · subst hj
      simp [hwon]
    · simp [hj]

/-- **Calls that take effect at one step have their effects in some order**, each once. -/
theorem linear_run {L : τ → Prop} (hstart : ∀ c, L (P.start c) ∧ ¬ won (P.start c))
    (hstep : ∀ t s a t' m, L t → P.step t s a = some (t', m) →
      L t' ∧ Takes doc won eff t t' s m ∧ ∀ x y, eff t x y → eff t' x y)
    {s : σ} {s' : Sys σ τ} {as : List (Act κ α)} (h0 : doc s = some d₀)
    (hr : Lts.run P.next (idle s) as = some s') : Linear doc won eff d₀ s' := by
  have hinv : (∀ i t, s'.pool i = some t → L t) ∧ Linear doc won eff d₀ s' := by
    refine Lts.run_inv_all (I := fun s : Sys σ τ => (∀ i t, s.pool i = some t → L t) ∧ Linear doc won eff d₀ s)
      (fun s l s' hi hn => ?_) ⟨fun i t ht => (by cases ht), fun d hd => ?_⟩ hr
    · cases l with
      | spawn i c =>
        obtain ⟨hnone, rfl⟩ := next_spawn hn
        refine ⟨fun j t ht => ?_, linear_spawn hi.2 hnone (hstart c).2⟩
        rcases update_cases ht with ⟨-, rfl⟩ | ⟨-, ht⟩
        · exact (hstart c).1
        · exact hi.1 j t ht
      | step i a =>
        obtain ⟨t, t', m, hp, hs, rfl⟩ := next_step hn
        obtain ⟨hL, htakes, hsame⟩ := hstep t s.shared a t' m (hi.1 i t hp) hs
        refine ⟨fun j u hu => ?_, linear_step hi.2 hp htakes hsame⟩
        rcases update_cases hu with ⟨-, rfl⟩ | ⟨-, hu⟩
        · exact hL
        · exact hi.1 j u hu
    · cases h0.symm.trans hd
      exact ⟨[], nodup_nil, fun i => by simp [idle], .nil⟩
  exact hinv.2

end Pool
