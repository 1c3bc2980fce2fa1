import Cpip.Lib.Code

/-!
# Names that are made once and spent once

Calls that make names with one command and spend them with another.  A name that is made is new; the code that
was given it spends it at most once, and no other code can.

* `fresh_next`, `fresh_spends`  **a name that is spent was made and not spent yet**.
-/

namespace Code

open Pool

variable {C : Type} {A : C → Type} {ρ ρ' σ E κ N : Type}

section
variable (makes : (c : C) → A c → Option N) (spends : C → Option N) (x : N)

/-- the code does not spend the name unless it is given it -/
def Avoids : Code C A ρ → Prop
  | ret _ => True
  | call c k => spends c ≠ some x ∧ ∀ a, makes c a ≠ some x → (k a).Avoids

/-- the code spends the name at most once -/
def Once : Code C A ρ → Prop
  | ret _ => True
  | call c k => ∀ a, (spends c = some x → (k a).Avoids makes spends x) ∧ (k a).Once

end

section
variable {makes : (c : C) → A c → Option N} {spends : C → Option N} {x : N}

theorem avoids_uses {y : Code C A ρ} (h : y.Uses (spends · = none)) : y.Avoids makes spends x := by
  induction y with
  | ret r => trivial
  | call c k ih =>
    refine ⟨?_, fun a _ => ih a (h.2 a)⟩
    rw [h.1]
    exact Option.some_ne_none x ∘ Eq.symm

theorem once_uses {y : Code C A ρ} (h : y.Uses (spends · = none)) : y.Once makes spends x := by
  induction y with
  | ret r => trivial
  | call c k ih => exact fun a => ⟨fun _ => avoids_uses (h.2 a), ih a (h.2 a)⟩

theorem avoids_cmd {c : C} {f : A c → Code C A ρ} (hc : spends c ≠ some x)
    (hf : ∀ a, makes c a ≠ some x → (f a).Avoids makes spends x) : ((cmd c).bind f).Avoids makes spends x :=
  ⟨hc, hf⟩

variable {f : ρ' → Code C A ρ} {y : Code C A ρ'}

theorem avoids_bind (hy : y.Avoids makes spends x)
    (hf : ∀ r, (f r).Avoids makes spends x) : (y.bind f).Avoids makes spends x := by
  induction y with
  | ret r => exact hf r
  | call c k ih => exact ⟨hy.1, fun a ha => ih a (hy.2 a ha)⟩

theorem once_bind (hy : y.Uses (spends · = none))
    (hf : ∀ r, (f r).Once makes spends x) : (y.bind f).Once makes spends x := by
  induction y with
  | ret r => exact hf r
  | call c k ih =>
    refine fun a => ⟨fun hs => ?_, ih a (hy.2 a)⟩
    rw [hy.1] at hs
    cases hs

theorem once_then (hy : y.Once makes spends x)
    (hf : ∀ r, (f r).Uses (spends · = none)) : (y.bind f).Once makes spends x := by
  induction y with
  | ret r => exact once_uses (hf r)
  | call c k ih =>
    exact fun a => ⟨fun hs => avoids_bind ((hy a).1 hs) fun r => avoids_uses (hf r), ih a (hy a).2⟩

end

section
variable {exec : Exec C A σ E} {body : κ → Code C A ρ} {makes : (c : C) → A c → Option N} {spends : C → Option N}
  {I : σ → Prop} {Open : σ → N → Prop}

/-- one call at most can spend a name, once, and only a name that is open -/
abbrev Fresh (makes : (c : C) → A c → Option N) (spends : C → Option N) (I : σ → Prop) (Open : σ → N → Prop) :
    Sys σ (Thread κ C A ρ) → Prop :=
  Inv I (fun s t => ∀ x, t.code.Once makes spends x ∧ (¬ Open s x → t.code.Avoids makes spends x))
    fun _ t u => ∀ x, t.code.Avoids makes spends x ∨ u.code.Avoids makes spends x

theorem fresh_spends {sys : Sys σ (Thread κ C A ρ)} {i : Nat} {t : Thread κ C A ρ} {c : C} {x : N}
    (h : Fresh makes spends I Open sys) (hp : sys.pool i = some t) (hc : t.next = some c) (hs : spends c = some x) :
    Open sys.shared x := by
  by_contra hno
  have havoid := (h.each i t hp x).2 hno
  obtain ⟨k, hcode⟩ := code_of_next hc
  rw [hcode] at havoid
  exact havoid.1 hs

theorem avoids_step {c : C} {k : A c → Code C A ρ} {a : A c} {x : N}
    (h : (call c k).Avoids makes spends x ∨ spends c = some x ∧ (call c k).Once makes spends x)
    (ha : makes c a ≠ some x) : (k a).Avoids makes spends x := by
  rcases h with h | ⟨hs, h⟩
  · exact h.2 a ha
  · exact (h a).1 hs

/-- **Names stay fresh in every interleaving.** -/
theorem fresh_next (hbody : ∀ w x, (body w).Once makes spends x ∧ (body w).Avoids makes spends x)
    (hI : ∀ c s e a m, I s → (∀ x, spends c = some x → Open s x) → exec c s e = some (a, m) → I m)
    (hmake : ∀ c s e a m x, I s → exec c s e = some (a, m) → makes c a = some x → ¬ Open s x ∧ Open m x)
    (hkeep : ∀ c s e a m x, exec c s e = some (a, m) → spends c ≠ some x → Open s x → Open m x)
    (sys : Sys σ (Thread κ C A ρ)) (l : Act κ E) (sys' : Sys σ (Thread κ C A ρ))
    (hi : Fresh makes spends I Open sys) (hn : (prog exec body).next sys l = some sys') :
    Fresh makes spends I Open sys' := by
  refine inv_next (C := fun _ _ => True) ⟨fun s i w hi _ => ?_, fun s i e t t' m hi _ hp hs => ?_⟩
    sys l sys' hi trivial hn
  · refine ⟨fun x => ⟨(hbody w x).1, fun _ => (hbody w x).2⟩, fun j u _ => ?_⟩
    exact ⟨fun x => .inl (hbody w x).2, fun x => .inr (hbody w x).2⟩
  obtain ⟨c, k, a, hcode, he, rfl⟩ := prog_step hs
  have hown := hi.each i t hp
  rw [hcode] at hown
  have hspend : ∀ x, spends c = some x → Open s.shared x := fun x => fresh_spends hi hp (next_of_code hcode)
  -- the others avoid a name that is made or spent now
  have hothers : ∀ j u, j ≠ i → s.pool j = some u → ∀ x, makes c a = some x ∨ spends c = some x →
      u.code.Avoids makes spends x := by
    intro j u hj hu x hx
    rcases hx with hx | hx
    · exact (hi.each j u hu x).2 (hmake c _ e a m x hi.shared he hx).1
    refine (hi.pair j i u t hj hu hp x).resolve_right fun ht => ?_
    rw [hcode] at ht
    exact ht.1 hx
  have hclosed : ∀ x, ¬ Open m x → makes c a ≠ some x ∧ (spends c ≠ some x → ¬ Open s.shared x) :=
    fun x hx => ⟨fun h => hx (hmake c _ e a m x hi.shared he h).2, fun h ho => hx (hkeep c _ e a m x he h ho)⟩
  have hself : ∀ j u, j ≠ i → s.pool j = some u → ∀ x,
      (k a).Avoids makes spends x ∨ u.code.Avoids makes spends x := by
    intro j u hj hu x
    by_cases hx : makes c a = some x ∨ spends c = some x
    · exact .inr (hothers j u hj hu x hx)
    rw [not_or] at hx
    refine (hi.pair i j t u (Ne.symm hj) hp hu x).imp_left fun ht => ?_
    rw [hcode] at ht
    exact ht.2 a hx.1
  refine ⟨hI c _ e a m hi.shared hspend he, fun x => ⟨(hown x).1 a |>.2, fun hx => ?_⟩, fun j u hj hu x => ?_, hself,
    fun j u hj hu x => (hself j u hj hu x).symm, fun j k' u w hj hk hjk hu hw => hi.pair j k' u w hjk hu hw⟩
  · obtain ⟨hnew, hold⟩ := hclosed x hx
    by_cases hs : spends c = some x
    · exact avoids_step (.inr ⟨hs, (hown x).1⟩) hnew
    · exact avoids_step (.inl ((hown x).2 (hold hs))) hnew
  · refine ⟨(hi.each j u hu x).1, fun hx => ?_⟩
    by_cases hs : spends c = some x
    · exact hothers j u hj hu x (.inr hs)
    · exact (hi.each j u hu x).2 ((hclosed x hx).2 hs)

end

end Code
