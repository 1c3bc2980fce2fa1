import Cpip.Lib.Code

/-!
# Proof outlines

An assertion for every point that the code of a call can reach: each command of the call takes it to the next point,
and no command of another call makes it false.

* `OutlineSys`, `outline_next`  **calls with outlines that do not interfere keep their assertions**.
-/

namespace Code

open Pool

variable {C : Type} {A : C → Type} {ρ ρ' σ E κ : Type}

/-! ## where the code goes -/

/-- with the answers `ans`, the code comes to a command of `goal` -/
def leads (ans : (c : C) → Option (A c)) (goal : C → Bool) : Code C A ρ → Bool
  | ret _ => false
  | call c k => goal c ||
    match ans c with
    | none => false
    | some a => (k a).leads ans goal

variable {x : Code C A ρ}

section
variable {ans : (c : C) → Option (A c)} {goal : C → Bool}

theorem leads_call {c : C} {k : A c → Code C A ρ} (h : goal c = true) : (call c k).leads ans goal = true := by
  unfold leads
  rw [h, Bool.true_or]

theorem leads_next {c : C} {k : A c → Code C A ρ} {a : A c} (ha : ans c = some a) (h : (k a).leads ans goal = true) :
    (call c k).leads ans goal = true := by
  unfold leads
  rw [ha, Bool.or_eq_true]
  exact .inr h

theorem leads_uses (h : x.Uses fun c => goal c = false) : x.leads ans goal = false := by
  induction x with
  | ret r => rfl
  | call c k ih =>
    unfold leads
    rw [h.1, Bool.false_or]
    split
    · rfl
    · exact ih _ (h.2 _)

theorem leads_bind {f : ρ → Code C A ρ'} (h : (x.bind f).leads ans goal = true) :
    x.leads ans goal = true ∨ ∃ r, (f r).leads ans goal = true := by
  induction x with
  | ret r => exact .inr ⟨r, h⟩
  | call c k ih =>
    unfold leads at h
    rcases (Bool.or_eq_true _ _).mp h with hc | hk
    · exact .inl (leads_call hc)
    split at hk
    · cases hk
    next a ha =>
    rcases ih a hk with hx | hf
    · exact .inl (leads_next ha hx)
    · exact .inr hf

theorem leads_bind_uses {f : ρ → Code C A ρ'} (h : x.Uses fun c => goal c = false)
    (hf : ∀ r, (f r).leads ans goal = false) : (x.bind f).leads ans goal = false := by
  by_contra hno
  rcases leads_bind ((Bool.not_eq_false _).mp hno) with hx | ⟨r, hr⟩
  · exact absurd (hx.symm.trans (leads_uses h)) Bool.noConfusion
  · exact absurd (hr.symm.trans (hf r)) Bool.noConfusion

end

/-! ## what holds at every point -/

/-- what holds at every point that the code can reach, when its commands are made in states that `ok` allows -/
def Every (exec : Exec C A σ E) (ok : σ → C → Prop) (P : Code C A ρ → Prop) : Code C A ρ → Prop
  | ret r => P (ret r)
  | call c k => P (call c k) ∧ ∀ s e a s', ok s c → exec c s e = some (a, s') → (k a).Every exec ok P

/-- the next command takes the assertion to the point after it -/
def Carries (exec : Exec C A σ E) (ok : σ → C → Prop) (I : Code C A ρ → σ → Prop) : Code C A ρ → Prop
  | ret _ => True
  | call c k => ∀ s e a s', ok s c → I (call c k) s → exec c s e = some (a, s') → I (k a) s'

/-- each command takes the assertion to the next point -/
def Outlined (exec : Exec C A σ E) (ok : σ → C → Prop) (I : Code C A ρ → σ → Prop) : Code C A ρ → Prop :=
  Every exec ok (Carries exec ok I)

section
variable {exec : Exec C A σ E} {ok : σ → C → Prop} {P : Code C A ρ → Prop} {I : Code C A ρ → σ → Prop}

theorem every_all (h : ∀ y, P y) : x.Every exec ok P := by
  induction x with
  | ret r => exact h _
  | call c k ih => exact ⟨h _, fun _ _ a _ _ _ => ih a⟩

/-- code that makes commands of one kind only, at all of whose points `P` holds -/
theorem every_uses {Q : C → Prop} (hP : ∀ y : Code C A ρ, y.Uses Q → P y) (h : x.Uses Q) :
    x.Every exec ok P := by
  induction x with
  | ret r => exact hP _ trivial
  | call c k ih => exact ⟨hP _ h, fun _ _ a _ _ _ => ih a (h.2 a)⟩

theorem outlined_call {c : C} {k : A c → Code C A ρ} (h : ∀ s e a s', ok s c → exec c s e = some (a, s') →
      (I (call c k) s → I (k a) s') ∧ (k a).Outlined exec ok I) : (call c k).Outlined exec ok I :=
  ⟨fun s e a s' hok hI he => (h s e a s' hok he).1 hI, fun s e a s' hok he => (h s e a s' hok he).2⟩

theorem outlined_uses {Q : C → Prop} (hI : ∀ y : Code C A ρ, y.Uses Q → ∀ s, I y s) (h : x.Uses Q) :
    x.Outlined exec ok I := by
  refine every_uses (fun y hy => ?_) h
  cases y with
  | ret r => trivial
  | call c k => exact fun s e a s' _ _ _ => hI (k a) (hy.2 a) s'

theorem outlined_bind {Q : C → Prop} {x : Code C A ρ'} {f : ρ' → Code C A ρ}
    (hI : ∀ y : Code C A ρ', y.Uses Q → ∀ s, I (y.bind f) s) (h : x.Uses Q) (hf : ∀ r, (f r).Outlined exec ok I) :
    (x.bind f).Outlined exec ok I := by
  induction x with
  | ret r => exact hf r
  | call c k ih => exact outlined_call fun s e a s' _ _ => ⟨fun _ => hI (k a) (h.2 a) s', ih a (h.2 a)⟩

end

/-! ## interleaved -/

section
variable {exec : Exec C A σ E} {body : κ → Code C A ρ} {K : σ → Prop} {ok : σ → C → Prop}
  {I : κ → Code C A ρ → σ → Prop} {R : Code C A ρ → Code C A ρ → Prop}
  {D : Sys σ (Thread κ C A ρ) → Act κ E → Prop}

/-- every call is at a point of its outline, the assertion of that point holds, and any two points fit together -/
abbrev OutlineSys (exec : Exec C A σ E) (K : σ → Prop) (ok : σ → C → Prop) (I : κ → Code C A ρ → σ → Prop)
    (R : Code C A ρ → Code C A ρ → Prop) : Sys σ (Thread κ C A ρ) → Prop :=
  Inv K (fun s t => t.code.Outlined exec ok (I t.what) ∧ I t.what t.code s) fun _ t u => R t.code u.code

/-- a step of one call, as the other calls see it: what is known of the call before and of the state -/
structure Stepped (exec : Exec C A σ E) (K : σ → Prop) (I : κ → Code C A ρ → σ → Prop)
    (D : Sys σ (Thread κ C A ρ) → Act κ E → Prop) (sys : Sys σ (Thread κ C A ρ)) (i : Nat)
    (t : Thread κ C A ρ) (c : C) (k : A c → Code C A ρ) (a : A c) (m : σ) : Prop where
  guard : ∃ e, D sys (.step i e) ∧ exec c sys.shared e = some (a, m)
  pool : sys.pool i = some t
  code : t.code = call c k
  shared : K sys.shared
  self : I t.what t.code sys.shared

/-- **Calls with outlines that do not interfere keep their assertions.** -/
theorem outline_next (hok : ∀ sys i t c k a m, Stepped exec K I D sys i t c k a m → ok sys.shared c)
    (hK : ∀ sys i t c k a m, Stepped exec K I D sys i t c k a m → K m)
    (hbody : ∀ w s, K s → (body w).Outlined exec ok (I w) ∧ I w (body w) s)
    (hfree : ∀ sys i t c k a m, Stepped exec K I D sys i t c k a m → ∀ j u, j ≠ i → sys.pool j = some u →
      R t.code u.code → I u.what u.code sys.shared → I u.what u.code m)
    (hstart : ∀ w x, R (body w) x ∧ R x (body w))
    (hpair : ∀ sys i t c k a m, Stepped exec K I D sys i t c k a m → ∀ j u, j ≠ i → sys.pool j = some u →
      I u.what u.code sys.shared → R t.code u.code → R u.code t.code → R (k a) u.code ∧ R u.code (k a))
    (sys : Sys σ (Thread κ C A ρ)) (l : Act κ E) (sys' : Sys σ (Thread κ C A ρ))
    (hi : OutlineSys exec K ok I R sys) (hc : D sys l) (hn : (prog exec body).next sys l = some sys') :
    OutlineSys exec K ok I R sys' := by
  refine inv_next (C := D) ⟨fun s i w hi _ => ?_, fun s i e t t' m hi hc hp hs => ?_⟩ sys l sys' hi hc hn
  · exact ⟨hbody w s.shared hi.shared, fun j u _ => hstart w u.code⟩
  obtain ⟨c, k, a, hcode, he, rfl⟩ := prog_step hs
  obtain ⟨hout, hI⟩ := hi.each i t hp
  have hstep : Stepped exec K I D s i t c k a m := ⟨⟨e, hc, he⟩, hp, hcode, hi.shared, hI⟩
  have hallowed : ok s.shared c := hok s i t c k a m hstep
  rw [hcode] at hout hI
  have hnext : I t.what (k a) m := hout.1 s.shared e a m hallowed hI he
  have hfit := fun j u hj hu => hpair s i t c k a m hstep j u hj hu (hi.each j u hu).2
    (hi.pair i j t u (Ne.symm hj) hp hu) (hi.pair j i u t hj hu hp)
  refine ⟨hK s i t c k a m hstep, ⟨hout.2 s.shared e a m hallowed he, hnext⟩, fun j u hj hu => ?_,
    fun j u hj hu => (hfit j u hj hu).1, fun j u hj hu => (hfit j u hj hu).2,
    fun j l u w hj hl hjl hu hw => hi.pair j l u w hjl hu hw⟩
  obtain ⟨hout', hI'⟩ := hi.each j u hu
  exact ⟨hout', hfree s i t c k a m hstep j u hj hu (hi.pair i j t u (Ne.symm hj) hp hu) hI'⟩

end

end Code
