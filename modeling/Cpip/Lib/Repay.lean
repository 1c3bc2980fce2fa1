import Cpip.Lib.Code
import Cpip.Lib.Debt

/-!
# Code that pays what it owes

Code that breaks an item with one command and makes good for it with a later one.

* `repays_run`  **when all calls have returned, every item is fine**.
-/

namespace Code

open Pool

variable {C : Type} {A : C → Type} {ρ ρ' σ E κ ι : Type}

/-- on every path the code makes a command of `P` before it returns; the commands are answered in states with `I` -/
def Must (exec : Exec C A σ E) (I : σ → Prop) (P : C → Prop) : Code C A ρ → Prop
  | ret _ => False
  | call c k => P c ∨ ∀ s e a m, I s → exec c s e = some (a, m) → (k a).Must exec I P

/-- after a command that breaks an item, the code makes one that pays for it -/
def Repays (exec : Exec C A σ E) (I : σ → Prop) (B P : C → ι → Prop) : Code C A ρ → Prop
  | ret _ => True
  | call c k => ∀ s e a m, I s → exec c s e = some (a, m) →
      (∀ x, B c x → (k a).Must exec I (P · x)) ∧ (k a).Repays exec I B P

section
variable {exec : Exec C A σ E} {I : σ → Prop}

theorem must_bind {P : C → Prop} {x : Code C A ρ'} {f : ρ' → Code C A ρ} (h : x.Must exec I P) :
    (x.bind f).Must exec I P := by
  induction x with
  | ret r => exact h.elim
  | call c k ih => exact h.imp_right fun hk s e a m hI he => ih a (hk s e a m hI he)

variable {B P : C → ι → Prop}

theorem repays_cmd {c : C} {f : A c → Code C A ρ} (h : ∀ s e a m, I s → exec c s e = some (a, m) →
    (∀ x, B c x → (f a).Must exec I (P · x)) ∧ (f a).Repays exec I B P) : ((cmd c).bind f).Repays exec I B P := h

theorem repays_bind {x : Code C A ρ'} {f : ρ' → Code C A ρ} (hx : x.Repays exec I B P)
    (hf : ∀ r, (f r).Repays exec I B P) : (x.bind f).Repays exec I B P := by
  induction x with
  | ret r => exact hf r
  | call c k ih =>
    intro s e a m hI he
    obtain ⟨hb, hk⟩ := hx s e a m hI he
    exact ⟨fun y hy => must_bind (hb y hy), ih a hk⟩

theorem repays_each {α : Type} {f : α → Code C A Unit} {xs : List α} (hf : ∀ x ∈ xs, (f x).Repays exec I B P) :
    (each f xs).Repays exec I B P := by
  induction xs with
  | nil => trivial
  | cons x xs ih =>
    exact repays_bind (hf x (List.mem_cons_self ..)) fun _ => ih fun y hy => hf y (List.mem_cons_of_mem _ hy)

theorem repays_uses {x : Code C A ρ} (h : x.Uses fun c => ∀ y, ¬ B c y) : x.Repays exec I B P := by
  induction x with
  | ret r => trivial
  | call c k ih => exact fun s e a m _ _ => ⟨fun y hy => absurd hy (h.1 y), ih a (h.2 a)⟩

end

section
variable {exec : Exec C A σ E} {I : σ → Prop} {body : κ → Code C A ρ} {B P : C → ι → Prop} {Fine : σ → ι → Prop}
  {D : Sys σ (Thread κ C A ρ) → Act κ E → Prop}

theorem repays_next (hbody : ∀ sys i w, D sys (.spawn i w) → (body w).Repays exec I B P)
    (sys : Sys σ (Thread κ C A ρ)) (l : Act κ E) (sys' : Sys σ (Thread κ C A ρ))
    (h : ∀ i t, sys.pool i = some t → t.code.Repays exec I B P) (hD : D sys l) (hI : I sys.shared)
    (hn : (prog exec body).next sys l = some sys') : ∀ i t, sys'.pool i = some t → t.code.Repays exec I B P := by
  intro j u hu
  cases l with
  | spawn i w =>
    obtain ⟨-, rfl⟩ := next_spawn hn
    rcases update_cases hu with ⟨-, rfl⟩ | ⟨-, hu⟩
    · exact hbody sys i w hD
    · exact h j u hu
  | step i e =>
    obtain ⟨t, t', m, hp, hs, rfl⟩ := next_step hn
    rcases update_cases hu with ⟨-, rfl⟩ | ⟨-, hu⟩
    · obtain ⟨c, k, a, hcode, he, rfl⟩ := prog_step hs
      have ht := h i t hp
      rw [hcode] at ht
      exact (ht _ e a m hI he).2
    · exact h j u hu

/-- **When all calls have returned, every item is fine.** -/
theorem repays_run (hbody : ∀ sys i w, D sys (.spawn i w) → (body w).Repays exec I B P)
    (hI : ∀ sys l, D sys l → I sys.shared)
    (hstep : ∀ sys i e t c a m, D sys (.step i e) → sys.pool i = some t → t.next = some c →
      exec c sys.shared e = some (a, m) → ∀ x, (P c x → Fine m x) ∧ (¬ B c x → Fine sys.shared x → Fine m x))
    {s : σ} {sys : Sys σ (Thread κ C A ρ)} {run : List (Act κ E)} (h0 : ∀ x, Fine s x)
    (hC : Lts.Along (prog exec body).next D (idle s) run) (hr : Lts.run (prog exec body).next (idle s) run = some sys)
    (hdone : ∀ i t, sys.pool i = some t → t.result.isSome = true) (x : ι) : Fine sys.shared x := by
  have hrepays : Lts.Along (prog exec body).next (fun s _ => ∀ i t, s.pool i = some t → t.code.Repays exec I B P)
      (idle s) run :=
    Lts.along_inv (fun s l s' hi hc hn => repays_next hbody s l s' hi hc (hI s l hc) hn) nofun hC
  have howed : Owed Fine (fun _ t x => t.code.Must exec I (P · x)) sys := by
    refine owed_run (fun sys i e t t' m hc hp hs x => ?_) (owed_idle h0) (Lts.along_and hC hrepays) hr
    obtain ⟨c, k, a, hcode, he, rfl⟩ := prog_step hs
    obtain ⟨hpays, hkeeps⟩ := hstep sys i e t c a m hc.1 hp (next_of_code hcode) he x
    have ht := hc.2 i t hp
    rw [hcode] at ht
    by_cases hb : B c x
    · exact .settles (.inr ((ht _ e a m (hI _ _ hc.1) he).1 x hb))
    refine .leaves (hkeeps hb) (fun ho => ?_) fun u hu => hu
    rw [hcode] at ho
    exact ho.imp hpays fun hk => hk _ e a m (hI _ _ hc.1) he
  refine howed.fine fun i t ht hmust => ?_
  have hret := hdone i t ht
  unfold Thread.result at hret
  split at hret
  · rename_i r hcode
    rw [hcode] at hmust
    exact hmust
  · cases hret

end

end Code
