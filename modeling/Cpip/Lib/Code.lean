import Cpip.Lib.Pool

/-!
# Code over atomic commands

A function whose body makes commands one after another, each of which is one access to a state that
other calls may change in between.  The same text is run alone and interleaved with other calls.

* `wp`, `wp_run`  **what the code does alone**, by rules for sequences and loops;
* `Uses`, `exists_run`  which commands the code makes, and that it returns when they can be made;
* `Safe`, `safe_next`  **rely and guarantee**: what the calls keep while the others act as they rely on;
* `Solo`, `solo_next`  runs in which one call is made at a time.
-/

/-- code that makes commands `c : C` with answers in `A c` and returns a result -/
inductive Code (C : Type) (A : C → Type) (ρ : Type) where
  | ret (r : ρ)
  | call (c : C) (k : A c → Code C A ρ)

namespace Code

open Pool

variable {C : Type} {A : C → Type} {ρ ρ' σ E κ : Type}

def bind : Code C A ρ → (ρ → Code C A ρ') → Code C A ρ'
  | ret r, f => f r
  | call c k, f => call c fun a => (k a).bind f

instance : Monad (Code C A) where
  pure := ret
  bind := bind

theorem bind_assoc {ρ'' : Type} (x : Code C A ρ) (f : ρ → Code C A ρ') (g : ρ' → Code C A ρ'') :
    (x.bind f).bind g = x.bind fun r => (f r).bind g := by
  induction x with
  | ret r => rfl
  | call c k ih => exact congrArg (call c) (funext ih)

def cmd (c : C) : Code C A (A c) := call c ret

def each {α : Type} (f : α → Code C A Unit) : List α → Code C A Unit
  | [] => ret ()
  | x :: xs => (f x).bind fun _ => each f xs

/-- what a command does to a state; the environment chooses `e`, and `none` means that it cannot -/
abbrev Exec (C : Type) (A : C → Type) (σ E : Type) := (c : C) → σ → E → Option (A c × σ)

/-! ## alone -/

def run (exec : Exec C A σ E) : Code C A ρ → σ → List E → Option (ρ × σ)
  | ret r, s, [] => some (r, s)
  | ret _, _, _ :: _ => none
  | call _ _, _, [] => none
  | call c k, s, e :: es => (exec c s e).bind fun x => (k x.1).run exec x.2 es

/-- whatever the environment chooses, the code that runs alone returns with `Q` -/
def wp (exec : Exec C A σ E) (Q : ρ → σ → Prop) : Code C A ρ → σ → Prop
  | ret r, s => Q r s
  | call c k, s => ∀ e a s', exec c s e = some (a, s') → (k a).wp exec Q s'

variable {x : Code C A ρ} {f : ρ' → Code C A ρ} {I : σ → Prop} {Q' : ρ → σ → Prop}

section
variable {exec : Exec C A σ E} {Q : ρ → σ → Prop} {s s' : σ}

theorem wp_run {es : List E} {r : ρ} (h : x.wp exec Q s)
    (hr : x.run exec s es = some (r, s')) : Q r s' := by
  induction x generalizing s es with
  | ret r' =>
    cases es with
    | nil =>
      cases hr
      exact h
    | cons e es => cases hr
  | call c k ih =>
    cases es with
    | nil => cases hr
    | cons e es =>
      obtain ⟨⟨a, t⟩, he, hk⟩ := Option.bind_eq_some_iff.mp hr
      exact ih a (h e a t he) hk

theorem wp_mono (hQ : ∀ r t, Q r t → Q' r t) (h : x.wp exec Q s) :
    x.wp exec Q' s := by
  induction x generalizing s with
  | ret r => exact hQ r s h
  | call c k ih => exact fun e a t he => ih a (h e a t he)

theorem wp_bind {x : Code C A ρ'} :
    (x.bind f).wp exec Q s ↔ x.wp exec (fun r t => (f r).wp exec Q t) s := by
  induction x generalizing s with
  | ret r => exact Iff.rfl
  | call c k ih => exact forall_congr' fun e => forall_congr' fun a => forall_congr' fun t =>
      forall_congr' fun _ => ih a

theorem wp_each {α : Type} {f : α → Code C A Unit} {xs : List α}
    (hf : ∀ x ∈ xs, ∀ t, I t → (f x).wp exec (fun _ => I) t) (h : I s) : (each f xs).wp exec (fun _ => I) s := by
  induction xs generalizing s with
  | nil => exact h
  | cons x xs ih =>
    refine wp_bind.mpr (wp_mono (fun _ t ht => ?_) (hf x (List.mem_cons_self ..) s h))
    exact ih (fun y hy => hf y (List.mem_cons_of_mem _ hy)) ht

theorem wp_and (h : x.wp exec Q s) (h' : x.wp exec Q' s) :
    x.wp exec (fun r t => Q r t ∧ Q' r t) s := by
  induction x generalizing s with
  | ret r => exact ⟨h, h'⟩
  | call c k ih => exact fun e a t he => ih a (h e a t he) (h' e a t he)

end

/-- every command of the code is one of `P` -/
def Uses (P : C → Prop) : Code C A ρ → Prop
  | ret _ => True
  | call c k => P c ∧ ∀ a, (k a).Uses P

section
variable {exec : Exec C A σ E} {P : C → Prop} {s : σ}

theorem uses_bind {x : Code C A ρ'} (hx : x.Uses P) (hf : ∀ r, (f r).Uses P) :
    (x.bind f).Uses P := by
  induction x with
  | ret r => exact hf r
  | call c k ih => exact ⟨hx.1, fun a => ih a (hx.2 a)⟩

theorem uses_mono {P' : C → Prop} (hP : ∀ c, P c → P' c) (h : x.Uses P) : x.Uses P' := by
  induction x with
  | ret r => trivial
  | call c k ih => exact ⟨hP c h.1, fun a => ih a (h.2 a)⟩

theorem uses_cmd {c : C} {f : A c → Code C A ρ} (hc : P c) (hf : ∀ a, (f a).Uses P) : ((cmd c).bind f).Uses P :=
  ⟨hc, hf⟩

theorem uses_each {α : Type} {f : α → Code C A Unit} {xs : List α} (hf : ∀ x ∈ xs, (f x).Uses P) :
    (each f xs).Uses P := by
  induction xs with
  | nil => trivial
  | cons x xs ih =>
    exact uses_bind (hf x (List.mem_cons_self ..)) fun _ => ih fun y hy => hf y (List.mem_cons_of_mem _ hy)

theorem uses_all (x : Code C A ρ) : x.Uses fun _ => True := by
  induction x with
  | ret r => trivial
  | call c k ih => exact ⟨trivial, ih⟩

theorem wp_uses (h : x.Uses P)
    (hP : ∀ c, P c → ∀ s e a m, I s → exec c s e = some (a, m) → I m) (hI : I s) : x.wp exec (fun _ => I) s := by
  induction x generalizing s with
  | ret r => exact hI
  | call c k ih => exact fun e a t he => ih a (h.2 a) (hP c h.1 s e a t hI he)

theorem exists_run (h : x.Uses P) (hP : ∀ c, P c → ∀ s, ∃ e a m, exec c s e = some (a, m))
    (s : σ) : ∃ es r m, x.run exec s es = some (r, m) := by
  induction x generalizing s with
  | ret r => exact ⟨[], r, s, rfl⟩
  | call c k ih =>
    obtain ⟨e, a, t, he⟩ := hP c h.1 s
    obtain ⟨es, r, m, hr⟩ := ih a (h.2 a) t
    refine ⟨e :: es, r, m, ?_⟩
    unfold run
    rw [he]
    exact hr

end

/-! ## interleaved -/

structure Thread (κ : Type) (C : Type) (A : C → Type) (ρ : Type) where
  what : κ
  code : Code C A ρ

def Thread.result (t : Thread κ C A ρ) : Option ρ :=
  match t.code with
  | ret r => some r
  | call _ _ => none

def Thread.next (t : Thread κ C A ρ) : Option C :=
  match t.code with
  | ret _ => none
  | call c _ => some c

variable {t : Thread κ C A ρ}

theorem next_of_code {c : C} {k : A c → Code C A ρ} (h : t.code = call c k) :
    t.next = some c := by
  unfold Thread.next
  rw [h]

theorem code_of_next {c : C} (h : t.next = some c) : ∃ k, t.code = call c k := by
  obtain ⟨w, code⟩ := t
  cases code with
  | ret r => cases h
  | call c' k =>
    cases h
    exact ⟨k, rfl⟩

theorem ret_of_next (h : t.next = none) : ∃ r, t.code = ret r := by
  obtain ⟨w, code⟩ := t
  cases code with
  | ret r => exact ⟨r, rfl⟩
  | call c k => cases h

def prog (exec : Exec C A σ E) (body : κ → Code C A ρ) : Prog κ σ (Thread κ C A ρ) E where
  start c := ⟨c, body c⟩
  step t s e :=
    match t.code with
    | ret _ => none
    | call c k => (exec c s e).map fun x => (⟨t.what, k x.1⟩, x.2)

theorem prog_step {exec : Exec C A σ E} {body : κ → Code C A ρ} {t t' : Thread κ C A ρ} {s m : σ} {e : E}
    (h : (prog exec body).step t s e = some (t', m)) :
    ∃ c k a, t.code = call c k ∧ exec c s e = some (a, m) ∧ t' = ⟨t.what, k a⟩ := by
  obtain ⟨w, code⟩ := t
  cases code with
  | ret r => cases h
  | call c k =>
    obtain ⟨⟨a, m'⟩, he, hx⟩ := Option.map_eq_some_iff.mp h
    cases hx
    exact ⟨c, k, a, rfl, he, rfl⟩

/-- the command that an action makes satisfies `P`, for the call that makes it and the state it is made in -/
def Guard (P : κ → σ → C → Prop) (sys : Sys σ (Thread κ C A ρ)) : Act κ E → Prop
  | .spawn _ _ => True
  | .step i _ => ∀ t c, sys.pool i = some t → t.next = some c → P t.what sys.shared c

variable {sys : Sys σ (Thread κ C A ρ)}

theorem guard_and {P P' : κ → σ → C → Prop} {l : Act κ E}
    (h : Guard P sys l) (h' : Guard P' sys l) : Guard (fun w s c => P w s c ∧ P' w s c) sys l := by
  cases l with
  | spawn i w => trivial
  | step i e => exact fun t c hp hc => ⟨h t c hp hc, h' t c hp hc⟩

theorem guard_next {exec : Exec C A σ E} {body : κ → Code C A ρ} {P : κ → σ → C → Prop}
    (hexec : ∀ w s c e a m, P w s c → I s → exec c s e = some (a, m) → I m) (sys : Sys σ (Thread κ C A ρ))
    (l : Act κ E) (sys' : Sys σ (Thread κ C A ρ)) (hi : I sys.shared) (hg : Guard P sys l)
    (hn : (prog exec body).next sys l = some sys') : I sys'.shared := by
  cases l with
  | spawn i w =>
    obtain ⟨-, rfl⟩ := next_spawn hn
    exact hi
  | step i e =>
    obtain ⟨t, t', m, hp, hs, rfl⟩ := next_step hn
    obtain ⟨c, k, a, hcode, he, rfl⟩ := prog_step hs
    exact hexec t.what sys.shared c e a m (hg t c hp (next_of_code hcode)) hi he

instance decidableGuard {P : κ → σ → C → Prop} [∀ w s c, Decidable (P w s c)] (sys : Sys σ (Thread κ C A ρ)) :
    ∀ l : Act κ E, Decidable (Guard P sys l)
  | .spawn _ _ => inferInstanceAs (Decidable True)
  | .step i _ => decidable_of_iff (∀ t ∈ sys.pool i, ∀ c ∈ t.next, P t.what sys.shared c)
      ⟨fun h t c hp hc => h t hp c hc, fun h t hp c hc => h t c hp hc⟩

/-- the code keeps `I`, guarantees `G c` at its commands and returns with `Q`, while the others act as `R c` says -/
def Safe (exec : Exec C A σ E) (I : σ → Prop) (R G : C → σ → σ → Prop) (ok : σ → C → Prop)
    (Q : ρ → σ → Prop) : Code C A ρ → σ → Prop
  | ret r, s => Q r s
  | call c k, s => ∀ t, R c s t → I t → ok t c → ∀ e a u, exec c t e = some (a, u) →
      I u ∧ G c t u ∧ (k a).Safe exec I R G ok Q u

section
variable {exec : Exec C A σ E} {I : σ → Prop} {R G : C → σ → σ → Prop} {ok : σ → C → Prop}
  {Q : ρ → σ → Prop} {s : σ}

theorem safe_mono (hQ : ∀ r t, Q r t → Q' r t)
    (h : x.Safe exec I R G ok Q s) : x.Safe exec I R G ok Q' s := by
  induction x generalizing s with
  | ret r => exact hQ r s h
  | call c k ih =>
    intro t hR hI hok e a u he
    obtain ⟨hu, hG, hk⟩ := h t hR hI hok e a u he
    exact ⟨hu, hG, ih a hk⟩

theorem safe_bind {x : Code C A ρ'} {M : ρ' → σ → Prop}
    (hx : x.Safe exec I R G ok M s) (hf : ∀ r t, M r t → (f r).Safe exec I R G ok Q t) :
    (x.bind f).Safe exec I R G ok Q s := by
  induction x generalizing s with
  | ret r => exact hf r s hx
  | call c k ih =>
    intro t hR hI hok e a u he
    obtain ⟨hu, hG, hk⟩ := hx t hR hI hok e a u he
    exact ⟨hu, hG, ih a hk⟩

theorem safe_each {α : Type} {J : σ → Prop} {f : α → Code C A Unit} {xs : List α}
    (hf : ∀ x ∈ xs, ∀ t, J t → (f x).Safe exec I R G ok (fun _ => J) t) (h : J s) :
    (each f xs).Safe exec I R G ok (fun _ => J) s := by
  induction xs generalizing s with
  | nil => exact h
  | cons x xs ih =>
    refine safe_bind (hf x (List.mem_cons_self ..) s h) fun _ t ht => ?_
    exact ih (fun y hy => hf y (List.mem_cons_of_mem _ hy)) ht

theorem safe_call {F : σ → C → Prop} (hI : ∀ c t e a u, I t → ok t c → F t c → exec c t e = some (a, u) → I u)
    {c : C} {k : A c → Code C A ρ} (h : ∀ t, R c s t → I t → ok t c → F t c ∧ ∀ e a u, exec c t e = some (a, u) →
      I u → (k a).Safe exec I R (fun c t _ => F t c) ok Q u) :
    (call c k).Safe exec I R (fun c t _ => F t c) ok Q s := by
  intro t hR hIt hok e a u he
  obtain ⟨hF, hk⟩ := h t hR hIt hok
  have hIu : I u := hI c t e a u hIt hok hF he
  exact ⟨hIu, hF, hk e a u he hIu⟩

theorem safe_uses {P : C → Prop} (h : x.Uses P)
    (hP : ∀ c, P c → ∀ t e a u, I t → ok t c → exec c t e = some (a, u) → I u ∧ G c t u) (s : σ) :
    x.Safe exec I R G ok (fun _ _ => True) s := by
  induction x generalizing s with
  | ret r => trivial
  | call c k ih =>
    intro t _ hI hok e a u he
    obtain ⟨hIu, hGu⟩ := hP c h.1 t e a u hI hok he
    exact ⟨hIu, hGu, ih a (h.2 a) u⟩

theorem safe_frame {J : σ → Prop} (hR : ∀ c s t, R c s t → J s → J t)
    (hexec : ∀ c t e a u, exec c t e = some (a, u) → J t → J u) (h : x.Safe exec I R G ok Q s) (hJ : J s) :
    x.Safe exec I R G ok (fun r u => Q r u ∧ J u) s := by
  induction x generalizing s with
  | ret r => exact ⟨h, hJ⟩
  | call c k ih =>
    intro t hRt hI hok e a u he
    obtain ⟨hIu, hGu, hk⟩ := h t hRt hI hok e a u he
    exact ⟨hIu, hGu, ih a hk (hexec c t e a u he (hR c s t hRt hJ))⟩

theorem safe_weaken {G' : C → σ → σ → Prop} {ok' : σ → C → Prop}
    (hG : ∀ c t u, G c t u → G' c t u) (hok : ∀ t c, ok' t c → ok t c) (h : x.Safe exec I R G ok Q s) :
    x.Safe exec I R G' ok' Q s := by
  induction x generalizing s with
  | ret r => exact h
  | call c k ih =>
    intro t hR hI hok' e a u he
    obtain ⟨hIu, hGu, hk⟩ := h t hR hI (hok t c hok') e a u he
    exact ⟨hIu, hG c t u hGu, ih a hk⟩

theorem safe_later {t : σ} (htrans : ∀ c a b d, R c a b → R c b d → R c a d)
    (h : x.Safe exec I R G ok Q s) (hQ : ∀ r, x = ret r → Q r s → Q r t) (hR : ∀ c k, x = call c k → R c s t) :
    x.Safe exec I R G ok Q t := by
  cases x with
  | ret r => exact hQ r rfl h
  | call c k => exact fun u hu => h u (htrans c s t u (hR c k rfl) hu)

theorem wp_safe (hrefl : ∀ c s, R c s s) (hok : ∀ s c, ok s c) (hI : I s)
    (h : x.Safe exec I R G ok Q s) : x.wp exec Q s := by
  induction x generalizing s with
  | ret r => exact h
  | call c k ih =>
    intro e a t he
    obtain ⟨ht, -, hk⟩ := h s (hrefl c s) hI (hok s c) e a t he
    exact ih a ht hk

end

section
variable {exec : Exec C A σ E} {body : κ → Code C A ρ} {I : σ → Prop} {R G : κ → C → σ → σ → Prop}
  {O : κ → σ → C → Prop} {Q : κ → ρ → σ → Prop} {D : Sys σ (Thread κ C A ρ) → Act κ E → Prop}

/-- the invariant, and what is still to be done of each call is safe and returns with `Q` -/
abbrev SafeSys (exec : Exec C A σ E) (I : σ → Prop) (R G : κ → C → σ → σ → Prop) (O : κ → σ → C → Prop)
    (Q : κ → ρ → σ → Prop) : Sys σ (Thread κ C A ρ) → Prop :=
  Inv I (fun s t => t.code.Safe exec I (R t.what) (G t.what) (O t.what) (Q t.what) s) fun _ _ _ => True

theorem safe_step {i : Nat} {c : C} {k : A c → Code C A ρ} {e : E} {a : A c} {m : σ} (hrefl : ∀ w c s, R w c s s)
    (hi : SafeSys exec I R G O Q sys) (hp : sys.pool i = some t) (hcode : t.code = call c k)
    (hok : O t.what sys.shared c) (he : exec c sys.shared e = some (a, m)) : I m ∧ G t.what c sys.shared m ∧
      (k a).Safe exec I (R t.what) (G t.what) (O t.what) (Q t.what) m := by
  have hsafe := hi.each i t hp
  rw [hcode] at hsafe
  exact hsafe sys.shared (hrefl _ _ _) hi.shared hok e a m he

theorem safe_result {i : Nat} {r : ρ}
    (hi : SafeSys exec I R G O Q sys) (hp : sys.pool i = some t) (hr : t.result = some r) :
    Q t.what r sys.shared := by
  have hsafe := hi.each i t hp
  obtain ⟨w, code⟩ := t
  cases code with
  | ret r' =>
    cases hr
    exact hsafe
  | call c k => cases hr

/-- **Calls that are safe on their own are safe together**, when each step is what the others rely on. -/
theorem safe_next (hrefl : ∀ w c s, R w c s s) (htrans : ∀ w c a b d, R w c a b → R w c b d → R w c a d)
    (hbody : ∀ sys i w, D sys (.spawn i w) → I sys.shared → (body w).Safe exec I (R w) (G w) (O w) (Q w) sys.shared)
    (hok : ∀ sys i e t c, D sys (.step i e) → sys.pool i = some t → t.next = some c → O t.what sys.shared c)
    (hrely : ∀ sys i e t c a m, D sys (.step i e) → sys.pool i = some t → t.next = some c →
      exec c sys.shared e = some (a, m) → G t.what c sys.shared m → ∀ j u, j ≠ i → sys.pool j = some u →
        (∀ r, Q u.what r sys.shared → Q u.what r m) ∧ ∀ d, u.next = some d → R u.what d sys.shared m)
    (sys : Sys σ (Thread κ C A ρ)) (l : Act κ E) (sys' : Sys σ (Thread κ C A ρ))
    (hi : SafeSys exec I R G O Q sys) (hc : D sys l) (hn : (prog exec body).next sys l = some sys') :
    SafeSys exec I R G O Q sys' := by
  refine inv_next (C := D) ⟨fun s i w hi hc => ?_, fun s i e t t' m hi hc hp hs => ?_⟩ sys l sys' hi hc hn
  · exact ⟨hbody s i w hc hi.shared, fun _ _ _ => ⟨trivial, trivial⟩⟩
  obtain ⟨c, k, a, hcode, he, rfl⟩ := prog_step hs
  have hnext : t.next = some c := next_of_code hcode
  obtain ⟨hI, hG, hk⟩ := safe_step hrefl hi hp hcode (hok s i e t c hc hp hnext) he
  refine keeps_each hI hk fun j u hj hu => ?_
  obtain ⟨hQ, hR⟩ := hrely s i e t c a m hc hp hnext he hG j u hj hu
  exact safe_later (htrans u.what) (hi.each j u hu) (fun r _ => hQ r) fun d k' hd => hR d (next_of_code hd)

end

/-! ## one call at a time -/

section
variable {exec : Exec C A σ E} {body : κ → Code C A ρ}

/-- a call is started only when the others have returned -/
def Solo (sys : Sys σ (Thread κ C A ρ)) : Act κ E → Prop
  | .spawn _ _ => ∀ i t, sys.pool i = some t → t.next = none
  | .step _ _ => True

/-- at most one call is under way -/
def Single (sys : Sys σ (Thread κ C A ρ)) : Prop :=
  ∀ i j t u, sys.pool i = some t → sys.pool j = some u → t.next ≠ none → u.next ≠ none → i = j

theorem single_next (sys : Sys σ (Thread κ C A ρ)) (l : Act κ E) (sys' : Sys σ (Thread κ C A ρ))
    (hi : Single sys) (hc : Solo sys l) (hn : (prog exec body).next sys l = some sys') : Single sys' := by
  intro i j t u hp hq ht hu
  cases l with
  | spawn n w =>
    obtain ⟨-, rfl⟩ := next_spawn hn
    rcases update_cases hp with ⟨rfl, -⟩ | ⟨-, hp⟩
    · rcases update_cases hq with ⟨rfl, -⟩ | ⟨-, hq⟩
      · rfl
      · exact absurd (hc j u hq) hu
    · exact absurd (hc i t hp) ht
  | step n e =>
    obtain ⟨v, v', m, hv, hs, rfl⟩ := next_step hn
    obtain ⟨c, k, a, hcode, -, -⟩ := prog_step hs
    have hbusy : v.next ≠ none := by
      rw [next_of_code hcode]
      exact Option.some_ne_none c
    rcases update_cases hp with ⟨rfl, -⟩ | ⟨-, hp'⟩
    · rcases update_cases hq with ⟨rfl, -⟩ | ⟨-, hq'⟩
      · rfl
      · exact hi i j v u hv hq' hbusy hu
    · rcases update_cases hq with ⟨rfl, -⟩ | ⟨-, hq'⟩
      · exact hi i j t v hp' hv ht hbusy
      · exact hi i j t u hp' hq' ht hu

theorem single_idle (s : σ) : Single (idle s : Sys σ (Thread κ C A ρ)) := fun i j t u hp => by cases hp

/-- a call is started only when the others below `n` have returned -/
def SoloBelow (n : Nat) (sys : Sys σ (Thread κ C A ρ)) : Act κ E → Prop
  | .spawn _ _ => ∀ i < n, ∀ t ∈ sys.pool i, t.next = none
  | .step _ _ => True

instance (n : Nat) (sys : Sys σ (Thread κ C A ρ)) (l : Act κ E) : Decidable (SoloBelow n sys l) := by
  unfold SoloBelow
  split <;> infer_instance

theorem solo_below {n : Nat} {l : Act κ E} (h : SoloBelow n sys l)
    (hn : ∀ i t, sys.pool i = some t → i < n) : Solo sys l := by
  cases l with
  | spawn j c => exact fun i t hp => h i (hn i t hp) t hp
  | step j e => trivial

/-- the invariant, and the call that is under way keeps it alone -/
abbrev SoloSys (exec : Exec C A σ E) (I : σ → Prop) (O : κ → σ → C → Prop) (sys : Sys σ (Thread κ C A ρ)) : Prop :=
  SafeSys exec I (fun _ _ => Eq) (fun _ _ _ _ => True) O (fun _ _ _ => True) sys ∧ Single sys

theorem soloSys_idle {O : κ → σ → C → Prop} {s : σ} (h : I s) :
    SoloSys exec I O (idle s : Sys σ (Thread κ C A ρ)) := ⟨inv_idle h, single_idle s⟩

theorem solo_next {O : κ → σ → C → Prop} {D : Sys σ (Thread κ C A ρ) → Act κ E → Prop}
    (hbody : ∀ sys i w, D sys (.spawn i w) → I sys.shared →
      (body w).Safe exec I (fun _ => Eq) (fun _ _ _ => True) (O w) (fun _ _ => True) sys.shared)
    (hok : ∀ sys i e t c, D sys (.step i e) → sys.pool i = some t → t.next = some c → O t.what sys.shared c)
    (sys : Sys σ (Thread κ C A ρ)) (l : Act κ E) (sys' : Sys σ (Thread κ C A ρ))
    (hi : SoloSys exec I O sys) (hc : Solo sys l ∧ D sys l) (hn : (prog exec body).next sys l = some sys') :
    SoloSys exec I O sys' := by
  refine ⟨?_, single_next sys l sys' hi.2 hc.1 hn⟩
  refine safe_next (D := fun sys l => D sys l ∧ Single sys) (fun _ _ _ => rfl) (fun _ _ _ _ _ h h' => h.trans h')
    (fun sys i w hD => hbody sys i w hD.1) (fun sys i e t c hD => hok sys i e t c hD.1) ?_ sys l sys' hi.1
    ⟨hc.2, hi.2⟩ hn
  intro sys i e t c a m hD hp hnext _ _ j u hj hu
  refine ⟨fun _ _ => trivial, fun d hd => ?_⟩
  -- the other call would be under way too
  have hbusy : u.next ≠ none := by
    rw [hd]
    exact Option.some_ne_none d
  have hbusy' : t.next ≠ none := by
    rw [hnext]
    exact Option.some_ne_none c
  exact absurd (hD.2 j i u t hu hp hbusy hbusy') hj

end

end Code
