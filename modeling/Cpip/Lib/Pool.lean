import Cpip.Lib.Run

/-!
# Pools of threads over a shared state

Concurrent calls whose steps interleave freely: each call is a thread with its own program
counter, and a step of a thread is one access to the shared state.

* `inv_run`  **the parts hold along a run when every step keeps them**;
* `spawned`, `run_below`, `along_bounded`, `along_pairs`  the threads of a run were started in it;
* `shared_move`  an invariant of the shared state alone.
-/

namespace Pool

open Lts Function

variable {κ σ τ α : Type*}

structure Prog (κ σ τ α : Type*) where
  start : κ → τ
  step : τ → σ → α → Option (τ × σ)

structure Sys (σ τ : Type*) where
  shared : σ
  pool : Nat → Option τ

inductive Act (κ α : Type*) where
  | spawn (i : Nat) (c : κ)
  | step (i : Nat) (a : α)

def idle (s : σ) : Sys σ τ := ⟨s, fun _ => none⟩

def Prog.next (P : Prog κ σ τ α) (s : Sys σ τ) : Act κ α → Option (Sys σ τ)
  | .spawn i c =>
    match s.pool i with
    | some _ => none
    | none => some ⟨s.shared, update s.pool i (some (P.start c))⟩
  | .step i a =>
    match s.pool i with
    | none => none
    | some t => (P.step t s.shared a).map fun r => ⟨r.2, update s.pool i (some r.1)⟩

variable {P : Prog κ σ τ α} {s s' : Sys σ τ} {i : Nat}

theorem next_spawn {c : κ} (h : P.next s (.spawn i c) = some s') :
    s.pool i = none ∧ s' = ⟨s.shared, update s.pool i (some (P.start c))⟩ := by
  unfold Prog.next at h
  cases hp : s.pool i with
  | some t => simp [hp] at h
  | none =>
    simp only [hp, Option.some.injEq] at h
    exact ⟨rfl, h.symm⟩

theorem next_step {a : α} (h : P.next s (.step i a) = some s') :
    ∃ t t' m, s.pool i = some t ∧ P.step t s.shared a = some (t', m) ∧ s' = ⟨m, update s.pool i (some t')⟩ := by
  unfold Prog.next at h
  cases hp : s.pool i with
  | none => simp [hp] at h
  | some t =>
    simp only [hp, Option.map_eq_some_iff] at h
    obtain ⟨⟨t', m⟩, hs, rfl⟩ := h
    exact ⟨t, t', m, rfl, hs, rfl⟩

variable {t : τ}

theorem update_cases {pool : Nat → Option τ} {j : Nat} {u : τ} (h : update pool i (some t) j = some u) :
    j = i ∧ u = t ∨ j ≠ i ∧ pool j = some u := by
  by_cases hj : j = i
  · subst hj
    rw [update_self] at h
    exact .inl ⟨rfl, (Option.some.inj h).symm⟩
  · rw [update_of_ne hj] at h
    exact .inr ⟨hj, h⟩

structure Inv (G : σ → Prop) (L : σ → τ → Prop) (R : σ → τ → τ → Prop) (s : Sys σ τ) : Prop where
  shared : G s.shared
  each : ∀ i t, s.pool i = some t → L s.shared t
  pair : ∀ i j t u, i ≠ j → s.pool i = some t → s.pool j = some u → R s.shared t u

theorem inv_idle {G : σ → Prop} {L : σ → τ → Prop} {R : σ → τ → τ → Prop} {s : σ} (h : G s) : Inv G L R (idle s) :=
  ⟨h, nofun, nofun⟩

/-- what a step of thread `i` from `t` to `t'` and from `s` to `m` has to keep -/
structure Keeps (G : σ → Prop) (L : σ → τ → Prop) (R : σ → τ → τ → Prop) (s : Sys σ τ) (i : Nat)
    (t' : τ) (m : σ) : Prop where
  shared : G m
  self : L m t'
  other : ∀ j u, j ≠ i → s.pool j = some u → L m u
  left : ∀ j u, j ≠ i → s.pool j = some u → R m t' u
  right : ∀ j u, j ≠ i → s.pool j = some u → R m u t'
  others : ∀ j k u w, j ≠ i → k ≠ i → j ≠ k → s.pool j = some u → s.pool k = some w → R m u w

variable {C : Sys σ τ → Act κ α → Prop} {as : List (Act κ α)}

section
variable {G : σ → Prop} {L : σ → τ → Prop} {R : σ → τ → τ → Prop}

theorem inv_step {t' : τ} {m : σ} (hk : Keeps G L R s i t' m) : Inv G L R ⟨m, update s.pool i (some t')⟩ := by
  refine ⟨hk.shared, fun j u hu => ?_, fun j k u w hjk hu hw => ?_⟩
  · rcases update_cases hu with ⟨-, rfl⟩ | ⟨hj, hu⟩
    · exact hk.self
    · exact hk.other j u hj hu
  · rcases update_cases hu with ⟨rfl, rfl⟩ | ⟨hj, hju⟩ <;> rcases update_cases hw with ⟨rfl, rfl⟩ | ⟨hk', hkw⟩
    · exact absurd rfl hjk
    · exact hk.left k w hk' hkw
    · exact hk.right j u hj hju
    · exact hk.others j k u w hj hk' hjk hju hkw

theorem inv_spawn (hi : Inv G L R s) (hL : L s.shared t)
    (hR : ∀ j u, s.pool j = some u → R s.shared t u ∧ R s.shared u t) :
    Inv G L R ⟨s.shared, update s.pool i (some t)⟩ :=
  inv_step ⟨hi.shared, hL, fun j u _ hu => hi.each j u hu, fun j u _ hu => (hR j u hu).1,
    fun j u _ hu => (hR j u hu).2, fun j k u w _ _ hjk hu hw => hi.pair j k u w hjk hu hw⟩

/-- every started call satisfies its part, and every guarded step keeps the parts -/
structure Kept (P : Prog κ σ τ α) (C : Sys σ τ → Act κ α → Prop) (G : σ → Prop) (L : σ → τ → Prop)
    (R : σ → τ → τ → Prop) : Prop where
  spawn : ∀ s i c, Inv G L R s → C s (.spawn i c) → L s.shared (P.start c) ∧
    ∀ j u, s.pool j = some u → R s.shared (P.start c) u ∧ R s.shared u (P.start c)
  step : ∀ s i a t t' m, Inv G L R s → C s (.step i a) → s.pool i = some t →
    P.step t s.shared a = some (t', m) → Keeps G L R s i t' m

theorem inv_next (h : Kept P C G L R) (s : Sys σ τ) (l : Act κ α) (s' : Sys σ τ) (hi : Inv G L R s) (hc : C s l)
    (hn : P.next s l = some s') : Inv G L R s' := by
  cases l with
  | spawn i c =>
    obtain ⟨-, rfl⟩ := next_spawn hn
    obtain ⟨hL, hR⟩ := h.spawn s i c hi hc
    exact inv_spawn hi hL hR
  | step i a =>
    obtain ⟨t, t', m, hp, hs, rfl⟩ := next_step hn
    exact inv_step (h.step s i a t t' m hi hc hp hs)

/-- **An invariant by parts holds after every guarded run.** -/
theorem inv_run (h : Kept P C G L R) (h0 : Inv G L R s) (hC : Along P.next C s as) (hr : run P.next s as = some s') :
    Inv G L R s' :=
  run_inv (inv_next h) h0 hC hr

/-- a step, when nothing is said of pairs -/
theorem keeps_each {t' : τ} {m : σ} (hG : G m) (hself : L m t') (hother : ∀ j u, j ≠ i → s.pool j = some u → L m u) :
    Keeps G L (fun _ _ _ => True) s i t' m :=
  ⟨hG, hself, hother, fun _ _ _ _ => trivial, fun _ _ _ _ => trivial, fun _ _ _ _ _ _ _ _ _ => trivial⟩

end

theorem spawned (hr : run P.next s as = some s') (ht : s'.pool i = some t) :
    (∃ t, s.pool i = some t) ∨ ∃ c, .spawn i c ∈ as := by
  induction as generalizing s with
  | nil =>
    cases hr
    exact .inl ⟨t, ht⟩
  | cons a as ih =>
    obtain ⟨m, hm, hr⟩ := run_cons_eq hr
    rcases ih hr with ⟨u, hu⟩ | ⟨c, hc⟩
    · cases a with
      | spawn j c =>
        obtain ⟨-, rfl⟩ := next_spawn hm
        rcases update_cases hu with ⟨rfl, -⟩ | ⟨-, hu⟩
        · exact .inr ⟨c, List.mem_cons_self ..⟩
        · exact .inl ⟨u, hu⟩
      | step j a =>
        obtain ⟨t₀, t', x, hp, -, rfl⟩ := next_step hm
        rcases update_cases hu with ⟨rfl, -⟩ | ⟨-, hu⟩
        · exact .inl ⟨t₀, hp⟩
        · exact .inl ⟨u, hu⟩
    · exact .inr ⟨c, List.mem_cons_of_mem _ hc⟩

/-- the action starts no thread from `n` on -/
def Act.below (n : Nat) : Act κ α → Prop
  | .spawn i _ => i < n
  | .step _ _ => True

instance (n : Nat) (l : Act κ α) : Decidable (l.below n) := by
  unfold Act.below
  split <;> infer_instance

variable {n : Nat}

/-- threads that are started below `n` are below `n` at the end of a run -/
theorem run_below {s : σ} (h : ∀ l ∈ as, l.below n) (hr : run P.next (idle s) as = some s') (ht : s'.pool i = some t) :
    i < n := by
  rcases spawned hr ht with ⟨u, hu⟩ | ⟨c, hc⟩
  · cases hu
  · exact h _ hc

theorem exists_below {s : σ} {q : τ → Prop} {p : Sys σ τ → Prop} (h : ∀ l ∈ as, l.below n)
    (hr : ∃ x ∈ run P.next (idle s) as, (∀ i < n, ∀ t ∈ x.pool i, q t) ∧ p x) :
    ∃ x ∈ run P.next (idle s) as, (∀ i t, x.pool i = some t → q t) ∧ p x := by
  obtain ⟨x, hx, hq, hp⟩ := hr
  exact ⟨x, hx, fun i t ht => hq i (run_below h hx ht) t ht, hp⟩

/-- threads that are started below `n` are below `n` in every state of a run -/
theorem along_below (s : σ) (h : ∀ l ∈ as, l.below n) :
    Along P.next (fun s _ => ∀ i t, s.pool i = some t → i < n) (idle s) as := by
  have hall : Along P.next (fun _ l => l.below n) (idle s) as := along_of_forall h _
  refine along_inv (fun s l s' hi hc hn => ?_) nofun hall
  intro i t ht
  cases l with
  | spawn j c =>
    obtain ⟨-, rfl⟩ := next_spawn hn
    rcases update_cases ht with ⟨rfl, -⟩ | ⟨-, ht⟩
    · exact hc
    · exact hi i t ht
  | step j a =>
    obtain ⟨t₀, t', x, hp, -, rfl⟩ := next_step hn
    rcases update_cases ht with ⟨rfl, -⟩ | ⟨-, ht⟩
    · exact hi i t₀ hp
    · exact hi i t ht

/-- a guard that looks at every thread, when it holds as far as the threads below `n` go -/
theorem along_bounded {D : Sys σ τ → Act κ α → Prop} {s : σ}
    (hCD : ∀ s l, D s l → (∀ i t, s.pool i = some t → i < n) → C s l) (h : ∀ l ∈ as, l.below n)
    (hD : Along P.next D (idle s) as) : Along P.next C (idle s) as :=
  along_mono (fun s l hl => hCD s l hl.1 hl.2) _ _ (along_and hD (along_below s h))

/-- the thread of a step compares with every thread below `n` -/
def PairsBelow (D : σ → Nat → τ → Nat → τ → Prop) (n : Nat) (s : Sys σ τ) : Act κ α → Prop
  | .spawn _ _ => True
  | .step i _ => ∀ t ∈ s.pool i, ∀ j < n, ∀ u ∈ s.pool j, D s.shared i t j u

instance (D : σ → Nat → τ → Nat → τ → Prop) [∀ s i t j u, Decidable (D s i t j u)] (n : Nat) (s : Sys σ τ) :
    ∀ l : Act κ α, Decidable (PairsBelow D n s l)
  | .spawn _ _ => .isTrue trivial
  | .step i _ => inferInstanceAs (Decidable (∀ t ∈ s.pool i, ∀ j < n, ∀ u ∈ s.pool j, _))

/-- a guard that compares the thread of a step with every thread, when that can be evaluated -/
theorem along_pairs {D : σ → Nat → τ → Nat → τ → Prop} {s : σ} (hspawn : ∀ s i c, C s (.spawn i c))
    (hstep : ∀ s i a, (∀ t j u, s.pool i = some t → s.pool j = some u → D s.shared i t j u) → C s (.step i a))
    (h : ∀ l ∈ as, l.below n) (hD : Along P.next (PairsBelow D n) (idle s) as) : Along P.next C (idle s) as := by
  refine along_bounded (n := n) (D := PairsBelow D n) (fun s l hl hn => ?_) h hD
  cases l with
  | spawn i c => exact hspawn s i c
  | step i a => exact hstep s i a fun t j u ht hu => hl t ht j (hn j u hu) u hu

/-! ## processes that die -/

inductive Move (κ α : Type*) where
  | act (a : Act κ α)
  | die

/-- one action, or the death of the process, which leaves `keep s` of the shared state -/
def Prog.move (P : Prog κ σ τ α) (keep : σ → σ) (s : Sys σ τ) : Move κ α → Option (Sys σ τ)
  | .act a => P.next s a
  | .die => some (idle (keep s.shared))

section
variable {G : σ → Prop} {L : σ → τ → Prop} {R : σ → τ → τ → Prop} {keep : σ → σ}

theorem inv_move {C : Sys σ τ → Move κ α → Prop} (h : Kept P (fun s a => C s (.act a)) G L R)
    (hdie : ∀ s, Inv G L R s → G (keep s.shared)) (s : Sys σ τ) (l : Move κ α) (s' : Sys σ τ)
    (hi : Inv G L R s) (hc : C s l) (hn : P.move keep s l = some s') : Inv G L R s' := by
  cases l with
  | die =>
    cases hn
    exact inv_idle (hdie s hi)
  | act a => exact inv_next h s a s' hi hc hn

/-- **An invariant by parts holds after every guarded run of a process that may die.** -/
theorem inv_moves {C : Sys σ τ → Move κ α → Prop} (h : Kept P (fun s a => C s (.act a)) G L R)
    (hdie : ∀ s, Inv G L R s → G (keep s.shared)) {ms : List (Move κ α)} (h0 : Inv G L R s)
    (hC : Along (P.move keep) C s ms) (hr : run (P.move keep) s ms = some s') : Inv G L R s' :=
  run_inv (inv_move h hdie) h0 hC hr

theorem shared_move {I : σ → Prop} (hstep : ∀ t m a t' m', I m → P.step t m a = some (t', m') → I m')
    (hdie : ∀ m, I m → I (keep m)) (s : Sys σ τ) (l : Move κ α) (s' : Sys σ τ) (hi : I s.shared)
    (hn : P.move keep s l = some s') : I s'.shared := by
  cases l with
  | die =>
    cases hn
    exact hdie _ hi
  | act a =>
    cases a with
    | spawn i c =>
      obtain ⟨-, rfl⟩ := next_spawn hn
      exact hi
    | step i a =>
      obtain ⟨t, t', m, -, hs, rfl⟩ := next_step hn
      exact hstep t s.shared a t' m hi hs

end

end Pool
