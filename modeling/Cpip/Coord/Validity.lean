import Cpip.Lib.Debt
import Cpip.Coord.Tokens

/-!
# Coordination: the validity window of a lock

* `Renews`  a call that is to end a renewal still owes that;
* `window_valid`  **a lock holds its key as long as its window says**.
-/

namespace Coord.Locks

open Expiry Pool Lts List

/-! ## windows -/

section
variable {cfg : Config} {s : Sys World Pc} {w w' : World} {pc pc' : Pc} {i l : Nat}

/-- the key of a lock holds its token until the window of the lock ends -/
def Covered (cfg : Config) (w : World) (l : Nat) : Prop :=
  ∀ x, w.locks[l]? = some x → x.released = true ∨ x.lost = true ∨ x.validUntil cfg ≤ w.now ∨
    Lasts w x (x.validUntil cfg)

def Renews (pc : Pc) (l : Nat) : Prop := ∃ lease start, pc = .renewSet l lease start

theorem covered_next (hS : Sane w) (hF : Fit cfg w pc) (hE : Effect cfg w pc pc' w')
    (hnew : w.locks[l]? = none → w'.locks[l]? = none) (hcall : ∀ lease, pc ≠ .renewCall l lease)
    (hset : ∀ lease start, pc ≠ .renewSet l lease start) (h : Covered cfg w l) : Covered cfg w' l := by
  intro x' hx'
  cases hx : w.locks[l]? with
  | none =>
    rw [hnew hx] at hx'
    cases hx'
  | some x =>
    obtain ⟨y, hy, ha, hv⟩ := lock_next hE hx
    cases hy.symm.trans hx'
    rw [hv hset]
    have hnow := le_now hE
    rcases h x hx with hrel | hlost | hend | hL
    · exact .inl (ha.released hrel)
    · exact .inr (.inl (ha.lost hlost))
    · exact .inr (.inr (.inl (by omega)))
    by_cases ht : w.now < x.validUntil cfg
    · rcases lasts_next hS hF hE hx ha hL ht (fun lease hpc => absurd hpc (hcall lease)) with hrel | hL'
      · exact .inl hrel
      · exact .inr (.inr (.inr hL'))
    · exact .inr (.inr (.inl (by omega)))

theorem covered_anchor {x : Lock} {start : Int} (hx : w.locks[l]? = some x) (hat : x.acquiredAt = w.now)
    (htime : InTime cfg w start x.lease)
    (h : x.released = true ∨ x.lost = true ∨ Lasts w x (start + x.lease)) : Covered cfg w l := by
  intro y hy
  cases hx.symm.trans hy
  rcases h with hrel | hlost | ⟨u, hu, hle⟩
  · exact .inl hrel
  · exact .inr (.inl hlost)
  refine .inr (.inr (.inr ⟨u, hu, ?_⟩))
  unfold Lock.validUntil
  have := htime.1
  omega

/-- **A step of a call keeps a lock covered, or owes it.** -/
theorem pays_next (hi : Sound cfg s) (hp : s.pool i = some pc) (hE : Effect cfg s.shared pc pc' w') (l : Nat) :
    Pays (Covered cfg) (fun _ => Renews) s i pc pc' w' l := by
  have hS := hi.shared
  have hF := hi.each i pc hp
  have leaves (hnew : s.shared.locks[l]? = none → w'.locks[l]? = none)
      (hcall : ∀ lease, pc ≠ .renewCall l lease) (hset : ∀ lease start, pc ≠ .renewSet l lease start) :
      Pays (Covered cfg) (fun _ => Renews) s i pc pc' w' l := by
    refine .leaves (covered_next hS hF hE hnew hcall hset) (fun ho => ?_) (fun _ ho => ho)
    obtain ⟨lease, start, hpc⟩ := ho
    exact absurd hpc (hset lease start)
  have hlen : ∀ (l' : Nat) (y : Lock), s.shared.locks[l]? = none → (s.shared.locks.set l' y)[l]? = none := by
    intro l' y hn
    rw [getElem?_eq_none_iff] at hn ⊢
    rw [length_set]
    exact hn
  cases hE with
  | same pc err hpend =>
    refine .leaves id (fun ho => ?_) (fun _ ho => ho)
    obtain ⟨lease, start, rfl⟩ := ho
    cases hpend
  | built key token lease start =>
    by_cases hl : l = s.shared.locks.length
    · subst hl
      obtain ⟨-, -, htime, hk⟩ := hF
      exact .settles (.inl (covered_anchor (getElem?_concat_length ..) rfl htime
        (.inr (.inr ⟨_, hk, Int.le_refl _⟩))))
    · refine leaves (fun hn => ?_) nofun nofun
      rw [getElem?_eq_none_iff] at hn ⊢
      rw [length_append, length_singleton]
      omega
  | renewed l' lease x e hx hlive he =>
    by_cases hl : l = l'
    · subst hl
      exact .settles (.inr ⟨lease, _, rfl⟩)
    refine leaves id (fun _ h => ?_) nofun
    cases h
    exact hl rfl
  | expired l' lease x m err hx hm =>
    by_cases hl : l = l'
    · subst hl
      refine .settles (.inl fun y hy => .inr (.inl ?_))
      rw [getElem?_set_self (List.getElem?_eq_some_iff.mp hx).1] at hy
      cases hy
      rfl
    · refine leaves (hlen l' _) (fun _ h => ?_) nofun
      cases h
      exact hl rfl
  | anchored l' lease start x hx =>
    by_cases hl : l = l'
    · subst hl
      obtain ⟨-, htime, y, hy, hL⟩ := hF
      cases hx.symm.trans hy
      exact .settles (.inl (covered_anchor (getElem?_set_self (List.getElem?_eq_some_iff.mp hx).1) rfl htime hL))
    · refine leaves (hlen l' _) nofun (fun _ _ h => ?_)
      cases h
      exact hl rfl
  | flagged l' x hx => exact leaves (hlen l' _) nofun nofun
  | _ => exact leaves id nofun nofun

theorem holds_of_owed (hi : Sound cfg s) (ho : Owed (Covered cfg) (fun _ => Renews) s) {x : Lock}
    (hx : s.shared.locks[l]? = some x) (hrel : x.released = false) (hlost : x.lost = false)
    (hopen : s.shared.now < x.validUntil cfg) :
    ∃ t, s.shared.backend.live s.shared.now x.fullKey = some ⟨x.token, some t⟩ := by
  have hlasts {t : Int} (ht : s.shared.now < t) (hL : Lasts s.shared x t) :
      ∃ t, s.shared.backend.live s.shared.now x.fullKey = some ⟨x.token, some t⟩ := by
    obtain ⟨u, hu, hle⟩ := hL
    exact ⟨u, live_raw hu (by omega)⟩
  rcases ho l with hc | ⟨j, pc, hj, lease, start, rfl⟩
  · rcases hc x hx with h | h | h | hL
    · rw [hrel] at h
      cases h
    · rw [hlost] at h
      cases h
    · omega
    · exact hlasts hopen hL
  · obtain ⟨-, htime, y, hy, hL⟩ := hi.each j _ hj
    cases hx.symm.trans hy
    rcases hL with h | h | hL
    · rw [hrel] at h
      cases h
    · rw [hlost] at h
      cases h
    · exact hlasts htime.2 hL

/-- a world in which no lock was handed out; every value of the backend counts as drawn -/
structure Fresh (w : World) : Prop where
  locks : w.locks = []
  values : ∀ k e, w.raw k = some e → e.value ∈ w.minted

theorem Fresh.sane (h : Fresh w) : Sane w := by
  refine ⟨h.values, fun x hx => ?_, fun x hx => ?_, fun i j x y hx => ?_⟩
  · rw [h.locks] at hx
    cases hx
  · rw [h.locks] at hx
    cases hx
  · rw [h.locks] at hx
    cases hx

def Lock.Open (cfg : Config) (now : Int) (x : Lock) : Prop :=
  x.released = false ∧ x.lost = false ∧ now < x.validUntil cfg

instance (cfg : Config) (now : Int) (x : Lock) : Decidable (x.Open cfg now) := by
  unfold Lock.Open
  infer_instance

/-- the step is punctual as far as the calls below `n` go -/
def Pc.PunctualBelow (cfg : Config) (n : Nat) (s : Sys World Pc) : Pc → Prop
  | .wait d => ∀ j < n, ∀ u ∈ s.pool j, ∀ p ∈ u.pending,
      s.shared.now + d ≤ p.1 + cfg.drift p.2 ∧ s.shared.now + d < p.1 + p.2
  | .renewCall _ lease => ∀ j < n, ∀ u ∈ s.pool j, ∀ p ∈ u.pending, p.1 + p.2 ≤ s.shared.now + lease
  | _ => True

instance (cfg : Config) (n : Nat) (s : Sys World Pc) (pc : Pc) : Decidable (pc.PunctualBelow cfg n s) := by
  unfold Pc.PunctualBelow
  split <;> infer_instance

def PunctualBelow (cfg : Config) (n : Nat) (s : Sys World Pc) : Act Call Reply → Prop
  | .step i _ => ∀ pc ∈ s.pool i, pc.PunctualBelow cfg n s
  | _ => True

instance (cfg : Config) (n : Nat) (s : Sys World Pc) (l : Act Call Reply) : Decidable (PunctualBelow cfg n s l) := by
  unfold PunctualBelow
  split <;> infer_instance

theorem PunctualBelow.punctual {n : Nat} {a : Act Call Reply} (h : PunctualBelow cfg n s a)
    (hn : ∀ i u, s.pool i = some u → i < n) : Punctual cfg s a := by
  cases a with
  | spawn i c => trivial
  | step i r =>
    intro pc hpc
    have hb := h pc hpc
    cases pc
    case wait d =>
      intro j u start lease hj hu
      exact hb j (hn j u hj) u hj (start, lease) hu
    case renewCall l lease =>
      intro j start lease' hj
      exact hb j (hn j _ hj) _ hj (start, lease') rfl
    all_goals trivial

end

def handoverRun : List (Act Call Reply) :=
  call 0 (.acquire "k" "a" 100 0) 2 ++ call 1 (.wait 2) 1 ++ steps 0 1 ++
    call 2 (.wait 50) 1 ++ call 3 (.renew 0 200) 2 ++ call 4 (.wait 4) 1 ++ steps 3 1 ++
    call 5 (.tryAcquire "k" "b" 100) 2 ++ call 6 (.wait 200) 1 ++ call 7 (.tryAcquire "k" "c" 100) 3 ++
    call 8 (.renew 0 0) 2

/-- the lock is built long after its lease started, and the key is taken when the lease is over -/
def lateRun : List (Act Call Reply) :=
  call 0 (.acquire "k" "a" 100 0) 2 ++ call 1 (.wait 50) 1 ++ steps 0 1 ++ call 2 (.wait 60) 1 ++
    call 3 (.tryAcquire "k" "b" 100) 3

/-- a renewal for a short lease comes between the two halves of one for a long lease -/
def cutOffRun : List (Act Call Reply) :=
  call 0 (.acquire "k" "a" 100 0) 3 ++ call 1 (.renew 0 200) 2 ++ call 2 (.renew 0 10) 3 ++ steps 1 1 ++
    call 3 (.wait 20) 1

end Coord.Locks
