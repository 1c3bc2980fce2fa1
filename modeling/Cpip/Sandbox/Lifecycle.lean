import Cpip.Sandbox.Steps

/-!
# Sandbox: the lifecycle of a session

Any number of `Transition` calls on one session.  Validation, hooks and write are separate steps, and no lock is held
across them.

* `lifecycle_legal`  **the states of the session are a path of the graph**, see also `destroyed_revived`.
-/

namespace Sandbox

open Pool Lts

def transitions : Prog State World (Code.Thread State Cmd Cmd.Ans Bool) Choice := Code.prog exec transition

/-- a step along the graph; nothing leaves `destroyed`, and only `destroyed` comes after `cleaning` -/
structure Legal (current next : State) : Prop where
  edge : validateTransition current next = true
  destroyed : current = .destroyed → next = .destroyed
  cleaning : current = .cleaning → next = .cleaning ∨ next = .destroyed

theorem legal_of_validate {current next : State} (h : validateTransition current next = true) : Legal current next := by
  refine ⟨h, ?_, ?_⟩
  · rintro rfl
    obtain h | h := of_decide_eq_true h
    · exact h.symm
    · cases h
  · rintro rfl
    obtain h | h := of_decide_eq_true h
    · exact .inl h.symm
    · exact .inr (List.mem_singleton.mp h)

theorem legal_refl (s : State) : Legal s s := legal_of_validate (decide_eq_true (.inl rfl))

/-- the next access comes after the validation and not after the write -/
def Cmd.between : Cmd → Bool
  | .hooks | .write _ => true
  | _ => false

def Cmd.writes : Cmd → Bool
  | .write _ => true
  | _ => false

/-- no call writes while another is between its validation and its write -/
def Exclusive (sys : Sys World (Code.Thread State Cmd Cmd.Ans Bool)) : Act State Choice → Prop
  | .spawn _ _ => True
  | .step i _ => ∀ t ∈ sys.pool i, t.next.any Cmd.writes = true →
      ∀ j u, j ≠ i → sys.pool j = some u → u.next.any Cmd.between = false

/-- what a call relies on: nothing is written while it is between its validation and its write -/
def Waits (c : Cmd) (s t : World) : Prop := c.between = true → t.state = s.state

theorem state_exec {c : Cmd} {s m : World} {e : Choice} {a : c.Ans} (h : exec c s e = some (a, m))
    (hc : c.writes = false) : m.state = s.state := by
  cases c with
  | write next => cases hc
  | prepareWorkspace | createContainer =>
    dsimp only [exec] at h
    split at h
    · cases h
    · cases h
      rfl
  | _ =>
    cases h
    rfl

theorem safe_transition_legal (next : State) (s : World) :
    (transition next).Safe exec (fun _ => True) Waits (fun _ s u => Legal s.state u.state) (fun _ _ => True)
      (fun _ _ => True) s := by
  intro t _ _ _ e valid u he
  cases he
  refine ⟨trivial, legal_refl _, ?_⟩
  dsimp only [Code.bind]
  split
  · next hvalid =>
    intro t' hR _ _ e ok u' he
    cases he
    refine ⟨trivial, legal_refl _, ?_⟩
    dsimp only [Code.bind]
    split
    · intro t'' hR' _ _ e _ u'' he
      cases he
      refine ⟨trivial, legal_of_validate ?_, trivial⟩
      show validateTransition t''.state next = true
      rw [hR' rfl, hR rfl]
      exact hvalid
    · trivial
  · trivial

abbrev LifecycleInv : Sys World (Code.Thread State Cmd Cmd.Ans Bool) → Prop :=
  Code.SafeSys exec (fun _ => True) (fun _ => Waits) (fun _ _ s u => Legal s.state u.state) (fun _ _ _ => True)
    fun _ _ _ => True

theorem lifecycleInv_next (sys : Sys World (Code.Thread State Cmd Cmd.Ans Bool)) (l : Act State Choice)
    (sys' : Sys World (Code.Thread State Cmd Cmd.Ans Bool)) (hi : LifecycleInv sys) (hC : Exclusive sys l)
    (hn : transitions.next sys l = some sys') : LifecycleInv sys' := by
  refine Code.safe_next (D := Exclusive) (fun _ _ _ _ => rfl) (fun _ c a b d hab hbd hc => (hbd hc).trans (hab hc))
    (fun sys i next _ _ => safe_transition_legal next sys.shared)
    (fun _ _ _ _ _ _ _ _ => trivial) ?_ sys l sys' hi hC hn
  intro sys i e t c a m hD hp hnext he _ j u hj hu
  refine ⟨fun _ _ => trivial, fun d hd hbetween => state_exec he ?_⟩
  by_contra hwrites
  -- a write would find the other call between its validation and its write
  have hquiet := hD t hp (by rw [hnext]; exact Bool.not_eq_false _ ▸ hwrites) j u hj hu
  rw [hd] at hquiet
  exact absurd (hbetween.symm.trans hquiet) Bool.noConfusion

/-- **The states of a session are a path of the lifecycle graph**, when no call writes between the steps of
another. -/
theorem lifecycle_legal (w : World) {acts : List (Act State Choice)}
    (hC : Along transitions.next Exclusive (idle w) acts) : Along transitions.next
      (fun sys l => ∀ sys', transitions.next sys l = some sys' → Legal sys.shared.state sys'.shared.state)
      (idle w) acts := by
  have hinv : Along transitions.next (fun sys _ => LifecycleInv sys) (idle w) acts :=
    along_inv lifecycleInv_next (inv_idle trivial) hC
  refine along_mono (fun sys l hi sys' hn => ?_) _ _ hinv
  cases l with
  | spawn i next =>
    obtain ⟨-, rfl⟩ := next_spawn hn
    exact legal_refl _
  | step i e =>
    obtain ⟨t, t', m, hp, hs, rfl⟩ := next_step hn
    obtain ⟨c, k, a, hcode, he, rfl⟩ := Code.prog_step hs
    exact (Code.safe_step (fun _ _ _ _ => rfl) hi hp hcode trivial he).2.1

def orderlyRun : List (Act State Choice) :=
  [.spawn 0 .cleaning, .step 0 {}, .step 0 {}, .spawn 1 .running, .step 0 {}, .step 1 {}, .spawn 2 .destroyed,
    .step 2 {}, .step 2 {}, .step 2 {}]

theorem lifecycle_legal_orderlyRun :
    (∃ sys ∈ run transitions.next (idle { state := .executing }) orderlyRun, sys.shared.state = .destroyed) ∧
    Along transitions.next
      (fun sys l => ∀ sys', transitions.next sys l = some sys' → Legal sys.shared.state sys'.shared.state)
      (idle { state := .executing }) orderlyRun := by
  refine ⟨by decide +kernel, lifecycle_legal _ ?_⟩
  exact along_pairs (n := 3)
    (D := fun _ i t j u => j ≠ i → t.next.any Cmd.writes = true → u.next.any Cmd.between = false) (fun _ _ _ => trivial)
    (fun _ _ _ h t ht hw j u hj hu => h t j u ht hu hj hw) (by decide) (by decide +kernel)

/-- the coordinator's `Transition` to running has validated when a teardown runs to its end -/
def revivedRun : List (Act State Choice) :=
  [.spawn 0 .running, .step 0 {}, .spawn 1 .cleaning, .step 1 {}, .step 1 {}, .step 1 {}, .spawn 2 .destroyed,
    .step 2 {}, .step 2 {}, .step 2 {}, .step 0 {}]

theorem destroyed_revived :
    ∃ sys ∈ run transitions.next (idle { state := .executing }) revivedRun, sys.shared.state = .destroyed ∧
      ∃ sys' ∈ transitions.next sys (.step 0 {}), sys'.shared.state = .running := by
  decide +kernel

end Sandbox
