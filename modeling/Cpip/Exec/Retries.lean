import Cpip.Exec.Steps

/-!
# Execution orchestrator: the retry ceiling

`Retry` checks the ceiling on a snapshot of the job and raises the counter in a later transition.

* `Exclusive`  a counter is raised when no other `Retry` of the job is between its check and its transition;
* `retries_bounded`  **then no job is retried more often than its ceiling allows**.
-/

namespace Exec

open Pool Lts

/-- the job whose counter the next step of the call raises -/
def Pc.raises : Pc → Option String
  | .retryMark id => some id
  | _ => none

def Exclusive (sys : Sys Orchestrator Pc) : Act Call Ans → Prop
  | .spawn _ _ => True
  | .step i _ => ∀ t id, sys.pool i = some t → t.raises = some id →
      ∀ j u, j ≠ i → sys.pool j = some u → u.raises ≠ some id

section
variable {d : Deps} {s s' : Orchestrator} {pc pc' : Pc} {a : Ans}

/-! ## what a step does to a counter -/

/-- where a job comes from: it is new, or it was there and its counter was raised by at most `n` -/
def Stems (d : Deps) (old : Option Job) (n : Nat) (j : Job) : Prop :=
  (∃ x, old = some x ∧ j.maxRetries = x.maxRetries ∧ j.retryCount ≤ x.retryCount + n) ∨
    j.retryCount = 0 ∧ j.maxRetries = d.maxRetries

section
variable {r r' : Registry} {id : String} {j : Job} {n : Nat}

theorem stems_same (hj : r id = some j) : Stems d (r id) n j := .inl ⟨j, hj, rfl, Nat.le_add_right _ _⟩

theorem stems_update {i : String} {x : Option Job} (hj : Function.update r i x id = some j)
    (hx : id = i → x = some j → Stems d (r id) n j) : Stems d (r id) n j := by
  by_cases hi : id = i
  · subst hi
    rw [Function.update_self] at hj
    exact hx rfl hj
  · rw [Function.update_of_ne hi] at hj
    exact stems_same hj

theorem stems_transition {i : String} {t : State} {f : Job → Job} (h : r.transition i t f = .ok r')
    (hf : ∀ x : Job, (f x).maxRetries = x.maxRetries ∧ (id = i → (f x).retryCount ≤ x.retryCount + n))
    (hj : r' id = some j) : Stems d (r id) n j := by
  obtain ⟨x, hx, -, rfl⟩ := Registry.transition_ok h
  refine stems_update hj fun hi hnew => ?_
  cases hnew
  exact .inl ⟨x, hi ▸ hx, (hf _).1, (hf _).2 hi⟩

end

/-- **Only the transition of a `Retry` raises a counter.** -/
theorem next_stems (h : pc.next d s a = some (pc', s')) {id : String} {j : Job} (hj : s'.reg id = some j) :
    Stems d (s.reg id) (if pc.raises = some id then 1 else 0) j := by
  cases pc
  case add req i =>
    simp only [Pc.next, Registry.add] at h
    split at h
    · rename_i r hr
      split at hr
      · cases hr
      cases hr
      cases h
      refine stems_update hj fun _ hnew => ?_
      cases hnew
      exact .inr ⟨rfl, rfl⟩
    · cases h
      exact stems_same hj
  case archiveRemove i sink =>
    cases h
    exact stems_update hj fun _ hnew => by cases hnew
  case advance m i =>
    simp only [Pc.next] at h
    split at h
    · rename_i r hr
      cases h
      exact stems_transition hr (fun x => by cases m <;> exact ⟨rfl, fun _ => Nat.le_add_right _ _⟩) hj
    · cases h
      exact stems_same hj
  case retryMark i =>
    simp only [Pc.next] at h
    split at h
    · rename_i r hr
      cases h
      refine stems_transition hr (fun x => ⟨rfl, ?_⟩) hj
      rintro rfl
      exact Nat.le_of_eq (by rw [Pc.raises, if_pos rfl])
    all_goals
      cases h
      exact stems_same hj
  all_goals cases a
  all_goals simp only [Pc.next] at h
  all_goals repeat' split at h
  all_goals cases h
  all_goals first
    | exact stems_same hj
    | refine stems_transition ‹_› ?_ hj
      exact fun x => ⟨rfl, fun _ => Nat.le_add_right _ _⟩

/-- a call is about to raise a counter when it has just found it below the ceiling -/
theorem next_raises {id : String} (h : pc.next d s a = some (pc', s')) (hr : pc'.raises = some id) :
    s' = s ∧ ∃ j, s.reg id = some j ∧ (j.retryCount : Int) < j.maxRetries := by
  cases pc
  case retryGet i =>
    simp only [Pc.next] at h
    split at h
    · cases h
      cases hr
    rename_i j hj
    split at h
    · cases h
      cases hr
    split at h
    · cases h
      cases hr
    rename_i hlt
    cases h
    cases hr
    exact ⟨rfl, j, hj, Int.not_le.mp hlt⟩
  case persist snap k =>
    cases h
    cases k <;> cases hr
  case archiveRelease i sink snap =>
    cases h
    cases sink <;> cases hr
  all_goals cases a
  all_goals simp only [Pc.next] at h
  all_goals repeat' split at h
  all_goals cases h
  all_goals cases hr

/-! ## the ceiling -/

def Within (d : Deps) (s : Orchestrator) : Prop :=
  ∀ id j, s.reg id = some j → j.maxRetries = d.maxRetries ∧ (j.retryCount : Int) ≤ j.maxRetries

def Room (d : Deps) (s : Orchestrator) (pc : Pc) : Prop :=
  ∀ id, pc.raises = some id → (0 : Int) < d.maxRetries ∧ ∀ j, s.reg id = some j → (j.retryCount : Int) < j.maxRetries

theorem entry_raises (c : Call) : c.entry.raises = none := by
  rcases c with _ | _ | _ | ⟨m, _⟩ | _
  case mark => cases m <;> rfl
  all_goals rfl

/-- **No job is retried more often than its ceiling allows**, when no two `Retry` calls overlap at the counter. -/
theorem retries_bounded (hd : 0 ≤ d.maxRetries) {acts : List (Act Call Ans)} {sys : Sys Orchestrator Pc}
    (hC : Along (orchestrator d).next Exclusive (idle {}) acts)
    (hr : run (orchestrator d).next (idle {}) acts = some sys) {id : String} {j : Job}
    (hj : sys.shared.reg id = some j) : (j.retryCount : Int) ≤ j.maxRetries := by
  refine ((inv_run (C := Exclusive) (G := Within d) (L := Room d) (R := fun _ _ _ => True) ⟨?_, ?_⟩
    (inv_idle fun _ _ h => by cases h) hC hr).shared id j hj).2
  · refine fun s i c _ _ => ⟨fun id hid => ?_, fun _ _ _ => ⟨trivial, trivial⟩⟩
    cases (entry_raises c).symm.trans hid
  intro s i a t t' m hinv hex ht hn
  refine keeps_each (fun id j hj => ?_) (fun id hid => ?_) fun k u hk hu id hid => ?_
  · obtain ⟨x, hx, hmax, hcount⟩ | ⟨h0, hmax⟩ := next_stems hn hj
    · obtain ⟨hd', hle⟩ := hinv.shared id x hx
      refine ⟨hmax.trans hd', ?_⟩
      by_cases hrise : t.raises = some id
      · have hlt := (hinv.each i t ht id hrise).2 x hx
        rw [if_pos hrise] at hcount
        omega
      · rw [if_neg hrise] at hcount
        omega
    · exact ⟨hmax, by omega⟩
  · obtain ⟨rfl, x, hx, hlt⟩ := next_raises hn hid
    have hd' := (hinv.shared id x hx).1
    refine ⟨by omega, fun j hj => ?_⟩
    cases hx.symm.trans hj
    exact hlt
  · obtain ⟨hpos, hlt⟩ := hinv.each k u hu id hid
    refine ⟨hpos, fun j hj => ?_⟩
    obtain ⟨x, hx, hmax, hcount⟩ | ⟨h0, hmax⟩ := next_stems hn hj
    · have hbelow := hlt x hx
      rw [if_neg fun hrise => hex t id ht hrise k u hk hu hid] at hcount
      omega
    · omega

end

/-! ## runs -/

def failing (i : Nat) (id : String) : List (Act Call Ans) :=
  call i (.mark (.dispatched "w") id) 4 ++ call (i + 1) (.mark .failed id) 3

def retriedRun : List (Act Call Ans) :=
  call 0 (.submitted "j") 8 ++ failing 1 "j" ++ call 3 (.retry "j") 7

theorem retries_bounded_retriedRun : ∃ sys ∈ run (orchestrator { maxRetries := 1 }).next (idle {}) retriedRun,
      ∃ j ∈ sys.shared.reg "j", j.retryCount = 1 ∧ (j.retryCount : Int) ≤ j.maxRetries := by
  have hC : Along (orchestrator { maxRetries := 1 }).next Exclusive (idle {}) retriedRun :=
    along_pairs (n := 4) (D := fun _ i t j u => j ≠ i → ∀ id ∈ t.raises, u.raises ≠ some id) (fun _ _ _ => trivial)
      (fun _ _ _ h t id ht hid j u hj hu => h t j u ht hu hj id hid) (by decide) (by decide +kernel)
  have hend : ∃ sys ∈ run (orchestrator { maxRetries := 1 }).next (idle {}) retriedRun,
      ∃ j ∈ sys.shared.reg "j", j.retryCount = 1 := by decide +kernel
  obtain ⟨sys, hr, j, hj, h1⟩ := hend
  exact ⟨sys, hr, j, hj, h1, retries_bounded (by decide) hC hr hj⟩

/-- **Two retries that both find the counter below the ceiling raise it beyond**, one after the job failed again. -/
theorem ceiling_passed : ∃ sys ∈ run (orchestrator { maxRetries := 1 }).next (idle {})
        (call 0 (.submitted "j") 8 ++ failing 1 "j" ++ call 3 (.retry "j") 1 ++ call 4 (.retry "j") 7 ++
          failing 5 "j" ++ steps 3 6),
      ∃ j ∈ sys.shared.reg "j", j.retryCount = 2 ∧ j.maxRetries = 1 := by
  decide +kernel

end Exec
