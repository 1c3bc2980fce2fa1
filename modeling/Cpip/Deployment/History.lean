import Cpip.Lib.Run

/-!
# Deployment: the history of revisions

`deployment/manager` under one profile: every deployment that reaches the provider is recorded as a revision, also one
that failed, and the active version is read off the last revision.

* `history_tracks`  **status names the revision that runs**, see also `failed_revision_active`.
-/

namespace Deployment

open List Lts

variable {σ : Type}

/-- `rollback.Snapshot`; `success` is its status -/
structure Snapshot (σ : Type) where
  version : Nat
  services : σ
  success : Bool

/-- the manager; `running` is what the provider runs and its revision, `deployed` the revisions that succeeded -/
structure Manager (σ : Type) where
  applyProfile : σ → Option σ
  validationEnabled : Bool
  validate : σ → Bool
  limits : Nat
  version : Nat := 0
  history : List (Snapshot σ) := []
  running : Option (Nat × σ) := none
  deployed : List (Nat × σ) := []

variable (m : Manager σ)

def Manager.historyLimit : Nat := if m.limits = 0 then 10 else m.limits

variable (services : σ)

def Manager.recordSnapshot (success : Bool) : Manager σ :=
  let list := m.history ++ [⟨m.version + 1, services, success⟩]
  { m with version := m.version + 1, history := list.drop (list.length - m.historyLimit) }

def Manager.redeployed : Manager σ :=
  { m.recordSnapshot services true with
    running := some (m.version + 1, services)
    deployed := m.deployed ++ [(m.version + 1, services)] }

def Manager.valid : Bool := !m.validationEnabled || m.validate services

/-- `Deploy`, and `Update`; `ok` is the answer of the provider -/
def Manager.deploy (ok : Bool) : Manager σ :=
  match m.applyProfile services with
  | none => m
  | some resolved =>
    if m.valid resolved = false then m
    else if ok then m.redeployed resolved
    else m.recordSnapshot resolved false

def Manager.getByVersion (version : Nat) : Option (Snapshot σ) := m.history.find? (·.version = version)

/-- `Rollback`; `none` when it fails -/
def Manager.rollback (target : Nat) (ok : Bool) : Option (Manager σ) :=
  match m.getByVersion target with
  | none => none
  | some snap => if m.valid snap.services = true ∧ ok = true then some (m.redeployed snap.services) else none

def Manager.current : Option (Snapshot σ) := m.history.getLast?

/-- the `ActiveVersion` of `Status`, when the provider answers with its own -/
def Manager.status (own : Nat) : Nat := m.current.elim own (·.version)

inductive Call (σ : Type) where
  | deploy (services : σ) (ok : Bool)
  | update (services : σ) (ok : Bool)
  | rollback (target : Nat) (ok : Bool)

def step : Call σ → Option (Manager σ)
  | .deploy services ok => some (m.deploy services ok)
  | .update services ok => some (m.deploy services ok)
  | .rollback target ok => some ((m.rollback target ok).getD m)

/-! ## what the history says -/

/-- a successful revision was deployed, and one that is the last is what runs -/
structure Tracks (m : Manager σ) : Prop where
  deployed : ∀ snap ∈ m.history, snap.success = true → (snap.version, snap.services) ∈ m.deployed
  running : ∀ snap, m.current = some snap → snap.success = true → m.running = some (snap.version, snap.services)
  empty : m.current = none → m.running = none

section
variable {m : Manager σ}

theorem current_recordSnapshot (m : Manager σ) (services : σ) (success : Bool) :
    (m.recordSnapshot services success).current = some ⟨m.version + 1, services, success⟩ := by
  have hlimit : 0 < m.historyLimit := by
    unfold Manager.historyLimit
    split <;> omega
  unfold Manager.current Manager.recordSnapshot
  rw [getLast?_drop, if_neg (by rw [length_append, length_singleton]; omega), getLast?_concat]

theorem mem_recordSnapshot {services : σ} {success : Bool} {snap : Snapshot σ}
    (h : snap ∈ (m.recordSnapshot services success).history) :
    snap ∈ m.history ∨ snap = ⟨m.version + 1, services, success⟩ := by
  have hmem : snap ∈ m.history ++ [⟨m.version + 1, services, success⟩] := mem_of_mem_drop h
  exact (mem_append.mp hmem).imp_right mem_singleton.mp

theorem tracks_deployed (h : Tracks m) (services : σ) : Tracks (m.redeployed services) := by
  have hcur : (m.redeployed services).current = some ⟨m.version + 1, services, true⟩ :=
    current_recordSnapshot m services true
  refine ⟨fun snap hs hok => ?_, fun snap hs _ => ?_, fun hs => ?_⟩
  · show (snap.version, snap.services) ∈ m.deployed ++ [(m.version + 1, services)]
    rcases mem_recordSnapshot hs with hold | rfl
    · exact mem_append_left _ (h.deployed snap hold hok)
    · exact mem_append_right _ (mem_singleton.mpr rfl)
  · cases hcur.symm.trans hs
    rfl
  · cases hcur.symm.trans hs

theorem tracks_failed (h : Tracks m) (services : σ) : Tracks (m.recordSnapshot services false) := by
  have hcur := current_recordSnapshot m services false
  refine ⟨fun snap hs hok => ?_, fun snap hs hok => ?_, fun hs => ?_⟩
  · rcases mem_recordSnapshot hs with hold | rfl
    · exact h.deployed snap hold hok
    · cases hok
  · cases hcur.symm.trans hs
    cases hok
  · cases hcur.symm.trans hs

theorem tracks_deploy (h : Tracks m) (services : σ) (ok : Bool) : Tracks (m.deploy services ok) := by
  unfold Manager.deploy
  split
  · exact h
  split
  · exact h
  split
  · exact tracks_deployed h _
  · exact tracks_failed h _

theorem rollback_some {target : Nat} {ok : Bool} {m' : Manager σ} (h : m.rollback target ok = some m') :
    ∃ snap, m.getByVersion target = some snap ∧ m' = m.redeployed snap.services := by
  unfold Manager.rollback at h
  split at h
  · cases h
  next snap hsnap =>
  split at h
  · cases h
    exact ⟨snap, hsnap, rfl⟩
  · cases h

end

theorem tracks_step (c : Call σ) (m' : Manager σ) (h : Tracks m) (hs : step m c = some m') : Tracks m' := by
  cases c with
  | deploy services ok | update services ok =>
    cases hs
    exact tracks_deploy h services ok
  | rollback target ok =>
    cases hs
    cases hr : m.rollback target ok with
    | none => exact h
    | some m' =>
      obtain ⟨snap, -, rfl⟩ := rollback_some hr
      exact tracks_deployed h snap.services

/-- **The history tracks what runs**, whatever the provider answers. -/
theorem history_tracks (m₀ : Manager σ) (hhist : m₀.history = []) (hrunning : m₀.running = none) {calls : List (Call σ)}
    {m : Manager σ} (hrun : run step m₀ calls = some m) : ((∀ snap, m.current = some snap → snap.success = true) →
      ∀ own version services, m.running = some (version, services) → m.status own = version) ∧
    ∀ target ok m', m.rollback target ok = some m' →
      ∃ snap, m.getByVersion target = some snap ∧ m'.running = some (m.version + 1, snap.services) ∧
        (snap.success = true → (target, snap.services) ∈ m.deployed) := by
  have h0 : Tracks m₀ := by
    refine ⟨fun snap hs => ?_, fun snap hs => ?_, fun _ => hrunning⟩
    · rw [hhist] at hs
      cases hs
    unfold Manager.current at hs
    rw [hhist] at hs
    cases hs
  have htracks : Tracks m := run_inv_all tracks_step h0 hrun
  refine ⟨fun hok own version services hr => ?_, fun target ok m' hr => ?_⟩
  · unfold Manager.status
    cases hcur : m.current with
    | none => cases (htracks.empty hcur).symm.trans hr
    | some snap =>
      cases (htracks.running snap hcur (hok snap hcur)).symm.trans hr
      rfl
  · obtain ⟨snap, hsnap, rfl⟩ := rollback_some hr
    refine ⟨snap, hsnap, rfl, fun hok => ?_⟩
    have hversion : snap.version = target := by simpa using find?_some hsnap
    have hmem := htracks.deployed snap (mem_of_find?_eq_some hsnap) hok
    rw [hversion] at hmem
    exact hmem

def texts : Manager String where
  applyProfile s := some s
  validationEnabled := true
  validate s := s ≠ ""
  limits := 2

def backAndForth : List (Call String) := [.deploy "a" true, .update "b" true, .rollback 1 true, .rollback 2 false]

theorem history_tracks_backAndForth :
    ∃ m, run step texts backAndForth = some m ∧ m.running = some (3, "a") ∧ m.status 0 = 3 := by
  have hrun : ∃ m ∈ run step texts backAndForth, m.running = some (3, "a") ∧
      ∀ snap ∈ m.current, snap.success = true := by decide +kernel
  obtain ⟨m, hrun, hr, hok⟩ := hrun
  exact ⟨m, hrun, hr, (history_tracks texts rfl rfl hrun).1 hok 0 3 "a" hr⟩

/-- a failed deployment is reported as active, and a rollback to it deploys services that never ran -/
theorem failed_revision_active : ∃ m ∈ run step texts [.deploy "a" true, .deploy "b" false],
      m.running = some (1, "a") ∧ m.status 0 = 2 ∧
      ∃ m' ∈ m.rollback 2 true, m'.running = some (3, "b") ∧ (2, "b") ∉ m'.deployed := by
  decide +kernel

end Deployment
