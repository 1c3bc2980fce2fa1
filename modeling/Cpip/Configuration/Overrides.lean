import Cpip.Configuration.Resolve
import Cpip.Lib.Run

/-!
# Configuration: overrides, loads and rollbacks

The current configuration is kept twice: as the last snapshot of the version history and as the runtime overrides.

* `override_frame`  **an override changes one key**, see also `override_brings_others`;
* `refused_override`  what a refused override leaves.
-/

namespace Configuration

open Lts

def Manager.reloaded (R : Ranges Key String) (m : Manager) : Manager := (m.load R).elim m (·.2)

variable (m : Manager)

def Manager.setOverride (key : Key) (value : String) : Manager :=
  { m with overrides := m.overrides.insert key value }

def Manager.removeOverride (key : Key) : Manager := { m with overrides := m.overrides.erase key }

def Manager.getByVersion (version : Nat) : Option Snapshot := m.history.find? (·.version = version)

/-- `Manager.Rollback`; `none` when the version is not kept or fails the validation -/
def Manager.rollback (version : Nat) : Option (Snapshot × Manager) :=
  match m.getByVersion version with
  | none => none
  | some target =>
    if m.enableValidation ∧ m.validate target.data = false then none else some (m.recordSnapshot target.data)

inductive Call where
  | load (R : Ranges Key String)
  | setOverride (R : Ranges Key String) (key : Key) (value : String)
  | removeOverride (R : Ranges Key String) (key : Key)
  | rollback (version : Nat)

/-- `fresh`, which no call reads: the last snapshot is of a load, and no override was refused since -/
structure State where
  manager : Manager
  fresh : Bool := false

def State.loaded (R : Ranges Key String) (m : Manager) : State := ⟨m.reloaded R, (m.load R).isSome⟩

def step (s : State) : Call → Option State
  | .load R => some (if (s.manager.load R).isSome then State.loaded R s.manager else s)
  | .setOverride R key value => some (State.loaded R (s.manager.setOverride key value))
  | .removeOverride R key => some (State.loaded R (s.manager.removeOverride key))
  | .rollback version => some ((s.manager.rollback version).elim s fun r => ⟨r.2, false⟩)

/-! ## the last snapshot -/

def Manager.provided (key : Key) : Option String :=
  m.registry.providers.findSome? (Provider.answer (getInheritanceChain m.active) key)

/-- the last snapshot is what the providers and the overrides give -/
def Agrees : Prop :=
  ∃ cur, m.current = some cur ∧ ∀ key, cur.data.lookup key = (m.overrides.lookup key).or (m.provided key)

theorem current_record (data : Data) :
    (m.recordSnapshot data).2.current = some (m.recordSnapshot data).1 := by
  have hlimit : 0 < m.versionLimit := by
    unfold Manager.versionLimit
    split <;> omega
  unfold Manager.current Manager.recordSnapshot
  rw [List.getLast?_drop, if_neg (by rw [List.length_append, List.length_singleton]; omega), List.getLast?_concat]

variable {R : Ranges Key String} {m m' : Manager} {snap : Snapshot}

section
variable (h : m.load R = some (snap, m'))
include h

theorem load_ok : (snap, m') = m.recordSnapshot (m.loadData R) := by
  unfold Manager.load at h
  split at h
  · cases h
  · exact (Option.some.inj h).symm

theorem current_load :
    m'.current = some snap ∧ ∀ key, snap.data.lookup key = (m.overrides.lookup key).or (m.provided key) := by
  have hok := load_ok h
  refine ⟨?_, fun key => ?_⟩
  · have hcur := current_record m (m.loadData R)
    rw [← hok] at hcur
    exact hcur
  · rw [load_data h, lookup_load]
    rfl

theorem load_keeps : m'.overrides = m.overrides ∧ m'.provided = m.provided := by
  have hok := load_ok h
  have hm : m' = (m.recordSnapshot (m.loadData R)).2 := congrArg Prod.snd hok
  rw [hm]
  exact ⟨rfl, rfl⟩

theorem agrees_load : Agrees m' := by
  obtain ⟨hcur, hlookup⟩ := current_load h
  obtain ⟨hover, hprov⟩ := load_keeps h
  refine ⟨snap, hcur, fun key => ?_⟩
  rw [hover, hprov]
  exact hlookup key

end

theorem agrees_loaded (h : (State.loaded R m).fresh = true) : Agrees (State.loaded R m).manager := by
  obtain ⟨⟨snap, m'⟩, hload⟩ := Option.isSome_iff_exists.mp h
  have hm : m.reloaded R = m' := by
    unfold Manager.reloaded
    rw [hload]
    rfl
  show Agrees (m.reloaded R)
  rw [hm]
  exact agrees_load hload

theorem agrees_step (s : State) (c : Call) (s' : State) (hi : s.fresh = true → Agrees s.manager)
    (h : step s c = some s') : s'.fresh = true → Agrees s'.manager := by
  cases c with
  | load R =>
    cases h
    split
    · exact agrees_loaded
    · exact hi
  | setOverride R key value | removeOverride R key =>
    cases h
    exact agrees_loaded
  | rollback version =>
    cases h
    cases s.manager.rollback version with
    | none => exact hi
    | some r => exact fun h => (by cases h)

/-! ## the frame -/

theorem lookup_setOverride {cur : Snapshot} {key : Key} {value : String}
    (hcur : ∀ k, cur.data.lookup k = (m.overrides.lookup k).or (m.provided k))
    (h : (m.setOverride key value).load R = some (snap, m')) (k : Key) :
    snap.data.lookup k = if k = key then some value else cur.data.lookup k := by
  rw [(current_load h).2 k]
  show ((m.overrides.insert key value).lookup k).or (m.provided k) = _
  split
  · next hk =>
    rw [hk, AList.lookup_insert]
    rfl
  · next hk => rw [AList.lookup_insert_ne hk, hcur k]

theorem lookup_removeOverride {cur : Snapshot} {key : Key}
    (hcur : ∀ k, cur.data.lookup k = (m.overrides.lookup k).or (m.provided k))
    (h : (m.removeOverride key).load R = some (snap, m')) {k : Key} (hk : k ≠ key) :
    snap.data.lookup k = cur.data.lookup k := by
  rw [(current_load h).2 k]
  show ((m.overrides.erase key).lookup k).or (m.provided k) = _
  rw [AList.lookup_erase_ne hk, hcur k]

/-- **An override changes one key**, after every history at whose end the last snapshot is fresh. -/
theorem override_frame (m₀ : Manager) {calls : List Call} {s : State} (hrun : run step ⟨m₀, false⟩ calls = some s)
    (hfresh : s.fresh = true) : ∃ cur, s.manager.current = some cur ∧
      (∀ (R : Ranges Key String) (key : Key) (value : String), ((s.manager.setOverride key value).load R).isSome →
        ∃ snap, ((s.manager.setOverride key value).reloaded R).current = some snap ∧
          ∀ k, snap.data.lookup k = if k = key then some value else cur.data.lookup k) ∧
      ∀ (R : Ranges Key String) (key : Key), ∃ snap, ((s.manager.removeOverride key).reloaded R).current = some snap ∧
        ∀ k, k ≠ key → snap.data.lookup k = cur.data.lookup k := by
  have hinv : s.fresh = true → Agrees s.manager :=
    run_inv_all agrees_step (fun h => (by cases h)) hrun
  obtain ⟨cur, hcur, hlookup⟩ := hinv hfresh
  refine ⟨cur, hcur, fun R key value hok => ?_, fun R key => ?_⟩
  · obtain ⟨⟨snap, m'⟩, hload⟩ := Option.isSome_iff_exists.mp hok
    refine ⟨snap, ?_, lookup_setOverride hlookup hload⟩
    unfold Manager.reloaded
    rw [hload]
    exact (current_load hload).1
  · unfold Manager.reloaded
    cases hload : (s.manager.removeOverride key).load R with
    | none => exact ⟨cur, hcur, fun k _ => rfl⟩
    | some r =>
      obtain ⟨snap, m'⟩ := r
      exact ⟨snap, (current_load hload).1, fun k hk => lookup_removeOverride hlookup hload hk⟩

def oneProvider : Registry where
  providers := [⟨"file", 1, some (dataOf [("a", "1")])⟩]
  names := by decide
  sorted := by decide

def dependent : Manager where
  registry := oneProvider
  active := development
  enableValidation := true
  validate data := (data.lookup "c".toList).isNone || (data.lookup "b".toList).isSome
  maxVersions := 10

theorem override_frame_afterRollback : ∃ s cur, run step ⟨dependent, false⟩
        [.load listOrder, .setOverride listOrder "a".toList "2", .rollback 1, .load listOrder] = some s ∧
      s.manager.current = some cur ∧
      ∃ snap, ((s.manager.setOverride "b".toList "x").reloaded listOrder).current = some snap ∧
        ∀ k, snap.data.lookup k = if k = "b".toList then some "x" else cur.data.lookup k := by
  have hrun : ∃ s ∈ run step ⟨dependent, false⟩
      [.load listOrder, .setOverride listOrder "a".toList "2", .rollback 1, .load listOrder],
      s.fresh = true ∧ ((s.manager.setOverride "b".toList "x").load listOrder).isSome := by decide +kernel
  obtain ⟨s, hrun, hfresh, hok⟩ := hrun
  obtain ⟨cur, hcur, hset, -⟩ := override_frame dependent hrun hfresh
  exact ⟨s, cur, hrun, hcur, hset listOrder _ _ hok⟩

def State.value (s : State) (key : String) : Option String :=
  s.manager.current.bind fun cur => cur.data.lookup key.toList

/-- after a rollback, and after an override that was refused, an override of `b` changes another key -/
theorem override_brings_others :
    (∃ s ∈ run step ⟨dependent, false⟩ [.load listOrder, .setOverride listOrder "a".toList "2", .rollback 1],
      s.value "a" = some "1" ∧
      ∃ s' ∈ step s (.setOverride listOrder "b".toList "x"), s'.value "b" = some "x" ∧ s'.value "a" = some "2") ∧
    ∃ s ∈ run step ⟨dependent, false⟩ [.load listOrder, .setOverride listOrder "c".toList "3"],
      s.value "c" = none ∧
      ∃ s' ∈ step s (.setOverride listOrder "b".toList "x"), s'.value "b" = some "x" ∧ s'.value "c" = some "3" := by
  decide +kernel

/-! ## a refused override -/

/-- **A refused override leaves the snapshot, and the rest exactly when it sets what is live already.** -/
theorem refused_override (s : State) (R : Ranges Key String) (key : Key) (value : String)
    (hrefused : (s.manager.setOverride key value).load R = none) :
    ∃ s' ∈ step s (.setOverride R key value), s'.manager.current = s.manager.current ∧
      ((∀ k, s'.manager.overrides.lookup k = s.manager.overrides.lookup k) ∧
        (∀ R' k, (s'.manager.loadData R').lookup k = (s.manager.loadData R').lookup k) ↔
        s.manager.overrides.lookup key = some value) := by
  have hstay : (s.manager.setOverride key value).reloaded R = s.manager.setOverride key value := by
    unfold Manager.reloaded
    rw [hrefused]
    rfl
  refine ⟨_, rfl, ?_⟩
  show ((s.manager.setOverride key value).reloaded R).current = _ ∧ _
  rw [State.loaded, hstay]
  refine ⟨rfl, fun h => ?_, fun hlive => ?_⟩
  · rw [← h.1 key]
    exact AList.lookup_insert _
  have hover : ∀ k, (s.manager.setOverride key value).overrides.lookup k = s.manager.overrides.lookup k := by
    intro k
    show (s.manager.overrides.insert key value).lookup k = _
    by_cases hk : k = key
    · rw [hk, AList.lookup_insert, hlive]
    · exact AList.lookup_insert_ne hk
  refine ⟨hover, fun R' k => ?_⟩
  rw [lookup_load, lookup_load, hover]
  rfl

theorem refused_override_again :
    ∃ s ∈ run step ⟨dependent, false⟩ [.load listOrder, .setOverride listOrder "c".toList "3"],
      ∃ s' ∈ step s (.setOverride listOrder "c".toList "3"), s'.manager.current = s.manager.current ∧
        ∀ k, s'.manager.overrides.lookup k = s.manager.overrides.lookup k := by
  have hrun : ∃ s ∈ run step ⟨dependent, false⟩ [.load listOrder, .setOverride listOrder "c".toList "3"],
      (s.manager.setOverride "c".toList "3").load listOrder = none ∧
        s.manager.overrides.lookup "c".toList = some "3" := by decide +kernel
  obtain ⟨s, hs, hrefused, hlive⟩ := hrun
  obtain ⟨s', hs', hcur, hiff⟩ := refused_override s listOrder _ _ hrefused
  exact ⟨s, hs, s', hs', hcur, (hiff.mpr hlive).1⟩

/-- an override that is refused stays, and the next load is refused for it -/
theorem refused_override_stays : ∃ s ∈ run step ⟨dependent, false⟩ [.load listOrder],
    (s.manager.load listOrder).isSome ∧ ((s.manager.setOverride "c".toList "3").load listOrder).isNone ∧
      ∃ s' ∈ step s (.setOverride listOrder "c".toList "3"),
        s'.manager.overrides.lookup "c".toList = some "3" ∧ (s'.manager.load listOrder).isNone := by
  decide +kernel

end Configuration
