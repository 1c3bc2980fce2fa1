import Cpip.Exec.Job
import Cpip.Lib.Index
import Cpip.Lib.Run

/-!
# Execution orchestrator: the indexes of the live registry

`registry.Registry` keeps the live jobs in one map and their identifiers in five indexes.

* `Maps`  the six maps; `view_add`, … relate them to `Registry`;
* `Sound`  each index is the index of the live jobs by its field, kept by every operation;
* `maps_agree`  **the queries and `Stats` read the live jobs** after every sequence of operations.
-/

namespace Exec

open Index Lts

def State.isFinished : State → Bool
  | .completed | .failed | .timedOut | .cancelled | .archived => true
  | _ => false

structure Maps where
  byID : AList fun _ : String => Job := ∅
  byUser : Index String String Unit := ∅
  byRoom : Index String String Unit := ∅
  bySession : Index String String Unit := ∅
  byLang : Index String String Unit := ∅
  byState : Index State String Unit := ∅

/-- `Registry.Stats`; the map by state is a list of its entries -/
structure Stats where
  total : Nat
  byState : List (State × Nat) := []
  activeJobs : Nat := 0
  finishedJobs : Nat := 0
deriving DecidableEq

namespace Maps

open Index (named)

variable (r : Maps)

def add (j : Job) : Except Err Maps :=
  match r.byID.lookup j.id with
  | some _ => .error .duplicateJob
  | none => .ok {
      byID := r.byID.insert j.id j
      byUser := r.byUser.enter (named j.userID) j.id
      byRoom := r.byRoom.enter (named j.roomID) j.id
      bySession := r.bySession.enter (named j.sessionID) j.id
      byLang := r.byLang.enter (named j.language) j.id
      byState := r.byState.add j.state j.id () }

/-- the previous state with the registry after it -/
def transition (id : String) (t : State) (mutate : Job → Job) : Except Err (State × Maps) :=
  match r.byID.lookup id with
  | none => .error .jobNotFound
  | some j =>
    if canTransition j.state t then
      .ok (j.state, { r with
        byID := r.byID.insert id (j.moved t mutate)
        byState := (r.byState.remove j.state id).add t id () })
    else .error .illegalTransition

/-- the state is put back to what it was -/
def update (id : String) (mutate : Job → Job) : Except Err Maps :=
  match r.byID.lookup id with
  | none => .error .jobNotFound
  | some j => .ok { r with byID := r.byID.insert id { mutate j with state := j.state } }

def remove (id : String) : Option (Job × Maps) :=
  match r.byID.lookup id with
  | none => none
  | some j => some (j, {
      byID := r.byID.erase id
      byUser := r.byUser.leave (named j.userID) id
      byRoom := r.byRoom.leave (named j.roomID) id
      bySession := r.bySession.leave (named j.sessionID) id
      byLang := r.byLang.leave (named j.language) id
      byState := r.byState.remove j.state id })

/-- `byIndex`, also for `ByState`; `none` is an identifier without a job, where the source would panic -/
def byIndex {κ : Type} [DecidableEq κ] (idx : Index κ String Unit) (key : κ) : List (Option Job) :=
  (idx.under key).keys.map r.byID.lookup

def count (s : Stats) (state : State) (n : Nat) : Stats :=
  if state.isFinished then { s with byState := s.byState ++ [(state, n)], finishedJobs := s.finishedJobs + n }
  else { s with byState := s.byState ++ [(state, n)], activeJobs := s.activeJobs + n }

def stats : Stats :=
  (r.byState.entries.map fun e => (e.1, e.2.keys.length)).foldl (fun s e => count s e.1 e.2)
    { total := r.byID.keys.length }

/-! ## calls -/

inductive Call where
  | add (j : Job)
  | transition (id : String) (t : State) (mutate : Job → Job)
  | update (id : String) (mutate : Job → Job)
  | remove (id : String)

/-- a call that fails changes nothing -/
def step : Call → Option Maps
  | .add j => some ((r.add j).toOption.getD r)
  | .transition id t mutate => some (((r.transition id t mutate).toOption.map Prod.snd).getD r)
  | .update id mutate => some ((r.update id mutate).toOption.getD r)
  | .remove id => some (((r.remove id).map Prod.snd).getD r)

def Respects (f : Job → Job) : Prop :=
  ∀ j, (f j).userID = j.userID ∧ (f j).roomID = j.roomID ∧ (f j).sessionID = j.sessionID ∧ (f j).language = j.language

def Call.Respects : Call → Prop
  | .transition _ _ f | .update _ f => Maps.Respects f
  | _ => True

/-- a callback of `Transition` does not set the state -/
def Call.KeepsState : Call → Prop
  | .transition _ _ f => ∀ j, (f j).state = j.state
  | _ => True

/-! ## the map of jobs -/

variable {r}

def view (r : Maps) : Registry := r.byID.lookup

theorem view_add (j : Job) : (r.add j).map view = r.view.add j := by
  unfold add Registry.add view
  split <;> simp_all [Except.map, lookup_insert_update]

theorem view_transition (id : String) (t : State) (f : Job → Job) :
    ((r.transition id t f).map fun x => x.2.view) = r.view.transition id t f := by
  unfold transition Registry.transition view
  split
  · simp_all [Except.map]
  · split <;> simp_all [Except.map, lookup_insert_update]

variable {r' : Maps}

theorem view_remove {id : String} {j : Job} (h : r.remove id = some (j, r')) :
    r.view id = some j ∧ r'.view = r.view.remove id := by
  unfold remove at h
  split at h
  · cases h
  next hj =>
  cases h
  exact ⟨hj, lookup_erase_update _ _⟩

/-! ## the indexes -/

/-- **each index is the index of the live jobs by its field** -/
structure Sound (r : Maps) : Prop where
  user : r.byUser.Of r.view fun j => named j.userID
  room : r.byRoom.Of r.view fun j => named j.roomID
  session : r.bySession.Of r.view fun j => named j.sessionID
  lang : r.byLang.Of r.view fun j => named j.language
  state : r.byState.Of r.view fun j => some j.state

theorem sound_empty : Sound {} :=
  ⟨of_empty, of_empty, of_empty, of_empty, of_empty⟩

theorem sound_add {j : Job} (h : r.Sound) (hr : r.add j = .ok r') : r'.Sound := by
  unfold add at hr
  split at hr
  · cases hr
  next hnone =>
  cases hr
  -- nothing is entered for the identifier so far
  have hnew {κ : Type} [DecidableEq κ] {t : Index κ String Unit} {key : Job → Option κ} (ht : t.Of r.view key) :
      (t.enter (key j) j.id).Of (r.byID.insert j.id j).lookup key := by
    have hu := ht.update j.id (some j)
    rw [show r.view j.id = none from hnone] at hu
    rw [lookup_insert_update]
    exact hu
  exact ⟨hnew h.user, hnew h.room, hnew h.session, hnew h.lang, hnew h.state⟩

theorem sound_remove {id : String} {j : Job} (h : r.Sound) (hr : r.remove id = some (j, r')) : r'.Sound := by
  unfold remove at hr
  split at hr
  · cases hr
  next hj =>
  cases hr
  have hgone {κ : Type} [DecidableEq κ] {t : Index κ String Unit} {key : Job → Option κ} (ht : t.Of r.view key) :
      (t.leave (key j) id).Of (r.byID.erase id).lookup key := by
    have hu := ht.update id none
    rw [show r.view id = some j from hj] at hu
    rw [lookup_erase_update]
    exact hu
  exact ⟨hgone h.user, hgone h.room, hgone h.session, hgone h.lang, hgone h.state⟩

/-- a job is replaced by one with the same fields: only the state index has to follow -/
theorem sound_replace {id : String} {j j' : Job} (h : r.Sound) (hj : r.view id = some j) (hf : j'.userID = j.userID ∧
    j'.roomID = j.roomID ∧ j'.sessionID = j.sessionID ∧ j'.language = j.language) {byState : Index State String Unit}
    (hs : byState.Of (Function.update r.view id (some j')) fun j => some j.state) :
    Sound { r with byID := r.byID.insert id j', byState := byState } := by
  have hsame {t : Index String String Unit} {field : Job → String} (ht : t.Of r.view fun j => named (field j))
      (he : field j' = field j) : t.Of (r.byID.insert id j').lookup fun j => named (field j) := by
    rw [lookup_insert_update]
    refine ⟨ht.mem.update_same ?_, ht.full⟩
    rw [hj]
    exact congrArg named he
  refine ⟨hsame h.user hf.1, hsame h.room hf.2.1, hsame h.session hf.2.2.1, hsame h.lang hf.2.2.2, ?_⟩
  show byState.Of (r.byID.insert id j').lookup _
  rw [lookup_insert_update]
  exact hs

theorem sound_transition {id : String} {t from' : State} {f : Job → Job} (h : r.Sound) (hf : Respects f)
    (hs : ∀ j, (f j).state = j.state) (hr : r.transition id t f = .ok (from', r')) : r'.Sound := by
  unfold transition at hr
  split at hr
  · cases hr
  next j hj =>
  split at hr
  · cases hr
    refine sound_replace h hj ?_ ?_
    · exact hf _
    have hu := h.state.update id (some (j.moved t f))
    rw [show r.view id = some j from hj] at hu
    have ht : (j.moved t f).state = t := hs _
    simp only [Option.bind_some, ht] at hu
    exact hu
  · cases hr

theorem sound_update {id : String} {f : Job → Job} (h : r.Sound) (hf : Respects f)
    (hr : r.update id f = .ok r') : r'.Sound := by
  unfold update at hr
  split at hr
  · cases hr
  next j hj =>
  cases hr
  refine sound_replace h hj ?_ ⟨h.state.mem.update_same ?_, h.state.full⟩
  · exact hf j
  rw [show r.view id = some j from hj]
  rfl

theorem sound_step {c : Call} (h : r.Sound) (hc : c.Respects) (hs : c.KeepsState)
    (hr : r.step c = some r') : r'.Sound := by
  cases c with
  | add j =>
    cases hr
    cases hx : r.add j with
    | error e => exact h
    | ok r' => exact sound_add h hx
  | transition id t f =>
    cases hr
    cases hx : r.transition id t f with
    | error e => exact h
    | ok x => exact sound_transition h hc hs hx
  | update id f =>
    cases hr
    cases hx : r.update id f with
    | error e => exact h
    | ok r' => exact sound_update h hc hx
  | remove id =>
    cases hr
    cases hx : r.remove id with
    | none => exact h
    | some x => exact sound_remove h hx

/-! ## what the queries and the counts read -/

theorem count_total (l : List (State × Nat)) (s : Stats) :
    (l.foldl (fun s e => count s e.1 e.2) s).activeJobs + (l.foldl (fun s e => count s e.1 e.2) s).finishedJobs =
      s.activeJobs + s.finishedJobs + (l.map Prod.snd).sum ∧
    (l.foldl (fun s e => count s e.1 e.2) s).total = s.total := by
  induction l generalizing s with
  | nil => exact ⟨rfl, rfl⟩
  | cons e l ih =>
    obtain ⟨hsum, htotal⟩ := ih (count s e.1 e.2)
    rw [List.foldl_cons, hsum, htotal, List.map_cons, List.sum_cons]
    unfold count
    split
    · exact ⟨by dsimp only; omega, rfl⟩
    · exact ⟨by dsimp only; omega, rfl⟩

theorem Sound.stats_total (h : r.Sound) : r.stats.activeJobs + r.stats.finishedJobs = r.stats.total := by
  have hcount : (r.byState.entries.map fun e => e.2.keys.length).sum = r.byID.entries.length :=
    h.state.count fun _ => rfl
  obtain ⟨hsum, htotal⟩ :=
    count_total (r.byState.entries.map fun e => (e.1, e.2.keys.length)) { total := r.byID.keys.length }
  rw [List.map_map] at hsum
  refine hsum.trans ((Nat.zero_add _).trans (hcount.trans ?_))
  exact (List.length_map _).symm.trans htotal.symm

/-- the index has each live job under its non-empty field and nothing else, and so has a query by it -/
def Exact (r : Maps) (idx : Index String String Unit) (field : Job → String) : Prop :=
  (∀ key id, (idx.find key id).isSome ↔ key ≠ "" ∧ ∃ j, r.byID.lookup id = some j ∧ field j = key) ∧ idx.Full ∧
  ∀ key, key ≠ "" → (r.byIndex idx key).Perm ((r.byID.entries.filter fun e => field e.2 = key).map fun e => some e.2)

theorem exact_of {idx : Index String String Unit} {field : Job → String}
    (h : idx.Of r.view fun j => named (field j)) : r.Exact idx field := by
  refine ⟨fun key id => ?_, h.full, fun key hkey => ?_⟩
  · rw [h.mem, Option.bind_eq_some_iff]
    simp only [named_eq_some]
    exact ⟨fun ⟨j, hj, hne, hf⟩ => ⟨hne, j, hj, hf⟩, fun ⟨hne, j, hj, hf⟩ => ⟨j, hj, hne, hf⟩⟩
  · have hsel := h.select key
    simp only [named_eq_some, hkey, ne_eq, not_false_eq_true, true_and] at hsel
    exact hsel

/-- **The indexes, the queries and the counts agree with the live jobs.** -/
theorem maps_agree (calls : List Call) (r : Maps) (hc : ∀ c ∈ calls, c.Respects ∧ c.KeepsState)
    (hr : run step {} calls = some r) :
    r.Exact r.byUser Job.userID ∧ r.Exact r.byRoom Job.roomID ∧ r.Exact r.bySession Job.sessionID ∧
    r.Exact r.byLang Job.language ∧
    (∀ st id, (r.byState.find st id).isSome ↔ ∃ j, r.byID.lookup id = some j ∧ j.state = st) ∧ r.byState.Full ∧
    (∀ st, (r.byIndex r.byState st).Perm ((r.byID.entries.filter fun e => e.2.state = st).map fun e => some e.2)) ∧
    r.stats.activeJobs + r.stats.finishedJobs = r.stats.total ∧ r.stats.total = r.byID.keys.length := by
  have hsound : r.Sound := by
    refine run_inv (I := Sound) (C := fun _ c => c.Respects ∧ c.KeepsState) (fun _ _ _ h hc hstep => ?_) sound_empty
      (along_of_forall hc _) hr
    exact sound_step h hc.1 hc.2 hstep
  refine ⟨exact_of hsound.user, exact_of hsound.room, exact_of hsound.session, exact_of hsound.lang, fun st id => ?_,
    hsound.state.full, fun st => ?_, hsound.stats_total, (count_total _ _).2⟩
  · rw [hsound.state.mem, Option.bind_eq_some_iff]
    simp only [Option.some_inj]
    rfl
  · have hsel := hsound.state.select st
    simp only [Option.some_inj] at hsel
    exact hsel

def twoJobs : List Call :=
  [.add { id := "j1", userID := "u1", language := "go" }, .add { id := "j2", userID := "u1" },
    .transition "j1" .validated id, .update "j1" fun j => { j with state := .failed, workerID := "w" }, .remove "j2"]

theorem maps_agree_twoJobs :
    ∃ r, run step {} twoJobs = some r ∧ r.stats = { total := 1, byState := [(.validated, 1)], activeJobs := 1 } ∧
      r.Exact r.byUser Job.userID := by
  have hc : ∀ c ∈ twoJobs, c.Respects ∧ c.KeepsState := by
    simp [twoJobs, Call.Respects, Call.KeepsState, Maps.Respects]
  obtain ⟨r, hr, hstats⟩ : ∃ r, run step {} twoJobs = some r ∧
      r.stats = { total := 1, byState := [(.validated, 1)], activeJobs := 1 } := ⟨_, rfl, by decide +kernel⟩
  exact ⟨r, hr, hstats, (maps_agree twoJobs r hc hr).1⟩

/-- **A callback that sets the state hides the job from its query**; so does an empty field. -/
theorem state_misplaced : ∃ calls : List Call, (∀ c ∈ calls, c.Respects) ∧ ∃ r, run step {} calls = some r ∧
      (r.byState.find .validated "j1").isSome ∧ ((r.byID.lookup "j1").map Job.state) = some .running ∧
      r.byIndex r.byState .running = [] ∧
      ((r.byID.lookup "j1").map Job.userID) = some "" ∧ r.byIndex r.byUser "" = [] := by
  refine ⟨[.add { id := "j1" }, .transition "j1" .validated fun j => { j with state := .running }], ?_, _, rfl, ?_⟩
  · simp [Call.Respects, Maps.Respects]
  · decide +kernel

end Maps

end Exec
