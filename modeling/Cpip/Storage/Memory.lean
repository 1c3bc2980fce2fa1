import Cpip.Storage.Config

/-!
# Storage: the in-memory metadata store

`metadata.MemoryStore`: the records by their identifiers, and what each operation does to them under its lock.

* `find_change`, `find_without_ne`, `find_add_ne`  **what an operation leaves under an identifier**.

The order of a map is chosen by the caller of `matching` and `expired`.  A lineage is sorted by version.
-/

namespace Storage

open List

structure MemoryStore where
  rows : List Artifact := []
  nodup : (rows.map Artifact.id).Nodup := by exact List.nodup_nil

/-- the record counts as a reference to the object -/
def Artifact.refers (a : Artifact) (bucket key : String) : Bool :=
  a.bucket = bucket && a.objectKey = key && a.state ≠ .deleted

variable {bucket key : String}

theorem Artifact.refers_iff {a : Artifact} :
    a.refers bucket key = true ↔ a.bucket = bucket ∧ a.objectKey = key ∧ a.state ≠ .deleted := by
  simp only [refers, Bool.and_eq_true, decide_eq_true_eq, and_assoc]

namespace MemoryStore

variable (s : MemoryStore) (id : String)

def find : Option Artifact := s.rows.find? (·.id = id)

def change (f : Artifact → Artifact) (hf : ∀ a, (f a).id = a.id) : MemoryStore where
  rows := s.rows.map f
  nodup := by
    rw [map_map]
    have hid : Artifact.id ∘ f = Artifact.id := funext hf
    rw [hid]
    exact s.nodup

def changeOne (f : Artifact → Artifact) (hf : ∀ a, (f a).id = a.id) : MemoryStore :=
  s.change (fun a => if a.id = id then f a else a) fun a => by split <;> [exact hf a; rfl]

/-! ## reads -/

def get : Except Err Artifact :=
  match s.find id with
  | none => .error .notFound
  | some a => .ok a

variable (lineageID : String)

def lineage : List Artifact :=
  (s.rows.filter (·.lineageID = lineageID)).insertionSort fun a b => a.version ≤ b.version

def getLatest : Except Err Artifact :=
  match (s.lineage lineageID).find? (·.isLatest) with
  | none => .error .notFound
  | some a => .ok a

def getVersion (version : Int) : Except Err Artifact :=
  match (s.lineage lineageID).find? (·.version = version) with
  | none => .error .versionNotFound
  | some a => .ok a

def matching (bucket : String) (hash : Digest) : List Artifact :=
  s.rows.filter fun a => a.bucket = bucket && a.contentHash = hash && a.state = .available

def countReferences (bucket key : String) : Nat := s.rows.countP (·.refers bucket key)

def expired (now : Int) : List Artifact :=
  s.rows.filter fun a => (a.state = .available || a.state = .archived) && a.isExpired now

/-! ## writes -/

/-- `Update`; the lineage of the stored record stays -/
def update (a : Artifact) : Except Err Unit × MemoryStore :=
  match s.find a.id with
  | none => (.error .notFound, s)
  | some _ => (.ok (), s.change (fun b => if b.id = a.id then { a with lineageID := b.lineageID } else b)
      fun b => by split <;> [exact Eq.symm ‹_›; rfl])

def updateState (expected next : State) : Except Err Unit × MemoryStore :=
  match s.find id with
  | none => (.error .notFound, s)
  | some cur =>
    if cur.state ≠ expected then (.error .illegalTransition, s)
    else if !canTransition cur.state next then (.error .illegalTransition, s)
    else (.ok (), s.changeOne id (fun b => { b with state := next }) fun _ => rfl)

def without : MemoryStore where
  rows := s.rows.filter (·.id ≠ id)
  nodup := s.nodup.sublist ((filter_sublist).map _)

def delete : Except Err Unit × MemoryStore :=
  match s.find id with
  | none => (.error .notFound, s)
  | some _ => (.ok (), s.without id)

def maxVersion : Int :=
  (s.lineage lineageID).foldl (fun m a => if m < a.version then a.version else m) 0

def demote : MemoryStore :=
  s.change (fun b => if b.lineageID = lineageID then { b with isLatest := false } else b) fun b => by split <;> rfl

theorem find_eq_some {id : String} {a : Artifact} : s.find id = some a ↔ a ∈ s.rows ∧ a.id = id := by
  constructor
  · intro h
    exact ⟨mem_of_find?_eq_some h, by simpa using find?_some h⟩
  rintro ⟨hmem, rfl⟩
  cases hf : s.find a.id with
  | none => exact absurd (decide_eq_true rfl) (find?_eq_none.mp hf a hmem)
  | some b =>
    have hb : b ∈ s.rows := mem_of_find?_eq_some hf
    have hid : b.id = a.id := by simpa using find?_some hf
    rw [inj_on_of_nodup_map s.nodup hb hmem hid]

theorem find_eq_none {id : String} : s.find id = none ↔ ∀ a ∈ s.rows, a.id ≠ id := by
  unfold find
  rw [find?_eq_none]
  simp only [decide_eq_true_eq]

def add (a : Artifact) (h : s.find a.id = none) : MemoryStore where
  rows := s.rows ++ [a]
  nodup := by
    rw [map_append, nodup_append]
    refine ⟨s.nodup, nodup_singleton _, fun x hx y hy => ?_⟩
    obtain ⟨b, hb, rfl⟩ := mem_map.mp hx
    cases mem_singleton.mp hy
    exact (s.find_eq_none).mp h b hb

variable {id' : String}

section
variable {s} {id : String} {a b : Artifact} {f : Artifact → Artifact} {hf : ∀ a, (f a).id = a.id}

theorem mem_change : b ∈ (s.change f hf).rows ↔ ∃ a ∈ s.rows, f a = b := mem_map

theorem find_change (id : String) : (s.change f hf).find id = (s.find id).map f := by
  cases hx : s.find id with
  | none =>
    refine (find_eq_none _).mpr fun b hb => ?_
    obtain ⟨a, ha, rfl⟩ := mem_change.mp hb
    rw [hf]
    exact (find_eq_none _).mp hx a ha
  | some a =>
    obtain ⟨ha, hid⟩ := (find_eq_some _).mp hx
    exact (find_eq_some _).mpr ⟨mem_change.mpr ⟨a, ha, rfl⟩, (hf a).trans hid⟩

theorem find_changeOne_self : (s.changeOne id f hf).find id = (s.find id).map f := by
  unfold changeOne
  rw [find_change]
  cases hx : s.find id with
  | none => rfl
  | some a =>
    have hid := ((find_eq_some _).mp hx).2
    rw [Option.map_some, Option.map_some, if_pos hid]

theorem find_changeOne_ne (h : id' ≠ id) : (s.changeOne id f hf).find id' = s.find id' := by
  unfold changeOne
  rw [find_change]
  cases hx : s.find id' with
  | none => rfl
  | some a =>
    have hid := ((find_eq_some _).mp hx).2
    rw [Option.map_some, if_neg (by rw [hid]; exact h)]

theorem find_without_self : (s.without id).find id = none :=
  (find_eq_none _).mpr fun a ha => by simpa using (mem_filter.mp ha).2

theorem find_without_ne (h : id' ≠ id) : (s.without id).find id' = s.find id' := by
  cases hx : s.find id' with
  | none => exact (find_eq_none _).mpr fun a ha => (find_eq_none _).mp hx a (mem_filter.mp ha).1
  | some a =>
    obtain ⟨ha, hid⟩ := (find_eq_some _).mp hx
    refine (find_eq_some _).mpr ⟨mem_filter.mpr ⟨ha, ?_⟩, hid⟩
    rw [hid]
    simpa using h

theorem find_add_self {h : s.find a.id = none} : (s.add a h).find a.id = some a :=
  (find_eq_some _).mpr ⟨mem_append_right _ (mem_singleton_self _), rfl⟩

theorem find_add_ne {h : s.find a.id = none} (hne : id' ≠ a.id) : (s.add a h).find id' = s.find id' := by
  cases hx : s.find id' with
  | none =>
    refine (find_eq_none _).mpr fun b hb => ?_
    rcases mem_append.mp hb with hb | hb
    · exact (find_eq_none _).mp hx b hb
    · rw [mem_singleton.mp hb]
      exact Ne.symm hne
  | some b =>
    obtain ⟨hb, hid⟩ := (find_eq_some _).mp hx
    exact (find_eq_some _).mpr ⟨mem_append_left _ hb, hid⟩

theorem find_demote (lineageID id : String) : (s.demote lineageID).find id =
      (s.find id).map fun b => if b.lineageID = lineageID then { b with isLatest := false } else b := find_change id

end

def numbered (a : Artifact) : Artifact := { a with version := s.maxVersion a.lineageID + 1, isLatest := true }

def appendVersion (a : Artifact) : Except Err Artifact × MemoryStore :=
  if a.id = "" ∨ a.lineageID = "" then (.error .invalidArtifact, s)
  else if h : s.find a.id = none then
    (.ok (s.numbered a), (s.demote a.lineageID).add (s.numbered a) (by
      rw [find_demote]
      exact Option.map_eq_none_iff.mpr h))
  else (.error .alreadyExists, s)

/-- `SetLatest`; the head is moved also when the record is not there -/
def setLatest (lineageID id : String) : Except Err Unit × MemoryStore :=
  (if (s.lineage lineageID).any (·.id = id) then .ok () else .error .notFound,
    s.change (fun b => if b.lineageID = lineageID then { b with isLatest := b.id = id } else b)
      fun b => by split <;> rfl)

/-! ## the cases of a write -/

section
variable {s} {id : String} {a b : Artifact}

theorem get_ok (h : s.get id = .ok a) : s.find id = some a := by
  unfold get at h
  split at h
  · cases h
  rename_i b hb
  cases h
  exact hb

theorem update_cases (a : Artifact) : (s.find a.id = none ∧ s.update a = (.error .notFound, s)) ∨
    ∃ cur s', s.find a.id = some cur ∧ s.update a = (.ok (), s') ∧
      s'.find a.id = some { a with lineageID := cur.lineageID } ∧ ∀ id, id ≠ a.id → s'.find id = s.find id := by
  unfold update
  cases hx : s.find a.id with
  | none => exact .inl ⟨rfl, rfl⟩
  | some cur =>
    refine .inr ⟨cur, _, rfl, rfl, ?_, fun id hne => ?_⟩
    · rw [find_change, hx, Option.map_some, if_pos ((find_eq_some _).mp hx).2]
    rw [find_change]
    cases hy : s.find id with
    | none => rfl
    | some b => rw [Option.map_some, if_neg (by rw [((find_eq_some _).mp hy).2]; exact hne)]

theorem updateState_cases (id : String) (expected next : State) :
    (∃ err, s.updateState id expected next = (.error err, s) ∧
      ∀ cur, s.find id = some cur → cur.state = expected → canTransition expected next = false) ∨
    ∃ cur s', s.find id = some cur ∧ cur.state = expected ∧ canTransition expected next = true ∧
      s.updateState id expected next = (.ok (), s') ∧
      s'.find id = some { cur with state := next } ∧ ∀ id', id' ≠ id → s'.find id' = s.find id' := by
  unfold updateState
  cases hx : s.find id with
  | none => exact .inl ⟨_, rfl, fun cur hcur => by cases hcur⟩
  | some cur =>
    dsimp only
    split
    · rename_i hne
      refine .inl ⟨_, rfl, fun cur' hcur hs => ?_⟩
      cases hcur
      exact absurd hs hne
    · rename_i hs
      rw [not_not] at hs
      subst hs
      split
      · rename_i hcan
        refine .inl ⟨_, rfl, fun cur' hcur _ => ?_⟩
        cases hcur
        simpa using hcan
      · rename_i hcan
        refine .inr ⟨cur, _, rfl, rfl, by simpa using hcan, rfl, ?_, fun id' hne => find_changeOne_ne hne⟩
        rw [find_changeOne_self, hx, Option.map_some]

theorem delete_cases (id : String) : (s.find id = none ∧ s.delete id = (.error .notFound, s)) ∨
    ∃ cur s', s.find id = some cur ∧ s.delete id = (.ok (), s') ∧ s'.find id = none ∧
      ∀ id', id' ≠ id → s'.find id' = s.find id' := by
  unfold delete
  cases hx : s.find id with
  | none => exact .inl ⟨rfl, rfl⟩
  | some cur => exact .inr ⟨cur, _, rfl, rfl, find_without_self, fun id' hne => find_without_ne hne⟩

theorem appendVersion_cases (a : Artifact) : (∃ err, s.appendVersion a = (.error err, s)) ∨
    ∃ s', a.id ≠ "" ∧ s.find a.id = none ∧ s.appendVersion a = (.ok (s.numbered a), s') ∧
      s'.find a.id = some (s.numbered a) ∧
      ∀ id, id ≠ a.id → s'.find id =
        (s.find id).map fun b => if b.lineageID = a.lineageID then { b with isLatest := false } else b := by
  unfold appendVersion
  split
  · exact .inl ⟨_, rfl⟩
  rename_i hid
  rw [not_or] at hid
  split
  · rename_i hnone
    exact .inr ⟨_, hid.1, hnone, rfl, find_add_self,
      fun id hne => (find_add_ne (a := s.numbered a) hne).trans (find_demote _ _)⟩
  · exact .inl ⟨_, rfl⟩

theorem find_setLatest (lineageID id id' : String) : (s.setLatest lineageID id).2.find id' =
      (s.find id').map fun b => if b.lineageID = lineageID then { b with isLatest := b.id = id } else b := by
  unfold setLatest
  rw [find_change]

/-! ## references -/

theorem countReferences_eq_zero :
    s.countReferences bucket key = 0 ↔ ∀ id a, s.find id = some a → a.refers bucket key = false := by
  unfold countReferences
  rw [countP_eq_zero]
  constructor
  · intro h id a ha
    simpa using h a ((find_eq_some _).mp ha).1
  · intro h a ha
    simpa using h a.id a ((find_eq_some _).mpr ⟨ha, rfl⟩)

theorem eq_of_countReferences (h : s.countReferences bucket key ≤ 1) {id : String} (ha : s.find id = some a)
    (hb : s.find id' = some b) (hra : a.refers bucket key = true) (hrb : b.refers bucket key = true) : id = id' := by
  obtain ⟨hmem, rfl⟩ := (find_eq_some _).mp ha
  obtain ⟨hmem', rfl⟩ := (find_eq_some _).mp hb
  unfold countReferences at h
  rw [countP_eq_length_filter] at h
  have hma : a ∈ s.rows.filter (·.refers bucket key) := mem_filter.mpr ⟨hmem, hra⟩
  have hmb : b ∈ s.rows.filter (·.refers bucket key) := mem_filter.mpr ⟨hmem', hrb⟩
  cases hl : s.rows.filter (·.refers bucket key) with
  | nil =>
    rw [hl] at hma
    cases hma
  | cons x xs =>
    rw [hl] at h hma hmb
    have hnil : xs = [] := eq_nil_of_length_eq_zero (by rw [length_cons] at h; omega)
    subst hnil
    rw [mem_singleton.mp hma, mem_singleton.mp hmb]

end

end MemoryStore

section
variable {s : MemoryStore} {id : String} {a : Artifact}

theorem mem_rows (h : s.find id = some a) : a ∈ s.rows := ((MemoryStore.find_eq_some _).mp h).1

theorem find_id (h : s.find id = some a) : a.id = id := ((MemoryStore.find_eq_some _).mp h).2

theorem find_row (h : a ∈ s.rows) : s.find a.id = some a := (MemoryStore.find_eq_some _).mpr ⟨h, rfl⟩

end

end Storage
