import Cpip.Lib.Versions
import Cpip.Storage.Served

/-!
# Storage: lineages

The versions of a lineage, its head and the numbers it has given out, while any operations interleave.

* `Steady`, `versions_exec`  **a steady access keeps the lineages sound**;
* `lineages_sound`  **every lineage has one head, its versions differ, and no number is assigned twice**.
-/

namespace Storage

open Pool Function Option Versions Code

/-! ## numbers -/

variable {id : String} {a : Artifact}

namespace MemoryStore

variable {s : MemoryStore}

theorem le_foldl_version (l : List Artifact) (n : Int) :
    n ≤ l.foldl (fun m a => if m < a.version then a.version else m) n ∧
      ∀ a ∈ l, a.version ≤ l.foldl (fun m a => if m < a.version then a.version else m) n := by
  induction l generalizing n with
  | nil => exact ⟨le_rfl, fun a ha => by cases ha⟩
  | cons b l ih =>
    obtain ⟨hn, hl⟩ := ih (if n < b.version then b.version else n)
    have hle : n ≤ (if n < b.version then b.version else n) ∧ b.version ≤ (if n < b.version then b.version else n) := by
      split <;> omega
    refine ⟨hle.1.trans hn, fun a ha => ?_⟩
    rcases List.mem_cons.mp ha with rfl | ha
    · exact hle.2.trans hn
    · exact hl a ha

theorem le_maxVersion (h : s.find id = some a) : a.version ≤ s.maxVersion a.lineageID := by
  refine (le_foldl_version _ 0).2 a ?_
  rw [lineage, List.mem_insertionSort]
  exact List.mem_filter.mpr ⟨mem_rows h, decide_eq_true rfl⟩

end MemoryStore

def versions (w : World) : Items String String :=
  fun id => (w.store.find id).map fun a => ⟨a.lineageID, a.version, a.isLatest⟩

/-- the access leaves the heads and the highest versions of the lineages -/
def Steady (w : World) : Cmd → Prop
  | .update x => ∀ a ∈ w.store.find x.id, x.isLatest = a.isLatest
  | .delete id => ∀ a ∈ w.store.find id, (∀ b ∈ w.store.rows, b.lineageID = a.lineageID → b.id = id) ∨
      a.isLatest = false ∧ ∃ b ∈ w.store.rows, b.lineageID = a.lineageID ∧ a.version < b.version
  | .setLatest lineageID id => (∃ a ∈ w.store.find id, a.lineageID = lineageID) ∨
      ∀ b ∈ w.store.rows, b.lineageID ≠ lineageID
  | _ => True

instance (w : World) : DecidablePred (Steady w) := by
  intro l
  unfold Steady
  split <;> infer_instance

section
variable {S : Service} {U : Bytes → Prop} {w m : World} {e : Env}

theorem versions_some (h : w.store.find id = some a) : versions w id = some ⟨a.lineageID, a.version, a.isLatest⟩ := by
  unfold versions
  rw [h, map_some]

theorem of_versions {x : Item String} (h : versions w id = some x) :
    ∃ a, w.store.find id = some a ∧ x = ⟨a.lineageID, a.version, a.isLatest⟩ := by
  obtain ⟨a, ha, rfl⟩ := map_eq_some_iff.mp h
  exact ⟨a, ha, rfl⟩

/-! ## one access -/

variable {r : Except Err Unit}

theorem versions_update {x : Artifact} (hB : Base S U w) (hP : Proper S U w (.update x)) (hS : Steady w (.update x))
    (he : exec S (.update x) w e = some (r, m)) : versions m = versions w := by
  rcases exec_update he with ⟨-, rfl⟩ | ⟨-, cur, store, hcur, rfl, hself, hne⟩
  · rfl
  funext id
  by_cases hid : id = x.id
  · subst hid
    obtain ⟨y, hy, hcore⟩ := hP
    have hcur' := hB.core_row hcur hy (congrArg Artifact.id hcore :)
    have hversion : x.version = cur.version := (congrArg Artifact.version (hcore.symm.trans hcur') :)
    rw [versions_some hcur]
    refine (versions_some (w := { w with store }) hself).trans ?_
    rw [hversion, hS cur hcur]
  · unfold versions
    rw [hne id hid]

theorem versions_updateState {expected next : State} (he : exec S (.updateState id expected next) w e = some (r, m)) :
    versions m = versions w := by
  rcases exec_updateState he with ⟨-, rfl, -⟩ | ⟨-, cur, store, hcur, -, -, rfl, hself, hne⟩
  · rfl
  funext id'
  by_cases hid : id' = id
  · subst hid
    rw [versions_some hcur]
    exact (versions_some (w := { w with store }) hself).trans rfl
  · unfold versions
    rw [hne id' hid]

section
variable (h : Sound (versions w) w.assigned)
include h

theorem sound_setLatest {lineageID : String}
    (hS : Steady w (.setLatest lineageID id)) (he : exec S (.setLatest lineageID id) w e = some (r, m)) :
    Sound (versions m) m.assigned := by
  cases he
  have hversions : versions { w with store := (w.store.setLatest lineageID id).2 } =
      rehead (fun id' y => if y.family = lineageID then id' = id else y.head) (versions w) := by
    funext id'
    unfold rehead versions
    rw [MemoryStore.find_setLatest]
    cases hx : w.store.find id' with
    | none => rfl
    | some b =>
      have hb := find_id hx
      simp only [map_some]
      split <;> simp [hb]
  rw [hversions]
  rcases hS with ⟨a, ha, hl⟩ | hnone
  · exact sound_move h (versions_some ha) hl
  refine sound_move_none h fun id' y hy => ?_
  obtain ⟨b, hb, rfl⟩ := of_versions hy
  exact hnone b (mem_rows hb)

theorem sound_appendVersion {x : Artifact} {r : Except Err Artifact}
    (he : exec S (.appendVersion x) w e = some (r, m)) : Sound (versions m) m.assigned := by
  rcases exec_appendVersion he with ⟨-, rfl⟩ | ⟨⟨-, hnone⟩, -, hm, hself, hne⟩
  · exact h
  have hversions : versions m =
      added (versions w) x.id x.lineageID (w.store.maxVersion x.lineageID + 1) := by
    funext id
    unfold added
    by_cases hid : id = x.id
    · subst hid
      rw [update_self]
      exact versions_some hself
    · rw [update_of_ne hid]
      unfold rehead versions
      rw [hne id hid]
      cases hx : w.store.find id with
      | none => rfl
      | some b =>
        simp only [map_some]
        split <;> simp_all
  have hassigned : m.assigned = w.assigned ++ [(x.lineageID, w.store.maxVersion x.lineageID + 1)] := by
    rw [hm]
  rw [hversions, hassigned]
  refine sound_add h ?_ fun id y hy hl => ?_
  · unfold versions
    rw [hnone, map_none]
  obtain ⟨b, hb, rfl⟩ := of_versions hy
  dsimp only at hl ⊢
  have hle := MemoryStore.le_maxVersion hb
  rw [hl] at hle
  omega

theorem sound_delete (hS : Steady w (.delete id))
    (he : exec S (.delete id) w e = some (r, m)) : Sound (versions m) m.assigned := by
  rcases exec_delete he with ⟨-, rfl⟩ | ⟨a, ha, hm⟩
  · exact h
  have hversions : versions m = update (versions w) id none := by
    obtain ⟨assigned, rfl⟩ := deleted hm
    funext id'
    unfold versions
    by_cases hid : id' = id
    · subst hid
      rw [update_self, MemoryStore.find_without_self, map_none]
    · rw [update_of_ne hid, MemoryStore.find_without_ne hid]
  rw [hversions]
  rcases hS a ha with honly | ⟨hhead, b, hb, hl, hlt⟩
  · -- the lineage ends
    have hassigned : m.assigned = w.assigned.filter (·.1 ≠ a.lineageID) := by
      rw [hm]
      unfold World.forget
      rw [if_neg]
      simp only [MemoryStore.without, List.any_eq_true, List.mem_filter, decide_eq_true_eq, not_exists, not_and]
      exact fun b hb hl => hb.2 (honly b hb.1 hl)
    rw [hassigned]
    refine sound_end h (versions_some ha) fun id' y hy hl => ?_
    obtain ⟨b, hb, rfl⟩ := of_versions hy
    exact (find_id hb).symm.trans (honly b (mem_rows hb) hl)
  · have hassigned : m.assigned = w.assigned := by
      rw [hm]
      unfold World.forget
      rw [if_pos]
      simp only [MemoryStore.without, List.any_eq_true, List.mem_filter, decide_eq_true_eq]
      refine ⟨b, ⟨hb, fun hid => ?_⟩, hl⟩
      have heq : a = b := some.inj (ha.symm.trans (hid ▸ find_row hb))
      rw [heq] at hlt
      exact lt_irrefl _ hlt
    rw [hassigned]
    exact sound_remove h (versions_some ha) hhead ⟨b.id, _, versions_some (find_row hb), hl, hlt⟩

end

/-- **A steady access keeps the lineages sound.** -/
theorem versions_exec {c : Cmd} {r : c.Ans} (hB : Base S U w) (hP : Proper S U w c) (hS : Steady w c)
    (h : Sound (versions w) w.assigned) (he : exec S c w e = some (r, m)) :
    Sound (versions m) m.assigned := by
  by_cases hc : c.Reads
  · obtain ⟨used, -, rfl⟩ := exec_reads hc he
    exact h
  cases c with
  | update x =>
    rw [versions_update hB hP hS he]
    cases he
    exact h
  | updateState id expected next =>
    rw [versions_updateState he]
    cases he
    exact h
  | delete id => exact sound_delete h hS he
  | appendVersion x => exact sound_appendVersion h he
  | setLatest lineageID id => exact sound_setLatest h hS he
  | putObject bucket key data | deleteObject bucket key =>
    dsimp only [exec] at he
    split at he
    · cases he
      exact h
    · cases he
      exact h
  | _ => exact absurd trivial hc

/-! ## runs -/

/-- **The lineages are sound** along steady accesses: one head, and no number is assigned twice. -/
theorem lineages_sound {run : List (Act Call Env)} {sys : Sys World Th}
    (hC : Lts.Along (calls S).next (Guard fun _ => Steady) (idle {}) run)
    (hr : Lts.run (calls S).next (idle {}) run = some sys) :
    (∀ a ∈ sys.shared.store.rows, ∃! b, b ∈ sys.shared.store.rows ∧ b.lineageID = a.lineageID ∧ b.isLatest = true) ∧
    (∀ a ∈ sys.shared.store.rows, ∀ b ∈ sys.shared.store.rows, a.lineageID = b.lineageID → a.version = b.version →
      a = b) ∧
    sys.shared.assigned.Nodup := by
  have hP := records_along (U := fun _ => True) start_empty (fun l _ => uploads_true l) hr
  have hguard := Lts.along_mono (fun sys l h => guard_and h.1 h.2) _ _ (Lts.along_and hC hP)
  have h : Sound (versions sys.shared) sys.shared.assigned := by
    refine Lts.run_inv (I := fun sys => Sound (versions sys.shared) sys.shared.assigned)
      (guard_next (I := fun w => Sound (versions w) w.assigned) ?_) ?_ hguard hr
    · exact fun _ w c e r m hc hs he => versions_exec hc.2.1 hc.2.2 hc.1 hs he
    · exact sound_empty
  have hsame : ∀ a ∈ sys.shared.store.rows, ∀ b ∈ sys.shared.store.rows, a.id = b.id → a = b :=
    fun a ha b hb hid => some.inj ((find_row ha).symm.trans (hid ▸ find_row hb))
  refine ⟨fun a ha => ?_, fun a ha b hb hl hv => ?_, h.once⟩
  · obtain ⟨id, y, hy, hfam, hhead⟩ := h.headed a.id _ (versions_some (find_row ha))
    obtain ⟨b, hb, rfl⟩ := of_versions hy
    refine ⟨b, ⟨mem_rows hb, hfam, hhead⟩, ?_⟩
    rintro b' ⟨hb', hl', hhead'⟩
    refine hsame b' hb' b (mem_rows hb) ?_
    exact h.single b'.id b.id _ _ (versions_some (find_row hb')) (versions_some (find_row (mem_rows hb)))
      (hl'.trans hfam.symm) hhead' hhead
  · exact hsame a ha b hb (h.numbered a.id b.id _ _ (versions_some (find_row ha)) (versions_some (find_row hb)) hl hv)

end

def versionRun (i : Nat) (lineageID id found : String) : List (Act Call Env) :=
  [.spawn i (.upload { sampleRequest "" with lineageID }), .step i { order := [found] }, .step i { fresh := id },
    .step i {}]

def lineageRun : List (Act Call Env) :=
  storeRun 0 "" "x" ++ versionRun 1 "x-lineage" "y" "x" ++ callRun 2 (.rollback "x-lineage" 1) 2 ++
    versionRun 3 "x-lineage" "z" "x" ++ callRun 4 (.setLegalHold "z" true) 2 ++ callRun 5 (.purge "y") 4

theorem lineages_sound_lineageRun :
    Lts.Along (calls sample).next (Guard fun _ => Steady) (idle {}) lineageRun ∧
    ∃ sys ∈ sampleRun lineageRun,
      sys.shared.assigned = [("x-lineage", 1), ("x-lineage", 2), ("x-lineage", 3)] ∧
      (∀ a ∈ sys.shared.store.rows, ∃! b, b ∈ sys.shared.store.rows ∧ b.lineageID = a.lineageID ∧ b.isLatest = true) ∧
      (∀ a ∈ sys.shared.store.rows, ∀ b ∈ sys.shared.store.rows,
        a.lineageID = b.lineageID → a.version = b.version → a = b) ∧
      sys.shared.assigned.Nodup := by
  refine ⟨?hC, Lts.exists_run_and (by decide +kernel) fun sys hr _ => lineages_sound ?hC hr⟩
  decide +kernel

/-- **A lineage loses its head and gives a number twice** by a purge, and an old update gives it two heads. -/
theorem purge_loses_head : (∃ sys ∈ sampleRun
        (storeRun 0 "" "x" ++ versionRun 1 "x-lineage" "y" "x" ++ callRun 2 (.purge "y") 4),
      (∃ a ∈ sys.shared.store.rows, a.lineageID = "x-lineage") ∧
      (∀ a ∈ sys.shared.store.rows, a.lineageID = "x-lineage" → a.isLatest = false) ∧
      ∃ sys' ∈ Lts.run (calls sample).next sys (versionRun 3 "x-lineage" "z" "x"),
        sys'.shared.assigned = [("x-lineage", 1), ("x-lineage", 2), ("x-lineage", 2)]) ∧
    ∃ sys ∈ sampleRun
        (storeRun 0 "" "x" ++ callRun 1 (.setLegalHold "x" true) 1 ++ versionRun 2 "x-lineage" "y" "x" ++ [.step 1 {}]),
      ∃ a ∈ sys.shared.store.find "x", ∃ b ∈ sys.shared.store.find "y",
        a.lineageID = b.lineageID ∧ a.isLatest = true ∧ b.isLatest = true := by
  decide +kernel

end Storage
