import Mathlib.Data.Finset.Card
import Mathlib.Tactic.Tauto
import Cpip.Coord.Registry

/-!
# Coordination: membership anti-entropy

`membership.Manager.Sync`: a refresh of the registry, and the announcement of a change.

* `gone`, `arrived`  the cached nodes that a refresh drops, and the ones that it brings in;
* `sync_announces`  **a change of the roster is announced, and nothing else is**.
-/

namespace Coord.Registry

open AList

/-- the logical clock of the membership and the announced changes, each with its version and size -/
structure Membership where
  version : UInt64 := 0
  announced : List (UInt64 × Nat) := []
deriving DecidableEq

def Membership.bump (m : Membership) (size : Nat) : Membership :=
  ⟨m.version + 1, (m.version + 1, size) :: m.announced⟩

def sync (m : Membership) (b : Shared) (c : Cache) (ids : List String) : Membership × Shared × Cache :=
  let r := refresh b c ids
  (if r.2.keys.length ≠ c.keys.length then m.bump r.2.keys.length else m, r)

theorem mem_commit {c : Cache} {n : Node} {id : String} : id ∈ commit c n ↔ id = n.id ∨ id ∈ c := by
  unfold commit
  split
  · rename_i cur hcur
    have hmem : n.id ∈ c := lookup_isSome.mp (by rw [hcur]; rfl)
    split
    · exact mem_insert _
    · exact ⟨.inr, fun h => h.elim (fun heq => heq ▸ hmem) fun h => h⟩
  · exact mem_insert _

section
variable {b : Shared} {c : Cache} {ids : List String} {x : String}

/-- a cached node is dropped when it is neither listed nor recorded; one that is listed stays, recorded or not -/
def gone (b : Shared) (c : Cache) (ids : List String) : Finset String :=
  c.keys.toFinset.filter fun id => id ∉ ids ∧ b.records.lookup id = none

def arrived (b : Shared) (c : Cache) (ids : List String) : Finset String :=
  ids.toFinset.filter fun id => (b.records.lookup id).isSome ∧ id ∉ c

theorem mem_roster (hkeyed : Keyed b) (ids : List String) (r : Shared × Cache) (hr : r.1.records = b.records) :
    (ids.foldl refreshOne r).1.records = b.records ∧
      (x ∈ (ids.foldl refreshOne r).2 ↔ x ∈ r.2 ∨ x ∈ ids ∧ (b.records.lookup x).isSome) := by
  induction ids generalizing r with
  | nil => simp [hr]
  | cons id ids ih =>
    have hone : (refreshOne r id).1.records = b.records ∧
        (x ∈ (refreshOne r id).2 ↔ x ∈ r.2 ∨ x = id ∧ (b.records.lookup x).isSome) := by
      unfold refreshOne
      rw [hr]
      split
      · rename_i hnone
        refine ⟨hr, .inl, fun h => h.elim (fun h => h) ?_⟩
        rintro ⟨rfl, hsome⟩
        rw [hnone] at hsome
        cases hsome
      · rename_i n hn
        refine ⟨hr, mem_commit.trans ?_⟩
        rw [hkeyed id n hn]
        refine ⟨fun h => h.elim (fun hx => .inr ⟨hx, ?_⟩) .inl, fun h => h.elim .inr fun h => .inl h.1⟩
        rw [hx, hn]
        rfl
    obtain ⟨hrec, hmem⟩ := ih (refreshOne r id) hone.1
    refine ⟨hrec, hmem.trans ?_⟩
    rw [hone.2, List.mem_cons]
    tauto

theorem mem_recheck (hkeyed : Keyed b) (c : Cache) (ids : List String) : x ∈ ids.foldl (recheck b) c ↔
    (x ∈ ids → (b.records.lookup x).isSome) ∧ (x ∈ ids ∨ x ∈ c) := by
  induction ids generalizing c with
  | nil => simp
  | cons id ids ih =>
    have hone : x ∈ recheck b c id ↔ (x = id → (b.records.lookup x).isSome) ∧ (x = id ∨ x ∈ c) := by
      unfold recheck
      split
      · rename_i n hn
        rw [mem_commit, hkeyed id n hn]
        refine ⟨fun h => ⟨fun hx => ?_, h⟩, fun h => h.2⟩
        rw [hx, hn]
        rfl
      · rename_i hnone
        rw [mem_erase]
        refine ⟨fun h => ⟨fun hx => absurd hx h.1, .inr h.2⟩, fun h => ?_⟩
        have hne : x ≠ id := by
          rintro rfl
          simpa [hnone] using h.1 rfl
        exact ⟨hne, h.2.resolve_left hne⟩
    rw [List.foldl_cons, ih, hone, List.mem_cons]
    tauto

theorem mem_refresh (hkeyed : Keyed b) :
    x ∈ (refresh b c ids).2 ↔ x ∈ c ∧ x ∉ gone b c ids ∨ x ∈ arrived b c ids := by
  obtain ⟨hrec, hmem⟩ := mem_roster (x := x) hkeyed ids (b, c) rfl
  have hkeyed' : Keyed (ids.foldl refreshOne (b, c)).1 := by
    unfold Keyed
    rw [hrec]
    exact hkeyed
  unfold refresh
  rw [mem_recheck hkeyed', hrec, List.mem_filter, ← mem_keys, hmem]
  simp only [gone, arrived, Finset.mem_filter, List.mem_toFinset, ← mem_keys, decide_eq_true_eq]
  cases b.records.lookup x with
  | none =>
    simp only [Option.isSome_none]
    tauto
  | some n =>
    simp only [Option.isSome_some, reduceCtorEq]
    tauto

theorem keys_refresh (hkeyed : Keyed b) :
    (refresh b c ids).2.keys.toFinset = (c.keys.toFinset \ gone b c ids) ∪ arrived b c ids := by
  ext x
  rw [Finset.mem_union, Finset.mem_sdiff, List.mem_toFinset, List.mem_toFinset, ← mem_keys, ← mem_keys]
  exact mem_refresh hkeyed

/-- the sizes agree exactly when as many nodes come as go -/
theorem length_refresh (hkeyed : Keyed b) : (refresh b c ids).2.keys.length = c.keys.length ↔
    (gone b c ids).card = (arrived b c ids).card := by
  have hcard : ∀ c : Cache, c.keys.length = c.keys.toFinset.card := fun c =>
    (List.toFinset_card_of_nodup c.keys_nodup).symm
  have hsub : gone b c ids ⊆ c.keys.toFinset := Finset.filter_subset ..
  have hdisj : Disjoint (c.keys.toFinset \ gone b c ids) (arrived b c ids) := by
    refine Finset.disjoint_left.mpr fun x hx ha => (Finset.mem_filter.mp ha).2.2 ?_
    exact mem_keys.mpr (List.mem_toFinset.mp (Finset.mem_sdiff.mp hx).1)
  rw [hcard, hcard, keys_refresh hkeyed, Finset.card_union_of_disjoint hdisj, Finset.card_sdiff_of_subset hsub]
  have hle := Finset.card_le_card hsub
  omega

/-- the rosters agree exactly when nobody comes and nobody goes -/
theorem same_refresh (hkeyed : Keyed b) : (refresh b c ids).2.keys.toFinset = c.keys.toFinset ↔
    gone b c ids = ∅ ∧ arrived b c ids = ∅ := by
  rw [keys_refresh hkeyed]
  refine ⟨fun h => ⟨?_, ?_⟩, fun ⟨hg, ha⟩ => by simp [hg, ha]⟩
  · refine Finset.eq_empty_of_forall_notMem fun x hx => ?_
    have hc : x ∈ c.keys.toFinset := Finset.filter_subset _ _ hx
    rcases Finset.mem_union.mp (h ▸ hc) with h' | h'
    · exact (Finset.mem_sdiff.mp h').2 hx
    · exact (Finset.mem_filter.mp h').2.2 (mem_keys.mpr (List.mem_toFinset.mp hc))
  · refine Finset.eq_empty_of_forall_notMem fun x hx => (Finset.mem_filter.mp hx).2.2 ?_
    exact mem_keys.mpr (List.mem_toFinset.mp (h ▸ Finset.mem_union_right _ hx))

end

/-- **A change of the cached nodes is announced, and nothing else**, exactly under the condition. -/
theorem sync_announces (m : Membership) (b : Shared) (c : Cache) (ids : List String) (hkeyed : Keyed b) :
    ((sync m b c ids).1 = if (sync m b c ids).2.2.keys.toFinset = c.keys.toFinset then m
      else m.bump (sync m b c ids).2.2.keys.length) ↔
      ((gone b c ids).card = (arrived b c ids).card → gone b c ids = ∅) := by
  have hbump : ∀ n, m ≠ m.bump n := fun n h => by simpa [Membership.bump] using congrArg (·.announced.length) h
  show ((if (refresh b c ids).2.keys.length ≠ c.keys.length then m.bump (refresh b c ids).2.keys.length else m) =
    if (refresh b c ids).2.keys.toFinset = c.keys.toFinset then m else m.bump _) ↔ _
  by_cases hlen : (refresh b c ids).2.keys.length = c.keys.length
  · have hcard := (length_refresh hkeyed).mp hlen
    rw [if_neg (not_not.mpr hlen)]
    by_cases hsame : (refresh b c ids).2.keys.toFinset = c.keys.toFinset
    · rw [if_pos hsame]
      exact ⟨fun _ _ => ((same_refresh hkeyed).mp hsame).1, fun _ => rfl⟩
    · rw [if_neg hsame]
      refine ⟨fun h => absurd h (hbump _), fun h => absurd ((same_refresh hkeyed).mpr ⟨h hcard, ?_⟩) hsame⟩
      rw [← Finset.card_eq_zero, ← hcard, h hcard, Finset.card_empty]
  · have hsame : (refresh b c ids).2.keys.toFinset ≠ c.keys.toFinset := by
      intro h
      obtain ⟨hg, ha⟩ := (same_refresh hkeyed).mp h
      exact hlen ((length_refresh hkeyed).mpr (by rw [hg, ha]))
    rw [if_pos hlen, if_neg hsame]
    exact ⟨fun _ h => absurd ((length_refresh hkeyed).mpr h) hlen, fun _ => rfl⟩

def recorded (ids : List String) : Shared :=
  ⟨ids.foldr (fun id records => records.insert id { id }) ∅, ids.toFinset⟩

theorem keyed_recorded (ids : List String) : Keyed (recorded ids) := by
  induction ids with
  | nil => exact fun id n h => by cases h
  | cons i ids ih =>
    intro id n h
    by_cases hid : id = i
    · subst hid
      cases (lookup_insert _).symm.trans h
      rfl
    · exact ih id n ((lookup_insert_ne hid).symm.trans h)

/-- two nodes have gone and one has come -/
theorem sync_announces_exchange :
    (sync {} (recorded ["c"]) (recorded ["a", "b"]).records ["c"]).1 = ⟨1, [(1, 1)]⟩ := by
  rw [(sync_announces {} (recorded ["c"]) (recorded ["a", "b"]).records ["c"] (keyed_recorded _)).mpr (by decide)]
  decide

/-- **One node has come and one has gone**: the roster is another one, of the same size, and nothing is announced. -/
theorem sync_silent : (sync {} (recorded ["b"]) (recorded ["a"]).records ["b"]).1 = {} ∧
    (sync {} (recorded ["b"]) (recorded ["a"]).records ["b"]).2.2.keys.toFinset ≠
      (recorded ["a"]).records.keys.toFinset := by
  decide

end Coord.Registry
