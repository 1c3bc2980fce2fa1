import Mathlib.Algebra.GroupWithZero.Nat
import Mathlib.Data.List.AList
import Mathlib.Tactic.Common

/-!
# Two-level maps

A map from keys to maps, as a secondary index: a key goes with its last entry.

* `find`, `add`, `remove`  one entry under one key;
* `Full`  no key has an empty map; `add` and `remove` keep it;
* `Of`  the index of a map; `Of.select`, `Of.count` say what it finds and how much.
-/

set_option linter.unusedSectionVars false

abbrev Index (κ ι ν : Type*) := AList fun _ : κ => AList fun _ : ι => ν

namespace Index

open AList Option

variable {κ ι ν : Type*} [DecidableEq κ] [DecidableEq ι] (t : Index κ ι ν)

def under (k : κ) : AList fun _ : ι => ν := (t.lookup k).getD ∅

def find (k : κ) (i : ι) : Option ν := (t.under k).lookup i

def add (k : κ) (i : ι) (v : ν) : Index κ ι ν := t.insert k ((t.under k).insert i v)

/-- take an entry from a key; the key goes with its last entry -/
def remove (k : κ) (i : ι) : Index κ ι ν :=
  match t.lookup k with
  | none => t
  | some s => if (s.erase i).entries = [] then t.erase k else t.insert k (s.erase i)

variable (k k' : κ)

theorem under_insert (s : AList fun _ : ι => ν) :
    Index.under (t.insert k s) k' = if k' = k then s else t.under k' := by
  unfold under
  split
  · next h => rw [h, lookup_insert, getD_some]
  · next h => rw [lookup_insert_ne h]

theorem under_erase : Index.under (t.erase k) k' = if k' = k then ∅ else t.under k' := by
  unfold under
  split
  · next h => rw [h, lookup_erase, getD_none]
  · next h => rw [lookup_erase_ne h]

theorem find_empty (k : κ) (i : ι) : find (∅ : Index κ ι ν) k i = none := by
  unfold find under
  rw [lookup_empty, getD_none, lookup_empty]

theorem find_add (i i' : ι) (v : ν) :
    (t.add k i v).find k' i' = if k' = k ∧ i' = i then some v else t.find k' i' := by
  unfold find add
  rw [under_insert]
  by_cases hk : k' = k
  · subst hk
    by_cases hi : i' = i
    · rw [if_pos rfl, if_pos ⟨rfl, hi⟩, hi, lookup_insert]
    · rw [if_pos rfl, if_neg fun h => hi h.2, lookup_insert_ne hi]
  · rw [if_neg hk, if_neg fun h => hk h.1]

theorem under_remove (i : ι) :
    Index.under (t.remove k i) k' = if k' = k then (t.under k).erase i else t.under k' := by
  unfold remove
  cases hs : t.lookup k with
  | none =>
    have hk : t.under k = ∅ := by rw [under, hs, getD_none]
    dsimp only
    split
    · next h =>
      rw [h, hk]
      rfl
    · rfl
  | some s =>
    have hk : t.under k = s := by rw [under, hs, getD_some]
    rw [hk]
    dsimp only
    split
    · next h =>
      rw [under_erase]
      split
      · exact ext h.symm
      · rfl
    · exact under_insert t k k' (s.erase i)

theorem find_remove (i i' : ι) :
    (t.remove k i).find k' i' = if k' = k ∧ i' = i then none else t.find k' i' := by
  unfold find
  rw [under_remove]
  by_cases hk : k' = k
  · subst hk
    by_cases hi : i' = i
    · rw [if_pos rfl, if_pos ⟨rfl, hi⟩, hi, lookup_erase]
    · rw [if_pos rfl, if_neg fun h => hi h.2, lookup_erase_ne hi]
  · rw [if_neg hk, if_neg fun h => hk h.1]

theorem mem_keys_under {t : Index κ ι ν} {k : κ} {i : ι} : i ∈ (t.under k).keys ↔ (t.find k i).isSome := by
  rw [find, lookup_isSome, mem_keys]

theorem mem_keys_of_find {t : Index κ ι ν} {k : κ} {i : ι} (h : (t.find k i).isSome) : k ∈ t.keys := by
  by_contra hk
  rw [find, under, lookup_eq_none.mpr hk, getD_none, lookup_empty] at h
  cases h

theorem find_isSome_iff {t : Index κ ι ν} {k : κ} {i : ι} :
    (t.find k i).isSome ↔ ∃ s, ⟨k, s⟩ ∈ t.entries ∧ i ∈ s.keys := by
  constructor
  · intro h
    have hk := mem_keys_of_find h
    rw [← mem_keys, ← lookup_isSome, isSome_iff_exists] at hk
    obtain ⟨s, hs⟩ := hk
    refine ⟨s, mem_lookup_iff.mp hs, ?_⟩
    rwa [find, under, hs, getD_some, lookup_isSome, mem_keys] at h
  · rintro ⟨s, hs, hi⟩
    have hs' : t.lookup k = some s := mem_lookup_iff.mpr hs
    rwa [find, under, hs', getD_some, lookup_isSome, mem_keys]

/-! ## no empty map -/

def Full : Prop := ∀ k s, t.lookup k = some s → s.entries ≠ []

theorem full_empty : Full (∅ : Index κ ι ν) := by
  intro k s h
  cases h

theorem full_insert {t : Index κ ι ν} (h : t.Full) {k : κ} {s : AList fun _ : ι => ν} (hs : s.entries ≠ []) :
    Full (t.insert k s) := by
  intro k' s' h'
  by_cases hk : k' = k
  · rw [hk, lookup_insert] at h'
    cases h'
    exact hs
  · rw [lookup_insert_ne hk] at h'
    exact h k' s' h'

theorem full_add {t : Index κ ι ν} (h : t.Full) (k : κ) (i : ι) (v : ν) : Full (t.add k i v) := by
  refine full_insert h ?_
  exact List.cons_ne_nil _ _

theorem full_remove {t : Index κ ι ν} (h : t.Full) (k : κ) (i : ι) : Full (t.remove k i) := by
  unfold remove
  split
  · exact h
  split
  · intro k' s' h'
    by_cases hk : k' = k
    · rw [hk, lookup_erase] at h'
      cases h'
    · rw [lookup_erase_ne hk] at h'
      exact h k' s' h'
  · next hs => exact full_insert h hs

/-! ## the index of a map -/

def enter (t : Index κ ι Unit) (k : Option κ) (i : ι) : Index κ ι Unit :=
  match k with
  | none => t
  | some k => t.add k i ()

def leave (t : Index κ ι Unit) (k : Option κ) (i : ι) : Index κ ι Unit :=
  match k with
  | none => t
  | some k => t.remove k i

theorem find_enter (t : Index κ ι Unit) (k : Option κ) (i i' : ι) (k' : κ) :
    ((t.enter k i).find k' i').isSome ↔ k = some k' ∧ i' = i ∨ (t.find k' i').isSome := by
  cases k with
  | none => simp [enter]
  | some k =>
    show ((t.add k i ()).find k' i').isSome ↔ _
    rw [find_add]
    split <;> grind

theorem find_leave (t : Index κ ι Unit) (k : Option κ) (i i' : ι) (k' : κ) :
    ((t.leave k i).find k' i').isSome ↔ ¬(k = some k' ∧ i' = i) ∧ (t.find k' i').isSome := by
  cases k with
  | none => simp [leave]
  | some k =>
    show ((t.remove k i).find k' i').isSome ↔ _
    rw [find_remove]
    split <;> grind

/-- a text as a key; the empty one is none -/
def named (s : String) : Option String := if s = "" then none else some s

theorem named_eq_some {s k : String} : named s = some k ↔ k ≠ "" ∧ s = k := by
  unfold named
  split <;> grind

variable {α : Type*} {t : Index κ ι Unit} {g : ι → Option α} {key : α → Option κ}

/-- the index holds each entry of `g` exactly under its key -/
def Tracks (t : Index κ ι Unit) (g : ι → Option α) (key : α → Option κ) : Prop :=
  ∀ k i, (t.find k i).isSome ↔ (g i).bind key = some k

theorem Tracks.update (h : t.Tracks g key) (i : ι) (o : Option α) :
    ((t.leave ((g i).bind key) i).enter (o.bind key) i).Tracks (Function.update g i o) key := by
  intro k i'
  rw [find_enter, find_leave, h]
  by_cases hi : i' = i
  · subst hi
    rw [Function.update_self]
    tauto
  · rw [Function.update_of_ne hi]
    tauto

theorem Tracks.update_same (h : t.Tracks g key) {i : ι} {o : Option α} (ho : o.bind key = (g i).bind key) :
    t.Tracks (Function.update g i o) key := by
  intro k i'
  rw [h]
  by_cases hi : i' = i
  · rw [hi, Function.update_self, ho]
  · rw [Function.update_of_ne hi]

/-- and no key with nothing under it -/
structure Of (t : Index κ ι Unit) (g : ι → Option α) (key : α → Option κ) : Prop where
  mem : t.Tracks g key
  full : t.Full

theorem of_empty : Of (∅ : Index κ ι Unit) (fun _ => none) key where
  mem k i := by simp [find_empty]
  full := full_empty

theorem Of.update (h : t.Of g key) (i : ι) (o : Option α) :
    ((t.leave ((g i).bind key) i).enter (o.bind key) i).Of (Function.update g i o) key where
  mem := h.mem.update i o
  full := by
    have hl : Full (t.leave ((g i).bind key) i) := by
      cases (g i).bind key with
      | none => exact h.full
      | some k => exact full_remove h.full k i
    cases o.bind key with
    | none => exact hl
    | some k => exact full_add hl k i ()

theorem lookup_insert_update (m : AList fun _ : ι => α) (i : ι) (v : α) :
    (m.insert i v).lookup = Function.update m.lookup i (some v) := by
  funext j
  by_cases hj : j = i
  · rw [hj, lookup_insert, Function.update_self]
  · rw [lookup_insert_ne hj, Function.update_of_ne hj]

theorem lookup_erase_update (m : AList fun _ : ι => α) (i : ι) :
    (m.erase i).lookup = Function.update m.lookup i none := by
  funext j
  by_cases hj : j = i
  · rw [hj, lookup_erase, Function.update_self]
  · rw [lookup_erase_ne hj, Function.update_of_ne hj]

variable {m : AList fun _ : ι => α}

/-- **a query by the index is a selection from the map** -/
theorem Of.select (h : t.Of m.lookup key) (k : κ) :
    ((t.under k).keys.map m.lookup).Perm ((m.entries.filter fun e => key e.2 = some k).map fun e => some e.2) := by
  have hids : (t.under k).keys.Perm ((m.entries.filter fun e => key e.2 = some k).map Sigma.fst) := by
    refine (List.perm_ext_iff_of_nodup (keys_nodup _) ?_).mpr fun i => ?_
    · exact List.Nodup.sublist (List.filter_sublist.map _) m.keys_nodup
    rw [mem_keys_under, h.mem, bind_eq_some_iff]
    constructor
    · rintro ⟨v, hv, hk⟩
      exact List.mem_map.mpr ⟨⟨i, v⟩, List.mem_filter.mpr ⟨mem_lookup_iff.mp hv, decide_eq_true hk⟩, rfl⟩
    intro hi
    obtain ⟨⟨j, v⟩, he, rfl⟩ := List.mem_map.mp hi
    obtain ⟨he, hk⟩ := List.mem_filter.mp he
    exact ⟨v, mem_lookup_iff.mpr he, of_decide_eq_true hk⟩
  refine (hids.map m.lookup).trans (.of_eq ?_)
  rw [List.map_map]
  exact List.map_congr_left fun e he => mem_lookup_iff.mpr (List.mem_filter.mp he).1

/-- where every entry has a key, the index counts them -/
theorem Of.count (h : t.Of m.lookup key) (hkey : ∀ v, (key v).isSome) :
    (t.entries.map fun e => e.2.keys.length).sum = m.entries.length := by
  have hmem : ∀ e ∈ t.entries, ∀ i, i ∈ e.2.keys → (m.lookup i).bind key = some e.1 := fun e he i hi =>
    (h.mem e.1 i).mp (find_isSome_iff.mpr ⟨e.2, he, hi⟩)
  have hall : (t.entries.flatMap fun e => e.2.keys).Perm m.keys := by
    refine (List.perm_ext_iff_of_nodup ?_ m.keys_nodup).mpr fun i => ?_
    · refine List.nodup_flatMap.mpr ⟨fun e _ => e.2.keys_nodup, ?_⟩
      refine (List.nodupKeys_iff_pairwise.mp t.nodupKeys).imp_of_mem fun {e e'} he he' hne i hi hi' => hne ?_
      exact some_inj.mp ((hmem e he i hi).symm.trans (hmem e' he' i hi'))
    rw [List.mem_flatMap, ← mem_keys, ← lookup_isSome]
    constructor
    · rintro ⟨e, he, hi⟩
      cases hm : m.lookup i with
      | none =>
        have := hmem e he i hi
        rw [hm] at this
        cases this
      | some v => rfl
    · intro hm
      obtain ⟨v, hv⟩ := isSome_iff_exists.mp hm
      obtain ⟨k, hk⟩ := isSome_iff_exists.mp (hkey v)
      obtain ⟨s, hs, hi⟩ := find_isSome_iff.mp ((h.mem k i).mpr (by rw [hv]; exact hk))
      exact ⟨⟨k, s⟩, hs, hi⟩
  have hlen := hall.length_eq
  rw [List.length_flatMap] at hlen
  rw [hlen]
  exact List.length_map _

end Index
