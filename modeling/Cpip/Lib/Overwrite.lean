import Mathlib.Data.List.AList

/-!
# Maps written over by loops

A loop over the entries of a map, in any order, that writes each of them into another map.

* `lookup_overwrite`  **a key that is among them has their value, every other one its old value**;
* `lookup_range`, `lookup_range_filter`, `lookup_range_rekey`  a whole map, some of its keys, its keys renamed.
-/

set_option linter.unusedSectionVars false

variable {κ ν : Type*} [DecidableEq κ]

abbrev Table (κ ν : Type*) := AList fun _ : κ => ν

/-- the order in which the entries of a map are met, for each loop -/
structure Ranges (κ ν : Type*) where
  order : List Nat → List (Σ _ : κ, ν) → List (Σ _ : κ, ν)
  perm : ∀ site l, (order site l).Perm l

namespace Table

open List

def overwrite (m : Table κ ν) (l : List (Σ _ : κ, ν)) : Table κ ν := l.foldl (fun m e => m.insert e.1 e.2) m

variable {l : List (Σ _ : κ, ν)}

theorem lookup_overwrite (m : Table κ ν) (hl : l.NodupKeys) (k : κ) :
    (m.overwrite l).lookup k = (l.dlookup k).or (m.lookup k) := by
  induction l generalizing m with
  | nil => rfl
  | cons e l ih =>
    obtain ⟨hnot, hl⟩ := nodupKeys_cons.mp hl
    show (Table.overwrite (m.insert e.1 e.2) l).lookup k = _
    rw [ih (m.insert e.1 e.2) hl]
    by_cases hk : k = e.1
    · subst hk
      rw [dlookup_eq_none.mpr hnot, Option.none_or, AList.lookup_insert]
      rw [show e = ⟨e.1, e.2⟩ from rfl, dlookup_cons_eq, Option.some_or]
    · rw [dlookup_cons_ne _ _ hk, AList.lookup_insert_ne hk]

variable (R : Ranges κ ν) (site : List Nat)

theorem nodupKeys_range (m : Table κ ν) : (R.order site m.entries).NodupKeys :=
  (perm_nodupKeys (R.perm site m.entries)).mpr m.nodupKeys

theorem dlookup_range (m : Table κ ν) (k : κ) : (R.order site m.entries).dlookup k = m.lookup k :=
  perm_dlookup k (nodupKeys_range R site m) (R.perm site m.entries)

theorem lookup_range (m acc : Table κ ν) (k : κ) :
    (acc.overwrite (R.order site m.entries)).lookup k = (m.lookup k).or (acc.lookup k) := by
  rw [lookup_overwrite acc (nodupKeys_range R site m), dlookup_range]

/-! ## some of the keys -/

theorem dlookup_filter (p : κ → Bool) (l : List (Σ _ : κ, ν)) (k : κ) :
    (l.filter fun e => p e.1).dlookup k = if p k then l.dlookup k else none := by
  induction l with
  | nil =>
    rw [filter_nil, dlookup_nil, ite_self]
  | cons e l ih =>
    by_cases hk : k = e.1
    · subst hk
      cases hp : p e.1 with
      | true =>
        rw [filter_cons_of_pos (p := fun e : (_ : κ) × ν => p e.1) hp, if_pos rfl, show e = ⟨e.1, e.2⟩ from rfl,
          dlookup_cons_eq, dlookup_cons_eq]
      | false =>
        rw [filter_cons_of_neg (by rw [hp]; exact Bool.noConfusion), ih, hp]
        rfl
    · rw [dlookup_cons_ne _ _ hk, ← ih]
      cases hp : p e.1 with
      | true => rw [filter_cons_of_pos (p := fun e : (_ : κ) × ν => p e.1) hp, dlookup_cons_ne _ _ hk]
      | false => rw [filter_cons_of_neg (by rw [hp]; exact Bool.noConfusion)]

/-- a loop that copies the keys with `p` -/
theorem lookup_range_filter (p : κ → Bool) (m acc : Table κ ν) (k : κ) :
    (acc.overwrite ((R.order site m.entries).filter fun e => p e.1)).lookup k =
      (if p k then m.lookup k else none).or (acc.lookup k) := by
  have hnodup : ((R.order site m.entries).filter fun e => p e.1).NodupKeys :=
    (nodupKeys_range R site m).sublist filter_sublist
  rw [lookup_overwrite acc hnodup, dlookup_filter, dlookup_range]

/-! ## other keys -/

def rekey (g : κ → Option κ) (e : Σ _ : κ, ν) : Option (Σ _ : κ, ν) := (g e.1).map fun k => ⟨k, e.2⟩

section
variable {g : κ → Option κ} {h : κ → κ} (hg : ∀ k k', g k = some k' ↔ k = h k')
include hg

theorem mem_keys_rekey {k : κ} : k ∈ (l.filterMap (rekey g)).keys ↔ h k ∈ l.keys := by
  simp only [mem_keys, mem_filterMap]
  constructor
  · rintro ⟨v, e, he, hv⟩
    obtain ⟨k', hk', heq⟩ := Option.map_eq_some_iff.mp hv
    cases heq
    exact ⟨e.2, (hg e.1 k).mp hk' ▸ he⟩
  · rintro ⟨v, hv⟩
    refine ⟨v, ⟨h k, v⟩, hv, ?_⟩
    unfold rekey
    rw [(hg (h k) k).mpr rfl]
    rfl

theorem nodupKeys_rekey (hl : l.NodupKeys) : (l.filterMap (rekey g)).NodupKeys := by
  induction l with
  | nil => exact nodupKeys_nil
  | cons e l ih =>
    obtain ⟨hnot, hl⟩ := nodupKeys_cons.mp hl
    cases hk : g e.1 with
    | none =>
      rw [filterMap_cons_none (by unfold rekey; rw [hk]; rfl)]
      exact ih hl
    | some k =>
      rw [filterMap_cons_some (b := ⟨k, e.2⟩) (by unfold rekey; rw [hk]; rfl)]
      refine nodupKeys_cons.mpr ⟨fun hmem => hnot ?_, ih hl⟩
      rw [(hg e.1 k).mp hk]
      exact (mem_keys_rekey hg).mp hmem

theorem dlookup_rekey (hl : l.NodupKeys) (k : κ) :
    (l.filterMap (rekey g)).dlookup k = l.dlookup (h k) := by
  cases hv : l.dlookup (h k) with
  | none =>
    refine dlookup_eq_none.mpr fun hmem => dlookup_eq_none.mp hv ?_
    exact (mem_keys_rekey hg).mp hmem
  | some v =>
    refine (mem_dlookup_iff (nodupKeys_rekey hg hl)).mpr (mem_filterMap.mpr ⟨⟨h k, v⟩, ?_, ?_⟩)
    · exact (mem_dlookup_iff hl).mp hv
    unfold rekey
    rw [(hg (h k) k).mpr rfl]
    rfl

theorem lookup_range_rekey (m acc : Table κ ν) (k : κ) :
    (acc.overwrite ((R.order site m.entries).filterMap (rekey g))).lookup k = (m.lookup (h k)).or (acc.lookup k) := by
  rw [lookup_overwrite acc (nodupKeys_rekey hg (nodupKeys_range R site m)),
    dlookup_rekey hg (nodupKeys_range R site m), dlookup_range]

end

end Table
