import Mathlib.Logic.Function.Basic
import Mathlib.Tactic.Common

/-!
# Last-writer-wins replicas

A write goes to the replica it is made on and is sent to the others; a replica takes in a message whose version is
newer than the one it has for the key, in whatever order the messages come.

* `Sound`  a replica has the last write of a key, or it is on its way (`sound_write`, `sound_deliver`);
* `Sound.settled`  **when nothing is under way every replica has the last write of every key**.
-/

set_option linter.unusedSectionVars false

namespace Lww

open Function

variable {ι κ β : Type*} [DecidableEq ι] [DecidableEq κ]

/-- a write: the key, the version and the value, `none` for a removal -/
structure Msg (κ β : Type*) where
  key : κ
  version : Int
  value : Option β

/-- the replicas, the messages under way and the last write of every key -/
structure Net (ι κ β : Type*) where
  replicas : ι → κ → Int × Option β
  flying : List (ι × Msg κ β)
  latest : κ → Int × Option β

/-- a replica takes in a message that is newer -/
def accept (r : κ → Int × Option β) (m : Msg κ β) : κ → Int × Option β :=
  if (r m.key).1 < m.version then update r m.key (m.version, m.value) else r

/-- a write on replica `i` that is sent to the targets -/
def Net.write (s : Net ι κ β) (i : ι) (m : Msg κ β) (targets : List ι) : Net ι κ β where
  replicas := update s.replicas i (update (s.replicas i) m.key (m.version, m.value))
  flying := s.flying ++ targets.map fun j => (j, m)
  latest := update s.latest m.key (m.version, m.value)

def Net.deliver (s : Net ι κ β) (x : ι × Msg κ β) (rest : List (ι × Msg κ β)) : Net ι κ β where
  replicas := update s.replicas x.1 (accept (s.replicas x.1) x.2)
  flying := rest
  latest := s.latest

/-- **every replica has the last write of a key, or it is on its way to it** -/
structure Sound (nodes : ι → Prop) (s : Net ι κ β) : Prop where
  each : ∀ i, nodes i → ∀ k, s.replicas i k = s.latest k ∨
    (s.replicas i k).1 < (s.latest k).1 ∧ (i, ⟨k, (s.latest k).1, (s.latest k).2⟩) ∈ s.flying
  flying : ∀ x ∈ s.flying, x.2.version ≤ (s.latest x.2.key).1 ∧
    (x.2.version = (s.latest x.2.key).1 → x.2.value = (s.latest x.2.key).2)

variable {nodes : ι → Prop} {s : Net ι κ β}

theorem sound_write (h : Sound nodes s) {i : ι} {m : Msg κ β} {targets : List ι}
    (hv : (s.latest m.key).1 < m.version) (ht : ∀ j, nodes j → j ≠ i → j ∈ targets) :
    Sound nodes (s.write i m targets) := by
  refine ⟨fun j hj k => ?_, fun x hx => ?_⟩
  · dsimp only [Net.write]
    by_cases hk : k = m.key
    · subst hk
      rw [update_self]
      by_cases hji : j = i
      · subst hji
        rw [update_self, update_self]
        exact .inl rfl
      · -- the replica is behind, and the message has just been sent to it
        rw [update_of_ne hji]
        refine .inr ⟨?_, List.mem_append_right _ (List.mem_map.mpr ⟨j, ht j hj hji, rfl⟩)⟩
        rcases h.each j hj m.key with heq | ⟨hlt, -⟩
        · rw [heq]
          exact hv
        · exact Int.lt_trans hlt hv
    · rw [update_of_ne hk]
      have hsame : update s.replicas i (update (s.replicas i) m.key (m.version, m.value)) j k =
          s.replicas j k := by
        by_cases hji : j = i
        · subst hji
          rw [update_self, update_of_ne hk]
        · rw [update_of_ne hji]
      rw [hsame]
      exact (h.each j hj k).imp_right fun hx => ⟨hx.1, List.mem_append_left _ hx.2⟩
  · dsimp only [Net.write]
    rcases List.mem_append.mp hx with hx | hx
    · obtain ⟨hle, heq⟩ := h.flying x hx
      by_cases hk : x.2.key = m.key
      · rw [hk, update_self]
        rw [hk] at hle
        have hlt := Int.lt_of_le_of_lt hle hv
        exact ⟨Int.le_of_lt hlt, fun hv' => absurd hv' (Int.ne_of_lt hlt)⟩
      · rw [update_of_ne hk]
        exact ⟨hle, heq⟩
    · obtain ⟨j, -, rfl⟩ := List.mem_map.mp hx
      rw [update_self]
      exact ⟨Int.le_refl _, fun _ => rfl⟩

theorem sound_deliver (h : Sound nodes s) {x : ι × Msg κ β} {rest : List (ι × Msg κ β)} (hx : x ∈ s.flying)
    (hrest : ∀ y ∈ rest, y ∈ s.flying) (hother : ∀ y ∈ s.flying, y ≠ x → y ∈ rest) :
    Sound nodes (s.deliver x rest) := by
  obtain ⟨j, m⟩ := x
  obtain ⟨hle, heq⟩ := h.flying _ hx
  refine ⟨fun i hi k => ?_, fun y hy => h.flying y (hrest y hy)⟩
  dsimp only [Net.deliver]
  by_cases hij : i = j
  · subst hij
    rw [update_self]
    unfold accept
    by_cases hk : k = m.key
    · subst hk
      by_cases hlt : (s.replicas i m.key).1 < m.version
      · rw [if_pos hlt, update_self]
        rcases Int.le_iff_eq_or_lt.mp hle with hv | hv
        · exact .inl (Prod.ext hv (heq hv))
        -- an older write: the last one is still under way
        refine .inr ⟨hv, ?_⟩
        rcases h.each i hi m.key with hr | ⟨-, hmem⟩
        · rw [hr] at hlt
          exact absurd hlt (Int.not_lt.mpr (Int.le_of_lt hv))
        · refine hother _ hmem fun hsame => ?_
          exact Int.ne_of_lt hv (congrArg (fun y : ι × Msg κ β => y.2.version) hsame).symm
      · rw [if_neg hlt]
        refine (h.each i hi m.key).imp_right fun hr => ⟨hr.1, hother _ hr.2 fun hsame => ?_⟩
        have hv : (s.latest m.key).1 = m.version := congrArg (fun y : ι × Msg κ β => y.2.version) hsame
        exact hlt (hv ▸ hr.1)
    · have hkeep : (if (s.replicas i m.key).1 < m.version then
          update (s.replicas i) m.key (m.version, m.value) else s.replicas i) k = s.replicas i k := by
        split
        · exact update_of_ne hk ..
        · rfl
      rw [hkeep]
      refine (h.each i hi k).imp_right fun hr => ⟨hr.1, hother _ hr.2 fun hsame => ?_⟩
      exact hk (congrArg (fun y : ι × Msg κ β => y.2.key) hsame)
  · rw [update_of_ne hij]
    refine (h.each i hi k).imp_right fun hr => ⟨hr.1, hother _ hr.2 fun hsame => ?_⟩
    exact hij (congrArg Prod.fst hsame)

/-- **When nothing is under way every replica has the last write of every key.** -/
theorem Sound.settled (h : Sound nodes s) (hs : s.flying = []) {i : ι} (hi : nodes i) (k : κ) :
    s.replicas i k = s.latest k := by
  rcases h.each i hi k with hr | ⟨-, hmem⟩
  · exact hr
  · rw [hs] at hmem
    cases hmem

end Lww
