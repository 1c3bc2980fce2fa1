import Mathlib.Data.Set.Insert
import Mathlib.Tactic.Common

/-!
# Deferred writes

A write to a key of a record waits in a buffer, is then under way for some time, and lands in the record.

* `Fresh`  the last value of a key is in the buffer, or else under way, or else in the record;
* `fresh_put`, `fresh_direct`, `fresh_take`, `fresh_land`  **kept as long as no write is sent off while another one
  for its key is under way**.
-/

set_option linter.unusedSectionVars false

namespace Writeback

open Function

variable {κ β : Type*} [DecidableEq κ]

/-- the deferred writes, the record and the last values -/
@[ext]
structure State (κ β : Type*) where
  buffer : Set (κ × β)
  flight : Set (κ × β)
  record : κ → Option β
  last : κ → Option β

def Free (w : Set (κ × β)) (k : κ) : Prop := ∀ v, (k, v) ∉ w

variable (s : State κ β)

/-- the value replaces what the buffer has for the key -/
def State.put (k : κ) (v : β) : State κ β :=
  { s with buffer := insert (k, v) {x ∈ s.buffer | x.1 ≠ k}, last := update s.last k (some v) }

def State.direct (k : κ) (v : β) : State κ β :=
  { s with flight := insert (k, v) s.flight, last := update s.last k (some v) }

def State.take : State κ β := { s with buffer := ∅, flight := s.flight ∪ s.buffer }

/-- a write lands; `rest` is what is still under way -/
def State.land (x : κ × β) (rest : Set (κ × β)) : State κ β :=
  { s with flight := rest, record := update s.record x.1 (some x.2) }

/-- **the last value of a key is in the buffer, or else under way, or else in the record** -/
structure Fresh (s : State κ β) : Prop where
  buffered : ∀ k v, (k, v) ∈ s.buffer → s.last k = some v
  flying : ∀ k v, (k, v) ∈ s.flight → Free s.buffer k → s.last k = some v
  rest : ∀ k, Free s.buffer k → Free s.flight k → s.record k = s.last k

variable {s : State κ β} {k : κ} {v : β}

theorem free_empty (k : κ) : Free (∅ : Set (κ × β)) k := fun _ h => h

theorem fresh_put (h : Fresh s) : Fresh (s.put k v) := by
  have hother : ∀ j, Free (s.put k v).buffer j → j ≠ k ∧ Free s.buffer j := by
    intro j hj
    have hne : j ≠ k := by
      rintro rfl
      exact hj v (Set.mem_insert ..)
    exact ⟨hne, fun w hw => hj w (Set.mem_insert_of_mem _ ⟨hw, hne⟩)⟩
  refine ⟨fun j w hw => ?_, fun j w hw hfree => ?_, fun j hb hf => ?_⟩
  · rcases Set.mem_insert_iff.mp hw with heq | ⟨hw, hne⟩
    · cases heq
      exact update_self ..
    · exact (update_of_ne hne ..).trans (h.buffered j w hw)
  · obtain ⟨hne, hfree⟩ := hother j hfree
    exact (update_of_ne hne ..).trans (h.flying j w hw hfree)
  · obtain ⟨hne, hfree⟩ := hother j hb
    exact (h.rest j hfree hf).trans (update_of_ne hne ..).symm

theorem fresh_direct (h : Fresh s) (hb : Free s.buffer k) (hf : Free s.flight k) : Fresh (s.direct k v) := by
  refine ⟨fun j w hw => ?_, fun j w hw hfree => ?_, fun j hbj hfj => ?_⟩
  · have hne : j ≠ k := by
      rintro rfl
      exact hb w hw
    exact (update_of_ne hne ..).trans (h.buffered j w hw)
  · rcases Set.mem_insert_iff.mp hw with heq | hold
    · cases heq
      exact update_self ..
    have hne : j ≠ k := by
      rintro rfl
      exact hf w hold
    exact (update_of_ne hne ..).trans (h.flying j w hold hfree)
  · have hne : j ≠ k := by
      rintro rfl
      exact hfj v (Set.mem_insert ..)
    have hold : Free s.flight j := fun w hw => hfj w (Set.mem_insert_of_mem _ hw)
    exact (h.rest j hbj hold).trans (update_of_ne hne ..).symm

theorem fresh_take (h : Fresh s) (hd : ∀ k v, (k, v) ∈ s.buffer → Free s.flight k) : Fresh s.take := by
  refine ⟨fun j w hw => absurd hw (Set.notMem_empty _), fun j w hw _ => ?_, fun j _ hf => ?_⟩
  · rcases hw with hw | hw
    · exact h.flying j w hw fun v hv => hd j v hv w hw
    · exact h.buffered j w hw
  · exact h.rest j (fun v hv => hf v (.inr hv)) fun v hv => hf v (.inl hv)

theorem fresh_land (h : Fresh s) {x : κ × β} {rest : Set (κ × β)} (hx : x ∈ s.flight) (hrest : rest ⊆ s.flight)
    (hother : ∀ y ∈ s.flight, y ≠ x → y ∈ rest) : Fresh (s.land x rest) := by
  obtain ⟨k, v⟩ := x
  refine ⟨h.buffered, fun j w hw => h.flying j w (hrest hw), fun j hb hf => ?_⟩
  by_cases hj : j = k
  · subst hj
    exact (update_self ..).trans (h.flying j v hx hb).symm
  · refine (update_of_ne hj ..).trans (h.rest j hb fun w hw => ?_)
    exact hf w (hother _ hw fun heq => hj (congrArg Prod.fst heq))

/-- **With nothing deferred the record has the last value of every key.** -/
theorem Fresh.settled (h : Fresh s) (hb : s.buffer = ∅) (hf : s.flight = ∅) (k : κ) : s.record k = s.last k :=
  h.rest k (hb ▸ free_empty k) (hf ▸ free_empty k)

end Writeback
