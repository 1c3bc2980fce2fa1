import Mathlib.Data.List.AList
import Cpip.Lib.Run
import Cpip.Lib.Writeback

/-!
# Cache: write-behind

A `Set` leaves its write in the buffer, or makes it at once when the buffer is full; a flush takes the whole buffer
and makes the writes in any order, and flushes overlap.  No writer fails.

* `Behind.deferred`, `good_next`  the state as deferred writes, **and that a step keeps the last values**;
* `final_flush`  **after a final flush the record holds the value of the last set**.
-/

namespace Cache

open Lts AList List Writeback

/-! ## the buffer -/

structure WriteOp where
  cache : String
  key : String
  value : String
  writer : String
deriving DecidableEq

abbrev Slot := String × String

def WriteOp.slot (op : WriteOp) : Slot := (op.writer, op.key)

def coalesceKey (cache key : String) : String := cache ++ "\x00" ++ key

def WriteOp.coalesced (op : WriteOp) : String := coalesceKey op.cache op.key

abbrev Pending := AList fun _ : String => WriteOp

def Pending.ops (p : Pending) : List WriteOp := p.entries.map Sigma.snd

abbrev Record := AList fun _ : Slot => String

def Record.write (r : Record) (op : WriteOp) : Record := r.insert op.slot op.value

/-- `enqueue`: the buffer, and the write that is made at once because it is full -/
def enqueue (bound : Int) (pending : Pending) (op : WriteOp) : Pending × Option WriteOp :=
  if bound ≤ pending.keys.length then (pending, some op) else (pending.insert op.coalesced op, none)

/-! ## sets and flushes -/

/-- the buffer, what the flushes have still to write, a set around the full buffer, and the record -/
structure Behind where
  pending : Pending := ∅
  batches : List (List WriteOp) := []
  setter : Option WriteOp := none
  record : Record := ∅
  last : Record := ∅

namespace Behind

/-- a set, whose cache entry was written or not; its own write; a flush takes the buffer; a flush makes one
of its writes -/
inductive Step where
  | set (op : WriteOp) (stored : Bool)
  | overflow
  | flush
  | write (b i : Nat)

/-- `Engine.Set` on a write-behind cache and `flushAll`; sets do not overlap -/
def next (bound : Int) (s : Behind) : Step → Option Behind
  | .set op stored =>
    if s.setter ≠ none then none
    else if stored then
      some { s with
        pending := (enqueue bound s.pending op).1
        setter := (enqueue bound s.pending op).2
        last := s.last.write op }
    else some s
  | .overflow =>
    match s.setter with
    | none => none
    | some op => some { s with setter := none, record := s.record.write op }
  | .flush =>
    if s.pending.keys.length = 0 then some s
    else some { s with pending := ∅, batches := s.batches ++ [s.pending.ops] }
  | .write b i =>
    match s.batches[b]? with
    | none => none
    | some batch =>
      match batch[i]? with
      | none => none
      | some op => some { s with batches := s.batches.set b (batch.eraseIdx i), record := s.record.write op }

def taken (s : Behind) : List WriteOp := s.batches.flatten

/-! ## the condition -/

/-- a write under the key of a set is for its place, a full buffer has none for it, and no flush overtakes another -/
def Orderly (bound : Int) (s : Behind) : Step → Prop
  | .set op _ =>
    if bound ≤ s.pending.keys.length then ∀ p ∈ s.pending.ops ++ s.taken, p.slot ≠ op.slot
    else ∀ p ∈ s.pending.ops, p.coalesced = op.coalesced ↔ p.slot = op.slot
  | .flush => ∀ p ∈ s.pending.ops, ∀ q ∈ s.taken, q.slot ≠ p.slot
  | _ => True

instance (bound : Int) (s : Behind) : ∀ l, Decidable (Orderly bound s l) := by
  intro l
  unfold Orderly
  split <;> infer_instance

/-! ## the state as deferred writes -/

def writes (l : List WriteOp) : Set (Slot × String) := {x | x ∈ l.map fun op => (op.slot, op.value)}

def deferred (s : Behind) : State Slot String where
  buffer := writes s.pending.ops
  flight := writes (s.taken ++ s.setter.toList)
  record k := s.record.lookup k
  last k := s.last.lookup k

structure Good (s : Behind) : Prop where
  keyed : ∀ k op, s.pending.lookup k = some op → k = op.coalesced
  apart : ∀ op ∈ s.setter, ∀ p ∈ s.pending.ops, p.slot ≠ op.slot
  fresh : Fresh s.deferred

section
variable {bound : Int} {s s' : Behind} {op : WriteOp} {pending : Pending} {l : List WriteOp}

theorem mem_writes {x : Slot × String} : x ∈ writes l ↔ ∃ op ∈ l, (op.slot, op.value) = x := mem_map

theorem mem_ops : op ∈ pending.ops ↔ ∃ k, pending.lookup k = some op := by
  constructor
  · intro h
    obtain ⟨e, he, rfl⟩ := mem_map.mp h
    exact ⟨e.1, mem_lookup_iff.mpr he⟩
  · rintro ⟨k, hk⟩
    exact mem_map.mpr ⟨⟨k, op⟩, mem_lookup_iff.mp hk, rfl⟩

theorem mem_ops_insert (hk : ∀ k op, pending.lookup k = some op → k = op.coalesced) {p : WriteOp} :
    p ∈ Pending.ops (pending.insert op.coalesced op) ↔ p = op ∨ p ∈ pending.ops ∧ p.coalesced ≠ op.coalesced := by
  rw [mem_ops, mem_ops]
  constructor
  · rintro ⟨k, h⟩
    by_cases hc : k = op.coalesced
    · subst hc
      rw [lookup_insert] at h
      exact .inl (Option.some.inj h).symm
    · rw [lookup_insert_ne hc] at h
      exact .inr ⟨⟨k, h⟩, hk k p h ▸ hc⟩
  · rintro (rfl | ⟨⟨k, h⟩, hc⟩)
    · exact ⟨_, lookup_insert _⟩
    refine ⟨k, ?_⟩
    rw [lookup_insert_ne (hk k p h ▸ hc)]
    exact h

theorem free_writes {slot : Slot} (h : ∀ p ∈ l, p.slot ≠ slot) : Free (writes l) slot := by
  intro v hv
  obtain ⟨p, hp, heq⟩ := mem_writes.mp hv
  exact h p hp (congrArg Prod.fst heq)

theorem lookup_write (r : Record) (op : WriteOp) :
    (fun k => (r.write op).lookup k) = Function.update (fun k => r.lookup k) op.slot (some op.value) := by
  funext k
  by_cases hk : k = op.slot
  · subst hk
    rw [Function.update_self]
    exact lookup_insert _
  · rw [Function.update_of_ne hk]
    exact lookup_insert_ne hk

theorem writes_append (a b : List WriteOp) : writes (a ++ b) = writes a ∪ writes b := by
  ext x
  rw [Set.mem_union, mem_writes, mem_writes, mem_writes]
  simp only [mem_append, or_and_right, exists_or]

theorem writes_singleton (op : WriteOp) : writes [op] = {(op.slot, op.value)} := by
  ext x
  rw [mem_writes, Set.mem_singleton_iff]
  simp only [mem_singleton, exists_eq_left]
  exact eq_comm

theorem writes_insert (hk : ∀ k op, pending.lookup k = some op → k = op.coalesced)
    (ho : ∀ p ∈ pending.ops, p.coalesced = op.coalesced ↔ p.slot = op.slot) :
    writes (Pending.ops (pending.insert op.coalesced op)) =
      insert (op.slot, op.value) {x ∈ writes pending.ops | x.1 ≠ op.slot} := by
  ext x
  rw [mem_writes, Set.mem_insert_iff, Set.mem_sep_iff, mem_writes]
  constructor
  · rintro ⟨p, hp, rfl⟩
    rcases (mem_ops_insert hk).mp hp with rfl | ⟨hmem, hne⟩
    · exact .inl rfl
    · exact .inr ⟨⟨p, hmem, rfl⟩, fun hs => hne ((ho p hmem).mpr hs)⟩
  · rintro (rfl | ⟨⟨p, hp, rfl⟩, hne⟩)
    · exact ⟨op, (mem_ops_insert hk).mpr (.inl rfl), rfl⟩
    · exact ⟨p, (mem_ops_insert hk).mpr (.inr ⟨hp, fun hc => hne ((ho p hp).mp hc)⟩), rfl⟩

/-! ## the steps -/

theorem good_buffered (h : Good s) (hs : s.setter = none)
    (ho : ∀ p ∈ s.pending.ops, p.coalesced = op.coalesced ↔ p.slot = op.slot) :
    Good { s with pending := s.pending.insert op.coalesced op, setter := none, last := s.last.write op } := by
  refine ⟨fun k p hp => ?_, nofun, ?_⟩
  · by_cases hk : k = op.coalesced
    · subst hk
      rw [lookup_insert] at hp
      cases hp
      rfl
    · rw [lookup_insert_ne hk] at hp
      exact h.keyed k p hp
  · have heq : deferred { s with
        pending := s.pending.insert op.coalesced op
        setter := none
        last := s.last.write op } = s.deferred.put op.slot op.value := by
      refine State.ext (writes_insert h.keyed ho) ?_ rfl (lookup_write s.last op)
      show writes (s.taken ++ Option.toList none) = writes (s.taken ++ s.setter.toList)
      rw [hs]
    rw [heq]
    exact fresh_put h.fresh

theorem good_full (h : Good s) (hs : s.setter = none) (ho : ∀ p ∈ s.pending.ops ++ s.taken, p.slot ≠ op.slot) :
    Good { s with setter := some op, last := s.last.write op } := by
  have hp : ∀ p ∈ s.pending.ops, p.slot ≠ op.slot := fun p hp => ho p (mem_append_left _ hp)
  refine ⟨h.keyed, fun op' hop' => ?_, ?_⟩
  · cases hop'
    exact hp
  have hflight : s.deferred.flight = writes s.taken := by
    show writes (s.taken ++ s.setter.toList) = _
    rw [hs, Option.toList_none, append_nil]
  have heq : deferred { s with setter := some op, last := s.last.write op } =
      s.deferred.direct op.slot op.value := by
    refine State.ext rfl ?_ rfl (lookup_write s.last op)
    show writes (s.taken ++ [op]) = insert _ s.deferred.flight
    rw [hflight, writes_append, writes_singleton, Set.union_singleton]
  rw [heq]
  refine fresh_direct h.fresh (free_writes hp) ?_
  rw [hflight]
  exact free_writes fun p hp => ho p (mem_append_right _ hp)

theorem good_overflow (h : Good s) (hs : s.setter = some op) :
    Good { s with setter := none, record := s.record.write op } := by
  have hflight : s.deferred.flight = writes s.taken ∪ {(op.slot, op.value)} := by
    show writes (s.taken ++ s.setter.toList) = _
    rw [hs, Option.toList_some, writes_append, writes_singleton]
  refine ⟨h.keyed, nofun, ?_⟩
  have heq : deferred { s with setter := none, record := s.record.write op } =
      s.deferred.land (op.slot, op.value) (writes s.taken) := by
    refine State.ext rfl ?_ (lookup_write s.record op) rfl
    show writes (s.taken ++ []) = _
    rw [append_nil]
    rfl
  rw [heq]
  refine fresh_land h.fresh ?_ ?_ fun y hy hne => ?_
  · rw [hflight]
    exact .inr rfl
  · rw [hflight]
    exact Set.subset_union_left
  · rw [hflight] at hy
    exact hy.resolve_right hne

theorem good_flush (h : Good s) (ho : ∀ p ∈ s.pending.ops, ∀ q ∈ s.taken, q.slot ≠ p.slot) :
    Good { s with pending := ∅, batches := s.batches ++ [s.pending.ops] } := by
  refine ⟨nofun, nofun, ?_⟩
  have heq : deferred { s with pending := ∅, batches := s.batches ++ [s.pending.ops] } =
      s.deferred.take := by
    refine State.ext ?_ ?_ rfl rfl
    · refine Set.eq_empty_of_forall_notMem fun x hx => ?_
      cases hx
    show writes ((s.batches ++ [s.pending.ops]).flatten ++ s.setter.toList) =
      writes (s.taken ++ s.setter.toList) ∪ writes s.pending.ops
    rw [flatten_append, flatten_singleton, writes_append, writes_append, writes_append, Set.union_right_comm]
    rfl
  rw [heq]
  refine fresh_take h.fresh fun slot v hv => free_writes fun q hq => ?_
  obtain ⟨p, hp, hpv⟩ := mem_writes.mp hv
  cases hpv
  rcases mem_append.mp hq with hq | hq
  · exact ho p hp q hq
  · exact (h.apart q (Option.mem_toList.mp hq) p hp).symm

theorem good_write (h : Good s) {b i : Nat} {batch : List WriteOp} (hb : s.batches[b]? = some batch)
    (hi : batch[i]? = some op) :
    Good { s with batches := s.batches.set b (batch.eraseIdx i), record := s.record.write op } := by
  refine ⟨h.keyed, h.apart, ?_⟩
  have heq : deferred { s with batches := s.batches.set b (batch.eraseIdx i), record := s.record.write op } =
      s.deferred.land (op.slot, op.value)
        (writes ((s.batches.set b (batch.eraseIdx i)).flatten ++ s.setter.toList)) :=
    State.ext rfl rfl (lookup_write s.record op) rfl
  rw [heq]
  have hmem : batch ∈ s.batches := mem_of_getElem? hb
  refine fresh_land h.fresh ?_ ?_ ?_
  · refine mem_writes.mpr ⟨op, mem_append_left _ ?_, rfl⟩
    exact mem_flatten.mpr ⟨batch, hmem, mem_of_getElem? hi⟩
  · intro x hx
    obtain ⟨p, hp, rfl⟩ := mem_writes.mp hx
    refine mem_writes.mpr ⟨p, ?_, rfl⟩
    rcases mem_append.mp hp with hp | hp
    · obtain ⟨c, hc, hpc⟩ := mem_flatten.mp hp
      refine mem_append_left _ (mem_flatten.mpr ?_)
      rcases mem_or_eq_of_mem_set hc with hc | rfl
      · exact ⟨c, hc, hpc⟩
      · exact ⟨batch, hmem, mem_of_mem_eraseIdx hpc⟩
    · exact mem_append_right _ hp
  · intro x hx hne
    obtain ⟨p, hp, rfl⟩ := mem_writes.mp hx
    refine mem_writes.mpr ⟨p, ?_, rfl⟩
    rcases mem_append.mp hp with hp | hp
    · obtain ⟨c, hc, hpc⟩ := mem_flatten.mp hp
      refine mem_append_left _ (mem_flatten.mpr ?_)
      obtain ⟨n, hn, rfl⟩ := mem_iff_getElem.mp hc
      by_cases hnb : n = b
      · subst hnb
        rw [getElem?_eq_getElem hn] at hb
        cases hb
        refine ⟨_, mem_set hn _, mem_eraseIdx_of_ne hi hpc ?_⟩
        rintro rfl
        exact hne rfl
      · refine ⟨s.batches[n], mem_iff_getElem?.mpr ⟨n, ?_⟩, hpc⟩
        rw [getElem?_set_ne (Ne.symm hnb), getElem?_eq_getElem hn]
    · exact mem_append_right _ hp

theorem good_start : Good {} := by
  refine ⟨nofun, nofun, ?_⟩
  refine ⟨nofun, nofun, fun slot _ _ => rfl⟩

/-- **A step keeps the last value of every place in the buffer, on its way or in the record.** -/
theorem good_next (h : Good s) {l : Step} (ho : Orderly bound s l) (hn : s.next bound l = some s') : Good s' := by
  cases l with
  | set op stored =>
    unfold next at hn
    unfold Orderly at ho
    dsimp only at hn ho
    split at hn
    · cases hn
    rename_i hset
    have hs : s.setter = none := not_not.mp hset
    split at hn
    · cases hn
      unfold enqueue
      split at ho
      · rename_i hfull
        rw [if_pos hfull]
        exact good_full h hs ho
      · rename_i hroom
        rw [if_neg hroom]
        exact good_buffered h hs ho
    · cases hn
      exact h
  | overflow =>
    unfold next at hn
    dsimp only at hn
    split at hn
    · cases hn
    rename_i op hs
    cases hn
    exact good_overflow h hs
  | flush =>
    unfold next at hn
    dsimp only at hn
    split at hn
    · cases hn
      exact h
    · cases hn
      exact good_flush h ho
  | write b i =>
    unfold next at hn
    dsimp only at hn
    split at hn
    · cases hn
    rename_i batch hb
    split at hn
    · cases hn
    rename_i op hi
    cases hn
    exact good_write h hb hi

/-! ## the final flush -/

def Step.draining : Step → Bool
  | .flush => true
  | .write _ _ => true
  | _ => false

/-- a flush with number `n` is the only one that has anything to write, and the buffer is empty -/
structure Draining (n : Nat) (s : Behind) : Prop where
  pending : s.pending.keys.length = 0
  setter : s.setter = none
  batches : ∀ m b, s.batches[m]? = some b → m ≠ n → b = []

theorem ops_of_empty {pending : Pending} (h : pending.keys.length = 0) : pending.ops = [] := by
  have he : pending.entries = [] := map_eq_nil_iff.mp (length_eq_zero_iff.mp h)
  show pending.entries.map Sigma.snd = []
  rw [he]
  rfl

theorem Draining.settled {n : Nat} (h : Draining n s) (hg : Good s) (hret : ∀ b ∈ s.batches[n]?, b = []) (slot : Slot) :
    s.record.lookup slot = s.last.lookup slot := by
  have hbuffer : s.deferred.buffer = ∅ := by
    show writes s.pending.ops = ∅
    rw [ops_of_empty h.pending]
    exact Set.eq_empty_of_forall_notMem fun x hx => by cases hx
  have htaken : s.taken = [] := by
    refine flatten_eq_nil_iff.mpr fun b hb => ?_
    obtain ⟨m, hm⟩ := mem_iff_getElem?.mp hb
    by_cases hmn : m = n
    · subst hmn
      exact hret b hm
    · exact h.batches m b hm hmn
  have hflight : s.deferred.flight = ∅ := by
    show writes (s.taken ++ s.setter.toList) = ∅
    rw [htaken, h.setter]
    exact Set.eq_empty_of_forall_notMem fun x hx => by cases hx
  exact hg.fresh.settled hbuffer hflight slot

theorem draining_flush (hset : s.setter = none) (hquiet : ∀ b ∈ s.batches, b = [])
    (hn : s.next bound .flush = some s') : Draining s.batches.length s' := by
  have hold : ∀ m b, s.batches[m]? = some b → b = [] := fun m b hb => hquiet b (mem_of_getElem? hb)
  unfold next at hn
  dsimp only at hn
  split at hn
  · rename_i hempty
    cases hn
    exact ⟨hempty, hset, fun m b hb _ => hold m b hb⟩
  · cases hn
    refine ⟨rfl, hset, fun m b hb hne => ?_⟩
    have hlt : m < s.batches.length := by
      obtain ⟨hlt, -⟩ := List.getElem?_eq_some_iff.mp hb
      rw [length_append, length_singleton] at hlt
      omega
    rw [getElem?_append_left hlt] at hb
    exact hold m b hb

theorem draining_next {n : Nat} (h : Draining n s) {l : Step} (hl : l.draining = true)
    (hn : s.next bound l = some s') : Draining n s' ∧ Orderly bound s l := by
  cases l with
  | set op stored | overflow => cases hl
  | flush =>
    unfold next at hn
    rw [if_pos h.pending] at hn
    cases hn
    refine ⟨h, fun p hp => ?_⟩
    rw [ops_of_empty h.pending] at hp
    cases hp
  | write b i =>
    unfold next at hn
    dsimp only at hn
    split at hn
    · cases hn
    rename_i batch hb
    split at hn
    · cases hn
    cases hn
    refine ⟨⟨h.pending, h.setter, fun m c hc hmn => ?_⟩, trivial⟩
    by_cases hmb : m = b
    · subst hmb
      have hnil := h.batches m batch hb hmn
      subst hnil
      rename_i hi
      cases hi
    · rw [getElem?_set_ne (Ne.symm hmb)] at hc
      exact h.batches m c hc hmn

/-- **After a final flush the record holds for every place the value of the last set.** -/
theorem final_flush {ls ls' : List Step} {t u : Behind} (hC : Along (next bound) (Orderly bound) {} ls)
    (hr : run (next bound) {} ls = some s) (hset : s.setter = none) (hquiet : ∀ b ∈ s.batches, b = [])
    (hf : s.next bound .flush = some t) (hls : ∀ l ∈ ls', l.draining = true)
    (hr' : run (next bound) t ls' = some u) (hret : ∀ b ∈ u.batches[s.batches.length]?, b = [])
    (slot : Slot) : u.record.lookup slot = u.last.lookup slot := by
  have hg : Good s := run_inv (fun _ _ _ hg ho hn => good_next hg ho hn) good_start hC hr
  have hflush : Orderly bound s .flush := by
    intro p _ q hq
    obtain ⟨b, hb, hqb⟩ := mem_flatten.mp hq
    rw [hquiet b hb] at hqb
    cases hqb
  have h0 : Good t ∧ Draining s.batches.length t := ⟨good_next hg hflush hf, draining_flush hset hquiet hf⟩
  have hd : Along (next bound) (fun _ l => l.draining = true) t ls' := along_of_forall hls t
  have hu : Good u ∧ Draining s.batches.length u := by
    refine run_inv (I := fun a => Good a ∧ Draining s.batches.length a) (fun a l a' ha hl hn => ?_) h0 hd hr'
    obtain ⟨hd', ho⟩ := draining_next ha.2 hl hn
    exact ⟨good_next ha.1 ho hn, hd'⟩
  exact hu.2.settled hu.1 hret slot

end

/-! ## runs -/

def orderlyRun : List Step :=
  [.set ⟨"c", "k", "1", "w"⟩ true, .flush, .set ⟨"c", "k", "2", "w"⟩ true, .set ⟨"c", "j", "5", "w"⟩ true,
   .write 0 0, .flush, .set ⟨"c", "j", "6", "w"⟩ true, .write 1 1, .write 1 0]

theorem final_flush_orderlyRun : Along (next 2) (Orderly 2) {} orderlyRun ∧
    ∃ s ∈ run (next 2) {} orderlyRun, ∃ t ∈ s.next 2 .flush, ∃ u ∈ run (next 2) t [.write 2 0],
      ∀ slot, u.record.lookup slot = u.last.lookup slot := by
  have hend : ∃ s ∈ run (next 2) {} orderlyRun, s.setter = none ∧ (∀ b ∈ s.batches, b = []) ∧
      ∃ t ∈ s.next 2 .flush, ∃ u ∈ run (next 2) t [.write 2 0],
        ∀ b ∈ u.batches[s.batches.length]?, b = [] := by decide +kernel
  obtain ⟨s, hs, hset, hquiet, t, ht, u, hu, hret⟩ := hend
  refine ⟨?hC, s, hs, t, ht, u, hu, fun slot => final_flush ?hC hs hset hquiet ht (by decide) hu hret slot⟩
  decide +kernel

/-- the second value is written around the full buffer, and the final flush writes the first one over it -/
def overflowRun : List Step :=
  [.set ⟨"c", "k", "1", "w"⟩ true, .set ⟨"c", "k", "2", "w"⟩ true, .overflow, .flush, .write 0 0]

/-- **The record ends with a value that is not that of the last set.** -/
theorem overflow_undone : ∃ s ∈ run (next 1) {} overflowRun,
    s.setter = none ∧ s.pending.keys = [] ∧ s.batches = [[]] ∧
    s.record.lookup ("w", "k") = some "1" ∧ s.last.lookup ("w", "k") = some "2" := by decide +kernel

-- two flushes that overlap: the newer value is written first
example : ∃ s ∈ run (next 4) {}
    [.set ⟨"c", "k", "1", "w"⟩ true, .flush, .set ⟨"c", "k", "2", "w"⟩ true, .flush, .write 1 0, .write 0 0],
    s.record.lookup ("w", "k") = some "1" ∧ s.last.lookup ("w", "k") = some "2" := by decide +kernel

end Behind

end Cache
