import Mathlib.Data.List.Sort
import Cpip.Queue.Types

/-!
# Queue: streams with consumer groups

The operations of `redisstream.Emulator` on one stream, over an arbitrary type `φ` of field maps.

* `readGroup_one`  a read of one entry hands out the first live entry above the cursor.

The emulator finds a live entry through an index; here it is looked up among the entries.  Its map of pending
entries is a list with one record an identifier.
-/

namespace Queue

open List Option ID

open Function (update update_eq_self update_self)

/-! ## identifiers -/

def ID.zero : ID := ⟨0, 0⟩

def ID.less (a b : ID) : Bool :=
  if a.ms ≠ b.ms then decide (a.ms < b.ms) else decide (a.seq < b.seq)

variable {a b : ID}

theorem ID.less_iff : a.less b = true ↔ a.ms < b.ms ∨ a.ms = b.ms ∧ a.seq < b.seq := by
  unfold less
  split
  · rename_i h
    simp only [decide_eq_true_eq]
    omega
  · rename_i h
    simp only [decide_eq_true_eq]
    omega

theorem ID.less_irrefl (a : ID) : a.less a = false := by
  rw [Bool.eq_false_iff, Ne, less_iff]
  omega

theorem ID.less_trans {c : ID} (h : a.less b = true) (h' : b.less c = true) : a.less c = true := by
  rw [less_iff] at *
  omega

theorem ID.less_total (h : a.less b = false) : b.less a = true ∨ a = b := by
  rw [Bool.eq_false_iff, Ne, less_iff] at h
  by_cases hb : b.less a = true
  · exact .inl hb
  rw [less_iff] at hb
  refine .inr ?_
  cases a
  cases b
  simp only [mk.injEq] at *
  omega

theorem ID.less_of_not_less {c : ID} (h : b.less a = false) (h' : b.less c = true) : a.less c = true := by
  rcases less_total h with h | h
  · exact less_trans h h'
  · exact h ▸ h'

theorem ID.not_less_trans {c : ID} (h : a.less b = false) (h' : b.less c = false) : a.less c = false := by
  rw [Bool.eq_false_iff, Ne]
  intro hac
  rw [less_of_not_less h hac] at h'
  cases h'

theorem ID.less_asymm (h : a.less b = true) : b.less a = false := by
  rw [Bool.eq_false_iff, Ne]
  intro h'
  have := less_trans h h'
  rw [less_irrefl] at this
  cases this

theorem ID.ne_of_less (h : a.less b = true) : a ≠ b := by
  rintro rfl
  rw [less_irrefl] at h
  cases h

def unixMilli (now : Int) : Int := now / 1000000

def nextID (last : ID) (now : Int) : ID :=
  if unixMilli now > last.ms then ⟨unixMilli now, 0⟩ else ⟨last.ms, last.seq + 1⟩

theorem nextID_less (last : ID) (now : Int) : last.less (nextID last now) = true := by
  rw [less_iff]
  unfold nextID
  split
  · exact .inl ‹unixMilli now > last.ms›
  · exact .inr ⟨rfl, Nat.lt_succ_self _⟩

/-! ## streams -/

structure Entry (φ : Type) where
  id : ID
  fields : φ
  deleted : Bool := false
deriving DecidableEq

structure Pending where
  id : ID
  consumer : String
  deliveredAt : Int
  count : Nat

structure Group where
  lastDelivered : ID
  pending : List Pending

structure Stream (φ : Type) where
  entries : List (Entry φ) := []
  groups : String → Option Group := fun _ => none

/-- where a new group starts: at the beginning, or after the entries there are (`"$"`) -/
inductive Start where
  | zero
  | dollar

def Group.put (g : Group) (p : Pending) : List Pending := p :: g.pending.filter (·.id ≠ p.id)

section
variable {φ : Type} (s : Stream φ)

def Stream.index (id : ID) : Option φ :=
  (s.entries.find? fun e => e.id = id && !e.deleted).map Entry.fields

def Stream.add (id : ID) (fields : φ) : Stream φ :=
  { s with entries := s.entries ++ [⟨id, fields, false⟩] }

variable (group : String)

def Stream.createGroup (start : Start) : Stream φ :=
  match s.groups group with
  | some _ => s
  | none =>
    let last :=
      match start, s.entries.getLast? with
      | .dollar, some e => e.id
      | _, _ => zero
    { s with groups := update s.groups group (some ⟨last, []⟩) }

/-- the loop of `Emulator.ReadGroup`: deleted and delivered entries are passed over; `now` is read for each entry -/
def scan (noAck : Bool) (consumer : String) (now : ID → Int) : Nat → List (Entry φ) → Group → List (Entry φ) × Group
  | 0, _, g => ([], g)
  | _ + 1, [], g => ([], g)
  | n + 1, e :: es, g =>
    if e.deleted || !g.lastDelivered.less e.id then scan noAck consumer now (n + 1) es g
    else
      let r := scan noAck consumer now n es ⟨e.id, if noAck then g.pending else g.put ⟨e.id, consumer, now e.id, 1⟩⟩
      (e :: r.1, r.2)

/-- hand out the next entries of a group (`Emulator.ReadGroup`, one pass without blocking) -/
def Stream.readGroup (group consumer : String) (count : Int) (noAck : Bool) (now : ID → Int) :
    Option (List (Entry φ) × Stream φ) :=
  (s.groups group).map fun g =>
    let n := if count ≤ 0 then s.entries.length else count.toNat
    let r := scan noAck consumer now n s.entries g
    (r.1, { s with groups := update s.groups group (some r.2) })

def Stream.ack (id : ID) : Stream φ :=
  match s.groups group with
  | none => s
  | some g =>
    { s with
      groups := update s.groups group (some { g with pending := g.pending.filter (·.id ≠ id) }) }

def Stream.pending (id : ID) : Option Nat :=
  (s.groups group).bind fun g => (g.pending.find? (·.id = id)).map Pending.count

/-- what a scan of the pending list returns: the list, the claimed records with their fields, and the next cursor -/
structure Claimed (φ : Type) where
  pending : List Pending
  entries : List (Entry φ)
  next : ID

/-- the loop of `Emulator.AutoClaim` over the pending list in the order of identifiers, for at
most `n` entries from `start` on -/
def claim (index : ID → Option φ) (start : ID) (consumer : String) (minIdle now : Int) :
    Nat → List Pending → Claimed φ
  | _, [] => ⟨[], [], zero⟩
  | n, p :: ps =>
    if p.id.less start || decide (now - p.deliveredAt < minIdle) then
      let r := claim index start consumer minIdle now n ps
      { r with pending := p :: r.pending }
    else
      match index p.id with
      -- an entry that was deleted from the stream is dropped
      | none => claim index start consumer minIdle now n ps
      | some f =>
        match n with
        | 0 => ⟨p :: ps, [], p.id⟩
        | n + 1 =>
          let r := claim index start consumer minIdle now n ps
          ⟨⟨p.id, consumer, now, p.count + 1⟩ :: r.pending, ⟨p.id, f, false⟩ :: r.entries, r.next⟩

def sortPending (ps : List Pending) : List Pending :=
  ps.insertionSort fun a b => b.id.less a.id = false

/-- reassign idle pending entries (`Emulator.AutoClaim`); a count of zero claims a hundred -/
def Stream.autoClaim (group consumer : String) (minIdle : Int) (start : ID)
    (count : Nat) (now : Int) : ID × List (Entry φ) × Stream φ :=
  match s.groups group with
  | none => (zero, [], s)
  | some g =>
    let n := if count = 0 then 100 else count
    let r := claim s.index start consumer minIdle now n (sortPending g.pending)
    (r.next, r.entries,
      { s with groups := update s.groups group (some { g with pending := r.pending }) })

def Stream.delete (id : ID) : Stream φ :=
  { s with entries := s.entries.map fun e => if e.id = id then { e with deleted := true } else e }

def Stream.len : Nat := (s.entries.filter fun e => !e.deleted).length

/-! ## entries -/

section
variable {s : Stream φ}

@[simp] theorem createGroup_entries (start : Start) :
    (s.createGroup group start).entries = s.entries := by
  unfold Stream.createGroup
  split <;> rfl

@[simp] theorem ack_entries (id : ID) : (s.ack group id).entries = s.entries := by
  unfold Stream.ack
  split <;> rfl

@[simp] theorem autoClaim_entries (group consumer : String) (minIdle : Int) (start : ID) (count : Nat) (now : Int) :
    (s.autoClaim group consumer minIdle start count now).2.2.entries = s.entries := by
  unfold Stream.autoClaim
  split <;> rfl

theorem mem_delete {id : ID} {e : Entry φ} : e ∈ (s.delete id).entries ↔
    ∃ x ∈ s.entries, (if x.id = id then { x with deleted := true } else x) = e :=
  mem_map

theorem index_eq_some {id : ID} {f : φ} (h : s.index id = some f) :
    ∃ e ∈ s.entries, e.id = id ∧ e.fields = f ∧ e.deleted = false := by
  obtain ⟨e, he, rfl⟩ := map_eq_some_iff.mp h
  have hp := find?_some he
  simp only [Bool.and_eq_true, decide_eq_true_eq, Bool.not_eq_true'] at hp
  exact ⟨e, mem_of_find?_eq_some he, hp.1, rfl, hp.2⟩

end

/-- **Identifiers grow along the entries and stay below the last one issued.** -/
structure Ordered (es : List (Entry φ)) (last : ID) : Prop where
  sorted : es.Pairwise fun a b => a.id.less b.id = true
  below : ∀ e ∈ es, last.less e.id = false

section
variable {es : List (Entry φ)} {last : ID}

theorem Ordered.add (h : Ordered es last) (f : φ) (now : Int) :
    Ordered (es ++ [⟨nextID last now, f, false⟩]) (nextID last now) := by
  have hnew : ∀ e ∈ es, e.id.less (nextID last now) = true := fun e he =>
    less_of_not_less (h.below e he) (nextID_less last now)
  constructor
  · refine pairwise_append.mpr ⟨h.sorted, pairwise_singleton .., fun a ha b hb => ?_⟩
    rw [mem_singleton.mp hb]
    exact hnew a ha
  · intro e he
    rcases mem_append.mp he with he | he
    · exact less_asymm (hnew e he)
    · rw [mem_singleton.mp he]
      exact less_irrefl _

theorem Ordered.issue (h : Ordered es last) (now : Int) : Ordered es (nextID last now) :=
  ⟨h.sorted, fun e he => less_asymm (less_of_not_less (h.below e he) (nextID_less last now))⟩

theorem Ordered.delete {s : Stream φ} (h : Ordered s.entries last) (id : ID) :
    Ordered (s.delete id).entries last := by
  have hid : ∀ x : Entry φ, (if x.id = id then { x with deleted := true } else x).id = x.id := by
    intro x
    split <;> rfl
  constructor
  · refine pairwise_map.mpr (h.sorted.imp ?_)
    intro a b hab
    rw [hid, hid]
    exact hab
  · intro e he
    obtain ⟨x, hx, rfl⟩ := mem_delete.mp he
    rw [hid]
    exact h.below x hx

theorem Ordered.unique (h : Ordered es last) {a b : Entry φ} (ha : a ∈ es) (hb : b ∈ es)
    (hid : a.id = b.id) : a = b := by
  have hp := h.sorted
  clear h
  induction es with
  | nil => cases ha
  | cons x xs ih =>
    obtain ⟨hx, hxs⟩ := pairwise_cons.mp hp
    rcases mem_cons.mp ha with hax | hax
    · rcases mem_cons.mp hb with hbx | hbx
      · rw [hax, hbx]
      · exact absurd hid (ne_of_less (hax ▸ hx b hbx))
    · rcases mem_cons.mp hb with hbx | hbx
      · exact absurd hid.symm (ne_of_less (hbx ▸ hx a hax))
      · exact ih hax hbx hxs

theorem Ordered.exists_last (h : Ordered es last) {p : Entry φ → Prop} (hp : ∃ e ∈ es, p e) :
    ∃ e ∈ es, p e ∧ ∀ x ∈ es, p x → e.id.less x.id = false := by
  have hs := h.sorted
  clear h
  induction es with
  | nil =>
    obtain ⟨e, he, -⟩ := hp
    cases he
  | cons y ys ih =>
    obtain ⟨hy, hys⟩ := pairwise_cons.mp hs
    by_cases hrest : ∃ e ∈ ys, p e
    · obtain ⟨e, he, hpe, hlast⟩ := ih hrest hys
      refine ⟨e, mem_cons_of_mem _ he, hpe, fun x hx hpx => ?_⟩
      rcases mem_cons.mp hx with rfl | hx
      · exact less_asymm (hy e he)
      · exact hlast x hx hpx
    · obtain ⟨e, he, hpe⟩ := hp
      have hey : e = y := by
        rcases mem_cons.mp he with rfl | he
        · rfl
        · exact absurd ⟨e, he, hpe⟩ hrest
      subst hey
      refine ⟨e, mem_cons_self .., hpe, fun x hx hpx => ?_⟩
      rcases mem_cons.mp hx with rfl | hx
      · exact less_irrefl _
      · exact absurd ⟨x, hx, hpx⟩ hrest

end

/-! ## new groups -/

variable {g : Group}

section
variable {s : Stream φ} {group : String}

theorem createGroup_some (h : s.groups group = some g) (start : Start) : s.createGroup group start = s := by
  simp only [Stream.createGroup, h]

/-- a group that starts at `"$"` starts after the entries there are -/
theorem createGroup_dollar {last : ID} (h : s.groups group = none) (ho : Ordered s.entries last)
    (hz : last.less zero = false) : ∃ cursor, s.createGroup group .dollar =
        { s with groups := update s.groups group (some ⟨cursor, []⟩) } ∧
      last.less cursor = false ∧ ∀ e ∈ s.entries, cursor.less e.id = false := by
  simp only [Stream.createGroup, h]
  cases hl : s.entries.getLast? with
  | none =>
    refine ⟨zero, rfl, hz, fun e he => ?_⟩
    rw [getLast?_eq_none_iff.mp hl] at he
    cases he
  | some x =>
    obtain ⟨init, hinit⟩ := getLast?_eq_some_iff.mp hl
    have hx : x ∈ s.entries := mem_of_getLast? hl
    refine ⟨x.id, rfl, ho.below x hx, fun e he => ?_⟩
    have hsorted := ho.sorted
    rw [hinit] at he hsorted
    rcases mem_append.mp he with he | he
    · exact less_asymm ((pairwise_append.mp hsorted).2.2 e he x (mem_singleton_self x))
    · rw [mem_singleton.mp he]
      exact less_irrefl _

end

/-! ## reads -/

section
variable {c : String} {now : Int} {s s' : Stream φ}

theorem scan_one (c : String) (now : Int) (es : List (Entry φ)) (g : Group) :
    (scan false c (fun _ => now) 1 es g = ([], g) ∧ ∀ e ∈ es, e.deleted = false → g.lastDelivered.less e.id = false) ∨
      ∃ pre e post, es = pre ++ e :: post ∧ e.deleted = false ∧ g.lastDelivered.less e.id = true ∧
        (∀ x ∈ pre, x.deleted = false → g.lastDelivered.less x.id = false) ∧
        scan false c (fun _ => now) 1 es g = ([e], ⟨e.id, g.put ⟨e.id, c, now, 1⟩⟩) := by
  induction es with
  | nil => exact .inl ⟨rfl, by simp⟩
  | cons x es ih =>
    by_cases hx : x.deleted || !g.lastDelivered.less x.id
    · have hskip : x.deleted = false → g.lastDelivered.less x.id = false := by
        intro hd
        simpa [hd] using hx
      have hscan : scan false c (fun _ => now) 1 (x :: es) g = scan false c (fun _ => now) 1 es g := by
        rw [scan, if_pos hx]
      rcases ih with ⟨h, hall⟩ | ⟨pre, e, post, rfl, hd, hl, hpre, h⟩
      · refine .inl ⟨hscan.trans h, fun e he => ?_⟩
        rcases mem_cons.mp he with rfl | he
        · exact hskip
        · exact hall e he
      · refine .inr ⟨x :: pre, e, post, rfl, hd, hl, fun y hy => ?_, hscan.trans h⟩
        rcases mem_cons.mp hy with rfl | hy
        · exact hskip
        · exact hpre y hy
    · have hx' : x.deleted = false ∧ g.lastDelivered.less x.id = true := by
        simpa using hx
      refine .inr ⟨[], x, es, rfl, hx'.1, hx'.2, by simp, ?_⟩
      rw [scan, if_neg hx]
      simp only [scan, Bool.false_eq_true, if_false]

theorem readGroup_one {group : String} {out : List (Entry φ)}
    (h : s.readGroup group c 1 false (fun _ => now) = some (out, s')) :
    ∃ g, s.groups group = some g ∧ ((out = [] ∧ s' = s) ∨
        ∃ pre e post, s.entries = pre ++ e :: post ∧ out = [e] ∧ e.deleted = false ∧
          g.lastDelivered.less e.id = true ∧
          (∀ x ∈ pre, x.deleted = false → g.lastDelivered.less x.id = false) ∧
          s' = { s with
            groups := update s.groups group (some ⟨e.id, g.put ⟨e.id, c, now, 1⟩⟩) }) := by
  obtain ⟨g, hg, h⟩ := map_eq_some_iff.mp h
  refine ⟨g, hg, ?_⟩
  dsimp only at h
  rw [if_neg (by decide : ¬ (1 : Int) ≤ 0), Int.toNat_one] at h
  rcases scan_one c now s.entries g with ⟨hs, -⟩ | ⟨pre, e, post, he, hd, hl, hpre, hs⟩
  · rw [hs] at h
    cases h
    refine .inl ⟨rfl, ?_⟩
    rw [← hg, update_eq_self]
  · rw [hs] at h
    cases h
    exact .inr ⟨pre, e, post, he, rfl, hd, hl, hpre, rfl⟩

end

/-! ## claims -/

variable {ps : List Pending}

section
variable {index : ID → Option φ} {start : ID} {c : String} {minIdle now : Int}

/-- what becomes of a record: it stays if it is passed over, it is dropped if its entry was deleted,
else it is claimed -/
def settle (index : ID → Option φ) (consumer : String) (now : Int) (skip : Pending → Bool)
    (p : Pending) : Option Pending :=
  if skip p then some p else (index p.id).map fun _ => ⟨p.id, consumer, now, p.count + 1⟩

def taken (index : ID → Option φ) (skip : Pending → Bool) (p : Pending) : Option (Entry φ) :=
  if skip p then none else (index p.id).map fun f => ⟨p.id, f, false⟩

def fresh (minIdle now : Int) (p : Pending) : Bool := decide (now - p.deliveredAt < minIdle)

def skips (start : ID) (minIdle now : Int) (p : Pending) : Bool :=
  p.id.less start || fresh minIdle now p

/-- **A scan settles the records up to the next cursor** and leaves the others. -/
theorem claim_eq (n : Nat) (ps : List Pending) : ∃ pre post, ps = pre ++ post ∧ claim index start c minIdle now n ps =
        ⟨pre.filterMap (settle index c now (skips start minIdle now)) ++ post,
          pre.filterMap (taken index (skips start minIdle now)),
          (post.head?.map Pending.id).getD zero⟩ ∧
      (n ≠ 0 → ps ≠ [] → pre ≠ []) := by
  induction ps generalizing n with
  | nil => exact ⟨[], [], rfl, rfl, fun _ h => h⟩
  | cons p ps ih =>
    by_cases hskip : p.id.less start || decide (now - p.deliveredAt < minIdle)
    · obtain ⟨pre, post, rfl, hc, -⟩ := ih n
      refine ⟨p :: pre, post, rfl, ?_, by simp⟩
      simp [claim, settle, taken, skips, fresh, hskip, hc]
    · cases hf : index p.id with
      | none =>
        obtain ⟨pre, post, rfl, hc, -⟩ := ih n
        refine ⟨p :: pre, post, rfl, ?_, by simp⟩
        simp [claim, settle, taken, skips, fresh, hskip, hf, hc]
      | some f =>
        cases n with
        | zero => exact ⟨[], p :: ps, rfl, by simp [claim, hskip, hf], by simp⟩
        | succ n =>
          obtain ⟨pre, post, rfl, hc, -⟩ := ih n
          refine ⟨p :: pre, post, rfl, ?_, by simp⟩
          simp [claim, settle, taken, skips, fresh, hskip, hf, hc]

section
variable {skip : Pending → Bool} {p q : Pending} {e : Entry φ}

theorem settle_eq (h : settle index c now skip p = some q) :
    q = p ∨ q = ⟨p.id, c, now, p.count + 1⟩ ∧ ∃ e, taken index skip p = some e ∧ e.id = p.id := by
  unfold settle at h
  unfold taken
  split at h
  · exact .inl (some.inj h).symm
  rename_i hskip
  obtain ⟨f, hf, rfl⟩ := map_eq_some_iff.mp h
  exact .inr ⟨rfl, _, by rw [if_neg hskip, hf]; rfl, rfl⟩

theorem taken_eq (h : taken index skip p = some e) : e.id = p.id ∧ index p.id = some e.fields ∧
      ∀ c now, settle index c now skip p = some ⟨p.id, c, now, p.count + 1⟩ := by
  unfold taken at h
  unfold settle
  split at h
  · cases h
  rename_i hskip
  obtain ⟨f, hf, rfl⟩ := map_eq_some_iff.mp h
  exact ⟨rfl, hf, fun c now => by rw [if_neg hskip, hf]; rfl⟩

theorem settle_id (h : settle index c now skip p = some q) : q.id = p.id := by
  rcases settle_eq h with rfl | ⟨rfl, -⟩ <;> rfl

end

theorem filterMap_ids {β : Type} {f : Pending → Option β} {k : β → ID}
    (h : ∀ p b, f p = some b → k b = p.id) (ps : List Pending) :
    ((ps.filterMap f).map k).Sublist (ps.map Pending.id) := by
  induction ps with
  | nil => exact List.Sublist.refl _
  | cons p ps ih =>
    cases hf : f p with
    | none =>
      rw [filterMap_cons_none hf]
      exact ih.cons _
    | some b =>
      rw [filterMap_cons_some hf, map_cons, h p b hf]
      exact ih.cons_cons _

theorem mem_sortPending {p : Pending} : p ∈ sortPending ps ↔ p ∈ ps :=
  (perm_insertionSort _ ps).mem_iff

theorem sortPending_ids (ps : List Pending) : ((sortPending ps).map Pending.id).Perm (ps.map Pending.id) :=
  (perm_insertionSort _ ps).map _

end

/-- what a claim of the entries `es` makes of a group -/
structure Claims (g g' : Group) (es : List (Entry φ)) : Prop where
  cursor : g'.lastDelivered = g.lastDelivered
  pending : ∀ p ∈ g'.pending, p ∈ g.pending ∨
    ∃ q ∈ g.pending, p.id = q.id ∧ p.count = q.count + 1 ∧ ∃ e ∈ es, e.id = q.id
  counts : ∀ e ∈ es, ∃ q ∈ g.pending, q.id = e.id ∧ ∃ p ∈ g'.pending, p.id = e.id ∧ p.count = q.count + 1
  records : (g.pending.map Pending.id).Nodup → (g'.pending.map Pending.id).Nodup
  distinct : (g.pending.map Pending.id).Nodup → (es.map Entry.id).Nodup

section
variable {s : Stream φ} {group c : String} {minIdle now : Int} {start : ID} {count : Nat}

def Stream.withPending (s : Stream φ) (group : String) (g : Group) (ps : List Pending) : Stream φ :=
  { s with groups := update s.groups group (some ⟨g.lastDelivered, ps⟩) }

theorem withPending_index (g : Group) (ps : List Pending) : (s.withPending group g ps).index = s.index := rfl

theorem withPending_again (g : Group) (ps qs : List Pending) :
    (s.withPending group g ps).withPending group ⟨g.lastDelivered, ps⟩ qs = s.withPending group g qs := by
  simp [Stream.withPending]

/-- **A claim settles the records up to its next cursor.** -/
theorem autoClaim_eq (hg : s.groups group = some g) : ∃ pre post, sortPending g.pending = pre ++ post ∧
      s.autoClaim group c minIdle start count now = ((post.head?.map Pending.id).getD zero,
          pre.filterMap (taken s.index (skips start minIdle now)),
          s.withPending group g (pre.filterMap (settle s.index c now (skips start minIdle now)) ++ post)) := by
  obtain ⟨pre, post, hps, hc, -⟩ :=
    claim_eq (if count = 0 then 100 else count) (sortPending g.pending)
  refine ⟨pre, post, hps, ?_⟩
  simp only [Stream.autoClaim, hg]
  rw [hc]
  rfl

/-- **What a claim does**: nothing without a group; else it hands out pending entries and counts
their deliveries. -/
theorem autoClaim_spec {nx : ID} {es : List (Entry φ)} {s' : Stream φ}
    (h : s.autoClaim group c minIdle start count now = (nx, es, s')) : s.groups group = none ∧ es = [] ∧ s' = s ∨
      ∃ g g', s.groups group = some g ∧
        s' = { s with groups := update s.groups group (some g') } ∧ Claims g g' es := by
  cases hg : s.groups group with
  | none =>
    simp only [Stream.autoClaim, hg] at h
    cases h
    exact .inl ⟨rfl, rfl, rfl⟩
  | some g =>
    obtain ⟨pre, post, hps, hc⟩ := autoClaim_eq hg
    cases h.symm.trans hc
    have hmem : ∀ p ∈ pre ++ post, p ∈ g.pending := fun p h => mem_sortPending.mp (hps ▸ h)
    have hids := sortPending_ids g.pending
    rw [hps, map_append] at hids
    refine .inr ⟨g, _, rfl, rfl, rfl, fun p hp => ?_, fun e he => ?_, fun hn => ?_, fun hn => ?_⟩
    · rcases mem_append.mp hp with hp | hp
      · obtain ⟨q, hq, hs⟩ := mem_filterMap.mp hp
        have hqg := hmem q (mem_append_left _ hq)
        rcases settle_eq hs with rfl | ⟨rfl, e, he, hid⟩
        · exact .inl hqg
        · exact .inr ⟨q, hqg, rfl, rfl, e, mem_filterMap.mpr ⟨q, hq, he⟩, hid⟩
      · exact .inl (hmem p (mem_append_right _ hp))
    · obtain ⟨q, hq, ht⟩ := mem_filterMap.mp he
      obtain ⟨hid, -, hs⟩ := taken_eq ht
      exact ⟨q, hmem q (mem_append_left _ hq), hid.symm, _,
        mem_append_left _ (mem_filterMap.mpr ⟨q, hq, hs c now⟩), hid.symm, rfl⟩
    · rw [map_append]
      exact ((filterMap_ids (fun _ _ => settle_id) pre).append (List.Sublist.refl _)).nodup (hids.nodup_iff.mpr hn)
    · exact ((filterMap_ids (fun _ _ h => (taken_eq h).1) pre).trans
        (sublist_append_left ..)).nodup (hids.nodup_iff.mpr hn)

theorem autoClaim_mem {e : Entry φ} (h : e ∈ (s.autoClaim group c minIdle start count now).2.1) :
    ∃ x ∈ s.entries, x.id = e.id ∧ x.fields = e.fields ∧ x.deleted = false := by
  cases hg : s.groups group with
  | none =>
    simp only [Stream.autoClaim, hg] at h
    cases h
  | some g =>
    obtain ⟨pre, post, -, hc⟩ := autoClaim_eq hg
    rw [hc] at h
    obtain ⟨q, -, ht⟩ := mem_filterMap.mp h
    obtain ⟨hid, hf, -⟩ := taken_eq ht
    exact hid ▸ index_eq_some hf

end

/-! ## paging -/

/-- claims at one instant, each from the cursor of the one before, until it is `0-0` -/
def claimAll (group consumer : String) (minIdle : Int) (count : Nat) (now : Int) :
    Nat → ID → Stream φ → Option (List (Entry φ) × Stream φ)
  | 0, _, _ => none
  | fuel + 1, start, s =>
    let r := s.autoClaim group consumer minIdle start count now
    if r.1 = zero then some r.2
    else (claimAll group consumer minIdle count now fuel r.1 r.2.2).map fun x =>
      (r.2.1 ++ x.1, x.2)

section
variable {s : Stream φ} {group c : String} {minIdle now : Int} {start : ID} {count : Nat}

theorem sortPending_of_sorted (h : (ps.map Pending.id).Pairwise fun a b => a.less b = true) : sortPending ps = ps :=
  List.Pairwise.insertionSort_eq ((pairwise_map.mp h).imp less_asymm)

theorem sortPending_sorted (h : (ps.map Pending.id).Nodup) :
    ((sortPending ps).map Pending.id).Pairwise fun a b => a.less b = true := by
  have : Std.Total fun a b : Pending => b.id.less a.id = false := ⟨fun a b => by
    cases hba : b.id.less a.id with
    | false => exact .inl rfl
    | true => exact .inr (less_asymm hba)⟩
  have : IsTrans Pending fun a b => b.id.less a.id = false :=
    ⟨fun _ _ _ hab hbd => not_less_trans hbd hab⟩
  have hs := pairwise_insertionSort (fun a b : Pending => b.id.less a.id = false) ps
  have hn := (sortPending_ids ps).nodup_iff.mpr h
  refine pairwise_map.mpr ((hs.and (pairwise_map.mp hn)).imp ?_)
  rintro a b ⟨hab, hne⟩
  exact (less_total hab).resolve_right hne.symm

variable {done : List Pending}

theorem claim_skip {index : ID → Option φ} (h : ∀ p ∈ done, p.id.less start = true) (n : Nat) (ps : List Pending) :
    claim index start c minIdle now n (done ++ ps) = { claim index start c minIdle now n ps with
        pending := done ++ (claim index start c minIdle now n ps).pending } := by
  induction done with
  | nil => rfl
  | cons p done ih =>
    rw [cons_append, claim, if_pos (by simp [h p]), ih fun q hq => h q (mem_cons_of_mem _ hq)]
    rfl

variable (c minIdle now count)

theorem autoClaim_page {todo : List Pending} (hg : s.groups group = some g)
    (hps : sortPending g.pending = done ++ todo) (hdone : ∀ p ∈ done, p.id.less start = true)
    (htodo : ∀ p ∈ todo, p.id.less start = false) : ∃ pre post, todo = pre ++ post ∧ (todo ≠ [] → pre ≠ []) ∧
      s.autoClaim group c minIdle start count now =
        ((post.head?.map Pending.id).getD zero, pre.filterMap (taken s.index (fresh minIdle now)),
          s.withPending group g (done ++ pre.filterMap (settle s.index c now (fresh minIdle now)) ++ post)) := by
  obtain ⟨pre, post, rfl, hc, hne⟩ := claim_eq (if count = 0 then 100 else count) todo
  refine ⟨pre, post, rfl, hne (by split <;> simp [*]), ?_⟩
  have hpre : ∀ p ∈ pre, skips start minIdle now p = fresh minIdle now p := fun p hp => by
    simp [skips, htodo p (mem_append_left _ hp)]
  have hs := filterMap_congr fun p hp => show settle s.index c now (skips start minIdle now) p =
    settle s.index c now (fresh minIdle now) p by rw [settle, settle, hpre p hp]
  have ht := filterMap_congr fun p hp => show taken s.index (skips start minIdle now) p =
    taken s.index (fresh minIdle now) p by rw [taken, taken, hpre p hp]
  simp only [Stream.autoClaim, hg, hps]
  rw [claim_skip hdone, hc, hs, ht, Stream.withPending, append_assoc]

theorem claimAll_from {todo : List Pending} (hg : s.groups group = some g)
    (hps : sortPending g.pending = done ++ todo)
    (hsorted : ((done ++ todo).map Pending.id).Pairwise fun a b => a.less b = true)
    (hdone : ∀ p ∈ done, p.id.less start = true) (htodo : ∀ p ∈ todo, p.id.less start = false)
    (hpos : ∀ p ∈ todo, p.id.less zero = false) : ∃ fuel, claimAll group c minIdle count now fuel start s =
      some (todo.filterMap (taken s.index (fresh minIdle now)), s.withPending group g
          (done ++ todo.filterMap (settle s.index c now (fresh minIdle now)))) := by
  induction hk : todo.length using Nat.strong_induction_on generalizing s g done todo start with
  | _ k ih =>
    obtain ⟨pre, post, rfl, hne, hpage⟩ := autoClaim_page c minIdle now count hg hps hdone htodo
    cases post with
    | nil => exact ⟨1, by simp [claimAll, hpage]⟩
    | cons p post =>
      -- the rest is claimed from `p` on
      obtain ⟨q, hq⟩ := exists_mem_of_ne_nil _ (hne (by simp))
      have hz : p.id ≠ zero := by
        intro hp
        have hlt := pairwise_append.mp (pairwise_append.mp (pairwise_map.mp hsorted)).2.1
        have hqp := hlt.2.2 q hq p (by simp)
        rw [hp, hpos q (mem_append_left _ hq)] at hqp
        cases hqp
      set settled := pre.filterMap (settle s.index c now (fresh minIdle now)) with hset
      have hsub : ((done ++ settled ++ p :: post).map Pending.id).Sublist
          ((done ++ (pre ++ p :: post)).map Pending.id) := by
        rw [append_assoc, map_append, map_append, map_append, map_append]
        exact (List.Sublist.refl _).append ((filterMap_ids (fun _ _ => settle_id) pre).append (List.Sublist.refl _))
      have hnew := hsorted.sublist hsub
      obtain ⟨-, hrest, hlow⟩ := pairwise_append.mp (pairwise_map.mp hnew)
      have hrest' : ∀ q ∈ p :: post, q.id.less p.id = false := by
        intro q hq
        rcases mem_cons.mp hq with rfl | hq
        · exact less_irrefl _
        · exact less_asymm ((pairwise_cons.mp hrest).1 q hq)
      have hlen : (p :: post).length < k := by
        have := length_pos_iff.mpr (hne (by simp))
        simp only [length_append] at hk
        omega
      obtain ⟨fuel, hfuel⟩ := ih _ hlen (s := s.withPending group g (done ++ settled ++ p :: post)) (update_self ..)
        (sortPending_of_sorted hnew) hnew (fun q hq => hlow q hq p (by simp)) hrest'
        (fun q hq => hpos q (mem_append_right _ hq)) rfl
      refine ⟨fuel + 1, ?_⟩
      simp only [claimAll, hpage, head?_cons, map_some, getD_some, if_neg hz]
      rw [hfuel, withPending_index, withPending_again, filterMap_append, filterMap_append, append_assoc]
      rfl

/-- **Claims that follow the cursor end, hand out every live idle entry once and in order, and leave the others.** -/
theorem claimed_once {g : Group} (hg : s.groups group = some g)
    (hkeys : (g.pending.map Pending.id).Nodup) (hpos : ∀ p ∈ g.pending, p.id.less zero = false) :
    ∃ fuel out, claimAll group c minIdle count now fuel zero s = some (out, s.withPending group g
          ((sortPending g.pending).filterMap (settle s.index c now (fresh minIdle now)))) ∧
      out = (sortPending g.pending).filterMap (taken s.index (fresh minIdle now)) ∧
      (out.map Entry.id).Pairwise (fun a b => a.less b = true) := by
  have hsorted := sortPending_sorted hkeys
  have hp : ∀ p ∈ sortPending g.pending, p.id.less zero = false := fun p h =>
    hpos p (mem_sortPending.mp h)
  obtain ⟨fuel, h⟩ := claimAll_from c minIdle now count hg (nil_append _).symm hsorted nofun hp hp
  exact ⟨fuel, _, h, rfl, hsorted.sublist (filterMap_ids (fun _ _ h => (taken_eq h).1) _)⟩

end

def pagedGroup : Group :=
  ⟨⟨4, 0⟩, [⟨⟨3, 0⟩, "a", 0, 1⟩, ⟨⟨2, 0⟩, "a", 0, 1⟩, ⟨⟨1, 0⟩, "a", 0, 1⟩, ⟨⟨4, 0⟩, "a", 9, 1⟩]⟩

def pagedStream : Stream String where
  entries := [⟨⟨1, 0⟩, "x", false⟩, ⟨⟨2, 0⟩, "y", true⟩, ⟨⟨3, 0⟩, "z", false⟩, ⟨⟨4, 0⟩, "t", false⟩]
  groups := update (fun _ => none) "g" (some pagedGroup)

theorem claimed_once_paged : ∃ fuel out s, claimAll "g" "b" 5 1 10 fuel zero pagedStream = some (out, s) ∧
    out.map Entry.id = [⟨1, 0⟩, ⟨3, 0⟩] := by
  obtain ⟨fuel, out, h, rfl, -⟩ := claimed_once "b" 5 10 1
    (show pagedStream.groups "g" = some pagedGroup from rfl) (by decide) (by decide)
  exact ⟨fuel, _, _, h, by decide⟩

end

end Queue
