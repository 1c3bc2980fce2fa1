import Cpip.Cache.Manager

/-!
# Cache: bulk and single operations

`SetMany` and `GetMany` go around the policy engine, the tag index and the watches.

* `bulk_agrees`  **when the bulk operations agree with the single ones**.
-/

namespace Cache.Manager

open Expiry AList List

variable {V : Type} (m : Manager V) (now : Int)

/-! ## the statement -/

/-- the states hold the same from `now` on -/
structure Same (now : Int) (s t : State) : Prop where
  redis : ∀ k, s.redis.live now k = t.redis.live now k
  watched : ∀ k, s.watched.lookup k = t.watched.lookup k
  pending : ∀ k, s.pending.lookup k = t.pending.lookup k
  record : ∀ slot, s.record.lookup slot = t.record.lookup slot

def setEach (s : State) (cache : String) (values : List (String × V)) (opts : List SetOption) : State :=
  values.foldl (fun s kv => (m.set now s cache kv.1 kv.2 opts).2) s

def reported (r : Except Err (AList fun _ : String => Option String)) (key : String) : Except Err (Option String) :=
  r.map fun out => (out.lookup key).join

/-- a `Set` leaves nothing but the entry -/
def Plain (cache : String) (d : Descriptor) (opts : List SetOption) (key encoded : String) : Prop :=
  match m.strategyFor cache with
  | .writeThrough => ∀ w ∈ m.writerFor cache, w.fails key encoded = true
  | .writeBehind => False
  | _ => d.tags ++ (setOptions opts).tags = [] ∧ d.mode = .absolute

/-- no value can be encoded, or all can and their sets leave nothing but the entries -/
def SetAgrees (cache : String) (d : Descriptor) (opts : List SetOption) (values : List (String × V)) : Prop :=
  (∀ kv ∈ values, m.encode kv.2 = none) ∨
    ∀ kv ∈ values, ∃ encoded, m.encode kv.2 = some encoded ∧ m.Plain cache d opts kv.1 encoded

/-- the key is cached, or there is nothing to load for it -/
def GetAgrees (s : State) (cache key : String) : Prop :=
  (s.redis.text now (m.keys.cache cache key)).isSome = true ∨ (m.strategyFor cache).loads = false ∨
    ∀ load ∈ m.loaderFor cache, load (m.keys.cache cache key) = .absent

/-! ## what a set does -/

section
variable {m now} {s : State} {cache key value fullKey encoded : String} {v : V} {d : Descriptor} {ttl : Int}
  {opts : List SetOption} {reg : Registration}

theorem jitter_pos {d : Int} (h : 0 < d) (seed : String) : 0 < m.jitter d seed := by
  unfold jitter
  split <;> omega

theorem resolve_pos (m : Manager V) (cache : String) (override : Int) : 0 < m.resolve cache override := by
  refine jitter_pos ?_ cache
  split
  · assumption
  unfold baseTTL
  cases m.ttls.lookup cache with
  | none => exact m.ttl_pos
  | some p => exact p.pos

def enter (now : Int) (s : State) (fullKey value : String) (ttl : Int) : State :=
  { s with redis := s.redis.put fullKey (.str value) (due now ttl) }

theorem rawSet_pos (h : 0 < ttl) : rawSet now s fullKey value ttl = enter now s fullKey value ttl := by
  unfold rawSet enter Emulator.set
  have hneg : ¬ ttl < 0 := by omega
  have hkeep : ttl ≠ keepTTL := by
    unfold keepTTL
    omega
  rw [if_neg hneg, if_neg hkeep]

theorem registered (hd : m.descs.lookup cache = some d) : ∃ reg, m.regs.lookup cache = some reg := by
  have hmem : cache ∈ m.descs := lookup_isSome.mp (by rw [hd]; rfl)
  exact Option.isSome_iff_exists.mp (lookup_isSome.mpr (m.named cache hmem).2)

section
variable (hr : m.regs.lookup cache = some reg)
include hr

theorem strategyFor_eq : m.strategyFor cache = reg.strategy := by
  unfold strategyFor
  rw [hr]

theorem writerFor_eq : m.writerFor cache = reg.writer := by
  unfold writerFor
  rw [hr]
  rfl

theorem loaderFor_eq : m.loaderFor cache = reg.loader := by
  unfold loaderFor
  rw [hr]
  rfl

end

inductive Wrote (m : Manager V) (cache key encoded : String) (s : State) : Option Err × State → Prop
  | entry (h : (m.strategyFor cache).writes = false) : Wrote m cache key encoded s (none, s)
  | refused (w : Writer) (hs : m.strategyFor cache = .writeThrough) (hw : m.writerFor cache = some w)
      (h : w.fails key encoded = true) : Wrote m cache key encoded s (some .writer, s)
  | through (w : Writer) (hs : m.strategyFor cache = .writeThrough) (hw : m.writerFor cache = some w)
      (h : w.fails key encoded = false) :
      Wrote m cache key encoded s (none, { s with record := s.record.write (writeOp cache key encoded w) })
  | behind (w : Writer) (hs : m.strategyFor cache = .writeBehind) (hw : m.writerFor cache = some w) :
      Wrote m cache key encoded s (none, m.enqueueOp s w (writeOp cache key encoded w))

/-- **What the policy engine does in a set of a registered cache.** -/
theorem engineSet_wrote (hr : m.regs.lookup cache = some reg) (ht : 0 < ttl) :
    Wrote m cache key encoded (enter now s fullKey encoded ttl)
      (m.engineSet now s cache fullKey key encoded ttl) := by
  have hs := strategyFor_eq hr
  have hw := writerFor_eq hr
  unfold engineSet
  rw [hr, rawSet_pos ht]
  dsimp only
  cases hst : reg.strategy with
  | cacheAside | readThrough | refreshAhead => exact .entry (by rw [hs, hst]; rfl)
  | writeThrough =>
    obtain ⟨w, hwr⟩ := Option.isSome_iff_exists.mp (reg.hasWriter (by rw [hst]; rfl))
    rw [hwr]
    dsimp only
    cases hf : w.fails key encoded with
    | true => exact .refused w (hs.trans hst) (hw.trans hwr) hf
    | false => exact .through w (hs.trans hst) (hw.trans hwr) hf
  | writeBehind =>
    obtain ⟨w, hwr⟩ := Option.isSome_iff_exists.mp (reg.hasWriter (by rw [hst]; rfl))
    rw [hwr]
    exact .behind w (hs.trans hst) (hw.trans hwr)

def finish (m : Manager V) (now : Int) (cache key : String) (d : Descriptor) (opts : List SetOption) :
    Option Err × State → State
  | (some _, s) => s
  | (none, s) =>
    let s' := m.indexTags now s (m.keys.cache cache key) (d.tags ++ (setOptions opts).tags)
    if d.mode = .sliding then watch now s' (m.keys.cache cache key) (m.resolve cache (setOptions opts).ttl) else s'

theorem set_eq (hd : m.descs.lookup cache = some d) (he : m.encode v = some encoded) :
    (m.set now s cache key v opts).2 = m.finish now cache key d opts
      (m.engineSet now s cache (m.keys.cache cache key) key encoded (m.resolve cache (setOptions opts).ttl)) := by
  unfold set
  rw [hd]
  rw [he]
  dsimp only
  split
  · rename_i hr
    rw [hr]
    rfl
  · rename_i hr
    rw [hr]
    rfl

theorem set_unencoded (he : m.encode v = none) : (m.set now s cache key v opts).2 = s := by
  unfold set
  cases m.descs.lookup cache with
  | none => rfl
  | some d =>
    rw [he]

theorem plain_iff (h : (m.strategyFor cache).writes = false) :
    m.Plain cache d opts key encoded ↔ d.tags ++ (setOptions opts).tags = [] ∧ d.mode = .absolute := by
  unfold Plain
  cases hst : m.strategyFor cache with
  | writeThrough | writeBehind =>
    rw [hst] at h
    cases h
  | _ => exact Iff.rfl

theorem set_plain (hd : m.descs.lookup cache = some d) (he : m.encode v = some encoded)
    (hp : m.Plain cache d opts key encoded) : (m.set now s cache key v opts).2 =
      enter now s (m.keys.cache cache key) encoded (m.resolve cache (setOptions opts).ttl) := by
  obtain ⟨reg, hr⟩ := registered hd
  rw [set_eq hd he]
  have hw : Wrote m cache key encoded _ (m.engineSet now s cache (m.keys.cache cache key) key encoded _) :=
    engineSet_wrote hr (resolve_pos m cache (setOptions opts).ttl)
  generalize m.engineSet now s cache (m.keys.cache cache key) key encoded _ = r at hw ⊢
  cases hw with
  | entry h =>
    obtain ⟨htags, hmode⟩ := (plain_iff h).mp hp
    unfold finish
    dsimp only
    rw [htags, hmode, if_neg (by decide)]
    rfl
  | refused w hs hw h => rfl
  | through w hs hw h =>
    simp only [Plain, hs] at hp
    rw [hp w hw] at h
    cases h
  | behind w hs hw => simp only [Plain, hs] at hp

end

/-! ## sets take nothing away -/

structure Grows (m : Manager V) (now : Int) (s t : State) : Prop where
  live : ∀ k, (s.redis.live now k).isSome = true → (t.redis.live now k).isSome = true
  members : ∀ tag, (s.redis.members now (m.keys.tag tag)).isSome = true →
    (t.redis.members now (m.keys.tag tag)).isSome = true
  watched : ∀ k ∈ s.watched, k ∈ t.watched
  pending : ∀ k ∈ s.pending, k ∈ t.pending
  record : ∀ slot ∈ s.record, slot ∈ t.record

section
variable {m now} {s t u : State} {cache key value fullKey encoded : String} {v : V} {d : Descriptor} {ttl : Int}
  {opts : List SetOption} {reg : Registration}

theorem Grows.refl (s : State) : m.Grows now s s :=
  ⟨fun _ h => h, fun _ h => h, fun _ h => h, fun _ h => h, fun _ h => h⟩

theorem Grows.trans (h : m.Grows now s t) (h' : m.Grows now t u) : m.Grows now s u :=
  ⟨fun k hk => h'.live k (h.live k hk), fun k hk => h'.members k (h.members k hk),
    fun k hk => h'.watched k (h.watched k hk), fun k hk => h'.pending k (h.pending k hk),
    fun k hk => h'.record k (h.record k hk)⟩

theorem live_put (e : Emulator) (k : String) (x : Value) (expireAt : Option Int)
    (hx : (Item.mk x expireAt).dead now = false) : (e.put k x expireAt).live now k = some ⟨x, expireAt⟩ := by
  show Expiry.live (e.data.insert k _) now k = _
  rw [live_insert_self, hx]
  rfl

variable {k j : String}

theorem live_put_ne (e : Emulator) (x : Value) (expireAt : Option Int) (h : j ≠ k) :
    (e.put k x expireAt).live now j = e.live now j := live_insert_ne h _

theorem isSome_put {e : Emulator} {x : Value} {expireAt : Option Int} (hx : (Item.mk x expireAt).dead now = false)
    (h : (e.live now j).isSome = true) : ((e.put k x expireAt).live now j).isSome = true := by
  by_cases hj : j = k
  · subst hj
    rw [live_put e j x expireAt hx]
    rfl
  · rw [live_put_ne e x expireAt hj]
    exact h

theorem members_put_ne {e : Emulator} {x : Value} {expireAt : Option Int} (h : j ≠ k) :
    (e.put k x expireAt).members now j = e.members now j := by
  unfold Emulator.members
  rw [live_put_ne e x expireAt h]

theorem sAdd_put (now : Int) (e : Emulator) (k : String) (mems : List String) :
    ∃ x expireAt, (e.sAdd now k mems).2 = e.put k (.set x) expireAt ∧
      (Item.mk (Value.set x) expireAt).dead now = false := by
  unfold Emulator.sAdd
  split
  · rename_i x expireAt hl
    exact ⟨_, _, rfl, (live_eq_some.mp hl).2⟩
  · exact ⟨_, _, rfl, rfl⟩

theorem grows_enter (s : State) (name key encoded : String) (ttl : Int) :
    m.Grows now s (enter now s (m.keys.cache name key) encoded ttl) := by
  refine ⟨fun k h => isSome_put (dead_due ..) h, fun tag h => ?_, fun _ h => h, fun _ h => h, fun _ h => h⟩
  show ((s.redis.put _ _ _).members now _).isSome = true
  rw [members_put_ne (cache_ne_tag m.keys name key tag).symm]
  exact h

theorem grows_indexTags (s : State) (fullKey : String) (tags : List String) :
    m.Grows now s (m.indexTags now s fullKey tags) := by
  induction tags generalizing s with
  | nil => exact Grows.refl s
  | cons t ts ih =>
    refine Grows.trans ?_ (ih { s with redis := (s.redis.sAdd now (m.keys.tag t) [fullKey]).2 })
    obtain ⟨x, expireAt, hput, hdead⟩ := sAdd_put now s.redis (m.keys.tag t) [fullKey]
    rw [hput]
    refine ⟨fun k h => isSome_put hdead h, fun tag h => ?_, fun _ h => h, fun _ h => h, fun _ h => h⟩
    by_cases ht : m.keys.tag tag = m.keys.tag t
    · show (Emulator.members _ now _).isSome = true
      unfold Emulator.members
      rw [ht, live_put _ _ _ _ hdead]
      rfl
    · show (Emulator.members _ now _).isSome = true
      rw [members_put_ne ht]
      exact h

theorem grows_watch (s : State) (fullKey : String) (ttl : Int) : m.Grows now s (watch now s fullKey ttl) := by
  unfold watch
  split
  · exact Grows.refl s
  · exact ⟨fun _ h => h, fun _ h => h, fun _ h => (mem_insert _).mpr (.inr h), fun _ h => h, fun _ h => h⟩

theorem grows_write (s : State) (op : WriteOp) : m.Grows now s { s with record := s.record.write op } :=
  ⟨fun _ h => h, fun _ h => h, fun _ h => h, fun _ h => h, fun _ h => (mem_insert _).mpr (.inr h)⟩

theorem grows_enqueueOp (s : State) (w : Writer) (op : WriteOp) : m.Grows now s (m.enqueueOp s w op) := by
  refine ⟨fun _ h => h, fun _ h => h, fun _ h => h, fun k h => ?_, fun slot h => ?_⟩
  · show k ∈ (enqueue m.bound s.pending op).1
    unfold enqueue
    split
    · exact h
    · exact (mem_insert _).mpr (.inr h)
  · unfold enqueueOp
    split
    · exact h
    split
    · exact h
    · exact (mem_insert _).mpr (.inr h)

theorem grows_wrote {r : Option Err × State} (hw : Wrote m cache key encoded s r) : m.Grows now s r.2 := by
  cases hw with
  | entry h | refused w hs hw h => exact Grows.refl s
  | through w hs hw h => exact grows_write s _
  | behind w hs hw => exact grows_enqueueOp s w _

theorem grows_finish (r : Option Err × State) : m.Grows now r.2 (m.finish now cache key d opts r) := by
  obtain ⟨e, s⟩ := r
  cases e with
  | some e => exact Grows.refl s
  | none =>
    have hindex : m.Grows now s (m.indexTags now s (m.keys.cache cache key) (d.tags ++ (setOptions opts).tags)) :=
      grows_indexTags ..
    unfold finish
    dsimp only
    split
    · exact hindex.trans (grows_watch ..)
    · exact hindex

theorem set_wrote (now : Int) (key : String) (opts : List SetOption) (hd : m.descs.lookup cache = some d)
    (he : m.encode v = some encoded) (s : State) : ∃ r, Wrote m cache key encoded
        (enter now s (m.keys.cache cache key) encoded (m.resolve cache (setOptions opts).ttl)) r ∧
      (m.set now s cache key v opts).2 = m.finish now cache key d opts r := by
  obtain ⟨reg, hr⟩ := registered hd
  exact ⟨_, engineSet_wrote hr (resolve_pos m cache (setOptions opts).ttl), set_eq hd he⟩

theorem grows_set (hd : m.descs.lookup cache = some d) (s : State) (kv : String × V) :
    m.Grows now s (m.set now s cache kv.1 kv.2 opts).2 := by
  cases he : m.encode kv.2 with
  | none =>
    rw [set_unencoded he]
    exact Grows.refl s
  | some encoded =>
    obtain ⟨r, hw, heq⟩ := set_wrote now kv.1 opts hd he s
    rw [heq]
    exact ((grows_enter ..).trans (grows_wrote hw)).trans (grows_finish r)

variable {values : List (String × V)} {kv : String × V}

/-- **What a set leaves is still there after all sets.** -/
theorem grows_setEach (now : Int) (opts : List SetOption) (hd : m.descs.lookup cache = some d) (hkv : kv ∈ values)
    (s : State) : ∃ s', m.Grows now (m.set now s' cache kv.1 kv.2 opts).2 (m.setEach now s cache values opts) := by
  have hrest : ∀ (l : List (String × V)) (s : State), m.Grows now s (m.setEach now s cache l opts) := by
    intro l
    induction l with
    | nil => exact fun s => Grows.refl s
    | cons a l ih => exact fun s => (grows_set hd s a).trans (ih _)
  obtain ⟨l, l', rfl⟩ := append_of_mem hkv
  refine ⟨m.setEach now s cache l opts, ?_⟩
  have hsplit : m.setEach now s cache (l ++ kv :: l') opts =
      m.setEach now (m.set now (m.setEach now s cache l opts) cache kv.1 kv.2 opts).2 cache l' opts := by
    unfold setEach
    rw [foldl_append, foldl_cons]
  rw [hsplit]
  exact hrest l' _

/-! ## what a set leaves -/

theorem set_live (now : Int) (key : String) (opts : List SetOption) (hd : m.descs.lookup cache = some d)
    (he : m.encode v = some encoded) (s : State) :
    ((m.set now s cache key v opts).2.redis.live now (m.keys.cache cache key)).isSome = true := by
  obtain ⟨r, hw, heq⟩ := set_wrote now key opts hd he s
  rw [heq]
  refine ((grows_wrote hw).trans (grows_finish r)).live _ ?_
  show ((s.redis.put _ _ _).live now _).isSome = true
  rw [live_put _ _ _ _ (dead_due ..)]
  rfl

theorem indexTags_members (m : Manager V) (now : Int) (fullKey : String) {tags : List String} {tag : String}
    (ht : tag ∈ tags) (s : State) :
    ((m.indexTags now s fullKey tags).redis.members now (m.keys.tag tag)).isSome = true := by
  induction tags generalizing s with
  | nil => cases ht
  | cons t ts ih =>
    rcases mem_cons.mp ht with rfl | ht
    · refine (grows_indexTags { s with redis := (s.redis.sAdd now (m.keys.tag tag) [fullKey]).2 } fullKey ts).members
        tag ?_
      obtain ⟨x, expireAt, hput, hdead⟩ := sAdd_put now s.redis (m.keys.tag tag) [fullKey]
      rw [hput]
      unfold Emulator.members
      rw [live_put _ _ _ _ hdead]
      rfl
    · exact ih ht { s with redis := (s.redis.sAdd now (m.keys.tag t) [fullKey]).2 }

/-- the state holds something beside entries -/
def Extra (m : Manager V) (now : Int) (s : State) : Prop :=
  (∃ tag, (s.redis.members now (m.keys.tag tag)).isSome = true) ∨ (∃ k, k ∈ s.watched) ∨ (∃ k, k ∈ s.pending) ∨
    ∃ slot, slot ∈ s.record

theorem Grows.extra (h : m.Grows now s t) : m.Extra now s → m.Extra now t := by
  rintro (⟨tag, hx⟩ | ⟨k, hx⟩ | ⟨k, hx⟩ | ⟨slot, hx⟩)
  · exact .inl ⟨tag, h.members tag hx⟩
  · exact .inr (.inl ⟨k, h.watched k hx⟩)
  · exact .inr (.inr (.inl ⟨k, h.pending k hx⟩))
  · exact .inr (.inr (.inr ⟨slot, h.record slot hx⟩))

/-- **A set that is not plain leaves more than the entry.** -/
theorem set_extra (now : Int) (key : String) (opts : List SetOption) (hd : m.descs.lookup cache = some d)
    (he : m.encode v = some encoded) (s : State) (hp : ¬ m.Plain cache d opts key encoded) :
    m.Extra now (m.set now s cache key v opts).2 := by
  obtain ⟨r, hr, heq⟩ := set_wrote now key opts hd he s
  rw [heq]
  cases hr with
  | entry h =>
    rw [plain_iff h] at hp
    unfold finish
    dsimp only
    split
    · have hpos := resolve_pos m cache (setOptions opts).ttl
      unfold watch
      rw [if_neg (by omega)]
      exact .inr (.inl ⟨_, (mem_insert _).mpr (.inl rfl)⟩)
    · rename_i hmode
      have hne : d.tags ++ (setOptions opts).tags ≠ [] := fun hnil => hp ⟨hnil, by cases hm : d.mode <;> simp_all⟩
      obtain ⟨tag, ht⟩ := exists_mem_of_ne_nil _ hne
      exact .inl ⟨tag, indexTags_members m now _ ht _⟩
  | refused w hs hw h =>
    simp only [Plain, hs] at hp
    exact absurd (fun w' hw' => Option.some.inj (hw.symm.trans hw') ▸ h) hp
  | through w hs hw h =>
    exact .inr (.inr (.inr ⟨_, (grows_finish _).record _ ((mem_insert _).mpr (.inl rfl))⟩))
  | behind w hs hw =>
    refine (grows_finish _).extra (.inr (.inr (.inl ?_)))
    show ∃ k, k ∈ (enqueue m.bound s.pending (writeOp cache key encoded w)).1
    unfold enqueue
    split
    · -- the buffer is full, so it is not empty
      have hlen : 0 < s.pending.keys.length := by
        have hpos := m.bound_pos
        omega
      exact ⟨_, mem_keys.mpr (getElem_mem hlen)⟩
    · exact ⟨_, (mem_insert _).mpr (.inl rfl)⟩

/-! ## what the bulk operations do -/

theorem encodeAll_none (hkv : kv ∈ values) (he : m.encode kv.2 = none) : m.encodeAll cache values = none := by
  unfold encodeAll
  induction values with
  | nil => cases hkv
  | cons a l ih =>
    rw [mapM_cons]
    rcases mem_cons.mp hkv with rfl | hkv
    · rw [he]
      rfl
    · rw [ih hkv]
      cases m.encode a.2 <;> rfl

variable {pairs : List (String × String)}

theorem encodeAll_cons (a : String × V) (l : List (String × V)) (ha : m.encode a.2 = some encoded)
    (hl : m.encodeAll cache l = some pairs) :
    m.encodeAll cache (a :: l) = some ((m.keys.cache cache a.1, encoded) :: pairs) := by
  unfold encodeAll at hl ⊢
  rw [mapM_cons, hl, ha]
  rfl

theorem encodeAll_some (cache : String) (h : ∀ kv ∈ values, ∃ encoded, m.encode kv.2 = some encoded) :
    ∃ pairs, m.encodeAll cache values = some pairs ∧
      pairs.map Prod.fst = (values.map Prod.fst).map (m.keys.cache cache) ∧
      ∀ p, p ∈ pairs ↔ ∃ kv ∈ values, m.encode kv.2 = some p.2 ∧ m.keys.cache cache kv.1 = p.1 := by
  induction values with
  | nil => exact ⟨[], rfl, rfl, fun p => ⟨nofun, fun ⟨kv, hkv, _⟩ => (by cases hkv)⟩⟩
  | cons a l ih =>
    obtain ⟨encoded, ha⟩ := h a (mem_cons_self ..)
    obtain ⟨pairs, hl, hkeys, hmem⟩ := ih fun kv hkv => h kv (mem_cons_of_mem _ hkv)
    refine ⟨_, encodeAll_cons a l ha hl, ?_, fun p => ?_⟩
    · rw [map_cons, hkeys]
      rfl
    rw [mem_cons, hmem]
    constructor
    · rintro (rfl | ⟨kv, hkv, hp⟩)
      · exact ⟨a, mem_cons_self .., ha, rfl⟩
      · exact ⟨kv, mem_cons_of_mem _ hkv, hp⟩
    · rintro ⟨kv, hkv, hp, hk⟩
      rcases mem_cons.mp hkv with rfl | hkv
      · cases ha.symm.trans hp
        exact .inl (Prod.ext hk.symm rfl)
      · exact .inr ⟨kv, hkv, hp, hk⟩

theorem live_setMany_ne (now ttl : Int) (hk : k ∉ pairs.map Prod.fst) (e : Emulator) :
    (e.setMany now pairs ttl).live now k = e.live now k := by
  unfold Emulator.setMany
  induction pairs generalizing e with
  | nil => rfl
  | cons p ps ih =>
    rw [map_cons, mem_cons, not_or] at hk
    rw [foldl_cons, ih hk.2, live_put_ne _ _ _ hk.1]

theorem live_setMany_mem (now ttl : Int) (hn : (pairs.map Prod.fst).Nodup) {p : String × String} (hp : p ∈ pairs)
    (e : Emulator) : (e.setMany now pairs ttl).live now p.1 = some ⟨.str p.2, due now ttl⟩ := by
  induction pairs generalizing e with
  | nil => cases hp
  | cons q ps ih =>
    rw [map_cons, nodup_cons] at hn
    show (Emulator.setMany (e.put q.1 (.str q.2) (due now ttl)) now ps ttl).live now p.1 = _
    rcases mem_cons.mp hp with rfl | hp
    · rw [live_setMany_ne now ttl hn.1, live_put _ _ _ _ (dead_due ..)]
    · exact ih hn.2 hp _

theorem setEach_plain (now : Int) (hd : m.descs.lookup cache = some d)
    (h : ∀ kv ∈ values, ∃ encoded, m.encode kv.2 = some encoded ∧ m.Plain cache d opts kv.1 encoded) (s : State)
    (hpairs : m.encodeAll cache values = some pairs) : m.setEach now s cache values opts =
      { s with redis := s.redis.setMany now pairs (m.resolve cache (setOptions opts).ttl) } := by
  induction values generalizing s pairs with
  | nil =>
    cases hpairs
    rfl
  | cons a l ih =>
    have hl : ∀ kv ∈ l, ∃ encoded, m.encode kv.2 = some encoded ∧ m.Plain cache d opts kv.1 encoded :=
      fun kv hkv => h kv (mem_cons_of_mem _ hkv)
    obtain ⟨encoded, ha, hplain⟩ := h a (mem_cons_self ..)
    obtain ⟨rest, hrest, -⟩ := encodeAll_some cache fun kv hkv => (hl kv hkv).imp fun _ hx => hx.1
    cases hpairs.symm.trans (encodeAll_cons a l ha hrest)
    show m.setEach now (m.set now s cache a.1 a.2 opts).2 cache l opts = _
    rw [set_plain hd ha hplain, ih hl _ hrest]
    rfl

theorem setMany_eq (now : Int) (hd : m.descs.lookup cache = some d) (hpairs : m.encodeAll cache values = some pairs)
    (s : State) : (m.setMany now s cache values opts).2 =
      { s with redis := s.redis.setMany now pairs (m.resolve cache (setOptions opts).ttl) } := by
  unfold setMany
  rw [hd]
  rw [hpairs]

theorem setMany_none (now : Int) (hpairs : m.encodeAll cache values = none) (s : State) :
    (m.setMany now s cache values opts).2 = s := by
  unfold setMany
  cases m.descs.lookup cache with
  | none => rfl
  | some d =>
    rw [hpairs]

theorem text_touch (e : Emulator) (now : Int) (j k : String) : (e.touch now k).text now j = e.text now j := by
  unfold Emulator.text Emulator.live Emulator.touch
  rw [live_evict (Int.le_refl now)]

theorem mGet_fst (now : Int) (ks : List String) (e : Emulator) : (Emulator.mGet now ks e).1 = ks.map (e.text now) := by
  induction ks generalizing e with
  | nil => rfl
  | cons k ks ih =>
    show (e.get now k).1 :: (Emulator.mGet now ks (e.get now k).2).1 = _
    rw [ih, map_cons]
    exact congrArg _ (map_congr_left fun j _ => text_touch e now j k)

theorem lookup_insertAll {f : String → Option String} {key : String} (ks : List String)
    (out : AList fun _ : String => Option String) (h : key ∈ ks ∨ out.lookup key = some (f key)) :
    (ks.foldl (fun out k => out.insert k (f k)) out).lookup key = some (f key) := by
  induction ks generalizing out with
  | nil => exact h.resolve_left (by simp)
  | cons k ks ih =>
    refine ih _ ?_
    by_cases hk : key = k
    · subst hk
      exact .inr (lookup_insert _)
    · rw [lookup_insert_ne hk]
      exact h.imp_left fun hmem => (mem_cons.mp hmem).resolve_left hk

theorem reported_getMany (now : Int) (hd : m.descs.lookup cache = some d) {keys : List String} (hk : key ∈ keys)
    (s : State) : reported (m.getMany now s cache keys).1 key = .ok (s.redis.text now (m.keys.cache cache key)) := by
  unfold getMany
  rw [hd]
  dsimp only
  rw [mGet_fst, map_map, ← map_prod_left_eq_zip, foldl_map]
  exact congrArg (fun o : Option (Option String) => Except.ok o.join) (lookup_insertAll keys ∅ (.inl hk))

/-! ## agreement -/

theorem live_setMany_perm (now ttl : Int) {pairs' : List (String × String)} (hn : (pairs.map Prod.fst).Nodup)
    (hn' : (pairs'.map Prod.fst).Nodup) (hmem : ∀ p, p ∈ pairs ↔ p ∈ pairs') (e : Emulator) (k : String) :
    (e.setMany now pairs ttl).live now k = (e.setMany now pairs' ttl).live now k := by
  have hkeys : k ∈ pairs.map Prod.fst ↔ k ∈ pairs'.map Prod.fst := by
    simp only [mem_map, hmem]
  by_cases hk : k ∈ pairs.map Prod.fst
  · obtain ⟨p, hp, rfl⟩ := mem_map.mp hk
    rw [live_setMany_mem now ttl hn hp, live_setMany_mem now ttl hn' ((hmem p).mp hp)]
  · rw [live_setMany_ne now ttl hk, live_setMany_ne now ttl fun hk' => hk (hkeys.mpr hk')]

theorem same_of_agrees (now : Int) (hd : m.descs.lookup cache = some d) {vs : List (String × V)}
    (hk : (values.map Prod.fst).Nodup) (hvs : vs.Perm values) (h : m.SetAgrees cache d opts values) (s : State) :
    Same now (m.setMany now s cache values opts).2 (m.setEach now s cache vs opts) := by
  rcases h with hnone | hplain
  · have heach : ∀ l : List (String × V), (∀ kv ∈ l, m.encode kv.2 = none) → m.setEach now s cache l opts = s := by
      intro l hl
      unfold setEach
      induction l with
      | nil => rfl
      | cons a l ih =>
        rw [foldl_cons, set_unencoded (hl a (mem_cons_self ..))]
        exact ih fun kv hkv => hl kv (mem_cons_of_mem _ hkv)
    have hmany : (m.setMany now s cache values opts).2 = s := by
      cases values with
      | nil => exact setMany_eq now hd (show m.encodeAll cache [] = some [] from rfl) s
      | cons a l =>
        have ha := mem_cons_self (a := a) (l := l)
        exact setMany_none now (encodeAll_none ha (hnone a ha)) s
    rw [hmany, heach vs fun kv hkv => hnone kv (hvs.mem_iff.mp hkv)]
    exact ⟨fun _ => rfl, fun _ => rfl, fun _ => rfl, fun _ => rfl⟩
  · have hplain' : ∀ kv ∈ vs, ∃ encoded, m.encode kv.2 = some encoded ∧ m.Plain cache d opts kv.1 encoded :=
      fun kv hkv => hplain kv (hvs.mem_iff.mp hkv)
    obtain ⟨pairs, hpairs, hkeys, hmem⟩ := encodeAll_some cache fun kv hkv => (hplain kv hkv).imp fun _ hx => hx.1
    obtain ⟨pairs', hpairs', hkeys', hmem'⟩ := encodeAll_some cache fun kv hkv => (hplain' kv hkv).imp fun _ hx => hx.1
    rw [setMany_eq now hd hpairs, setEach_plain now hd hplain' s hpairs']
    have hcache : cache ∈ m.descs := lookup_isSome.mp (by rw [hd]; rfl)
    have hinj : Function.Injective (m.keys.cache cache) := fun _ _ h => cache_inj m.keys (m.named cache hcache).1 h
    have hn : (pairs.map Prod.fst).Nodup := by
      rw [hkeys]
      exact hk.map hinj
    have hn' : (pairs'.map Prod.fst).Nodup := by
      rw [hkeys']
      exact ((hvs.map Prod.fst).nodup_iff.mpr hk).map hinj
    refine ⟨fun k => live_setMany_perm now _ hn hn' (fun p => ?_) s.redis k, fun _ => rfl, fun _ => rfl, fun _ => rfl⟩
    rw [hmem, hmem']
    simp only [hvs.mem_iff]

theorem Same.extra (h : Same now s t) : m.Extra now t → m.Extra now s := by
  simp only [Extra, Emulator.members, h.redis, ← lookup_isSome, h.watched, h.pending, h.record]
  exact id

section
variable (hd : m.descs.lookup cache = some d)
include hd

theorem encodes_of_same
    (h : Same now (m.setMany now {} cache values opts).2 (m.setEach now {} cache values opts)) {kv₀ : String × V}
    (hkv₀ : kv₀ ∈ values) (he₀ : m.encode kv₀.2 = some encoded) :
    ∀ kv ∈ values, ∃ encoded, m.encode kv.2 = some encoded := by
  intro kv hkv
  refine Option.ne_none_iff_exists'.mp fun he => ?_
  -- nothing is written in bulk, but the other value by its own set
  obtain ⟨s', hg⟩ := grows_setEach now opts hd hkv₀ {}
  have hsome := hg.live _ (set_live now kv₀.1 opts hd he₀ s')
  rw [← h.redis, setMany_none now (encodeAll_none hkv he)] at hsome
  cases hsome

theorem plain_of_same (hkeys : pairs.map Prod.fst = (values.map Prod.fst).map (m.keys.cache cache))
    (h : Same now { redis := Emulator.setMany {} now pairs ttl } (m.setEach now {} cache values opts))
    (hkv : kv ∈ values) (he : m.encode kv.2 = some encoded) : m.Plain cache d opts kv.1 encoded := by
  by_contra hp
  obtain ⟨s', hg⟩ := grows_setEach now opts hd hkv {}
  obtain ⟨tag, hsome⟩ | ⟨k, hk⟩ | ⟨k, hk⟩ | ⟨slot, hk⟩ := h.extra (hg.extra (set_extra now kv.1 opts hd he s' hp))
  · have hnone : Emulator.members (Emulator.setMany {} now pairs ttl) now (m.keys.tag tag) = none := by
      unfold Emulator.members
      rw [live_setMany_ne]
      · rfl
      rw [hkeys]
      intro hmem
      obtain ⟨x, -, hx⟩ := mem_map.mp hmem
      exact cache_ne_tag m.keys cache x tag hx
    rw [hnone] at hsome
    cases hsome
  all_goals exact notMem_empty _ hk

theorem agrees_of_same (h : Same now (m.setMany now {} cache values opts).2 (m.setEach now {} cache values opts)) :
    m.SetAgrees cache d opts values := by
  by_cases hnone : ∀ kv ∈ values, m.encode kv.2 = none
  · exact .inl hnone
  simp only [not_forall] at hnone
  obtain ⟨kv₀, hkv₀, hne⟩ := hnone
  obtain ⟨encoded₀, he₀⟩ := Option.ne_none_iff_exists'.mp hne
  have hall := encodes_of_same hd h hkv₀ he₀
  obtain ⟨pairs, hpairs, hkeys, -⟩ := encodeAll_some cache hall
  rw [setMany_eq now hd hpairs] at h
  refine .inr fun kv hkv => ?_
  obtain ⟨encoded, he⟩ := hall kv hkv
  exact ⟨encoded, he, plain_of_same hd hkeys h hkv he⟩

end

theorem get_fst (now : Int) (hd : m.descs.lookup cache = some d) (s : State) : (m.get now s cache key).1 =
      (m.engineGet now s cache (m.keys.cache cache key) (m.resolve cache 0)).1 := by
  unfold get
  rw [hd]
  dsimp only
  split
  · rename_i hr
    exact hr.symm
  · rfl

theorem get_agrees_iff (now : Int) (hd : m.descs.lookup cache = some d) (s : State) :
    (m.get now s cache key).1 = .ok (s.redis.text now (m.keys.cache cache key)) ↔ m.GetAgrees now s cache key := by
  rw [get_fst now hd]
  unfold engineGet GetAgrees Emulator.get
  cases ht : s.redis.text now (m.keys.cache cache key) with
  | some value => exact iff_of_true rfl (.inl rfl)
  | none =>
    cases hs : (m.strategyFor cache).loads with
    | false => exact iff_of_true rfl (.inr (.inl rfl))
    | true =>
      obtain ⟨reg, hr⟩ := registered hd
      obtain ⟨load, hl⟩ := Option.isSome_iff_exists.mp (reg.hasLoader (by rw [← strategyFor_eq hr]; exact hs))
      have hload := (loaderFor_eq hr).trans hl
      dsimp only
      unfold readThroughLoad
      rw [hload]
      have hiff : (∀ load' ∈ some load, load' (m.keys.cache cache key) = .absent) ↔
          load (m.keys.cache cache key) = .absent := ⟨fun h => h load rfl, fun h _ hx => Option.some.inj hx ▸ h⟩
      simp only [hiff, Option.isSome_none, Bool.false_eq_true, false_or, Bool.true_eq_false]
      cases load (m.keys.cache cache key) with
      | failed | found value loadTTL => exact iff_of_false (by simp) (by simp)
      | absent => exact iff_of_true rfl rfl

end

/-- **The bulk operations agree with the single ones exactly under the conditions.** -/
theorem bulk_agrees {cache : String} {d : Descriptor} (hd : m.descs.lookup cache = some d) (opts : List SetOption)
    {values : List (String × V)} (hk : (values.map Prod.fst).Nodup) : ((∀ now s vs, vs.Perm values →
        Same now (m.setMany now s cache values opts).2 (m.setEach now s cache vs opts)) ↔
      m.SetAgrees cache d opts values) ∧
    ∀ now s keys, ∀ key ∈ keys,
      (m.get now s cache key).1 = reported (m.getMany now s cache keys).1 key ↔ m.GetAgrees now s cache key := by
  refine ⟨⟨fun h => ?_, fun h now s vs hvs => same_of_agrees now hd hk hvs h s⟩, fun now s keys key hkey => ?_⟩
  · exact agrees_of_same hd (h 0 {} values (List.Perm.refl _))
  · rw [reported_getMany now hd hkey]
    exact get_agrees_iff now hd s

/-! ## caches -/

def plainCache : Manager String := (blank.registerCache { name := "c" }).2

theorem bulk_agrees_plainCache : (∀ now s vs, vs.Perm [("j", "1"), ("k", "2")] →
      Same now (plainCache.setMany now s "c" [("j", "1"), ("k", "2")] []).2 (plainCache.setEach now s "c" vs [])) ∧
    ∀ now s keys, ∀ key ∈ keys,
      (plainCache.get now s "c" key).1 = reported (plainCache.getMany now s "c" keys).1 key := by
  have hd : plainCache.descs.lookup "c" = some ⟨.absolute, []⟩ := rfl
  have hk : ([("j", "1"), ("k", "2")].map Prod.fst).Nodup := by decide
  obtain ⟨hset, hget⟩ := bulk_agrees plainCache hd [] hk
  refine ⟨hset.mpr (.inr fun kv _ => ⟨kv.2, rfl, rfl, rfl⟩), fun now s keys key hkey => ?_⟩
  exact (hget now s keys key hkey).mpr (.inr (.inl rfl))

def slidingCache : Manager String :=
  (blank.registerCache {
    name := "c"
    strategy := some .writeThrough
    mode := .sliding
    writer := some ⟨"db", fun _ _ => false⟩
    defaultTags := ["t"] }).2

def loadingCache : Manager String :=
  (blank.registerCache { name := "c", strategy := some .readThrough, loader := some fun _ => .found "x" 0 }).2

/-- **After `SetMany` the record, the watch and the tag are missing, and `GetMany` does not load.** -/
theorem bulk_differs : let bulk := (slidingCache.setMany 0 {} "c" [("k", "v")] []).2
    let single := slidingCache.setEach 0 {} "c" [("k", "v")] []
    (bulk.record.lookup ("db", "k") = none ∧ single.record.lookup ("db", "k") = some "v") ∧
    (bulk.watched.lookup "cpip:cache:c:k" = none ∧ single.watched.lookup "cpip:cache:c:k" = some 60) ∧
    (bulk.redis.members 0 "cpip:tag:t" = none ∧ single.redis.members 0 "cpip:tag:t" = some {"cpip:cache:c:k"}) ∧
    reported (loadingCache.getMany 0 {} "c" ["k"]).1 "k" = .ok none ∧
    (loadingCache.get 0 {} "c" "k").1 = .ok (some "x") := by
  decide +kernel

end Cache.Manager
