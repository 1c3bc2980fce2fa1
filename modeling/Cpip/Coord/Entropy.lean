import Cpip.Coord.Registry

/-!
# Coordination: anti-entropy of the registry

* `Trails`  a copy is not newer than its record;
* `refresh_exact`  **a refresh leaves exactly the records of the backend**.
-/

namespace Coord.Registry

open AList Option List Lts

/-! ## newer records -/

theorem supersedes_of_lt {n x : Node} (h : x.incarnation < n.incarnation) : n.supersedes x = true := by
  have hne : n.incarnation ≠ x.incarnation := fun heq => by
    rw [heq] at h
    exact UInt64.lt_irrefl _ h
  unfold Node.supersedes
  rw [if_pos hne]
  exact decide_eq_true h

theorem supersedes_of_later {n x : Node} (h : x.incarnation = n.incarnation) (ht : x.updatedAt < n.updatedAt) :
    n.supersedes x = true := by
  unfold Node.supersedes
  rw [if_neg (not_not.mpr h.symm)]
  exact decide_eq_true ht

theorem supersedes_cases {n x : Node} (h : n.supersedes x = true) :
    x.incarnation < n.incarnation ∨ x.incarnation = n.incarnation ∧ x.updatedAt < n.updatedAt := by
  unfold Node.supersedes at h
  split at h
  · exact .inl (of_decide_eq_true h)
  · rename_i heq
    exact .inr ⟨(not_not.mp heq).symm, of_decide_eq_true h⟩

/-! ## caches -/

/-- a cached record is the one of the backend, or that one is newer -/
def Behind (x n : Node) : Prop := x = n ∨ n.supersedes x = true

theorem Behind.incarnation_le {x n : Node} (h : Behind x n) : x.incarnation ≤ n.incarnation := by
  rcases h with rfl | h
  · exact UInt64.le_refl _
  rcases supersedes_cases h with hlt | ⟨heq, -⟩
  · exact UInt64.le_of_lt hlt
  · exact heq ▸ UInt64.le_refl _

section
variable {records : AList fun _ : String => Node} {c : Cache} {id : String} {n x : Node}

def Trails (records : AList fun _ : String => Node) (c : Cache) : Prop :=
  ∀ id x n, c.lookup id = some x → records.lookup id = some n → Behind x n

theorem commit_ne (h : id ≠ n.id) (c : Cache) : (commit c n).lookup id = c.lookup id := by
  unfold commit
  split
  · split
    · exact lookup_insert_ne h
    · rfl
  · exact lookup_insert_ne h

theorem commit_self (h : ∀ x, c.lookup n.id = some x → Behind x n) : (commit c n).lookup n.id = some n := by
  unfold commit
  cases hx : c.lookup n.id with
  | none => exact lookup_insert ..
  | some x =>
    dsimp only
    by_cases hs : n.supersedes x = true
    · rw [if_pos hs]
      exact lookup_insert ..
    rw [if_neg hs, hx]
    rcases h x hx with rfl | hsup
    · rfl
    · exact absurd hsup hs

section
variable (h : Trails records c)
include h

theorem commit_lookup (hn : records.lookup n.id = some n) (id : String) :
    (commit c n).lookup id = if id = n.id then some n else c.lookup id := by
  by_cases hid : id = n.id
  · rw [if_pos hid, hid]
    exact commit_self fun x hx => h n.id x n hx hn
  · rw [if_neg hid]
    exact commit_ne hid c

theorem trails_commit (hn : records.lookup n.id = some n) : Trails records (commit c n) := by
  intro id x m hx hm
  rw [commit_lookup h hn] at hx
  by_cases hid : id = n.id
  · rw [if_pos hid] at hx
    cases hx
    rw [hid, hn] at hm
    cases hm
    exact .inl rfl
  · rw [if_neg hid] at hx
    exact h id x m hx hm

theorem trails_erase (id : String) : Trails records (c.erase id) := by
  intro j x m hx hm
  by_cases hj : j = id
  · subst hj
    rw [lookup_erase] at hx
    cases hx
  · rw [lookup_erase_ne hj] at hx
    exact h j x m hx hm

theorem trails_insert (hnew : ∀ x, c.lookup n.id = some x → n.supersedes x = true) :
    Trails (records.insert n.id n) c := by
  intro j x m hx hm
  by_cases hj : j = n.id
  · subst hj
    rw [lookup_insert] at hm
    cases hm
    exact .inr (hnew x hx)
  · rw [lookup_insert_ne hj] at hm
    exact h j x m hx hm

theorem trails_drop (id : String) : Trails (records.erase id) c := by
  intro j x m hx hm
  by_cases hj : j = id
  · subst hj
    rw [lookup_erase] at hm
    cases hm
  · rw [lookup_erase_ne hj] at hm
    exact h j x m hx hm

end

end

/-! ## refresh -/

/-- the records stand under their identifiers, and the roster lists them -/
structure Shared.Ok (b : Shared) : Prop where
  keyed : ∀ id n, b.records.lookup id = some n → n.id = id
  listed : ∀ id, id ∈ b.members ↔ (b.records.lookup id).isSome = true

section
variable {b : Shared} {c : Cache}

theorem refresh_roster (hb : b.Ok) (ids : List String) (hids : ∀ id ∈ ids, id ∈ b.members) (hc : Trails b.records c) :
    (ids.foldl refreshOne (b, c)).1 = b ∧ Trails b.records (ids.foldl refreshOne (b, c)).2 ∧
      ∀ id, (ids.foldl refreshOne (b, c)).2.lookup id = if id ∈ ids then b.records.lookup id else c.lookup id := by
  induction ids generalizing c with
  | nil => exact ⟨rfl, hc, fun id => (if_neg (not_mem_nil)).symm⟩
  | cons i ids ih =>
    obtain ⟨n, hn⟩ := isSome_iff_exists.mp ((hb.listed i).mp (hids i (mem_cons_self ..)))
    have hni := hb.keyed i n hn
    subst hni
    have hone : refreshOne (b, c) n.id = (b, commit c n) := by
      unfold refreshOne
      rw [hn]
    rw [foldl_cons, hone]
    obtain ⟨h1, h2, h3⟩ := ih (fun id hid => hids id (mem_cons_of_mem _ hid)) (trails_commit hc hn)
    refine ⟨h1, h2, fun id => ?_⟩
    rw [h3, commit_lookup hc hn]
    by_cases hid : id ∈ ids
    · rw [if_pos hid, if_pos (mem_cons_of_mem _ hid)]
    rw [if_neg hid]
    by_cases hin : id = n.id
    · rw [if_pos hin, hin, if_pos (mem_cons_self ..), hn]
    · rw [if_neg hin, if_neg fun hmem => (mem_cons.mp hmem).elim hin hid]

theorem refresh_rest (js : List String) (hjs : ∀ j ∈ js, b.records.lookup j = none) (c : Cache) (id : String) :
    (js.foldl (recheck b) c).lookup id = if id ∈ js then none else c.lookup id := by
  induction js generalizing c with
  | nil => exact (if_neg not_mem_nil).symm
  | cons j js ih =>
    have hone : recheck b c j = c.erase j := by
      unfold recheck
      rw [hjs j (mem_cons_self ..)]
    rw [foldl_cons, hone, ih fun i hi => hjs i (mem_cons_of_mem _ hi)]
    by_cases hid : id ∈ js
    · rw [if_pos hid, if_pos (mem_cons_of_mem _ hid)]
    rw [if_neg hid]
    by_cases hij : id = j
    · rw [hij, lookup_erase, if_pos (mem_cons_self ..)]
    · rw [lookup_erase_ne hij, if_neg fun hmem => (mem_cons.mp hmem).elim hij hid]

/-- **A refresh of a cache that trails leaves the backend and makes the cache equal to it.** -/
theorem refresh_spec (hb : b.Ok) (hc : Trails b.records c) {ids : List String} (hids : ids.toFinset = b.members) :
    (refresh b c ids).1 = b ∧ ∀ id, (refresh b c ids).2.lookup id = b.records.lookup id := by
  have hmem : ∀ id, id ∈ ids ↔ id ∈ b.members := fun id => by rw [← hids, List.mem_toFinset]
  obtain ⟨h1, -, h3⟩ := refresh_roster hb ids (fun id hid => (hmem id).mp hid) hc
  have hnone : ∀ id, id ∉ ids → b.records.lookup id = none := by
    intro id hid
    rw [hmem, hb.listed] at hid
    exact not_isSome_iff_eq_none.mp hid
  refine ⟨h1, fun id => ?_⟩
  show (foldl (recheck (ids.foldl refreshOne (b, c)).1) _ _).lookup id = _
  rw [h1, refresh_rest]
  · by_cases hid : id ∈ ids
    · rw [if_neg, h3, if_pos hid]
      intro hf
      have hnot := (mem_filter.mp hf).2
      exact absurd hid (of_decide_eq_true hnot)
    · rw [hnone id hid]
      split
      · rfl
      -- an identifier that is neither listed nor a key of the cache is not in the cache
      rename_i hf
      refine lookup_eq_none.mpr fun hkey => hf ?_
      exact mem_filter.mpr ⟨mem_keys.mp hkey, decide_eq_true hid⟩
  · intro j hj
    exact hnone j (of_decide_eq_true (mem_filter.mp hj).2)

end

/-! ## the invariant -/

/-- the backend is in order and every cache is behind it -/
structure Sound (s : Cluster) : Prop where
  ok : s.shared.Ok
  trails : ∀ c ∈ s.caches, Trails s.shared.records c

section
variable {b : Shared} {c : Cache} {n : Node} {id : String} {now : Int} {s s' : Cluster} {p : Nat}

theorem get_spec (hb : b.Ok) (hc : Trails b.records c) (id : String) :
    (get b c id).1.toOption = (c.lookup id).or (b.records.lookup id) ∧ Trails b.records (get b c id).2 ∧
      ∀ j x, (get b c id).2.lookup j = some x → c.lookup j = some x ∨ b.records.lookup j = some x := by
  unfold get
  cases hx : c.lookup id with
  | some x => exact ⟨rfl, hc, fun j y hy => .inl hy⟩
  | none =>
    cases hn : b.records.lookup id with
    | none => exact ⟨rfl, hc, fun j y hy => .inl hy⟩
    | some n =>
      have hni := hb.keyed id n hn
      subst hni
      refine ⟨rfl, trails_commit hc hn, fun j y hy => ?_⟩
      rw [commit_lookup hc hn] at hy
      by_cases hj : j = n.id
      · rw [if_pos hj] at hy
        exact .inr (hj ▸ hn.trans hy)
      · rw [if_neg hj] at hy
        exact .inl hy

theorem put_stamped (b : Shared) (c : Cache) (hn : n.updatedAt = now) :
    put now b c n = if n.id = "" then .error .invalidNode
      else .ok (⟨b.records.insert n.id n, insert n.id b.members⟩, commit c n) := by
  unfold put
  split
  · rfl
  by_cases hz : n.updatedAt = 0
  · have hsame : { n with updatedAt := now } = n := by rw [← hn]
    simp only [if_pos hz, hsame]
  · simp only [if_neg hz]

theorem ok_insert (hb : b.Ok) (n : Node) : (Shared.mk (b.records.insert n.id n) (insert n.id b.members)).Ok := by
  refine ⟨fun id m hm => ?_, fun id => ?_⟩
  · by_cases hid : id = n.id
    · subst hid
      rw [lookup_insert] at hm
      cases hm
      rfl
    · dsimp only at hm
      rw [lookup_insert_ne hid] at hm
      exact hb.keyed id m hm
  · dsimp only
    rw [Finset.mem_insert]
    by_cases hid : id = n.id
    · subst hid
      rw [lookup_insert]
      exact iff_of_true (.inl rfl) rfl
    · rw [lookup_insert_ne hid, ← hb.listed]
      exact or_iff_right hid

theorem ok_erase (hb : b.Ok) (id : String) : (Shared.mk (b.records.erase id) (b.members.erase id)).Ok := by
  refine ⟨fun j m hm => ?_, fun j => ?_⟩
  · by_cases hj : j = id
    · subst hj
      rw [lookup_erase] at hm
      cases hm
    · dsimp only at hm
      rw [lookup_erase_ne hj] at hm
      exact hb.keyed j m hm
  · dsimp only
    rw [Finset.mem_erase]
    by_cases hj : j = id
    · subst hj
      rw [lookup_erase]
      exact iff_of_false (fun h => h.1 rfl) (by rintro ⟨⟩)
    · rw [lookup_erase_ne hj, ← hb.listed]
      exact and_iff_right hj

theorem sound_set (hb : b.Ok) (hall : ∀ c ∈ s.caches, Trails b.records c) (hc : Trails b.records c) :
    Sound ⟨b, s.caches.set p c⟩ := by
  refine ⟨hb, fun d hd => ?_⟩
  rcases mem_or_eq_of_mem_set hd with hd | rfl
  · exact hall d hd
  · exact hc

/-- **A write that is newer than every copy keeps the invariant.** -/
theorem sound_put (h : Sound s) (hc : Trails s.shared.records c)
    (hnew : ∀ d ∈ s.caches, ∀ x, d.lookup n.id = some x → n.supersedes x = true)
    (hown : ∀ x, c.lookup n.id = some x → n.supersedes x = true) :
    Sound ⟨⟨s.shared.records.insert n.id n, insert n.id s.shared.members⟩, s.caches.set p (commit c n)⟩ := by
  refine sound_set (ok_insert h.ok n) (fun d hd => trails_insert (h.trails d hd) (hnew d hd)) ?_
  exact trails_commit (trails_insert hc hown) (lookup_insert ..)

/-! ## the condition -/

/-- the copy of the process, if it has one, is the record of the backend -/
def Own (s : Cluster) (p : Nat) (id : String) (r : Node) : Prop :=
  ∀ c ∈ s.caches[p]?, ∀ x ∈ c.lookup id, x = r

instance (s : Cluster) (p : Nat) (id : String) (r : Node) : Decidable (Own s p id r) := by
  unfold Own
  infer_instance

/-- a join of a node the backend has, or has not -/
def JoinOk (s : Cluster) (p : Nat) (id : String) : Option Node → Prop
  | none => ∀ c ∈ s.caches, c.lookup id = none
  | some r => r.incarnation < r.incarnation + 1 ∧ Own s p id r

instance (s : Cluster) (p : Nat) (id : String) : ∀ r, Decidable (JoinOk s p id r) := by
  intro r
  unfold JoinOk
  split <;> infer_instance

/-- a mutation of a node the backend has, or has not -/
def MutateOk (s : Cluster) (p : Nat) (id : String) (now : Int) (fn : Node → Node) : Option Node → Prop
  | none => ∀ c ∈ s.caches[p]?, c.lookup id = none
  | some r => Own s p id r ∧ ((fn r).id = r.id ∧ (fn r).incarnation = r.incarnation) ∧ r.updatedAt < now ∧
      ∀ c ∈ s.caches, ∀ x ∈ c.lookup id, x.incarnation = r.incarnation → x.updatedAt < now

instance (s : Cluster) (p : Nat) (id : String) (now : Int) (fn : Node → Node) :
    ∀ r, Decidable (MutateOk s p id now fn r) := by
  intro r
  unfold MutateOk
  split <;> infer_instance

/-- the operation finds what it is to replace -/
def Current (s : Cluster) (l : Int × Op) : Prop :=
  match l.2 with
  | .join p n => JoinOk s p n.id (s.shared.records.lookup n.id)
  | .mutate p id fn => MutateOk s p id l.1 fn (s.shared.records.lookup id)
  | _ => True

instance (s : Cluster) (l : Int × Op) : Decidable (Current s l) := by
  unfold Current
  split <;> infer_instance

/-! ## steps -/

theorem enlist_id (now : Int) (n : Node) (known : Option Node) : (enlist now n known).id = n.id := by
  cases known <;> rfl

theorem enlist_updatedAt (now : Int) (n : Node) (known : Option Node) : (enlist now n known).updatedAt = now := by
  cases known <;> rfl

theorem enlist_supersedes {x r : Node} (h : Behind x r) (hwrap : r.incarnation < r.incarnation + 1) (n : Node) :
    (enlist now n (some r)).supersedes x = true := by
  refine supersedes_of_lt ?_
  exact UInt64.lt_of_le_of_lt h.incarnation_le hwrap

theorem known_of_own {r : Node} (hp : s.caches[p]? = some c) (ho : Own s p id r) :
    (c.lookup id).or (some r) = some r := by
  cases hx : c.lookup id with
  | none => rfl
  | some x => rw [ho c hp x hx, some_or]

theorem copies_of_get (id : String) (h : Sound s) (hp : s.caches[p]? = some c) {P : Node → Prop}
    (hall : ∀ d ∈ s.caches, ∀ x, d.lookup id = some x → P x)
    (hrec : ∀ r, s.shared.records.lookup id = some r → P r) (x : Node)
    (hx : (get s.shared c id).2.lookup id = some x) : P x := by
  have hmem := mem_of_getElem? hp
  rcases (get_spec h.ok (h.trails c hmem) id).2.2 id x hx with hx | hx
  · exact hall c hmem x hx
  · exact hrec x hx

theorem sound_join (h : Sound s) (hp : s.caches[p]? = some c) (hC : JoinOk s p n.id (s.shared.records.lookup n.id)) :
    Sound ⟨(join now s.shared c n).2.1, s.caches.set p (join now s.shared c n).2.2⟩ := by
  have hc := h.trails c (mem_of_getElem? hp)
  obtain ⟨hview, htrails, -⟩ := get_spec h.ok hc n.id
  unfold join
  split
  · dsimp only
    rw [hview]
    generalize hm : enlist now n ((c.lookup n.id).or (s.shared.records.lookup n.id)) = m
    have hid : m.id = n.id := hm ▸ enlist_id ..
    rw [put_stamped _ _ (hm ▸ enlist_updatedAt ..)]
    by_cases hempty : m.id = ""
    · rw [if_pos hempty]
      exact sound_set h.ok h.trails htrails
    rw [if_neg hempty]
    have hnew : (∀ d ∈ s.caches, ∀ x, d.lookup n.id = some x → m.supersedes x = true) ∧
        ∀ r, s.shared.records.lookup n.id = some r → m.supersedes r = true := by
      cases hr : s.shared.records.lookup n.id with
      | none =>
        rw [hr] at hC
        refine ⟨fun d hd x hx => ?_, fun r hr => by cases hr⟩
        cases (hC d hd).symm.trans hx
      | some r =>
        rw [hr] at hC hm
        rw [known_of_own hp hC.2] at hm
        subst hm
        refine ⟨fun d hd x hx => enlist_supersedes (h.trails d hd n.id x r hx hr) hC.1 n, fun r' hr' => ?_⟩
        cases hr'
        exact enlist_supersedes (.inl rfl) hC.1 n
    rw [← hid] at hnew htrails ⊢
    exact sound_put h htrails hnew.1 (copies_of_get m.id h hp hnew.1 hnew.2)
  · exact sound_set h.ok h.trails hc

theorem sound_leave (h : Sound s) (hp : s.caches[p]? = some c) (id : String) :
    Sound ⟨(leave s.shared c id).1, s.caches.set p (leave s.shared c id).2⟩ := by
  have hc := h.trails c (mem_of_getElem? hp)
  obtain ⟨-, htrails, -⟩ := get_spec h.ok hc id
  unfold leave
  split
  · rename_i hget
    rw [hget] at htrails
    exact sound_set h.ok h.trails htrails
  · rename_i hget
    rw [hget] at htrails
    refine sound_set (ok_erase h.ok id) (fun d hd => trails_drop (h.trails d hd) id) ?_
    exact trails_erase (trails_drop htrails id) id

theorem sound_mutate {fn : Node → Node} (h : Sound s) (hp : s.caches[p]? = some c)
    (hC : MutateOk s p id now fn (s.shared.records.lookup id)) :
    Sound ⟨(mutate now s.shared c id fn).2.1, s.caches.set p (mutate now s.shared c id fn).2.2⟩ := by
  have hc := h.trails c (mem_of_getElem? hp)
  obtain ⟨hview, htrails, -⟩ := get_spec h.ok hc id
  have hcopies := fun P => copies_of_get (P := P) id h hp
  unfold mutate
  split
  · rename_i hget
    rw [hget] at htrails
    exact sound_set h.ok h.trails htrails
  · rename_i cur c' hget
    rw [hget] at htrails hview hcopies
    cases hr : s.shared.records.lookup id with
    | none =>
      -- the process has no copy either, so the read has failed
      rw [hr] at hC hview
      rw [hC c hp] at hview
      cases hview
    | some r =>
      rw [hr] at hC hview
      obtain ⟨hown, ⟨hfid, hfinc⟩, hrec, hclock⟩ := hC
      rw [known_of_own hp hown] at hview
      cases hview
      rw [put_stamped _ _ (show ((fn cur).stamped now).updatedAt = now from rfl)]
      by_cases hempty : ((fn cur).stamped now).id = ""
      · rw [if_pos hempty]
        exact sound_set h.ok h.trails htrails
      rw [if_neg hempty]
      have hnewer : ∀ x, Behind x cur → (x.incarnation = cur.incarnation → x.updatedAt < now) →
          ((fn cur).stamped now).supersedes x = true := by
        intro x hx hlt
        rcases hx with rfl | hx
        · exact supersedes_of_later hfinc.symm (hlt rfl)
        rcases supersedes_cases hx with hinc | ⟨hinc, -⟩
        · refine supersedes_of_lt ?_
          show x.incarnation < (fn cur).incarnation
          rw [hfinc]
          exact hinc
        · exact supersedes_of_later (hinc.trans hfinc.symm) (hlt hinc)
      have hid : ((fn cur).stamped now).id = id := hfid.trans (h.ok.keyed id cur hr)
      have hnew : ∀ d ∈ s.caches, ∀ x, d.lookup id = some x → ((fn cur).stamped now).supersedes x = true :=
        fun d hd x hx => hnewer x (h.trails d hd id x cur hx hr) (hclock d hd x hx)
      have hold : ∀ r, s.shared.records.lookup id = some r → ((fn cur).stamped now).supersedes r = true := by
        intro r hr'
        cases hr.symm.trans hr'
        exact hnewer _ (.inl rfl) fun _ => hrec
      rw [← hid] at hcopies hnew hold
      exact sound_put h htrails hnew (hcopies _ hnew hold)

/-- **A step under the condition keeps the invariant.** -/
theorem sound_next {l : Int × Op} (h : Sound s) (hC : Current s l) (hn : s.next l = some s') : Sound s' := by
  obtain ⟨now, op⟩ := l
  unfold Cluster.next at hn
  split at hn
  · cases hn
  rename_i c hp
  obtain ⟨r, hr, rfl⟩ := map_eq_some_iff.mp hn
  cases op with
  | join p n =>
    cases hr
    exact sound_join h hp hC
  | leave p id =>
    cases hr
    exact sound_leave h hp id
  | mutate p id fn =>
    cases hr
    exact sound_mutate h hp hC
  | refresh p ids =>
    obtain ⟨hids, hr⟩ := ite_none_right_eq_some.mp hr
    cases hr
    have hc := h.trails c (mem_of_getElem? hp)
    obtain ⟨hb, hlookup⟩ := refresh_spec h.ok hc hids.2
    rw [hb]
    refine sound_set h.ok h.trails fun id x n hx hn => ?_
    rw [hlookup, hn] at hx
    cases hx
    exact .inl rfl

end

def fresh (n : Nat) : Cluster := ⟨{}, replicate n ∅⟩

theorem sound_fresh (n : Nat) : Sound (fresh n) := by
  refine ⟨⟨fun id n hn => ?_, fun id => ?_⟩, fun c hc => ?_⟩
  · cases hn
  · exact iff_of_false (Finset.notMem_empty id) (by rintro ⟨⟩)
  rw [eq_of_mem_replicate hc]
  intro id x n hx
  cases hx

/-- **Along every run under the condition a refresh leaves exactly the records of the backend** in the
cache of its process. -/
theorem refresh_exact (n : Nat) {ls : List (Int × Op)} (hC : Along Cluster.next Current (fresh n) ls)
    {s s' : Cluster} (hr : run Cluster.next (fresh n) ls = some s) {now : Int} {p : Nat} {ids : List String}
    (hn : s.next (now, .refresh p ids) = some s') :
    ∃ c, s'.caches[p]? = some c ∧ ∀ id, c.lookup id = s'.shared.records.lookup id := by
  have h : Sound s := run_inv (fun s l s' hi hc hn => sound_next hi hc hn) (sound_fresh n) hC hr
  unfold Cluster.next at hn
  split at hn
  · cases hn
  rename_i c hp
  obtain ⟨r, hex, rfl⟩ := map_eq_some_iff.mp hn
  obtain ⟨hids, hex⟩ := ite_none_right_eq_some.mp hex
  cases hex
  obtain ⟨hb, hlookup⟩ := refresh_spec h.ok (h.trails c (mem_of_getElem? hp)) hids.2
  refine ⟨(refresh s.shared c ids).2, getElem?_set_self (List.getElem?_eq_some_iff.mp hp).1, ?_⟩
  intro id
  rw [hlookup]
  exact congrArg (fun b : Shared => b.records.lookup id) hb.symm

def worker (id : String) : Node := { id, address := "h:1", role := .worker }

def calmRun : List (Int × Op) :=
  [(1, .join 0 (worker "a")), (2, .refresh 1 ["a"]), (3, .mutate 0 "a" (Node.beat 3)),
    (4, .join 1 (worker "b")), (5, .refresh 0 ["b", "a"]), (6, .refresh 1 ["a", "b"]), (7, .join 1 (worker "a")),
    (8, .leave 0 "b"), (9, .refresh 1 ["a"]), (10, .join 0 (worker "b"))]

theorem refresh_exact_calmRun : Along Cluster.next Current (fresh 2) calmRun ∧
      ∃ s ∈ run Cluster.next (fresh 2) calmRun, ∃ s' ∈ s.next (11, .refresh 1 ["b", "a"]),
        (s'.shared.records.lookup "b").isSome = true ∧
        ∃ c, s'.caches[1]? = some c ∧ ∀ id, c.lookup id = s'.shared.records.lookup id := by
  have hend : ∃ s ∈ run Cluster.next (fresh 2) calmRun, ∃ s' ∈ s.next (11, .refresh 1 ["b", "a"]),
      (s'.shared.records.lookup "b").isSome = true := by
    decide +kernel
  obtain ⟨s, hr, s', hn, hb⟩ := hend
  refine ⟨?hC, s, hr, s', hn, hb, refresh_exact 2 ?hC hr hn⟩
  decide +kernel

/-- the node joins twice, another process caches it, it leaves and joins anew -/
def rejoinRun : List (Int × Op) :=
  [(1, .join 0 (worker "a")), (2, .join 0 (worker "a")), (3, .refresh 1 ["a"]), (4, .leave 0 "a"),
    (5, .join 0 (worker "a")), (6, .refresh 1 ["a"])]

/-- **A node that left and joined again stays hidden behind an old copy**, whose incarnation is higher. -/
theorem rejoin_unseen : ∃ s ∈ run Cluster.next (fresh 2) rejoinRun, ∃ c ∈ s.caches[1]?,
      (c.lookup "a").map Node.incarnation = some 2 ∧
      (s.shared.records.lookup "a").map Node.incarnation = some 1 := by
  decide +kernel

end Coord.Registry
