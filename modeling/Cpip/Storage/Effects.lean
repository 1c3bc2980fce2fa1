import Cpip.Storage.Manager

/-!
# Storage: what an access does

Every access, seen from one record and from one object, and operations that keep an invariant.

* `Cmd.Reads`, `exec_reads`  the accesses that leave the records and the objects as they are;
* `Effect`, `effect_exec`  the fields that an access changes;
* `Change`, `change_exec`  **what an access does to the record of an identifier**;
* `Touch`, `touch_exec`  **what an access does to an object**;
* `Keeps`  the operations that keep an invariant, whatever the others do.
-/

namespace Storage

def Cmd.Reads : Cmd → Prop
  | .update _ => False
  | .updateState _ _ _ => False
  | .delete _ => False
  | .appendVersion _ => False
  | .setLatest _ _ => False
  | .putObject _ _ _ => False
  | .deleteObject _ _ => False
  | _ => True

variable {x : Artifact} {id : String} {r : Except Err Unit}

section
variable {S : Service} {w m : World} {e : Env}

theorem exec_findExpired {now limit : Int} {found : List Artifact}
    (he : exec S (.findExpired now limit) w e = some (found, m)) : m = w ∧ ∀ a ∈ found, a ∈ w.store.expired now := by
  dsimp only [exec] at he
  generalize (if 0 < limit then min limit.toNat (w.store.expired now).length else (w.store.expired now).length) =
    n at he
  split at he
  · cases he
    refine ⟨rfl, fun a ha => ?_⟩
    obtain ⟨id, -, hid⟩ := List.mem_filterMap.mp ha
    exact List.mem_of_find?_eq_some hid
  · cases he

theorem exec_findByContentHash {bucket : String} {hash : Digest} {r : Except Err Artifact}
    (he : exec S (.findByContentHash bucket hash) w e = some (r, m)) :
    m = w ∧ ∀ a, r = .ok a → a ∈ w.store.matching bucket hash := by
  dsimp only [exec] at he
  split at he
  · cases he
    exact ⟨rfl, fun a ha => by cases ha⟩
  obtain ⟨x, hx, heq⟩ := Option.map_eq_some_iff.mp he
  cases heq
  refine ⟨rfl, fun a ha => ?_⟩
  cases ha
  exact List.mem_of_find?_eq_some hx

theorem exec_reads {c : Cmd} {a : c.Ans} (hc : c.Reads) (he : exec S c w e = some (a, m)) :
    ∃ used, (∀ id ∈ w.used, id ∈ used) ∧ m = { w with used } := by
  cases c with
  | update x | updateState id expected next | delete id | appendVersion x | setLatest lineageID id
  | putObject bucket key data | deleteObject bucket key => exact hc.elim
  | newID =>
    dsimp only [exec] at he
    split at he
    · cases he
    · cases he
      exact ⟨_, fun id hid => List.mem_cons_of_mem _ hid, rfl⟩
  | findByContentHash bucket hash => exact ⟨w.used, fun _ => id, (exec_findByContentHash he).1⟩
  | findExpired now limit => exact ⟨w.used, fun _ => id, (exec_findExpired he).1⟩
  | getObject bucket key range =>
    refine ⟨w.used, fun _ => id, ?_⟩
    dsimp only [exec] at he
    split at he
    · cases he
      rfl
    split at he
    · cases he
      rfl
    split at he
    · cases he
      rfl
    · cases he
      rfl
  | existsObject bucket key | listObjects bucket after =>
    refine ⟨w.used, fun _ => id, ?_⟩
    dsimp only [exec] at he
    split at he
    · cases he
      rfl
    · cases he
      rfl
  | _ =>
    cases he
    exact ⟨w.used, fun _ => id, rfl⟩

/-! ## the writes -/

theorem exec_updateState {expected next : State} (he : exec S (.updateState id expected next) w e = some (r, m)) :
    ((∃ err, r = .error err) ∧ m = w ∧
      ∀ cur, w.store.find id = some cur → cur.state = expected → canTransition expected next = false) ∨
    r = .ok () ∧ ∃ cur store, w.store.find id = some cur ∧ cur.state = expected ∧ canTransition expected next = true ∧
      m = { w with store } ∧ store.find id = some { cur with state := next } ∧
      ∀ id', id' ≠ id → store.find id' = w.store.find id' := by
  dsimp only [exec] at he
  rcases MemoryStore.updateState_cases (s := w.store) id expected next with ⟨err, heq, hno⟩ | ⟨cur, store, hcur, hs,
    hcan, heq, hself, hne⟩
  · rw [heq] at he
    cases he
    exact .inl ⟨⟨err, rfl⟩, rfl, hno⟩
  · rw [heq] at he
    cases he
    exact .inr ⟨rfl, cur, store, hcur, hs, hcan, rfl, hself, hne⟩

theorem exec_update (he : exec S (.update x) w e = some (r, m)) : ((∃ err, r = .error err) ∧ m = w) ∨
    r = .ok () ∧ ∃ cur store, w.store.find x.id = some cur ∧ m = { w with store } ∧
      store.find x.id = some { x with lineageID := cur.lineageID } ∧
      ∀ id, id ≠ x.id → store.find id = w.store.find id := by
  dsimp only [exec] at he
  rcases MemoryStore.update_cases (s := w.store) x with ⟨-, heq⟩ | ⟨cur, store, hcur, heq, hself, hne⟩
  · rw [heq] at he
    cases he
    exact .inl ⟨⟨_, rfl⟩, rfl⟩
  · rw [heq] at he
    cases he
    exact .inr ⟨rfl, cur, store, hcur, rfl, hself, hne⟩

theorem exec_appendVersion {r : Except Err Artifact} (he : exec S (.appendVersion x) w e = some (r, m)) :
    ((∃ err, r = .error err) ∧ m = w) ∨
    (x.id ≠ "" ∧ w.store.find x.id = none) ∧ r = .ok (w.store.numbered x) ∧ m = { w with
      store := (w.store.appendVersion x).2
      made := w.made ++ [w.store.numbered x]
      assigned := w.assigned ++ [(x.lineageID, w.store.maxVersion x.lineageID + 1)] } ∧
      m.store.find x.id = some (w.store.numbered x) ∧
      ∀ id, id ≠ x.id → m.store.find id =
        (w.store.find id).map fun b => if b.lineageID = x.lineageID then { b with isLatest := false } else b := by
  dsimp only [exec] at he
  rcases MemoryStore.appendVersion_cases (s := w.store) x with ⟨err, heq⟩ | ⟨store, hid, hnone, heq, hself, hne⟩
  · rw [heq] at he
    cases he
    exact .inl ⟨⟨err, rfl⟩, rfl⟩
  · rw [heq] at he ⊢
    cases he
    exact .inr ⟨⟨hid, hnone⟩, rfl, rfl, hself, hne⟩

theorem exec_delete (he : exec S (.delete id) w e = some (r, m)) : w.store.find id = none ∧ m = w ∨
    ∃ cur, w.store.find id = some cur ∧
      m = World.forget { w with store := w.store.without id, purged := id :: w.purged } cur.lineageID := by
  dsimp only [exec] at he
  rcases MemoryStore.delete_cases (s := w.store) id with ⟨hnone, heq⟩ | ⟨cur, store, hcur, heq, -, -⟩
  · rw [heq] at he
    cases he
    exact .inl ⟨hnone, rfl⟩
  · have hstore : store = w.store.without id := by
      unfold MemoryStore.delete at heq
      rw [hcur] at heq
      cases heq
      rfl
    rw [heq, hcur] at he
    cases he
    exact .inr ⟨cur, hcur, by rw [hstore]; rfl⟩

theorem deleted {lineageID : String}
    (h : m = World.forget { w with store := w.store.without id, purged := id :: w.purged } lineageID) :
    ∃ assigned, m = { w with store := w.store.without id, purged := id :: w.purged, assigned } := by
  unfold World.forget at h
  split at h
  · exact ⟨_, h⟩
  · exact ⟨_, h⟩

end

section
variable {S : Service} {w m : World} {e : Env} {c : Cmd} {a : c.Ans}

theorem find_delete (he : exec S (.delete id) w e = some (r, m)) : m.store.find id = none := by
  rcases exec_delete he with ⟨hnone, rfl⟩ | ⟨cur, -, hm⟩
  · exact hnone
  obtain ⟨assigned, rfl⟩ := deleted hm
  exact MemoryStore.find_without_self

inductive Effect (S : Service) (w : World) : Cmd → World → Prop where
  | read {c : Cmd} {used : List String} (h : ∀ id ∈ w.used, id ∈ used) : Effect S w c { w with used }
  | write {c : Cmd} (store : MemoryStore) : Effect S w c { w with store }
  | append {x : Artifact} (store : MemoryStore) (assigned : List (String × Int))
      (h : x.id ≠ "" ∧ w.store.find x.id = none) :
      Effect S w (.appendVersion x) { w with store, made := w.made ++ [w.store.numbered x], assigned }
  | delete {id : String} (store : MemoryStore) (assigned : List (String × Int)) :
      Effect S w (.delete id) { w with store, purged := id :: w.purged, assigned }
  | put {bucket key p : String} {data : Bytes} (modified : Option Int) (h : physicalBucket S bucket = some p) :
      Effect S w (.putObject bucket key data) { w with objects := w.objects.insert (p, key) ⟨data, modified⟩ }
  | erase {bucket key p : String} (h : physicalBucket S bucket = some p) :
      Effect S w (.deleteObject bucket key) { w with objects := w.objects.erase (p, key) }

section
variable (he : exec S c w e = some (a, m))
include he

theorem effect_exec : Effect S w c m := by
  by_cases hc : c.Reads
  · obtain ⟨used, hused, rfl⟩ := exec_reads hc he
    exact .read hused
  cases c with
  | update x | updateState id expected next | setLatest lineageID id =>
    cases he
    exact .write _
  | delete id =>
    rcases exec_delete he with ⟨-, rfl⟩ | ⟨cur, -, hm⟩
    · exact .write m.store
    obtain ⟨assigned, rfl⟩ := deleted hm
    exact .delete _ _
  | appendVersion x =>
    rcases exec_appendVersion he with ⟨-, rfl⟩ | ⟨hnew, -, rfl, -, -⟩
    · exact .write m.store
    · exact .append _ _ hnew
  | putObject bucket key data =>
    dsimp only [exec] at he
    split at he
    · cases he
      exact .write w.store
    rename_i p hp
    cases he
    exact .put e.modified hp
  | deleteObject bucket key =>
    dsimp only [exec] at he
    split at he
    · cases he
      exact .write w.store
    rename_i p hp
    cases he
    exact .erase hp
  | _ => exact absurd trivial hc

theorem used_mono (hid : id ∈ w.used) : id ∈ m.used := by
  cases effect_exec he with
  | read h => exact h id hid
  | _ => exact hid

theorem purged_mono (hid : id ∈ w.purged) : id ∈ m.purged := by
  cases effect_exec he with
  | delete store assigned => exact List.mem_cons_of_mem _ hid
  | _ => exact hid

theorem made_exec (hx : x ∈ m.made) : x ∈ w.made ∨ ∃ y, c = .appendVersion y ∧ y.id ≠ "" ∧ x = w.store.numbered y ∧
    m.store.find y.id = some x := by
  cases effect_exec he with
  | append store assigned h =>
    rcases exec_appendVersion he with ⟨-, heq⟩ | ⟨-, -, -, hself, -⟩
    · exact .inl (congrArg World.made heq ▸ hx)
    rcases List.mem_append.mp hx with hx | hx
    · exact .inl hx
    cases List.mem_singleton.mp hx
    exact .inr ⟨_, rfl, h.1, rfl, hself⟩
  | _ => exact .inl hx

theorem made_mono (hx : x ∈ w.made) : x ∈ m.made := by
  cases effect_exec he with
  | append store assigned h => exact List.mem_append_left _ hx
  | _ => exact hx

end

/-! ## one record -/

inductive Change (w m : World) (id : String) : Cmd → Prop where
  | keep {c : Cmd} (h : m.store.find id = w.store.find id) : Change w m id c
  | head {c : Cmd} {b : Artifact} (isLatest : Bool) (h : w.store.find id = some b)
      (h' : m.store.find id = some { b with isLatest }) : Change w m id c
  | update {x cur : Artifact} (hid : x.id = id) (h : w.store.find id = some cur)
      (h' : m.store.find id = some { x with lineageID := cur.lineageID }) : Change w m id (.update x)
  | state {id' : String} {expected next : State} {cur : Artifact} (hid : id' = id) (h : w.store.find id = some cur)
      (hs : cur.state = expected) (h' : m.store.find id = some { cur with state := next }) :
      Change w m id (.updateState id' expected next)
  | delete {id' : String} {cur : Artifact} (hid : id' = id) (h : w.store.find id = some cur)
      (h' : m.store.find id = none) (hp : id ∈ m.purged) : Change w m id (.delete id')
  | append {x : Artifact} (hid : x.id = id) (h : w.store.find id = none)
      (h' : m.store.find id = some (w.store.numbered x)) : Change w m id (.appendVersion x)

theorem change_head {f : Artifact → Bool} {lineageID : String}
    (h : m.store.find id = (w.store.find id).map fun b => if b.lineageID = lineageID then { b with isLatest := f b }
      else b) : Change w m id c := by
  cases hx : w.store.find id with
  | none =>
    refine .keep ?_
    rw [h, hx]
    rfl
  | some b =>
    rw [hx, Option.map_some] at h
    by_cases hl : b.lineageID = lineageID
    · rw [if_pos hl] at h
      exact .head (f b) hx h
    · rw [if_neg hl] at h
      exact .keep (h.trans hx.symm)

/-- **What an access does to the record of an identifier.** -/
theorem change_exec (he : exec S c w e = some (a, m)) (id : String) : Change w m id c := by
  by_cases hc : c.Reads
  · obtain ⟨used, -, rfl⟩ := exec_reads hc he
    exact .keep rfl
  cases c with
  | update x =>
    rcases exec_update he with ⟨-, rfl⟩ | ⟨-, cur, store, hcur, rfl, hself, hne⟩
    · exact .keep rfl
    by_cases hid : id = x.id
    · subst hid
      exact .update rfl hcur hself
    · exact .keep (hne id hid)
  | updateState id' expected next =>
    rcases exec_updateState he with ⟨-, rfl, -⟩ | ⟨-, cur, store, hcur, hs, -, rfl, hself, hne⟩
    · exact .keep rfl
    by_cases hid : id = id'
    · subst hid
      exact .state rfl hcur hs hself
    · exact .keep (hne id hid)
  | delete id' =>
    rcases exec_delete he with ⟨-, rfl⟩ | ⟨cur, hcur, hm⟩
    · exact .keep rfl
    obtain ⟨assigned, rfl⟩ := deleted hm
    by_cases hid : id = id'
    · subst hid
      exact .delete rfl hcur MemoryStore.find_without_self (List.mem_cons_self ..)
    · exact .keep (MemoryStore.find_without_ne hid)
  | appendVersion x =>
    rcases exec_appendVersion he with ⟨-, rfl⟩ | ⟨hnew, -, -, hself, hne⟩
    · exact .keep rfl
    by_cases hid : id = x.id
    · subst hid
      exact .append rfl hnew.2 hself
    · exact change_head (f := fun _ => false) (hne id hid)
  | setLatest lineageID id' =>
    cases he
    exact change_head (f := fun b => b.id = id') (MemoryStore.find_setLatest lineageID id' id)
  | putObject bucket key data | deleteObject bucket key =>
    dsimp only [exec] at he
    split at he
    · cases he
      exact .keep rfl
    · cases he
      exact .keep rfl
  | _ => exact absurd trivial hc

/-! ## one object -/

inductive Touch (S : Service) (w m : World) (p key : String) : Cmd → Prop where
  | keep {c : Cmd} (h : m.objects.lookup (p, key) = w.objects.lookup (p, key)) : Touch S w m p key c
  | put {bucket : String} {data : Bytes} (modified : Option Int) (hb : physicalBucket S bucket = some p)
      (h : m.objects.lookup (p, key) = some ⟨data, modified⟩) : Touch S w m p key (.putObject bucket key data)
  | delete {bucket : String} (hb : physicalBucket S bucket = some p) (h : m.objects.lookup (p, key) = none) :
      Touch S w m p key (.deleteObject bucket key)

/-- **What an access does to an object.** -/
theorem touch_exec (he : exec S c w e = some (a, m)) (p key : String) : Touch S w m p key c := by
  cases effect_exec he with
  | put modified h =>
    rename_i bucket key' q data
    by_cases hx : ((p, key) : String × String) = (q, key')
    · cases hx
      exact .put modified h (AList.lookup_insert _)
    · exact .keep (AList.lookup_insert_ne hx)
  | erase h =>
    rename_i bucket key' q
    by_cases hx : ((p, key) : String × String) = (q, key')
    · cases hx
      exact .delete h (AList.lookup_erase _ _)
    · exact .keep (AList.lookup_erase_ne hx)
  | _ => exact .keep rfl

end

/-! ## the shape of the operations -/

def Cmd.Quiet : Cmd → Prop
  | .countReferences _ _ _ => False
  | c => c.Reads

section
variable (S : Service) (I : World → Prop) (R G : Cmd → World → World → Prop) (ok : World → Cmd → Prop)

/-- the quiet accesses keep the invariant and the guarantee -/
def Harmless : Prop := ∀ c, c.Quiet → ∀ t e a u, I t → ok t c → exec S c t e = some (a, u) → I u ∧ G c t u

def Keeps {ρ : Type} (x : Op ρ) : Prop := ∀ s, x.Safe (exec S) I R G ok (fun _ _ => True) s

end

section
variable {S : Service} {I : World → Prop} {R G : Cmd → World → World → Prop} {ok : World → Cmd → Prop} {ρ ρ' : Type}

theorem keeps_ret (r : ρ) : Keeps S I R G ok (.ret r) := fun _ => trivial

theorem keeps_bind {x : Op ρ'} {f : ρ' → Op ρ} (hx : Keeps S I R G ok x) (hf : ∀ r, Keeps S I R G ok (f r)) :
    Keeps S I R G ok (x.bind f) := fun s => Code.safe_bind (hx s) fun r t _ => hf r t

theorem safe_fit {F : World → Cmd → Prop}
    (hI : ∀ c t e a u, I t → ok t c → F t c → exec S c t e = some (a, u) → I u) {c : Cmd} {f : c.Ans → Op ρ}
    {Q : ρ → World → Prop} {s : World} (h : ∀ t, R c s t → I t → ok t c → F t c ∧
      ∀ e a u, exec S c t e = some (a, u) → I u → (f a).Safe (exec S) I R (fun c t _ => F t c) ok Q u) :
    ((access c).bind f).Safe (exec S) I R (fun c t _ => F t c) ok Q s := Code.safe_call hI h

section
variable (h : Harmless S I G ok)
include h

theorem safe_read {c : Cmd} (hc : c.Quiet) {f : c.Ans → Op ρ} {Q : ρ → World → Prop} {s : World}
    (hf : ∀ t e a u, R c s t → I t → ok t c → exec S c t e = some (a, u) → (f a).Safe (exec S) I R G ok Q u) :
    ((access c).bind f).Safe (exec S) I R G ok Q s := by
  intro t hR hI hok e a u he
  obtain ⟨hIu, hGu⟩ := h c hc t e a u hI hok he
  exact ⟨hIu, hGu, hf t e a u hR hI hok he⟩

theorem keeps_read {c : Cmd} (hc : c.Quiet) {f : c.Ans → Op ρ}
    (hf : ∀ t e a u, I t → ok t c → exec S c t e = some (a, u) → Keeps S I R G ok (f a)) :
    Keeps S I R G ok ((access c).bind f) :=
  fun _ => safe_read h hc fun t e a u _ hI hok he => hf t e a u hI hok he u

end

end

end Storage
