import Cpip.Lib.Index
import Cpip.Lib.Run

/-!
# Connections: the registry of one node

`manager.Manager`: the live connections by their id, by their user and by their session, and how many there are.

* `registry_invariant`  **the indexes, the counter and the limit**, when calls unregister only registered objects.

The maps are changed by the ids of the object at hand, see `indexes_disagree`.
-/

namespace Connection

open AList Lts

/-- a connection object; two objects may have the same id, user and session -/
structure Conn where
  object : Nat
  id : String
  userID : String
  sessionID : String
deriving DecidableEq

structure Manager where
  byConn : AList fun _ : String => Conn := ∅
  byUser : Index String String Conn := ∅
  bySession : AList fun _ : String => Conn := ∅
  maxConn : Int
  active : Int := 0

inductive RegisterError where
  | connectionLimit
  | duplicate
deriving DecidableEq

variable (m : Manager)

def Manager.index (c : Conn) : Manager :=
  { m with
    byConn := m.byConn.insert c.id c
    byUser := m.byUser.add c.userID c.id c
    bySession := if c.sessionID ≠ "" then m.bySession.insert c.sessionID c else m.bySession
    active := m.active + 1 }

def Manager.register (c : Conn) : Except RegisterError Manager :=
  if m.active ≥ m.maxConn then .error .connectionLimit
  else if (m.byConn.lookup c.id).isSome then .error .duplicate
  else .ok (m.index c)

def Manager.unregister (c : Conn) : Manager :=
  match m.byConn.lookup c.id with
  | none => m
  | some _ =>
    { m with
      byConn := m.byConn.erase c.id
      byUser := m.byUser.remove c.userID c.id
      bySession :=
        if c.sessionID ≠ "" ∧ (m.bySession.lookup c.sessionID).any (fun cur => cur.id = c.id) = true then
          m.bySession.erase c.sessionID
        else m.bySession
      active := m.active - 1 }

def Manager.getBySession (sessionID : String) : Option Conn := m.bySession.lookup sessionID

inductive Call where
  | register (c : Conn)
  | unregister (c : Conn)

def step : Call → Option Manager
  | .register c => some ((m.register c).toOption.getD m)
  | .unregister c => some (m.unregister c)

/-! ## the invariant -/

structure Sound (m : Manager) : Prop where
  active : m.active = m.byConn.keys.length
  limit : m.active ≤ max m.maxConn 0
  id : ∀ id c, m.byConn.lookup id = some c → c.id = id
  user : ∀ u id c, m.byUser.find u id = some c ↔ m.byConn.lookup id = some c ∧ c.userID = u
  full : m.byUser.Full
  session : ∀ s c, m.bySession.lookup s = some c → m.byConn.lookup c.id = some c ∧ c.sessionID = s
  named : m.bySession.lookup "" = none
  served : ∀ id c, m.byConn.lookup id = some c → c.sessionID ≠ "" → (m.bySession.lookup c.sessionID).isSome

/-- the object that is registered under the id is this one, and it is not the newest of a session that has others -/
def Own : Call → Prop
  | .register _ => True
  | .unregister c => (∀ d ∈ m.byConn.lookup c.id, d = c) ∧
      (m.bySession.lookup c.sessionID = some c → ∀ e ∈ m.byConn.entries, e.2.sessionID = c.sessionID → e.2 = c)

instance (m : Manager) (l : Call) : Decidable (Own m l) := by
  unfold Own
  split <;> infer_instance

section
variable {m : Manager} {c : Conn}

theorem sound_new (maxConn : Int) : Sound { maxConn := maxConn } := by
  refine ⟨rfl, by show (0 : Int) ≤ max maxConn 0; omega, nofun, fun u id c => ?_, Index.full_empty, nofun, rfl, nofun⟩
  exact ⟨nofun, fun h => (by cases h.1)⟩

theorem lookup_index (m : Manager) (c : Conn) (id : String) :
    (m.index c).byConn.lookup id = if id = c.id then some c else m.byConn.lookup id := by
  show (m.byConn.insert c.id c).lookup id = _
  split
  · next h => rw [h, lookup_insert]
  · next h => rw [lookup_insert_ne h]

theorem session_index (m : Manager) (c : Conn) (s : String) : (m.index c).bySession.lookup s =
      if c.sessionID ≠ "" ∧ s = c.sessionID then some c else m.bySession.lookup s := by
  show (if c.sessionID ≠ "" then m.bySession.insert c.sessionID c else m.bySession).lookup s = _
  by_cases hs : c.sessionID ≠ ""
  · rw [if_pos hs]
    by_cases h : s = c.sessionID
    · rw [if_pos ⟨hs, h⟩, h, lookup_insert]
    · rw [if_neg fun hc => h hc.2, lookup_insert_ne h]
  · rw [if_neg hs, if_neg fun hc => hs hc.1]

/-- **an admitted connection keeps the maps in agreement** -/
theorem sound_index (hs : Sound m) (hroom : m.active < m.maxConn) (hnew : m.byConn.lookup c.id = none) :
    Sound (m.index c) := by
  have hold : ∀ id d, m.byConn.lookup id = some d → id ≠ c.id := by
    rintro id d hd rfl
    cases hnew.symm.trans hd
  refine ⟨?_, ?_, fun id d h => ?_, fun u id d => ?_, Index.full_add hs.full _ _ _, fun s d h => ?_, ?_,
    fun id d h hne => ?_⟩
  · show m.active + 1 = ((m.byConn.insert c.id c).keys.length : Int)
    have hnot : c.id ∉ m.byConn.keys := fun h => lookup_eq_none.mp hnew (mem_keys.mpr h)
    rw [keys_insert, List.erase_of_not_mem hnot, List.length_cons, hs.active]
    push_cast
    rfl
  · show m.active + 1 ≤ max m.maxConn 0
    omega
  · rw [lookup_index] at h
    split at h
    · next heq =>
      cases h
      exact heq.symm
    · exact hs.id id d h
  · show (m.byUser.add c.userID c.id c).find u id = some d ↔ _
    rw [Index.find_add, lookup_index]
    by_cases hid : id = c.id
    · subst hid
      rw [if_pos rfl]
      by_cases hu : u = c.userID
      · rw [if_pos ⟨hu, rfl⟩]
        exact ⟨fun h => (by cases h; exact ⟨rfl, hu.symm⟩), fun h => h.1⟩
      · rw [if_neg fun h => hu h.1, hs.user, hnew]
        exact ⟨fun h => (by cases h.1), fun h => (by cases h.1; exact absurd h.2.symm hu)⟩
    · rw [if_neg fun h => hid h.2, if_neg hid]
      exact hs.user u id d
  · rw [session_index] at h
    rw [lookup_index]
    split at h
    · next heq =>
      cases h
      exact ⟨if_pos rfl, heq.2.symm⟩
    · obtain ⟨hd, hsid⟩ := hs.session s d h
      exact ⟨by rw [if_neg (hold _ _ hd), hd], hsid⟩
  · rw [session_index, if_neg fun h => h.1 h.2.symm]
    exact hs.named
  rw [lookup_index] at h
  rw [session_index]
  split at h
  · cases h
    rw [if_pos ⟨hne, rfl⟩]
    rfl
  · split
    · rfl
    · exact hs.served id d h hne

theorem sound_register (hs : Sound m) {m' : Manager} (h : m.register c = .ok m') : Sound m' := by
  unfold Manager.register at h
  split at h
  · cases h
  next hroom =>
  split at h
  · cases h
  next hnew =>
  cases h
  exact sound_index hs (by omega) (Option.not_isSome_iff_eq_none.mp hnew)

theorem unregister_eq {d : Conn} (h : m.byConn.lookup c.id = some d) : m.unregister c = { m with
      byConn := m.byConn.erase c.id
      byUser := m.byUser.remove c.userID c.id
      bySession :=
        if c.sessionID ≠ "" ∧ (m.bySession.lookup c.sessionID).any (fun cur => cur.id = c.id) = true then
          m.bySession.erase c.sessionID
        else m.bySession
      active := m.active - 1 } := by
  unfold Manager.unregister
  rw [h]

theorem lookup_unregister (h : m.byConn.lookup c.id = some c) (id : String) :
    (m.unregister c).byConn.lookup id = if id = c.id then none else m.byConn.lookup id := by
  rw [unregister_eq h]
  dsimp only
  split
  · next h => rw [h, lookup_erase]
  · next h => rw [lookup_erase_ne h]

theorem session_unregister (hs : Sound m) (h : m.byConn.lookup c.id = some c) (s : String) :
    (m.unregister c).bySession.lookup s = if m.bySession.lookup s = some c then none else m.bySession.lookup s := by
  rw [unregister_eq h]
  by_cases hcur : m.bySession.lookup s = some c
  · obtain ⟨-, rfl⟩ := hs.session s c hcur
    have hne : c.sessionID ≠ "" := by
      intro he
      rw [he, hs.named] at hcur
      cases hcur
    rw [if_pos hcur, if_pos ⟨hne, by rw [hcur]; exact decide_eq_true rfl⟩, lookup_erase]
  · rw [if_neg hcur]
    split
    · next hc =>
      have hss : s ≠ c.sessionID := by
        rintro rfl
        cases hl : m.bySession.lookup c.sessionID with
        | none =>
          rw [hl] at hc
          cases hc.2
        | some cur =>
          rw [hl] at hc
          have hid : cur.id = c.id := of_decide_eq_true hc.2
          obtain ⟨hcur', -⟩ := hs.session _ _ hl
          rw [hid, h] at hcur'
          cases hcur'
          exact hcur hl
      rw [lookup_erase_ne hss]
    · rfl

/-- **so does the removal of a registered object**, when it is the last of its session or not the newest -/
theorem sound_remove (hs : Sound m) (hreg : m.byConn.lookup c.id = some c)
    (hlast : m.bySession.lookup c.sessionID = some c →
      ∀ e ∈ m.byConn.entries, e.2.sessionID = c.sessionID → e.2 = c) : Sound (m.unregister c) := by
  refine ⟨?_, ?_, fun id d h => ?_, fun u id d => ?_, ?_, fun s d h => ?_, ?_, fun id d h hne => ?_⟩
  · rw [unregister_eq hreg]
    show m.active - 1 = ((m.byConn.erase c.id).keys.length : Int)
    have hmem : c.id ∈ m.byConn.keys := mem_keys.mp (lookup_isSome.mp (by rw [hreg]; rfl))
    have hpos : 0 < m.byConn.keys.length := List.length_pos_of_mem hmem
    rw [keys_erase, List.length_erase_of_mem hmem, hs.active]
    omega
  · rw [unregister_eq hreg]
    have hlimit := hs.limit
    show m.active - 1 ≤ max m.maxConn 0
    omega
  · rw [lookup_unregister hreg] at h
    split at h
    · cases h
    · exact hs.id id d h
  · rw [lookup_unregister hreg, unregister_eq hreg]
    show (m.byUser.remove c.userID c.id).find u id = some d ↔ _
    rw [Index.find_remove]
    by_cases hid : id = c.id
    · subst hid
      rw [if_pos rfl]
      refine ⟨fun h => ?_, fun h => (by cases h.1)⟩
      split at h
      · cases h
      next hu =>
      obtain ⟨hd, hdu⟩ := (hs.user u c.id d).mp h
      cases hreg.symm.trans hd
      exact absurd ⟨hdu.symm, rfl⟩ hu
    · rw [if_neg fun h => hid h.2, if_neg hid]
      exact hs.user u id d
  · rw [unregister_eq hreg]
    exact Index.full_remove hs.full _ _
  · rw [session_unregister hs hreg] at h
    split at h
    · cases h
    next hcur =>
    obtain ⟨hd, hsid⟩ := hs.session s d h
    refine ⟨?_, hsid⟩
    have hid : d.id ≠ c.id := by
      intro heq
      rw [heq, hreg] at hd
      cases hd
      exact hcur h
    rw [lookup_unregister hreg, if_neg hid]
    exact hd
  · rw [session_unregister hs hreg, hs.named]
    exact if_neg fun h => by cases h
  rw [lookup_unregister hreg] at h
  split at h
  · cases h
  next hid =>
  have hserved := hs.served id d h hne
  rw [session_unregister hs hreg]
  split
  · next hcur =>
    -- the newest connection of a session goes last
    obtain ⟨-, hsid⟩ := hs.session _ _ hcur
    have hd : d = c := hlast (hsid ▸ hcur) ⟨id, d⟩ (mem_lookup_iff.mp h) hsid.symm
    exact absurd ((hs.id id d h).symm.trans (by rw [hd])) hid
  · exact hserved

theorem unregister_absent (h : m.byConn.lookup c.id = none) : m.unregister c = m := by
  unfold Manager.unregister
  rw [h]

theorem unregister_foreign (hown : Own m (.unregister c)) (h : m.byConn.lookup c.id ≠ some c) : m.unregister c = m := by
  cases hl : m.byConn.lookup c.id with
  | none => exact unregister_absent hl
  | some d =>
    cases hown.1 d hl
    exact absurd hl h

theorem sound_unregister (hs : Sound m) (hown : Own m (.unregister c)) : Sound (m.unregister c) := by
  by_cases h : m.byConn.lookup c.id = some c
  · exact sound_remove hs h hown.2
  · rw [unregister_foreign hown h]
    exact hs

end

theorem maxConn_step {m m' : Manager} {l : Call} (h : step m l = some m') : m'.maxConn = m.maxConn := by
  cases l with
  | register c =>
    cases h
    unfold Manager.register
    split
    · rfl
    · split <;> rfl
  | unregister c =>
    cases h
    unfold Manager.unregister
    split <;> rfl

theorem sound_step (l : Call) (m' : Manager) (hs : Sound m) (hown : Own m l) (h : step m l = some m') :
    Sound m' := by
  cases l with
  | register c =>
    cases h
    cases hr : m.register c with
    | error e => exact hs
    | ok m' => exact sound_register hs hr
  | unregister c =>
    cases h
    exact sound_unregister hs hown

/-- **The registry of connections** after calls that unregister only registered objects, the newest of a
session last. -/
theorem registry_invariant (maxConn : Int) {calls : List Call} {m : Manager}
    (hrun : run step { maxConn := maxConn } calls = some m)
    (hown : Along step Own { maxConn := maxConn } calls) :
    m.active = m.byConn.keys.length ∧ m.active ≤ max maxConn 0 ∧
    (∀ u id c, m.byUser.find u id = some c ↔ m.byConn.lookup id = some c ∧ c.userID = u) ∧ m.byUser.Full ∧
    (∀ c, Own m (.unregister c) → m.byConn.lookup c.id ≠ some c → m.unregister c = m) ∧
    ∀ id c, m.byConn.lookup id = some c → c.sessionID ≠ "" →
      ∃ d, m.getBySession c.sessionID = some d ∧ m.byConn.lookup d.id = some d ∧ d.sessionID = c.sessionID := by
  have hs : Sound m := run_inv sound_step (sound_new maxConn) hown hrun
  have hmax : m.maxConn = maxConn :=
    run_inv_all (I := fun m => m.maxConn = maxConn) (fun _ _ _ hi h => (maxConn_step h).trans hi) rfl hrun
  refine ⟨hs.active, hmax ▸ hs.limit, hs.user, hs.full, fun c hown h => unregister_foreign hown h,
    fun id c hc hne => ?_⟩
  obtain ⟨d, hd⟩ := Option.isSome_iff_exists.mp (hs.served id c hc hne)
  exact ⟨d, hd, hs.session _ _ hd⟩

def handOver : List Call :=
  [.register ⟨0, "c1", "u1", "s"⟩, .register ⟨1, "c2", "u1", "s"⟩, .unregister ⟨0, "c1", "u1", "s"⟩,
   .unregister ⟨0, "c1", "u1", "s"⟩, .register ⟨2, "c3", "u2", ""⟩]

theorem registry_invariant_handOver :
    ∃ m, run step { maxConn := 2 } handOver = some m ∧ m.active = 2 ∧ m.active = m.byConn.keys.length ∧
      m.active ≤ max 2 0 := by
  have hrun : ∃ m ∈ run step { maxConn := 2 } handOver, m.active = 2 := by decide +kernel
  obtain ⟨m, hrun, hact⟩ := hrun
  have hinv := registry_invariant 2 hrun (by decide +kernel)
  exact ⟨m, hrun, hact, hinv.1, hinv.2.1⟩

/-- a refused object takes the admitted one with it; the newest connection of a session takes the session along -/
theorem indexes_disagree :
    (∃ m ∈ run step { maxConn := 5 } [.register ⟨0, "c1", "u1", ""⟩, .register ⟨1, "c1", "u2", ""⟩],
      m.byConn.lookup "c1" = some ⟨0, "c1", "u1", ""⟩ ∧
        (m.register ⟨1, "c1", "u2", ""⟩ matches .error .duplicate) = true ∧
      (m.unregister ⟨1, "c1", "u2", ""⟩).byConn.lookup "c1" = none ∧
      (m.unregister ⟨1, "c1", "u2", ""⟩).byUser.find "u1" "c1" = some ⟨0, "c1", "u1", ""⟩) ∧
    ∃ m ∈ run step { maxConn := 5 } [.register ⟨0, "c1", "u1", "s"⟩, .register ⟨1, "c2", "u1", "s"⟩,
        .unregister ⟨1, "c2", "u1", "s"⟩],
      m.byConn.lookup "c1" = some ⟨0, "c1", "u1", "s"⟩ ∧ m.getBySession "s" = none := by
  decide +kernel

end Connection
