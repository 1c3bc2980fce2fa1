import Cpip.Awareness.Types
import Cpip.Lib.Index

/-!
# Awareness: the registry of presences

`presence/registry`: the presences under their connections, with an index by user, by room and by session.

* `Sound`  **the indexes hold exactly what is registered**, kept by every write;
* `mem_listByRoom`, `mem_listByState`  what the lists hold;
* `represents`  the registry after any sequence of writes.

`mutate` keeps what its callback wrote also when the callback fails.
-/

namespace Awareness

open Function (update update_apply update_eq_self update_idem update_of_ne update_self)

structure Registry where
  presences : AList fun _ : String => Presence := ∅
  byUser : Index String String Unit := ∅
  byRoom : Index String String Unit := ∅
  bySession : AList fun _ : String => String := ∅

variable (t : Index String String Unit)

def enter (key connID : String) : Index String String Unit :=
  if key ≠ "" then t.add key connID () else t

def leave (key connID : String) : Index String String Unit :=
  if key ≠ "" then t.remove key connID else t

/-- what `Mutate` does to an index: a set that becomes empty stays -/
def reindex (old new connID : String) : Index String String Unit :=
  if new = old then t
  else enter (if old ≠ "" ∧ old ∈ t then t.insert old ((t.under old).erase connID) else t) new connID

namespace Registry

variable (reg : Registry) (connID : String)

def get : Option Presence := reg.presences.lookup connID

def removeIndices (p : Presence) : Registry :=
  { reg with
    byUser := leave reg.byUser p.userID p.connID
    byRoom := leave reg.byRoom p.roomID p.connID
    bySession := if p.sessionID ≠ "" then reg.bySession.erase p.sessionID else reg.bySession }

def index (p : Presence) : Registry where
  presences := reg.presences.insert p.connID p
  byUser := enter reg.byUser p.userID p.connID
  byRoom := enter reg.byRoom p.roomID p.connID
  bySession := if p.sessionID ≠ "" then reg.bySession.insert p.sessionID p.connID else reg.bySession

def conflict (sessionID connID : String) : Bool :=
  sessionID ≠ "" ∧ (reg.bySession.lookup sessionID).any (· ≠ connID)

def register (p : Presence) : Except Err Registry :=
  if reg.conflict p.sessionID p.connID then .error .sessionConflict
  else
    match reg.get p.connID with
    | some old => .ok ((reg.removeIndices old).index p)
    | none => .ok (reg.index p)

/-- `Deregister`; what it returns is not used -/
def deregister : Registry :=
  match reg.get connID with
  | none => reg
  | some p => { reg.removeIndices p with presences := reg.presences.erase connID }

def collect (connIDs : List String) : List Presence := connIDs.filterMap reg.get

def listByRoom (roomID : String) : List Presence := reg.collect (reg.byRoom.under roomID).keys

def listByUser (userID : String) : List Presence := reg.collect (reg.byUser.under userID).keys

def listByState (state : State) : List Presence :=
  (reg.presences.entries.map fun e => e.2).filter fun p => p.state = state

/-- `UpdateState`; the presence it returns is not used -/
def updateState (newState : State) : Except Err Registry :=
  match reg.get connID with
  | none => .error .presenceNotFound
  | some p =>
    if canTransition p.state newState then
      .ok { reg with presences := reg.presences.insert connID { p with state := newState } }
    else .error .invalidStateTransition

/-- `Mutate`; `f` gives what the callback leaves in the stored presence, and its answer -/
def mutate {α : Type} (f : Presence → Presence × Except Err α) : Registry × Except Err α :=
  match reg.get connID with
  | none => (reg, .error .presenceNotFound)
  | some p =>
    let stored := { reg with presences := reg.presences.insert connID (f p).1 }
    match (f p).2 with
    | .error e => (stored, .error e)
    | .ok a =>
      let q := (f p).1
      ({ stored with
          byUser := reindex reg.byUser p.userID q.userID connID
          byRoom := reindex reg.byRoom p.roomID q.roomID connID
          bySession :=
            if q.sessionID ≠ p.sessionID then
              let dropped := if p.sessionID ≠ "" then reg.bySession.erase p.sessionID else reg.bySession
              if q.sessionID ≠ "" then dropped.insert q.sessionID connID else dropped
            else reg.bySession }, .ok a)

/-! ## what a write does to the presences -/

variable {reg} {reg' : Registry} {p : Presence}

theorem get_stored {reg₀ : Registry} {connID : String} {q : Presence}
    (h : reg₀.presences = reg.presences.insert connID q) : reg₀.get = update reg.get connID (some q) := by
  show reg₀.presences.lookup = _
  rw [h]
  exact Index.lookup_insert_update _ _ _

theorem get_register (h : reg.register p = .ok reg') : reg'.get = update reg.get p.connID (some p) := by
  unfold register at h
  split at h
  · cases h
  split at h
  · cases h
    exact get_stored rfl
  · cases h
    exact get_stored rfl

theorem get_deregister : (reg.deregister connID).get = update reg.get connID none := by
  unfold deregister
  split
  · next h => rw [← h, update_eq_self]
  · exact Index.lookup_erase_update _ _

theorem updateState_ok {connID : String} {newState : State} (h : reg.updateState connID newState = .ok reg') :
    ∃ p, reg.get connID = some p ∧ canTransition p.state newState = true ∧
      reg' = { reg with presences := reg.presences.insert connID { p with state := newState } } := by
  unfold updateState at h
  split at h
  · cases h
  next p hp =>
  split at h
  · next ht =>
    cases h
    exact ⟨p, hp, ht, rfl⟩
  · cases h

variable {α : Type} {connID : String} {f : Presence → Presence × Except Err α}

theorem mutate_none (h : reg.get connID = none) : reg.mutate connID f = (reg, .error .presenceNotFound) := by
  unfold mutate
  rw [h]

theorem mutate_answer (h : reg.get connID = some p) : (reg.mutate connID f).2 = (f p).2 := by
  unfold mutate
  rw [h]
  dsimp only
  split
  · next e he => exact he.symm
  · next a ha => exact ha.symm

theorem get_mutate (h : reg.get connID = some p) :
    (reg.mutate connID f).1.get = update reg.get connID (some (f p).1) := by
  unfold mutate
  rw [h]
  dsimp only
  split
  · exact get_stored rfl
  · exact get_stored rfl

/-! ## the indexes -/

/-- the two presences are entered under the same keys -/
structure SameKeys (p q : Presence) : Prop where
  conn : q.connID = p.connID
  user : q.userID = p.userID
  room : q.roomID = p.roomID
  session : q.sessionID = p.sessionID

/-- the index holds each presence under the key `field` gives, unless that is empty -/
def Indexes (g : String → Option Presence) (field : Presence → String) : Prop :=
  ∀ key c, (t.find key c).isSome ↔ key ≠ "" ∧ ∃ p, g c = some p ∧ field p = key

/-- the session index, in the same sense -/
def Sessions (t : AList fun _ : String => String) (g : String → Option Presence) : Prop :=
  ∀ s c, t.lookup s = some c ↔ s ≠ "" ∧ ∃ p, g c = some p ∧ p.sessionID = s

section
variable {t : Index String String Unit} {g : String → Option Presence} {field : Presence → String} {k : String}

theorem indexes_iff : Indexes t g field ↔ t.Tracks g fun p => Index.named (field p) := by
  refine forall_congr' fun key => forall_congr' fun c => iff_congr Iff.rfl ?_
  simp only [Option.bind_eq_some_iff, Index.named_eq_some]
  tauto

theorem enter_eq (key : String) : enter t key k = t.enter (Index.named key) k := by
  unfold enter Index.named
  by_cases hk : key = "" <;> simp [hk, Index.enter]

theorem leave_eq (key : String) : leave t key k = t.leave (Index.named key) k := by
  unfold leave Index.named
  by_cases hk : key = "" <;> simp [hk, Index.leave]

theorem indexes_leave (h : Indexes t g field) (hp : g k = some p) :
    Indexes (leave t (field p) k) (update g k none) field := by
  have hu := (indexes_iff.mp h).update k none
  rw [hp] at hu
  rw [leave_eq]
  exact indexes_iff.mpr hu

theorem indexes_enter (h : Indexes t g field) (hk : g k = none) :
    Indexes (enter t (field p) k) (update g k (some p)) field := by
  have hu := (indexes_iff.mp h).update k (some p)
  rw [hk] at hu
  rw [enter_eq]
  exact indexes_iff.mpr hu

theorem indexes_same (h : Indexes t g field) {q : Presence} (hp : g k = some p) (hq : field q = field p) :
    Indexes t (update g k (some q)) field := by
  refine indexes_iff.mpr ((indexes_iff.mp h).update_same ?_)
  rw [hp]
  exact congrArg Index.named hq

end

section
variable {t : AList fun _ : String => String} {g : String → Option Presence} {k : String}

theorem sessions_leave (h : Sessions t g) (hp : g k = some p) :
    Sessions (if p.sessionID ≠ "" then t.erase p.sessionID else t) (update g k none) := by
  intro s c
  have hlookup : (if p.sessionID ≠ "" then t.erase p.sessionID else t).lookup s = some c ↔
      t.lookup s = some c ∧ s ≠ p.sessionID := by
    split
    · by_cases hs : s = p.sessionID
      · rw [hs, AList.lookup_erase]
        exact ⟨nofun, fun hn => absurd rfl hn.2⟩
      · rw [AList.lookup_erase_ne hs]
        exact ⟨fun hl => ⟨hl, hs⟩, fun hl => hl.1⟩
    · next he =>
      refine ⟨fun hl => ⟨hl, fun hs => ?_⟩, fun hl => hl.1⟩
      exact he (hs ▸ ((h s c).mp hl).1)
  rw [hlookup, h s c]
  by_cases hc : c = k
  · subst hc
    rw [hp, update_self]
    constructor
    · rintro ⟨⟨_, p', hp', hs⟩, hne⟩
      cases hp'
      exact absurd hs.symm hne
    · rintro ⟨_, p', hp', _⟩
      cases hp'
  · rw [update_of_ne hc]
    constructor
    · exact And.left
    rintro ⟨hs, p', hp', rfl⟩
    refine ⟨⟨hs, p', hp', rfl⟩, fun hsame => hc ?_⟩
    -- two connections of one session are one
    have h1 := (h p'.sessionID c).mpr ⟨hs, p', hp', rfl⟩
    have h2 := (h p'.sessionID k).mpr ⟨hs, p, hp, hsame.symm⟩
    exact Option.some_inj.mp (h1.symm.trans h2)

theorem sessions_enter (h : Sessions t g) (hk : g k = none) (hfree : p.sessionID ≠ "" → t.lookup p.sessionID = none) :
    Sessions (if p.sessionID ≠ "" then t.insert p.sessionID k else t) (update g k (some p)) := by
  intro s c
  have hlookup : (if p.sessionID ≠ "" then t.insert p.sessionID k else t).lookup s = some c ↔
      (s ≠ "" ∧ s = p.sessionID ∧ c = k) ∨ t.lookup s = some c := by
    split
    · next he =>
      by_cases hs : s = p.sessionID
      · rw [hs, AList.lookup_insert, hfree he]
        constructor
        · intro hc
          exact .inl ⟨he, rfl, (Option.some_inj.mp hc).symm⟩
        rintro (⟨_, _, rfl⟩ | hn)
        · rfl
        · cases hn
      · rw [AList.lookup_insert_ne hs]
        exact ⟨.inr, fun hc => hc.elim (fun hc => absurd hc.2.1 hs) id⟩
    · next he => exact ⟨.inr, fun hc => hc.elim (fun hc => absurd (hc.2.1 ▸ hc.1) he) id⟩
  rw [hlookup, h s c]
  by_cases hc : c = k
  · subst hc
    rw [hk, update_self]
    constructor
    · rintro (⟨hne, rfl, _⟩ | ⟨_, q, hq, _⟩)
      · exact ⟨hne, p, rfl, rfl⟩
      · cases hq
    · rintro ⟨hne, q, hq, hf⟩
      cases hq
      exact .inl ⟨hne, hf.symm, rfl⟩
  · rw [update_of_ne hc]
    constructor
    · rintro (⟨_, _, he⟩ | hold)
      · exact absurd he hc
      · exact hold
    · exact .inr

end

structure Indexed (reg : Registry) (g : String → Option Presence) : Prop where
  keyed : ∀ c p, g c = some p → p.connID = c
  user : Indexes reg.byUser g Presence.userID
  room : Indexes reg.byRoom g Presence.roomID
  session : Sessions reg.bySession g

/-- **the indexes hold exactly what is registered** -/
def Sound (reg : Registry) : Prop := reg.Indexed reg.get

theorem sound_empty : Sound {} where
  keyed c p h := by cases h
  user key c := ⟨fun h => (by rw [Index.find_empty] at h; cases h), fun ⟨_, _, h, _⟩ => (by cases h)⟩
  room key c := ⟨fun h => (by rw [Index.find_empty] at h; cases h), fun ⟨_, _, h, _⟩ => (by cases h)⟩
  session s c := ⟨nofun, fun ⟨_, _, h, _⟩ => (by cases h)⟩

section
variable {g : String → Option Presence} {k : String}

theorem indexed_removeIndices (h : reg.Indexed g) (hp : g k = some p) :
    (reg.removeIndices p).Indexed (update g k none) := by
  have hk : p.connID = k := h.keyed k p hp
  refine ⟨fun c q hq => ?_, ?_, ?_, sessions_leave h.session hp⟩
  · rw [update_apply] at hq
    split at hq
    · cases hq
    · exact h.keyed c q hq
  · show Indexes (leave reg.byUser p.userID p.connID) _ _
    rw [hk]
    exact indexes_leave h.user hp
  · show Indexes (leave reg.byRoom p.roomID p.connID) _ _
    rw [hk]
    exact indexes_leave h.room hp

theorem indexed_index (h : reg.Indexed g) (hk : g p.connID = none)
    (hfree : p.sessionID ≠ "" → reg.bySession.lookup p.sessionID = none) :
    (reg.index p).Indexed (update g p.connID (some p)) := by
  refine ⟨fun c q hq => ?_, indexes_enter h.user hk, indexes_enter h.room hk, sessions_enter h.session hk hfree⟩
  rw [update_apply] at hq
  split at hq
  · next hc =>
    cases hq
    exact hc.symm
  · exact h.keyed c q hq

theorem indexed_same (h : reg.Indexed g) {q : Presence} (hp : g k = some p) (hq : SameKeys p q) :
    reg.Indexed (update g k (some q)) := by
  refine ⟨fun c q' hq' => ?_, indexes_same h.user hp hq.user, indexes_same h.room hp hq.room, fun s c => ?_⟩
  · rw [update_apply] at hq'
    split at hq'
    · next hc =>
      cases hq'
      rw [hq.conn, hc]
      exact h.keyed k p hp
    · exact h.keyed c q' hq'
  · rw [h.session s c]
    by_cases hc : c = k
    · subst hc
      rw [hp, update_self]
      constructor
      · rintro ⟨hne, p', hp', hf⟩
        cases hp'
        exact ⟨hne, q, rfl, hq.session.trans hf⟩
      · rintro ⟨hne, q', hq', hf⟩
        cases hq'
        exact ⟨hne, p, rfl, hq.session.symm.trans hf⟩
    · rw [update_of_ne hc]

end

theorem own_of_not_conflict (h : reg.conflict p.sessionID p.connID ≠ true) {c : String} (hs : p.sessionID ≠ "")
    (hc : reg.bySession.lookup p.sessionID = some c) : c = p.connID := by
  by_contra hne
  refine h (decide_eq_true ⟨hs, ?_⟩)
  rw [hc]
  exact decide_eq_true hne

theorem sound_register (h : reg.Sound) (hr : reg.register p = .ok reg') : reg'.Sound := by
  have hget := get_register hr
  unfold register at hr
  split at hr
  · cases hr
  next hconflict =>
  -- what is entered was taken out before, if it was there
  have hrest : ∃ rest : Registry, rest.Indexed (update reg.get p.connID none) ∧ reg' = rest.index p := by
    split at hr
    · next old hold =>
      cases hr
      exact ⟨_, indexed_removeIndices h hold, rfl⟩
    · next hnone =>
      cases hr
      refine ⟨reg, ?_, rfl⟩
      rw [← hnone, update_eq_self]
      exact h
  obtain ⟨rest, hrest, rfl⟩ := hrest
  have hfree : p.sessionID ≠ "" → rest.bySession.lookup p.sessionID = none := by
    intro hs
    by_contra hne
    obtain ⟨c, hc⟩ := Option.ne_none_iff_exists'.mp hne
    obtain ⟨_, q, hq, hqs⟩ := (hrest.session p.sessionID c).mp hc
    rw [update_apply] at hq
    split at hq
    · cases hq
    · next hcp => exact hcp (own_of_not_conflict hconflict hs ((h.session p.sessionID c).mpr ⟨hs, q, hq, hqs⟩))
  have hnew := indexed_index hrest (update_self ..) hfree
  rw [update_idem] at hnew
  unfold Sound
  rw [hget]
  exact hnew

theorem sound_deregister (h : reg.Sound) (connID : String) : (reg.deregister connID).Sound := by
  unfold Sound
  rw [get_deregister]
  unfold deregister
  split
  · next hn =>
    have hsame : update reg.get connID none = reg.get := by
      rw [← hn, update_eq_self]
    rw [hsame]
    exact h
  · next p hp =>
    have hrest := indexed_removeIndices h hp
    exact ⟨hrest.keyed, hrest.user, hrest.room, hrest.session⟩

theorem sound_updateState (h : reg.Sound) {newState : State} (hu : reg.updateState connID newState = .ok reg') :
    reg'.Sound := by
  obtain ⟨p, hp, _, rfl⟩ := updateState_ok hu
  have hsame := indexed_same h (q := { p with state := newState }) hp ⟨rfl, rfl, rfl, rfl⟩
  have hget : Registry.get { reg with presences := reg.presences.insert connID { p with state := newState } } =
      update reg.get connID (some { p with state := newState }) := get_stored rfl
  unfold Sound
  rw [hget]
  exact ⟨hsame.keyed, hsame.user, hsame.room, hsame.session⟩

theorem sound_mutate (h : reg.Sound) (hf : ∀ p, SameKeys p (f p).1) : (reg.mutate connID f).1.Sound := by
  cases hp : reg.get connID with
  | none =>
    rw [mutate_none hp]
    exact h
  | some p =>
    have hsame := indexed_same h hp (hf p)
    unfold Sound
    rw [get_mutate hp]
    unfold mutate
    rw [hp]
    dsimp only
    split
    · exact ⟨hsame.keyed, hsame.user, hsame.room, hsame.session⟩
    · rw [reindex, if_pos (hf p).user, reindex, if_pos (hf p).room, if_neg (not_not_intro (hf p).session)]
      exact ⟨hsame.keyed, hsame.user, hsame.room, hsame.session⟩

theorem not_conflict_deregister (h : reg.Sound) (hp : reg.get connID = some p) (newConnID : String) :
    (reg.deregister connID).conflict p.sessionID newConnID ≠ true := by
  intro hconflict
  obtain ⟨hs, hany⟩ := of_decide_eq_true hconflict
  have hsome : (reg.deregister connID).bySession.lookup p.sessionID ≠ none := by
    intro hn
    rw [hn] at hany
    cases hany
  obtain ⟨c, hc⟩ := Option.ne_none_iff_exists'.mp hsome
  obtain ⟨_, q, hq, hqs⟩ := ((sound_deregister h connID).session p.sessionID c).mp hc
  rw [get_deregister, update_apply] at hq
  split at hq
  · cases hq
  next hcc =>
  have h1 := (h.session p.sessionID c).mpr ⟨hs, q, hq, hqs⟩
  have h2 := (h.session p.sessionID connID).mpr ⟨hs, p, hp, rfl⟩
  exact hcc (Option.some_inj.mp (h1.symm.trans h2))

/-! ## lists -/

theorem mem_collect {connIDs : List String} : p ∈ reg.collect connIDs ↔ ∃ c ∈ connIDs, reg.get c = some p :=
  List.mem_filterMap

theorem mem_listByRoom (h : reg.Sound) {roomID : String} :
    p ∈ reg.listByRoom roomID ↔ roomID ≠ "" ∧ p.roomID = roomID ∧ reg.get p.connID = some p := by
  unfold listByRoom
  rw [mem_collect]
  constructor
  · rintro ⟨c, hc, hp⟩
    obtain ⟨hne, p', hp', hroom⟩ := (h.room roomID c).mp (Index.mem_keys_under.mp hc)
    cases hp.symm.trans hp'
    rw [h.keyed c p hp]
    exact ⟨hne, hroom, hp⟩
  · rintro ⟨hne, hroom, hp⟩
    exact ⟨p.connID, Index.mem_keys_under.mpr ((h.room roomID p.connID).mpr ⟨hne, p, hp, hroom⟩), hp⟩

theorem get_of_mem_listByUser {userID : String} (hp : p ∈ reg.listByUser userID) : ∃ c, reg.get c = some p := by
  obtain ⟨c, _, hc⟩ := mem_collect.mp hp
  exact ⟨c, hc⟩

theorem mem_listByState {state : State} : p ∈ reg.listByState state ↔ p.state = state ∧ ∃ c, reg.get c = some p := by
  unfold listByState
  rw [List.mem_filter, List.mem_map, decide_eq_true_iff, and_comm]
  refine and_congr_right fun _ => ?_
  constructor
  · rintro ⟨⟨c, q⟩, he, rfl⟩
    exact ⟨c, AList.mem_lookup_iff.mpr he⟩
  · rintro ⟨c, hc⟩
    exact ⟨⟨c, p⟩, AList.mem_lookup_iff.mp hc, rfl⟩

/-! ## sequences of writes -/

def getBySession (reg : Registry) (sessID : String) : Option Presence := (reg.bySession.lookup sessID).bind reg.get

inductive Op where
  | register (p : Presence)
  | deregister (connID : String)
  | updateState (connID : String) (newState : State)
  | mutate (connID : String) (f : Presence → Presence × Except Err Unit)

/-- what a call leaves, and what it answers -/
def Op.run (reg : Registry) : Op → Registry × Except Err Unit
  | .register p =>
    match reg.register p with
    | .error e => (reg, .error e)
    | .ok reg' => (reg', .ok ())
  | .deregister connID => (reg.deregister connID, if (reg.get connID).isSome then .ok () else .error .presenceNotFound)
  | .updateState connID newState =>
    match reg.updateState connID newState with
    | .error e => (reg, .error e)
    | .ok reg' => (reg', .ok ())
  | .mutate connID f => reg.mutate connID f

def runs (ops : List Op) : Registry := ops.foldl (fun reg op => (op.run reg).1) {}

def Op.KeepsKeys : Op → Prop
  | .mutate _ f => ∀ p, SameKeys p (f p).1
  | _ => True

structure Filled (reg : Registry) : Prop where
  user : reg.byUser.Full
  room : reg.byRoom.Full

theorem full_entered {t : Index String String Unit} (h : t.Full) (key k : String) : (enter t key k).Full := by
  unfold enter
  split
  · exact Index.full_add h key k ()
  · exact h

theorem full_left {t : Index String String Unit} (h : t.Full) (key k : String) : (leave t key k).Full := by
  unfold leave
  split
  · exact Index.full_remove h key k
  · exact h

theorem filled_index (h : reg.Filled) (p : Presence) : (reg.index p).Filled :=
  ⟨full_entered h.user _ _, full_entered h.room _ _⟩

theorem filled_removeIndices (h : reg.Filled) (p : Presence) : (reg.removeIndices p).Filled :=
  ⟨full_left h.user _ _, full_left h.room _ _⟩

/-- **a call keeps the indexes exact and without empty sets** -/
theorem sound_op {op : Op} (hop : op.KeepsKeys) (h : reg.Sound) (hf : reg.Filled) :
    (op.run reg).1.Sound ∧ (op.run reg).1.Filled := by
  cases op with
  | register p =>
    dsimp only [Op.run]
    split
    · exact ⟨h, hf⟩
    next reg' hr =>
    refine ⟨sound_register h hr, ?_⟩
    unfold register at hr
    split at hr
    · cases hr
    split at hr
    · cases hr
      exact filled_index (filled_removeIndices hf _) p
    · cases hr
      exact filled_index hf p
  | deregister connID =>
    refine ⟨sound_deregister h connID, ?_⟩
    show (reg.deregister connID).Filled
    unfold deregister
    split
    · exact hf
    · exact ⟨(filled_removeIndices hf _).user, (filled_removeIndices hf _).room⟩
  | updateState connID newState =>
    dsimp only [Op.run]
    split
    · exact ⟨h, hf⟩
    next reg' hu =>
    refine ⟨sound_updateState h hu, ?_⟩
    obtain ⟨p, -, -, rfl⟩ := updateState_ok hu
    exact ⟨hf.user, hf.room⟩
  | mutate connID f =>
    refine ⟨sound_mutate h hop, ?_⟩
    show (reg.mutate connID f).1.Filled
    unfold mutate
    split
    · exact hf
    next p _ =>
    split
    · exact ⟨hf.user, hf.room⟩
    -- the keys are the old ones, so no index is touched
    refine ⟨?_, ?_⟩
    · simpa [reindex, (hop p).user] using hf.user
    · simpa [reindex, (hop p).room] using hf.room

theorem sound_runs {ops : List Op} (hops : ∀ op ∈ ops, op.KeepsKeys) : (runs ops).Sound ∧ (runs ops).Filled := by
  have h0 : Filled {} := ⟨Index.full_empty, Index.full_empty⟩
  exact List.foldlRecOn (motive := fun reg => Sound reg ∧ Filled reg) ops _ ⟨sound_empty, h0⟩ fun reg h op hop =>
    sound_op (hops op hop) h.1 h.2

/-- **After any calls the indexes hold exactly what is registered, with no empty set**, and a session has one
presence. -/
theorem represents (ops : List Op) (hops : ∀ op ∈ ops, op.KeepsKeys) :
    Indexes (runs ops).byUser (runs ops).get Presence.userID ∧
      Indexes (runs ops).byRoom (runs ops).get Presence.roomID ∧ (runs ops).byUser.Full ∧ (runs ops).byRoom.Full ∧
      (∀ c p, (runs ops).get c = some p → p.sessionID ≠ "" → (runs ops).getBySession p.sessionID = some p ∧
        ∀ c' p', (runs ops).get c' = some p' → p'.sessionID = p.sessionID → c' = c) ∧
      (∀ s c, (runs ops).bySession.lookup s = some c → ∃ p, (runs ops).get c = some p ∧ p.sessionID = s) ∧
      ∀ p e, ((Op.register p).run (runs ops)).2 = .error e → ((Op.register p).run (runs ops)).1 = runs ops := by
  obtain ⟨h, hf⟩ := sound_runs hops
  refine ⟨h.user, h.room, hf.user, hf.room, fun c p hp hs => ?_, fun s c hc => ((h.session s c).mp hc).2, fun p e => ?_⟩
  · have hc := (h.session p.sessionID c).mpr ⟨hs, p, hp, rfl⟩
    refine ⟨by simp [getBySession, hc, hp], fun c' p' hp' hs' => ?_⟩
    have hc' := (h.session p.sessionID c').mpr ⟨hs, p', hp', hs'⟩
    exact Option.some_inj.mp (hc'.symm.trans hc)
  · dsimp only [Op.run]
    split <;> simp

/-- a session that moves to a new room, is refused to a second connection and is left -/
def movedOps : List Op :=
  [.register ⟨"u", "c1", "s", "r1", .online, {}, {}, false, 0, 0, "", none⟩,
    .register ⟨"u", "c1", "s", "r2", .online, {}, {}, false, 0, 0, "", none⟩,
    .register ⟨"v", "c2", "s", "r2", .online, {}, {}, false, 0, 0, "", none⟩,
    .mutate "c1" fun p => ({ p with isTyping := true }, .ok ()), .updateState "c1" .away, .deregister "c1"]

theorem represents_movedOps : (runs movedOps).byRoom.Full := by
  refine (represents movedOps ?_).2.2.2.1
  simp only [movedOps, List.forall_mem_cons, Op.KeepsKeys]
  exact ⟨trivial, trivial, trivial, fun _ => ⟨rfl, rfl, rfl, rfl⟩, trivial, trivial, List.forall_mem_nil _⟩

end Registry

end Awareness
