import Cpip.Awareness.Manager
import Cpip.Lib.Run

/-!
# Awareness: the views converge

What a client shows of its room is rebuilt from the frames it was sent.

* `Synced`  **a connection that is sent to agrees with its room on everything that is not dirty**;
* `synced_step`, `awareness_converges`  **one call**, and the state after a flush.

Three kinds of call change what a room shows and mark nothing, see `stale_views`.
-/

namespace Awareness

open Function List Option Registry Presence Lts

structure Shown where
  state : State
  cursor : Cursor
  selection : Selection
  isTyping : Bool
deriving DecidableEq

def Presence.shown (p : Presence) : Shown := ⟨p.state, p.cursor, p.selection, p.isTyping⟩

/-- what a frame tells of a presence; offline means removed -/
def Presence.told (p : Presence) : Option Shown := if p.state = .offline then none else some p.shown

def Frame.read (f : Frame) : Feed.Frame String Shown where
  full := f.type = .full
  items := f.presences.map fun p => (p.connID, p.told)

/-- what a connection rebuilds from its last full frame and the later incremental ones -/
def Manager.view (m : Manager) (connID : String) : String → Option Shown :=
  Feed.view (m.sent.map fun s => (s.1, s.2.read)) connID

def Registry.content (reg : Registry) (roomID connID : String) : Option Shown :=
  ((reg.listByRoom roomID).find? fun p => p.connID = connID).map shown

def Registry.home (reg : Registry) (connID : String) : Option String :=
  (reg.get connID).bind fun p => if p.state.active then some p.roomID else none

def Manager.isDirty (m : Manager) (roomID connID : String) : Bool := (m.dirty.find roomID connID).isSome

def Manager.feed (m : Manager) : Feed String String String Shown where
  content := m.reg.content
  dirty roomID connID := m.isDirty roomID connID
  home := m.reg.home
  seen := m.view

/-! ## reading the registry -/

variable {reg reg' : Registry} {m m' : Manager} {cfg : Config}

def Presence.within (p : Presence) (roomID : String) : Option Shown :=
  if roomID ≠ "" ∧ p.roomID = roomID then some p.shown else none

theorem content_eq (h : reg.Sound) (roomID connID : String) :
    reg.content roomID connID = (reg.get connID).bind fun p => p.within roomID := by
  unfold content
  cases hfind : (reg.listByRoom roomID).find? fun p => p.connID = connID with
  | none =>
    rw [map_none]
    cases hp : reg.get connID with
    | none => rfl
    | some p =>
      rw [bind_some, within, if_neg]
      rintro ⟨hne, hroom⟩
      have hconn := h.keyed connID p hp
      refine find?_eq_none.mp hfind p ((mem_listByRoom h).mpr ⟨hne, hroom, ?_⟩) (decide_eq_true hconn)
      rw [hconn]
      exact hp
  | some p =>
    obtain ⟨hne, hroom, hp⟩ := (mem_listByRoom h).mp (mem_of_find?_eq_some hfind)
    have hfound := find?_some hfind
    have hconn : p.connID = connID := of_decide_eq_true hfound
    rw [hconn] at hp
    rw [hp, map_some, bind_some, within, if_pos ⟨hne, hroom⟩]

theorem home_eq_some {connID roomID : String} :
    reg.home connID = some roomID ↔ ∃ p, reg.get connID = some p ∧ p.state.active = true ∧ p.roomID = roomID := by
  unfold home
  rw [bind_eq_some_iff]
  refine exists_congr fun p => and_congr_right fun _ => ?_
  split
  · next ha => exact ⟨fun h => ⟨ha, some_inj.mp h⟩, fun h => congrArg some h.2⟩
  · next ha => exact ⟨fun h => (by cases h), fun h => absurd h.1 ha⟩

variable {p : Presence}

theorem told_of_ne (h : p.state ≠ .offline) : p.told = some p.shown := if_neg h

/-! ## the invariant -/

/-- a presence the manager holds can be named, encoded and shown -/
structure Presence.Plain (p : Presence) : Prop where
  conn : p.connID ≠ ""
  encodable : p.encodable = true
  state : p.state ≠ .offline

structure Synced (m : Manager) : Prop where
  sound : m.reg.Sound
  plain : ∀ c p, m.reg.get c = some p → p.Plain
  /-- a dirty connection that is registered is in that room -/
  marked : ∀ r c, m.isDirty r c = true → r ≠ "" ∧ ∀ p, m.reg.get c = some p → p.roomID = r
  tracks : m.feed.Tracks

theorem synced_empty : Synced {} where
  sound := sound_empty
  plain c p h := by cases h
  marked r c h := by
    unfold Manager.isDirty at h
    cases h
  tracks c r h := by cases h

variable {c : String}

/-- **One presence changes.**  `D` are the rooms in which its connection is newly marked. -/
theorem synced_change (h : Synced m) {x : Option Presence} {D : String → Prop}
    (hsound : m'.reg.Sound) (hget : m'.reg.get = update m.reg.get c x) (hplain : ∀ p, x = some p → p.Plain)
    (hdirty : ∀ r k, m'.isDirty r k = true ↔ m.isDirty r k = true ∨ D r ∧ k = c)
    (hD : ∀ r, D r → r ≠ "") (hmarked : ∀ r p, x = some p → m.isDirty r c = true ∨ D r → p.roomID = r)
    (hcontent : ∀ r, ¬ D r → m.isDirty r c ≠ true →
      (x.bind fun p => p.within r) = (m.reg.get c).bind fun p => p.within r)
    (hother : ∀ d, d ≠ c → m'.view d = m.view d) (hown : ∀ r, m'.reg.home c = some r →
      (∀ k, m'.view c k = m'.reg.content r k) ∨ m.reg.home c = some r ∧ m'.view c = m.view c) : Synced m' := by
  have hget_ne : ∀ d, d ≠ c → m'.reg.get d = m.reg.get d := fun d hd => by rw [hget, update_of_ne hd]
  have hget_c : m'.reg.get c = x := by rw [hget, update_self]
  refine ⟨hsound, fun d p hd => ?_, fun r d hd => ⟨?_, fun p hp => ?_⟩,
    Feed.tracks_step h.tracks (fun d r hd => ?_) fun r k hk => ?_⟩
  · by_cases hdc : d = c
    · subst hdc
      exact hplain p (hget_c.symm.trans hd)
    · exact h.plain d p (hget_ne d hdc ▸ hd)
  · exact ((hdirty r d).mp hd).elim (fun hold => (h.marked r d hold).1) fun hnew => hD r hnew.1
  · by_cases hdc : d = c
    · subst hdc
      exact hmarked r p (hget_c.symm.trans hp) (((hdirty r d).mp hd).imp_right And.left)
    · have hold := ((hdirty r d).mp hd).resolve_right fun hnew => hdc hnew.2
      exact (h.marked r d hold).2 p (hget_ne d hdc ▸ hp)
  · by_cases hdc : d = c
    · subst hdc
      exact hown r hd
    refine .inr ⟨?_, hother d hdc⟩
    show m.reg.home d = some r
    rw [home, ← hget_ne d hdc]
    exact hd
  · have hk' : ¬ m'.isDirty r k = true := hk
    rw [hdirty, not_or, not_and_or] at hk'
    refine ⟨hk'.1, ?_⟩
    show m'.reg.content r k = m.reg.content r k
    rw [content_eq hsound, content_eq h.sound]
    by_cases hkc : k = c
    · subst hkc
      rw [hget_c]
      exact hcontent r (hk'.2.resolve_right (not_not_intro rfl)) hk'.1
    · rw [hget_ne k hkc]

theorem isDirty_markDirty {roomID connID : String} (r k : String) : (m.markDirty roomID connID).isDirty r k = true ↔
      m.isDirty r k = true ∨ (roomID ≠ "" ∧ connID ≠ "" ∧ r = roomID) ∧ k = connID := by
  unfold Manager.markDirty
  split
  · next he => exact ⟨.inl, fun h => h.resolve_right fun ⟨⟨h1, h2, _⟩, _⟩ => he.elim h1 h2⟩
  next he =>
  rw [not_or] at he
  show ((m.dirty.add roomID connID ()).find r k).isSome = true ↔ _
  rw [Index.find_add]
  split
  · next hrk => exact ⟨fun _ => .inr ⟨⟨he.1, he.2, hrk.1⟩, hrk.2⟩, fun _ => rfl⟩
  · next hrk => exact ⟨.inl, fun h => h.resolve_right fun ⟨⟨_, _, h1⟩, h2⟩ => hrk ⟨h1, h2⟩⟩

@[simp] theorem reg_markDirty (roomID connID : String) : (m.markDirty roomID connID).reg = m.reg := by
  unfold Manager.markDirty
  split <;> rfl

@[simp] theorem sent_markDirty (roomID connID : String) : (m.markDirty roomID connID).sent = m.sent := by
  unfold Manager.markDirty
  split <;> rfl

theorem view_of_sent (h : m'.sent = m.sent) : m'.view = m.view := by
  funext c
  unfold Manager.view
  rw [h]

/-! ## a presence is altered, removed or admitted -/

section
variable {c : String} {p q : Presence} {D : String → Prop}

theorem synced_alter (h : Synced m) (hp : m.reg.get c = some p) (ha : p.Alters q) (hsound : m'.reg.Sound)
    (hget : m'.reg.get = update m.reg.get c (some q)) (hsent : m'.sent = m.sent)
    (hdirty : ∀ r k, m'.isDirty r k = true ↔ m.isDirty r k = true ∨ D r ∧ k = c)
    (hD : ∀ r, D r → r ≠ "" ∧ r = p.roomID)
    (hshown : q.shown ≠ p.shown → p.roomID = "" ∨ m.isDirty p.roomID c = true ∨ D p.roomID) : Synced m' := by
  have hview := view_of_sent hsent
  have hplain := h.plain c p hp
  refine synced_change h hsound hget (fun q' hq => ?_) hdirty (fun r hr => (hD r hr).1) (fun r q' hq hr => ?_)
    (fun r hr hnot => ?_) (fun d _ => congrFun hview d) fun r hr => .inr ⟨?_, congrFun hview c⟩
  · cases hq
    refine ⟨ha.keys.conn ▸ hplain.conn, ?_, ha.state hplain.state⟩
    unfold Presence.encodable
    rw [ha.metadata]
    exact hplain.encodable
  · cases hq
    rw [ha.keys.room]
    exact hr.elim (fun hold => (h.marked r c hold).2 p hp) fun hnew => (hD r hnew).2.symm
  · rw [hp]
    show q.within r = p.within r
    unfold within
    rw [ha.keys.room]
    split
    · next hroom =>
      obtain ⟨hne, rfl⟩ := hroom
      by_contra hne'
      obtain he | hd | hd := hshown fun he => hne' (congrArg some he)
      · exact hne he
      · exact hnot hd
      · exact hr hd
    · rfl
  · obtain ⟨q', hq', hact, hroom⟩ := home_eq_some.mp hr
    rw [hget, update_self] at hq'
    cases hq'
    exact home_eq_some.mpr ⟨p, hp, ha.active hact, ha.keys.room.symm.trans hroom⟩

theorem synced_remove (h : Synced m) (hsound : m'.reg.Sound) (hget : m'.reg.get = update m.reg.get c none)
    (hsent : m'.sent = m.sent) (hdirty : ∀ r k, m'.isDirty r k = true ↔ m.isDirty r k = true ∨ D r ∧ k = c)
    (hD : ∀ r, D r → r ≠ "")
    (hgone : ∀ p, m.reg.get c = some p → p.roomID = "" ∨ m.isDirty p.roomID c = true ∨ D p.roomID) : Synced m' := by
  have hview := view_of_sent hsent
  refine synced_change h hsound hget (fun q' hq => by cases hq) hdirty hD (fun r q' hq => by cases hq)
    (fun r hr hnot => ?_) (fun d _ => congrFun hview d) fun r hr => ?_
  · cases hp : m.reg.get c with
    | none => rfl
    | some p =>
      symm
      show p.within r = none
      refine if_neg ?_
      rintro ⟨hne, rfl⟩
      obtain he | hd | hd := hgone p hp
      · exact hne he
      · exact hnot hd
      · exact hr hd
  · obtain ⟨q', hq', _⟩ := home_eq_some.mp hr
    rw [hget, update_self] at hq'
    cases hq'

theorem synced_alter_mark (h : Synced m) (hp : m.reg.get c = some p) (ha : p.Alters q) (hsound : reg'.Sound)
    (hget : reg'.get = update m.reg.get c (some q)) : Synced ({ m with reg := reg' }.markDirty p.roomID c) := by
  have hc : c ≠ "" := h.sound.keyed c p hp ▸ (h.plain c p hp).conn
  refine synced_alter (D := fun r => p.roomID ≠ "" ∧ c ≠ "" ∧ r = p.roomID) h hp ha ?_ ?_ (sent_markDirty ..)
    (fun r k => isDirty_markDirty r k) (fun r hr => ⟨hr.2.2 ▸ hr.1, hr.2.2⟩) fun _ => ?_
  · rw [reg_markDirty]
    exact hsound
  · rw [reg_markDirty]
    exact hget
  by_cases he : p.roomID = ""
  · exact .inl he
  · exact .inr (.inr ⟨he, hc, rfl⟩)

theorem synced_alter_quiet (h : Synced m) (hp : m.reg.get c = some p) (ha : p.Alters q) (hsound : reg'.Sound)
    (hget : reg'.get = update m.reg.get c (some q))
    (hquiet : q.shown ≠ p.shown → p.roomID = "" ∨ m.isDirty p.roomID c = true) : Synced { m with reg := reg' } :=
  synced_alter (D := fun _ => False) h hp ha hsound hget rfl
    (fun _ _ => ⟨.inl, fun hd => hd.resolve_right fun hF => hF.1⟩) (fun _ hF => hF.elim)
    fun hne => (hquiet hne).imp_right .inl

theorem synced_remove_mark (h : Synced m) (hc : c ≠ "") {roomID : String}
    (hroom : ∀ p, m.reg.get c = some p → p.roomID = roomID) :
    Synced ({ m with reg := m.reg.deregister c }.markDirty roomID c) := by
  refine synced_remove (D := fun r => roomID ≠ "" ∧ c ≠ "" ∧ r = roomID) h ?_ ?_ (sent_markDirty ..)
    (fun r k => isDirty_markDirty r k) (fun r hr => hr.2.2 ▸ hr.1) fun p hp => ?_
  · rw [reg_markDirty]
    exact sound_deregister h.sound c
  · rw [reg_markDirty]
    exact get_deregister c
  by_cases he : roomID = ""
  · exact .inl ((hroom p hp).trans he)
  · exact .inr (.inr ⟨he, hc, hroom p hp⟩)

def Manager.admitted (m : Manager) (reg' : Registry) (q : Presence) : Manager :=
  ({ m with reg := reg' }.sendFullSync q.connID q.roomID).markDirty q.roomID q.connID

theorem synced_admit (h : Synced m) (hsound : reg'.Sound)
    (hget : reg'.get = update m.reg.get q.connID (some q)) (hq : q.Plain)
    (hold : ∀ p, m.reg.get q.connID = some p → p.roomID = q.roomID ∨ p.roomID = "")
    (hclean : ∀ r, m.isDirty r q.connID = true → r = q.roomID) : Synced (m.admitted reg' q) := by
  have hplain : ∀ c p, reg'.get c = some p → p.Plain := by
    intro c p hp
    rw [hget, update_apply] at hp
    split at hp
    · cases hp
      exact hq
    · exact h.plain c p hp
  have henc : Frame.encodable { type := .full, roomID := q.roomID, presences := reg'.listByRoom q.roomID } = true := by
    refine all_eq_true.mpr fun p hp => ?_
    exact (hplain _ p ((mem_listByRoom hsound).mp hp).2.2).encodable
  have hfull : { m with reg := reg' }.sendFullSync q.connID q.roomID =
      { m with reg := reg', sent := m.sent ++ [(q.connID, ⟨.full, q.roomID, reg'.listByRoom q.roomID⟩)] } := by
    unfold Manager.sendFullSync Manager.send
    rw [if_pos henc]
  have hsent : (m.admitted reg' q).sent = m.sent ++ [(q.connID, ⟨.full, q.roomID, reg'.listByRoom q.roomID⟩)] := by
    unfold Manager.admitted
    rw [sent_markDirty, hfull]
  have hreg : (m.admitted reg' q).reg = reg' := by
    unfold Manager.admitted
    rw [reg_markDirty, hfull]
  refine synced_change (c := q.connID) (x := some q) (D := fun r => q.roomID ≠ "" ∧ q.connID ≠ "" ∧ r = q.roomID) h
    (hreg.symm ▸ hsound) (hreg.symm ▸ hget) (fun p hp => ?_) (fun r k => ?_) (fun r hr => ?_) (fun r p hp hr => ?_)
    (fun r hr hnot => ?_) (fun d hd => ?_) fun r hr => .inl fun k => ?_
  · cases hp
    exact hq
  · unfold Manager.admitted
    rw [isDirty_markDirty, hfull]
    rfl
  · exact hr.2.2 ▸ hr.1
  · cases hp
    exact (hr.elim (fun hd => hclean r hd) fun hd => hd.2.2).symm
  · show q.within r = (m.reg.get q.connID).bind fun p => p.within r
    have hnone : q.within r = none := by
      refine if_neg ?_
      rintro ⟨hne, rfl⟩
      exact hr ⟨hne, hq.conn, rfl⟩
    rw [hnone]
    cases hp : m.reg.get q.connID with
    | none => rfl
    | some p =>
      symm
      show p.within r = none
      refine if_neg ?_
      rintro ⟨hne, rfl⟩
      obtain he | he := hold p hp
      · exact hr ⟨he ▸ hne, hq.conn, he⟩
      · exact hne he
  · unfold Manager.view
    rw [hsent, map_append, map_singleton, Feed.view_snoc, if_neg (Ne.symm hd)]
  rw [hreg] at hr ⊢
  obtain ⟨q', hq', _, hroom⟩ := home_eq_some.mp hr
  rw [hget, update_self] at hq'
  cases hq'
  subst hroom
  unfold Manager.view
  rw [hsent, map_append, map_singleton]
  refine Feed.view_full rfl ?_ ?_
  · rintro i hi rfl
    obtain ⟨p, hp, rfl⟩ := mem_map.mp hi
    obtain ⟨hne, hroom, hp'⟩ := (mem_listByRoom hsound).mp hp
    rw [content_eq hsound, hp', bind_some, within, if_pos ⟨hne, hroom⟩]
    exact told_of_ne (hplain _ p hp').state
  · rw [or_iff_not_imp_left]
    intro hne
    obtain ⟨x, hx⟩ := ne_none_iff_exists'.mp hne
    obtain ⟨p, hp, _⟩ := map_eq_some_iff.mp hx
    have hfound := find?_some hp
    exact ⟨(p.connID, p.told), mem_map_of_mem (mem_of_find?_eq_some hp), of_decide_eq_true hfound⟩

end

/-! ## the callbacks -/

section
variable (now : Int) (p : Presence)

theorem shown_touch (h : ¬ (p.state = .idle ∨ p.state = .away)) : (p.touch now).shown = p.shown := by
  unfold touch shown
  rw [if_neg h]

theorem shown_sweepFn (h : (sweepFn cfg now p).2 = .ok false) : (sweepFn cfg now p).1.shown = p.shown := by
  have hsame : (sweepState cfg now p ≠ p.state || (p.isTyping && isExpired cfg p.lastActivity now)) = false :=
    Except.ok.inj h
  rw [Bool.or_eq_false_iff, decide_eq_false_iff_not, not_not] at hsame
  unfold sweepFn shown
  dsimp only
  rw [hsame.1, hsame.2, Bool.not_false, Bool.and_true]

end

/-! ## the calls -/

/-- an idle or away presence is already marked, so that waking it needs no mark -/
def Manager.Told (m : Manager) (connID : String) : Prop :=
  ∀ p ∈ m.reg.get connID, p.state = .idle ∨ p.state = .away → p.roomID = "" ∨ m.isDirty p.roomID connID = true

theorem synced_mutated (h : Synced m) {f : Presence → Presence × Except Err (Option String)}
    (hf : ∀ p : Presence, p.Alters (f p).1) (hroom : ∀ p r, (f p).2 = .ok (some r) → r = p.roomID)
    (hquiet : ∀ p, m.reg.get c = some p → (∀ r, (f p).2 ≠ .ok (some r)) → (f p).1.shown ≠ p.shown →
      p.roomID = "" ∨ m.isDirty p.roomID c = true) : Synced (m.mutated c f).2 := by
  have hsound : (m.reg.mutate c f).1.Sound := sound_mutate h.sound fun p => (hf p).keys
  cases hp : m.reg.get c with
  | none =>
    unfold Manager.mutated
    rw [mutate_none hp]
    exact h
  | some p =>
    have hanswer := mutate_answer (f := f) hp
    have hget := get_mutate (f := f) hp
    unfold Manager.mutated
    generalize m.reg.mutate c f = r at hsound hanswer hget
    obtain ⟨reg', a⟩ := r
    -- the ends that mark nothing differ in their answer only
    have hunmarked : (∀ r, a ≠ .ok (some r)) → Synced { m with reg := reg' } := fun hnone =>
      synced_alter_quiet h hp (hf p) hsound hget fun hne => hquiet p hp (fun r he => hnone r (hanswer.trans he)) hne
    cases a with
    | error e => exact hunmarked fun r he => by cases he
    | ok o =>
      cases o with
      | none => exact hunmarked fun r he => by cases he
      | some r =>
        rw [hroom p r hanswer.symm]
        exact synced_alter_mark h hp (hf p) hsound hget

theorem synced_heartbeat (h : Synced m) (now : Int) (c : String) : Synced (m.heartbeat now c).2 := by
  refine synced_mutated h (alters_heartbeatFn now) (fun p r hr => ?_) fun p _ hnone hne => ?_
  · unfold heartbeatFn at hr
    split at hr
    · exact (some_inj.mp (Except.ok.inj hr)).symm
    · cases Except.ok.inj hr
  · unfold heartbeatFn at hnone hne
    split at hnone
    · exact absurd rfl (hnone p.roomID)
    next hs =>
    rw [if_neg hs] at hne
    exact absurd rfl hne

theorem quiet_touch (hT : m.Told c) (hp : m.reg.get c = some p) {now : Int}
    (hne : (p.touch now).shown ≠ p.shown) : p.roomID = "" ∨ m.isDirty p.roomID c = true := by
  by_cases hs : p.state = .idle ∨ p.state = .away
  · exact hT p hp hs
  · exact absurd (shown_touch now p hs) hne

theorem synced_updateCursor (h : Synced m) (now : Int) (c : String) (line ch : Int) (color filePath : String)
    (visible : Bool) (hT : line < 0 ∨ ch < 0 → m.Told c) :
    Synced (m.updateCursor now c line ch color filePath visible).2 := by
  refine synced_mutated h (fun p => alters_cursorFn now p line ch color filePath visible) (fun p r hr => ?_)
    fun p hp hnone hne => ?_
  · unfold cursorFn at hr
    split at hr
    · cases hr
    · exact (some_inj.mp (Except.ok.inj hr)).symm
  · unfold cursorFn at hnone hne
    split at hnone
    · next e he =>
      rw [he] at hne
      refine quiet_touch (hT ?_) hp hne
      unfold Cursor.update at he
      split at he
      · next hl => exact .inl hl
      split at he
      · next hc => exact .inr hc
      · cases he
    · exact absurd rfl (hnone p.roomID)

theorem synced_updateSelection (h : Synced m) (now : Int) (c : String) (anchorLine anchorCh focusLine focusCh : Int)
    (hT : anchorLine < 0 ∨ anchorCh < 0 ∨ focusLine < 0 ∨ focusCh < 0 → m.Told c) :
    Synced (m.updateSelection now c anchorLine anchorCh focusLine focusCh).2 := by
  refine synced_mutated h (fun p => alters_selectionFn now p anchorLine anchorCh focusLine focusCh) (fun p r hr => ?_)
    fun p hp hnone hne => ?_
  · unfold selectionFn at hr
    split at hr
    · cases hr
    · exact (some_inj.mp (Except.ok.inj hr)).symm
  · unfold selectionFn at hnone hne
    split at hnone
    · next e he =>
      rw [he] at hne
      refine quiet_touch (hT ?_) hp hne
      unfold Selection.update at he
      split at he
      · next hneg => exact hneg
      · cases he
    · exact absurd rfl (hnone p.roomID)

theorem synced_updateTyping (h : Synced m) (now : Int) (c : String) (isTyping : Bool)
    (hT : (∃ p ∈ m.reg.get c, p.isTyping = isTyping) → m.Told c) : Synced (m.updateTyping now c isTyping).2 := by
  refine synced_mutated h (fun p => alters_typingFn now p isTyping) (fun p r hr => ?_) fun p hp hnone hne => ?_
  · unfold typingFn at hr
    dsimp only at hr
    split at hr
    · exact (some_inj.mp (Except.ok.inj hr)).symm
    · cases Except.ok.inj hr
  · unfold typingFn at hnone hne
    dsimp only at hnone hne
    split at hnone
    · exact absurd rfl (hnone p.roomID)
    next hsame =>
    have hlast : (p.touch now).lastActivity = now := rfl
    rw [hlast, shouldPublish_now, decide_eq_true_iff, not_not] at hsame
    subst hsame
    exact quiet_touch (hT ⟨p, hp, rfl⟩) hp hne

theorem synced_deregister (h : Synced m) (c reason : String) : Synced (m.deregister cfg c reason) := by
  unfold Manager.deregister
  split
  · exact h
  next p hp =>
  have hc : c ≠ "" := h.sound.keyed c p hp ▸ (h.plain c p hp).conn
  have hteardown : Synced ({ m with reg := m.reg.deregister c }.markDirty p.roomID c) := by
    refine synced_remove_mark h hc fun q hq => ?_
    cases hp.symm.trans hq
    rfl
  split
  · split
    · next reg hu =>
      obtain ⟨q, hq, _, rfl⟩ := updateState_ok hu
      cases hp.symm.trans hq
      exact synced_alter_mark h hp (alters_disconnected p) (sound_updateState h.sound hu) (get_stored rfl)
    · exact hteardown
  · exact hteardown

/-! ## admission -/

/-- the connection can enter the room: it is in no other room, and is to be told of in no other -/
def Manager.Admits (m : Manager) (connID roomID : String) : Prop :=
  connID ≠ "" ∧ (∀ p ∈ m.reg.get connID, p.roomID = roomID ∨ p.roomID = "") ∧
    ∀ r ∈ m.dirty.keys, m.isDirty r connID = true → r = roomID

theorem synced_register (h : Synced m) (now : Int) (connID userID roomID sessionID reconnectToken : String)
    (metadata : Option Metadata) (hC : Manager.tooLarge cfg metadata = true ∨ m.reg.conflict sessionID connID = true ∨
      (metadata.all (·.encoded.isSome)) = true ∧ m.Admits connID roomID) :
    Synced (m.register cfg now connID userID roomID sessionID reconnectToken metadata).2 := by
  unfold Manager.register
  split
  · exact h
  next hlarge =>
  split
  · exact h
  next reg hr =>
  obtain hl | hconflict | ⟨hmeta, hconn, hold, hclean⟩ := hC
  · exact absurd hl hlarge
  · unfold register at hr
    rw [if_pos hconflict] at hr
    cases hr
  · exact synced_admit h (sound_register h.sound hr) (get_register hr)
      ⟨hconn, hmeta, State.noConfusion⟩ hold fun r hd => hclean r (Index.mem_keys_of_find hd) hd

def Manager.Recovers (m : Manager) (newConnID : String) (target : Presence) : Prop :=
  target.state = .disconnected →
    (newConnID = target.connID ∨ target.roomID = "" ∨ m.isDirty target.roomID target.connID = true) ∧
      m.Admits newConnID target.roomID

theorem synced_recoverSession (h : Synced m) (now : Int) {userID token newConnID : String} {presences : List Presence}
    (hperm : presences.Perm (m.reg.listByUser userID))
    (hC : ∀ target ∈ presences.find? fun p => p.reconnectToken = token, m.Recovers newConnID target) :
    Synced (m.recoverSession cfg now presences token newConnID).2 := by
  unfold Manager.recoverSession
  split
  · exact h
  next target hfind =>
  split
  · exact h
  next hvalid =>
  have hstate : target.state = .disconnected := by
    unfold validateRecovery at hvalid
    split at hvalid
    · cases hvalid
    split at hvalid
    · cases hvalid
    · next hs => exact not_not.mp hs
  obtain ⟨hmark, hconn, hold, hclean⟩ := hC target hfind hstate
  obtain ⟨c, hc⟩ := get_of_mem_listByUser (hperm.mem_iff.mp (mem_of_find?_eq_some hfind))
  have hkey := h.sound.keyed c target hc
  subst hkey
  dsimp only
  split
  · next e hr =>
    -- the session that was just given up is free
    unfold register at hr
    rw [if_neg (not_conflict_deregister h.sound hc newConnID)] at hr
    split at hr <;> cases hr
  · next reg hr =>
    have hsound := sound_register (sound_deregister h.sound _) hr
    have hget := get_register hr
    have hplain : Presence.Plain { target with connID := newConnID, state := .online, lastHeartbeat := now
                                               lastActivity := now } :=
      ⟨hconn, (h.plain _ target hc).encodable, State.noConfusion⟩
    rw [get_deregister] at hget
    by_cases hsame : newConnID = target.connID
    · subst hsame
      rw [update_idem] at hget
      have hadmit := synced_admit h hsound hget hplain hold fun r hd => hclean r (Index.mem_keys_of_find hd) hd
      exact hadmit
    · -- the old connection goes first; that it is dirty already tells the room
      have hevicted : Synced { m with reg := m.reg.deregister target.connID } := by
        refine synced_remove (D := fun _ => False) h (sound_deregister h.sound _) (get_deregister _)
          rfl (fun r k => ⟨.inl, fun hd => hd.resolve_right fun hF => hF.1⟩) (fun r hF => hF.elim) fun p hp => ?_
        cases hc.symm.trans hp
        exact (hmark.resolve_left hsame).imp_right .inl
      refine synced_admit hevicted hsound ?_ hplain (fun p hp => hold p ?_)
        fun r hd => hclean r (Index.mem_keys_of_find hd) hd
      · show reg.get = update (m.reg.deregister target.connID).get _ _
        rw [get_deregister]
        exact hget
      · change (m.reg.deregister target.connID).get newConnID = some p at hp
        rwa [get_deregister, update_of_ne hsame] at hp

/-! ## the sweep -/

def Stays (m m' : Manager) : Prop := ∀ c q, m'.reg.get c = some q → ∃ p, m.reg.get c = some p ∧ q.roomID = p.roomID

theorem stays_refl (m : Manager) : Stays m m := fun _ q hq => ⟨q, hq, rfl⟩

theorem stays_alter {p q : Presence} (hp : m.reg.get c = some p) (ha : p.Alters q)
    (hget : m'.reg.get = update m.reg.get c (some q)) : Stays m m' := by
  intro d q' hq'
  rw [hget, update_apply] at hq'
  split at hq'
  · next hd =>
    cases hq'
    exact ⟨p, hd ▸ hp, ha.keys.room⟩
  · exact ⟨q', hq', rfl⟩

/-- a copy `p` whose connection is still in the same room -/
def Copy (m : Manager) (p : Presence) : Prop := p.connID ≠ "" ∧ ∀ q, m.reg.get p.connID = some q → q.roomID = p.roomID

theorem copy_stays (h : Copy m p) (hs : Stays m m') : Copy m' p := by
  refine ⟨h.1, fun q hq => ?_⟩
  obtain ⟨q', hq', hroom⟩ := hs p.connID q hq
  exact hroom.trans (h.2 q' hq')

theorem copy_of_mem (h : Synced m) {s : State} (hp : p ∈ m.reg.listByState s) : Copy m p := by
  obtain ⟨_, c, hc⟩ := mem_listByState.mp hp
  have hkey := h.sound.keyed c p hc
  subst hkey
  refine ⟨(h.plain _ p hc).conn, fun q hq => ?_⟩
  cases hc.symm.trans hq
  rfl

theorem synced_foldl {one : Manager → Presence → Manager}
    (hone : ∀ m p, Synced m → Copy m p → Synced (one m p) ∧ Stays m (one m p)) (l : List Presence) (h : Synced m)
    (hl : ∀ p ∈ l, Copy m p) : Synced (l.foldl one m) := by
  induction l generalizing m with
  | nil => exact h
  | cons p l ih =>
    obtain ⟨hS, hR⟩ := hone m p h (hl p mem_cons_self)
    exact ih hS fun q hq => copy_stays (hl q (mem_cons_of_mem _ hq)) hR

theorem synced_sweepOne (h : Synced m) (hp : Copy m p) (now : Int) :
    Synced (m.sweepOne cfg now p) ∧ Stays m (m.sweepOne cfg now p) := by
  unfold Manager.sweepOne
  split
  · split
    · next reg hu =>
      have hsound := sound_updateState h.sound hu
      obtain ⟨q, hq, _, rfl⟩ := updateState_ok hu
      rw [← hp.2 q hq]
      refine ⟨synced_alter_mark h hq (alters_disconnected q) hsound (get_stored rfl),
        stays_alter hq (alters_disconnected q) ?_⟩
      rw [reg_markDirty]
      exact get_stored rfl
    · exact ⟨h, stays_refl m⟩
  · cases hq : m.reg.get p.connID with
    | none =>
      rw [mutate_none hq]
      exact ⟨h, stays_refl m⟩
    | some q =>
      have hsound : (m.reg.mutate p.connID (sweepFn cfg now)).1.Sound :=
        sound_mutate h.sound fun p => (alters_sweepFn now p cfg).keys
      have hanswer := mutate_answer (f := sweepFn cfg now) hq
      have hget := get_mutate (f := sweepFn cfg now) hq
      generalize m.reg.mutate p.connID (sweepFn cfg now) = r at hsound hanswer hget
      obtain ⟨reg', a⟩ := r
      obtain ⟨changed, hchanged⟩ : ∃ b, (sweepFn cfg now q).2 = .ok b := ⟨_, rfl⟩
      rw [hchanged] at hanswer
      subst hanswer
      cases changed with
      | true =>
        rw [← hp.2 q hq]
        refine ⟨synced_alter_mark h hq (alters_sweepFn now q cfg) hsound hget,
          stays_alter hq (alters_sweepFn now q cfg) ?_⟩
        rw [reg_markDirty]
        exact hget
      | false =>
        exact ⟨synced_alter_quiet h hq (alters_sweepFn now q cfg) hsound hget fun hne =>
          absurd (shown_sweepFn now q hchanged) hne, stays_alter hq (alters_sweepFn now q cfg) hget⟩

theorem synced_evictOne (h : Synced m) (hp : Copy m p) (now : Int) :
    Synced (m.evictOne cfg now p) ∧ Stays m (m.evictOne cfg now p) := by
  unfold Manager.evictOne
  split
  · refine ⟨synced_remove_mark h hp.1 hp.2, fun d q hq => ?_⟩
    rw [reg_markDirty] at hq
    rw [get_deregister, update_apply] at hq
    split at hq
    · cases hq
    · exact ⟨q, hq, rfl⟩
  · exact ⟨h, stays_refl m⟩

theorem synced_runSweep (h : Synced m) (now : Int) : Synced (m.runSweep cfg now) := by
  have hswept : Synced ((Manager.sweepList m.reg).foldl (fun m p => m.sweepOne cfg now p) m) := by
    refine synced_foldl (fun m p hm hp => synced_sweepOne hm hp now) _ h fun p hp => ?_
    unfold Manager.sweepList at hp
    rw [mem_append, mem_append] at hp
    obtain (hp | hp) | hp := hp
    · exact copy_of_mem h hp
    · exact copy_of_mem h hp
    · exact copy_of_mem h hp
  exact synced_foldl (fun m p hm hp => synced_evictOne hm hp now) _ hswept fun p hp => copy_of_mem hswept hp

/-! ## the flush -/

theorem mem_roomFrames {roomID c : String} {conns : List String} {f : Frame} (h : (c, f) ∈ m.roomFrames roomID conns) :
    (∃ rc ∈ m.reg.listByRoom roomID, rc.connID = c) ∧
      f = { type := .incremental, roomID, presences := conns.map (m.update roomID) } := by
  unfold Manager.roomFrames at h
  dsimp only at h
  split at h
  · cases h
  obtain ⟨rc, hrc, heq⟩ := mem_map.mp h
  cases heq
  exact ⟨⟨rc, (mem_filter.mp hrc).1, rfl⟩, rfl⟩

theorem told_update (h : Synced m) {r k : String} (hd : m.isDirty r k = true) :
    (m.update r k).connID = k ∧ (m.update r k).told = m.reg.content r k ∧ (m.update r k).encodable = true := by
  obtain ⟨hne, hroom⟩ := h.marked r k hd
  rw [content_eq h.sound]
  unfold Manager.update
  cases hp : m.reg.get k with
  | none => exact ⟨rfl, rfl, rfl⟩
  | some p =>
    have hplain := h.plain k p hp
    refine ⟨h.sound.keyed k p hp, ?_, hplain.encodable⟩
    rw [bind_some, within, if_pos ⟨hne, hroom p hp⟩]
    exact told_of_ne hplain.state

/-- **after a flush every connection that is sent to shows its room** -/
theorem view_flush (h : Synced m) {c r : String} (hc : m.reg.home c = some r) (k : String) :
    m.flushDirtyBroadcasts.view c k = m.reg.content r k := by
  obtain ⟨p, hp, hact, hroom⟩ := home_eq_some.mp hc
  have hkey := h.sound.keyed c p hp
  unfold Manager.view Manager.flushDirtyBroadcasts
  rw [map_append]
  refine Feed.view_round (fun f hf => ?_) ?_
  · obtain ⟨⟨d, g⟩, hg, heq⟩ := mem_map.mp hf
    cases heq
    obtain ⟨⟨r', s⟩, hs, hmem⟩ := mem_flatMap.mp hg
    obtain ⟨⟨rc, hrc, rfl⟩, rfl⟩ := mem_roomFrames hmem
    -- the receiver is the connection, so the room is its room
    obtain ⟨_, hroom', hget⟩ := (mem_listByRoom h.sound).mp hrc
    cases hp.symm.trans hget
    have hr' : r' = r := hroom'.symm.trans hroom
    subst hr'
    refine ⟨rfl, fun i hi hik => ?_⟩
    obtain ⟨q, hq, rfl⟩ := mem_map.mp hi
    obtain ⟨k', hk', rfl⟩ := mem_map.mp hq
    obtain ⟨hconn, htold, _⟩ := told_update h (Index.find_isSome_iff.mpr ⟨s, hs, hk'⟩ : m.isDirty r' k' = true)
    rw [← hik]
    show (m.update r' k').told = m.reg.content r' (m.update r' k').connID
    rw [htold, hconn]
  · by_cases hd : m.isDirty r k = true
    · right
      obtain ⟨s, hs, hk⟩ := Index.find_isSome_iff.mp hd
      let frame : Frame := { type := .incremental, roomID := r, presences := s.keys.map (m.update r) }
      have henc : frame.encodable = true := by
        refine all_eq_true.mpr fun q hq => ?_
        obtain ⟨k', hk', rfl⟩ := mem_map.mp hq
        exact (told_update h (Index.find_isSome_iff.mpr ⟨s, hs, hk'⟩ : m.isDirty r k' = true)).2.2
      have hnamed : m.update r k ∈ frame.presences := mem_map.mpr ⟨k, hk, rfl⟩
      refine ⟨frame.read, mem_map.mpr ⟨(c, frame), mem_flatMap.mpr ⟨⟨r, s⟩, hs, ?_⟩, rfl⟩,
        ((m.update r k).connID, _), mem_map.mpr ⟨_, hnamed, rfl⟩, (told_update h hd).1⟩
      unfold Manager.roomFrames
      rw [if_neg]
      · refine mem_map.mpr ⟨p, mem_filter.mpr ⟨?_, hact⟩, by rw [hkey]⟩
        refine (mem_listByRoom h.sound).mpr ⟨(h.marked r k hd).1, hroom, ?_⟩
        rw [hkey]
        exact hp
      · rintro (he | he)
        · rw [he] at hk
          cases hk
        · exact he henc
    · exact .inl (h.tracks c r hc k hd)

theorem synced_flush (h : Synced m) : Synced m.flushDirtyBroadcasts := by
  have hclean : ∀ r k, m.flushDirtyBroadcasts.isDirty r k ≠ true := by
    intro r k hd
    unfold Manager.isDirty Manager.flushDirtyBroadcasts at hd
    cases hd
  exact ⟨h.sound, h.plain, fun r c hd => absurd hd (hclean r c), fun c r hc k _ => view_flush h hc k⟩

/-! ## runs -/

/-- the calls that leave no change of what is shown unmarked -/
def Marked (cfg : Config) (m : Manager) : Int × Call → Prop
  | (_, .register connID _ roomID sessionID _ metadata) =>
    Manager.tooLarge cfg metadata = true ∨ m.reg.conflict sessionID connID = true ∨
      (metadata.all (·.encoded.isSome)) = true ∧ m.Admits connID roomID
  | (_, .updateCursor connID line ch _ _ _) => line < 0 ∨ ch < 0 → m.Told connID
  | (_, .updateSelection connID anchorLine anchorCh focusLine focusCh) =>
    anchorLine < 0 ∨ anchorCh < 0 ∨ focusLine < 0 ∨ focusCh < 0 → m.Told connID
  | (_, .updateTyping connID isTyping) => (∃ p ∈ m.reg.get connID, p.isTyping = isTyping) → m.Told connID
  | (_, .recoverSession _ token newConnID presences) =>
    ∀ target ∈ presences.find? fun p => p.reconnectToken = token, m.Recovers newConnID target
  | (_, .deregister _ _) | (_, .heartbeat _) | (_, .runSweep) | (_, .flushDirtyBroadcasts) => True

instance (m : Manager) (connID : String) : Decidable (m.Told connID) := by
  unfold Manager.Told
  infer_instance

instance (m : Manager) (connID roomID : String) : Decidable (m.Admits connID roomID) := by
  unfold Manager.Admits
  infer_instance

instance (m : Manager) (newConnID : String) (target : Presence) : Decidable (m.Recovers newConnID target) :=
  inferInstanceAs (Decidable (_ → _ ∧ _))

instance decidableMarked (cfg : Config) (m : Manager) : ∀ l, Decidable (Marked cfg m l) := by
  intro l
  unfold Marked
  split <;> infer_instance

/-- **one call** -/
theorem synced_step (h : Synced m) {l : Int × Call} (hC : Marked cfg m l) (hs : step cfg m l = some m') :
    Synced m' := by
  obtain ⟨now, call⟩ := l
  cases call with
  | register connID userID roomID sessionID reconnectToken metadata =>
    cases hs
    exact synced_register h now connID userID roomID sessionID reconnectToken metadata hC
  | deregister connID reason =>
    cases hs
    exact synced_deregister h connID reason
  | heartbeat connID =>
    cases hs
    exact synced_heartbeat h now connID
  | updateCursor connID line ch color filePath visible =>
    cases hs
    exact synced_updateCursor h now connID line ch color filePath visible hC
  | updateSelection connID anchorLine anchorCh focusLine focusCh =>
    cases hs
    exact synced_updateSelection h now connID anchorLine anchorCh focusLine focusCh hC
  | updateTyping connID isTyping =>
    cases hs
    exact synced_updateTyping h now connID isTyping hC
  | recoverSession userID token newConnID presences =>
    unfold step at hs
    dsimp only at hs
    split at hs
    · next hperm =>
      cases hs
      exact synced_recoverSession h now hperm hC
    · cases hs
  | runSweep =>
    cases hs
    exact synced_runSweep h now
  | flushDirtyBroadcasts =>
    cases hs
    exact synced_flush h

/-- **Right after a flush, each connection that is online, idle or away shows its room**, if all calls are `Marked`. -/
theorem awareness_converges {calls : List (Int × Call)} (hr : run (step cfg) {} calls = some m)
    (hC : Along (step cfg) (Marked cfg) {} calls) {c : String} {p : Presence}
    (hp : m.flushDirtyBroadcasts.reg.get c = some p) (ha : p.state.active = true) (k : String) :
    m.flushDirtyBroadcasts.view c k = m.flushDirtyBroadcasts.reg.content p.roomID k := by
  have hsynced : Synced m := run_inv (fun m l m' h hl hs => synced_step h hl hs) synced_empty hC hr
  exact view_flush hsynced (home_eq_some.mpr ⟨p, hp, ha, rfl⟩) k

def joinRun : List (Int × Call) :=
  [(1, .register "c1" "u1" "A" "" "t1" none), (1, .register "c2" "u2" "A" "" "t2" none), (1, .flushDirtyBroadcasts)]

def talkRun : List (Int × Call) :=
  joinRun ++
    [(2, .updateCursor "c2" 3 4 "red" "main.go" true), (3, .updateTyping "c2" true), (4, .flushDirtyBroadcasts),
     (5, .deregister "c2" "lost"), (6, .register "c2" "u2" "A" "" "t2" none), (7, .heartbeat "c1"), (8, .runSweep)]

theorem awareness_converges_talkRun : ∃ m p, run (step Config.default) {} talkRun = some m ∧
    m.flushDirtyBroadcasts.reg.get "c1" = some p ∧ p.roomID = "A" ∧
      ∀ k, m.flushDirtyBroadcasts.view "c1" k = m.flushDirtyBroadcasts.reg.content p.roomID k := by
  have hrun : ∃ m ∈ run (step Config.default) {} talkRun, ∃ p ∈ m.flushDirtyBroadcasts.reg.get "c1",
      p.roomID = "A" ∧ p.state.active = true := by decide +kernel
  obtain ⟨m, hm, p, hp, hroom, ha⟩ := hrun
  have hC : Along (step Config.default) (Marked Config.default) {} talkRun := by decide +kernel
  exact ⟨m, p, hm, hp, hroom, fun k => awareness_converges hm hC hp ha k⟩

/-- after the calls and a flush, `c` is sent to and does not show its room's `k` -/
def Stale (calls : List (Int × Call)) (c k : String) : Prop :=
  ∃ m ∈ run (step Config.default) {} calls, ∃ p ∈ m.flushDirtyBroadcasts.reg.get c,
    p.state.active = true ∧ m.flushDirtyBroadcasts.view c k ≠ m.flushDirtyBroadcasts.reg.content p.roomID k

def movedRun : List (Int × Call) := joinRun ++ [(2, .register "c2" "u2" "B" "" "t2" none)]

/-- a user is lost, and recovers under another connection -/
def recoveredRun : List (Int × Call) :=
  joinRun ++ [(2, .deregister "c2" "lost"), (3, .flushDirtyBroadcasts), (4, .recoverSession "u2" "t2" "c3"
       [{ userID := "u2", connID := "c2", roomID := "A", state := .disconnected, lastHeartbeat := 1, lastActivity := 1
          reconnectToken := "t2" }])]

/-- two users fall idle, and one of them sends a cursor that is refused -/
def wokenRun : List (Int × Call) :=
  joinRun ++ [(301000000000, .heartbeat "c1"), (301000000000, .heartbeat "c2"), (301000000001, .runSweep),
     (301000000002, .flushDirtyBroadcasts), (301000000003, .updateCursor "c2" (-1) 0 "" "" true)]

/-- the room keeps a ghost, keeps the lost connection, and shows an online user as idle -/
theorem stale_views : Stale movedRun "c1" "c2" ∧ Stale recoveredRun "c1" "c2" ∧ Stale wokenRun "c1" "c2" := by
  refine ⟨?_, ?_, ?_⟩
  · unfold Stale
    decide +kernel
  · unfold Stale
    decide +kernel
  · unfold Stale
    decide +kernel

end Awareness
