import Cpip.Awareness.Registry
import Cpip.Lib.Feed

/-!
# Awareness: the manager

`presence.Manager`: the calls that change presences, the dirty set they leave, and the rounds that broadcast it.

A map is walked in any order.  Only `RecoverSession` can tell, so its order is part of the call.  Trackers,
events and metrics are left out.
-/

namespace Awareness

inductive SyncType where
  | full
  | incremental
deriving DecidableEq

structure Frame where
  type : SyncType
  roomID : String
  presences : List Presence

def Frame.encodable (f : Frame) : Bool := f.presences.all Presence.encodable

/-- `presence.Manager`, with the frames its transport has delivered, oldest first -/
structure Manager where
  reg : Registry := {}
  dirty : Index String String Unit := ∅
  sent : List (String × Frame) := []

/-! ## the callbacks of `Mutate`

Each gives what it leaves in the presence, and its answer: the room in which the connection is to be marked, if any.
-/

/-- a call of the user: the presence is active now, and online if it was idle or away -/
def Presence.touch (p : Presence) (now : Int) : Presence :=
  { p with lastActivity := now, state := if p.state = .idle ∨ p.state = .away then .online else p.state }

def heartbeatFn (now : Int) (p : Presence) : Presence × Except Err (Option String) :=
  if p.state = .idle ∨ p.state = .away then
    ({ p with lastHeartbeat := now, state := .online, lastActivity := now }, .ok (some p.roomID))
  else ({ p with lastHeartbeat := now }, .ok none)

def cursorFn (now : Int) (line ch : Int) (color filePath : String) (visible : Bool) (p : Presence) :
    Presence × Except Err (Option String) :=
  match p.cursor.update line ch color filePath visible with
  | .error e => (p.touch now, .error e)
  | .ok cursor => ({ p.touch now with cursor }, .ok (some p.roomID))

def selectionFn (now : Int) (anchorLine anchorCh focusLine focusCh : Int) (p : Presence) :
    Presence × Except Err (Option String) :=
  match Selection.update anchorLine anchorCh focusLine focusCh with
  | .error e => (p.touch now, .error e)
  | .ok selection => ({ p.touch now with selection }, .ok (some p.roomID))

def typingFn (now : Int) (isTyping : Bool) (p : Presence) : Presence × Except Err (Option String) :=
  -- the last activity asked here is the one just written
  let changed := shouldPublish isTyping p.isTyping (p.touch now).lastActivity now
  ({ p.touch now with isTyping }, .ok (if changed then some p.roomID else none))

variable (cfg : Config)

def sweepState (now : Int) (p : Presence) : State :=
  match p.state with
  | .online =>
    if cfg.awayTimeout ≤ now - p.lastActivity then .away
    else if cfg.idleTimeout ≤ now - p.lastActivity then .idle
    else .online
  | .idle => if cfg.awayTimeout ≤ now - p.lastActivity then .away else .idle
  | s => s

/-- in `runSweep`; the answer says whether anything changed -/
def sweepFn (now : Int) (p : Presence) : Presence × Except Err Bool :=
  let expired := p.isTyping && isExpired cfg p.lastActivity now
  ({ p with state := sweepState cfg now p, isTyping := p.isTyping && !expired },
    .ok (sweepState cfg now p ≠ p.state || expired))

/-! ### what they leave alone -/

/-- the presence stays under its keys, can still be encoded, and does not come back from being disconnected -/
structure Presence.Alters (p q : Presence) : Prop where
  keys : Registry.SameKeys p q
  metadata : q.metadata = p.metadata
  state : p.state ≠ .offline → q.state ≠ .offline
  active : q.state.active = true → p.state.active = true

section
variable (now : Int) (p : Presence)

theorem alters_touch : p.Alters (p.touch now) := by
  refine ⟨⟨rfl, rfl, rfl, rfl⟩, rfl, fun h => ?_, fun h => ?_⟩
  · unfold Presence.touch
    split
    · exact State.noConfusion
    · exact h
  · unfold Presence.touch at h
    split at h
    · next hs => exact decide_eq_true (.inr hs)
    · exact h

theorem alters_shown {q : Presence} (h : p.Alters q) (cursor : Cursor) (selection : Selection) (isTyping : Bool) :
    p.Alters { q with cursor, selection, isTyping } :=
  ⟨⟨h.keys.conn, h.keys.user, h.keys.room, h.keys.session⟩, h.metadata, h.state, h.active⟩

theorem alters_heartbeatFn : p.Alters (heartbeatFn now p).1 := by
  unfold heartbeatFn
  split
  · next hs => exact ⟨⟨rfl, rfl, rfl, rfl⟩, rfl, fun _ => State.noConfusion, fun _ => decide_eq_true (.inr hs)⟩
  · exact ⟨⟨rfl, rfl, rfl, rfl⟩, rfl, id, id⟩

theorem alters_cursorFn (line ch : Int) (color filePath : String) (visible : Bool) :
    p.Alters (cursorFn now line ch color filePath visible p).1 := by
  unfold cursorFn
  split
  · exact alters_touch now p
  · exact alters_shown p (alters_touch now p) _ _ _

theorem alters_selectionFn (anchorLine anchorCh focusLine focusCh : Int) :
    p.Alters (selectionFn now anchorLine anchorCh focusLine focusCh p).1 := by
  unfold selectionFn
  split
  · exact alters_touch now p
  · exact alters_shown p (alters_touch now p) _ _ _

theorem alters_typingFn (isTyping : Bool) : p.Alters (typingFn now isTyping p).1 :=
  alters_shown p (alters_touch now p) _ _ _

theorem sweepState_cases (cfg : Config) : sweepState cfg now p = p.state ∨
    (p.state = .online ∨ p.state = .idle) ∧ (sweepState cfg now p = .idle ∨ sweepState cfg now p = .away) := by
  unfold sweepState
  cases p.state with
  | online =>
    dsimp only
    split
    · exact .inr ⟨.inl rfl, .inr rfl⟩
    split
    · exact .inr ⟨.inl rfl, .inl rfl⟩
    · exact .inl rfl
  | idle =>
    dsimp only
    split
    · exact .inr ⟨.inr rfl, .inr rfl⟩
    · exact .inl rfl
  | _ => exact .inl rfl

theorem alters_sweepFn (cfg : Config) : p.Alters (sweepFn cfg now p).1 := by
  refine ⟨⟨rfl, rfl, rfl, rfl⟩, rfl, fun h => ?_, fun h => ?_⟩
  · show sweepState cfg now p ≠ .offline
    obtain hsame | ⟨_, hs | hs⟩ := sweepState_cases now p cfg
    · exact hsame ▸ h
    · rw [hs]
      exact State.noConfusion
    · rw [hs]
      exact State.noConfusion
  · change (sweepState cfg now p).active = true at h
    obtain hsame | ⟨hs, _⟩ := sweepState_cases now p cfg
    · exact hsame ▸ h
    · exact decide_eq_true (hs.imp_right .inl)

theorem alters_disconnected : p.Alters { p with state := .disconnected } :=
  ⟨⟨rfl, rfl, rfl, rfl⟩, rfl, fun _ => State.noConfusion, nofun⟩

end

namespace Manager

variable (m : Manager)

def markDirty (roomID connID : String) : Manager :=
  if roomID = "" ∨ connID = "" then m else { m with dirty := m.dirty.add roomID connID () }

/-- `json.Marshal` and `SendText`; a frame that cannot be encoded is dropped -/
def send (connID : String) (frame : Frame) : Manager :=
  if frame.encodable then { m with sent := m.sent ++ [(connID, frame)] } else m

def sendFullSync (connID roomID : String) : Manager :=
  m.send connID { type := .full, roomID, presences := m.reg.listByRoom roomID }

/-! ## the calls -/

def tooLarge (metadata : Option Metadata) : Bool :=
  metadata.any fun x => x.encoded.any (cfg.maxMetadataSize < ·)

def register (cfg : Config) (now : Int) (connID userID roomID sessionID reconnectToken : String)
    (metadata : Option Metadata) : Except Err Unit × Manager :=
  if tooLarge cfg metadata then (.error .metadataTooLarge, m)
  else
    match m.reg.register { userID, connID, sessionID, roomID, state := .online, lastHeartbeat := now,
                           lastActivity := now, reconnectToken, metadata } with
    | .error e => (.error e, m)
    | .ok reg => (.ok (), ({ m with reg }.sendFullSync connID roomID).markDirty roomID connID)

def deregister (cfg : Config) (connID reason : String) : Manager :=
  match m.reg.get connID with
  | none => m
  | some p =>
    let teardown := { m with reg := m.reg.deregister connID }.markDirty p.roomID connID
    if p.reconnectToken ≠ "" ∧ 0 < cfg.recoveryTimeout ∧ reason ≠ "explicit_leave" then
      match m.reg.updateState connID .disconnected with
      | .ok reg => { m with reg }.markDirty p.roomID connID
      | .error _ => teardown
    else teardown

/-- a call that is one `Mutate`, and marks the connection in the room the callback names -/
def mutated (connID : String) (f : Presence → Presence × Except Err (Option String)) : Except Err Unit × Manager :=
  match m.reg.mutate connID f with
  | (reg, .error e) => (.error e, { m with reg })
  | (reg, .ok none) => (.ok (), { m with reg })
  | (reg, .ok (some roomID)) => (.ok (), { m with reg }.markDirty roomID connID)

def heartbeat (now : Int) (connID : String) : Except Err Unit × Manager :=
  m.mutated connID (heartbeatFn now)

def updateCursor (now : Int) (connID : String) (line ch : Int) (color filePath : String) (visible : Bool) :
    Except Err Unit × Manager :=
  m.mutated connID (cursorFn now line ch color filePath visible)

def updateSelection (now : Int) (connID : String) (anchorLine anchorCh focusLine focusCh : Int) :
    Except Err Unit × Manager :=
  m.mutated connID (selectionFn now anchorLine anchorCh focusLine focusCh)

def updateTyping (now : Int) (connID : String) (isTyping : Bool) : Except Err Unit × Manager :=
  m.mutated connID (typingFn now isTyping)

/-- `RecoverSession`; `presences` is the list of the user's presences, in the order the map gives it -/
def recoverSession (cfg : Config) (now : Int) (presences : List Presence) (token newConnID : String) :
    Except Err Presence × Manager :=
  match presences.find? fun p => p.reconnectToken = token with
  | none => (.error .tokenMismatch, m)
  | some target =>
    match validateRecovery cfg target token now with
    | .error e => (.error e, m)
    | .ok () =>
      let evicted := m.reg.deregister target.connID
      let recovered := { target with connID := newConnID, state := .online, lastHeartbeat := now, lastActivity := now }
      match evicted.register recovered with
      | .error e => (.error e, { m with reg := evicted })
      | .ok reg =>
        (.ok recovered, ({ m with reg }.sendFullSync newConnID recovered.roomID).markDirty recovered.roomID newConnID)

def sweepOne (cfg : Config) (now : Int) (p : Presence) : Manager :=
  if isDead cfg p.lastHeartbeat now then
    match m.reg.updateState p.connID .disconnected with
    | .ok reg => { m with reg }.markDirty p.roomID p.connID
    | .error _ => m
  else
    match m.reg.mutate p.connID (sweepFn cfg now) with
    | (reg, .ok true) => { m with reg }.markDirty p.roomID p.connID
    | (reg, _) => { m with reg }

def evictOne (cfg : Config) (now : Int) (p : Presence) : Manager :=
  if cfg.recoveryTimeout ≤ now - p.lastSeen then
    { m with reg := m.reg.deregister p.connID }.markDirty p.roomID p.connID
  else m

def sweepList (reg : Registry) : List Presence :=
  reg.listByState .online ++ reg.listByState .idle ++ reg.listByState .away

def runSweep (cfg : Config) (now : Int) : Manager :=
  let swept := (sweepList m.reg).foldl (fun m p => m.sweepOne cfg now p) m
  (swept.reg.listByState .disconnected).foldl (fun m p => m.evictOne cfg now p) swept

def update (roomID connID : String) : Presence :=
  match m.reg.get connID with
  | some p => p
  | none => { connID, roomID, state := .offline }

def roomFrames (roomID : String) (conns : List String) : List (String × Frame) :=
  let frame : Frame := { type := .incremental, roomID, presences := conns.map (m.update roomID) }
  if conns = [] ∨ ¬ frame.encodable then []
  else ((m.reg.listByRoom roomID).filter fun rc => rc.state.active).map fun rc => (rc.connID, frame)

def flushDirtyBroadcasts : Manager :=
  { m with
    dirty := ∅
    sent := m.sent ++ m.dirty.entries.flatMap fun room => m.roomFrames room.1 room.2.keys }

end Manager

/-! ## runs -/

inductive Call where
  | register (connID userID roomID sessionID reconnectToken : String) (metadata : Option Metadata)
  | deregister (connID reason : String)
  | heartbeat (connID : String)
  | updateCursor (connID : String) (line ch : Int) (color filePath : String) (visible : Bool)
  | updateSelection (connID : String) (anchorLine anchorCh focusLine focusCh : Int)
  | updateTyping (connID : String) (isTyping : Bool)
  | recoverSession (userID token newConnID : String) (presences : List Presence)
  | runSweep
  | flushDirtyBroadcasts

def step (m : Manager) : Int × Call → Option Manager
  | (now, .register connID userID roomID sessionID reconnectToken metadata) =>
    some (m.register cfg now connID userID roomID sessionID reconnectToken metadata).2
  | (_, .deregister connID reason) => some (m.deregister cfg connID reason)
  | (now, .heartbeat connID) => some (m.heartbeat now connID).2
  | (now, .updateCursor connID line ch color filePath visible) =>
    some (m.updateCursor now connID line ch color filePath visible).2
  | (now, .updateSelection connID anchorLine anchorCh focusLine focusCh) =>
    some (m.updateSelection now connID anchorLine anchorCh focusLine focusCh).2
  | (now, .updateTyping connID isTyping) => some (m.updateTyping now connID isTyping).2
  | (now, .recoverSession userID token newConnID presences) =>
    -- the order in which the map is walked
    if presences.Perm (m.reg.listByUser userID) then some (m.recoverSession cfg now presences token newConnID).2
      else none
  | (now, .runSweep) => some (m.runSweep cfg now)
  | (_, .flushDirtyBroadcasts) => some m.flushDirtyBroadcasts

end Awareness
