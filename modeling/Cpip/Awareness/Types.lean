import Mathlib.Tactic.Common

/-!
# Awareness: presences

The leaf types of `presence`, and the components the manager asks: `cursor`, `selection`, `typing` and `heartbeat`.

A time is a number of nanoseconds, and the zero time is `0`.
-/

namespace Awareness

inductive State where
  | connecting
  | online
  | idle
  | away
  | disconnected
  | recovered
  | offline
deriving DecidableEq

def canTransition : State → State → Bool
  | .connecting, target => target = .online ∨ target = .disconnected ∨ target = .offline
  | .online, target => target = .idle ∨ target = .away ∨ target = .disconnected ∨ target = .offline
  | .idle, target => target = .online ∨ target = .away ∨ target = .disconnected ∨ target = .offline
  | .away, target => target = .online ∨ target = .disconnected ∨ target = .offline
  | .disconnected, target => target = .recovered ∨ target = .offline
  | .recovered, target => target = .online ∨ target = .offline
  | .offline, _ => false

def State.active (s : State) : Bool := s = .online ∨ s = .idle ∨ s = .away

inductive Err where
  | metadataTooLarge
  | sessionConflict
  | presenceNotFound
  | invalidStateTransition
  | invalidLine
  | invalidChar
  | invalidSelectionCoordinate
  | tokenMismatch
  | notDisconnected
  | sessionExpired

structure Cursor where
  line : Int := 0
  ch : Int := 0
  color : String := ""
  visible : Bool := false
  filePath : String := ""
deriving DecidableEq

structure Selection where
  anchorLine : Int := 0
  anchorCh : Int := 0
  focusLine : Int := 0
  focusCh : Int := 0
  direction : Int := 0
deriving DecidableEq

/-- metadata, by the length of its JSON text; a value that has none cannot be encoded -/
structure Metadata where
  encoded : Option Nat
deriving DecidableEq

structure Presence where
  userID : String := ""
  connID : String
  sessionID : String := ""
  roomID : String
  state : State
  cursor : Cursor := {}
  selection : Selection := {}
  isTyping : Bool := false
  lastHeartbeat : Int := 0
  lastActivity : Int := 0
  reconnectToken : String := ""
  metadata : Option Metadata := none
deriving DecidableEq

def Presence.encodable (p : Presence) : Bool := p.metadata.all (·.encoded.isSome)

structure Config where
  heartbeatInterval : Int
  idleTimeout : Int
  awayTimeout : Int
  typingTimeout : Int
  recoveryTimeout : Int
  maxMetadataSize : Nat

def Config.default : Config where
  heartbeatInterval := 10 * 1000000000
  idleTimeout := 5 * 60 * 1000000000
  awayTimeout := 15 * 60 * 1000000000
  typingTimeout := 5 * 1000000000
  recoveryTimeout := 60 * 1000000000
  maxMetadataSize := 1024

/-! ## cursors and selections -/

def Cursor.update (c : Cursor) (line ch : Int) (color filePath : String) (visible : Bool) : Except Err Cursor :=
  if line < 0 then .error .invalidLine
  else if ch < 0 then .error .invalidChar
  else .ok { line, ch, visible, color := if color ≠ "" then color else c.color, filePath }

def Selection.update (anchorLine anchorCh focusLine focusCh : Int) : Except Err Selection :=
  if anchorLine < 0 ∨ anchorCh < 0 ∨ focusLine < 0 ∨ focusCh < 0 then .error .invalidSelectionCoordinate
  else .ok { anchorLine, anchorCh, focusLine, focusCh
             direction :=
               if focusLine > anchorLine then 1
               else if focusLine < anchorLine then -1
               else if focusCh > anchorCh then 1
               else if focusCh < anchorCh then -1
               else 0 }

/-! ## typing -/

def typingHeartbeat : Int := 2 * 1000000000

def shouldPublish (currentlyTyping previouslyTyping : Bool) (lastTypingUpdate now : Int) : Bool :=
  if currentlyTyping ≠ previouslyTyping then true
  else currentlyTyping ∧ typingHeartbeat ≤ now - lastTypingUpdate

theorem shouldPublish_now (currentlyTyping previouslyTyping : Bool) (now : Int) :
    shouldPublish currentlyTyping previouslyTyping now now = decide (currentlyTyping ≠ previouslyTyping) := by
  have hwait : ¬ typingHeartbeat ≤ now - now := by
    unfold typingHeartbeat
    omega
  unfold shouldPublish
  split
  · next h => exact (decide_eq_true h).symm
  · next h => rw [decide_eq_false h, decide_eq_false fun h' => hwait h'.2]

variable (cfg : Config)

def isExpired (lastTypingUpdate now : Int) : Bool :=
  lastTypingUpdate ≠ 0 ∧ cfg.typingTimeout ≤ now - lastTypingUpdate

/-! ## heartbeats -/

def Config.heartbeatTimeout : Int := cfg.heartbeatInterval * 2

def isDead (lastHb now : Int) : Bool := lastHb ≠ 0 ∧ cfg.heartbeatTimeout < now - lastHb

def Presence.lastSeen (p : Presence) : Int :=
  if p.lastHeartbeat > p.lastActivity then p.lastHeartbeat else p.lastActivity

def validateRecovery (p : Presence) (token : String) (now : Int) : Except Err Unit :=
  if p.reconnectToken = "" ∨ p.reconnectToken ≠ token then .error .tokenMismatch
  else if p.state ≠ .disconnected then .error .notDisconnected
  else if p.lastSeen ≠ 0 ∧ cfg.recoveryTimeout < now - p.lastSeen then .error .sessionExpired
  else .ok ()

end Awareness
