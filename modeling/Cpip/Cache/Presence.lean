import Mathlib.Data.List.AList
import Cpip.Lib.Run

/-!
# Cache: presence and its replication

A call changes the local view and broadcasts the record, a broadcast that arrives goes through the echo check, the
version check and the view.

Redis is read only by a call whose user is not in the view; what it answers comes with the call.
-/

namespace Cache.Rooms

open Function

structure Presence where
  roomID : String
  userID : String
  state : String := ""
  cursor : String := ""
  typing : Bool := false
  heartbeatAt : Int := 0
  version : Int := 0
  nodeID : String := ""
  left : Bool := false
deriving DecidableEq

abbrev Seat := String × String

def Presence.seat (p : Presence) : Seat := (p.roomID, p.userID)

def seatID (seat : Seat) : String := seat.1 ++ "|" ++ seat.2

structure Update where
  id : String
  payload : Presence
  version : Int
  nodeID : String

/-! ## a node -/

/-- the view of a presence manager and the versions its replicator has seen; a version that was not seen
is zero -/
structure Member where
  nodeID : String
  view : Seat → Option Presence
  versions : String → Int

variable (view : Seat → Option Presence)

def updateView (p : Presence) : Seat → Option Presence :=
  match view p.seat with
  | some cur => if cur.version > p.version then view else update view p.seat (some p)
  | none => update view p.seat (some p)

def removeFromView (seat : Seat) : Seat → Option Presence :=
  update view seat none

def recordVersion (versions : String → Int) (id : String) (v : Int) : String → Int :=
  if v > versions id then update versions id v else versions

variable (m : Member)

def Member.broadcast (p : Presence) : Member × Update :=
  let nodeID := if p.nodeID = "" then m.nodeID else p.nodeID
  ({ m with versions := recordVersion m.versions (seatID p.seat) p.version }, ⟨seatID p.seat, p, p.version, nodeID⟩)

variable (now version : Int)

def Member.stamp (p : Presence) : Presence :=
  { p with
    nodeID := if p.nodeID = "" then m.nodeID else p.nodeID
    heartbeatAt := if p.heartbeatAt = 0 then now else p.heartbeatAt
    version }

def Member.announce (p : Presence) : Member × Update :=
  let p := m.stamp now version p
  { m with view := updateView m.view p }.broadcast p

def Member.current (seat : Seat) (found : Option Presence) : Presence :=
  match m.view seat with
  | some p => p
  | none =>
    match found with
    | some p => { p with roomID := seat.1, userID := seat.2, left := false }
    | none => { roomID := seat.1, userID := seat.2, state := "online" }

inductive Edit where
  | cursor (c : String)
  | typing (t : Bool)
  | state (s : String)
  | heartbeat

def Edit.apply (now : Int) (p : Presence) : Edit → Presence
  | .cursor c => { p with cursor := c }
  | .typing t => { p with typing := t }
  | .state s => { p with state := s }
  | .heartbeat => { p with heartbeatAt := now }

def Member.mutate (seat : Seat) (found : Option Presence) (e : Edit) : Member × Update :=
  m.announce now version (e.apply now { m.current seat found with heartbeatAt := now })

def Member.tombstone (version : Int) (seat : Seat) : Presence :=
  { roomID := seat.1, userID := seat.2, nodeID := m.nodeID, left := true, version }

def Member.leave (version : Int) (seat : Seat) : Member × Update :=
  { m with view := removeFromView m.view seat }.broadcast (m.tombstone version seat)

def onReplicated (p : Presence) : Seat → Option Presence :=
  if p.left then removeFromView view p.seat else updateView view p

def Member.apply (u : Update) : Member :=
  if u.nodeID = m.nodeID then m
  else if u.version ≤ m.versions u.id then m
  else
    { m with versions := update m.versions u.id u.version, view := onReplicated m.view u.payload }

/-! ## nodes -/

inductive Op where
  | announce (p : Presence)
  | edit (seat : Seat) (e : Edit) (found : Option Presence)
  | leave (seat : Seat)

def Op.seat : Op → Seat
  | .announce p => p.seat
  | .edit seat _ _ => seat
  | .leave seat => seat

def Op.exec : Op → Member × Update
  | .announce p => m.announce now version p
  | .edit seat e found => m.mutate now version seat found e
  | .leave seat => m.leave version seat

def Op.record (op : Op) (u : Update) : Option Presence :=
  match op with
  | .leave _ => none
  | _ => some u.payload

/-- the nodes and the broadcasts under way; `latest` and `clock` are the version and record of the last calls -/
structure Net where
  members : List Member
  flying : List (Nat × Update) := []
  latest : AList fun _ : Seat => Int × Option Presence := ∅
  clock : Int := 0

def start (names : List String) : Net := { members := names.map fun nodeID => ⟨nodeID, fun _ => none, fun _ => 0⟩ }

inductive Label where
  | call (i : Nat) (op : Op) (now version : Int)
  | deliver (k : Nat)

def Net.next (s : Net) : Label → Option Net
  | .call i op now version =>
    match s.members[i]? with
    | none => none
    | some m =>
      if s.clock < version then
        let r := op.exec m now version
        some {
          members := s.members.set i r.1
          flying := s.flying ++ ((List.range s.members.length).filter (· ≠ i)).map fun j => (j, r.2)
          latest := s.latest.insert op.seat (version, op.record r.2)
          clock := version }
      else none
  | .deliver k =>
    match s.flying[k]? with
    | none => none
    | some (j, u) =>
      match s.members[j]? with
      | none => none
      | some m => some { s with members := s.members.set j (m.apply u), flying := s.flying.eraseIdx k }

def Net.last (s : Net) (seat : Seat) : Option Presence := (s.latest.lookup seat).bind Prod.snd

end Cache.Rooms
