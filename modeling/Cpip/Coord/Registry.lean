import Mathlib.Data.Finset.Basic
import Mathlib.Data.List.AList
import Cpip.Lib.Run

/-!
# Coordination: the node registry

A record stands for the text it is encoded as; the node key of the layout is one-to-one in the node's
identifier, so records are kept by identifier.  Records carry no expiry.
-/

namespace Coord

/-! ## nodes -/

inductive Role where
  | unset
  | coordinator
  | worker
  | gateway
  | runtime
  | storage
  | generic
deriving DecidableEq

inductive Status where
  | unset
  | joining
  | active
  | suspect
  | draining
  | left
  | dead
deriving DecidableEq

inductive Health where
  | unset
  | unknown
  | healthy
  | degraded
  | unhealthy
deriving DecidableEq

structure Load where
  activeJobs : Int := 0
  queuedJobs : Int := 0
  activeConnections : Int := 0
  capacity : Int := 0
deriving DecidableEq

structure Stats where
  heartbeatsSent : Int := 0
  heartbeatsMissed : Int := 0
  reconnects : Int := 0
deriving DecidableEq

/-- the record of a node (`types.Node`); a time that is zero is not set -/
structure Node where
  id : String
  address : String := ""
  role : Role := .unset
  status : Status := .unset
  health : Health := .unset
  heartbeat : Int := 0
  lastSeen : Int := 0
  incarnation : UInt64 := 0
  load : Load := {}
  stats : Stats := {}
  joinedAt : Int := 0
  updatedAt : Int := 0
deriving DecidableEq

def Node.supersedes (n other : Node) : Bool :=
  if n.incarnation ≠ other.incarnation then other.incarnation < n.incarnation
  else other.updatedAt < n.updatedAt

variable (now : Int) (n : Node)

def Node.stamped : Node := { n with updatedAt := now }

/-! ### mutators -/

def Node.beat : Node :=
  let n := { n with heartbeat := now, lastSeen := now
                    stats := { n.stats with heartbeatsSent := n.stats.heartbeatsSent + 1 } }
  let n := if n.status = .suspect then { n with status := .active } else n
  if n.status = .active then { n with health := .healthy } else n

def Node.suspected : Node :=
  if n.status = .active then
    { n with status := .suspect, health := .degraded
             stats := { n.stats with heartbeatsMissed := n.stats.heartbeatsMissed + 1 } }
  else n

def Node.assessed (h : Health) (n : Node) : Node := { n with health := h }

def Node.reported (l : Load) (n : Node) : Node := { n with load := l }

/-! ## registry -/

namespace Registry

structure Shared where
  records : AList fun _ : String => Node := ∅
  members : Finset String := ∅

/-- every record is under the identifier of its node -/
def Keyed (b : Shared) : Prop := ∀ j n, b.records.lookup j = some n → n.id = j

abbrev Cache := AList fun _ : String => Node

inductive Err where
  | invalidNode
  | nodeNotFound

def commit (c : Cache) (n : Node) : Cache :=
  match c.lookup n.id with
  | some cur => if n.supersedes cur then c.insert n.id n else c
  | none => c.insert n.id n

variable (b : Shared)

def put (c : Cache) (n : Node) : Except Err (Shared × Cache) :=
  if n.id = "" then .error .invalidNode
  else
    let n := if n.updatedAt = 0 then { n with updatedAt := now } else n
    .ok (⟨b.records.insert n.id n, insert n.id b.members⟩, commit c n)

def get (c : Cache) (id : String) : Except Err Node × Cache :=
  match c.lookup id with
  | some n => (.ok n, c)
  | none =>
    match b.records.lookup id with
    | none => (.error .nodeNotFound, c)
    | some n => (.ok n, commit c n)

def remove (c : Cache) (id : String) : Shared × Cache :=
  (⟨b.records.erase id, b.members.erase id⟩, c.erase id)

def mutate (c : Cache) (id : String) (fn : Node → Node) : Except Err Unit × Shared × Cache :=
  match get b c id with
  | (.error err, c) => (.error err, b, c)
  | (.ok cur, c) =>
    match put now b c ((fn cur).stamped now) with
    | .error err => (.error err, b, c)
    | .ok (b, c) => (.ok (), b, c)

def refreshOne (r : Shared × Cache) (id : String) : Shared × Cache :=
  match r.1.records.lookup id with
  | none => ({ r.1 with members := r.1.members.erase id }, r.2)
  | some n => (r.1, commit r.2 n)

def recheck (c : Cache) (id : String) : Cache :=
  match b.records.lookup id with
  | some n => commit c n
  | none => c.erase id

/-- `Registry.Refresh`; `ids` is the roster in the order the backend returned it -/
def refresh (c : Cache) (ids : List String) : Shared × Cache :=
  let r := ids.foldl refreshOne (b, c)
  (r.1, (r.2.keys.filter (· ∉ ids)).foldl (recheck r.1) r.2)

/-! ## membership -/

def validate : Bool := n.id ≠ "" && n.address ≠ "" && n.role ≠ .unset

def enlist : Option Node → Node
  | some existing =>
    { n with
      incarnation := existing.incarnation + 1, joinedAt := existing.joinedAt
      stats := { existing.stats with reconnects := existing.stats.reconnects + 1 }
      status := .active, health := .healthy, heartbeat := now, lastSeen := now, updatedAt := now }
  | none =>
    { n with
      incarnation := if n.incarnation = 0 then 1 else n.incarnation, joinedAt := now
      status := .active, health := .healthy, heartbeat := now, lastSeen := now, updatedAt := now }

def join (c : Cache) (n : Node) : Except Err Unit × Shared × Cache :=
  if validate n then
    let (known, c) := get b c n.id
    match put now b c (enlist now n known.toOption) with
    | .error err => (.error err, b, c)
    | .ok (b, c) => (.ok (), b, c)
  else (.error .invalidNode, b, c)

def leave (c : Cache) (id : String) : Shared × Cache :=
  match get b c id with
  | (.error _, c) => (b, c)
  | (.ok _, c) => remove b c id

/-! ## processes -/

structure Cluster where
  shared : Shared := {}
  caches : List Cache

inductive Op where
  | join (p : Nat) (n : Node)
  | leave (p : Nat) (id : String)
  | mutate (p : Nat) (id : String) (fn : Node → Node)
  | refresh (p : Nat) (ids : List String)

def Op.process : Op → Nat
  | .join p _ | .leave p _ | .mutate p _ _ | .refresh p _ => p

/-- what an operation leaves in the backend and in the cache of its process; a refresh is given the
roster as the backend lists it -/
def Op.exec (c : Cache) : Op → Option (Shared × Cache)
  | .join _ n => some (Registry.join now b c n).2
  | .leave _ id => some (Registry.leave b c id)
  | .mutate _ id fn => some (Registry.mutate now b c id fn).2
  | .refresh _ ids =>
    if ids.Nodup ∧ ids.toFinset = b.members then some (Registry.refresh b c ids) else none

def Cluster.next (s : Cluster) (l : Int × Op) : Option Cluster :=
  match s.caches[l.2.process]? with
  | none => none
  | some c =>
    (l.2.exec l.1 s.shared c).map fun r => ⟨r.1, s.caches.set l.2.process r.2⟩

end Registry

end Coord
