import Cpip.Lib.Code

/-!
# Sandbox: one session, step by step

`SandboxManager`, `LifecycleManager` and `CleanupManager`, with every access to the registry, the session, the adapter
or the disk as a command of its own.

The adapter and the workspace manager do not fail; the hooks of a transition, the network and the binds may.
Policies, events, audit, metrics, the network and the mounts of the session are left out.
-/

namespace Sandbox

inductive State where
  | created
  | preparing
  | containerCreated
  | ready
  | executing
  | running
  | completed
  | failed
  | recovering
  | timedOut
  | terminating
  | cleaning
  | destroyed
deriving DecidableEq

def State.allowed : State → List State
  | .created => [.preparing, .cleaning, .destroyed]
  | .preparing => [.containerCreated, .ready, .cleaning, .destroyed]
  | .containerCreated => [.ready, .cleaning, .destroyed]
  | .ready => [.executing, .running, .cleaning, .destroyed]
  | .executing => [.ready, .running, .completed, .failed, .timedOut, .cleaning, .destroyed]
  | .running => [.completed, .failed, .timedOut, .cleaning, .destroyed, .ready]
  | .completed => [.cleaning, .destroyed]
  | .failed => [.recovering, .cleaning, .destroyed]
  | .recovering => [.running, .executing, .failed, .cleaning, .destroyed]
  | .timedOut => [.terminating, .cleaning, .destroyed]
  | .terminating => [.cleaning, .destroyed]
  | .cleaning => [.destroyed]
  | .destroyed => []

def validateTransition (current next : State) : Bool := current = next ∨ next ∈ current.allowed

/-- a sandbox, its session, and what it has on the adapter and on the disk; `returned` is not read -/
structure World where
  registered : Bool := false
  state : State := .created
  containerID : String := ""
  workspacePath : String := ""
  containers : List String := []
  workspaces : List String := []
  returned : Bool := false

inductive Cmd where
  | register
  | unregister
  | get
  | validate (next : State)
  | hooks
  | write (next : State)
  | prepareWorkspace
  | setWorkspacePath (path : String)
  | getWorkspacePath
  | cleanupWorkspace (path : String)
  | getNetworkName
  | getBinds
  | createContainer
  | setContainerID (cID : String)
  | getContainerID
  | startContainer (cID : String)
  | stopContainer (cID : String)
  | removeContainer (cID : String)
  | due
  | archiveLogs
  | finish

abbrev Cmd.Ans : Cmd → Type
  | .get | .validate _ | .hooks | .getNetworkName | .getBinds | .due => Bool
  | .prepareWorkspace | .getWorkspacePath | .createContainer | .getContainerID => String
  | _ => Unit

structure Choice where
  ok : Bool := true
  name : String := ""

@[simp]
def exec : Code.Exec Cmd Cmd.Ans World Choice
  | .register, w, _ => some ((), { w with registered := true })
  | .unregister, w, _ => some ((), { w with registered := false })
  | .get, w, _ => some (w.registered, w)
  | .validate next, w, _ => some (validateTransition w.state next, w)
  | .hooks, w, e => some (e.ok, w)
  | .write next, w, _ => some ((), { w with state := next })
  | .prepareWorkspace, w, e =>
    if e.name = "" then none else some (e.name, { w with workspaces := w.workspaces ++ [e.name] })
  | .setWorkspacePath path, w, _ => some ((), { w with workspacePath := path })
  | .getWorkspacePath, w, _ => some (w.workspacePath, w)
  | .cleanupWorkspace path, w, _ => some ((), { w with workspaces := w.workspaces.filter (· ≠ path) })
  | .getNetworkName, w, e => some (e.ok, w)
  | .getBinds, w, e => some (e.ok, w)
  | .createContainer, w, e =>
    if e.name = "" then none else some (e.name, { w with containers := w.containers ++ [e.name] })
  | .setContainerID cID, w, _ => some ((), { w with containerID := cID })
  | .getContainerID, w, _ => some (w.containerID, w)
  | .startContainer _, w, _ => some ((), w)
  | .stopContainer _, w, _ => some ((), w)
  | .removeContainer cID, w, _ => some ((), { w with containers := w.containers.filter (· ≠ cID) })
  | .due, w, e => some (w.registered && (e.ok || w.state = .cleaning), w)
  | .archiveLogs, w, _ => some ((), w)
  | .finish, w, _ => some ((), { w with returned := true })

abbrev Op (ρ : Type) := Code Cmd Cmd.Ans ρ

def access (c : Cmd) : Op c.Ans := Code.cmd c

def transition (next : State) : Op Bool :=
  (access (.validate next)).bind fun valid =>
    if valid then
      (access .hooks).bind fun ok =>
        if ok then (access (.write next)).bind fun _ => .ret true else .ret false
    else .ret false

def removal : Op Unit :=
  (access .getContainerID).bind fun cID =>
  (if cID ≠ "" then (access (.stopContainer cID)).bind fun _ => access (.removeContainer cID)
    else .ret ()).bind fun _ =>
  (access .getWorkspacePath).bind fun path =>
  (if path ≠ "" then access (.cleanupWorkspace path) else .ret ()).bind fun _ =>
  (transition .destroyed).bind fun _ =>
  access .unregister

def destroySandbox : Op Unit :=
  (access .get).bind fun found =>
    if found then (transition .cleaning).bind fun _ => removal else .ret ()

def orDestroy (ok : Bool) (next : Op Unit) : Op Unit := if ok then next else destroySandbox

/-- `SandboxManager.CreateSandbox` from the creation of the container on -/
def createContainer : Op Unit :=
  (access .createContainer).bind fun cID =>
  (access (.setContainerID cID)).bind fun _ =>
  (access (.startContainer cID)).bind fun _ =>
  (transition .ready).bind fun ok => orDestroy ok (.ret ())

/-- `SandboxManager.CreateSandbox` from the preparation of the workspace on -/
def createWorkspace : Op Unit :=
  (access .prepareWorkspace).bind fun path =>
  (access (.setWorkspacePath path)).bind fun _ =>
  (access .getNetworkName).bind fun ok => orDestroy ok <|
  (access .getBinds).bind fun ok => orDestroy ok <|
  (transition .containerCreated).bind fun ok => orDestroy ok createContainer

/-- `SandboxManager.CreateSandbox` from the registration on -/
def createSandbox : Op Unit :=
  ((access .register).bind fun _ =>
    (transition .created).bind fun ok =>
      if ok then (transition .preparing).bind fun ok => orDestroy ok createWorkspace
      else access .unregister).bind fun _ =>
  access .finish

/-- `CleanupManager.Sweep` for this sandbox, with the `CleanupSandbox` it starts -/
def sweep : Op Unit :=
  (access .due).bind fun due =>
    if due then
      (access .get).bind fun found =>
        if found then (access .archiveLogs).bind fun _ => destroySandbox else .ret ()
    else .ret ()

end Sandbox
