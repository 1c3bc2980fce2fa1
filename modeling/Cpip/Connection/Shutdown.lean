import Cpip.Connection.Manager
import Cpip.Lib.Pool

/-!
# Connections: graceful shutdown

`Register` looks at the closed flag before it takes the lock under which the connection is admitted; `Shutdown` sets
the flag, takes one snapshot and tells the connections of the snapshot.

* `Reach`  an admitted connection is indexed, and every indexed one is told or still to be told;
* `shutdown_reaches`  **every admitted connection is told**, in every run with early admissions.

A `Register` that passed the closed check can be admitted after the snapshot, see `never_told`.
-/

namespace Connection

open Pool Function Lts

inductive ConnState where
  | connecting
  | active
  | closing
deriving DecidableEq

structure Live where
  state : ConnState := .connecting
  cancelled : Bool := false
  closeOnce : Bool := false
deriving DecidableEq

def Live.closeWithCause (l : Live) : Live :=
  if l.closeOnce then l else { state := .closing, cancelled := true, closeOnce := true }

structure Node where
  manager : Manager
  closed : Bool := false
  objects : Nat → Live := fun _ => {}

inductive Job where
  | register (c : Conn)
  | serve (c : Conn)
  | shutdown

inductive Outcome where
  | ok
  | closed
  | refused (e : RegisterError)
deriving DecidableEq

/-- where a call is; a served connection and a shutdown that drains take no more steps that do not block -/
inductive Thread where
  | check (c : Conn)
  | admission (c : Conn)
  | registered (c : Conn) (r : Outcome)
  | serve (c : Conn)
  | serving (c : Conn)
  | close
  | snapshot
  | telling (conns : List Conn)
deriving DecidableEq

def node : Prog Job Node Thread (List Conn) where
  start
    | .register c => .check c
    | .serve c => .serve c
    | .shutdown => .close
  step
    | .check c, s, _ => if s.closed then some (.registered c .closed, s) else some (.admission c, s)
    | .admission c, s, _ =>
      match s.manager.register c with
      | .error e => some (.registered c (.refused e), s)
      | .ok m => some (.registered c .ok, { s with manager := m })
    | .registered _ _, _, _ => none
    | .serve c, s, _ =>
      some (.serving c, { s with
        objects := update s.objects c.object { s.objects c.object with state := .active } })
    | .serving _, _, _ => none
    | .close, s, _ => some (.snapshot, { s with closed := true })
    | .snapshot, s, order => if order.isPerm (s.manager.byConn.entries.map (·.2)) then some (.telling order, s)
      else none
    | .telling [], _, _ => none
    | .telling (c :: conns), s, _ =>
      some (.telling conns, { s with
        objects := update s.objects c.object (s.objects c.object).closeWithCause })

/-- a `Register` that passed the closed check -/
def Thread.admitting : Thread → Bool
  | .admission _ => true
  | _ => false

/-- a `Shutdown` that has its snapshot -/
def Thread.tells : Thread → Bool
  | .telling _ => true
  | _ => false

/-- a connection is admitted only as long as no `Shutdown` has its snapshot -/
def Early (sys : Sys Node Thread) : Act Job (List Conn) → Prop
  | .spawn _ _ => True
  | .step i _ => ∀ t ∈ sys.pool i, t.admitting = true → ∀ j u, sys.pool j = some u → u.tells = false

/-! ## what a step does -/

/-- an object whose `closeOnce` has run has its context cancelled -/
def Live.Fair (l : Live) : Prop := l.closeOnce = true → l.cancelled = true

theorem cancelled_close {l : Live} (h : l.Fair) : l.closeWithCause.cancelled = true := by
  unfold Live.closeWithCause
  split
  · next ho => exact h ho
  · rfl

theorem fair_close {l : Live} (h : l.Fair) : l.closeWithCause.Fair := fun _ => cancelled_close h

theorem lookup_register {m m' : Manager} {c : Conn} (h : m.register c = .ok m') :
    m'.byConn.lookup c.id = some c ∧ ∀ id d, m.byConn.lookup id = some d → m'.byConn.lookup id = some d := by
  unfold Manager.register at h
  split at h
  · cases h
  split at h
  · cases h
  next hnew =>
  cases h
  refine ⟨by rw [lookup_index, if_pos rfl], fun id d hd => ?_⟩
  have hne : id ≠ c.id := by
    rintro rfl
    rw [hd] at hnew
    exact hnew rfl
  rw [lookup_index, if_neg hne]
  exact hd

/-! ## every run -/

/-- an admitted connection is indexed; a `Shutdown` with its snapshot has told every indexed connection or will -/
def Knows (s : Node) : Thread → Prop
  | .registered c .ok => s.manager.byConn.lookup c.id = some c
  | .telling conns =>
    ∀ id c, s.manager.byConn.lookup id = some c → (s.objects c.object).cancelled = true ∨ c ∈ conns
  | _ => True

abbrev Reach : Sys Node Thread → Prop :=
  Inv (fun s => ∀ o, (s.objects o).Fair) Knows fun _ _ _ => True

theorem knows_start (s : Node) (j : Job) : Knows s (node.start j) := by
  cases j <;> trivial

/-- what a step from `s` to `m` keeps, and what its thread knows then -/
structure Effect (s m : Node) (t t' : Thread) : Prop where
  grows : ∀ id c, s.manager.byConn.lookup id = some c → m.manager.byConn.lookup id = some c
  same : m.manager = s.manager ∨ t.admitting = true
  objects : ∀ o, (m.objects o).Fair ∧ ((s.objects o).cancelled = true → (m.objects o).cancelled = true)
  knows : Knows m t'

section
variable {s m : Node} {t t' u : Thread} {a : List Conn}

theorem effect_same (hm : m.manager = s.manager)
    (ho : ∀ o, (m.objects o).Fair ∧ ((s.objects o).cancelled = true → (m.objects o).cancelled = true))
    (hk : Knows m t') : Effect s m t t' :=
  ⟨fun id c hc => by rwa [hm], .inl hm, ho, hk⟩

theorem effect_step (hfair : ∀ o, (s.objects o).Fair) (hk : Knows s t) (h : node.step t s a = some (t', m)) :
    Effect s m t t' := by
  have hkeep : ∀ o, (s.objects o).Fair ∧ ((s.objects o).cancelled = true → (s.objects o).cancelled = true) :=
    fun o => ⟨hfair o, id⟩
  cases t with
  | check c =>
    dsimp only [node] at h
    split at h <;> cases h <;> exact effect_same rfl hkeep trivial
  | admission c =>
    dsimp only [node] at h
    split at h
    · cases h
      exact effect_same rfl hkeep trivial
    next m' hm =>
    cases h
    obtain ⟨hself, hgrow⟩ := lookup_register hm
    exact ⟨hgrow, .inr rfl, hkeep, hself⟩
  | serve c =>
    cases h
    refine effect_same rfl (fun o => ?_) trivial
    dsimp only
    rw [update_apply]
    split
    · next ho => exact ho ▸ hkeep o
    · exact hkeep o
  | close =>
    cases h
    exact effect_same rfl hkeep trivial
  | snapshot =>
    dsimp only [node] at h
    split at h
    · next hperm =>
      cases h
      refine effect_same rfl hkeep fun id c hc => .inr ((List.isPerm_iff.mp hperm).mem_iff.mpr ?_)
      exact List.mem_map.mpr ⟨⟨id, c⟩, AList.mem_lookup_iff.mp hc, rfl⟩
    · cases h
  | registered _ _ | serving _ => cases h
  | telling conns =>
    cases conns with
    | nil => cases h
    | cons c conns =>
      cases h
      refine effect_same rfl (fun o => ?_) fun id d hd => ?_ <;> dsimp only <;> rw [update_apply] <;> split
      · exact ⟨fair_close (hfair c.object), fun _ => cancelled_close (hfair c.object)⟩
      · exact hkeep o
      · exact .inl (cancelled_close (hfair c.object))
      · next hne =>
        refine (hk id d hd).imp_right fun hmem => (List.mem_cons.mp hmem).resolve_left ?_
        exact fun heq => hne (heq ▸ rfl)

theorem knows_other (he : Effect s m t t') (hearly : t.admitting = true → u.tells = false) (hk : Knows s u) :
    Knows m u := by
  cases u with
  | registered c r =>
    cases r with
    | ok => exact he.grows _ _ hk
    | closed | refused _ => trivial
  | telling conns =>
    cases he.same with
    | inl hm =>
      intro id c hc
      rw [hm] at hc
      exact (hk id c hc).imp_left (he.objects c.object).2
    | inr hadm => cases hearly hadm
  | _ => trivial

end

theorem reach_next (sys : Sys Node Thread) (l : Act Job (List Conn)) (sys' : Sys Node Thread)
    (hi : Reach sys) (hearly : Early sys l) (hn : node.next sys l = some sys') : Reach sys' := by
  refine inv_next (C := Early) ⟨fun s i c _ _ => ⟨knows_start s.shared c, fun _ _ _ => ⟨trivial, trivial⟩⟩, ?_⟩ sys l
    sys' hi hearly hn
  intro s i a t t' m hi hC ht hs
  have he := effect_step hi.shared (hi.each i t ht) hs
  refine keeps_each (fun o => (he.objects o).1) he.knows fun j u _ hu => ?_
  exact knows_other he (fun hadm => hC t ht hadm j u hu) (hi.each j u hu)

/-- **Shutdown reaches every admitted connection**, when connections are admitted only as long as no `Shutdown` has
its snapshot. -/
theorem shutdown_reaches (maxConn : Int) {acts : List (Act Job (List Conn))} {sys : Sys Node Thread}
    (hrun : run node.next (idle { manager := { maxConn := maxConn } }) acts = some sys)
    (hearly : Along node.next Early (idle { manager := { maxConn := maxConn } }) acts) {i : Nat}
    (hdone : sys.pool i = some (.telling [])) {j : Nat} {c : Conn} (hreg : sys.pool j = some (.registered c .ok)) :
    (sys.shared.objects c.object).cancelled = true := by
  have hinv : Reach sys := run_inv reach_next (inv_idle fun _ h => (by cases h)) hearly hrun
  have hc : sys.shared.manager.byConn.lookup c.id = some c := hinv.each j _ hreg
  cases hinv.each i _ hdone c.id c hc with
  | inl h => exact h
  | inr h => cases h

def tab : Conn := ⟨0, "c1", "u1", "s1"⟩

def earlyRun : List (Act Job (List Conn)) :=
  [.spawn 0 (.register tab), .step 0 [], .spawn 1 .shutdown, .step 1 [], .step 0 [], .step 1 [tab],
    .spawn 2 (.serve tab), .step 1 [], .step 2 []]

theorem shutdown_reaches_earlyRun : ∃ sys, run node.next (idle { manager := { maxConn := 5 } }) earlyRun = some sys ∧
      (sys.shared.objects tab.object).cancelled = true := by
  have hearly : Along node.next Early (idle { manager := { maxConn := 5 } }) earlyRun :=
    along_pairs (n := 3) (D := fun _ _ t _ u => t.admitting = true → u.tells = false) (fun _ _ _ => trivial)
      (fun _ _ _ h t ht hadm j u hu => h t j u ht hu hadm) (by decide) (by decide +kernel)
  have hrun : ∃ sys ∈ run node.next (idle { manager := { maxConn := 5 } }) earlyRun,
      sys.pool 1 = some (.telling []) ∧ sys.pool 0 = some (.registered tab .ok) := by decide +kernel
  obtain ⟨sys, hrun, hdone, hreg⟩ := hrun
  exact ⟨sys, hrun, shutdown_reaches 5 hrun hearly hdone hreg⟩

/-- the connection passes the closed check, and is admitted after the snapshot -/
def lateRun : List (Act Job (List Conn)) :=
  [.spawn 0 (.register tab), .step 0 [], .spawn 1 .shutdown, .step 1 [], .step 1 [], .step 0 [], .spawn 2 (.serve tab),
   .step 2 []]

/-- every call has made its steps, the connection is admitted and served, and it was never told -/
theorem never_told : ∃ sys ∈ run node.next (idle { manager := { maxConn := 5 } }) lateRun,
      sys.pool 0 = some (.registered tab .ok) ∧ sys.pool 1 = some (.telling []) ∧ sys.pool 2 = some (.serving tab) ∧
      sys.shared.objects tab.object = { state := .active } := by
  decide +kernel

end Connection
