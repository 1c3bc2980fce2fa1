import Cpip.Lib.Code
import Cpip.Cache.Manager

/-!
# Cache: loads against sets and deletes

The operations of the manager on one key of a cache, each access to the backend a command of its own, and the
background reload of a refresh-ahead cache.

* `loads_fresh`  **the key never holds a value that was loaded before the last set or delete**.

The client does not fail; what a loader answers is up to the environment.
-/

namespace Cache.Reload

open Expiry Pool Code

/-! ## commands -/

/-- the manager and the reloads; `writes` counts the sets and deletes, `origin` is that count when the value
was loaded -/
structure World where
  state : State := {}
  refreshing : Finset String := ∅
  triggered : Nat := 0
  writes : Nat := 0
  origin : Option Nat := none

inductive Cmd where
  | get
  | ttl
  | load
  | rawSet (origin : Option Nat) (value : String) (ttl : Int)
  | del
  | expire (ttl : Int)
  | touch (ttl : Int)
  | watch (ttl : Int)
  | unwatch
  | sAdd (tag : String)
  | write (w : Writer) (op : WriteOp)
  | enqueue (w : Writer) (op : WriteOp)
  | add
  | remove
  | start

abbrev Cmd.Ans : Cmd → Type
  | .get => Option String
  | .ttl => Int
  | .load => Loaded × Nat
  | .write _ _ => Bool
  | .add => Bool
  | _ => Unit

structure Env where
  now : Int
  loaded : Loaded := .absent

section
variable {V : Type} (m : Manager V) (cache key : String)

def exec : Code.Exec Cmd Cmd.Ans World Env
  | .get, w, e =>
    let r := w.state.redis.get e.now (m.keys.cache cache key)
    some (r.1, { w with state.redis := r.2 })
  | .ttl, w, e =>
    let r := w.state.redis.ttl e.now (m.keys.cache cache key)
    some (r.1, { w with state.redis := r.2 })
  | .load, w, e => some ((e.loaded, w.writes), w)
  | .rawSet origin value ttl, w, e =>
    some ((), { w with
      state := Manager.rawSet e.now w.state (m.keys.cache cache key) value ttl
      writes := if origin = none then w.writes + 1 else w.writes
      origin })
  | .del, w, e =>
    some ((), { w with
      state.redis := (w.state.redis.del e.now [m.keys.cache cache key]).2
      writes := w.writes + 1
      origin := none })
  | .expire ttl, w, e =>
    some ((), { w with state.redis := (w.state.redis.expire e.now (m.keys.cache cache key) ttl).2 })
  | .touch ttl, w, e => some ((), { w with state := Manager.touch e.now w.state (m.keys.cache cache key) ttl })
  | .watch ttl, w, e => some ((), { w with state := Manager.watch e.now w.state (m.keys.cache cache key) ttl })
  | .unwatch, w, _ => some ((), { w with state.watched := w.state.watched.erase (m.keys.cache cache key) })
  | .sAdd tag, w, e =>
    some ((), { w with state.redis := (w.state.redis.sAdd e.now (m.keys.tag tag) [m.keys.cache cache key]).2 })
  | .write wr op, w, _ =>
    if wr.fails op.key op.value then some (false, w)
    else some (true, { w with state.record := w.state.record.write op })
  | .enqueue wr op, w, _ => some ((), { w with state := m.enqueueOp w.state wr op })
  | .add, w, _ =>
    -- the reload that is triggered starts on its own
    if m.keys.cache cache key ∈ w.refreshing then some (false, w)
    else some (true, { w with
      refreshing := insert (m.keys.cache cache key) w.refreshing
      triggered := w.triggered + 1 })
  | .remove, w, _ => some ((), { w with refreshing := w.refreshing.erase (m.keys.cache cache key) })
  | .start, w, _ =>
    match w.triggered with
    | 0 => none
    | n + 1 => some ((), { w with triggered := n })

/-! ## operations -/

abbrev Op (ρ : Type) := Code Cmd Cmd.Ans ρ

abbrev access (c : Cmd) : Op c.Ans := cmd c

def rawGet : Op (Option (String × Int)) := do
  match ← access .get with
  | none => pure none
  | some value =>
    let remaining ← access .ttl
    pure (some (value, remaining))

def store (n : Nat) (value : String) (loadTTL ttl : Int) : Op Unit :=
  access (.rawSet (some n) value (if 0 < loadTTL then loadTTL else ttl))

def readThroughLoad (ttl : Int) : Op (Except Err (Option String)) :=
  match m.loaderFor cache with
  | none => pure (.error .noLoader)
  | some _ => do
    let (loaded, n) ← access .load
    match loaded with
    | .failed => pure (.error .loader)
    | .absent => pure (.ok none)
    | .found value loadTTL =>
      store n value loadTTL ttl
      pure (.ok (some value))

/-- `maybeRefresh` for a value with a remaining time to live; `threshold` is the part of the full one below
which a reload is due -/
def maybeRefresh (threshold remaining : Int) : Op Unit :=
  if remaining ≤ 0 then pure ()
  else if threshold < remaining then pure ()
  else do
    let _ ← access .add
    pure ()

def reload : Op (Except Err (Option String)) := do
  access .start
  let (loaded, n) ← access .load
  match loaded with
  | .found value loadTTL => store n value loadTTL (m.resolve cache 0)
  | _ => pure ()
  access .remove
  pure (.ok none)

def engineGet (threshold ttl : Int) : Op (Except Err (Option String)) := do
  match m.strategyFor cache, ← rawGet with
  | .readThrough, none => readThroughLoad m cache ttl
  | .refreshAhead, some (value, remaining) =>
    if (m.regs.lookup cache).isSome then maybeRefresh threshold remaining
    pure (.ok (some value))
  | .refreshAhead, none => readThroughLoad m cache ttl
  | _, r => pure (.ok (r.map Prod.fst))

def get (threshold : Int) : Op (Except Err (Option String)) :=
  match m.descs.lookup cache with
  | none => pure (.error .notRegistered)
  | some _ => do
    let resolved := m.resolve cache 0
    match ← engineGet m cache threshold resolved with
    | .ok (some value) =>
      if m.isSliding cache then
        access (.expire resolved)
        access (.touch resolved)
      pure (.ok (some value))
    | other => pure other

def engineSet (value : String) (ttl : Int) : Op (Option Err) := do
  access (.rawSet none value ttl)
  match m.regs.lookup cache with
  | none => pure none
  | some reg =>
    match reg.strategy, reg.writer with
    | .writeThrough, none => pure (some .noWriter)
    | .writeThrough, some w =>
      if ← access (.write w (Manager.writeOp cache key value w)) then pure none else pure (some .writer)
    | .writeBehind, some w =>
      access (.enqueue w (Manager.writeOp cache key value w))
      pure none
    | _, _ => pure none

def set (value : V) (opts : List SetOption) : Op (Except Err (Option String)) :=
  match m.descs.lookup cache with
  | none => pure (.error .notRegistered)
  | some d =>
    let o := setOptions opts
    match m.encode value with
    | none => pure (.error .serialization)
    | some encoded => do
      let resolved := m.resolve cache o.ttl
      match ← engineSet m cache key encoded resolved with
      | some err => pure (.error err)
      | none =>
        each (fun t => access (.sAdd t)) (d.tags ++ o.tags)
        if d.mode = .sliding then access (.watch resolved)
        pure (.ok none)

def delete : Op (Except Err (Option String)) :=
  match m.descs.lookup cache with
  | none => pure (.error .notRegistered)
  | some _ => do
    access .del
    access .unwatch
    pure (.ok none)

inductive Call (V : Type) where
  | get (threshold : Int)
  | set (value : V) (opts : List SetOption)
  | delete
  | reload

def body : Call V → Op (Except Err (Option String))
  | .get threshold => get m cache threshold
  | .set value opts => set m cache key value opts
  | .delete => delete m cache
  | .reload => reload m cache

abbrev Th (V : Type) := Code.Thread (Call V) Cmd Cmd.Ans (Except Err (Option String))

abbrev calls : Prog (Call V) World (Th V) Env := prog (exec m cache key) (body m cache key)

def Finished (sys : Sys World (Th V)) : Prop :=
  sys.shared.triggered = 0 ∧ ∀ i t, sys.pool i = some t → t.result.isSome = true

def Stale (w : World) : Prop :=
  ∃ now, (w.state.redis.text now (m.keys.cache cache key)).isSome = true ∧ ∃ n, w.origin = some n ∧ n < w.writes

end

/-! ## the condition -/

def Cmd.writes : Cmd → Bool
  | .rawSet none _ _ => true
  | .del => true
  | _ => false

def Cmd.stores : Cmd → Bool
  | .rawSet (some _) _ _ => true
  | _ => false

/-- a set or delete takes effect while no call is between a load and the write of the loaded value -/
def Apart {V : Type} (sys : Sys World (Th V)) : Act (Call V) Env → Prop
  | .step i _ => ∀ t ∈ sys.pool i, ∀ c ∈ t.next, c.writes = true →
      ∀ j u, sys.pool j = some u → ∀ d ∈ u.next, d.stores = false
  | .spawn _ _ => True

/-! ## fresh values -/

def Timely (w : World) : Prop := ∀ n, w.origin = some n → n = w.writes

/-- nothing is set or deleted between a load and the write of the loaded value -/
def rely (c : Cmd) (s t : World) : Prop := c.stores = true → t.writes = s.writes

section
variable {V : Type} {m : Manager V} {cache key : String} {c : Cmd} {w w' : World} {e : Env} {a : c.Ans}

theorem exec_effect (h : exec m cache key c w e = some (a, w')) : c.writes = true ∧ w'.origin = none ∨
      c.writes = false ∧ w'.writes = w.writes ∧ (c.stores = false → w'.origin = w.origin) := by
  cases c with
  | rawSet origin value ttl =>
    cases origin with
    | none =>
      cases h
      exact .inl ⟨rfl, rfl⟩
    | some n =>
      cases h
      exact .inr ⟨rfl, rfl, fun hs => by cases hs⟩
  | del =>
    cases h
    exact .inl ⟨rfl, rfl⟩
  | write wr op | add =>
    simp only [exec] at h
    split at h <;> cases h <;> exact .inr ⟨rfl, rfl, fun _ => rfl⟩
  | start =>
    simp only [exec] at h
    split at h <;> cases h
    exact .inr ⟨rfl, rfl, fun _ => rfl⟩
  | _ =>
    cases h
    exact .inr ⟨rfl, rfl, fun _ => rfl⟩

abbrev Sound (m : Manager V) (cache key : String) {ρ : Type} (x : Op ρ) (w : World) : Prop :=
  x.Safe (exec m cache key) Timely rely (fun _ _ _ => True) (fun _ _ => True) (fun _ _ => True) w

variable {ρ : Type}

theorem sound_call {k : c.Ans → Op ρ} (hc : c.stores = false) (hk : ∀ a u, Sound m cache key (k a) u) :
    Sound m cache key (.call c k) w := by
  intro t _ hI _ e a u he
  refine ⟨?_, trivial, hk a u⟩
  intro n hn
  obtain ⟨-, hnone⟩ | ⟨-, hwrites, horigin⟩ := exec_effect he
  · rw [hnone] at hn
    cases hn
  rw [horigin hc] at hn
  rw [hwrites]
  exact hI n hn

theorem sound_load {k : Loaded × Nat → Op ρ} (hk : ∀ l u, Sound m cache key (k (l, u.writes)) u) :
    Sound m cache key (.call .load k) w := by
  intro t _ hI _ e a u he
  cases he
  exact ⟨hI, trivial, hk e.loaded t⟩

theorem sound_store {k : Unit → Op ρ} {n : Nat} {value : String} {ttl : Int} (hn : n = w.writes)
    (hk : ∀ u, Sound m cache key (k ()) u) : Sound m cache key (.call (.rawSet (some n) value ttl) k) w := by
  intro t hR _ _ e a u he
  cases he
  refine ⟨?_, trivial, hk _⟩
  intro n' hn'
  cases hn'
  exact hn.trans (hR rfl).symm

theorem sound_bind {ρ' : Type} {x : Op ρ'} {k : ρ' → Op ρ} (hx : ∀ u, Sound m cache key x u)
    (hk : ∀ r u, Sound m cache key (k r) u) : Sound m cache key (x.bind k) w :=
  safe_bind (hx w) fun r u _ => hk r u

theorem sound_readThroughLoad {ttl : Int} : Sound m cache key (readThroughLoad m cache ttl) w := by
  unfold readThroughLoad
  cases m.loaderFor cache with
  | none => trivial
  | some load =>
    refine sound_load fun l u => ?_
    cases l with
    | failed | absent => trivial
    | found value loadTTL => exact sound_store rfl fun _ => trivial

theorem sound_reload : Sound m cache key (reload m cache) w := by
  refine sound_call rfl fun _ _ => sound_load fun l u => ?_
  cases l with
  | failed | absent => exact sound_call rfl fun _ _ => trivial
  | found value loadTTL => exact sound_store rfl fun _ => sound_call rfl fun _ _ => trivial

theorem sound_maybeRefresh {threshold remaining : Int} : Sound m cache key (maybeRefresh threshold remaining) w := by
  unfold maybeRefresh
  split
  · trivial
  split
  · trivial
  · exact sound_call rfl fun _ _ => trivial

theorem sound_rawGet : Sound m cache key rawGet w := by
  refine sound_call rfl fun r u => ?_
  cases r with
  | none => trivial
  | some value => exact sound_call rfl fun _ _ => trivial

theorem sound_engineGet {threshold ttl : Int} : Sound m cache key (engineGet m cache threshold ttl) w := by
  refine sound_bind (fun _ => sound_rawGet) fun r u => ?_
  split
  · exact sound_readThroughLoad
  · split
    · exact sound_bind (fun _ => sound_maybeRefresh) fun _ _ => trivial
    · trivial
  · exact sound_readThroughLoad
  · trivial

theorem sound_get {threshold : Int} : Sound m cache key (get m cache threshold) w := by
  unfold get
  split
  · trivial
  refine sound_bind (fun _ => sound_engineGet) fun r u => ?_
  split
  · split
    · exact sound_call rfl fun _ _ => sound_call rfl fun _ _ => trivial
    · trivial
  · trivial

theorem sound_engineSet {value : String} {ttl : Int} : Sound m cache key (engineSet m cache key value ttl) w := by
  refine sound_call rfl fun _ u => ?_
  cases m.regs.lookup cache with
  | none => trivial
  | some reg =>
    dsimp only
    split
    · trivial
    · refine sound_call rfl fun written v => ?_
      cases written <;> trivial
    · exact sound_call rfl fun _ _ => trivial
    · trivial

theorem sound_set {value : V} {opts : List SetOption} : Sound m cache key (set m cache key value opts) w := by
  unfold set
  split
  · trivial
  split
  · trivial
  refine sound_bind (fun _ => sound_engineSet) fun r u => ?_
  split
  · trivial
  refine sound_bind (fun _ => ?_) fun _ v => ?_
  · exact safe_each (fun _ _ _ _ => sound_call rfl fun _ _ => trivial) trivial
  split
  · exact sound_call rfl fun _ _ => trivial
  · trivial

theorem sound_delete : Sound m cache key (delete m cache) w := by
  unfold delete
  cases m.descs.lookup cache with
  | none => trivial
  | some d => exact sound_call rfl fun _ _ => sound_call rfl fun _ _ => trivial

theorem sound_body (call : Call V) : Sound m cache key (body m cache key call) w := by
  cases call with
  | get threshold => exact sound_get
  | set value opts => exact sound_set
  | delete => exact sound_delete
  | reload => exact sound_reload

/-- **A key never holds a value loaded before the last set or delete**, when none falls between a load and its
write. -/
theorem loads_fresh {run : List (Act (Call V) Env)} {sys : Sys World (Th V)} {s : State}
    (hC : Lts.Along (calls m cache key).next Apart (idle { state := s }) run)
    (hr : Lts.run (calls m cache key).next (idle { state := s }) run = some sys) :
    ¬ Stale m cache key sys.shared := by
  have hI : Timely sys.shared := by
    refine (Lts.run_inv (safe_next (R := fun _ => rely) (G := fun _ _ _ _ => True) (O := fun _ _ _ => True)
      (Q := fun _ _ _ => True) (D := Apart) (fun _ _ _ _ => rfl) (fun _ _ _ _ _ hab hbd hd => (hbd hd).trans (hab hd))
      (fun _ _ call _ _ => sound_body call) (fun _ _ _ _ _ _ _ _ => trivial) ?_)
      (inv_idle fun n hn => by cases hn) hC hr).shared
    intro sys i e t c a m hc hp hnext he _ j u _ hu
    refine ⟨fun _ _ => trivial, fun d hd hstores => ?_⟩
    obtain ⟨hw, -⟩ | ⟨-, hwrites, -⟩ := exec_effect he
    · have happ := hc t hp c hnext hw j u hu d hd
      rw [hstores] at happ
      cases happ
    · exact hwrites
  rintro ⟨now, -, n, hn, hlt⟩
  rw [hI n hn] at hlt
  exact Nat.lt_irrefl _ hlt

end

/-! ## stale values -/

def oneCache (strategy : Strategy) : Manager String :=
  (Manager.blank.registerCache { name := "c", strategy := some strategy, loader := some fun _ => .absent }).2

def missRun : List (Act (Call String) Env) :=
  [.spawn 0 (.get 6), .step 0 ⟨0, .absent⟩, .step 0 ⟨1, .found "old" 0⟩, .step 0 ⟨2, .absent⟩,
    .spawn 1 (.set "new" []), .step 1 ⟨3, .absent⟩]

theorem loads_fresh_missRun : Lts.Along (calls (oneCache .readThrough) "c" "k").next Apart (idle {}) missRun ∧
    ∃ sys ∈ Lts.run (calls (oneCache .readThrough) "c" "k").next (idle {}) missRun,
      ¬ Stale (oneCache .readThrough) "c" "k" sys.shared := by
  have hend : (Lts.run (calls (oneCache .readThrough) "c" "k").next (idle {}) missRun).isSome = true := by
    decide +kernel
  obtain ⟨sys, hr⟩ := Option.isSome_iff_exists.mp hend
  refine ⟨?hC, sys, hr, loads_fresh ?hC hr⟩
  exact along_pairs (n := 2) (D := fun _ _ t _ u => ∀ c ∈ t.next, c.writes = true → ∀ d ∈ u.next, d.stores = false)
    (fun _ _ _ => trivial) (fun _ _ _ h t ht c hc hw j u hu => h t j u ht hu c hc hw) (by decide) (by decide +kernel)

/-- a get loads a value, a set writes a newer one, and the get writes what it has loaded -/
def staleMiss : List (Act (Call String) Env) :=
  [.spawn 0 (.get 6), .step 0 ⟨0, .absent⟩, .step 0 ⟨1, .found "old" 0⟩,
    .spawn 1 (.set "new" []), .step 1 ⟨2, .absent⟩, .step 0 ⟨3, .absent⟩]

/-- a hit triggers a reload, a delete comes between its load and its write -/
def staleReload : List (Act (Call String) Env) :=
  [.spawn 0 (.set "old" []), .step 0 ⟨0, .absent⟩,
    .spawn 1 (.get 6), .step 1 ⟨55, .absent⟩, .step 1 ⟨55, .absent⟩, .step 1 ⟨55, .absent⟩,
    .spawn 2 .reload, .step 2 ⟨56, .absent⟩, .step 2 ⟨57, .found "old" 0⟩,
    .spawn 3 .delete, .step 3 ⟨58, .absent⟩, .step 3 ⟨58, .absent⟩,
    .step 2 ⟨59, .absent⟩, .step 2 ⟨59, .absent⟩]

theorem exists_stale {strategy : Strategy} {as : List (Act (Call String) Env)} {n : Nat} (now : Int)
    (hn : ∀ l ∈ as, l.below n) (h : ∃ sys ∈ Lts.run (calls (oneCache strategy) "c" "k").next (idle {}) as,
      (∀ i < n, ∀ t ∈ sys.pool i, t.result.isSome = true) ∧ sys.shared.triggered = 0 ∧
      (sys.shared.state.redis.text now ((oneCache strategy).keys.cache "c" "k")).isSome = true ∧
      ∃ k ∈ sys.shared.origin, k < sys.shared.writes) :
    ∃ sys ∈ Lts.run (calls (oneCache strategy) "c" "k").next (idle {}) as,
      Finished sys ∧ Stale (oneCache strategy) "c" "k" sys.shared := by
  obtain ⟨sys, hr, hret, hdue, htext, horigin⟩ := exists_below hn h
  exact ⟨sys, hr, ⟨hdue, hret⟩, now, htext, horigin⟩

/-- **A value that was loaded before a set or a delete is written after it** and stays in the cache. -/
theorem stale_load : (∃ sys ∈ Lts.run (calls (oneCache .readThrough) "c" "k").next (idle {}) staleMiss,
      Finished sys ∧ Stale (oneCache .readThrough) "c" "k" sys.shared) ∧
    ∃ sys ∈ Lts.run (calls (oneCache .refreshAhead) "c" "k").next (idle {}) staleReload,
      Finished sys ∧ Stale (oneCache .refreshAhead) "c" "k" sys.shared := by
  constructor
  · exact exists_stale 4 (n := 2) (by decide) (by decide +kernel)
  · exact exists_stale 60 (n := 4) (by decide) (by decide +kernel)

end Cache.Reload
