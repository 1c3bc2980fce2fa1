import Cpip.Cache.Emulator
import Cpip.Cache.Keys
import Cpip.Cache.Behind

/-!
# Cache: the manager

The cache manager with its policy engine, its tag index and its watches for sliding expiry, over the emulator.

* `writeThrough_whole`  **when a write-through `Set` is all or nothing**.

The client does not fail, a writer and a loader may.  Background reloads are left out.
-/

namespace Cache

open Expiry

/-! ## the catalog -/

inductive Strategy where
  | cacheAside
  | readThrough
  | writeThrough
  | writeBehind
  | refreshAhead
deriving DecidableEq

def Strategy.loads : Strategy → Bool
  | .readThrough => true
  | .refreshAhead => true
  | _ => false

def Strategy.writes : Strategy → Bool
  | .writeThrough => true
  | .writeBehind => true
  | _ => false

inductive Mode where
  | absolute
  | sliding
deriving DecidableEq

inductive Err where
  | config
  | notRegistered
  | noLoader
  | noWriter
  | serialization
  | loader
  | writer
deriving DecidableEq

inductive Loaded where
  | failed
  | absent
  | found (value : String) (ttl : Int)

structure Writer where
  record : String
  fails : String → String → Bool

structure Registration where
  strategy : Strategy
  loader : Option (String → Loaded)
  writer : Option Writer
  hasLoader : strategy.loads = true → loader.isSome = true
  hasWriter : strategy.writes = true → writer.isSome = true

def validate (strategy : Strategy) (loader : Option (String → Loaded)) (writer : Option Writer) :
    Except Err Registration :=
  if hl : strategy.loads = true → loader.isSome = true then
    if hw : strategy.writes = true → writer.isSome = true then .ok ⟨strategy, loader, writer, hl, hw⟩
    else .error .noWriter
  else .error .noLoader

structure Policy where
  ttl : Int
  mode : Mode
  pos : 0 < ttl

structure Descriptor where
  mode : Mode
  tags : List String

structure CacheSpec where
  name : String
  strategy : Option Strategy := none
  ttl : Int := 0
  mode : Mode := .absolute
  loader : Option (String → Loaded) := none
  writer : Option Writer := none
  defaultTags : List String := []

/-- the configuration and the caches; `spread` is what the jitter adds to a time to live -/
structure Manager (V : Type) where
  keys : Builder
  encode : V → Option String
  default : Strategy := .cacheAside
  defaultTTL : Int
  bound : Int
  spread : Int → String → Int
  ttls : AList fun _ : String => Policy := ∅
  regs : AList fun _ : String => Registration := ∅
  descs : AList fun _ : String => Descriptor := ∅
  ttl_pos : 0 < defaultTTL
  bound_pos : 0 < bound
  named : ∀ name ∈ descs, name ≠ "" ∧ name ∈ regs

structure State where
  redis : Emulator := {}
  watched : AList fun _ : String => Int := ∅
  pending : Pending := ∅
  record : Record := ∅

inductive SetOption where
  | ttl (d : Int)
  | tags (ts : List String)

structure SetOptions where
  ttl : Int := 0
  tags : List String := []

def SetOptions.apply (o : SetOptions) : SetOption → SetOptions
  | .ttl d => { o with ttl := d }
  | .tags ts => { o with tags := o.tags ++ ts }

def setOptions (opts : List SetOption) : SetOptions := opts.foldl SetOptions.apply {}

namespace Manager

variable {V : Type} (m : Manager V) (now : Int)

/-- `RegisterCache`; the policy of the time to live is replaced even when the registration is refused -/
def registerCache (spec : CacheSpec) : Option Err × Manager V :=
  if hname : spec.name = "" then (some .config, m)
  else
    let policy : Policy :=
      if h : 0 < spec.ttl then ⟨spec.ttl, spec.mode, h⟩ else ⟨m.defaultTTL, spec.mode, m.ttl_pos⟩
    let ttls := m.ttls.insert spec.name policy
    match validate (spec.strategy.getD m.default) spec.loader spec.writer with
    | .error e => (some e, { m with ttls })
    | .ok reg =>
      (none, { m with
        ttls
        regs := m.regs.insert spec.name reg
        descs := m.descs.insert spec.name ⟨spec.mode, spec.defaultTags⟩
        named := by
          intro name hmem
          rcases (AList.mem_insert _).mp hmem with rfl | hold
          · exact ⟨hname, (AList.mem_insert _).mpr (.inl rfl)⟩
          · exact ⟨(m.named name hold).1, (AList.mem_insert _).mpr (.inr (m.named name hold).2)⟩ })

/-! ## times to live -/

/-- `Jitter`; the result is never brought to zero -/
def jitter (d : Int) (seed : String) : Int :=
  if d ≤ 0 then d else if d + m.spread d seed ≤ 0 then d else d + m.spread d seed

variable (cache : String)

def baseTTL : Int :=
  match m.ttls.lookup cache with
  | some p => p.ttl
  | none => m.defaultTTL

def resolve (override : Int) : Int :=
  m.jitter (if 0 < override then override else m.baseTTL cache) cache

def isSliding : Bool :=
  match m.ttls.lookup cache with
  | some p => p.mode = .sliding
  | none => false

variable (s : State)

def watch (key : String) (ttl : Int) : State :=
  if ttl ≤ 0 then s else { s with watched := s.watched.insert key (now + ttl) }

def touch (key : String) (ttl : Int) : State :=
  if key ∈ s.watched then { s with watched := s.watched.insert key (now + ttl) } else s

/-! ## the policy engine -/

def rawSet (fullKey value : String) (ttl : Int) : State :=
  { s with redis := s.redis.set now fullKey value (if ttl < 0 then 0 else ttl) }

/-- `enqueue` with the write that is made at once, whose failure is not reported -/
def enqueueOp (w : Writer) (op : WriteOp) : State :=
  { s with
    pending := (enqueue m.bound s.pending op).1
    record := match (enqueue m.bound s.pending op).2 with
      | none => s.record
      | some op => if w.fails op.key op.value then s.record else s.record.write op }

def writeOp (cache key value : String) (w : Writer) : WriteOp := ⟨cache, key, value, w.record⟩

def engineSet (cache fullKey key value : String) (ttl : Int) : Option Err × State :=
  let s := rawSet now s fullKey value ttl
  match m.regs.lookup cache with
  | none => (none, s)
  | some reg =>
    match reg.strategy, reg.writer with
    | .writeThrough, none => (some .noWriter, s)
    | .writeThrough, some w =>
      if w.fails key value then (some .writer, s)
      else (none, { s with record := s.record.write (writeOp cache key value w) })
    | .writeBehind, some w => (none, m.enqueueOp s w (writeOp cache key value w))
    | _, _ => (none, s)

def strategyFor : Strategy :=
  match m.regs.lookup cache with
  | some reg => reg.strategy
  | none => m.default

def loaderFor : Option (String → Loaded) := (m.regs.lookup cache).bind Registration.loader

def writerFor : Option Writer := (m.regs.lookup cache).bind Registration.writer

def readThroughLoad (cache fullKey : String) (ttl : Int) : Except Err (Option String) × State :=
  match m.loaderFor cache with
  | none => (.error .noLoader, s)
  | some load =>
    match load fullKey with
    | .failed => (.error .loader, s)
    | .absent => (.ok none, s)
    | .found value loadTTL => (.ok (some value), rawSet now s fullKey value (if 0 < loadTTL then loadTTL else ttl))

def engineGet (cache fullKey : String) (ttl : Int) : Except Err (Option String) × State :=
  let s' := { s with redis := (s.redis.get now fullKey).2 }
  match (s.redis.get now fullKey).1 with
  | some value => (.ok (some value), s')
  | none =>
    if (m.strategyFor cache).loads then m.readThroughLoad now s' cache fullKey ttl else (.ok none, s')

/-! ## the operations -/

def indexTags (fullKey : String) (tags : List String) : State :=
  { s with redis := tags.foldl (fun e t => (e.sAdd now (m.keys.tag t) [fullKey]).2) s.redis }

def set (cache key : String) (value : V) (opts : List SetOption) : Option Err × State :=
  match m.descs.lookup cache with
  | none => (some .notRegistered, s)
  | some d =>
    let o := setOptions opts
    match m.encode value with
    | none => (some .serialization, s)
    | some encoded =>
      let fullKey := m.keys.cache cache key
      let resolved := m.resolve cache o.ttl
      match m.engineSet now s cache fullKey key encoded resolved with
      | (some e, s') => (some e, s')
      | (none, s') =>
        let s' := m.indexTags now s' fullKey (d.tags ++ o.tags)
        (none, if d.mode = .sliding then watch now s' fullKey resolved else s')

def get (cache key : String) : Except Err (Option String) × State :=
  match m.descs.lookup cache with
  | none => (.error .notRegistered, s)
  | some _ =>
    let fullKey := m.keys.cache cache key
    let resolved := m.resolve cache 0
    let r := m.engineGet now s cache fullKey resolved
    match r.1 with
    | .ok (some value) =>
      (.ok (some value),
        if m.isSliding cache then
          touch now { r.2 with redis := (r.2.redis.expire now fullKey resolved).2 } fullKey resolved
        else r.2)
    | other => (other, r.2)

def encodeAll (values : List (String × V)) : Option (List (String × String)) :=
  values.mapM fun kv => (m.encode kv.2).map fun encoded => (m.keys.cache cache kv.1, encoded)

def setMany (cache : String) (values : List (String × V)) (opts : List SetOption) : Option Err × State :=
  match m.descs.lookup cache with
  | none => (some .notRegistered, s)
  | some _ =>
    let resolved := m.resolve cache (setOptions opts).ttl
    match m.encodeAll cache values with
    | none => (some .serialization, s)
    | some pairs => (none, { s with redis := s.redis.setMany now pairs resolved })

def getMany (cache : String) (keys : List String) : Except Err (AList fun _ : String => Option String) × State :=
  match m.descs.lookup cache with
  | none => (.error .notRegistered, s)
  | some _ =>
    let r := Emulator.mGet now (keys.map (m.keys.cache cache)) s.redis
    (.ok ((keys.zip r.1).foldl (fun out kv => out.insert kv.1 kv.2) ∅), { s with redis := r.2 })

def blank : Manager String where
  keys := ⟨"cpip"⟩
  encode := some
  defaultTTL := 60
  bound := 8
  spread _ _ := 0
  ttl_pos := by decide
  bound_pos := by decide
  named name h := absurd h (AList.notMem_empty name)

/-! ## write-through -/

/-- `Engine.Set` with a client that may refuse the write; `some none` is the error of the client -/
def clientSet (refused : Bool) (s : State) (cache fullKey key value : String) (ttl : Int) :
    Option (Option Err) × State :=
  if refused then (some none, s)
  else
    let r := m.engineSet now s cache fullKey key value ttl
    (r.1.map some, r.2)

theorem text_rawSet (fullKey value : String) (ttl : Int) :
    (rawSet now s fullKey value ttl).redis.text now fullKey = some value := by
  have httl : (if ttl < 0 then 0 else ttl) ≠ keepTTL := by
    unfold keepTTL
    split <;> omega
  show (s.redis.set now fullKey value _).text now fullKey = _
  unfold Emulator.set Emulator.text Emulator.live Emulator.put
  rw [if_neg httl, live_insert_self, dead_due]
  rfl

/-- **A failed `Set` leaves the cache, and one that succeeds has written to both**, exactly under the condition. -/
theorem writeThrough_whole (m : Manager V) (now : Int) (refused : Bool) (s : State) (cache fullKey key value : String)
    (ttl : Int) (reg : Registration) (hreg : m.regs.lookup cache = some reg) (hst : reg.strategy = .writeThrough)
    (w : Writer) (hw : reg.writer = some w) :
    let r := m.clientSet now refused s cache fullKey key value ttl
    ((r.1 ≠ none → r.2.redis.text now fullKey = s.redis.text now fullKey) ∧
      (r.1 = none → r.2.redis.text now fullKey = some value ∧
        r.2.record.lookup (writeOp cache key value w).slot = some value)) ↔
      refused = true ∨ w.fails key value = false ∨ s.redis.text now fullKey = some value := by
  intro r
  have hr : r = if refused then (some none, s) else
      if w.fails key value then (some (some .writer), rawSet now s fullKey value ttl)
      else (none, { rawSet now s fullKey value ttl with
        record := s.record.write (writeOp cache key value w) }) := by
    show clientSet m now refused s cache fullKey key value ttl = _
    unfold clientSet engineSet
    simp only [hreg, hst, hw]
    split
    · rfl
    · split <;> rfl
  have htext := text_rawSet now s fullKey value ttl
  rw [hr]
  cases refused with
  | true => exact ⟨fun _ => .inl rfl, fun _ => ⟨fun _ => rfl, nofun⟩⟩
  | false =>
    cases hf : w.fails key value with
    | true =>
      -- the new value is cached, and the call fails
      refine ⟨fun h => .inr (.inr ((h.1 nofun).symm.trans htext)), fun h => ⟨fun _ => ?_, nofun⟩⟩
      exact htext.trans ((h.resolve_left nofun).resolve_left nofun).symm
    | false => exact ⟨fun _ => .inr (.inl rfl), fun _ => ⟨fun h => absurd rfl h,
      fun _ => ⟨htext, AList.lookup_insert ..⟩⟩⟩

def throughCache (fails : Bool) : Manager String :=
  (blank.registerCache { name := "c", strategy := some .writeThrough, writer := some ⟨"db", fun _ _ => fails⟩ }).2

theorem writeThrough_whole_written :
    ((throughCache false).clientSet 0 false {} "c" "cpip:cache:c:k" "k" "v" 60).2.redis.text 0 "cpip:cache:c:k" =
      some "v" :=
  (((writeThrough_whole (throughCache false) 0 false {} "c" "cpip:cache:c:k" "k" "v" 60 _ rfl rfl _ rfl).mpr
    (.inr (.inl rfl))).2 rfl).1

/-- **The writer fails and the new value stays cached.** -/
theorem failed_write_cached : let r := (throughCache true).clientSet 0 false {} "c" "cpip:cache:c:k" "k" "v" 60
    r.1 = some (some .writer) ∧ r.2.redis.text 0 "cpip:cache:c:k" = some "v" ∧
      ({} : State).redis.text 0 "cpip:cache:c:k" = none := by
  decide

end Manager

end Cache
