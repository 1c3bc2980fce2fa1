import Cpip.Lib.Overwrite
import Mathlib.Data.List.Sort

/-!
# Configuration: what a load makes of the providers

`ProfileManager`, the provider registry and `Manager.Load`: the data of the providers is flattened by profile, merged
by priority and overlaid with the runtime overrides, by loops that meet the entries of a map in any order.

* `effective_configuration`  **what a snapshot has for each key**;
* `load_order_free`  **it does not depend on the order of the registrations** or of the loops.
-/

namespace Configuration

open List

abbrev Key := List Char

abbrev Data := Table Key String

/-! ## profiles -/

def development : Key := "development".toList
def testing : Key := "testing".toList
def common : Key := "common".toList
def localProfile : Key := "local".toList

def activeProfile (active : Key) : Key := if active = [] then development else active

def getInheritanceChain (active : Key) : List Key :=
  if activeProfile active = localProfile ∨ activeProfile active = testing then
    [activeProfile active, development, common]
  else [activeProfile active, common]

def scope (prof key : Key) : Key := prof ++ '.' :: key

def resolveKey (chain : List Key) (key : Key) (data : Data) : Option String :=
  (chain.findSome? fun prof => data.lookup (scope prof key)).or (data.lookup key)

def isScoped (key : Key) (chain : List Key) : Bool := chain.any fun prof => (prof ++ ['.']).isPrefixOf key

def unscope (prof key : Key) : Option Key :=
  if (prof ++ ['.']).isPrefixOf key then some (key.drop (prof ++ ['.']).length) else none

/-- the second loop of `ResolveConfig`: the last profile of the chain first -/
def applyProfiles (R : Ranges Key String) (site : List Nat) (raw resolved : Data) : List Key → Data
  | [] => resolved
  | prof :: chain =>
    (applyProfiles R site raw resolved chain).overwrite
      ((R.order ((chain.length + 1) :: site) raw.entries).filterMap (Table.rekey (unscope prof)))

variable (R : Ranges Key String)

def resolveConfig (site : List Nat) (chain : List Key) (raw : Data) : Data :=
  applyProfiles R site raw
    (Table.overwrite ∅ ((R.order (0 :: site) raw.entries).filter fun e => !isScoped e.1 chain)) chain

def flat (chain : List Key) (key : Key) (raw : Data) : Option String :=
  (chain.findSome? fun prof => raw.lookup (scope prof key)).or (if isScoped key chain then none else raw.lookup key)

theorem flat_unscoped {chain : List Key} {key : Key} (h : isScoped key chain = false) (raw : Data) :
    flat chain key raw = resolveKey chain key raw := by
  unfold flat resolveKey
  rw [h]
  rfl

theorem unscope_eq_some {prof key k : Key} : unscope prof key = some k ↔ key = scope prof k := by
  unfold unscope scope
  constructor
  · intro h
    split at h
    · next hp =>
      cases h
      obtain ⟨l, rfl⟩ := isPrefixOf_iff_prefix.mp hp
      rw [drop_left, append_assoc]
      rfl
    · cases h
  · rintro rfl
    have heq : prof ++ '.' :: k = (prof ++ ['.']) ++ k := by simp
    rw [heq, if_pos ( isPrefixOf_iff_prefix.mpr (prefix_append ..)), drop_left]

section
variable (R : Ranges Key String) (site : List Nat)

theorem lookup_applyProfiles (raw resolved : Data) (chain : List Key) (key : Key) :
    (applyProfiles R site raw resolved chain).lookup key =
      (chain.findSome? fun prof => raw.lookup (scope prof key)).or (resolved.lookup key) := by
  induction chain with
  | nil => rfl
  | cons prof chain ih =>
    unfold applyProfiles
    rw [Table.lookup_range_rekey R _ (fun k k' => unscope_eq_some), ih, findSome?_cons]
    cases raw.lookup (scope prof key) with
    | none | some v => rfl

/-- **flattening a map** -/
theorem lookup_resolveConfig (chain : List Key) (raw : Data) (key : Key) :
    (resolveConfig R site chain raw).lookup key = flat chain key raw := by
  unfold resolveConfig flat
  rw [lookup_applyProfiles, Table.lookup_range_filter R _ (fun k => !isScoped k chain), AList.lookup_empty,
    Option.or_none]
  cases isScoped key chain with
  | true | false => rfl

end

/-! ## providers -/

/-- a provider, with what it loads; `none` is a failure -/
structure Provider where
  name : String
  priority : Int
  load : Option Data

def Provider.answer (chain : List Key) (key : Key) (p : Provider) : Option String := p.load.bind (flat chain key)

/-- `registry.Registry`: providers of different names, sorted by priority -/
structure Registry where
  providers : List Provider
  names : (providers.map (·.name)).Nodup
  sorted : providers.Pairwise fun p q => p.priority ≤ q.priority

def Provider.before (p q : Provider) : Bool := decide (p.priority ≤ q.priority)

variable (ps : List Provider)

def sortByPriority : List Provider := ps.mergeSort Provider.before

theorem sorted_sortByPriority :
    (sortByPriority ps).Pairwise fun p q => p.priority ≤ q.priority := by
  have htrans : ∀ a b c : Provider, a.before b = true → b.before c = true → a.before c = true := fun a b c hab hbc =>
    decide_eq_true (Int.le_trans (of_decide_eq_true hab) (of_decide_eq_true hbc))
  have htotal : ∀ a b : Provider, (a.before b || b.before a) = true := by
    intro a b
    rcases Int.le_total a.priority b.priority with h | h
    · exact Bool.or_eq_true_iff.mpr (.inl (decide_eq_true h))
    · exact Bool.or_eq_true_iff.mpr (.inr (decide_eq_true h))
  exact (pairwise_mergeSort htrans htotal ps).imp fun h => of_decide_eq_true h

def Registry.register (r : Registry) (p : Provider) : Option Registry :=
  if h : p.name ∈ r.providers.map (·.name) then none
  else some
    { providers := sortByPriority (r.providers ++ [p])
      names := by
        have hperm : (sortByPriority (r.providers ++ [p])).Perm (r.providers ++ [p]) := mergeSort_perm ..
        refine (hperm.map _).nodup_iff.mpr ?_
        rw [map_append, nodup_append]
        refine ⟨r.names, nodup_singleton _, fun a ha b hb => ?_⟩
        rw [mem_singleton.mp hb]
        rintro rfl
        exact h ha
      sorted := sorted_sortByPriority _ }

/-- the providers are registered one after another, and none is refused -/
def registerAll : Option Registry := ps.foldlM Registry.register ⟨[], nodup_nil, .nil⟩

section
variable {ps : List Provider} {r r' : Registry} {p : Provider}

theorem register_perm (h : r.register p = some r') : r'.providers.Perm (r.providers ++ [p]) := by
  unfold Registry.register at h
  split at h
  · cases h
  · cases h
    exact mergeSort_perm ..

theorem registers_perm (h : ps.foldlM Registry.register r = some r') : r'.providers.Perm (r.providers ++ ps) := by
  induction ps generalizing r with
  | nil =>
    cases h
    rw [append_nil]
  | cons p ps ih =>
    rw [foldlM_cons] at h
    obtain ⟨r₁, h₁, h⟩ := Option.bind_eq_some_iff.mp h
    have hp := (register_perm h₁).append_right ps
    rw [append_assoc] at hp
    exact (ih h).trans hp

theorem registers_some (h : ((r.providers ++ ps).map (·.name)).Nodup) :
    ∃ r', ps.foldlM Registry.register r = some r' := by
  induction ps generalizing r with
  | nil => exact ⟨r, rfl⟩
  | cons p ps ih =>
    have hp : p.name ∉ r.providers.map (·.name) := by
      rw [map_append] at h
      exact fun hmem => (nodup_append.mp h).2.2 _ hmem _ (mem_cons_self ..) rfl
    obtain ⟨r₁, h₁⟩ : ∃ r₁, r.register p = some r₁ := ⟨_, dif_neg hp⟩
    have hperm := (register_perm h₁).append_right ps
    rw [append_assoc] at hperm
    obtain ⟨r', h'⟩ := ih ((hperm.map _).nodup_iff.mpr h)
    refine ⟨r', ?_⟩
    rw [foldlM_cons, h₁]
    exact h'

end

/-! ## the manager -/

/-- the first loop of `Load`: the provider of the highest number first; one that fails is skipped -/
def mergeProviders (R : Ranges Key String) (chain : List Key) : List Provider → Data
  | [] => ∅
  | p :: ps =>
    match p.load with
    | none => mergeProviders R chain ps
    | some data =>
      (mergeProviders R chain ps).overwrite
        (R.order [ps.length, 0] (resolveConfig R [ps.length, 1] chain data).entries)

structure Snapshot where
  version : Nat
  data : Data

structure Manager where
  registry : Registry
  active : Key
  enableValidation : Bool
  validate : Data → Bool
  maxVersions : Nat
  overrides : Data := ∅
  history : List Snapshot := []

variable (m : Manager)

def Manager.versionLimit : Nat := if m.maxVersions = 0 then 50 else m.maxVersions

def Manager.current : Option Snapshot := m.history.getLast?

def Manager.recordSnapshot (data : Data) : Snapshot × Manager :=
  let snap : Snapshot := ⟨m.current.elim 1 (·.version + 1), data⟩
  let history := m.history ++ [snap]
  (snap, { m with history := history.drop (history.length - m.versionLimit) })

def Manager.loadData : Data :=
  (mergeProviders R (getInheritanceChain m.active) m.registry.providers).overwrite (R.order [] m.overrides.entries)

/-- `Manager.Load`; `none` when the validation fails -/
def Manager.load : Option (Snapshot × Manager) :=
  if m.enableValidation ∧ m.validate (m.loadData R) = false then none else some (m.recordSnapshot (m.loadData R))

section
variable (R : Ranges Key String) (m : Manager)

theorem lookup_mergeProviders (chain : List Key) (ps : List Provider) (key : Key) :
    (mergeProviders R chain ps).lookup key = ps.findSome? (Provider.answer chain key) := by
  induction ps with
  | nil => rfl
  | cons p ps ih =>
    unfold mergeProviders
    rw [findSome?_cons]
    unfold Provider.answer
    cases p.load with
    | none => exact ih
    | some data =>
      dsimp only [Option.bind_some]
      rw [Table.lookup_range, lookup_resolveConfig, ih]
      cases flat chain key data with
      | none | some v => rfl

theorem lookup_load (key : Key) : (m.loadData R).lookup key = (m.overrides.lookup key).or
      (m.registry.providers.findSome? (Provider.answer (getInheritanceChain m.active) key)) := by
  unfold Manager.loadData
  rw [Table.lookup_range, lookup_mergeProviders]

end

theorem load_data {R : Ranges Key String} {m m' : Manager} {snap : Snapshot} (h : m.load R = some (snap, m')) :
    snap.data = m.loadData R := by
  unfold Manager.load at h
  split at h
  · cases h
  · cases h
    rfl

/-- the provider of the lowest number among those that have an answer -/
def Best (f : Provider → Option String) (v : String) : Prop :=
  ∃ p ∈ ps, f p = some v ∧ ∀ q ∈ ps, q.priority < p.priority → f q = none

theorem findSome_best {ps : List Provider} (hsorted : ps.Pairwise fun p q => p.priority ≤ q.priority)
    (hdistinct : (ps.map (·.priority)).Nodup) (f : Provider → Option String) (v : String) :
    ps.findSome? f = some v ↔ Best ps f v := by
  have hstrict : ps.Pairwise fun p q => p.priority < q.priority := by
    have hne : ps.Pairwise fun p q => p.priority ≠ q.priority := pairwise_map.mp hdistinct
    exact (hsorted.and hne).imp fun h => lt_of_le_of_ne h.1 h.2
  rw [findSome?_eq_some_iff]
  constructor
  · rintro ⟨before, p, after, rfl, hp, hnone⟩
    refine ⟨p, by simp, hp, fun q hq hlt => ?_⟩
    obtain ⟨-, hafter, -⟩ := pairwise_append.mp hstrict
    rcases mem_append.mp hq with hb | hq
    · exact hnone q hb
    rcases mem_cons.mp hq with rfl | ha
    · exact absurd hlt (lt_irrefl _)
    · exact absurd (lt_trans hlt ((pairwise_cons.mp hafter).1 q ha)) (lt_irrefl _)
  · rintro ⟨p, hmem, hp, hnone⟩
    obtain ⟨before, after, rfl⟩ := append_of_mem hmem
    refine ⟨before, p, after, rfl, hp, fun q hq => ?_⟩
    obtain ⟨-, -, hlt⟩ := pairwise_append.mp hstrict
    exact hnone q (mem_append_left _ hq) (hlt q hq p (mem_cons_self ..))

/-- **The effective configuration** of a key: its override, else the provider of the lowest number that
resolves it. -/
theorem effective_configuration (R : Ranges Key String) (m : Manager)
    (hdistinct : (m.registry.providers.map (·.priority)).Nodup) {snap : Snapshot} {m' : Manager}
    (hload : m.load R = some (snap, m')) {key : Key} (hkey : isScoped key (getInheritanceChain m.active) = false) :
    (∀ v, m.overrides.lookup key = some v → snap.data.lookup key = some v) ∧
    (m.overrides.lookup key = none →
      (∀ v, snap.data.lookup key = some v ↔ ∃ p ∈ m.registry.providers, ∃ data, p.load = some data ∧
        resolveKey (getInheritanceChain m.active) key data = some v ∧
        ∀ q ∈ m.registry.providers, q.priority < p.priority →
          ∀ data, q.load = some data → resolveKey (getInheritanceChain m.active) key data = none) ∧
      ((∀ p ∈ m.registry.providers, ∀ data, p.load = some data →
          resolveKey (getInheritanceChain m.active) key data = none) → snap.data.lookup key = none)) := by
  have hlookup := lookup_load R m key
  have hanswer : ∀ (p : Provider) (v : Option String), p.answer (getInheritanceChain m.active) key = v ↔
      p.load.bind (resolveKey (getInheritanceChain m.active) key) = v := by
    intro p v
    unfold Provider.answer
    rw [show flat (getInheritanceChain m.active) key = resolveKey (getInheritanceChain m.active) key from
      funext (flat_unscoped hkey)]
  rw [← load_data hload] at hlookup
  refine ⟨fun v hv => ?_, fun hnone => ?_⟩
  · rw [hlookup, hv]
    rfl
  rw [hnone, Option.none_or] at hlookup
  have hiff : ∀ v, snap.data.lookup key = some v ↔ ∃ p ∈ m.registry.providers, ∃ data, p.load = some data ∧
      resolveKey (getInheritanceChain m.active) key data = some v ∧
      ∀ q ∈ m.registry.providers, q.priority < p.priority →
        ∀ data, q.load = some data → resolveKey (getInheritanceChain m.active) key data = none := by
    intro v
    rw [hlookup, findSome_best m.registry.sorted hdistinct]
    constructor
    · rintro ⟨p, hp, hv, hbest⟩
      obtain ⟨data, hdata, hv⟩ := Option.bind_eq_some_iff.mp ((hanswer p _).mp hv)
      refine ⟨p, hp, data, hdata, hv, fun q hq hlt d hd => ?_⟩
      have hq := (hanswer q _).mp (hbest q hq hlt)
      rw [hd] at hq
      exact hq
    · rintro ⟨p, hp, data, hdata, hv, hbest⟩
      refine ⟨p, hp, (hanswer p _).mpr (Option.bind_eq_some_iff.mpr ⟨data, hdata, hv⟩), fun q hq hlt => ?_⟩
      rw [hanswer]
      cases hd : q.load with
      | none => rfl
      | some d => exact hbest q hq hlt d hd
  refine ⟨hiff, fun hno => Option.eq_none_iff_forall_ne_some.mpr fun v hv => ?_⟩
  obtain ⟨p, hp, data, hdata, hv, -⟩ := (hiff v).mp hv
  cases (hno p hp data hdata).symm.trans hv

def listOrder : Ranges Key String := ⟨fun _ l => l, fun _ l => List.Perm.refl l⟩

def dataOf (l : List (String × String)) : Data := Table.overwrite ∅ (l.map fun e => ⟨e.1.toList, e.2⟩)

def threeProviders : Registry where
  providers := [⟨"remote", 1, none⟩, ⟨"env", 2, some (dataOf [("production.db.url", "prod"), ("db.url", "dev")])⟩,
    ⟨"file", 3, some (dataOf [("db.url", "file")])⟩]
  names := by decide
  sorted := by decide

def production : Manager where
  registry := threeProviders
  active := "production".toList
  enableValidation := true
  validate _ := true
  maxVersions := 10

theorem effective_configuration_production :
    ∃ snap m', production.load listOrder = some (snap, m') ∧ snap.data.lookup "db.url".toList = some "prod" := by
  have hload : production.load listOrder = some (production.recordSnapshot (production.loadData listOrder)) := rfl
  have hkey : isScoped "db.url".toList (getInheritanceChain production.active) = false := by decide
  refine ⟨_, _, hload, ?_⟩
  have heff := (effective_configuration listOrder production (by decide) hload hkey).2 (by decide)
  refine (heff.1 "prod").mpr ⟨_, mem_cons_of_mem _ (mem_cons_self ..), _, rfl, by decide, ?_⟩
  intro q hq hlt data hdata
  rcases mem_cons.mp hq with rfl | hq
  · cases hdata
  rcases mem_cons.mp hq with rfl | hq
  · exact absurd hlt (by decide)
  · cases mem_singleton.mp hq
    exact absurd hlt (by decide)

/-- **A load does not depend on the order in which the providers were registered or any map is met.** -/
theorem load_order_free (R R' : Ranges Key String) {ps qs : List Provider} (hperm : ps.Perm qs)
    (hdistinct : (ps.map (·.priority)).Nodup) {m : Manager} (hr : registerAll ps = some m.registry) :
    ∃ r, registerAll qs = some r ∧ ∀ m' : Manager, m'.registry = r → m.active = m'.active →
      (∀ key, m.overrides.lookup key = m'.overrides.lookup key) →
      ∀ key, (m.loadData R).lookup key = (m'.loadData R').lookup key := by
  have hm := registers_perm hr
  obtain ⟨r, hr'⟩ : ∃ r, registerAll qs = some r :=
    registers_some (((hm.trans hperm).map _).nodup_iff.mp m.registry.names)
  refine ⟨r, hr', fun m' hreg hactive hover key => ?_⟩
  subst hreg
  have hsame : m.registry.providers = m'.registry.providers := by
    have hall := (hm.trans hperm).trans (registers_perm hr').symm
    refine hall.eq_of_pairwise (fun p q hp hq hle hge => ?_) m.registry.sorted m'.registry.sorted
    exact inj_on_of_nodup_map ((hm.map _).nodup_iff.mpr hdistinct) hp (hall.mem_iff.mpr hq) (Int.le_antisymm hle hge)
  rw [lookup_load, lookup_load, hsame, hactive, hover]

theorem load_order_free_production : ∃ r r', registerAll threeProviders.providers.reverse = some r ∧
    registerAll threeProviders.providers = some r' ∧
    (({ production with registry := r }).loadData listOrder).lookup "db.url".toList =
      (({ production with registry := r' }).loadData ⟨fun _ l => l.reverse, fun _ l => l.reverse_perm⟩).lookup
        "db.url".toList := by
  obtain ⟨r, hr⟩ : ∃ r, registerAll threeProviders.providers.reverse = some r := registers_some (by decide)
  obtain ⟨r', hr', hload⟩ := load_order_free listOrder ⟨fun _ l => l.reverse, fun _ l => l.reverse_perm⟩
    (reverse_perm threeProviders.providers) (by decide) (m := { production with registry := r }) hr
  exact ⟨r, r', hr, hr', hload { production with registry := r' } rfl rfl (fun _ => rfl) _⟩

end Configuration
