import Cpip.Lib.Overwrite
import Cpip.Lib.Pool
import Mathlib.Order.Basic

/-!
# Observability: the health registry

A `Run` copies the checks under the lock, runs them, and writes the results under the lock; registrations, removals
and other runs fall in between.

* `readiness_honest`  **readiness that is up is right**, see also `readiness_dishonest`.
-/

namespace Health

open Pool AList List Lts

inductive Status where
  | up
  | degraded
  | down
  | unknown
  | other (text : String)
deriving DecidableEq

def severity : Status → Nat
  | .up => 0
  | .unknown => 1
  | .degraded => 2
  | .down => 3
  | .other _ => 1

inductive Kind where
  | liveness
  | readiness
  | startup
deriving DecidableEq

/-- a registered check; `serial` tells the registrations of one name apart -/
structure Registered where
  name : String
  kinds : List Kind
  critical : Bool
  serial : Nat
deriving DecidableEq

structure Cached where
  result : Status
  reg : Registered

/-- from `passes` on: the passes started, the first not written over, and what the written ones have seen and found -/
structure Registry where
  checks : Table String Registered := ∅
  results : Table String Cached := ∅
  runner : Bool := false
  registrations : Nat := 0
  passes : Nat := 0
  written : Nat := 0
  covered : Nat := 0
  last : Registered → Option (Nat × Status) := fun _ => none

/-! ## the locked sections -/

variable (r : Registry) (name : String) (kinds : List Kind)

def Registry.register (critical : Bool) : Registry :=
  let rg : Registered := ⟨name, if kinds = [] then [.liveness, .readiness] else kinds, critical, r.registrations⟩
  { r with checks := r.checks.insert name rg, registrations := r.registrations + 1 }

def Registry.unregister : Registry :=
  { r with checks := r.checks.erase name, results := r.results.erase name }

structure Pass where
  start : Nat
  seen : Nat
  regs : List Registered
deriving DecidableEq

def Registry.copy : Pass := ⟨r.passes, r.registrations, r.checks.entries.map (·.2)⟩

abbrev Outcomes := List (Registered × Status)

def Outcomes.entries (os : Outcomes) : List (Σ _ : String, Cached) := os.map fun o => ⟨o.1.name, ⟨o.2, o.1⟩⟩

/-- the last result of a registration, when the pass that started at `start` is written -/
def Outcomes.note (os : Outcomes) (start : Nat) (last : Registered → Option (Nat × Status)) (rg : Registered) :
    Option (Nat × Status) :=
  match os.find? (fun o => o.1 = rg) with
  | none => last rg
  | some o => if (last rg).any (fun l => start < l.1) = true then last rg else some (start, o.2)

def Registry.write (pass : Pass) (os : Outcomes) : Registry :=
  { r with
    results := Table.overwrite r.results os.entries
    written := max r.written (pass.start + 1)
    covered := if r.written ≤ pass.start then pass.seen else r.covered
    last := os.note pass.start r.last }

structure Snapshot where
  status : Status
  components : List (String × Status)
deriving DecidableEq

def Cached.effective (c : Cached) : Status :=
  if c.reg.critical = false ∧ c.result = .down then .degraded else c.result

def Registry.startupComplete : Bool :=
  r.results.entries.all fun e => !(e.2.reg.kinds.contains .startup && e.2.result ≠ .up)

variable (kind : Option Kind)

def Registry.listed : List (Σ _ : String, Cached) :=
  r.results.entries.filter fun e => kind.all fun k => e.2.reg.kinds.contains k

/-- the verdict before the gate on startup -/
def verdict (cs : List (Σ _ : String, Cached)) : Status :=
  let worst := cs.foldl (fun w e => max w (severity e.2.effective)) 0
  if worst ≥ severity .down then .down
  else if worst ≥ severity .degraded then .degraded
  else if worst ≥ severity .unknown then .unknown
  else .up

def Registry.aggregate : Snapshot :=
  let cs := r.listed kind
  let components := cs.map fun e => (e.1, e.2.result)
  if cs = [] then ⟨.unknown, components⟩
  else if kind = some .readiness ∧ r.startupComplete = false ∧ severity (verdict cs) < severity .down then
    ⟨.down, components⟩
  else ⟨verdict cs, components⟩

/-! ## the calls -/

inductive Call where
  | register (name : String) (kinds : List Kind) (critical : Bool)
  | unregister (name : String)
  | run
  | probe (kind : Option Kind)

inductive Pc where
  | register (name : String) (kinds : List Kind) (critical : Bool)
  | unregister (name : String)
  | probe (kind : Option Kind)
  | look (kind : Option Kind)
  | copy (kind : Option Kind)
  | checking (kind : Option Kind) (pass : Pass)
  | write (kind : Option Kind) (pass : Pass) (os : Outcomes)
  | aggregate (kind : Option Kind)
  | answered (snap : Snapshot)
  | done
deriving DecidableEq

structure Answer where
  stale : Bool := false
  statuses : List Status := []

def health : Prog Call Registry Pc Answer where
  start
    | .register name kinds critical => .register name kinds critical
    | .unregister name => .unregister name
    | .run => .copy none
    | .probe kind => .probe kind
  step
    | .register name kinds critical, r, _ => some (.done, r.register name kinds critical)
    | .unregister name, r, _ => some (.done, r.unregister name)
    | .probe kind, r, _ => some (if r.runner then .look kind else .copy kind, r)
    | .look kind, r, a => some (if r.results.entries = [] ∨ a.stale = true then .copy kind else .aggregate kind, r)
    | .copy kind, r, _ => some (.checking kind r.copy, { r with passes := r.passes + 1 })
    | .checking kind pass, r, a =>
      if a.statuses.length = pass.regs.length then some (.write kind pass (pass.regs.zip a.statuses), r) else none
    | .write kind pass os, r, _ => some (.aggregate kind, r.write pass os)
    | .aggregate kind, r, _ => some (.answered (r.aggregate kind), r)
    | .answered _, _, _ => none
    | .done, _, _ => none

/-- a pass writes when no later one has and its checks are registered; readiness has no check newer than that pass -/
def Pc.Orderly : Pc → Prop
  | .write _ pass _ => r.written ≤ pass.start ∧ ∀ rg ∈ pass.regs, r.checks.lookup rg.name = some rg
  | .aggregate (some .readiness) => r.covered = r.registrations
  | _ => True

def Orderly (sys : Sys Registry Pc) : Act Call Answer → Prop
  | .spawn _ _ => True
  | .step i _ => ∀ t ∈ sys.pool i, t.Orderly sys.shared

/-! ## what a probe says -/

theorem le_worst {cs : List (Σ _ : String, Cached)} {e : Σ _ : String, Cached} (he : e ∈ cs) (w : Nat) :
    severity e.2.effective ≤ cs.foldl (fun w e => max w (severity e.2.effective)) w := by
  have hmono : ∀ (cs : List (Σ _ : String, Cached)) (w : Nat),
      w ≤ cs.foldl (fun w e => max w (severity e.2.effective)) w := by
    intro cs
    induction cs with
    | nil => exact fun w => le_rfl
    | cons e cs ih => exact fun w => (Nat.le_max_left ..).trans (ih _)
  induction cs generalizing w with
  | nil => cases he
  | cons e' cs ih =>
    rcases mem_cons.mp he with rfl | he
    · exact (Nat.le_max_right ..).trans (hmono cs _)
    · exact ih he _

theorem eq_up_of_severity {st : Status} (h : severity st = 0) : st = .up := by
  cases st with
  | up => rfl
  | _ => cases h

theorem effective_of_verdict {cs : List (Σ _ : String, Cached)} (h : verdict cs = .up) {e : Σ _ : String, Cached}
    (he : e ∈ cs) : e.2.effective = .up := by
  unfold verdict at h
  dsimp only at h
  split at h
  · cases h
  split at h
  · cases h
  split at h
  · cases h
  next hworst =>
  have hle := le_worst he 0
  have hsev : severity Status.unknown = 1 := rfl
  exact eq_up_of_severity (by omega)

theorem up_of_readiness {r : Registry} (h : (r.aggregate (some .readiness)).status = .up) {name : String} {c : Cached}
    (hc : r.results.lookup name = some c) : (Kind.startup ∈ c.reg.kinds → c.result = .up) ∧
      (c.reg.critical = true → Kind.readiness ∈ c.reg.kinds → c.result = .up) := by
  have hmem : ⟨name, c⟩ ∈ r.results.entries := mem_lookup_iff.mp hc
  unfold Registry.aggregate at h
  dsimp only at h
  split at h
  · cases h
  split at h
  · cases h
  next hgate =>
  have hverdict : verdict (r.listed (some .readiness)) = .up := h
  refine ⟨fun hk => ?_, fun hcrit hk => ?_⟩
  · have hstart : r.startupComplete = true := by
      by_contra hno
      refine hgate ⟨rfl, Bool.eq_false_iff.mpr hno, ?_⟩
      rw [hverdict]
      decide
    have hall := all_eq_true.mp hstart _ hmem
    by_contra hne
    rw [contains_iff_mem.mpr hk, decide_eq_true hne] at hall
    cases hall
  · have hin : (⟨name, c⟩ : Σ _ : String, Cached) ∈ r.listed (some .readiness) :=
      mem_filter.mpr ⟨hmem, contains_iff_mem.mpr hk⟩
    have heff := effective_of_verdict hverdict hin
    unfold Cached.effective at heff
    rw [if_neg fun hno => absurd (hno.1.symm.trans hcrit) Bool.noConfusion] at heff
    exact heff

theorem mem_components {r : Registry} {kind : Option Kind} {e : String × Status}
    (h : e ∈ (r.aggregate kind).components) : (r.results.lookup e.1).isSome := by
  have hcs : (r.aggregate kind).components = (r.listed kind).map fun e => (e.1, e.2.result) := by
    unfold Registry.aggregate
    dsimp only
    split
    · rfl
    · split <;> rfl
  rw [hcs] at h
  obtain ⟨e', he', rfl⟩ := mem_map.mp h
  have hlookup : r.results.lookup e'.1 = some e'.2 := mem_lookup_iff.mpr (mem_filter.mp he').1
  rw [hlookup]
  rfl

/-! ## what the cache keeps -/

structure Honest (r : Registry) : Prop where
  name : ∀ name rg, r.checks.lookup name = some rg → rg.name = name ∧ rg.serial < r.registrations
  listed : ∀ name c, r.results.lookup name = some c → (r.checks.lookup name).isSome
  last : ∀ rg s st, r.last rg = some (s, st) → s < r.written
  covered : r.covered ≤ r.registrations
  cached : ∀ name rg, r.checks.lookup name = some rg → rg.serial < r.covered →
    ∃ s st, r.results.lookup name = some ⟨st, rg⟩ ∧ r.last rg = some (s, st)

/-- what a pass knows: every check it could have copied and that is still there is one of its own -/
structure Knows (r : Registry) (pass : Pass) : Prop where
  seen : pass.seen ≤ r.registrations
  names : (pass.regs.map (·.name)).Nodup
  regs : ∀ name rg, r.checks.lookup name = some rg → rg.serial < pass.seen → rg ∈ pass.regs

/-- registrations are counted, and a check that is there was there or is new -/
structure Later (r r' : Registry) : Prop where
  registrations : r.registrations ≤ r'.registrations
  checks : ∀ name rg, r'.checks.lookup name = some rg → r.checks.lookup name = some rg ∨ r.registrations ≤ rg.serial

theorem later_same {r r' : Registry} (hn : r'.registrations = r.registrations) (hc : r'.checks = r.checks) :
    Later r r' :=
  ⟨hn.ge, fun _ _ h => .inl (hc ▸ h)⟩

theorem knows_later {r r' : Registry} {pass : Pass} (h : Knows r pass) (hl : Later r r') : Knows r' pass := by
  refine ⟨h.seen.trans hl.registrations, h.names, fun name rg hrg hseen => ?_⟩
  rcases hl.checks name rg hrg with hold | hnew
  · exact h.regs name rg hold hseen
  · exact absurd (lt_of_lt_of_le hseen h.seen) (not_lt.mpr hnew)

section
variable {r : Registry}

theorem lookup_register (critical : Bool) (name' : String) {rg : Registered}
    (h : (r.register name kinds critical).checks.lookup name' = some rg) :
    (name' = name ∧ rg.name = name ∧ rg.serial = r.registrations) ∨
      (name' ≠ name ∧ r.checks.lookup name' = some rg) := by
  unfold Registry.register at h
  by_cases hn : name' = name
  · subst hn
    rw [lookup_insert] at h
    cases h
    exact .inl ⟨rfl, rfl, rfl⟩
  · rw [lookup_insert_ne hn] at h
    exact .inr ⟨hn, h⟩

theorem later_register (critical : Bool) :
    Later r (r.register name kinds critical) := by
  refine ⟨Nat.le_succ _, fun name' rg h => ?_⟩
  rcases lookup_register name kinds critical name' h with ⟨-, -, hs⟩ | ⟨-, hold⟩
  · exact .inr hs.ge
  · exact .inl hold

theorem honest_register (hr : Honest r) (name : String) (kinds : List Kind) (critical : Bool) :
    Honest (r.register name kinds critical) := by
  refine ⟨fun name' rg h => ?_, fun name' c h => ?_, hr.last, hr.covered.trans (Nat.le_succ _),
    fun name' rg h hcov => ?_⟩
  · rcases lookup_register name kinds critical name' h with ⟨rfl, hname, hs⟩ | ⟨-, hold⟩
    · exact ⟨hname, hs ▸ Nat.lt_succ_self _⟩
    · obtain ⟨hname, hs⟩ := hr.name name' rg hold
      exact ⟨hname, hs.trans (Nat.lt_succ_self _)⟩
  · have hold := hr.listed name' c h
    show ((r.checks.insert name _).lookup name').isSome
    by_cases hn : name' = name
    · rw [hn, lookup_insert]
      rfl
    · rw [lookup_insert_ne hn]
      exact hold
  · rcases lookup_register name kinds critical name' h with ⟨-, -, hs⟩ | ⟨-, hold⟩
    · exact absurd (lt_of_lt_of_le hcov hr.covered) (by rw [hs]; exact lt_irrefl _)
    · exact hr.cached name' rg hold hcov

theorem lookup_unregister (name name' : String) :
    (r.unregister name).checks.lookup name' = (if name' = name then none else r.checks.lookup name') ∧
      (r.unregister name).results.lookup name' = if name' = name then none else r.results.lookup name' := by
  unfold Registry.unregister
  by_cases hn : name' = name
  · rw [hn, if_pos rfl, if_pos rfl, lookup_erase, lookup_erase]
    exact ⟨rfl, rfl⟩
  · rw [if_neg hn, if_neg hn, lookup_erase_ne hn, lookup_erase_ne hn]
    exact ⟨rfl, rfl⟩

theorem later_unregister : Later r (r.unregister name) := by
  refine ⟨le_rfl, fun name' rg h => .inl ?_⟩
  rw [(lookup_unregister name name').1] at h
  split at h
  · cases h
  · exact h

theorem honest_unregister (hr : Honest r) (name : String) : Honest (r.unregister name) := by
  refine ⟨fun name' rg h => ?_, fun name' c h => ?_, hr.last, hr.covered, fun name' rg h hcov => ?_⟩
  · rw [(lookup_unregister name name').1] at h
    split at h
    · cases h
    · exact hr.name name' rg h
  · rw [(lookup_unregister name name').2] at h
    rw [(lookup_unregister name name').1]
    split at h
    · cases h
    next hn =>
    rw [if_neg hn]
    exact hr.listed name' c h
  · rw [(lookup_unregister name name').1] at h
    split at h
    · cases h
    next hn =>
    rw [(lookup_unregister name name').2, if_neg hn]
    exact hr.cached name' rg h hcov

theorem knows_copy (hr : Honest r) : Knows r r.copy := by
  refine ⟨le_rfl, ?_, fun name rg h _ => ?_⟩
  · have hnames : (r.checks.entries.map (·.2)).map (·.name) = r.checks.entries.map (·.1) := by
      rw [map_map]
      refine map_congr_left fun e he => ?_
      exact (hr.name e.1 e.2 (mem_lookup_iff.mpr he)).1
    show ((r.checks.entries.map (·.2)).map (·.name)).Nodup
    rw [hnames]
    exact r.checks.nodupKeys
  · exact mem_map.mpr ⟨⟨name, rg⟩, mem_lookup_iff.mp h, rfl⟩

section
variable {pass : Pass} {os : Outcomes} (hos : os.map (·.1) = pass.regs) (hk : Knows r pass)
include hos hk

theorem nodupKeys_entries : os.entries.NodupKeys := by
  have hkeys : os.entries.keys = pass.regs.map (·.name) := by
    rw [← hos, map_map]
    exact map_map
  unfold List.NodupKeys
  rw [hkeys]
  exact hk.names

theorem lookup_write {rg : Registered} (hrg : rg ∈ pass.regs) :
    ∃ st, (r.write pass os).results.lookup rg.name = some ⟨st, rg⟩ ∧ os.find? (fun o => o.1 = rg) = some (rg, st) := by
  rw [← hos] at hrg
  obtain ⟨o, ho, rfl⟩ := mem_map.mp hrg
  have hentry : (⟨o.1.name, ⟨o.2, o.1⟩⟩ : Σ _ : String, Cached) ∈ os.entries := mem_map.mpr ⟨o, ho, rfl⟩
  refine ⟨o.2, ?_, ?_⟩
  · show (Table.overwrite r.results os.entries).lookup o.1.name = _
    rw [Table.lookup_overwrite _ (nodupKeys_entries hos hk), (mem_dlookup_iff (nodupKeys_entries hos hk)).mpr hentry]
    rfl
  · have hsome : (os.find? fun o' => o'.1 = o.1).isSome := find?_isSome.mpr ⟨o, ho, decide_eq_true rfl⟩
    obtain ⟨o', ho'⟩ := Option.isSome_iff_exists.mp hsome
    have hfst : o'.1 = o.1 := by simpa using find?_some ho'
    have hnames : (os.map fun o => o.1.name).Nodup := by
      have hmap : (os.map fun o => o.1.name) = pass.regs.map (·.name) := by
        rw [← hos, map_map]
        rfl
      rw [hmap]
      exact hk.names
    rw [ho', inj_on_of_nodup_map hnames (mem_of_find?_eq_some ho') ho (by rw [hfst])]

theorem lookup_write_cases {name : String} {c : Cached} (h : (r.write pass os).results.lookup name = some c) :
    (∃ rg ∈ pass.regs, rg.name = name) ∨ r.results.lookup name = some c := by
  have h' : (Table.overwrite r.results os.entries).lookup name = some c := h
  rw [Table.lookup_overwrite _ (nodupKeys_entries hos hk)] at h'
  cases hd : os.entries.dlookup name with
  | none =>
    rw [hd] at h'
    exact .inr h'
  | some c' =>
    left
    obtain ⟨o, ho, heq⟩ := mem_map.mp (of_mem_dlookup hd)
    cases heq
    refine ⟨o.1, ?_, rfl⟩
    rw [← hos]
    exact mem_map.mpr ⟨o, ho, rfl⟩

/-- **a pass that writes in order keeps the cache honest** -/
theorem honest_write (hr : Honest r) (horder : r.written ≤ pass.start)
    (hthere : ∀ rg ∈ pass.regs, r.checks.lookup rg.name = some rg) : Honest (r.write pass os) := by
  have hcov : (r.write pass os).covered = pass.seen := if_pos horder
  refine ⟨hr.name, fun name c h => ?_, fun rg s st h => ?_, hcov ▸ hk.seen, fun name rg h hseen => ?_⟩
  · rcases lookup_write_cases hos hk h with ⟨rg, hrg, rfl⟩ | hold
    · show (r.checks.lookup rg.name).isSome
      rw [hthere rg hrg]
      rfl
    · exact hr.listed name c hold
  · have hle : r.written ≤ max r.written (pass.start + 1) := Nat.le_max_left ..
    have hstart : pass.start < max r.written (pass.start + 1) := Nat.le_max_right ..
    have h' : os.note pass.start r.last rg = some (s, st) := h
    unfold Outcomes.note at h'
    split at h'
    · exact (hr.last rg s st h').trans_le hle
    split at h'
    · exact (hr.last rg s st h').trans_le hle
    · cases h'
      exact hstart
  · rw [hcov] at hseen
    have hrg : rg ∈ pass.regs := hk.regs name rg h hseen
    obtain ⟨st, hres, hfind⟩ := lookup_write hos hk hrg
    have hname : rg.name = name := (hr.name name rg h).1
    refine ⟨pass.start, st, hname ▸ hres, ?_⟩
    show os.note pass.start r.last rg = some (pass.start, st)
    unfold Outcomes.note
    rw [hfind]
    refine if_neg fun hany => ?_
    cases hl : r.last rg with
    | none =>
      rw [hl] at hany
      cases hany
    | some l =>
      rw [hl] at hany
      -- an older pass was noted
      have hlt : pass.start < l.1 := of_decide_eq_true hany
      have hwritten := hr.last rg l.1 l.2 hl
      omega

end

end

/-! ## every run -/

def Pc.Knows : Pc → Prop
  | .checking _ pass => Health.Knows r pass
  | .write _ pass os => Health.Knows r pass ∧ os.map (·.1) = pass.regs
  | _ => True

theorem Pc.knows_later {r r' : Registry} {t : Pc} (h : t.Knows r) (hl : Later r r') : t.Knows r' := by
  cases t with
  | checking kind pass => exact Health.knows_later h hl
  | write kind pass os => exact ⟨Health.knows_later h.1 hl, h.2⟩
  | _ => trivial

theorem honest_step {r r' : Registry} {t t' : Pc} {a : Answer} (hr : Honest r) (hk : t.Knows r) (ho : t.Orderly r)
    (h : health.step t r a = some (t', r')) : Honest r' ∧ t'.Knows r' ∧ Later r r' := by
  cases t with
  | register name kinds critical =>
    cases h
    exact ⟨honest_register hr name kinds critical, trivial, later_register name kinds critical⟩
  | unregister name =>
    cases h
    exact ⟨honest_unregister hr name, trivial, later_unregister name⟩
  | probe kind | look kind =>
    cases h
    refine ⟨hr, ?_, later_same rfl rfl⟩
    split <;> trivial
  | copy kind =>
    cases h
    have hl : Later r { r with passes := r.passes + 1 } := later_same rfl rfl
    exact ⟨⟨hr.name, hr.listed, hr.last, hr.covered, hr.cached⟩, Health.knows_later (knows_copy hr) hl, hl⟩
  | checking kind pass =>
    dsimp only [health] at h
    split at h
    · next hlen =>
      cases h
      exact ⟨hr, ⟨hk, map_fst_zip hlen.ge⟩, later_same rfl rfl⟩
    · cases h
  | write kind pass os =>
    cases h
    exact ⟨honest_write hk.2 hk.1 hr ho.1 ho.2, trivial, later_same rfl rfl⟩
  | aggregate kind =>
    cases h
    exact ⟨hr, trivial, later_same rfl rfl⟩
  | answered _ | done => cases h

abbrev HealthInv : Sys Registry Pc → Prop := Inv Honest (fun r t => t.Knows r) fun _ _ _ => True

theorem healthInv_next (sys : Sys Registry Pc) (l : Act Call Answer) (sys' : Sys Registry Pc)
    (hi : HealthInv sys) (ho : Orderly sys l) (hn : health.next sys l = some sys') : HealthInv sys' := by
  refine inv_next (C := Orderly) ⟨fun s i c _ _ => ⟨?_, fun _ _ _ => ⟨trivial, trivial⟩⟩, ?_⟩ sys l sys' hi ho hn
  · cases c <;> trivial
  intro s i a t t' m hi ho ht hs
  obtain ⟨hm, hk, hl⟩ := honest_step hi.shared (hi.each i t ht) (ho t ht) hs
  exact keeps_each hm hk fun j u _ hu => Pc.knows_later (hi.each j u hu) hl

theorem healthInv_idle (runner : Bool) : HealthInv (idle { runner := runner }) :=
  inv_idle ⟨nofun, nofun, nofun, le_rfl, nofun⟩

/-- the snapshot lists registered checks only, and one that is up is right about every check that gates it -/
def Registry.Right : Prop :=
  (∀ e ∈ (r.aggregate kind).components, (r.checks.lookup e.1).isSome) ∧
  (kind = some .readiness → (r.aggregate kind).status = .up → ∀ name rg, r.checks.lookup name = some rg →
    Kind.startup ∈ rg.kinds ∨ rg.critical = true ∧ Kind.readiness ∈ rg.kinds → ∃ s, r.last rg = some (s, .up))

theorem right_aggregate {r : Registry} {kind : Option Kind} (hr : Honest r) (ho : (Pc.aggregate kind).Orderly r) :
    r.Right kind := by
  refine ⟨fun e he => ?_, ?_⟩
  · obtain ⟨c, hc⟩ := Option.isSome_iff_exists.mp (mem_components he)
    exact hr.listed e.1 c hc
  rintro rfl hup name rg hrg hgates
  have hserial : rg.serial < r.covered := by
    rw [show r.covered = r.registrations from ho]
    exact (hr.name name rg hrg).2
  obtain ⟨s, st, hcached, hlast⟩ := hr.cached name rg hrg hserial
  obtain ⟨hstart, hready⟩ := up_of_readiness hup hcached
  have hst : st = .up := by
    rcases hgates with hk | ⟨hcrit, hk⟩
    · exact hstart hk
    · exact hready hcrit hk
  exact ⟨s, hst ▸ hlast⟩

/-- **Readiness is honest** in every orderly run. -/
theorem readiness_honest (runner : Bool) {acts : List (Act Call Answer)}
    (ho : Along health.next Orderly (idle { runner := runner }) acts) :
    Along health.next (fun sys l => ∀ i a kind, l = .step i a → sys.pool i = some (.aggregate kind) →
      sys.shared.Right kind) (idle { runner := runner }) acts := by
  have hinv : Along health.next (fun sys _ => HealthInv sys) (idle { runner := runner }) acts :=
    along_inv healthInv_next (healthInv_idle runner) ho
  refine along_mono (fun sys l h => ?_) _ _ (along_and hinv ho)
  rintro i a kind rfl ht
  exact right_aggregate h.1.shared (h.2 _ ht)

instance (r : Registry) (t : Pc) : Decidable (t.Orderly r) := by
  unfold Pc.Orderly
  split <;> infer_instance

instance (sys : Sys Registry Pc) (l : Act Call Answer) : Decidable (Orderly sys l) := by
  unfold Orderly
  split <;> infer_instance

def critical : Call := .register name [.readiness] true

def primedRun : List (Act Call Answer) :=
  [.spawn 0 (critical "db"), .step 0 {}, .spawn 1 (critical "queue"), .step 1 {}, .spawn 2 .run, .step 2 {},
   .step 2 { statuses := [.up, .up] }, .step 2 {}, .spawn 3 (.probe (some .readiness)), .step 3 {}, .step 3 {},
     .step 3 {}]

theorem readiness_honest_primedRun : (∃ sys ∈ run health.next (idle { runner := true }) primedRun,
      sys.pool 3 = some (.answered ⟨.up, [("db", .up), ("queue", .up)]⟩)) ∧
    Along health.next (fun sys l => ∀ i a kind, l = .step i a → sys.pool i = some (.aggregate kind) →
      sys.shared.Right kind) (idle { runner := true }) primedRun :=
  ⟨by decide +kernel, readiness_honest true (by decide +kernel)⟩

/-- a check is registered after the pass, and the probe is answered from the cache -/
def newCheckRun : List (Act Call Answer) :=
  [.spawn 0 (critical "db"), .step 0 {}, .spawn 1 .run, .step 1 {}, .step 1 { statuses := [.up] }, .step 1 {},
   .spawn 2 (critical "queue"), .step 2 {}, .spawn 3 (.probe (some .readiness)), .step 3 {}, .step 3 {}, .step 3 {}]

/-- a slow pass that found the check up writes over a later one that found it down -/
def slowPassRun : List (Act Call Answer) :=
  [.spawn 0 (critical "db"), .step 0 {}, .spawn 1 .run, .step 1 {}, .spawn 2 .run, .step 2 {},
   .step 2 { statuses := [.down] }, .step 2 {}, .step 1 { statuses := [.up] }, .step 1 {},
   .spawn 3 (.probe (some .readiness)), .step 3 {}, .step 3 {}, .step 3 {}]

def removedRun : List (Act Call Answer) :=
  [.spawn 0 (critical "db"), .step 0 {}, .spawn 1 .run, .step 1 {}, .spawn 2 (.unregister "db"), .step 2 {},
   .step 1 { statuses := [.up] }, .step 1 {}, .spawn 3 (.probe (some .readiness)), .step 3 {}, .step 3 {}, .step 3 {}]

/-- readiness is up with a critical check never run, one found down, and one removed before the probe -/
theorem readiness_dishonest : (∃ sys ∈ run health.next (idle { runner := true }) newCheckRun,
      sys.pool 3 = some (.answered ⟨.up, [("db", .up)]⟩) ∧
      ∃ rg ∈ sys.shared.checks.lookup "queue", rg.critical = true ∧ Kind.readiness ∈ rg.kinds ∧
        sys.shared.last rg = none) ∧
    (∃ sys ∈ run health.next (idle { runner := true }) slowPassRun,
      sys.pool 3 = some (.answered ⟨.up, [("db", .up)]⟩) ∧
      ∃ rg ∈ sys.shared.checks.lookup "db", sys.shared.last rg = some (1, .down)) ∧
    ∃ sys ∈ run health.next (idle { runner := true }) removedRun,
      sys.pool 3 = some (.answered ⟨.up, [("db", .up)]⟩) ∧ sys.shared.checks.lookup "db" = none := by
  decide +kernel

end Health
