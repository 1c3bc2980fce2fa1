import Cpip.Collab.Race
import Cpip.Collab.Retention

/-!
# Collaboration engine: concurrent openings of one document

* `lone_run`  along a lone run every call that returns gives the live document;
* `doomed_run`  once two calls have missed the registry, one of them fails;
* `open_iff`  **for complete runs, every call gives the same live document exactly when the run is lone.**
-/

set_option linter.unusedSectionVars false

namespace Collab

open Pool Lts List Option
open Function (update update_of_ne update_self)

section
variable {Op : Type} [DecidableEq Op]

/-- between a missed lookup and the registration -/
def Pc.missed {V : Type} : Pc V Op → Bool
  | .openMetadata _ _ => true
  | .openBase _ _ => true
  | .openTail _ _ _ => true
  | .openSave _ _ => true
  | .openRegister _ _ => true
  | _ => false

variable (E : Engine Op) (Z : Gzip) (cfg : Config) (d : String) (s : State Op)

/-- unknown to durable storage, or known with something to recover -/
def Openable : Prop :=
  s.repo.metadata d = none ∨ ∃ r, recoverDocument E Z s.repo d = .ok r

/-- the document is live, archived with content, or unknown -/
def Startable : Prop :=
  (∃ e, s.registry d = some e ∧ (s.docs e.doc).destroyed = false) ∨ s.registry d = none ∧ Openable E Z d s

def LiveDoc (h : Nat) : Prop :=
  ∃ e, s.registry d = some e ∧ e.doc = h ∧ (s.docs h).destroyed = false

def Opens : Act Call Ans → Prop
  | .spawn _ c => ∃ r f, c = .getOrCreate d r f
  | .step _ a => a = .ok

/-- a lookup misses only when no other call is between its own missed lookup and its
registration -/
def Lone (s : Sys (State Op) (Thread E.Vector Op)) : Act Call Ans → Prop
  | .spawn _ _ => True
  | .step i _ => ∀ t, s.pool i = some t →
    match t.pc with
    | .openGet _ _ => s.shared.registry d = none → ∀ j u, s.pool j = some u → u.pc.missed = false
    | _ => True

/-! ## lone runs -/

def OpenOk (t : Thread E.Vector Op) : Prop :=
  t.call.docID = d ∧
  match t.pc with
  | .openGet _ _ => True
  | .openMetadata _ _ => s.registry d = none ∧ Openable E Z d s
  | .openBase _ _ => s.registry d = none ∧ ∃ r, recoverDocument E Z s.repo d = .ok r
  | .openTail _ _ b => s.registry d = none ∧
      ∃ r, recoverTail E b.ops b.payloads b.version b.fromID (s.repo.getUpdates d b.version) = .ok r
  | .openSave _ _ => s.registry d = none
  | .openRegister e t => s.registry d = none ∧ e.id = d ∧ canTransition e.state t = true ∧
      (s.docs e.doc).destroyed = false
  | .openTransition h t => ∃ e, s.registry d = some e ∧ e.doc = h ∧
      canTransition e.state t = true ∧ (s.docs h).destroyed = false
  | .done r => ∃ h, r = .ok (some h) ∧ LiveDoc d s h
  | _ => False

/-- at most one call is opening the document -/
def OpenApart (t u : Thread E.Vector Op) : Prop :=
  (t.pc.missed = true → u.pc.missed = false) ∧
    ((∃ h x, t.pc = .openTransition h x) → ¬ ∃ h x, u.pc = .openTransition h x)

def Unreleased : Prop :=
  ∀ e, s.registry d = some e → (s.docs e.doc).destroyed = false

def OpenInv (s : Sys (State Op) (Thread E.Vector Op)) : Prop :=
  Inv (Unreleased d) (OpenOk E Z d) (fun _ => OpenApart E) s ∧
    (s.shared.registry d = none → (∀ i t, s.pool i = some t → t.pc.missed = false) → Openable E Z d s.shared)

variable {E Z cfg d} {s' : Sys (State Op) (Thread E.Vector Op)} {l : Act Call Ans}

section
variable {s : Sys (State Op) (Thread E.Vector Op)} {i : Nat} {c : Call}
  {t t' : Thread E.Vector Op} {m : State Op}

variable {u : Thread E.Vector Op}

theorem OpenOk.waiting {n : State Op} (h : OpenOk E Z d n u) (hreg : n.registry d = none) (hm : u.pc.missed = false) :
    OpenOk E Z d m u := by
  obtain ⟨c, pc⟩ := u
  refine ⟨h.1, ?_⟩
  have hpc := h.2
  cases pc with
  | openGet r f => trivial
  | openTransition h x =>
    obtain ⟨e, he, -⟩ := hpc
    rw [hreg] at he
    cases he
  | done r =>
    obtain ⟨h, -, e, he, -⟩ := hpc
    rw [hreg] at he
    cases he
  | openMetadata r f | openBase r f | openTail r f b | openSave r f | openRegister e x => cases hm
  | _ => exact hpc.elim

theorem openInv_step (hk : Keeps (Unreleased d) (OpenOk E Z d) (fun _ => OpenApart E) s i t' m)
    (h : t'.pc.missed = true ∨ m.registry d ≠ none) : OpenInv E Z d ⟨m, update s.pool i (some t')⟩ := by
  refine ⟨inv_step hk, fun hreg hno => ?_⟩
  rcases h with h | h
  · rw [hno i t' (update_self ..)] at h
    cases h
  · exact absurd hreg h

theorem openApart_free (hm : t'.pc.missed = false) (ht : ∀ h x, t'.pc ≠ .openTransition h x) :
    OpenApart E t' u ∧ OpenApart E u t' := by
  refine ⟨⟨fun h => ?_, fun ⟨h, x, e⟩ => absurd e (ht h x)⟩, ⟨fun _ => hm, fun _ ⟨h, x, e⟩ => absurd e (ht h x)⟩⟩
  rw [hm] at h
  cases h

theorem openApart_missed (hm : t'.pc.missed = true) (hu : u.pc.missed = false) :
    OpenApart E t' u ∧ OpenApart E u t' := by
  have ht : ∀ h x, t'.pc ≠ .openTransition h x := fun h x e => by rw [e] at hm; cases hm
  refine ⟨⟨fun _ => hu, fun ⟨h, x, e⟩ => absurd e (ht h x)⟩, ⟨fun h => ?_, fun _ ⟨h, x, e⟩ => absurd e (ht h x)⟩⟩
  rw [hu] at h
  cases h

theorem open_keeps_same (hi : OpenInv E Z d s) (hL : OpenOk E Z d s.shared t')
    (hap : ∀ j u, j ≠ i → s.pool j = some u → OpenApart E t' u ∧ OpenApart E u t') :
    Keeps (Unreleased d) (OpenOk E Z d) (fun _ => OpenApart E) s i t' s.shared where
  shared := hi.1.shared
  self := hL
  other j u _ hu := hi.1.each j u hu
  left j u hj hu := (hap j u hj hu).1
  right j u hj hu := (hap j u hj hu).2
  others j k u w _ _ hjk hu hw := hi.1.pair j k u w hjk hu hw

theorem open_keeps_missed (hi : OpenInv E Z d s) (ht : s.pool i = some t)
    (hm : t.pc.missed = true) (hreg : s.shared.registry d = none) (hG : Unreleased d m) (hL : OpenOk E Z d m t') :
    Keeps (Unreleased d) (OpenOk E Z d) (fun _ => OpenApart E) s i t' m := by
  have hfree : ∀ j u, j ≠ i → s.pool j = some u → u.pc.missed = false :=
    fun j u hj hu => (hi.1.pair i j t u (Ne.symm hj) ht hu).1 hm
  have hwait : ∀ j u, j ≠ i → s.pool j = some u → ∀ n, OpenOk E Z d n u :=
    fun j u hj hu n => (hi.1.each j u hu).waiting hreg (hfree j u hj hu)
  -- the others are at their lookup, so they are apart from everything
  have hget : ∀ j u, j ≠ i → s.pool j = some u → ∀ h x, u.pc ≠ .openTransition h x := by
    intro j u hj hu h x e
    have := (hi.1.each j u hu).2
    rw [e] at this
    obtain ⟨e', he', -⟩ := this
    rw [hreg] at he'
    cases he'
  have hap : ∀ j u, j ≠ i → s.pool j = some u → ∀ w, OpenApart E u w ∧ OpenApart E w u :=
    fun j u hj hu w => openApart_free (hfree j u hj hu) (hget j u hj hu)
  exact ⟨hG, hL, fun j u hj hu => hwait j u hj hu m, fun j u hj hu => (hap j u hj hu t').2,
    fun j u hj hu => (hap j u hj hu t').1, fun j k u w hj _ _ hu _ => (hap j u hj hu w).1⟩

theorem alloc_docs (n : State Op) (ops : Finset Op) : ((n.alloc ops).docs n.nextDoc).destroyed = false := by
  simp [State.alloc]

/-- **Every lone step keeps the invariant.** -/
theorem lone_step (hi : OpenInv E Z d s) (ho : Opens d l) (hl : Lone E d s l)
    (hn : (engine E Z cfg).next s l = some s') : OpenInv E Z d s' := by
  cases l with
  | spawn j c =>
    obtain ⟨r, f, rfl⟩ := ho
    obtain ⟨hnone, rfl⟩ := next_spawn hn
    refine ⟨inv_spawn hi.1 ⟨rfl, trivial⟩ fun k u _ => openApart_free rfl (fun _ _ h => by cases h),
      fun hreg hno => hi.2 hreg fun k u hu => ?_⟩
    have hk : k ≠ j := fun e => by rw [e, hnone] at hu; cases hu
    exact hno k u ((update_of_ne hk ..).trans hu)
  | step i a =>
    cases ho
    obtain ⟨⟨c, pc⟩, t', m, ht, hs, rfl⟩ := next_step hn
    obtain ⟨hdoc, hpc⟩ := hi.1.each i _ ht
    have hl := hl _ ht
    obtain ⟨pc', rfl, hnx⟩ := Thread.step_ok E Z cfg hs
    rw [show c.docID = d from hdoc] at hnx
    cases pc with
    | openGet r f =>
      simp only [Pc.next, some.injEq] at hnx
      cases he : s.shared.registry d with
      | some e =>
        simp only [he] at hnx
        cases hnx
        refine openInv_step (open_keeps_same hi ⟨hdoc, e.doc, rfl, e, he, rfl, hi.1.shared e he⟩
          fun j u _ _ => openApart_free rfl (fun _ _ h => by cases h)) (.inr (by rw [he]; intro h; cases h))
      | none =>
        simp only [he] at hnx
        cases hnx
        have hno := hl he
        exact openInv_step (open_keeps_same hi ⟨hdoc, he, hi.2 he hno⟩
          fun j u _ hu => openApart_missed rfl (hno j u hu)) (.inl rfl)
    | openMetadata r f =>
      obtain ⟨hreg, hop⟩ := hpc
      simp only [Pc.next, Repository.getMetadata, some.injEq] at hnx
      cases hm : s.shared.repo.metadata d with
      | some x =>
        simp only [hm] at hnx
        cases hnx
        have hrec := hop.resolve_left (by rw [hm]; intro h; cases h)
        exact openInv_step (open_keeps_missed hi ht rfl hreg hi.1.shared ⟨hdoc, hreg, hrec⟩) (.inl rfl)
      | none =>
        simp only [hm] at hnx
        cases hnx
        exact openInv_step (open_keeps_missed hi ht rfl hreg hi.1.shared ⟨hdoc, hreg⟩) (.inl rfl)
    | openBase r f =>
      obtain ⟨hreg, x, hrec⟩ := hpc
      simp only [Pc.next, some.injEq] at hnx
      unfold recoverDocument at hrec
      split at hrec
      · cases hrec
      rename_i b hb
      simp only [hb] at hnx
      cases hnx
      exact openInv_step (open_keeps_missed hi ht rfl hreg hi.1.shared ⟨hdoc, hreg, x, hrec⟩) (.inl rfl)
    | openTail r f b =>
      obtain ⟨hreg, x, hrec⟩ := hpc
      simp only [Pc.next, hrec, some.injEq] at hnx
      cases hnx
      refine openInv_step (open_keeps_missed hi ht rfl hreg (fun e he => ?_)
        ⟨hdoc, hreg, rfl, rfl, alloc_docs s.shared x.ops⟩) (.inl rfl)
      cases hreg.symm.trans he
    | openSave r f =>
      have hreg : s.shared.registry d = none := hpc
      cases hnx
      refine openInv_step (open_keeps_missed hi ht rfl hreg (fun e he => ?_)
        ⟨hdoc, hreg, rfl, rfl, alloc_docs _ ∅⟩) (.inl rfl)
      cases hreg.symm.trans he
    | openRegister e x =>
      obtain ⟨hreg, hid, hc, hdes⟩ := hpc
      simp only [Pc.next, Registry.register, hid, hreg, some.injEq] at hnx
      cases hnx
      have hself : update s.shared.registry d (some e) d = some e :=
        update_self ..
      refine openInv_step (open_keeps_missed hi ht rfl hreg (fun e' he' => ?_)
        ⟨hdoc, e, hself, rfl, hc, hdes⟩) (.inr fun h => by cases hself.symm.trans h)
      cases hself.symm.trans he'
      exact hdes
    | openTransition h x =>
      obtain ⟨e, he, rfl, hc, hdes⟩ := hpc
      simp only [Pc.next, Registry.transition_ok he hc, some.injEq] at hnx
      cases hnx
      have hself : update s.shared.registry d (some { e with state := x }) d
          = some { e with state := x } := update_self ..
      have hap : ∀ u : Thread E.Vector Op, OpenApart E ⟨c, .done (.ok (some e.doc))⟩ u ∧
          OpenApart E u ⟨c, .done (.ok (some e.doc))⟩ := fun u => openApart_free rfl (fun _ _ h => by cases h)
      refine openInv_step ⟨fun e' he' => ?_, ⟨hdoc, e.doc, rfl, _, hself, rfl, hdes⟩,
        fun j u hj hu => ?_, fun _ u _ _ => (hap u).1, fun _ u _ _ => (hap u).2,
        fun j k u w _ _ hjk hu hw => hi.1.pair j k u w hjk hu hw⟩
        (.inr fun h => by cases hself.symm.trans h)
      · cases hself.symm.trans he'
        exact hdes
      obtain ⟨cu, pu⟩ := u
      have hu' := hi.1.each j _ hu
      refine ⟨hu'.1, ?_⟩
      have hpu := hu'.2
      cases pu with
      | openGet r f => trivial
      | openTransition h' x' =>
        exact absurd ⟨h', x', rfl⟩ ((hi.1.pair i j _ _ (Ne.symm hj) ht hu).2 ⟨e.doc, x, rfl⟩)
      | done r =>
        obtain ⟨h', hr, e', he', hd', hde'⟩ := hpu
        cases he.symm.trans he'
        exact ⟨h', hr, _, hself, hd', hde'⟩
      | openMetadata r f | openBase r f | openTail r f b | openRegister e' x' =>
        cases he.symm.trans hpu.1
      | openSave r f => cases he.symm.trans hpu
      | _ => exact hpu.elim
    | done r => cases hnx
    | _ => exact hpc.elim

end

variable {as : List (Act Call Ans)} {s : Sys (State Op) (Thread E.Vector Op)}

theorem lone_run {s0 : State Op} (h0 : Startable E Z d s0)
    (ho : ∀ l ∈ as, Opens d l) (hl : Along (engine E Z cfg).next (Lone E d) (idle s0) as)
    (hr : run (engine E Z cfg).next (idle s0) as = some s) : OpenInv E Z d s := by
  have hstart : OpenInv E Z d (idle s0) := by
    refine ⟨inv_idle fun e he => ?_, fun hreg _ => ?_⟩
    · rcases h0 with ⟨e', he', hd⟩ | ⟨hn, -⟩
      · cases he.symm.trans he'
        exact hd
      · cases hn.symm.trans he
    · rcases h0 with ⟨e', he', -⟩ | ⟨-, hop⟩
      · cases he'.symm.trans hreg
      · exact hop
  generalize idle s0 = s1 at hstart hl hr
  induction as generalizing s1 with
  | nil =>
    cases hr
    exact hstart
  | cons l as ih =>
    obtain ⟨s2, hs, hr⟩ := run_cons_eq hr
    exact ih (fun l' hl' => ho l' (mem_cons_of_mem _ hl')) s2
      (lone_step hstart (ho l (mem_cons_self ..)) hl.1 hs) (hl.2 s2 hs) hr

/-! ## two calls that both miss -/

def Opening (d : String) (t : Thread E.Vector Op) : Prop :=
  t.call.docID = d ∧
  match t.pc with
  | .openGet _ _ => True
  | .openTransition _ _ => True
  | .done _ => True
  | .openRegister e _ => e.id = d
  | pc => pc.missed = true

/-- some call has failed or is bound to fail -/
def Doomed (d : String) (s : Sys (State Op) (Thread E.Vector Op)) : Prop :=
  (∃ i j t u, i ≠ j ∧ s.pool i = some t ∧ s.pool j = some u ∧ t.pc.missed = true ∧ u.pc.missed = true) ∨
  (∃ i t, s.pool i = some t ∧ t.pc.missed = true ∧ s.shared.registry d ≠ none) ∨
  ∃ i t err, s.pool i = some t ∧ t.pc = .done (.error err)

theorem opening_next {t : Thread E.Vector Op} {m n : State Op} {pc' : Pc E.Vector Op}
    (h : Opening d t) (hn : t.pc.next E Z cfg d m = some (pc', n)) :
    Opening d ⟨t.call, pc'⟩ ∧ (m.registry d ≠ none → n.registry d ≠ none) ∧
      (t.pc.missed = true → pc'.missed = true ∨ (∃ err, pc' = .done (.error err)) ∨
          m.registry d = none ∧ n.registry d ≠ none) := by
  obtain ⟨c, pc⟩ := t
  obtain ⟨hdoc, hpc⟩ := h
  cases pc with
  | openGet r f =>
    simp only [Pc.next, some.injEq] at hn
    split at hn <;> cases hn
    · exact ⟨⟨hdoc, trivial⟩, id, (fun h => by cases h)⟩
    · exact ⟨⟨hdoc, rfl⟩, id, (fun h => by cases h)⟩
  | openMetadata r f =>
    simp only [Pc.next, some.injEq] at hn
    split at hn <;> cases hn
    · exact ⟨⟨hdoc, rfl⟩, id, fun _ => .inl rfl⟩
    · exact ⟨⟨hdoc, rfl⟩, id, fun _ => .inl rfl⟩
  | openBase r f | openTail r f b =>
    simp only [Pc.next, some.injEq] at hn
    split at hn <;> cases hn
    · exact ⟨⟨hdoc, trivial⟩, id, fun _ => .inr (.inl ⟨_, rfl⟩)⟩
    · exact ⟨⟨hdoc, rfl⟩, id, fun _ => .inl rfl⟩
  | openSave r f =>
    cases hn
    exact ⟨⟨hdoc, rfl⟩, id, fun _ => .inl rfl⟩
  | openRegister e x =>
    have hid : e.id = d := hpc
    simp only [Pc.next, Registry.register, hid, some.injEq] at hn
    cases hr : m.registry d with
    | some e' =>
      simp only [hr] at hn
      cases hn
      exact ⟨⟨hdoc, trivial⟩, fun _ h => (by cases hr.symm.trans h), fun _ => .inr (.inl ⟨_, rfl⟩)⟩
    | none =>
      simp only [hr] at hn
      cases hn
      have hself : update m.registry d (some e) d ≠ none := by simp
      exact ⟨⟨hdoc, trivial⟩, fun h => absurd rfl h, fun _ => .inr (.inr ⟨rfl, hself⟩)⟩
  | openTransition h x =>
    simp only [Pc.next, some.injEq] at hn
    split at hn <;> cases hn
    · exact ⟨⟨hdoc, trivial⟩, id, (fun h => by cases h)⟩
    rename_i reg hreg
    obtain ⟨e, he, -, rfl⟩ := Registry.transition_eq hreg
    exact ⟨⟨hdoc, trivial⟩, fun _ => by simp, (fun h => by cases h)⟩
  | done r => cases hn
  | _ => cases hpc

def AllOpening (d : String) (s : Sys (State Op) (Thread E.Vector Op)) : Prop :=
  ∀ i t, s.pool i = some t → Opening d t

theorem opens_cases (ha : AllOpening d s) (ho : Opens d l)
    (hn : (engine E Z cfg).next s l = some s') : (∃ i c r f, l = .spawn i c ∧ c.docID = d ∧ s.pool i = none ∧
      s' = ⟨s.shared, update s.pool i (some ⟨c, .openGet r f⟩)⟩) ∨
    ∃ i t pc' m, l = .step i .ok ∧ s.pool i = some t ∧ t.pc.next E Z cfg d s.shared = some (pc', m) ∧
      s' = ⟨m, update s.pool i (some ⟨t.call, pc'⟩)⟩ := by
  cases l with
  | spawn i c =>
    obtain ⟨r, f, rfl⟩ := ho
    obtain ⟨hnone, rfl⟩ := next_spawn hn
    exact .inl ⟨i, _, r, f, rfl, rfl, hnone, rfl⟩
  | step i a =>
    cases ho
    obtain ⟨t, t', m, ht, hs, rfl⟩ := next_step hn
    obtain ⟨pc', rfl, hnx⟩ := Thread.step_ok E Z cfg hs
    rw [(ha i t ht).1] at hnx
    exact .inr ⟨i, t, pc', m, rfl, ht, hnx, rfl⟩

theorem allOpening_step (ha : AllOpening d s) (ho : Opens d l)
    (hn : (engine E Z cfg).next s l = some s') : AllOpening d s' := by
  have hupd : ∀ i t m, Opening d t →
      AllOpening d ⟨m, update s.pool i (some t)⟩ := by
    intro i t m ht j u hu
    by_cases hj : j = i
    · subst hj
      cases (update_self ..).symm.trans hu
      exact ht
    · exact ha j u ((update_of_ne hj ..).symm.trans hu)
  rcases opens_cases ha ho hn with ⟨i, c, r, f, -, hc, -, rfl⟩ | ⟨i, t, pc', m, -, ht, hnx, rfl⟩
  · exact hupd i _ _ ⟨hc, trivial⟩
  · exact hupd i _ _ (opening_next (ha i t ht) hnx).1

/-- **Once doomed, always doomed.** -/
theorem doomed_step (ha : AllOpening d s) (hd : Doomed d s) (ho : Opens d l)
    (hn : (engine E Z cfg).next s l = some s') : Doomed d s' := by
  rcases opens_cases ha ho hn with ⟨i, c, r, f, -, -, hnone, rfl⟩ | ⟨i, t, pc', m, -, ht, hnx, rfl⟩
  · have hkeep : ∀ j u, s.pool j = some u →
        update s.pool i (some ⟨c, .openGet r f⟩) j = some u := by
      intro j u hu
      have hj : j ≠ i := fun e => by rw [e, hnone] at hu; cases hu
      exact (update_of_ne hj ..).trans hu
    rcases hd with ⟨a, b, t, u, hab, hta, hub, h1, h2⟩ | ⟨a, t, hta, h1, h2⟩ | ⟨a, t, err, hta, h1⟩
    · exact .inl ⟨a, b, t, u, hab, hkeep a t hta, hkeep b u hub, h1, h2⟩
    · exact .inr (.inl ⟨a, t, hkeep a t hta, h1, h2⟩)
    · exact .inr (.inr ⟨a, t, err, hkeep a t hta, h1⟩)
  · obtain ⟨-, hmono, hmiss⟩ := opening_next (ha i t ht) hnx
    have hself : update s.pool i (some ⟨t.call, pc'⟩) i = some ⟨t.call, pc'⟩ :=
      update_self ..
    have hkeep : ∀ j u, j ≠ i → s.pool j = some u → update s.pool i (some ⟨t.call, pc'⟩) j = some u :=
      fun j u hj hu => (update_of_ne hj ..).trans hu
    -- thread `i` moves while another one is past a missed lookup
    have hpair : ∀ b u, b ≠ i → s.pool b = some u → u.pc.missed = true → t.pc.missed = true →
        Doomed d ⟨m, update s.pool i (some ⟨t.call, pc'⟩)⟩ := by
      intro b u hb hu hum htm
      rcases hmiss htm with h | ⟨err, h⟩ | ⟨-, h⟩
      · exact .inl ⟨i, b, _, u, Ne.symm hb, hself, hkeep b u hb hu, h, hum⟩
      · exact .inr (.inr ⟨i, _, err, hself, h⟩)
      · exact .inr (.inl ⟨b, u, hkeep b u hb hu, hum, h⟩)
    rcases hd with ⟨a, b, ta, u, hab, hta, hub, h1, h2⟩ | ⟨a, ta, hta, h1, h2⟩ | ⟨a, ta, err, hta, h1⟩
    · by_cases hai : a = i
      · subst hai
        cases ht.symm.trans hta
        exact hpair b u (Ne.symm hab) hub h2 h1
      · by_cases hbi : b = i
        · subst hbi
          cases ht.symm.trans hub
          exact hpair a ta hab hta h1 h2
        · exact .inl ⟨a, b, ta, u, hab, hkeep a ta hai hta, hkeep b u hbi hub, h1, h2⟩
    · by_cases hai : a = i
      · subst hai
        cases ht.symm.trans hta
        rcases hmiss h1 with h | ⟨err, h⟩ | ⟨h, -⟩
        · exact .inr (.inl ⟨a, _, hself, h, hmono h2⟩)
        · exact .inr (.inr ⟨a, _, err, hself, h⟩)
        · exact absurd h h2
      · exact .inr (.inl ⟨a, ta, hkeep a ta hai hta, h1, hmono h2⟩)
    · by_cases hai : a = i
      · subst hai
        cases ht.symm.trans hta
        rw [h1] at hnx
        cases hnx
      · exact .inr (.inr ⟨a, ta, err, hkeep a ta hai hta, h1⟩)

theorem doomed_run (ha : AllOpening d s) (hd : Doomed d s)
    (ho : ∀ l ∈ as, Opens d l) (hr : run (engine E Z cfg).next s as = some s') : Doomed d s' := by
  induction as generalizing s with
  | nil =>
    cases hr
    exact hd
  | cons l as ih =>
    obtain ⟨s2, hs, hr⟩ := run_cons_eq hr
    have hl := ho l (mem_cons_self ..)
    exact ih (allOpening_step ha hl hs) (doomed_step ha hd hl hs) (fun l' hl' => ho l' (mem_cons_of_mem _ hl')) hr

def Complete (s : Sys (State Op) (Thread E.Vector Op)) : Prop :=
  ∀ i t, s.pool i = some t → ∃ r, t.pc = .done r

theorem lone_of_returned (ha : AllOpening d s) (ho : ∀ l ∈ as, Opens d l)
    (hr : run (engine E Z cfg).next s as = some s') (hc : Complete s')
    (hok : ∀ i t err, s'.pool i = some t → t.pc ≠ .done (.error err)) :
    Along (engine E Z cfg).next (Lone E d) s as := by
  have hnot : ¬ Doomed d s' := by
    rintro (⟨i, j, t, u, -, ht, -, hm, -⟩ | ⟨i, t, ht, hm, -⟩ | ⟨i, t, err, ht, he⟩)
    · obtain ⟨r, hp⟩ := hc i t ht
      rw [hp] at hm
      cases hm
    · obtain ⟨r, hp⟩ := hc i t ht
      rw [hp] at hm
      cases hm
    · exact hok i t err ht he
  induction as generalizing s with
  | nil => trivial
  | cons l as ih =>
    have hl := ho l (mem_cons_self ..)
    have ho' : ∀ l' ∈ as, Opens d l' := fun l' hl' => ho l' (mem_cons_of_mem _ hl')
    obtain ⟨s2, hs, hr'⟩ := run_cons_eq hr
    refine along_cons ?_ hs (ih (allOpening_step ha hl hs) ho' hr')
    cases l with
    | spawn i c => trivial
    | step i a =>
      intro t ht
      split
      · rename_i r f hpc
        intro hreg j u hu
        by_contra hm
        have hm : u.pc.missed = true := by simpa using hm
        have hj : j ≠ i := fun e => by
          rw [e, ht] at hu
          cases hu
          rw [hpc] at hm
          cases hm
        refine hnot (doomed_run (allOpening_step ha hl hs) ?_ ho' hr')
        rcases opens_cases ha hl hs with ⟨_, _, _, _, h, -⟩ | ⟨k, t', pc', m, h, ht', hnx, rfl⟩
        · cases h
        cases h
        cases ht.symm.trans ht'
        rw [hpc] at hnx
        simp only [Pc.next, hreg, some.injEq] at hnx
        cases hnx
        exact .inl ⟨i, j, _, u, Ne.symm hj, update_self .., (update_of_ne hj ..).trans hu, rfl, hm⟩
      · trivial

end

/-- **Concurrent openings** all return the live document exactly when no two missed lookups overlap. -/
theorem open_iff {Op : Type} [DecidableEq Op] (E : Engine Op) (Z : Gzip) (cfg : Config)
    (d : String) (s0 : State Op) (as : List (Act Call Ans))
    (s : Sys (State Op) (Thread E.Vector Op)) (h0 : Startable E Z d s0) (ho : ∀ l ∈ as, Opens d l)
    (hr : run (engine E Z cfg).next (idle s0) as = some s) (hc : Complete s) :
    (∀ i t, s.pool i = some t → ∃ h, t.pc = .done (.ok (some h)) ∧ LiveDoc d s.shared h) ↔
      Along (engine E Z cfg).next (Lone E d) (idle s0) as := by
  constructor
  · intro hall
    refine lone_of_returned (fun i t ht => by cases ht) ho hr hc fun i t err ht he => ?_
    obtain ⟨h, hp, -⟩ := hall i t ht
    rw [hp] at he
    cases he
  · intro hl i t ht
    obtain ⟨r, hp⟩ := hc i t ht
    have hL := ((lone_run h0 ho hl hr).1.each i t ht).2
    rw [hp] at hL
    obtain ⟨h, rfl, hlive⟩ := hL
    exact ⟨h, hp, hlive⟩

/-! ## concrete runs -/

def openings (as : List (Act Call Ans)) : Option (Sys (State (Fin 4)) (Thread Engine.bits.Vector (Fin 4))) :=
  run (engine Engine.bits Gzip.stored Config.default).next (idle (State.init (Fin 4))) as

def outcome (s : Sys (State (Fin 4)) (Thread Engine.bits.Vector (Fin 4))) (i : Nat) :
    Option (Option Err × Option Nat) :=
  match s.pool i with
  | some ⟨_, .done (.ok h)⟩ => some (none, h)
  | some ⟨_, .done (.error err)⟩ => some (some err, none)
  | _ => none

/-- the second call looks the document up when the first one has registered it and has not moved it on yet -/
def twoOpenings : List (Act Call Ans) :=
  [.spawn 0 (.getOrCreate "d" "room" "file"), .spawn 1 (.getOrCreate "d" "room" "file"),
    .step 0 .ok, .step 0 .ok, .step 0 .ok, .step 0 .ok, .step 1 .ok, .step 0 .ok]

def looksUp {V : Type} : Pc V (Fin 4) → Bool
  | .openGet _ _ => true
  | _ => false

theorem open_iff_twoOpenings : ∃ s ∈ openings twoOpenings,
    (outcome s 0 = some (none, some 0) ∧ outcome s 1 = some (none, some 0)) ∧
    ∀ i t, s.pool i = some t → ∃ h, t.pc = .done (.ok (some h)) ∧ LiveDoc "d" s.shared h := by
  refine exists_run_and (by decide +kernel) fun s hr _ => ?_
  refine (open_iff Engine.bits Gzip.stored Config.default "d" (State.init (Fin 4)) twoOpenings s (.inr ⟨rfl, .inl rfl⟩)
    (by simp [twoOpenings, Opens]) hr fun i t ht => ?_).mpr ?_
  · have hi := run_below (n := 2) (by decide) hr ht
    cases hr
    obtain rfl | rfl : i = 0 ∨ i = 1 := by omega
    · cases ht
      exact ⟨_, rfl⟩
    · cases ht
      exact ⟨_, rfl⟩
  · refine along_pairs (n := 2)
      (D := fun s _ t _ u => looksUp t.pc = true → (s.registry "d").isNone = true → u.pc.missed = false)
      (fun _ _ _ => trivial) (fun s i a h t ht => ?_) (by decide) (by decide +kernel)
    split
    · next hpc => exact fun hnone j u hu => h t j u ht hu (by rw [hpc]; rfl) (by rw [hnone]; rfl)
    · trivial

/-- two calls look the new document up; the second finds the metadata of the first and nothing to recover -/
def halfCreatedRun : List (Act Call Ans) :=
  [.spawn 0 (.getOrCreate "d" "room" "file"), .spawn 1 (.getOrCreate "d" "room" "file"),
    .step 0 .ok, .step 1 .ok, .step 0 .ok, .step 0 .ok, .step 1 .ok, .step 1 .ok, .step 1 .ok,
    .step 0 .ok, .step 0 .ok]

/-- two calls both find the document unknown; the second registration is refused -/
def conflictRun : List (Act Call Ans) :=
  [.spawn 0 (.getOrCreate "d" "room" "file"), .spawn 1 (.getOrCreate "d" "room" "file"),
    .step 0 .ok, .step 1 .ok, .step 0 .ok, .step 1 .ok, .step 0 .ok, .step 1 .ok, .step 0 .ok,
    .step 0 .ok, .step 1 .ok]

theorem second_opening_fails : ((openings halfCreatedRun).map fun s => (outcome s 0, outcome s 1))
        = some (some (none, some 0), some (some .documentNotFound, none)) ∧
      ((openings conflictRun).map fun s => (outcome s 0, outcome s 1))
        = some (some (none, some 0), some (some .registryConflict, none)) :=
  ⟨by decide +kernel, by decide +kernel⟩

end Collab
