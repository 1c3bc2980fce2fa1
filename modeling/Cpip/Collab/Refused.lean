import Cpip.Collab.Steps

/-!
# Collaboration engine: an update that is refused

`ApplyIncrementalUpdate` merges the update into the live document and marks the entry before it writes the durable
log.

* `refused_unchanged`  **a refused update leaves the live document** exactly when the write does not fail.
-/

namespace Collab

open Engine Lts

structure Observed (Op : Type) where
  ops : Finset Op
  version : Nat
  editCount : Nat
  isDirty : Bool
  pendingUpdates : Nat
deriving DecidableEq

section
variable {Op : Type} [DecidableEq Op]

def observed (s : State Op) (d : String) : Option (Observed Op) :=
  (s.registry d).map fun e => ⟨s.ops e.doc, e.version, e.editCount, e.isDirty, e.persistence.pendingUpdates⟩

def Pc.writes {V : Type} : Pc V Op → Bool
  | .applySave _ _ => true
  | _ => false

def Pc.result {V : Type} : Pc V Op → Option (Except Err (Option Nat))
  | .done r => some r
  | _ => none

variable (E : Engine Op) (Z : Gzip) (cfg : Config)

def alone (x : Thread E.Vector Op × State Op) (a : Ans) : Option (Thread E.Vector Op × State Op) :=
  x.1.step E Z cfg x.2 a

/-- the call of `ApplyIncrementalUpdate` in a state -/
def applying (s : State Op) (d : String) (u : Bytes) : Thread E.Vector Op × State Op :=
  ((engine E Z cfg).start (.apply d u), s)

def Written (x : Thread E.Vector Op × State Op) (a : Ans) : Prop := x.1.pc.writes = true → a = .ok

instance (x : Thread E.Vector Op × State Op) (a : Ans) : Decidable (Written E x a) := by
  unfold Written
  infer_instance

/-- up to the merge the state is the one the call has found; after the mark the entry has a version more -/
def Phase {V : Type} (d : String) (s₀ s : State Op) : Pc V Op → Prop
  | .applyGet _ | .done (.error _) => s = s₀
  | .applySize _ _ | .applyDoc _ _ => s = s₀ ∧ (s₀.registry d).isSome
  | .applyMark _ _ => s.registry = s₀.registry ∧ (s₀.registry d).isSome
  | .applySave _ _ => ∃ e e', s₀.registry d = some e ∧ s.registry d = some e' ∧ e'.version = e.version + 1
  | .applyInfo _ | .done (.ok _) => True
  -- the flush after the write; its errors are logged and not returned
  | .savePlan k | .savePending k _ | .saveBase k _ | .saveEncode k _ _ _ _ | .saveVector k _ _ _ _ | .saveStore k _
  | .savePrune k _ | .saveLog k _ | .saveRecord k _ | .savePersisted k | .saveRevert k _ => k = .flush
  | _ => False

variable {E Z cfg} {s₀ s m : State Op} {d : String} {pc pc' : Pc E.Vector Op}

theorem phase_finish {k : Cont} (hk : k = .flush) (r : Except Err Unit) :
    Phase d s₀ m (k.finish r : Pc E.Vector Op) := by
  subst hk
  trivial

theorem phase_next (hp : Phase d s₀ s pc) (h : pc.next E Z cfg d s = some (pc', m)) : Phase d s₀ m pc' := by
  cases pc with
  | applyGet u =>
    simp only [Pc.next] at h
    split at h
    · cases h
      exact hp
    split at h
    · cases h
      exact hp
    · rename_i e he
      cases h
      cases hp
      exact ⟨rfl, by rw [he]; rfl⟩
  | applySize u h' =>
    simp only [Pc.next] at h
    split at h
    · cases h
      exact hp.1
    · cases h
      exact hp
  | applyDoc u h' =>
    simp only [Pc.next] at h
    split at h
    · cases h
      exact hp.1
    · cases h
      cases hp.1
      exact ⟨rfl, hp.2⟩
  | applyMark u h' =>
    cases h
    obtain ⟨e, he⟩ := Option.isSome_iff_exists.mp hp.2
    refine ⟨e, e.markEdited, he, ?_, rfl⟩
    show (s.registry.markEdited d).1 d = _
    rw [hp.1, Registry.markEdited, he]
    exact Function.update_self ..
  | applySave u v =>
    cases h
    trivial
  | applyInfo u =>
    simp only [Pc.next] at h
    split at h
    · cases h
      rfl
    · cases h
      trivial
  | savePlan k | savePending k plan =>
    simp only [Pc.next] at h
    split at h
    · cases h
      exact phase_finish hp _
    · cases h
      exact hp
  | savePersisted k | saveRevert k err =>
    simp only [Pc.next] at h
    split at h
    · cases h
      exact phase_finish hp _
    · cases h
      exact phase_finish hp _
  | saveBase k plan | saveEncode k plan kind base bv | saveVector k plan kind bv raw | saveStore k snap
  | savePrune k snap | saveLog k snap | saveRecord k snap =>
    cases h
    exact hp
  | done r => cases h
  | _ => cases hp

theorem phase_failed (hp : Phase d s₀ s pc) (hw : pc.writes = false) (h : pc.failed E s = some pc') :
    Phase d s₀ s pc' := by
  cases pc with
  | applyDoc u h' =>
    simp only [Pc.failed] at h
    split at h
    · cases h
      exact hp.1
    · cases h
  | applySave u v => cases hw
  | saveBase k plan | saveStore k snap | savePrune k snap | saveLog k snap =>
    cases h
    exact hp
  | openMetadata _ _ | openBase _ _ | openTail _ _ _ | openSave _ _ | deleteStorage => cases hp
  | _ => cases h

theorem phase_alone {x y : Thread E.Vector Op × State Op} {a : Ans} (hd : x.1.call.docID = d)
    (hp : Phase d s₀ x.2 x.1.pc) (hw : Written E x a) (h : alone E Z cfg x a = some y) :
    y.1.call.docID = d ∧ Phase d s₀ y.2 y.1.pc := by
  obtain ⟨t, s⟩ := x
  subst hd
  cases a with
  | ok =>
    obtain ⟨pc', ht, hn⟩ := Thread.step_ok E Z cfg h
    rw [ht]
    exact ⟨rfl, phase_next hp hn⟩
  | fail =>
    obtain ⟨pc', hf, hy⟩ := Option.map_eq_some_iff.mp h
    cases hy
    refine ⟨rfl, phase_failed hp ?_ hf⟩
    cases hwrites : t.pc.writes with
    | false => rfl
    | true => cases hw hwrites

/-- the write that fails ends the call, and the mark stays -/
theorem unwritten_alone {x y : Thread E.Vector Op × State Op} {a : Ans} (hp : Phase d s₀ x.2 x.1.pc)
    (hw : ¬ Written E x a) (h : alone E Z cfg x a = some y) :
    (∀ a, alone E Z cfg y a = none) ∧ observed y.2 d ≠ observed s₀ d := by
  obtain ⟨⟨c, pc⟩, s⟩ := x
  obtain ⟨hwrites, ha⟩ := Classical.not_imp.mp hw
  cases pc with
  | applySave u v =>
    cases a with
    | ok => exact absurd rfl ha
    | fail =>
      cases h
      obtain ⟨e, e', he, he', hv⟩ : Phase d s₀ s (.applySave u v : Pc E.Vector Op) := hp
      refine ⟨fun a => by cases a <;> rfl, fun heq => ?_⟩
      simp only [observed, he, he', Option.map_some, Option.some.injEq, Observed.mk.injEq] at heq
      omega
  | _ => cases hwrites

theorem refused_run {x : Thread E.Vector Op × State Op} {t : Thread E.Vector Op} {s' : State Op} {err : Err}
    {answers : List Ans} (hd : x.1.call.docID = d) (hp : Phase d s₀ x.2 x.1.pc)
    (hr : run (alone E Z cfg) x answers = some (t, s')) (herr : t.pc.result = some (.error err)) :
    observed s' d = observed s₀ d ↔ Along (alone E Z cfg) (Written E) x answers := by
  induction answers generalizing x with
  | nil =>
    cases hr
    obtain ⟨c, pc⟩ := t
    refine ⟨fun _ => trivial, fun _ => ?_⟩
    cases pc with
    | done r =>
      cases herr
      exact congrArg (observed · d) hp
    | _ => cases herr
  | cons a answers ih =>
    obtain ⟨y, hy, hr⟩ := run_cons_eq hr
    by_cases hw : Written E x a
    · obtain ⟨hd', hp'⟩ := phase_alone hd hp hw hy
      exact (ih hd' hp' hr).trans ⟨along_cons hw hy, fun h => h.2 y hy⟩
    · obtain ⟨hend, hne⟩ := unwritten_alone hp hw hy
      cases answers with
      | nil =>
        cases hr
        exact ⟨fun h => absurd h hne, fun h => absurd h.1 hw⟩
      | cons b answers =>
        rw [run_cons, hend] at hr
        cases hr

end

/-- **A refused update leaves the live document exactly when the durable write did not fail.** -/
theorem refused_unchanged {Op : Type} [DecidableEq Op] (E : Engine Op) (Z : Gzip) (cfg : Config) (s : State Op)
    (d : String) (u : Bytes) (answers : List Ans) (t : Thread E.Vector Op) (s' : State Op) (err : Err)
    (hr : run (alone E Z cfg) (applying E Z cfg s d u) answers = some (t, s'))
    (herr : t.pc.result = some (.error err)) :
    observed s' d = observed s d ↔ Along (alone E Z cfg) (Written E) (applying E Z cfg s d u) answers :=
  refused_run rfl (show Phase d s s (.applyGet u : Pc E.Vector Op) from rfl) hr herr

/-- two bytes are no update of the small engine -/
theorem refused_unchanged_corrupted : ∃ x ∈ run (alone bits Gzip.stored Config.default)
        (applying bits Gzip.stored Config.default
          (getOrCreateDocument bits Gzip.stored (State.init (Fin 4)) "d" "r" "f").2 "d" [1, 2]) [.ok, .ok, .ok],
      x.1.pc.result = some (.error .corruptedUpdate) ∧ observed x.2 "d" = observed
          (getOrCreateDocument bits Gzip.stored (State.init (Fin 4)) "d" "r" "f").2 "d" := by
  refine exists_run_and (by decide +kernel) fun x hr herr => ?_
  exact (refused_unchanged _ _ _ _ _ _ _ x.1 x.2 _ hr herr).mpr (by decide +kernel)

/-- the first update of a new document, with a repository that fails the write -/
theorem refused_changed : ∃ x ∈ run (alone bits Gzip.stored Config.default) (applying bits Gzip.stored Config.default
          (getOrCreateDocument bits Gzip.stored (State.init (Fin 4)) "d" "r" "f").2 "d" [1])
        [.ok, .ok, .ok, .ok, .fail],
      x.1.pc.result = some (.error .storage) ∧ observed x.2 "d" = some ⟨{0}, 1, 1, true, 1⟩ ∧
        observed (getOrCreateDocument bits Gzip.stored (State.init (Fin 4)) "d" "r" "f").2 "d"
          = some ⟨∅, 0, 0, false, 0⟩ := by
  decide +kernel

end Collab
