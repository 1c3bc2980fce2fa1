import Cpip.Lib.Fresh
import Cpip.Storage.Walk

/-!
# Storage: the identifiers of records

A record gets a random identifier that was not made before, and it is added under it at most once.

* `Cmd.Free`, `Cmd.Registers`, `uses_body`  the accesses that the operations make: only an upload stores bytes
  or adds a record;
* `new_along`  **in every interleaving a record is added under a new identifier**.
-/

namespace Storage

open Pool Code Lts

def Cmd.Registers : Cmd → Prop
  | .appendVersion _ => True
  | .putObject _ _ _ => True
  | _ => False

/-- the accesses that say nothing about a record that was read before -/
def Cmd.Free : Cmd → Prop
  | .update _ => False
  | .appendVersion _ => False
  | .putObject _ _ _ => False
  | .countReferences _ _ (some _) => False
  | _ => True

/-! ## the accesses of the operations -/

section
variable {S : Service} {P : Cmd → Prop} (h : ∀ c, c.Free → P c)
include h

theorem walk_free : Walk (fun x => x.Uses P) fun _ _ => True := by
  refine walk_uses fun c hc => h c ?_
  cases c with
  | update a | appendVersion a | putObject bucket key data | countReferences bucket key purged => exact hc.elim
  | _ => trivial

theorem uses_free {c : Cmd} (hc : c.Free) : (access c).Uses P := ⟨h c hc, fun _ => trivial⟩

theorem uses_markDeleting (a : Artifact) : (markDeleting a).Uses P := by
  unfold markDeleting
  split
  · exact uses_cmd (h _ trivial) fun _ => trivial
  · trivial

theorem uses_delete (id : String) : (delete id).Uses P :=
  walk_delete (walk_free h) fun _ _ _ _ _ _ _ => uses_free h trivial

theorem uses_restore (id : String) : (restore id).Uses P := walk_restore (walk_free h) fun _ _ _ => uses_free h trivial

theorem uses_rollback (lineageID : String) (version : Int) : (rollback lineageID version).Uses P :=
  walk_rollback (walk_free h) (fun _ _ => uses_free h trivial) lineageID version

theorem uses_sweepOrphans (maxPerBucket : Int) (pages : Nat) : (sweepOrphans S maxPerBucket pages).Uses P := by
  refine walk_sweepOrphans (walk_free h) (fun logical cutoff o => ?_) maxPerBucket pages
  unfold sweepObject
  split
  · trivial
  split
  · trivial
  refine uses_cmd (h _ trivial) fun refs => ?_
  split
  · trivial
  split
  · trivial
  · exact uses_cmd (h _ trivial) fun _ => trivial

end

section
variable {S : Service} {P : Cmd → Prop} (h : ∀ c, ¬ c.Registers → P c)
include h

theorem free_registers (c : Cmd) (hc : c.Free) : P c := by
  refine h c fun hreg => ?_
  cases c with
  | appendVersion a | putObject bucket key data => exact hc
  | _ => exact hreg

theorem walk_other : Walk (fun x => x.Uses P) fun _ _ => True := walk_free (free_registers h)

theorem uses_other {c : Cmd} (hc : ¬ c.Registers) : (access c).Uses P := ⟨h c hc, fun _ => trivial⟩

theorem uses_purge (id' : String) : (purge id').Uses P := by
  refine walk_purge (walk_other h) fun a _ _ => ⟨uses_other h id, uses_cmd (h _ id) fun refs => ?_, uses_other h id⟩
  split
  · refine uses_cmd (h _ id) fun r => ?_
    split <;> trivial
  · trivial

theorem uses_afterUpload (r : Except Err Result) : (afterUpload S r).Uses P :=
  walk_afterUpload (walk_other h) (fun _ _ _ v _ _ => uses_purge h v.id) r

theorem uses_runOnce : (runOnce S).Uses P :=
  walk_runOnce (walk_other h) fun _ _ _ a _ _ =>
    walk_reap (walk_other h) (uses_other h id) (uses_other h id) (uses_purge h a.id)

theorem uses_body {c : Call} (hc : ∀ req, c ≠ .upload req) : (body S c).Uses P := by
  cases c with
  | upload req => exact absurd rfl (hc req)
  | delete id' => exact uses_bind (uses_delete (free_registers h) id') fun _ => trivial
  | restore id' => exact uses_bind (uses_restore (free_registers h) id') fun _ => trivial
  | purge id' => exact uses_bind (uses_purge h id') fun _ => trivial
  | rollback lineageID version =>
    exact uses_bind (uses_rollback (free_registers h) lineageID version) fun _ => trivial
  | setLegalHold id' hold =>
    exact uses_bind (walk_setLegalHold (walk_other h) fun _ _ => uses_other h id) fun _ => trivial
  | updateRetention id' policy =>
    exact uses_bind (walk_updateRetention (walk_other h) fun _ _ _ => uses_other h id) fun _ => trivial
  | runOnce => exact uses_bind (uses_runOnce h) fun _ => trivial
  | sweepOrphans maxPerBucket pages =>
    exact uses_bind (uses_sweepOrphans (free_registers h) maxPerBucket pages) fun _ => trivial

end

/-! ## names -/

def makes : (c : Cmd) → c.Ans → Option String
  | .newID, id => some id
  | _, _ => none

def spends : Cmd → Option String
  | .appendVersion a => some a.id
  | _ => none

theorem spends_free {c : Cmd} (h : c.Free) : spends c = none := by
  cases c with
  | appendVersion a => exact h.elim
  | _ => rfl

theorem spends_eq_none {c : Cmd} (h : ¬ c.Registers) : spends c = none := by
  cases c with
  | appendVersion a => exact absurd trivial h
  | _ => rfl

/-- an identifier that was made and under which no record was added -/
def New (w : World) (id : String) : Prop := id ∈ w.used ∧ ∀ x ∈ w.made, x.id ≠ id

section
variable {S : Service} {x : String} (req : Request)

theorem walk_spends : Walk (fun x => x.Uses (spends · = none)) fun _ _ => True := walk_free fun _ => spends_free

theorem names_register (logical key : String) (digest : Digest) (size : Nat) (alg : Algorithm)
    (dedup : Bool) : (register S req logical key digest size alg dedup).Once makes spends x ∧
      (register S req logical key digest size alg dedup).Avoids makes spends x := by
  have hlineage := walk_lineageFor walk_spends req
  have hpolicy := walk_resolvePolicy (S := S) walk_spends req.type req.retention
  constructor
  · refine once_bind hlineage fun lineageID => ?_
    refine once_bind (y := access .newID) ⟨rfl, fun _ => trivial⟩ fun id => once_bind hpolicy fun retention => ?_
    intro r
    constructor
    · intro _
      cases r <;> trivial
    · cases r <;> trivial
  · refine avoids_bind (avoids_uses hlineage) fun lineageID => ?_
    refine avoids_cmd (by rintro ⟨⟩) fun id hid => ?_
    refine avoids_bind (avoids_uses hpolicy) fun retention => avoids_cmd hid fun r _ => ?_
    cases r <;> trivial

theorem names_storeAndRegister (logical : String) (data : Bytes) :
    (storeAndRegister S req logical data).Once makes spends x ∧
      (storeAndRegister S req logical data).Avoids makes spends x := by
  unfold storeAndRegister
  split
  · exact ⟨trivial, trivial⟩
  constructor
  · refine once_bind (y := access _) ⟨rfl, fun _ => trivial⟩ fun r => ?_
    split
    · trivial
    refine once_bind (walk_readback walk_spends req _ _ _ _) fun r => ?_
    split
    · exact once_uses (uses_cmd rfl fun _ => trivial)
    · exact (names_register req _ _ _ _ _ _).1
  · refine avoids_bind (avoids_uses (y := access _) ⟨rfl, fun _ => trivial⟩) fun r => ?_
    split
    · trivial
    refine avoids_bind (avoids_uses (walk_readback walk_spends req _ _ _ _)) fun r => ?_
    split
    · exact avoids_uses (uses_cmd rfl fun _ => trivial)
    · exact (names_register req _ _ _ _ _ _).2

theorem names_uploadPipeline : (uploadPipeline S req).Once makes spends x ∧
    (uploadPipeline S req).Avoids makes spends x := by
  unfold uploadPipeline
  split
  · exact ⟨trivial, trivial⟩
  rename_i logical data _
  have hdedup := walk_deduplicate walk_spends req logical (S.sha data)
  constructor
  · refine once_bind hdedup fun r => ?_
    split
    · exact (names_register req _ _ _ _ _ _).1
    · exact (names_storeAndRegister req _ _).1
  · refine avoids_bind (avoids_uses hdedup) fun r => ?_
    split
    · exact (names_register req _ _ _ _ _ _).2
    · exact (names_storeAndRegister req _ _).2

theorem names_body (c : Call) : (body S c).Once makes spends x ∧ (body S c).Avoids makes spends x := by
  by_cases hc : ∀ req, c ≠ .upload req
  · have huses := uses_body (S := S) (P := (spends · = none)) (fun c => spends_eq_none) hc
    exact ⟨once_uses huses, avoids_uses huses⟩
  push Not at hc
  obtain ⟨req, rfl⟩ := hc
  have hafter : ∀ r, (afterUpload S r).Uses (spends · = none) :=
    fun r => uses_afterUpload (fun c => spends_eq_none) r
  constructor
  · refine once_then (once_then (names_uploadPipeline req).1 fun r => ?_) fun _ => trivial
    exact uses_bind (hafter r) fun _ => trivial
  · refine avoids_bind (avoids_bind (names_uploadPipeline req).2 fun r => ?_) fun _ => trivial
    exact avoids_uses (uses_bind (hafter r) fun _ => trivial)

end

/-! ## runs -/

section
variable {S : Service} {w m : World} {e : Env} {c : Cmd} {a : c.Ans}

theorem new_next (sys : Sys World Th) (l : Act Call Env) (sys' : Sys World Th)
    (hi : Fresh makes spends (fun w => ∀ x ∈ w.made, x.id ∈ w.used) New sys)
    (hn : (calls S).next sys l = some sys') :
    Fresh makes spends (fun w => ∀ x ∈ w.made, x.id ∈ w.used) New sys' := by
  refine fresh_next (fun c x => names_body c) (fun c s e a m hI hs he x hx => ?_)
    (fun c s e a m x hI he hx => ?_) (fun c s e a m x he hs hx => ?_) sys l sys' hi hn
  · rcases made_exec he hx with hx | ⟨y, rfl, -, rfl, -⟩
    · exact used_mono he (hI x hx)
    · exact used_mono he (hs y.id rfl).1
  · cases c with
    | newID =>
      cases hx
      dsimp only [exec] at he
      split at he
      · cases he
      rename_i hfresh
      cases he
      rw [not_or] at hfresh
      refine ⟨fun h => hfresh.1 h.1, List.mem_cons_self .., fun y hy hyx => ?_⟩
      rw [← hyx] at hfresh
      exact hfresh.1 (hI y hy)
    | _ => cases hx
  · refine ⟨used_mono he hx.1, fun y hy => ?_⟩
    rcases made_exec he hy with hy | ⟨z, rfl, -, rfl, -⟩
    · exact hx.2 y hy
    · exact fun hz => hs (congrArg some hz)

/-- **In every interleaving a record is added under a new identifier.** -/
theorem new_along (h : ∀ x ∈ w.made, x.id ∈ w.used) (run : List (Act Call Env)) :
    Lts.Along (calls S).next (Guard fun _ w c => ∀ a, c = .appendVersion a → New w a.id) (idle w) run := by
  have htrue : Lts.Along (calls S).next (fun _ _ => True) (idle w) run := along_true _ _
  have hinv := along_inv (fun s l s' hi _ hn => new_next s l s' hi hn) (inv_idle h) htrue
  refine along_mono (fun sys l hi => ?_) _ _ hinv
  cases l with
  | spawn i c => trivial
  | step i e =>
    rintro t c hp hnext a rfl
    exact fresh_spends hi hp hnext rfl

theorem used_run {run : List (Act Call Env)} {sys : Sys World Th} (h : ∀ x ∈ w.made, x.id ∈ w.used)
    (hr : Lts.run (calls S).next (idle w) run = some sys) : ∀ x ∈ sys.shared.made, x.id ∈ sys.shared.used :=
  (run_inv_all (fun s l s' hi hn => new_next s l s' hi hn) (inv_idle h) hr).shared

end

end Storage
