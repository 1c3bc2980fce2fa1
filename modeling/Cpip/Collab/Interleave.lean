import Cpip.Collab.Retention
import Cpip.Collab.Calm

/-!
# Collaboration engine: what interleaved calls do to accepted edits

* `solid_of_safe`  a calm run may start where calls were made one at a time;
* `snapshots_calm`  **edits and snapshots**: no accepted update is lost along a calm run;
* `archive_calm`  **edits and archivals**: the document that is opened next holds every accepted update.
-/

namespace Collab

open Pool Lts Engine

section
variable {Op : Type} [DecidableEq Op] {E : Engine Op} {Z : Gzip} {cfg : Config} {d : String}

theorem solid_of_safe {s : State Op} {acc : List (String × Bytes)} {e : DocumentEntry}
    (stay : Prop) (h : Safe E Z cfg s acc d) (he : s.registry d = some e) : Solid E Z d e.doc stay s := by
  have hl := h.live e he
  refine ⟨?_, h.readable, h.sound, ?_, fun u hu => h.log_full hl hu, fun e' he' => ?_, fun _ => by rw [he]; rfl⟩
  · by_contra hn
    rw [(h.fresh (Option.not_isSome_iff_eq_none.mp hn)).1] at he
    cases he
  · exact Finset.subset_union_left.trans hl.full
  · cases he.symm.trans he'
    exact ⟨rfl, hl.version⟩

theorem RaceInv.recovered {h0 : Nat} {stay : Prop}
    {sys : Sys (State Op) (Thread E.Vector Op)} (hi : RaceInv E Z d h0 stay sys) {i : Nat}
    {u : Bytes} (hp : sys.pool i = some ⟨.apply d u, .done (.ok none)⟩) :
    ∃ r, recoverDocument E Z sys.shared.repo d = .ok r ∧
      r.ops = content E Z sys.shared.repo d ∧ payloadOps E u ⊆ r.ops := by
  obtain ⟨hst, hc⟩ := (hi.each i _ hp).logged u rfl rfl
  obtain ⟨r, hr, hops, -⟩ := recoverDocument_ok E Z hi.shared.readable hst
  exact ⟨r, hr, hops, by rw [hops]; exact hc⟩

theorem Solid.content_within {h0 : Nat} {stay : Prop} {s : State Op}
    (h : Solid E Z d h0 stay s) : content E Z s.repo d ⊆ s.ops h0 := by
  intro o ho
  rw [content, Finset.mem_union, mem_tailOps] at ho
  rcases ho with ho | ⟨u, hu, -, ho⟩
  · exact h.chain ho
  · exact h.log u hu ho

end

/-! ## concrete runs -/

def raceConfig : Config := { Config.default with incrementalSnapshotThreshold := 2 }

def newDocument : State (Fin 4) :=
  (getOrCreateDocument bits Gzip.stored (State.init (Fin 4)) "d" "room" "file").2

def steps (i n : Nat) : List (Act Call Ans) := List.replicate n (.step i .ok)

def raced (as : List (Act Call Ans)) : Option (Sys (State (Fin 4)) (Thread bits.Vector (Fin 4))) :=
  run (engine bits Gzip.stored raceConfig).next (idle newDocument) as

def returned (s : Sys (State (Fin 4)) (Thread bits.Vector (Fin 4))) (i : Nat) : Bool :=
  match s.pool i with
  | some ⟨_, .done (.ok _)⟩ => true
  | _ => false

theorem newDocument_solid (stay : Prop) : Solid bits Gzip.stored "d" 0 stay newDocument := by
  have hr : run (History.step bits Gzip.stored raceConfig) (History.init (Fin 4))
      [.call (.getOrCreate "d" "room" "file")] = some ⟨newDocument, []⟩ := rfl
  exact solid_of_safe (e := { createdEntry "d" "room" "file" 0 with state := .initialized }) stay
    (safe_run (by decide) (by decide) hr "d") rfl

/-- `Calm` for runs with the threads below `n` -/
def calmBelow (stay : Prop) [Decidable stay] (n : Nat) (s : Sys (State (Fin 4)) (Thread bits.Vector (Fin 4))) :
    Act Call Ans → Bool
  | .spawn _ (.apply x _) | .spawn _ (.save x) => x = "d"
  | .spawn _ (.archive x) => x = "d" ∧ ¬ stay
  | .spawn _ _ => false
  | .step i a => a = .ok && match s.pool i with
    | some ⟨_, .applyDoc _ _⟩ => (List.range n).all fun j => (s.pool j).all fun u => !u.pc.encoding
    | some ⟨_, .applyMark _ _⟩ => stay ∨ (s.shared.registry "d").isSome
    | some ⟨_, .savePrune _ _⟩ => chainLength (snaps "d" s.shared) ≤ raceConfig.snapMgr.retentionCount
    | _ => true

theorem calm_of_below {stay : Prop} [Decidable stay] {as : List (Act Call Ans)} (n : Nat) (hn : ∀ l ∈ as, l.below n)
    (h : Along (engine bits Gzip.stored raceConfig).next (fun s l => calmBelow stay n s l = true)
      (idle newDocument) as) :
    Along (engine bits Gzip.stored raceConfig).next (Calm bits raceConfig "d" stay) (idle newDocument) as := by
  refine along_bounded (fun s l hl hn => ?_) hn h
  cases l with
  | spawn i c =>
    cases c with
    | apply x u | save x => exact of_decide_eq_true (p := x = "d") hl
    | archive x => exact of_decide_eq_true (p := x = "d" ∧ ¬ stay) hl
    | _ => cases hl
  | step i a =>
    obtain ⟨ha, hl⟩ := Bool.and_eq_true_iff.mp hl
    refine ⟨of_decide_eq_true ha, fun t ht => ?_⟩
    rw [ht] at hl
    obtain ⟨c, pc⟩ := t
    cases pc with
    | applyDoc u h' =>
      intro j u hu
      have := List.all_eq_true.mp hl j (List.mem_range.mpr (hn j u hu))
      simpa [hu] using this
    | applyMark u h' | savePrune k snap => exact of_decide_eq_true hl
    | _ => trivial

/-! ## edits and snapshots -/

/-- **Edits and snapshots interleaved**: along every calm run every accepted update is recovered. -/
theorem snapshots_calm {Op : Type} [DecidableEq Op] (E : Engine Op) (Z : Gzip) (cfg : Config)
    (d : String) (h0 : Nat) (s0 : State Op) (as : List (Act Call Ans))
    (sys : Sys (State Op) (Thread E.Vector Op)) (hs : Solid E Z d h0 True s0)
    (hc : Along (engine E Z cfg).next (Calm E cfg d True) (idle s0) as)
    (hr : run (engine E Z cfg).next (idle s0) as = some sys) : VectorSound E Z (sys.shared.repo.snapshots d) ∧
      ∀ i u, sys.pool i = some ⟨.apply d u, .done (.ok none)⟩ →
        ∃ r, recoverDocument E Z sys.shared.repo d = .ok r ∧ payloadOps E u ⊆ r.ops := by
  have hi := calm_run hs hc hr
  refine ⟨hi.shared.sound, fun i u hp => ?_⟩
  obtain ⟨r, hr, -, hsub⟩ := RaceInv.recovered hi hp
  exact ⟨r, hr, hsub⟩

/-- three edits and two snapshots, each of which is taken while edits are under way -/
def calmSaves : List (Act Call Ans) :=
  .spawn 0 (.apply "d" [1]) :: steps 0 4 ++ .spawn 1 (.save "d") :: steps 1 3 ++
    .spawn 2 (.apply "d" [2]) :: steps 2 3 ++ steps 1 3 ++ steps 0 2 ++ steps 2 3 ++ steps 1 4 ++
    .spawn 3 (.apply "d" [3]) :: steps 3 4 ++ .spawn 4 (.save "d") :: steps 4 7 ++ steps 3 2 ++ steps 4 3

theorem snapshots_calm_saves : ∃ sys ∈ raced calmSaves,
    ((sys.shared.repo.snapshots "d").length = 2 ∧ ∀ i < 5, returned sys i = true) ∧
    VectorSound bits Gzip.stored (sys.shared.repo.snapshots "d") ∧
    ∃ r, recoverDocument bits Gzip.stored sys.shared.repo "d" = .ok r ∧ payloadOps bits [2] ⊆ r.ops := by
  refine exists_run_and (by decide +kernel) fun sys hr _ => ?_
  have hp : sys.pool 2 = some ⟨.apply "d" [2], .done (.ok none)⟩ := by
    cases hr
    rfl
  obtain ⟨hv, hrec⟩ := snapshots_calm bits Gzip.stored raceConfig "d" 0 newDocument calmSaves
    sys (newDocument_solid True) (calm_of_below 5 (by decide) (by decide +kernel)) hr
  exact ⟨hv, hrec 2 [2] hp⟩

/-- a snapshot whose vector is read after one more edit, then an incremental one -/
def tornRun : List (Act Call Ans) :=
  .spawn 0 (.apply "d" [1]) :: steps 0 6 ++
    -- the payload of the first snapshot is encoded, its vector is not
    .spawn 1 (.save "d") :: steps 1 4 ++
    .spawn 2 (.apply "d" [2]) :: steps 2 3 ++ steps 1 6 ++ steps 2 3 ++
    .spawn 3 (.save "d") :: steps 3 10

/-- the vector of the first snapshot covers the update and its chain does not; the second snapshot loses it -/
theorem torn_snapshot_loses_update : ((raced tornRun).map fun s => (returned s 2,
      ((s.shared.repo.snapshots "d").head?.bind fun snap =>
        (bits.decodeStateVector snap.stateVector).map fun v =>
          (bits.covers v 1, decide (1 ∈ chainOps bits Gzip.stored [snap]))),
      (recoverDocument bits Gzip.stored s.shared.repo "d").toOption.map fun r =>
        decide (payloadOps bits [2] ⊆ r.ops)))
      = some (true, some (true, false), some false) := by
  decide +kernel

/-! ## edits and archivals -/

/-- **Edits and archivals interleaved**: the document that is opened next holds every accepted update. -/
theorem archive_calm {Op : Type} [DecidableEq Op] (E : Engine Op) (Z : Gzip) (cfg : Config)
    (d : String) (h0 : Nat) (s0 : State Op) (as : List (Act Call Ans))
    (sys : Sys (State Op) (Thread E.Vector Op)) (hs : Solid E Z d h0 False s0)
    (hc : Along (engine E Z cfg).next (Calm E cfg d False) (idle s0) as)
    (hr : run (engine E Z cfg).next (idle s0) as = some sys) (i : Nat) (u : Bytes)
    (hp : sys.pool i = some ⟨.apply d u, .done (.ok none)⟩) (roomID filePath : String) :
    ∃ h, (getOrCreateDocument E Z sys.shared d roomID filePath).1 = .ok h ∧
      payloadOps E u ⊆ (getOrCreateDocument E Z sys.shared d roomID filePath).2.ops h := by
  have hi := calm_run hs hc hr
  obtain ⟨r, hrec, hops, hsub⟩ := RaceInv.recovered hi hp
  rcases getOrCreateDocument_cases E Z sys.shared d roomID filePath with
    ⟨e, he, hg⟩ | ⟨-, -, ⟨err, herr, -⟩ | ⟨r', hrec', hg⟩⟩ | ⟨-, hm, -⟩
  · refine ⟨e.doc, by rw [hg], ?_⟩
    rw [hg, (hi.shared.live e he).1]
    rw [hops] at hsub
    exact hsub.trans hi.shared.content_within
  · rw [hrec] at herr
    cases herr
  · cases hrec.symm.trans hrec'
    refine ⟨sys.shared.nextDoc, by rw [hg], ?_⟩
    rw [hg]
    simpa [opened, State.alloc, State.ops] using hsub
  · have := hi.shared.known
    rw [hm] at this
    cases this

/-- an archival takes its snapshot while two edits are under way, and unloads the document after they are logged -/
def calmArchival : List (Act Call Ans) :=
  .spawn 0 (.apply "d" [1]) :: steps 0 4 ++ .spawn 1 (.archive "d") :: steps 1 4 ++
    .spawn 2 (.apply "d" [2]) :: steps 2 3 ++ steps 1 3 ++ steps 0 2 ++ steps 2 3 ++ steps 1 7

theorem archive_calm_archival : ∃ sys ∈ raced calmArchival,
    ((sys.shared.registry "d").isSome = false ∧ ∀ i < 3, returned sys i = true) ∧
    ∃ h, (getOrCreateDocument bits Gzip.stored sys.shared "d" "room" "file").1 = .ok h ∧
      payloadOps bits [2] ⊆ (getOrCreateDocument bits Gzip.stored sys.shared "d" "room" "file").2.ops h := by
  refine exists_run_and (by decide +kernel) fun sys hr _ => ?_
  have hp : sys.pool 2 = some ⟨.apply "d" [2], .done (.ok none)⟩ := by
    cases hr
    rfl
  exact archive_calm bits Gzip.stored raceConfig "d" 0 newDocument calmArchival sys (newDocument_solid False)
    (calm_of_below 3 (by decide) (by decide +kernel)) hr 2 [2] hp "room" "file"

/-- an edit reaches the document, and is marked and logged only after an archival has unloaded it -/
def lateMarkRun : List (Act Call Ans) :=
  .spawn 0 (.apply "d" [1]) :: steps 0 6 ++ .spawn 1 (.save "d") :: steps 1 10 ++
    .spawn 2 (.apply "d" [2]) :: steps 2 3 ++
    .spawn 3 (.archive "d") :: steps 3 4 ++ steps 2 3

/-- the update of call `2` is accepted, logged with version `0`, and not recovered -/
theorem late_mark_loses_update : ((raced lateMarkRun).map fun s => (returned s 2, returned s 3,
      (s.shared.repo.updates "d").map Update.version,
      let x := getOrCreateDocument bits Gzip.stored s.shared "d" "room" "file"
      x.1.toOption.map fun h => decide (payloadOps bits [2] ⊆ x.2.ops h)))
      = some (true, true, [0], some false) := by
  decide +kernel

end Collab
