import Cpip.Storage.Download

/-!
# Storage: the states of a record

* `states_follow`  **each step takes the state of a record along an edge**, see also `deleting_undone`.
-/

namespace Storage

open Pool Code

variable (S : Service)

def verifyArtifact (id : String) : Op (Except Err Unit) := do
  match ← access (.get id) with
  | .error err => pure (.error err)
  | .ok a =>
    match ← download S { artifactID := id, verify := true } with
    | .error .integrityMismatch => do
      let _ ← access (.updateState id a.state .corrupted)
      pure (.error .integrityMismatch)
    | .error err => pure (.error err)
    | .ok _ => pure (.ok ())

/-- a call, or `Verify` -/
inductive Task where
  | call (c : Call)
  | verify (id : String)

def Task.body : Task → Op Reply
  | .call c => Storage.body S c
  | .verify id => (verifyArtifact S id).bind fun r => .ret (.done r)

abbrev tasks : Prog Task World (Thread Task Cmd Cmd.Ans Reply) Env := prog (exec S) (Task.body S)

/-- a whole record is written only in the state in which it is stored -/
def WritesBack (w : World) : Cmd → Prop
  | .update x => ∀ cur ∈ w.store.find x.id, cur.state = x.state
  | _ => True

instance (w : World) : ∀ c, Decidable (WritesBack w c) := by
  intro c
  unfold WritesBack
  rcases c with ⟨⟩ <;> infer_instance

/-- the state of each record stays or moves along an edge -/
def Follows (w m : World) : Prop :=
  ∀ id a b, w.store.find id = some a → m.store.find id = some b → canTransition a.state b.state = true

theorem canTransition_self (s : State) : canTransition s s = true := by
  simp [canTransition]

theorem follows_exec {S : Service} {c : Cmd} {w m : World} {e : Env} {r : c.Ans} (hc : WritesBack w c)
    (he : exec S c w e = some (r, m)) : Follows w m := by
  intro id a b ha hb
  cases change_exec he id with
  | keep h =>
    cases ha.symm.trans (h.symm.trans hb)
    exact canTransition_self _
  | head isLatest h h' =>
    cases h.symm.trans ha
    cases h'.symm.trans hb
    exact canTransition_self _
  | update hid h h' =>
    subst hid
    cases h.symm.trans ha
    cases h'.symm.trans hb
    rw [hc _ h]
    exact canTransition_self _
  | state hid h hs h' =>
    cases h.symm.trans ha
    cases h'.symm.trans hb
    rcases exec_updateState he with ⟨-, rfl, -⟩ | ⟨-, cur, store, hcur, hs', hcan, -⟩
    · rw [Option.some.inj (h.symm.trans h')]
      exact canTransition_self _
    · rw [hs]
      exact hcan
  | delete hid h h' => cases h'.symm.trans hb
  | append hid h h' => cases h.symm.trans ha

/-- **along a run that writes records back as they are, each step takes the state of a record along an edge** -/
theorem states_follow {w : World} {as : List (Act Task Env)}
    (hC : Lts.Along (tasks S).next (Guard fun _ => WritesBack) (idle w) as) : Lts.Along (tasks S).next
      (fun sys l => ∀ sys', (tasks S).next sys l = some sys' → Follows sys.shared sys'.shared) (idle w) as := by
  refine Lts.along_mono (fun sys l hg sys' hn => ?_) _ _ hC
  cases l with
  | spawn i c =>
    obtain ⟨-, rfl⟩ := next_spawn hn
    intro id a b ha hb
    cases ha.symm.trans hb
    exact canTransition_self _
  | step i e =>
    obtain ⟨t, t', m, hp, hs, rfl⟩ := next_step hn
    obtain ⟨c, k, r, hcode, he, rfl⟩ := prog_step hs
    exact follows_exec (hg t c hp (next_of_code hcode)) he

def oneRecord : World where
  store.rows := [⟨"x", "k", "artifacts", S.sha [], 0, .executionLog, 1, "l", true, .none, {}, .available⟩]
  store.nodup := List.nodup_singleton _

/-- a record is held, released and deleted -/
def releasedRun : List (Act Task Env) :=
  [.spawn 0 (.call (.setLegalHold "x" true)), .step 0 {}, .step 0 {}, .spawn 1 (.call (.setLegalHold "x" false)),
    .step 1 {}, .step 1 {}, .spawn 2 (.call (.delete "x")), .step 2 {}, .step 2 {}, .step 2 {}]

theorem states_follow_releasedRun : Lts.Along (tasks sample).next (fun sys l => ∀ sys',
    (tasks sample).next sys l = some sys' → Follows sys.shared sys'.shared)
      (idle (oneRecord sample)) releasedRun :=
  states_follow _ (by decide +kernel)

/-- **a hold that is set while the record is being deleted makes it available again** -/
theorem deleting_undone : ∃ sys ∈ Lts.run (tasks sample).next
      (idle (oneRecord sample)) [.spawn 0 (.call (.setLegalHold "x" true)), .step 0 {},
        .spawn 1 (.call (.delete "x")), .step 1 {}, .step 1 {}],
    ∃ sys' ∈ (tasks sample).next sys (.step 0 {}),
      ∃ a ∈ sys.shared.store.find "x", ∃ b ∈ sys'.shared.store.find "x",
        a.state = .deleting ∧ b.state = .available ∧ canTransition a.state b.state = false := by
  decide +kernel

end Storage
