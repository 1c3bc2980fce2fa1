import Cpip.Storage.Watch

/-!
# Storage: legal holds

From the write of `SetLegalHold(id, true)` on, while any operations interleave.

* `Holding`, `holding_exec`  what is left of a `SetLegalHold`, and that it returns nil with the write of the hold;
* `hold_absolute`  **the record stays under hold in its state, and its object in the backend**.
-/

namespace Storage

open Pool Lts Code

section
variable {S : Service} {U : Bytes → Prop} {id : String}

/-! ## the write of the hold -/

/-- what is left of a `SetLegalHold` -/
inductive Holding (S : Service) (id : String) (hold : Bool) : Op Reply → Prop
  | start : Holding S id hold (body S (.setLegalHold id hold))
  | write (a : Artifact) (hid : a.id = id) :
      Holding S id hold ((access (.update { a with retention := { a.retention with legalHold := hold } })).bind
        fun r => .ret (.done r))
  | done (r : Reply) : Holding S id hold (.ret r)

theorem holding_exec {hold : Bool} {x : Op Reply} {c : Cmd} {k : c.Ans → Op Reply} {w m : World} {e : Env} {r : c.Ans}
    (h : Holding S id hold x) (hx : x = .call c k) (he : exec S c w e = some (r, m)) : Holding S id hold (k r) ∧
      (k r = .ret (.done (.ok ())) → ∃ a, m.store.find id = some a ∧ a.retention.legalHold = hold) := by
  cases h with
  | start =>
    cases hx
    cases he
    cases hget : w.store.get id with
    | error err =>
      refine ⟨.done _, fun heq => ?_⟩
      cases heq
    | ok a =>
      refine ⟨.write a (find_id (MemoryStore.get_ok hget)), fun heq => ?_⟩
      cases heq
  | write a hid =>
    cases hx
    refine ⟨.done _, fun heq => ?_⟩
    cases heq
    rcases exec_update he with ⟨⟨err, herr⟩, -⟩ | ⟨-, cur, store, -, rfl, hself, -⟩
    · cases herr
    · exact ⟨_, hid ▸ hself, rfl⟩
  | done r => cases hx

def AllHolding (S : Service) (sys : Sys World Th) : Prop :=
  ∀ i t id hold, sys.pool i = some t → t.what = .setLegalHold id hold → Holding S id hold t.code

theorem allHolding_next (sys : Sys World Th) (l : Act Call Env) (sys' : Sys World Th)
    (h : AllHolding S sys) (hn : (calls S).next sys l = some sys') : AllHolding S sys' := by
  intro j u id hold hu hw
  cases l with
  | spawn i c =>
    obtain ⟨-, rfl⟩ := next_spawn hn
    rcases update_cases hu with ⟨-, rfl⟩ | ⟨-, hp⟩
    · cases hw
      exact .start
    · exact h j u id hold hp hw
  | step i e =>
    obtain ⟨t, t', m, hp, hs, rfl⟩ := next_step hn
    obtain ⟨c, k, a, hcode, he, rfl⟩ := prog_step hs
    rcases update_cases hu with ⟨-, rfl⟩ | ⟨-, hq⟩
    · exact (holding_exec (h i t id hold hp hw) hcode he).1
    · exact h j u id hold hq hw

/-! ## while the hold lasts -/

abbrev underHold (a : Artifact) : Watch := ⟨a, a.state, true⟩

/-- no call clears the hold, a call of `early` leaves the record and its object, and a purge that counts references
finds its own record not deleted -/
def Respects (early : List Nat) (a : Artifact) (sys : Sys World Th) (l : Act Call Env) : Prop :=
  (Allows (underHold a) l ∧ Aloof early (underHold a) sys l) ∧ Guard (fun _ => Counted) sys l

instance (early : List Nat) (a : Artifact) (sys : Sys World Th) (l : Act Call Env) :
    Decidable (Respects early a sys l) := by
  unfold Respects
  infer_instance

section
variable {a y : Artifact} (hid : y.id = a.id)
include hid

theorem allowed_same : Allowed ⟨y, a.state, true⟩ = Allowed (underHold a) := by
  funext c
  cases c <;> simp only [Allowed, hid]

theorem respects_same (hb : y.bucket = a.bucket) (hk : y.objectKey = a.objectKey) {early : List Nat}
    {sys : Sys World Th} {l : Act Call Env} (h : Respects early a sys l) :
    Allows ⟨y, a.state, true⟩ l ∧ Aloof early ⟨y, a.state, true⟩ sys l := by
  have hleaves : Leaves ⟨y, a.state, true⟩ = Leaves (underHold a) := by
    funext c
    cases c <;> simp only [Leaves, hid, hb, hk]
  unfold Allows Aloof
  rw [allowed_same hid, hleaves]
  exact h.1

end

/-- a count of the references to the object of a record that is not deleted finds it, and the record that is purged -/
theorem spared_of_counted {x : Watch} {w : World} {c : Cmd} (hB : Base S U w) (hP : Proper S U w c)
    (h : Watched S x w) (hlive : x.state ≠ .deleted) (hcount : Counted w c) : Spared S x w c := by
  obtain ⟨a, ha, hstate, -⟩ := h.row
  obtain ⟨hbucket, hkey⟩ := Artifact.same_object (hB.core_row ha h.made rfl)
  have hrefers : a.refers x.art.bucket x.art.objectKey = true :=
    Artifact.refers_iff.mpr ⟨hbucket.symm, hkey.symm, by rw [hstate]; exact hlive⟩
  have hpos : 0 < w.store.countReferences x.art.bucket x.art.objectKey := by
    refine Nat.pos_of_ne_zero fun hzero => ?_
    rw [MemoryStore.countReferences_eq_zero.mp hzero _ a ha] at hrefers
    cases hrefers
  constructor
  · intro n hn hne hb hk
    obtain ⟨y, hy, hyid, hybucket, hykey⟩ : ∃ y ∈ w.made, y.id = n.id ∧ y.bucket = n.bucket ∧ y.objectKey = n.key := by
      unfold Cmd.counts at hn
      split at hn
      · cases hn
        exact hP
      · cases hn
    rcases hcount n hn with ⟨b, hrow, hbs⟩ | hzero
    · obtain ⟨hbb, hbk⟩ := Artifact.same_object (hB.core_row hrow hy hyid)
      have hrefers' : b.refers n.bucket n.key = true :=
        Artifact.refers_iff.mpr ⟨hbb.symm.trans hybucket, hbk.symm.trans hykey, hbs⟩
      rw [← hb, ← hk] at hrefers
      refine Nat.lt_of_not_le fun hle => hne ?_
      exact MemoryStore.eq_of_countReferences hle hrow ha hrefers' hrefers
    · rw [hb, hk] at hzero
      exact absurd hzero hpos.ne'
  · rintro ⟨bucket, key⟩ hn rfl rfl
    exact .inl hpos

/-- **A legal hold is absolute**: while no call clears it the record stays held in its state, with its object, unless a
call that was under way at its write changes them. -/
theorem hold_absolute {run₀ : List (Act Call Env)} {sys₀ sys₁ : Sys World Th} {i : Nat} {e : Env} {t₀ t₁ : Th}
    (hD : Distinct S) (hr₀ : Lts.run (calls S).next (idle {}) run₀ = some sys₀)
    (hp₀ : sys₀.pool i = some t₀) (hw : t₀.what = .setLegalHold id true)
    (hn : (calls S).next sys₀ (.step i e) = some sys₁) (hp₁ : sys₁.pool i = some t₁)
    (hdone : t₁.code = .ret (.done (.ok ()))) :
    ∃ a, sys₁.shared.store.find id = some a ∧ a.retention.legalHold = true ∧
      (a.state ≠ .deleted → Stored S sys₁.shared a.bucket a.objectKey →
        ∀ early, (∀ j u, j ∉ early → sys₁.pool j = some u → Fresh S (underHold a) u) →
        ∀ run sys, Lts.Along (calls S).next (Respects early a) sys₁ run → Lts.run (calls S).next sys₁ run = some sys →
          ∃ b, sys.shared.store.find id = some b ∧ b.retention.legalHold = true ∧ b.state = a.state ∧
            b.bucket = a.bucket ∧ b.objectKey = a.objectKey ∧ Stored S sys.shared b.bucket b.objectKey) := by
  have hholding : AllHolding S sys₀ :=
    run_inv_all (fun s l s' h hn => allHolding_next s l s' h hn) (fun i t id hold hp => by cases hp) hr₀
  obtain ⟨t, t', m, hp, hs, rfl⟩ := next_step hn
  obtain ⟨c, k, r, hcode, he, rfl⟩ := prog_step hs
  cases hp₀.symm.trans hp
  rcases update_cases hp₁ with ⟨-, rfl⟩ | ⟨hne, -⟩
  swap
  · exact absurd rfl hne
  obtain ⟨a, ha, hheld⟩ := (holding_exec (hholding i t₀ id true hp hw) hcode he).2 hdone
  refine ⟨a, ha, hheld, fun hlive hstored early hfresh run sys hC hr => ?_⟩
  -- the whole run, from the start
  have hr₁ : Lts.run (calls S).next (idle {}) (run₀ ++ [.step i e]) = some ⟨m, _⟩ :=
    run_append_eq hr₀ (by rw [run_cons, hn]; rfl)
  have hU : ∀ ls : List (Act Call Env), ∀ l ∈ ls, Uploads S (fun _ => True) l := fun _ l _ => uploads_true l
  have hall := records_along start_empty (hU _) (run_append_eq hr₁ hr)
  have hP := ((along_append _ _ _).mp hall).2 _ hr₁
  have hB₁ := (records_run start_empty (hU _) hr₁).shared
  have hB := (records_run start_empty (hU _) (run_append_eq hr₁ hr)).shared
  -- the record that was added is the one to watch
  obtain ⟨y, hy, hcore⟩ := hB₁.rows id a ha
  obtain ⟨hbucket, hkey⟩ := Artifact.same_object hcore
  have hyid : y.id = id := (congrArg Artifact.id hcore :).trans (find_id ha :)
  subst hyid
  have hwatch : Watched S ⟨y, a.state, true⟩ m := by
    refine ⟨hy, ⟨a, ha, rfl, fun _ => hheld⟩, ?_⟩
    rw [hbucket, hkey]
    exact hstored
  have hG : Guarded S (fun _ => True) ⟨y, a.state, true⟩ fun w c =>
      (Base S (fun _ => True) w ∧ Proper S (fun _ => True) w c) ∧ Counted w c :=
    ⟨hD, .inl ⟨rfl, hlive⟩, fun _ _ h => h.1, fun _ _ hI h => spared_of_counted h.1.1 h.1.2 hI hlive h.2⟩
  have hid : y.id = a.id := (congrArg Artifact.id hcore :)
  have hguard := along_mono (fun sys l h => And.intro (respects_same hid hbucket hkey h.1) (guard_and h.2 h.1.2)) _ _
    (along_and hC hP)
  have hfresh' : ∀ j u, j ∉ early → Function.update sys₀.pool i (some ⟨t₀.what, k r⟩) j = some u →
      Fresh S ⟨y, a.state, true⟩ u := by
    unfold Fresh
    rw [allowed_same hid]
    exact hfresh
  obtain ⟨hy', ⟨b, hb, hbs, hbheld⟩, hbstored⟩ := watched_run hG hfresh' hwatch hguard hr
  obtain ⟨hbb, hbk⟩ := Artifact.same_object (hB.core_row hb hy' rfl)
  refine ⟨b, hb, hbheld rfl, hbs, hbb.symm.trans hbucket, hbk.symm.trans hkey, ?_⟩
  rw [← hbb, ← hbk]
  exact hbstored

end

/-! ## runs -/

def returnedNil (t : Th) : Bool :=
  match t.result with
  | some (.done (.ok ())) => true
  | _ => false

theorem returnedNil_code {t : Th} (h : returnedNil t = true) : t.code = .ret (.done (.ok ())) := by
  obtain ⟨what, code⟩ := t
  cases code with
  | call c k => cases h
  | ret r =>
    unfold returnedNil Thread.result at h
    split at h
    · rename_i heq
      cases heq
      rfl
    · cases h

def holdRun : List (Act Call Env) :=
  storeRun 0 "" "x" ++ (dedupRun 3 "" "y" "x").take 2 ++ [.spawn 1 (.setLegalHold "x" true), .step 1 {}]

def heldRun : List (Act Call Env) :=
  callRun 2 (.delete "x") 1 ++ (dedupRun 3 "" "y" "x").drop 2 ++ callRun 4 (.purge "y") 4

theorem hold_absolute_heldRun : Distinct sample ∧
    ∃ sys₀ ∈ sampleRun holdRun,
      ∃ t₀ ∈ sys₀.pool 1, t₀.what = .setLegalHold "x" true ∧
      ∃ sys₁ ∈ (calls sample).next sys₀ (.step 1 {}), ∃ t₁ ∈ sys₁.pool 1,
        t₁.code = .ret (.done (.ok ())) ∧
        ∃ a, sys₁.shared.store.find "x" = some a ∧ a.retention.legalHold = true ∧ a.state ≠ .deleted ∧
          Stored sample sys₁.shared a.bucket a.objectKey ∧
          (∀ j u, j ∉ [3] → sys₁.pool j = some u → Fresh sample (underHold a) u) ∧
          Lts.Along (calls sample).next (Respects [3] a) sys₁ heldRun ∧
          ∃ sys ∈ Lts.run (calls sample).next sys₁ heldRun, sys.shared.store.find "y" = none ∧
            ∃ b, sys.shared.store.find "x" = some b ∧ b.retention.legalHold = true ∧ b.state = a.state ∧
              b.bucket = a.bucket ∧ b.objectKey = a.objectKey ∧
              Stored sample sys.shared b.bucket b.objectKey := by
  have hend : ∃ sys₀ ∈ sampleRun holdRun,
      ∃ t₀ ∈ sys₀.pool 1, t₀.what = .setLegalHold "x" true ∧
      ∃ sys₁ ∈ (calls sample).next sys₀ (.step 1 {}), ∃ t₁ ∈ sys₁.pool 1, returnedNil t₁ = true ∧
        ∃ a ∈ sys₁.shared.store.find "x", a.state ≠ .deleted ∧ ∃ p ∈ physicalBucket sample a.bucket,
            (sys₁.shared.objects.lookup (p, a.objectKey)).isSome = true := by
    decide +kernel
  have hafter : ∀ sys₁ ∈ sampleRun (holdRun ++ [.step 1 {}]),
      (∀ j < 4, j ∉ [3] → ∀ u ∈ sys₁.pool j, u.next = none) ∧ ∀ a ∈ sys₁.shared.store.find "x",
        Lts.Along (calls sample).next (Respects [3] a) sys₁ heldRun ∧
        ∃ sys ∈ Lts.run (calls sample).next sys₁ heldRun, sys.shared.store.find "y" = none := by
    decide +kernel
  obtain ⟨sys₀, hr₀, t₀, hp₀, hw, sys₁, hn, t₁, hp₁, hnil, a, ha, hlive, hstored⟩ := hend
  have hr₁ : sampleRun (holdRun ++ [.step 1 {}]) = some sys₁ :=
    run_append_eq hr₀ (by rw [run_cons, hn]; rfl)
  obtain ⟨hothers, hheldRun⟩ := hafter sys₁ hr₁
  obtain ⟨hC, sys, hr, hy⟩ := hheldRun a ha
  have hfresh : ∀ j u, j ∉ [3] → sys₁.pool j = some u → Fresh sample (underHold a) u := fun j u hj hu =>
    .inl (hothers j (run_below (n := 4) (by decide) hr₁ hu) hj u hu)
  have hdone := returnedNil_code hnil
  obtain ⟨a', ha', hheld, hkept⟩ := hold_absolute distinct_sample hr₀ hp₀ hw hn hp₁ hdone
  cases ha.symm.trans ha'
  exact ⟨distinct_sample, sys₀, hr₀, t₀, hp₀, hw, sys₁, hn, t₁, hp₁, hdone, a, ha, hheld, hlive, hstored, hfresh, hC,
    sys, hr, hy, hkept hlive hstored [3] hfresh heldRun sys hC hr⟩

/-- **A hold is lost**: a policy update clears it, and a purge that read the record before the hold removes the record
and its object. -/
theorem hold_lost : (∃ sys₁ ∈ sampleRun
        (storeRun 0 "" "x" ++ callRun 1 (.setLegalHold "x" true) 2),
      (∃ t ∈ sys₁.pool 1, returnedNil t = true) ∧ (∃ a ∈ sys₁.shared.store.find "x", a.retention.legalHold = true) ∧
      ∃ sys ∈ Lts.run (calls sample).next sys₁ (callRun 2 (.updateRetention "x" {}) 2),
        ∃ a ∈ sys.shared.store.find "x", a.retention.legalHold = false) ∧
    ∃ sys₁ ∈ sampleRun
        (storeRun 0 "" "x" ++ callRun 2 (.purge "x") 1 ++ callRun 1 (.setLegalHold "x" true) 2),
      (∃ t ∈ sys₁.pool 1, returnedNil t = true) ∧
      (∃ a ∈ sys₁.shared.store.find "x", a.retention.legalHold = true ∧ a.state = .available ∧
        sys₁.shared.objects.entries.length = 1) ∧
      ∃ sys ∈ Lts.run (calls sample).next sys₁ (List.replicate 4 (.step 2 {})),
        sys.shared.store.find "x" = none ∧ sys.shared.objects.entries = [] := by
  decide +kernel

end Storage
