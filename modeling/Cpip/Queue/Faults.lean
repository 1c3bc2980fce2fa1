import Cpip.Queue.Held

/-!
# Queue: messages under faults and crashes

Any stream command may fail, and the process may die between any two steps.

* `queued_kept`  **along every careful run a message that was neither handled nor cancelled is on a stream**;
* `messages_genuine`  **a message in memory comes from an entry of its own job and identifier**.
-/

namespace Queue

open Pool Lts List

/-! ## the condition -/

variable (s : State)

/-- what has to be in place before the entry is deleted -/
def Reason.Careful : Reason → Prop
  | .undecodable => True
  | .rejected m => .cancelled m.jobID ∈ s.log
  | .poison _ sent => sent = true
  | .handled _ => True
  | .dead _ sent => sent = true
  | .retried _ k =>
    s.timers[k]?.map Timer.state = some .requeued ∨ s.timers[k]?.map Timer.state = some .buried

/-- a successful deletion is careful -/
def Pc.Careful (a : Ans) : Pc → Prop
  | .delete _ why _ =>
    match a with
    | .ok _ => why.Careful s
    | .fail _ => True
  | _ => True

/-- the loops and the workers delete an entry only when what has to be in place is -/
def Careful (s : Sys State Pc) : Move Kind Ans → Prop
  | .act (.step i a) => ∀ pc ∈ s.pool i, pc.Careful s.shared a
  | _ => True

instance (s : State) (why : Reason) : Decidable (why.Careful s) := by
  unfold Reason.Careful
  split <;> infer_instance

instance (s : State) (a : Ans) (pc : Pc) : Decidable (pc.Careful s a) := by
  induction pc using Pc.casesOn with
  | delete id why k =>
    cases a with
    | ok n => exact inferInstanceAs (Decidable (why.Careful s))
    | fail n => exact inferInstanceAs (Decidable True)
  | _ => exact inferInstanceAs (Decidable True)

instance (s : Sys State Pc) (l : Move Kind Ans) : Decidable (Careful s l) := by
  unfold Careful
  rcases l with ⟨_ | _⟩ | _ <;> infer_instance

/-! ## what a deleted entry leaves behind -/

def Obs.handledMessage : Obs → Option Message
  | .handled m => some m
  | _ => none

/-- the handler returned nil, the job was cancelled, or there is a dead letter -/
def Settled (m : Message) : Prop :=
  (∃ n, .handled n ∈ s.log ∧ n.origin = m.origin) ∨ .cancelled m.jobID ∈ s.log ∨ Live s.dlq m

/-- there is a later entry with a copy of the message -/
def Later (id : ID) (m : Message) : Prop :=
  ∃ e ∈ s.exec.entries, id.less e.id = true ∧ ∃ x, e.fields = .data x ∧ x.Alike m

def Tied (k : Nat) (m : Message) : Prop :=
  ∃ t, s.timers[k]? = some t ∧ t.msg.streamID = m.streamID ∧ t.msg.Alike m

def Pc.timer : Pc → Option (Nat × Message)
  | .ack _ (.retried m k) _ => some (k, m)
  | .delete _ (.retried m k) _ => some (k, m)
  | .requeueAdd k m => some (k, m)
  | .requeueBury k m _ => some (k, m)
  | _ => none

def Timed (pc : Pc) : Prop := ∀ k m, pc.timer = some (k, m) → Tied s k m

/-- **every deleted entry leaves a settled message or a later entry behind** -/
structure Covered (s : State) : Prop where
  deleted : ∀ e ∈ s.exec.entries, e.deleted = true → ∀ x, e.fields = .data x → Settled s x ∨ Later s e.id x
  requeued : ∀ t ∈ s.timers, t.state = .requeued → Later s t.msg.streamID t.msg
  buried : ∀ t ∈ s.timers, t.state = .buried → Live s.dlq t.msg

section
variable {cfg : Config} {s s' : State} {pc pc' : Pc} {a : Ans} {m : Message}

theorem Settled.next (h : pc.next cfg s a = some (pc', s')) (hm : Settled s m) : Settled s' m := by
  have hl := (next_log h).subset
  rcases hm with ⟨n, hn, ho⟩ | hc | hd
  · exact .inl ⟨n, hl hn, ho⟩
  · exact .inr (.inl (hl hc))
  · exact .inr (.inr (hd.next h))

variable {id : ID}

theorem Later.next (h : pc.next cfg s a = some (pc', s')) (hm : Later s id m) : Later s' id m := by
  obtain ⟨e, he, hid, x, hx, hal⟩ := hm
  obtain ⟨y, hy, hyi, hyf, -⟩ := next_entries h he
  exact ⟨y, hy, hyi ▸ hid, x, hyf.trans hx, hal⟩

theorem Settled.alike {n : Message} (h : Settled s m) (hal : m.Alike n) : Settled s n := by
  rcases h with ⟨x, hx, ho⟩ | hc | ⟨e, he, hd, x, hx, hxa⟩
  · exact .inl ⟨x, hx, ho.trans hal.origin⟩
  · exact .inr (.inl (hal.job ▸ hc))
  · exact .inr (.inr ⟨e, he, hd, x, hx, hxa.trans hal⟩)

theorem Later.alike {n : Message} (h : Later s id m) (hal : m.Alike n) : Later s id n := by
  obtain ⟨e, he, hid, x, hx, hxa⟩ := h
  exact ⟨e, he, hid, x, hx, hxa.trans hal⟩

/-! ## timers -/

theorem Tied.next {k : Nat} (h : pc.next cfg s a = some (pc', s')) (hT : Timed s pc) (hm : Tied s k m) :
    Tied s' k m := by
  obtain ⟨t, ht, hid, hal⟩ := hm
  have hk : k < s.timers.length := (List.getElem?_eq_some_iff.mp ht).1
  -- the message of timer `i` is replaced by one that is tied to it
  have hset : ∀ i n st, s'.timers = s.timers.set i ⟨n, st⟩ → Tied s i n → Tied s' k m := by
    intro i n st hx ⟨u, hu, huid, hual⟩
    by_cases hi : i = k
    · subst hi
      cases ht.symm.trans hu
      refine ⟨⟨n, st⟩, ?_, huid.symm.trans hid, hual.symm.trans hal⟩
      rw [hx, getElem?_set_self hk]
    · refine ⟨t, ?_, hid, hal⟩
      rw [hx, getElem?_set_ne hi]
      exact ht
  have hsame : s'.timers = s.timers → Tied s' k m := fun hx => ⟨t, hx ▸ ht, hid, hal⟩
  cases next_memory h with
  | waits w n err hpc _ hx =>
    refine ⟨t, ?_, hid, hal⟩
    rw [hx, getElem?_append_left hk]
    exact ht
  | fires i n hpc hn _ hx => exact hset i n _ hx ⟨_, hn, rfl, .refl n⟩
  | ends i n st hpc _ hx =>
    refine hset i n st hx (hT i n ?_)
    rcases hpc with ⟨rfl, -⟩ | ⟨err, rfl, -⟩ <;> rfl
  | same _ hx | handed w n c _ _ hx | taken w n _ _ _ hx | stored j id _ _ hx | forgot j _ hx =>
    exact hsame hx

theorem timed_free (h : pc.timer = none) : Timed s pc := fun k m hk => by
  rw [h] at hk
  cases hk

theorem timed_now {k : Nat} (h : pc.timer = some (k, m)) (hm : Tied s k m) : Timed s pc := fun i n hi => by
  rw [h] at hi
  cases hi
  exact hm

theorem timed_next (hT : Timed s pc) (h : pc.next cfg s a = some (pc', s')) : Timed s' pc' := by
  have hkeep : Timed s' pc := fun k m hk => (hT k m hk).next h hT
  cases pc
  case ack id why k =>
    cases a <;> cases h <;> cases why <;> exact hkeep
  case workerRetry w m err =>
    simp only [Pc.next] at h
    split at h
    · cases a <;> cases h <;> exact timed_free rfl
    cases h
    refine timed_now rfl ⟨⟨m.retry, .waiting⟩, ?_, rfl, ⟨rfl, rfl, rfl⟩⟩
    simp
  case requeueTake k =>
    simp only [Pc.next] at h
    split at h
    · rename_i m hm
      cases h
      have hk : k < s.timers.length := (List.getElem?_eq_some_iff.mp hm).1
      refine timed_now rfl ⟨⟨m, .running⟩, ?_, rfl, ⟨rfl, rfl, rfl⟩⟩
      exact getElem?_set_self hk
    · cases h
  case requeueAdd k m =>
    cases a <;> cases h
    · exact timed_free rfl
    · exact hkeep
  case workerReport w m err => cases err <;> cases h <;> exact timed_free rfl
  case delete id why k =>
    cases a <;> cases h <;> rcases k with ⟨w, k⟩ | ⟨w, _ | _⟩ <;> exact timed_free rfl
  case submit w m k =>
    simp only [Pc.next] at h
    split at h <;> cases h
    cases k <;> exact timed_free rfl
  case release w k =>
    cases h
    cases k <;> exact timed_free rfl
  case recoverNext rest start nx =>
    cases rest <;> simp only [Pc.next] at h
    · cases h
      split <;> exact timed_free rfl
    repeat' split at h
    all_goals cases h
    all_goals exact timed_free rfl
  case recoverCount w m k =>
    cases a
    all_goals
      cases h
      dsimp only
      split <;> exact timed_free rfl
  all_goals cases a
  all_goals simp only [Pc.next, reject] at h
  all_goals repeat' split at h
  all_goals cases h
  all_goals exact timed_free rfl

/-! ## deletions -/

variable {e : Entry Fields} {x : Message}

theorem From.entry (hG : Genuine s) (hm : From s m) (he : e ∈ s.exec.entries) (hid : e.id = m.streamID)
    (hx : e.fields = .data x) : x.Alike m := by
  obtain ⟨y, hy, hyi, z, hz, hal, -⟩ := hm
  cases hG.ordered.unique hy he (hyi.trans hid.symm)
  cases hz.symm.trans hx
  exact hal

theorem covered_delete (hG : Genuine s) (hC : Covered s) {why : Reason} {k : After} (hL : Holds s (.delete id why k))
    (hR : Recorded s (.delete id why k)) (hT : Timed s (.delete id why k)) (hw : why.Careful s)
    (he : e ∈ s.exec.entries) (hid : e.id = id) (hx : e.fields = .data x) : Settled s x ∨ Later s id x := by
  have hdis := hL.discards id why rfl
  cases hwm : why.message with
  | none =>
    unfold Discard at hdis
    rw [hwm] at hdis
    obtain ⟨y, hy, hyi, hyf⟩ := hdis
    cases hG.ordered.unique hy he (hyi.trans hid.symm)
    cases hx.symm.trans hyf
  | some m =>
    unfold Discard at hdis
    rw [hwm] at hdis
    have hal : x.Alike m := (hL.message m hwm).entry hG he (hid.trans hdis.symm) hx
    cases why with
    | undecodable => cases hwm
    | rejected n =>
      cases hwm
      exact .inl (.inr (.inl (hal.job ▸ hw)))
    | poison n sent | dead n sent =>
      cases hwm
      cases (show sent = true from hw)
      have hd : Settled s m := .inr (.inr (hG.dead m (hR _ rfl)))
      exact .inl (hd.alike hal.symm)
    | handled n =>
      cases hwm
      exact .inl (.inl ⟨m, hR _ rfl, hal.origin.symm⟩)
    | retried n i =>
      cases hwm
      obtain ⟨t, ht, hti, hta⟩ := hT i m rfl
      have hmem := mem_of_getElem? ht
      rw [Reason.Careful, ht] at hw
      simp only [Option.map_some, Option.some.injEq] at hw
      rcases hw with hq | hb
      · have hl := (hC.requeued t hmem hq).alike (hta.trans hal.symm)
        rw [hti, hdis] at hl
        exact .inr hl
      · have hd : Settled s t.msg := .inr (.inr (hC.buried t hmem hb))
        exact .inl (hd.alike (hta.trans hal.symm))

theorem covered_cancel (hG : Genuine s) {jobID : String} (hL : Holds s (.cancelDelete jobID id))
    (hR : Recorded s (.cancelDelete jobID id)) (he : e ∈ s.exec.entries) (hid : e.id = id) (hx : e.fields = .data x) :
    Settled s x := by
  obtain ⟨y, hy, hyi, z, hz, hj⟩ := hL.caches jobID id rfl
  cases hG.ordered.unique hy he (hyi.trans hid.symm)
  cases hz.symm.trans hx
  exact .inr (.inl (hj ▸ hR _ rfl))

theorem next_deleted (h : pc.next cfg s a = some (pc', s')) (he : e ∈ s'.exec.entries) (hd : e.deleted = true) :
    e ∈ s.exec.entries ∨ pc.removes = some e.id ∧ (∃ now, a = .ok now) ∧
        ∃ y ∈ s.exec.entries, y.id = e.id ∧ y.fields = e.fields := by
  cases (next_change h).entries with
  | same hx => exact .inl (hx ▸ he)
  | queued m t hx | foreign t hx =>
    rw [hx] at he
    rcases mem_append.mp he with he | he
    · exact .inl he
    · rw [mem_singleton.mp he] at hd
      cases hd
  | removed id hpc hx _ ha =>
    rw [hx] at he
    obtain ⟨y, hy, rfl⟩ := mem_delete.mp he
    by_cases hid : y.id = id
    · rw [if_pos hid]
      exact .inr ⟨hid ▸ hpc, ha, y, hy, rfl, rfl⟩
    · rw [if_neg hid]
      exact .inl hy

theorem deleted_next (hG : Genuine s) (hC : Covered s) (hL : Holds s pc) (hR : Recorded s pc) (hT : Timed s pc)
    (hc : pc.Careful s a) (h : pc.next cfg s a = some (pc', s')) (he : e ∈ s'.exec.entries) (hd : e.deleted = true)
    (hx : e.fields = .data x) : Settled s' x ∨ Later s' e.id x := by
  have hold : Settled s x ∨ Later s e.id x := by
    rcases next_deleted h he hd with he | ⟨hpc, ⟨now, rfl⟩, y, hy, hyi, hyf⟩
    · exact hC.deleted e he hd x hx
    cases pc
    case delete id why k =>
      cases hpc
      exact covered_delete hG hC hL hR hT hc hy hyi (hyf.trans hx)
    case cancelDelete jobID id =>
      cases hpc
      exact .inl (covered_cancel hG hL hR hy hyi (hyf.trans hx))
    all_goals cases hpc
  exact hold.imp (·.next h) (·.next h)

/-! ## the shared state after a step -/

theorem later_enqueue (hG : Genuine s) (hm : From s m) (now : Int) : Later (s.enqueue now m) m.streamID m := by
  obtain ⟨e, he, hid, -⟩ := hm
  obtain ⟨x, hx, hal, -⟩ := marshal_alike m
  refine ⟨_, mem_append_right _ (mem_singleton_self _), ?_, x, hx, hal⟩
  rw [← hid]
  exact ID.less_of_not_less (hG.ordered.below e he) (nextID_less s.last now)

theorem live_bury (m : Message) (reason : String) (now : Int) : Live (s.bury now m reason).dlq m := by
  obtain ⟨x, hx, hal, -⟩ := marshal_alike (m.bury reason)
  exact ⟨_, mem_append_right _ (mem_singleton_self _), rfl, x, hx, hal.trans ⟨rfl, rfl, rfl⟩⟩

theorem next_timer (hG : Genuine s) (hL : Holds s pc) (h : pc.next cfg s a = some (pc', s'))
    {t : Timer} (ht : t ∈ s'.timers) : t ∈ s.timers ∨ (t.state = .requeued → Later s' t.msg.streamID t.msg) ∧
        (t.state = .buried → Live s'.dlq t.msg) := by
  cases hmem : next_memory h with
  | waits w m err _ _ hx =>
    rw [hx] at ht
    rcases mem_append.mp ht with ht | ht
    · exact .inl ht
    · rw [mem_singleton.mp ht]
      exact .inr ⟨(fun h => by cases h), (fun h => by cases h)⟩
  | fires k m _ _ _ hx =>
    rw [hx] at ht
    rcases mem_or_eq_of_mem_set ht with ht | rfl
    · exact .inl ht
    · exact .inr ⟨(fun h => by cases h), (fun h => by cases h)⟩
  | ends k m st hpc _ hx =>
    rcases hpc with ⟨rfl, rfl⟩ | ⟨err, rfl, hst⟩
    · cases a <;> cases h
      · rcases mem_or_eq_of_mem_set ht with ht | rfl
        · exact .inl ht
        · exact .inr ⟨fun _ => later_enqueue hG (hL.message m rfl) _, (fun h => by cases h)⟩
      · exact .inl ht
    · cases a <;> cases h
      · rcases mem_or_eq_of_mem_set ht with ht | rfl
        · exact .inl ht
        · exact .inr ⟨(fun h => by cases h), fun _ => live_bury m _ _⟩
      · rcases mem_or_eq_of_mem_set ht with ht | rfl
        · exact .inl ht
        · exact .inr ⟨(fun h => by cases h), (fun h => by cases h)⟩
  | same _ hx | handed w m k _ _ hx | taken w m _ _ _ hx | stored j id _ _ hx | forgot j _ hx =>
    exact .inl (hx ▸ ht)

/-- **A careful step keeps the deleted entries covered.** -/
theorem covered_next (hG : Genuine s) (hC : Covered s) (hL : Holds s pc) (hR : Recorded s pc)
    (hT : Timed s pc) (hc : pc.Careful s a) (h : pc.next cfg s a = some (pc', s')) : Covered s' where
  deleted e he hd x hx := deleted_next hG hC hL hR hT hc h he hd hx
  requeued t ht hq := by
    rcases next_timer hG hL h ht with ht | ht
    · exact (hC.requeued t ht hq).next h
    · exact ht.1 hq
  buried t ht hb := by
    rcases next_timer hG hL h ht with ht | ht
    · exact (hC.buried t ht hb).next h
    · exact ht.2 hb

theorem covered_crash (hC : Covered s) : Covered s.crash where
  deleted e he hd x hx := by
    rcases hC.deleted e he hd x hx with (⟨n, hn, ho⟩ | hc | hl) | hl
    · exact .inl (.inl ⟨n, mem_cons_of_mem _ hn, ho⟩)
    · exact .inl (.inr (.inl (mem_cons_of_mem _ hc)))
    · exact .inl (.inr (.inr hl))
    · exact .inr hl
  requeued t ht := by cases ht
  buried t ht := by cases ht

/-- where the deleted entries are covered, a message that is not settled has a live entry: the last
one of its call -/
theorem Covered.live (hG : Genuine s) (hC : Covered s) (hq : .queued m id ∈ s.log) : Settled s m ∨ Live s.exec m := by
  obtain ⟨e, he, -, x, hx, hal⟩ := hG.logged m id hq
  obtain ⟨y, hy, ⟨z, hz, hza⟩, hlast⟩ := hG.ordered.exists_last
    (p := fun e => ∃ x, e.fields = .data x ∧ x.Alike m) ⟨e, he, x, hx, hal⟩
  by_cases hd : y.deleted = true
  · rcases hC.deleted y hy hd z hz with hs | ⟨w, hw, hl, v, hv, hva⟩
    · exact .inl (hs.alike hza)
    have := hlast w hw ⟨v, hv, hva.trans hza⟩
    rw [hl] at this
    cases this
  · exact .inr ⟨y, hy, Bool.eq_false_iff.mpr hd, z, hz, hza⟩

/-! ## runs -/

/-- **Whatever fails, a message that was neither handled nor cancelled is on one of the streams.** -/
theorem queued_kept {b : Bool} {sys : Sys State Pc} {ls : List (Move Kind Ans)}
    (hc : Along (next cfg) Careful (idle { orch := b }) ls)
    (hr : run (next cfg) (idle { orch := b }) ls = some sys) {m : Message} {id : ID}
    (hq : .queued m id ∈ sys.shared.log) (hh : ∀ n, .handled n ∈ sys.shared.log → n.origin ≠ m.origin)
    (hn : .cancelled m.jobID ∉ sys.shared.log) : Live sys.shared.exec m ∨ Live sys.shared.dlq m := by
  have hinv : Inv Covered Timed (fun _ _ _ => True) sys := by
    refine inv_moves (P := queue cfg) (C := fun s l => Sound s ∧ Careful s l)
      ⟨fun s i c _ _ => ?_, fun s i a t t' m hi hc hp hs => ?_⟩ (fun s hi => covered_crash hi.shared)
      (inv_idle ⟨fun e he => (by cases he), fun t ht => (by cases ht), fun t ht => (by cases ht)⟩)
      (along_and (sound_along b ls) hc) hr
    · refine ⟨?_, fun _ _ _ => ⟨trivial, trivial⟩⟩
      cases c <;> exact timed_free rfl
    obtain ⟨hL, hR⟩ := hc.1.each i t hp
    have hT := hi.each i t hp
    refine keeps_each (covered_next hc.1.shared hi.shared hL hR hT (hc.2 t hp) hs) (timed_next hT hs) fun j u _ hu => ?_
    exact fun k n hk => (hi.each j u hu k n hk).next hs hT
  rcases hinv.shared.live (sound_run hr).shared hq with (⟨n, hnl, ho⟩ | hcl | hl) | hl
  · exact absurd ho (hh n hnl)
  · exact absurd hcl hn
  · exact .inr hl
  · exact .inl hl

def requeuedRun : List (Move Kind Ans) :=
  call 0 .start 1 ++ call 1 (.worker "w") 3 ++ submitted "j" ++ call 3 (.schedule { id := "j" }) 2 ++
    call 4 .fetch 7 ++ steps 1 3 ++ [.act (.step 1 (.fail "exit status 1"))] ++ steps 1 5 ++
    call 6 (.requeue 0) 2 ++ steps 1 1 ++ [.die]

theorem queued_kept_requeuedRun : Along (next Config.default) Careful (idle {}) requeuedRun ∧
      ∃ sys ∈ run (next Config.default) (idle {}) requeuedRun,
        (∃ e ∈ sys.shared.exec.entries, e.id = ⟨0, 1⟩ ∧ e.deleted = true) ∧
          (Live sys.shared.exec (.ofJob 0 { id := "j" }) ∨
            Live sys.shared.dlq (.ofJob 0 { id := "j" })) := by
  have hend : ∃ sys ∈ run (next Config.default) (idle {}) requeuedRun,
      (∃ e ∈ sys.shared.exec.entries, e.id = ⟨0, 1⟩ ∧ e.deleted = true) ∧
        .queued (.ofJob 0 { id := "j" }) ⟨0, 1⟩ ∈ sys.shared.log ∧
        (∀ o ∈ sys.shared.log, ∀ n ∈ o.handledMessage, n.origin ≠ 0) ∧
        .cancelled "j" ∉ sys.shared.log := by
    decide +kernel
  obtain ⟨sys, hr, he, hq, hh, hn⟩ := hend
  refine ⟨?hc, sys, hr, he, queued_kept ?hc hr hq (fun n hl => hh _ hl n rfl) hn⟩
  decide +kernel

/-- the worker deletes the entry, and the process dies before the retry fires -/
def crashedRun : List (Move Kind Ans) :=
  call 0 .start 1 ++ call 1 (.worker "w") 3 ++ submitted "j" ++ call 3 (.schedule { id := "j" }) 2 ++
    call 4 .fetch 7 ++ steps 1 3 ++ [.act (.step 1 (.fail "exit status 1"))] ++ steps 1 6 ++ [.die]

/-- the last attempt fails, and so does the dead-letter write; the worker deletes the entry -/
def lostLetterRun : List (Move Kind Ans) :=
  call 0 .start 1 ++ call 1 (.worker "w") 3 ++ submitted "j" ++
    call 3 (.schedule { id := "j", retryCount := 3 }) 2 ++ call 4 .fetch 7 ++ steps 1 3 ++
    [.act (.step 1 (.fail "exit status 1"))] ++ steps 1 3 ++
    [.act (.step 1 (.fail "connection refused"))] ++ steps 1 2

/-- **A message can be lost**: its entry is deleted while its only copy is in memory, or after the
write of its dead letter failed. -/
theorem queued_lost : (∃ sys ∈ run (next Config.default) (idle {}) crashedRun,
      .queued (.ofJob 0 { id := "j" }) ⟨0, 1⟩ ∈ sys.shared.log ∧
        (∀ o ∈ sys.shared.log, o.handledMessage = none) ∧ .cancelled "j" ∉ sys.shared.log ∧
        ¬ Live sys.shared.exec (.ofJob 0 { id := "j" }) ∧
        ¬ Live sys.shared.dlq (.ofJob 0 { id := "j" })) ∧
    ∃ sys ∈ run (next Config.default) (idle {}) lostLetterRun,
      .queued (.ofJob 0 { id := "j", retryCount := 3 }) ⟨0, 1⟩ ∈ sys.shared.log ∧
        (∀ o ∈ sys.shared.log, o.handledMessage = none) ∧ .cancelled "j" ∉ sys.shared.log ∧
        ¬ Live sys.shared.exec (.ofJob 0 { id := "j", retryCount := 3 }) ∧
        ¬ Live sys.shared.dlq (.ofJob 0 { id := "j", retryCount := 3 }) := by
  refine ⟨?_, ?_⟩ <;> decide +kernel

/-! ## messages in memory -/

/-- **Whatever fails, a message in memory comes from an entry of its own job and identifier.** -/
theorem messages_genuine {b : Bool} {sys : Sys State Pc} {ls : List (Move Kind Ans)}
    (hr : run (next cfg) (idle { orch := b }) ls = some sys) {m : Message} (hm : (∃ w, sys.shared.jobCh w = some m) ∨
      (∃ t ∈ sys.shared.timers, t.msg = m) ∨ ∃ i pc, sys.pool i = some pc ∧ pc.message = some m) :
    From sys.shared m ∧ m.origin < sys.shared.calls ∧
      ∀ e ∈ sys.shared.exec.entries, ∀ y, e.fields = .data y → y.origin = m.origin → y.Alike m := by
  have hs := sound_run hr
  have hfrom : From sys.shared m := by
    rcases hm with ⟨w, hw⟩ | ⟨t, ht, rfl⟩ | ⟨i, pc, hp, hm⟩
    · exact hs.shared.chan w m hw
    · exact hs.shared.timers t ht
    · exact (hs.each i pc hp).1.message m hm
  have ⟨e, he, _, x, hx, hal, _⟩ := hfrom
  refine ⟨hfrom, hal.origin ▸ hs.shared.fresh e he x hx, fun e' he' y hy ho => ?_⟩
  exact (hs.shared.alike e' he' e he y x hy hx (ho.trans hal.origin.symm)).trans hal

theorem messages_genuine_crashedRun : ∃ sys ∈ run (next Config.default) (idle {}) crashedRun.dropLast,
    (∃ t ∈ sys.shared.timers, t.msg.jobID = "j") ∧ ∀ t ∈ sys.shared.timers, From sys.shared t.msg :=
  exists_run_and (by decide +kernel) fun _ hr _ t ht => (messages_genuine hr (.inr (.inl ⟨t, ht, rfl⟩))).1

end

end Queue
