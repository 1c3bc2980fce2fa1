import Cpip.Queue.Effects

/-!
# Queue: where the messages of the threads come from

An invariant of every run, faults and crashes included.

* `Sound`  what is in memory comes from the stream, and what the threads take for done is on record;
* `sound_run`, `sound_along`  **it holds in every state of every run.**
-/

namespace Queue

open Pool List Lts

structure Message.Alike (a b : Message) : Prop where
  job : a.jobID = b.jobID
  origin : a.origin = b.origin
  ceiling : a.maxRetries = b.maxRetries

theorem Message.Alike.refl (a : Message) : a.Alike a := ⟨rfl, rfl, rfl⟩

theorem Message.Alike.symm {a b : Message} (h : a.Alike b) : b.Alike a :=
  ⟨h.job.symm, h.origin.symm, h.ceiling.symm⟩

theorem Message.Alike.trans {a b c : Message} (h : a.Alike b) (h' : b.Alike c) : a.Alike c :=
  ⟨h.job.trans h'.job, h.origin.trans h'.origin, h.ceiling.trans h'.ceiling⟩

theorem marshal_alike (m : Message) : ∃ x, marshal m = .data x ∧ x.Alike m ∧ x.retryCount = m.retryCount := by
  unfold marshal
  split
  · exact ⟨_, rfl, ⟨rfl, rfl, rfl⟩, rfl⟩
  · exact ⟨_, rfl, .refl m, rfl⟩

variable (s : State)

def From (m : Message) : Prop :=
  ∃ e ∈ s.exec.entries, e.id = m.streamID ∧ ∃ x, e.fields = .data x ∧ x.Alike m ∧ x.retryCount ≤ m.retryCount

def Live (x : Stream Fields) (m : Message) : Prop :=
  ∃ e ∈ x.entries, e.deleted = false ∧ ∃ n, e.fields = .data n ∧ n.Alike m

instance (a b : Message) : Decidable (a.Alike b) :=
  decidable_of_iff (a.jobID = b.jobID ∧ a.origin = b.origin ∧ a.maxRetries = b.maxRetries)
    ⟨fun h => ⟨h.1, h.2.1, h.2.2⟩, fun h => ⟨h.job, h.origin, h.ceiling⟩⟩

instance (f : Fields) (m : Message) : Decidable (∃ n, f = .data n ∧ n.Alike m) :=
  match f with
  | .malformed => isFalse fun ⟨_, h, _⟩ => by cases h
  | .data x => decidable_of_iff (x.Alike m) ⟨fun h => ⟨x, rfl, h⟩, fun ⟨_, h, ha⟩ => by cases h; exact ha⟩

instance (x : Stream Fields) (m : Message) : Decidable (Live x m) := by
  unfold Live
  infer_instance

def Known (e : Entry Fields) : Prop :=
  ∃ x ∈ s.exec.entries, x.id = e.id ∧ x.fields = e.fields

/-- the cached identifier of a job names an entry of that job -/
def Cached (jobID : String) (id : ID) : Prop :=
  ∃ e ∈ s.exec.entries, e.id = id ∧ ∃ x, e.fields = .data x ∧ x.jobID = jobID

/-- an entry is taken off the stream for its own message, or because it has none -/
def Discard (id : ID) (why : Reason) : Prop :=
  match why.message with
  | some m => m.streamID = id
  | none => ∃ e ∈ s.exec.entries, e.id = id ∧ e.fields = .malformed

def Recorded (pc : Pc) : Prop := ∀ o, pc.record = some o → o ∈ s.log

/-- what a thread holds comes from the stream -/
structure Holds (s : State) (pc : Pc) : Prop where
  message : ∀ m, pc.message = some m → From s m
  page : ∀ e ∈ pc.page, Known s e
  discards : ∀ id why, pc.discards = some (id, why) → Discard s id why
  caches : ∀ jobID id, pc.caches = some (jobID, id) → Cached s jobID id

/-- **the entries are in order, alike within one call, and the memory comes from them** -/
structure Genuine (s : State) : Prop where
  ordered : Ordered s.exec.entries s.last
  fresh : ∀ e ∈ s.exec.entries, ∀ m, e.fields = .data m → m.origin < s.calls
  alike : ∀ e ∈ s.exec.entries, ∀ x ∈ s.exec.entries, ∀ m n, e.fields = .data m →
    x.fields = .data n → m.origin = n.origin → m.Alike n
  logged : ∀ m id, .queued m id ∈ s.log → ∃ e ∈ s.exec.entries, e.id = id ∧ ∃ x, e.fields = .data x ∧ x.Alike m
  dead : ∀ m, .dead m ∈ s.log → Live s.dlq m
  chan : ∀ w m, s.jobCh w = some m → From s m
  timers : ∀ t ∈ s.timers, From s t.msg
  cached : ∀ jobID id, s.streamIDs jobID = some id → Cached s jobID id

section
variable {cfg : Config} {s s' : State} {pc pc' : Pc} {a : Ans}

/-! ## the stream keeps its entries -/

variable {m : Message}

theorem From.next (h : pc.next cfg s a = some (pc', s')) (hm : From s m) : From s' m := by
  obtain ⟨e, he, hid, x, hx, hal⟩ := hm
  obtain ⟨y, hy, hyi, hyf, -⟩ := next_entries h he
  exact ⟨y, hy, hyi.trans hid, x, hyf.trans hx, hal⟩

variable {e : Entry Fields}

theorem Known.next (h : pc.next cfg s a = some (pc', s')) (hk : Known s e) : Known s' e := by
  obtain ⟨x, hx, hid, hf⟩ := hk
  obtain ⟨y, hy, hyi, hyf, -⟩ := next_entries h hx
  exact ⟨y, hy, hyi.trans hid, hyf.trans hf⟩

variable {id : ID}

section
variable (h : pc.next cfg s a = some (pc', s'))
include h

theorem Cached.next {jobID : String} (hc : Cached s jobID id) :
    Cached s' jobID id := by
  obtain ⟨e, he, hid, x, hx, hj⟩ := hc
  obtain ⟨y, hy, hyi, hyf, -⟩ := next_entries h he
  exact ⟨y, hy, hyi.trans hid, x, hyf.trans hx, hj⟩

theorem Live.next (hm : Live s.dlq m) : Live s'.dlq m := by
  obtain ⟨e, he, hd, x, hx, hal⟩ := hm
  exact ⟨e, next_dlq h he, hd, x, hx, hal⟩

theorem Discard.next {why : Reason} (hd : Discard s id why) :
    Discard s' id why := by
  unfold Discard at *
  split at hd
  · exact hd
  obtain ⟨e, he, hid, hf⟩ := hd
  obtain ⟨y, hy, hyi, hyf, -⟩ := next_entries h he
  exact ⟨y, hy, hyi.trans hid, hyf.trans hf⟩

theorem Holds.next {t : Pc} (hl : Holds s t) : Holds s' t :=
  ⟨fun m hm => (hl.message m hm).next h, fun e he => (hl.page e he).next h,
    fun id why hd => (hl.discards id why hd).next h, fun j id hc => (hl.caches j id hc).next h⟩

theorem Recorded.next {t : Pc} (ht : Recorded s t) : Recorded s' t := fun o ho => (next_log h).subset (ht o ho)

end

theorem From.alike {n : Message} (hm : From s m) (hs : n.streamID = m.streamID) (hal : m.Alike n)
    (hr : m.retryCount ≤ n.retryCount) : From s n := by
  obtain ⟨e, he, hid, x, hx, hxa, hxr⟩ := hm
  exact ⟨e, he, hid.trans hs.symm, x, hx, hxa.trans hal, hxr.trans hr⟩

theorem Known.message (hk : Known s e) (hu : unmarshal e.id e.fields = some m) : From s m := by
  obtain ⟨x, hx, hid, hf⟩ := hk
  cases hfe : e.fields with
  | malformed => simp [hfe, unmarshal] at hu
  | data n =>
    simp only [hfe, unmarshal, Option.some.injEq] at hu
    subst hu
    exact ⟨x, hx, hid, n, hf.trans hfe, ⟨rfl, rfl, rfl⟩, Nat.le_refl _⟩

theorem Known.malformed (hk : Known s e) (hu : unmarshal e.id e.fields = none) : Discard s e.id .undecodable := by
  obtain ⟨x, hx, hid, hf⟩ := hk
  refine ⟨x, hx, hid, hf.trans ?_⟩
  cases hfe : e.fields with
  | malformed => rfl
  | data n => simp [hfe, unmarshal] at hu

/-! ## kinds of points -/

@[simp] theorem resume_message (k : Cont) : k.resume.message = none := by
  cases k <;> rfl

@[simp] theorem resume_page (k : Cont) : k.resume.page = k.rest := by
  cases k <;> rfl

@[simp] theorem resume_discards (k : Cont) : k.resume.discards = none := by
  cases k <;> rfl

@[simp] theorem resume_caches (k : Cont) : k.resume.caches = none := by
  cases k <;> rfl

theorem recorded_free (h : pc.record = none) : Recorded s pc := fun _ ho => by
  cases h.symm.trans ho

theorem recorded_now {o : Obs} {l : List Obs} (hl : s.log = o :: l) (h : pc.record = some o) : Recorded s pc := by
  intro o' ho
  cases h.symm.trans ho
  exact hl ▸ mem_cons_self ..

theorem holds_free (hm : pc.message = none) (hp : ∀ e ∈ pc.page, Known s e) (hd : pc.discards = none)
    (hc : pc.caches = none) (hr : pc.record = none) : Holds s pc ∧ Recorded s pc := by
  refine ⟨⟨fun m h => ?_, hp, fun id why h => ?_, fun jobID id h => ?_⟩, recorded_free hr⟩
  · cases hm.symm.trans h
  · cases hd.symm.trans h
  · cases hc.symm.trans h

theorem holds_message (hm : pc.message = some m) (hf : From s m) (hp : ∀ e ∈ pc.page, Known s e)
    (hd : pc.discards = none) (hc : pc.caches = none) (hr : Recorded s pc) : Holds s pc ∧ Recorded s pc := by
  refine ⟨⟨fun n h => ?_, hp, fun id why h => ?_, fun jobID id h => ?_⟩, hr⟩
  · cases hm.symm.trans h
    exact hf
  · cases hd.symm.trans h
  · cases hc.symm.trans h

theorem holds_discard {why : Reason} {k : After} (hm : From s m) (hw : why.message = some m)
    (hk : ∀ e ∈ (Pc.ack m.streamID why k).page, Known s e) (hr : Recorded s (.ack m.streamID why k)) :
    Holds s (.ack m.streamID why k) ∧ Recorded s (.ack m.streamID why k) := by
  refine ⟨⟨fun n h => ?_, hk, fun id why' h => ?_, fun _ _ h => by cases h⟩, hr⟩
  · cases hw.symm.trans h
    exact hm
  · cases h
    unfold Discard
    rw [hw]

theorem holds_undecodable {k : After} (h : Discard s id .undecodable)
    (hk : ∀ e ∈ (Pc.ack id .undecodable k).page, Known s e) :
    Holds s (.ack id .undecodable k) ∧ Recorded s (.ack id .undecodable k) := by
  refine ⟨⟨fun _ h => (by cases h), hk, fun id why hd => ?_, fun _ _ h => (by cases h)⟩, recorded_free rfl⟩
  cases hd
  exact h

theorem holds_resume {k : Cont} (h : ∀ e ∈ k.rest, Known s e) : Holds s k.resume ∧ Recorded s k.resume :=
  holds_free (by simp) (by simpa using h) (by simp) (by simp) (by cases k <;> rfl)

theorem holds_done : Holds s .done ∧ Recorded s .done := holds_free rfl (fun _ h => by cases h) rfl rfl rfl

theorem holds_entry (c : Kind) : Holds s c.entry ∧ Recorded s c.entry := by
  cases c <;> exact holds_free rfl (fun _ h => by cases h) rfl rfl rfl

/-! ## a thread after its step -/

/-- **What a thread holds after its step comes from the stream, and what it takes for done is on record.** -/
theorem holds_next (hG : Genuine s) (hL : Holds s pc) (hR : Recorded s pc) (h : pc.next cfg s a = some (pc', s')) :
    Holds s' pc' ∧ Recorded s' pc' := by
  have hm := hL.next h
  have hkeep := hR.next h
  cases pc
  case fetchRead w =>
    rcases next_fetchRead h with ⟨rfl, -⟩ | ⟨now, e, x, -, hr, rfl, rfl⟩
    · exact holds_free rfl hm.page rfl rfl rfl
    obtain ⟨g, -, ⟨⟨⟩, -⟩ | ⟨pre, y, post, he, ⟨⟩, -, -, -, rfl⟩⟩ := readGroup_one hr
    have hk : ∀ t : State, t.exec.entries = s.exec.entries → Known t e := by
      intro t ht
      exact ⟨e, by rw [ht, he]; simp, rfl, rfl⟩
    cases hu : unmarshal e.id e.fields with
    | none => exact holds_undecodable ((hk _ rfl).malformed hu) hm.page
    | some m => exact holds_message rfl ((hk _ rfl).message hu) hm.page rfl rfl (recorded_free rfl)
  case recoverClaim start =>
    rcases next_recoverClaim h with ⟨rfl, -⟩ | ⟨now, nx, es, x, -, hc, rfl, rfl | rfl⟩
    · exact holds_free rfl hm.page rfl rfl rfl
    · exact holds_free rfl hm.page rfl rfl rfl
    refine holds_free rfl (fun y hy => ?_) rfl rfl rfl
    have hmem := autoClaim_mem (s := s.exec) (e := y) (by rw [hc]; exact hy)
    have hent := autoClaim_entries (s := s.exec) cfg.streams.group "consumer-recovery"
      cfg.visibilityTimeout start 10 now
    rw [hc] at hent
    obtain ⟨z, hz, hid, hf, -⟩ := hmem
    exact ⟨z, hent ▸ hz, hid, hf⟩
  case recoverNext rest start nx =>
    cases rest with
    | nil =>
      cases h
      split
      · exact holds_free rfl (fun _ h => by cases h) rfl rfl rfl
      · exact holds_free rfl (fun _ h => by cases h) rfl rfl rfl
    | cons e es =>
      have hpage : ∀ y ∈ es, Known s' y := fun y hy => hm.page y (mem_cons_of_mem _ hy)
      have he : Known s' e := hm.page e (mem_cons_self ..)
      simp only [Pc.next] at h
      split at h
      · cases h
      split at h
      · rename_i hu
        cases h
        exact holds_undecodable (he.malformed hu) hpage
      · rename_i m hu
        cases h
        exact holds_message rfl (he.message hu) hpage rfl rfl (recorded_free rfl)
  case recoverCount w m k =>
    have hfrom : From s' m := hm.message m rfl
    have hraise : ∀ c, From s' (m.redelivered c) := by
      intro c
      unfold Message.redelivered
      split
      · exact hfrom.alike rfl ⟨rfl, rfl, rfl⟩ (by simp only; omega)
      · exact hfrom
    cases a
    all_goals
      cases h
      dsimp only
      split
      · exact holds_message rfl hfrom hm.page rfl rfl (recorded_free rfl)
      · exact holds_message rfl (hraise _) hm.page rfl rfl (recorded_free rfl)
  case recoverPoison w m count k =>
    cases a <;> cases h
    · exact holds_discard (hm.message m rfl) rfl hm.page (recorded_now rfl rfl)
    · exact holds_discard (hm.message m rfl) rfl hm.page (recorded_free rfl)
  case submit w m k =>
    simp only [Pc.next] at h
    split at h <;> cases h
    exact holds_resume hm.page
  case ack id why k =>
    have hd : Holds s' (.delete id why k) :=
      ⟨hm.message, fun e he => hm.page e (by cases k <;> exact he), hm.discards, fun _ _ hc => by cases hc⟩
    cases a <;> cases h <;> exact ⟨hd, hkeep⟩
  case delete id why k =>
    have hk : Holds s' k.resume ∧ Recorded s' k.resume := by
      rcases k with ⟨w, k⟩ | ⟨w, _ | _⟩ <;> exact holds_free rfl hm.page rfl rfl rfl
    cases a <;> cases h <;> exact hk
  case release w k =>
    cases h
    exact holds_resume hm.page
  case workerTake w =>
    simp only [Pc.next] at h
    split at h
    · cases h
    rename_i m hch
    cases h
    exact holds_message rfl (hG.chan w m hch) hm.page rfl rfl (recorded_free rfl)
  case workerHandle w m =>
    cases a <;> cases h
    · exact holds_message rfl (hm.message m rfl) hm.page rfl rfl (recorded_now rfl rfl)
    · exact holds_message rfl (hm.message m rfl) hm.page rfl rfl (recorded_free rfl)
  case workerSettle w m err | workerClear w m err =>
    cases err <;> cases h <;> exact holds_message rfl (hm.message m rfl) hm.page rfl rfl hkeep
  case workerReport w m err =>
    cases err <;> cases h
    · exact holds_discard (hm.message m rfl) rfl hm.page hkeep
    · exact holds_message rfl (hm.message m rfl) hm.page rfl rfl (recorded_free rfl)
  case workerRetry w m err =>
    simp only [Pc.next] at h
    split at h
    · cases a <;> cases h
      · exact holds_discard (hm.message m rfl) rfl hm.page (recorded_now rfl rfl)
      · exact holds_discard (hm.message m rfl) rfl hm.page (recorded_free rfl)
    · cases h
      exact holds_discard (hm.message m rfl) rfl hm.page (recorded_now rfl rfl)
  case requeueTake k =>
    simp only [Pc.next] at h
    split at h
    · rename_i m hk
      cases h
      have hf := hG.timers _ (mem_of_getElem? hk)
      exact holds_message rfl (hf.alike rfl ⟨rfl, rfl, rfl⟩ (Nat.le_refl _)) hm.page rfl rfl (recorded_free rfl)
    · cases h
  case requeueAdd k m =>
    cases a <;> cases h
    · exact holds_done
    · exact holds_message rfl (hm.message m rfl) hm.page rfl rfl (recorded_free rfl)
  case scheduleAdd j =>
    cases a with
    | fail err =>
      cases h
      exact holds_done
    | ok now =>
      simp only [Pc.next] at h
      split at h
      · cases h
        exact holds_done
      cases h
      refine ⟨⟨fun _ hn => (by cases hn), hm.page, fun _ _ hd => (by cases hd), fun jobID id hc => ?_⟩,
        recorded_free rfl⟩
      cases hc
      exact ⟨_, mem_append_right _ (mem_singleton_self _), rfl, _, rfl, rfl⟩
  case cancelLoad jobID =>
    simp only [Pc.next] at h
    split at h
    · cases h
      exact holds_done
    rename_i id hid
    cases h
    refine ⟨⟨fun _ hn => (by cases hn), hm.page, fun _ _ hd => (by cases hd), fun j i hc => ?_⟩, recorded_now rfl rfl⟩
    cases hc
    exact hG.cached _ _ hid
  all_goals try cases a
  all_goals simp only [Pc.next] at h
  all_goals repeat' split at h
  all_goals cases h
  all_goals first
    | exact holds_free rfl hm.page rfl rfl rfl
    | exact holds_message rfl (hm.message _ rfl) hm.page rfl rfl (recorded_free rfl)
    | exact holds_discard (hm.message _ rfl) rfl hm.page (recorded_now rfl rfl)

/-! ## the shared state after a step -/

theorem next_queued (h : pc.next cfg s a = some (pc', s')) : ∃ n : Message,
    ∀ e ∈ s'.exec.entries, ∀ m, e.fields = .data m → (∃ x ∈ s.exec.entries, x.fields = .data m) ∨
      marshal n = .data m ∧ (n.origin = s.calls ∧ s'.calls = s.calls + 1 ∨ pc.message = some n) := by
  cases (next_change h).entries with
  | same hx => exact ⟨{}, fun e he m hm => .inl ⟨e, hx ▸ he, hm⟩⟩
  | queued n now hx _ _ hsrc =>
    refine ⟨n, fun e he m hm => ?_⟩
    rw [hx] at he
    rcases mem_append.mp he with he | he
    · exact .inl ⟨e, he, hm⟩
    rw [mem_singleton.mp he] at hm
    refine .inr ⟨hm, hsrc.imp_right ?_⟩
    rintro ⟨k, rfl⟩
    rfl
  | foreign now hx =>
    refine ⟨{}, fun e he m hm => ?_⟩
    rw [hx] at he
    rcases mem_append.mp he with he | he
    · exact .inl ⟨e, he, hm⟩
    · rw [mem_singleton.mp he] at hm
      cases hm
  | removed id _ hx =>
    refine ⟨{}, fun e he m hm => ?_⟩
    rw [hx] at he
    obtain ⟨x, hx, rfl⟩ := mem_delete.mp he
    refine .inl ⟨x, hx, ?_⟩
    split at hm <;> exact hm

theorem next_older (hL : Holds s pc) (h : pc.next cfg s a = some (pc', s')) : ∃ n : Message,
    ∀ e ∈ s'.exec.entries, ∀ m, e.fields = .data m → (∃ x ∈ s.exec.entries, ∃ y, x.fields = .data y ∧ m.Alike y) ∨
        marshal n = .data m ∧ m.origin = s.calls ∧ s'.calls = s.calls + 1 := by
  obtain ⟨n, hn⟩ := next_queued h
  refine ⟨n, fun e he m hm => ?_⟩
  rcases hn e he m hm with ⟨x, hx, hxf⟩ | ⟨hnm, hsrc⟩
  · exact .inl ⟨x, hx, m, hxf, .refl m⟩
  obtain ⟨y, hy, hya, -⟩ := marshal_alike n
  cases hy.symm.trans hnm
  rcases hsrc with ⟨ho, hc⟩ | hp
  · exact .inr ⟨hnm, hya.origin.trans ho, hc⟩
  · obtain ⟨x, hx, -, z, hz, hza, -⟩ := hL.message n hp
    exact .inl ⟨x, hx, z, hz, hya.trans hza.symm⟩

/-- **The shared state stays genuine.** -/
theorem genuine_next (hG : Genuine s) (hL : Holds s pc) (h : pc.next cfg s a = some (pc', s')) : Genuine s' := by
  have hmono := (next_records h).1
  obtain ⟨n0, hold⟩ := next_older hL h
  refine ⟨next_ordered h hG.ordered, fun e he m hm => ?_, fun e he x hx m n hm hn hmn => ?_,
    fun m id hq => ?_, fun m hd => ?_, fun w m hw => ?_, fun t ht => ?_, fun j id hj => ?_⟩
  · rcases hold e he m hm with ⟨x, hx, y, hy, hal⟩ | ⟨-, ho, hc⟩
    · have := hG.fresh x hx y hy
      rw [hal.origin]
      omega
    · omega
  · -- two entries of one call: both old, or both the new one
    rcases hold e he m hm with ⟨y, hy, y', hyf, hya⟩ | ⟨hm', ho, -⟩
    · rcases hold x hx n hn with ⟨z, hz, z', hzf, hza⟩ | ⟨-, ho, -⟩
      · have := hG.alike y hy z hz y' z' hyf hzf (by rw [← hya.origin, ← hza.origin, hmn])
        exact hya.trans (this.trans hza.symm)
      have := hG.fresh y hy y' hyf
      rw [← hya.origin, hmn] at this
      omega
    · rcases hold x hx n hn with ⟨z, hz, z', hzf, hza⟩ | ⟨hn', -⟩
      · have := hG.fresh z hz z' hzf
        rw [← hza.origin, ← hmn] at this
        omega
      · cases hm'.symm.trans hn'
        exact .refl m
  · rcases next_obs h hq with hq | ⟨e, he, hid, hf⟩
    · obtain ⟨e, he, hid, x, hx, hal⟩ := hG.logged m id hq
      obtain ⟨y, hy, hyi, hyf, -⟩ := next_entries h he
      exact ⟨y, hy, hyi.trans hid, x, hyf.trans hx, hal⟩
    · obtain ⟨x, hx, hal, -⟩ := marshal_alike m
      exact ⟨e, he, hid, x, hf.trans hx, hal⟩
  · rcases next_obs h hd with hd | ⟨-, e, he, reason, hf, hlive⟩
    · exact (hG.dead m hd).next h
    · obtain ⟨x, hx, hal, -⟩ := marshal_alike (m.bury reason)
      exact ⟨e, he, hlive, x, hf.trans hx, hal.trans ⟨rfl, rfl, rfl⟩⟩
  · rcases (next_memory h).chan hw with hw | ⟨k, rfl⟩
    · exact (hG.chan w m hw).next h
    · exact (hL.message m rfl).next h
  · rcases (next_memory h).timer ht with ⟨x, hx, hxm⟩ | ⟨m, hp, hm⟩
    · rw [← hxm]
      exact (hG.timers x hx).next h
    have hf := (hL.message m hp).next h
    rcases hm with hm | hm
    · rw [hm]
      exact hf
    · rw [hm]
      exact hf.alike rfl ⟨rfl, rfl, rfl⟩ (Nat.le_succ _)
  · rcases (next_memory h).cache hj with hj | hp
    · exact (hG.cached j id hj).next h
    · exact (hL.caches j id hp).next h

/-! ## runs -/

theorem genuine_crash (hG : Genuine s) : Genuine s.crash where
  ordered := hG.ordered
  fresh := hG.fresh
  alike := hG.alike
  logged m id hq := by
    rcases mem_cons.mp hq with hq | hq
    · cases hq
    · exact hG.logged m id hq
  dead m hd := by
    rcases mem_cons.mp hd with hd | hd
    · cases hd
    · exact hG.dead m hd
  chan w m hw := by cases hw
  timers t ht := by cases ht
  cached j id hj := by cases hj

theorem genuine_init (b : Bool) : Genuine { orch := b } where
  ordered := ⟨List.Pairwise.nil, fun e he => by cases he⟩
  fresh e he := by cases he
  alike e he := by cases he
  logged m id hq := by cases hq
  dead m hd := by cases hd
  chan w m hw := by cases hw
  timers t ht := by cases ht
  cached j id hj := by cases hj

/-- **what holds in every state of the queue** -/
def Sound (sys : Sys State Pc) : Prop :=
  Inv Genuine (fun s t => Holds s t ∧ Recorded s t) (fun _ _ _ => True) sys

theorem sound_move (sys : Sys State Pc) (l : Move Kind Ans) (sys' : Sys State Pc)
    (hi : Sound sys) (hn : next cfg sys l = some sys') : Sound sys' := by
  refine inv_move (P := queue cfg) (C := fun _ _ => True)
    ⟨fun s i c _ _ => ?_, fun s i a t t' m hi _ hp hs => ?_⟩
    (fun s hi => genuine_crash hi.shared) sys l sys' hi trivial hn
  · exact ⟨holds_entry c, fun _ _ _ => ⟨trivial, trivial⟩⟩
  obtain ⟨hL, hrec⟩ := hi.each i t hp
  refine keeps_each (genuine_next hi.shared hL hs) (holds_next hi.shared hL hrec hs) fun j u _ hu => ?_
  exact ⟨(hi.each j u hu).1.next hs, (hi.each j u hu).2.next hs⟩

theorem sound_init (b : Bool) : Sound (idle { orch := b }) := inv_idle (genuine_init b)

/-- **In every state, what is in memory comes from the stream, and what is taken for done is on record.** -/
theorem sound_run {b : Bool} {sys : Sys State Pc} {ls : List (Move Kind Ans)}
    (hr : run (next cfg) (idle { orch := b }) ls = some sys) : Sound sys :=
  run_inv_all sound_move (sound_init b) hr

theorem sound_along (b : Bool) (ls : List (Move Kind Ans)) :
    Along (next cfg) (fun s _ => Sound s) (idle { orch := b }) ls :=
  along_inv (C := fun _ _ => True) (fun s l s' hi _ hn => sound_move s l s' hi hn) (sound_init b)
    (along_true _ ls)

end

end Queue
