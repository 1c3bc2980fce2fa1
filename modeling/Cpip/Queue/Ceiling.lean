import Cpip.Queue.Attempts

/-!
# Queue: the attempt bound along a run

* `advances_next`  **an orderly step of a thread advances it**;
* `attempts_bounded`  **a message is handed out at most once more than its ceiling says**.
-/

namespace Queue

open Lts Pool Function List Config

structure Advances (cfg : Config) (s : State) (pc : Pc) (s' : State) (pc' : Pc) : Prop where
  tracks : Tracks cfg s' pc'
  apart : ∀ t, Tracks cfg s t → Apart pc t → Apart pc' t

section
variable {cfg : Config} {s s' : State} {pc pc' : Pc} {a : Ans}

/-! ## pages -/

theorem ids_eq : pc.ids =
    pc.held.toList.map Message.streamID ++ (pc.page.filterMap Entry.message).map Message.streamID := by
  exact map_append ..

variable {m : Message} {e : Entry Fields}

theorem message_data (h : e.message = some m) : ∃ x, e.fields = .data x ∧ m = { x with streamID := e.id } := by
  unfold Entry.message at h
  cases hf : e.fields with
  | malformed =>
    rw [hf] at h
    cases h
  | data x =>
    rw [hf] at h
    cases h
    exact ⟨x, rfl, rfl⟩

theorem message_streamID (h : e.message = some m) : m.streamID = e.id := by
  obtain ⟨x, -, rfl⟩ := message_data h
  rfl

theorem messages_sublist (es : List (Entry Fields)) :
    ((es.filterMap Entry.message).map Message.streamID).Sublist (es.map Entry.id) := by
  induction es with
  | nil => exact List.Sublist.refl _
  | cons e es ih =>
    cases hm : e.message with
    | none =>
      rw [filterMap_cons_none hm]
      exact ih.cons _
    | some m =>
      rw [filterMap_cons_some hm, map_cons, map_cons, message_streamID hm]
      exact ih.cons_cons _

theorem held_ne_page (hd : pc.ids.Nodup) {n : Message} (hm : pc.held = some m) (he : e ∈ pc.page)
    (hn : e.message = some n) : m.streamID ≠ n.streamID := by
  rw [ids_eq, hm] at hd
  have hnot := (nodup_cons.mp hd).1
  intro hid
  exact hnot (hid ▸ mem_map_of_mem (mem_filterMap.mpr ⟨e, he, hn⟩))

theorem page_next (hG : Genuine s) (hB : Bounded cfg s) (hL : Holds s pc) (hT : Tracks cfg s pc)
    (ho : pc.Orderly cfg s a) (h : pc.next cfg s a = some (pc', s')) {n : Message} (he : e ∈ pc.page)
    (hn : e.message = some n) : Carried cfg s' n ∧ Counted cfg s' n := by
  have hmem : n ∈ pc.carries := mem_carries.mpr (.inr ⟨e, he, hn⟩)
  have hF := frame hG hB hT ho h (hL.carries hmem) (hT.carried n hmem) fun m hm =>
    held_ne_page hT.distinct hm he hn
  exact ⟨hF.carried, (hT.page e he n hn).next hF⟩

/-! ## kinds of steps -/

theorem advances_idle (hh : pc'.held = none) (hp : pc'.page = []) (hr : pc'.requeues = none)
    (hb : pc'.Bound cfg s') : Advances cfg s pc s' pc' := by
  have hids : pc'.ids = [] := by
    rw [ids_eq, hh, hp]
    rfl
  have hcar : ∀ m, m ∉ pc'.carries := by
    intro m hm
    have := mem_ids.mpr ⟨m, hm, rfl⟩
    rw [hids] at this
    cases this
  refine ⟨⟨fun m hm => absurd hm (hcar m), ?_, fun e he => ?_, hb, fun w m _ => ?_, fun k m hk => ?_⟩,
    fun t _ _ => ⟨fun id hid => ?_, fun k m l n hk => ?_⟩⟩
  · rw [hids]
    exact nodup_nil
  · rw [hp] at he
    cases he
  · rw [hids]
    exact not_mem_nil
  · rw [hr] at hk
    cases hk
  · rw [hids] at hid
    cases hid
  · rw [hr] at hk
    cases hk

theorem advances_page (hG : Genuine s) (hB : Bounded cfg s) (hL : Holds s pc) (hT : Tracks cfg s pc)
    (ho : pc.Orderly cfg s a) (h : pc.next cfg s a = some (pc', s')) (hh : pc'.held = none)
    (hp : pc'.page.Sublist pc.page) (hr : pc'.requeues = none) (hb : pc'.Bound cfg s') :
    Advances cfg s pc s' pc' := by
  have hsub : pc'.ids.Sublist pc.ids := by
    rw [ids_eq, ids_eq, hh]
    exact ((hp.filterMap _).map _).trans (sublist_append_right ..)
  have hpage : ∀ e ∈ pc'.page, ∀ m, e.message = some m → Carried cfg s' m ∧ Counted cfg s' m :=
    fun e he m hm => page_next hG hB hL hT ho h (hp.subset he) hm
  refine ⟨⟨fun m hm => ?_, hT.distinct.sublist hsub, fun e he m hm => (hpage e he m hm).2, hb,
    fun w m hw hmem => ?_, fun k m hk => ?_⟩, fun t _ hA => ⟨fun id hid => ?_, fun k m l n hk => ?_⟩⟩
  · rcases mem_carries.mp hm with hm | ⟨e, he, hm⟩
    · rw [hh] at hm
      cases hm
    · exact (hpage e he m hm).1
  · rcases (next_memory h).chan hw with hw | ⟨k, rfl⟩
    · exact hT.chan w m hw (hsub.subset hmem)
    -- the message that is handed out is not on the page
    obtain ⟨n, hn, hid⟩ := mem_ids.mp hmem
    rcases mem_carries.mp hn with hn | ⟨e, he, hn⟩
    · rw [hh] at hn
      cases hn
    · exact held_ne_page hT.distinct rfl (hp.subset he) hn hid.symm
  · rw [hr] at hk
    cases hk
  · exact hA.ids id (hsub.subset hid)
  · rw [hr] at hk
    cases hk

theorem advances_held (hT : Tracks cfg s pc) {m' : Message} (hm : pc.held = some m) (hm' : pc'.held = some m')
    (hid : m'.streamID = m.streamID) (horig : m'.origin = m.origin) (hp : pc'.page = pc.page)
    (hr : pc'.requeues = none) (hlog : s'.log = s.log) (hexec : s'.exec = s.exec) (hch : s'.jobCh = s.jobCh)
    (hb : pc'.Bound cfg s') : Advances cfg s pc s' pc' := by
  have hids : pc'.ids = pc.ids := by
    rw [ids_eq, ids_eq, hm, hm', hp]
    show m'.streamID :: _ = m.streamID :: _
    rw [hid]
  have hsame : ∀ n, Carried cfg s n → Carried cfg s' n := fun n hn =>
    ⟨by rw [hlog]; exact hn.entry, by rw [hlog]; exact hn.grip, by rw [hexec]; exact hn.below⟩
  refine ⟨⟨fun n hn => ?_, ?_, fun e he n hn => ?_, hb, fun w n hw => ?_, fun k n hk => ?_⟩,
    fun t _ hA => ⟨fun i hi => ?_, fun k n l o hk => ?_⟩⟩
  · rcases mem_carries.mp hn with hn | ⟨e, he, hn⟩
    · rw [hm'] at hn
      cases hn
      have hc := hsame m (hT.carried m (mem_carries.mpr (.inl hm)))
      exact ⟨by rw [horig, hid]; exact hc.entry, by rw [hid]; exact hc.grip, by rw [hid]; exact hc.below⟩
    · exact hsame n (hT.carried n (mem_carries.mpr (.inr ⟨e, hp ▸ he, hn⟩)))
  · rw [hids]
    exact hT.distinct
  · intro g hg p hpp hpid
    rw [hexec] at hg
    rw [hlog]
    exact hT.page e (hp ▸ he) n hn g hg p hpp hpid
  · rw [hids]
    exact hT.chan w n (hch ▸ hw)
  · rw [hr] at hk
    cases hk
  · exact hA.ids i (hids ▸ hi)
  · rw [hr] at hk
    cases hk

theorem given_congr (hlog : s'.log = s.log) (h : Given cfg s m) : Given cfg s' m := by
  unfold Given at *
  rw [hlog]
  exact h

/-! ## acquisitions -/

variable {w : String}

theorem advances_read (hB : Bounded cfg s) (h : (Pc.fetchRead w).next cfg s a = some (pc', s')) :
    Advances cfg s (.fetchRead w) s' pc' := by
  rcases next_fetchRead h with ⟨rfl, rfl⟩ | ⟨now, e, x, rfl, hr, rfl, rfl⟩
  · exact advances_idle rfl rfl rfl trivial
  obtain ⟨g, hg, ⟨⟨⟩, -⟩ | ⟨pre, y, post, hen, ⟨⟩, hlive, hab, -, rfl⟩⟩ := readGroup_one hr
  have he : e ∈ s.exec.entries := by
    rw [hen]
    exact mem_append_right _ (mem_cons_self ..)
  show Advances _ _ _ _ (e.message.elim _ _)
  cases hm : e.message with
  | none => exact advances_idle rfl rfl rfl trivial
  | some m =>
    obtain ⟨y, hy, rfl⟩ := message_data hm
    rw [Option.elim_some]
    obtain ⟨hopen, hcount⟩ := (hB.tally e he y hy).above g hg hab
    have hids : (Pc.dispatchGet w { y with streamID := e.id } .fetch).ids = [e.id] := rfl
    have hbelow : ∀ i, (∃ g, s.exec.groups cfg.streams.group = some g ∧
        g.lastDelivered.less i = false) → i ≠ e.id := by
      rintro i ⟨g₀, hg₀, hi⟩ rfl
      cases hg.symm.trans hg₀
      rw [hab] at hi
      cases hi
    refine ⟨⟨fun n hn => ?_, ?_, fun e' he' => (by cases he'), ⟨?_, ?_⟩, fun v n hv => ?_,
      fun k n hk => (by cases hk)⟩, fun t ht _ => ⟨fun i hi hmem => ?_, fun k n l o hk => (by cases hk)⟩⟩
    · rcases mem_carries.mp hn with hn | ⟨e', he', -⟩
      · cases hn
        refine ⟨openEntry_cons.trans hopen, ?_, _, update_self .., ID.less_irrefl _⟩
        refine gripped_cons.trans ?_
        simp [Obs.grips]
      · cases he'
    · rw [hids]
      exact nodup_singleton _
    · exact hands_cons.le.trans hcount
    · exact ⟨e, he, rfl, y, hy, fun g' hg' p hp hp' => Nat.le_max_left ..⟩
    · rw [hids]
      exact fun hmem => hbelow _ (hB.chan v n hv).1.below (mem_singleton.mp hmem)
    rw [hids, mem_singleton] at hi
    obtain ⟨n, hn, hni⟩ := mem_ids.mp hmem
    exact hbelow _ (ht.carried n hn).below (hni.trans hi)

theorem gripped_delivered {id : ID} {es : List (Entry Fields)} {log : List Obs} (e : Entry Fields)
    (he : e ∈ es) (hid : e.id = id) : gripped id (es.map (fun e => .delivered e.id) ++ log) = true := by
  induction es with
  | nil => cases he
  | cons y es ih =>
    rw [map_cons, cons_append, gripped_cons]
    by_cases hy : y.id = id
    · simp [Obs.grips, hy]
    rcases mem_cons.mp he with rfl | he
    · exact absurd hid hy
    · simp only [Obs.grips, if_neg hy]
      exact ih he

theorem record_unique {ps : List Pending} (hn : (ps.map Pending.id).Nodup) {p q : Pending}
    (hp : p ∈ ps) (hq : q ∈ ps) (hid : p.id = q.id) : p = q :=
  inj_on_of_nodup_map hn hp hq hid

theorem claimed_counted (hB : Bounded cfg s) {es : List (Entry Fields)} {g g' : Group}
    (hg : s.exec.groups cfg.streams.group = some g) (hg' : s'.exec.groups cfg.streams.group = some g')
    (hc : Claims g g' es) (hlog : s'.log = es.map (fun e => .delivered e.id) ++ s.log) (he : e ∈ es) (hk : Known s e)
    (ha : Abandoned s e) (hm : e.message = some m) : Carried cfg s' m ∧ Counted cfg s' m := by
  unfold Abandoned at ha
  rw [hm] at ha
  obtain ⟨hopen, -⟩ := ha
  obtain ⟨x, hx, rfl⟩ := message_data hm
  have hquiet : openEntry x.origin s'.log = openEntry x.origin s.log ∧
      hands x.origin s'.log = hands x.origin s.log := by
    rw [hlog]
    refine silent_append fun o ho => ?_
    obtain ⟨y, -, rfl⟩ := mem_map.mp ho
    exact ⟨rfl, rfl⟩
  obtain ⟨q, hq, hqid, p, hp, hpid, hcount⟩ := hc.counts e he
  refine ⟨⟨?_, ?_, g', hg', ?_⟩, fun g₁ hg₁ p₁ hp₁ hpid₁ => ?_⟩
  · rw [hquiet.1, hopen]
  · rw [hlog]
    exact gripped_delivered e he rfl
  · rw [hc.cursor]
    show g.lastDelivered.less e.id = false
    rw [← hqid]
    exact hB.below g hg q hq
  · cases hg'.symm.trans hg₁
    cases record_unique (hc.records (hB.records g hg)) hp₁ hp (hpid₁.trans hpid.symm)
    obtain ⟨y, hy, hyid, hyf⟩ := hk
    have ht := (hB.tally y hy x (hyf.trans hx)).pending (hopen.trans (by rw [hyid])) g hg q hq (hqid.trans hyid.symm)
    rw [hquiet.2]
    show hands x.origin s.log ≤ min (max x.retryCount (p.count - 2)) (cfg.room x) + 1
    omega

theorem advances_claim (hB : Bounded cfg s) {start : ID} (ho : (Pc.recoverClaim start).Orderly cfg s a)
    (h : (Pc.recoverClaim start).next cfg s a = some (pc', s')) : Advances cfg s (.recoverClaim start) s' pc' := by
  rcases next_recoverClaim h with ⟨rfl, -⟩ | ⟨now, nx, es, x, rfl, hclaim, hs, rfl | rfl⟩
  · exact advances_idle rfl rfl rfl trivial
  · exact advances_idle rfl rfl rfl trivial
  have hes : es = (s.exec.autoClaim cfg.streams.group "consumer-recovery" cfg.visibilityTimeout
      start 10 now).2.1 := by rw [hclaim]
  have hab : ∀ e ∈ es, Abandoned s e := fun e he => ho e (by rw [hes] at he; exact he)
  have hknown : ∀ e ∈ es, Known s e := by
    intro e he
    rw [hes] at he
    obtain ⟨y, hy, hyi, hyf, -⟩ := autoClaim_mem he
    exact ⟨y, hy, hyi, hyf⟩
  have hlog : s'.log = es.map (fun e => .delivered e.id) ++ s.log := by rw [hs]
  have hch : s'.jobCh = s.jobCh := by rw [hs]
  rcases autoClaim_spec hclaim with ⟨-, rfl, -⟩ | ⟨g, g', hg, rfl, hc⟩
  · exact advances_idle rfl rfl rfl trivial
  have hg' : s'.exec.groups cfg.streams.group = some g' := by
    rw [hs]
    exact update_self ..
  have hpage := fun e he m hm =>
    claimed_counted (m := m) hB hg hg' hc hlog he (hknown e he) (hab e he) hm
  have hgrip : ∀ i ∈ (Pc.recoverNext es start nx).ids, gripped i s.log = false := by
    intro i hi
    obtain ⟨m, hm, rfl⟩ := mem_ids.mp hi
    rcases mem_carries.mp hm with hm | ⟨e, he, hm⟩
    · cases hm
    have := hab e he
    unfold Abandoned at this
    rw [hm] at this
    rw [message_streamID hm]
    exact this.2
  refine ⟨⟨fun m hm => ?_, ?_, fun e he m hm => (hpage e he m hm).2, trivial, fun v n hv hmem => ?_,
    fun k n hk => (by cases hk)⟩, fun t ht _ => ⟨fun i hi hmem => ?_, fun k n l o hk => (by cases hk)⟩⟩
  · rcases mem_carries.mp hm with hm | ⟨e, he, hm⟩
    · cases hm
    · exact (hpage e he m hm).1
  · rw [ids_eq]
    exact (messages_sublist es).nodup (hc.distinct (hB.records g hg))
  · have := (hB.chan v n (hch ▸ hv)).1.grip
    rw [hgrip _ hmem] at this
    cases this
  · obtain ⟨n, hn, rfl⟩ := mem_ids.mp hmem
    have := (ht.carried n hn).grip
    rw [hgrip _ hi] at this
    cases this

theorem advances_entry (hT : Tracks cfg s (.recoverNext (e :: es) start nx)) (hm : e.message = some m)
    (ws : List String) : Advances cfg s (.recoverNext (e :: es) start nx) { s with idle := ws }
      (.recoverCount w m (.recover es start nx)) := by
  have hids : (Pc.recoverCount w m (.recover es start nx)).ids = (Pc.recoverNext (e :: es) start nx).ids := by
    show _ = ((e :: es).filterMap Entry.message).map Message.streamID
    rw [filterMap_cons_some hm]
    rfl
  have hcar : ∀ n ∈ (Pc.recoverCount w m (.recover es start nx)).carries,
      n ∈ (Pc.recoverNext (e :: es) start nx).carries := by
    intro n hn
    rcases mem_carries.mp hn with hn | ⟨y, hy, hn⟩
    · cases hn
      exact mem_carries.mpr (.inr ⟨e, mem_cons_self .., hm⟩)
    · exact mem_carries.mpr (.inr ⟨y, mem_cons_of_mem _ hy, hn⟩)
  refine ⟨⟨fun n hn => ?_, hids ▸ hT.distinct, fun y hy n hn => ?_, ?_, fun v n hv => ?_,
    fun k n hk => (by cases hk)⟩, fun t _ hA => ⟨hids ▸ hA.ids, fun k n l o hk => (by cases hk)⟩⟩
  · have := hT.carried n (hcar n hn)
    exact ⟨this.entry, this.grip, this.below⟩
  · exact hT.page y (mem_cons_of_mem _ hy) n hn
  · exact hT.page e (mem_cons_self ..) m hm
  · rw [hids]
    exact hT.chan v n hv

theorem ready_redelivered (hB : Bounded cfg s) (hf : From s m) (hc : Counted cfg s m)
    (hle : ¬ (deliveries cfg s m a : Int) > cfg.ceiling m) (hlt : m.retryCount < deliveries cfg s m a - 1) :
    Ready cfg s (m.redelivered (deliveries cfg s m a)) := by
  obtain ⟨g, p, hg, hp, hid, hcount⟩ : ∃ g p, s.exec.groups cfg.streams.group = some g ∧
      p ∈ g.pending ∧ p.id = m.streamID ∧ p.count = deliveries cfg s m a := by
    cases a with
    | fail err => exact absurd hlt (Nat.not_lt_zero _)
    | ok now =>
      unfold deliveries at hlt ⊢
      cases hpen : s.exec.pending cfg.streams.group m.streamID with
      | none =>
        rw [hpen] at hlt
        exact absurd hlt (Nat.not_lt_zero _)
      | some c =>
        obtain ⟨g, hg, hfind⟩ := Option.bind_eq_some_iff.mp hpen
        obtain ⟨p, hp, hcount⟩ := Option.map_eq_some_iff.mp hfind
        exact ⟨g, p, hg, mem_of_find?_eq_some hp, by simpa using find?_some hp, hcount⟩
  have hb := hc g hg p hp hid
  have hroom : deliveries cfg s m a ≤ cfg.room m := by
    unfold room
    omega
  have hre : m.redelivered (deliveries cfg s m a) = { m with retryCount := deliveries cfg s m a - 1 } := if_pos hlt
  rw [hre]
  refine ⟨?_, ?_⟩
  · show hands m.origin s.log ≤ min (deliveries cfg s m a - 1) (cfg.room m)
    omega
  obtain ⟨e, he, heid, x, hx, -⟩ := hf
  refine ⟨e, he, heid, x, hx, fun g₁ hg₁ p₁ hp₁ hid₁ => ?_⟩
  cases hg.symm.trans hg₁
  cases record_unique (hB.records g hg) hp₁ hp (hid₁.trans hid.symm)
  rw [hcount]
  exact Nat.le_max_right ..

theorem advances_take (hB : Bounded cfg s) (hm : s.jobCh w = some m) :
    Advances cfg s (.workerTake w) { s with jobCh := update s.jobCh w none } (.workerBegin w m) := by
  obtain ⟨hc, hg⟩ := hB.chan w m hm
  have hids : (Pc.workerBegin w m).ids = [m.streamID] := rfl
  refine ⟨⟨fun n hn => ?_, ?_, fun e he => (by cases he), hg, fun v n hv hmem => ?_,
    fun k n hk => (by cases hk)⟩, fun t ht _ => ⟨fun i hi hmem => ?_, fun k n l o hk => (by cases hk)⟩⟩
  · rcases mem_carries.mp hn with hn | ⟨e, he, -⟩
    · cases hn
      exact ⟨hc.entry, hc.grip, hc.below⟩
    · cases he
  · rw [hids]
    exact nodup_singleton _
  · rw [hids, mem_singleton] at hmem
    by_cases hvw : v = w
    · subst hvw
      dsimp only at hv
      rw [update_self] at hv
      cases hv
    · dsimp only at hv
      rw [update_of_ne hvw] at hv
      exact hB.chans v w n m hvw hv hm hmem
  · rw [hids, mem_singleton] at hi
    exact ht.chan w m hm (hi ▸ hmem)

theorem advances_fire {k : Nat} (hm : s.timers[k]? = some ⟨m, .waiting⟩) :
    Advances cfg s (.requeueTake k) { s with timers := s.timers.set k ⟨m, .running⟩ } (.requeueAdd k m.requeue) := by
  have hlt := (List.getElem?_eq_some_iff.mp hm).1
  refine ⟨⟨fun n hn => (by cases hn), nodup_nil, fun e he => (by cases he), trivial,
    fun v n _ => not_mem_nil, fun i n hi => ?_⟩, fun t ht _ => ⟨fun i hi => (by cases hi),
    fun i n l o hi hl => ?_⟩⟩
  · cases hi
    exact ⟨⟨m, .running⟩, getElem?_set_self hlt, rfl, ⟨rfl, rfl, rfl⟩, rfl⟩
  cases hi
  rintro rfl
  obtain ⟨u, hu, hst, -⟩ := ht.timer k o hl
  cases hm.symm.trans hu
  cases hst

/-! ## a step -/

@[simp] theorem resume_held (k : Cont) : k.resume.held = none := by cases k <;> rfl

@[simp] theorem resume_requeues (k : Cont) : k.resume.requeues = none := by cases k <;> rfl

theorem resume_bound (k : Cont) : k.resume.Bound cfg s := by cases k <;> trivial

/-- **An orderly step of a thread.** -/
theorem advances_next (hG : Genuine s) (hB : Bounded cfg s) (hL : Holds s pc) (hT : Tracks cfg s pc)
    (ho : pc.Orderly cfg s a) (h : pc.next cfg s a = some (pc', s')) : Advances cfg s pc s' pc' := by
  have hpage := advances_page hG hB hL hT ho h
  cases pc
  case fetchRead w => exact advances_read hB h
  case recoverClaim start => exact advances_claim hB ho h
  case recoverNext rest start nx =>
    cases rest with
    | nil =>
      cases h
      split <;> exact advances_idle rfl rfl rfl trivial
    | cons e es =>
      simp only [Pc.next] at h
      split at h
      · cases h
      split at h
      · cases h
        exact hpage rfl (sublist_cons_self ..) rfl trivial
      rename_i m hm
      cases h
      exact advances_entry hT hm _
  case recoverCount w m k =>
    have hstep : some (if (deliveries cfg s m a : Int) > cfg.ceiling m then
        .recoverPoison w m (deliveries cfg s m a) k
        else .dispatchGet w (m.redelivered (deliveries cfg s m a)) k, s) = some (pc', s') := by
      cases a <;> exact h
    split at hstep
    · cases hstep
      exact advances_held hT rfl rfl rfl rfl rfl rfl rfl rfl rfl trivial
    rename_i hle
    cases hstep
    have hready := ready_redelivered hB (hL.message m rfl) hT.bound hle (ho.resolve_left hle)
    refine advances_held hT rfl rfl ?_ ?_ rfl rfl rfl rfl rfl hready
    all_goals
      unfold Message.redelivered
      split <;> rfl
  case workerTake w =>
    simp only [Pc.next] at h
    split at h
    · cases h
    rename_i m hm
    cases h
    exact advances_take hB hm
  case requeueTake k =>
    simp only [Pc.next] at h
    split at h
    · rename_i m hm
      cases h
      exact advances_fire hm
    · cases h
  case requeueAdd k m =>
    cases a with
    | ok now =>
      cases h
      exact advances_idle rfl rfl rfl trivial
    | fail err =>
      cases h
      refine ⟨⟨fun n hn => (by cases hn), nodup_nil, fun e he => (by cases he), trivial,
        fun v n _ => not_mem_nil, fun i n hi => ?_⟩, fun t _ hA => ⟨fun i hi => (by cases hi),
        fun i n l o hi hl => ?_⟩⟩
      · cases hi
        exact hT.timer k m rfl
      · cases hi
        exact hA.timers k m l o rfl hl
  case workerSettle w m err | workerClear w m err =>
    cases h
    cases err with
    | none => exact advances_idle rfl rfl rfl trivial
    | some err =>
      exact advances_held hT rfl rfl rfl rfl rfl rfl (tryWorkers_log _) (tryWorkers_exec _)
        (tryWorkers_jobCh _) (given_congr (tryWorkers_log _) hT.bound)
  case workerReport w m err =>
    cases err with
    | none =>
      cases h
      exact advances_idle rfl rfl rfl trivial
    | some err =>
      cases h
      exact advances_held hT rfl rfl rfl rfl rfl rfl (tryMark_log ..) (tryMark_exec ..)
        (tryMark_jobCh ..) (given_congr (tryMark_log ..) hT.bound)
  case workerStarted w m =>
    cases h
    exact advances_held hT rfl rfl rfl rfl rfl rfl (tryMark_log ..) (tryMark_exec ..)
      (tryMark_jobCh ..) (given_congr (tryMark_log ..) hT.bound)
  case rollbackState w m k =>
    cases h
    exact advances_held hT rfl rfl rfl rfl rfl rfl (tryWorkers_log _) (tryWorkers_exec _) (tryWorkers_jobCh _) trivial
  case submit w m k =>
    simp only [Pc.next] at h
    split at h <;> cases h
    refine hpage (resume_held k) ?_ (resume_requeues k) (resume_bound k)
    rw [resume_page]
    exact List.Sublist.refl _
  case release w k =>
    cases h
    refine hpage (resume_held k) ?_ (resume_requeues k) (resume_bound k)
    rw [resume_page]
    exact List.Sublist.refl _
  case ack id why k =>
    have hp : (Pc.delete id why k).page = (Pc.ack id why k).page := by cases k <;> rfl
    cases a <;> cases h <;> exact hpage rfl (hp ▸ List.Sublist.refl _) rfl trivial
  case delete id why k =>
    have hk : k.resume.held = none ∧ k.resume.requeues = none ∧ k.resume.Bound cfg s' ∧
        k.resume.page = (Pc.delete id why k).page := by
      cases k with
      | loop w k => exact ⟨rfl, rfl, trivial, rfl⟩
      | worker w failed => cases failed <;> exact ⟨rfl, rfl, trivial, rfl⟩
    obtain ⟨hh, hr, hb, hp⟩ := hk
    cases a <;> cases h <;> exact hpage hh (hp ▸ List.Sublist.refl _) hr hb
  all_goals cases a
  all_goals simp only [Pc.next, reject] at h
  all_goals repeat' split at h
  all_goals cases h
  all_goals first
    | exact hpage rfl (List.Sublist.refl _) rfl trivial
    | exact advances_held hT rfl rfl rfl rfl rfl rfl rfl rfl rfl hT.bound
    | exact advances_held hT rfl rfl rfl rfl rfl rfl rfl rfl rfl trivial

/-! ## runs -/

theorem bounded_crash (hB : Bounded cfg s) : Bounded cfg s.crash where
  positive := hB.positive
  tally e he x hx := by
    have ht := hB.tally e he x hx
    have hentry : openEntry x.origin s.crash.log = openEntry x.origin s.log := openEntry_cons
    have hhands : hands x.origin s.crash.log = hands x.origin s.log := hands_cons
    refine ⟨?_, ?_, ?_⟩
    · rw [hhands]
      exact ht.total
    · rw [hentry, hhands]
      exact ht.above
    · rw [hentry, hhands]
      exact ht.pending
  records := hB.records
  below := hB.below
  chan w m hw := by cases hw
  chans v w m n _ hv := by cases hv
  timers t ht := by cases ht
  single i j t u _ ht := by simp [State.crash] at ht
  counted u hu := hands_cons.trans (hB.counted u hu)

theorem bounded_init (b : Bool) : Bounded cfg { orch := b } where
  positive := ID.less_irrefl _
  tally e he := by cases he
  records g hg := by cases hg
  below g hg := by cases hg
  chan w m hw := by cases hw
  chans v w m n _ hv := by cases hv
  timers t ht := by cases ht
  single i j t u _ ht := by simp at ht
  counted u _ := rfl

theorem tracks_entry (c : Kind) : Tracks cfg s c.entry := by
  have hadv : Advances cfg s .done s c.entry := by cases c <;> exact advances_idle rfl rfl rfl trivial
  exact hadv.tracks

theorem apart_entry (c : Kind) (t : Pc) : Apart c.entry t := by
  cases c <;> exact ⟨fun i hi => (by cases hi), fun k m l n hk => (by cases hk)⟩

theorem Apart.symm {t : Pc} (h : Apart pc t) : Apart t pc :=
  ⟨fun i hi hmem => h.ids i hmem hi, fun k m l n hk hl => (h.timers l n k m hl hk).symm⟩

/-- **the attempts of every message are bounded by its counters** -/
def Tallied (cfg : Config) (sys : Sys State Pc) : Prop :=
  Inv (Bounded cfg) (Tracks cfg) (fun _ => Apart) sys

theorem tallied_run (hpos : 0 < cfg.maxRetries) {b : Bool} {sys : Sys State Pc} {ls : List (Move Kind Ans)}
    (hc : Along (next cfg) (Orderly cfg) (idle { orch := b }) ls)
    (hr : run (next cfg) (idle { orch := b }) ls = some sys) : Tallied cfg sys := by
  refine inv_moves (P := queue cfg) (C := fun s l => Sound s ∧ Orderly cfg s l)
    ⟨fun s i c _ _ => ?_, fun s i a t t' m hi hC hp hs => ?_⟩ (fun s hi => bounded_crash hi.shared)
    (inv_idle (bounded_init b)) (along_and (sound_along b ls) hc) hr
  · exact ⟨tracks_entry c, fun j u _ => ⟨apart_entry c u, (apart_entry c u).symm⟩⟩
  obtain ⟨hS, ho⟩ := hC
  have hG := hS.shared
  have hL := (hS.each i t hp).1
  have hT := hi.each i t hp
  have hord : t.Orderly cfg s.shared a := ho t hp
  have hadv := advances_next hG hi.shared hL hT hord hs
  have hleft : ∀ j u, j ≠ i → s.pool j = some u → Apart t' u := fun j u hj hu =>
    hadv.apart u (hi.each j u hu) (hi.pair i j t u hj.symm hp hu)
  exact ⟨bounded_next hG hi.shared hL hT hpos hord hs, hadv.tracks, fun j u hj hu =>
    tracks_other hG hi.shared hT hord hs (hS.each j u hu).1 (hi.each j u hu)
      (hi.pair i j t u hj.symm hp hu), hleft, fun j u hj hu => (hleft j u hj hu).symm,
    fun j k u w _ _ hjk hu hw => hi.pair j k u w hjk hu hw⟩

/-- **A message is handed to a worker at most once more than its retry ceiling says.** -/
theorem attempts_bounded {c : Config} (hv : c.validate = .ok cfg) {b : Bool}
    {sys : Sys State Pc} {ls : List (Move Kind Ans)}
    (hc : Along (next cfg) (Orderly cfg) (idle { orch := b }) ls)
    (hr : run (next cfg) (idle { orch := b }) ls = some sys) {m : Message} {id : ID}
    (hm : .queued m id ∈ sys.shared.log) : (hands m.origin sys.shared.log : Int) ≤ cfg.ceiling m + 1 := by
  have hpos := validate_maxRetries hv
  obtain ⟨e, he, -, x, hx, hal⟩ := (sound_run hr).shared.logged m id hm
  have ht := ((tallied_run hpos hc hr).shared.tally e he x hx).total
  have hroom : cfg.room x = cfg.room m := room_alike hal
  have hceil := ceiling_pos hpos m
  rw [hal.origin, hroom] at ht
  unfold room at ht
  omega

def reclaim (now : Int) : List (Move Kind Ans) :=
  call 5 .recovery 1 ++ [.act (.step 5 (.ok now))] ++ steps 5 7

def failure (i : Nat) : List (Move Kind Ans) :=
  [.act (.step i (.fail "exit status 1"))] ++ steps i 9

def recoveredRun : List (Move Kind Ans) :=
  call 0 .start 1 ++ call 1 (.worker "w") 3 ++ call 3 (.schedule { id := "j" }) 2 ++ call 4 .fetch 7 ++
    [.die] ++ call 1 (.worker "w") 3 ++ reclaim 100000000000 ++ steps 1 3 ++ failure 1 ++
    call 6 (.requeue 0) 2 ++ call 4 .fetch 7

theorem attempts_bounded_recoveredRun : Along (next default) (Orderly default) (idle { orch := false }) recoveredRun ∧
      ∃ sys ∈ run (next default) (idle { orch := false }) recoveredRun, hands 0 sys.shared.log = 3 ∧
          (hands 0 sys.shared.log : Int) ≤ default.ceiling (.ofJob 0 { id := "j" }) + 1 := by
  have hend : ∃ sys ∈ run (next default) (idle { orch := false }) recoveredRun,
      hands 0 sys.shared.log = 3 ∧ .queued (.ofJob 0 { id := "j" }) ⟨0, 1⟩ ∈ sys.shared.log := by
    decide +kernel
  obtain ⟨sys, hr, hn, hq⟩ := hend
  refine ⟨?hc, sys, hr, hn, attempts_bounded validate_default ?hc hr hq⟩
  decide +kernel

def twice : Config := { default with maxRetries := 2 }

/-- the message is reclaimed while worker `w` handles it; then both attempts fail, and both are
requeued and handed out -/
def slowRun : List (Move Kind Ans) :=
  call 0 .start 1 ++ call 1 (.worker "w") 3 ++ call 2 (.worker "v") 3 ++
    call 3 (.schedule { id := "j" }) 2 ++ call 4 .fetch 7 ++ steps 1 3 ++ reclaim 100000000000 ++
    steps 2 3 ++ failure 1 ++ failure 2 ++ call 6 (.requeue 0) 2 ++ call 7 (.requeue 1) 2 ++
    steps 4 14

/-- the process dies after every attempt but the second, which fails -/
def crashesRun : List (Move Kind Ans) :=
  recoveredRun ++ [.die] ++ call 1 (.worker "w") 3 ++ reclaim 200000000000 ++
    [.die] ++ call 1 (.worker "w") 3 ++ reclaim 300000000000

/-- **A message can be handed out too often**: both counters fail to bound it. -/
theorem attempts_exceeded : (twice.validate = .ok twice ∧ ∃ sys ∈ run (next twice) (idle { orch := false }) slowRun,
        .queued (.ofJob 0 { id := "j" }) ⟨0, 1⟩ ∈ sys.shared.log ∧
          twice.ceiling (.ofJob 0 { id := "j" }) = 2 ∧ hands 0 sys.shared.log = 4 ∧
          sys.shared.dlq.entries.length = 0) ∧
      ∃ sys ∈ run (next default) (idle { orch := false }) crashesRun,
        .queued (.ofJob 0 { id := "j" }) ⟨0, 1⟩ ∈ sys.shared.log ∧
          default.ceiling (.ofJob 0 { id := "j" }) = 3 ∧ hands 0 sys.shared.log = 5 ∧
          sys.shared.dlq.entries.length = 0 := by
  refine ⟨⟨?_, ?_⟩, ?_⟩ <;> decide +kernel

end

end Queue
