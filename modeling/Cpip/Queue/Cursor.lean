import Cpip.Queue.Effects

/-!
# Queue: the cursor of the consumer group

* `cursor_covers`  **a live entry that was appended later has been delivered or lies above the cursor**.
-/

namespace Queue

open Pool Lts Function List Config

/-! ## the group -/

def Pc.claims (cfg : Config) (s : State) (a : Ans) : Pc → List (Entry Fields)
  | .recoverClaim start =>
    match a with
    | .ok now => (s.exec.autoClaim cfg.streams.group "consumer-recovery" cfg.visibilityTimeout start 10 now).2.1
    | .fail _ => []
  | _ => []

/-- what a step makes of the group; `claims` are the entries it claims -/
inductive GroupStep (claims : List (Entry Fields)) (s s' : State) (g g' : Group) : Prop
  | same (hg : g' = g)
  | read (pre post : List (Entry Fields)) (e : Entry Fields) (now : Int)
      (hentries : s.exec.entries = pre ++ e :: post) (hlive : e.deleted = false)
      (habove : g.lastDelivered.less e.id = true)
      (hpre : ∀ x ∈ pre, x.deleted = false → g.lastDelivered.less x.id = false)
      (hg : g' = ⟨e.id, g.put ⟨e.id, "consumer", now, 1⟩⟩)
      (hkeep : s'.exec.entries = s.exec.entries) (hlast : s'.last = s.last)
      (hlog : s'.log = .delivered e.id :: s.log)
  | claimed (hc : Claims g g' claims)
  | acked (id : ID) (hg : g' = { g with pending := g.pending.filter (·.id ≠ id) })

section
variable {cfg : Config} {s s' : State} {pc pc' : Pc} {a : Ans} {g : Group}

/-- **A group stays, and a step is one of these.** -/
theorem next_group (h : pc.next cfg s a = some (pc', s')) (hg : s.exec.groups cfg.streams.group = some g) :
    ∃ g', s'.exec.groups cfg.streams.group = some g' ∧ GroupStep (pc.claims cfg s a) s s' g g' := by
  cases next_change h with
  | same hx | buried m reason now hx => exact ⟨g, hx ▸ hg, .same rfl⟩
  | queued m now hx | foreign now hx | removed id _ hx => exact ⟨g, by rw [hx]; exact hg, .same rfl⟩
  | grouped hx =>
    refine ⟨g, ?_, .same rfl⟩
    rw [hx, createGroup_some hg]
    exact hg
  | read e now hread _ hlast hlog =>
    obtain ⟨g0, hg0, ⟨hnil, -⟩ | ⟨pre, y, post, hen, hout, hl, hab, hpre, hx⟩⟩ := readGroup_one hread
    · cases hnil
    cases hout
    cases hg.symm.trans hg0
    refine ⟨_, by rw [hx]; exact update_self .., ?_⟩
    exact .read pre post e now hen hl hab hpre rfl (by rw [hx]) hlast hlog
  | claimed start nx es now hclaim _ _ _ hpc ha =>
    rcases autoClaim_spec hclaim with ⟨hn, -⟩ | ⟨g0, g', hg0, hx, hc⟩
    · cases hg.symm.trans hn
    cases hg.symm.trans hg0
    refine ⟨g', by rw [hx]; exact update_self .., .claimed ?_⟩
    rw [hpc, ha]
    show Claims g g' (s.exec.autoClaim _ _ _ start 10 now).2.1
    rw [hclaim]
    exact hc
  | acked id hx =>
    refine ⟨_, ?_, .acked id rfl⟩
    rw [hx, Stream.ack, hg]
    exact update_self ..

theorem next_created (ho : Ordered s.exec.entries s.last) (hz : s.last.less ID.zero = false)
    (h : pc.next cfg s a = some (pc', s')) (hn : s.exec.groups cfg.streams.group = none)
    {g' : Group} (hg' : s'.exec.groups cfg.streams.group = some g') :
    g'.pending = [] ∧ ∀ e ∈ s.exec.entries, g'.lastDelivered.less e.id = false := by
  have hkept : s'.exec.groups = s.exec.groups →
      g'.pending = [] ∧ ∀ e ∈ s.exec.entries, g'.lastDelivered.less e.id = false := by
    intro hx
    rw [hx, hn] at hg'
    cases hg'
  cases next_change h with
  | same hx | buried m reason now hx => exact hkept (by rw [hx])
  | queued m now hx | foreign now hx | removed id _ hx => exact hkept (by rw [hx]; rfl)
  | grouped hx =>
    obtain ⟨cursor, hc, -, hall⟩ := createGroup_dollar hn ho hz
    rw [hx, hc] at hg'
    cases (update_self ..).symm.trans hg'
    exact ⟨rfl, hall⟩
  | read e now hread =>
    obtain ⟨g, hg, -⟩ := readGroup_one hread
    cases hn.symm.trans hg
  | claimed start nx es now hclaim =>
    rcases autoClaim_spec hclaim with ⟨-, -, hx⟩ | ⟨g, -, hg, -⟩
    · exact hkept (by rw [hx])
    · cases hn.symm.trans hg
  | acked id hx =>
    refine hkept ?_
    rw [hx, Stream.ack, hn]

theorem next_live (h : pc.next cfg s a = some (pc', s')) {e : Entry Fields}
    (he : e ∈ s'.exec.entries) (hl : e.deleted = false) : e ∈ s.exec.entries ∨ s.last.less e.id = true := by
  have hnew : ∀ f now, e ∈ s.exec.entries ++ [⟨nextID s.last now, f, false⟩] →
      e ∈ s.exec.entries ∨ s.last.less e.id = true := by
    intro f now he
    rcases mem_append.mp he with he | he
    · exact .inl he
    · rw [mem_singleton.mp he]
      exact .inr (nextID_less s.last now)
  cases (next_change h).entries with
  | same hx => exact .inl (hx ▸ he)
  | queued m now hx | foreign now hx => exact hnew _ now (hx ▸ he)
  | removed id _ hx =>
    rw [hx] at he
    obtain ⟨y, hy, rfl⟩ := mem_delete.mp he
    by_cases hid : y.id = id
    · rw [if_pos hid] at hl
      cases hl
    · rw [if_neg hid]
      exact .inl hy

theorem next_last (h : pc.next cfg s a = some (pc', s')) : s'.last = s.last ∨ s.last.less s'.last = true := by
  cases (next_change h).entries with
  | same _ hl =>
    rcases hl with hl | ⟨now, hl⟩
    · exact .inl hl
    · exact .inr (hl ▸ nextID_less s.last now)
  | queued m now _ hl | foreign now _ hl => exact .inr (hl ▸ nextID_less s.last now)
  | removed id _ _ hl => exact .inl hl

/-! ## entries and cursor -/

/-- the group and the entries, relative to the identifiers of the entries that were there when it was
created -/
structure Follows (cfg : Config) (old : List ID) (s : State) (g : Group) : Prop where
  ordered : Ordered s.exec.entries s.last
  group : s.exec.groups cfg.streams.group = some g
  cursor : s.last.less g.lastDelivered = false
  skipped : ∀ id ∈ old, g.lastDelivered.less id = false
  pending : ∀ p ∈ g.pending, p.id ∉ old
  silent : ∀ id ∈ old, .delivered id ∉ s.log
  fresh : ∀ e ∈ s.exec.entries, e.deleted = false → e.id ∉ old →
    .delivered e.id ∈ s.log ∨ g.lastDelivered.less e.id = true

theorem follows_still {old : List ID} {g' : Group} (hF : Follows cfg old s g)
    (h : pc.next cfg s a = some (pc', s')) (hg : s'.exec.groups cfg.streams.group = some g')
    (hcur : g'.lastDelivered = g.lastDelivered)
    (hpend : ∀ p ∈ g'.pending, ∃ q ∈ g.pending, q.id = p.id) : Follows cfg old s' g' := by
  have hold : ∀ p ∈ g'.pending, p.id ∉ old := by
    intro p hp
    obtain ⟨q, hq, hid⟩ := hpend p hp
    exact hid ▸ hF.pending q hq
  refine ⟨next_ordered h hF.ordered, hg, ?_, fun id hid => ?_, hold, fun id hid hd => ?_, fun e he hl ho => ?_⟩
  · rw [hcur]
    rcases next_last h with hl | hl
    · rw [hl]
      exact hF.cursor
    · exact ID.less_asymm (ID.less_of_not_less hF.cursor hl)
  · rw [hcur]
    exact hF.skipped id hid
  · rcases next_obs h hd with hd | ⟨g0, hg0, p, hp, hpid⟩
    · exact hF.silent id hid hd
    · cases hg.symm.trans hg0
      exact hold p hp (hpid ▸ hid)
  · rw [hcur]
    rcases next_live h he hl with he | hnew
    · exact (hF.fresh e he hl ho).imp_left fun hd => (next_log h).subset hd
    · exact .inr (ID.less_of_not_less hF.cursor hnew)

/-- **The cursor follows the entries through every step.** -/
theorem follows_next {old : List ID} (hF : Follows cfg old s g)
    (h : pc.next cfg s a = some (pc', s')) : ∃ g', Follows cfg old s' g' := by
  obtain ⟨g', hg', hstep⟩ := next_group h hF.group
  refine ⟨g', ?_⟩
  cases hstep with
  | same hg => exact follows_still hF h hg' (by rw [hg]) fun p hp => ⟨p, hg ▸ hp, rfl⟩
  | claimed hc =>
    refine follows_still hF h hg' hc.cursor fun p hp => ?_
    rcases hc.pending p hp with hp | ⟨q, hq, hid, -⟩
    · exact ⟨p, hp, rfl⟩
    · exact ⟨q, hq, hid.symm⟩
  | acked id hg =>
    subst hg
    exact follows_still hF h hg' rfl fun p hp => ⟨p, mem_of_mem_filter hp, rfl⟩
  | read pre post e now hen hl hab hpre hg hkeep hlast hlog =>
    subst hg
    have hmem : e ∈ s.exec.entries := by
      rw [hen]
      exact mem_append_right _ (mem_cons_self ..)
    -- the entries that were there when the group was created lie below the old cursor
    have hnot : e.id ∉ old := fun ho => by
      have := hF.skipped e.id ho
      rw [hab] at this
      cases this
    refine ⟨next_ordered h hF.ordered, hg', ?_, fun id hid => ?_, fun p hp => ?_, fun id hid hd => ?_,
      fun x hx hxl hxo => ?_⟩
    · rw [hlast]
      exact hF.ordered.below e hmem
    · exact ID.less_asymm (ID.less_of_not_less (hF.skipped id hid) hab)
    · rcases mem_cons.mp hp with rfl | hp
      · exact hnot
      · exact hF.pending p (mem_of_mem_filter hp)
    · rw [hlog] at hd
      rcases mem_cons.mp hd with hd | hd
      · cases hd
        exact hnot hid
      · exact hF.silent id hid hd
    · rw [hkeep] at hx
      rw [hlog]
      have hsorted := hF.ordered.sorted
      rw [hen] at hx hsorted
      obtain ⟨-, hpost, -⟩ := pairwise_append.mp hsorted
      rcases mem_append.mp hx with hx' | hx'
      · -- an entry before the one that is read lies at or below the old cursor
        have hmem' : x ∈ s.exec.entries := hen ▸ hx
        rcases hF.fresh x hmem' hxl hxo with hd | hd
        · exact .inl (mem_cons_of_mem _ hd)
        · rw [hpre x hx' hxl] at hd
          cases hd
      · rcases mem_cons.mp hx' with rfl | hx'
        · exact .inl (mem_cons_self ..)
        · exact .inr ((pairwise_cons.mp hpost).1 x hx')

theorem follows_crash {old : List ID} (hF : Follows cfg old s g) : Follows cfg old s.crash g where
  ordered := hF.ordered
  group := hF.group
  cursor := hF.cursor
  skipped := hF.skipped
  pending := hF.pending
  silent id hid hd := by
    rcases mem_cons.mp hd with hd | hd
    · cases hd
    · exact hF.silent id hid hd
  fresh e he hl ho := (hF.fresh e he hl ho).imp_left (mem_cons_of_mem _)

/-! ## before the group exists -/

/-- without a group nothing has been delivered -/
structure Unread (cfg : Config) (s : State) : Prop where
  ordered : Ordered s.exec.entries s.last
  positive : s.last.less ID.zero = false
  unread : s.exec.groups cfg.streams.group = none → ∀ id, .delivered id ∉ s.log

theorem unread_next (hU : Unread cfg s) (h : pc.next cfg s a = some (pc', s')) : Unread cfg s' := by
  refine ⟨next_ordered h hU.ordered, ?_, fun hn id hd => ?_⟩
  · rcases next_last h with hl | hl
    · rw [hl]
      exact hU.positive
    · exact ID.less_asymm (ID.less_of_not_less hU.positive hl)
  · rcases next_obs h hd with hd | ⟨g, hg, -⟩
    · cases hg : s.exec.groups cfg.streams.group with
      | none => exact hU.unread hg id hd
      | some g =>
        obtain ⟨g', hg', -⟩ := next_group h hg
        cases hn.symm.trans hg'
    · cases hn.symm.trans hg

theorem unread_crash (hU : Unread cfg s) : Unread cfg s.crash where
  ordered := hU.ordered
  positive := hU.positive
  unread hn id hd := by
    rcases mem_cons.mp hd with hd | hd
    · cases hd
    · exact hU.unread hn id hd

theorem unread_init (b : Bool) : Unread cfg { orch := b } where
  ordered := ⟨List.Pairwise.nil, fun e he => by cases he⟩
  positive := ID.less_irrefl _
  unread _ id hd := by cases hd

/-- `Start` puts the cursor behind the entries there are -/
theorem follows_start (hU : Unread cfg s) (hn : s.exec.groups cfg.streams.group = none) :
    ∃ g, Follows cfg (s.exec.entries.map Entry.id)
      { s with exec := s.exec.createGroup cfg.streams.group .dollar } g := by
  obtain ⟨cursor, hx, hlast, hall⟩ := createGroup_dollar hn hU.ordered hU.positive
  rw [hx]
  refine ⟨⟨cursor, []⟩, hU.ordered, update_self .., hlast, fun id hid => ?_,
    fun p hp => ?_, fun id _ => hU.unread hn id, fun e he _ ho => ?_⟩
  · obtain ⟨e, he, rfl⟩ := mem_map.mp hid
    exact hall e he
  · cases hp
  · exact absurd (mem_map_of_mem he) ho

/-! ## runs -/

/-- **After `Start` has created the group** a live entry appended later was delivered or lies above the cursor. -/
theorem cursor_covers {b : Bool} {pre post : List (Move Kind Ans)} {s₀ s₁ s₂ : Sys State Pc} {i : Nat} {now : Int}
    (hpre : run (next cfg) (idle { orch := b }) pre = some s₀)
    (hnone : s₀.shared.exec.groups cfg.streams.group = none) (hpc : s₀.pool i = some .startGroup)
    (hstart : next cfg s₀ (.act (.step i (.ok now))) = some s₁) (hpost : run (next cfg) s₁ post = some s₂) :
    ∃ g, s₂.shared.exec.groups cfg.streams.group = some g ∧
      ∀ e ∈ s₂.shared.exec.entries, e.deleted = false → (e.id ∉ s₀.shared.exec.entries.map Entry.id →
          .delivered e.id ∈ s₂.shared.log ∨ g.lastDelivered.less e.id = true) ∧
        (e.id ∈ s₀.shared.exec.entries.map Entry.id →
          .delivered e.id ∉ s₂.shared.log ∧ g.lastDelivered.less e.id = false) := by
  have hU : Unread cfg s₀.shared :=
    run_inv_all (shared_move (P := queue cfg) (fun _ _ _ _ _ hi hs => unread_next hi hs)
      fun _ hi => unread_crash hi) (unread_init b) hpre
  have hF : ∃ g, Follows cfg (s₀.shared.exec.entries.map Entry.id) s₁.shared g := by
    obtain ⟨t, t', m, ht, hs, rfl⟩ := next_step hstart
    cases hpc.symm.trans ht
    cases hs
    exact follows_start hU hnone
  have hkept := shared_move (P := queue cfg)
    (I := fun s => ∃ g, Follows cfg (s₀.shared.exec.entries.map Entry.id) s g)
    (fun _ _ _ _ _ hi hs => hi.elim fun _ hi => follows_next hi hs)
    fun _ hi => hi.imp fun _ hi => follows_crash hi
  obtain ⟨g, hF⟩ := run_inv_all hkept hF hpost
  refine ⟨g, hF.group, fun e he hl => ⟨hF.fresh e he hl, fun ho => ?_⟩⟩
  exact ⟨hF.silent e.id ho, hF.skipped e.id ho⟩

/-- one job is scheduled before `Start`, and one after it; the second is delivered -/
theorem cursor_covers_twoJobs : ∃ s₀ ∈ run (next default) (idle {})
        (call 0 (.schedule { id := "a" }) 2 ++ call 1 .start 0),
      ∃ s₁ ∈ next default s₀ (.act (.step 1 (.ok 0))), ∃ s₂ ∈ run (next default) s₁
            (call 2 (.schedule { id := "b" }) 2 ++ call 3 (.worker "w") 3 ++ call 4 .fetch 2),
          ∃ g, s₂.shared.exec.groups default.streams.group = some g ∧
            ∀ e ∈ s₂.shared.exec.entries, e.deleted = false → (e.id ∉ s₀.shared.exec.entries.map Entry.id →
                .delivered e.id ∈ s₂.shared.log ∨ g.lastDelivered.less e.id = true) ∧
              (e.id ∈ s₀.shared.exec.entries.map Entry.id →
                .delivered e.id ∉ s₂.shared.log ∧ g.lastDelivered.less e.id = false) := by
  have hend : ∃ s₀ ∈ run (next default) (idle {}) (call 0 (.schedule { id := "a" }) 2 ++ call 1 .start 0),
      (s₀.shared.exec.groups default.streams.group = none ∧ s₀.pool 1 = some .startGroup) ∧
      ∃ s₁ ∈ next default s₀ (.act (.step 1 (.ok 0))), ∃ s₂ ∈ run (next default) s₁
            (call 2 (.schedule { id := "b" }) 2 ++ call 3 (.worker "w") 3 ++ call 4 .fetch 2),
          s₂.shared.exec.len = 2 := by
    decide +kernel
  obtain ⟨s₀, hpre, ⟨hnone, hpc⟩, s₁, hstart, s₂, hpost, -⟩ := hend
  exact ⟨s₀, hpre, s₁, hstart, s₂, hpost, cursor_covers hpre hnone hpc hstart hpost⟩

/-- **A job that is scheduled before `Start` is passed over**, although a worker waits for jobs. -/
theorem scheduled_before_start : ∃ sys ∈ run (next default) (idle {})
        (call 0 (.schedule { id := "a" }) 2 ++ call 1 .start 1 ++ call 2 (.worker "w") 3 ++ call 3 .fetch 3),
      ∃ g ∈ sys.shared.exec.groups default.streams.group,
        ∃ e ∈ sys.shared.exec.entries, e.deleted = false ∧ .delivered e.id ∉ sys.shared.log ∧
          g.lastDelivered.less e.id = false := by
  decide +kernel

end

end Queue
