import Mathlib.Data.List.InsertIdx
import Cpip.Lib.Drain
import Cpip.Rooms.Manager

/-!
# Rooms: what the repository holds

Each operation on a room takes a snapshot and starts a goroutine that saves it; the sweep that destroys a room starts
one that deletes it.  The goroutines reach the repository in an order of their own.

* `Outcome`, `outcome_serve`  what an operation leaves behind;
* `repository_settles`  **the last snapshot of every registered room**, see also `older_snapshot_wins`.
-/

namespace Rooms

open Code List Option Drain Write Lts
open Function (update update_of_ne update_self)

def Write.put : Write → String × Option Snapshot
  | .save snap => (snap.id, some snap)
  | .delete id => (id, none)

/-- the rooms, the writes under way, and the repository; `taken` is the last snapshot of a room -/
structure Store where
  rooms : String → Option World := fun _ => none
  pending : List Write := []
  repo : String → Option Snapshot := fun _ => none
  taken : String → Option Snapshot := fun _ => none

def latest (old : Option Snapshot) : Write → Option Snapshot
  | .save snap => some snap
  | .delete _ => old

def Store.started (s : Store) (id : String) (w : World) : Store where
  rooms := update s.rooms id (some { w with handed := [] })
  pending := s.pending ++ w.handed
  repo := s.repo
  taken := update s.taken id (w.handed.foldl latest (s.taken id))

inductive StoreAct where
  | create (id name ownerID : String) (custom : Option Config) (metadata : Option Metadata) (now : Int)
  | call (id : String) (l : Call × List (List Participant))
  | land (n : Nat)

def Store.next (cfg : ManagerConfig) (s : Store) : StoreAct → Option Store
  | .create id name ownerID custom metadata now =>
    if (s.rooms id).any (·.registered) then some s
    else (createRoom cfg id name ownerID custom metadata now).toOption.map (s.started id)
  | .call id l =>
    match s.rooms id with
    | none => some s
    | some w => (serve cfg.defaultRecoveryTimeout w l).map (s.started id)
  | .land n => s.pending[n]?.map fun x =>
      { s with pending := s.pending.eraseIdx n, repo := land s.repo x.put }

/-- a write reaches the repository only when no earlier one for its room is under way -/
def InOrder (s : Store) : StoreAct → Prop
  | .land n => ∀ x ∈ s.pending[n]?, ∀ m < n, ∀ y ∈ s.pending[m]?, y.put.1 ≠ x.put.1
  | _ => True

instance (s : Store) : ∀ l, Decidable (InOrder s l) := by
  intro l
  unfold InOrder
  split <;> infer_instance

/-! ## what an operation leaves behind -/

variable (id : String)

def Write.saves : Write → Prop
  | .save snap => snap.id = id
  | .delete _ => False

/-- the room is registered, and only snapshots have been handed over -/
structure Live (id : String) (w : World) : Prop where
  registered : w.registered = true
  alive : w.room.state ≠ .destroyed
  named : w.room.id = id
  saves : ∀ x ∈ w.handed, x.saves id

/-- the room is gone, and its deletion has been handed over last -/
structure Gone (id : String) (w : World) : Prop where
  registered : w.registered = false
  named : w.room.id = id
  deletes : ∃ ws, w.handed = ws ++ [.delete id] ∧ ∀ x ∈ ws, x.saves id

def Outcome (w : World) : Prop := Live id w ∨ Gone id w

def Cmd.live : Cmd → Bool
  | .transition dst _ => dst ≠ .destroyed
  | .deregister | .delete => false
  | _ => true

theorem driven_ne_destroyed {s : State} (h : s ≠ .destroyed) : Room.driven s ≠ .destroyed := by
  cases s with
  | destroyed => exact absurd rfl h
  | _ => exact nofun

section
variable {id : String} {c : Cmd} {s m w : World} {e : List Participant} {a : c.Ans} {now recovery : Int}

theorem id_exec (h : exec c s e = some (a, m)) : m.room.id = s.room.id := by
  rcases room_exec h with hsame | heff
  · rw [hsame]
  · generalize m.room = r at heff
    cases heff <;> rfl

theorem alive_exec (h : exec c s e = some (a, m)) (hc : c.live = true) (hs : s.room.state ≠ .destroyed) :
    m.room.state ≠ .destroyed := by
  rcases room_exec h with hsame | heff
  · rw [hsame]
    exact hs
  generalize m.room = r at heff
  cases heff with
  | join | touch => exact driven_ne_destroyed hs
  | leave | remove =>
    show Room.emptied _ _ ≠ _
    unfold Room.emptied
    split
    · exact nofun
    · exact hs
  | transferOwnership | setConnected => exact hs
  | transition _ => exact of_decide_eq_true hc

/-- the command leaves the room in the registry and the repository -/
def Cmd.stays : Cmd → Bool
  | .deregister | .delete => false
  | _ => true

theorem rest_exec (h : exec c s e = some (a, m)) (hc : c.stays = true) :
    m.registered = s.registered ∧ (m.handed = s.handed ∨ m.handed = s.handed ++ [.save s.room.snapshot]) := by
  cases c with
  | join | leave | remove | transferOwnership | transition =>
    rcases settle_cases h with ⟨-, rfl⟩ | ⟨_, _, -, -, rfl⟩
    · exact ⟨rfl, .inl rfl⟩
    · exact ⟨rfl, .inl rfl⟩
  | setConnected =>
    dsimp only [exec] at h
    split at h <;> cases h <;> exact ⟨rfl, .inl rfl⟩
  | participants =>
    dsimp only [exec] at h
    split at h
    · cases h
      exact ⟨rfl, .inl rfl⟩
    · cases h
  | save =>
    cases h
    exact ⟨rfl, .inr rfl⟩
  | deregister | delete => cases hc
  | _ =>
    cases h
    exact ⟨rfl, .inl rfl⟩

theorem stays_of_live (h : c.live = true) : c.stays = true := by
  cases c with
  | deregister | delete => cases h
  | _ => rfl

theorem live_exec (hc : c.live = true) (hs : Live id s) (h : exec c s e = some (a, m)) : Live id m := by
  obtain ⟨hreg, hhand⟩ := rest_exec h (stays_of_live hc)
  refine ⟨hreg.trans hs.registered, alive_exec h hc hs.alive, (id_exec h).trans hs.named, ?_⟩
  rcases hhand with hh | hh
  · rw [hh]
    exact hs.saves
  rw [hh]
  intro x hx
  rcases mem_append.mp hx with hx | hx
  · exact hs.saves x hx
  · rw [mem_singleton.mp hx]
    exact hs.named

theorem wp_live {ρ : Type} {x : Task ρ} (hx : x.Uses (·.live = true)) (h : Live id s) :
    x.wp exec (fun _ => Live id) s :=
  wp_uses hx (fun _ hc _ _ _ _ hs he => live_exec hc hs he) h

theorem outcome_live {ρ : Type} {x : Task ρ} (hx : x.Uses (·.live = true)) (h : Live id s) :
    x.wp exec (fun _ => Outcome id) s := wp_mono (fun _ _ => .inl) (wp_live hx h)

theorem live_of_reports (h : c.reports = true) : c.live = true := by
  cases c with
  | publish _ | save => rfl
  | _ => cases h

theorem outcome_purge (ev : Event) (h : Live id s) :
    (move .destroyed now (purge ev)).wp exec (fun _ => Outcome id) s := by
  intro e res m he
  obtain ⟨-, hhand⟩ := rest_exec he rfl
  have hid : m.room.id = id := (id_exec he).trans h.named
  cases res with
  | error err =>
    -- the transition has failed and left the room as it was
    rcases settle_cases he with ⟨-, rfl⟩ | ⟨_, _, -, hok, -⟩
    · exact .inl h
    · cases hok
  | ok _ =>
    have hsaves : ∀ x ∈ m.handed, x.saves id := by
      rcases hhand with hh | hh
      · rw [hh]
        exact h.saves
      rw [hh]
      intro x hx
      rcases mem_append.mp hx with hx | hx
      · exact h.saves x hx
      · rw [mem_singleton.mp hx]
        exact h.named
    intro e _ m₁ he
    cases he
    intro e _ m₂ he
    cases he
    intro e _ m₃ he
    cases he
    exact .inr ⟨rfl, hid, m.handed, by rw [← hid], hsaves⟩

theorem outcome_cleanupState (cfg : Config) (state : State) (lastAct : Int) (n : Nat) (h : Live id s) :
    (cleanupState recovery cfg now state lastAct n).wp exec (fun _ => Outcome id) s := by
  rcases cleanupState_cases recovery cfg now state lastAct n with hret | ⟨dst, next, hmove, hnext, -, -⟩
  · rw [hret]
    exact .inl h
  rw [hmove]
  rcases hnext with ⟨hdst, huses⟩ | ⟨rfl, ev, rfl⟩
  · refine outcome_live ⟨decide_eq_true hdst, fun res => ?_⟩ h
    cases res with
    | ok _ => exact uses_mono (fun _ => live_of_reports) huses
    | error _ => trivial
  · exact outcome_purge ev h

theorem outcome_sweep (h : Live id s) :
    ((cleanupRoom recovery now).bind fun _ => .ret Reply.done).wp exec (fun _ => Outcome id) s := by
  refine wp_bind.mpr ?_
  intro e cfg m₁ he
  have h₁ := live_exec rfl h he
  intro e ps m₂ he
  have h₂ := live_exec rfl h₁ he
  show ((each (evict cfg now) ps).bind fun _ => cleanupRest recovery cfg now).wp exec (fun _ => Outcome id) m₂
  have hloop : (each (evict cfg now) ps).Uses (·.live = true) :=
    uses_each fun p _ => uses_evict (fun _ => rfl) (fun _ => rfl) p
  refine wp_bind.mpr (wp_mono (fun _ t ht => ?_) (wp_live hloop h₂))
  intro e state m₃ he
  have h₃ := live_exec rfl ht he
  intro e lastAct m₄ he
  have h₄ := live_exec rfl h₃ he
  intro e n m₅ he
  exact outcome_cleanupState cfg state lastAct n (live_exec rfl h₄ he)

/-- what a call leaves behind: nothing new if the room is not registered -/
def Left (id : String) (w w' : World) : Prop := w.registered = false ∧ w' = w ∨ w.registered = true ∧ Outcome id w'

theorem left_registered {next : Task Reply} (hnext : w.registered = true → next.wp exec (fun _ => Outcome id) w) :
    (registered next).wp exec (fun _ => Left id w) w :=
  wp_registered (fun hr => wp_mono (fun _ _ ho => .inr ⟨hr, ho⟩) (hnext hr)) fun hr => .inl ⟨hr, rfl⟩

theorem outcome_body (hw : w.registered = true → Live id w) {cl : Call} (hc : ∀ now, cl ≠ .touch now) :
    (body recovery cl).wp exec (fun _ => Left id w) w := by
  have hlive : ∀ {x : Task Reply}, (registered x).Uses (·.live = true) →
    (registered x).wp exec (fun _ => Left id w) w := by
    intro x hx
    refine left_registered fun hr => outcome_live ?_ (hw hr)
    exact hx.2 true
  cases cl with
  | join req now => exact hlive (uses_join rfl rfl (fun _ => rfl) rfl)
  | leave userID now => exact hlive (uses_leave rfl rfl (fun _ => rfl) rfl)
  | kick actorID targetID now => exact hlive (uses_kick rfl rfl (fun _ => rfl) rfl)
  | transferOwnership actorID newOwnerID now => exact hlive (uses_transferOwnership rfl rfl (fun _ => rfl) rfl)
  | setConnected userID connected connID sessionID now =>
    exact hlive (uses_setConnected rfl rfl rfl rfl rfl (fun _ => rfl) rfl)
  | closeRoom actorID now => exact hlive (uses_closeRoom rfl rfl rfl rfl (fun _ => rfl) rfl)
  | touch now => exact absurd rfl (hc now)
  | sweep now => exact left_registered fun hr => outcome_sweep (hw hr)

theorem outcome_serve {l : Call × List (List Participant)} {w' : World} (hw : w.registered = true → Live id w)
    (h : serve recovery w l = some w') : Left id w w' := by
  obtain ⟨cl, es⟩ := l
  have hc : ∀ now, cl ≠ .touch now := by
    rintro now rfl
    cases h
  have hrun : ((body recovery cl).run exec w es).map (·.2) = some w' := by
    cases cl with
    | touch now => cases h
    | _ => exact h
  obtain ⟨⟨reply, m⟩, hr, rfl⟩ := map_eq_some_iff.mp hrun
  exact wp_run (Q := fun _ => Left id w) (outcome_body hw hc) hr

end

/-! ## the repository -/

/-- what the repository has to hold in the end: the last snapshot of a registered room, and nothing else -/
def Store.expected (s : Store) (id : String) : Option Snapshot :=
  if (s.rooms id).any (·.registered) then s.taken id else none

/-- the writes that are under way bring the repository to what it has to hold -/
structure Sound (s : Store) : Prop where
  settled : ∀ id, settle s.repo (s.pending.map put) id = s.expected id
  taken : ∀ id, (s.rooms id).any (·.registered) = true → (s.taken id).isSome
  rooms : ∀ id w, s.rooms id = some w → w.handed = [] ∧ (w.registered = true → Live id w) ∧
    (w.room.state = .destroyed → w.registered = false)

variable {ws : List Write}

theorem saves_key {id : String} (h : ∀ x ∈ ws, x.saves id) : ∀ x ∈ ws.map put, x.1 = id := by
  intro x hx
  obtain ⟨y, hy, rfl⟩ := mem_map.mp hx
  have hsaves := h y hy
  cases y with
  | save snap => exact hsaves
  | delete _ => cases hsaves

theorem settle_saves {id : String} (h : ∀ x ∈ ws, x.saves id) (f : String → Option Snapshot) :
    settle f (ws.map put) id = ws.foldl latest (f id) := by
  induction ws generalizing f with
  | nil => rfl
  | cons x ws ih =>
    have hx := h x (mem_cons_self ..)
    cases x with
    | delete _ => cases hx
    | save snap =>
      have hid : snap.id = id := hx
      show settle (land f (snap.id, some snap)) (ws.map put) id = ws.foldl latest (some snap)
      rw [ih fun y hy => h y (mem_cons_of_mem _ hy), ← hid, land_self]

section
variable {s : Store} {id : String} {w : World}

theorem started_other (hs : Sound s) (hkeys : ∀ x ∈ w.handed.map put, x.1 = id) {k : String} (hk : k ≠ id) :
    settle (s.started id w).repo ((s.started id w).pending.map put) k = (s.started id w).expected k := by
  show settle s.repo ((s.pending ++ w.handed).map put) k = _
  have hrooms : (s.started id w).rooms k = s.rooms k := update_of_ne hk ..
  have htaken : (s.started id w).taken k = s.taken k := update_of_ne hk ..
  rw [map_append, settle_append, settle_of_ne fun x hx => (hkeys x hx) ▸ hk, hs.settled, Store.expected,
    Store.expected, hrooms, htaken]

theorem sound_started (hs : Sound s) (hkeys : ∀ x ∈ w.handed.map put, x.1 = id)
    (hself : settle (settle s.repo (s.pending.map put)) (w.handed.map put) id =
      if w.registered then w.handed.foldl latest (s.taken id) else none)
    (htaken : w.registered = true → (w.handed.foldl latest (s.taken id)).isSome)
    (hlive : w.registered = true → Live id w) : Sound (s.started id w) := by
  have hroom : (s.started id w).rooms id = some { w with handed := [] } := update_self ..
  have hown : (s.started id w).taken id = w.handed.foldl latest (s.taken id) := update_self ..
  refine ⟨fun k => ?_, fun k hk => ?_, fun k v hv => ?_⟩
  · by_cases hk : k = id
    · subst hk
      show settle s.repo ((s.pending ++ w.handed).map put) k = _
      rw [map_append, settle_append, hself, Store.expected, hroom, hown]
      rfl
    · exact started_other hs hkeys hk
  · by_cases he : k = id
    · subst he
      rw [hroom] at hk
      rw [hown]
      exact htaken hk
    · have hr : (s.started id w).rooms k = s.rooms k := update_of_ne he ..
      have ht : (s.started id w).taken k = s.taken k := update_of_ne he ..
      rw [hr] at hk
      rw [ht]
      exact hs.taken k hk
  · by_cases he : k = id
    · subst he
      rw [hroom] at hv
      cases hv
      refine ⟨rfl, fun hr => ?_, fun hd => ?_⟩
      · have hl := hlive hr
        exact ⟨hr, hl.alive, hl.named, nofun⟩
      · by_contra hr
        exact (hlive ((Bool.not_eq_false _).mp hr)).alive hd
    · have hr : (s.started id w).rooms k = s.rooms k := update_of_ne he ..
      rw [hr] at hv
      exact hs.rooms k v hv

end

theorem latest_isSome {old : Option Snapshot} (h : old.isSome) : (ws.foldl latest old).isSome := by
  induction ws generalizing old with
  | nil => exact h
  | cons x ws ih =>
    refine ih ?_
    cases x with
    | save snap => rfl
    | delete _ => exact h

theorem createRoom_live {cfg : ManagerConfig} {id name ownerID : String} {custom : Option Config}
    {metadata : Option Metadata} {now : Int} {w : World}
    (h : (createRoom cfg id name ownerID custom metadata now).toOption = some w) :
    Live id w ∧ ∃ snap, w.handed = [.save snap] := by
  cases h
  refine ⟨⟨rfl, nofun, rfl, fun x hx => ?_⟩, _, rfl⟩
  rw [mem_singleton.mp hx]
  rfl

theorem sound_next (cfg : ManagerConfig) (s : Store) (l : StoreAct) (s' : Store) (hs : Sound s) (hc : InOrder s l)
    (hn : s.next cfg l = some s') : Sound s' := by
  cases l with
  | create id name ownerID custom metadata now =>
    dsimp only [Store.next] at hn
    split at hn
    · cases hn
      exact hs
    obtain ⟨w, hw, rfl⟩ := map_eq_some_iff.mp hn
    obtain ⟨hl, snap, hsnap⟩ := createRoom_live hw
    refine sound_started hs (saves_key hl.saves) ?_ (fun _ => ?_) fun _ => hl
    · rw [settle_saves hl.saves, hl.registered, hsnap]
      rfl
    · rw [hsnap]
      rfl
  | call id l =>
    dsimp only [Store.next] at hn
    split at hn
    · cases hn
      exact hs
    next w hw =>
    obtain ⟨w', hserve, rfl⟩ := map_eq_some_iff.mp hn
    obtain ⟨hhanded, hlive, hgone⟩ := hs.rooms id w hw
    rcases outcome_serve hlive hserve with ⟨hreg, rfl⟩ | ⟨hreg, hout⟩
    · refine sound_started hs ?_ ?_ ?_ hlive
      · rw [hhanded]
        exact nofun
      · rw [hhanded, hreg]
        show settle s.repo (s.pending.map put) id = none
        rw [hs.settled, Store.expected, hw]
        exact if_neg (Bool.eq_false_iff.mp hreg)
      · intro hr
        rw [hreg] at hr
        cases hr
    · have hany : (s.rooms id).any (·.registered) = true := by
        rw [hw]
        exact hreg
      have hexp : settle s.repo (s.pending.map put) id = s.taken id := by
        rw [hs.settled, Store.expected, if_pos hany]
      rcases hout with hl | hg
      · refine sound_started hs (saves_key hl.saves) ?_ (fun _ => latest_isSome (hs.taken id hany)) fun _ => hl
        rw [settle_saves hl.saves, hexp, hl.registered]
        rfl
      · obtain ⟨ws, hws, hsaves⟩ := hg.deletes
        refine sound_started hs ?_ ?_ ?_ ?_
        · rw [hws, map_append]
          intro x hx
          rcases mem_append.mp hx with hx | hx
          · exact saves_key hsaves x hx
          · rw [mem_singleton.mp hx]
            rfl
        · rw [hg.registered, hws, map_append, settle_append]
          exact land_self _ (id, none)
        · intro hr
          rw [hg.registered] at hr
          cases hr
        · intro hr
          rw [hg.registered] at hr
          cases hr
  | land n =>
    obtain ⟨x, hx, rfl⟩ := map_eq_some_iff.mp hn
    refine ⟨fun id => ?_, hs.taken, hs.rooms⟩
    have hmap : (s.pending.map put)[n]? = some x.put := by
      rw [getElem?_map, hx]
      rfl
    have hfirst : ∀ m < n, ∀ y, (s.pending.map put)[m]? = some y → y.1 ≠ x.put.1 := by
      intro m hm y hy
      rw [getElem?_map] at hy
      obtain ⟨z, hz, rfl⟩ := map_eq_some_iff.mp hy
      exact hc x hx m hm z hz
    show settle (land s.repo x.put) ((s.pending.eraseIdx n).map put) id = s.expected id
    rw [← eraseIdx_map, settle_eraseIdx hmap hfirst]
    exact hs.settled id

theorem sound_empty : Sound {} :=
  ⟨fun _ => rfl, fun _ h => (by cases h), fun _ _ h => (by cases h)⟩

/-- **The repository holds the last snapshot of every registered room**, when the writes of a room land in order. -/
theorem repository_settles (cfg : ManagerConfig) (acts : List StoreAct) (s : Store)
    (hC : Along (Store.next cfg) InOrder {} acts) (hr : run (Store.next cfg) {} acts = some s)
    (hdone : s.pending = []) (id : String) (w : World) (hw : s.rooms id = some w) :
    (w.registered = true → ∃ snap, s.taken id = some snap ∧ s.repo id = some snap) ∧
      (w.room.state = .destroyed → s.repo id = none) := by
  have hs : Sound s := run_inv (sound_next cfg) sound_empty hC hr
  have hrepo : s.repo id = if w.registered then s.taken id else none := by
    have h := hs.settled id
    rw [hdone, Store.expected, hw] at h
    exact h
  constructor
  · intro hreg
    have htaken := hs.taken id (by rw [hw]; exact hreg)
    obtain ⟨snap, hsnap⟩ := isSome_iff_exists.mp htaken
    refine ⟨snap, hsnap, ?_⟩
    rw [hrepo, if_pos hreg, hsnap]
  · intro hd
    rw [hrepo, (hs.rooms id w hw).2.2 hd]
    rfl

/-! ## runs -/

def briefly : ManagerConfig := { defaultRecoveryTimeout := 0 }

def opening : StoreAct := .create id "room" "alice" (some ⟨10, 100, 200, 99000000, .visibilityPrivate⟩) none 1

def closing : List StoreAct :=
  [.call id (plain (.closeRoom "alice" 2) 6), .call id (sweeping 9000000 [alice] 7)]

def orderlyRun : List StoreAct :=
  [opening "r1", opening "r2", .call "r1" (plain (.join { userID := "alice", role := .owner } 2) 5), .land 1, .land 0,
    .land 0] ++ closing "r2" ++ [.land 0, .land 0]

theorem repository_settles_orderlyRun : ∃ s ∈ run (Store.next briefly) {} orderlyRun,
      (∃ snap, s.taken "r1" = some snap ∧ s.repo "r1" = some snap) ∧ s.repo "r2" = none := by
  have hC : Along (Store.next briefly) InOrder {} orderlyRun := by decide +kernel
  have hend : ∃ s ∈ run (Store.next briefly) {} orderlyRun, s.pending = [] ∧
      (∃ w ∈ s.rooms "r1", w.registered = true) ∧ ∃ w ∈ s.rooms "r2", w.room.state = .destroyed := by decide +kernel
  obtain ⟨s, hr, hdone, ⟨w₁, hw₁, hreg⟩, w₂, hw₂, hgone⟩ := hend
  exact ⟨s, hr, (repository_settles briefly orderlyRun s hC hr hdone "r1" w₁ hw₁).1 hreg,
    (repository_settles briefly orderlyRun s hC hr hdone "r2" w₂ hw₂).2 hgone⟩

/-- the first snapshot reaches the repository after the second; both snapshots of a room reach it after its deletion -/
theorem older_snapshot_wins : (∃ s ∈ run (Store.next briefly) {}
        [opening "r1", .call "r1" (plain (.join { userID := "alice", role := .owner } 2) 5), .land 1, .land 0],
      s.pending = [] ∧ (∃ w ∈ s.rooms "r1", w.registered = true) ∧ s.repo "r1" ≠ s.taken "r1") ∧
    ∃ s ∈ run (Store.next briefly) {} ([opening "r1"] ++ closing "r1" ++ [.land 2, .land 0, .land 0]),
      s.pending = [] ∧ (∃ w ∈ s.rooms "r1", w.room.state = .destroyed) ∧ s.repo "r1" ≠ none := by
  decide +kernel

end Rooms
