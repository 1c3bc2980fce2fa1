import Cpip.Lib.Outline
import Cpip.Rooms.Manager

/-!
# Rooms: the janitor among other calls

A sweep lists the participants and reads the last activity under the lock, and acts on what it has found later.

* `sweep_harmless`  **every step of a sweep is harmless** in every undisturbed run.

`Leave` and `Transition` ask for nothing, see `sweep_evicts_connected`.
-/

namespace Rooms

open Pool Lts Code

/-! ## what a sweep is going to do -/

def Cmd.leaves (u : String) : Cmd → Bool
  | .leave v _ => v = u
  | _ => false

def Cmd.ends : Cmd → Bool
  | .transition dst _ => dst = .expiring ∨ dst = .closed
  | _ => false

/-- answers that take a sweep through its evictions -/
def evicting : (c : Cmd) → Option c.Ans
  | .publish _ => some ()
  | .leave _ _ => some (.error .participantNotFound)
  | _ => none

/-- answers that take a sweep from its reading of the last activity to its transition -/
def ending : (c : Cmd) → Option c.Ans
  | .connectedCount => some 1
  | _ => none

/-- the user is among those whom the sweep is going to evict -/
def evicts (u : String) (x : Task Reply) : Bool := x.leads evicting (Cmd.leaves u)

/-- the sweep has read the last activity and is going to move the room to `expiring` or `closed` -/
def ends (x : Task Reply) : Bool := x.leads ending Cmd.ends

def Call.sweeps : Call → Bool
  | .sweep _ => true
  | _ => false

/-- the command connects somebody whom the sweep will evict, or uses the room that the sweep found unused -/
def disturbs (c : Cmd) (x : Task Reply) : Bool := c.connects.any (fun v => evicts v x) || (c.stamps && ends x)

/-- nobody connects whom a sweep is going to evict, nor uses the room between its reading and its transition -/
def Undisturbed (sys : RoomSys) : Act Call (List Participant) → Prop
  | .spawn _ _ => True
  | .step i _ => ∀ t c, sys.pool i = some t → t.next = some c → ∀ j u, j ≠ i → sys.pool j = some u →
      u.what.sweeps = true → disturbs c u.code = false

/-- whom the sweep removes is not connected, and the room that it moves was not used for longer than the timeout -/
def Harmless (sys : RoomSys) : Act Call (List Participant) → Prop
  | .spawn _ _ => True
  | .step i _ => ∀ t c now, sys.pool i = some t → t.what = .sweep now → t.next = some c →
      (∀ u, c.leaves u = true → ∀ p, sys.shared.room.participants.find u = some p → p.connected = false) ∧
      (c.ends = true → sys.shared.room.cfg.expireTimeout < now - sys.shared.room.lastActivity)

/-! ## the outline of a sweep -/

/-- what a sweep has found still holds -/
structure Found (now : Int) (x : Task Reply) (s : World) : Prop where
  gone : ∀ u, evicts u x = true → ∀ p, s.room.participants.find u = some p → p.connected = false
  unused : ends x = true → s.room.cfg.expireTimeout < now - s.room.lastActivity

def Assertion : Call → Task Reply → World → Prop
  | .sweep now, x, s => Found now x s
  | _, _, _ => True

/-- the command neither takes anybody out nor ends the room -/
def Cmd.mild (c : Cmd) : Prop := (∀ u, c.leaves u = false) ∧ c.ends = false

theorem found_of_uses {now : Int} {x : Task Reply} (h : x.Uses Cmd.mild) (s : World) : Found now x s := by
  constructor
  · intro u hu
    have hno : evicts u x = false := leads_uses (uses_mono (fun c hc => hc.1 u) h)
    rw [hno] at hu
    cases hu
  · intro he
    have hno : ends x = false := leads_uses (uses_mono (fun c hc => hc.2) h)
    rw [hno] at he
    cases he

theorem found_same {now : Int} {x y : Task Reply} {s m : World} (h : Found now x s) (hroom : m.room = s.room)
    (hev : ∀ u, evicts u y = true → evicts u x = true) (hend : ends y = true → ends x = true) : Found now y m := by
  constructor
  · rw [hroom]
    exact fun u hu => h.gone u (hev u hu)
  · rw [hroom]
    exact fun he => h.unused (hend he)

section
variable {recovery now lastAct : Int} {cfg : Config} {state dst : State} {n : Nat} {ok : World → Cmd → Prop}

abbrev tail (recovery : Int) (cfg : Config) (now : Int) : Task Reply :=
  (cleanupRest recovery cfg now).bind fun _ => .ret .done

theorem mild_of_reports {c : Cmd} (h : c.reports = true) : c.mild := by
  cases c with
  | publish _ | save => exact ⟨fun _ => rfl, rfl⟩
  | _ => cases h

theorem outlined_move {next : Task Unit} (hnext : next.Uses Cmd.mild) :
    ((move dst now next).bind fun _ => .ret .done).Outlined exec ok (Found now) := by
  refine outlined_call fun s e res m _ _ => ?_
  cases res with
  | ok _ =>
    have huses : (next.bind fun _ => ret Reply.done).Uses Cmd.mild := uses_bind hnext fun _ => trivial
    exact ⟨fun _ => found_of_uses huses m, outlined_uses (fun y hy => found_of_uses hy) huses⟩
  | error _ => exact ⟨fun _ => found_of_uses (x := .ret .done) trivial m, trivial⟩

theorem outlined_cleanupState :
    ((cleanupState recovery cfg now state lastAct n).bind fun _ => .ret .done).Outlined exec ok (Found now) := by
  rcases cleanupState_cases recovery cfg now state lastAct n with h | ⟨dst, next, h, hnext, -, -⟩
  · rw [h]
    trivial
  rw [h]
  apply outlined_move
  rcases hnext with ⟨-, huses⟩ | ⟨-, ev, rfl⟩
  · exact uses_mono (fun _ => mild_of_reports) huses
  · have hother : Cmd.deregister.mild ∧ Cmd.delete.mild := ⟨⟨fun _ => rfl, rfl⟩, fun _ => rfl, rfl⟩
    exact ⟨⟨fun _ => rfl, rfl⟩, fun _ => ⟨hother.1, fun _ => ⟨hother.2, fun _ => trivial⟩⟩⟩

theorem ends_cleanupState (h : ends ((cleanupState recovery cfg now state lastAct n).bind fun _ => .ret .done) = true) :
    cfg.expireTimeout < now - lastAct ∧
      ends ((cleanupState recovery cfg now state lastAct 1).bind fun _ => .ret .done) = true := by
  rcases cleanupState_cases recovery cfg now state lastAct n with hret | ⟨dst, next, hmove, -, -, hend⟩
  · rw [hret] at h
    cases h
  rw [hmove] at h
  have hdst : (Cmd.transition dst now).ends = true := (Bool.or_false _).symm.trans h
  obtain ⟨ht, next', hone⟩ := hend (of_decide_eq_true hdst)
  rw [hone]
  exact ⟨ht, leads_call hdst⟩

theorem evicts_cleanupState {u : String}
    (h : evicts u ((cleanupState recovery cfg now state lastAct n).bind fun _ => .ret .done) = true) : False := by
  rcases cleanupState_cases recovery cfg now state lastAct n with hret | ⟨dst, next, hmove, -, -, -⟩
  · rw [hret] at h
    cases h
  · rw [hmove] at h
    cases h

theorem outlined_tail (hok : ∀ s c, ok s c → s.room.cfg = cfg) :
    (tail recovery cfg now).Outlined exec ok (Found now) := by
  refine outlined_call fun s e state m _ he => ⟨fun _ => ⟨nofun, nofun⟩, ?_⟩
  refine outlined_call fun s e lastAct m hcfg he => ?_
  cases he
  refine ⟨fun _ => ⟨nofun, fun h => ?_⟩, ?_⟩
  · rw [hok s _ hcfg]
    exact (ends_cleanupState (n := 1) h).1
  refine outlined_call fun s e n m _ he => ?_
  cases he
  refine ⟨fun hI => found_same hI rfl (fun u h => ?_) fun h => (ends_cleanupState h).2, outlined_cleanupState⟩
  exact (evicts_cleanupState h).elim

theorem evicts_loop (u : String) (T : Task Reply) (ps : List Participant) :
    evicts u ((each (evict cfg now) ps).bind fun _ => T) =
      (ps.any (fun p => p.due cfg now && p.userID = u) || evicts u T) := by
  induction ps with
  | nil => rfl
  | cons p ps ih =>
    rw [List.any_cons, Bool.or_assoc, ← ih]
    show evicts u (((evict cfg now p).bind fun _ => each (evict cfg now) ps).bind fun _ => T) = _
    unfold evict
    split
    · next h =>
      rw [h, Bool.true_and]
      rfl
    · next h =>
      rw [Bool.eq_false_iff.mpr h, Bool.false_and, Bool.false_or]
      rfl

theorem ends_loop (T : Task Reply) (hT : ends T = false) (ps : List Participant) :
    ends ((Code.each (evict cfg now) ps).bind fun _ => T) = false :=
  leads_bind_uses (uses_each fun p _ => uses_evict (fun _ => rfl) (fun _ => rfl) p) fun _ => hT

theorem found_less {x y : Task Reply} {s m : World} {c : Cmd} {e : List Participant} {a : c.Ans} (h : Found now x s)
    (he : exec c s e = some (a, m)) (hc : c.connects = none) (hev : ∀ u, evicts u y = true → evicts u x = true)
    (hend : ends y = false) : Found now y m := by
  constructor
  · intro u hu q hq
    by_contra hcon
    obtain ⟨p, hp, hpc⟩ := connected_exec he (hc ▸ (Option.some_ne_none u).symm) hq ((Bool.not_eq_false _).mp hcon)
    rw [h.gone u (hev u hu) p hp] at hpc
    cases hpc
  · intro hy
    rw [hend] at hy
    cases hy

theorem outlined_loop {T : Task Reply} (hT : T.Outlined exec ok (Found now)) (hends : ends T = false)
    (ps : List Participant) : ((each (evict cfg now) ps).bind fun _ => T).Outlined exec ok (Found now) := by
  induction ps with
  | nil => exact hT
  | cons p ps ih =>
    have hrest : ends ((each (evict cfg now) ps).bind fun _ => T) = false := ends_loop T hends ps
    show (((evict cfg now p).bind fun _ => each (evict cfg now) ps).bind fun _ => T).Outlined exec ok (Found now)
    unfold evict
    split
    · refine outlined_call fun s e res m _ he => ?_
      -- whom the rest of the loop evicts, the loop evicts from here on
      cases res with
      | error _ => exact ⟨fun hI => found_less hI he rfl (fun u hu => (Bool.or_eq_true _ _).mpr (.inr hu)) hrest, ih⟩
      | ok _ =>
        refine ⟨fun hI => found_less hI he rfl (fun u hu => (Bool.or_eq_true _ _).mpr (.inr hu)) rfl,
          outlined_call fun s e _ m _ he => ?_⟩
        exact ⟨fun hI => found_less hI he rfl (fun u hu => hu) hrest, ih⟩
    · exact ih

theorem gone_listed {ms : Members} {ps : List Participant} (hps : ps.Perm ms.list) {u : String}
    (h : ps.any (fun p => p.due cfg now && p.userID = u) = true) {q : Participant} (hq : ms.find u = some q) :
    q.connected = false := by
  obtain ⟨p, hp, hdue⟩ := List.any_eq_true.mp h
  obtain ⟨hdue, hid⟩ := (Bool.and_eq_true _ _).mp hdue
  have hfind : ms.find p.userID = some p := Members.mem_list.mp (hps.mem_iff.mp hp)
  rw [of_decide_eq_true hid, hq] at hfind
  cases hfind
  exact (Bool.not_eq_true' _).mp ((Bool.and_eq_true _ _).mp hdue).1

theorem outlined_sweep (hok : ∀ s c, ok s c → s.room.cfg = cfg) :
    (sweep recovery now).Outlined exec ok (Found now) := by
  have hnone : ∀ (x : Task Reply) s, (∀ u, evicts u x = false) → ends x = false → Found now x s := by
    intro x s hev hend
    refine ⟨fun u hu => ?_, fun he => ?_⟩
    · rw [hev u] at hu
      cases hu
    · rw [hend] at he
      cases he
  refine outlined_call fun s e found m _ he => ?_
  cases found with
  | false => exact ⟨fun _ => hnone _ m (fun _ => rfl) rfl, trivial⟩
  | true =>
    refine ⟨fun _ => hnone _ m (fun _ => rfl) rfl, outlined_call fun s e c m hcfg he => ?_⟩
    cases he
    refine ⟨fun _ => hnone _ s (fun _ => rfl) rfl, outlined_call fun s e ps m _ he => ?_⟩
    show (Found now _ s → Found now (((each (evict _ now) ps).bind fun _ => cleanupRest _ _ now).bind _) m) ∧
      (((each (evict _ now) ps).bind fun _ => cleanupRest _ _ now).bind _).Outlined exec ok (Found now)
    rw [bind_assoc]
    refine ⟨fun _ => ⟨fun u hu => ?_, fun h => ?_⟩, outlined_loop (outlined_tail ?_) rfl ps⟩
    · rw [evicts_loop] at hu
      dsimp only [exec] at he
      split at he
      · next hperm =>
        cases he
        rcases (Bool.or_eq_true _ _).mp hu with hu | hu
        · exact fun q hq => gone_listed hperm hu hq
        · cases hu
      · cases he
    · rw [ends_loop _ rfl] at h
      cases h
    · rw [hok _ _ hcfg]
      exact hok

end

/-! ## interleavings -/

theorem outlined_body (recovery : Int) {cfg : Config} {ok : World → Cmd → Prop}
    (hok : ∀ s c, ok s c → s.room.cfg = cfg) (w : Call) (s : World) :
    (body recovery w).Outlined exec ok (Assertion w) ∧ Assertion w (body recovery w) s := by
  cases w with
  | sweep now =>
    refine ⟨outlined_sweep hok, fun u hu => ?_, fun h => ?_⟩
    · cases hu
    · cases h
  | _ =>
    refine ⟨every_all fun y => ?_, trivial⟩
    cases y with
    | ret r => trivial
    | call c k => exact fun _ _ _ _ _ _ _ => trivial

theorem found_other {now : Int} {x : Task Reply} {s m : World} {c : Cmd} {e : List Participant} {a : c.Ans}
    (h : Found now x s) (he : exec c s e = some (a, m)) (hc : disturbs c x = false) : Found now x m := by
  obtain ⟨hcon, huse⟩ := (Bool.or_eq_false_iff).mp hc
  constructor
  · intro u hu q hq
    by_contra hqc
    have hother : c.connects ≠ some u := by
      intro hc
      rw [hc] at hcon
      exact absurd (hu.symm.trans hcon) Bool.noConfusion
    obtain ⟨p, hp, hpc⟩ := connected_exec he hother hq ((Bool.not_eq_false _).mp hqc)
    rw [h.gone u hu p hp] at hpc
    cases hpc
  · intro hx
    have hquiet : c.stamps = false := by
      rw [hx, Bool.and_true] at huse
      exact huse
    rw [cfg_exec he, lastActivity_exec he hquiet]
    exact h.unused hx

abbrev JanitorInv (cfg : Config) : RoomSys → Prop :=
  OutlineSys exec (fun s => s.room.cfg = cfg) (fun s _ => s.room.cfg = cfg) Assertion fun _ _ => True

theorem janitorInv_next (recovery : Int) (cfg : Config) (sys : RoomSys) (l : Act Call (List Participant))
    (sys' : RoomSys) (hi : JanitorInv cfg sys) (hc : Undisturbed sys l)
    (hn : (calls recovery).next sys l = some sys') : JanitorInv cfg sys' := by
  refine outline_next (D := Undisturbed) (fun _ _ _ _ _ _ _ h => h.shared) (fun _ _ _ _ _ _ _ h => ?_)
    (fun w s _ => outlined_body recovery (fun _ _ h => h) w s) ?_ (fun _ _ => ⟨trivial, trivial⟩)
    (fun _ _ _ _ _ _ _ _ _ _ _ _ _ _ _ => ⟨trivial, trivial⟩) sys l sys' hi hc hn
  · obtain ⟨e, -, he⟩ := h.guard
    exact (cfg_exec he).trans h.shared
  intro sys i t c k a m h j u hj hu _ hI
  obtain ⟨e, hD, he⟩ := h.guard
  obtain ⟨w, code⟩ := u
  cases w with
  | sweep now =>
    exact found_other hI he (hD t c h.pool (next_of_code h.code) j _ hj hu rfl)
  | _ =>
    trivial

theorem harmless_of_inv {cfg : Config} {sys : RoomSys} (hi : JanitorInv cfg sys) (l : Act Call (List Participant)) :
    Harmless sys l := by
  cases l with
  | spawn i w => trivial
  | step i e =>
    intro t c now hp hw hnext
    obtain ⟨k, hcode⟩ := code_of_next hnext
    have hfound : Found now (call c k) sys.shared := by
      have hI := (hi.each i t hp).2
      rw [hw, hcode] at hI
      exact hI
    exact ⟨fun u hu => hfound.gone u (leads_call hu), fun hend => hfound.unused (leads_call hend)⟩

/-- **The janitor does no harm** when its calls are undisturbed. -/
theorem sweep_harmless (recovery : Int) (w : World) (acts : List (Act Call (List Participant)))
    (hC : Along (calls recovery).next Undisturbed (idle w) acts) :
    Along (calls recovery).next Harmless (idle w) acts := by
  have hinv : Along (calls recovery).next (fun sys _ => JanitorInv w.room.cfg sys) (idle w) acts :=
    along_inv (janitorInv_next recovery w.room.cfg) (inv_idle rfl) hC
  exact along_mono (fun sys l hi => harmless_of_inv hi l) _ _ hinv

/-! ## runs -/

def busyRun : List (Act Call (List Participant)) :=
  listing 0 100 [alice] ++ [.spawn 1 (.join { userID := "bob", role := .participant } 100)] ++ steps 1 2 ++ steps 0 5 ++
    steps 1 3

theorem sweep_harmless_busyRun : (∃ sys ∈ run (calls 60).next (idle (aliceWorld 50)) busyRun,
      sys.shared.room.participants.find "alice" = none ∧ sys.shared.room.participants.connectedCount = 1) ∧
    Along (calls 60).next Undisturbed (idle (aliceWorld 50)) busyRun ∧
      Along (calls 60).next Harmless (idle (aliceWorld 50)) busyRun := by
  refine ⟨by decide +kernel, ?hC, sweep_harmless 60 (aliceWorld 50) busyRun ?hC⟩
  exact along_pairs (n := 2)
    (D := fun _ i t j u => j ≠ i → ∀ c ∈ t.next, u.what.sweeps = true → disturbs c u.code = false)
    (fun _ _ _ => trivial)
    (fun _ _ _ h t c hp hc j u hj hu => h t j u hp hu hj c hc) (by decide +kernel) (by decide +kernel)

/-- the owner comes back and is evicted while connected; a room that is in use again is closed -/
theorem sweep_evicts_connected : (∃ sys ∈ run (calls 60).next (idle (aliceWorld 50))
        (listing 0 100 [alice] ++ [.spawn 1 (.join { userID := "alice", role := .owner } 100)] ++ steps 1 2),
      (sys.shared.room.participants.find "alice").any (·.connected) = true ∧
      ∃ sys' ∈ (calls 60).next sys (.step 0 []), sys'.shared.room.participants.find "alice" = none) ∧
    ∃ sys ∈ run (calls 60).next (idle (aliceWorld 1000))
        (listing 0 300 [alice] ++ steps 0 7 ++ listing 1 600 [alice] ++ steps 1 3 ++
          [.spawn 2 (.join { userID := "alice", role := .owner } 600)] ++ steps 2 2),
      sys.shared.room.state = .active ∧ sys.shared.room.lastActivity = 600 ∧
      ∃ sys' ∈ (calls 60).next sys (.step 1 []), sys'.shared.room.state = .closed ∧
        sys'.shared.room.lastActivity = 600 := by
  decide +kernel

end Rooms
