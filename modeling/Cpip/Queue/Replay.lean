import Cpip.Lib.Run
import Cpip.Queue.Emulator

/-!
# Queue: replay of dead letters

`DeadLetterQueue.Replay` over the stream emulator.  The message is looked for with a consumer group
of its own, in batches of fifty; the cursor of that group stays where the search has ended.

* `find_spec`  the search finds the first match above the cursor, and ends;
* `replay_exact`  **a replay works where no match lies below the cursor**.
-/

namespace Queue

open Emulator List Lts

/-! ## the call -/

/-- the message as it is published again -/
def Message.replayed (m : Message) : Message :=
  { m with
    state := .queued
    retryCount := 0
    workerID := ""
    metadata := m.metadata.filter fun kv =>
      kv.1 ≠ "dead_letter_reason" ∧ kv.1 ≠ "dead_letter_time" }

inductive ReplayErr where
  | read (why : Missing)
  | notFound (msgID : String)
  | undecodable
deriving DecidableEq

structure Replay where
  msgID : String
  target : String
  clock : ID → Int := fun _ => 0
  now : Int := 0

def replayGroup : String := "cpip-dlq-replay-group"

def carries (msgID : String) (x : Entry Fields) : Bool :=
  (unmarshal x.id x.fields).any fun m => m.messageID = msgID

/-- the loop of `Replay`, for at most `fuel` batches -/
def find (dlq msgID : String) (clock : ID → Int) :
    Nat → Emulator Fields → Except ReplayErr (Entry Fields) × Emulator Fields
  | 0, e => (.error (.notFound msgID), e)
  | fuel + 1, e =>
    match e.readGroup ⟨dlq, replayGroup, "dlq-replayer", 50, false⟩ clock with
    | (.error why, e') => (.error (.read why), e')
    | (.ok es, e') =>
      if es.isEmpty then (.error (.notFound msgID), e')
      else
        match es.find? (carries msgID) with
        | some x => (.ok x, e')
        | none => find dlq msgID clock fuel e'

variable (dlq : String) (e : Emulator Fields) (r : Replay)

/-- publish a dead letter again and take it off the dead-letter stream (`DeadLetterQueue.Replay`) -/
def replay : Except ReplayErr Unit × Emulator Fields :=
  let e₁ := e.createGroup dlq replayGroup "0"
  match find dlq r.msgID r.clock ((e₁.stream dlq).entries.length + 1) e₁ with
  | (.error err, e₂) => (.error err, e₂)
  | (.ok x, e₂) =>
    match unmarshal x.id x.fields with
    | none => (.error .undecodable, e₂)
    | some m =>
      let e₃ := (e₂.add r.target (marshal m.replayed) r.now).2
      (.ok (), (e₃.ack dlq replayGroup [x.id]).delete dlq [x.id])

def replayStep : Option (Emulator Fields) :=
  some (replay dlq e r).2

/-! ## the search -/

/-- a live dead letter with the message -/
def Match (msgID : String) (x : Entry Fields) : Prop :=
  x ∈ (e.stream dlq).entries ∧ x.deleted = false ∧ carries msgID x = true

/-- no live entry with the message lies at or below the cursor of the replay group -/
def Ahead : Prop :=
  ∀ x ∈ (e.stream dlq).entries, x.deleted = false ∧ carries r.msgID x = true →
    ∀ c ∈ cursor (e.stream dlq) replayGroup, c.less x.id = true

instance (dlq : String) (e : Emulator Fields) (r : Replay) : Decidable (Ahead dlq e r) := by
  unfold Ahead
  infer_instance

/-- the entries of a stream once a copy of the message was published -/
def published (m : Message) (n : String) : List (Entry Fields) :=
  if n = r.target then
    (e.stream n).entries ++ [⟨nextID e.last r.now, marshal m.replayed, false⟩]
  else (e.stream n).entries

/-- what a call is for: it succeeds where a match exists; then one copy is published, one match is
removed, and everything else stays -/
def Exact : Prop :=
  if (replay dlq e r).1 = .ok () then
    ∃ x m, Match dlq e r.msgID x ∧ unmarshal x.id x.fields = some m ∧ ∀ n, ((replay dlq e r).2.stream n).entries =
        if n = dlq then
          (published e r m n).map fun y => if y.id = x.id then { y with deleted := true } else y
        else published e r m n
  else (∀ x, ¬ Match dlq e r.msgID x) ∧ ∀ n, ((replay dlq e r).2.stream n).entries = (e.stream n).entries

section
variable {e : Emulator Fields} {dlq : String} {φ : Type}

theorem createGroup_cursor (e : Emulator φ) (n g : String) :
    ∃ c, cursor ((e.createGroup n g "0").stream n) g = some c ∧
      (cursor (e.stream n) g = some c ∨ cursor (e.stream n) g = none ∧ c = ID.zero) := by
  rw [createGroup, stream_put, if_pos rfl]
  cases hg : (e.stream n).groups g with
  | none => exact ⟨ID.zero, by simp [Stream.createGroup, hg, cursor], .inr ⟨by simp [cursor, hg], rfl⟩⟩
  | some x => exact ⟨x.lastDelivered, by rw [createGroup_some hg]; simp [cursor, hg], .inl (by simp [cursor, hg])⟩

theorem createGroup_stream (e : Emulator φ) (n g start m : String) :
    ((e.createGroup n g start).stream m).entries = (e.stream m).entries := by
  rw [createGroup, stream_put]
  split
  · rename_i h
    rw [h, createGroup_entries]
  · rfl

theorem ack_stream (e : Emulator φ) (n g m : String) (id : ID) :
    ((e.ack n g [id]).stream m).entries = (e.stream m).entries := by
  unfold Emulator.ack
  split
  · rfl
  rename_i s hs
  rw [stream_put]
  split
  · rename_i h
    rw [h, stream_eq hs]
    exact ack_entries g id
  · rfl

theorem delete_stream (e : Emulator φ) (n m : String) (id : ID) : ((e.delete n [id]).stream m).entries =
      if m = n then ((e.stream n).delete id).entries else (e.stream m).entries := by
  unfold delete
  split
  · rename_i hs
    split
    · rename_i h
      rw [h, stream, hs]
      rfl
    · rfl
  · rename_i s hs
    rw [stream_put]
    split
    · rw [stream_eq hs]
      rfl
    · rfl

theorem scan_mem {noAck : Bool} {c : String} {now : ID → Int} {n : Nat}
    {es : List (Entry φ)} {g : Group} {x : Entry φ} (h : x ∈ (scan noAck c now n es g).1) :
    x ∈ es ∧ x.deleted = false := by
  induction es generalizing n g with
  | nil => cases n <;> cases h
  | cons y es ih =>
    cases n with
    | zero => cases h
    | succ n =>
      rw [scan] at h
      split at h
      · exact ⟨mem_cons_of_mem _ (ih h).1, (ih h).2⟩
      rename_i htake
      rcases mem_cons.mp h with rfl | h
      · exact ⟨mem_cons_self .., (by simpa using htake : x.deleted = false ∧ _).1⟩
      · exact ⟨mem_cons_of_mem _ (ih h).1, (ih h).2⟩

theorem scan_nil {noAck : Bool} {c : String} {now : ID → Int} {n : Nat}
    {es : List (Entry φ)} {g : Group} (h : (scan noAck c now (n + 1) es g).1 = []) {x : Entry φ}
    (hx : x ∈ es) (hlive : x.deleted = false) : g.lastDelivered.less x.id = false := by
  induction es with
  | nil => cases hx
  | cons y es ih =>
    rw [scan] at h
    split at h
    · rename_i hskip
      rcases mem_cons.mp hx with rfl | hx
      · simpa [hlive] using hskip
      · exact ih h hx
    · cases h

/-- a read of a group that exists -/
theorem readGroup_ok {e : Emulator φ} (h : e.Sound) (args : ReadGroupArgs) {c : ID}
    (hc : cursor (e.stream args.stream) args.group = some c) (hk : 0 < args.count) (now : ID → Int) :
    ∃ out e' c', e.readGroup args now = (.ok out, e') ∧
      e'.Sound ∧ e'.last = e.last ∧ (∀ m, (e'.stream m).entries = (e.stream m).entries) ∧
      cursor (e'.stream args.stream) args.group = some c' ∧
      Reads (e.stream args.stream).entries c (out.map Entry.id) c' ∧
      (∀ x ∈ out, x ∈ (e.stream args.stream).entries ∧ x.deleted = false) ∧
      (out = [] → ∀ x ∈ (e.stream args.stream).entries, x.deleted = false → c.less x.id = false) := by
  obtain ⟨g, hg, rfl⟩ := Option.map_eq_some_iff.mp hc
  obtain ⟨k, hk'⟩ : ∃ k, args.count.toNat = k + 1 := ⟨args.count.toNat - 1, by omega⟩
  have hsome : e.streams args.stream = some (e.stream args.stream) := by
    cases hs : e.streams args.stream with
    | none =>
      rw [stream, hs] at hg
      cases hg
    | some s => rw [stream_eq hs]
  have hread : e.readGroup args now =
      (.ok (scan args.noAck args.consumer now (k + 1) (e.stream args.stream).entries g).1,
        e.setGroup args.stream args.group
          (scan args.noAck args.consumer now (k + 1) (e.stream args.stream).entries g).2) := by
    simp only [readGroup, Stream.readGroup, hsome, hg, Option.map_some, if_neg (Int.not_le.mpr hk), hk']
    rfl
  have hs : (e.readGroup args now).2.Sound := h.exec (.readGroup args now)
  rw [hread] at hs
  exact ⟨_, _, _, hread, hs, rfl, fun m => setGroup_entries .., setGroup_cursor ..,
    scan_reads (pairwise_map.mp (h.ids _).sorted) .., fun x hx => scan_mem hx,
    fun hnil x hx hlive => scan_nil hnil hx hlive⟩

theorem filter_shorter {es : List (Entry Fields)} {c c' : ID} (hmono : c'.less c = false)
    {x : Entry Fields} (hx : x ∈ es) (hc : c.less x.id = true) (hc' : c'.less x.id = false) :
    (es.filter fun y => c'.less y.id).length < (es.filter fun y => c.less y.id).length := by
  have hsub : (es.filter fun y => c'.less y.id) = (es.filter fun y => c.less y.id).filter fun y => c'.less y.id := by
    rw [filter_filter]
    refine filter_congr fun y _ => ?_
    cases hy : c'.less y.id with
    | false => rfl
    | true => rw [ID.less_of_not_less hmono hy]; rfl
  rw [hsub, length_filter_lt_length_iff_exists]
  exact ⟨x, mem_filter.mpr ⟨hx, hc⟩, by simp [hc']⟩

/-- **The search finds a match above the cursor**, or there is none. -/
theorem find_spec (msgID : String) (clock : ID → Int) {fuel : Nat} {c : ID} (h : e.Sound)
    (hc : cursor (e.stream dlq) replayGroup = some c)
    (hfuel : ((e.stream dlq).entries.filter fun x => c.less x.id).length < fuel) :
    ∃ res e', find dlq msgID clock fuel e = (res, e') ∧ e'.Sound ∧ e'.last = e.last ∧
      (∀ n, (e'.stream n).entries = (e.stream n).entries) ∧
      ((∃ x, res = .ok x ∧ Match dlq e msgID x) ∨
        (∃ err, res = .error err) ∧ ∀ x, Match dlq e msgID x → c.less x.id = false) := by
  induction fuel generalizing e c with
  | zero => cases hfuel
  | succ fuel ih =>
    obtain ⟨out, e₁, c₁, hread, hs, hlast, hen, hc₁, hr, hmem, hnil⟩ :=
      readGroup_ok h ⟨dlq, replayGroup, "dlq-replayer", 50, false⟩ hc (by decide : (0 : Int) < 50) clock
    simp only [find, hread]
    cases out with
    | nil =>
      refine ⟨_, e₁, rfl, hs, hlast, hen, .inr ⟨⟨_, rfl⟩, fun x hx => hnil rfl x hx.1 hx.2.1⟩⟩
    | cons y ys =>
      cases hf : (y :: ys).find? (carries msgID) with
      | some x =>
        have hx := mem_of_find?_eq_some hf
        exact ⟨_, e₁, rfl, hs, hlast, hen, .inl ⟨x, rfl, (hmem x hx).1, (hmem x hx).2, find?_some hf⟩⟩
      | none =>
        have hy := hmem y (mem_cons_self ..)
        have hshort := filter_shorter hr.mono hy.1 (hr.above y.id (by simp)) (hr.upto y.id (by simp))
        obtain ⟨res, e₂, hfind, hs₂, hlast₂, hen₂, hres⟩ := ih hs hc₁ (by
          rw [hen]
          exact Nat.lt_of_lt_of_le hshort (Nat.le_of_lt_succ hfuel))
        have hmatch : ∀ x, Match dlq e₁ msgID x ↔ Match dlq e msgID x := fun x => by
          rw [Match, Match, hen]
        refine ⟨res, e₂, hfind, hs₂, hlast₂.trans hlast, fun n => (hen₂ n).trans (hen n), ?_⟩
        rcases hres with ⟨x, hx, hm⟩ | ⟨herr, hall⟩
        · exact .inl ⟨x, hx, (hmatch x).mp hm⟩
        refine .inr ⟨herr, fun x hx => ?_⟩
        -- a match that was passed would be in the batch
        have hup := hall x ((hmatch x).mpr hx)
        by_contra hlt
        obtain ⟨z, hz, hid⟩ := mem_map.mp (hr.passed x hx.1 hx.2.1 (by simpa using hlt) hup)
        obtain rfl := h.ordered.unique (hmem z hz).1 hx.1 hid
        exact absurd hx.2.2 (find?_eq_none.mp hf z hz)

/-- **One call**, where no match lies below the cursor. -/
theorem exact_replay (h : e.Sound) {r : Replay} (ha : Ahead dlq e r) : Exact dlq e r ∧ (replay dlq e r).2.Sound := by
  obtain ⟨c, hc, hold⟩ := createGroup_cursor e dlq replayGroup
  have hs : (e.createGroup dlq replayGroup "0").Sound := h.exec (.createGroup dlq replayGroup "0")
  have hen := createGroup_stream e dlq replayGroup "0"
  obtain ⟨res, e₂, hfind, hs₂, hlast, hen₂, hres⟩ := find_spec r.msgID r.clock hs hc
    (Nat.lt_succ_of_le (length_filter_le ..))
  have hmatch : ∀ x, Match dlq (e.createGroup dlq replayGroup "0") r.msgID x ↔ Match dlq e r.msgID x :=
    fun x => by rw [Match, Match, hen]
  rcases hres with ⟨x, rfl, hx⟩ | ⟨⟨err, rfl⟩, hall⟩
  · obtain ⟨m, hm⟩ : ∃ m, unmarshal x.id x.fields = some m := by
      have := hx.2.2
      unfold carries at this
      cases hu : unmarshal x.id x.fields with
      | none => rw [hu] at this; cases this
      | some m => exact ⟨m, rfl⟩
    have hrep : replay dlq e r = (.ok (), (((e₂.add r.target (marshal m.replayed) r.now).2).ack dlq
        replayGroup [x.id]).delete dlq [x.id]) := by
      simp only [replay, hfind, hm]
    have hs₃ := ((hs₂.exec (.add r.target (marshal m.replayed) r.now)).exec
      (.ack dlq replayGroup [x.id])).exec (.delete dlq [x.id])
    refine ⟨?_, hrep ▸ hs₃⟩
    rw [Exact, hrep, if_pos rfl]
    have hadd : ∀ n, ((e₂.add r.target (marshal m.replayed) r.now).2.stream n).entries =
        published e r m n := fun n => by
      show ((e₂.put r.target _).stream n).entries = _
      rw [stream_put, published, hen₂ n |>.trans (hen n) |>.symm, ← show e₂.last = e.last from hlast]
      split
      · rename_i hn
        rw [hn]
        rfl
      · rfl
    refine ⟨x, m, (hmatch x).mp hx, hm, fun n => ?_⟩
    show ((((e₂.add r.target _ r.now).2.ack dlq replayGroup [x.id]).delete dlq [x.id]).stream n).entries = _
    rw [delete_stream]
    split
    · rename_i hn
      rw [hn, Stream.delete, ack_stream, hadd]
    · rw [ack_stream, hadd]
  · have hrep : replay dlq e r = (.error err, e₂) := by
      simp only [replay, hfind]
    refine ⟨?_, hrep ▸ hs₂⟩
    rw [Exact, hrep, if_neg nofun]
    refine ⟨fun x hx => ?_, fun n => (hen₂ n).trans (hen n)⟩
    have hle := hall x ((hmatch x).mpr hx)
    have hlt : c.less x.id = true := by
      rcases hold with hold | ⟨-, rfl⟩
      · exact ha x hx.1 hx.2 c hold
      · exact (h.ids dlq).positive _ (mem_map_of_mem hx.1)
    rw [hlt] at hle
    cases hle

end

/-- **A replay succeeds exactly when a live entry with the message exists, and moves that entry only.** -/
theorem replay_exact (dlq : String) (content : List (Op Fields)) (calls : List Replay)
    (hC : Along (replayStep dlq) (Ahead dlq) (after {} content) calls) :
    Along (replayStep dlq) (Exact dlq) (after {} content) calls := by
  have hs := along_inv (I := Sound) (fun e r e' h ha he => by
    cases he
    exact (exact_replay h ha).2) (Sound.init.after content) hC
  exact along_mono (fun e r h => (exact_replay h.1 h.2).1) _ _ (along_and hs hC)

def letters : List (Op Fields) :=
  [.add "dlq" (.data { messageID := "a" }) 0, .add "dlq" .malformed 0,
    .add "dlq" (.data { messageID := "b", retryCount := 3 }) 0]

def toExec (msgID : String) : Replay := { msgID, target := "exec" }

theorem replay_exact_letters : Along (replayStep "dlq") (Ahead "dlq") (after {} letters) [toExec "b", toExec "c"] ∧
      Along (replayStep "dlq") (Exact "dlq") (after {} letters) [toExec "b", toExec "c"] := by
  refine ⟨?hC, replay_exact "dlq" letters _ ?hC⟩
  decide +kernel

/-- **A dead letter that an earlier replay has read past is not found**, though it is there. -/
theorem replay_misses : (replay "dlq" (after {} letters) (toExec "b")).1 = .ok () ∧
      ∃ e ∈ replayStep "dlq" (after {} letters) (toExec "b"),
        (replay "dlq" e (toExec "a")).1 = .error (.notFound "a") ∧
        ∃ x ∈ (e.stream "dlq").entries, x.deleted = false ∧ carries "a" x = true := by
  decide +kernel

end Queue
