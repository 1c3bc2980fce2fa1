import Mathlib.Algebra.Group.Int.Defs
import Mathlib.Algebra.Group.Nat.Defs
import Cpip.Queue.Stream

/-!
# Queue: the stream emulator

The operations of `redisstream.Emulator` as calls on all of its streams, which share one counter of identifiers.
Every reading of the clock is an argument of its own, so nothing is assumed of the clock.

* `idLess_text`  identifiers compare as their texts do after they are parsed again;
* `Effect`  what one call means for one group;
* `delivered_once`  **a group is handed every entry once and in order, unless there is a reason**.

A blocking read is its last pass: a pass that finds nothing changes nothing.  The emulator is not closed.
-/

namespace Queue

open Function List ID

/-! ## texts -/

/-- the text of an identifier, `%d-%d` -/
def ID.text (i : ID) : List Char := Nat.toDigits 10 i.ms.toNat ++ '-' :: Nat.toDigits 10 i.seq

/-- the loop over the digits (`strconv.ParseUint`): a number past 64 bits ends it -/
def parseUint : List Char → Nat → Option Nat
  | [], n => some n
  | c :: cs, n =>
    if !c.isDigit then none
    else
      let n := 10 * n + (c.toNat - '0'.toNat)
      if 2 ^ 64 ≤ n then some (2 ^ 64 - 1) else parseUint cs n

/-- what `strconv.ParseInt` returns beside its error, clipped to 64 bits -/
def parseInt (s : List Char) : Int :=
  let neg := s.head? = some '-'
  match parseUint (if neg ∨ s.head? = some '+' then s.tail else s) 0 with
  | none => 0
  | some n => if neg then max (-2 ^ 63) (-n) else min (2 ^ 63 - 1) n

def parseID (s : List Char) : Int × Int :=
  (parseInt (s.takeWhile (· ≠ '-')), parseInt ((s.dropWhile (· ≠ '-')).drop 1))

/-- the order of texts (`idLess`) -/
def idLess (a b : List Char) : Bool :=
  if (parseID a).1 ≠ (parseID b).1 then decide ((parseID a).1 < (parseID b).1)
  else decide ((parseID a).2 < (parseID b).2)

theorem le_ofDigitChars (cs : List Char) (n : Nat) : n ≤ Nat.ofDigitChars 10 cs n := by
  induction cs generalizing n with
  | nil => exact Nat.le_refl n
  | cons c cs ih =>
    rw [Nat.ofDigitChars_cons]
    have := ih (10 * n + (c.toNat - '0'.toNat))
    omega

theorem parseUint_digits {cs : List Char} {n : Nat} (hd : ∀ c ∈ cs, c.isDigit = true)
    (h : Nat.ofDigitChars 10 cs n < 2 ^ 64) : parseUint cs n = some (Nat.ofDigitChars 10 cs n) := by
  induction cs generalizing n with
  | nil => rfl
  | cons c cs ih =>
    rw [Nat.ofDigitChars_cons] at h ⊢
    have hn := Nat.lt_of_le_of_lt (le_ofDigitChars cs _) h
    rw [parseUint, hd c (mem_cons_self ..), ← ih (fun x hx => hd x (mem_cons_of_mem _ hx)) h]
    exact if_neg (Nat.not_le.mpr hn)

theorem isDigit_toDigits {n : Nat} {c : Char} (h : c ∈ Nat.toDigits 10 n) : c.isDigit = true :=
  Nat.isDigit_of_mem_toDigits (by decide) (by decide) h

theorem parseInt_toDigits {n : Nat} (h : n < 2 ^ 63) : parseInt (Nat.toDigits 10 n) = n := by
  have hof : Nat.ofDigitChars 10 (Nat.toDigits 10 n) 0 = n := Nat.ofDigitChars_toDigits (by decide) (by decide)
  have hsign : ∀ c, c.isDigit = false → (Nat.toDigits 10 n).head? ≠ some c := by
    intro c hc hh
    rw [isDigit_toDigits (mem_of_mem_head? hh)] at hc
    cases hc
  have hp : parseUint (Nat.toDigits 10 n) 0 = some n := by
    rw [parseUint_digits (fun c => isDigit_toDigits) (by omega), hof]
  unfold parseInt
  simp only [hsign '-' (by decide), hsign '+' (by decide), or_self, if_false, hp]
  omega

/-- the numbers of the identifier fit in 64 bits -/
def ID.Fits (i : ID) : Prop := 0 ≤ i.ms ∧ i.ms < 2 ^ 63 ∧ i.seq < 2 ^ 63

theorem parseID_text {i : ID} (h : i.Fits) : parseID i.text = (i.ms, (i.seq : Int)) := by
  obtain ⟨h0, hms, hseq⟩ := h
  have hd : ∀ c ∈ Nat.toDigits 10 i.ms.toNat, decide (c ≠ '-') = true := by
    intro c hc
    refine decide_eq_true ?_
    rintro rfl
    exact absurd (isDigit_toDigits hc) (by decide)
  unfold parseID text
  rw [takeWhile_append_of_pos hd, dropWhile_append_of_pos hd]
  simp [parseInt_toDigits hseq, parseInt_toDigits (n := i.ms.toNat) (by omega), Int.toNat_of_nonneg h0]

/-- **Identifiers compare as their texts do after they are parsed again.** -/
theorem idLess_text {a b : ID} (ha : a.Fits) (hb : b.Fits) : idLess a.text b.text = a.less b := by
  unfold idLess less
  rw [parseID_text ha, parseID_text hb]
  simp

theorem idLess_text_tens : Fits ⟨9, 2 ^ 63 - 1⟩ ∧ Fits ⟨10, 0⟩ ∧
    idLess (text ⟨9, 2 ^ 63 - 1⟩) (text ⟨10, 0⟩) = less ⟨9, 2 ^ 63 - 1⟩ ⟨10, 0⟩ := by
  have h9 : Fits ⟨9, 2 ^ 63 - 1⟩ := by
    simp [Fits]
  have h10 : Fits ⟨10, 0⟩ := by
    simp [Fits]
  exact ⟨h9, h10, idLess_text h9 h10⟩

/-! ## calls -/

structure Emulator (φ : Type) where
  streams : String → Option (Stream φ) := fun _ => none
  last : ID := zero

structure ReadGroupArgs where
  stream : String
  group : String
  consumer : String
  count : Int
  noAck : Bool := false

structure AutoClaimArgs where
  stream : String
  group : String
  consumer : String
  minIdle : Int
  start : ID
  count : Int

inductive Missing where
  | stream (name : String)
  | group (name : String)
deriving DecidableEq

namespace Emulator

variable {φ : Type} (e : Emulator φ)

def stream (name : String) : Stream φ := (e.streams name).getD {}

def put (name : String) (s : Stream φ) : Emulator φ :=
  { e with streams := update e.streams name (some s) }

def add (e : Emulator φ) (name : String) (fields : φ) (now : Int) : ID × Emulator φ :=
  let id := nextID e.last now
  (id, { e.put name ((e.stream name).add id fields) with last := id })

def createGroup (e : Emulator φ) (name group start : String) : Emulator φ :=
  e.put name ((e.stream name).createGroup group (if start = "$" then .dollar else .zero))

def readGroup (args : ReadGroupArgs) (now : ID → Int) : Except Missing (List (Entry φ)) × Emulator φ :=
  match e.streams args.stream with
  | none => (.error (.stream args.stream), e)
  | some s =>
    match s.readGroup args.group args.consumer args.count args.noAck now with
    | none => (.error (.group args.group), e)
    | some (es, s) => (.ok es, e.put args.stream s)

variable (name group : String)

def ack (ids : List ID) : Emulator φ :=
  match e.streams name with
  | none => e
  | some s => e.put name (ids.foldl (fun s id => s.ack group id) s)

def autoClaim (args : AutoClaimArgs) (now : Int) : (ID × List (Entry φ)) × Emulator φ :=
  match e.streams args.stream with
  | none => ((zero, []), e)
  | some s =>
    let r := s.autoClaim args.group args.consumer args.minIdle args.start args.count.toNat now
    ((r.1, r.2.1), e.put args.stream r.2.2)

def delete (name : String) (ids : List ID) : Emulator φ :=
  match e.streams name with
  | none => e
  | some s => e.put name (ids.foldl Stream.delete s)

inductive Op (φ : Type) where
  | add (stream : String) (fields : φ) (now : Int)
  | createGroup (stream group start : String)
  | readGroup (args : ReadGroupArgs) (now : ID → Int)
  | ack (stream group : String) (ids : List ID)
  | autoClaim (args : AutoClaimArgs) (now : Int)
  | delete (stream : String) (ids : List ID)

inductive Reply (φ : Type) where
  | id (id : ID)
  | read (r : Except Missing (List (Entry φ)))
  | claimed (r : ID × List (Entry φ))
  | done

def exec : Op φ → Reply φ × Emulator φ
  | .add name fields now => (e.add name fields now).map .id id
  | .createGroup name group start => (.done, e.createGroup name group start)
  | .readGroup args now => (e.readGroup args now).map .read id
  | .ack name group ids => (.done, e.ack name group ids)
  | .autoClaim args now => (e.autoClaim args now).map .claimed id
  | .delete name ids => (.done, e.delete name ids)

def after (ops : List (Op φ)) : Emulator φ :=
  ops.foldl (fun e op => (e.exec op).2) e

def trace (e : Emulator φ) : List (Op φ) → List (Op φ × Reply φ)
  | [] => []
  | op :: ops => (op, (e.exec op).1) :: (e.exec op).2.trace ops

def issued (t : List (Op φ × Reply φ)) : List ID :=
  t.filterMap fun
    | (_, .id id) => some id
    | _ => none

def handed : Op φ × Reply φ → List ID
  | (.readGroup args _, .read (.ok es)) =>
    if args.stream = name ∧ args.group = group then es.map Entry.id else []
  | _ => []

def given (t : List (Op φ × Reply φ)) : List ID := t.flatMap (handed name group)

/-! ## one group -/

variable (s : Stream φ)

def ids : List ID := s.entries.map Entry.id

def cursor (group : String) : Option ID :=
  (s.groups group).map Group.lastDelivered

/-- what a read of the entries `es` by a group with cursor `c` may hand out -/
structure Reads (es : List (Entry φ)) (c : ID) (out : List ID) (c' : ID) : Prop where
  sorted : out.Pairwise fun a b => a.less b = true
  above : ∀ i ∈ out, c.less i = true
  upto : ∀ i ∈ out, c'.less i = false
  mono : c'.less c = false
  stop : c' = c ∨ ∃ x ∈ es, x.id = c'
  passed : ∀ x ∈ es, x.deleted = false → c.less x.id = true → c'.less x.id = false → x.id ∈ out

theorem Reads.none (es : List (Entry φ)) (c : ID) : Reads es c [] c where
  sorted := List.Pairwise.nil
  above := by simp
  upto := by simp
  mono := less_irrefl c
  stop := .inl rfl
  passed := by
    intro x _ _ h h'
    rw [h] at h'
    cases h'

theorem scan_reads {es : List (Entry φ)} (hs : es.Pairwise fun a b => a.id.less b.id = true)
    (noAck : Bool) (consumer : String) (now : ID → Int) (n : Nat) (g : Group) :
    Reads es g.lastDelivered ((scan noAck consumer now n es g).1.map Entry.id)
      (scan noAck consumer now n es g).2.lastDelivered := by
  induction es generalizing n g with
  | nil => cases n <;> exact Reads.none _ _
  | cons x es ih =>
    obtain ⟨hx, hes⟩ := pairwise_cons.mp hs
    cases n with
    | zero => exact Reads.none _ _
    | succ n =>
      rw [scan]
      split
      · rename_i hskip
        obtain ⟨hsorted, habove, hupto, hmono, hstop, hpassed⟩ := ih hes (n + 1) g
        refine ⟨hsorted, habove, hupto, hmono, ?_, ?_⟩
        · refine hstop.imp_right fun h => ?_
          obtain ⟨y, hy, hyc⟩ := h
          exact ⟨y, mem_cons_of_mem _ hy, hyc⟩
        intro y hy hlive hc hc'
        rcases mem_cons.mp hy with rfl | hy
        · simp [hlive, hc] at hskip
        · exact hpassed y hy hlive hc hc'
      · rename_i htake
        have hxc : x.deleted = false ∧ g.lastDelivered.less x.id = true := by
          simpa using htake
        -- the rest of the scan starts at the entry just taken
        obtain ⟨hsorted, habove, hupto, hmono, hstop, hpassed⟩ := ih hes n
          ⟨x.id, if noAck then g.pending else g.put ⟨x.id, consumer, now x.id, 1⟩⟩
        refine ⟨pairwise_cons.mpr ⟨habove, hsorted⟩, ?_, ?_, ?_, ?_, ?_⟩
        · intro i hi
          rcases mem_cons.mp hi with rfl | hi
          · exact hxc.2
          · exact less_trans hxc.2 (habove i hi)
        · intro i hi
          rcases mem_cons.mp hi with rfl | hi
          · exact hmono
          · exact hupto i hi
        · exact less_asymm (by
            rcases less_total hmono with h | h
            · exact less_trans hxc.2 h
            · exact h ▸ hxc.2)
        · refine .inr ?_
          rcases hstop with h | ⟨y, hy, hyc⟩
          · exact ⟨x, mem_cons_self .., h.symm⟩
          · exact ⟨y, mem_cons_of_mem _ hy, hyc⟩
        · intro y hy hlive hc hc'
          rcases mem_cons.mp hy with rfl | hy
          · exact mem_cons_self ..
          · exact mem_cons_of_mem _ (hpassed y hy hlive (hx y hy) hc')

structure Alike (s s' : Stream φ) : Prop where
  ids : ids s' = ids s
  cursor : ∀ group, cursor s' group = cursor s group

theorem Alike.foldl {β : Type} {f : Stream φ → β → Stream φ} (h : ∀ s b, Alike s (f s b))
    (l : List β) (s : Stream φ) : Alike s (l.foldl f s) := by
  induction l generalizing s with
  | nil => exact ⟨rfl, fun _ => rfl⟩
  | cons b l ih => exact ⟨(ih _).ids.trans (h s b).ids, fun g => ((ih _).cursor g).trans ((h s b).cursor g)⟩

theorem cursor_update {s : Stream φ} {group : String} {g g' : Group} (hg : s.groups group = some g)
    (hc : g'.lastDelivered = g.lastDelivered) :
    Alike s { s with groups := update s.groups group (some g') } := by
  refine ⟨rfl, fun x => ?_⟩
  unfold cursor
  by_cases hx : x = group
  · subst hx
    simp [hg, hc]
  · simp [hx]

theorem ack_alike (group : String) (id : ID) : Alike s (s.ack group id) := by
  unfold Stream.ack
  split
  · exact ⟨rfl, fun _ => rfl⟩
  · rename_i g hg
    exact cursor_update hg rfl

theorem delete_alike (id : ID) : Alike s (s.delete id) := by
  refine ⟨?_, fun _ => rfl⟩
  show (s.entries.map _).map Entry.id = s.entries.map Entry.id
  rw [map_map]
  refine map_congr_left fun x _ => ?_
  show (if x.id = id then { x with deleted := true } else x).id = x.id
  split <;> rfl

theorem autoClaim_alike (group consumer : String) (minIdle : Int) (start : ID)
    (count : Nat) (now : Int) : Alike s (s.autoClaim group consumer minIdle start count now).2.2 := by
  unfold Stream.autoClaim
  split
  · exact ⟨rfl, fun _ => rfl⟩
  · rename_i g hg
    exact cursor_update hg rfl

/-! ## one call -/

theorem stream_put (n m : String) (s : Stream φ) :
    (e.put n s).stream m = if m = n then s else e.stream m := by
  unfold put stream
  by_cases h : m = n <;> simp [update, h]

/-- identifiers in the order they were issued, from `0-0` up to `last` -/
structure Issued (l : List ID) (last : ID) : Prop where
  sorted : l.Pairwise fun a b => a.less b = true
  below : ∀ i ∈ l, last.less i = false
  positive : ∀ i ∈ l, zero.less i = true

theorem Issued.mono {l : List ID} {last last' : ID} (h : Issued l last)
    (hl : last'.less last = false) : Issued l last' :=
  ⟨h.sorted, fun i hi => not_less_trans hl (h.below i hi), h.positive⟩

theorem Issued.snoc {l : List ID} {last : ID} (h : Issued l last) (hz : last.less zero = false) (now : Int) :
    Issued (l ++ [nextID last now]) (nextID last now) := by
  have hnew := nextID_less last now
  constructor
  · refine pairwise_append.mpr ⟨h.sorted, pairwise_singleton .., fun i hi j hj => ?_⟩
    rw [mem_singleton.mp hj]
    exact less_of_not_less (h.below i hi) hnew
  · intro i hi
    rcases mem_append.mp hi with hi | hi
    · exact not_less_trans (less_asymm hnew) (h.below i hi)
    · rw [mem_singleton.mp hi]
      exact less_irrefl _
  · intro i hi
    rcases mem_append.mp hi with hi | hi
    · exact h.positive i hi
    · rw [mem_singleton.mp hi]
      exact less_of_not_less hz hnew

/-- identifiers grow along every stream, and no cursor is ahead of the counter -/
structure Sound (e : Emulator φ) : Prop where
  ids : ∀ n, Issued (ids (e.stream n)) e.last
  cursor : ∀ n g c, cursor (e.stream n) g = some c → e.last.less c = false
  start : e.last.less zero = false

theorem Sound.ordered {e : Emulator φ} (h : e.Sound) {n : String} : Ordered (e.stream n).entries e.last :=
  ⟨pairwise_map.mp (h.ids n).sorted, fun _ hx => (h.ids n).below _ (mem_map_of_mem hx)⟩

/-- what one call means for the group `group` of the stream `name`; `out` is what it is handed -/
inductive Effect (name group : String) (e e' : Emulator φ) : Op φ → List ID → Prop
  | same {op : Op φ} (hids : ids (e'.stream name) = ids (e.stream name))
      (hcur : cursor (e'.stream name) group = cursor (e.stream name) group)
      (hlast : e'.last.less e.last = false) : Effect name group e e' op []
  | added {op : Op φ} (now : Int) (hids : ids (e'.stream name) = ids (e.stream name) ++ [nextID e.last now])
      (hcur : cursor (e'.stream name) group = cursor (e.stream name) group)
      (hlast : e'.last = nextID e.last now) : Effect name group e e' op []
  | created (start : String) (c : ID) (hnone : cursor (e.stream name) group = none)
      (hids : ids (e'.stream name) = ids (e.stream name))
      (hcur : cursor (e'.stream name) group = some c)
      (hc : c = zero ∨ start = "$" ∧ c ∈ ids (e.stream name)) (hlast : e'.last = e.last) :
      Effect name group e e' (.createGroup name group start) []
  | read {op : Op φ} (c c' : ID) {out : List ID} (hold : cursor (e.stream name) group = some c)
      (hids : ids (e'.stream name) = ids (e.stream name))
      (hcur : cursor (e'.stream name) group = some c')
      (hr : Reads (e.stream name).entries c out c') (hlast : e'.last = e.last) :
      Effect name group e e' op out

section
variable {e : Emulator φ} {name group : String} {op : Op φ}

theorem Effect.alike {n : String} {s : Stream φ} (h : Alike (e.stream n) s) :
    Effect name group e (e.put n s) op [] := by
  refine .same ?_ ?_ (less_irrefl _)
  · rw [stream_put]
    split
    · rename_i hn
      exact hn ▸ h.ids
    · rfl
  · rw [stream_put]
    split
    · rename_i hn
      exact hn ▸ h.cursor group
    · rfl

theorem Effect.refl (name group : String) (e : Emulator φ) (op : Op φ) : Effect name group e e op [] :=
  .same rfl rfl (less_irrefl _)

theorem stream_eq {n : String} {s : Stream φ} (h : e.streams n = some s) : e.stream n = s := by
  rw [stream, h]
  rfl

def setGroup (e : Emulator φ) (n g : String) (x : Group) : Emulator φ :=
  e.put n { e.stream n with groups := update (e.stream n).groups g (some x) }

theorem setGroup_entries (e : Emulator φ) (n g : String) (x : Group) (m : String) :
    ((e.setGroup n g x).stream m).entries = (e.stream m).entries := by
  rw [setGroup, stream_put]
  split
  · rename_i h
    rw [h]
  · rfl

theorem setGroup_ids (e : Emulator φ) (n g : String) (x : Group) (m : String) :
    ids ((e.setGroup n g x).stream m) = ids (e.stream m) :=
  congrArg (map Entry.id) (setGroup_entries e n g x m)

theorem setGroup_cursor (e : Emulator φ) (n g : String) (x : Group) :
    cursor ((e.setGroup n g x).stream n) g = some x.lastDelivered := by
  rw [setGroup, stream_put, if_pos rfl]
  simp [cursor]

theorem Effect.other {n g : String} (h : ¬ (n = name ∧ g = group)) (x : Group) :
    Effect name group e (e.setGroup n g x) op [] := by
  refine .same (setGroup_ids ..) ?_ (less_irrefl _)
  rw [setGroup, stream_put]
  split
  · rename_i hn
    have hg : group ≠ g := fun hg => h ⟨hn.symm, hg.symm⟩
    rw [hn, cursor, cursor]
    simp only [update_of_ne hg]
  · rfl

theorem createGroup_effect (n g start : String) :
    Effect name group e (e.createGroup n g start) (.createGroup n g start) [] := by
  unfold createGroup Stream.createGroup
  split
  · exact .alike ⟨rfl, fun _ => rfl⟩
  rename_i hg
  show Effect name group e (e.setGroup n g ⟨_, []⟩) _ []
  by_cases hn : n = name ∧ g = group
  · obtain ⟨rfl, rfl⟩ := hn
    refine .created start _ ?_ (setGroup_ids ..) (setGroup_cursor ..) ?_ rfl
    · rw [cursor, hg]
      rfl
    split
    · rename_i x hd hl
      refine .inr ⟨by_contra fun hs => ?_, mem_map_of_mem (mem_of_getLast? hl)⟩
      rw [if_neg hs] at hd
      cases hd
    · exact .inl rfl
  · exact .other hn _

theorem readGroup_effect (h : e.Sound) (args : ReadGroupArgs) (now : ID → Int) :
    Effect name group e (e.readGroup args now).2 op
      (handed name group (.readGroup args now, .read (e.readGroup args now).1)) := by
  unfold readGroup Stream.readGroup
  split
  · exact .refl ..
  rename_i s hs
  obtain rfl := stream_eq hs
  cases hg : (e.stream args.stream).groups args.group with
  | none => exact .refl ..
  | some g =>
    show Effect name group e (e.setGroup args.stream args.group _) op
      (if args.stream = name ∧ args.group = group then _ else _)
    by_cases hn : args.stream = name ∧ args.group = group
    · rw [if_pos hn]
      obtain ⟨rfl, rfl⟩ := hn
      refine .read g.lastDelivered _ ?_ (setGroup_ids ..) (setGroup_cursor ..) ?_ rfl
      · rw [cursor, hg]
        rfl
      · exact scan_reads (pairwise_map.mp (h.ids _).sorted) ..
    · rw [if_neg hn]
      exact .other hn _

/-- **What one call means for one group.** -/
theorem exec_effect (h : e.Sound) (op : Op φ) :
    Effect name group e (e.exec op).2 op (handed name group (op, (e.exec op).1)) := by
  cases op with
  | add n fields now =>
    by_cases hn : name = n
    · subst hn
      refine .added now ?_ ?_ rfl
      · show ids ((e.put name _).stream name) = _
        rw [stream_put, if_pos rfl]
        simp [ids, Stream.add]
      · show cursor ((e.put name _).stream name) group = _
        rw [stream_put, if_pos rfl]
        rfl
    · have hst : ((e.exec (.add n fields now)).2).stream name = e.stream name := by
        show (e.put n _).stream name = _
        rw [stream_put, if_neg hn]
      exact .same (by rw [hst]) (by rw [hst]) (less_asymm (nextID_less e.last now))
  | createGroup n g start => exact createGroup_effect n g start
  | readGroup args now => exact readGroup_effect h args now
  | ack n g l =>
    show Effect name group e (e.ack n g l) _ []
    unfold ack
    split
    · exact .refl ..
    · rename_i s hs
      exact .alike (stream_eq hs ▸ Alike.foldl (fun s id => ack_alike s g id) l _)
  | autoClaim args now =>
    show Effect name group e (e.autoClaim args now).2 _ []
    unfold autoClaim
    split
    · exact .refl ..
    · rename_i s hs
      exact .alike (stream_eq hs ▸ autoClaim_alike ..)
  | delete n l =>
    show Effect name group e (e.delete n l) _ []
    unfold delete
    split
    · exact .refl ..
    · rename_i s hs
      exact .alike (stream_eq hs ▸ Alike.foldl delete_alike l _)

/-! ## runs -/

theorem Effect.last {e' : Emulator φ} {out : List ID} (h : Effect name group e e' op out) :
    e'.last.less e.last = false := by
  cases h with
  | same _ _ hlast => exact hlast
  | added now _ _ hlast => exact hlast ▸ less_asymm (nextID_less e.last now)
  | created _ _ _ _ _ _ hlast | read _ _ _ _ _ _ hlast => exact hlast ▸ less_irrefl _

theorem Effect.ids {e' : Emulator φ} {out : List ID} (h : Effect name group e e' op out) :
    ids (e'.stream name) = ids (e.stream name) ∨
      ∃ now, ids (e'.stream name) = ids (e.stream name) ++ [nextID e.last now] ∧ e'.last = nextID e.last now := by
  cases h with
  | same hids | created _ _ _ hids | read _ _ _ hids => exact .inl hids
  | added now hids _ hlast => exact .inr ⟨now, hids, hlast⟩

theorem Sound.init : Sound ({} : Emulator φ) where
  ids n := ⟨List.Pairwise.nil, by simp [Emulator.ids, stream], by simp [Emulator.ids, stream]⟩
  cursor n g c h := by simp [Emulator.cursor, stream] at h
  start := less_irrefl _

theorem Sound.exec (h : e.Sound) (op : Op φ) : (e.exec op).2.Sound := by
  have hef : ∀ n g, Effect n g e (e.exec op).2 op _ := fun n g => exec_effect h op
  have hlast : (e.exec op).2.last.less e.last = false := (hef "" "").last
  refine ⟨fun n => ?_, fun n g c hc => ?_, not_less_trans hlast h.start⟩
  · rcases (hef n "").ids with hids | ⟨now, hids, hl⟩
    · rw [hids]
      exact (h.ids n).mono hlast
    · rw [hids, hl]
      exact (h.ids n).snoc h.start now
  · refine not_less_trans hlast ?_
    have hng := hef n g
    generalize handed n g (op, (e.exec op).1) = out at hng
    cases hng with
    | same _ hcur | added _ _ hcur => exact h.cursor n g c (hcur ▸ hc)
    | created _ c₀ _ _ hcur hz =>
      cases hcur.symm.trans hc
      rcases hz with rfl | ⟨-, hm⟩
      · exact h.start
      · exact (h.ids n).below c hm
    | read c₀ c₁ hold _ hcur hr =>
      cases hcur.symm.trans hc
      rcases hr.stop with rfl | ⟨x, hx, rfl⟩
      · exact h.cursor n g c hold
      · exact (h.ids n).below _ (mem_map_of_mem hx)

theorem Sound.after (h : e.Sound) (ops : List (Op φ)) : (e.after ops).Sound := by
  induction ops generalizing e with
  | nil => exact h
  | cons op ops ih => exact ih (h.exec op)

theorem mem_ids_of_after (h : e.Sound) (ops : List (Op φ)) {i : ID}
    (hi : i ∈ ids ((e.after ops).stream name)) (hl : e.last.less i = false) : i ∈ ids (e.stream name) := by
  induction ops generalizing e with
  | nil => exact hi
  | cons op ops ih =>
    have hef : Effect name "" e (e.exec op).2 op _ := exec_effect h op
    have hi' := ih (h.exec op) hi (not_less_trans hef.last hl)
    rcases hef.ids with hids | ⟨now, hids, -⟩
    · exact hids ▸ hi'
    rw [hids] at hi'
    rcases mem_append.mp hi' with hi' | hi'
    · exact hi'
    · rw [mem_singleton.mp hi', nextID_less] at hl
      cases hl

/-- `Add` returns growing identifiers -/
theorem issued_sorted (h : e.Sound) (ops : List (Op φ)) :
    (issued (e.trace ops)).Pairwise (fun a b => a.less b = true) ∧
      ∀ i ∈ issued (e.trace ops), e.last.less i = true := by
  induction ops generalizing e with
  | nil => simp [trace, issued]
  | cons op ops ih =>
    obtain ⟨hs, ha⟩ := ih (h.exec op)
    have hef : Effect "" "" e (e.exec op).2 op _ := exec_effect h op
    have hrest : ∀ i ∈ issued ((e.exec op).2.trace ops), e.last.less i = true := fun i hi =>
      less_of_not_less hef.last (ha i hi)
    cases op with
    | add n fields now =>
      refine ⟨pairwise_cons.mpr ⟨ha, hs⟩, fun i hi => ?_⟩
      rcases mem_cons.mp hi with rfl | hi
      · exact nextID_less e.last now
      · exact hrest i hi
    | _ => exact ⟨hs, hrest⟩

theorem given_sorted (h : e.Sound) (ops : List (Op φ)) :
    (given name group (e.trace ops)).Pairwise (fun a b => a.less b = true) ∧
      ∀ i ∈ given name group (e.trace ops), ∀ c, cursor (e.stream name) group = some c → c.less i = true := by
  induction ops generalizing e with
  | nil => simp [trace, given]
  | cons op ops ih =>
    obtain ⟨hs, ha⟩ := ih (h.exec op)
    have hef : Effect name group e (e.exec op).2 op _ := exec_effect h op
    change (_ ++ given name group _).Pairwise _ ∧ ∀ i ∈ _ ++ given name group _, _
    generalize handed name group (op, (e.exec op).1) = out at hef
    cases hef with
    | same _ hcur | added _ _ hcur => exact ⟨hs, fun i hi c hc => ha i hi c (hcur ▸ hc)⟩
    | created _ _ hnone =>
      refine ⟨hs, fun i hi c hc => ?_⟩
      rw [hnone] at hc
      cases hc
    | read c c' hold _ hcur hr =>
      refine ⟨pairwise_append.mpr ⟨hr.sorted, hs, fun i hi j hj => ?_⟩, fun i hi c₁ hc => ?_⟩
      · exact less_of_not_less (hr.upto i hi) (ha j hj c' hcur)
      cases hold.symm.trans hc
      rcases mem_append.mp hi with hi | hi
      · exact hr.above i hi
      · exact less_of_not_less hr.mono (ha i hi c' hcur)

end

/-- why the cursor of a group may be past an entry: it was handed out, was there at a start `$`, or was deleted before
-/
inductive Passed (name group : String) (e : Emulator φ) (ops : List (Op φ)) (i : ID) : Prop
  | handed (h : i ∈ given name group (e.trace ops))
  | present (pre post : List (Op φ)) (hops : ops = pre ++ .createGroup name group "$" :: post)
      (hnone : cursor ((e.after pre).stream name) group = none)
      (hi : i ∈ ids ((e.after pre).stream name))
  | deleted (pre post : List (Op φ)) (hops : ops = pre ++ post)
      (hi : ∃ x ∈ ((e.after pre).stream name).entries, x.id = i ∧ x.deleted = true)
      (hc : ∀ c, cursor ((e.after pre).stream name) group = some c → c.less i = true)

section
variable {e : Emulator φ} {name group : String}

theorem Passed.cons {op : Op φ} {ops : List (Op φ)} {i : ID}
    (h : Passed name group (e.exec op).2 ops i) : Passed name group e (op :: ops) i := by
  cases h with
  | handed h => exact .handed (mem_append_right _ h)
  | present pre post hops hnone hi => exact .present (op :: pre) post (by rw [hops]; rfl) hnone hi
  | deleted pre post hops hi hc => exact .deleted (op :: pre) post (by rw [hops]; rfl) hi hc

theorem passed_of_le (h : e.Sound) (ops : List (Op φ)) {i c' : ID} (hi : i ∈ ids ((e.after ops).stream name))
    (hc' : cursor ((e.after ops).stream name) group = some c') (hle : c'.less i = false)
    (hc : ∀ c, cursor (e.stream name) group = some c → c.less i = true) : Passed name group e ops i := by
  induction ops generalizing e with
  | nil =>
    rw [hc c' hc'] at hle
    cases hle
  | cons op ops ih =>
    by_cases hnext : ∀ c, cursor ((e.exec op).2.stream name) group = some c → c.less i = true
    · exact (ih (h.exec op) hi hc' hnext).cons
    -- the cursor passes the entry in this call, so the entry is already there
    · obtain ⟨c₁, hc₁, hle₁⟩ : ∃ c, cursor ((e.exec op).2.stream name) group = some c ∧
          c.less i = false := by
        push Not at hnext
        exact hnext.imp fun c hc => ⟨hc.1, by simpa using hc.2⟩
      have hthere := mem_ids_of_after (h.exec op) ops hi (not_less_trans ((h.exec op).cursor name group c₁ hc₁) hle₁)
      have hpos := (h.after (op :: ops)).ids name |>.positive i hi
      have hef : Effect name group e (e.exec op).2 op _ := exec_effect h op
      generalize ho : Emulator.handed name group (op, (e.exec op).1) = out at hef
      cases hef with
      | same _ hcur | added _ _ hcur => rw [hc c₁ (hcur ▸ hc₁)] at hle₁; cases hle₁
      | created start c₂ hnone hids hcur hz =>
        cases hcur.symm.trans hc₁
        rcases hz with rfl | ⟨rfl, -⟩
        · rw [hpos] at hle₁
          cases hle₁
        · exact .present [] ops rfl hnone (hids ▸ hthere)
      | read c₀ c₂ hold hids hcur hr =>
        cases hcur.symm.trans hc₁
        obtain ⟨x, hx, rfl⟩ := mem_map.mp (hids ▸ hthere)
        cases hd : x.deleted with
        | true => exact .deleted [] _ rfl ⟨x, hx, rfl, hd⟩ hc
        | false =>
          have hout := hr.passed x hx hd (hc c₀ hold) hle₁
          exact .handed (mem_append_left _ (ho ▸ hout))

end

/-- **Identifiers grow, a group is handed no entry twice and in order, and its cursor is accounted for.** -/
theorem delivered_once (ops : List (Op φ)) : (issued (trace {} ops)).Pairwise (fun a b => a.less b = true) ∧
      ∀ name group, (given name group (trace {} ops)).Pairwise (fun a b => a.less b = true) ∧
        ∀ x ∈ ((after {} ops).stream name).entries, ∀ c,
          cursor ((after {} ops).stream name) group = some c → c.less x.id = false →
            Passed name group {} ops x.id := by
  refine ⟨(issued_sorted Sound.init ops).1, fun name group =>
    ⟨(given_sorted Sound.init ops).1, fun x hx c hc hle => ?_⟩⟩
  refine passed_of_le Sound.init ops (mem_map_of_mem hx) hc hle fun c₀ h₀ => ?_
  simp [cursor, stream] at h₀

end Emulator

end Queue
