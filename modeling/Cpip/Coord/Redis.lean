import Cpip.Lib.Run
import Cpip.Cache.Emulator
import Cpip.Coord.Backend

/-!
# Coordination: the two backends

The operations of `backend.Backend` on the in-memory backend and on the Redis adapter over the emulator.

* `exec_same`  **an operation that fits returns the same on both and leaves them the same**;
* `backends_agree`  the results of whole runs.
-/

namespace Coord

open Expiry Cache Option Emulator Lts

/-! ## operations -/

inductive Op where
  | get (key : String)
  | set (key value : String) (ttl : Int)
  | setNX (key value : String) (ttl : Int)
  | delete (keys : List String)
  | expire (key : String) (ttl : Int)
  | ttl (key : String)
  | compareAndSwap (key expected newValue : String) (ttl : Int)
  | compareAndDelete (key expected : String)
  | compareAndExpire (key expected : String) (ttl : Int)
  | sAdd (key : String) (mems : List String)
  | sRem (key : String) (mems : List String)
  | sMembers (key : String)
  | scan (start : String)

inductive Result where
  | done
  | value (v : Option String)
  | flag (b : Bool)
  | count (n : Nat)
  | span (d : Int)
  | names (s : Finset String)
deriving DecidableEq

def Op.timeToLive : Op → Int
  | .set _ _ d | .setNX _ _ d | .expire _ d | .compareAndSwap _ _ _ d | .compareAndExpire _ _ d => d
  | _ => 0

def Memory.exec (now : Int) (m : Memory) : Op → Result × Memory
  | .get key => (m.get now key).map .value id
  | .set key value ttl => (.done, m.set now key value ttl)
  | .setNX key value ttl => (m.setNX now key value ttl).map .flag id
  | .delete keys => (m.delete now keys).map .count id
  | .expire key ttl => (m.expire now key ttl).map .flag id
  | .ttl key => (m.ttl now key).map .span id
  | .compareAndSwap key expected newValue ttl =>
    (m.compareAndSwap now key expected newValue ttl).map .flag id
  | .compareAndDelete key expected => (m.compareAndDelete now key expected).map .flag id
  | .compareAndExpire key expected ttl => (m.compareAndExpire now key expected ttl).map .flag id
  | .sAdd key mems => (m.sAdd key mems).map .count id
  | .sRem key mems => (m.sRem key mems).map .count id
  | .sMembers key => (.names (m.sMembers key), m)
  | .scan start => (m.scan now start).map .names id

def redisExec (now : Int) (e : Emulator) : Op → Result × Emulator
  | .get key => (e.get now key).map .value id
  | .set key value ttl => (.done, e.set now key value ttl)
  | .setNX key value ttl => (e.setNX now key value ttl).map .flag id
  | .delete keys => (e.del now keys).map .count id
  | .expire key ttl => (e.expire now key ttl).map .flag id
  | .ttl key => (e.ttl now key).map .span id
  | .compareAndSwap key expected newValue ttl =>
    (e.compareAndSet now key expected newValue ttl).map .flag id
  | .compareAndDelete key expected => (e.compareAndDelete now key expected).map .flag id
  | .compareAndExpire key expected ttl => (e.compareAndExtend now key expected ttl).map .flag id
  | .sAdd key mems => (e.sAdd now key mems).map .count id
  | .sRem key mems => (e.sRem now key mems).map .count id
  | .sMembers key => (e.sMembers now key).map .names id
  | .scan start => (e.scanKeys now (start ++ "*")).map .names id

/-! ## the condition -/

def Fits (now : Int) (e : Emulator) : Op → Prop
  | .set key _ _ | .setNX key _ _ | .expire key _ | .ttl key => e.members now key = none
  | .delete keys => ∀ key ∈ keys, e.members now key = none
  | .compareAndSwap key expected _ _ =>
    expected = "" → e.members now key = none ∧ e.text now key ≠ some ""
  | .sAdd key _ => e.text now key = none
  | .scan start => Plain start.toList ∧ ∀ key ∈ e.data.keys,
      start.toList.isPrefixOf key.toList = true → e.members now key = none
  | _ => True

instance (now : Int) (e : Emulator) : ∀ op, Decidable (Fits now e op) := by
  intro op
  unfold Fits
  split <;> infer_instance

/-! ## the relation -/

/-- what a key holds on either backend: nothing, the same text with the same expiry, or the same set -/
inductive At (now : Int) (m : Memory) (e : Emulator) (k : String) : Prop
  | absent (he : e.live now k = none) (hm : m.live now k = none) (hs : m.sets.lookup k = none)
  | text (v : String) (x : Option Int) (he : e.live now k = some ⟨.str v, x⟩)
      (hm : m.live now k = some ⟨v, x⟩) (hs : m.sets.lookup k = none)
  | roster (s : Finset String) (he : e.live now k = some ⟨.set s, none⟩) (hm : m.live now k = none)
      (hs : m.sets.lookup k = some s)

def Same (now : Int) (m : Memory) (e : Emulator) : Prop := ∀ k, At now m e k

section
variable {now t : Int} {m m' : Memory} {e e' : Emulator} {k key v : String} {x : Option Int}

theorem At.congr (h : At now m e k) (he : e'.live now k = e.live now k) (hm : m'.live now k = m.live now k)
    (hs : m'.sets.lookup k = m.sets.lookup k) : At now m' e' k := by
  cases h with
  | absent h1 h2 h3 => exact .absent (he.trans h1) (hm.trans h2) (hs.trans h3)
  | text v x h1 h2 h3 => exact .text v x (he.trans h1) (hm.trans h2) (hs.trans h3)
  | roster s h1 h2 h3 => exact .roster s (he.trans h1) (hm.trans h2) (hs.trans h3)

theorem At.members (h : At now m e k) : e.members now k = m.sets.lookup k := by
  unfold Emulator.members
  cases h with
  | absent he _ hs | text v x he _ hs | roster s he _ hs => rw [he, hs]

theorem At.texts (h : At now m e k) : e.text now k = (m.live now k).map Item.value := by
  unfold Emulator.text
  cases h with
  | absent he hm | text v x he hm | roster s he hm => rw [he, hm]; rfl

section
variable (h : Same now m e)
include h

/-- **Time passes alike**: a text dies on both backends, a set on neither. -/
theorem Same.later (ht : now ≤ t) : Same t m e := by
  intro k
  have hlive : e.live t k = (e.live now k).filter fun x => !x.dead t := live_filter ht e.data k
  have hlive' : m.live t k = (m.live now k).filter fun x => !x.dead t := live_filter ht m.kv k
  cases h k with
  | absent he hm hs =>
    rw [he] at hlive
    rw [hm] at hlive'
    exact .absent hlive hlive' hs
  | text v x he hm hs =>
    rw [he] at hlive
    rw [hm] at hlive'
    have hdead : (Item.mk (Value.str v) x).dead t = (Item.mk v x).dead t := rfl
    cases hd : (Item.mk v x).dead t with
    | false =>
      rw [filter_some, hdead, hd] at hlive
      rw [filter_some, hd] at hlive'
      exact .text v x hlive hlive' hs
    | true =>
      rw [filter_some, hdead, hd] at hlive
      rw [filter_some, hd] at hlive'
      exact .absent hlive hlive' hs
  | roster s he hm hs =>
    rw [he] at hlive
    rw [hm] at hlive'
    exact .roster s hlive hlive' hs

theorem Same.touch (j : String) : Same now (m.touch now j) (e.touch now j) :=
  fun k => (h k).congr (live_evict (Int.le_refl _) e.data k j) (m.live_touch (Int.le_refl _) j k) rfl

theorem Same.touch_right (j : String) : Same now m (e.touch now j) :=
  fun k => (h k).congr (live_evict (Int.le_refl _) e.data k j) rfl rfl

theorem Same.sweep : Same now (m.sweep now) (e.sweep now) :=
  fun k => (h k).congr (live_sweep (Int.le_refl _) _ e.data k) (live_sweep (Int.le_refl _) _ m.kv k) rfl

theorem Same.set (hs : m.sets.lookup key = none) (v : String) (ttl : Int) :
    Same now (m.set now key v ttl) (e.put key (.str v) (due now ttl)) := by
  intro k
  by_cases hk : k = key
  · subst hk
    refine .text v (due now ttl) ?_ (m.live_set_self now k v ttl) hs
    unfold Emulator.live Emulator.put
    rw [live_insert_self, dead_due]
    rfl
  · exact (h k).congr (live_insert_ne hk _) (live_insert_ne hk _) rfl

theorem Same.drop (hs : m.sets.lookup key = none) :
    Same now { m with kv := m.kv.erase key } (e.drop key) := by
  intro k
  by_cases hk : k = key
  · subst hk
    exact .absent live_erase_self live_erase_self hs
  · exact (h k).congr (live_erase_ne hk) (live_erase_ne hk) rfl

theorem Same.roster (hm : m.live now key = none) (s : Finset String) :
    Same now { m with sets := m.sets.insert key s } (e.put key (.set s) none) := by
  intro k
  by_cases hk : k = key
  · subst hk
    refine .roster s ?_ hm (AList.lookup_insert ..)
    unfold Emulator.live Emulator.put
    rw [live_insert_self]
    rfl
  · exact (h k).congr (live_insert_ne hk _) rfl (AList.lookup_insert_ne hk)

theorem Same.unroster (hm : m.live now key = none) :
    Same now { m with sets := m.sets.erase key } (e.drop key) := by
  intro k
  by_cases hk : k = key
  · subst hk
    exact .absent live_erase_self hm (AList.lookup_erase ..)
  · exact (h k).congr (live_erase_ne hk) rfl (AList.lookup_erase_ne hk)

end

/-! ## operations that fit -/

/-- the results are the same and the backends hold the same after them -/
def Alike {α : Type} (now : Int) (a : α × Memory) (b : α × Emulator) : Prop :=
  a.1 = b.1 ∧ Same now a.2 b.2

theorem Alike.map {α β : Type} {a : α × Memory} {b : α × Emulator} (h : Alike now a b) (f : α → β) :
    Alike now (a.map f id) (b.map f id) := ⟨congrArg f h.1, h.2⟩

theorem get_alike (h : Same now m e) (key : String) : Alike now (m.get now key) (e.get now key) :=
  ⟨((h key).texts).symm, h.touch key⟩

theorem set_alike (h : Same now m e) (hk : e.members now key = none) {ttl : Int} (ht : 0 ≤ ttl) (v : String) :
    Same now (m.set now key v ttl) (e.set now key v ttl) := by
  have hkeep : ttl ≠ keepTTL := by
    unfold keepTTL
    omega
  unfold Emulator.set
  rw [if_neg hkeep]
  exact h.set ((h key).members ▸ hk) v ttl

theorem setNX_alike (h : Same now m e) (hk : e.members now key = none) (v : String) (ttl : Int) :
    Alike now (m.setNX now key v ttl) (e.setNX now key v ttl) := by
  rw [(h key).members] at hk
  unfold Memory.setNX setNX
  cases h key with
  | absent he hm hs =>
    rw [he, hm]
    exact ⟨rfl, h.set hs v ttl⟩
  | text w x he hm hs =>
    rw [he, hm]
    exact ⟨rfl, h⟩
  | roster s he hm hs => cases hk.symm.trans hs

theorem delete_alike (keys : List String) (n : Nat) (h : Same now m e) (hk : ∀ key ∈ keys, m.sets.lookup key = none) :
    Alike now (keys.foldl (Memory.deleteOne now) (n, m)) (keys.foldl (delOne now) (n, e)) := by
  induction keys generalizing n m e with
  | nil => exact ⟨rfl, h⟩
  | cons key keys ih =>
    have hrest : ∀ j ∈ keys, m.sets.lookup j = none := fun j hj => hk j (List.mem_cons_of_mem _ hj)
    have hs := hk key (List.mem_cons_self ..)
    rw [List.foldl_cons, List.foldl_cons]
    unfold Memory.deleteOne delOne
    cases h key with
    | absent he hm =>
      rw [he, hm]
      exact ih n (h.touch key) hrest
    | text v x he hm =>
      rw [he, hm]
      exact ih (n + 1) (h.drop hs) hrest
    | roster s he hm hs' => cases hs.symm.trans hs'

section
variable (h : Same now m e)
include h

theorem expire_alike (hk : e.members now key = none) (ttl : Int) :
    Alike now (m.expire now key ttl) (e.expire now key ttl) := by
  rw [(h key).members] at hk
  unfold Memory.expire expire
  cases h key with
  | absent he hm hs =>
    rw [he, hm]
    exact ⟨rfl, h.touch key⟩
  | text v x he hm hs =>
    rw [he, hm]
    exact ⟨rfl, h.set hs v ttl⟩
  | roster s he hm hs => cases hk.symm.trans hs

theorem ttl_alike (hk : e.members now key = none) : Alike now (m.ttl now key) (e.ttl now key) := by
  rw [(h key).members] at hk
  unfold Memory.ttl ttl
  cases h key with
  | absent he hm hs =>
    rw [he, hm]
    exact ⟨rfl, h.touch key⟩
  | text v x he hm hs =>
    rw [he, hm]
    cases x with
    | none | some t => exact ⟨rfl, h⟩
  | roster s he hm hs => cases hk.symm.trans hs

theorem compareAndSwap_alike {expected : String}
    (hk : expected = "" → e.members now key = none ∧ e.text now key ≠ some "") (v : String) (ttl : Int) :
    Alike now (m.compareAndSwap now key expected v ttl) (e.compareAndSet now key expected v ttl) := by
  rw [(h key).members, (h key).texts] at hk
  unfold Memory.compareAndSwap compareAndSet
  rw [(h key).texts]
  by_cases hx : expected = ""
  · obtain ⟨hroster, htext⟩ := hk hx
    rw [if_pos hx]
    cases h key with
    | absent he hm hs =>
      rw [he, hm]
      rw [if_neg (not_not.mpr hx)]
      exact ⟨rfl, h.set hs v ttl⟩
    | text w x he hm hs =>
      rw [hm] at htext
      have hw : w ≠ expected := fun hw => htext (congrArg some (hw.trans hx))
      rw [he, hm]
      dsimp only
      rw [if_pos hw]
      exact ⟨rfl, h⟩
    | roster s he hm hs => cases hroster.symm.trans hs
  · rw [if_neg hx]
    cases h key with
    | absent he hm hs | roster s he hm hs =>
      rw [hm]
      rw [if_pos hx, if_neg (by rintro ⟨⟩)]
      exact ⟨rfl, h.touch key⟩
    | text w x he hm hs =>
      rw [hm]
      dsimp only [map_some]
      by_cases hw : w = expected
      · rw [if_neg (not_not.mpr hw), if_pos (congrArg some hw)]
        exact ⟨rfl, h.set hs v ttl⟩
      · rw [if_pos hw, if_neg (fun hsome => hw (some.inj hsome))]
        exact ⟨rfl, h.touch_right key⟩

/-- one that compares first: it is enough that its change is alike -/
theorem compare_alike {key expected : String} {f : Item String → Memory} {g : Emulator}
    (hf : ∀ y : Item String, m.sets.lookup key = none → y.value = expected → Same now (f y) g) :
    Alike now (match m.live now key with
      | none => (false, m.touch now key)
      | some y => if y.value ≠ expected then (false, m) else (true, f y))
      (if e.text now key = some expected then (true, g) else (false, e.touch now key)) := by
  rw [(h key).texts]
  cases hm : m.live now key with
  | none =>
    exact ⟨rfl, h.touch key⟩
  | some y =>
    dsimp only [map_some]
    by_cases hy : y.value = expected
    · have hs : m.sets.lookup key = none := by
        cases h key with
        | absent _ _ hs | text _ _ _ _ hs => exact hs
        | roster _ _ hm' _ => cases hm.symm.trans hm'
      rw [if_neg (not_not.mpr hy), if_pos (congrArg some hy)]
      exact ⟨rfl, hf y hs hy⟩
    · rw [if_pos hy, if_neg (fun hsome => hy (some.inj hsome))]
      exact ⟨rfl, h.touch_right key⟩

theorem compareAndDelete_alike (key expected : String) :
    Alike now (m.compareAndDelete now key expected) (e.compareAndDelete now key expected) :=
  compare_alike h fun _ hs _ => h.drop hs

theorem compareAndExpire_alike (key expected : String) (ttl : Int) :
    Alike now (m.compareAndExpire now key expected ttl) (e.compareAndExtend now key expected ttl) :=
  compare_alike h fun y hs hy => hy ▸ h.set hs y.value ttl

theorem sAdd_alike (hk : e.text now key = none) (mems : List String) :
    Alike now (m.sAdd key mems) (e.sAdd now key mems) := by
  rw [(h key).texts] at hk
  unfold Memory.sAdd Emulator.sAdd Memory.members
  cases h key with
  | absent he hm hs =>
    rw [he, hs, getD_none]
    dsimp only
    rw [Finset.empty_union]
    exact ⟨by rw [Finset.card_empty, Nat.sub_zero], h.roster hm _⟩
  | text v x he hm hs =>
    rw [hm] at hk
    cases hk
  | roster s he hm hs =>
    rw [he, hs]
    exact ⟨rfl, h.roster hm _⟩

theorem sRem_alike (key : String) (mems : List String) :
    Alike now (m.sRem key mems) (e.sRem now key mems) := by
  unfold Memory.sRem Emulator.sRem
  cases h key with
  | absent he hm hs | text v x he hm hs =>
    rw [he, hs]
    exact ⟨rfl, h.touch_right key⟩
  | roster s he hm hs =>
    rw [he, hs]
    refine ⟨rfl, ?_⟩
    dsimp only
    split
    · exact h.unroster hm
    · exact h.roster hm _

theorem sMembers_alike (key : String) : Alike now (m.sMembers key, m) (e.sMembers now key) := by
  refine ⟨?_, h.touch_right key⟩
  unfold Memory.sMembers Emulator.sMembers Memory.members
  rw [(h key).members]

/-- **A scan for a plain text reports the same keys**, when no set is among them. -/
theorem scan_alike {start : String} (hp : Plain start.toList)
    (hset : ∀ key ∈ e.data.keys, start.toList.isPrefixOf key.toList = true → e.members now key = none) :
    Alike now (m.scan now start) (e.scanKeys now (start ++ "*")) := by
  refine ⟨?_, h.sweep⟩
  have hglob : ∀ k : String, scanned (start ++ "*") k = start.toList.isPrefixOf k.toList :=
    scanned_plain String.toList_append hp
  ext k
  simp only [Memory.scan, scanKeys, List.mem_toFinset, List.mem_filter, Bool.and_eq_true, hglob]
  constructor
  · rintro ⟨-, hlive, hpre⟩
    have hlive' : (e.live now k).isSome = true := by
      cases h k with
      | absent he hm | roster s he hm =>
        rw [hm] at hlive
        cases hlive
      | text v x he hm => rw [he]; rfl
    exact ⟨mem_keys_of_live hlive', hlive', hpre⟩
  · rintro ⟨hmem, hlive, hpre⟩
    have hlive' : (m.live now k).isSome = true := by
      cases h k with
      | absent he hm =>
        rw [he] at hlive
        cases hlive
      | text v x he hm => rw [hm]; rfl
      | roster s he hm hs =>
        have hn := hset k hmem hpre
        rw [(h k).members, hs] at hn
        cases hn
    exact ⟨mem_keys_of_live hlive', hlive', hpre⟩

/-- **An operation that fits returns the same on both backends, and they hold the same after it.** -/
theorem exec_same {op : Op} (hop : Fits now e op) (ht : 0 ≤ op.timeToLive) :
    Alike now (m.exec now op) (redisExec now e op) := by
  cases op with
  | get key => exact (get_alike h key).map _
  | set key v ttl => exact ⟨rfl, set_alike h hop ht v⟩
  | setNX key v ttl => exact (setNX_alike h hop v ttl).map _
  | delete keys =>
    have hk : ∀ key ∈ keys, m.sets.lookup key = none := fun key hkey => (h key).members ▸ hop key hkey
    exact (delete_alike keys 0 h hk).map _
  | expire key ttl => exact (expire_alike h hop ttl).map _
  | ttl key => exact (ttl_alike h hop).map _
  | compareAndSwap key expected v ttl => exact (compareAndSwap_alike h hop v ttl).map _
  | compareAndDelete key expected => exact (compareAndDelete_alike h key expected).map _
  | compareAndExpire key expected ttl => exact (compareAndExpire_alike h key expected ttl).map _
  | sAdd key mems => exact (sAdd_alike h hop mems).map _
  | sRem key mems => exact (sRem_alike h key mems).map _
  | sMembers key => exact (sMembers_alike h key).map _
  | scan start => exact (scan_alike h hop.1 hop.2).map _

end

end

/-! ## runs -/

def Memory.answers (now : Int) (m : Memory) : List (Nat × Op) → List Result
  | [] => []
  | (d, op) :: ops =>
    let r := m.exec (now + d) op
    r.1 :: Memory.answers (now + d) r.2 ops

def redisAnswers (now : Int) (e : Emulator) : List (Nat × Op) → List Result
  | [] => []
  | (d, op) :: ops =>
    let r := redisExec (now + d) e op
    r.1 :: redisAnswers (now + d) r.2 ops

def redisStep (s : Int × Emulator) (l : Nat × Op) : Option (Int × Emulator) :=
  some (s.1 + l.1, (redisExec (s.1 + l.1) s.2 l.2).2)

def FitsStep (s : Int × Emulator) (l : Nat × Op) : Prop := Fits (s.1 + l.1) s.2 l.2

instance (s : Int × Emulator) (l : Nat × Op) : Decidable (FitsStep s l) := by
  unfold FitsStep
  infer_instance

theorem answers_same {now : Int} {m : Memory} {e : Emulator} (h : Same now m e) (ops : List (Nat × Op))
    (ht : ∀ l ∈ ops, 0 ≤ l.2.timeToLive) (hf : Along redisStep FitsStep (now, e) ops) :
    m.answers now ops = redisAnswers now e ops := by
  induction ops generalizing now m e with
  | nil => rfl
  | cons l ops ih =>
    obtain ⟨d, op⟩ := l
    obtain ⟨hop, hrest⟩ := hf
    have hlater := h.later (t := now + d) (by omega)
    obtain ⟨hres, hsame⟩ := exec_same hlater hop (ht _ (List.mem_cons_self ..))
    have htail := ih hsame (fun l hl => ht l (List.mem_cons_of_mem _ hl)) (hrest _ rfl)
    unfold Memory.answers redisAnswers
    dsimp only
    rw [hres, htail]

/-- **Every run of operations that fit gets the same answers from both backends.** -/
theorem backends_agree (now : Int) (ops : List (Nat × Op)) (ht : ∀ l ∈ ops, 0 ≤ l.2.timeToLive)
    (hf : Along redisStep FitsStep (now, {}) ops) : Memory.answers now {} ops = redisAnswers now {} ops := by
  refine answers_same (fun k => ?_) ops ht hf
  exact .absent rfl rfl rfl

def friendlyRun : List (Nat × Op) :=
  [(0, .setNX "c:lock:a" "t1" 10), (4, .compareAndExpire "c:lock:a" "t1" 10), (0, .ttl "c:lock:a"),
    (0, .sAdd "c:members" ["n1", "n2", "n1"]), (0, .set "c:node:n1" "r" 0), (0, .scan "c:node:"),
    (9, .compareAndDelete "c:lock:a" "t1"), (0, .sRem "c:members" ["n1"])]

theorem backends_agree_friendlyRun :
    (∀ l ∈ friendlyRun, 0 ≤ l.2.timeToLive) ∧ Along redisStep FitsStep (0, {}) friendlyRun ∧
      Memory.answers 0 {} friendlyRun = redisAnswers 0 {} friendlyRun := by
  refine ⟨?ht, ?hf, backends_agree 0 friendlyRun ?ht ?hf⟩
  · decide
  · decide +kernel

/-- **The backends differ** on a key of two kinds, on an expected empty text, and on a scan with a pattern
character. -/
theorem backends_differ : Memory.answers 0 {} [(0, .sAdd "k" ["a"]), (0, .setNX "k" "v" 0)] ≠
        redisAnswers 0 {} [(0, .sAdd "k" ["a"]), (0, .setNX "k" "v" 0)] ∧
      Memory.answers 0 {} [(0, .set "k" "" 0), (0, .compareAndSwap "k" "" "v" 0)] ≠
        redisAnswers 0 {} [(0, .set "k" "" 0), (0, .compareAndSwap "k" "" "v" 0)] ∧
      Memory.answers 0 {} [(0, .sAdd "k" ["a"]), (0, .scan "k")] ≠
        redisAnswers 0 {} [(0, .sAdd "k" ["a"]), (0, .scan "k")] ∧
      Memory.answers 0 {} [(0, .set "ab" "v" 0), (0, .scan "a?")] ≠
        redisAnswers 0 {} [(0, .set "ab" "v" 0), (0, .scan "a?")] := by
  decide +kernel

end Coord
