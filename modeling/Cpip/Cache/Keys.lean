import Cpip.Lib.Delim

/-!
# Cache: the key layout

* `Key.Unambiguous`  a delimiter stands at most at the outer ends of a pair, and the key is not one that the room
  index shares with a presence record;
* `key_unique`  **no other constructor or arguments give the key exactly when it is unambiguous**.
-/

namespace Cache

open List

structure Builder where
  base : String

namespace Builder

variable (b : Builder)

def join (parts : List String) : String :=
  ":".intercalate ((if b.base ≠ "" then [b.base] else []) ++ parts.filter (· ≠ ""))

def cache (name key : String) : String := b.join ["cache", name, key]

def tag (tag : String) : String := b.join ["tag", tag]

def session (id : String) : String := b.join ["session", id]

def userSessions (userID : String) : String := b.join ["user", userID, "sessions"]

def lock (resource : String) : String := b.join ["lock", resource]

def presence (roomID userID : String) : String := b.join ["presence", roomID, userID]

def presenceRoom (roomID : String) : String := b.join ["presence", roomID, "members"]

def state (space id : String) : String := b.join ["state", space, id]

end Builder

inductive Key where
  | cache (name key : String)
  | tag (tag : String)
  | session (id : String)
  | userSessions (userID : String)
  | lock (resource : String)
  | presence (roomID userID : String)
  | presenceRoom (roomID : String)
  | state (space id : String)
deriving DecidableEq

variable (b : Builder)

def Key.build : Key → String
  | .cache name key => b.cache name key
  | .tag t => b.tag t
  | .session id => b.session id
  | .userSessions userID => b.userSessions userID
  | .lock resource => b.lock resource
  | .presence roomID userID => b.presence roomID userID
  | .presenceRoom roomID => b.presenceRoom roomID
  | .state space id => b.state space id

def Key.Named : Key → Prop
  | .cache x y | .presence x y | .state x y => x ≠ "" ∧ y ≠ ""
  | .tag x | .session x | .userSessions x | .lock x | .presenceRoom x => x ≠ ""

/-- the pair of identifiers can be read back: a colon only at its outer ends -/
def Readable (x y : String) : Prop := ':' ∉ x.toList.tail ∧ ':' ∉ y.toList.dropLast

def Key.Unambiguous : Key → Prop
  | .cache name key => Readable name key
  | .presence roomID userID => Readable roomID userID ∧ userID ≠ "members"
  | .state space id => Readable space id
  | .presenceRoom _ => False
  | _ => True

/-! ## texts -/

inductive Word where
  | cache
  | tag
  | session
  | user
  | lock
  | presence
  | state
deriving DecidableEq

def Word.text : Word → String
  | .cache => "cache"
  | .tag => "tag"
  | .session => "session"
  | .user => "user"
  | .lock => "lock"
  | .presence => "presence"
  | .state => "state"

def Key.word : Key → Word
  | .cache _ _ => .cache
  | .tag _ => .tag
  | .session _ => .session
  | .userSessions _ => .user
  | .lock _ => .lock
  | .presence _ _ => .presence
  | .presenceRoom _ => .presence
  | .state _ _ => .state

theorem Word.text_inj {u v : Word} (h : u.text = v.text) : u = v := by
  revert h
  cases u <;> cases v <;> decide

theorem Word.colon_notMem (u : Word) : ':' ∉ u.text.toList := by
  cases u <;> decide

def Key.rest : Key → List Char
  | .cache x y | .presence x y | .state x y => x.toList ++ ':' :: y.toList
  | .tag x | .session x | .lock x => x.toList
  | .userSessions x => x.toList ++ ':' :: "sessions".toList
  | .presenceRoom x => x.toList ++ ':' :: "members".toList

def Builder.root : List Char := if b.base = "" then [] else b.base.toList ++ [':']

theorem toList_ne_nil {x : String} (h : x ≠ "") : x.toList ≠ [] :=
  fun hx => h (String.toList_eq_nil_iff.mp hx)

theorem toList_join {p : String} {ps : List String} (h : ∀ x ∈ p :: ps, x ≠ "") :
    (b.join (p :: ps)).toList = b.root ++ [':'].intercalate ((p :: ps).map String.toList) := by
  have hfilter : (p :: ps).filter (· ≠ "") = p :: ps :=
    filter_eq_self.mpr fun x hx => decide_eq_true (h x hx)
  unfold Builder.join Builder.root
  rw [hfilter, String.toList_intercalate]
  by_cases hb : b.base = ""
  · rw [if_neg (not_not.mpr hb), if_pos hb]
    rfl
  rw [if_pos hb, if_neg hb]
  show [':'].intercalate (b.base.toList :: p.toList :: ps.map String.toList) = _
  rw [intercalate_cons_cons]
  rfl

theorem intercalate_two (x y : List Char) : [':'].intercalate [x, y] = x ++ ':' :: y := by
  rw [intercalate_cons_cons, intercalate_singleton, append_assoc]
  rfl

theorem intercalate_three (x y z : List Char) : [':'].intercalate [x, y, z] = x ++ ':' :: (y ++ ':' :: z) := by
  rw [intercalate_cons_cons, intercalate_two, append_assoc]
  rfl

theorem toList_join_two {w x : String} (hw : w ≠ "") (hx : x ≠ "") :
    (b.join [w, x]).toList = b.root ++ (w.toList ++ ':' :: x.toList) := by
  rw [toList_join b fun y hy => by rcases mem_pair.mp hy with rfl | rfl <;> assumption]
  exact congrArg (b.root ++ ·) (intercalate_two ..)

theorem toList_join_three {w x y : String} (hw : w ≠ "") (hx : x ≠ "") (hy : y ≠ "") :
    (b.join [w, x, y]).toList = b.root ++ (w.toList ++ ':' :: (x.toList ++ ':' :: y.toList)) := by
  rw [toList_join b]
  · exact congrArg (b.root ++ ·) (intercalate_three ..)
  intro z hz
  simp only [mem_cons, not_mem_nil, or_false] at hz
  rcases hz with rfl | rfl | rfl <;> assumption

/-- **The characters of a key.** -/
theorem toList_build {k : Key} (h : k.Named) :
    (k.build b).toList = b.root ++ (k.word.text.toList ++ ':' :: k.rest) := by
  cases k with
  | cache x y | presence x y | state x y => exact toList_join_three b (by decide) h.1 h.2
  | tag x | session x | lock x => exact toList_join_two b (by decide) h
  | userSessions x | presenceRoom x => exact toList_join_three b (by decide) h (by decide)

theorem build_eq_iff {k k' : Key} (h : k.Named) (h' : k'.Named) :
    k'.build b = k.build b ↔ k'.word = k.word ∧ k'.rest = k.rest := by
  rw [← String.toList_inj, toList_build b h, toList_build b h', append_cancel_left_eq]
  constructor
  · intro heq
    rcases Delim.split_cases heq with ⟨hword, hrest⟩ | ⟨c, hword, -⟩ | ⟨c, hword, -⟩
    · exact ⟨Word.text_inj (String.toList_inj.mp hword), hrest⟩
    · exact absurd (hword ▸ mem_append_right _ (mem_cons_self ..)) k.word.colon_notMem
    · exact absurd (hword ▸ mem_append_right _ (mem_cons_self ..)) k'.word.colon_notMem
  · rintro ⟨hword, hrest⟩
    rw [hword, hrest]

theorem join_filter (ps : List String) : b.join (ps.filter (· ≠ "")) = b.join ps := by
  unfold Builder.join
  rw [filter_filter]
  simp only [Bool.and_self]

variable {x y : String}

theorem last_inj {f : String → String} {l : List Char} (hempty : (f "").toList = l)
    (hcons : ∀ z, z ≠ "" → (f z).toList = l ++ ':' :: z.toList) (h : f x = f y) : x = y := by
  have hlist := congrArg String.toList h
  by_cases hx : x = ""
  · by_cases hy : y = ""
    · rw [hx, hy]
    · rw [hx, hempty, hcons y hy] at hlist
      simp at hlist
  · by_cases hy : y = ""
    · rw [hy, hempty, hcons x hx] at hlist
      simp at hlist
    · rw [hcons x hx, hcons y hy] at hlist
      exact String.toList_inj.mp (cons.inj (append_cancel_left hlist)).2

theorem toList_cache_empty {name : String} (hn : name ≠ "") :
    (b.cache name "").toList = b.root ++ ("cache".toList ++ ':' :: name.toList) := by
  have hfilter : ["cache", name, ""].filter (· ≠ "") = ["cache", name] := by simp [hn]
  rw [Builder.cache, ← join_filter, hfilter, toList_join_two b (by decide) hn]

theorem cache_inj {name x y : String} (hn : name ≠ "") (h : b.cache name x = b.cache name y) : x = y := by
  refine last_inj (f := b.cache name) (l := b.root ++ ("cache".toList ++ ':' :: name.toList)) ?_ (fun z hz => ?_) h
  · exact toList_cache_empty b hn
  · rw [Builder.cache, toList_join_three b (by decide) hn hz]
    simp only [append_assoc, cons_append]

theorem join_two_inj {w x y : String} (hw : w ≠ "") (h : b.join [w, x] = b.join [w, y]) : x = y := by
  refine last_inj (f := fun x => b.join [w, x]) (l := b.root ++ w.toList) ?_ (fun z hz => ?_) h
  · have hne : ∀ x ∈ [w], x ≠ "" := fun x hx => mem_singleton.mp hx ▸ hw
    have hfilter : [w, ""].filter (· ≠ "") = [w] := by simp [hw]
    rw [← join_filter, hfilter, toList_join b hne]
    simp only [map_cons, map_nil, intercalate_singleton]
  · rw [toList_join_two b hw hz]
    simp only [append_assoc]

theorem session_inj (h : b.session x = b.session y) : x = y :=
  join_two_inj b (by decide) h

theorem join_head {w : String} (hw : w ≠ "") (ps : List String) :
    ∃ l, (b.join (w :: ps)).toList = b.root ++ (w.toList ++ l) := by
  have hjoin : b.join (w :: ps) = b.join (w :: ps.filter (· ≠ "")) := by
    have hfilter : (w :: ps).filter (· ≠ "") = w :: ps.filter (· ≠ "") := by simp [hw]
    rw [← join_filter, hfilter]
  have hne : ∀ x ∈ w :: ps.filter (· ≠ ""), x ≠ "" := by
    intro x hx
    rcases mem_cons.mp hx with rfl | hx
    · exact hw
    · exact of_decide_eq_true (mem_filter.mp hx).2
  rw [hjoin, toList_join b hne, map_cons]
  cases (ps.filter (· ≠ "")).map String.toList with
  | nil => exact ⟨[], by rw [intercalate_singleton, append_nil]⟩
  | cons q qs => exact ⟨_, by rw [intercalate_cons_cons, append_assoc]⟩

theorem join_ne {w w' : String} (hw : w ≠ "") (hw' : w' ≠ "")
    (hhead : w.toList.head? ≠ w'.toList.head?) (ps ps' : List String) : b.join (w :: ps) ≠ b.join (w' :: ps') := by
  intro h
  obtain ⟨l, hl⟩ := join_head b hw ps
  obtain ⟨l', hl'⟩ := join_head b hw' ps'
  have heq := append_cancel_left (hl.symm.trans ((congrArg String.toList h).trans hl'))
  have hfirst := congrArg head? heq
  rw [head?_append_of_ne_nil _ (toList_ne_nil hw), head?_append_of_ne_nil _ (toList_ne_nil hw')] at hfirst
  exact hhead hfirst

theorem cache_ne_tag (name key t : String) : b.cache name key ≠ b.tag t :=
  join_ne b (by decide) (by decide) (by decide) _ _

theorem session_ne_userSessions (id userID : String) : b.session id ≠ b.userSessions userID :=
  join_ne b (by decide) (by decide) (by decide) _ _

/-! ## collisions -/

theorem readable_iff (hy : y ≠ "") : Readable x y ↔ ∀ x' y' : String, x' ≠ "" → y' ≠ "" →
      x'.toList ++ ':' :: y'.toList = x.toList ++ ':' :: y.toList → x' = x ∧ y' = y := by
  unfold Readable
  rw [← Delim.unique_split (toList_ne_nil hy)]
  constructor
  · intro h x' y' hx' hy' heq
    obtain ⟨h1, h2⟩ := h _ _ (toList_ne_nil hx') (toList_ne_nil hy') heq
    exact ⟨String.toList_inj.mp h1, String.toList_inj.mp h2⟩
  · intro h n' z' hn' hz' heq
    have hne : ∀ {l : List Char}, l ≠ [] → String.ofList l ≠ "" := by
      intro l hl hnil
      exact hl (by rw [← String.toList_ofList (l := l), hnil]; rfl)
    obtain ⟨rfl, rfl⟩ := h (String.ofList n') (String.ofList z') (hne hn') (hne hz')
      (by rw [String.toList_ofList, String.toList_ofList]; exact heq)
    exact ⟨String.toList_ofList.symm, String.toList_ofList.symm⟩

/-- **No other constructor or arguments give the key exactly when it is unambiguous.** -/
theorem key_unique (b : Builder) (k : Key) (hk : k.Named) :
    (∀ k' : Key, k'.Named → k'.build b = k.build b → k' = k) ↔ k.Unambiguous := by
  have hiff : (∀ k' : Key, k'.Named → k'.build b = k.build b → k' = k) ↔
      ∀ k' : Key, k'.Named → k'.word = k.word → k'.rest = k.rest → k' = k := by
    refine forall_congr' fun k' => forall_congr' fun hk' => ?_
    rw [build_eq_iff b hk hk', and_imp]
  rw [hiff]
  cases k with
  | cache x y | state x y =>
    refine Iff.trans ?_ (readable_iff hk.2).symm
    constructor
    · intro h x' y' hx' hy' heq
      first
        | cases h (.cache x' y') ⟨hx', hy'⟩ rfl heq
        | cases h (.state x' y') ⟨hx', hy'⟩ rfl heq
      exact ⟨rfl, rfl⟩
    · intro h k' hk' hword hrest
      cases k' with
      | cache x' y' | state x' y' =>
        obtain ⟨rfl, rfl⟩ := h x' y' hk'.1 hk'.2 hrest
        first
          | rfl
          | cases hword
      | _ => cases hword
  | presence x y =>
    refine Iff.trans ?_ (and_congr_left fun _ => readable_iff hk.2).symm
    constructor
    · intro h
      refine ⟨fun x' y' hx' hy' heq => ?_, ?_⟩
      · cases h (.presence x' y') ⟨hx', hy'⟩ rfl heq
        exact ⟨rfl, rfl⟩
      · rintro rfl
        cases h (.presenceRoom x) hk.1 rfl rfl
    · rintro ⟨h, hne⟩ k' hk' hword hrest
      cases k' with
      | presence x' y' =>
        obtain ⟨rfl, rfl⟩ := h x' y' hk'.1 hk'.2 hrest
        rfl
      | presenceRoom x' => exact absurd (h x' "members" hk' (by decide) hrest).2.symm hne
      | _ => cases hword
  | presenceRoom x =>
    -- a user called members has the record under the same key
    refine iff_of_false (fun h => ?_) id
    cases h (.presence x "members") ⟨hk, by decide⟩ rfl rfl
  | tag x | session x | lock x =>
    refine iff_of_true (fun k' hk' hword hrest => ?_) trivial
    cases k' with
    | tag x' | session x' | lock x' => first
      | rw [String.toList_inj.mp hrest]; done
      | cases hword
    | _ => cases hword
  | userSessions x =>
    refine iff_of_true (fun k' hk' hword hrest => ?_) trivial
    cases k' with
    | userSessions x' => rw [String.toList_inj.mp (append_cancel_right hrest)]
    | _ => cases hword

theorem key_unique_lock : (Key.lock "room:7").Named ∧
    ((∀ k' : Key, k'.Named → k'.build ⟨"cpip"⟩ = (Key.lock "room:7").build ⟨"cpip"⟩ → k' = .lock "room:7") ↔
      (Key.lock "room:7").Unambiguous) := by
  have hk : (Key.lock "room:7").Named := show "room:7" ≠ "" by decide
  exact ⟨hk, key_unique ⟨"cpip"⟩ _ hk⟩

/-- **Keys collide**: pairs whose identifiers have a colon inside, and the index of a room with the record
of a user called members. -/
theorem keys_collide : (Key.cache "a:b" "c" ≠ Key.cache "a" "b:c" ∧
        (Key.cache "a:b" "c").build ⟨"cpip"⟩ = (Key.cache "a" "b:c").build ⟨"cpip"⟩) ∧
      Key.presence "r" "members" ≠ Key.presenceRoom "r" ∧
        (Key.presence "r" "members").build ⟨"cpip"⟩ = (Key.presenceRoom "r").build ⟨"cpip"⟩ := by
  decide +kernel

end Cache
