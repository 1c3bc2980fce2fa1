import Cpip.Lib.Repay
import Cpip.Cache.Sessions

/-!
# Cache: signing out everywhere

`Create`, `Invalidate`, `ListByUser` and `InvalidateUser` calls of one user, whose accesses interleave.

* `Fine`  a session of the user is in the index of the user;
* `Guar`  what an access does to the documents and the index, one lemma for each kind of access;
* `signOut_complete`  **every session of the user is on the index when all calls have returned**.
-/

namespace Cache.Sessions

open Code Pool List Finset Emulator

def Cmd.adds : Cmd → Bool
  | .sAdd _ _ => true
  | _ => false

/-- the access stores no session and takes none off an index, except one that is dangling -/
def Cmd.spares : Cmd → Bool
  | .set _ _ _ => false
  | .sRem _ _ false => false
  | _ => true

namespace SignOut

inductive Call where
  | create (p : CreateParams)
  | invalidate (id : String)
  | listByUser
  | invalidateUser
deriving DecidableEq

inductive Reply where
  | created (r : Except Err Session)
  | invalidated
  | listed (r : Except Err (List Session))
  | signedOut (n : Nat)

section
variable (S : Store) (user : String)

def body : Call → Op Reply
  | .create p => (create S { p with userID := user }).bind fun r => .ret (.created r)
  | .invalidate id => (invalidate S id).bind fun _ => .ret .invalidated
  | .listByUser => (listByUser S user).bind fun r => .ret (.listed r)
  | .invalidateUser => (invalidateUser S user).bind fun n => .ret (.signedOut n)

abbrev Th := Thread Call Cmd Cmd.Ans Reply

abbrev calls : Prog Call World Th Env := prog exec (body S user)

abbrev indexKey : String := S.keys.userSessions user

def index (w : World) : Finset String := w.redis.setAt (indexKey S user)

def Fine (w : World) (id : String) : Prop := ∀ d, doc S w id = some d → d.userID = user → id ∈ index S user w

/-- the index does not expire and has only sessions that were created -/
structure Kept (w : World) : Prop where
  made : ∀ id ∈ index S user w, S.keys.session id ∈ w.made
  lasting : w.redis.Lasting (indexKey S user)

def Gone (w : World) (id : String) : Prop := S.keys.session id ∈ w.made ∧ doc S w id = none

def Finished (sys : Sys World Th) : Prop := ∀ i t, sys.pool i = some t → t.result.isSome = true

/-- no session is put on the index while an `InvalidateUser` is between its listing and its end -/
def Apart (sys : Sys World Th) : Act Call Env → Prop
  | .step i _ => ∀ t ∈ sys.pool i, ∀ c ∈ t.next, c.adds = true →
      ∀ j, ∀ u ∈ sys.pool j, u.what = .invalidateUser → ∀ d ∈ u.next, d = .sMembers (indexKey S user)
  | .spawn _ _ => True

/-! ## what an access does -/

/-- the access takes a session off the index, or stores one that is not on it -/
def Breaks (c : Cmd) (id : String) : Prop :=
  (∃ raw ttl, c = .set (S.keys.session id) raw ttl) ∨ c = .sRem (indexKey S user) id false

/-- the access puts the session on the index, or removes it -/
def Pays (c : Cmd) (id : String) : Prop := c = .sAdd (indexKey S user) id ∨ c = .del (S.keys.session id)

structure Guar (c : Cmd) (w m : World) : Prop where
  made : ∀ key ∈ w.made, key ∈ m.made
  gone : ∀ id, Gone S w id → Gone S m id
  index : c.adds = false → index S user m ⊆ index S user w
  fine : ∀ id, ¬ Breaks S user c id → Fine S user w id → Fine S user m id

/-- what others do meanwhile; `b` when none of them puts a session on the index -/
structure Later (b : Prop) (w m : World) : Prop where
  made : ∀ key ∈ w.made, key ∈ m.made
  gone : ∀ id, Gone S w id → Gone S m id
  index : b → index S user m ⊆ index S user w

end

section
variable {S : Store} {user : String} {w m : World} {e : Env} {b : Prop}

theorem Later.refl (w : World) : Later S user b w w := ⟨fun _ h => h, fun _ h => h, fun _ _ h => h⟩

theorem Later.trans {w' : World} (h : Later S user b w m) (h' : Later S user b m w') : Later S user b w w' :=
  ⟨fun key hk => h'.made key (h.made key hk), fun id hg => h'.gone id (h.gone id hg),
    fun hb _ hid => h.index hb (h'.index hb hid)⟩

variable {c : Cmd}

theorem Guar.later (h : Guar S user c w m) (hb : b → c.adds = false) : Later S user b w m :=
  ⟨h.made, h.gone, fun hb' => h.index (hb hb')⟩

theorem guar_of_same (hk : Kept S user w) (hmade : m.made = w.made)
    (hdoc : ∀ id d, doc S m id = some d → doc S w id = some d)
    (hsame : m.redis.data.lookup (indexKey S user) = w.redis.data.lookup (indexKey S user)) :
    Kept S user m ∧ Guar S user c w m := by
  have hindex : index S user m = index S user w := setAt_congr hsame
  have hgone : ∀ id, Gone S w id → Gone S m id := by
    rintro id ⟨hin, hnone⟩
    refine ⟨hmade ▸ hin, ?_⟩
    cases hd : doc S m id with
    | none => rfl
    | some d => cases hnone.symm.trans (hdoc id d hd)
  refine ⟨⟨fun id hid => hmade ▸ hk.made id (hindex ▸ hid), hk.lasting.congr hsame⟩,
    fun key h => hmade ▸ h, hgone, fun _ => hindex.subset, fun id _ hf d hd hu => ?_⟩
  exact hindex ▸ hf d (hdoc id d hd) hu

variable {id : String}

theorem guar_get {a : Option String} (hk : Kept S user w) (he : exec (.get (S.keys.session id)) w e = some (a, m)) :
    Kept S user m ∧ Guar S user (.get (S.keys.session id)) w m := by
  cases he
  exact guar_of_same hk rfl (fun _ _ hd => doc_of_lookup (fun _ hx => lookup_touch _ hx) hd)
    (lookup_touch_of_lasting hk.lasting _)

theorem gone_of_get (hin : S.keys.session id ∈ w.made) (he : exec (.get (S.keys.session id)) w e = some (none, m)) :
    Gone S m id := by
  simp only [exec, Option.some.injEq, Prod.mk.injEq] at he
  obtain ⟨htext, rfl⟩ := he
  refine ⟨hin, ?_⟩
  cases hd : doc S _ id with
  | none => rfl
  | some d =>
    obtain ⟨raw, x, hl, -⟩ := doc_eq_some.mp hd
    cases (text_of_lookup_touch hl).symm.trans htext

variable {ids : List String}

theorem guar_sMembers (hk : Kept S user w) (he : exec (.sMembers (indexKey S user)) w e = some (ids, m)) :
    (Kept S user m ∧ Guar S user (.sMembers (indexKey S user)) w m) ∧ ids.toFinset = index S user m := by
  simp only [exec] at he
  split at he
  · rename_i horder
    cases he
    have hsame : (w.redis.touch e.now (indexKey S user)).data.lookup (indexKey S user) =
        w.redis.data.lookup (indexKey S user) := lookup_touch_of_lasting hk.lasting _
    refine ⟨guar_of_same hk rfl (fun _ _ hd => doc_of_lookup (fun _ hx => lookup_touch _ hx) hd) hsame, ?_⟩
    exact horder.2.trans ((setAt_sMembers hk.lasting _).trans (setAt_congr hsame).symm)
  · cases he

variable {a : Unit}

theorem guar_del_session (hk : Kept S user w) (he : exec (.del (S.keys.session id)) w e = some (a, m)) :
    (Kept S user m ∧ Guar S user (.del (S.keys.session id)) w m) ∧ doc S m id = none := by
  cases he
  refine ⟨guar_of_same hk rfl (fun id' d hd => ?_) ?_, ?_⟩
  · refine doc_of_lookup (fun x hx => ?_) hd
    by_cases hkey : S.keys.session id' = S.keys.session id
    · rw [hkey] at hx
      cases lookup_del_self.symm.trans hx
    · exact lookup_del_ne hkey ▸ hx
  · exact lookup_del_ne (Ne.symm (session_ne_userSessions _ _ _))
  unfold doc
  rw [lookup_del_self]

theorem doc_congr (hsame : ∀ id, m.redis.data.lookup (S.keys.session id) = w.redis.data.lookup (S.keys.session id))
    (id : String) : doc S m id = doc S w id := by
  unfold doc
  rw [hsame id]

theorem guar_del_index (hgone : ∀ id ∈ index S user w, Gone S w id)
    (he : exec (.del (indexKey S user)) w e = some (a, m)) :
    Kept S user m ∧ Guar S user (.del (indexKey S user)) w m := by
  cases he
  have hnone : ((w.redis.del e.now [indexKey S user]).2).data.lookup (indexKey S user) = none :=
    lookup_del_self
  have hdoc := doc_congr (S := S) (w := w) (m := { w with redis := (w.redis.del e.now [indexKey S user]).2 })
    fun id => lookup_del_ne (session_ne_userSessions _ _ _)
  have hempty : index S user { w with redis := (w.redis.del e.now [indexKey S user]).2 } = ∅ := by
    unfold index Emulator.setAt
    rw [hnone]
  refine ⟨⟨fun id hid => ?_, fun x hx => ?_⟩, fun _ h => h, fun id hg => ⟨hg.1, (hdoc id).trans hg.2⟩, fun _ => ?_,
    fun id _ hf d hd hu => ?_⟩
  · rw [hempty] at hid
    cases hid
  · cases hnone.symm.trans hx
  · rw [hempty]
    exact empty_subset _
  -- a session of the user was on the index, and those on the index are gone
  have hold := (hdoc id).symm.trans hd
  cases (hgone id (hf d hold hu)).2.symm.trans hold

theorem index_sAdd (hk : Kept S user w) (now : Int) (id : String) :
    index S user { w with redis := (w.redis.sAdd now (indexKey S user) [id]).2 } = index S user w ∪ {id} := by
  show Emulator.setAt _ _ = _
  unfold Emulator.setAt
  rw [lookup_sAdd_of_lasting hk.lasting now id]
  rfl

theorem guar_sAdd (hk : Kept S user w) (hin : S.keys.session id ∈ w.made)
    (he : exec (.sAdd (indexKey S user) id) w e = some (a, m)) :
    (Kept S user m ∧ Guar S user (.sAdd (indexKey S user) id) w m) ∧ id ∈ index S user m := by
  cases he
  have hdoc := doc_congr (S := S) (w := w) (m := { w with redis := (w.redis.sAdd e.now (indexKey S user) [id]).2 })
    fun id => lookup_sAdd_ne (session_ne_userSessions _ _ _) _
  have hindex := index_sAdd hk e.now id
  refine ⟨⟨⟨fun id' hid => ?_, fun x hx => ?_⟩, fun _ h => h, fun id hg => ⟨hg.1, (hdoc id).trans hg.2⟩,
    nofun, fun id' _ hf d hd hu => ?_⟩, ?_⟩
  · rw [hindex] at hid
    rcases mem_union.mp hid with h | h
    · exact hk.made id' h
    · rw [Finset.mem_singleton.mp h]
      exact hin
  · cases (lookup_sAdd_of_lasting hk.lasting e.now id).symm.trans hx
    rfl
  · rw [hindex]
    exact mem_union_left _ (hf d ((hdoc id').symm.trans hd) hu)
  · rw [hindex]
    exact mem_union_right _ (Finset.mem_singleton_self _)

theorem guar_sRem {userID : String} {dangling : Bool} (hk : Kept S user w) (hgone : dangling = true → Gone S w id)
    (he : exec (.sRem (S.keys.userSessions userID) id dangling) w e = some (a, m)) :
    Kept S user m ∧ Guar S user (.sRem (S.keys.userSessions userID) id dangling) w m := by
  cases he
  have hdoc := doc_congr (S := S) (w := w)
    (m := { w with redis := (w.redis.sRem e.now (S.keys.userSessions userID) [id]).2 })
    fun id => lookup_sRem_ne (session_ne_userSessions _ _ _) _
  by_cases hkey : S.keys.userSessions userID = indexKey S user
  · rw [hkey] at hdoc ⊢
    obtain ⟨hlasting, hset⟩ := lookup_sRem_of_lasting hk.lasting e.now id
    have hindex : index S user { w with redis := (w.redis.sRem e.now (indexKey S user) [id]).2 } =
        index S user w \ {id} := hset
    refine ⟨⟨fun id' hid => ?_, hlasting⟩, fun _ h => h, fun id hg => ⟨hg.1, (hdoc id).trans hg.2⟩,
      fun _ => ?_, fun id' hb hf d hd hu => ?_⟩
    · rw [hindex] at hid
      exact hk.made id' (mem_sdiff.mp hid).1
    · rw [hindex]
      exact sdiff_subset
    rw [hindex]
    have hold := (hdoc id').symm.trans hd
    refine mem_sdiff.mpr ⟨hf d hold hu, fun hid => ?_⟩
    cases Finset.mem_singleton.mp hid
    cases dangling with
    | false => exact hb (.inr rfl)
    | true => cases (hgone rfl).2.symm.trans hold
  · exact guar_of_same hk rfl (fun id d hd => (hdoc id).symm.trans hd) (lookup_sRem_ne (Ne.symm hkey) _)

theorem guar_set {raw : String} {ttl : Int} (hk : Kept S user w)
    (he : exec (.set (S.keys.session id) raw ttl) w e = some (a, m)) :
    (Kept S user m ∧ Guar S user (.set (S.keys.session id) raw ttl) w m) ∧ S.keys.session id ∈ m.made := by
  simp only [exec] at he
  split at he
  · cases he
  rename_i hnew
  cases he
  have hother : ∀ key, key ≠ S.keys.session id →
      (w.redis.set e.now (S.keys.session id) raw ttl).data.lookup key = w.redis.data.lookup key := by
    intro key hne
    unfold Emulator.set
    split
    · exact lookup_put_ne hne _ _
    · exact lookup_put_ne hne _ _
  have hsame := hother (indexKey S user) (Ne.symm (session_ne_userSessions _ _ _))
  have hindex : index S user
      ⟨w.redis.set e.now (S.keys.session id) raw ttl, S.keys.session id :: w.made⟩ = index S user w :=
    setAt_congr hsame
  have hdoc : ∀ id', S.keys.session id' ≠ S.keys.session id →
      doc S ⟨w.redis.set e.now (S.keys.session id) raw ttl, S.keys.session id :: w.made⟩ id' = doc S w id' := by
    intro id' hne
    unfold doc
    rw [hother _ hne]
  refine ⟨⟨⟨fun id' hid => mem_cons_of_mem _ (hk.made id' (hindex ▸ hid)), hk.lasting.congr hsame⟩,
    fun key h => mem_cons_of_mem _ h, fun id' hg => ⟨mem_cons_of_mem _ hg.1, ?_⟩, fun _ => hindex.subset,
    fun id' hb hf d hd hu => ?_⟩, mem_cons_self ..⟩
  · -- a session that was created is not written again
    rw [hdoc id' fun hkey => hnew (hkey ▸ hg.1)]
    exact hg.2
  · rw [hindex]
    exact hf d (hdoc id' (fun hkey => hb (.inl ⟨raw, ttl, by rw [hkey]⟩)) ▸ hd) hu

/-! ## what a call does among others -/

variable {what : Call} {s : World}

/-- what a call relies on before an access -/
def rely (S : Store) (user : String) (what : Call) (c : Cmd) : World → World → Prop :=
  Later S user (what = .invalidateUser ∧ c ≠ .sMembers (indexKey S user))

variable {ρ : Type}

/-- the code keeps the index as others rely on it, and returns with `Q` -/
abbrev Sound (S : Store) (user : String) (what : Call) (Q : ρ → World → Prop) (x : Op ρ) (s : World) : Prop :=
  x.Safe exec (Kept S user) (rely S user what) (fun c => Guar S user c) (fun _ _ => True) Q s

/-- what others do while the call runs -/
abbrev Since (S : Store) (user : String) (what : Call) : World → World → Prop :=
  Later S user (what = .invalidateUser)

/-- the session is gone, if it was ever created -/
def Removed (S : Store) (user : String) (what : Call) (id : String) (s t : World) : Prop :=
  Since S user what s t ∧ (S.keys.session id ∈ s.made → Gone S t id)

variable {Q : ρ → World → Prop}

/-- an access that is neither a listing nor, in an `InvalidateUser`, an addition -/
theorem sound_step {f : c.Ans → Op ρ} (hc : c ≠ .sMembers (indexKey S user))
    (hadds : what = .invalidateUser → c.adds = false)
    (h : ∀ t, Since S user what s t → Kept S user t → ∀ e a u, exec c t e = some (a, u) →
      (Kept S user u ∧ Guar S user c t u) ∧ (Since S user what s u → Sound S user what Q (f a) u)) :
    Sound S user what Q ((access c).bind f) s := by
  intro t hR hI _ e a u he
  have hlater : Since S user what s t := ⟨hR.made, hR.gone, fun hw => hR.index ⟨hw, hc⟩⟩
  obtain ⟨⟨hkept, hguar⟩, hk⟩ := h t hlater hI e a u he
  exact ⟨hkept, hguar, hk (hlater.trans (hguar.later hadds))⟩

theorem sound_clock {f : Int → Op ρ} (h : ∀ now u, Since S user what s u → Sound S user what Q (f now) u) :
    Sound S user what Q ((access .clock).bind f) s := by
  refine sound_step (by intro h; cases h) (fun _ => rfl) fun t _ hk e a u he => ?_
  cases he
  exact ⟨guar_of_same hk rfl (fun _ _ hd => hd) rfl, h _ _⟩

def Missing {α : Type} (r : Except Err α) : Prop := r = .error .sessionNotFound ∨ r = .error .sessionExpired

theorem sound_getRaw : Sound S user what (fun r t => Since S user what s t ∧
    (Missing r → S.keys.session id ∈ s.made → Gone S t id)) (getRaw S id) s := by
  refine sound_step (by intro h; cases h) (fun _ => rfl) fun t hlater hk e a u he => ⟨guar_get hk he, fun hl => ?_⟩
  cases a with
  | none => exact ⟨hl, fun _ hin => gone_of_get (hlater.made _ hin) he⟩
  | some raw =>
    dsimp only
    split
    · exact ⟨hl, fun h => by rcases h with h | h <;> cases h⟩
    · exact ⟨hl, fun h => by rcases h with h | h <;> cases h⟩

theorem sound_del_session : Sound S user what (fun _ => Removed S user what id s)
    (access (.del (S.keys.session id))) s := by
  refine sound_step (f := ret) (by intro h; cases h) (fun _ => rfl) fun t hlater hk e a u he => ?_
  obtain ⟨hguar, hnone⟩ := guar_del_session hk he
  exact ⟨hguar, fun hl => ⟨hl, fun hin => ⟨hl.made _ hin, hnone⟩⟩⟩

theorem sound_sRem {userID : String} {dangling : Bool} (hgone : dangling = true → Gone S s id) :
    Sound S user what (fun _ => Since S user what s) (access (.sRem (S.keys.userSessions userID) id dangling)) s := by
  refine sound_step (f := ret) (by intro h; cases h) (fun _ => rfl) fun t hlater hk e a u he => ?_
  exact ⟨guar_sRem hk (fun hd => hlater.gone id (hgone hd)) he, fun hl => hl⟩

theorem sound_invalidate : Sound S user what (fun _ => Removed S user what id s) (invalidate S id) s := by
  have hdel : ∀ t, Since S user what s t →
      Sound S user what (fun _ => Removed S user what id s) (access (.del (S.keys.session id))) t := by
    intro t hl
    exact safe_mono (fun _ u hu => ⟨hl.trans hu.1, fun hin => hu.2 (hl.made _ hin)⟩) sound_del_session
  refine safe_bind sound_getRaw fun r t ht => ?_
  cases r with
  | error err => exact hdel t ht.1
  | ok p =>
    dsimp only
    split
    · exact safe_bind (sound_sRem fun h => by cases h) fun _ u hu => hdel u (ht.1.trans hu)
    · exact hdel t ht.1

theorem sound_get : Sound S user what (fun r t => Since S user what s t ∧
    (Missing r → S.keys.session id ∈ s.made → Gone S t id)) (get S id) s := by
  refine safe_bind sound_getRaw fun r t ht => ?_
  cases r with
  | error err =>
    refine ⟨ht.1, fun hmiss => ht.2 ?_⟩
    rcases hmiss with h | h
    · cases h
      exact .inl rfl
    · cases h
      exact .inr rfl
  | ok p =>
    refine sound_clock fun now u hu => ?_
    have hlater := ht.1.trans hu
    split
    · refine safe_bind sound_invalidate fun _ v hv => ?_
      exact ⟨hlater.trans hv.1, fun _ hin => hv.2 (hlater.made _ hin)⟩
    · exact ⟨hlater, fun h => by rcases h with h | h <;> cases h⟩

section
variable (hin : ∀ id ∈ ids, S.keys.session id ∈ s.made)
include hin

theorem sound_listEach {out : List Session} :
    Sound S user what (fun _ _ => True) (listEach S user ids out) s := by
  induction ids generalizing out s with
  | nil => trivial
  | cons id ids ih =>
    have hrest : ∀ t out, Since S user what s t → Sound S user what (fun _ _ => True) (listEach S user ids out) t :=
      fun t out hl => ih fun id' hid => hl.made _ (hin id' (mem_cons_of_mem _ hid))
    have hprune : ∀ t out, Since S user what s t → Gone S t id → Sound S user what (fun _ _ => True)
          ((access (.sRem (S.keys.userSessions user) id true)).bind fun _ => listEach S user ids out) t :=
      fun t out hl hg => safe_bind (sound_sRem fun _ => hg) fun _ u hu => hrest u out (hl.trans hu)
    have hmade := hin id (mem_cons_self ..)
    refine safe_bind sound_get fun r t ht => ?_
    cases r with
    | ok sess => exact hrest t _ ht.1
    | error err =>
      cases err with
      | sessionNotFound => exact hprune t out ht.1 (ht.2 (.inl rfl) hmade)
      | sessionExpired => exact hprune t out ht.1 (ht.2 (.inr rfl) hmade)
      | _ => trivial

theorem sound_each :
    Sound S user what (fun _ t => Since S user what s t ∧ ∀ id ∈ ids, Gone S t id) (each (invalidate S) ids) s := by
  induction ids generalizing s with
  | nil => exact ⟨Later.refl s, fun id hid => by cases hid⟩
  | cons id ids ih =>
    refine safe_bind sound_invalidate fun _ t ht => ?_
    refine safe_mono (fun _ u hu => ⟨ht.1.trans hu.1, fun id' hid => ?_⟩)
      (ih fun id' hid => ht.1.made _ (hin id' (mem_cons_of_mem _ hid)))
    rcases mem_cons.mp hid with rfl | hid
    · exact hu.1.gone _ (ht.2 (hin _ (mem_cons_self ..)))
    · exact hu.2 id' hid

theorem sound_rest (hlist : index S user s ⊆ ids.toFinset) :
    Sound S user .invalidateUser (fun _ t => ∀ id ∈ ids, Gone S t id)
      ((each (invalidate S) ids).bind fun _ => (access (.del (indexKey S user))).bind fun _ =>
        .ret ids.length) s := by
  refine safe_bind (sound_each hin) fun _ t ht => ?_
  refine sound_step (by intro h; cases h) (fun _ => rfl) fun u hu hk e a v he => ?_
  have hlater := ht.1.trans hu
  have hgone : ∀ id ∈ ids, Gone S u id := fun id hid => hu.gone id (ht.2 id hid)
  have hguar : Kept S user v ∧ Guar S user (.del (indexKey S user)) u v :=
    guar_del_index (fun id hid => hgone id (mem_toFinset.mp (hlist (hlater.index rfl hid)))) he
  exact ⟨hguar, fun _ id hid => hguar.2.gone id (hgone id hid)⟩

end

theorem sound_create {p : CreateParams} (hu : p.userID = user) (hwhat : what ≠ .invalidateUser) :
    Sound S user what (fun _ _ => True) (create S p) s := by
  unfold create
  generalize (if p.ttl ≤ 0 then S.defaultTTL else p.ttl) = ttl
  refine sound_clock fun now t _ => ?_
  refine sound_step (by intro h; cases h) (fun _ => rfl) fun t _ hk e id u he => ?_
  cases he
  refine ⟨guar_of_same hk rfl (fun _ _ hd => hd) rfl, fun _ => ?_⟩
  dsimp only
  split
  · trivial
  refine sound_step (by intro h; cases h) (fun _ => rfl) fun v _ hk e a u he => ?_
  obtain ⟨hguar, hin⟩ := guar_set hk he
  refine ⟨hguar, fun _ => ?_⟩
  split
  · rw [hu]
    refine sound_step (by intro h; cases h) (fun h => absurd h hwhat) fun v hl hk e a u he => ?_
    exact ⟨(guar_sAdd hk (hl.made _ hin) he).1, fun _ => trivial⟩
  · trivial

theorem sound_listing {f : List String → Op ρ}
    (h : ∀ ids u, Kept S user u → ids.toFinset = index S user u → Sound S user what Q (f ids) u) :
    Sound S user what Q ((access (.sMembers (indexKey S user))).bind f) s := by
  intro t _ hk _ e ids u he
  obtain ⟨⟨hkept, hguar⟩, hids⟩ := guar_sMembers hk he
  exact ⟨hkept, hguar, h ids u hkept hids⟩

theorem sound_body (what : Call) : Sound S user what (fun _ _ => True) (body S user what) s := by
  have hmade : ∀ (ids : List String) u, Kept S user u → ids.toFinset = index S user u →
    ∀ id ∈ ids, S.keys.session id ∈ u.made :=
    fun ids u hk hids id hid => hk.made id (hids ▸ mem_toFinset.mpr hid)
  cases what with
  | create p => exact safe_bind (sound_create rfl (by intro h; cases h)) fun _ _ _ => trivial
  | invalidate id => exact safe_bind sound_invalidate fun _ _ _ => trivial
  | listByUser =>
    refine safe_bind (M := fun _ _ => True) ?_ fun _ _ _ => trivial
    exact sound_listing fun ids u hk hids => sound_listEach (hmade ids u hk hids)
  | invalidateUser =>
    refine safe_bind (M := fun _ _ => True) ?_ fun _ _ _ => trivial
    refine sound_listing fun ids u hk hids => ?_
    exact safe_mono (fun _ _ _ => trivial) (sound_rest (hmade ids u hk hids) hids.symm.subset)

/-! ## what a call breaks it makes good -/

/-- a session that the code takes off the index or stores it removes or puts on the index later -/
abbrev MakesGood (S : Store) (user : String) (x : Op ρ) : Prop :=
  x.Repays exec (fun _ => True) (Breaks S user) (Pays S user)

theorem repays_access (hc : c.spares = true) : MakesGood S user (access c) := by
  refine fun _ _ _ _ _ _ => ⟨fun id hid => ?_, trivial⟩
  rcases hid with ⟨raw, ttl, rfl⟩ | rfl
  · cases hc
  · cases hc

theorem repays_getRaw : MakesGood S user (getRaw S id) := by
  refine repays_bind (repays_access rfl) fun raw => ?_
  cases raw with
  | none => trivial
  | some raw =>
    dsimp only
    split
    · trivial
    · trivial

theorem repays_invalidate : MakesGood S user (invalidate S id) := by
  have hdel : MakesGood S user (access (.del (S.keys.session id))) := repays_access rfl
  refine repays_bind repays_getRaw fun r => ?_
  cases r with
  | error err => exact hdel
  | ok p =>
    dsimp only
    split
    · refine fun _ _ _ _ _ _ => ⟨fun x hx => ?_, hdel⟩
      rcases hx with ⟨_, _, hx⟩ | hx
      · cases hx
      injection hx with _ hid
      subst hid
      exact .inl (.inr rfl)
    · exact hdel

theorem repays_clock {f : Int → Op ρ} (h : ∀ now, MakesGood S user (f now)) :
    MakesGood S user ((access .clock).bind f) :=
  repays_bind (repays_access rfl) h

theorem repays_get : MakesGood S user (get S id) := by
  refine repays_bind repays_getRaw fun r => ?_
  cases r with
  | error err => trivial
  | ok p =>
    refine repays_clock fun now => ?_
    split
    · exact repays_bind repays_invalidate fun _ => trivial
    · trivial

theorem repays_listEach {out : List Session} : MakesGood S user (listEach S user ids out) := by
  induction ids generalizing out with
  | nil => trivial
  | cons id ids ih =>
    have hprune : MakesGood S user
        ((access (.sRem (S.keys.userSessions user) id true)).bind fun _ => listEach S user ids out) :=
      repays_bind (repays_access rfl) fun _ => ih
    refine repays_bind repays_get fun r => ?_
    cases r with
    | ok sess => exact ih
    | error err =>
      cases err with
      | sessionNotFound | sessionExpired => exact hprune
      | _ => trivial

theorem repays_create {p : CreateParams} (hp : p.userID = user) (hu : user ≠ "") : MakesGood S user (create S p) := by
  generalize (if p.ttl ≤ 0 then S.defaultTTL else p.ttl) = ttl
  refine repays_clock fun now => ?_
  refine repays_bind (repays_access rfl) fun id => ?_
  dsimp only
  split
  · trivial
  rw [hp, if_pos hu]
  have hadd : ∀ sess, MakesGood S user
      ((access (.sAdd (indexKey S user) id)).bind fun _ => pure (Except.ok sess) : Op (Except Err Session)) :=
        fun sess =>
    repays_bind (repays_access rfl) fun _ => trivial
  refine fun _ _ _ _ _ _ => ⟨fun x hx => ?_, hadd _⟩
  rcases hx with ⟨raw', ttl', hx⟩ | hx
  · -- the session that is put on the index is the one that was stored
    injection hx with hkey
    cases session_inj S.keys hkey
    exact .inl (.inl rfl)
  · cases hx

theorem repays_listing : MakesGood S user (access (.sMembers (indexKey S user))) := repays_access rfl

theorem repays_body (hu : user ≠ "") (what : Call) : MakesGood S user (body S user what) := by
  cases what with
  | create p => exact repays_bind (repays_create rfl hu) fun _ => trivial
  | invalidate id => exact repays_bind repays_invalidate fun _ => trivial
  | listByUser =>
    exact repays_bind (repays_bind repays_listing fun _ => repays_listEach) fun _ => trivial
  | invalidateUser =>
    refine repays_bind (repays_bind repays_listing fun ids => ?_) fun _ => trivial
    refine repays_bind (repays_each fun id _ => repays_invalidate) fun _ => ?_
    exact repays_bind (repays_access rfl) fun _ => trivial

theorem fine_of_pays {a : c.Ans} (hk : Kept S user w) (hp : Pays S user c id) (he : exec c w e = some (a, m)) :
    Fine S user m id := by
  rcases hp with rfl | rfl
  · cases he
    intro d _ _
    rw [index_sAdd hk]
    exact mem_union_right _ (Finset.mem_singleton_self _)
  · intro d hd _
    cases (guar_del_session hk he).2.symm.trans hd

abbrev SoundSys (S : Store) (user : String) : Sys World Th → Prop :=
  SafeSys exec (Kept S user) (rely S user) (fun _ c => Guar S user c) (fun _ _ _ => True) fun _ _ _ => True

theorem sound_next (sys : Sys World Th) (l : Act Call Env) (sys' : Sys World Th)
    (hi : SoundSys S user sys) (hc : Apart S user sys l) (hn : (calls S user).next sys l = some sys') :
    SoundSys S user sys' := by
  refine safe_next (R := rely S user) (D := Apart S user) (fun _ _ s => Later.refl s) (fun _ _ _ _ _ h h' => h.trans h')
    (fun sys i what _ _ => sound_body what) (fun _ _ _ _ _ _ _ _ => trivial) ?_ sys l sys' hi hc hn
  intro sys i e t c a m hc hp hnext he hguar j u _ hu
  refine ⟨fun _ _ => trivial, fun d hd => Guar.later hguar ?_⟩
  rintro ⟨hwhat, hne⟩
  cases hadds : c.adds with
  | false => rfl
  | true => exact absurd (hc t hp c hnext hadds j u hu hwhat d hd) hne

/-! ## the run -/

def Signs (S : Store) (user : String) (c : Cmd) : Prop :=
  (∃ id, c = .get (S.keys.session id)) ∨ (∃ v id, c = .sRem (S.keys.userSessions v) id false) ∨
    (∃ key, c = .del key) ∨ c = .sMembers (indexKey S user)

theorem signs_invalidateUser : (invalidateUser S user).Uses (Signs S user) := by
  have hdel : ∀ key, (access (.del key)).Uses (Signs S user) :=
    fun key => ⟨.inr (.inr (.inl ⟨key, rfl⟩)), fun _ => trivial⟩
  have hinvalidate : ∀ id, (invalidate S id).Uses (Signs S user) := by
    intro id
    have hget : (getRaw S id).Uses (Signs S user) := by
      refine ⟨.inl ⟨id, rfl⟩, fun raw => ?_⟩
      cases raw with
      | none => trivial
      | some raw =>
        dsimp only [Code.bind]
        split
        · trivial
        · trivial
    refine uses_bind hget fun r => ?_
    cases r with
    | error err => exact hdel _
    | ok p =>
      dsimp only
      split
      · exact ⟨.inr (.inl ⟨_, _, rfl⟩), fun _ => hdel _⟩
      · exact hdel _
  refine uses_bind (x := access (.sMembers (indexKey S user)))
    ⟨.inr (.inr (.inr rfl)), fun _ => trivial⟩ fun ids => ?_
  refine uses_bind (uses_each fun id _ => hinvalidate id) fun _ => ?_
  exact uses_bind (hdel _) fun _ => trivial

theorem signs_enabled (c : Cmd) (hc : Signs S user c) (w : World) : ∃ e a m, exec c w e = some (a, m) := by
  rcases hc with ⟨id, rfl⟩ | ⟨v, id, rfl⟩ | ⟨key, rfl⟩ | rfl
  · exact ⟨⟨0, "", []⟩, _, _, rfl⟩
  · exact ⟨⟨0, "", []⟩, _, _, rfl⟩
  · exact ⟨⟨0, "", []⟩, _, _, rfl⟩
  refine ⟨⟨0, "", (w.redis.sMembers 0 (indexKey S user)).1.toList⟩, _, _, if_pos ⟨?_, ?_⟩⟩
  · exact nodup_toList _
  · exact toList_toFinset _

theorem signs_doc (c : Cmd) (hc : Signs S user c) {a : c.Ans} {d : Session} (he : exec c w e = some (a, m))
    (hd : doc S m id = some d) : doc S w id = some d := by
  refine doc_of_lookup (fun x hx => ?_) hd
  rcases hc with ⟨id, rfl⟩ | ⟨v, id, rfl⟩ | ⟨key, rfl⟩ | rfl
  · cases he
    exact lookup_touch _ hx
  · cases he
    exact lookup_sRem_ne (session_ne_userSessions _ _ _) _ ▸ hx
  · cases he
    by_cases hkey : S.keys.session id = key
    · rw [hkey] at hx
      cases lookup_del_self.symm.trans hx
    · exact lookup_del_ne hkey ▸ hx
  · simp only [exec] at he
    split at he
    · cases he
      exact lookup_touch _ hx
    · cases he

/-- an `InvalidateUser` that runs alone where every session of the user is on the index -/
theorem invalidateUser_alone (hk : Kept S user w) (hf : ∀ id, Fine S user w id) :
    (invalidateUser S user).wp exec (fun _ t => ∀ id d, doc S t id = some d → d.userID ≠ user) w := by
  have hdocs : (invalidateUser S user).wp exec (fun _ t => ∀ id d, doc S t id = some d → doc S w id = some d) w :=
    wp_uses signs_invalidateUser (fun c hc s e a t hs he id d hd => hs id d (signs_doc c hc he hd))
      fun id d hd => hd
  have hgone : (invalidateUser S user).wp exec (fun _ t => ∀ id ∈ index S user w, Gone S t id) w := by
    intro e ids t he
    obtain ⟨⟨hkept, -⟩, hids⟩ := guar_sMembers hk he
    have hsame : index S user t = index S user w := by
      simp only [exec] at he
      split at he
      · cases he
        exact setAt_congr (lookup_touch_of_lasting hk.lasting _)
      · cases he
    have hmem : ∀ id, id ∈ ids ↔ id ∈ index S user t := fun id => by rw [← hids, mem_toFinset]
    have hrest := wp_safe (fun _ s => Later.refl s) (fun _ _ => trivial) hkept
      (sound_rest (fun id hid => hkept.made id ((hmem id).mp hid)) hids.symm.subset)
    exact wp_mono (fun _ u hu id hid => hu id ((hmem id).mpr (hsame ▸ hid))) hrest
  refine wp_mono (fun _ t ht id d hd hu => ?_) (wp_and hdocs hgone)
  cases (ht.2 id (hf id d (ht.1 id d hd) hu)).2.symm.trans hd

/-- **Every session of a user is on the index when all calls have returned**, when none enters during a sign-out. -/
theorem signOut_complete (hu : user ≠ "") (hw : Kept S user w) (hf : ∀ id, Fine S user w id)
    {run : List (Act Call Env)} {sys : Sys World Th}
    (hC : Lts.Along (calls S user).next (Apart S user) (idle w) run)
    (hr : Lts.run (calls S user).next (idle w) run = some sys) (hdone : Finished sys) :
    (∀ id d, doc S sys.shared id = some d → d.userID = user → id ∈ index S user sys.shared) ∧
    (∃ es n m, (invalidateUser S user).run exec sys.shared es = some (n, m)) ∧
    ∀ es n m, (invalidateUser S user).run exec sys.shared es = some (n, m) →
      ∀ id d, doc S m id = some d → d.userID ≠ user := by
  have hkept : Kept S user sys.shared := (Lts.run_inv sound_next (inv_idle hw) hC hr).shared
  have hsound : Lts.Along (calls S user).next (fun sys _ => SoundSys S user sys) (idle w) run :=
    Lts.along_inv sound_next (inv_idle hw) hC
  have hfine : ∀ id, Fine S user sys.shared id := by
    refine fun id => repays_run (fun _ _ w _ => repays_body hu w) (fun _ _ _ => trivial) ?_ hf hsound hr hdone id
    intro sys i e t c a m hi hp hnext he id
    obtain ⟨k, hcode⟩ := code_of_next hnext
    obtain ⟨-, hguar, -⟩ := safe_step (fun _ _ s => Later.refl s) hi hp hcode trivial he
    exact ⟨fun hpays => fine_of_pays hi.shared hpays he, hguar.fine id⟩
  exact ⟨hfine, exists_run signs_invalidateUser signs_enabled _,
    fun es n m hrun => wp_run (invalidateUser_alone hkept hfine) hrun⟩

end

/-! ## runs -/

def made (id userID : String) : Session := ⟨id, userID, "", 0, 0, some 60, 1, []⟩

def store : Store := ⟨⟨"cpip"⟩, tableCodec [made "s" "u", made "t" "u", made "r" ""], 60⟩

theorem kept_empty (S : Store) (user : String) : Kept S user {} :=
  ⟨nofun, nofun⟩

theorem fine_empty (S : Store) (user id : String) : Fine S user {} id := fun d hd => by cases hd

def createRun : List (Act Call Env) :=
  [.spawn 0 (.create ⟨"", "", 0, []⟩), .step 0 ⟨0, "", []⟩, .step 0 ⟨0, "s", []⟩, .step 0 ⟨0, "", []⟩,
    .spawn 1 (.create ⟨"", "", 0, []⟩), .step 1 ⟨0, "", []⟩, .step 0 ⟨0, "", []⟩,
    .spawn 2 .listByUser, .step 2 ⟨0, "", ["s"]⟩, .step 1 ⟨0, "t", []⟩, .step 1 ⟨0, "", []⟩, .step 2 ⟨0, "", []⟩,
    .step 1 ⟨0, "", []⟩, .step 2 ⟨0, "", []⟩]

theorem signOut_complete_createRun : Lts.Along (calls store "u").next (Apart store "u") (idle {}) createRun ∧
    ∃ sys ∈ Lts.run (calls store "u").next (idle {}) createRun,
      Finished sys ∧ doc store sys.shared "s" = some (made "s" "u") ∧ "s" ∈ index store "u" sys.shared ∧
      ∀ es n m, (invalidateUser store "u").run exec sys.shared es = some (n, m) →
        ∀ id d, doc store m id = some d → d.userID ≠ "u" := by
  have hC : Lts.Along (calls store "u").next (Apart store "u") (idle {}) createRun :=
    along_pairs (n := 3) (D := fun _ _ t _ u => ∀ c ∈ t.next, c.adds = true →
        u.what = .invalidateUser → ∀ d ∈ u.next, d = .sMembers (indexKey store "u"))
      (fun _ _ _ => trivial) (fun _ _ _ h t ht c hc hw j u hu => h t j u ht hu c hc hw) (by decide) (by decide +kernel)
  have hend : ∃ sys ∈ Lts.run (calls store "u").next (idle {}) createRun,
      Finished sys ∧ doc store sys.shared "s" = some (made "s" "u") :=
    exists_below (n := 3) (by decide) (by decide +kernel)
  obtain ⟨sys, hr, hdone, hdoc⟩ := hend
  obtain ⟨hfine, -, hout⟩ := signOut_complete (by decide) (kept_empty store "u") (fine_empty store "u") hC hr hdone
  exact ⟨hC, sys, hr, hdone, hdoc, hfine "s" _ hdoc rfl, hout⟩

/-- a session is created between the listing and the last access of an `InvalidateUser` -/
def lostRun : List (Act Call Env) :=
  [.spawn 0 .invalidateUser, .step 0 ⟨0, "", []⟩,
    .spawn 1 (.create ⟨"", "", 0, []⟩), .step 1 ⟨0, "", []⟩, .step 1 ⟨0, "s", []⟩, .step 1 ⟨0, "", []⟩,
    .step 1 ⟨0, "", []⟩, .step 0 ⟨0, "", []⟩]

def namelessRun : List (Act Call Env) :=
  [.spawn 0 (.create ⟨"", "", 0, []⟩), .step 0 ⟨0, "", []⟩, .step 0 ⟨0, "r", []⟩, .step 0 ⟨0, "", []⟩]

/-- **A session that is created while its user is signed out is lost to the index**, and a session without a user is
never on an index. -/
theorem signOut_incomplete : (∃ sys ∈ Lts.run (calls store "u").next (idle {}) lostRun,
      Finished sys ∧ doc store sys.shared "s" = some (made "s" "u") ∧ "s" ∉ index store "u" sys.shared ∧
      ∃ r ∈ (invalidateUser store "u").run exec sys.shared [⟨0, "", []⟩, ⟨0, "", []⟩],
        r.1 = 0 ∧ doc store r.2 "s" = some (made "s" "u")) ∧
    ∃ sys ∈ Lts.run (calls store "").next (idle {}) namelessRun,
      Finished sys ∧ doc store sys.shared "r" = some (made "r" "") ∧ "r" ∉ index store "" sys.shared := by
  constructor
  · exact exists_below (n := 2) (by decide) (by decide +kernel)
  · exact exists_below (n := 1) (by decide) (by decide +kernel)

end SignOut

end Cache.Sessions
