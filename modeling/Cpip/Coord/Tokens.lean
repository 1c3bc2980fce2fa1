import Cpip.Coord.Leases

/-!
# Coordination: tokens and keys of the lock service

Every lock has a token of its own, so an item of the backend belongs to at most one lock.

* `Sound`, `sound_keeps`  **a punctual step keeps the invariant**.
-/

namespace Coord.Locks

open Expiry Pool List

/-! ## the invariant -/

section
variable {cfg : Config} {w w' : World} {pc pc' : Pc} {r : Reply}

/-- **the world**: every lock has its own token -/
structure Sane (w : World) : Prop where
  values : ∀ k e, w.raw k = some e → e.value ∈ w.minted
  minted : ∀ x ∈ w.locks, x.token ∈ w.minted
  leases : ∀ x ∈ w.locks, 0 < x.lease
  tokens : ∀ (i j : Nat) (x y : Lock), w.locks[i]? = some x → w.locks[j]? = some y → x.token = y.token → i = j

def Unused (w : World) (token : String) : Prop :=
  token ∈ w.minted ∧ ∀ x ∈ w.locks, x.token ≠ token

def InTime (cfg : Config) (w : World) (start lease : Int) : Prop :=
  w.now ≤ start + cfg.drift lease ∧ w.now < start + lease

/-- the lease of the lock lasts until `t` -/
def Lasts (w : World) (x : Lock) (t : Int) : Prop :=
  ∃ u, w.raw x.fullKey = some ⟨x.token, some u⟩ ∧ t ≤ u

/-- **a call** -/
def Fit (cfg : Config) (w : World) : Pc → Prop
  | .claim _ token lease _ _ _ => Unused w token ∧ 0 < lease ∧ ∀ k e, w.raw k = some e → e.value ≠ token
  | .build key token lease start => Unused w token ∧ 0 < lease ∧ InTime cfg w start lease ∧
      w.raw key = some ⟨token, some (start + lease)⟩
  | .renewCall _ lease => 0 < lease
  | .renewSet l lease start => 0 < lease ∧ InTime cfg w start lease ∧ ∃ x, w.locks[l]? = some x ∧
      (x.released = true ∨ x.lost = true ∨ Lasts w x (start + lease))
  | .releaseCall l => ∃ x, w.locks[l]? = some x ∧ x.released = true
  | _ => True

def Pc.token : Pc → Option String
  | .claim _ token _ _ _ _ => some token
  | .build _ token _ _ => some token
  | _ => none

/-- **two calls** -/
def Distinct (pc pc' : Pc) : Prop := ∀ t, pc.token = some t → pc'.token ≠ some t

theorem Fit.unused {t : String} (h : Fit cfg w pc) (ht : pc.token = some t) : Unused w t := by
  cases pc
  case claim key token lease a b c | build key token lease start =>
    cases ht
    exact h.1
  all_goals cases ht

theorem Sane.set (h : Sane w) {l : Nat} {x y : Lock} (hx : w.locks[l]? = some x)
    (ht : y.token = x.token) (hl : 0 < y.lease) : Sane { w with locks := w.locks.set l y } := by
  have hmem := mem_of_getElem? hx
  have hget : ∀ (i : Nat) (z : Lock), (w.locks.set l y)[i]? = some z →
      ∃ z', w.locks[i]? = some z' ∧ z'.token = z.token := by
    intro i z hz
    by_cases hi : l = i
    · subst hi
      rw [getElem?_set_self (List.getElem?_eq_some_iff.mp hx).1] at hz
      cases hz
      exact ⟨x, hx, ht.symm⟩
    · rw [getElem?_set_ne hi] at hz
      exact ⟨z, hz, rfl⟩
  refine ⟨h.values, fun z hz => ?_, fun z hz => ?_, fun i j a b ha hb hab => ?_⟩
  · rcases mem_or_eq_of_mem_set hz with hz | rfl
    · exact h.minted z hz
    · rw [ht]
      exact h.minted x hmem
  · rcases mem_or_eq_of_mem_set hz with hz | rfl
    · exact h.leases z hz
    · exact hl
  · obtain ⟨a', ha', hta⟩ := hget i a ha
    obtain ⟨b', hb', htb⟩ := hget j b hb
    exact h.tokens i j a' b' ha' hb' (hta.trans (hab.trans htb.symm))

theorem Sane.backend (h : Sane w) {m : Memory}
    (hm : ∀ k e, World.raw { w with backend := m } k = some e → e.value ∈ w.minted) :
    Sane { w with backend := m } := ⟨hm, h.minted, h.leases, h.tokens⟩

theorem Sane.insert (h : Sane w) {key v : String} {lease : Int} (hv : v ∈ w.minted) :
    Sane { w with backend := w.backend.set w.now key v lease } := by
  refine h.backend fun k e he => ?_
  rcases raw_set_some he with rfl | he
  · exact hv
  · exact h.values k e he

/-- **The world after a step.** -/
theorem sane_next (h : Sane w) (hF : Fit cfg w pc) (hE : Effect cfg w pc pc' w') : Sane w' := by
  cases hE with
  | same | refused | checked => exact h
  | waited d => exact ⟨h.values, h.minted, h.leases, h.tokens⟩
  | minted key token lease timeout once t deadline hnew =>
    exact ⟨fun k e he => mem_cons_of_mem _ (h.values k e he),
      fun x hx => mem_cons_of_mem _ (h.minted x hx), h.leases, h.tokens⟩
  | claimed key token lease t deadline once hfree => exact h.insert hF.1.1
  | built key token lease start =>
    obtain ⟨⟨hmint, hne⟩, hpos, -⟩ := hF
    refine ⟨h.values, fun x hx => ?_, fun x hx => ?_, fun i j x y hx hy hxy => ?_⟩
    · rcases mem_append.mp hx with hx | hx
      · exact h.minted x hx
      · rw [mem_singleton.mp hx]
        exact hmint
    · rcases mem_append.mp hx with hx | hx
      · exact h.leases x hx
      · rw [mem_singleton.mp hx]
        exact hpos
    · have hcase : ∀ (n : Nat) (z : Lock), (w.locks ++ [⟨key, token, lease, w.now, false, false⟩])[n]? = some z →
          w.locks[n]? = some z ∨ n = w.locks.length ∧ z.token = token := by
        intro n z hz
        rcases Nat.lt_trichotomy n w.locks.length with hn | rfl | hn
        · rw [getElem?_append_left hn] at hz
          exact .inl hz
        · rw [getElem?_concat_length] at hz
          cases hz
          exact .inr ⟨rfl, rfl⟩
        · rw [getElem?_eq_none (by simp; omega)] at hz
          cases hz
      rcases hcase i x hx with hx | ⟨rfl, hxt⟩
      · rcases hcase j y hy with hy | ⟨rfl, hyt⟩
        · exact h.tokens i j x y hx hy hxy
        · exact absurd (hxy.trans hyt) (hne x (mem_of_getElem? hx))
      · rcases hcase j y hy with hy | ⟨rfl, -⟩
        · exact absurd (hxy.symm.trans hxt) (hne y (mem_of_getElem? hy))
        · rfl
  | renewed l lease x e hx hlive he => exact h.insert (h.minted x (mem_of_getElem? hx))
  | expired l lease x m err hx hm =>
    have hb : Sane { w with backend := m } := h.backend fun k e he => h.values k e (hm.was he)
    exact hb.set (y := { x with lost := true }) hx rfl (h.leases x (mem_of_getElem? hx))
  | anchored l lease start x hx => exact h.set hx rfl hF.1
  | flagged l x hx => exact h.set hx rfl (h.leases x (mem_of_getElem? hx))
  | freed l x e hx hlive he =>
    exact h.backend fun k e' he' => h.values k e' (raw_erase_some he')
  | gone l m err hm => exact h.backend fun k e he => h.values k e (hm.was he)

/-- **A call after its own step.** -/
theorem fit_self (hd : ∀ lease, 0 < lease → 0 ≤ cfg.drift lease) (hl : 0 < cfg.defaultLease)
    (h : Sane w) (hF : Fit cfg w pc) (hE : Effect cfg w pc pc' w') : Fit cfg w' pc' := by
  cases hE with
  | same | waited d | built | expired | anchored | freed | gone => trivial
  | minted key token lease timeout once t deadline hnew =>
    refine ⟨⟨mem_cons_self .., fun x hx ht => hnew (ht ▸ h.minted x hx)⟩, ?_, fun k e he ht => ?_⟩
    · unfold Config.lease
      split <;> assumption
    · exact hnew (ht ▸ h.values k e he)
  | claimed key token lease t deadline once hfree =>
    obtain ⟨hun, hpos, -⟩ := hF
    have := hd lease hpos
    refine ⟨hun, hpos, ⟨?_, ?_⟩, ?_⟩
    · show w.now ≤ w.now + cfg.drift lease
      omega
    · show w.now < w.now + lease
      omega
    · rw [raw_set_self, due_pos hpos]
  | refused => exact hF
  | checked l lease lease' x hx hlease =>
    show 0 < lease'
    have := h.leases x (mem_of_getElem? hx)
    rw [hlease]
    split <;> omega
  | renewed l lease x e hx hlive he =>
    have hpos : 0 < lease := hF
    have := hd lease hpos
    refine ⟨hpos, ⟨?_, ?_⟩, x, hx, .inr (.inr ⟨w.now + lease, ?_, Int.le_refl _⟩)⟩
    · show w.now ≤ w.now + cfg.drift lease
      omega
    · show w.now < w.now + lease
      omega
    · rw [raw_set_self, due_pos hpos]
  | flagged l x hx =>
    exact ⟨{ x with released := true }, getElem?_set_self (List.getElem?_eq_some_iff.mp hx).1, rfl⟩

/-! ## what a step leaves -/

/-- a lock after a step that is not the end of a renewal -/
structure Ages (x x' : Lock) : Prop where
  fullKey : x'.fullKey = x.fullKey
  token : x'.token = x.token
  released : x.released = true → x'.released = true
  lost : x.lost = true → x'.lost = true

theorem Ages.refl (x : Lock) : Ages x x := ⟨rfl, rfl, id, id⟩

theorem set_ages {ls : List Lock} {l l' : Nat} {x y z : Lock} (hx : ls[l]? = some x)
    (hy : ls[l']? = some y) (hz : Ages y z) : ∃ x', (ls.set l' z)[l]? = some x' ∧ Ages x x' ∧ (l ≠ l' → x' = x) := by
  by_cases hl : l' = l
  · subst hl
    cases hx.symm.trans hy
    exact ⟨z, getElem?_set_self (List.getElem?_eq_some_iff.mp hx).1, hz, fun h => absurd rfl h⟩
  · exact ⟨x, by rw [getElem?_set_ne hl, hx], .refl x, fun _ => rfl⟩

/-- **A lock stays**, and keeps its window unless the step ends a renewal of it. -/
theorem lock_next (hE : Effect cfg w pc pc' w') {l : Nat} {x : Lock} (hx : w.locks[l]? = some x) :
    ∃ x', w'.locks[l]? = some x' ∧ Ages x x' ∧
      ((∀ lease start, pc ≠ .renewSet l lease start) → x'.validUntil cfg = x.validUntil cfg) := by
  cases hE with
  | built key token lease start =>
    refine ⟨x, ?_, .refl x, fun _ => rfl⟩
    show (w.locks ++ _)[l]? = some x
    rw [getElem?_append_left (List.getElem?_eq_some_iff.mp hx).1, hx]
  | expired l' lease y m err hy hm =>
    obtain ⟨x', hx', ha, heq⟩ := set_ages hx hy (z := { y with lost := true }) ⟨rfl, rfl, id, fun _ => rfl⟩
    refine ⟨x', hx', ha, fun _ => ?_⟩
    by_cases hl : l = l'
    · subst hl
      cases hx.symm.trans hy
      rw [getElem?_set_self (List.getElem?_eq_some_iff.mp hx).1] at hx'
      cases hx'
      rfl
    · rw [heq hl]
  | anchored l' lease start y hy =>
    obtain ⟨x', hx', ha, heq⟩ :=
      set_ages hx hy (z := { y with lease := lease, acquiredAt := w.now }) ⟨rfl, rfl, id, id⟩
    refine ⟨x', hx', ha, fun hne => ?_⟩
    have hl : l ≠ l' := by
      rintro rfl
      exact hne _ _ rfl
    rw [heq hl]
  | flagged l' y hy =>
    obtain ⟨x', hx', ha, heq⟩ := set_ages hx hy (z := { y with released := true }) ⟨rfl, rfl, fun _ => rfl, id⟩
    refine ⟨x', hx', ha, fun _ => ?_⟩
    by_cases hl : l = l'
    · subst hl
      cases hx.symm.trans hy
      rw [getElem?_set_self (List.getElem?_eq_some_iff.mp hx).1] at hx'
      cases hx'
      rfl
    · rw [heq hl]
  | _ => exact ⟨x, hx, .refl x, fun _ => rfl⟩

/-- **A live item stays**, unless the lock it belongs to is renewed or freed. -/
theorem raw_next (hF : Fit cfg w pc) (hE : Effect cfg w pc pc' w') {k token : String} {t : Int}
    (hk : w.raw k = some ⟨token, some t⟩) (ht : w.now < t) : w'.raw k = some ⟨token, some t⟩ ∨
      (∃ l lease x, pc = .renewCall l lease ∧ pc' = .renewSet l lease w.now ∧ w.locks[l]? = some x ∧
        x.token = token ∧ w'.raw k = some ⟨token, some (w.now + lease)⟩) ∨
      ∃ l x, pc = .releaseCall l ∧ w.locks[l]? = some x ∧ x.token = token ∧ x.released = true := by
  have hlive := live_raw hk ht
  cases hE with
  | claimed key token' lease t' deadline once hfree =>
    refine .inl ?_
    have hne : k ≠ key := by
      rintro rfl
      cases hfree.symm.trans hlive
    rw [raw_set_ne w hne]
    exact hk
  | renewed l lease x e hx hlive' he =>
    by_cases hkey : k = x.fullKey
    · subst hkey
      cases hlive.symm.trans hlive'
      refine .inr (.inl ⟨l, lease, x, rfl, rfl, hx, he.symm, ?_⟩)
      rw [raw_set_self, due_pos hF, ← he]
    · refine .inl ?_
      rw [raw_set_ne w hkey]
      exact hk
  | expired l lease x m err hx hm | gone l m err hm => exact .inl (hm.keeps hk ht)
  | freed l x e hx hlive' he =>
    by_cases hkey : k = x.fullKey
    · subst hkey
      cases hlive.symm.trans hlive'
      obtain ⟨y, hy, hrel⟩ := hF
      cases hx.symm.trans hy
      exact .inr (.inr ⟨l, x, rfl, hx, he.symm, hrel⟩)
    · refine .inl ?_
      rw [World.raw, AList.lookup_erase_ne hkey]
      exact hk
  | _ => exact .inl hk

theorem unused_next {t : String} (hE : Effect cfg w pc pc' w') (hne : pc.token ≠ some t)
    (h : Unused w t) : Unused w' t := by
  have hset : ∀ (m : Memory) (l : Nat) (x y : Lock), w.locks[l]? = some x →
      y.token = x.token → Unused { w with backend := m, locks := w.locks.set l y } t := by
    intro m l x y hx hy
    refine ⟨h.1, fun z hz => ?_⟩
    rcases mem_or_eq_of_mem_set hz with hz | rfl
    · exact h.2 z hz
    · rw [hy]
      exact h.2 x (mem_of_getElem? hx)
  cases hE with
  | minted => exact ⟨mem_cons_of_mem _ h.1, h.2⟩
  | built key token lease start =>
    refine ⟨h.1, fun x hx => ?_⟩
    rcases mem_append.mp hx with hx | hx
    · exact h.2 x hx
    · rw [mem_singleton.mp hx]
      exact fun ht => hne (congrArg some ht)
  | expired l lease x m err hx hm => exact hset m l x _ hx rfl
  | anchored l lease start x hx | flagged l x hx => exact hset w.backend l x _ hx rfl
  | _ => exact h

theorem now_next (hE : Effect cfg w pc pc' w') : w'.now = w.now ∨ ∃ d : Nat, pc = .wait d ∧ w'.now = w.now + d := by
  cases hE with
  | waited d => exact .inr ⟨d, rfl, rfl⟩
  | _ => exact .inl rfl

theorem le_now (hE : Effect cfg w pc pc' w') : w.now ≤ w'.now := by
  rcases now_next hE with h | ⟨d, -, h⟩ <;> omega

/-- a lease that lasts until `t` goes on doing so, or the lock was released -/
theorem lasts_next (hS : Sane w) (hF : Fit cfg w pc) (hE : Effect cfg w pc pc' w') {l : Nat} {x x' : Lock}
    {t : Int} (hx : w.locks[l]? = some x) (ha : Ages x x') (hL : Lasts w x t) (ht : w.now < t)
    (hr : ∀ lease, pc = .renewCall l lease → t ≤ w.now + lease) : x'.released = true ∨ Lasts w' x' t := by
  obtain ⟨u, hu, htu⟩ := hL
  rcases raw_next hF hE hu (by omega) with hk | ⟨l', lease, y, hpc, -, hy, hyx, hk⟩ | ⟨l', y, -, hy, hyx, hrel⟩
  · refine .inr ⟨u, ?_, htu⟩
    rw [ha.fullKey, ha.token]
    exact hk
  · cases hS.tokens l' l y x hy hx hyx
    refine .inr ⟨w.now + lease, ?_, hr lease hpc⟩
    rw [ha.fullKey, ha.token]
    exact hk
  · cases hS.tokens l' l y x hy hx hyx
    cases hx.symm.trans hy
    exact .inl (ha.released hrel)

end

/-! ## calls -/

section
variable {cfg : Config} {s : Sys World Pc} {w' : World} {pc pc' u : Pc} {i j : Nat}

theorem inTime_next {start lease : Int} (hE : Effect cfg s.shared pc pc' w') (hP : pc.Punctual cfg s)
    (hj : s.pool j = some u) (hu : u.pending = some (start, lease))
    (h : InTime cfg s.shared start lease) : InTime cfg w' start lease := by
  rcases now_next hE with hn | ⟨d, rfl, hn⟩
  · unfold InTime
    rw [hn]
    exact h
  · unfold InTime
    rw [hn]
    exact hP j u start lease hj hu

/-- **A call after the step of another one.** -/
theorem fit_other (hS : Sane s.shared) (hF : Fit cfg s.shared pc) (hE : Effect cfg s.shared pc pc' w')
    (hP : pc.Punctual cfg s) (hD : Distinct pc u) (hj : s.pool j = some u) (hu : Fit cfg s.shared u) :
    Fit cfg w' u := by
  have hne : ∀ t, u.token = some t → pc.token ≠ some t := fun t ht hpc => hD t hpc ht
  cases u
  case claim key token lease t deadline once =>
    obtain ⟨hun, hpos, hfree⟩ := hu
    refine ⟨unused_next hE (hne _ rfl) hun, hpos, fun k e he => ?_⟩
    cases hE with
    | claimed key' token' lease' t' deadline' once' hfree' =>
      rcases raw_set_some he with rfl | he
      · exact fun ht => hne _ rfl (congrArg some ht)
      · exact hfree k e he
    | renewed l lease' x e' hx hlive he' =>
      rcases raw_set_some he with rfl | he
      · exact hun.2 x (mem_of_getElem? hx)
      · exact hfree k e he
    | expired l lease' x m err hx hm | gone l m err hm => exact hfree k e (hm.was he)
    | freed l x e' hx hlive he' => exact hfree k e (raw_erase_some he)
    | _ => exact hfree k e he
  case build key token lease start =>
    obtain ⟨hun, hpos, htime, hk⟩ := hu
    refine ⟨unused_next hE (hne _ rfl) hun, hpos, inTime_next hE hP hj rfl htime, ?_⟩
    -- no lock has the token, so neither a renewal nor a release is about this item
    rcases raw_next hF hE hk htime.2 with hk' | ⟨l, lease', x, -, -, hx, hxt, -⟩ | ⟨l, x, -, hx, hxt, -⟩
    · exact hk'
    · exact absurd hxt (hun.2 x (mem_of_getElem? hx))
    · exact absurd hxt (hun.2 x (mem_of_getElem? hx))
  case renewCall l lease => exact hu
  case renewSet l lease start =>
    obtain ⟨hpos, htime, x, hx, hL⟩ := hu
    obtain ⟨x', hx', ha, -⟩ := lock_next hE hx
    refine ⟨hpos, inTime_next hE hP hj rfl htime, x', hx', ?_⟩
    rcases hL with hrel | hlost | hL
    · exact .inl (ha.released hrel)
    · exact .inr (.inl (ha.lost hlost))
    have hr : ∀ lease', pc = .renewCall l lease' → start + lease ≤ s.shared.now + lease' := by
      rintro lease' rfl
      exact hP j start lease hj
    exact (lasts_next hS hF hE hx ha hL htime.2 hr).imp_right .inr
  case releaseCall l =>
    obtain ⟨x, hx, hrel⟩ := hu
    obtain ⟨x', hx', ha, -⟩ := lock_next hE hx
    exact ⟨x', hx', ha.released hrel⟩
  all_goals trivial

theorem token_next {w : World} (hE : Effect cfg w pc pc' w') {t : String} (ht : pc'.token = some t) :
    pc.token = some t ∨ t ∉ w.minted := by
  cases hE with
  | minted key token lease timeout once t' deadline hnew =>
    cases ht
    exact .inr hnew
  | claimed | refused => exact .inl ht
  | _ => cases ht

theorem distinct_next (hE : Effect cfg s.shared pc pc' w') (hD : Distinct pc u) (hu : Fit cfg s.shared u) :
    Distinct pc' u := by
  intro t ht hut
  rcases token_next hE ht with hpc | hnew
  · exact hD t hpc hut
  · exact hnew (hu.unused hut).1

theorem Distinct.symm {pc u : Pc} (h : Distinct pc u) : Distinct u pc := fun t hu hpc => h t hpc hu

theorem entry_fit (w : World) (c : Call) : Fit cfg w c.entry := by
  cases c <;> trivial

theorem entry_token (c : Call) : c.entry.token = none := by
  cases c <;> rfl

def Sound (cfg : Config) : Sys World Pc → Prop :=
  Inv Sane (Fit cfg) fun _ => Distinct

theorem sound_keeps (hd : ∀ lease, 0 < lease → 0 ≤ cfg.drift lease) (hl : 0 < cfg.defaultLease)
    (hi : Sound cfg s) (hp : s.pool i = some pc) (hP : pc.Punctual cfg s)
    (hE : Effect cfg s.shared pc pc' w') : Keeps Sane (Fit cfg) (fun _ => Distinct) s i pc' w' := by
  have hF := hi.each i pc hp
  have hD : ∀ j u, j ≠ i → s.pool j = some u → Distinct pc u :=
    fun j u hj hu => hi.pair i j pc u (Ne.symm hj) hp hu
  have hD' : ∀ j u, j ≠ i → s.pool j = some u → Distinct pc' u :=
    fun j u hj hu => distinct_next hE (hD j u hj hu) (hi.each j u hu)
  exact {
    shared := sane_next hi.shared hF hE
    self := fit_self hd hl hi.shared hF hE
    other := fun j u hj hu => fit_other hi.shared hF hE hP (hD j u hj hu) hu (hi.each j u hu)
    left := hD'
    right := fun j u hj hu => (hD' j u hj hu).symm
    others := fun j k u v _ _ hjk hu hv => hi.pair j k u v hjk hu hv }

end

end Coord.Locks
