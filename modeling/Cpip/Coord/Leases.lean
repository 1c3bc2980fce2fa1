import Cpip.Coord.Locks

/-!
# Coordination: what a step of a lock call does

* `Effect`, `next_effect`  **everything a step can do**, with the facts it was decided on.
-/

namespace Coord.Locks

open Expiry Pool

/-! ## the condition -/

/-- a call that is still to read the clock for a lease: when the lease started, and the lease -/
def Pc.pending : Pc → Option (Int × Int)
  | .build _ _ lease start => some (start, lease)
  | .renewSet _ lease start => some (start, lease)
  | _ => none

def Pc.Punctual (cfg : Config) (s : Pool.Sys World Pc) : Pc → Prop
  | .wait d => ∀ j t start lease, s.pool j = some t → t.pending = some (start, lease) →
      s.shared.now + d ≤ start + cfg.drift lease ∧ s.shared.now + d < start + lease
  | .renewCall l lease => ∀ j start lease', s.pool j = some (.renewSet l lease' start) →
      start + lease' ≤ s.shared.now + lease
  | _ => True

def Punctual (cfg : Config) (s : Pool.Sys World Pc) : Pool.Act Call Reply → Prop
  | .step i _ => ∀ pc ∈ s.pool i, pc.Punctual cfg s
  | _ => True

/-! ## what a step does -/

def World.raw (w : World) (key : String) : Option (Item String) := w.backend.kv.lookup key

/-- only dead items were removed -/
def Fades (w w' : World) : Prop :=
  ∀ k, w'.raw k = w.raw k ∨ w'.raw k = none ∧ ∃ e, w.raw k = some e ∧ e.dead w.now = true

inductive Effect (cfg : Config) (w : World) : Pc → Pc → World → Prop
  | same (pc : Pc) (err : Option Err) (hp : pc.pending = none) : Effect cfg w pc (.returned err) w
  | waited (d : Nat) : Effect cfg w (.wait d) (.returned none) { w with now := w.now + d }
  | minted (key token : String) (lease timeout : Int) (once : Bool) (t deadline : Int) (hnew : token ∉ w.minted) :
      Effect cfg w (.mint key token lease timeout once) (.claim key token (cfg.lease lease) t deadline once)
        { w with minted := token :: w.minted }
  | claimed (key token : String) (lease t deadline : Int) (once : Bool) (hfree : w.backend.live w.now key = none) :
      Effect cfg w (.claim key token lease t deadline once) (.build key token lease w.now)
        { w with backend := w.backend.set w.now key token lease }
  | refused (key token : String) (lease t deadline : Int) (once : Bool) :
      Effect cfg w (.claim key token lease t deadline once) (.claim key token lease t deadline once) w
  | built (key token : String) (lease start : Int) : Effect cfg w (.build key token lease start) (.returned none)
        { w with locks := w.locks ++ [⟨key, token, lease, w.now, false, false⟩] }
  | checked (l : Nat) (lease lease' : Int) (x : Lock) (hx : w.locks[l]? = some x)
      (hlease : lease' = if lease ≤ 0 then x.lease else lease) :
      Effect cfg w (.renewCheck l lease) (.renewCall l lease') w
  | renewed (l : Nat) (lease : Int) (x : Lock) (e : Item String) (hx : w.locks[l]? = some x)
      (hlive : w.backend.live w.now x.fullKey = some e) (he : e.value = x.token) :
      Effect cfg w (.renewCall l lease) (.renewSet l lease w.now)
        { w with backend := w.backend.set w.now x.fullKey x.token lease }
  | expired (l : Nat) (lease : Int) (x : Lock) (m : Memory) (err : Option Err)
      (hx : w.locks[l]? = some x) (hm : Fades w { w with backend := m }) :
      Effect cfg w (.renewCall l lease) (.returned err)
        { w with backend := m, locks := w.locks.set l { x with lost := true } }
  | anchored (l : Nat) (lease start : Int) (x : Lock) (hx : w.locks[l]? = some x) :
      Effect cfg w (.renewSet l lease start) (.returned none)
        { w with locks := w.locks.set l { x with lease := lease, acquiredAt := w.now } }
  | flagged (l : Nat) (x : Lock) (hx : w.locks[l]? = some x) : Effect cfg w (.releaseFlag l) (.releaseCall l)
        { w with locks := w.locks.set l { x with released := true } }
  | freed (l : Nat) (x : Lock) (e : Item String) (hx : w.locks[l]? = some x)
      (hlive : w.backend.live w.now x.fullKey = some e) (he : e.value = x.token) :
      Effect cfg w (.releaseCall l) (.returned none)
        { w with backend := { w.backend with kv := w.backend.kv.erase x.fullKey } }
  | gone (l : Nat) (m : Memory) (err : Option Err) (hm : Fades w { w with backend := m }) :
      Effect cfg w (.releaseCall l) (.returned err) { w with backend := m }

section
variable {cfg : Config} {w w' : World} {pc pc' : Pc} {r : Reply}

theorem fades_of {m : Memory} {key : String} (h : m = w.backend ∨ m = w.backend.touch w.now key) :
    Fades w { w with backend := m } := by
  intro k
  rcases h with rfl | rfl
  · exact .inl rfl
  rcases lookup_evict w.backend.kv w.now k key with hk | ⟨-, hn, he⟩
  · exact .inl hk
  · exact .inr ⟨hn, he⟩

/-- **What a step does.** -/
theorem next_effect (h : pc.next cfg w r = some (pc', w')) : Effect cfg w pc pc' w' := by
  cases pc
  case claim key token lease t deadline once =>
    cases r with
    | fail =>
      cases h
      exact .same _ _ rfl
    | ok =>
      simp only [Pc.next] at h
      split at h
      · rename_i m hm
        cases h
        rcases Memory.setNX_spec hm with ⟨-, hfree, rfl⟩ | ⟨hb, -⟩
        · exact .claimed key token lease t deadline once hfree
        · cases hb
      · rename_i m hm
        rcases Memory.setNX_spec hm with ⟨hb, -⟩ | ⟨-, rfl, -⟩
        · cases hb
        split at h
        · cases h
          exact .same _ _ rfl
        · cases h
          exact .refused ..
  case renewCheck l lease =>
    simp only [Pc.next] at h
    split at h
    · cases h
    rename_i x hx
    split at h <;> cases h
    · exact .same _ _ rfl
    · exact .checked l lease _ x hx rfl
  case renewCall l lease =>
    cases r with
    | fail =>
      cases h
      exact .same _ _ rfl
    | ok =>
      simp only [Pc.next] at h
      split at h
      · cases h
      rename_i x hx
      split at h
      · rename_i m hm
        cases h
        rcases Memory.compareAndExpire_spec hm with ⟨e, -, hlive, he, rfl⟩ | ⟨hb, -⟩
        · exact .renewed l lease x e hx hlive he
        · cases hb
      · rename_i m hm
        cases h
        rcases Memory.compareAndExpire_spec hm with ⟨e, hb, -⟩ | ⟨-, hm', -⟩
        · cases hb
        · exact .expired l lease x m _ hx (fades_of hm')
  case renewSet l lease start =>
    simp only [Pc.next] at h
    split at h
    · cases h
    rename_i x hx
    cases h
    exact .anchored l lease start x hx
  case releaseFlag l =>
    simp only [Pc.next] at h
    split at h
    · cases h
    rename_i x hx
    split at h <;> cases h
    · exact .same _ _ rfl
    · exact .flagged l x hx
  case releaseCall l =>
    cases r with
    | fail =>
      cases h
      exact .same _ _ rfl
    | ok =>
      simp only [Pc.next] at h
      split at h
      · cases h
      rename_i x hx
      split at h
      · rename_i m hm
        cases h
        rcases Memory.compareAndDelete_spec hm with ⟨e, -, hlive, he, rfl⟩ | ⟨hb, -⟩
        · exact .freed l x e hx hlive he
        · cases hb
      · rename_i m hm
        cases h
        rcases Memory.compareAndDelete_spec hm with ⟨e, hb, -⟩ | ⟨-, hm', -⟩
        · cases hb
        · exact .gone l m _ (fades_of hm')
  case mint key token lease timeout once =>
    simp only [Pc.next] at h
    split at h
    · cases h
    rename_i hnew
    cases h
    exact .minted key token lease timeout once _ _ hnew
  case wait d =>
    cases h
    exact .waited d
  case build key token lease start =>
    cases h
    exact .built key token lease start
  case returned err => cases h

/-! ## items -/

theorem due_pos {now lease : Int} (h : 0 < lease) : due now lease = some (now + lease) :=
  if_neg (by omega)

theorem live_raw {k v : String} {t : Int} (h : w.raw k = some ⟨v, some t⟩) (ht : w.now < t) :
    w.backend.live w.now k = some ⟨v, some t⟩ := by
  refine live_eq_some.mpr ⟨h, ?_⟩
  show decide (t ≤ w.now) = false
  simp only [decide_eq_false_iff_not]
  omega

theorem Fades.keeps (h : Fades w w') {k v : String} {t : Int} (hk : w.raw k = some ⟨v, some t⟩)
    (ht : w.now < t) : w'.raw k = some ⟨v, some t⟩ := by
  rcases h k with hs | ⟨-, e, he, hd⟩
  · exact hs.trans hk
  cases hk.symm.trans he
  have hlive := (live_eq_some.mp (live_raw hk ht)).2
  rw [hd] at hlive
  cases hlive

theorem Fades.was (h : Fades w w') {k : String} {e : Item String} (hk : w'.raw k = some e) : w.raw k = some e := by
  rcases h k with hs | ⟨hn, -⟩
  · exact hs.symm.trans hk
  · cases hn.symm.trans hk

theorem raw_set_self (w : World) (key v : String) (lease : Int) :
    World.raw { w with backend := w.backend.set w.now key v lease } key =
      some ⟨v, due w.now lease⟩ := AList.lookup_insert ..

theorem raw_set_ne (w : World) {k key : String} (h : k ≠ key) (v : String) (lease : Int) :
    World.raw { w with backend := w.backend.set w.now key v lease } k = w.raw k :=
  AList.lookup_insert_ne h

section
variable {k key v : String} {lease : Int} {e : Item String}

theorem raw_set_some (h : World.raw { w with backend := w.backend.set w.now key v lease } k = some e) :
    e = ⟨v, due w.now lease⟩ ∨ w.raw k = some e := by
  by_cases hk : k = key
  · subst hk
    exact .inl (Option.some.inj (h.symm.trans (raw_set_self ..)))
  · exact .inr ((raw_set_ne w hk v lease).symm.trans h)

theorem raw_erase_some {m : AList fun _ : String => Item String} (h : (m.erase key).lookup k = some e) :
    m.lookup k = some e := by
  by_cases hk : k = key
  · subst hk
    cases (AList.lookup_erase ..).symm.trans h
  · exact (AList.lookup_erase_ne hk).symm.trans h

end

end

end Coord.Locks
