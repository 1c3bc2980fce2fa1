import Mathlib.Logic.Function.Basic
import Mathlib.Tactic.Common

/-!
# Views kept by frames

Rooms hold values under keys, and each client that listens to a room keeps a view of it: a full frame replaces the
view, an incremental one changes the keys it names.  Changes are collected as dirty keys and sent in rounds.

* `Tracks`  **a client agrees with its room on every key that is not dirty**;
* `view_round`  **after a round that names every dirty key, the views are the rooms**.
-/

namespace Feed

open Function List

variable {γ ρ κ ν : Type*}

/-! ## frames -/

/-- a full frame replaces what its receiver knows, any other changes the keys it names; `none` removes a key -/
structure Frame (κ ν : Type*) where
  full : Bool
  items : List (κ × Option ν)

section
variable [DecidableEq κ] [DecidableEq γ]

def Frame.apply (f : Frame κ ν) (v : κ → Option ν) : κ → Option ν :=
  f.items.foldl (fun v i => update v i.1 i.2) (if f.full then fun _ => none else v)

/-- what `c` rebuilds from the frames sent to it -/
def view (log : List (γ × Frame κ ν)) (c : γ) : κ → Option ν :=
  log.foldl (fun v s => if s.1 = c then s.2.apply v else v) fun _ => none

/-- the frame gives the key the value `x`, if it names it -/
def Frame.Gives (f : Frame κ ν) (k : κ) (x : Option ν) : Prop := ∀ i ∈ f.items, i.1 = k → i.2 = x

variable {k : κ} {x : Option ν}

theorem foldl_update {l : List (κ × Option ν)} (h : ∀ i ∈ l, i.1 = k → i.2 = x) (v : κ → Option ν)
    (hk : v k = x ∨ ∃ i ∈ l, i.1 = k) : l.foldl (fun v i => update v i.1 i.2) v k = x := by
  induction l generalizing v with
  | nil =>
    obtain hv | ⟨i, hi, -⟩ := hk
    · exact hv
    · cases hi
  | cons i l ih =>
    refine ih (fun j hj => h j (mem_cons_of_mem _ hj)) _ ?_
    by_cases hik : i.1 = k
    · left
      show update v i.1 i.2 k = x
      rw [← hik, update_self]
      exact h i mem_cons_self hik
    · obtain hv | ⟨j, hj, hjk⟩ := hk
      · left
        show update v i.1 i.2 k = x
        rw [update_of_ne (Ne.symm hik), hv]
      · right
        obtain rfl | hj := mem_cons.mp hj
        · exact absurd hjk hik
        · exact ⟨j, hj, hjk⟩

theorem apply_incremental {f : Frame κ ν} (hf : f.full = false) (h : f.Gives k x) {v : κ → Option ν}
    (hk : v k = x ∨ ∃ i ∈ f.items, i.1 = k) : f.apply v k = x := by
  unfold Frame.apply
  rw [hf]
  exact foldl_update h v hk

theorem view_append (log log' : List (γ × Frame κ ν)) (c : γ) :
    view (log ++ log') c = log'.foldl (fun v s => if s.1 = c then s.2.apply v else v) (view log c) :=
  foldl_append

theorem view_snoc (log : List (γ × Frame κ ν)) (s : γ × Frame κ ν) (c : γ) :
    view (log ++ [s]) c = if s.1 = c then s.2.apply (view log c) else view log c := view_append log [s] c

theorem view_full {log : List (γ × Frame κ ν)} {c : γ} {f : Frame κ ν} (hf : f.full = true) (h : f.Gives k x)
    (hk : x = none ∨ ∃ i ∈ f.items, i.1 = k) : view (log ++ [(c, f)]) c k = x := by
  rw [view_snoc, if_pos rfl]
  unfold Frame.apply
  rw [hf]
  exact foldl_update h _ (hk.imp_left Eq.symm)

theorem view_round {log log' : List (γ × Frame κ ν)} {c : γ} (hf : ∀ f, (c, f) ∈ log' → f.full = false ∧ f.Gives k x)
    (hk : view log c k = x ∨ ∃ f, (c, f) ∈ log' ∧ ∃ i ∈ f.items, i.1 = k) : view (log ++ log') c k = x := by
  induction log' generalizing log with
  | nil =>
    rw [append_nil]
    obtain hv | ⟨f, hf, -⟩ := hk
    · exact hv
    · cases hf
  | cons s log' ih =>
    have hlog : log ++ s :: log' = (log ++ [s]) ++ log' := by rw [append_assoc, singleton_append]
    rw [hlog]
    refine ih (fun f hm => hf f (mem_cons_of_mem _ hm)) ?_
    rw [view_snoc]
    obtain ⟨d, g⟩ := s
    by_cases hd : d = c
    · subst hd
      obtain ⟨hg, hgk⟩ := hf g mem_cons_self
      rw [if_pos rfl]
      obtain hv | ⟨f, hm, hi⟩ := hk
      · exact .inl (apply_incremental hg hgk (.inl hv))
      obtain h | hm := mem_cons.mp hm
      · cases h
        exact .inl (apply_incremental hg hgk (.inr hi))
      · exact .inr ⟨f, hm, hi⟩
    · rw [if_neg hd]
      refine hk.imp_right fun ⟨f, hm, hi⟩ => ?_
      obtain h | hm := mem_cons.mp hm
      · cases h
        exact absurd rfl hd
      · exact ⟨f, hm, hi⟩

end

/-! ## dirty keys -/

end Feed

/-- what the rooms hold, what is still to be sent, who listens where, and what each client sees -/
structure Feed (γ ρ κ ν : Type*) where
  content : ρ → κ → Option ν
  dirty : ρ → κ → Prop
  home : γ → Option ρ
  seen : γ → κ → Option ν

namespace Feed

variable {γ ρ κ ν : Type*} {s s' : Feed γ ρ κ ν}

/-- a client agrees with its room on every key that is not dirty -/
def Tracks (s : Feed γ ρ κ ν) : Prop :=
  ∀ c r, s.home c = some r → ∀ k, ¬ s.dirty r k → s.seen c k = s.content r k

/-- **one change**: what it changes is dirty, and who comes to listen has the whole room -/
theorem tracks_step (h : s.Tracks)
    (hhome : ∀ c r, s'.home c = some r → (∀ k, s'.seen c k = s'.content r k) ∨ s.home c = some r ∧ s'.seen c = s.seen c)
    (hkey : ∀ r k, ¬ s'.dirty r k → ¬ s.dirty r k ∧ s'.content r k = s.content r k) : s'.Tracks := by
  intro c r hc k hk
  obtain hall | ⟨hc', hseen⟩ := hhome c r hc
  · exact hall k
  obtain ⟨hk', hcontent⟩ := hkey r k hk
  rw [hseen, hcontent]
  exact h c r hc' k hk'

end Feed
