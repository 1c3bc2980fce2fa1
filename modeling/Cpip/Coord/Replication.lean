import Mathlib.Data.Prod.Lex
import Cpip.Lib.Run

/-!
# Coordination: state replication

What is broadcast on the channel of a domain and what the handlers of a node are given.  A payload stands for the
update it encodes, and the zero time is `0`.

* `merge_converges`  **when deliveries in any order end in the same update, and when merges commute**;
* `handled_increasing`  **the handlers are given newer and newer updates of a key**.
-/

namespace Coord.Replication

open Lts List
open Function (update update_self update_of_ne)

structure Update where
  key : String
  payload : String := ""
  origin : String := ""
  version : Nat
  deleted : Bool := false
  timestamp : Int := 0
deriving DecidableEq

/-! ## last write wins -/

/-- `LWWMerger.Merge`: the winner, and whether it is the incoming update -/
def merge (current incoming : Update) : Update × Bool :=
  if incoming.version ≠ current.version then
    if current.version < incoming.version then (incoming, true) else (current, false)
  else if current.timestamp < incoming.timestamp then (incoming, true)
  else (current, false)

def Update.stamp (u : Update) : Nat ×ₗ Int := toLex (u.version, u.timestamp)

/-- the update that is left when `us` are merged into `start` in this order -/
def settle (start : Update) (us : List Update) : Update := us.foldl (fun c u => (merge c u).1) start

theorem merge_eq (x y : Update) : merge x y = if x.stamp < y.stamp then (y, true) else (x, false) := by
  unfold merge Update.stamp
  simp only [Prod.Lex.toLex_lt_toLex]
  by_cases hv : y.version = x.version
  · simp [hv]
  rw [if_pos hv]
  by_cases hlt : x.version < y.version
  · simp [hlt]
  · simp [hlt, Ne.symm hv]

theorem merge_fst (x y : Update) : (merge x y).1 = if x.stamp < y.stamp then y else x := by
  rw [merge_eq]
  split <;> rfl

theorem settle_spec (start : Update) (us : List Update) :
    settle start us ∈ start :: us ∧ ∀ x ∈ start :: us, x.stamp ≤ (settle start us).stamp := by
  induction us generalizing start with
  | nil => simp [settle]
  | cons u us ih =>
    obtain ⟨hmem, hle⟩ := ih (merge start u).1
    change settle start (u :: us) ∈ _ at hmem
    change ∀ x ∈ _, Update.stamp x ≤ (settle start (u :: us)).stamp at hle
    have htop := hle _ (mem_cons_self ..)
    rw [merge_fst] at hmem htop
    -- the update that loses the first merge is below the one that wins it
    by_cases h : start.stamp < u.stamp
    · rw [if_pos h] at hmem htop
      refine ⟨mem_cons_of_mem _ hmem, fun x hx => ?_⟩
      rcases mem_cons.mp hx with rfl | hx
      · exact h.le.trans htop
      rcases mem_cons.mp hx with rfl | hx
      · exact htop
      · exact hle x (mem_cons_of_mem _ hx)
    · rw [if_neg h] at hmem htop
      refine ⟨?_, fun x hx => ?_⟩
      · rcases mem_cons.mp hmem with hm | hm
        · rw [hm]
          exact mem_cons_self ..
        · exact mem_cons_of_mem _ (mem_cons_of_mem _ hm)
      · rcases mem_cons.mp hx with rfl | hx
        · exact htop
        rcases mem_cons.mp hx with rfl | hx
        · exact (not_lt.mp h).trans htop
        · exact hle x (mem_cons_of_mem _ hx)

theorem settle_of_le {x : Update} {us : List Update} (h : ∀ u ∈ us, u.stamp ≤ x.stamp) : settle x us = x := by
  induction us with
  | nil => rfl
  | cons u us ih =>
    show settle (merge x u).1 us = x
    rw [merge_fst, if_neg (h u (mem_cons_self ..)).not_gt]
    exact ih fun v hv => h v (mem_cons_of_mem _ hv)

/-- two of the updates with one version and one timestamp are the same update -/
def Stamped (us : List Update) : Prop := ∀ x ∈ us, ∀ y ∈ us, x.stamp = y.stamp → x = y

/-- two of the updates with the highest stamp are the same update, if that stamp is above the start -/
def Unrivalled (start : Update) (us : List Update) : Prop :=
  ∀ x ∈ us, ∀ y ∈ us, start.stamp < x.stamp → (∀ z ∈ us, z.stamp ≤ x.stamp) → x.stamp = y.stamp → x = y

theorem settle_unrivalled {start : Update} {us vs : List Update} (hun : Unrivalled start us)
    (hsame : ∀ x, x ∈ vs ↔ x ∈ us) : settle start vs = settle start us := by
  by_cases htop : ∀ u ∈ us, u.stamp ≤ start.stamp
  · rw [settle_of_le htop, settle_of_le fun u hu => htop u ((hsame u).mp hu)]
  obtain ⟨u, hu, hlt⟩ : ∃ u ∈ us, start.stamp < u.stamp := by simpa using htop
  obtain ⟨hm, hle⟩ := settle_spec start us
  obtain ⟨hm', hle'⟩ := settle_spec start vs
  have habove := hlt.trans_le (hle u (mem_cons_of_mem _ hu))
  have habove' := hlt.trans_le (hle' u (mem_cons_of_mem _ ((hsame u).mpr hu)))
  -- neither is the start, so both were delivered
  have hmem := (mem_cons.mp hm).resolve_left fun h => absurd habove (by rw [h]; exact lt_irrefl _)
  have hmem' := (mem_cons.mp hm').resolve_left fun h => absurd habove' (by rw [h]; exact lt_irrefl _)
  refine (hun _ hmem _ ((hsame _).mp hmem') habove (fun z hz => hle z (mem_cons_of_mem _ hz)) ?_).symm
  refine le_antisymm (hle' _ (mem_cons_of_mem _ ((hsame _).mpr hmem))) ?_
  exact hle _ (mem_cons_of_mem _ ((hsame _).mp hmem'))

/-- what comes first among the highest stays -/
theorem settle_first {start x : Update} {us : List Update} (hlt : start.stamp < x.stamp)
    (htop : ∀ z ∈ us, z.stamp ≤ x.stamp) : settle start (x :: us) = x := by
  show settle (merge start x).1 us = x
  rw [merge_fst, if_pos hlt]
  exact settle_of_le htop

/-- **Every order of delivery ends in one update exactly when none is tied at the top**, and when merges commute. -/
theorem merge_converges (start : Update) (us : List Update) :
    ((∀ vs : List Update, (∀ x, x ∈ vs ↔ x ∈ us) → settle start vs = settle start us) ↔ Unrivalled start us) ∧
    ((∀ x ∈ start :: us, ∀ y ∈ start :: us, (merge x y).1 = (merge y x).1) ↔ Stamped (start :: us)) ∧
    (∀ x y z, (merge (merge x y).1 z).1 = (merge x (merge y z).1).1) ∧ ∀ x, (merge x x).1 = x := by
  refine ⟨⟨fun h x hx y hy hlt htop heq => ?_, fun hun vs hsame => settle_unrivalled hun hsame⟩,
    ⟨fun h x hx y hy heq => ?_, fun hst x hx y hy => ?_⟩, fun x y z => ?_, fun x => ?_⟩
  · -- deliver either of the two first
    have hfirst : ∀ z ∈ us, settle start (z :: us) = settle start us := fun z hz => h _ fun w => by
      rw [mem_cons]
      exact ⟨fun hw => hw.elim (fun hw => hw ▸ hz) id, .inr⟩
    rw [← settle_first hlt htop, hfirst x hx, ← hfirst y hy]
    exact settle_first (heq ▸ hlt) (heq ▸ htop)
  · have hcomm := h x hx y hy
    rwa [merge_fst, merge_fst, heq, if_neg (lt_irrefl _), if_neg (lt_irrefl _)] at hcomm
  · rw [merge_fst, merge_fst]
    rcases lt_trichotomy x.stamp y.stamp with h | h | h
    · rw [if_pos h, if_neg h.asymm]
    · rw [hst x hx y hy h]
    · rw [if_pos h, if_neg h.asymm]
  · by_cases hxy : x.stamp < y.stamp <;> by_cases hyz : y.stamp < z.stamp <;>
      simp only [merge_fst, hxy, hyz, if_true, if_false]
    · rw [if_pos (hxy.trans hyz)]
    · exact if_neg ((not_lt.mp hyz).trans (not_lt.mp hxy)).not_gt
  · rw [merge_fst, if_neg (lt_irrefl _)]

/-- **Two nodes stamp one version at one time**: the first delivered update stays. -/
theorem merge_diverges :
    ∃ x y : Update, x.key = y.key ∧ x.origin ≠ y.origin ∧ x.version = y.version ∧ x.timestamp = y.timestamp ∧
      settle { key := "k", version := 0 } [x, y] ≠ settle { key := "k", version := 0 } [y, x] :=
  ⟨{ key := "k", payload := "1", origin := "a", version := 1 },
    { key := "k", payload := "2", origin := "b", version := 1 }, by decide⟩

/-! ## the channel of a domain -/

inductive Payload where
  | malformed
  | update (u : Update)

def Payload.update? : Payload → Option Update
  | .malformed => none
  | .update u => some u

/-- the messages of each node's subscription, and what its handlers were given; `sent` is all that was broadcast, for
the record -/
structure Net where
  inbox : String → List Payload := fun _ => []
  handled : String → List Update := fun _ => []
  sent : List Update := []

inductive Step where
  /-- `Broadcast` of a change, or of one of the updates of an anti-entropy pass -/
  | broadcast (node : String) (u : Update) (now : Int) (full : List String)
  /-- another payload is published -/
  | garbage (full : List String)
  /-- `receiveLoop` of a node takes the next payload -/
  | receive (node : String)

def Update.stamped (u : Update) (node : String) (now : Int) : Update :=
  { u with origin := node, timestamp := if u.timestamp = 0 then now else u.timestamp }

/-- a payload goes to every subscription but the full ones, which drop it -/
def Net.publish (s : Net) (full : List String) (p : Payload) : Net :=
  { s with inbox := fun n => if n ∈ full then s.inbox n else s.inbox n ++ [p] }

def next (s : Net) : Step → Option Net
  | .broadcast node u now full =>
    let u := u.stamped node now
    some { s.publish full (.update u) with sent := s.sent ++ [u] }
  | .garbage full => some (s.publish full .malformed)
  | .receive node =>
    match s.inbox node with
    | [] => none
    | .malformed :: ps => some { s with inbox := update s.inbox node ps }
    | .update u :: ps =>
      if u.origin = node then some { s with inbox := update s.inbox node ps }
      else some { s with
        inbox := update s.inbox node ps
        handled := update s.handled node (s.handled node ++ [u]) }

section
variable (M : Update → Update → Update × Bool)

/-- updates of one key come in the order of the merger -/
def Rises (x y : Update) : Prop := x.key = y.key → (M x y).2 = true

instance (x y : Update) : Decidable (Rises M x y) := by
  unfold Rises
  infer_instance

/-- a broadcast is newer than every one of its key before it, live or by anti-entropy -/
def Fresh (s : Net) : Step → Prop
  | .broadcast node u now _ => ∀ x ∈ s.sent, Rises M x (u.stamped node now)
  | _ => True

instance (s : Net) (l : Step) : Decidable (Fresh M s l) := by
  unfold Fresh
  split <;> infer_instance

/-- what a node was given and what is on its way to it were sent in this order -/
structure InOrder (s : Net) : Prop where
  sent : s.sent.Pairwise (Rises M)
  node : ∀ n, (s.handled n ++ (s.inbox n).filterMap Payload.update?).Sublist s.sent

variable {M} {s s' : Net}

theorem InOrder.publish (h : InOrder M s) (full : List String) (p : Payload) (n : String) :
    ((s.publish full p).handled n ++ ((s.publish full p).inbox n).filterMap Payload.update?).Sublist
      (s.sent ++ p.update?.toList) := by
  have hn := h.node n
  show (s.handled n ++ (if n ∈ full then s.inbox n else s.inbox n ++ [p]).filterMap Payload.update?).Sublist _
  split
  · exact hn.trans (sublist_append_left ..)
  rw [filterMap_append, ← append_assoc]
  refine hn.append ?_
  cases p <;> exact List.Sublist.refl _

theorem InOrder.received (h : InOrder M s) {node : String} {p : Payload} {ps : List Payload} {g : List Update}
    (hp : s.inbox node = p :: ps) (hg : g.Sublist p.update?.toList) : InOrder M { s with
      inbox := update s.inbox node ps
      handled := update s.handled node (s.handled node ++ g) } := by
  refine ⟨h.sent, fun n => ?_⟩
  have hn := h.node n
  dsimp only
  by_cases hnode : n = node
  · subst hnode
    rw [update_self, update_self, append_assoc]
    rw [hp] at hn
    refine List.Sublist.trans (List.Sublist.append_left ?_ _) hn
    cases p with
    | malformed | update u => exact hg.append (List.Sublist.refl _)
  · rw [update_of_ne hnode, update_of_ne hnode]
    exact hn

theorem inOrder_next (h : InOrder M s) {l : Step} (hc : Fresh M s l) (hn : next s l = some s') : InOrder M s' := by
  cases l with
  | broadcast node u now full =>
    cases hn
    refine ⟨?_, h.publish full _⟩
    rw [pairwise_append]
    exact ⟨h.sent, pairwise_singleton .., fun x hx y hy => by rw [mem_singleton.mp hy]; exact hc x hx⟩
  | garbage full =>
    cases hn
    refine ⟨h.sent, fun n => ?_⟩
    have := h.publish full .malformed n
    rwa [show s.sent ++ Payload.malformed.update?.toList = s.sent from append_nil _] at this
  | receive node =>
    simp only [next] at hn
    have hnone : update s.handled node (s.handled node ++ []) = s.handled := by simp
    split at hn
    · cases hn
    · rename_i ps hp
      cases hn
      have := h.received hp (g := []) (nil_sublist _)
      rwa [hnone] at this
    · rename_i u ps hp
      split at hn <;> cases hn
      · have := h.received hp (g := []) (nil_sublist _)
        rwa [hnone] at this
      · exact h.received hp (List.Sublist.refl _)

end

/-- **The handlers are given newer and newer updates of a key** when every broadcast is newer than those before. -/
theorem handled_increasing (M : Update → Update → Update × Bool) (ls : List Step) (s : Net)
    (hc : Along next (Fresh M) {} ls) (hr : run next {} ls = some s) (node : String) :
    (s.handled node).Pairwise fun x y => x.key = y.key → (M x y).2 = true := by
  have hi : InOrder M s :=
    run_inv (fun s l s' hi hc hn => inOrder_next hi hc hn) ⟨List.Pairwise.nil, fun _ => List.Sublist.refl _⟩ hc hr
  exact (hi.sent.sublist (hi.node node)).sublist (sublist_append_left ..)

def change (node : String) (version : Nat) : Step :=
  .broadcast node { key := "k", version := version, timestamp := 1 } 0 []

theorem handled_increasing_two : ∃ s ∈ run next {} [change "a" 1, change "b" 2, .receive "c", .receive "c"],
    (s.handled "c").length = 2 ∧ (s.handled "c").Pairwise fun x y => x.key = y.key → (merge x y).2 = true := by
  refine exists_run_and (by decide +kernel) fun s hr _ => ?_
  exact handled_increasing merge _ s (by decide +kernel) hr "c"

/-- **The receive path never asks the merger**: anti-entropy brings version 1 to the handlers after version 2. -/
theorem stale_handled :
    ∃ s ∈ run next {} [change "a" 1, change "b" 2, change "a" 1, .receive "c", .receive "c", .receive "c"],
      (s.handled "c").map Update.version = [1, 2, 1] := by
  decide +kernel

end Coord.Replication
