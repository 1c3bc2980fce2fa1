import Cpip.Lib.Lww
import Cpip.Cache.Presence

/-!
# Cache: convergence of presence

The views of the nodes are last-writer-wins replicas of the records of the last calls, as long as no
broadcast is taken for an echo and no two users share an identifier.

* `rel_call`, `rel_deliver`  **a call is a write of the replicas, an arrival a delivery**;
* `views_converge`  **when all broadcasts of a run have arrived every view is that of the last calls**.
-/

namespace Cache.Rooms

open Lts AList List
open Function (update update_apply update_of_ne update_self)

/-! ## the condition -/

/-- the record carries no name of another node than `m` -/
def Own (s : Net) (m : Member) (p : Presence) : Prop :=
  p.nodeID = "" ∨ ∀ m' ∈ s.members, m'.nodeID = p.nodeID → m'.nodeID = m.nodeID

instance (s : Net) (m : Member) (p : Presence) : Decidable (Own s m p) := by
  unfold Own
  infer_instance

/-- the record that a call starts from is the node's own and is not marked as left -/
def Op.Fair (s : Net) (m : Member) : Op → Prop
  | .announce p => p.left = false ∧ Own s m p
  | .edit seat _ found => (m.current seat found).left = false ∧ Own s m (m.current seat found)
  | .leave _ => True

instance (s : Net) (m : Member) (op : Op) : Decidable (op.Fair s m) := by
  unfold Op.Fair
  split <;> infer_instance

/-- the call is fair and its identifier is that of no other room and user -/
def Owned (s : Net) : Label → Prop
  | .call i op _ _ => (∀ seat ∈ s.latest.keys, seatID seat = seatID op.seat → seat = op.seat) ∧
      ∀ m ∈ s.members[i]?, op.Fair s m
  | .deliver _ => True

instance (s : Net) (l : Label) : Decidable (Owned s l) := by
  unfold Owned
  split <;> infer_instance

/-! ## what a node does -/

def Update.msg (u : Update) : Lww.Msg Seat Presence :=
  ⟨u.payload.seat, u.version, if u.payload.left then none else some u.payload⟩

/-- what holds of a node: its records stand under their room and user, and are not newer than the versions
it has seen -/
structure Member.Ok (m : Member) (clock : Int) : Prop where
  seen : ∀ id, m.versions id ≤ clock
  keyed : ∀ seat p, m.view seat = some p → p.seat = seat ∧ p.version ≤ m.versions (seatID seat)

section
variable {m : Member} {clock now version : Int} {seat : Seat} {p : Presence} {op : Op} {s : Net}

theorem updateView_newer (h : ∀ cur, m.view p.seat = some cur → cur.version ≤ p.version) :
    updateView m.view p = update m.view p.seat (some p) := by
  unfold updateView
  cases hv : m.view p.seat with
  | none => rfl
  | some cur =>
    dsimp only
    rw [if_neg (Int.not_lt.mpr (h cur hv))]

theorem recordVersion_newer {versions : String → Int} {id : String} {v : Int} (h : versions id < v) :
    recordVersion versions id v = update versions id v := if_pos h

def Member.put (m : Member) (seat : Seat) (version : Int) (value : Option Presence) : Member :=
  { m with versions := update m.versions (seatID seat) version, view := update m.view seat value }

structure Written (s : Net) (m : Member) (op : Op) (version : Int) (r : Member × Update) : Prop where
  member : r.1 = m.put op.seat version r.2.msg.value
  id : r.2.id = seatID op.seat
  seat : r.2.payload.seat = op.seat
  payload : r.2.payload.version = version
  version : r.2.version = version
  value : r.2.msg.value = op.record r.2
  sender : ∀ m' ∈ s.members, m'.nodeID = r.2.nodeID → m'.nodeID = m.nodeID

theorem sender_own (hown : Own s m p) (m' : Member) (hm' : m' ∈ s.members)
    (heq : m'.nodeID = (m.broadcast (m.stamp now version p)).2.nodeID) : m'.nodeID = m.nodeID := by
  by_cases hsent : (m.stamp now version p).nodeID = ""
  · exact heq.trans (if_pos hsent)
  have heq' : m'.nodeID = (m.stamp now version p).nodeID := heq.trans (if_neg hsent)
  by_cases hp : p.nodeID = ""
  · exact heq'.trans (if_pos hp)
  · exact (hown.resolve_left hp) m' hm' (heq'.trans (if_neg hp))

theorem announce_written (hm : m.Ok clock) (hv : clock < version) (hleft : p.left = false) (hown : Own s m p)
    (hseat : p.seat = op.seat) (hrec : ∀ u, op.record u = some u.payload) :
    Written s m op version (m.announce now version p) := by
  have hview : updateView m.view (m.stamp now version p) =
      update m.view p.seat (some (m.stamp now version p)) := by
    refine updateView_newer (p := m.stamp now version p) fun cur hcur => ?_
    have hle := (hm.keyed _ cur hcur).2
    have hseen := hm.seen (seatID (m.stamp now version p).seat)
    show cur.version ≤ version
    omega
  have hvers : recordVersion m.versions (seatID p.seat) version = update m.versions (seatID p.seat) version :=
    recordVersion_newer (Int.lt_of_le_of_lt (hm.seen _) hv)
  have hvalue : (m.announce now version p).2.msg.value = some (m.stamp now version p) := by
    show (if p.left then none else _) = _
    rw [hleft]
    rfl
  refine ⟨?_, ?_, hseat, rfl, rfl, hvalue.trans (hrec (m.announce now version p).2).symm, sender_own hown⟩
  · rw [hvalue, ← hseat]
    exact congrArg₂ (Member.mk m.nodeID) hview hvers
  · rw [← hseat]
    rfl

theorem leave_written (hm : m.Ok clock) (hv : clock < version) (seat : Seat) :
    Written s m (.leave seat) version (m.leave version seat) := by
  have hvers : recordVersion m.versions (seatID seat) version = update m.versions (seatID seat) version :=
    recordVersion_newer (Int.lt_of_le_of_lt (hm.seen _) hv)
  refine ⟨congrArg (Member.mk m.nodeID _) hvers, rfl, rfl, rfl, rfl, rfl, fun m' _ heq => ?_⟩
  by_cases hsent : m.nodeID = ""
  · exact heq.trans (if_pos hsent)
  · exact heq.trans (if_neg hsent)

theorem current_seat (hm : m.Ok clock) (seat : Seat) (found : Option Presence) :
    (m.current seat found).seat = seat := by
  unfold Member.current
  cases hv : m.view seat with
  | some p => exact (hm.keyed seat p hv).1
  | none =>
    cases found with
    | some p | none => rfl

theorem edit_keeps (now : Int) (p : Presence) (e : Edit) :
    (e.apply now p).seat = p.seat ∧ (e.apply now p).left = p.left ∧ (e.apply now p).nodeID = p.nodeID := by
  cases e <;> exact ⟨rfl, rfl, rfl⟩

/-- **What a call does**: its record, with a version that is new, goes to the view and into the broadcast. -/
theorem exec_spec (hm : m.Ok clock) (hv : clock < version) (hfair : op.Fair s m) :
    Written s m op version (op.exec m now version) := by
  cases op with
  | announce p => exact announce_written hm hv hfair.1 hfair.2 rfl fun _ => rfl
  | edit seat e found =>
    obtain ⟨hs, hl, hn⟩ := edit_keeps now { m.current seat found with heartbeatAt := now } e
    refine announce_written hm hv (hl.trans hfair.1) ?_ (hs.trans (current_seat hm seat found)) fun _ => rfl
    unfold Own
    rw [hn]
    exact hfair.2
  | leave seat => exact leave_written hm hv seat

/-- **What an arrival does** when it is no echo: a version that is new goes to the view. -/
theorem apply_spec {u : Update} (hm : m.Ok clock) (hn : u.nodeID ≠ m.nodeID) (hid : u.id = seatID u.payload.seat)
    (hver : u.payload.version = u.version) : m.apply u = if m.versions (seatID u.payload.seat) < u.version then
      m.put u.payload.seat u.version u.msg.value else m := by
  unfold Member.apply
  rw [if_neg hn, hid]
  by_cases hlt : m.versions (seatID u.payload.seat) < u.version
  · rw [if_neg (Int.not_le.mpr hlt), if_pos hlt]
    have hview : onReplicated m.view u.payload = update m.view u.payload.seat u.msg.value := by
      unfold onReplicated Update.msg
      cases hleft : u.payload.left with
      | true => rfl
      | false =>
        refine updateView_newer fun cur hcur => ?_
        have hle := (hm.keyed _ cur hcur).2
        omega
    rw [hview]
    rfl
  · rw [if_pos (Int.not_lt.mp hlt), if_neg hlt]

theorem msg_value {u : Update} {q : Presence} (h : u.msg.value = some q) : q = u.payload := by
  unfold Update.msg at h
  cases hleft : u.payload.left with
  | true =>
    rw [hleft] at h
    cases h
  | false =>
    rw [hleft] at h
    exact (Option.some.inj h).symm

end

/-! ## nodes as replicas -/

abbrev Records := AList fun _ : Seat => Int × Option Presence

def Member.replica (m : Member) (used : Records) (seat : Seat) : Int × Option Presence :=
  if seat ∈ used then (m.versions (seatID seat), m.view seat) else (0, none)

def Net.replicas (s : Net) : Lww.Net Nat Seat Presence where
  replicas i := (s.members[i]?).elim (fun _ => (0, none)) (·.replica s.latest)
  flying := s.flying.map fun x => (x.1, x.2.msg)
  latest seat := (s.latest.lookup seat).getD (0, none)

/-- different users of `used` have different identifiers -/
def Unique (used : Records) : Prop := ∀ a ∈ used, ∀ b ∈ used, seatID a = seatID b → a = b

/-- a node on which other users than those of `used` have left no trace -/
structure Member.Clean (m : Member) (used : Records) : Prop where
  versions : ∀ id, (∀ seat ∈ used, seatID seat ≠ id) → m.versions id = 0
  view : ∀ seat, seat ∉ used → m.view seat = none

/-- a broadcast under way: it is of a call that was made, and not of the node it goes to -/
structure Sent (names : List String) (s : Net) (x : Nat × Update) : Prop where
  id : x.2.id = seatID x.2.payload.seat
  payload : x.2.payload.version = x.2.version
  dated : x.2.version ≤ s.clock
  used : x.2.payload.seat ∈ s.latest
  foreign : names[x.1]? ≠ some x.2.nodeID

structure Rel (names : List String) (s : Net) : Prop where
  named : s.members.map Member.nodeID = names
  ok : ∀ m ∈ s.members, m.Ok s.clock
  clean : ∀ m ∈ s.members, m.Clean s.latest
  unique : Unique s.latest
  dated : ∀ seat, ((s.latest.lookup seat).getD (0, none)).1 ≤ s.clock
  sent : ∀ x ∈ s.flying, Sent names s x

section
variable {m : Member} {clock version : Int} {seat : Seat} {value : Option Presence} {op : Op} {s s' : Net}
  {names : List String} {used : Records}

theorem replica_used (h : seat ∈ used) : m.replica used seat = (m.versions (seatID seat), m.view seat) := if_pos h

theorem replica_unused (h : seat ∉ used) : m.replica used seat = (0, none) := if_neg h

theorem Member.Ok.mono {clock' : Int} (hm : m.Ok clock) (h : clock ≤ clock') : m.Ok clock' :=
  ⟨fun id => Int.le_trans (hm.seen id) h, hm.keyed⟩

theorem Member.Clean.insert (hm : m.Clean used) (v : Int × Option Presence) : m.Clean (used.insert seat v) :=
  ⟨fun id hid => hm.versions id fun b hb => hid b ((mem_insert _).mpr (.inr hb)),
    fun b hb => hm.view b fun hu => hb ((mem_insert _).mpr (.inr hu))⟩

theorem ok_put (hm : m.Ok clock) (hseen : m.versions (seatID seat) ≤ version) (hv : version ≤ clock)
    (hval : ∀ q, value = some q → q.seat = seat ∧ q.version ≤ version) : (m.put seat version value).Ok clock := by
  refine ⟨fun id => ?_, fun b q hq => ?_⟩
  · show update m.versions (seatID seat) version id ≤ clock
    rw [update_apply]
    split
    · exact hv
    · exact hm.seen id
  · change update m.view seat value b = some q at hq
    show q.seat = b ∧ q.version ≤ update m.versions (seatID seat) version (seatID b)
    by_cases hb : b = seat
    · subst hb
      rw [update_self] at hq ⊢
      exact hval q hq
    · rw [update_of_ne hb] at hq
      obtain ⟨hseat, hle⟩ := hm.keyed b q hq
      refine ⟨hseat, ?_⟩
      rw [update_apply]
      split
      · next hid => exact Int.le_trans (hid ▸ hle) hseen
      · exact hle

theorem clean_put (hm : m.Clean used) (hs : seat ∈ used) : (m.put seat version value).Clean used :=
  ⟨fun id hid => (update_of_ne (hid seat hs).symm ..).trans (hm.versions id hid),
    fun b hb => (update_of_ne (fun h : b = seat => hb (h ▸ hs)) ..).trans (hm.view b hb)⟩

theorem replica_put (hu : Unique used) (hs : seat ∈ used) :
    (m.put seat version value).replica used = update (m.replica used) seat (version, value) := by
  funext b
  by_cases hb : b = seat
  · subst hb
    rw [update_self, replica_used hs]
    exact congrArg₂ Prod.mk (update_self ..) (update_self ..)
  · rw [update_of_ne hb]
    by_cases hused : b ∈ used
    · have hne : seatID b ≠ seatID seat := fun h => hb (hu b hused seat hs h)
      rw [replica_used hused, replica_used hused]
      exact congrArg₂ Prod.mk (update_of_ne hne ..) (update_of_ne hb ..)
    · rw [replica_unused hused, replica_unused hused]

theorem replica_insert (hm : m.Clean used) (v : Int × Option Presence)
    (hid : ∀ b ∈ used, seatID b = seatID seat → b = seat) : m.replica (used.insert seat v) = m.replica used := by
  funext b
  by_cases hu : b ∈ used
  · rw [replica_used hu, replica_used ((mem_insert _).mpr (.inr hu))]
  rw [replica_unused hu]
  by_cases hb : b = seat
  · subst hb
    rw [replica_used ((mem_insert _).mpr (.inl rfl)), hm.view b hu,
      hm.versions _ fun c hc he => hu (hid c hc he ▸ hc)]
  · rw [replica_unused fun h => ((mem_insert _).mp h).elim hb hu]

theorem unique_insert (hu : Unique used) (v : Int × Option Presence)
    (hid : ∀ b ∈ used, seatID b = seatID seat → b = seat) : Unique (used.insert seat v) := by
  intro a ha b hb he
  rcases (mem_insert _).mp ha with rfl | ha'
  · rcases (mem_insert _).mp hb with rfl | hb'
    · rfl
    · exact (hid b hb' he.symm).symm
  · rcases (mem_insert _).mp hb with rfl | hb'
    · exact hid a ha' he
    · exact hu a ha' b hb' he

/-! ## the steps -/

variable {i : Nat}

theorem call_cases {now : Int} (h : s.next (.call i op now version) = some s') :
    ∃ m, s.members[i]? = some m ∧ s.clock < version ∧ s' = {
      members := s.members.set i (op.exec m now version).1
      flying := s.flying ++ ((range s.members.length).filter (· ≠ i)).map fun j => (j, (op.exec m now version).2)
      latest := s.latest.insert op.seat (version, op.record (op.exec m now version).2)
      clock := version } := by
  unfold Net.next at h
  dsimp only at h
  cases hm : s.members[i]? with
  | none =>
    rw [hm] at h
    cases h
  | some m =>
    rw [hm] at h
    dsimp only at h
    split at h
    · cases h
      exact ⟨m, rfl, ‹_›, rfl⟩
    · cases h

variable {k : Nat}

theorem deliver_cases (h : s.next (.deliver k) = some s') : ∃ x m, s.flying[k]? = some x ∧ s.members[x.1]? = some m ∧
      s' = { s with members := s.members.set x.1 (m.apply x.2), flying := s.flying.eraseIdx k } := by
  unfold Net.next at h
  dsimp only at h
  cases hx : s.flying[k]? with
  | none =>
    rw [hx] at h
    cases h
  | some x =>
    obtain ⟨j, u⟩ := x
    rw [hx] at h
    dsimp only at h
    cases hm : s.members[j]? with
    | none =>
      rw [hm] at h
      cases h
    | some m =>
      rw [hm] at h
      cases h
      exact ⟨(j, u), m, rfl, hm, rfl⟩

variable {m' : Member}

theorem names_set (h : s.members.map Member.nodeID = names) (hm : s.members[i]? = some m) (hn : m'.nodeID = m.nodeID) :
    (s.members.set i m').map Member.nodeID = names := by
  have hname : names[i]? = some m.nodeID := by
    rw [← h, getElem?_map, hm]
    rfl
  obtain ⟨hi, hget⟩ := List.getElem?_eq_some_iff.mp hname
  rw [map_set, h, hn, ← hget, set_getElem_self]

theorem forall_set {P : Member → Prop} (h : ∀ m ∈ s.members, P m) (hm' : P m') : ∀ m ∈ s.members.set i m', P m := by
  intro m hm
  rcases mem_or_eq_of_mem_set hm with hold | rfl
  · exact h m hold
  · exact hm'

theorem foreign_target {j : Nat} {r : Member × Update} (hn : names.Nodup) (h : s.members.map Member.nodeID = names)
    (hm : s.members[i]? = some m) (hw : Written s m op version r) (hj : j ≠ i) : names[j]? ≠ some r.2.nodeID := by
  intro hname
  have hi : names[i]? = some m.nodeID := by
    rw [← h, getElem?_map, hm]
    rfl
  rw [← h, getElem?_map] at hname
  obtain ⟨m₁, hm₁, heq⟩ := Option.map_eq_some_iff.mp hname
  have hsame := hw.sender m₁ (mem_of_getElem? hm₁) heq
  have hj' : names[j]? = some m.nodeID := by
    rw [← h, getElem?_map, hm₁, ← hsame]
    rfl
  obtain ⟨hlt, -⟩ := List.getElem?_eq_some_iff.mp hj'
  exact hj ((getElem?_inj hlt hn).mp (hj'.trans hi.symm))

theorem replicas_some (hm : s.members[i]? = some m) : s.replicas.replicas i = m.replica s.latest := by
  show Option.elim _ _ _ = _
  rw [hm]
  rfl

theorem replicas_set {r : Seat → Int × Option Presence} (hm : s.members[i]? = some m) (hr : m'.replica used = r)
    (hother : ∀ m ∈ s.members, m.replica used = m.replica s.latest) :
    (fun j => ((s.members.set i m')[j]?).elim (fun _ => (0, none)) (·.replica used)) =
      update s.replicas.replicas i r := by
  obtain ⟨hi, -⟩ := List.getElem?_eq_some_iff.mp hm
  funext j
  by_cases hj : j = i
  · subst hj
    rw [getElem?_set_self hi, update_self]
    exact hr
  · rw [getElem?_set_ne (Ne.symm hj), update_of_ne hj]
    cases hget : s.members[j]? with
    | none => simp [Net.replicas, hget]
    | some m₁ => simpa [Net.replicas, hget] using hother m₁ (mem_of_getElem? hget)

/-- **A call is a write of the replicas.** -/
theorem rel_call (hn : names.Nodup) (h : Rel names s) {now : Int} (hown : Owned s (.call i op now version))
    (hs : s.next (.call i op now version) = some s') :
    Rel names s' ∧ ∃ u : Update, u.payload.seat = op.seat ∧ s.clock < u.version ∧
      s'.replicas = s.replicas.write i u.msg ((range names.length).filter (· ≠ i)) := by
  obtain ⟨m, hm, hv, rfl⟩ := call_cases hs
  obtain ⟨hid, hfair⟩ := hown
  have hmem := mem_of_getElem? hm
  have hok := h.ok m hmem
  have hw : Written s m op version (op.exec m now version) := exec_spec hok hv (hfair m hm)
  generalize hr : op.exec m now version = r at hw
  obtain ⟨m', u⟩ := r
  have hlen : s.members.length = names.length := by
    rw [← h.named, length_map]
  have huniq := unique_insert h.unique (version, op.record u) hid
  have hclock := Int.le_of_lt hv
  refine ⟨⟨?_, ?_, ?_, huniq, ?_, ?_⟩, u, hw.seat, ?_, ?_⟩
  · refine names_set h.named hm ?_
    rw [hw.member]
    rfl
  · refine forall_set (fun m₁ hm₁ => (h.ok m₁ hm₁).mono hclock) ?_
    rw [hw.member]
    refine ok_put (hok.mono hclock) (Int.le_trans (hok.seen _) hclock) (Int.le_refl _) fun q hq => ?_
    cases msg_value hq
    exact ⟨hw.seat, Int.le_of_eq hw.payload⟩
  · refine forall_set (fun m₁ hm₁ => (h.clean m₁ hm₁).insert _) ?_
    rw [hw.member]
    exact clean_put ((h.clean m hmem).insert _) ((mem_insert _).mpr (.inl rfl))
  · intro seat
    by_cases hseat : seat = op.seat
    · subst hseat
      rw [lookup_insert]
      exact Int.le_refl _
    · rw [lookup_insert_ne hseat]
      exact Int.le_trans (h.dated seat) hclock
  · intro x hx
    rcases mem_append.mp hx with hx | hx
    · have hsent := h.sent x hx
      exact ⟨hsent.id, hsent.payload, Int.le_trans hsent.dated hclock,
        (mem_insert _).mpr (.inr hsent.used), hsent.foreign⟩
    · obtain ⟨j, hj, rfl⟩ := mem_map.mp hx
      refine ⟨?_, hw.payload.trans hw.version.symm, Int.le_of_eq hw.version, ?_, ?_⟩
      · rw [hw.seat]
        exact hw.id
      · rw [hw.seat]
        exact (mem_insert _).mpr (.inl rfl)
      · exact foreign_target hn h.named hm hw (of_decide_eq_true (mem_filter.mp hj).2)
  · show s.clock < u.version
    rw [hw.version]
    exact hv
  · have hkey : u.msg.key = op.seat := hw.seat
    have hval : (u.msg.version, u.msg.value) = (version, op.record u) := congrArg₂ Prod.mk hw.version hw.value
    refine congr (congrArg₂ Lww.Net.mk ?_ ?_) ?_
    · refine replicas_set hm ?_ fun m₁ hm₁ => replica_insert (h.clean m₁ hm₁) _ hid
      rw [hw.member, replica_put huniq ((mem_insert _).mpr (.inl rfl)),
        replica_insert (h.clean m hmem) _ hid, hkey, replicas_some hm]
      exact congrArg (update _ _) (hval.trans (congrArg _ hw.value.symm)).symm
    · rw [← hlen, map_append, map_map]
      rfl
    funext seat
    rw [hkey, hval]
    by_cases hseat : seat = op.seat
    · subst hseat
      rw [lookup_insert, update_self]
      rfl
    · rw [lookup_insert_ne hseat, update_of_ne hseat]
      rfl

/-- **An arrival is a delivery to a replica.** -/
theorem rel_deliver (h : Rel names s) (hs : s.next (.deliver k) = some s') :
    Rel names s' ∧ ∃ x : Nat × Update, s.flying[k]? = some x ∧ s'.replicas =
      s.replicas.deliver (x.1, x.2.msg) ((s.flying.eraseIdx k).map fun x => (x.1, x.2.msg)) := by
  obtain ⟨x, m, hx, hm, rfl⟩ := deliver_cases hs
  have hmem := mem_of_getElem? hm
  have hok := h.ok m hmem
  have hclean := h.clean m hmem
  have hsent := h.sent x (mem_of_getElem? hx)
  have hforeign : x.2.nodeID ≠ m.nodeID := by
    intro heq
    refine hsent.foreign ?_
    rw [← h.named, getElem?_map, hm, heq]
    rfl
  have hspec := apply_spec hok hforeign hsent.id hsent.payload
  refine ⟨⟨?_, ?_, ?_, h.unique, h.dated, fun y hy => ?_⟩, x, hx, ?_⟩
  · refine names_set h.named hm ?_
    rw [hspec]
    split <;> rfl
  · refine forall_set h.ok ?_
    rw [hspec]
    split
    · rename_i hlt
      refine ok_put hok (Int.le_of_lt hlt) hsent.dated fun q hq => ?_
      cases msg_value hq
      exact ⟨rfl, Int.le_of_eq hsent.payload⟩
    · exact hok
  · refine forall_set h.clean ?_
    rw [hspec]
    split
    · exact clean_put hclean hsent.used
    · exact hclean
  · have hold := h.sent y (mem_of_mem_eraseIdx hy)
    exact ⟨hold.id, hold.payload, hold.dated, hold.used, hold.foreign⟩
  refine congr (congrArg₂ Lww.Net.mk (replicas_set hm ?_ fun _ _ => rfl) rfl) rfl
  rw [hspec, replicas_some hm]
  have hkey : (m.replica s.latest x.2.msg.key).1 = m.versions (seatID x.2.payload.seat) :=
    congrArg Prod.fst (replica_used (m := m) hsent.used)
  show _ = if (m.replica s.latest x.2.msg.key).1 < x.2.version then _ else _
  rw [hkey]
  split
  · exact replica_put h.unique hsent.used
  · rfl

theorem rel_start (names : List String) : Rel names (start names) := by
  refine ⟨?_, ?_, ?_, ?_, fun seat => Int.le_refl 0, fun x hx => by cases hx⟩
  · unfold start
    rw [map_map]
    exact map_id names
  · intro m hm
    obtain ⟨name, -, rfl⟩ := mem_map.mp hm
    exact ⟨fun _ => Int.le_refl 0, fun _ _ h => by cases h⟩
  · intro m hm
    obtain ⟨name, -, rfl⟩ := mem_map.mp hm
    exact ⟨fun _ _ => rfl, fun _ _ => rfl⟩
  · intro a ha
    exact absurd ha (notMem_empty a)

structure Good (names : List String) (s : Net) : Prop where
  rel : Rel names s
  sound : Lww.Sound (· < names.length) s.replicas

theorem good_start (names : List String) : Good names (start names) := by
  refine ⟨rel_start names, fun i hi seat => .inl ?_, fun x hx => by cases hx⟩
  cases hm : (start names).members[i]? with
  | none =>
    show Option.elim (start names).members[i]? (fun _ => (0, none)) _ seat = _
    rw [hm]
    rfl
  | some m =>
    rw [replicas_some hm]
    exact replica_unused (notMem_empty seat)

/-- **A step keeps every replica at the last call, or the broadcast on its way to it.** -/
theorem good_next (hn : names.Nodup) (h : Good names s) {l : Label} (hown : Owned s l) (hs : s.next l = some s') :
    Good names s' := by
  cases l with
  | call i op now version =>
    obtain ⟨hrel, u, hseat, hv, heq⟩ := rel_call hn h.rel hown hs
    refine ⟨hrel, ?_⟩
    rw [heq]
    refine Lww.sound_write h.sound (Int.lt_of_le_of_lt (h.rel.dated _) hv) fun j hj hji => ?_
    exact mem_filter.mpr ⟨mem_range.mpr hj, decide_eq_true hji⟩
  | deliver k =>
    obtain ⟨hrel, x, hx, heq⟩ := rel_deliver h.rel hs
    refine ⟨hrel, ?_⟩
    rw [heq]
    refine Lww.sound_deliver h.sound (mem_map.mpr ⟨x, mem_of_getElem? hx, rfl⟩) (fun y hy => ?_) fun y hy hne => ?_
    all_goals obtain ⟨z, hz, rfl⟩ := mem_map.mp hy
    · exact mem_map_of_mem (mem_of_mem_eraseIdx hz)
    · exact mem_map_of_mem (mem_eraseIdx_of_ne hx hz fun h => hne (h ▸ rfl))

/-- **When all broadcasts have arrived every node has, for every user, the record of the last call.** -/
theorem views_converge (hn : names.Nodup) {ls : List Label} (hC : Along Net.next Owned (start names) ls)
    (hr : run Net.next (start names) ls = some s) (hf : s.flying = []) (hm : m ∈ s.members) (seat : Seat) :
    m.view seat = s.last seat := by
  have h : Good names s := run_inv (fun _ _ _ hg hc he => good_next hn hg hc he) (good_start names) hC hr
  obtain ⟨i, hi, rfl⟩ := mem_iff_getElem.mp hm
  have hlt : i < names.length := by
    rw [← h.rel.named, length_map]
    exact hi
  have hempty : s.replicas.flying = [] := congrArg (map _) hf
  have heq := h.sound.settled hempty hlt seat
  rw [replicas_some (getElem?_eq_getElem hi)] at heq
  have hlast : (s.replicas.latest seat).2 = s.last seat := by
    show ((s.latest.lookup seat).getD (0, none)).2 = _
    unfold Net.last
    cases s.latest.lookup seat with
    | none | some r => rfl
  rw [← hlast, ← heq]
  by_cases hu : seat ∈ s.latest
  · rw [replica_used hu]
  · rw [replica_unused hu]
    exact (h.rel.clean _ hm).view seat hu

end

/-! ## runs -/

def fairRun : List Label :=
  [.call 0 (.announce { roomID := "r", userID := "u" }) 1 1,
   .call 1 (.announce { roomID := "r", userID := "w" }) 2 2,
   .call 0 (.edit ("r", "u") (.cursor "7") none) 3 3,
   .call 1 (.leave ("r", "w")) 4 4,
   .deliver 3, .deliver 2, .deliver 1, .deliver 0]

theorem views_converge_fairRun : ∃ s ∈ run Net.next (start ["n1", "n2"]) fairRun,
    ∀ m ∈ s.members, ∀ seat, m.view seat = s.last seat := by
  have hC : Along Net.next Owned (start ["n1", "n2"]) fairRun := by decide +kernel
  have hend : ∃ s ∈ run Net.next (start ["n1", "n2"]) fairRun, s.flying = [] := by decide +kernel
  obtain ⟨s, hs, hf⟩ := hend
  exact ⟨s, hs, fun m hm seat => views_converge (by decide) hC hs hf hm seat⟩

/-- a record that is moved on another node still carries the first node's name, which takes it for its own echo -/
def echoRun : List Label :=
  [.call 0 (.announce { roomID := "r", userID := "u" }) 1 1, .deliver 0,
   .call 1 (.edit ("r", "u") (.cursor "7") none) 2 2, .deliver 0]

/-- **All broadcasts have arrived and the views differ.** -/
theorem echo_dropped : ∃ s ∈ run Net.next (start ["n1", "n2"]) echoRun, s.flying = [] ∧
    s.members.map (fun m => (m.view ("r", "u")).map Presence.cursor) = [some "", some "7"] ∧
    (s.last ("r", "u")).map Presence.cursor = some "7" := by decide +kernel

-- two users with one identifier: the broadcast of the first one is taken for a stale version of the second
example : ∃ s ∈ run Net.next (start ["n1", "n2"]) [.call 0 (.announce { roomID := "a", userID := "b|c" }) 1 1,
     .call 1 (.announce { roomID := "a|b", userID := "c" }) 2 2, .deliver 0, .deliver 0],
    s.flying = [] ∧ s.members.map (fun m => (m.view ("a", "b|c")).isSome) = [true, false] := by decide +kernel

-- an announcement that is marked as left stays in the view of its own node only
example : ∃ s ∈ run Net.next (start ["n1", "n2"])
    [.call 0 (.announce { roomID := "r", userID := "u", left := true }) 1 1, .deliver 0],
    s.flying = [] ∧ s.members.map (fun m => (m.view ("r", "u")).isSome) = [true, false] := by decide +kernel

end Cache.Rooms
