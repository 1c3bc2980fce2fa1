import Cpip.Lib.Debt

/-!
# Output limits of one execution

The two `LimitBuffer`s of an execution with the counter they share.  A `Write` runs under the lock of its own buffer;
the load of the shared counter and the later addition to it are steps of their own.

* `stage_intact`  **a step of `Write` keeps its buffer intact**;
* `output_limits`  **the limits are hard**, see also `budget_spent_twice`.
-/

namespace Runtime

open Pool Function List Lts

inductive Stream where
  | stdout
  | stderr
deriving DecidableEq

structure Limits where
  maxStdoutSize : Int
  maxStderrSize : Int
  maxOutputSize : Int

variable (lim : Limits)

def Limits.limit : Stream → Int
  | .stdout => lim.maxStdoutSize
  | .stderr => lim.maxStderrSize

/-- a `LimitBuffer`; `given` has the bytes of every `Write` that got the lock, `streamed` those passed to `onChunk` -/
structure LimitBuffer where
  buf : List UInt8 := []
  written : Int := 0
  overflown : Bool := false
  locked : Bool := false
  given : List UInt8 := []
  streamed : List UInt8 := []

structure Output where
  buffer : Stream → LimitBuffer := fun _ => {}
  sharedCount : Int := 0

inductive Stage where
  | start
  | load (individualLeft : Int)
  | capture (allowed : Int)
  | add (allowed : Int)
  | chunk (allowed : Int)
  | done (n : Int) (exceeded : Bool)

/-- `LimitBuffer.Write`: the next step on the buffer and the shared counter -/
def Stage.step (limit sharedLimit : Int) (p : List UInt8) (b : LimitBuffer) (count : Int) :
    Stage → Option (Stage × LimitBuffer × Int)
  | .start =>
    if b.locked then none
    else if b.overflown then some (.done 0 true, { b with given := b.given ++ p }, count)
    else if p.length = 0 then some (.done 0 false, { b with given := b.given ++ p }, count)
    else if limit - b.written ≤ 0 then
      some (.done 0 true, { b with given := b.given ++ p, overflown := true }, count)
    else some (.load (limit - b.written), { b with given := b.given ++ p, locked := true }, count)
  | .load individualLeft =>
    if sharedLimit - count ≤ 0 then some (.done 0 true, { b with overflown := true, locked := false }, count)
    else some (.capture (min (min p.length individualLeft) (sharedLimit - count)), b, count)
  | .capture allowed =>
    if allowed < p.length then
      if 0 < allowed then
        some (.add allowed,
          { b with overflown := true, buf := b.buf ++ p.take allowed.toNat, written := b.written + allowed }, count)
      else some (.done allowed true, { b with overflown := true, locked := false }, count)
    else some (.add p.length, { b with buf := b.buf ++ p, written := b.written + p.length }, count)
  | .add allowed => some (.chunk allowed, b, count + allowed)
  | .chunk allowed =>
    some (.done allowed (allowed < p.length),
      { b with streamed := b.streamed ++ p.take allowed.toNat, locked := false }, count)
  | .done _ _ => none

structure Call where
  stream : Stream
  p : List UInt8

structure Thread where
  call : Call
  stage : Stage

def writes : Prog Call Output Thread Unit where
  start c := ⟨c, .start⟩
  step t s _ :=
    (t.stage.step (lim.limit t.call.stream) lim.maxOutputSize t.call.p (s.buffer t.call.stream) s.sharedCount).map
      fun r => (⟨t.call, r.1⟩, ⟨update s.buffer t.call.stream r.2.1, r.2.2⟩)

theorem writes_step {lim : Limits} {t t' : Thread} {s m : Output} {a : Unit}
    (h : (writes lim).step t s a = some (t', m)) :
    ∃ stage b count, t.stage.step (lim.limit t.call.stream) lim.maxOutputSize t.call.p (s.buffer t.call.stream)
        s.sharedCount = some (stage, b, count) ∧
      t' = ⟨t.call, stage⟩ ∧ m = ⟨update s.buffer t.call.stream b, count⟩ := by
  obtain ⟨⟨stage, b, count⟩, hs, heq⟩ := Option.map_eq_some_iff.mp h
  cases heq
  exact ⟨stage, b, count, hs, rfl, rfl⟩

/-! ## one buffer -/

structure Intact (limit : Int) (b : LimitBuffer) : Prop where
  written : b.written = b.buf.length
  bound : (b.buf.length : Int) ≤ max limit 0
  given : b.buf <+: b.given
  streamed : b.streamed <+: b.buf
  whole : b.locked = false → b.overflown = false → b.buf = b.given
  sent : b.locked = false → b.streamed = b.buf

/-- the call has captured `allowed` bytes that it has not sent on -/
def Captured (p : List UInt8) (b : LimitBuffer) (allowed : Int) : Prop :=
  b.locked = true ∧ b.buf = b.streamed ++ p.take allowed.toNat ∧ (b.overflown = false → b.buf = b.given)

def At (limit : Int) (p : List UInt8) (b : LimitBuffer) : Stage → Prop
  | .start | .done _ _ => True
  | .load left => b.locked = true ∧ b.given = b.buf ++ p ∧ b.streamed = b.buf ∧ 0 < left ∧ left = limit - b.written ∧
      p ≠ []
  | .capture allowed => b.locked = true ∧ b.given = b.buf ++ p ∧ b.streamed = b.buf ∧ 0 < allowed ∧
      allowed ≤ p.length ∧ allowed ≤ limit - b.written
  | .add allowed => Captured p b allowed
  | .chunk allowed => Captured p b allowed

section
variable {limit sharedLimit count count' : Int} {p : List UInt8} {b b' : LimitBuffer} {stage stage' : Stage}

/-- the buffer takes the first bytes of `p` -/
theorem capture_intact {q : List UInt8} (hb : Intact limit b) (hq : q <+: p) (hgiven : b.given = b.buf ++ p)
    (hsent : b.streamed = b.buf) (hlocked : b.locked = true) (hroom : (q.length : Int) ≤ limit - b.written)
    {o : Bool} : Intact limit { b with overflown := o, buf := b.buf ++ q, written := b.written + q.length } := by
  have hlen : (b.written : Int) = b.buf.length := hb.written
  refine ⟨?_, ?_, ?_, ?_, fun h => ?_, fun h => ?_⟩
  · show b.written + q.length = ((b.buf ++ q).length : Int)
    rw [length_append, hlen]
    push_cast
    rfl
  · show ((b.buf ++ q).length : Int) ≤ max limit 0
    rw [length_append]
    push_cast
    omega
  · show b.buf ++ q <+: b.given
    rw [hgiven]
    exact (prefix_append_right_inj b.buf).mpr hq
  · show b.streamed <+: b.buf ++ q
    rw [hsent]
    exact prefix_append ..
  · cases hlocked.symm.trans h
  · cases hlocked.symm.trans h

/-- **a step of `Write` keeps its buffer intact** and what the call knows of it -/
theorem stage_intact (hb : Intact limit b) (ht : At limit p b stage)
    (h : stage.step limit sharedLimit p b count = some (stage', b', count')) :
    Intact limit b' ∧ At limit p b' stage' := by
  cases stage with
  | start =>
    have hgiven : b.buf <+: b.given ++ p := hb.given.trans (prefix_append ..)
    dsimp only [Stage.step] at h
    split at h
    · cases h
    next hlocked =>
    have hfree : b.locked = false := Bool.eq_false_iff.mpr hlocked
    split at h
    · next hover =>
      cases h
      exact ⟨⟨hb.written, hb.bound, hgiven, hb.streamed, fun _ h => absurd (hover.symm.trans h) Bool.noConfusion,
        hb.sent⟩, trivial⟩
    · next hover =>
      have hwhole : b.buf = b.given := hb.whole hfree (Bool.eq_false_iff.mpr hover)
      split at h
      · next hnil =>
        cases h
        cases eq_nil_of_length_eq_zero hnil
        refine ⟨⟨hb.written, hb.bound, hgiven, hb.streamed, fun _ _ => ?_, hb.sent⟩, trivial⟩
        show b.buf = b.given ++ []
        rw [append_nil, hwhole]
      · next hne =>
        split at h
        · cases h
          exact ⟨⟨hb.written, hb.bound, hgiven, hb.streamed, nofun, hb.sent⟩, trivial⟩
        next hleft =>
        cases h
        refine ⟨⟨hb.written, hb.bound, hgiven, hb.streamed, nofun, nofun⟩, rfl, ?_,
          hb.sent hfree, by omega, rfl, fun hp => hne (by rw [hp]; rfl)⟩
        show b.given ++ p = b.buf ++ p
        rw [hwhole]
  | load left =>
    obtain ⟨hlocked, hgiven, hsent, hpos, hleft, hne⟩ := ht
    dsimp only [Stage.step] at h
    split at h
    · cases h
      exact ⟨⟨hb.written, hb.bound, hb.given, hb.streamed, nofun, fun _ => hsent⟩, trivial⟩
    next hshared =>
    cases h
    have hlen : 0 < p.length := length_pos_iff.mpr hne
    exact ⟨hb, hlocked, hgiven, hsent, by omega, by omega, by omega⟩
  | capture allowed =>
    obtain ⟨hlocked, hgiven, hsent, hpos, hle, hroom⟩ := ht
    dsimp only [Stage.step] at h
    split at h
    · next hlt =>
      cases h
      have hlen : ((p.take allowed.toNat).length : Int) = allowed := by
        rw [length_take]
        omega
      have hintact := capture_intact (o := true) hb (List.take_prefix allowed.toNat p) hgiven hsent hlocked
        (by rw [hlen]; exact hroom)
      rw [hlen] at hintact
      refine ⟨hintact, hlocked, ?_, nofun⟩
      show b.buf ++ _ = b.streamed ++ _
      rw [hsent]
    · next hge =>
      cases h
      have hall : allowed = p.length := by omega
      refine ⟨capture_intact (o := b.overflown) hb prefix_rfl hgiven hsent hlocked (hall ▸ hroom), hlocked, ?_,
        fun _ => hgiven.symm⟩
      show b.buf ++ p = b.streamed ++ p.take (Int.toNat p.length)
      rw [hsent, Int.toNat_natCast, take_length]
  | add allowed =>
    cases h
    exact ⟨hb, ht⟩
  | chunk allowed =>
    cases h
    obtain ⟨hlocked, hbuf, hwhole⟩ := ht
    exact ⟨⟨hb.written, hb.bound, hb.given, hbuf ▸ prefix_rfl, fun _ => hwhole, fun _ => hbuf.symm⟩, trivial⟩
  | done n exceeded => cases h

end

/-! ## every run -/

def Thread.holds (t : Thread) : Bool :=
  match t.stage with
  | .start | .done _ _ => false
  | .load _ | .capture _ | .add _ | .chunk _ => true

/-- the buffers are intact, each call knows its buffer, and a lock has one holder -/
abbrev BuffersInv : Sys Output Thread → Prop :=
  Inv (fun s => ∀ st, Intact (lim.limit st) (s.buffer st))
    (fun s t => At (lim.limit t.call.stream) t.call.p (s.buffer t.call.stream) t.stage)
    fun _ t u => t.holds = true → u.holds = true → t.call.stream ≠ u.call.stream

section
variable {lim : Limits} {s m : Output} {t t' u : Thread} {a : Unit}

theorem at_free {limit : Int} {b : LimitBuffer} (h : t.holds = false) : At limit t.call.p b t.stage := by
  obtain ⟨c, stage⟩ := t
  cases stage with
  | start | done _ _ => trivial
  | _ => cases h

theorem at_locked {limit : Int} {b : LimitBuffer} (h : t.holds = true) (hat : At limit t.call.p b t.stage) :
    b.locked = true := by
  obtain ⟨c, stage⟩ := t
  cases stage with
  | start | done _ _ => cases h
  | _ => exact hat.1

theorem moves_of_step (h : (writes lim).step t s a = some (t', m)) :
    t.holds = true ∨ (s.buffer t.call.stream).locked = false := by
  obtain ⟨stage, b, count, hs, -, -⟩ := writes_step h
  obtain ⟨c, stage₀⟩ := t
  cases stage₀ with
  | start =>
    dsimp only [Stage.step] at hs
    split at hs
    · cases hs
    · next hl => exact .inr (Bool.eq_false_iff.mpr hl)
  | load _ | capture _ | add _ | chunk _ => exact .inl rfl
  | done _ _ => cases hs

theorem buffersInv_next (sys : Sys Output Thread) (l : Act Call Unit) (sys' : Sys Output Thread)
    (hi : BuffersInv lim sys) (hn : (writes lim).next sys l = some sys') : BuffersInv lim sys' := by
  refine inv_next (C := fun _ _ => True) ⟨fun s i c _ _ => ⟨trivial, fun j u _ => ?_⟩, ?_⟩ sys l sys' hi trivial hn
  · exact ⟨nofun, nofun⟩
  intro s i a t t' m hi _ ht hs
  -- another call that has a lock has the lock of the other buffer
  have hapart : ∀ j u, j ≠ i → s.pool j = some u → u.holds = true → u.call.stream ≠ t.call.stream := by
    intro j u hj hu hh
    cases moves_of_step hs with
    | inl hth => exact hi.pair j i u t hj hu ht hh hth
    | inr hfree =>
      intro hst
      have hlocked := at_locked hh (hi.each j u hu)
      rw [hst] at hlocked
      cases hlocked.symm.trans hfree
  obtain ⟨stage, b, count, hstage, rfl, rfl⟩ := writes_step hs
  obtain ⟨hb, hat⟩ := stage_intact (hi.shared t.call.stream) (hi.each i t ht) hstage
  refine ⟨fun st => ?_, ?_, fun j u hj hu => ?_, fun j u hj hu _ hh => (hapart j u hj hu hh).symm,
    fun j u hj hu hh _ => hapart j u hj hu hh, fun j k u w _ _ hjk hu hw => hi.pair j k u w hjk hu hw⟩
  · dsimp only
    by_cases hst : st = t.call.stream
    · subst hst
      rw [update_self]
      exact hb
    · rw [update_of_ne hst]
      exact hi.shared st
  · dsimp only
    rw [update_self]
    exact hat
  · cases hh : u.holds with
    | false => exact at_free hh
    | true =>
      dsimp only
      rw [update_of_ne (hapart j u hj hu hh)]
      exact hi.each j u hu

end

/-! ## the combined limit -/

/-- the call has loaded the shared counter and not yet added to it -/
def Stage.spends : Stage → Bool
  | .capture _ | .add _ => true
  | .start | .load _ | .chunk _ | .done _ _ => false

/-- a call loads the shared counter only when no other is between its load and its addition -/
def Alone (sys : Sys Output Thread) : Act Call Unit → Prop
  | .spawn _ _ => True
  | .step i _ => ∀ t ∈ sys.pool i, (t.stage matches .load _) = true →
      ∀ j u, j ≠ i → sys.pool j = some u → u.stage.spends = false

def Output.captured (s : Output) : Int := (s.buffer .stdout).buf.length + (s.buffer .stderr).buf.length

theorem captured_update (s : Output) (st : Stream) (b : LimitBuffer) (count : Int) :
    (Output.mk (update s.buffer st b) count).captured = s.captured - (s.buffer st).buf.length + b.buf.length := by
  cases st with
  | stdout =>
    show ((update s.buffer .stdout b .stdout).buf.length : Int) + (update s.buffer .stdout b .stderr).buf.length = _
    rw [update_self, update_of_ne Stream.noConfusion]
    unfold Output.captured
    omega
  | stderr =>
    show ((update s.buffer .stderr b .stdout).buf.length : Int) + (update s.buffer .stderr b .stderr).buf.length = _
    rw [update_self, update_of_ne Stream.noConfusion]
    unfold Output.captured
    omega

section
variable {limit sharedLimit count count' : Int} {p : List UInt8} {b b' : LimitBuffer} {stage stage' : Stage}

theorem budget_cases (ht : At limit p b stage)
    (h : stage.step limit sharedLimit p b count = some (stage', b', count')) :
    (stage.spends = false ∧ b'.buf = b.buf ∧ count' = count ∧ (stage'.spends = false ∨
        ∃ left a, stage = .load left ∧ stage' = .capture a ∧ count + a ≤ max sharedLimit 0)) ∨
    (∃ a, stage = .capture a ∧ stage' = .add a ∧ (b'.buf.length : Int) = b.buf.length + a ∧ count' = count) ∨
    ∃ a, stage = .add a ∧ stage' = .chunk a ∧ b'.buf = b.buf ∧ count' = count + a := by
  cases stage with
  | start =>
    left
    dsimp only [Stage.step] at h
    split at h
    · cases h
    split at h
    · cases h
      exact ⟨rfl, rfl, rfl, .inl rfl⟩
    split at h
    · cases h
      exact ⟨rfl, rfl, rfl, .inl rfl⟩
    · split at h <;> cases h <;> exact ⟨rfl, rfl, rfl, .inl rfl⟩
  | load left =>
    left
    dsimp only [Stage.step] at h
    split at h
    · cases h
      exact ⟨rfl, rfl, rfl, .inl rfl⟩
    · cases h
      exact ⟨rfl, rfl, rfl, .inr ⟨left, _, rfl, rfl, by omega⟩⟩
  | capture allowed =>
    right
    left
    obtain ⟨-, -, -, hpos, hle, -⟩ := ht
    dsimp only [Stage.step] at h
    split at h
    · cases h
      refine ⟨allowed, rfl, rfl, ?_, rfl⟩
      show ((b.buf ++ p.take allowed.toNat).length : Int) = b.buf.length + allowed
      rw [length_append, length_take]
      omega
    · next hge =>
      cases h
      have hall : allowed = p.length := by omega
      subst hall
      refine ⟨p.length, rfl, rfl, ?_, rfl⟩
      show ((b.buf ++ p).length : Int) = b.buf.length + p.length
      rw [length_append]
      omega
  | add allowed =>
    cases h
    exact .inr (.inr ⟨allowed, rfl, rfl, rfl, rfl⟩)
  | chunk allowed =>
    cases h
    exact .inl ⟨rfl, rfl, rfl, .inl rfl⟩
  | done n exceeded => cases h

end

/-- what a call that spends knows of the counter -/
def Fits (bound : Int) (s : Output) (t : Thread) : Prop :=
  match t.stage with
  | .capture allowed => s.sharedCount + allowed ≤ bound
  | .add allowed => s.sharedCount + allowed = s.captured
  | .start | .load _ | .chunk _ | .done _ _ => True

theorem fits_quiet {bound : Int} {s : Output} {t : Thread} (h : t.stage.spends = false) : Fits bound s t := by
  obtain ⟨c, stage⟩ := t
  cases stage with
  | start | load _ | chunk _ | done _ _ => trivial
  | capture _ | add _ => cases h

theorem fits_same {bound : Int} {s m : Output} {t : Thread} (hcount : m.sharedCount = s.sharedCount)
    (hcaptured : m.captured = s.captured) (h : Fits bound s t) : Fits bound m t := by
  unfold Fits at h ⊢
  rw [hcount, hcaptured]
  exact h

/-- the captured bytes are within the limit, and one call at a time spends -/
abbrev BudgetInv : Sys Output Thread → Prop :=
  Inv (fun s => s.captured ≤ max lim.maxOutputSize 0) (Fits (max lim.maxOutputSize 0))
    fun _ t u => t.stage.spends = true → u.stage.spends = false

abbrev Counted : Sys Output Thread → Prop :=
  Owed (fun s (_ : Unit) => s.sharedCount = s.captured) fun _ t _ => (t.stage matches .add _) = true

section
variable {lim : Limits}

theorem spends_of_add {t : Thread} (h : (t.stage matches .add _) = true) : t.stage.spends = true := by
  obtain ⟨c, stage⟩ := t
  cases stage with
  | add _ => rfl
  | _ => cases h

theorem budget_step {sys : Sys Output Thread} {i : Nat} {a : Unit} {t t' : Thread} {m : Output}
    (hbuf : BuffersInv lim sys) (hi : BudgetInv lim sys) (hcount : Counted sys) (halone : Alone sys (.step i a))
    (ht : sys.pool i = some t) (hs : (writes lim).step t sys.shared a = some (t', m)) :
    BudgetInv lim ⟨m, update sys.pool i (some t')⟩ ∧ Counted ⟨m, update sys.pool i (some t')⟩ := by
  obtain ⟨stage, b, count, hstage, rfl, rfl⟩ := writes_step hs
  have hcaptured := captured_update sys.shared t.call.stream b count
  have hothers : ∀ j k u w, j ≠ i → k ≠ i → j ≠ k → sys.pool j = some u → sys.pool k = some w →
      u.stage.spends = true → w.stage.spends = false := fun j k u w _ _ hjk hu hw => hi.pair j k u w hjk hu hw
  rcases budget_cases (hbuf.each i t ht) hstage with
    ⟨hquiet, hbytes, rfl, hnext⟩ | ⟨allowed, hcap, rfl, hbytes, rfl⟩ | ⟨allowed, hadd, rfl, hbytes, rfl⟩
  · -- nothing is captured and nothing is added
    rw [hbytes, Int.sub_add_cancel] at hcaptured
    have hfree : stage.spends = true → ∀ j u, j ≠ i → sys.pool j = some u → u.stage.spends = false := by
      intro hsp j u hj hu
      cases hnext with
      | inl hno => cases hno.symm.trans hsp
      | inr hload =>
        obtain ⟨left, a, hstage, -, -⟩ := hload
        exact halone t ht (by rw [hstage]) j u hj hu
    refine ⟨inv_step ⟨?_, ?_, fun j u _ hu => fits_same (s := sys.shared) rfl hcaptured (hi.each j u hu),
      fun j u hj hu hsp => hfree hsp j u hj hu, fun j u hj hu hsp => ?_, hothers⟩, owed_step ht (fun _ => ?_) hcount⟩
    · rw [hcaptured]
      exact hi.shared
    · cases hnext with
      | inl hno => exact fits_quiet hno
      | inr hload =>
        obtain ⟨left, a, -, rfl, hroom⟩ := hload
        exact hroom
    · cases hst : stage.spends with
      | false => rfl
      | true => cases hsp.symm.trans (hfree hst j u hj hu)
    · refine .leaves (fun hf => hf.trans hcaptured.symm) (fun ho => ?_) fun _ ho => ho
      cases hquiet.symm.trans (spends_of_add ho)
  · -- nobody else spends, so the counter is exact
    have hsp : t.stage.spends = true := by rw [hcap]; rfl
    have hfree : ∀ j u, j ≠ i → sys.pool j = some u → u.stage.spends = false :=
      fun j u hj hu => hi.pair i j t u hj.symm ht hu hsp
    have hexact : sys.shared.sharedCount = sys.shared.captured := by
      refine hcount.fine (x := ()) fun j u hu ho => ?_
      by_cases hj : j = i
      · subst hj
        cases ht.symm.trans hu
        rw [hcap] at ho
        cases ho
      · cases (hfree j u hj hu).symm.trans (spends_of_add ho)
    have hfits : sys.shared.sharedCount + allowed ≤ max lim.maxOutputSize 0 := by
      have hf := hi.each i t ht
      unfold Fits at hf
      rw [hcap] at hf
      exact hf
    refine ⟨inv_step ⟨?_, ?_, fun j u hj hu => fits_quiet (hfree j u hj hu), fun j u hj hu _ => hfree j u hj hu,
      fun j u hj hu hsp => ?_, hothers⟩, owed_step ht (fun _ => .settles (.inr rfl)) hcount⟩
    · rw [hcaptured]
      omega
    · show sys.shared.sharedCount + allowed = _
      omega
    · cases hsp.symm.trans (hfree j u hj hu)
  · -- the counter catches up
    have hsp : t.stage.spends = true := by rw [hadd]; rfl
    have hfree : ∀ j u, j ≠ i → sys.pool j = some u → u.stage.spends = false :=
      fun j u hj hu => hi.pair i j t u hj.symm ht hu hsp
    rw [hbytes, Int.sub_add_cancel] at hcaptured
    have hbehind : sys.shared.sharedCount + allowed = sys.shared.captured := by
      have hf := hi.each i t ht
      unfold Fits at hf
      rw [hadd] at hf
      exact hf
    refine ⟨inv_step ⟨?_, trivial, fun j u hj hu => fits_quiet (hfree j u hj hu), nofun,
      fun _ _ _ _ _ => rfl, hothers⟩, owed_step ht (fun _ => .settles (.inl (hbehind.trans hcaptured.symm))) hcount⟩
    rw [hcaptured]
    exact hi.shared

theorem budget_next (sys : Sys Output Thread) (l : Act Call Unit) (sys' : Sys Output Thread)
    (hi : BuffersInv lim sys ∧ BudgetInv lim sys ∧ Counted sys) (halone : Alone sys l)
    (hn : (writes lim).next sys l = some sys') : BuffersInv lim sys' ∧ BudgetInv lim sys' ∧ Counted sys' := by
  refine ⟨buffersInv_next sys l sys' hi.1 hn, ?_⟩
  cases l with
  | spawn i c =>
    obtain ⟨hnone, rfl⟩ := next_spawn hn
    refine ⟨inv_spawn hi.2.1 trivial fun j u _ => ⟨nofun, fun _ => rfl⟩, fun x => ?_⟩
    refine (hi.2.2 x).imp_right fun ⟨j, u, hu, ho⟩ => ⟨j, u, ?_, ho⟩
    have hj : j ≠ i := by
      rintro rfl
      cases hnone.symm.trans hu
    show update sys.pool i _ j = some u
    rw [update_of_ne hj]
    exact hu
  | step i a =>
    obtain ⟨t, t', m, ht, hs, rfl⟩ := next_step hn
    exact budget_step hi.1 hi.2.1 hi.2.2 halone ht hs

theorem buffersInv_idle : BuffersInv lim (idle {}) :=
  inv_idle fun st =>
    ⟨rfl, by show (0 : Int) ≤ max _ 0; omega, prefix_rfl, prefix_rfl, fun _ _ => rfl, fun _ => rfl⟩

theorem captured_le {acts : List (Act Call Unit)} {sys : Sys Output Thread}
    (hrun : run (writes lim).next (idle {}) acts = some sys)
    (halone : Along (writes lim).next Alone (idle {}) acts) : sys.shared.captured ≤ max lim.maxOutputSize 0 := by
  have h0 : BuffersInv lim (idle {}) ∧ BudgetInv lim (idle {}) ∧ Counted (idle {}) := by
    refine ⟨buffersInv_idle, inv_idle ?_, owed_idle fun _ => rfl⟩
    show (0 : Int) ≤ max _ 0
    omega
  exact (run_inv budget_next h0 halone hrun).2.1.shared

theorem streamed_le {s : Output} (h : ∀ st, Intact (lim.limit st) (s.buffer st)) (st : Stream) :
    ((s.buffer st).streamed.length : Int) ≤ (s.buffer st).buf.length := by
  have hle := (h st).streamed.length_le
  omega

end

/-- **The limits of the streams are hard**; so is the combined limit in every run in which loads are alone. -/
theorem output_limits (lim : Limits) {acts : List (Act Call Unit)} {sys : Sys Output Thread}
    (hrun : run (writes lim).next (idle {}) acts = some sys) :
    (∀ st, ((sys.shared.buffer st).buf.length : Int) ≤ max (lim.limit st) 0 ∧
      ((sys.shared.buffer st).streamed.length : Int) ≤ max (lim.limit st) 0 ∧
      (sys.shared.buffer st).buf <+: (sys.shared.buffer st).given ∧
      (sys.shared.buffer st).streamed <+: (sys.shared.buffer st).buf) ∧
    (Along (writes lim).next Alone (idle {}) acts →
      ((sys.shared.buffer .stdout).buf.length + (sys.shared.buffer .stderr).buf.length : Int) ≤
        max lim.maxOutputSize 0 ∧
      ((sys.shared.buffer .stdout).streamed.length + (sys.shared.buffer .stderr).streamed.length : Int) ≤
        max lim.maxOutputSize 0) := by
  have hinv : BuffersInv lim sys := run_inv_all buffersInv_next buffersInv_idle hrun
  refine ⟨fun st => ?_, fun halone => ?_⟩
  · have hb := hinv.shared st
    exact ⟨hb.bound, Int.le_trans (streamed_le hinv.shared st) hb.bound, hb.given, hb.streamed⟩
  have hcaptured := captured_le hrun halone
  have hout := streamed_le hinv.shared .stdout
  have herr := streamed_le hinv.shared .stderr
  unfold Output.captured at hcaptured
  exact ⟨hcaptured, by omega⟩

def smallLimits : Limits := ⟨3, 3, 4⟩

def aloneRun : List (Act Call Unit) :=
  [.spawn 0 ⟨.stdout, [1, 2, 3]⟩, .spawn 1 ⟨.stderr, [4, 5, 6]⟩, .step 1 (), .step 0 (), .step 0 (), .step 0 (),
    .step 0 (), .step 1 (), .step 1 (), .step 0 (), .step 1 (), .step 1 ()]

theorem output_limits_aloneRun : ∃ sys, run (writes smallLimits).next (idle {}) aloneRun = some sys ∧
      (sys.shared.buffer .stderr).buf = [4] ∧
      ((sys.shared.buffer .stdout).buf.length + (sys.shared.buffer .stderr).buf.length : Int) ≤ 4 := by
  have halone : Along (writes smallLimits).next Alone (idle {}) aloneRun :=
    along_pairs (n := 2)
      (D := fun _ i t j u => j ≠ i → (t.stage matches .load _) = true → u.stage.spends = false) (fun _ _ _ => trivial)
      (fun _ _ _ h t ht hload j u hj hu => h t j u ht hu hj hload) (by decide) (by decide +kernel)
  exact exists_run_and (by decide +kernel) fun sys hrun _ => ((output_limits smallLimits hrun).2 halone).1

/-- both streams load the counter before either adds to it -/
def twiceRun : List (Act Call Unit) :=
  [.spawn 0 ⟨.stdout, [1, 2, 3]⟩, .spawn 1 ⟨.stderr, [4, 5, 6]⟩, .step 0 (), .step 1 (), .step 0 (), .step 1 (),
    .step 0 (), .step 1 (), .step 0 (), .step 1 (), .step 0 (), .step 1 ()]

/-- six bytes are captured and sent on under a combined limit of four -/
theorem budget_spent_twice : ∃ sys ∈ run (writes smallLimits).next (idle {}) twiceRun,
      sys.shared.captured = 6 ∧ (sys.shared.buffer .stdout).streamed = [1, 2, 3] ∧
      (sys.shared.buffer .stderr).streamed = [4, 5, 6] := by
  decide +kernel

end Runtime
