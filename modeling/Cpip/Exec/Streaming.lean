import Cpip.Exec.Output

/-!
# Streamed output of one execution

The chunks go through the channels as slices of the arrays of the runner.

* `streamed_faithful`  **the chunks received are the bytes accepted**, see also `chunk_overwritten`.
-/

namespace Runtime

open Lts Function List

structure Slice where
  array : Nat
  off : Nat
  len : Nat

abbrev Arrays := Nat → List UInt8

def Slice.bytes (mem : Arrays) (x : Slice) : List UInt8 := ((mem x.array).drop x.off).take x.len

/-- a channel; `accepted` has the bytes of every chunk when it was accepted, and whether it was queued -/
structure Channel where
  queue : List Slice := []
  received : List (List UInt8) := []
  accepted : List (List UInt8 × Bool) := []

def Channel.sent (c : Channel) : List (List UInt8) := (c.accepted.filter (·.2)).map (·.1)

/-- what was queued is what was received and what the queued chunks are now -/
def Channel.Right (mem : Arrays) (c : Channel) : Prop := c.sent = c.received ++ c.queue.map (Slice.bytes mem)

variable (lim : Limits) (bufSize : Int)

def capacity : Nat := if bufSize ≤ 0 then 100 else bufSize.toNat

/-- `WriteStdout` and `WriteStderr` -/
def Channel.write (c : Channel) (closed : Bool) (x : Slice) (p : List UInt8) : Channel :=
  if closed = false ∧ c.queue.length < capacity bufSize then
    { c with queue := c.queue ++ [x], accepted := c.accepted ++ [(p, true)] }
  else { c with accepted := c.accepted ++ [(p, false)] }

/-- the runner with its arrays and its `Write` calls, and the `StreamManager` -/
structure Streaming where
  mem : Arrays := fun _ => []
  out : Output := {}
  calls : Stream → Option (Slice × Thread) := fun _ => none
  channels : Stream → Channel := fun _ => {}
  closed : Bool := false

namespace Streaming

variable (s : Streaming)

/-- an array of a `Write` that has not returned -/
def inUse (array : Nat) : Bool :=
  (s.calls .stdout).any (·.1.array = array) || (s.calls .stderr).any (·.1.array = array)

inductive Event where
  | store (array : Nat) (data : List UInt8)
  | write (st : Stream) (x : Slice)
  | step (st : Stream)
  | receive (st : Stream)
  | close

def next : Event → Option Streaming
  | .store array data => if s.inUse array then none else some { s with mem := update s.mem array data }
  | .write st x =>
    if (s.calls st).isSome then none
    else some { s with calls := update s.calls st (some (x, ⟨⟨st, x.bytes s.mem⟩, .start⟩)) }
  | .step st =>
    (s.calls st).bind fun c => ((writes lim).step c.2 s.out ()).map fun r => { s with
      out := r.2
      calls := update s.calls st (match r.1.stage with | .done _ _ => none | _ => some (c.1, r.1))
      -- `onChunk` gets `p[:allowed]`
      channels := match c.2.stage with
        | .chunk allowed => update s.channels st ((s.channels st).write bufSize s.closed
            { c.1 with len := min allowed.toNat c.1.len } (c.2.call.p.take allowed.toNat))
        | _ => s.channels }
  | .receive st =>
    match (s.channels st).queue with
    | [] => none
    | x :: queue =>
      let c := s.channels st
      some { s with channels := update s.channels st { c with queue, received := c.received ++ [x.bytes s.mem] } }
  | .close => some { s with closed := true }

/-- an array is not used again while a chunk of it is queued -/
def Spared : Event → Prop
  | .store array _ => ∀ x ∈ (s.channels .stdout).queue ++ (s.channels .stderr).queue, x.array ≠ array
  | _ => True

instance : ∀ e, Decidable (Spared s e) := by
  intro e
  unfold Spared
  split <;> infer_instance

structure Faithful : Prop where
  calls : ∀ st c, s.calls st = some c → c.2.call.p = c.1.bytes s.mem
  channels : ∀ st, (s.channels st).Right s.mem

variable {lim bufSize} {s}

theorem right_write {mem : Arrays} {c : Channel} {closed : Bool} {x : Slice} {p : List UInt8} (h : c.Right mem)
    (hp : p = x.bytes mem) : (c.write bufSize closed x p).Right mem := by
  unfold Channel.Right Channel.sent at *
  unfold Channel.write
  split <;> simp [h, hp]

theorem right_update {channels : Stream → Channel} {mem : Arrays} {st : Stream} {c : Channel}
    (h : ∀ st, (channels st).Right mem) (hc : c.Right mem) (st' : Stream) : (update channels st c st').Right mem := by
  rw [update_apply]
  split
  · exact hc
  · exact h st'

theorem faithful_next (s : Streaming) (e : Event) (s' : Streaming) (h : Faithful s) (hC : Spared s e)
    (hs : s.next lim bufSize e = some s') : Faithful s' := by
  cases e with
  | store array data =>
    simp only [next, Option.ite_none_left_eq_some] at hs
    obtain ⟨hfree, hs⟩ := hs
    cases hs
    have hsame : ∀ x : Slice, x.array ≠ array → x.bytes (update s.mem array data) = x.bytes s.mem := by
      intro x hx
      simp only [Slice.bytes, update_of_ne hx]
    refine ⟨fun st c hc => ?_, fun st => ?_⟩
    · refine (h.calls st c hc).trans (hsame c.1 fun heq => hfree ?_).symm
      cases st <;> simp [inUse, show s.calls _ = some c from hc, heq]
    · refine (h.channels st).trans (congrArg _ (map_congr_left fun x hx => (hsame x (hC x ?_)).symm))
      cases st
      · exact mem_append_left _ hx
      · exact mem_append_right _ hx
  | write st x =>
    simp only [next, Option.ite_none_left_eq_some] at hs
    cases hs.2
    refine ⟨fun st' c hc => ?_, h.channels⟩
    by_cases hst : st' = st
    · subst hst
      cases (update_self ..).symm.trans hc
      rfl
    · exact h.calls st' c ((update_of_ne hst ..).symm.trans hc)
  | step st =>
    simp only [next, Option.bind_eq_some_iff, Option.map_eq_some_iff] at hs
    obtain ⟨⟨x, t⟩, hcall, ⟨t', m⟩, hstep, rfl⟩ := hs
    obtain ⟨stage, b, count, -, rfl, rfl⟩ := writes_step hstep
    have hp : t.call.p = x.bytes s.mem := h.calls st _ hcall
    refine ⟨fun st' c hc => ?_, ?_⟩
    · by_cases hst : st' = st
      · subst hst
        have hc := (update_self ..).symm.trans hc
        split at hc
        · cases hc
        · cases hc
          exact hp
      · exact h.calls st' c ((update_of_ne hst ..).symm.trans hc)
    · dsimp only
      cases t.stage with
      | chunk allowed =>
        refine right_update h.channels (right_write (h.channels st) ?_)
        rw [hp]
        exact take_take
      | _ => exact h.channels
  | receive st =>
    simp only [next] at hs
    split at hs
    · cases hs
    · next x queue hq =>
      cases hs
      have hright := h.channels st
      refine ⟨h.calls, right_update h.channels ?_⟩
      unfold Channel.Right at *
      rw [hq] at hright
      simpa [Channel.sent] using hright
  | close =>
    cases hs
    exact ⟨h.calls, h.channels⟩

/-- **What is received is, in order, what was queued**, when no array is used again while a chunk of it is queued. -/
theorem streamed_faithful {es : List Event} {s : Streaming} (hC : Along (next lim bufSize) Spared {} es)
    (hr : run (next lim bufSize) {} es = some s) (st : Stream) :
    (s.channels st).received <+: (s.channels st).sent := by
  have h0 : Faithful {} := ⟨fun _ _ h => (by cases h), fun _ => rfl⟩
  have h := run_inv faithful_next h0 hC hr
  exact ⟨_, (h.channels st).symm⟩

/-- two bytes of array `0` are written, and then other bytes stored in an array before the chunk is received -/
def reuseRun (array : Nat) : List Event :=
  [.store 0 [1, 2], .write .stdout ⟨0, 0, 2⟩] ++ replicate 5 (.step .stdout) ++ [.store array [3, 4], .receive .stdout]

theorem streamed_faithful_reuseRun : ∃ s ∈ run (next ⟨9, 9, 9⟩ 1) {} (reuseRun 1),
    (s.channels .stdout).received = [[1, 2]] ∧ (s.channels .stdout).received <+: (s.channels .stdout).sent := by
  refine exists_run_and (by decide +kernel) fun s hr _ => ?_
  exact streamed_faithful (by decide +kernel) hr .stdout

/-- **a chunk that is queued changes with the array of the runner** -/
theorem chunk_overwritten : ∃ s ∈ run (next ⟨9, 9, 9⟩ 1) {} (reuseRun 0),
    (s.channels .stdout).accepted = [([1, 2], true)] ∧ (s.channels .stdout).received = [[3, 4]] := by
  decide +kernel

end Streaming

end Runtime
