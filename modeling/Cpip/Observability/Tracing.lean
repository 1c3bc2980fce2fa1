import Cpip.Lib.Run

/-!
# Observability: the spans of a trace

`Tracer.StartSpan` with a `ParentRatioSampler`, for every tree of spans.

* `sampling_once`  **the spans of a trace have the decision of their root**, see also `sampling_again`.
-/

namespace Tracing

open Lts

structure SpanContext where
  traceID : String := ""
  spanID : String := ""
  sampled : Bool := false

def SpanContext.isValid (sc : SpanContext) : Bool := sc.traceID ≠ "" ∧ sc.spanID ≠ ""

/-- what a context carries: the active span, when it records, and the correlation IDs -/
structure Context where
  span : Option SpanContext := none
  traceID : String := ""
  spanID : String := ""

/-- the ratio; its product with the largest number is any number -/
structure ParentRatioSampler where
  ratio : Rat
  threshold : UInt64

def traceIDHash (traceID : String) : UInt64 :=
  traceID.toUTF8.data.foldl (fun h b => (h ^^^ b.toUInt64) * 1099511628211) 14695981039346656037

/-- a call: the earlier call it continues, and the IDs that are generated for it -/
structure Start where
  parent : Option Nat
  newRoot : Bool := false
  traceID : String
  spanID : String
  named : traceID ≠ "" ∧ spanID ≠ ""

/-- a span, which is exported when it ends if it is sampled; `decision` is that of its root -/
structure Span where
  sc : SpanContext
  parent : String
  ctx : Context
  decision : Bool

variable (S : ParentRatioSampler)

def ParentRatioSampler.shouldSample (parent : SpanContext) (traceID : String) : Bool :=
  if parent.isValid then parent.sampled
  else if S.ratio ≤ 0 then false
  else if S.ratio ≥ 1 then true
  else traceIDHash traceID < S.threshold

def parentContext (ctx : Context) (newRoot : Bool) : SpanContext :=
  if newRoot then {}
  else if let some sc := ctx.span then sc
  else if ctx.traceID ≠ "" ∧ ctx.spanID ≠ "" then { traceID := ctx.traceID, spanID := ctx.spanID, sampled := true }
  else {}

def startSpan (ctx : Context) (c : Start) (decision : Option Bool) : Span :=
  let parent := parentContext ctx c.newRoot
  let traceID := if parent.traceID = "" then c.traceID else parent.traceID
  let sc : SpanContext := { traceID, spanID := c.spanID, sampled := S.shouldSample parent traceID }
  { sc, parent := parent.spanID, decision := decision.getD sc.sampled
    ctx := { span := if sc.sampled then some sc else none, traceID, spanID := c.spanID } }

def step (spans : List Span) (c : Start) : Option (List Span) :=
  match c.parent with
  | none => some (spans ++ [startSpan S {} c none])
  | some i => spans[i]?.map fun p => spans ++ [startSpan S p.ctx c (if c.newRoot then none else some p.decision)]

/-- the call continues a sampled span, or starts a trace -/
def Recorded (spans : List Span) (c : Start) : Prop :=
  ∀ i ∈ c.parent, ∀ p ∈ spans[i]?, c.newRoot = true ∨ p.sc.sampled = true

instance (spans : List Span) (c : Start) : Decidable (Recorded spans c) :=
  inferInstanceAs (Decidable (∀ i ∈ c.parent, ∀ p ∈ spans[i]?, _))

variable {S} {spans : List Span} {c : Start}

/-- the span has the decision of its root, its context carries it, and it hangs on an exported span -/
structure Span.Sound (spans : List Span) (x : Span) : Prop where
  valid : x.sc.isValid = true
  carried : x.sc.sampled = true → x.ctx.span = some x.sc
  decided : x.sc.sampled = x.decision
  parent : x.sc.sampled = true → x.parent = "" ∨ ∃ y ∈ spans, y.sc.sampled = true ∧ y.sc.spanID = x.parent

theorem sound_root {ctx : Context} (h : parentContext ctx c.newRoot = {}) : (startSpan S ctx c none).Sound spans where
  valid := by
    unfold startSpan
    rw [h]
    exact decide_eq_true c.named
  carried hs := if_pos hs
  decided := rfl
  parent _ := .inl (by rw [startSpan, h])

theorem sound_child {p : Span} (hmem : p ∈ spans) (hp : p.Sound spans) (hs : p.sc.sampled = true)
    (hc : c.newRoot = false) : (startSpan S p.ctx c (some p.decision)).Sound spans := by
  have hparent : parentContext p.ctx c.newRoot = p.sc := by
    unfold parentContext
    rw [hc, hp.carried hs]
    rfl
  have hvalid := of_decide_eq_true hp.valid
  refine ⟨?_, fun h => if_pos h, ?_, fun _ => .inr ⟨p, hmem, hs, by rw [startSpan, hparent]⟩⟩
  · unfold startSpan
    dsimp only
    rw [hparent, if_neg hvalid.1]
    exact decide_eq_true ⟨hvalid.1, c.named.2⟩
  · show S.shouldSample (parentContext p.ctx c.newRoot) _ = p.decision
    rw [hparent, ParentRatioSampler.shouldSample, if_pos hp.valid, hp.decided]

theorem sound_step {spans' : List Span} (hi : ∀ x ∈ spans, x.Sound spans) (hc : Recorded spans c)
    (hn : step S spans c = some spans') : ∀ x ∈ spans', x.Sound spans' := by
  -- a span keeps what it hangs on when another one is started
  have hgrow : ∀ y x : Span, x.Sound spans → x.Sound (spans ++ [y]) := fun y x hx =>
    ⟨hx.valid, hx.carried, hx.decided, fun hs => (hx.parent hs).imp_right fun ⟨z, hz, h⟩ =>
      ⟨z, List.mem_append_left _ hz, h⟩⟩
  have hsnoc : ∀ y : Span, y.Sound spans → ∀ x ∈ spans ++ [y], x.Sound (spans ++ [y]) := by
    intro y hy x hx
    rcases List.mem_append.mp hx with hx | hx
    · exact hgrow y x (hi x hx)
    · rw [List.mem_singleton.mp hx]
      exact hgrow y y hy
  unfold step at hn
  split at hn
  · cases hn
    exact hsnoc _ (sound_root (by cases h : c.newRoot <;> rfl))
  · rename_i i hparent
    obtain ⟨p, hp, rfl⟩ := Option.map_eq_some_iff.mp hn
    have hmem := List.mem_of_getElem? hp
    refine hsnoc _ ?_
    cases hnew : c.newRoot with
    | true => exact sound_root (if_pos hnew)
    | false => exact sound_child hmem (hi p hmem) ((hc i hparent p hp).resolve_left (by simp [hnew])) hnew

/-- **All spans of a trace have the decision of their root**, when all calls continue sampled spans. -/
theorem sampling_once {calls : List Start} (hC : Along (step S) Recorded [] calls)
    (hr : run (step S) [] calls = some spans) : ∀ x ∈ spans, x.sc.sampled = x.decision ∧
      (x.sc.sampled = true → x.parent = "" ∨ ∃ y ∈ spans, y.sc.sampled = true ∧ y.sc.spanID = x.parent) := by
  intro x hx
  have hsound := run_inv (fun _ _ _ hi hc hn => sound_step hi hc hn) (fun _ h => by cases h) hC hr x hx
  exact ⟨hsound.decided, hsound.parent⟩

def family : List Start := [⟨none, false, "t", "a", by decide⟩, ⟨some 0, false, "u", "b", by decide⟩]

theorem sampling_once_family : ∃ spans ∈ run (step ⟨1, 0⟩) [] family, ∀ x ∈ spans, x.sc.sampled = x.decision := by
  have hC : Along (step ⟨1, 0⟩) Recorded [] family := by decide +kernel
  exact ⟨_, rfl, fun x hx => (sampling_once hC rfl x hx).1⟩

/-- the root is not sampled, its child is and hangs on a span that is never exported -/
theorem sampling_again : ∃ spans ∈ run (step ⟨0, 0⟩) [] family, ∃ x ∈ spans, x.sc.sampled = true ∧ x.decision = false ∧
    x.parent = "a" ∧ ∀ y ∈ spans, y.sc.spanID = "a" → y.sc.sampled = false := by
  decide +kernel

end Tracing
