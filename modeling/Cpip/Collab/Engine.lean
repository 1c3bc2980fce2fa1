import Mathlib.Data.Fintype.Powerset
import Cpip.Collab.Types

/-!
# Collaboration engine: the CRDT library and gzip as parameters

The CRDT library behind `internal/collaboration/yjs` is not part of the repository.  `Engine Op` is what the code
relies on: a document is a finite set of operations, applying an update is union, and the vector of a document
covers exactly its operations.  `Gzip` is `compress/gzip`.
-/

namespace Collab

structure Engine (Op : Type) [DecidableEq Op] where
  Vector : Type
  /-- operations carried by a V1 update, `none` when it does not decode -/
  decode : Bytes → Option (Finset Op)
  /-- V1 update of a document relative to a vector, `none` for the whole document -/
  encode : Finset Op → Option Vector → Bytes
  encodeVector : Finset Op → Bytes
  decodeVector : Bytes → Option Vector
  emptyVector : Vector
  covers : Vector → Op → Bool
  decode_full : ∀ d, decode (encode d none) = some d
  decode_delta : ∀ d v, decode (encode d (some v)) = some (d.filter fun o => covers v o = false)
  encodeVector_ne : ∀ d, encodeVector d ≠ []
  decode_vector : ∀ d, ∃ v, decodeVector (encodeVector d) = some v ∧ ∀ o, covers v o = true ↔ o ∈ d

structure Gzip where
  deflate : Bytes → Bytes
  inflate : Bytes → Option Bytes
  inflate_deflate : ∀ b, inflate (deflate b) = some b

def Gzip.stored : Gzip := ⟨id, some, fun _ => rfl⟩

section
variable {Op : Type} [DecidableEq Op] (E : Engine Op)

def Engine.decodeStateVector (data : Bytes) : Option E.Vector :=
  if data.length = 0 then some E.emptyVector else E.decodeVector data

theorem Engine.decodeStateVector_encode (d : Finset Op) :
    ∃ v, E.decodeStateVector (E.encodeVector d) = some v ∧ ∀ o, E.covers v o = true ↔ o ∈ d := by
  obtain ⟨v, hv, hc⟩ := E.decode_vector d
  refine ⟨v, ?_, hc⟩
  unfold Engine.decodeStateVector
  rw [if_neg (by simpa using E.encodeVector_ne d), hv]

structure Doc (Op : Type) where
  ops : Finset Op
  destroyed : Bool

def Engine.applyUpdate (ops : Finset Op) (u : Bytes) : Option (Finset Op) :=
  (E.decode u).map fun o => ops ∪ o

def Engine.size (ops : Finset Op) : Nat := (E.encode ops none).length

theorem Engine.applyUpdate_eq {E : Engine Op} {ops ops' : Finset Op} {u : Bytes}
    (h : E.applyUpdate ops u = some ops') : ∃ o, E.decode u = some o ∧ ops' = ops ∪ o := by
  obtain ⟨o, ho, e⟩ := Option.map_eq_some_iff.mp h
  exact ⟨o, ho, e.symm⟩

end

/-! ## a small engine -/

/-- flags byte of a set of operations: operation `i` is bit `i` -/
def flags (d : Finset (Fin 4)) : UInt8 :=
  UInt8.ofNat ((List.finRange 4).foldr (fun i n => if i ∈ d then n + 2 ^ i.val else n) 0)

def unflags (b : UInt8) : Finset (Fin 4) :=
  Finset.univ.filter fun i => b.toNat.testBit i

theorem unflags_flags (d : Finset (Fin 4)) : unflags (flags d) = d := by
  revert d
  decide

/-- **A concrete engine.**  Updates and vectors are one flags byte long, so an update fits in
every size limit. -/
def Engine.bits : Engine (Fin 4) where
  Vector := Finset (Fin 4)
  decode
    | [b] => some (unflags b)
    | _ => none
  encode d v := [flags (d \ v.getD ∅)]
  encodeVector d := [flags d]
  decodeVector
    | [b] => some (unflags b)
    | _ => none
  emptyVector := ∅
  covers v o := decide (o ∈ v)
  decode_full d := by simp [unflags_flags]
  decode_delta d v := by
    simp only [Option.getD_some, unflags_flags, Option.some.injEq]
    ext o
    simp
  encodeVector_ne d := by simp
  decode_vector d := ⟨d, by simp [unflags_flags], by simp⟩

end Collab
