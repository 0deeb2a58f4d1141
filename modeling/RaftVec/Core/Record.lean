import Mathlib

/-!
# Vector records and scored ids

The data model of `raftvec-core`. Embedding components are values of a type `F` standing
for `f32`: its arithmetic is uninterpreted (`FloatOps`) and its linear order is
`f32::total_cmp`, under which two values are equal exactly when their bits are.

Scored ids are ordered by score, and on equal scores the lower id ranks greater. The
order is total, so a ranking never depends on the order in which records are met.
-/

namespace RaftVec

/-- The `f32` operations used by the scan; `feq` is the IEEE comparison `==`. -/
class FloatOps (F : Type*) where
  zero : F
  add : F → F → F
  mul : F → F → F
  div : F → F → F
  sqrt : F → F
  feq : F → F → Bool

/-- Exact integer arithmetic, which agrees with `f32` on small whole inputs with whole results. -/
instance : FloatOps ℤ where
  zero := 0
  add := (· + ·)
  mul := (· * ·)
  div := (· / ·)
  sqrt := Int.sqrt
  feq := (· == ·)

/-- Unindexed string metadata, carried through and never interpreted. -/
abbrev Metadata := Std.ExtTreeMap String String

/-- One vector with its id and metadata. -/
structure VectorRecord (F : Type*) where
  id : UInt64
  embedding : List F
  metadata : Metadata
deriving DecidableEq

/-- An id with the score its record reached for some query. -/
structure ScoredId (F : Type*) where
  id : UInt64
  score : F

namespace ScoredId

variable {F : Type*}

/-- The key whose lexicographic order is the order of scored ids. -/
def orderKey (s : ScoredId F) : F ×ₗ ℕᵒᵈ := toLex (s.score, OrderDual.toDual s.id.toNat)

/-- Distinct scored ids have distinct order keys. -/
theorem orderKey_injective : Function.Injective (orderKey : ScoredId F → F ×ₗ ℕᵒᵈ) := by
  intro a b h
  obtain ⟨hscore, hid⟩ := Prod.mk.inj (toLex.injective h)
  cases a
  cases b
  simp_all [UInt64.toNat_inj]

variable [LinearOrder F]

/-- `Ord::cmp`: by score first, and the lower id ranks greater on a tie. -/
def cmp (a b : ScoredId F) : Ordering :=
  (compare a.score b.score).then (compare b.id a.id)

instance : LinearOrder (ScoredId F) := LinearOrder.lift' orderKey orderKey_injective

/-- A scored id is below another when its score is, or on a tie when its id is higher. -/
theorem lt_iff (a b : ScoredId F) :
    a < b ↔ a.score < b.score ∨ a.score = b.score ∧ b.id < a.id := by
  change orderKey a < orderKey b ↔ _
  rw [orderKey, orderKey, Prod.Lex.toLex_lt_toLex]
  simp [UInt64.lt_iff_toNat_lt]

/-- The comparison of the source decides the linear order. -/
theorem cmp_eq_lt_iff (a b : ScoredId F) : cmp a b = .lt ↔ a < b := by
  rw [lt_iff, cmp, Ordering.then_eq_lt, compare_lt_iff_lt, compare_eq_iff_eq, Std.compare_eq_lt]

/-- Comparing the other way round gives the opposite answer. -/
theorem cmp_swap (a b : ScoredId F) : (cmp a b).swap = cmp b a := by
  rw [cmp, cmp, Ordering.swap_then, ← Std.OrientedOrd.eq_swap, ← Std.OrientedOrd.eq_swap]

/-- The comparison says at most exactly when the linear order does. -/
theorem cmp_isLE_iff (a b : ScoredId F) : (cmp a b).isLE ↔ a ≤ b := by
  rw [← not_lt, ← cmp_eq_lt_iff, ← cmp_swap a b]
  cases cmp a b <;> simp

/-- The comparison says equal of nothing but one and the same scored id. -/
theorem cmp_eq_eq_iff (a b : ScoredId F) : cmp a b = .eq ↔ a = b := by
  have hboth : a = b ↔ a ≤ b ∧ b ≤ a := le_antisymm_iff
  rw [hboth, ← cmp_isLE_iff, ← cmp_isLE_iff, ← cmp_swap a b]
  cases cmp a b <;> simp

end ScoredId

end RaftVec
