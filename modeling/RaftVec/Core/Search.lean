import RaftVec.Core.Record
import RaftVec.Core.TopK

/-!
# Cosine similarity and the parallel brute-force scan

The similarity accumulates over the components in order, as the loops of the source do, so a
cached squared norm and a freshly computed one are the same value and not just close.

Rayon cuts the record slice into contiguous pieces, folds each piece into a bounded heap
and combines the heaps pairwise in some tree, possibly with empty heaps as identities.
Which cut and which tree is the runtime's choice, as is the order in which a `HashMap`
yields its values. `ScanSchedule` is one such choice; results are proved for all of them.
-/

namespace RaftVec

open Selection

section Similarity

variable {F : Type*} [FloatOps F]

/-- Sum of squares, accumulated left to right. -/
def normSq (v : List F) : F :=
  v.foldl (fun acc x => FloatOps.add acc (FloatOps.mul x x)) FloatOps.zero

/-- Cosine similarity from precomputed squared norms; a zero norm scores zero.

The dot product stops at the end of the shorter vector, as `zip` does. -/
def cosineFromNormSq (a b : List F) (aNormSq bNormSq : F) : F :=
  if FloatOps.feq aNormSq FloatOps.zero || FloatOps.feq bNormSq FloatOps.zero then FloatOps.zero
  else
    let dot := (a.zip b).foldl (fun dot xy => FloatOps.add dot (FloatOps.mul xy.1 xy.2)) FloatOps.zero
    FloatOps.div dot (FloatOps.mul (FloatOps.sqrt aNormSq) (FloatOps.sqrt bNormSq))

/-- Cosine similarity computed from scratch. -/
def cosineSimilarity (a b : List F) : F := cosineFromNormSq a b (normSq a) (normSq b)

end Similarity

/-- How a parallel fold and reduction went: pieces folded, heaps combined, identities used. -/
inductive ReduceTree (α : Type*) where
  | identity
  | fold (piece : List α)
  | reduce (left right : ReduceTree α)

/-- The items visited, left to right. -/
def ReduceTree.items {α : Type*} : ReduceTree α → List α
  | .identity => []
  | .fold piece => piece
  | .reduce left right => left.items ++ right.items

/-- The runtime's choices for one scan: a hash iteration order and a cut of the slice. -/
structure ScanSchedule (α : Type*) where
  order : List α → List α
  order_perm : ∀ values, (order values).Perm values
  cut : List α → ReduceTree α
  cut_items : ∀ values, (cut values).items = values

/-- Visit the values in the given order on one thread. -/
def ScanSchedule.sequential (α : Type*) : ScanSchedule α where
  order := id
  order_perm := fun values => List.Perm.refl values
  cut := .fold
  cut_items := fun _ => rfl

variable {F : Type*} [FloatOps F]

/-- Score one record against the query, using its cached norm. -/
def scoreRecord (query : List F) (record : VectorRecord F × F) : ScoredId F :=
  ⟨record.1.id, cosineFromNormSq record.1.embedding query record.2 (normSq query)⟩

/-- The scored ids of all records, without an order. -/
def scoredIds (query : List F) (records : List (VectorRecord F × F)) : Multiset (ScoredId F) :=
  ((records.map (scoreRecord query) : List (ScoredId F)) : Multiset (ScoredId F))

/-- A scored id of some records is the score of one of them. -/
theorem exists_of_mem_scoredIds {query : List F} {records : List (VectorRecord F × F)} {hit : ScoredId F}
    (h : hit ∈ scoredIds query records) : ∃ record ∈ records, scoreRecord query record = hit := by
  rw [scoredIds, Multiset.mem_coe, List.mem_map] at h
  exact h

variable [LinearOrder F]

/-- Fold each piece into its own heap and combine the heaps along the tree. -/
def reduceTopK (query : List F) (k : ℕ) : ReduceTree (VectorRecord F × F) → TopK F
  | .identity => TopK.new k
  | .fold piece => piece.foldl (fun topk record => topk.push (scoreRecord query record)) (TopK.new k)
  | .reduce left right => (reduceTopK query k left).merge (reduceTopK query k right)

/-- Rank records by similarity to the query, keeping the best `k`. -/
def bruteForceTopK (cut : List (VectorRecord F × F) → ReduceTree (VectorRecord F × F))
    (records : List (VectorRecord F × F)) (query : List F) (k : ℕ) : List (ScoredId F) :=
  (reduceTopK query k (cut records)).intoSortedVec

/-- Every subtree's heap holds the `k` best of the items below it. -/
theorem reduceTopK_heap (query : List F) (k : ℕ) (tree : ReduceTree (VectorRecord F × F)) :
    (reduceTopK query k tree).k = k ∧
      (reduceTopK query k tree).heap =
        (greatest k (scoredIds query tree.items) : Multiset (ScoredId F)) := by
  induction tree with
  | identity => exact ⟨rfl, by simp [reduceTopK, TopK.new, ReduceTree.items, scoredIds, greatest]⟩
  | fold piece =>
    have hfold := TopK.foldl_push (piece.map (scoreRecord query)) (TopK.new k)
    rw [List.foldl_map] at hfold
    refine ⟨hfold.1, ?_⟩
    rw [reduceTopK, hfold.2]
    simp only [TopK.new, zero_add]
    rfl
  | reduce left right ihLeft ihRight =>
    refine ⟨by rw [reduceTopK, TopK.merge_k, ihLeft.1], ?_⟩
    rw [reduceTopK, TopK.merge_heap, ihLeft.1, ihLeft.2, ihRight.2, greatest_absorb,
      greatest_absorb_right, scoredIds, scoredIds, Multiset.coe_add, ← List.map_append]
    rfl

/-- The scan returns the `k` best of all scored records, however they were cut. -/
theorem bruteForceTopK_of_cut {cut : List (VectorRecord F × F) → ReduceTree (VectorRecord F × F)}
    {records : List (VectorRecord F × F)} (hcut : (cut records).items = records) (query : List F) (k : ℕ) :
    bruteForceTopK cut records query k = greatest k (scoredIds query records) := by
  rw [bruteForceTopK, TopK.intoSortedVec, (reduceTopK_heap query k _).2, descending_greatest, hcut]

omit [LinearOrder F] in
/-- The order of the records does not matter to their scored ids. -/
theorem scoredIds_of_perm (query : List F) {records shuffled : List (VectorRecord F × F)}
    (h : shuffled.Perm records) : scoredIds query shuffled = scoredIds query records :=
  Multiset.coe_eq_coe.mpr (h.map _)

/-- The scan returns the `k` best of all scored records, whatever the schedule. -/
theorem bruteForceTopK_eq_greatest (schedule : ScanSchedule (VectorRecord F × F))
    (values : List (VectorRecord F × F)) (query : List F) (k : ℕ) :
    bruteForceTopK schedule.cut (schedule.order values) query k =
      greatest k (scoredIds query values) := by
  rw [bruteForceTopK_of_cut (schedule.cut_items _), scoredIds_of_perm query (schedule.order_perm values)]

/-! ## The reference ranker -/

/-- Score every record, sort with the best first, and keep the first `k`. -/
def naiveTopK (records : List (VectorRecord F × F)) (query : List F) (k : ℕ) : List (ScoredId F) :=
  ((records.map (scoreRecord query)).mergeSort fun a b => (ScoredId.cmp b a).isLE).take k

/-- Sorting and truncating selects the `k` best. -/
theorem naiveTopK_eq_greatest (records : List (VectorRecord F × F)) (query : List F) (k : ℕ) :
    naiveTopK records query k = greatest k (scoredIds query records) := by
  have htrans : ∀ a b c : ScoredId F, (ScoredId.cmp b a).isLE → (ScoredId.cmp c b).isLE →
      (ScoredId.cmp c a).isLE := by
    intro a b c
    rw [ScoredId.cmp_isLE_iff, ScoredId.cmp_isLE_iff, ScoredId.cmp_isLE_iff]
    exact ge_trans
  have htotal : ∀ a b : ScoredId F, (ScoredId.cmp b a).isLE || (ScoredId.cmp a b).isLE := by
    intro a b
    rw [Bool.or_eq_true, ScoredId.cmp_isLE_iff, ScoredId.cmp_isLE_iff]
    exact le_total b a
  have hsorted := List.pairwise_mergeSort htrans htotal (records.map (scoreRecord query))
  simp only [ScoredId.cmp_isLE_iff] at hsorted
  rw [naiveTopK, greatest_eq_take k hsorted]
  exact Multiset.coe_eq_coe.mpr (List.mergeSort_perm _ _)

/-- The parallel scan is the reference ranker for every cut and every tree of merges, and
the order in which the records are listed does not change its result. -/
theorem bruteForceTopK_eq_naiveTopK (records : List (VectorRecord F × F)) (query : List F) (k : ℕ)
    (cut : List (VectorRecord F × F) → ReduceTree (VectorRecord F × F))
    (hcut : (cut records).items = records) :
    bruteForceTopK cut records query k = naiveTopK records query k ∧
      ∀ (shuffled : List (VectorRecord F × F))
        (recut : List (VectorRecord F × F) → ReduceTree (VectorRecord F × F)),
        shuffled.Perm records → (recut shuffled).items = shuffled →
          bruteForceTopK recut shuffled query k = bruteForceTopK cut records query k := by
  have hscan := bruteForceTopK_of_cut hcut query k
  refine ⟨?_, ?_⟩
  · rw [hscan, naiveTopK_eq_greatest]
  · intro shuffled recut hperm hrecut
    rw [hscan, bruteForceTopK_of_cut hrecut, scoredIds_of_perm query hperm]

/-- Two records folded apart, with an empty heap between them, and the same records swapped. -/
theorem bruteForceTopK_two_pieces :
    let east : VectorRecord ℤ × ℤ := (⟨1, [1, 0], ∅⟩, 1)
    let north : VectorRecord ℤ × ℤ := (⟨2, [0, 1], ∅⟩, 1)
    bruteForceTopK (fun _ => .reduce (.fold [east]) (.reduce .identity (.fold [north]))) [east, north]
        [1, 0] 1 = naiveTopK [east, north] [1, 0] 1 ∧
      bruteForceTopK .fold [north, east] [1, 0] 1 =
        bruteForceTopK (fun _ => .reduce (.fold [east]) (.reduce .identity (.fold [north]))) [east, north]
          [1, 0] 1 := by
  intro east north
  have hall := bruteForceTopK_eq_naiveTopK [east, north] [1, 0] 1
    (fun _ => .reduce (.fold [east]) (.reduce .identity (.fold [north]))) rfl
  exact ⟨hall.1, hall.2 [north, east] .fold (List.Perm.swap _ _ _) rfl⟩

end RaftVec
