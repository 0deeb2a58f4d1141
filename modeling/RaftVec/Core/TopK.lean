import RaftVec.Core.Record
import RaftVec.Library.Greatest

/-!
# The bounded heap of the best-scoring items

`BinaryHeap` is a priority queue: its contents are a multiset, `peek` is the least
element under `Reverse`, and iteration visits the contents in an unspecified order. The
heap is therefore modelled by its multiset, and the loop in `merge` is a fold that needs
pushes to commute; `TopK.push_heap` provides that, since a push is the selection of the
`k` greatest among the old contents and the new item.
-/

namespace RaftVec

open Selection

variable {F : Type*}

/-- At most `k` scored ids, the best seen so far. -/
structure TopK (F : Type*) where
  heap : Multiset (ScoredId F)
  k : ℕ
  bounded : heap.card ≤ k

namespace TopK

/-- An accumulator that has seen nothing.

`BinaryHeap::with_capacity(k)` reserves `k` slots. It is assumed to succeed: in the source it
panics when they are more than can be addressed and aborts when they do not fit in memory. -/
def new (k : ℕ) : TopK F := ⟨0, k, Nat.zero_le k⟩

/-- Accumulators with the same contents and bound are equal. -/
theorem ext_heap {s t : TopK F} (hheap : s.heap = t.heap) (hk : s.k = t.k) : s = t := by
  cases s
  cases t
  simp_all

variable [LinearOrder F]

/-- Keep the item while there is room, or let it evict a worse one. -/
def push (self : TopK F) (item : ScoredId F) : TopK F :=
  if self.k = 0 then self
  else if hroom : self.heap.card < self.k then
    ⟨item ::ₘ self.heap, self.k, by simpa using hroom⟩
  else
    match hpeek : least self.heap with
    | some worst =>
      if worst < item then
        ⟨item ::ₘ self.heap.erase worst, self.k, by
          have hcard := Multiset.card_erase_add_one (least_eq_some hpeek).1
          have hbound := self.bounded
          rw [Multiset.card_cons]
          omega⟩
      else self
    | none => self

/-- Pushing never changes the bound. -/
@[simp] theorem push_k (self : TopK F) (item : ScoredId F) : (self.push item).k = self.k := by
  unfold push
  split
  · rfl
  · split
    · rfl
    · split
      · split <;> rfl
      · rfl

/-- After a push the heap holds the `k` greatest of its old contents and the item. -/
theorem push_heap (self : TopK F) (item : ScoredId F) :
    (self.push item).heap = (greatest self.k (item ::ₘ self.heap) : Multiset (ScoredId F)) := by
  have hbound := self.bounded
  unfold push
  split
  · next hzero =>
    have hempty : self.heap = 0 := Multiset.card_eq_zero.mp (by omega)
    rw [hzero, greatest_zero, hempty]
    rfl
  · next hk =>
    split
    · next hroom =>
      rw [greatest_of_card_le (by simpa using hroom), Multiset.sort_eq]
    · next hfull =>
      have hcard : self.heap.card = self.k := by omega
      split
      · next worst hpeek =>
        have hfull : greatest self.heap.card (item ::ₘ self.heap) = _ := greatest_cons_of_full hpeek
        rw [hcard] at hfull
        rw [hfull, Multiset.sort_eq]
        split <;> rfl
      · next hpeek =>
        rw [least_eq_none hpeek, Multiset.card_zero] at hcard
        omega

/-- The order of two pushes does not matter. -/
instance : RightCommutative (push : TopK F → ScoredId F → TopK F) where
  right_comm := by
    intro self a b
    apply ext_heap
    · rw [push_heap, push_heap, push_heap, push_heap, push_k, push_k, greatest_cons_absorb,
        greatest_cons_absorb, Multiset.cons_swap]
    · simp

/-- Push every item of another accumulator, in whatever order its heap yields them. -/
def merge (self other : TopK F) : TopK F := other.heap.foldl push self

/-- The contents, best first. -/
def intoSortedVec (self : TopK F) : List (ScoredId F) := descending self.heap

/-- Pushing a list keeps the `k` greatest of the old contents and the list. -/
theorem foldl_push (items : List (ScoredId F)) (self : TopK F) :
    (items.foldl push self).k = self.k ∧
      (items.foldl push self).heap =
        (greatest self.k (self.heap + (items : Multiset (ScoredId F))) : Multiset (ScoredId F)) := by
  induction items generalizing self with
  | nil =>
    refine ⟨rfl, ?_⟩
    rw [Multiset.coe_nil, add_zero, greatest_of_card_le self.bounded, Multiset.sort_eq]
    rfl
  | cons item items ih =>
    obtain ⟨hk, hheap⟩ := ih (self.push item)
    rw [List.foldl_cons, hk, hheap, push_k, push_heap, greatest_absorb]
    refine ⟨rfl, ?_⟩
    rw [Multiset.cons_add, ← Multiset.cons_coe, Multiset.add_cons]

/-- Merging keeps the bound of the accumulator merged into. -/
@[simp] theorem merge_k (self other : TopK F) : (self.merge other).k = self.k := by
  rw [merge, ← Multiset.sort_eq other.heap (· ≥ ·), Multiset.coe_foldl]
  exact (foldl_push _ self).1

/-- Merging keeps the `k` greatest of both contents. -/
theorem merge_heap (self other : TopK F) :
    (self.merge other).heap = (greatest self.k (self.heap + other.heap) : Multiset (ScoredId F)) := by
  rw [merge]
  nth_rewrite 1 [← Multiset.sort_eq other.heap (· ≥ ·)]
  rw [Multiset.coe_foldl, (foldl_push _ self).2, Multiset.sort_eq]

end TopK

variable [LinearOrder F]

/-- Exact top-k over a list of items. -/
def boundedTopK (items : List (ScoredId F)) (k : ℕ) : List (ScoredId F) :=
  (items.foldl TopK.push (TopK.new k)).intoSortedVec

/-- Merge per-shard local top-k lists into one global top-k. -/
def mergeTopK (lists : List (List (ScoredId F))) (k : ℕ) : List (ScoredId F) :=
  boundedTopK lists.flatten k

/-- The bounded heap computes the selection of the `k` greatest. -/
theorem boundedTopK_eq_greatest (items : List (ScoredId F)) (k : ℕ) :
    boundedTopK items k = greatest k (items : Multiset (ScoredId F)) := by
  rw [boundedTopK, TopK.intoSortedVec, (TopK.foldl_push items (TopK.new k)).2, descending_greatest]
  change greatest k (0 + (items : Multiset (ScoredId F))) = _
  rw [zero_add]

/-- Merging lists selects the `k` greatest of all their items together. -/
theorem mergeTopK_eq_greatest (lists : List (List (ScoredId F))) (k : ℕ) :
    mergeTopK lists k = greatest k (lists.flatten : Multiset (ScoredId F)) :=
  boundedTopK_eq_greatest lists.flatten k

/-- Merging counts the lists' items together, so only the multisets they hold matter. -/
theorem mergeTopK_eq_greatest_sum (lists : List (List (ScoredId F))) (k : ℕ) :
    mergeTopK lists k =
      greatest k (lists.map fun list : List (ScoredId F) => (list : Multiset (ScoredId F))).sum := by
  rw [mergeTopK_eq_greatest]
  congr 1
  induction lists with
  | nil => rfl
  | cons list lists ih => rw [List.flatten_cons, ← Multiset.coe_add, ih, List.map_cons, List.sum_cons]

/-- A local list keeps the `k` best of its part if it may hold `k` or the whole part. -/
theorem greatest_boundedTopK {part : List (ScoredId F)} {k bound : ℕ}
    (h : k ≤ bound ∨ part.length ≤ bound) :
    greatest k (boundedTopK part bound : Multiset (ScoredId F)) =
      greatest k (part : Multiset (ScoredId F)) := by
  rw [boundedTopK_eq_greatest]
  cases h with
  | inl hbound => exact greatest_greatest hbound _
  | inr hlength =>
    have hwhole : greatest bound (part : Multiset (ScoredId F)) = descending (part : Multiset (ScoredId F)) :=
      greatest_of_card_le hlength
    rw [hwhole, Multiset.sort_eq]

/-- Merging local top-k lists is exact for every partition, in whatever order the lists
and their items arrive, as long as no bound cuts into the `k` best of its part. -/
theorem mergeTopK_eq_boundedTopK (k : ℕ) (parts : List (List (ScoredId F) × ℕ))
    (whole : List (ScoredId F)) (hwhole : whole.Perm (parts.map Prod.fst).flatten)
    (hbounds : ∀ part ∈ parts, k ≤ part.2 ∨ part.1.length ≤ part.2)
    (sent lists : List (List (ScoredId F)))
    (hsent : List.Forall₂ List.Perm (parts.map fun part => boundedTopK part.1 part.2) sent)
    (hlists : lists.Perm sent) : mergeTopK lists k = boundedTopK whole k := by
  have hkept : List.Forall₂ (fun part top => greatest k part = greatest k top)
      (parts.map fun part => (part.1 : Multiset (ScoredId F)))
      (sent.map fun list : List (ScoredId F) => (list : Multiset (ScoredId F))) := by
    rw [List.forall₂_map_left_iff] at hsent ⊢
    rw [List.forall₂_map_right_iff]
    refine List.Forall₂.imp ?_ ((List.forall₂_and_left parts sent).mpr ⟨hbounds, hsent⟩)
    intro part list h
    rw [← Multiset.coe_eq_coe.mpr h.2]
    exact (greatest_boundedTopK h.1).symm
  calc mergeTopK lists k
      = greatest k (sent.map fun list : List (ScoredId F) => (list : Multiset (ScoredId F))).sum := by
        rw [mergeTopK_eq_greatest_sum, (hlists.map _).sum_eq]
    _ = greatest k (parts.map fun part => (part.1 : Multiset (ScoredId F))).sum :=
        (greatest_sum_congr k hkept).symm
    _ = mergeTopK (parts.map Prod.fst) k := by
        rw [mergeTopK_eq_greatest_sum, List.map_map]
        rfl
    _ = boundedTopK whole k := by
        rw [mergeTopK_eq_greatest, boundedTopK_eq_greatest, Multiset.coe_eq_coe.mpr hwhole]

/-- Three parts, one of them empty and one with a bound below `k` that it does not reach. -/
theorem mergeTopK_three_parts :
    mergeTopK [[], [(⟨4, 7⟩ : ScoredId ℤ)], [⟨2, 5⟩, ⟨3, 9⟩]] 2 =
      boundedTopK [⟨1, 1⟩, ⟨2, 5⟩, ⟨3, 9⟩, ⟨4, 7⟩] 2 := by
  have hlocal : boundedTopK [(⟨1, 1⟩ : ScoredId ℤ), ⟨2, 5⟩, ⟨3, 9⟩] 2 = [⟨3, 9⟩, ⟨2, 5⟩] := by
    have hperm : [(⟨3, 9⟩ : ScoredId ℤ), ⟨2, 5⟩, ⟨1, 1⟩].Perm [⟨1, 1⟩, ⟨2, 5⟩, ⟨3, 9⟩] :=
      List.reverse_perm [(⟨1, 1⟩ : ScoredId ℤ), ⟨2, 5⟩, ⟨3, 9⟩]
    rw [boundedTopK_eq_greatest, greatest_eq_take 2 (by decide) (Multiset.coe_eq_coe.mpr hperm)]
    rfl
  have hsmall : boundedTopK [(⟨4, 7⟩ : ScoredId ℤ)] 1 = [⟨4, 7⟩] := by
    rw [boundedTopK_eq_greatest, greatest_eq_take 1 (List.pairwise_singleton _ _) rfl]
    rfl
  have hempty : boundedTopK ([] : List (ScoredId ℤ)) 0 = [] := by rw [boundedTopK_eq_greatest, greatest_zero]
  apply mergeTopK_eq_boundedTopK 2 [([⟨1, 1⟩, ⟨2, 5⟩, ⟨3, 9⟩], 2), ([⟨4, 7⟩], 1), ([], 0)]
    [⟨1, 1⟩, ⟨2, 5⟩, ⟨3, 9⟩, ⟨4, 7⟩] (List.Perm.refl _) (by decide)
    [[⟨2, 5⟩, ⟨3, 9⟩], [⟨4, 7⟩], []]
  · simp only [List.map_cons, List.map_nil, hlocal, hsmall, hempty]
    exact .cons (List.Perm.swap _ _ _) (.cons (List.Perm.refl _) (.cons (List.Perm.refl _) .nil))
  · exact List.reverse_perm [[(⟨2, 5⟩ : ScoredId ℤ), ⟨3, 9⟩], [⟨4, 7⟩], []]

end RaftVec
