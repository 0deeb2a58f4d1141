import Mathlib

/-!
# Items grouped by an owner

A batch is cut into groups by pushing each item into the group its owner names. Each
group then holds its own items in their order, no item is lost, and answers collected per
owner line up with the owners that gave one. A batch cut into chunks of one size is their
concatenation.
-/

namespace Grouping

/-- Pushing items into the groups their owners name appends each group's own items in order. -/
theorem getElem?_foldl_modify {α : Type*} (owner : α → ℕ) (items : List α) (groups : List (List α)) (s : ℕ) :
    (items.foldl (fun groups item => groups.modify (owner item) (· ++ [item])) groups)[s]? =
      groups[s]?.map (· ++ items.filter fun item => owner item = s) := by
  induction items generalizing groups with
  | nil => simp
  | cons item items ih =>
    rw [List.foldl_cons, ih, List.getElem?_modify]
    cases hgroup : groups[s]? with
    | none => rfl
    | some group =>
      by_cases howner : owner item = s
      · simp [howner]
      · simp [howner]

/-- Pushing items adds no group. -/
theorem length_foldl_modify {α : Type*} (owner : α → ℕ) (items : List α) (groups : List (List α)) :
    (items.foldl (fun groups item => groups.modify (owner item) (· ++ [item])) groups).length =
      groups.length := by
  induction items generalizing groups with
  | nil => rfl
  | cons item items ih => rw [List.foldl_cons, ih, List.length_modify]

/-- One push makes one group longer by one. -/
theorem sum_length_modify {α : Type*} (item : α) (groups : List (List α)) (s : ℕ) (hs : s < groups.length) :
    ((groups.modify s (· ++ [item])).map List.length).sum = (groups.map List.length).sum + 1 := by
  induction groups generalizing s with
  | nil => cases hs
  | cons group groups ih =>
    cases s with
    | zero =>
      simp only [List.modify_zero_cons, List.map_cons, List.sum_cons, List.length_append,
        List.length_singleton]
      omega
    | succ s =>
      have hrest := ih s (by simpa using hs)
      simp only [List.modify_succ_cons, List.map_cons, List.sum_cons, hrest]
      omega

/-- Grouping loses no item and adds none. -/
theorem sum_length_foldl_modify {α : Type*} (owner : α → ℕ) (items : List α) (groups : List (List α))
    (howner : ∀ item, owner item < groups.length) :
    ((items.foldl (fun groups item => groups.modify (owner item) (· ++ [item])) groups).map
      List.length).sum = (groups.map List.length).sum + items.length := by
  induction items generalizing groups with
  | nil => rfl
  | cons item items ih =>
    rw [List.foldl_cons, ih _ (by simpa using howner), sum_length_modify item groups _ (howner item),
      List.length_cons]
    omega

/-- Filters that no item passes together split the items that pass either. -/
theorem filter_append_perm_of_disjoint {α : Type*} (l : List α) {p q : α → Bool}
    (hdisjoint : ∀ x, p x = true → q x = false) :
    (l.filter p ++ l.filter q).Perm (l.filter fun x => p x || q x) := by
  induction l with
  | nil => exact List.Perm.refl []
  | cons x l ih =>
    cases hp : p x with
    | true =>
      simp only [List.filter_cons, hp, hdisjoint x hp, Bool.true_or, if_true, List.cons_append]
      exact ih.cons x
    | false =>
      cases hq : q x with
      | true =>
        simp only [List.filter_cons, hp, hq, Bool.or_true, if_true]
        exact List.perm_middle.trans (ih.cons x)
      | false =>
        simp only [List.filter_cons, hp, hq]
        exact ih

/-- Answers that are known for each owner are the known ones of the owners that answered. -/
theorem map_filterMap_eq {α β : Type*} {owners : List ℕ} {answer : ℕ → Option α} {results : α → β}
    {known : ℕ → β} (h : ∀ s ∈ owners, ∀ a, answer s = some a → results a = known s) :
    (owners.filterMap answer).map results = (owners.filter fun s => (answer s).isSome).map known := by
  induction owners with
  | nil => rfl
  | cons s owners ih =>
    have hrest := ih fun other hother => h other (List.mem_cons_of_mem _ hother)
    cases hanswer : answer s with
    | none => simp [hanswer, hrest]
    | some a => simp [hanswer, hrest, h s List.mem_cons_self a hanswer]

/-- Cutting a list into chunks, an unfinished chunk and the finished ones hold what was read. -/
theorem flatten_toChunks_go {α : Type*} (size : ℕ) (items : List α) (current : Array α) (finished : Array (List α)) :
    (List.toChunks.go size items current finished).flatten = finished.toList.flatten ++ current.toList ++ items := by
  induction items generalizing current finished with
  | nil => simp [List.toChunks.go]
  | cons item items ih =>
    rw [List.toChunks.go]
    split <;> simp [ih]

/-- Cutting a list into chunks loses nothing and keeps the order. -/
theorem flatten_toChunks {α : Type*} (size : ℕ) (items : List α) : (items.toChunks size).flatten = items := by
  cases items with
  | nil => cases size <;> rfl
  | cons item items =>
    cases size with
    | zero => exact List.append_nil _
    | succ size => exact flatten_toChunks_go (size + 1) items #[item] #[]

end Grouping
