import Mathlib

/-!
# The greatest elements of a finite multiset

Selection of the `k` greatest elements of a multiset over a linear order, greatest
first. The order is total, so the selection is a function of the multiset alone and not
of an enumeration. The main tool is `greatest_eq_sort_of_dominates`: a submultiset of
the right size whose elements dominate everything left out is the selection. From it
follows that elements dropped by an earlier selection never return, which is what makes
bounded accumulators and merges of partial selections exact.
-/

namespace Selection

variable {α : Type*} [LinearOrder α]

/-- The `k` greatest elements of a multiset, listed in descending order. -/
def greatest (k : ℕ) (s : Multiset α) : List α := (s.sort (· ≥ ·)).take k

/-- A multiset listed in descending order. -/
abbrev descending (s : Multiset α) : List α := s.sort (· ≥ ·)

/-- The least element of a multiset, absent when the multiset is empty. -/
def least (s : Multiset α) : Option α := (s.sort (· ≤ ·)).head?

/-- A selected part dominates when it has the selection's size and nothing left out exceeds it. -/
structure Dominates (k : ℕ) (top s : Multiset α) : Prop where
  le : top ≤ s
  card : top.card = min k s.card
  dominates : ∀ x ∈ top, ∀ y ∈ s - top, y ≤ x

/-- Two descending lists with the same elements are equal. -/
theorem descending_unique {l : List α} {s : Multiset α} (hl : l.Pairwise (· ≥ ·))
    (hs : (l : Multiset α) = s) : descending s = l := by
  have hperm : (descending s).Perm l := by rw [← Multiset.coe_eq_coe, Multiset.sort_eq, hs]
  exact hperm.eq_of_pairwise (fun a b _ _ hab hba => le_antisymm hba hab)
    (Multiset.pairwise_sort s _) hl

/-- A dominating part is the selection. -/
theorem greatest_eq_sort_of_dominates {k : ℕ} {top s : Multiset α} (h : Dominates k top s) :
    greatest k s = descending top := by
  have hsplit : descending s = descending top ++ descending (s - top) := by
    apply descending_unique
    · rw [List.pairwise_append]
      refine ⟨Multiset.pairwise_sort _ _, Multiset.pairwise_sort _ _, ?_⟩
      intro x hx y hy
      exact h.dominates x ((Multiset.mem_sort _).mp hx) y ((Multiset.mem_sort _).mp hy)
    · rw [← Multiset.coe_add, Multiset.sort_eq, Multiset.sort_eq, add_tsub_cancel_of_le h.le]
  have hlen : (descending top).length = min k s.card := by rw [Multiset.length_sort, h.card]
  have hrest : (descending (s - top)).length = s.card - min k s.card := by
    rw [Multiset.length_sort, Multiset.card_sub h.le, h.card]
  change (descending s).take k = _
  rw [hsplit, List.take_append, List.take_of_length_le (by omega)]
  have hnone : (descending (s - top)).take (k - (descending top).length) = [] := by
    rw [List.take_eq_nil_iff]
    rcases Nat.le_total k s.card with hk | hk
    · left; omega
    · right; exact List.length_eq_zero_iff.mp (by omega)
  rw [hnone, List.append_nil]

/-- The selection itself dominates what it leaves out. -/
theorem greatest_dominates (k : ℕ) (s : Multiset α) : Dominates k (greatest k s : Multiset α) s := by
  have hsplit : (greatest k s : Multiset α) + ((descending s).drop k : Multiset α) = s := by
    rw [Multiset.coe_add, greatest, List.take_append_drop, Multiset.sort_eq]
  have hrest : s - (greatest k s : Multiset α) = ((descending s).drop k : Multiset α) := by
    nth_rewrite 1 [← hsplit]
    exact add_tsub_cancel_left _ _
  refine ⟨?_, ?_, ?_⟩
  · calc (greatest k s : Multiset α) ≤ (greatest k s : Multiset α) + ((descending s).drop k : Multiset α) :=
          Multiset.le_add_right _ _
      _ = s := hsplit
  · rw [Multiset.coe_card, greatest, List.length_take, Multiset.length_sort]
  · intro x hx y hy
    rw [hrest] at hy
    have hsorted : (descending s).Pairwise (· ≥ ·) := Multiset.pairwise_sort _ _
    rw [← List.take_append_drop k (descending s), List.pairwise_append] at hsorted
    exact hsorted.2.2 x (Multiset.mem_coe.mp hx) y (Multiset.mem_coe.mp hy)

/-- The selection is listed in descending order. -/
theorem greatest_pairwise (k : ℕ) (s : Multiset α) : (greatest k s).Pairwise (· ≥ ·) :=
  (Multiset.pairwise_sort s _).sublist (List.take_sublist k _)

/-- Sorting the selection again changes nothing. -/
theorem descending_greatest (k : ℕ) (s : Multiset α) :
    descending (greatest k s : Multiset α) = greatest k s :=
  descending_unique (greatest_pairwise k s) rfl

/-- The selection is what a descending list of the elements starts with. -/
theorem greatest_eq_take {l : List α} {s : Multiset α} (k : ℕ) (hl : l.Pairwise (· ≥ ·))
    (hs : (l : Multiset α) = s) : greatest k s = l.take k := by
  rw [greatest, ← descending_unique hl hs]

/-- Selecting nothing gives nothing. -/
@[simp] theorem greatest_zero (s : Multiset α) : greatest 0 s = [] := List.take_zero

/-- A multiset no larger than the bound is selected whole. -/
theorem greatest_of_card_le {k : ℕ} {s : Multiset α} (h : s.card ≤ k) :
    greatest k s = descending s :=
  List.take_of_length_le (by rw [Multiset.length_sort]; exact h)

/-- Selected elements come from the multiset. -/
theorem mem_of_mem_greatest {k : ℕ} {s : Multiset α} {x : α} (h : x ∈ greatest k s) : x ∈ s :=
  (Multiset.mem_sort _).mp (List.mem_of_mem_take h)

/-- The least element belongs to the multiset and exceeds no element of it. -/
theorem least_eq_some {s : Multiset α} {m : α} (h : least s = some m) : m ∈ s ∧ ∀ x ∈ s, m ≤ x := by
  obtain ⟨rest, hrest⟩ := List.head?_eq_some_iff.mp h
  have hsorted : (s.sort (· ≤ ·)).Pairwise (· ≤ ·) := Multiset.pairwise_sort s _
  rw [hrest, List.pairwise_cons] at hsorted
  refine ⟨?_, ?_⟩
  · rw [← Multiset.mem_sort (· ≤ ·), hrest]
    exact List.mem_cons_self
  · intro x hx
    rw [← Multiset.mem_sort (· ≤ ·), hrest] at hx
    rcases List.mem_cons.mp hx with rfl | hx
    · exact le_refl x
    · exact hsorted.1 x hx

/-- Only the empty multiset has no least element. -/
theorem least_eq_none {s : Multiset α} (h : least s = none) : s = 0 := by
  have hnil := List.head?_eq_none_iff.mp h
  rw [← Multiset.sort_eq s (· ≤ ·), hnil]
  rfl

/-- Offering an element to a full selection replaces the least one when the element exceeds it. -/
theorem greatest_cons_of_full {s : Multiset α} {m item : α} (hm : least s = some m) :
    greatest s.card (item ::ₘ s) =
      descending (if m < item then item ::ₘ s.erase m else s) := by
  obtain ⟨hmem, hleast⟩ := least_eq_some hm
  have hcard := Multiset.card_erase_add_one hmem
  apply greatest_eq_sort_of_dominates
  by_cases hlt : m < item
  · rw [if_pos hlt]
    have hrest : item ::ₘ s - (item ::ₘ s.erase m) = {m} := by
      nth_rewrite 1 [← Multiset.cons_erase hmem]
      rw [Multiset.cons_swap, ← Multiset.singleton_add m, add_tsub_cancel_right]
    refine ⟨Multiset.cons_le_cons item (Multiset.erase_le m s), ?_, ?_⟩
    · rw [Multiset.card_cons, Multiset.card_cons]
      omega
    · intro x hx y hy
      rw [hrest, Multiset.mem_singleton] at hy
      subst y
      rcases Multiset.mem_cons.mp hx with rfl | hx
      · exact hlt.le
      · exact hleast x (Multiset.mem_of_mem_erase hx)
  · rw [if_neg hlt]
    have hrest : item ::ₘ s - s = {item} := by
      rw [← Multiset.singleton_add, add_tsub_cancel_right]
    refine ⟨Multiset.le_cons_self s item, ?_, ?_⟩
    · rw [Multiset.card_cons]
      omega
    · intro x hx y hy
      rw [hrest, Multiset.mem_singleton] at hy
      subst y
      exact (not_lt.mp hlt).trans (hleast x hx)

/-- A selection that does not keep all of a part leaves out an element of that part. -/
theorem exists_mem_left_out {top t result : Multiset α} (h : ¬ top ≤ result) :
    ∃ z ∈ top, z ∈ top + t - result := by
  obtain ⟨z, hz⟩ : ∃ z, result.count z < top.count z := by
    by_contra hall
    rw [not_exists] at hall
    exact h (Multiset.le_iff_count.mpr fun a => not_lt.mp (hall a))
  refine ⟨z, Multiset.count_pos.mp (by omega), ?_⟩
  rw [← Multiset.count_pos, Multiset.count_sub, Multiset.count_add]
  omega

/-- What the first selection dropped exceeds nothing that a second one keeps, for the first
already holds `k` elements above it. -/
theorem Dominates.le_of_dropped {k : ℕ} {top s t result : Multiset α} (hs : Dominates k top s)
    (hr : Dominates k result (top + t)) {x y : α} (hx : x ∈ result) (hy : y ∈ s - top) : y ≤ x := by
  by_contra hlt
  rw [not_le] at hlt
  have hxtop : x ∉ top := fun hmem => not_lt.mpr (hs.dominates x hmem y hy) hlt
  have hfull : top.card = k := by
    have hpos : 0 < (s - top).card := Multiset.card_pos_iff_exists_mem.mpr ⟨y, hy⟩
    have hcard := hs.card
    rw [Multiset.card_sub hs.le] at hpos
    omega
  have hmiss : ¬ top ≤ result := by
    intro hsub
    have heq : top = result := by
      apply Multiset.eq_of_le_of_card_le hsub
      have hcard := hr.card
      omega
    exact hxtop (heq ▸ hx)
  obtain ⟨z, hztop, hzleft⟩ := exists_mem_left_out hmiss
  have hzx : z ≤ x := hr.dominates x hx z hzleft
  have hyz : y ≤ z := hs.dominates z hztop y hy
  exact absurd (hyz.trans hzx) (not_le.mpr hlt)

/-- A selection from a selection and more dominates all they were taken from. -/
theorem Dominates.of_selected {k : ℕ} {top s t result : Multiset α} (hs : Dominates k top s)
    (hr : Dominates k result (top + t)) : Dominates k result (s + t) := by
  refine ⟨hr.le.trans (add_le_add_left hs.le t), ?_, ?_⟩
  · have h₁ := hr.card
    have h₂ := hs.card
    rw [Multiset.card_add] at h₁ ⊢
    omega
  · intro x hx y hy
    have hsplit : s + t - result = (s - top) + (top + t - result) := by
      have hst : s + t = (s - top) + (top + t) := by
        rw [← add_assoc, tsub_add_cancel_of_le hs.le]
      rw [hst, add_tsub_assoc_of_le hr.le]
    rw [hsplit, Multiset.mem_add] at hy
    rcases hy with hdropped | hkept
    · exact hs.le_of_dropped hr hx hdropped
    · exact hr.dominates x hx y hkept

/-- Elements dropped by an earlier selection with the same bound never return. -/
theorem greatest_absorb (k : ℕ) (s t : Multiset α) :
    greatest k ((greatest k s : Multiset α) + t) = greatest k (s + t) := by
  have hdom : Dominates k (greatest k ((greatest k s : Multiset α) + t) : Multiset α) (s + t) :=
    (greatest_dominates k s).of_selected (greatest_dominates k _)
  rw [greatest_eq_sort_of_dominates hdom, descending_greatest]

/-- Elements dropped from either summand never return. -/
theorem greatest_absorb_right (k : ℕ) (s t : Multiset α) :
    greatest k (s + (greatest k t : Multiset α)) = greatest k (s + t) := by
  rw [add_comm, greatest_absorb, add_comm]

/-- Elements dropped before an element is offered never return afterwards. -/
theorem greatest_cons_absorb (k : ℕ) (a : α) (s : Multiset α) :
    greatest k (a ::ₘ (greatest k s : Multiset α)) = greatest k (a ::ₘ s) := by
  rw [← Multiset.singleton_add, greatest_absorb_right, Multiset.singleton_add]

/-- Selecting from a selection at least as large is selecting from the whole. -/
theorem greatest_greatest {k j : ℕ} (h : k ≤ j) (s : Multiset α) :
    greatest k (greatest j s : Multiset α) = greatest k s := by
  change (descending (greatest j s : Multiset α)).take k = _
  rw [descending_greatest, greatest, List.take_take, Nat.min_eq_left h]
  rfl

/-- Parts that keep their own `k` greatest elements keep those of the whole. -/
theorem greatest_sum_congr (k : ℕ) {tops parts : List (Multiset α)}
    (h : List.Forall₂ (fun top part => greatest k top = greatest k part) tops parts) :
    greatest k tops.sum = greatest k parts.sum := by
  induction h with
  | nil => rfl
  | @cons top part tops parts hfirst _ ih =>
    rw [List.sum_cons, List.sum_cons]
    calc greatest k (top + tops.sum)
        = greatest k ((greatest k top : Multiset α) + (greatest k tops.sum : Multiset α)) := by
          rw [greatest_absorb, greatest_absorb_right]
      _ = greatest k ((greatest k part : Multiset α) + (greatest k parts.sum : Multiset α)) := by
          rw [hfirst, ih]
      _ = greatest k (part + parts.sum) := by rw [greatest_absorb, greatest_absorb_right]

/-- Selecting from each part first and then from all of them is selecting from the whole. -/
theorem greatest_sum_absorb (k : ℕ) (parts : List (Multiset α)) :
    greatest k (parts.map fun part => (greatest k part : Multiset α)).sum = greatest k parts.sum := by
  apply greatest_sum_congr
  rw [List.forall₂_map_left_iff, List.forall₂_same]
  intro part _
  exact greatest_greatest le_rfl part

/-- What tells the elements of a multiset apart tells the selected ones apart. -/
theorem nodup_map_greatest {β : Type*} {f : α → β} (k : ℕ) {s : Multiset α} (h : (s.map f).Nodup) :
    ((greatest k s).map f).Nodup := by
  rw [← Multiset.sort_eq s (· ≥ ·), Multiset.map_coe, Multiset.coe_nodup] at h
  exact h.sublist ((List.take_sublist k _).map f)

/-- An element of a descending list is among the first `k` when fewer than `k` exceed it. -/
theorem mem_take_iff_countP_lt {l : List α} (hl : l.Pairwise (· ≥ ·)) (hnodup : l.Nodup) {x : α} (hx : x ∈ l)
    (k : ℕ) : x ∈ l.take k ↔ l.countP (x < ·) < k := by
  induction l generalizing k with
  | nil => cases hx
  | cons a l ih =>
    rw [List.pairwise_cons] at hl
    rw [List.nodup_cons] at hnodup
    cases k with
    | zero => simp
    | succ k =>
      rw [List.take_succ_cons, List.mem_cons]
      rcases List.mem_cons.mp hx with rfl | hmem
      · have hnone : (x :: l).countP (x < ·) = 0 := by
          rw [List.countP_eq_zero]
          intro y hy
          rcases List.mem_cons.mp hy with rfl | hy
          · simp
          · simpa using hl.1 y hy
        rw [hnone]
        exact iff_of_true (Or.inl rfl) (Nat.succ_pos k)
      · have hne : x ≠ a := by
          rintro rfl
          exact hnodup.1 hmem
        have hlt : x < a := lt_of_le_of_ne (hl.1 x hmem) hne
        rw [or_iff_right hne, ih hl.2 hnodup.2 hmem, List.countP_cons_of_pos (by simpa using hlt)]
        exact Nat.succ_lt_succ_iff.symm

/-- A multiset without repetitions is listed without repetitions. -/
theorem descending_nodup {s : Multiset α} (hs : s.Nodup) : (descending s).Nodup := by
  rw [← Multiset.coe_nodup, Multiset.sort_eq]
  exact hs

/-- Without repetitions an element is selected when fewer than `k` exceed it. -/
theorem mem_greatest_iff {s : Multiset α} (hs : s.Nodup) {x : α} (hx : x ∈ s) (k : ℕ) :
    x ∈ greatest k s ↔ s.countP (x < ·) < k := by
  have hcount : s.countP (x < ·) = (descending s).countP (x < ·) := by
    nth_rewrite 1 [← Multiset.sort_eq s (· ≥ ·)]
    exact Multiset.coe_countP _ _
  rw [hcount, greatest]
  exact mem_take_iff_countP_lt (Multiset.pairwise_sort s _) (descending_nodup hs) ((Multiset.mem_sort _).mpr hx) k

/-- An element is listed before a selected one exactly when it exceeds that. -/
theorem pair_sublist_greatest_iff {s : Multiset α} (hs : s.Nodup) {x y : α} (hx : x ∈ s) (hy : y ∈ s) (k : ℕ) :
    [x, y].Sublist (greatest k s) ↔ y ∈ greatest k s ∧ y < x := by
  have hnodup : (greatest k s).Nodup := (descending_nodup hs).sublist (List.take_sublist k _)
  constructor
  · intro hsub
    have hle := List.pairwise_pair.mp ((greatest_pairwise k s).sublist hsub)
    have hne : x ≠ y := by simpa using hnodup.sublist hsub
    exact ⟨hsub.mem (by simp), lt_of_le_of_ne hle hne.symm⟩
  · intro h
    obtain ⟨hselected, hlt⟩ := h
    have hcount : s.countP (x < ·) ≤ s.countP (y < ·) := by
      rw [Multiset.countP_eq_card_filter, Multiset.countP_eq_card_filter]
      exact Multiset.card_le_card (Multiset.monotone_filter_right s fun z hz => hlt.trans hz)
    have hboth : x ∈ greatest k s := by
      rw [mem_greatest_iff hs hx]
      rw [mem_greatest_iff hs hy] at hselected
      omega
    have hpair : [x, y].Pairwise (· ≥ ·) := by simpa using hlt.le
    refine List.sublist_of_subperm_of_pairwise (List.subperm_of_subset ?_ ?_) hpair (greatest_pairwise k s)
    · simpa using hlt.ne'
    · intro z hz
      rcases List.mem_pair.mp hz with rfl | rfl
      · exact hboth
      · exact hselected

/-- A greatest element comes first, and the rest is selected from what is left. -/
theorem greatest_succ_of_max {s : Multiset α} {x : α} (hx : x ∈ s) (hmax : ∀ y ∈ s, y ≤ x) (k : ℕ) :
    greatest (k + 1) s = x :: greatest k (s.erase x) := by
  have hsorted : descending s = x :: descending (s.erase x) := by
    apply descending_unique
    · rw [List.pairwise_cons]
      refine ⟨?_, Multiset.pairwise_sort _ _⟩
      intro y hy
      exact hmax y (Multiset.mem_of_mem_erase ((Multiset.mem_sort _).mp hy))
    · rw [← Multiset.cons_coe, Multiset.sort_eq, Multiset.cons_erase hx]
  change (descending s).take (k + 1) = x :: (descending (s.erase x)).take k
  rw [hsorted, List.take_succ_cons]

omit [LinearOrder α] in
/-- A list keeps the front of what satisfies a condition in a front that is longer by as much as
does not. -/
theorem take_filter_of_countP_le {p : α → Bool} {l : List α} {n : ℕ} (h : l.countP (fun x => !p x) ≤ n) (k : ℕ) :
    (l.filter p).take k = ((l.take (k + n)).filter p).take k := by
  induction l generalizing k n with
  | nil => simp
  | cons a l ih =>
    rw [List.countP_cons] at h
    by_cases ha : p a = true
    · cases k with
      | zero => simp
      | succ k =>
        have hrest := ih (by simpa [ha] using h) k
        rw [Nat.add_right_comm, List.take_succ_cons, List.filter_cons_of_pos ha, List.filter_cons_of_pos ha,
          List.take_succ_cons, List.take_succ_cons, hrest]
    · obtain ⟨m, rfl⟩ : ∃ m, n = m + 1 := ⟨n - 1, by simp [ha] at h; omega⟩
      have hrest := @ih m (by simpa [ha] using h) k
      rw [← Nat.add_assoc, List.take_succ_cons, List.filter_cons_of_neg ha, List.filter_cons_of_neg ha, hrest]

/-- Selecting from what satisfies a condition is taking the front of what satisfies it in order. -/
theorem greatest_filter (p : α → Bool) (s : Multiset α) (k : ℕ) :
    greatest k (s.filter (p · = true)) = ((descending s).filter p).take k := by
  have hsorted : (descending s).Pairwise (· ≥ ·) := Multiset.pairwise_sort s _
  apply greatest_eq_take k (hsorted.filter p)
  conv_rhs => rw [← Multiset.sort_eq s (· ≥ ·), Multiset.filter_coe]
  simp only [Bool.decide_eq_true]

/-- A selection restricted to a condition is what the selection under the condition begins with. -/
theorem filter_greatest_begins (p : α → Bool) (s : Multiset α) (k : ℕ) :
    (greatest k s).filter p <+: greatest k (s.filter (p · = true)) := by
  rw [greatest_filter, List.prefix_take_iff]
  refine ⟨⟨((descending s).drop k).filter p, ?_⟩, ?_⟩
  · rw [greatest, ← List.filter_append, List.take_append_drop]
  · exact (List.length_filter_le p _).trans (List.length_take_le k _)

/-- What satisfies a condition is found in a selection that is larger by as much as does not,
whatever is added to it. -/
theorem greatest_filter_absorb {p : α → Bool} {s : Multiset α} {n : ℕ} (h : s.countP (fun x => !p x) ≤ n) (k : ℕ)
    (t : Multiset α) :
    greatest k (s.filter (p · = true) + t) =
      greatest k (((greatest (k + n) s).filter p : Multiset α) + t) := by
  have hsorted : (descending s).Pairwise (· ≥ ·) := Multiset.pairwise_sort s _
  have hcount : (descending s).countP (fun x => !p x) ≤ n := by
    rw [← Multiset.sort_eq s (· ≥ ·), Multiset.coe_countP] at h
    simpa only [Bool.decide_eq_true] using h
  have hfront : greatest k ((greatest (k + n) s).filter p : Multiset α) =
      (((descending s).take (k + n)).filter p).take k :=
    greatest_eq_take k ((hsorted.sublist (List.take_sublist _ _)).filter p) rfl
  rw [← greatest_absorb k (s.filter _) t, ← greatest_absorb k ((greatest (k + n) s).filter p : Multiset α) t,
    greatest_filter, hfront, take_filter_of_countP_le hcount]

end Selection
