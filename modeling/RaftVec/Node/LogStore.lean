import RaftVec.Library.FiniteMap
import RaftVec.Library.Run
import RaftVec.Node.StateMachine

/-!
# The in-memory Raft log of one replica

The log keeps entries in a `BTreeMap` under their indices. Under the storage contract of
openraft its keys are one interval, from just past the last purged entry to the end of
the log: appends extend it by one index each, a truncation cuts its end, and a purge cuts
its start, possibly beyond the last entry.
-/

namespace RaftVec

open Std FiniteMap

/-- One end of a range of indices. -/
inductive Bound where
  | included (index : ℕ)
  | excluded (index : ℕ)
  | unbounded
deriving DecidableEq

/-- A range of indices, as `RangeBounds` describes one. -/
structure RangeBounds where
  startBound : Bound
  endBound : Bound
deriving DecidableEq

/-- The index lies between both ends. -/
def RangeBounds.contains (range : RangeBounds) (index : ℕ) : Bool :=
  (match range.startBound with
    | .included start => decide (start ≤ index)
    | .excluded start => decide (start < index)
    | .unbounded => true) &&
  match range.endBound with
    | .included stop => decide (index ≤ stop)
    | .excluded stop => decide (index < stop)
    | .unbounded => true

/-- What a log reports about its ends. -/
structure LogState where
  lastPurgedLogId : Option LogId
  lastLogId : Option LogId
deriving DecidableEq

/-- The entries kept, by index, and the last entry dropped from the front. -/
structure LogStore (F : Type*) where
  lastPurgedLogId : Option LogId
  log : ExtTreeMap ℕ (Entry F)

namespace LogStore

variable {F : Type*}

/-- A log that never held anything. -/
def default : LogStore F := ⟨none, ∅⟩

/-- The entries in a range, in index order. A range that ends before it starts is empty here;
`BTreeMap::range` panics on it. -/
def tryGetLogEntries (self : LogStore F) (range : RangeBounds) : List (Entry F) :=
  (self.log.toList.filter fun item => range.contains item.1).map Prod.snd

/-- The last entry's id, or the last purged one when no entry is left. -/
def getLogState (self : LogStore F) : LogState :=
  ⟨self.lastPurgedLogId,
    (self.log.toList.getLast?.map fun item => item.2.logId).or self.lastPurgedLogId⟩

/-- Store each entry under its own index. -/
def append (self : LogStore F) (entries : List (Entry F)) : LogStore F :=
  { self with log := entries.foldl (fun log entry => log.insert entry.logId.index entry) self.log }

/-- Remove the entries whose index lies in a range, one key at a time. -/
def removeRange (log : ExtTreeMap ℕ (Entry F)) (range : RangeBounds) : ExtTreeMap ℕ (Entry F) :=
  ((log.toList.map Prod.fst).filter range.contains).foldl (fun log key => log.erase key) log

/-- Drop the entries from an index on. -/
def truncate (self : LogStore F) (logId : LogId) : LogStore F :=
  { self with log := removeRange self.log ⟨.included logId.index, .unbounded⟩ }

/-- Drop the entries up to an index and remember where the log now starts. -/
def purge (self : LogStore F) (logId : LogId) : LogStore F :=
  ⟨some logId, removeRange self.log ⟨.unbounded, .included logId.index⟩⟩

/-! ## What the operations do to the keys -/

/-- An entry is returned exactly when it is kept under an index in the range. -/
theorem mem_tryGetLogEntries (self : LogStore F) (range : RangeBounds) (entry : Entry F) :
    entry ∈ self.tryGetLogEntries range ↔
      ∃ index, self.log[index]? = some entry ∧ range.contains index = true := by
  simp only [tryGetLogEntries, List.mem_map, List.mem_filter]
  constructor
  · intro h
    obtain ⟨item, ⟨hitem, hrange⟩, rfl⟩ := h
    exact ⟨item.1, ExtTreeMap.mem_toList_iff_getElem?_eq_some.mp hitem, hrange⟩
  · intro h
    obtain ⟨index, hkept, hrange⟩ := h
    exact ⟨(index, entry), ⟨ExtTreeMap.mem_toList_iff_getElem?_eq_some.mpr hkept, hrange⟩, rfl⟩

/-- Erasing a list of keys removes those and no others. -/
theorem getElem?_foldl_erase (keys : List ℕ) (log : ExtTreeMap ℕ (Entry F)) (index : ℕ) :
    (keys.foldl (fun log key => log.erase key) log)[index]? =
      if index ∈ keys then none else log[index]? := by
  induction keys generalizing log with
  | nil => simp
  | cons key keys ih =>
    rw [List.foldl_cons, ih, ExtTreeMap.getElem?_erase]
    by_cases hkeys : index ∈ keys
    · simp [hkeys]
    · by_cases hkey : key = index
      · simp [hkey]
      · simp [hkeys, hkey, Ne.symm hkey]

/-- Removing a range removes exactly the indices in it. -/
theorem getElem?_removeRange (log : ExtTreeMap ℕ (Entry F)) (range : RangeBounds) (index : ℕ) :
    (removeRange log range)[index]? = if range.contains index then none else log[index]? := by
  rw [removeRange, getElem?_foldl_erase]
  by_cases hrange : range.contains index = true
  · rw [if_pos hrange]
    cases hkept : log[index]? with
    | none => exact ite_self none
    | some entry =>
      have hkey : index ∈ log.toList.map Prod.fst :=
        List.mem_map.mpr ⟨(index, entry), ExtTreeMap.mem_toList_iff_getElem?_eq_some.mpr hkept, rfl⟩
      rw [if_pos (List.mem_filter.mpr ⟨hkey, hrange⟩)]
  · rw [if_neg hrange, if_neg]
    intro hmem
    exact hrange (List.mem_filter.mp hmem).2

/-! ## The interval of indices kept -/

/-- The first index that has not been purged. -/
def firstIndex (self : LogStore F) : ℕ := self.lastPurgedLogId.elim 0 fun logId => logId.index + 1

/-- The index the next appended entry must have. -/
def nextIndex (self : LogStore F) : ℕ := self.getLogState.lastLogId.elim 0 fun logId => logId.index + 1

/-- The log keeps, under its own index, one entry for each index up to `stop` that was not purged. -/
structure Spans (store : LogStore F) (stop : ℕ) : Prop where
  own_index : ∀ (index : ℕ) (entry : Entry F), store.log[index]? = some entry → entry.logId.index = index
  kept_iff : ∀ index : ℕ, index ∈ store.log ↔ store.firstIndex ≤ index ∧ index < stop
  firstIndex_le : store.firstIndex ≤ stop

/-- A log that keeps an interval continues at the interval's end. -/
theorem Spans.nextIndex_eq {self : LogStore F} {stop : ℕ} (h : self.Spans stop) :
    self.nextIndex = stop := by
  rw [nextIndex, getLogState]
  cases hlast : self.log.toList.getLast? with
  | none =>
    have hempty : self.firstIndex ∉ self.log := by
      rw [ExtTreeMap.mem_iff_isSome_getElem?, Option.not_isSome_iff_eq_none]
      exact getElem?_of_getLast?_none hlast _
    have hstop := mt (h.kept_iff self.firstIndex).mpr hempty
    have hle := h.firstIndex_le
    change self.firstIndex = stop
    omega
  | some item =>
    obtain ⟨hkept, hgreatest⟩ := getElem?_of_getLast? hlast
    have hitem := (h.kept_iff item.1).mp (ExtTreeMap.mem_iff_isSome_getElem?.mpr (by rw [hkept]; rfl))
    have hend : stop - 1 ∈ self.log := (h.kept_iff _).mpr (by omega)
    have hle : stop - 1 ≤ item.1 := Nat.isLE_compare.mp (hgreatest _ hend)
    change item.2.logId.index + 1 = stop
    rw [h.own_index item.1 item.2 hkept]
    omega

/-- A log that never held anything keeps the empty interval. -/
theorem spans_default : (default : LogStore F).Spans 0 := by
  refine ⟨?_, ?_, Nat.le_refl 0⟩
  · intro index entry hentry
    simp [default] at hentry
  · intro index
    simp [default]

/-- An entry appended at the end extends the interval by one. -/
theorem Spans.append_entry {self : LogStore F} {stop : ℕ} (h : self.Spans stop) {entry : Entry F}
    (hindex : entry.logId.index = stop) : (self.append [entry]).Spans (stop + 1) := by
  have hfirst := h.firstIndex_le
  refine ⟨?_, ?_, Nat.le_succ_of_le hfirst⟩
  · intro index kept hkept
    simp only [append, List.foldl_cons, List.foldl_nil, ExtTreeMap.getElem?_insert] at hkept
    by_cases hsame : entry.logId.index = index
    · simp only [hsame, compare_self, if_true, Option.some.injEq] at hkept
      rw [← hkept, hsame]
    · simp only [Std.compare_eq_iff_eq, hsame, if_false] at hkept
      exact h.own_index index kept hkept
  · intro index
    have hkeys : index ∈ (self.append [entry]).log ↔ entry.logId.index = index ∨ index ∈ self.log := by
      simp [append, ExtTreeMap.mem_insert]
    change _ ↔ self.firstIndex ≤ index ∧ index < stop + 1
    rw [hkeys, h.kept_iff, hindex]
    omega

/-- Appending is appending one entry after the other. -/
theorem append_cons (self : LogStore F) (entry : Entry F) (entries : List (Entry F)) :
    self.append (entry :: entries) = (self.append [entry]).append entries := rfl

/-- Consecutive entries appended at the end extend the interval by their number. -/
theorem Spans.append {self : LogStore F} {stop : ℕ} (h : self.Spans stop) {entries : List (Entry F)}
    (hindices : entries.map (·.logId.index) = List.range' stop entries.length) :
    (self.append entries).Spans (stop + entries.length) := by
  induction entries generalizing self stop with
  | nil => exact h
  | cons entry entries ih =>
    rw [List.map_cons, List.length_cons, List.range'_succ, List.cons.injEq] at hindices
    have hrest := ih (h.append_entry hindices.1) hindices.2
    rw [append_cons, List.length_cons, Nat.add_comm entries.length 1, ← Nat.add_assoc]
    exact hrest

/-- Removing a range keeps the other entries under their own indices. -/
theorem mem_removeRange (log : ExtTreeMap ℕ (Entry F)) (range : RangeBounds) (index : ℕ) :
    index ∈ removeRange log range ↔ range.contains index = false ∧ index ∈ log := by
  rw [ExtTreeMap.mem_iff_isSome_getElem?, ExtTreeMap.mem_iff_isSome_getElem?, getElem?_removeRange]
  cases range.contains index <;> simp

/-- Whatever is left after removing a range was there before. -/
theorem getElem?_of_removeRange {log : ExtTreeMap ℕ (Entry F)} {range : RangeBounds} {index : ℕ}
    {entry : Entry F} (h : (removeRange log range)[index]? = some entry) : log[index]? = some entry := by
  rw [getElem?_removeRange] at h
  cases hrange : range.contains index <;> simp_all

/-- A truncation above the purged entries cuts the interval's end. -/
theorem Spans.truncate {self : LogStore F} {stop : ℕ} (h : self.Spans stop) {logId : LogId}
    (hpurged : self.firstIndex ≤ logId.index) : (self.truncate logId).Spans (min stop logId.index) := by
  refine ⟨?_, ?_, Nat.le_min.mpr ⟨h.firstIndex_le, hpurged⟩⟩
  · intro index entry hentry
    exact h.own_index index entry (getElem?_of_removeRange hentry)
  · intro index
    change index ∈ removeRange _ _ ↔ self.firstIndex ≤ index ∧ index < min stop logId.index
    rw [mem_removeRange, h.kept_iff]
    simp only [RangeBounds.contains, Bool.and_true, decide_eq_false_iff_not]
    omega

/-- A purge cuts the interval's start, or moves the whole interval beyond its end. -/
theorem Spans.purge {self : LogStore F} {stop : ℕ} (h : self.Spans stop) {logId : LogId}
    (hforward : self.firstIndex ≤ logId.index + 1) :
    (self.purge logId).Spans (max stop (logId.index + 1)) := by
  refine ⟨?_, ?_, Nat.le_max_right _ _⟩
  · intro index entry hentry
    exact h.own_index index entry (getElem?_of_removeRange hentry)
  · intro index
    change index ∈ removeRange _ _ ↔ logId.index + 1 ≤ index ∧ index < max stop (logId.index + 1)
    rw [mem_removeRange, h.kept_iff]
    simp only [RangeBounds.contains, Bool.true_and, decide_eq_false_iff_not]
    omega

end LogStore

end RaftVec
