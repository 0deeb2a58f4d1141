import RaftVec.Node.LogStore

/-!
# The log as a plain list

What the in-memory log is for: a list of entries that grows at its end, loses its end to
a truncation and its start to a purge. Under the storage contract of openraft the map
lists exactly these entries, in order and under consecutive indices, and the entry found
at an index is the one appended there last.
-/

namespace RaftVec

open Std FiniteMap Run

/-- One call openraft makes on the log. -/
inductive LogEvent (F : Type*) where
  | append (entries : List (Entry F))
  | truncate (logId : LogId)
  | purge (logId : LogId)

/-- The surviving entries in order, and the last entry dropped from the front. -/
structure ListLog (F : Type*) where
  purged : Option LogId
  entries : List (Entry F)

variable {F : Type*}

namespace ListLog

/-- A list that never held anything. -/
def empty : ListLog F := ⟨none, []⟩

/-- Add entries at the end, keep those before a truncation, or drop those up to a purge. -/
def step (self : ListLog F) : LogEvent F → ListLog F
  | .append entries => { self with entries := self.entries ++ entries }
  | .truncate logId =>
    { self with entries := self.entries.filter fun entry => entry.logId.index < logId.index }
  | .purge logId => ⟨some logId, self.entries.filter fun entry => logId.index < entry.logId.index⟩

end ListLog

/-- The entries appended so far, in the order of the calls. -/
def appended (events : List (LogEvent F)) : List (Entry F) :=
  events.flatMap fun event =>
    match event with
    | .append entries => entries
    | _ => []

/-- The last of some entries with a given index. -/
def lastAt (entries : List (Entry F)) (index : ℕ) : Option (Entry F) :=
  entries.reverse.find? fun entry => entry.logId.index = index

/-- What was appended later comes first. -/
theorem lastAt_append (before after : List (Entry F)) (index : ℕ) :
    lastAt (before ++ after) index = (lastAt after index).or (lastAt before index) := by
  rw [lastAt, List.reverse_append, List.find?_append]
  rfl

/-- What was appended so far, after one more call. -/
theorem appended_append (past : List (LogEvent F)) (event : LogEvent F) :
    appended (past ++ [event]) = appended past ++ appended [event] :=
  List.flatMap_append

/-- Among entries of increasing indices, the last one at an index is the only one. -/
theorem lastAt_eq_some_iff {entries : List (Entry F)}
    (hordered : entries.Pairwise fun a b => a.logId.index < b.logId.index) (index : ℕ) (entry : Entry F) :
    lastAt entries index = some entry ↔ entry ∈ entries ∧ entry.logId.index = index := by
  have hfound : ∀ found, lastAt entries index = some found →
      found ∈ entries ∧ found.logId.index = index := by
    intro found h
    exact ⟨List.mem_reverse.mp (List.mem_of_find?_eq_some h), by simpa using List.find?_some h⟩
  refine ⟨hfound entry, ?_⟩
  intro hentry
  cases hlast : lastAt entries index with
  | none =>
    have hmiss := List.find?_eq_none.mp hlast entry (List.mem_reverse.mpr hentry.1)
    simp [hentry.2] at hmiss
  | some found =>
    obtain ⟨hmem, hindex⟩ := hfound found hlast
    have hdistinct : (entries.map fun e => e.logId.index).Nodup :=
      List.pairwise_map.mpr (hordered.imp Nat.ne_of_lt)
    rw [List.inj_on_of_nodup_map hdistinct hmem hentry.1 (hindex.trans hentry.2.symm)]

namespace LogStore

/-- Serve one call. -/
def step (self : LogStore F) : LogEvent F → LogStore F
  | .append entries => self.append entries
  | .truncate logId => self.truncate logId
  | .purge logId => self.purge logId

/-- What openraft promises of its calls.

Appended entries continue the log without a gap, a truncation stays above the purged
entries, and a purge does not go back, though it may go beyond the end. -/
def Contract (self : LogStore F) : LogEvent F → Prop
  | .append entries => entries.map (·.logId.index) = List.range' self.nextIndex entries.length
  | .truncate logId => self.firstIndex ≤ logId.index
  | .purge logId => self.firstIndex ≤ logId.index + 1

/-- After an append an index holds the last entry appended there, or what it held before. -/
theorem getElem?_append (self : LogStore F) (entries : List (Entry F)) (index : ℕ) :
    (self.append entries).log[index]? = (lastAt entries index).or self.log[index]? := by
  induction entries generalizing self with
  | nil => rfl
  | cons entry entries ih =>
    have hone : (self.append [entry]).log[index]? = (lastAt [entry] index).or self.log[index]? := by
      simp only [append, List.foldl_cons, List.foldl_nil, ExtTreeMap.getElem?_insert, lastAt,
        List.reverse_singleton, List.find?_cons, List.find?_nil, Std.compare_eq_iff_eq]
      by_cases hindex : entry.logId.index = index
      · simp [hindex]
      · simp [hindex]
    have hsplit : lastAt (entry :: entries) index = (lastAt entries index).or (lastAt [entry] index) :=
      lastAt_append [entry] entries index
    rw [append_cons, ih, hone, hsplit, Option.or_assoc]

/-- The map holds the list's entries, each under its own index and without a gap, and
every entry is the last one that the calls so far appended at its index. -/
structure Represents (past : List (LogEvent F)) (store : LogStore F) (list : ListLog F) : Prop where
  purged : store.lastPurgedLogId = list.purged
  spans : store.Spans store.nextIndex
  ordered : list.entries.Pairwise fun a b => a.logId.index < b.logId.index
  kept : ∀ entry, entry ∈ list.entries ↔ store.log[entry.logId.index]? = some entry
  newest : ∀ (index : ℕ) entry, store.log[index]? = some entry → lastAt (appended past) index = some entry

/-- Before any call the empty map holds the empty list. -/
theorem represents_default : Represents [] (default : LogStore F) .empty := by
  refine ⟨rfl, spans_default, List.Pairwise.nil, ?_, ?_⟩
  · intro entry
    simp [ListLog.empty, default]
  · intro index entry hentry
    simp [default] at hentry

/-- A log without gaps spans up to its own next index. -/
theorem Spans.to_nextIndex {self : LogStore F} {stop : ℕ} (h : self.Spans stop) :
    self.Spans self.nextIndex := by
  rw [h.nextIndex_eq]
  exact h

/-- An entry of the list lies within the interval of indices kept. -/
theorem Represents.index_lt {past : List (LogEvent F)} {store : LogStore F} {list : ListLog F}
    (h : Represents past store list) {entry : Entry F} (hentry : entry ∈ list.entries) :
    entry.logId.index < store.nextIndex := by
  have hkept := (h.kept entry).mp hentry
  have hmem : entry.logId.index ∈ store.log :=
    ExtTreeMap.mem_iff_isSome_getElem?.mpr (by rw [hkept]; rfl)
  exact ((h.spans.kept_iff _).mp hmem).2

/-- Entries that continue a log are in the order of their indices. -/
theorem Contract.ordered {store : LogStore F} {entries : List (Entry F)}
    (h : store.Contract (.append entries)) : entries.Pairwise fun a b => a.logId.index < b.logId.index := by
  have hindices : entries.map (·.logId.index) = List.range' store.nextIndex entries.length := h
  rw [← List.pairwise_map, hindices]
  exact List.pairwise_lt_range'

/-- Entries that continue a log come after all of it. -/
theorem Contract.nextIndex_le {store : LogStore F} {entries : List (Entry F)}
    (h : store.Contract (.append entries)) {entry : Entry F} (hentry : entry ∈ entries) :
    store.nextIndex ≤ entry.logId.index := by
  have hindices : entries.map (·.logId.index) = List.range' store.nextIndex entries.length := h
  have hmem := List.mem_map_of_mem (f := fun e : Entry F => e.logId.index) hentry
  rw [hindices, List.mem_range'_1] at hmem
  exact hmem.1

/-- Of the entries of the list and those that continue it the map keeps all. -/
theorem Represents.mem_append_iff {past : List (LogEvent F)} {store : LogStore F} {list : ListLog F}
    (h : Represents past store list) {entries : List (Entry F)} (hcontract : store.Contract (.append entries))
    (entry : Entry F) :
    entry ∈ list.entries ++ entries ↔ (store.append entries).log[entry.logId.index]? = some entry := by
  rw [getElem?_append, List.mem_append, h.kept]
  cases hlast : lastAt entries entry.logId.index with
  | none =>
    have hold : entry ∉ entries := by
      intro hentry
      rw [(lastAt_eq_some_iff hcontract.ordered _ entry).mpr ⟨hentry, rfl⟩] at hlast
      cases hlast
    rw [Option.none_or, or_iff_left hold]
  | some found =>
    obtain ⟨hfound, hindex⟩ := (lastAt_eq_some_iff hcontract.ordered _ found).mp hlast
    have hfresh : store.log[entry.logId.index]? ≠ some entry := by
      intro hkept
      have hlt := h.index_lt ((h.kept entry).mpr hkept)
      have hle := hcontract.nextIndex_le hfound
      omega
    rw [Option.some_or, ← hlast, lastAt_eq_some_iff hcontract.ordered, or_iff_right hfresh, and_iff_left rfl]

/-- Appending entries that continue the log appends them to the list. -/
theorem Represents.append {past : List (LogEvent F)} {store : LogStore F} {list : ListLog F}
    (h : Represents past store list) {entries : List (Entry F)}
    (hcontract : store.Contract (.append entries)) :
    Represents (past ++ [.append entries]) (store.append entries) (list.step (.append entries)) := by
  refine ⟨h.purged, (h.spans.append hcontract).to_nextIndex, ?_, h.mem_append_iff hcontract, ?_⟩
  · refine List.pairwise_append.mpr ⟨h.ordered, hcontract.ordered, ?_⟩
    intro old hold new hmem
    exact (h.index_lt hold).trans_le (hcontract.nextIndex_le hmem)
  · intro index entry hentry
    rw [getElem?_append] at hentry
    rw [appended_append, lastAt_append]
    have hentries : appended [LogEvent.append entries] = entries := List.append_nil entries
    rw [hentries]
    cases hlast : lastAt entries index with
    | none =>
      rw [hlast, Option.none_or] at hentry
      rw [Option.none_or, h.newest index entry hentry]
    | some found =>
      rw [hlast, Option.some_or] at hentry
      rw [Option.some_or, hentry]

/-- Removing a range of indices that leaves no gap keeps the other entries of the list. -/
theorem Represents.removeRange {past : List (LogEvent F)} {store after : LogStore F} {list : ListLog F}
    (h : Represents past store list) (event : LogEvent F) (hnothing : appended [event] = [])
    (range : RangeBounds) (hlog : after.log = LogStore.removeRange store.log range)
    (hspans : after.Spans after.nextIndex) :
    Represents (past ++ [event]) after
      ⟨after.lastPurgedLogId, list.entries.filter fun entry => !range.contains entry.logId.index⟩ := by
  refine ⟨rfl, hspans, h.ordered.filter _, ?_, ?_⟩
  · intro entry
    rw [List.mem_filter, h.kept, hlog, getElem?_removeRange]
    cases range.contains entry.logId.index <;> simp
  · intro index entry hentry
    rw [hlog] at hentry
    rw [appended_append, hnothing, List.append_nil]
    exact h.newest index entry (getElem?_of_removeRange hentry)

/-- Every call within the contract does to the map what it does to the list. -/
theorem Represents.step {past : List (LogEvent F)} {store : LogStore F} {list : ListLog F}
    (h : Represents past store list) {event : LogEvent F} (hcontract : store.Contract event) :
    Represents (past ++ [event]) (store.step event) (list.step event) := by
  cases event with
  | append entries => exact h.append hcontract
  | truncate logId =>
    have hcut := h.removeRange (.truncate logId) rfl ⟨.included logId.index, .unbounded⟩ rfl
      (h.spans.truncate hcontract).to_nextIndex
    have hkept : (list.entries.filter fun entry =>
        !RangeBounds.contains ⟨.included logId.index, .unbounded⟩ entry.logId.index) =
        list.entries.filter fun entry => entry.logId.index < logId.index := by
      apply List.filter_congr
      intro entry _
      simp only [RangeBounds.contains, Bool.and_true, ← decide_not, Nat.not_le]
    rw [hkept] at hcut
    have hpurged : (store.truncate logId).lastPurgedLogId = list.purged := h.purged
    rw [hpurged] at hcut
    exact hcut
  | purge logId =>
    have hcut := h.removeRange (.purge logId) rfl ⟨.unbounded, .included logId.index⟩ rfl
      (h.spans.purge hcontract).to_nextIndex
    have hkept : (list.entries.filter fun entry =>
        !RangeBounds.contains ⟨.unbounded, .included logId.index⟩ entry.logId.index) =
        list.entries.filter fun entry => logId.index < entry.logId.index := by
      apply List.filter_congr
      intro entry _
      simp only [RangeBounds.contains, Bool.true_and, ← decide_not, Nat.not_le]
    rw [hkept] at hcut
    exact hcut

/-- A map that holds a list's entries lists them in the same order. -/
theorem Represents.toList_eq {past : List (LogEvent F)} {store : LogStore F} {list : ListLog F}
    (h : Represents past store list) :
    store.log.toList = list.entries.map fun entry => (entry.logId.index, entry) := by
  apply toList_eq_of_ordered
  · refine List.pairwise_map.mpr (h.ordered.imp ?_)
    intro a b hlt
    exact Nat.compare_eq_lt.mpr hlt
  · intro item
    rw [List.mem_map]
    constructor
    · intro hitem
      obtain ⟨entry, hentry, rfl⟩ := hitem
      exact (h.kept entry).mp hentry
    · intro hkept
      have hindex := h.spans.own_index item.1 item.2 hkept
      refine ⟨item.2, (h.kept item.2).mpr ?_, by rw [hindex]⟩
      rw [hindex]
      exact hkept

/-- The indices of the list are the interval from the first one not purged to the last. -/
theorem Represents.indices_eq {past : List (LogEvent F)} {store : LogStore F} {list : ListLog F}
    (h : Represents past store list) :
    list.entries.map (fun entry => entry.logId.index) =
      List.range' store.firstIndex (store.nextIndex - store.firstIndex) := by
  have hkeys : store.log.toList.map Prod.fst = list.entries.map fun entry => entry.logId.index := by
    rw [h.toList_eq, List.map_map]
    rfl
  have hordered : (list.entries.map fun entry => entry.logId.index).Pairwise (· < ·) :=
    List.pairwise_map.mpr h.ordered
  have hrange : (List.range' store.firstIndex (store.nextIndex - store.firstIndex)).Pairwise (· < ·) :=
    List.pairwise_lt_range'
  have hperm : (list.entries.map fun entry => entry.logId.index).Perm
      (List.range' store.firstIndex (store.nextIndex - store.firstIndex)) := by
    rw [List.perm_ext_iff_of_nodup (hordered.imp Nat.ne_of_lt) (hrange.imp Nat.ne_of_lt)]
    intro index
    have hle := h.spans.firstIndex_le
    rw [← hkeys, ExtTreeMap.map_fst_toList_eq_keys, ExtTreeMap.mem_keys, h.spans.kept_iff, List.mem_range'_1]
    omega
  exact hperm.eq_of_pairwise (fun a b _ _ hab hba => absurd hab (Nat.lt_asymm hba)) hordered hrange

/-- Under the storage contract the map is a plain list: entries sit under their own
indices, the keys are the interval from the purged entries to the end, the reported ends
are the list's, and a range returns the surviving entries in it, each the one appended
last at its index. -/
theorem log_refines_list (events : List (LogEvent F)) (hcontract : Guarded Contract step default events) :
    let store : LogStore F := run step default events
    let list : ListLog F := run ListLog.step .empty events
    (∀ (index : ℕ) entry, store.log[index]? = some entry → entry.logId.index = index) ∧
      store.log.toList.map Prod.fst =
        List.range' store.firstIndex (store.nextIndex - store.firstIndex) ∧
      store.getLogState = ⟨list.purged, (list.entries.getLast?.map Entry.logId).or list.purged⟩ ∧
      ∀ range : RangeBounds,
        store.tryGetLogEntries range =
            list.entries.filter (fun entry => range.contains entry.logId.index) ∧
          (store.tryGetLogEntries range).map (fun entry => entry.logId.index) =
            (List.range' store.firstIndex (store.nextIndex - store.firstIndex)).filter range.contains ∧
          ∀ entry ∈ store.tryGetLogEntries range,
            lastAt (appended events) entry.logId.index = some entry := by
  intro store list
  have h : Represents events store list := by
    have hstep : ∀ past (s : LogStore F) event, Represents past s (run ListLog.step .empty past) →
        s.Contract event →
        Represents (past ++ [event]) (s.step event) (run ListLog.step .empty (past ++ [event])) := by
      intro past s event hpast hevent
      rw [run_append]
      exact hpast.step hevent
    exact invariant_of_history hstep represents_default hcontract
  have hentries : ∀ range : RangeBounds, store.tryGetLogEntries range =
      list.entries.filter fun entry => range.contains entry.logId.index := by
    intro range
    rw [tryGetLogEntries, h.toList_eq, List.filter_map, List.map_map]
    exact List.map_id _
  refine ⟨h.spans.own_index, ?_, ?_, ?_⟩
  · rw [← h.indices_eq, h.toList_eq, List.map_map]
    rfl
  · rw [getLogState, h.toList_eq, h.purged, List.getLast?_map, Option.map_map]
    rfl
  · intro range
    refine ⟨hentries range, ?_, ?_⟩
    · rw [hentries, ← h.indices_eq, List.filter_map]
      rfl
    · intro entry hentry
      rw [hentries, List.mem_filter] at hentry
      exact h.newest _ entry ((h.kept entry).mp hentry.1)

/-- Two entries of which the second is replaced, and then a purge beyond the end. -/
theorem log_refines_list_replaced :
    let first : Entry ℤ := ⟨⟨⟨1, 1⟩, 0⟩, .blank⟩
    let second : Entry ℤ := ⟨⟨⟨1, 1⟩, 1⟩, .blank⟩
    let replaced : Entry ℤ := ⟨⟨⟨2, 2⟩, 1⟩, .blank⟩
    let events : List (LogEvent ℤ) := [.append [first, second], .truncate second.logId, .append [replaced]]
    (run step default events).tryGetLogEntries ⟨.included 1, .unbounded⟩ = [replaced] ∧
      lastAt (appended events) 1 = some replaced ∧
      (run step default (events ++ [.purge ⟨⟨2, 2⟩, 5⟩])).getLogState = ⟨some ⟨⟨2, 2⟩, 5⟩, some ⟨⟨2, 2⟩, 5⟩⟩ := by
  intro first second replaced events
  have hcontract : Guarded Contract step default events :=
    ⟨rfl, Nat.zero_le _, rfl, trivial⟩
  have hpurged : Guarded Contract step default (events ++ [.purge ⟨⟨2, 2⟩, 5⟩]) :=
    ⟨rfl, Nat.zero_le _, rfl, Nat.zero_le _, trivial⟩
  have hrange := (log_refines_list events hcontract).2.2.2 ⟨.included 1, .unbounded⟩
  have hstate := (log_refines_list _ hpurged).2.2.1
  refine ⟨hrange.1.trans (by decide), ?_, hstate.trans (by decide)⟩
  exact hrange.2.2 replaced (by rw [hrange.1]; decide)

end LogStore

end RaftVec
