import RaftVec.Node.LogStore
import RaftVec.Node.Snapshot

/-!
# Whether a leader can still bring a follower up to date

A leader catches a follower up from entries its log still has, or from the snapshot that
`get_current_snapshot` hands out. Openraft purges the log once a snapshot covers it, but
that snapshot is never handed out again: `get_current_snapshot` answers none. The entries
before the purge point are then in neither place, so a replica stays recoverable exactly
as long as it never purges.
-/

namespace RaftVec

open Std Run

/-- One storage call openraft makes on a replica. -/
inductive StorageEvent (F Bytes : Type*) where
  | append (entries : List (Entry F))
  | truncate (logId : LogId)
  | apply (entries : List (Entry F))
  | buildSnapshot
  | installSnapshot (covers : SnapshotMeta) (bytes : Bytes)
  | purge (logId : LogId)

/-- A replica's log and state machine, with what its snapshots so far covered. -/
structure ReplicaStorage (F : Type*) where
  logStore : LogStore F
  machine : ShardStateMachine F
  covered : List SnapshotMeta

namespace ReplicaStorage

variable {F Bytes : Type*}

/-- A replica just started over a store. -/
def fresh (store : Store F) : ReplicaStorage F := ⟨.default, .new store, []⟩

/-- What openraft promises of its calls.

Appended entries continue the log without a gap, a truncation stays above the purged
entries, and a purge goes forward and only up to what some snapshot built or installed
here covers. -/
def Contract (self : ReplicaStorage F) : StorageEvent F Bytes → Prop
  | .append entries =>
    entries.map (·.logId.index) = List.range' self.logStore.nextIndex entries.length
  | .truncate logId => self.logStore.firstIndex ≤ logId.index
  | .purge logId =>
    self.logStore.firstIndex ≤ logId.index + 1 ∧
      ∃ covers ∈ self.covered, ∃ last, covers.lastLogId = some last ∧ logId.index ≤ last.index
  | _ => True

/-- Every index of the log is still in the log or in the snapshot handed out. -/
def Recoverable (Bytes : Type*) (self : ReplicaStorage F) : Prop :=
  ∀ last, self.logStore.getLogState.lastLogId = some last → ∀ index ≤ last.index,
    (∃ entry ∈ self.logStore.tryGetLogEntries ⟨.included index, .included index⟩,
      entry.logId.index = index) ∨
    ∃ snapshot : Snapshot Bytes, self.machine.getCurrentSnapshot = some snapshot ∧
      ∃ covered, snapshot.covers.lastLogId = some covered ∧ index ≤ covered.index

/-- Once an entry is purged, its index is neither in the log nor in a snapshot handed out. -/
theorem not_recoverable_of_purged {self : ReplicaStorage F} {stop : ℕ} (h : self.logStore.Spans stop)
    {purged : LogId} (hpurged : self.logStore.lastPurgedLogId = some purged) : ¬self.Recoverable Bytes := by
  intro hrecoverable
  have hnext := h.nextIndex_eq
  have hfirst := h.firstIndex_le
  have hstart : self.logStore.firstIndex = purged.index + 1 := by
    rw [LogStore.firstIndex, hpurged, Option.elim_some]
  cases hlast : self.logStore.getLogState.lastLogId with
  | none =>
    rw [LogStore.nextIndex, hlast, Option.elim_none] at hnext
    omega
  | some last =>
    rw [LogStore.nextIndex, hlast, Option.elim_some] at hnext
    cases hrecoverable last hlast purged.index (by omega) with
    | inl hkept =>
      obtain ⟨entry, hentry, hindex⟩ := hkept
      obtain ⟨index, hlookup, _⟩ := (self.logStore.mem_tryGetLogEntries _ entry).mp hentry
      have hown := h.own_index index entry hlookup
      have hmem := (h.kept_iff index).mp (ExtTreeMap.mem_iff_isSome_getElem?.mpr (by rw [hlookup]; rfl))
      omega
    | inr hshipped =>
      obtain ⟨snapshot, hsnapshot, _⟩ := hshipped
      cases hsnapshot

/-- As long as nothing is purged, a gapless log has every index. -/
theorem recoverable_of_unpurged {self : ReplicaStorage F} {stop : ℕ} (h : self.logStore.Spans stop)
    (hpurged : self.logStore.lastPurgedLogId = none) : self.Recoverable Bytes := by
  intro last hlast index hindex
  have hnext := h.nextIndex_eq
  have hstart : self.logStore.firstIndex = 0 := by
    rw [LogStore.firstIndex, hpurged, Option.elim_none]
  rw [LogStore.nextIndex, hlast, Option.elim_some] at hnext
  have hmem : index ∈ self.logStore.log := (h.kept_iff index).mpr (by omega)
  obtain ⟨entry, hentry⟩ := Option.isSome_iff_exists.mp (ExtTreeMap.mem_iff_isSome_getElem?.mp hmem)
  refine Or.inl ⟨entry, ?_, h.own_index index entry hentry⟩
  exact (self.logStore.mem_tryGetLogEntries _ entry).mpr ⟨index, hentry, by simp [RangeBounds.contains]⟩

/-- A gapless log is recoverable exactly as long as nothing has been purged from it. -/
theorem recoverable_iff_of_spans {self : ReplicaStorage F} {stop : ℕ} (h : self.logStore.Spans stop) :
    self.Recoverable Bytes ↔ self.logStore.lastPurgedLogId = none := by
  constructor
  · intro hrecoverable
    cases hpurged : self.logStore.lastPurgedLogId with
    | none => rfl
    | some purged => exact absurd hrecoverable (not_recoverable_of_purged h hpurged)
  · exact recoverable_of_unpurged h

variable [FloatOps F]

/-- Serve one storage call. -/
def step (codec : Bincode F Bytes) (self : ReplicaStorage F) : StorageEvent F Bytes → ReplicaStorage F
  | .append entries => { self with logStore := self.logStore.append entries }
  | .truncate logId => { self with logStore := self.logStore.truncate logId }
  | .apply entries => { self with machine := (self.machine.apply entries).2 }
  | .buildSnapshot =>
    match self.machine.buildSnapshot codec with
    | .error _ => self
    | .ok snapshot => { self with covered := self.covered ++ [snapshot.covers] }
  | .installSnapshot covers bytes =>
    match self.machine.installSnapshot codec covers bytes with
    | (.error _, _) => self
    | (.ok (), machine) => { self with machine := machine, covered := self.covered ++ [covers] }
  | .purge logId => { self with logStore := self.logStore.purge logId }

/-- Building a snapshot leaves the log alone. -/
theorem step_buildSnapshot_logStore (codec : Bincode F Bytes) (self : ReplicaStorage F) :
    (self.step codec .buildSnapshot).logStore = self.logStore := by
  simp only [step]
  split <;> rfl

/-- Installing a snapshot leaves the log alone. -/
theorem step_installSnapshot_logStore (codec : Bincode F Bytes) (self : ReplicaStorage F)
    (covers : SnapshotMeta) (bytes : Bytes) :
    (self.step codec (.installSnapshot covers bytes)).logStore = self.logStore := by
  simp only [step]
  split <;> rfl

/-- Every call within the contract leaves the log without gaps. -/
theorem spans_step (codec : Bincode F Bytes) (self : ReplicaStorage F) (event : StorageEvent F Bytes)
    (h : ∃ stop, self.logStore.Spans stop) (hcontract : self.Contract event) :
    ∃ stop, (self.step codec event).logStore.Spans stop := by
  obtain ⟨stop, hspans⟩ := h
  cases event with
  | append entries =>
    rw [Contract, hspans.nextIndex_eq] at hcontract
    exact ⟨_, hspans.append hcontract⟩
  | truncate logId => exact ⟨_, hspans.truncate hcontract⟩
  | apply entries => exact ⟨stop, hspans⟩
  | buildSnapshot => exact ⟨stop, (step_buildSnapshot_logStore codec self).symm ▸ hspans⟩
  | installSnapshot covers bytes =>
    exact ⟨stop, (step_installSnapshot_logStore codec self covers bytes).symm ▸ hspans⟩
  | purge logId => exact ⟨_, hspans.purge hcontract.1⟩

/-- Only a purge ends the time in which nothing was purged. -/
theorem step_lastPurgedLogId_eq_none_iff (codec : Bincode F Bytes) (self : ReplicaStorage F)
    (event : StorageEvent F Bytes) :
    (self.step codec event).logStore.lastPurgedLogId = none ↔
      self.logStore.lastPurgedLogId = none ∧ ∀ logId, event ≠ .purge logId := by
  cases event with
  | append entries => simp [step, LogStore.append]
  | truncate logId => simp [step, LogStore.truncate]
  | apply entries => simp [step]
  | buildSnapshot => simp [step_buildSnapshot_logStore]
  | installSnapshot covers bytes => simp [step_installSnapshot_logStore]
  | purge logId => simp [step, LogStore.purge]

/-- Nothing has been purged exactly when no call of the run was a purge. -/
theorem run_lastPurgedLogId_eq_none_iff (codec : Bincode F Bytes) (self : ReplicaStorage F)
    (events : List (StorageEvent F Bytes)) :
    (run (step codec) self events).logStore.lastPurgedLogId = none ↔
      self.logStore.lastPurgedLogId = none ∧ ∀ logId, .purge logId ∉ events := by
  induction events generalizing self with
  | nil => simp
  | cons event events ih =>
    rw [run_cons, ih, step_lastPurgedLogId_eq_none_iff, and_assoc]
    apply and_congr_right
    intro _
    simp only [List.mem_cons, not_or, ← forall_and]
    exact forall_congr' fun logId => and_congr_left' ne_comm

/-- In every run within the contract, the state reached is recoverable unless the run purged. -/
theorem recoverable_iff_never_purged (codec : Bincode F Bytes) (store : Store F)
    (events : List (StorageEvent F Bytes))
    (hcontract : Guarded Contract (step codec) (fresh store) events) :
    (run (step codec) (fresh store) events).Recoverable Bytes ↔ ∀ logId, .purge logId ∉ events := by
  obtain ⟨stop, hspans⟩ := invariant_of_guarded (spans_step codec) ⟨0, LogStore.spans_default⟩ hcontract
  rw [recoverable_iff_of_spans hspans, run_lastPurgedLogId_eq_none_iff]
  exact and_iff_right rfl

/-- A replica that has appended and applied one entry and built a snapshot can still serve it. -/
theorem recoverable_before_purge :
    let entry : Entry ℤ := ⟨⟨⟨1, 1⟩, 0⟩, .blank⟩
    (run (step (Bincode.identity ℤ)) (fresh Store.new)
      [.append [entry], .apply [entry], .buildSnapshot]).Recoverable (StoreSnapshot ℤ) := by
  intro entry
  exact (recoverable_iff_never_purged (Bincode.identity ℤ) Store.new
    [.append [entry], .apply [entry], .buildSnapshot] ⟨rfl, trivial, trivial, trivial⟩).mpr (by simp)

/-- The same replica after openraft purges what the snapshot covers: index 0 is nowhere. -/
theorem not_recoverable_after_purge :
    let entry : Entry ℤ := ⟨⟨⟨1, 1⟩, 0⟩, .blank⟩
    let events : List (StorageEvent ℤ (StoreSnapshot ℤ)) :=
      [.append [entry], .apply [entry], .buildSnapshot, .purge entry.logId]
    Guarded Contract (step (Bincode.identity ℤ)) (fresh Store.new) events ∧
      ¬ (run (step (Bincode.identity ℤ)) (fresh Store.new) events).Recoverable (StoreSnapshot ℤ) := by
  intro entry events
  have hcontract : Guarded Contract (step (Bincode.identity ℤ)) (fresh Store.new) events := by
    refine ⟨rfl, trivial, trivial, ⟨Nat.zero_le _, ?_⟩, trivial⟩
    exact ⟨⟨some entry.logId, .default⟩, List.mem_singleton_self _, entry.logId, rfl, Nat.le_refl 0⟩
  refine ⟨hcontract, ?_⟩
  intro hrecoverable
  cases hrecoverable entry.logId (by decide) 0 (Nat.le_refl 0) with
  | inl hkept =>
    obtain ⟨found, hfound, _⟩ := hkept
    have hnone : (run (step (Bincode.identity ℤ)) (fresh Store.new) events).logStore.tryGetLogEntries
        ⟨.included 0, .included 0⟩ = [] := by decide
    rw [hnone] at hfound
    cases hfound
  | inr hshipped =>
    obtain ⟨snapshot, hsnapshot, _⟩ := hshipped
    cases hsnapshot

end ReplicaStorage

end RaftVec
