import RaftVec.Library.FiniteMap
import RaftVec.Library.WatchChannel
import RaftVec.Node.StateMachine

/-!
# The watchers behind the metrics

Two background tasks of a replica wait on the channel in which openraft publishes its metrics.
One counts the elections it sees, the other sets a gauge for each follower of a leader. The
channel keeps its last value only, so what is replaced before a watcher reads it is never seen.

The counter therefore never runs ahead of the changes that were published, but may fall behind
them: a change of leader that lasts is counted, one that is over before it is read is not. A
gauge always shows a lag that was published, and the current one once the watcher is idle.
-/

namespace RaftVec

open Run WatchChannel

/-- The published metrics, as far as the watchers read them. -/
structure WatchedMetrics where
  currentLeader : Option NodeId
  lastLogIndex : Option ℕ
  replication : Option (Std.ExtTreeMap NodeId (Option LogId))

/-! ## Counting elections -/

/-- The variables of the election watcher: the leader it saw last and its counter. -/
structure ElectionWatcher where
  lastLeader : Option NodeId
  elections : ℕ
deriving DecidableEq

/-- A leader is seen that was not there before. -/
def ElectionWatcher.sees (self : ElectionWatcher) (metrics : WatchedMetrics) : Bool :=
  metrics.currentLeader ≠ self.lastLeader && metrics.currentLeader.isSome

/-- The body of the watcher's loop. -/
def ElectionWatcher.observe (self : ElectionWatcher) (metrics : WatchedMetrics) : ElectionWatcher :=
  ⟨metrics.currentLeader, if self.sees metrics then self.elections + 1 else self.elections⟩

/-- The watcher just after it was spawned; some publications may be unseen. -/
def ElectionWatcher.spawn (metrics : WatchedMetrics) (seen unseen : ℕ) : Watch WatchedMetrics ElectionWatcher :=
  ⟨metrics, seen + unseen, false, seen, .waiting, ⟨metrics.currentLeader, 0⟩⟩

namespace ElectionWatcher

/-- What is seen. -/
theorem sees_iff {self : ElectionWatcher} {metrics : WatchedMetrics} :
    self.sees metrics = true ↔ metrics.currentLeader ≠ self.lastLeader ∧ metrics.currentLeader.isSome := by
  simp [sees]

/-- What is seen is counted. -/
theorem elections_observe (self : ElectionWatcher) (metrics : WatchedMetrics) :
    (self.observe metrics).elections = self.elections + (self.sees metrics).toNat := by
  rw [observe]
  cases self.sees metrics <;> rfl

/-- The watcher knows the current leader. -/
def UpToDate (watch : Watch WatchedMetrics ElectionWatcher) : Prop :=
  watch.memory.lastLeader = watch.value.currentLeader

/-- A watcher that knows the leader is not changed by seeing it again. -/
theorem observe_of_same {self : ElectionWatcher} {metrics : WatchedMetrics}
    (h : self.lastLeader = metrics.currentLeader) : self.observe metrics = self := by
  simp [observe, sees, ← h]

/-- Reading the same metrics twice is reading them once. -/
theorem observe_observe (self : ElectionWatcher) (metrics : WatchedMetrics) :
    (self.observe metrics).observe metrics = self.observe metrics :=
  observe_of_same rfl

/-- At its next read the watcher counts no more than one that misses nothing. -/
def Behind (start : ElectionWatcher) (past : List WatchedMetrics) (value : WatchedMetrics)
    (memory : ElectionWatcher) : Prop :=
  (past.foldl observe start).lastLeader = value.currentLeader ∧
    (memory.observe value).elections ≤ (past.foldl observe start).elections

/-- A publication adds a count to the one that misses nothing if it could add one to the watcher. -/
theorem Behind.publish {start memory : ElectionWatcher} {past : List WatchedMetrics} {value : WatchedMetrics}
    (h : Behind start past value memory) (next : WatchedMetrics) : Behind start (past ++ [next]) next memory := by
  obtain ⟨hlast, hle⟩ := h
  rw [Behind, List.foldl_concat]
  refine ⟨rfl, ?_⟩
  rw [elections_observe] at hle ⊢
  rw [elections_observe]
  have hseen : (memory.sees next).toNat ≤
      (memory.sees value).toNat + ((past.foldl observe start).sees next).toNat := by
    cases hnext : memory.sees next with
    | false => exact Nat.zero_le _
    | true =>
      obtain ⟨hne, hsome⟩ := sees_iff.mp hnext
      by_cases hsame : next.currentLeader = value.currentLeader
      · have hvalue : memory.sees value = true := sees_iff.mpr (hsame ▸ ⟨hne, hsome⟩)
        rw [hvalue]
        exact Nat.le_add_right _ _
      · have hideal : (past.foldl observe start).sees next = true := sees_iff.mpr ⟨hlast ▸ hsame, hsome⟩
        rw [hideal]
        exact Nat.le_add_left _ _
  omega

/-- The watcher agrees with one that misses nothing as soon as it reads. -/
def Level (start : ElectionWatcher) (past : List WatchedMetrics) (value : WatchedMetrics)
    (memory : ElectionWatcher) : Prop :=
  memory.observe value = past.foldl observe start

/-- Something is counted once the leader is another than at the start. -/
def Counts (start : ElectionWatcher) (memory : ElectionWatcher) : Prop :=
  start.elections ≤ memory.elections ∧
    (memory.lastLeader ≠ start.lastLeader → memory.lastLeader.isSome → start.elections < memory.elections)

/-- A read counts a leader that is another than before, and one that was counted stays counted. -/
theorem Counts.observe {start memory : ElectionWatcher} (h : Counts start memory) (value : WatchedMetrics) :
    Counts start (memory.observe value) := by
  obtain ⟨hle, hcounted⟩ := h
  rw [Counts, elections_observe]
  refine ⟨Nat.le_add_right_of_le hle, ?_⟩
  intro hne hsome
  cases hsees : memory.sees value with
  | true => exact Nat.lt_succ_of_le hle
  | false =>
    have hsame : value.currentLeader = memory.lastLeader := by
      by_contra hother
      rw [sees_iff.mpr ⟨hother, hsome⟩] at hsees
      cases hsees
    change value.currentLeader ≠ start.lastLeader at hne
    change value.currentLeader.isSome = true at hsome
    exact hcounted (hsame ▸ hne) (hsame ▸ hsome)

/-- The counter against the changes of leader that were published.

It never exceeds what a watcher counts that misses nothing. An idle watcher knows the current
leader, and if that is another than at the start, it has counted. When every publication finds
the watcher up to date, an idle watcher has counted every change. -/
theorem elections_account {watch : Watch WatchedMetrics ElectionWatcher} (hstart : UpToDate watch)
    (hseen : watch.seen ≤ watch.version) (events : List (Event WatchedMetrics)) :
    let after := run (step observe) watch events
    let every := (published events).foldl observe watch.memory
    after.memory.elections ≤ every.elections ∧
      (after.Blocked → UpToDate after ∧
        (after.value.currentLeader ≠ watch.value.currentLeader → after.value.currentLeader.isSome →
          watch.memory.elections < after.memory.elections) ∧
        (Guarded (fun watch event => ∀ metrics, event = .publish metrics → UpToDate watch)
            (step observe) watch events →
          after.memory = every)) := by
  intro after every
  have hbehind : Behind watch.memory (published events) after.value after.memory := by
    apply run_preserves (fun _ _ => True) (Behind watch.memory)
    · exact fun past watch value h _ => h.publish value
    · rintro past value memory ⟨hlast, hle⟩
      exact ⟨hlast, by rw [observe_observe]; exact hle⟩
    · exact ⟨hstart, by rw [observe_of_same hstart]; exact Nat.le_refl _⟩
    · exact guarded_true _ _ _
  have hcounts : Counts watch.memory after.memory := by
    apply run_preserves (fun _ _ => True) (fun _ _ memory => Counts watch.memory memory)
    · exact fun _ _ _ h _ => h
    · exact fun _ value memory h => h.observe value
    · exact ⟨Nat.le_refl _, fun hne => absurd rfl hne⟩
    · exact guarded_true _ _ _
  refine ⟨?_, fun hblocked => ?_⟩
  · have hle := hbehind.2
    rw [elections_observe] at hle
    exact Nat.le_of_add_right_le hle
  have hcurrent : UpToDate after :=
    @read_of_blocked _ _ observe (fun value memory => memory.lastLeader = value.currentLeader) (fun _ _ => rfl)
      watch hseen (fun _ => hstart) events hblocked
  refine ⟨hcurrent, ?_, ?_⟩
  · intro hother hsome
    rw [← hcurrent] at hother hsome
    exact hcounts.2 (hstart.symm ▸ hother) hsome
  · intro hguard
    have hlevel : Level watch.memory (published events) after.value after.memory := by
      apply run_preserves _ (Level watch.memory) ?_ ?_ ?_ hguard
      · intro past watch value h hdate
        have hsame := observe_of_same (hdate value rfl)
        rw [Level, List.foldl_concat, ← h, hsame]
      · intro past value memory h
        rw [Level, observe_observe]
        exact h
      · exact observe_of_same hstart
    rw [Level, observe_of_same hcurrent] at hlevel
    exact hlevel

/-- A leader that is lost and found again before anyone looks is not counted, the next one is. -/
theorem elections_account_flap :
    let watch := spawn ⟨some 1, none, none⟩ 0 0
    let events : List (Event WatchedMetrics) :=
      [.publish ⟨none, none, none⟩, .publish ⟨some 1, none, none⟩, .wake, .read, .publish ⟨some 2, none, none⟩,
        .wake, .read]
    let after := run (step observe) watch events
    after.memory = ⟨some 2, 1⟩ ∧ ((published events).foldl observe watch.memory).elections = 2 ∧
      after.memory.elections ≤ ((published events).foldl observe watch.memory).elections ∧ UpToDate after :=
  have hstart : UpToDate (spawn ⟨some 1, none, none⟩ 0 0) := rfl
  have haccount := elections_account hstart (Nat.le_refl 0)
  ⟨rfl, rfl, (haccount _).1, ((haccount _).2 ⟨rfl, rfl⟩).1⟩

end ElectionWatcher

/-! ## The lag of the followers -/

/-- How far a follower is behind, as a leader computes it. -/
def followerLag (leaderLogIndex : ℕ) (followerLogId : Option LogId) : ℕ :=
  leaderLogIndex - (followerLogId.map LogId.index).getD 0

/-- The lag the metrics report for a follower, if they are a leader's. -/
def WatchedMetrics.lag (metrics : WatchedMetrics) (follower : NodeId) : Option ℕ :=
  metrics.lastLogIndex.bind fun leaderLogIndex =>
    metrics.replication.bind fun replication => replication[follower]?.map (followerLag leaderLogIndex)

/-- The gauges, by follower. -/
abbrev LagGauges := Std.ExtTreeMap NodeId ℕ

namespace LagGauges

/-- The body of the watcher's loop: a leader's metrics set a gauge for each follower. -/
def observe (gauges : LagGauges) (metrics : WatchedMetrics) : LagGauges :=
  match metrics.lastLogIndex with
  | none => gauges
  | some leaderLogIndex =>
    match metrics.replication with
    | none => gauges
    | some replication =>
      replication.toList.foldl
        (fun gauges follower => gauges.insert follower.1 (followerLag leaderLogIndex follower.2)) gauges

/-- A read sets the gauges of the followers it reports on and leaves the others. -/
theorem observe_getElem? (gauges : LagGauges) (metrics : WatchedMetrics) (follower : NodeId) :
    (observe gauges metrics)[follower]? = (metrics.lag follower).or gauges[follower]? := by
  rw [observe, WatchedMetrics.lag]
  cases metrics.lastLogIndex with
  | none => rfl
  | some leaderLogIndex =>
    cases metrics.replication with
    | none => rfl
    | some replication =>
      exact FiniteMap.getElem?_foldl_toList replication (followerLag leaderLogIndex) gauges follower

/-- The gauges show what the metrics report. -/
def Shows (metrics : WatchedMetrics) (gauges : LagGauges) : Prop :=
  ∀ follower lag, metrics.lag follower = some lag → gauges[follower]? = some lag

/-- After a read the gauges show what was read. -/
theorem shows_observe (gauges : LagGauges) (metrics : WatchedMetrics) : Shows metrics (observe gauges metrics) := by
  intro follower lag hlag
  rw [observe_getElem?, hlag, Option.some_or]

/-- Every gauge shows a lag that was reported. -/
def Reported (metrics : List WatchedMetrics) (gauges : LagGauges) : Prop :=
  ∀ follower lag, gauges[follower]? = some lag → ∃ published ∈ metrics, published.lag follower = some lag

/-- A read of reported metrics sets gauges to reported lags. -/
theorem Reported.observe {metrics : List WatchedMetrics} {gauges : LagGauges} (h : Reported metrics gauges)
    {value : WatchedMetrics} (hvalue : value ∈ metrics) : Reported metrics (LagGauges.observe gauges value) := by
  intro follower lag hlag
  rw [observe_getElem?, Option.or_eq_some_iff] at hlag
  rcases hlag with hnew | ⟨-, hold⟩
  · exact ⟨value, hvalue, hnew⟩
  · exact h follower lag hold

/-- What the gauges show over a whole run.

Every gauge shows a lag that was published for its follower at some time. When the watcher is
idle, the gauges of all followers that the current metrics report show their current lag. The
gauges of a replica that no longer leads are left as they were. -/
theorem gauges_account {watch : Watch WatchedMetrics LagGauges} (hseen : watch.seen ≤ watch.version)
    (hstart : watch.memory = ∅) (hunread : watch.Blocked → watch.value.replication = none)
    (events : List (Event WatchedMetrics)) :
    let after := run (step observe) watch events
    Reported (watch.value :: published events) after.memory ∧ (after.Blocked → Shows after.value after.memory) := by
  intro after
  constructor
  · have hrun : after.value ∈ watch.value :: published events ∧
        Reported (watch.value :: published events) after.memory := by
      apply run_preserves (fun _ _ => True) fun past value memory =>
        value ∈ watch.value :: past ∧ Reported (watch.value :: past) memory
      · rintro past current value ⟨-, hreported⟩ -
        refine ⟨by simp, fun follower lag hlag => ?_⟩
        obtain ⟨metrics, hmem, hsame⟩ := hreported follower lag hlag
        exact ⟨metrics, List.mem_append_left [value] hmem, hsame⟩
      · exact fun past value memory h => ⟨h.1, h.2.observe h.1⟩
      · refine ⟨List.mem_cons_self, ?_⟩
        intro follower lag hlag
        rw [hstart, Std.ExtTreeMap.getElem?_empty] at hlag
        cases hlag
      · exact guarded_true _ _ _
    exact hrun.2
  · apply read_of_blocked shows_observe hseen
    intro hblocked follower lag hlag
    rw [WatchedMetrics.lag, hunread hblocked] at hlag
    cases hindex : watch.value.lastLogIndex <;> simp [hindex] at hlag

/-- A leader with two followers, one of them silent so far, that then steps down. -/
theorem gauges_account_two_followers :
    let watch : Watch WatchedMetrics LagGauges := ⟨⟨none, none, none⟩, 0, false, 0, .waiting, ∅⟩
    let replication : Std.ExtTreeMap NodeId (Option LogId) :=
      .ofList [((2 : NodeId), some (LogId.mk ⟨1, 1⟩ 5)), (3, none)]
    let events : List (Event WatchedMetrics) :=
      [.publish ⟨some 1, some 7, some replication⟩, .wake, .read,
        .publish ⟨some 2, some 7, none⟩, .wake, .read]
    let after := run (step observe) watch events
    after.memory.toList = [(2, 2), (3, 7)] ∧ Reported (watch.value :: published events) after.memory := by
  intro watch replication events after
  have hunread : watch.Blocked → watch.value.replication = none := fun _ => rfl
  exact ⟨by decide +kernel, (gauges_account (Nat.le_refl 0) rfl hunread events).1⟩

end LagGauges

end RaftVec
