import RaftVec.Aggregator.RetrySteps
import RaftVec.Aggregator.Router
import RaftVec.Library.Run

/-!
# The calls of one write, taking turns

`join_all` polls the calls to the shards together. A call that is polled while its attempt is
under way is pending and nothing changes; one whose attempt is over goes on to its next await,
moves its own shard's cached guess and acts on its own shard's replicas. Whatever the order of
the polls, once all calls have returned, the results and the shards are those of calling one
shard after the other. A call has returned when it was polled once to begin and then after
each of its attempts was over, of which there are at most four. A poll in which several attempts
end at once is as many polls here.
-/

namespace RaftVec

open Interleaving

/-- A call of `join_all` with its shard; it has no phase before its first turn. -/
structure FanOutTask (F R : Type*) where
  shard : Shard F
  phase : Option (CallPhase ℕ R)

/-- The shard as `connect` left it, with a client for each address. -/
def Shard.connected {F : Type*} (self : Shard F) : ConnectedShard ℕ :=
  ⟨List.range self.replicaSet.replicaCount, self.replicaSet.addrs, self.replicaSet.leaderHint⟩

/-- The shard with another guess and after its replicas took a step. -/
def Shard.moved {F : Type*} (self : Shard F) (hint : ℕ) (group : ShardGroup F) : Shard F :=
  ⟨{ self.replicaSet with leaderHint := hint }, group⟩

/-- The cached guess is one of the replicas. -/
def Shard.HintInRange {F : Type*} (self : Shard F) : Prop :=
  self.replicaSet.leaderHint < self.replicaSet.replicaCount

/-- The group a write has for a shard, unless it is empty. -/
def addressed {α : Type*} (groups : List (List α)) (s : ℕ) : Option (List α) :=
  groups[s]?.filter fun group => !group.isEmpty

/-- The end of an attempt moves the guess and nothing else of the shard. -/
theorem ConnectedShard.attemptEnded_fst {C R : Type*} [CarriesLeaderHint R] (shard : ConnectedShard C) (idx left : ℕ)
    (lastErr : Option RouterError) (outcome : AttemptOutcome R) :
    (shard.attemptEnded idx left lastErr outcome).1 =
      { shard with leaderHint := (shard.attemptEnded idx left lastErr outcome).1.leaderHint } := by
  unfold ConnectedShard.attemptEnded
  split <;> rfl

namespace FanOutTask

variable {F R : Type*}

/-- What the call returned, if it has. -/
def result (self : FanOutTask F R) : Option (Except RouterError R) :=
  match self.phase with
  | some (.returned result) => some result
  | _ => none

variable [CarriesLeaderHint R]

/-- Run to the first await, or from the end of an attempt to the next await. -/
def resume (attempt : ℕ → ℕ → ShardGroup F → AttemptOutcome R × ShardGroup F) (self : FanOutTask F R) :
    FanOutTask F R :=
  match self.phase with
  | none => { self with phase := some self.shard.connected.beginCall }
  | some (.awaiting _ idx left lastErr) =>
    let made := attempt (maxLeaderAttempts - (left + 1)) idx self.shard.group
    let next := self.shard.connected.attemptEnded idx left lastErr made.1
    ⟨self.shard.moved next.1.leaderHint made.2, some next.2⟩
  | some _ => self

/-- Poll a call: while its attempt is under way it is pending. -/
def poll (attempt : ℕ → ℕ → ShardGroup F → AttemptOutcome R × ShardGroup F) (ready : Bool)
    (self : FanOutTask F R) : FanOutTask F R :=
  match self.phase with
  | some (.awaiting _ _ _ _) => if ready then self.resume attempt else self
  | _ => self.resume attempt

/-- A poll resumes the call unless the call has to wait. -/
theorem poll_cases (attempt : ℕ → ℕ → ShardGroup F → AttemptOutcome R × ShardGroup F) (ready : Bool)
    (task : FanOutTask F R) :
    task.poll attempt ready = task.resume attempt ∨ task.poll attempt ready = task ∧ ready = false := by
  unfold poll
  split
  · cases ready
    · exact Or.inr ⟨rfl, rfl⟩
    · exact Or.inl rfl
  · exact Or.inl rfl

/-- A call that returned is over. -/
theorem resume_of_result {attempt : ℕ → ℕ → ShardGroup F → AttemptOutcome R × ShardGroup F}
    {task : FanOutTask F R} {result : Except RouterError R} (h : task.result = some result) :
    task.resume attempt = task ∧ task.phase = some (.returned result) := by
  unfold FanOutTask.result at h
  split at h
  · next returned hphase =>
    cases h
    exact ⟨by simp only [resume, hphase], hphase⟩
  · cases h

/-- Resuming a call over and over is running it alone. -/
theorem iterate_resume (attempt : ℕ → ℕ → ShardGroup F → AttemptOutcome R × ShardGroup F) (fuel spent : ℕ)
    (shard : Shard F) (phase : CallPhase ℕ R) :
    let ran := ConnectedShard.runCall 0 none attempt fuel spent shard.connected phase shard.group
    (resume attempt)^[fuel] ⟨shard, some phase⟩ = ⟨shard.moved ran.1.leaderHint ran.2.2, some ran.2.1⟩ := by
  induction fuel generalizing spent shard phase with
  | zero => rfl
  | succ fuel ih =>
    rw [Function.iterate_succ_apply]
    cases phase with
    | awaiting client idx left lastErr =>
      let made := attempt (maxLeaderAttempts - (left + 1)) idx shard.group
      let next := shard.connected.attemptEnded idx left lastErr made.1
      have hkept : next.1 = (shard.moved next.1.leaderHint made.2).connected :=
        shard.connected.attemptEnded_fst idx left lastErr made.1
      have hrest := ih (spent + made.1.duration 0) (shard.moved next.1.leaderHint made.2) next.2
      rw [← hkept] at hrest
      exact hrest
    | returned result =>
      have hpolled := ih spent shard (.returned result)
      cases fuel <;> exact hpolled
    | cancelled =>
      have hpolled := ih spent shard .cancelled
      cases fuel <;> exact hpolled
    | panicked =>
      have hpolled := ih spent shard .panicked
      cases fuel <;> exact hpolled

/-- A call that is resumed five times goes from its beginning to its end. -/
theorem iterate_resume_call (attempt : ℕ → ℕ → ShardGroup F → AttemptOutcome R × ShardGroup F) {shard : Shard F}
    (hhint : shard.HintInRange) :
    (resume attempt)^[maxLeaderAttempts + 1] ⟨shard, none⟩ =
      ⟨(shard.call attempt).2, some (.returned (shard.call attempt).1)⟩ := by
  have hwell : shard.connected.WellFormed := by
    constructor
    · exact List.length_range
    · change shard.replicaSet.leaderHint < (List.range _).length
      rw [List.length_range]
      exact hhint
  have hcall := hwell.runCall_eq_callWithRetry 0 attempt shard.group
  have hturns := iterate_resume attempt maxLeaderAttempts 0 shard shard.connected.beginCall
  simp only [hcall] at hturns
  exact hturns

/-- Then the call is over. -/
theorem resume_iterate_call (attempt : ℕ → ℕ → ShardGroup F → AttemptOutcome R × ShardGroup F) {shard : Shard F}
    (hhint : shard.HintInRange) :
    resume attempt ((resume attempt)^[maxLeaderAttempts + 1] ⟨shard, none⟩) =
      (resume attempt)^[maxLeaderAttempts + 1] ⟨shard, none⟩ := by
  rw [iterate_resume_call attempt hhint]
  rfl

end FanOutTask

namespace ShardRouter

variable {F R α : Type*} [CarriesLeaderHint R]

/-- Poll a shard's call, if the write addresses the shard. -/
def turn (groups : List (List α))
    (attempt : ℕ → List α → ℕ → ℕ → ShardGroup F → AttemptOutcome R × ShardGroup F) (s : ℕ) (ready : Bool)
    (task : FanOutTask F R) : FanOutTask F R :=
  match addressed groups s with
  | none => task
  | some group => task.poll (attempt s group) ready

/-- The calls of a write after they were polled: whose call, and whether what it awaits is ready. -/
def fanOut (self : ShardRouter F) (groups : List (List α))
    (attempt : ℕ → List α → ℕ → ℕ → ShardGroup F → AttemptOutcome R × ShardGroup F)
    (schedule : List (ℕ × Bool)) : List (FanOutTask F R) :=
  Interleaving.poll (turn groups attempt) (self.shards.map fun shard => ⟨shard, none⟩) schedule

omit [CarriesLeaderHint R] in
/-- The results in the order of the shards, once all calls have returned. -/
def joinAll (groups : List (List α)) (tasks : List (FanOutTask F R)) : Option (List (Except RouterError R)) :=
  if tasks.zipIdx.all fun (task, s) => (addressed groups s).isNone || task.result.isSome then
    some (tasks.mapIdx fun s task => (addressed groups s).bind fun _ => task.result).reduceOption
  else none

omit [CarriesLeaderHint R] in
/-- All results are there when every call has returned. -/
theorem joinAll_isSome_iff {groups : List (List α)} {tasks : List (FanOutTask F R)} :
    (joinAll groups tasks).isSome ↔ ∀ (s : ℕ) task group, tasks[s]? = some task → addressed groups s = some group →
      task.result.isSome := by
  have hall : (tasks.zipIdx.all fun (task, s) => (addressed groups s).isNone || task.result.isSome) = true ↔
      ∀ (s : ℕ) task group, tasks[s]? = some task → addressed groups s = some group → task.result.isSome := by
    rw [List.all_eq_true]
    constructor
    · intro h s task group htask hgroup
      have hreturned := h (task, s) (List.mem_zipIdx_iff_getElem?.mpr htask)
      simpa [hgroup] using hreturned
    · rintro h ⟨task, s⟩ hmem
      cases hgroup : addressed groups s with
      | none => simp [hgroup]
      | some group =>
        have hreturned := h s task group (List.mem_zipIdx_iff_getElem?.mp hmem) hgroup
        simpa [hgroup] using hreturned
  rw [← hall, joinAll]
  split <;> simp_all

variable {groups : List (List α)} {attempt : ℕ → List α → ℕ → ℕ → ShardGroup F → AttemptOutcome R × ShardGroup F}

/-- Where a shard's call stands: at its beginning if the write does not address the shard, and
otherwise resumed at least as often as it was polled without having to wait. -/
theorem fanOut_getElem? (self : ShardRouter F) (groups : List (List α))
    (attempt : ℕ → List α → ℕ → ℕ → ShardGroup F → AttemptOutcome R × ShardGroup F)
    (schedule : List (ℕ × Bool)) {s : ℕ} {shard : Shard F}
    (hshard : self.shards[s]? = some shard) :
    match addressed groups s with
    | none => (self.fanOut groups attempt schedule)[s]? = some ⟨shard, none⟩
    | some group => ∃ n, schedule.count (s, true) ≤ n ∧
        (self.fanOut groups attempt schedule)[s]? =
          some ((FanOutTask.resume (attempt s group))^[n] ⟨shard, none⟩) := by
  rw [fanOut, poll_getElem?, List.getElem?_map, hshard]
  cases hgroup : addressed groups s with
  | none => simp [turn, hgroup]
  | some group =>
    obtain ⟨n, hn, hturns⟩ := exists_iterate id
      (fun task ready => FanOutTask.poll_cases (attempt s group) ready task) (turnsOf schedule s) ⟨shard, none⟩
    refine ⟨n, ?_, ?_⟩
    · rw [← count_turnsOf, List.count]
      refine le_trans (le_of_eq ?_) hn
      congr 1
      funext ready
      cases ready <;> rfl
    · simp only [Option.map_some, turn, hgroup, hturns]

/-- Where the calls are when they are over: at the end of calling each shard by itself. -/
theorem fanOut_eq_of_joined {self : ShardRouter F} (hhints : ∀ shard ∈ self.shards, shard.HintInRange)
    {schedule : List (ℕ × Bool)} (hjoined : (joinAll groups (self.fanOut groups attempt schedule)).isSome) :
    self.fanOut groups attempt schedule = self.shards.mapIdx fun s shard =>
      match addressed groups s with
      | none => ⟨shard, none⟩
      | some group => ⟨(shard.call (attempt s group)).2, some (.returned (shard.call (attempt s group)).1)⟩ := by
  rw [joinAll_isSome_iff] at hjoined
  apply List.ext_getElem?
  intro s
  rw [List.getElem?_mapIdx]
  cases hshard : self.shards[s]? with
  | none => simp [fanOut, poll_getElem?, hshard]
  | some shard =>
    have hstands := self.fanOut_getElem? groups attempt schedule hshard
    cases hgroup : addressed groups s with
    | none => simpa only [hgroup, Option.map_some] using hstands
    | some group =>
      simp only [hgroup] at hstands
      obtain ⟨n, -, hn⟩ := hstands
      obtain ⟨result, hresult⟩ := Option.isSome_iff_exists.mp (hjoined s _ group hn hgroup)
      have hhint := hhints shard (List.mem_of_getElem? hshard)
      rw [hn, iterate_eq_of_ended (FanOutTask.resume_iterate_call (attempt s group) hhint)
        (FanOutTask.resume_of_result hresult).1, FanOutTask.iterate_resume_call (attempt s group) hhint]
      rfl

/-- Calls that were polled five times without having to wait have returned. -/
theorem joinAll_isSome {self : ShardRouter F} (hhints : ∀ shard ∈ self.shards, shard.HintInRange)
    {schedule : List (ℕ × Bool)} (hturns : ∀ (s : ℕ) group, addressed groups s = some group →
      maxLeaderAttempts + 1 ≤ schedule.count (s, true)) :
    (joinAll groups (self.fanOut groups attempt schedule)).isSome := by
  rw [joinAll_isSome_iff]
  intro s task group htask hgroup
  obtain ⟨shard, hshard⟩ : ∃ shard, self.shards[s]? = some shard := by
    rw [fanOut, poll_getElem?, List.getElem?_map, Option.map_map] at htask
    obtain ⟨shard, hshard, -⟩ := Option.map_eq_some_iff.mp htask
    exact ⟨shard, hshard⟩
  have hstands := self.fanOut_getElem? groups attempt schedule hshard
  simp only [hgroup] at hstands
  obtain ⟨n, hcount, hn⟩ := hstands
  have hhint := hhints shard (List.mem_of_getElem? hshard)
  cases hn.symm.trans htask
  rw [iterate_of_ended (FanOutTask.resume_iterate_call (attempt s group) hhint)
      ((hturns s group hgroup).trans hcount),
    FanOutTask.iterate_resume_call (attempt s group) hhint]
  rfl

/-- Whatever the order in which the calls of a write are polled and however long their attempts
take, they have all returned once each was polled to begin and after the end of four attempts,
and then the write's result and the shards are those of calling the shards one after the other. -/
theorem writeGroups_of_turns [FloatOps F] {self : ShardRouter F} (hhints : ∀ shard ∈ self.shards, shard.HintInRange)
    (fxhash : UInt64 → UInt64) (items : List α) (key : α → UInt64) (count : R → UInt32)
    (attempt : ℕ → List α → ℕ → ℕ → ShardGroup F → AttemptOutcome R × ShardGroup F) (schedule : List (ℕ × Bool)) :
    let groups := self.groupByShard fxhash items key
    let tasks := self.fanOut groups attempt schedule
    let written := self.writeGroups fxhash items key count attempt
    ((∀ (s : ℕ) group, addressed groups s = some group → maxLeaderAttempts + 1 ≤ schedule.count (s, true)) →
        (joinAll groups tasks).isSome) ∧
      ∀ results, joinAll groups tasks = some results →
        sumCounts count 0 results = written.1 ∧ tasks.map FanOutTask.shard = written.2.shards := by
  intro groups tasks written
  refine ⟨joinAll_isSome hhints, ?_⟩
  intro results hresults
  have hjoined : (joinAll groups tasks).isSome := by
    rw [hresults]
    rfl
  have htasks : tasks = _ := fanOut_eq_of_joined hhints hjoined
  have hall : results = (tasks.mapIdx fun s task => (addressed groups s).bind fun _ => task.result).reduceOption := by
    rw [joinAll] at hresults
    split at hresults
    · exact (Option.some.inj hresults).symm
    · cases hresults
  constructor
  · change _ = sumCounts count 0 (self.callGroups groups fun s group shard => shard.call (attempt s group)).1
    rw [hall, htasks, callGroups]
    congr 2
    apply List.ext_getElem?
    intro s
    simp only [List.getElem?_mapIdx, Option.map_map]
    apply Option.map_congr
    intro shard _
    change (addressed groups s).bind _ = (addressed groups s).map _
    cases addressed groups s with
    | none => rfl
    | some group => simp only [Option.bind_some, Option.map_some, FanOutTask.result]
  · change _ = (self.callGroups groups fun s group shard => shard.call (attempt s group)).2.shards
    rw [htasks, callGroups, mapShards]
    apply List.ext_getElem?
    intro s
    simp only [List.getElem?_map, List.getElem?_mapIdx, Option.map_map]
    apply Option.map_congr
    intro shard _
    change FanOutTask.shard (match addressed groups s with | none => _ | some group => _) =
      match addressed groups s with | none => _ | some group => _
    cases addressed groups s <;> rfl

/-- Two shards' calls are polled in turns, also while their attempts are under way; the first
attempt of each hangs. -/
theorem writeGroups_of_turns_two_shards :
    let shard : Shard ℤ := ⟨⟨["http://a", "http://b"], by decide, 1⟩, ShardGroup.fresh ℤ UInt64.ofNat⟩
    let router : ShardRouter ℤ := ⟨[shard, shard], by decide, by decide⟩
    let fates : ℕ → ℕ → ℕ → AttemptFate (RaftFate ℤ) := fun _ n _ =>
      if n = 0 then .hung else .reached (.committed [] ⟨⟨1, 1⟩, 0⟩) false
    let records : List (VectorRecord ℤ) := [⟨1, [3], ∅⟩, ⟨3, [5], ∅⟩, ⟨4, [7], ∅⟩]
    let schedule : List (ℕ × Bool) := [(1, true), (0, true), (0, false), (1, false), (0, true), (1, true), (1, false),
      (0, true), (1, true), (1, true), (0, false), (0, true), (0, true), (1, true)]
    let groups := router.groupByShard fxHasher records VectorRecord.id
    let tasks := router.fanOut groups (fun s group => Shard.insertAttempt (fates s) ⟨"docs", group⟩) schedule
    ∃ results, joinAll groups tasks = some results ∧
      sumCounts InsertResponse.inserted 0 results = (router.insert fxHasher fates "docs" records).1 := by
  intro shard router fates records schedule groups tasks
  have hhints : ∀ shard ∈ router.shards, shard.HintInRange := by
    intro other hother
    simp only [router, List.mem_cons, List.not_mem_nil, or_false, or_self] at hother
    rw [hother]
    exact Nat.one_lt_two
  obtain ⟨hreturn, hwritten⟩ := writeGroups_of_turns hhints fxHasher records VectorRecord.id InsertResponse.inserted
    (fun s group => Shard.insertAttempt (fates s) ⟨"docs", group⟩) schedule
  have hturns : ∀ (s : ℕ) group, addressed groups s = some group →
      maxLeaderAttempts + 1 ≤ schedule.count (s, true) := by
    intro s group hgroup
    match s with
    | 0 => decide
    | 1 => decide
    | s + 2 =>
      have hlength : groups.length = 2 := length_groupByShard fxHasher router records VectorRecord.id
      have hnone : groups[s + 2]? = none := List.getElem?_eq_none (by omega)
      rw [addressed, hnone] at hgroup
      cases hgroup
  obtain ⟨results, hresults⟩ := Option.isSome_iff_exists.mp (hreturn hturns)
  exact ⟨results, hresults, (hwritten results hresults).1⟩

end ShardRouter

end RaftVec
