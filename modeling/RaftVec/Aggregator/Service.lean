import RaftVec.Aggregator.ClusterStatus
import RaftVec.Aggregator.JoinAll

/-!
# The gRPC service of the aggregator

The aggregator implements the service of a replica on top of the router. It resolves
leadership itself, so its responses never carry a hint. A failed write is reported with one
status and a search never fails: it leaves out the shards that did.

What is reported is told by the attempts. A call fails when none of its four attempts is
served, with the error of the last one that was not a redirect. A write reports the first
shard, in shard order, whose call failed. A search has the hits of those shards, and only
those, that a confirmed leader answered in time.
-/

namespace RaftVec

open Selection Grouping

/-- The status a router error is reported as: a replica's own status is passed on. -/
def RouterError.toStatus : RouterError → Status
  | .connect addr source => ⟨.unavailable, s!"failed to connect to shard replica at {addr}: {source}"⟩
  | .rpc status => status
  | .shardUnreachable => ⟨.unavailable, "no replica of this shard responded"⟩

namespace AggregatorService

variable {F : Type*}

/-- Create a collection on every replica. -/
def createCollection (fates : ℕ → ℕ → CreateFate) (req : CreateCollectionRequest) (router : ShardRouter F) :
    Except Status CreateCollectionResponse × ShardRouter F :=
  let created := router.createCollection fates req.name req.dim
  ((created.1.mapError RouterError.toStatus).map fun _ => ⟨true⟩, created.2)

/-- Report the collections and records of the shards that answer, if the call returns. -/
def clusterStatus (fates : ℕ → ℕ → StatusFate) (router : ShardRouter F) :
    Option (Except Status ClusterStatusResponse) :=
  (router.clusterStatus fates).map fun status => .ok ⟨status.1, status.2⟩

variable [FloatOps F]

/-- Insert a batch. -/
def insert (fxhash : UInt64 → UInt64) (fates : ℕ → ℕ → ℕ → AttemptFate (RaftFate F)) (req : InsertRequest F)
    (router : ShardRouter F) : Except Status InsertResponse × ShardRouter F :=
  let inserted := router.insert fxhash fates req.collection req.records
  ((inserted.1.mapError RouterError.toStatus).map fun count => ⟨count, ""⟩, inserted.2)

/-- Delete ids. -/
def delete (fxhash : UInt64 → UInt64) (fates : ℕ → ℕ → ℕ → AttemptFate (RaftFate F)) (req : DeleteRequest)
    (router : ShardRouter F) : Except Status DeleteResponse × ShardRouter F :=
  let deleted := router.delete fxhash fates req.collection req.ids
  ((deleted.1.mapError RouterError.toStatus).map fun count => ⟨count, ""⟩, deleted.2)

variable [LinearOrder F]

/-- Search all shards. -/
def search (fates : ℕ → ℕ → ℕ → AttemptFate (ReadFate F)) (inTime : ℕ → Bool) (req : SearchRequest F)
    (router : ShardRouter F) : Except Status (SearchResponse F) :=
  let found := router.search fates inTime req.collection req.queryVector req.k
  .ok ⟨found.1, found.2.1, found.2.2, ""⟩

end AggregatorService

/-! ## What the attempts of a call met -/

section Outcomes

variable {R S : Type*} [CarriesLeaderHint R]

/-- The outcomes of the attempts that are made, in order. -/
def attemptOutcomes (shard : ShardReplicaSet) (attempt : ℕ → ℕ → S → AttemptOutcome R × S) :
    ℕ → RetryState S → List (AttemptOutcome R)
  | 0, _ => []
  | left + 1, current =>
    let made := attempt current.made current.idx current.state
    made.1 :: match made.1.served with
      | some _ => []
      | none => attemptOutcomes shard attempt left (current.advance shard made)

omit [CarriesLeaderHint R] in
/-- The error an attempt leaves; a redirect leaves none. -/
def AttemptOutcome.failure : AttemptOutcome R → Option RouterError
  | .answered _ => none
  | .refused status => some (.rpc status)
  | .elapsed => some .shardUnreachable

omit [CarriesLeaderHint R] in
/-- The error of the last attempt that was not a redirect. -/
def lastFailure (outcomes : List (AttemptOutcome R)) : Option RouterError :=
  (outcomes.filterMap AttemptOutcome.failure).getLast?

omit [CarriesLeaderHint R] in
/-- The error of a later attempt replaces that of an earlier one. -/
theorem lastFailure_cons (outcome : AttemptOutcome R) (outcomes : List (AttemptOutcome R)) :
    lastFailure (outcome :: outcomes) = (lastFailure outcomes).or outcome.failure := by
  rw [lastFailure, List.filterMap_cons, lastFailure]
  cases outcome.failure with
  | none => exact Option.or_none.symm
  | some e =>
    change ([e] ++ List.filterMap AttemptOutcome.failure outcomes).getLast? = _
    rw [List.getLast?_append]
    rfl

omit [CarriesLeaderHint R] in
/-- An attempt that is not served replaces the error when it leaves one. -/
theorem AttemptOutcome.errorAfter_eq (outcome : AttemptOutcome R) (lastErr : Option RouterError) :
    outcome.errorAfter lastErr = outcome.failure.or lastErr := by
  cases outcome <;> rfl

/-- The loop fails when it has made all its attempts and none was served, with the last error. -/
theorem retryLoop_error_iff (shard : ShardReplicaSet) (attempt : ℕ → ℕ → S → AttemptOutcome R × S) (left : ℕ)
    (current : RetryState S) (e : RouterError) :
    (retryLoop shard attempt left current).1 = .error e ↔
      (∀ outcome ∈ attemptOutcomes shard attempt left current, outcome.served = none) ∧
        e = ((lastFailure (attemptOutcomes shard attempt left current)).or current.lastErr).getD
          .shardUnreachable := by
  induction left generalizing current with
  | zero =>
    rw [retryLoop, attemptOutcomes, Except.error.injEq]
    simp [lastFailure, eq_comm]
  | succ left ih =>
    simp only [retryLoop, attemptOutcomes]
    cases hserved : (attempt current.made current.idx current.state).1.served with
    | some response => simp [hserved]
    | none =>
      simp only [ih, List.forall_mem_cons, hserved, true_and, lastFailure_cons, Option.or_assoc]
      rw [RetryState.advance, AttemptOutcome.errorAfter_eq]

/-- A loop without a served attempt has made all its attempts. -/
theorem length_attemptOutcomes (shard : ShardReplicaSet) (attempt : ℕ → ℕ → S → AttemptOutcome R × S) {left : ℕ}
    {current : RetryState S}
    (h : ∀ outcome ∈ attemptOutcomes shard attempt left current, outcome.served = none) :
    (attemptOutcomes shard attempt left current).length = left := by
  induction left generalizing current with
  | zero => rfl
  | succ left ih =>
    simp only [attemptOutcomes, List.forall_mem_cons] at h ⊢
    obtain ⟨hserved, hrest⟩ := h
    rw [hserved] at hrest ⊢
    rw [List.length_cons, ih hrest]

end Outcomes

namespace Shard

variable {F R : Type*} [CarriesLeaderHint R]

/-- What the attempts of a call to the shard meet. -/
def outcomes (self : Shard F) (attempt : ℕ → ℕ → ShardGroup F → AttemptOutcome R × ShardGroup F) :
    List (AttemptOutcome R) :=
  attemptOutcomes self.replicaSet attempt maxLeaderAttempts (.first self.replicaSet self.group)

/-- Four attempts are made and none is served. -/
def Unserved (self : Shard F) (attempt : ℕ → ℕ → ShardGroup F → AttemptOutcome R × ShardGroup F) : Prop :=
  (self.outcomes attempt).length = maxLeaderAttempts ∧ ∀ outcome ∈ self.outcomes attempt, outcome.served = none

/-- A call fails when four attempts are made and none is served. -/
theorem call_error_iff (self : Shard F) (attempt : ℕ → ℕ → ShardGroup F → AttemptOutcome R × ShardGroup F)
    (e : RouterError) :
    (self.call attempt).1 = .error e ↔
      self.Unserved attempt ∧ e = (lastFailure (self.outcomes attempt)).getD .shardUnreachable := by
  have hloop := retryLoop_error_iff self.replicaSet attempt maxLeaderAttempts (.first self.replicaSet self.group) e
  change _ ↔ (∀ outcome ∈ self.outcomes attempt, outcome.served = none) ∧
    e = ((lastFailure (self.outcomes attempt)).or none).getD .shardUnreachable at hloop
  rw [Option.or_none] at hloop
  constructor
  · intro hcall
    obtain ⟨hserved, he⟩ := hloop.mp hcall
    exact ⟨⟨length_attemptOutcomes _ _ hserved, hserved⟩, he⟩
  · rintro ⟨⟨-, hserved⟩, he⟩
    exact hloop.mpr ⟨hserved, he⟩

/-- A call succeeds when an attempt is served. -/
theorem call_ok_iff (self : Shard F) (attempt : ℕ → ℕ → ShardGroup F → AttemptOutcome R × ShardGroup F) :
    (∃ response, (self.call attempt).1 = .ok response) ↔ ¬ self.Unserved attempt := by
  constructor
  · rintro ⟨response, hok⟩ hunserved
    have herror := (self.call_error_iff attempt _).mpr ⟨hunserved, rfl⟩
    rw [hok] at herror
    cases herror
  · intro hserved
    cases hcall : (self.call attempt).1 with
    | ok response => exact ⟨response, rfl⟩
    | error e => exact absurd ((self.call_error_iff attempt e).mp hcall).1 hserved

end Shard

/-! ## Which failure a write reports -/

/-- The sum fails with the first failure in shard order. -/
theorem sumCounts_error_iff {R : Type*} (count : R → UInt32) (results : List (Option (Except RouterError R)))
    (total : UInt32) (e : RouterError) :
    sumCounts count total results.reduceOption = .error e ↔
      ∃ s : ℕ, results[s]? = some (some (.error e)) ∧
        ∀ t < s, ∀ result, results[t]? = some (some result) → ∃ response, result = .ok response := by
  induction results generalizing total with
  | nil => simp [sumCounts]
  | cons first results ih =>
    have hlater : (∃ s : ℕ, (first :: results)[s]? = some (some (.error e)) ∧ ∀ t < s, ∀ result,
          (first :: results)[t]? = some (some result) → ∃ response, result = .ok response) ↔
        first = some (.error e) ∨ (∀ result, first = some result → ∃ response, result = .ok response) ∧
          ∃ s : ℕ, results[s]? = some (some (.error e)) ∧
            ∀ t < s, ∀ result, results[t]? = some (some result) → ∃ response, result = .ok response := by
      constructor
      · rintro ⟨s, hs, hbefore⟩
        cases s with
        | zero => exact Or.inl (Option.some.inj hs)
        | succ s =>
          refine Or.inr ⟨fun result hresult => hbefore 0 (Nat.succ_pos s) result (congrArg some hresult), s, hs, ?_⟩
          exact fun t ht result hresult => hbefore (t + 1) (Nat.succ_lt_succ ht) result hresult
      · rintro (hfirst | ⟨hfirst, s, hs, hbefore⟩)
        · exact ⟨0, congrArg some hfirst, fun t ht => absurd ht (Nat.not_lt_zero t)⟩
        · refine ⟨s + 1, hs, ?_⟩
          intro t ht result hresult
          cases t with
          | zero => exact hfirst result (Option.some.inj hresult)
          | succ t => exact hbefore t (Nat.lt_of_succ_lt_succ ht) result hresult
    rw [hlater]
    cases first with
    | none => simp [List.reduceOption_cons_of_none, ih]
    | some result =>
      rw [List.reduceOption_cons_of_some]
      cases result with
      | ok response => simp [sumCounts, ih]
      | error other => simp [sumCounts]

namespace ShardRouter

variable {F R α : Type*} [CarriesLeaderHint R]

/-- A shard is addressed by a write and its call meets no served attempt. -/
def FailsAt (self : ShardRouter F) (fxhash : UInt64 → UInt64) (items : List α) (key : α → UInt64)
    (attempt : ℕ → List α → ℕ → ℕ → ShardGroup F → AttemptOutcome R × ShardGroup F) (s : ℕ) (e : RouterError) :
    Prop :=
  ∃ shard, self.shards[s]? = some shard ∧ self.share fxhash items key s ≠ [] ∧
    shard.Unserved (attempt s (self.share fxhash items key s)) ∧
    e = (lastFailure (shard.outcomes (attempt s (self.share fxhash items key s)))).getD .shardUnreachable

/-- The first shard, in shard order, that fails. -/
def FirstFailsAt (self : ShardRouter F) (fxhash : UInt64 → UInt64) (items : List α) (key : α → UInt64)
    (attempt : ℕ → List α → ℕ → ℕ → ShardGroup F → AttemptOutcome R × ShardGroup F) (s : ℕ) (e : RouterError) :
    Prop :=
  self.FailsAt fxhash items key attempt s e ∧ ∀ t < s, ∀ other, ¬ self.FailsAt fxhash items key attempt t other

/-- A write fails with the error of the first shard that fails. -/
theorem writeGroups_error_iff (fxhash : UInt64 → UInt64) (self : ShardRouter F) (items : List α) (key : α → UInt64)
    (count : R → UInt32)
    (attempt : ℕ → List α → ℕ → ℕ → ShardGroup F → AttemptOutcome R × ShardGroup F) (e : RouterError) :
    (self.writeGroups fxhash items key count attempt).1 = .error e ↔
      ∃ s, self.FirstFailsAt fxhash items key attempt s e := by
  have hresult : ∀ (s : ℕ) result, (self.shards.mapIdx fun s shard =>
        (addressed (self.groupByShard fxhash items key) s).map fun group => (shard.call (attempt s group)).1)[s]? =
          some (some result) ↔ ∃ shard, self.shards[s]? = some shard ∧ self.share fxhash items key s ≠ [] ∧
            (shard.call (attempt s (self.share fxhash items key s))).1 = result := by
    intro s result
    rw [List.getElem?_mapIdx, Option.map_eq_some_iff]
    apply exists_congr
    intro shard
    apply and_congr_right
    intro hshard
    have hs : s < self.shards.length := (List.getElem?_eq_some_iff.mp hshard).1
    rw [addressed, groupByShard_getElem? fxhash self items key hs, Option.filter_some]
    cases hshare : self.share fxhash items key s with
    | nil => simp
    | cons item rest => simp
  have hfails : ∀ (s : ℕ) other, self.FailsAt fxhash items key attempt s other ↔ ∃ shard,
      self.shards[s]? = some shard ∧ self.share fxhash items key s ≠ [] ∧
        (shard.call (attempt s (self.share fxhash items key s))).1 = .error other := by
    intro s other
    simp only [FailsAt, Shard.call_error_iff]
  change sumCounts count 0 (List.reduceOption _) = .error e ↔ _
  rw [sumCounts_error_iff]
  apply exists_congr
  intro s
  apply and_congr
  · exact (hresult s _).trans (hfails s e).symm
  · constructor
    · intro hbefore t ht other hfail
      obtain ⟨shard, hshard, hshare, hcall⟩ := (hfails t other).mp hfail
      obtain ⟨response, hok⟩ := hbefore t ht _ ((hresult t _).mpr ⟨shard, hshard, hshare, rfl⟩)
      rw [hcall] at hok
      cases hok
    · intro hbefore t ht result hget
      obtain ⟨shard, hshard, hshare, hcall⟩ := (hresult t result).mp hget
      cases result with
      | ok response => exact ⟨response, rfl⟩
      | error other => exact absurd ((hfails t other).mpr ⟨shard, hshard, hshare, hcall⟩) (hbefore t ht other)

end ShardRouter

namespace AggregatorService

variable {F : Type*} [FloatOps F]

omit [FloatOps F] in
/-- A write is reported as failed with the status of the first shard that fails. -/
theorem writeGroups_status_iff {R Resp α : Type*} [CarriesLeaderHint R] (fxhash : UInt64 → UInt64)
    (router : ShardRouter F) (items : List α) (key : α → UInt64) (count : R → UInt32)
    (attempt : ℕ → List α → ℕ → ℕ → ShardGroup F → AttemptOutcome R × ShardGroup F) (response : UInt32 → Resp)
    (status : Status) :
    ((router.writeGroups fxhash items key count attempt).1.mapError RouterError.toStatus).map response =
        .error status ↔
      ∃ s e, router.FirstFailsAt fxhash items key attempt s e ∧ status = e.toStatus := by
  have herror : ((router.writeGroups fxhash items key count attempt).1.mapError RouterError.toStatus).map response =
      .error status ↔ ∃ e, (router.writeGroups fxhash items key count attempt).1 = .error e ∧
        status = e.toStatus := by
    cases (router.writeGroups fxhash items key count attempt).1 with
    | ok total => simp [Except.mapError, Except.map]
    | error e => simp [Except.mapError, Except.map, eq_comm]
  rw [herror, exists_comm]
  apply exists_congr
  intro e
  rw [ShardRouter.writeGroups_error_iff, exists_and_right]

/-- A failed write has the status of the first shard, in shard order, that failed.

A shard fails when none of the four attempts of its call is served, and its status is that of
the last attempt that was refused or timed out. A call that met redirects only is reported as
a shard of which no replica responded. -/
theorem write_error_of_first_failing_shard (fxhash : UInt64 → UInt64)
    (fates : ℕ → ℕ → ℕ → AttemptFate (RaftFate F)) (router : ShardRouter F) (status : Status) :
    (∀ req : InsertRequest F, (insert fxhash fates req router).1 = .error status ↔ ∃ s e,
      router.FirstFailsAt fxhash req.records VectorRecord.id
        (fun s group => Shard.insertAttempt (fates s) ⟨req.collection, group⟩) s e ∧ status = e.toStatus) ∧
    (∀ req : DeleteRequest, (delete fxhash fates req router).1 = .error status ↔ ∃ s e,
      router.FirstFailsAt fxhash req.ids (fun id => id)
        (fun s group => Shard.deleteAttempt (fates s) ⟨req.collection, group⟩) s e ∧ status = e.toStatus) :=
  ⟨fun _ => writeGroups_status_iff _ _ _ _ _ _ _ _, fun _ => writeGroups_status_iff _ _ _ _ _ _ _ _⟩

end AggregatorService

/-! ## Whose hits a search returns -/

section Reads

variable {F : Type*} [FloatOps F] [LinearOrder F]

/-- A read answered without a hint was served by a replica that believes it leads. -/
theorem NodeService.leads_of_ok {fate : ReadFate F} {nodeId : NodeId} {store : Store F}
    {req : SearchRequest F} {response : SearchResponse F}
    (hok : NodeService.search nodeId fate.conditions store req = .ok response)
    (hhint : response.leaderHint = "") :
    NodeService.leadership nodeId fate.conditions.metrics = .iAmLeader := by
  cases hleader : NodeService.leadership nodeId fate.conditions.metrics with
  | iAmLeader => rfl
  | unknown => simp [NodeService.search, hleader] at hok
  | redirect addr =>
    simp only [NodeService.search, hleader, Except.ok.injEq] at hok
    subst hok
    unfold NodeService.leadership at hleader
    grind [fate.normalized, normalize_ne_empty]

/-- A read served from a store ranks the records of the collection it asks for. -/
theorem NodeService.searchStore_of_ok {conditions : NodeService.ReadConditions F} {store : Store F}
    {req : SearchRequest F} {response : SearchResponse F}
    (hok : NodeService.searchStore conditions store req = .ok response) :
    ∃ coll, store.collections[req.collection]? = some coll ∧ req.queryVector.length = coll.dim ∧
      response.results.map ScoredRecord.scoredId =
        greatest req.k.toNat (scoredIds req.queryVector coll.scanned) := by
  unfold NodeService.searchStore at hok
  cases hjoined : conditions.joined with
  | error e => simp [hjoined] at hok
  | ok _ =>
    cases hcoll : store.collections[req.collection]? with
    | none => simp [hjoined, Store.search, hcoll] at hok
    | some coll =>
      by_cases hquery : req.queryVector.length = coll.dim
      · simp only [hjoined, Store.search_eq_greatest conditions.schedule req.k.toNat hcoll hquery,
          Except.ok.injEq] at hok
        subst hok
        refine ⟨coll, rfl, hquery, ?_⟩
        rw [List.map_map]
        exact List.map_id _
      · simp [hjoined, Store.search, hcoll, hquery] at hok

/-- The attempt that served a search: who was asked, when, and what the runtime said. -/
structure Shard.ServedRead (shard : Shard F) (fates : ℕ → ℕ → AttemptFate (ReadFate F)) (req : SearchRequest F)
    (serving : RetryState (ShardGroup F)) (read : ReadFate F) : Prop where
  reached : servingState shard.replicaSet (Shard.searchAttempt fates req) maxLeaderAttempts
    (.first shard.replicaSet shard.group) = some serving
  delivered : fates serving.made serving.idx = .reached read false
  leads : NodeService.leadership (serving.state.replicas serving.idx).nodeId read.conditions.metrics = .iAmLeader
  confirmed : read.conditions.ensureLinearizable = .ok ()

/-- A search call that succeeded ranks the collection of a confirmed leader, caught up. -/
theorem Shard.call_search_of_ok {shard : Shard F} {fates : ℕ → ℕ → AttemptFate (ReadFate F)}
    {req : SearchRequest F} {response : SearchResponse F}
    (hok : (shard.call (Shard.searchAttempt fates req)).1 = .ok response) :
    ∃ serving read coll, shard.ServedRead fates req serving read ∧
      (serving.state.leaderMachine read.others serving.idx).store.collections[req.collection]? = some coll ∧
      req.queryVector.length = coll.dim ∧
      response.results.map ScoredRecord.scoredId =
        greatest req.k.toNat (scoredIds req.queryVector coll.scanned) := by
  obtain ⟨serving, hserving, hserved, -⟩ := retryLoop_of_ok (Prod.ext hok rfl)
  obtain ⟨read, hfate, hanswer, hhint, -⟩ := runAttempt_served hserved
  obtain ⟨hconfirmed, hstore⟩ := ShardGroup.search_of_ok hanswer hhint
  obtain ⟨coll, hcoll, hquery, hresults⟩ := NodeService.searchStore_of_ok hstore
  have hleads : NodeService.leadership (serving.state.replicas serving.idx).nodeId read.conditions.metrics =
      .iAmLeader := by
    simp only [ShardGroup.search, hconfirmed] at hanswer
    exact NodeService.leads_of_ok hanswer hhint
  exact ⟨serving, read, coll, ⟨hserving, hfate, hleads, hconfirmed⟩, hcoll, hquery, hresults⟩

omit [FloatOps F] in
/-- Taking the metadata back out changes no id and no score. -/
theorem mergeScoredRecords_scoredId (shardLists : List (List (ScoredRecord F))) (k : ℕ) :
    (mergeScoredRecords shardLists k).map ScoredRecord.scoredId =
      mergeTopK (shardLists.map fun list => list.map ScoredRecord.scoredId) k := by
  have hfold : ∀ (hits : List (ScoredId F)) (acc : List (ScoredRecord F) × Std.ExtTreeMap UInt64 Metadata),
      (hits.foldl (fun acc s =>
        (acc.1 ++ [(⟨s.id, s.score, acc.2[s.id]?.getD ∅⟩ : ScoredRecord F)], acc.2.erase s.id)) acc).1.map
          ScoredRecord.scoredId = acc.1.map ScoredRecord.scoredId ++ hits := by
    intro hits
    induction hits with
    | nil => simp
    | cons hit hits ih =>
      intro acc
      rw [List.foldl_cons, ih, List.map_append, List.append_assoc]
      rfl
  exact hfold _ _

namespace ShardRouter

/-- A shard fails a search when its call is out of time or meets no served attempt. -/
theorem mem_failedShards_iff (self : ShardRouter F) (fates : ℕ → ℕ → ℕ → AttemptFate (ReadFate F))
    (inTime : ℕ → Bool) (req : SearchRequest F) (s : ℕ) :
    s ∈ self.failedShards fates inTime req ↔ ∃ shard, self.shards[s]? = some shard ∧
      (inTime s = false ∨ shard.Unserved (Shard.searchAttempt (fates s) req)) := by
  rw [failedShards, Finset.mem_filter, Finset.mem_range, ShardRouter.answer]
  cases hshard : self.shards[s]? with
  | none => simp [List.getElem?_eq_none_iff.mp hshard]
  | some shard =>
    have hs : s < self.shards.length := (List.getElem?_eq_some_iff.mp hshard).1
    have hcall := shard.call_ok_iff (Shard.searchAttempt (fates s) req)
    simp only [hs, true_and, Option.bind_some, searchShard, Option.some.injEq, exists_eq_left']
    cases inTime s with
    | false => simp
    | true =>
      cases hresult : (shard.call (Shard.searchAttempt (fates s) req)).1 with
      | ok response => simpa [hresult, Except.toOption] using hcall
      | error e => simpa [hresult, Except.toOption] using hcall

/-- A shard that has an answer was in time and its call succeeded. -/
theorem call_of_answer {self : ShardRouter F} {fates : ℕ → ℕ → ℕ → AttemptFate (ReadFate F)} {inTime : ℕ → Bool}
    {req : SearchRequest F} {s : ℕ} {response : SearchResponse F}
    (h : self.answer fates inTime req s = some response) :
    ∃ shard, self.shards[s]? = some shard ∧ (shard.call (Shard.searchAttempt (fates s) req)).1 = .ok response := by
  obtain ⟨shard, hshard, hanswer⟩ := Option.bind_eq_some_iff.mp h
  rw [searchShard, Option.ite_none_right_eq_some] at hanswer
  refine ⟨shard, hshard, ?_⟩
  cases hresult : (shard.call (Shard.searchAttempt (fates s) req)).1 with
  | ok answer => simpa [hresult, Except.toOption] using hanswer.2
  | error e => simp [hresult, Except.toOption] at hanswer

/-- The scored ids one shard sent, none if it failed. -/
def sent (self : ShardRouter F) (fates : ℕ → ℕ → ℕ → AttemptFate (ReadFate F)) (inTime : ℕ → Bool)
    (req : SearchRequest F) (s : ℕ) : Multiset (ScoredId F) :=
  (self.answer fates inTime req s).elim 0 fun response => response.results.map ScoredRecord.scoredId

/-- A search ranks what the shards sent. -/
theorem search_scoredIds (self : ShardRouter F) (fates : ℕ → ℕ → ℕ → AttemptFate (ReadFate F))
    (inTime : ℕ → Bool) (req : SearchRequest F) :
    (self.search fates inTime req.collection req.queryVector req.k).1.map ScoredRecord.scoredId =
      greatest req.k.toNat ((List.range self.shards.length).map (self.sent fates inTime req)).sum := by
  have hsum : ∀ places : List ℕ, ((places.filterMap (self.answer fates inTime req)).map fun response =>
      (response.results.map ScoredRecord.scoredId : Multiset (ScoredId F))).sum =
        (places.map (self.sent fates inTime req)).sum := by
    intro places
    induction places with
    | nil => rfl
    | cons s places ih => cases hanswer : self.answer fates inTime req s <;> simp [sent, hanswer, ih]
  rw [self.search_eq fates inTime req, mergeScoredRecords_scoredId, mergeTopK_eq_greatest_sum, List.map_map,
    List.map_map]
  exact congrArg (greatest _) (hsum _)

end ShardRouter

/-- A search never fails and ranks exactly what confirmed leaders hold.

The shards that count as failed are those out of time and those of which no attempt is served.
Each other shard contributes one replica that believes it leads, was confirmed by a quorum and
caught up, and the hits are the best `k` of all records those replicas hold. -/
theorem AggregatorService.search_ranks_confirmed_leaders (fates : ℕ → ℕ → ℕ → AttemptFate (ReadFate F))
    (inTime : ℕ → Bool) (req : SearchRequest F) (router : ShardRouter F) :
    ∃ response, AggregatorService.search fates inTime req router = .ok response ∧ response.leaderHint = "" ∧
      response.shardsQueried = router.shardCount ∧
      ∃ (failed : Finset ℕ) (scores : ℕ → Multiset (ScoredId F)),
        (∀ s, s ∈ failed ↔ ∃ shard, router.shards[s]? = some shard ∧
          (inTime s = false ∨ shard.Unserved (Shard.searchAttempt (fates s) req))) ∧
        response.shardsFailed = UInt32.ofNat failed.card ∧
        (∀ s shard, router.shards[s]? = some shard → s ∉ failed → ∃ serving read coll,
          shard.ServedRead (fates s) req serving read ∧
          (serving.state.leaderMachine read.others serving.idx).store.collections[req.collection]? = some coll ∧
          req.queryVector.length = coll.dim ∧ scores s = scoredIds req.queryVector coll.scanned) ∧
        response.results.map ScoredRecord.scoredId =
          greatest req.k.toNat (∑ s ∈ Finset.range router.shards.length with s ∉ failed, scores s) := by
  have hserved : ∀ s, ∃ scores : Multiset (ScoredId F), ∀ shard, router.shards[s]? = some shard →
      s ∉ router.failedShards fates inTime req → ∃ serving read coll,
        shard.ServedRead (fates s) req serving read ∧
        (serving.state.leaderMachine read.others serving.idx).store.collections[req.collection]? = some coll ∧
        req.queryVector.length = coll.dim ∧ scores = scoredIds req.queryVector coll.scanned ∧
        ∃ response, router.answer fates inTime req s = some response ∧
          response.results.map ScoredRecord.scoredId = greatest req.k.toNat scores := by
    intro s
    cases hanswer : router.answer fates inTime req s with
    | none =>
      refine ⟨0, fun shard hshard hnot => absurd ?_ hnot⟩
      rw [ShardRouter.failedShards, Finset.mem_filter, Finset.mem_range, hanswer]
      exact ⟨(List.getElem?_eq_some_iff.mp hshard).1, rfl⟩
    | some response =>
      obtain ⟨shard, hshard, hcall⟩ := ShardRouter.call_of_answer hanswer
      obtain ⟨serving, read, coll, hread, hcoll, hquery, hresults⟩ := Shard.call_search_of_ok hcall
      refine ⟨scoredIds req.queryVector coll.scanned, fun other hother _ => ?_⟩
      cases hshard.symm.trans hother
      exact ⟨serving, read, coll, hread, hcoll, hquery, rfl, response, rfl, hresults⟩
  choose scores hscores using hserved
  refine ⟨_, rfl, rfl, ?_, router.failedShards fates inTime req, scores,
    router.mem_failedShards_iff fates inTime req, ?_, ?_, ?_⟩
  · rw [router.search_eq fates inTime req]
  · rw [router.search_eq fates inTime req]
  · intro s shard hshard hnot
    obtain ⟨serving, read, coll, hread, hcoll, hquery, hsame, -⟩ := hscores s shard hshard hnot
    exact ⟨serving, read, coll, hread, hcoll, hquery, hsame⟩
  · refine (router.search_scoredIds fates inTime req).trans ?_
    rw [Finset.sum_filter]
    change _ = greatest _ ((List.range router.shards.length).map fun s =>
      if s ∉ router.failedShards fates inTime req then scores s else 0).sum
    -- Each shard sent the best of what its leader holds, so what it left out cannot matter.
    apply greatest_sum_congr
    rw [List.forall₂_map_left_iff, List.forall₂_map_right_iff, List.forall₂_same]
    intro s hs
    have hshard := List.getElem?_eq_getElem (List.mem_range.mp hs)
    by_cases hfailed : s ∈ router.failedShards fates inTime req
    · have hnone := (Finset.mem_filter.mp hfailed).2
      rw [Option.isNone_iff_eq_none] at hnone
      simp [ShardRouter.sent, hnone, hfailed]
    · obtain ⟨-, -, -, -, -, -, -, response, hanswer, hresults⟩ := hscores s _ hshard hfailed
      simp [ShardRouter.sent, hanswer, hfailed, hresults, greatest_greatest]

end Reads

end RaftVec
