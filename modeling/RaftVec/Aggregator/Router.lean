import RaftVec.Aggregator.Retry
import RaftVec.Core.Sharding
import RaftVec.Library.Grouping
import RaftVec.Node.ShardGroup

/-!
# Routing and fan-out over the shards

The router owns no data. A write is cut into one group per shard by the owner of each id
and every non-empty group goes to its shard's leader; a search goes to all shards and
their local lists are merged; a collection is created on every replica of every shard.

The calls of one request run concurrently on different shards. They share no state, so
each is run on its own shard, and the loop over the joined results comes after all of
them. What a request does it does before its call returns: creations and attempts that take
effect after their caller gave up are not represented here; runs of a `Cluster` have them.
-/

namespace RaftVec

open Std Grouping

/-- A shard as the router sees it, with the replicas behind its connections. -/
structure Shard (F : Type*) where
  replicaSet : ShardReplicaSet
  group : ShardGroup F

/-- The router over a fixed list of shards. -/
structure ShardRouter (F : Type*) where
  shards : List (Shard F)
  shards_pos : 0 < shards.length
  shards_lt : shards.length < 2 ^ 32

/-- What becomes of one replica's share of a collection creation. A request that takes effect
after its caller gave up is not among these. -/
inductive CreateFate where
  | delivered
  | replyLost (status : Status)
  | undelivered (status : Status)
deriving DecidableEq

/-- The answer to one replica's request and the replica after it. -/
def CreateFate.outcome {F : Type*} (self : CreateFate) (machine : ShardStateMachine F)
    (req : CreateCollectionRequest) : Except Status CreateCollectionResponse × ShardStateMachine F :=
  let created := NodeService.createCollection machine.store req
  match self with
  | .delivered => (created.1, { machine with store := created.2 })
  | .replyLost status => (.error status, { machine with store := created.2 })
  | .undelivered status => (.error status, machine)

namespace Shard

variable {F R : Type*}

/-- The replica the cache points to. -/
def leader (self : Shard F) : GroupReplica F := self.group.replicas self.replicaSet.leaderHint

/-- Call a shard's leader. -/
def call [CarriesLeaderHint R] (self : Shard F)
    (attempt : ℕ → ℕ → ShardGroup F → AttemptOutcome R × ShardGroup F) :
    Except RouterError R × Shard F :=
  let called := callWithRetry self.replicaSet attempt self.group
  (called.1, ⟨called.2.1, called.2.2⟩)

/-- Ask every replica of the shard to create the collection. -/
def createCollection (fates : ℕ → CreateFate) (req : CreateCollectionRequest) (self : Shard F) :
    List (Except Status CreateCollectionResponse) × Shard F :=
  let outcome := fun idx => (fates idx).outcome (self.group.replicas idx).machine req
  ((List.range self.replicaSet.replicaCount).map fun idx => (outcome idx).1,
    { self with
      group := { self.group with
        replicas := fun idx => { self.group.replicas idx with machine := (outcome idx).2 } } })

variable [FloatOps F]

/-- One attempt to submit a command at one replica. -/
def writeAttempt (fates : ℕ → ℕ → AttemptFate (RaftFate F)) (cmd : ShardCommand F) (count : ℕ)
    (response : UInt32 → String → R) (n idx : ℕ) : ShardGroup F → AttemptOutcome R × ShardGroup F :=
  runAttempt (fates n idx) fun fate =>
    NodeService.write (ShardGroup.clientWrite fate idx) cmd count response

/-- One attempt to insert at one replica. -/
def insertAttempt (fates : ℕ → ℕ → AttemptFate (RaftFate F)) (req : InsertRequest F) (n idx : ℕ) :
    ShardGroup F → AttemptOutcome InsertResponse × ShardGroup F :=
  runAttempt (fates n idx) fun fate => NodeService.insert (ShardGroup.clientWrite fate idx) req

/-- One attempt to delete at one replica. -/
def deleteAttempt (fates : ℕ → ℕ → AttemptFate (RaftFate F)) (req : DeleteRequest) (n idx : ℕ) :
    ShardGroup F → AttemptOutcome DeleteResponse × ShardGroup F :=
  runAttempt (fates n idx) fun fate => NodeService.delete (ShardGroup.clientWrite fate idx) req

/-- An insert is a write of the whole batch. -/
theorem insertAttempt_eq_writeAttempt (fates : ℕ → ℕ → AttemptFate (RaftFate F)) (req : InsertRequest F) :
    insertAttempt fates req = writeAttempt fates (.upsert req.collection req.records)
      req.records.length InsertResponse.mk := rfl

/-- A delete is a write of all its ids. -/
theorem deleteAttempt_eq_writeAttempt (fates : ℕ → ℕ → AttemptFate (RaftFate F)) (req : DeleteRequest) :
    deleteAttempt fates req = writeAttempt fates (.delete req.collection req.ids)
      req.ids.length DeleteResponse.mk := rfl

/-- An attempt leaves the group alone, or commits its command at the replica it reached. -/
theorem writeAttempt_state (fates : ℕ → ℕ → AttemptFate (RaftFate F)) (cmd : ShardCommand F) (count : ℕ)
    (response : UInt32 → String → R) (n idx : ℕ) (group : ShardGroup F) :
    (writeAttempt fates cmd count response n idx group).2 = group ∨ ∃ others logId replyLost,
      fates n idx = .reached (.committed others logId) replyLost ∧
        (writeAttempt fates cmd count response n idx group).2 = group.commitAt idx others logId cmd := by
  rcases runAttempt_state (fates n idx)
    (fun fate => NodeService.write (ShardGroup.clientWrite fate idx) cmd count response) group with
    hsame | ⟨answer, replyLost, hfate, hstate⟩
  · exact Or.inl hsame
  · rcases ShardGroup.write_state answer idx cmd count response group with hsame | ⟨others, logId, rfl, hcommit⟩
    · exact Or.inl (hstate.trans hsame)
    · exact Or.inr ⟨others, logId, replyLost, hfate, hstate.trans hcommit⟩

/-- A write call that succeeded was committed by the replica the cache now points to. -/
theorem call_write_of_ok [CarriesLeaderHint R] {shard : Shard F}
    {fates : ℕ → ℕ → AttemptFate (RaftFate F)} {cmd : ShardCommand F} {count : ℕ}
    {response : UInt32 → String → R} {answer : R}
    (hresponse : ∀ n addr, CarriesLeaderHint.leaderHint (response n addr) = addr)
    (h : (shard.call (writeAttempt fates cmd count response)).1 = .ok answer) :
    ∃ serving others logId,
      servingState shard.replicaSet (writeAttempt fates cmd count response) maxLeaderAttempts
          (.first shard.replicaSet shard.group) = some serving ∧
        fates serving.made serving.idx = .reached (.committed others logId) false ∧
        answer = response (UInt32.ofNat count) "" ∧
        (shard.call (writeAttempt fates cmd count response)).2 =
          ⟨{ shard.replicaSet with leaderHint := serving.idx },
            serving.state.commitAt serving.idx others logId cmd⟩ := by
  obtain ⟨serving, hserving, hserved, hfinal⟩ := retryLoop_of_ok (Prod.ext h rfl)
  obtain ⟨fate, hfate, hanswer, hhint, hstate⟩ := runAttempt_served hserved
  obtain ⟨others, logId, rfl, hcount, hcommit⟩ :=
    ShardGroup.write_of_ok CarriesLeaderHint.leaderHint hresponse hanswer hhint
  refine ⟨serving, others, logId, hserving, hfate, hcount, ?_⟩
  simp only [call, callWithRetry, hfinal]
  rw [← hcommit, ← hstate]
  rfl

/-- One attempt to search at one replica. -/
def searchAttempt [LinearOrder F] (fates : ℕ → ℕ → AttemptFate (ReadFate F)) (req : SearchRequest F)
    (n idx : ℕ) : ShardGroup F → AttemptOutcome (SearchResponse F) × ShardGroup F :=
  runAttempt (fates n idx) fun fate => ShardGroup.search fate idx req

end Shard

/-- Add up the counts of the answers, or stop at the first failed call. -/
def sumCounts {R : Type*} (count : R → UInt32) :
    UInt32 → List (Except RouterError R) → Except RouterError UInt32
  | total, [] => .ok total
  | _, .error e :: _ => .error e
  | total, .ok response :: results => sumCounts count (total + count response) results

/-- Succeed unless some replica failed, with the first failure. -/
def joinCreates : List (Except Status CreateCollectionResponse) → Except RouterError Unit
  | [] => .ok ()
  | .error status :: _ => .error (.rpc status)
  | .ok _ :: results => joinCreates results

/-- Merge the shards' ranked lists and give each survivor the metadata sent with its id. -/
def mergeScoredRecords {F : Type*} [LinearOrder F] (shardLists : List (List (ScoredRecord F))) (k : ℕ) :
    List (ScoredRecord F) :=
  let metadata : ExtTreeMap UInt64 Metadata :=
    shardLists.flatten.foldl (fun metadata r => metadata.insert r.id r.metadata) ∅
  let scoredLists : List (List (ScoredId F)) :=
    shardLists.map fun list => list.map fun r => ⟨r.id, r.score⟩
  ((mergeTopK scoredLists k).foldl
    (fun acc s =>
      (acc.1 ++ [(⟨s.id, s.score, acc.2[s.id]?.getD ∅⟩ : ScoredRecord F)], acc.2.erase s.id))
    ([], metadata)).1

namespace ShardRouter

variable {F : Type*}

/-- How many shards there are, as sent with a request. -/
def shardCount (self : ShardRouter F) : UInt32 := UInt32.ofNat self.shards.length

/-- No shard is lost in the count. -/
theorem shardCount_toNat (self : ShardRouter F) : self.shardCount.toNat = self.shards.length :=
  UInt32.toNat_ofNat_of_lt' self.shards_lt

/-- There is at least one shard. -/
theorem shardCount_pos (self : ShardRouter F) : 0 < self.shardCount := by
  rw [UInt32.lt_iff_toNat_lt, shardCount_toNat]
  exact self.shards_pos

/-- The place of the shard that owns an id. -/
def owner (fxhash : UInt64 → UInt64) (self : ShardRouter F) (id : UInt64) : ℕ :=
  (shardId fxhash id self.shardCount self.shardCount_pos).toNat

/-- Every id is owned by one of the shards. -/
theorem owner_lt (fxhash : UInt64 → UInt64) (self : ShardRouter F) (id : UInt64) :
    self.owner fxhash id < self.shards.length := by
  have hlt := shardId_lt fxhash id self.shardCount self.shardCount_pos
  rw [UInt32.lt_iff_toNat_lt, shardCount_toNat] at hlt
  exact hlt

/-- Cut items into one group per shard, keeping their order. -/
def groupByShard {α : Type*} (fxhash : UInt64 → UInt64) (self : ShardRouter F) (items : List α)
    (key : α → UInt64) : List (List α) :=
  items.foldl (fun groups item => groups.modify (self.owner fxhash (key item)) (· ++ [item]))
    (List.replicate self.shardCount.toNat [])

/-- Let every shard take a new state. -/
def mapShards (self : ShardRouter F) (f : ℕ → Shard F → Shard F) : ShardRouter F :=
  ⟨self.shards.mapIdx f, by simpa using self.shards_pos, by simpa using self.shards_lt⟩

/-- Send each non-empty group to its shard and join the results. -/
def callGroups {α R : Type*} (self : ShardRouter F) (groups : List (List α))
    (call : ℕ → List α → Shard F → Except RouterError R × Shard F) :
    List (Except RouterError R) × ShardRouter F :=
  let addressed := fun s => groups[s]?.filter fun group => !group.isEmpty
  ((self.shards.mapIdx fun s shard => (addressed s).map fun group => (call s group shard).1).reduceOption,
    self.mapShards fun s shard =>
      match addressed s with
      | none => shard
      | some group => (call s group shard).2)

/-- Fan a creation out to every replica of every shard. -/
def createCollection (self : ShardRouter F) (fates : ℕ → ℕ → CreateFate) (name : String) (dim : UInt32) :
    Except RouterError Unit × ShardRouter F :=
  let req : CreateCollectionRequest := ⟨name, dim, self.shardCount⟩
  let results := (self.shards.mapIdx fun s shard => (shard.createCollection (fates s) req).1).flatten
  (joinCreates results, self.mapShards fun s shard => (shard.createCollection (fates s) req).2)

variable [FloatOps F]

/-- Send each item of a write to the shard that owns its id and add up the acknowledgements. -/
def writeGroups {α R : Type*} [CarriesLeaderHint R] (fxhash : UInt64 → UInt64) (self : ShardRouter F)
    (items : List α) (key : α → UInt64) (count : R → UInt32)
    (attempt : ℕ → List α → ℕ → ℕ → ShardGroup F → AttemptOutcome R × ShardGroup F) :
    Except RouterError UInt32 × ShardRouter F :=
  let calls := self.callGroups (self.groupByShard fxhash items key) fun s group shard =>
    shard.call (attempt s group)
  (sumCounts count 0 calls.1, calls.2)

/-- Insert each record on the shard that owns its id. -/
def insert (fxhash : UInt64 → UInt64) (self : ShardRouter F)
    (fates : ℕ → ℕ → ℕ → AttemptFate (RaftFate F)) (collection : String)
    (records : List (VectorRecord F)) : Except RouterError UInt32 × ShardRouter F :=
  self.writeGroups fxhash records VectorRecord.id InsertResponse.inserted fun s group =>
    Shard.insertAttempt (fates s) ⟨collection, group⟩

/-- Delete each id on the shard that owns it. -/
def delete (fxhash : UInt64 → UInt64) (self : ShardRouter F)
    (fates : ℕ → ℕ → ℕ → AttemptFate (RaftFate F)) (collection : String) (ids : List UInt64) :
    Except RouterError UInt32 × ShardRouter F :=
  self.writeGroups fxhash ids (fun id => id) DeleteResponse.deleted fun s group =>
    Shard.deleteAttempt (fates s) ⟨collection, group⟩

variable [LinearOrder F]

/-- One shard's answer to a search, none when it failed or missed the deadline. -/
def searchShard (shard : Shard F) (fates : ℕ → ℕ → AttemptFate (ReadFate F)) (inTime : Bool)
    (req : SearchRequest F) : Option (SearchResponse F) :=
  if inTime then (shard.call (Shard.searchAttempt fates req)).1.toOption else none

omit [FloatOps F] [LinearOrder F] in
/-- Collect an answer's hits, or count a failure. -/
def tally (acc : UInt32 × List (List (ScoredRecord F))) :
    Option (SearchResponse F) → UInt32 × List (List (ScoredRecord F))
  | some resp => (acc.1, acc.2 ++ [resp.results])
  | none => (acc.1 + 1, acc.2)

/-- Search all shards, merge what came in time and count what did not. -/
def search (self : ShardRouter F) (fates : ℕ → ℕ → ℕ → AttemptFate (ReadFate F)) (inTime : ℕ → Bool)
    (collection : String) (queryVector : List F) (k : UInt32) :
    List (ScoredRecord F) × UInt32 × UInt32 :=
  let responses := self.shards.mapIdx fun s shard =>
    searchShard shard (fates s) (inTime s) ⟨collection, queryVector, k⟩
  let counted := responses.foldl tally (0, [])
  (mergeScoredRecords counted.2 k.toNat, UInt32.ofNat responses.length, counted.1)

end ShardRouter

/-! ## Joined answers and shares -/

/-- Joining answers of known counts, skipping shards that were not addressed, adds up the counts. -/
theorem sumCounts_reduceOption {R : Type*} {count : R → UInt32}
    {results : List (Option (Except RouterError R))} {lengths : List ℕ}
    (h : List.Forall₂ (fun result length => (result = none ∧ length = 0) ∨
      ∃ response, result = some (.ok response) ∧ count response = UInt32.ofNat length) results lengths)
    (total : UInt32) :
    sumCounts count total results.reduceOption = .ok (total + UInt32.ofNat lengths.sum) := by
  induction h generalizing total with
  | nil => simp [sumCounts]
  | cons hfirst _ ih =>
    cases hfirst with
    | inl hnone =>
      rw [hnone.1, hnone.2, List.reduceOption_cons_of_none, ih, List.sum_cons, Nat.zero_add]
    | inr hsome =>
      obtain ⟨response, hresult, hcount⟩ := hsome
      rw [hresult, List.reduceOption_cons_of_some, sumCounts, ih, hcount, List.sum_cons, UInt32.ofNat_add,
        UInt32.add_assoc]

/-- A sum of counts means that every call succeeded. -/
theorem sumCounts_ok {R : Type*} {count : R → UInt32} {total n : UInt32}
    {results : List (Except RouterError R)} (h : sumCounts count total results = .ok n)
    {result : Except RouterError R} (hresult : result ∈ results) : ∃ response, result = .ok response := by
  induction results generalizing total with
  | nil => cases hresult
  | cons first results ih =>
    cases first with
    | error e => cases h
    | ok response =>
      cases List.mem_cons.mp hresult with
      | inl hfirst => exact ⟨response, hfirst⟩
      | inr hrest => exact ih h hrest

/-- The counts of successful calls can be added up. -/
theorem sumCounts_of_all_ok {R : Type*} {count : R → UInt32} {results : List (Except RouterError R)}
    (h : ∀ result ∈ results, ∃ response, result = .ok response) (total : UInt32) :
    ∃ n, sumCounts count total results = .ok n := by
  induction results generalizing total with
  | nil => exact ⟨total, rfl⟩
  | cons result results ih =>
    obtain ⟨response, rfl⟩ := h result List.mem_cons_self
    exact ih (fun other hother => h other (List.mem_cons_of_mem _ hother)) (total + count response)

namespace ShardRouter

variable {F α : Type*}

/-- The items a shard owns. -/
def share (fxhash : UInt64 → UInt64) (self : ShardRouter F) (items : List α) (key : α → UInt64) (s : ℕ) :
    List α :=
  items.filter fun item => self.owner fxhash (key item) = s

/-- Each shard's group is its share of the items. -/
theorem groupByShard_getElem? (fxhash : UInt64 → UInt64) (self : ShardRouter F) (items : List α)
    (key : α → UInt64) {s : ℕ} (hs : s < self.shards.length) :
    (self.groupByShard fxhash items key)[s]? = some (self.share fxhash items key s) := by
  rw [groupByShard, getElem?_foldl_modify fun item => self.owner fxhash (key item),
    List.getElem?_replicate, shardCount_toNat, if_pos hs]
  rfl

/-- There is one group per shard. -/
theorem length_groupByShard (fxhash : UInt64 → UInt64) (self : ShardRouter F) (items : List α)
    (key : α → UInt64) : (self.groupByShard fxhash items key).length = self.shards.length := by
  rw [groupByShard, length_foldl_modify fun item => self.owner fxhash (key item), List.length_replicate,
    shardCount_toNat]

/-- The groups together have as many items as the request. -/
theorem sum_length_groupByShard (fxhash : UInt64 → UInt64) (self : ShardRouter F) (items : List α)
    (key : α → UInt64) : ((self.groupByShard fxhash items key).map List.length).sum = items.length := by
  rw [groupByShard, sum_length_foldl_modify fun item => self.owner fxhash (key item)]
  · simp
  · intro item
    rw [List.length_replicate, shardCount_toNat]
    exact self.owner_lt fxhash (key item)

/-- A shard that owns none of the items keeps its state. -/
theorem callGroups_shards_of_nil {R : Type*} {fxhash : UInt64 → UInt64} {self : ShardRouter F}
    {items : List α} {key : α → UInt64} (call : ℕ → List α → Shard F → Except RouterError R × Shard F)
    {s : ℕ} {shard : Shard F} (hshard : self.shards[s]? = some shard)
    (hshare : self.share fxhash items key s = []) :
    (self.callGroups (self.groupByShard fxhash items key) call).2.shards[s]? = some shard := by
  have hs : s < self.shards.length := (List.getElem?_eq_some_iff.mp hshard).1
  simp only [callGroups, mapShards, List.getElem?_mapIdx, hshard,
    groupByShard_getElem? fxhash self items key hs, hshare]
  rfl

/-- A shard that owns some of the items is called with them. -/
theorem callGroups_shards_of_ne_nil {R : Type*} {fxhash : UInt64 → UInt64} {self : ShardRouter F}
    {items : List α} {key : α → UInt64} (call : ℕ → List α → Shard F → Except RouterError R × Shard F)
    {s : ℕ} {shard : Shard F} (hshard : self.shards[s]? = some shard)
    (hshare : self.share fxhash items key s ≠ []) :
    (self.callGroups (self.groupByShard fxhash items key) call).2.shards[s]? =
      some (call s (self.share fxhash items key s) shard).2 ∧
    (call s (self.share fxhash items key s) shard).1 ∈
      (self.callGroups (self.groupByShard fxhash items key) call).1 := by
  have hs : s < self.shards.length := (List.getElem?_eq_some_iff.mp hshard).1
  have haddressed : (some (self.share fxhash items key s)).filter (fun group => !group.isEmpty) =
      some (self.share fxhash items key s) := by
    simpa [Option.filter] using hshare
  refine ⟨?_, ?_⟩
  · simp only [callGroups, mapShards, List.getElem?_mapIdx, hshard,
      groupByShard_getElem? fxhash self items key hs, haddressed, Option.map_some]
  · rw [callGroups, List.reduceOption_mem_iff, List.mem_iff_getElem?]
    refine ⟨s, ?_⟩
    simp only [List.getElem?_mapIdx, hshard, groupByShard_getElem? fxhash self items key hs, haddressed,
      Option.map_some]

/-- Every result is that of a shard called with the items it owns. -/
theorem exists_shard_of_mem_callGroups {R : Type*} {fxhash : UInt64 → UInt64} {self : ShardRouter F}
    {items : List α} {key : α → UInt64} {call : ℕ → List α → Shard F → Except RouterError R × Shard F}
    {result : Except RouterError R}
    (h : result ∈ (self.callGroups (self.groupByShard fxhash items key) call).1) :
    ∃ s shard, self.shards[s]? = some shard ∧ self.share fxhash items key s ≠ [] ∧
      result = (call s (self.share fxhash items key s) shard).1 := by
  rw [callGroups, List.reduceOption_mem_iff, List.mem_iff_getElem?] at h
  obtain ⟨s, hs⟩ := h
  rw [List.getElem?_mapIdx] at hs
  obtain ⟨shard, hshard, hcall⟩ := Option.map_eq_some_iff.mp hs
  obtain ⟨group, hgroup, hresult⟩ := Option.map_eq_some_iff.mp hcall
  change (self.groupByShard fxhash items key)[s]?.filter (fun group => !group.isEmpty) = some group at hgroup
  rw [groupByShard_getElem? fxhash self items key (List.getElem?_eq_some_iff.mp hshard).1,
    Option.filter_eq_some_iff, Option.some.injEq] at hgroup
  obtain ⟨rfl, hne⟩ := hgroup
  refine ⟨s, shard, hshard, ?_, hresult.symm⟩
  simpa using hne

/-- After a write that succeeded, a shard that owns no item is as before. -/
theorem writeGroups_shards_of_nil {R : Type*} [CarriesLeaderHint R] {fxhash : UInt64 → UInt64}
    {self : ShardRouter F} {items : List α} {key : α → UInt64} {count : R → UInt32}
    {attempt : ℕ → List α → ℕ → ℕ → ShardGroup F → AttemptOutcome R × ShardGroup F} {s : ℕ}
    {shard : Shard F} (hshard : self.shards[s]? = some shard)
    (hshare : self.share fxhash items key s = []) :
    (self.writeGroups fxhash items key count attempt).2.shards[s]? = some shard :=
  callGroups_shards_of_nil _ hshard hshare

/-- After a write that succeeded, a shard that owns some items has answered their call. -/
theorem writeGroups_of_ok {R : Type*} [CarriesLeaderHint R] {fxhash : UInt64 → UInt64}
    {self : ShardRouter F} {items : List α} {key : α → UInt64} {count : R → UInt32}
    {attempt : ℕ → List α → ℕ → ℕ → ShardGroup F → AttemptOutcome R × ShardGroup F} {n : UInt32}
    (hok : (self.writeGroups fxhash items key count attempt).1 = .ok n) {s : ℕ} {shard : Shard F}
    (hshard : self.shards[s]? = some shard) (hshare : self.share fxhash items key s ≠ []) :
    (self.writeGroups fxhash items key count attempt).2.shards[s]? =
        some (shard.call (attempt s (self.share fxhash items key s))).2 ∧
      ∃ response, (shard.call (attempt s (self.share fxhash items key s))).1 = .ok response := by
  have hcalls := callGroups_shards_of_ne_nil (fun s group shard => shard.call (attempt s group)) hshard hshare
  exact ⟨hcalls.1, sumCounts_ok hok hcalls.2⟩

/-- A write whose answers acknowledge their groups acknowledges the number of items, modulo `2 ^ 32`. -/
theorem writeGroups_count {R : Type*} [CarriesLeaderHint R] {fxhash : UInt64 → UInt64}
    {self : ShardRouter F} {items : List α} {key : α → UInt64} {count : R → UInt32}
    {attempt : ℕ → List α → ℕ → ℕ → ShardGroup F → AttemptOutcome R × ShardGroup F} {n : UInt32}
    (hcount : ∀ s (shard : Shard F) response,
      (shard.call (attempt s (self.share fxhash items key s))).1 = .ok response →
      count response = UInt32.ofNat (self.share fxhash items key s).length)
    (hok : (self.writeGroups fxhash items key count attempt).1 = .ok n) :
    n = UInt32.ofNat items.length := by
  have hsum : sumCounts count 0 (self.callGroups (self.groupByShard fxhash items key)
      fun s group shard => shard.call (attempt s group)).1 =
      .ok (0 + UInt32.ofNat ((self.groupByShard fxhash items key).map List.length).sum) := by
    apply sumCounts_reduceOption
    rw [List.forall₂_iff_get]
    refine ⟨by simp [length_groupByShard], ?_⟩
    intro s hs hlengths
    have hs : s < self.shards.length := by simpa using hs
    have hshard : self.shards[s]? = some self.shards[s] := List.getElem?_eq_getElem hs
    have hgroup := groupByShard_getElem? fxhash self items key hs
    have hlt : s < (self.groupByShard fxhash items key).length := by simpa using hlengths
    have hget : (self.groupByShard fxhash items key)[s] = self.share fxhash items key s :=
      (List.getElem_eq_iff hlt).mpr hgroup
    simp only [List.get_eq_getElem, List.getElem_mapIdx, List.getElem_map, hgroup, hget]
    by_cases hshare : self.share fxhash items key s = []
    · exact Or.inl ⟨by simp [hshare, Option.filter], by rw [hshare]; rfl⟩
    · obtain ⟨_, response, hresponse⟩ := writeGroups_of_ok hok hshard hshare
      refine Or.inr ⟨response, ?_, hcount s _ response hresponse⟩
      simpa [Option.filter, hshare] using hresponse
  rw [writeGroups] at hok
  simp only [hsum, sum_length_groupByShard, UInt32.zero_add, Except.ok.injEq] at hok
  exact hok.symm

end ShardRouter

end RaftVec
