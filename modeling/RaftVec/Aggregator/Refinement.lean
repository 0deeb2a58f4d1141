import RaftVec.Aggregator.Merge
import RaftVec.Library.Run

/-!
# A sharded cluster behaves as a single store

The router over its shards runs beside one store that executes the same calls whole. As
long as the replicas that may lead answer and no batch is rejected, every shard keeps its
slice of the single store, over any history. A search then returns what the single store
would rank if it held only the records of the shards that answered.

Which replicas may lead is a parameter for each shard. Elections are openraft's, so a
history may pass from one of them to another at any call.
-/

namespace RaftVec

open Std WriteHistory Selection Grouping

variable {F : Type*} [FloatOps F]

/-! ## Shares of a batch -/

/-- The records a shard owns are its share of an accepted batch. -/
theorem ShareOf.upsert {owner : UInt64 → ℕ} {single : Store F} {collection : String} {coll : Collection F}
    (hcoll : single.collections[collection]? = some coll) {records : List (VectorRecord F)}
    (hadmits : coll.Admits records) (s : ℕ) :
    ShareOf owner single s (.upsert collection (records.filter fun record => owner record.id = s))
      (.upsert collection records) := by
  have hpart : ∀ record ∈ records.filter (fun record => owner record.id = s),
      record.embedding.length = coll.dim :=
    fun record hrecord => hadmits record (List.mem_of_mem_filter hrecord)
  have hwrites : upsertWrites (records.filter fun record => owner record.id = s) =
      (upsertWrites records).filter fun w => decide (owner w.1 = s) := by
    rw [upsertWrites, upsertWrites, List.filter_map]
    rfl
  refine ⟨rfl, ?_, ?_⟩
  · intro held hheld id
    cases hcoll.symm.trans hheld
    simp only [ShardCommand.effect]
    rw [if_pos hpart, if_pos (show ∀ record ∈ records, record.embedding.length = coll.dim from hadmits), hwrites,
       lastWrite_filter fun id => decide (owner id = s)]
    simp only [decide_eq_true_eq]
  · intro hnone
    cases hcoll.symm.trans hnone

/-- The ids a shard owns are its share of a deletion. -/
theorem ShareOf.delete (owner : UInt64 → ℕ) (single : Store F) (collection : String) (ids : List UInt64)
    (s : ℕ) :
    ShareOf owner single s (.delete collection (ids.filter fun id => owner id = s))
      (.delete collection ids) := by
  have hwrites : (deleteWrites (ids.filter fun id => owner id = s) :
      List (UInt64 × Option (StoredVector F))) =
      (deleteWrites ids).filter fun w => decide (owner w.1 = s) := by
    rw [deleteWrites, deleteWrites, List.filter_map]
    rfl
  refine ⟨rfl, ?_, ?_⟩
  · intro coll _ id
    simp only [ShardCommand.effect]
    rw [hwrites, lastWrite_filter fun id => decide (owner id = s)]
    simp only [decide_eq_true_eq]
  · intro _ dim w hw
    obtain ⟨id, _, rfl⟩ := List.mem_map.mp hw
    rfl

namespace ShardRouter

/-- Every shard of the router holds its slice of the single store. -/
def Sliced (owner : UInt64 → ℕ) (leads : ℕ → ℕ → Prop) (single : Store F) (router : ShardRouter F) : Prop :=
  ∀ s shard, router.shards[s]? = some shard → SlicedGroup owner (leads s) single s shard.group

/-- A write that every addressed shard answered turns slices of a store into slices of the store after it. -/
theorem Sliced.writeGroups {α R : Type*} [CarriesLeaderHint R] {fxhash : UInt64 → UInt64}
    {owner : UInt64 → ℕ} {leads : ℕ → ℕ → Prop} {single : Store F} {router : ShardRouter F}
    (h : router.Sliced owner leads single) {items : List α} {key : α → UInt64} {count : R → UInt32}
    {fates : ℕ → ℕ → ℕ → AttemptFate (RaftFate F)} (hled : ∀ s, LedBy (leads s) (fates s))
    (command : List α → ShardCommand F) (response : UInt32 → String → R)
    (hresponse : ∀ n addr, CarriesLeaderHint.leaderHint (response n addr) = addr) (whole : ShardCommand F)
    (hshare : ∀ s, ShareOf owner single s (command (router.share fxhash items key s)) whole)
    (hempty : ∀ dim, (command []).effect dim = []) {n : UInt32}
    (hok : (router.writeGroups fxhash items key count fun s group =>
      Shard.writeAttempt (fates s) (command group) group.length response).1 = .ok n) :
    (router.writeGroups fxhash items key count fun s group =>
      Shard.writeAttempt (fates s) (command group) group.length response).2.Sliced owner leads
        (single.execute whole).2 := by
  intro s after hafter
  have hs : s < router.shards.length := by
    have hlt := (List.getElem?_eq_some_iff.mp hafter).1
    simpa [ShardRouter.writeGroups, callGroups, mapShards] using hlt
  have hshard : router.shards[s]? = some router.shards[s] := List.getElem?_eq_getElem hs
  by_cases hnone : router.share fxhash items key s = []
  · cases (writeGroups_shards_of_nil hshard hnone).symm.trans hafter
    apply (h s _ hshard).untouched
    intro coll hcoll id howner
    have heffect := (hshare s).effect_eq coll hcoll id
    rw [hnone, hempty, if_pos howner] at heffect
    exact heffect.symm
  · obtain ⟨hcalled, response, hanswer⟩ := writeGroups_of_ok hok hshard hnone
    cases hcalled.symm.trans hafter
    exact (h s _ hshard).call_write (hshare s) (hled s) hresponse hanswer

/-- Creating a collection on the replicas that may lead keeps the slices. -/
theorem Sliced.createCollection {owner : UInt64 → ℕ} {leads : ℕ → ℕ → Prop} {single : Store F}
    {router : ShardRouter F} (h : router.Sliced owner leads single) {fates : ℕ → ℕ → CreateFate}
    (hdelivered : ∀ s idx, leads s idx → fates s idx = .delivered) (name : String) (dim : UInt32) :
    (router.createCollection fates name dim).2.Sliced owner leads
      (single.createCollection name dim.toNat router.shardCount).2 := by
  intro s after hafter
  simp only [ShardRouter.createCollection, mapShards, List.getElem?_mapIdx, Option.map_eq_some_iff] at hafter
  obtain ⟨shard, hshard, rfl⟩ := hafter
  exact (h s shard hshard).createCollection (hdelivered s) ⟨name, dim, router.shardCount⟩

/-- The replicas of every shard have just been started. -/
def Fresh (router : ShardRouter F) : Prop :=
  ∀ shard ∈ router.shards, ∃ nodeIds, shard.group = ShardGroup.fresh F nodeIds

omit [FloatOps F] in
/-- Shards that are all alike have just started if one of them has. -/
theorem Fresh.of_alike {router : ShardRouter F} (shard : Shard F) (halike : ∀ other ∈ router.shards, other = shard)
    {nodeIds : ℕ → NodeId} (hgroup : shard.group = ShardGroup.fresh F nodeIds) : router.Fresh := by
  intro other hother
  exact ⟨nodeIds, by rw [halike other hother, hgroup]⟩

/-- Just started groups hold the slices of an empty store. -/
theorem Fresh.sliced {router : ShardRouter F} (h : router.Fresh) (owner : UInt64 → ℕ)
    (leads : ℕ → ℕ → Prop) : router.Sliced owner leads Store.new := by
  intro s shard hshard
  obtain ⟨nodeIds, hgroup⟩ := h shard (List.mem_of_getElem? hshard)
  rw [hgroup]
  refine ⟨⟨?_, ?_⟩, ?_⟩
  · intro name coll hcoll
    simp [Store.new] at hcoll
  · intro name _ dim w hw
    cases hw
  · intro idx _
    exact ⟨Nat.le_refl 0, fun name => by simp [ShardGroup.fresh, Store.new]⟩

omit [FloatOps F] in
/-- The owner of an id depends on the number of shards alone. -/
theorem owner_eq_of_length {router router' : ShardRouter F} (fxhash : UInt64 → UInt64)
    (h : router'.shards.length = router.shards.length) : router'.owner fxhash = router.owner fxhash := by
  have hcount : router'.shardCount = router.shardCount := by rw [shardCount, shardCount, h]
  funext id
  simp only [owner, hcount]

end ShardRouter

/-! ## The cluster beside a single store -/

/-- A call to the router, with what becomes of its messages. -/
inductive RouterCall (F : Type*) where
  | createCollection (fates : ℕ → ℕ → CreateFate) (name : String) (dim : UInt32)
  | insert (fates : ℕ → ℕ → ℕ → AttemptFate (RaftFate F)) (collection : String)
      (records : List (VectorRecord F))
  | delete (fates : ℕ → ℕ → ℕ → AttemptFate (RaftFate F)) (collection : String) (ids : List UInt64)

/-- The cluster, and a store that executes every call whole. -/
structure Mirrored (F : Type*) where
  router : ShardRouter F
  single : Store F

namespace Mirrored

/-- Both sides perform one call. -/
def step (fxhash : UInt64 → UInt64) (self : Mirrored F) : RouterCall F → Mirrored F
  | .createCollection fates name dim =>
    ⟨(self.router.createCollection fates name dim).2,
      (self.single.createCollection name dim.toNat self.router.shardCount).2⟩
  | .insert fates collection records =>
    ⟨(self.router.insert fxhash fates collection records).2, (self.single.insert collection records).2⟩
  | .delete fates collection ids =>
    ⟨(self.router.delete fxhash fates collection ids).2, (self.single.delete collection ids).2⟩

/-- The replicas that may lead answer the call, and an inserted batch is not rejected. -/
def Served (fxhash : UInt64 → UInt64) (leads : ℕ → ℕ → Prop) (self : Mirrored F) : RouterCall F → Prop
  | .createCollection fates _ _ => ∀ s idx, leads s idx → fates s idx = .delivered
  | .insert fates collection records =>
    (∀ s, LedBy (leads s) (fates s)) ∧
      (∃ n, (self.router.insert fxhash fates collection records).1 = .ok n) ∧
      ∃ n, (self.single.insert collection records).1 = .ok n
  | .delete fates collection ids =>
    (∀ s, LedBy (leads s) (fates s)) ∧ ∃ n, (self.router.delete fxhash fates collection ids).1 = .ok n

/-- The cluster is the single store in slices, over the shards it started with. -/
structure Refines (fxhash : UInt64 → UInt64) (leads : ℕ → ℕ → Prop) (router : ShardRouter F)
    (mirrored : Mirrored F) : Prop where
  length_eq : mirrored.router.shards.length = router.shards.length
  wellFormed : mirrored.single.WellFormed
  sliced : mirrored.router.Sliced (router.owner fxhash) leads mirrored.single

/-- A batch the store takes is for a collection it has and fits it. -/
theorem admits_of_insert_ok {store : Store F} {collection : String} {records : List (VectorRecord F)} {n : ℕ}
    (h : (store.insert collection records).1 = .ok n) :
    ∃ coll, store.collections[collection]? = some coll ∧ coll.Admits records := by
  cases hcoll : store.collections[collection]? with
  | none =>
    rw [Store.insert_of_absent hcoll] at h
    cases h
  | some coll =>
    refine ⟨coll, rfl, ?_⟩
    by_contra hrejects
    obtain ⟨actual, hreject⟩ := Store.insert_of_not_admits hcoll hrejects
    rw [hreject] at h
    cases h

/-- A served call keeps the cluster the single store in slices. -/
theorem refines_step {fxhash : UInt64 → UInt64} {leads : ℕ → ℕ → Prop} {router : ShardRouter F}
    (mirrored : Mirrored F) (call : RouterCall F) (h : mirrored.Refines fxhash leads router)
    (hserved : mirrored.Served fxhash leads call) :
    (mirrored.step fxhash call).Refines fxhash leads router := by
  have howner := ShardRouter.owner_eq_of_length fxhash h.length_eq
  cases call with
  | createCollection fates name dim =>
    refine ⟨?_, h.wellFormed.createCollection name dim.toNat _, h.sliced.createCollection hserved name dim⟩
    simpa [step, ShardRouter.createCollection, ShardRouter.mapShards] using h.length_eq
  | insert fates collection records =>
    obtain ⟨hled, ⟨n, hok⟩, m, haccepted⟩ := hserved
    obtain ⟨coll, hcoll, hadmits⟩ := admits_of_insert_ok haccepted
    refine ⟨?_, h.wellFormed.execute (.upsert collection records), ?_⟩
    · simpa [step, ShardRouter.insert, ShardRouter.writeGroups, ShardRouter.callGroups,
        ShardRouter.mapShards] using h.length_eq
    · refine h.sliced.writeGroups hled (fun group => .upsert collection group) InsertResponse.mk
        (fun _ _ => rfl) (.upsert collection records) ?_ ?_ hok
      · intro s
        rw [ShardRouter.share, howner]
        exact ShareOf.upsert hcoll hadmits s
      · intro dim
        simp [ShardCommand.effect, upsertWrites]
  | delete fates collection ids =>
    obtain ⟨hled, n, hok⟩ := hserved
    refine ⟨?_, h.wellFormed.execute (.delete collection ids), ?_⟩
    · simpa [step, ShardRouter.delete, ShardRouter.writeGroups, ShardRouter.callGroups,
        ShardRouter.mapShards] using h.length_eq
    · refine h.sliced.writeGroups hled (fun group => .delete collection group) DeleteResponse.mk
        (fun _ _ => rfl) (.delete collection ids) ?_ ?_ hok
      · intro s
        rw [ShardRouter.share, howner]
        exact ShareOf.delete (router.owner fxhash) mirrored.single collection ids s
      · intro dim
        rfl

/-- Every history of served calls keeps the cluster the single store in slices. -/
theorem refines_run {fxhash : UInt64 → UInt64} {leads : ℕ → ℕ → Prop} {router : ShardRouter F}
    (hfresh : router.Fresh) {calls : List (RouterCall F)}
    (hserved : Run.Guarded (Served fxhash leads) (step fxhash) ⟨router, .new⟩ calls) :
    (Run.run (step fxhash) ⟨router, .new⟩ calls).Refines fxhash leads router :=
  Run.invariant_of_guarded refines_step
    ⟨rfl, Store.wellFormed_new, hfresh.sliced (router.owner fxhash) leads⟩ hserved

variable [LinearOrder F]

/-- A search of the cluster ranks the single store's records of the shards that answered. -/
theorem Refines.search_eq {fxhash : UInt64 → UInt64} {leads : ℕ → ℕ → Prop} {router : ShardRouter F}
    {mirrored : Mirrored F} (h : mirrored.Refines fxhash leads router) {req : SearchRequest F}
    {coll : Collection F} (hcoll : mirrored.single.collections[req.collection]? = some coll)
    (hquery : req.queryVector.length = coll.dim) {fates : ℕ → ℕ → ℕ → AttemptFate (ReadFate F)}
    (hread : ∀ s, ReadBy (leads s) (fates s)) (inTime : ℕ → Bool) :
    mirrored.router.search fates inTime req.collection req.queryVector req.k =
      (sliceHits mirrored.single coll req fun id =>
          router.owner fxhash id ∉ mirrored.router.failedShards fates inTime req,
        router.shardCount, UInt32.ofNat (mirrored.router.failedShards fates inTime req).card) := by
  have hanswers : ∀ s ∈ List.range mirrored.router.shards.length, ∀ response,
      mirrored.router.answer fates inTime req s = some response →
        response.results = sliceHits mirrored.single coll req fun id => router.owner fxhash id = s := by
    intro s _ response hanswer
    obtain ⟨shard, hshard, hcalled⟩ := Option.bind_eq_some_iff.mp hanswer
    unfold ShardRouter.searchShard at hcalled
    split at hcalled
    · have hok : (shard.call (Shard.searchAttempt (fates s) req)).1 = .ok response := by
        cases hcall : (shard.call (Shard.searchAttempt (fates s) req)).1 with
        | error e => simp [hcall, Except.toOption] at hcalled
        | ok answered => simpa [hcall, Except.toOption] using hcalled
      exact (h.sliced s shard hshard).call_search h.wellFormed (hread s) hcoll hquery hok
    · cases hcalled
  have hnodup : ((List.range mirrored.router.shards.length).filter fun s =>
      (mirrored.router.answer fates inTime req s).isSome).Nodup :=
    List.nodup_range.filter _
  have hanswered : (fun id => decide (router.owner fxhash id ∈
      (List.range mirrored.router.shards.length).filter fun s =>
        (mirrored.router.answer fates inTime req s).isSome)) =
      fun id => decide (router.owner fxhash id ∉ mirrored.router.failedShards fates inTime req) := by
    funext id
    have howner : router.owner fxhash id < mirrored.router.shards.length := by
      rw [h.length_eq]
      exact router.owner_lt fxhash id
    rw [decide_eq_decide]
    simp [ShardRouter.failedShards, howner, Option.isSome_iff_ne_none]
  have hcount : mirrored.router.shardCount = router.shardCount := congrArg UInt32.ofNat h.length_eq
  rw [ShardRouter.search_eq, map_filterMap_eq hanswers,
    mergeScoredRecords_slices (h.wellFormed _ coll hcoll) req (router.owner fxhash) hnodup, hanswered, hcount]

/-- A shard that is asked in time and whose leader is reached does not fail. -/
theorem Refines.not_mem_failedShards {fxhash : UInt64 → UInt64} {leads : ℕ → ℕ → Prop} {router : ShardRouter F}
    {mirrored : Mirrored F} (h : mirrored.Refines fxhash leads router) {req : SearchRequest F}
    {coll : Collection F} (hcoll : mirrored.single.collections[req.collection]? = some coll)
    (hquery : req.queryVector.length = coll.dim) {fates : ℕ → ℕ → ℕ → AttemptFate (ReadFate F)}
    (hread : ∀ s, ReadBy (leads s) (fates s)) {inTime : ℕ → Bool} {s : ℕ} {shard : Shard F}
    (hshard : mirrored.router.shards[s]? = some shard) (htime : inTime s = true)
    (hreached : shard.LeaderReached (fates s)) : s ∉ mirrored.router.failedShards fates inTime req := by
  obtain ⟨response, hok⟩ := (h.sliced s shard hshard).call_search_ok (hread s) hcoll hquery hreached
  simp [ShardRouter.failedShards, ShardRouter.answer, hshard, ShardRouter.searchShard, htime, hok,
    Except.toOption]

/-- Every hit of a slice is a stored record with its own score and its own metadata. -/
theorem exists_record_of_mem_sliceHits {single : Store F} {req : SearchRequest F} {coll : Collection F}
    (hwell : coll.WellFormed) (hcoll : single.collections[req.collection]? = some coll)
    {p : UInt64 → Bool} {hit : ScoredRecord F} (h : hit ∈ sliceHits single coll req p) :
    ∃ record, coll.vectors[hit.id]? = some (StoredVector.ofRecord record) ∧
      hit = ⟨record.id, cosineSimilarity record.embedding req.queryVector, record.metadata⟩ := by
  obtain ⟨scored, hscored, rfl⟩ := List.mem_map.mp h
  obtain ⟨record, hrecord, rfl⟩ := exists_of_mem_scoredIds (mem_of_mem_greatest hscored)
  obtain ⟨entry, hentry, rfl⟩ := List.mem_map.mp (List.mem_of_mem_filter hrecord)
  have hstored := ExtTreeMap.mem_toList_iff_getElem?_eq_some.mp hentry
  have hkey := hwell.keyed entry.1 entry.2 hstored
  have hnorm := hwell.normed entry.1 entry.2 hstored
  have hversion : coll.vectors[entry.2.record.id]? = some (StoredVector.ofRecord entry.2.record) := by
    rw [hkey, hstored, ← hnorm]
  refine ⟨entry.2.record, hversion, ?_⟩
  have hmetadata : single.getMetadata req.collection entry.2.record.id = some entry.2.record.metadata := by
    simp [Store.getMetadata, hcoll, hversion, StoredVector.ofRecord]
  have hnormSq : entry.2.normSq = normSq entry.2.record.embedding := congrArg StoredVector.normSq hnorm
  simp only [Store.attachMetadata, scoreRecord, hmetadata, Option.getD_some, hnormSq, cosineSimilarity]

/-- Ranking everything is searching the single store. -/
theorem search_eq_map_sliceHits {single : Store F} {req : SearchRequest F} {coll : Collection F}
    (hcoll : single.collections[req.collection]? = some coll) (hquery : req.queryVector.length = coll.dim)
    (schedule : ScanSchedule (VectorRecord F × F)) {p : UInt64 → Bool} (hall : ∀ id, p id = true) :
    single.search schedule req.collection req.queryVector req.k.toNat =
      .ok ((sliceHits single coll req p).map ScoredRecord.scoredId) := by
  have hscanned : coll.scannedWhere p = coll.scanned := List.filter_eq_self.mpr fun record _ => hall record.1.id
  rw [Store.search_eq_greatest schedule req.k.toNat hcoll hquery, sliceHits, hscanned, List.map_map]
  exact congrArg Except.ok (List.map_id _).symm

/-- After any served history, a search of the cluster is a search of the single store without the failed shards.

The hits are the first `k` of the single store's records owned by shards that answered,
each with its own score and metadata, and the counts are those of all shards and of the
failed ones. A shard fails for want of a timely leader only. Without failures the ids and
scores are those of `Store.search`. -/
theorem cluster_refines_single_store {fxhash : UInt64 → UInt64} {leads : ℕ → ℕ → Prop}
    {router : ShardRouter F} (hfresh : router.Fresh) {calls : List (RouterCall F)}
    (hserved : Run.Guarded (Served fxhash leads) (step fxhash) ⟨router, .new⟩ calls)
    {cluster : Mirrored F} (hcluster : cluster = Run.run (step fxhash) ⟨router, .new⟩ calls)
    {req : SearchRequest F} {coll : Collection F}
    (hcoll : cluster.single.collections[req.collection]? = some coll)
    (hquery : req.queryVector.length = coll.dim) {fates : ℕ → ℕ → ℕ → AttemptFate (ReadFate F)}
    (hread : ∀ s, ReadBy (leads s) (fates s)) (inTime : ℕ → Bool) {failed : Finset ℕ}
    (hfailed : failed = cluster.router.failedShards fates inTime req) :
    let hits := sliceHits cluster.single coll req fun id => router.owner fxhash id ∉ failed
    cluster.router.search fates inTime req.collection req.queryVector req.k =
        (hits, UInt32.ofNat router.shards.length, UInt32.ofNat failed.card) ∧
      router.shards.length < 2 ^ 32 ∧ failed.card ≤ router.shards.length ∧
      (∀ hit ∈ hits, ∃ record, coll.vectors[hit.id]? = some (StoredVector.ofRecord record) ∧
        hit = ⟨record.id, cosineSimilarity record.embedding req.queryVector, record.metadata⟩) ∧
      (∀ s shard, cluster.router.shards[s]? = some shard → inTime s = true →
        shard.LeaderReached (fates s) → s ∉ failed) ∧
      (failed = ∅ → ∀ schedule,
        cluster.single.search schedule req.collection req.queryVector req.k.toNat =
          .ok (hits.map ScoredRecord.scoredId)) := by
  have hrefines : cluster.Refines fxhash leads router := by
    rw [hcluster]
    exact refines_run hfresh hserved
  subst hfailed
  refine ⟨hrefines.search_eq hcoll hquery hread inTime, router.shards_lt, ?_, ?_, ?_, ?_⟩
  · rw [← hrefines.length_eq]
    exact (Finset.card_filter_le _ _).trans_eq (Finset.card_range _)
  · exact fun hit hhit => exists_record_of_mem_sliceHits (hrefines.wellFormed _ coll hcoll) hcoll hhit
  · exact fun s shard hshard htime hreached =>
      hrefines.not_mem_failedShards hcoll hquery hread hshard htime hreached
  · intro hnone schedule
    refine search_eq_map_sliceHits hcoll hquery schedule ?_
    intro id
    rw [hnone]
    rfl

/-- The law for two shards, a batch that repeats an id, a deletion, and one shard that fails. -/
theorem cluster_refines_single_store_docs :
    let shard : Shard ℤ := ⟨⟨["http://a"], by decide, 0⟩, ShardGroup.fresh ℤ fun _ => 1⟩
    let router : ShardRouter ℤ := ⟨[shard, shard], by decide, by decide⟩
    let write : ℕ → ℕ → ℕ → AttemptFate (RaftFate ℤ) :=
      fun _ _ _ => .reached (.committed [] ⟨⟨1, 1⟩, 0⟩) false
    let read : ℕ → ℕ → ℕ → AttemptFate (ReadFate ℤ) := fun _ _ _ =>
      .reached ⟨[], ⟨⟨some 1, .default⟩, .ok (), .ok (), .sequential _⟩, by simp [StoredMembership.default]⟩ false
    let calls : List (RouterCall ℤ) :=
      [.createCollection (fun _ _ => .delivered) "docs" 1,
        .insert write "docs" [⟨1, [3], ∅⟩, ⟨3, [5], ∅⟩, ⟨4, [7], ∅⟩, ⟨1, [-4], ∅⟩],
        .delete write "docs" [4]]
    let cluster := Run.run (step fxHasher) ⟨router, .new⟩ calls
    let answer := cluster.router.search read (fun s => s == 0) "docs" [1] 2
    answer.1.map ScoredRecord.id = [3] ∧ answer.2 = (2, 1) := by
  intro shard router write read calls cluster answer
  have hfresh : router.Fresh := .of_alike shard (by simp [router]) rfl
  have hled : ∀ s, LedBy (fun _ => True) (write s) := fun s => .of_alone (fun _ => trivial) _ _
  have hserved : Run.Guarded (Served fxHasher fun _ _ => True) (step fxHasher) ⟨router, .new⟩ calls :=
    ⟨fun _ _ _ => rfl, ⟨hled, ⟨4, by decide⟩, 4, by decide⟩, ⟨hled, 1, by decide⟩, trivial⟩
  have hcoll : cluster.single.collections[(⟨"docs", [1], 2⟩ : SearchRequest ℤ).collection]? =
      some ((cluster.single.collections["docs"]?).getD ⟨0, 0, ∅⟩) := by
    decide
  have hread : ∀ s, ReadBy (fun _ => True) (read s) := by
    intro s n idx fate replyLost hfate
    cases hfate
    exact ⟨rfl, fun _ => trivial⟩
  have hlaw := cluster_refines_single_store hfresh hserved rfl hcoll (by decide) hread (fun s => s == 0) rfl
  have hanswer : answer = _ := hlaw.1
  rw [hanswer]
  exact ⟨by decide +kernel, by decide +kernel⟩

end Mirrored

end RaftVec
