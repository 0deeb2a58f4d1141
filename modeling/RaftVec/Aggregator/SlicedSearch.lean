import RaftVec.Aggregator.Slices
import RaftVec.Library.FiniteMap
import RaftVec.Node.Snapshot

/-!
# Searching the slices of a single store

A shard that answers a search ranks its slice of the collection. The merge of the shards'
lists then ranks the union of the slices that answered, and every hit carries the
metadata of its record, because an id belongs to one slice only.
-/

namespace RaftVec

open Std WriteHistory Selection FiniteMap

variable {F : Type*} [FloatOps F]

/-- The records of a collection whose ids satisfy a condition. -/
def Collection.scannedWhere {F : Type*} (coll : Collection F) (p : UInt64 → Bool) :
    List (VectorRecord F × F) :=
  coll.scanned.filter fun record => p record.1.id

/-- A replica that has replayed the whole log holds the shard's slice. -/
theorem Replays.slice {owner : UInt64 → ℕ} {single : Store F} {s : ℕ} {log : List (Entry F)}
    {replica : GroupReplica F} (h : Replays single log replica) (happlied : replica.applied = log.length)
    (hsliced : SlicedLog owner single s log) {name : String} {coll : Collection F}
    (hcoll : single.collections[name]? = some coll) :
    ∃ part, replica.machine.store.collections[name]? = some part ∧ part.dim = coll.dim ∧
      ∀ id : UInt64, part.vectors[id]? = if owner id = s then coll.vectors[id]? else none := by
  refine ⟨replayOf coll (logCommands log) name, ?_, rfl, ?_⟩
  · rw [h.collections, hcoll, happlied, List.take_length]
    rfl
  · intro id
    rw [replayOf, Collection.write, getElem?_applyWrites, ← hsliced.held name coll hcoll id,
      ExtTreeMap.getElem?_empty]

/-- The records of a slice are the collection's records with the slice's ids. -/
theorem Collection.scanned_perm_of_slice {coll part : Collection F} (hwell : coll.WellFormed)
    (p : UInt64 → Bool) (h : ∀ id : UInt64, part.vectors[id]? = if p id then coll.vectors[id]? else none) :
    part.scanned.Perm (coll.scannedWhere p) := by
  have hfilter : coll.scannedWhere p =
      (coll.vectors.toList.filter fun entry => p entry.1).map fun entry => (entry.2.record, entry.2.normSq) := by
    rw [Collection.scannedWhere, Collection.scanned, List.filter_map]
    congr 1
    apply List.filter_congr
    intro entry hentry
    have hid := hwell.keyed entry.1 entry.2 (ExtTreeMap.mem_toList_iff_getElem?_eq_some.mp hentry)
    simp only [Function.comp_apply, hid]
  rw [hfilter]
  exact (toList_perm_filter p h).map _

/-- The hits of one slice, with the metadata the single store has for them. -/
def sliceHits [LinearOrder F] (single : Store F) (coll : Collection F) (req : SearchRequest F)
    (p : UInt64 → Bool) : List (ScoredRecord F) :=
  (greatest req.k.toNat (scoredIds req.queryVector (coll.scannedWhere p))).map
    (single.attachMetadata req.collection)

/-- Every id ranked within a slice belongs to the slice. -/
theorem mem_slice_of_mem_greatest [LinearOrder F] {coll : Collection F} {query : List F} {k : ℕ}
    {p : UInt64 → Bool} {hit : ScoredId F}
    (h : hit ∈ greatest k (scoredIds query (coll.scannedWhere p))) : p hit.id = true := by
  obtain ⟨record, hrecord, rfl⟩ := exists_of_mem_scoredIds (mem_of_mem_greatest h)
  exact (List.mem_filter.mp hrecord).2

/-- A store that holds a slice answers with the hits of that slice. -/
theorem searchStore_slice [LinearOrder F] {single store : Store F} {coll part : Collection F}
    (hwell : coll.WellFormed) {req : SearchRequest F} (hcoll : single.collections[req.collection]? = some coll)
    (hquery : req.queryVector.length = coll.dim) (hpart : store.collections[req.collection]? = some part)
    (hdim : part.dim = coll.dim) (p : UInt64 → Bool)
    (hvectors : ∀ id : UInt64, part.vectors[id]? = if p id then coll.vectors[id]? else none)
    {conditions : NodeService.ReadConditions F} {response : SearchResponse F}
    (hok : NodeService.searchStore conditions store req = .ok response) :
    response.results = sliceHits single coll req p := by
  have hsearch := Store.search_eq_greatest conditions.schedule req.k.toNat hpart (hquery.trans hdim.symm)
  have hscored : scoredIds req.queryVector part.scanned = scoredIds req.queryVector (coll.scannedWhere p) :=
    Multiset.coe_eq_coe.mpr ((Collection.scanned_perm_of_slice hwell p hvectors).map _)
  unfold NodeService.searchStore at hok
  split at hok
  · cases hok
  · rw [hsearch] at hok
    cases hok
    rw [hscored, sliceHits]
    apply List.map_congr_left
    intro hit hhit
    have hid := mem_slice_of_mem_greatest hhit
    simp only [Store.attachMetadata, Store.getMetadata, hpart, hcoll, Option.bind_some, hvectors, hid, if_true]

/-- A read answered without a hint passed the quorum check and was served from the store.

A redirect carries the configured address of another replica, which is not empty. -/
theorem NodeService.search_of_ok [LinearOrder F] {fate : ReadFate F} {nodeId : NodeId} {store : Store F}
    {req : SearchRequest F} {response : SearchResponse F}
    (hok : NodeService.search nodeId fate.conditions store req = .ok response)
    (hhint : response.leaderHint = "") :
    fate.conditions.ensureLinearizable = .ok () ∧
      NodeService.searchStore fate.conditions store req = .ok response := by
  unfold NodeService.search at hok
  cases hleader : NodeService.leadership nodeId fate.conditions.metrics with
  | iAmLeader =>
    rw [hleader] at hok
    cases hquorum : fate.conditions.ensureLinearizable with
    | error e => simp [hquorum] at hok
    | ok _ => exact ⟨rfl, by simpa [hquorum] using hok⟩
  | unknown => simp [hleader] at hok
  | redirect addr =>
    rw [hleader] at hok
    cases hok
    change addr = "" at hhint
    unfold NodeService.leadership at hleader
    split at hleader
    · split at hleader
      · cases hleader
      · split at hleader
        · next node hnode =>
          cases hleader
          obtain ⟨raw, hraw⟩ := fate.normalized _ node hnode
          exact absurd (hraw.symm.trans hhint) (normalize_ne_empty raw)
        · cases hleader
    · cases hleader

/-- A search answered without a hint was served from the store of the leader, caught up. -/
theorem ShardGroup.search_of_ok [LinearOrder F] {fate : ReadFate F} {idx : ℕ} {req : SearchRequest F}
    {group : ShardGroup F} {response : SearchResponse F} (hok : (group.search fate idx req).1 = .ok response)
    (hhint : response.leaderHint = "") :
    fate.conditions.ensureLinearizable = .ok () ∧
      NodeService.searchStore fate.conditions
        ((group.replicas idx).catchUp (group.log ++ fate.others)).machine.store req = .ok response := by
  unfold ShardGroup.search at hok
  split at hok
  · exact NodeService.search_of_ok hok hhint
  · next e hquorum =>
    have hconfirmed := (NodeService.search_of_ok hok hhint).1
    rw [hquorum] at hconfirmed
    cases hconfirmed

/-- Only replicas that may lead pass the quorum check, and others commit no command meanwhile. -/
def ReadBy (leads : ℕ → Prop) (fates : ℕ → ℕ → AttemptFate (ReadFate F)) : Prop :=
  ∀ n idx read replyLost, fates n idx = .reached read replyLost →
    logCommands read.others = [] ∧ (read.conditions.ensureLinearizable = .ok () → leads idx)

/-- A shard that answers a search returns the hits of its slice. -/
theorem SlicedGroup.call_search [LinearOrder F] {owner : UInt64 → ℕ} {leads : ℕ → Prop} {single : Store F}
    (hwell : single.WellFormed) {s : ℕ} {shard : Shard F} (h : SlicedGroup owner leads single s shard.group)
    {fates : ℕ → ℕ → AttemptFate (ReadFate F)} (hread : ReadBy leads fates) {req : SearchRequest F}
    {coll : Collection F} (hcoll : single.collections[req.collection]? = some coll)
    (hquery : req.queryVector.length = coll.dim) {response : SearchResponse F}
    (hok : (shard.call (Shard.searchAttempt fates req)).1 = .ok response) :
    response.results = sliceHits single coll req fun id => owner id = s := by
  have hkeep : ∀ n idx group, SlicedGroup owner leads single s group →
      SlicedGroup owner leads single s (Shard.searchAttempt fates req n idx group).2 := by
    intro n idx group hgroup
    unfold Shard.searchAttempt
    cases runAttempt_state (fates n idx) (fun fate => ShardGroup.search fate idx req) group with
    | inl hsame =>
      rw [hsame]
      exact hgroup
    | inr hreached =>
      obtain ⟨fate, replyLost, hfate, hstate⟩ := hreached
      rw [hstate]
      exact hgroup.search (hread n idx fate replyLost hfate).1 idx req
  obtain ⟨serving, hserving, hserved, _⟩ := retryLoop_of_ok (Prod.ext hok rfl)
  have hgroup := servingState_invariant hkeep h hserving
  obtain ⟨fate, hfate, hanswer, hhint, _⟩ := runAttempt_served hserved
  obtain ⟨hothers, hleads⟩ := hread _ _ _ _ hfate
  obtain ⟨hquorum, hstore⟩ := ShardGroup.search_of_ok hanswer hhint
  have hreplays := ((hgroup.replays _ (hleads hquorum)).extend fate.others).catchUp
  obtain ⟨part, hpart, hdim, hvectors⟩ := hreplays.slice rfl (hgroup.log.others hothers) hcoll
  refine searchStore_slice (hwell _ coll hcoll) hcoll hquery hpart hdim (fun id => owner id = s) ?_ hstore
  intro id
  rw [hvectors id]
  simp only [decide_eq_true_eq]

/-- The first attempt reaches a replica that leads, is confirmed and finishes its scan. -/
def Shard.LeaderReached (shard : Shard F) (fates : ℕ → ℕ → AttemptFate (ReadFate F)) : Prop :=
  let idx := shard.replicaSet.leaderHint % shard.replicaSet.replicaCount
  ∃ read, fates 0 idx = .reached read false ∧
    NodeService.leadership (shard.group.replicas idx).nodeId read.conditions.metrics = .iAmLeader ∧
    read.conditions.ensureLinearizable = .ok () ∧ read.conditions.joined = .ok ()

/-- A shard whose leader is reached answers. -/
theorem SlicedGroup.call_search_ok [LinearOrder F] {owner : UInt64 → ℕ} {leads : ℕ → Prop} {single : Store F}
    {s : ℕ} {shard : Shard F} (h : SlicedGroup owner leads single s shard.group)
    {fates : ℕ → ℕ → AttemptFate (ReadFate F)} (hread : ReadBy leads fates) {req : SearchRequest F}
    {coll : Collection F} (hcoll : single.collections[req.collection]? = some coll)
    (hquery : req.queryVector.length = coll.dim) (hreached : shard.LeaderReached fates) :
    ∃ response, (shard.call (Shard.searchAttempt fates req)).1 = .ok response := by
  obtain ⟨read, hfate, hleader, hquorum, hjoined⟩ := hreached
  obtain ⟨hothers, hleads⟩ := hread _ _ _ _ hfate
  have hreplays := ((h.replays _ (hleads hquorum)).extend read.others).catchUp
  obtain ⟨part, hpart, hdim, _⟩ := hreplays.slice rfl (h.log.others hothers) hcoll
  have hsearch := Store.search_eq_greatest read.conditions.schedule req.k.toNat hpart (hquery.trans hdim.symm)
  obtain ⟨response, hanswer, hhint⟩ : ∃ response, (shard.group.search read
      (shard.replicaSet.leaderHint % shard.replicaSet.replicaCount) req).1 = .ok response ∧
        CarriesLeaderHint.leaderHint response = "" := by
    simp only [ShardGroup.search, hquorum, GroupReplica.catchUp, NodeService.search, hleader,
      NodeService.searchStore, hjoined]
    simp only [GroupReplica.catchUp, ShardGroup.commit] at hsearch ⊢
    rw [hsearch]
    exact ⟨_, rfl, rfl⟩
  refine ⟨response, retryLoop_of_first ?_⟩
  simp only [Shard.searchAttempt, RetryState.first, runAttempt, hfate, hanswer, AttemptOutcome.ofResult,
    AttemptOutcome.served, hhint, Bool.false_eq_true, if_false, if_true]

end RaftVec
