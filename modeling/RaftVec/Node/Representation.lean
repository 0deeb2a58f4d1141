import RaftVec.Core.Sharding
import RaftVec.Node.Snapshot

/-!
# Stores that calls lead to

A store starts without collections and is changed by its own operations alone. Whatever
the calls, and whether their batches were accepted or not, the representation invariant
holds: this is what lets the scan reuse cached norms, lets the dot product run to the end
of both vectors, and keeps the assertions of the insertion loop silent.

`insert` asserts, record by record, that the owner it computes is in range. The assertion
is compiled into debug builds only, so it has a definition of its own beside `insert`.
-/

namespace RaftVec

open Std Selection

variable {F : Type*} [FloatOps F]

/-- The assertions one record meets in the insertion loop: the shard count is positive, as
`shard_id` demands, and the owning shard is in range. -/
def Collection.assertsOwner {F : Type*} (fxhash : UInt64 → UInt64) (coll : Collection F) (id : UInt64) :
    Bool :=
  if positive : 0 < coll.shardCount then
    decide (shardId fxhash id coll.shardCount positive < coll.shardCount)
  else false

/-- Store a batch in a debug build: nothing comes back if an assertion fires. -/
def Store.insertAsserting (fxhash : UInt64 → UInt64) (self : Store F) (collection : String)
    (records : List (VectorRecord F)) : Option (Except StoreError ℕ × Store F) :=
  match self.collections[collection]? with
  | none => some (.error (.collectionNotFound collection), self)
  | some coll =>
    match records.find? (fun r => r.embedding.length ≠ coll.dim) with
    | some r => some (.error (.dimensionMismatch coll.dim r.embedding.length), self)
    | none =>
      (records.foldlM (fun vectors record =>
        if coll.assertsOwner fxhash record.id then
          some (vectors.insert record.id (StoredVector.ofRecord record))
        else none) coll.vectors).map fun vectors =>
          (.ok records.length, ⟨self.collections.insert collection { coll with vectors := vectors }⟩)

namespace Store

/-- The stores that calls lead to from the empty one. -/
inductive Reachable : Store F → Prop
  | new : Reachable .new
  | createCollection {store : Store F} (h : Reachable store) (name : String) (dim : ℕ)
      (shardCount : UInt32) : Reachable (store.createCollection name dim shardCount).2
  | insert {store : Store F} (h : Reachable store) (collection : String)
      (records : List (VectorRecord F)) : Reachable (store.insert collection records).2
  | delete {store : Store F} (h : Reachable store) (collection : String) (ids : List UInt64) :
      Reachable (store.delete collection ids).2
  | restore {store source : Store F} (h : Reachable store) (hsource : Reachable source) :
      Reachable (store.restore source.snapshot)

/-- Every store that calls lead to is well formed. -/
theorem Reachable.wellFormed {store : Store F} (h : Reachable store) : store.WellFormed := by
  induction h with
  | new => exact wellFormed_new
  | createCollection _ name dim shardCount ih => exact ih.createCollection name dim shardCount
  | insert _ collection records ih => exact ih.execute (.upsert collection records)
  | delete _ collection ids ih => exact ih.execute (.delete collection ids)
  | restore _ _ _ ihSource =>
    rw [restore_snapshot ihSource]
    exact ihSource

end Store

/-! ## The assertions of the insertion loop -/

omit [FloatOps F] in
/-- With a positive shard count no id makes an assertion fire. -/
theorem Collection.assertsOwner_of_pos (fxhash : UInt64 → UInt64) {coll : Collection F}
    (positive : 0 < coll.shardCount) (id : UInt64) : coll.assertsOwner fxhash id = true := by
  rw [assertsOwner, dif_pos positive, decide_eq_true_eq]
  exact shardId_lt fxhash id coll.shardCount positive

/-- A loop whose assertions hold runs to its end. -/
theorem foldlM_asserting (fxhash : UInt64 → UInt64) {coll : Collection F} (positive : 0 < coll.shardCount)
    (records : List (VectorRecord F)) (vectors : ExtTreeMap UInt64 (StoredVector F)) :
    records.foldlM (fun vectors record =>
        if coll.assertsOwner fxhash record.id then
          some (vectors.insert record.id (StoredVector.ofRecord record))
        else none) vectors =
      some (records.foldl
        (fun vectors record => vectors.insert record.id (StoredVector.ofRecord record)) vectors) := by
  induction records generalizing vectors with
  | nil => rfl
  | cons record records ih =>
    rw [List.foldlM_cons, List.foldl_cons, Collection.assertsOwner_of_pos fxhash positive, if_pos rfl]
    exact ih _

/-- In a well-formed store a debug build inserts as a release build does. -/
theorem Store.WellFormed.insertAsserting {store : Store F} (h : store.WellFormed)
    (fxhash : UInt64 → UInt64) (collection : String) (records : List (VectorRecord F)) :
    store.insertAsserting fxhash collection records = some (store.insert collection records) := by
  cases hcoll : store.collections[collection]? with
  | none => simp only [Store.insertAsserting, Store.insert, hcoll]
  | some coll =>
    cases hfind : records.find? (fun r => r.embedding.length ≠ coll.dim) with
    | some r => simp only [Store.insertAsserting, Store.insert, hcoll, hfind]
    | none =>
      have hloop := foldlM_asserting fxhash (h collection coll hcoll).shardCount_pos records coll.vectors
      simp only [Store.insertAsserting, Store.insert, hcoll, hfind, hloop, Option.map_some]

/-! ## The scores a search reports -/

/-- A record of the scan is held under its own id, with the norm the scan uses for it. -/
theorem Collection.WellFormed.version_of_scanned {coll : Collection F} (h : coll.WellFormed)
    {record : VectorRecord F × F} (hrecord : record ∈ coll.scanned) :
    ∃ stored, coll.vectors[record.1.id]? = some stored ∧ stored.record = record.1 ∧
      record.2 = normSq record.1.embedding := by
  obtain ⟨entry, hentry, rfl⟩ := List.mem_map.mp hrecord
  have hstored := ExtTreeMap.mem_toList_iff_getElem?_eq_some.mp hentry
  refine ⟨entry.2, ?_, rfl, ?_⟩
  · rw [h.keyed entry.1 entry.2 hstored]
    exact hstored
  · exact congrArg StoredVector.normSq (h.normed entry.1 entry.2 hstored)

/-- A search that answers found the collection and a query of its dimension. -/
theorem Store.search_ok [LinearOrder F] {store : Store F} {schedule : ScanSchedule (VectorRecord F × F)}
    {collection : String} {query : List F} {k : ℕ} {hits : List (ScoredId F)}
    (h : store.search schedule collection query k = .ok hits) :
    ∃ coll, store.collections[collection]? = some coll ∧ query.length = coll.dim ∧
      hits = greatest k (scoredIds query coll.scanned) := by
  cases hcoll : store.collections[collection]? with
  | none => simp [Store.search, hcoll] at h
  | some coll =>
    by_cases hquery : query.length = coll.dim
    · rw [Store.search_eq_greatest schedule k hcoll hquery, Except.ok.injEq] at h
      exact ⟨coll, rfl, hquery, h.symm⟩
    · simp [Store.search, hcoll, hquery] at h

/-- Every store that calls lead to keeps the representation invariant, so a search scores
each hit as if from scratch, over whole vectors, and no insertion makes an assertion fire. -/
theorem Store.Reachable.representation [LinearOrder F] {store : Store F} (h : Reachable store)
    (fxhash : UInt64 → UInt64) :
    store.WellFormed ∧
      (∀ (schedule : ScanSchedule (VectorRecord F × F)) (collection : String) (query : List F) (k : ℕ)
        (hits : List (ScoredId F)), store.search schedule collection query k = .ok hits →
          (∀ (id : UInt64) stored, store.version collection id = some stored →
            stored.record.embedding.length = query.length) ∧
          ∀ hit ∈ hits, ∃ stored, store.version collection hit.id = some stored ∧
            hit.score = cosineSimilarity stored.record.embedding query) ∧
      ∀ (collection : String) (records : List (VectorRecord F)),
        store.insertAsserting fxhash collection records = some (store.insert collection records) := by
  have hwell := h.wellFormed
  refine ⟨hwell, ?_, hwell.insertAsserting fxhash⟩
  intro schedule collection query k hits hsearch
  obtain ⟨coll, hcoll, hquery, rfl⟩ := Store.search_ok hsearch
  have hversion : ∀ id : UInt64, store.version collection id = coll.vectors[id]? := by
    intro id
    rw [Store.version, hcoll, Option.bind_some]
  refine ⟨?_, ?_⟩
  · intro id stored hstored
    rw [hversion] at hstored
    rw [(hwell collection coll hcoll).sized id stored hstored, hquery]
  · intro hit hhit
    obtain ⟨record, hrecord, rfl⟩ := exists_of_mem_scoredIds (mem_of_mem_greatest hhit)
    obtain ⟨stored, hstored, hsame, hnorm⟩ := (hwell collection coll hcoll).version_of_scanned hrecord
    refine ⟨stored, (hversion _).trans hstored, ?_⟩
    rw [hsame, scoreRecord, hnorm]
    rfl

/-- A collection filled in one store, shipped to another that had one of its own. -/
theorem Store.representation_after_restore :
    let source := ((Store.new.createCollection "docs" 1 0).2.insert "docs" [⟨7, [3], ∅⟩]).2
    let target := (Store.new.createCollection "old" 2 1).2.restore (source : Store ℤ).snapshot
    target.WellFormed ∧
      target.insertAsserting id "docs" [⟨8, [4], ∅⟩] = some (target.insert "docs" [⟨8, [4], ∅⟩]) := by
  intro source target
  have hsource : Reachable source := (Reachable.new.createCollection "docs" 1 0).insert "docs" _
  have htarget : Reachable target := .restore (Reachable.new.createCollection "old" 2 1) hsource
  have hall := htarget.representation id
  exact ⟨hall.1, hall.2.2 "docs" _⟩

end RaftVec
