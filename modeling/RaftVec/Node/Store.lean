import RaftVec.Core.Search
import RaftVec.Library.WriteHistory

/-!
# The in-memory store of one replica

A store maps collection names to collections, and a collection maps ids to records with
their cached norms. Hash maps are extensional finite maps here: their iteration order
enters only where the source iterates, through a `ScanSchedule`.

Every operation takes the store and returns it beside its result, so that what a
rejected call leaves behind is a statement about the operation and not a convention.
The batches that a collection accepts act on it as a history of writes.
-/

namespace RaftVec

open Std WriteHistory

/-- Why a store rejects a call. -/
inductive StoreError where
  | collectionExists (name : String)
  | collectionNotFound (name : String)
  | dimensionMismatch (expected actual : ℕ)
deriving DecidableEq

/-- A record with its squared norm, cached at insert. -/
structure StoredVector (F : Type*) where
  record : VectorRecord F
  normSq : F
deriving DecidableEq

/-- One collection's fixed shape and its records by id. -/
structure Collection (F : Type*) where
  dim : ℕ
  shardCount : UInt32
  vectors : ExtTreeMap UInt64 (StoredVector F)
deriving DecidableEq

/-- All collections of one replica, by name. -/
structure Store (F : Type*) where
  collections : ExtTreeMap String (Collection F)
deriving DecidableEq

variable {F : Type*}

namespace Store

/-- Stores with the same collections are equal. -/
theorem ext_collections {s t : Store F}
    (h : ∀ name : String, s.collections[name]? = t.collections[name]?) : s = t := by
  cases s
  cases t
  congr 1
  exact ExtTreeMap.ext_getElem? h

/-- A store without collections. -/
def new : Store F := ⟨∅⟩

/-- Create an empty collection unless the name is taken; a zero shard count becomes one. -/
def createCollection (self : Store F) (name : String) (dim : ℕ) (shardCount : UInt32) :
    Except StoreError Unit × Store F :=
  if name ∈ self.collections then (.error (.collectionExists name), self)
  else (.ok (), ⟨self.collections.insert name ⟨dim, max shardCount 1, ∅⟩⟩)

/-- Remove ids, counting those that were present when their turn came. -/
def delete (self : Store F) (collection : String) (ids : List UInt64) :
    Except StoreError ℕ × Store F :=
  match self.collections[collection]? with
  | none => (.error (.collectionNotFound collection), self)
  | some coll =>
    let removed := ids.foldl
      (fun acc id => if id ∈ acc.1 then (acc.1.erase id, acc.2 + 1) else acc) (coll.vectors, 0)
    (.ok removed.2, ⟨self.collections.insert collection { coll with vectors := removed.1 }⟩)

/-- The metadata stored under an id. -/
def getMetadata (self : Store F) (collection : String) (id : UInt64) : Option Metadata :=
  self.collections[collection]?.bind fun coll => coll.vectors[id]?.map fun stored => stored.record.metadata

/-- The version of a record that a collection holds. -/
def version (self : Store F) (collection : String) (id : UInt64) : Option (StoredVector F) :=
  self.collections[collection]?.bind fun coll => coll.vectors[id]?

/-- The dimension and shard count a collection was created with. -/
def shape (self : Store F) (name : String) : Option (ℕ × UInt32) :=
  self.collections[name]?.map fun coll => (coll.dim, coll.shardCount)

/-- A lookup finds the metadata of the version held. -/
theorem getMetadata_eq_version (self : Store F) (collection : String) (id : UInt64) :
    self.getMetadata collection id = (self.version collection id).map fun stored => stored.record.metadata := by
  rw [getMetadata, version, Option.map_bind]
  rfl

end Store

namespace Collection

/-- The records of a collection with their cached norms, in key order. -/
def scanned (coll : Collection F) : List (VectorRecord F × F) :=
  coll.vectors.toList.map fun entry => (entry.2.record, entry.2.normSq)

/-- Perform a history of writes on the records, keeping the shape. -/
def write (coll : Collection F) (writes : List (UInt64 × Option (StoredVector F))) : Collection F :=
  { coll with vectors := applyWrites coll.vectors writes }

/-- The dimension check of a batch. -/
def Admits (coll : Collection F) (records : List (VectorRecord F)) : Prop :=
  ∀ record ∈ records, record.embedding.length = coll.dim

instance (coll : Collection F) (records : List (VectorRecord F)) : Decidable (coll.Admits records) :=
  inferInstanceAs (Decidable (∀ record ∈ records, record.embedding.length = coll.dim))

/-- Writing keeps the dimension. -/
@[simp] theorem write_dim (coll : Collection F) (writes : List (UInt64 × Option (StoredVector F))) :
    (coll.write writes).dim = coll.dim := rfl

/-- Writing nothing changes nothing. -/
@[simp] theorem write_nil (coll : Collection F) : coll.write [] = coll := rfl

/-- Consecutive histories of writes compose. -/
theorem write_append (coll : Collection F) (ws vs : List (UInt64 × Option (StoredVector F))) :
    coll.write (ws ++ vs) = (coll.write ws).write vs := by
  simp only [write, applyWrites_append]

end Collection

/-- The writes of a batch of deletions. -/
def deleteWrites (ids : List UInt64) : List (UInt64 × Option (StoredVector F)) :=
  ids.map fun id => (id, none)

/-- The last write of a batch of deletions to an id removes it, if the batch names it. -/
theorem lastWrite_deleteWrites (ids : List UInt64) (id : UInt64) :
    lastWrite (deleteWrites ids : List (UInt64 × Option (StoredVector F))) id =
      if id ∈ ids then some none else none := by
  induction ids with
  | nil => rfl
  | cons deleted ids ih =>
    change (lastWrite (deleteWrites ids) id).or (if deleted = id then some none else none) = _
    rw [ih]
    by_cases hid : id ∈ ids
    · simp [hid]
    · simp [hid, eq_comm]

/-- The deletion loop performs the batch's writes; absent ids are no-ops. -/
theorem foldl_delete_eq_applyWrites (ids : List UInt64)
    (vectors : ExtTreeMap UInt64 (StoredVector F)) (deleted : ℕ) :
    (ids.foldl (fun acc id => if id ∈ acc.1 then (acc.1.erase id, acc.2 + 1) else acc)
      (vectors, deleted)).1 = applyWrites vectors (deleteWrites ids) := by
  induction ids generalizing vectors deleted with
  | nil => rfl
  | cons id ids ih =>
    rw [List.foldl_cons]
    change _ = applyWrites (vectors.erase id) (deleteWrites ids)
    by_cases hmem : id ∈ vectors
    · rw [if_pos hmem, ih]
    · have herase : vectors.erase id = vectors := by
        apply ExtTreeMap.ext_getElem?
        intro key
        by_cases hkey : id = key
        · subst key
          rw [ExtTreeMap.getElem?_erase_self, ExtTreeMap.getElem?_eq_none hmem]
        · simp [ExtTreeMap.getElem?_erase, hkey]
      rw [if_neg hmem, ih, herase]

namespace Store

/-- A deletion in a known collection performs its writes. -/
theorem delete_of_present {self : Store F} {collection : String} {ids : List UInt64}
    {coll : Collection F} (hcoll : self.collections[collection]? = some coll) :
    (self.delete collection ids).2 =
      ⟨self.collections.insert collection (coll.write (deleteWrites ids))⟩ := by
  simp only [delete, hcoll, foldl_delete_eq_applyWrites]
  rfl

/-- A deletion in an unknown collection is rejected. -/
theorem delete_of_absent {self : Store F} {collection : String} {ids : List UInt64}
    (hcoll : self.collections[collection]? = none) :
    self.delete collection ids = (.error (.collectionNotFound collection), self) := by
  simp only [delete, hcoll]

/-- Creating a collection decides its own name, first come first served, and frames the rest. -/
theorem createCollection_collections (self : Store F) (name : String) (dim : ℕ) (shardCount : UInt32)
    (other : String) :
    (self.createCollection name dim shardCount).2.collections[other]? =
      if name = other then self.collections[other]?.or (some ⟨dim, max shardCount 1, ∅⟩)
      else self.collections[other]? := by
  by_cases hmem : name ∈ self.collections
  · rw [createCollection, if_pos hmem]
    by_cases hname : name = other
    · subst other
      rw [ExtTreeMap.getElem?_eq_some_getElem hmem]
      simp
    · simp [hname]
  · rw [createCollection, if_neg hmem]
    by_cases hname : name = other
    · subst other
      simp [ExtTreeMap.getElem?_eq_none hmem]
    · simp [ExtTreeMap.getElem?_insert, hname]

/-- A creation leaves the collections there are alone. -/
theorem createCollection_of_present {self : Store F} {other : String} {coll : Collection F}
    (h : self.collections[other]? = some coll) (name : String) (dim : ℕ) (shardCount : UInt32) :
    (self.createCollection name dim shardCount).2.collections[other]? = some coll := by
  rw [createCollection_collections, h, Option.some_or, ite_self]

/-- A creation gives a new name its shape and keeps every shape there is. -/
theorem createCollection_shape (self : Store F) (name : String) (dim : ℕ) (shardCount : UInt32)
    (other : String) :
    (self.createCollection name dim shardCount).2.shape other =
      if name = other then (self.shape other).or (some (dim, max shardCount 1)) else self.shape other := by
  rw [shape, createCollection_collections, shape]
  split
  · rw [Option.map_or]
    rfl
  · rfl

/-- A creation is accepted exactly when the name is not taken. -/
theorem createCollection_ok_iff (self : Store F) (name : String) (dim : ℕ) (shardCount : UInt32) :
    (self.createCollection name dim shardCount).1 = .ok () ↔ self.shape name = none := by
  rw [shape, Option.map_eq_none_iff, createCollection]
  by_cases hmem : name ∈ self.collections
  · rw [if_pos hmem, ExtTreeMap.getElem?_eq_some_getElem hmem]
    simp
  · rw [if_neg hmem, ExtTreeMap.getElem?_eq_none hmem]
    simp

end Store

variable [FloatOps F]

/-- Cache the norm of a record about to be stored. -/
def StoredVector.ofRecord (record : VectorRecord F) : StoredVector F :=
  ⟨record, RaftVec.normSq record.embedding⟩

/-- Store a batch, later records overwriting earlier ones with the same id.

All dimensions are checked before the map is touched. -/
def Store.insert (self : Store F) (collection : String) (records : List (VectorRecord F)) :
    Except StoreError ℕ × Store F :=
  match self.collections[collection]? with
  | none => (.error (.collectionNotFound collection), self)
  | some coll =>
    match records.find? (fun r => r.embedding.length ≠ coll.dim) with
    | some r => (.error (.dimensionMismatch coll.dim r.embedding.length), self)
    | none =>
      let vectors := records.foldl
        (fun vectors record => vectors.insert record.id (StoredVector.ofRecord record)) coll.vectors
      (.ok records.length, ⟨self.collections.insert collection { coll with vectors := vectors }⟩)

/-- Rank a collection's records for a query of its dimension. -/
def Store.search [LinearOrder F] (self : Store F) (schedule : ScanSchedule (VectorRecord F × F))
    (collection : String) (query : List F) (k : ℕ) : Except StoreError (List (ScoredId F)) :=
  match self.collections[collection]? with
  | none => .error (.collectionNotFound collection)
  | some coll =>
    if query.length ≠ coll.dim then .error (.dimensionMismatch coll.dim query.length)
    else .ok (bruteForceTopK schedule.cut (schedule.order coll.scanned) query k)

/-- The writes of an accepted batch of records. -/
def upsertWrites (records : List (VectorRecord F)) : List (UInt64 × Option (StoredVector F)) :=
  records.map fun record => (record.id, some (StoredVector.ofRecord record))

/-- The insertion loop performs the batch's writes. -/
theorem foldl_insert_eq_applyWrites (records : List (VectorRecord F))
    (vectors : ExtTreeMap UInt64 (StoredVector F)) :
    records.foldl (fun vectors record => vectors.insert record.id (StoredVector.ofRecord record))
      vectors = applyWrites vectors (upsertWrites records) := by
  rw [upsertWrites, applyWrites, List.foldl_map]
  rfl

omit [FloatOps F] in
/-- The last record of a batch that carries an id. -/
def lastRecord (records : List (VectorRecord F)) (id : UInt64) : Option (VectorRecord F) :=
  (records.filter fun record => record.id = id).getLast?

/-- The last record that carries an id is the last write of the batch to it. -/
theorem lastWrite_upsertWrites (records : List (VectorRecord F)) (id : UInt64) :
    lastWrite (upsertWrites records) id =
      (lastRecord records id).map fun record => some (StoredVector.ofRecord record) := by
  induction records with
  | nil => rfl
  | cons record records ih =>
    change (lastWrite (upsertWrites records) id).or (if record.id = id then _ else none) = _
    rw [ih]
    by_cases hid : record.id = id
    · cases hlast : (records.filter fun record => record.id = id).getLast? with
      | none => simp [lastRecord, hid, hlast, List.getLast?_cons]
      | some last => simp [lastRecord, hid, hlast, List.getLast?_cons]
    · simp [lastRecord, hid]

namespace Store

/-- An accepted batch performs its writes on its collection and reports its length. -/
theorem insert_of_admits {self : Store F} {collection : String} {records : List (VectorRecord F)}
    {coll : Collection F} (hcoll : self.collections[collection]? = some coll)
    (hadmits : coll.Admits records) :
    self.insert collection records = (.ok records.length,
      ⟨self.collections.insert collection (coll.write (upsertWrites records))⟩) := by
  have hfind : records.find? (fun r => r.embedding.length ≠ coll.dim) = none := by
    rw [List.find?_eq_none]
    intro record hrecord
    simpa using hadmits record hrecord
  simp only [insert, hcoll, hfind, foldl_insert_eq_applyWrites]
  rfl

/-- A batch with a wrong dimension is rejected with the first offender's length. -/
theorem insert_of_not_admits {self : Store F} {collection : String} {records : List (VectorRecord F)}
    {coll : Collection F} (hcoll : self.collections[collection]? = some coll)
    (hrejects : ¬ coll.Admits records) :
    ∃ actual, self.insert collection records = (.error (.dimensionMismatch coll.dim actual), self) := by
  cases hfind : records.find? (fun r => r.embedding.length ≠ coll.dim) with
  | some r => exact ⟨r.embedding.length, by simp only [insert, hcoll, hfind]⟩
  | none =>
    refine absurd ?_ hrejects
    intro record hrecord
    simpa using List.find?_eq_none.mp hfind record hrecord

/-- A batch for an unknown collection is rejected. -/
theorem insert_of_absent {self : Store F} {collection : String} {records : List (VectorRecord F)}
    (hcoll : self.collections[collection]? = none) :
    self.insert collection records = (.error (.collectionNotFound collection), self) := by
  simp only [insert, hcoll]

/-- A search in a known collection returns the best `k`, whatever the schedule. -/
theorem search_eq_greatest [LinearOrder F] {self : Store F}
    (schedule : ScanSchedule (VectorRecord F × F)) {collection : String} {query : List F} (k : ℕ)
    {coll : Collection F} (hcoll : self.collections[collection]? = some coll)
    (hquery : query.length = coll.dim) :
    self.search schedule collection query k =
      .ok (Selection.greatest k (scoredIds query coll.scanned)) := by
  simp only [search, hcoll, hquery, ne_eq, not_true_eq_false, if_false]
  rw [bruteForceTopK_eq_greatest]

end Store

end RaftVec
