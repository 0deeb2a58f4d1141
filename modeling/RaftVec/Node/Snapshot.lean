import RaftVec.Library.FiniteMap
import RaftVec.Node.StateMachine

/-!
# Snapshots of a replica

A snapshot ships each collection's shape and records. Cached norms are derived state and
are recomputed on restore, and both directions rebuild their maps under the ids found in
the records. The round trip is therefore the identity only on stores that keep the
representation invariant `Store.WellFormed`; every operation keeps it.

`bincode` is a parameter. `get_current_snapshot` keeps no snapshot and answers none.
-/

namespace RaftVec

open Std WriteHistory FiniteMap

/-- One collection as shipped: norms are left out. -/
structure CollectionSnapshot (F : Type*) where
  dim : ℕ
  shardCount : UInt32
  vectors : ExtTreeMap UInt64 (VectorRecord F)
deriving DecidableEq

/-- A whole store as shipped. -/
structure StoreSnapshot (F : Type*) where
  collections : ExtTreeMap String (CollectionSnapshot F)
deriving DecidableEq

variable {F : Type*}

/-- Ship one collection, its records under their own ids. -/
def Collection.snapshot (coll : Collection F) : CollectionSnapshot F :=
  ⟨coll.dim, coll.shardCount,
    .ofList (coll.vectors.toList.map fun entry => (entry.2.record.id, entry.2.record))⟩

/-- Ship every collection. -/
def Store.snapshot (self : Store F) : StoreSnapshot F :=
  ⟨self.collections.map fun _ coll => coll.snapshot⟩

/-- The shape a snapshot ships for a name. -/
def StoreSnapshot.shape (self : StoreSnapshot F) (name : String) : Option (ℕ × UInt32) :=
  self.collections[name]?.map fun snap => (snap.dim, snap.shardCount)

/-- A snapshot ships the shapes of its store. -/
theorem Store.snapshot_shape (self : Store F) (name : String) :
    self.snapshot.shape name = self.shape name := by
  rw [StoreSnapshot.shape, snapshot, ExtTreeMap.getElem?_map, Option.map_map]
  rfl

variable [FloatOps F]

/-- Rebuild one collection, recomputing the norms. -/
def CollectionSnapshot.restore (snap : CollectionSnapshot F) : Collection F :=
  ⟨snap.dim, snap.shardCount,
    .ofList (snap.vectors.toList.map fun entry => (entry.2.id, StoredVector.ofRecord entry.2))⟩

/-- Clear the store and rebuild it from the snapshot. -/
def Store.restore (_self : Store F) (snapshot : StoreSnapshot F) : Store F :=
  ⟨snapshot.collections.map fun _ snap => snap.restore⟩

/-- A restored store has the shapes of the snapshot and no others. -/
theorem Store.restore_shape (self : Store F) (snapshot : StoreSnapshot F) (name : String) :
    (self.restore snapshot).shape name = snapshot.shape name := by
  rw [Store.shape, restore, ExtTreeMap.getElem?_map, Option.map_map]
  rfl

/-! ## The representation invariant -/

/-- Records sit under their own ids, fit the collection, and carry their own norms. -/
structure Collection.WellFormed (coll : Collection F) : Prop where
  shardCount_pos : 0 < coll.shardCount
  keyed : ∀ (id : UInt64) stored, coll.vectors[id]? = some stored → stored.record.id = id
  sized : ∀ (id : UInt64) stored, coll.vectors[id]? = some stored →
    stored.record.embedding.length = coll.dim
  normed : ∀ (id : UInt64) stored, coll.vectors[id]? = some stored →
    stored = StoredVector.ofRecord stored.record

/-- Every collection of the store keeps the representation invariant. -/
def Store.WellFormed (self : Store F) : Prop :=
  ∀ (name : String) coll, self.collections[name]? = some coll → coll.WellFormed

/-- Whatever a command writes is keyed, sized and normed as the invariant asks. -/
theorem ShardCommand.effect_wellFormed (cmd : ShardCommand F) (dim : ℕ) (id : UInt64)
    (stored : StoredVector F) (h : (id, some stored) ∈ cmd.effect dim) :
    stored.record.id = id ∧ stored.record.embedding.length = dim ∧
      stored = StoredVector.ofRecord stored.record := by
  cases cmd with
  | upsert collection records =>
    simp only [effect] at h
    split at h
    · next hsized =>
      obtain ⟨record, hrecord, heq⟩ := List.mem_map.mp h
      simp only [Prod.mk.injEq, Option.some.injEq] at heq
      obtain ⟨rfl, rfl⟩ := heq
      exact ⟨rfl, hsized record hrecord, rfl⟩
    · simp at h
  | delete collection ids =>
    obtain ⟨deleted, _, heq⟩ := List.mem_map.mp h
    simp at heq

/-- A command's writes keep a collection well formed. -/
theorem Collection.WellFormed.write_effect {coll : Collection F} (h : coll.WellFormed)
    (cmd : ShardCommand F) : (coll.write (cmd.effect coll.dim)).WellFormed := by
  have hlookup : ∀ (id : UInt64) stored, (coll.write (cmd.effect coll.dim)).vectors[id]? = some stored →
      stored.record.id = id ∧ stored.record.embedding.length = coll.dim ∧
        stored = StoredVector.ofRecord stored.record := by
    intro id stored hstored
    simp only [Collection.write, getElem?_applyWrites] at hstored
    cases hlast : lastWrite (cmd.effect coll.dim) id with
    | some value =>
      rw [hlast, Option.getD_some] at hstored
      subst hstored
      exact cmd.effect_wellFormed coll.dim id stored (mem_of_lastWrite hlast)
    | none =>
      rw [hlast, Option.getD_none] at hstored
      exact ⟨h.keyed id stored hstored, h.sized id stored hstored, h.normed id stored hstored⟩
  exact ⟨h.shardCount_pos, fun id stored hs => (hlookup id stored hs).1,
    fun id stored hs => (hlookup id stored hs).2.1, fun id stored hs => (hlookup id stored hs).2.2⟩

/-- A well-formed collection is rebuilt from what is shipped of it. -/
theorem Collection.WellFormed.restore_snapshot {coll : Collection F} (h : coll.WellFormed) :
    coll.snapshot.restore = coll := by
  have hshipped : ∀ id : UInt64, coll.snapshot.vectors[id]? = coll.vectors[id]?.map (·.record) :=
    fun id => getElem?_ofList_values coll.vectors (fun stored => stored.record.id) (·.record) h.keyed id
  have hkeyed : ∀ (key : UInt64) record, coll.snapshot.vectors[key]? = some record → record.id = key := by
    intro key record hrecord
    rw [hshipped] at hrecord
    obtain ⟨stored, hstored, rfl⟩ := Option.map_eq_some_iff.mp hrecord
    exact h.keyed key stored hstored
  have hrebuilt : ∀ id : UInt64, coll.snapshot.restore.vectors[id]? = coll.vectors[id]? := by
    intro id
    rw [CollectionSnapshot.restore, getElem?_ofList_values coll.snapshot.vectors
      (fun record => record.id) StoredVector.ofRecord hkeyed, hshipped]
    cases hstored : coll.vectors[id]? with
    | none => rfl
    | some stored => exact congrArg some (h.normed id stored hstored).symm
  have hvectors := ExtTreeMap.ext_getElem? hrebuilt
  cases coll
  simp only [Collection.snapshot, CollectionSnapshot.restore] at hvectors ⊢
  rw [hvectors]

/-- The records of a well-formed collection are told apart by their ids. -/
theorem Collection.WellFormed.nodup_scanned {coll : Collection F} (h : coll.WellFormed) :
    (coll.scanned.map fun record => record.1.id).Nodup := by
  have hkeys : coll.scanned.map (fun record => record.1.id) = coll.vectors.toList.map Prod.fst := by
    rw [Collection.scanned, List.map_map]
    apply List.map_congr_left
    intro entry hentry
    exact h.keyed entry.1 entry.2 (ExtTreeMap.mem_toList_iff_getElem?_eq_some.mp hentry)
  rw [hkeys, ExtTreeMap.map_fst_toList_eq_keys]
  exact ExtTreeMap.nodup_keys

/-- The shard count a collection is created with is never zero. -/
theorem max_one_pos (shardCount : UInt32) : 0 < max shardCount 1 := by
  change 0 < if shardCount ≤ 1 then 1 else shardCount
  split
  · decide
  · next hle =>
    rw [UInt32.le_iff_toNat_le] at hle
    rw [UInt32.lt_iff_toNat_lt]
    have hone : (1 : UInt32).toNat = 1 := rfl
    have hzero : (0 : UInt32).toNat = 0 := rfl
    omega

namespace Store

/-- A new store is well formed. -/
theorem wellFormed_new : (Store.new : Store F).WellFormed := by
  intro name coll hcoll
  simp [new] at hcoll

/-- Creating a collection keeps the store well formed. -/
theorem WellFormed.createCollection {self : Store F} (h : self.WellFormed) (name : String) (dim : ℕ)
    (shardCount : UInt32) : (self.createCollection name dim shardCount).2.WellFormed := by
  intro other coll hcoll
  rw [createCollection_collections] at hcoll
  cases hold : self.collections[other]? with
  | some old =>
    have heq : old = coll := by simpa [hold] using hcoll
    exact heq ▸ h other old hold
  | none =>
    rw [hold, Option.none_or] at hcoll
    by_cases hname : name = other
    · rw [if_pos hname, Option.some.injEq] at hcoll
      subst hcoll
      refine ⟨?_, by simp, by simp, by simp⟩
      exact max_one_pos shardCount
    · simp [hname] at hcoll

/-- Running a command keeps the store well formed. -/
theorem WellFormed.execute {self : Store F} (h : self.WellFormed) (cmd : ShardCommand F) :
    (self.execute cmd).2.WellFormed := by
  intro name coll hcoll
  rw [execute_collections] at hcoll
  by_cases hname : cmd.collection = name
  · rw [if_pos hname] at hcoll
    obtain ⟨old, hold, rfl⟩ := Option.map_eq_some_iff.mp hcoll
    exact (h name old hold).write_effect cmd
  · rw [if_neg hname] at hcoll
    exact h name coll hcoll

/-- Running any commands keeps the store well formed. -/
theorem WellFormed.executeAll {self : Store F} (h : self.WellFormed) (cmds : List (ShardCommand F)) :
    (self.executeAll cmds).WellFormed := by
  induction cmds generalizing self with
  | nil => exact h
  | cons cmd cmds ih => exact ih (h.execute cmd)

/-- Restoring a well-formed store's snapshot gives the store back, whatever was there before. -/
theorem restore_snapshot {self : Store F} (h : self.WellFormed) (target : Store F) :
    target.restore self.snapshot = self := by
  apply ext_collections
  intro name
  simp only [restore, snapshot, ExtTreeMap.getElem?_map, Option.map_map]
  cases hcoll : self.collections[name]? with
  | none => rfl
  | some coll => exact congrArg some (h name coll hcoll).restore_snapshot

end Store

/-! ## Building and installing -/

/-- `bincode` as the snapshot code uses it. -/
structure Bincode (F Bytes : Type*) where
  serialize : StoreSnapshot F → Except String Bytes
  deserialize : Bytes → Except String (StoreSnapshot F)

/-- Deserializing undoes serializing. -/
def Bincode.RoundTrips {F Bytes : Type*} (codec : Bincode F Bytes) : Prop :=
  ∀ snapshot bytes, codec.serialize snapshot = .ok bytes → codec.deserialize bytes = .ok snapshot

/-- Shipping snapshots unencoded. -/
def Bincode.identity (F : Type*) : Bincode F (StoreSnapshot F) := ⟨.ok, .ok⟩

/-- An unencoded snapshot arrives as it was sent. -/
theorem Bincode.identity_roundTrips (F : Type*) : (Bincode.identity F).RoundTrips := by
  intro snapshot bytes h
  cases h
  rfl

/-- The log position and membership a snapshot claims to cover. -/
structure SnapshotMeta where
  lastLogId : Option LogId
  lastMembership : StoredMembership
deriving DecidableEq

/-- A snapshot with the position it covers. -/
structure Snapshot (Bytes : Type*) where
  covers : SnapshotMeta
  snapshot : Bytes

/-- How building or installing a snapshot can fail. -/
inductive StorageError where
  | readStateMachine (source : String)
  | readSnapshot (signature : SnapshotMeta) (source : String)
deriving DecidableEq

namespace ShardStateMachine

variable {Bytes : Type*}

omit [FloatOps F] in
/-- Serialize the store, then read the applied position and the membership. -/
def buildSnapshot (codec : Bincode F Bytes) (self : ShardStateMachine F) :
    Except StorageError (Snapshot Bytes) :=
  match codec.serialize self.store.snapshot with
  | .error source => .error (.readStateMachine source)
  | .ok bytes => .ok ⟨⟨self.lastAppliedLog, self.lastMembership⟩, bytes⟩

/-- Replace the whole state by the snapshot's. -/
def installSnapshot (codec : Bincode F Bytes) (self : ShardStateMachine F) (covers : SnapshotMeta)
    (snapshot : Bytes) : Except StorageError Unit × ShardStateMachine F :=
  match codec.deserialize snapshot with
  | .error source => (.error (.readSnapshot covers source), self)
  | .ok storeSnapshot =>
    (.ok (), ⟨self.store.restore storeSnapshot, covers.lastLogId, covers.lastMembership⟩)

omit [FloatOps F] in
/-- No snapshot is kept: the answer is none in every state. -/
def getCurrentSnapshot (_self : ShardStateMachine F) : Option (Snapshot Bytes) := none

/-- Installing what a well-formed replica built reproduces that replica's state. -/
theorem installSnapshot_buildSnapshot {codec : Bincode F Bytes} (hcodec : codec.RoundTrips)
    {source : ShardStateMachine F} (hwell : source.store.WellFormed) {snapshot : Snapshot Bytes}
    (hbuild : source.buildSnapshot codec = .ok snapshot) (target : ShardStateMachine F) :
    target.installSnapshot codec snapshot.covers snapshot.snapshot = (.ok (), source) := by
  unfold buildSnapshot at hbuild
  split at hbuild
  · cases hbuild
  · next bytes hserialize =>
    cases hbuild
    simp only [installSnapshot, hcodec _ _ hserialize, Store.restore_snapshot hwell]

end ShardStateMachine

end RaftVec
