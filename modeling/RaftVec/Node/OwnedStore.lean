import RaftVec.Node.HitVersions
import RaftVec.Node.Representation

/-!
# Stores that hold the ids of one shard

A node never checks whether the ids it is sent are its own. A store therefore holds only
ids with some property if every command that reaches it writes only such ids; creating
collections, deleting, shipping snapshots and installing them add nothing of their own.

A search over such a store returns only such ids, each once.
-/

namespace RaftVec

open Std WriteHistory Selection

variable {F : Type*}

/-- Every record that a command stores has an id with the property. -/
def ShardCommand.StoresOnly (owned : UInt64 → Prop) : ShardCommand F → Prop
  | .upsert _ records => ∀ record ∈ records, owned record.id
  | .delete _ _ => True

/-- Every command of a log stores only ids with the property. -/
def LogStoresOnly (owned : UInt64 → Prop) (log : List (Entry F)) : Prop :=
  ∀ cmd ∈ logCommands log, cmd.StoresOnly owned

/-- Entries taken from a log store no more than the log does. -/
theorem LogStoresOnly.of_mem {owned : UInt64 → Prop} {log entries : List (Entry F)} (h : LogStoresOnly owned log)
    (hentries : ∀ entry ∈ entries, entry ∈ log) : LogStoresOnly owned entries := by
  intro cmd hcmd
  obtain ⟨entry, hentry, hpayload⟩ := List.mem_filterMap.mp hcmd
  exact h cmd (List.mem_filterMap.mpr ⟨entry, hentries entry hentry, hpayload⟩)

variable [FloatOps F]

/-- What a command stores is stored under an id with the property. -/
theorem ShardCommand.StoresOnly.of_mem_effect {owned : UInt64 → Prop} {cmd : ShardCommand F}
    (h : cmd.StoresOnly owned) {dim : ℕ} {id : UInt64} {stored : StoredVector F}
    (hwrite : (id, some stored) ∈ cmd.effect dim) : owned id := by
  cases cmd with
  | upsert collection records =>
    simp only [ShardCommand.effect] at hwrite
    split at hwrite
    · obtain ⟨record, hrecord, heq⟩ := List.mem_map.mp hwrite
      rw [← (Prod.mk.inj heq).1]
      exact h record hrecord
    · cases hwrite
  | delete collection ids =>
    obtain ⟨deleted, _, heq⟩ := List.mem_map.mp hwrite
    cases (Prod.mk.inj heq).2

/-- A well-formed collection whose ids all have the property. -/
structure Collection.HoldsOnly (owned : UInt64 → Prop) (coll : Collection F) : Prop where
  wellFormed : coll.WellFormed
  owned : ∀ (id : UInt64) stored, coll.vectors[id]? = some stored → owned id

/-- A store all of whose collections hold only ids with the property. -/
def Store.HoldsOnly (owned : UInt64 → Prop) (store : Store F) : Prop :=
  ∀ (name : String) coll, store.collections[name]? = some coll → coll.HoldsOnly owned

/-- A snapshot that ships collections which held only ids with the property. -/
def StoreSnapshot.ShipsOnly (owned : UInt64 → Prop) (snapshot : StoreSnapshot F) : Prop :=
  ∀ (name : String) shipped, snapshot.collections[name]? = some shipped →
    ∃ coll : Collection F, coll.HoldsOnly owned ∧ shipped = coll.snapshot

namespace Store.HoldsOnly

variable {owned : UInt64 → Prop} {store : Store F}

/-- Such a store is well formed. -/
theorem wellFormed (h : store.HoldsOnly owned) : store.WellFormed :=
  fun name coll hcoll => (h name coll hcoll).wellFormed

/-- Such a store holds no other id. -/
theorem version_eq_none (h : store.HoldsOnly owned) {id : UInt64} (hid : ¬owned id) (name : String) :
    store.version name id = none := by
  cases hversion : store.version name id with
  | none => rfl
  | some stored =>
    obtain ⟨coll, hcoll, hstored⟩ := Option.bind_eq_some_iff.mp hversion
    exact absurd ((h name coll hcoll).owned id stored hstored) hid

/-- A new store holds nothing. -/
theorem new : (Store.new : Store F).HoldsOnly owned := by
  intro name coll hcoll
  simp [Store.new] at hcoll

/-- A new collection holds nothing. -/
theorem createCollection (h : store.HoldsOnly owned) (name : String) (dim : ℕ) (shardCount : UInt32) :
    (store.createCollection name dim shardCount).2.HoldsOnly owned := by
  intro other coll hcoll
  refine ⟨h.wellFormed.createCollection name dim shardCount other coll hcoll, ?_⟩
  rw [createCollection_collections] at hcoll
  cases hold : store.collections[other]? with
  | some old =>
    have heq : old = coll := by simpa [hold] using hcoll
    exact heq ▸ (h other old hold).owned
  | none =>
    rw [hold, Option.none_or] at hcoll
    by_cases hname : name = other
    · rw [if_pos hname, Option.some.injEq] at hcoll
      subst hcoll
      simp
    · simp [hname] at hcoll

/-- A command adds only the ids it stores. -/
theorem execute (h : store.HoldsOnly owned) {cmd : ShardCommand F} (hcmd : cmd.StoresOnly owned) :
    (store.execute cmd).2.HoldsOnly owned := by
  intro name coll hcoll
  refine ⟨h.wellFormed.execute cmd name coll hcoll, ?_⟩
  rw [execute_collections] at hcoll
  by_cases hname : cmd.collection = name
  · rw [if_pos hname] at hcoll
    obtain ⟨old, hold, rfl⟩ := Option.map_eq_some_iff.mp hcoll
    intro id stored hstored
    simp only [Collection.write, getElem?_applyWrites] at hstored
    cases hlast : lastWrite (cmd.effect old.dim) id with
    | none =>
      rw [hlast, Option.getD_none] at hstored
      exact (h name old hold).owned id stored hstored
    | some value =>
      rw [hlast, Option.getD_some] at hstored
      subst hstored
      exact hcmd.of_mem_effect (mem_of_lastWrite hlast)
  · rw [if_neg hname] at hcoll
    exact (h name coll hcoll).owned

/-- Commands add only the ids they store. -/
theorem executeAll (h : store.HoldsOnly owned) {cmds : List (ShardCommand F)}
    (hcmds : ∀ cmd ∈ cmds, cmd.StoresOnly owned) : (store.executeAll cmds).HoldsOnly owned := by
  induction cmds generalizing store with
  | nil => exact h
  | cons cmd cmds ih =>
    exact ih (h.execute (hcmds cmd List.mem_cons_self)) fun other hother =>
      hcmds other (List.mem_cons_of_mem cmd hother)

/-- Applying entries adds only the ids that the entries store. -/
theorem apply {machine : ShardStateMachine F} (h : machine.store.HoldsOnly owned) {entries : List (Entry F)}
    (hentries : LogStoresOnly owned entries) : (machine.apply entries).2.store.HoldsOnly owned := by
  rw [ShardStateMachine.apply_store]
  exact h.executeAll hentries

/-- A store rebuilt from collections with the property has the property. -/
theorem restore {snapshot : StoreSnapshot F} (h : snapshot.ShipsOnly owned) (target : Store F) :
    (target.restore snapshot).HoldsOnly owned := by
  intro name coll hcoll
  rw [Store.restore, ExtTreeMap.getElem?_map] at hcoll
  obtain ⟨shipped, hshipped, rfl⟩ := Option.map_eq_some_iff.mp hcoll
  obtain ⟨source, hsource, rfl⟩ := h name shipped hshipped
  rw [hsource.wellFormed.restore_snapshot]
  exact hsource

end Store.HoldsOnly

/-- Ids with the property, each once. -/
def OwnedOnce (owned : UInt64 → Prop) (ids : List UInt64) : Prop :=
  ids.Nodup ∧ ∀ id ∈ ids, owned id

/-- A search returns only ids that the store holds, each once. -/
theorem Store.HoldsOnly.search [LinearOrder F] {owned : UInt64 → Prop} {store : Store F}
    (h : store.HoldsOnly owned) {schedule : ScanSchedule (VectorRecord F × F)} {collection : String}
    {query : List F} {k : ℕ} {hits : List (ScoredId F)}
    (hsearch : store.search schedule collection query k = .ok hits) : OwnedOnce owned (hits.map ScoredId.id) := by
  obtain ⟨coll, hcoll, -, rfl⟩ := Store.search_ok hsearch
  have hholds := h collection coll hcoll
  constructor
  · apply nodup_map_greatest
    rw [scoredIds, Multiset.map_coe, Multiset.coe_nodup, List.map_map]
    exact hholds.wellFormed.nodup_scanned
  · intro id hid
    obtain ⟨hit, hhit, rfl⟩ := List.mem_map.mp hid
    obtain ⟨record, hrecord, rfl⟩ := exists_of_mem_scoredIds (mem_of_mem_greatest hhit)
    obtain ⟨stored, hstored, -, -⟩ := hholds.wellFormed.version_of_scanned hrecord
    exact hholds.owned _ stored hstored

/-- The ids of a search's hits, found or about to be found. -/
def SearchPhase.ids {F : Type*} (phase : SearchPhase F) : List UInt64 :=
  phase.hits.map ScoredRecord.id ++ phase.pending.map ScoredId.id

/-- Each step of a search keeps the ids of the scan, whatever is applied between the steps. -/
theorem Store.HoldsOnly.searchStep [LinearOrder F] {owned : UInt64 → Prop} {inFlight : SearchInFlight F}
    (h : inFlight.store.HoldsOnly owned) (hids : OwnedOnce owned inFlight.phase.ids)
    (schedule : ScanSchedule (VectorRecord F × F)) (req : SearchRequest F) :
    OwnedOnce owned (inFlight.step schedule req .search).phase.ids := by
  obtain ⟨store, since, phase⟩ := inFlight
  cases phase with
  | finished response => exact hids
  | scanning =>
    simp only [SearchInFlight.step]
    cases hsearch : store.search schedule req.collection req.queryVector req.k.toNat with
    | error err => exact hids
    | ok scored => exact h.search hsearch
  | reading pending done =>
    cases pending with
    | nil => exact hids
    | cons hit pending =>
      simpa [SearchInFlight.step, SearchPhase.ids, SearchPhase.hits, SearchPhase.pending, Store.attachMetadata]
        using hids

end RaftVec
