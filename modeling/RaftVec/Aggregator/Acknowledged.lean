import RaftVec.Aggregator.Router

/-!
# Acknowledged inserts

An insert is acknowledged with the number of records in the request once its entry has
been applied, but applying an entry that the store rejects is not an error: `apply` turns
the rejection into a count of zero and the service drops that count. An acknowledged
batch is therefore stored exactly when every leader's store would take its share, which
means that it knows the collection and all dimensions fit.
-/

namespace RaftVec

open Std WriteHistory

variable {F : Type*} [FloatOps F]

namespace Store

/-- The collection holds, for each id of the batch, the last record that carries it. -/
def Holds (store : Store F) (collection : String) (records : List (VectorRecord F)) : Prop :=
  ∀ id record, lastRecord records id = some record →
    store.version collection id = some (StoredVector.ofRecord record)

/-- The store accepts the batch, or holds it already. -/
def Takes (store : Store F) (collection : String) (records : List (VectorRecord F)) : Prop :=
  (∃ coll, store.collections[collection]? = some coll ∧ coll.Admits records) ∨
    store.Holds collection records

/-- An accepted batch is held afterwards. -/
theorem holds_execute_of_admits {store : Store F} {collection : String} {records : List (VectorRecord F)}
    {coll : Collection F} (hcoll : store.collections[collection]? = some coll)
    (hadmits : coll.Admits records) :
    (store.execute (.upsert collection records)).2.Holds collection records := by
  intro id record hlast
  have heffect : (ShardCommand.upsert collection records).effect coll.dim = upsertWrites records :=
    if_pos hadmits
  simp only [version, execute_collections, ShardCommand.collection, if_true, hcoll, Option.map_some,
    Option.bind_some, heffect, Collection.write, getElem?_applyWrites, lastWrite_upsertWrites, hlast,
    Option.getD_some]

/-- A batch that is not accepted changes nothing. -/
theorem execute_of_not_admits {store : Store F} {collection : String} {records : List (VectorRecord F)}
    (hrejects : ¬ ∃ coll, store.collections[collection]? = some coll ∧ coll.Admits records) :
    (store.execute (.upsert collection records)).2 = store := by
  cases hcoll : store.collections[collection]? with
  | none => simp only [execute, insert_of_absent hcoll]
  | some coll =>
    have hadmits : ¬ coll.Admits records := fun h => hrejects ⟨coll, hcoll, h⟩
    obtain ⟨actual, hinsert⟩ := insert_of_not_admits hcoll hadmits
    simp only [execute, hinsert]

/-- A batch is held after its entry was applied exactly when the store takes it. -/
theorem holds_execute_iff (store : Store F) (collection : String) (records : List (VectorRecord F)) :
    (store.execute (.upsert collection records)).2.Holds collection records ↔
      store.Takes collection records := by
  by_cases hadmits : ∃ coll, store.collections[collection]? = some coll ∧ coll.Admits records
  · obtain ⟨coll, hcoll, hfits⟩ := hadmits
    exact iff_of_true (holds_execute_of_admits hcoll hfits) (Or.inl ⟨coll, hcoll, hfits⟩)
  · rw [execute_of_not_admits hadmits, Takes, or_iff_right hadmits]

end Store

/-- A count of 32 bits is exact exactly for batches below `2 ^ 32`. -/
theorem toNat_ofNat_eq_iff (n : ℕ) : (UInt32.ofNat n).toNat = n ↔ n < 2 ^ 32 := by
  rw [UInt32.toNat_ofNat']
  constructor
  · intro h
    rw [← h]
    exact Nat.mod_lt _ (by decide)
  · exact Nat.mod_eq_of_lt

/-- The store of the replica that took a command has executed it. -/
theorem ShardGroup.commitAt_store (group : ShardGroup F) (idx : ℕ) (others : List (Entry F))
    (logId : LogId) (cmd : ShardCommand F) :
    ((group.commitAt idx others logId cmd).replicas idx).machine.store =
      ((group.leaderMachine others idx).store.execute cmd).2 := by
  simp only [commitAt, update, Function.update_self]
  rfl

/-- One replica's acknowledgement is exact when the batch is countable and its store takes it. -/
theorem NodeService.insert_stored_iff {fate : RaftFate F} {idx : ℕ} {req : InsertRequest F}
    {group after : ShardGroup F} {n : UInt32}
    (hok : NodeService.insert (ShardGroup.clientWrite fate idx) req group = (.ok ⟨n, ""⟩, after)) :
    (n.toNat = req.records.length ∧ (after.replicas idx).machine.store.Holds req.collection req.records) ↔
      req.records.length < 2 ^ 32 ∧ ∀ others logId, fate = .committed others logId →
        (group.leaderMachine others idx).store.Takes req.collection req.records := by
  obtain ⟨others, logId, rfl, hanswer, hafter⟩ := ShardGroup.write_of_ok InsertResponse.leaderHint
    (fun _ _ => rfl) (congrArg Prod.fst hok) rfl
  have hstate : after = group.commitAt idx others logId (.upsert req.collection req.records) :=
    (congrArg Prod.snd hok).symm.trans hafter
  cases hanswer
  rw [hstate, ShardGroup.commitAt_store, Store.holds_execute_iff, toNat_ofNat_eq_iff]
  refine and_congr_right fun _ => ⟨?_, ?_⟩
  · intro htakes other otherId hfate
    cases hfate
    exact htakes
  · intro htakes
    exact htakes others logId rfl

namespace ShardRouter

/-- After a write that succeeded, the leader that answered for a shard has executed its share. -/
theorem writeGroups_served {A R : Type*} [CarriesLeaderHint R] {fxhash : UInt64 → UInt64} {router : ShardRouter F}
    {items : List A} {key : A → UInt64} {count : R → UInt32} {fates : ℕ → ℕ → ℕ → AttemptFate (RaftFate F)}
    (cmd : List A → ShardCommand F) (response : UInt32 → String → R)
    (hresponse : ∀ n addr, CarriesLeaderHint.leaderHint (response n addr) = addr) {n : UInt32}
    (hok : (router.writeGroups fxhash items key count fun s group =>
      Shard.writeAttempt (fates s) (cmd group) group.length response).1 = .ok n) {s : ℕ} {shard : Shard F}
    (hshard : router.shards[s]? = some shard) (hshare : router.share fxhash items key s ≠ []) :
    ∃ after serving others logId,
      (router.writeGroups fxhash items key count fun s group =>
        Shard.writeAttempt (fates s) (cmd group) group.length response).2.shards[s]? = some after ∧
      servingState shard.replicaSet (Shard.writeAttempt (fates s) (cmd (router.share fxhash items key s))
        (router.share fxhash items key s).length response) maxLeaderAttempts
        (.first shard.replicaSet shard.group) = some serving ∧
      fates s serving.made serving.idx = .reached (.committed others logId) false ∧
      after.leader.machine.store = ((serving.state.leaderMachine others serving.idx).store.execute
        (cmd (router.share fxhash items key s))).2 := by
  obtain ⟨hafter, answer, hanswer⟩ := writeGroups_of_ok hok hshard hshare
  obtain ⟨serving, others, logId, hserving, hfate, -, hcall⟩ := Shard.call_write_of_ok hresponse hanswer
  refine ⟨_, serving, others, logId, hafter, hserving, hfate, ?_⟩
  rw [hcall]
  exact ShardGroup.commitAt_store serving.state serving.idx others logId _

/-- The state of the leader that answered for a shard, right before it applied the entry. -/
def servingLeader (fxhash : UInt64 → UInt64) (self : ShardRouter F)
    (fates : ℕ → ℕ → ℕ → AttemptFate (RaftFate F)) (collection : String)
    (records : List (VectorRecord F)) (s : ℕ) : Option (ShardStateMachine F) :=
  let share := self.share fxhash records VectorRecord.id s
  if share.isEmpty then none
  else
    self.shards[s]?.bind fun shard =>
      (servingState shard.replicaSet (Shard.insertAttempt (fates s) ⟨collection, share⟩) maxLeaderAttempts
        (.first shard.replicaSet shard.group)).bind fun serving =>
          match fates s serving.made serving.idx with
          | .reached (.committed others _) _ => some (serving.state.leaderMachine others serving.idx)
          | _ => none

omit [FloatOps F] in
/-- An id's last record in its owner's share is its last record in the batch. -/
theorem lastRecord_share (fxhash : UInt64 → UInt64) (self : ShardRouter F)
    (records : List (VectorRecord F)) (s : ℕ) (id : UInt64) :
    lastRecord (self.share fxhash records VectorRecord.id s) id =
      if self.owner fxhash id = s then lastRecord records id else none := by
  rw [lastRecord, share, List.filter_filter]
  by_cases howner : self.owner fxhash id = s
  · rw [if_pos howner, lastRecord]
    congr 1
    apply List.filter_congr
    intro record _
    by_cases hid : record.id = id
    · simp [hid, howner]
    · simp [hid]
  · rw [if_neg howner]
    have hnil : records.filter (fun record => decide (record.id = id) &&
        decide (self.owner fxhash record.id = s)) = [] := by
      rw [List.filter_eq_nil_iff]
      intro record _ hboth
      simp only [Bool.and_eq_true, decide_eq_true_eq] at hboth
      exact howner (hboth.1 ▸ hboth.2)
    rw [hnil]
    rfl

/-- After an acknowledged insert, a shard that was addressed holds its share if its leader took it. -/
theorem insert_share_held_iff {fxhash : UInt64 → UInt64} {router : ShardRouter F}
    {fates : ℕ → ℕ → ℕ → AttemptFate (RaftFate F)} {collection : String}
    {records : List (VectorRecord F)} {n : UInt32}
    (hok : (router.insert fxhash fates collection records).1 = .ok n) {s : ℕ} (hs : s < router.shards.length)
    (hshare : router.share fxhash records VectorRecord.id s ≠ []) :
    ∃ shard machine, (router.insert fxhash fates collection records).2.shards[s]? = some shard ∧
      router.servingLeader fxhash fates collection records s = some machine ∧
      (shard.leader.machine.store.Holds collection (router.share fxhash records VectorRecord.id s) ↔
        machine.store.Takes collection (router.share fxhash records VectorRecord.id s)) := by
  have hshard : router.shards[s]? = some router.shards[s] := List.getElem?_eq_getElem hs
  obtain ⟨after, serving, others, logId, hafter, hserving, hfate, hstore⟩ :=
    writeGroups_served (.upsert collection) InsertResponse.mk (fun _ _ => rfl) hok hshard hshare
  refine ⟨after, serving.state.leaderMachine others serving.idx, hafter, ?_, ?_⟩
  · simp only [servingLeader, List.isEmpty_iff, hshare, if_false, hshard, Option.bind_some]
    rw [Shard.insertAttempt_eq_writeAttempt, hserving, Option.bind_some, hfate]
  · rw [← Store.holds_execute_iff, hstore]

/-- An acknowledged insert counts its records modulo `2 ^ 32`. -/
theorem insert_count {fxhash : UInt64 → UInt64} {router : ShardRouter F}
    {fates : ℕ → ℕ → ℕ → AttemptFate (RaftFate F)} {collection : String}
    {records : List (VectorRecord F)} {n : UInt32}
    (hok : (router.insert fxhash fates collection records).1 = .ok n) :
    n = UInt32.ofNat records.length := by
  refine writeGroups_count ?_ hok
  intro s shard response hresponse
  obtain ⟨_, _, _, _, _, hanswer, _⟩ := Shard.call_write_of_ok (fun _ _ => rfl) hresponse
  rw [hanswer]

/-- Only addressed shards have a serving leader. -/
theorem share_ne_nil_of_servingLeader {fxhash : UInt64 → UInt64} {router : ShardRouter F}
    {fates : ℕ → ℕ → ℕ → AttemptFate (RaftFate F)} {collection : String}
    {records : List (VectorRecord F)} {s : ℕ} {machine : ShardStateMachine F}
    (h : router.servingLeader fxhash fates collection records s = some machine) :
    router.share fxhash records VectorRecord.id s ≠ [] ∧ s < router.shards.length := by
  by_cases hshare : router.share fxhash records VectorRecord.id s = []
  · simp [servingLeader, hshare] at h
  · simp only [servingLeader, List.isEmpty_iff, hshare, if_false] at h
    obtain ⟨shard, hshard, _⟩ := Option.bind_eq_some_iff.mp h
    exact ⟨hshare, (List.getElem?_eq_some_iff.mp hshard).1⟩

/-- After an acknowledged insert, every last record is held exactly when every addressed leader takes its share. -/
theorem stored_iff_leaders_take {fxhash : UInt64 → UInt64} {router : ShardRouter F}
    {fates : ℕ → ℕ → ℕ → AttemptFate (RaftFate F)} {collection : String}
    {records : List (VectorRecord F)} {n : UInt32}
    (hok : (router.insert fxhash fates collection records).1 = .ok n) :
    (∀ id record, lastRecord records id = some record →
        ∃ shard, (router.insert fxhash fates collection records).2.shards[router.owner fxhash id]? =
            some shard ∧
          shard.leader.machine.store.version collection id = some (StoredVector.ofRecord record)) ↔
      ∀ s machine, router.servingLeader fxhash fates collection records s = some machine →
        machine.store.Takes collection (router.share fxhash records VectorRecord.id s) := by
  constructor
  · intro hheld s machine hserving
    obtain ⟨hshare, hs⟩ := share_ne_nil_of_servingLeader hserving
    obtain ⟨shard, leading, hshard, hleading, hiff⟩ := insert_share_held_iff hok hs hshare
    rw [hserving, Option.some.injEq] at hleading
    rw [hleading]
    apply hiff.mp
    intro id record hlast
    rw [lastRecord_share] at hlast
    by_cases howner : router.owner fxhash id = s
    · rw [if_pos howner] at hlast
      obtain ⟨holder, hholder, hversion⟩ := hheld id record hlast
      rw [howner, hshard, Option.some.injEq] at hholder
      rw [hholder]
      exact hversion
    · rw [if_neg howner] at hlast
      cases hlast
  · intro htakes id record hlast
    have hlastShare : lastRecord (router.share fxhash records VectorRecord.id (router.owner fxhash id)) id =
        some record := by
      rw [lastRecord_share, if_pos rfl, hlast]
    have hshare : router.share fxhash records VectorRecord.id (router.owner fxhash id) ≠ [] := by
      intro hnil
      rw [hnil] at hlastShare
      cases hlastShare
    obtain ⟨shard, machine, hshard, hserving, hiff⟩ :=
      insert_share_held_iff hok (router.owner_lt fxhash id) hshare
    exact ⟨shard, hshard, hiff.mpr (htakes _ machine hserving) id record hlastShare⟩

/-- An acknowledged insert is stored exactly when it is countable and every leader takes its share.

The first part is about one replica's service, the second about the router over any
number of shards, replicas, attempts and concurrently committed entries. -/
theorem acknowledged_insert_stored_iff :
    (∀ (fate : RaftFate F) (idx : ℕ) (req : InsertRequest F) (group after : ShardGroup F) (n : UInt32),
      NodeService.insert (ShardGroup.clientWrite fate idx) req group = (.ok ⟨n, ""⟩, after) →
      ((n.toNat = req.records.length ∧
          (after.replicas idx).machine.store.Holds req.collection req.records) ↔
        req.records.length < 2 ^ 32 ∧ ∀ others logId, fate = .committed others logId →
          (group.leaderMachine others idx).store.Takes req.collection req.records)) ∧
    ∀ (fxhash : UInt64 → UInt64) (router : ShardRouter F)
      (fates : ℕ → ℕ → ℕ → AttemptFate (RaftFate F)) (collection : String)
      (records : List (VectorRecord F)) (n : UInt32),
      (router.insert fxhash fates collection records).1 = .ok n →
      ((n.toNat = records.length ∧ ∀ id record, lastRecord records id = some record →
          ∃ shard, (router.insert fxhash fates collection records).2.shards[router.owner fxhash id]? =
              some shard ∧
            shard.leader.machine.store.version collection id = some (StoredVector.ofRecord record)) ↔
        records.length < 2 ^ 32 ∧ ∀ s machine,
          router.servingLeader fxhash fates collection records s = some machine →
          machine.store.Takes collection (router.share fxhash records VectorRecord.id s)) := by
  refine ⟨fun fate idx req group after n hok => NodeService.insert_stored_iff hok, ?_⟩
  intro fxhash router fates collection records n hok
  rw [insert_count hok, toNat_ofNat_eq_iff]
  exact and_congr_right fun _ => stored_iff_leaders_take hok

/-- The law for two shards and a batch that repeats an id. -/
theorem acknowledged_insert_stored_docs :
    let shard : Shard ℤ := ⟨⟨["http://a", "http://b"], by decide, 0⟩, ShardGroup.fresh ℤ UInt64.ofNat⟩
    let fates : ℕ → ℕ → ℕ → AttemptFate (RaftFate ℤ) := fun _ n _ =>
      if n = 0 then .hung else .reached (.committed [] ⟨⟨1, 1⟩, 0⟩) false
    let router := ((⟨[shard, shard], by decide, by decide⟩ : ShardRouter ℤ).createCollection
      (fun _ _ => .delivered) "docs" 1).2
    let records : List (VectorRecord ℤ) := [⟨1, [3], ∅⟩, ⟨3, [5], ∅⟩, ⟨4, [7], ∅⟩, ⟨1, [-4], ∅⟩]
    (router.insert fxHasher fates "docs" records).1 = .ok 4 ∧
      ∀ id record, lastRecord records id = some record →
        ∃ shard, (router.insert fxHasher fates "docs" records).2.shards[router.owner fxHasher id]? = some shard ∧
          shard.leader.machine.store.version "docs" id = some (StoredVector.ofRecord record) := by
  intro shard fates router records
  have hok : (router.insert fxHasher fates "docs" records).1 = .ok 4 := by decide +kernel
  refine ⟨hok, ((acknowledged_insert_stored_iff.2 fxHasher router fates "docs" records 4 hok).mpr
    ⟨by decide, ?_⟩).2⟩
  have hleaders : ∀ s < 2, ∀ machine ∈ router.servingLeader fxHasher fates "docs" records s,
      machine.store.collections["docs"]? = some ⟨1, 2, ∅⟩ := by
    decide +kernel
  intro s machine hserving
  have hs : s < 2 := (share_ne_nil_of_servingLeader hserving).2
  refine Or.inl ⟨⟨1, 2, ∅⟩, hleaders s hs machine hserving, ?_⟩
  have hadmits : ∀ record ∈ records, record.embedding.length = 1 := by decide
  exact fun record hrecord => hadmits record (List.mem_of_mem_filter hrecord)

/-- An insert into a collection nobody created is acknowledged and stored nowhere. -/
theorem acknowledged_insert_lost :
    let shard : Shard ℤ := ⟨⟨["http://a"], by decide, 0⟩, ShardGroup.fresh ℤ fun _ => 1⟩
    let fates : ℕ → ℕ → ℕ → AttemptFate (RaftFate ℤ) := fun _ _ _ => .reached (.committed [] ⟨⟨1, 1⟩, 0⟩) false
    let router : ShardRouter ℤ := ⟨[shard], by decide, by decide⟩
    (router.insert fxHasher fates "docs" [⟨7, [3], ∅⟩]).1 = .ok 1 ∧
      ∀ shard ∈ (router.insert fxHasher fates "docs" [⟨7, [3], ∅⟩]).2.shards,
        shard.leader.machine.store.version "docs" 7 = none := by
  decide

end ShardRouter

end RaftVec
