import RaftVec.Aggregator.FanOut

/-!
# A creation that fails halfway

The router sends all requests before it looks at any answer, and a replica that created
the collection keeps it whatever the others did. A failed call therefore leaves nothing
behind only if no replica that it reached was free to create the collection.
-/

namespace RaftVec

open Std

variable {F : Type*}

namespace CreateFate

/-- The request arrived, whether or not its answer did. -/
def Arrives (fate : CreateFate) : Prop := ∀ status, fate ≠ .undelivered status

/-- A replica says `Ok` exactly when the request and the answer arrive and the name is free. -/
theorem outcome_ok_iff (fate : CreateFate) (machine : ShardStateMachine F) (req : CreateCollectionRequest) :
    (∃ response, (fate.outcome machine req).1 = .ok response) ↔
      fate = .delivered ∧ machine.store.shape req.name = none := by
  cases fate with
  | delivered =>
    rw [and_iff_right rfl]
    exact (NodeService.createCollection_store machine.store req).2
  | replyLost status => simp [outcome]
  | undelivered status => simp [outcome]

/-- A replica's store is kept exactly when the request does not arrive or the name is taken. -/
theorem outcome_store_eq_iff (fate : CreateFate) (machine : ShardStateMachine F)
    (req : CreateCollectionRequest) :
    (fate.outcome machine req).2.store = machine.store ↔
      ¬ (fate.Arrives ∧ machine.store.shape req.name = none) := by
  have hcreated : (NodeService.createCollection machine.store req).2 = machine.store ↔
      machine.store.shape req.name ≠ none := by
    rw [(NodeService.createCollection_store machine.store req).1]
    constructor
    · intro hsame hfree
      have hshape := machine.store.createCollection_shape req.name req.dim.toNat req.shardCount req.name
      rw [hsame, if_pos rfl, hfree, Option.none_or] at hshape
      cases hshape
    · intro htaken
      have hmem : req.name ∈ machine.store.collections := by
        by_contra habsent
        exact htaken (by rw [Store.shape, ExtTreeMap.getElem?_eq_none habsent, Option.map_none])
      rw [Store.createCollection, if_pos hmem]
  cases fate with
  | delivered => simpa [outcome, Arrives] using hcreated
  | replyLost status => simpa [outcome, Arrives] using hcreated
  | undelivered status => simp [outcome, Arrives]

/-- A replica that says `Ok` holds the collection fresh and empty. -/
theorem collection_of_outcome_ok {fate : CreateFate} {machine : ShardStateMachine F}
    (req : CreateCollectionRequest) (hfate : fate = .delivered)
    (hfree : machine.store.shape req.name = none) :
    (fate.outcome machine req).2.store.collections[req.name]? =
      some ⟨req.dim.toNat, max req.shardCount 1, ∅⟩ := by
  subst hfate
  rw [Store.shape, Option.map_eq_none_iff] at hfree
  change (NodeService.createCollection machine.store req).2.collections[req.name]? = _
  rw [(NodeService.createCollection_store machine.store req).1, Store.createCollection_collections,
    if_pos rfl, hfree, Option.none_or]

end CreateFate

namespace ShardRouter

/-- The store of the replica at a place. -/
def storeAt (self : ShardRouter F) (p : Place) : Store F := ((self.fleet Unit).machines p).store

/-- There is at least one shard, so the count needs no correction. -/
theorem max_shardCount_one (self : ShardRouter F) : max self.shardCount 1 = self.shardCount := by
  have hpos := self.shardCount_pos
  rw [UInt32.lt_iff_toNat_lt] at hpos
  change (if self.shardCount ≤ 1 then 1 else self.shardCount) = self.shardCount
  split
  · next hle =>
    rw [UInt32.le_iff_toNat_le] at hle
    apply UInt32.toNat_inj.mp
    have hone : (1 : UInt32).toNat = 1 := rfl
    have hzero : (0 : UInt32).toNat = 0 := rfl
    omega
  · rfl

/-- A creation is acknowledged exactly when every request and answer arrives and the name is free everywhere. -/
theorem createCollection_ok_iff (self : ShardRouter F) (fates : ℕ → ℕ → CreateFate) (name : String)
    (dim : UInt32) :
    (self.createCollection fates name dim).1 = .ok () ↔
      ∀ p ∈ self.places, fates p.1 p.2 = .delivered ∧ (self.storeAt p).shape name = none := by
  rw [self.createCollection_joined Unit, joinCreates_ok_iff, List.forall_mem_map]
  refine forall_congr' fun p => forall_congr' fun _ => ?_
  rw [CreateFate.outcome_ok_iff]
  rfl

/-- After a creation a replica's store is what the fate of its request made of it. -/
theorem storeAt_createCollection (self : ShardRouter F) (fates : ℕ → ℕ → CreateFate) (name : String)
    (dim : UInt32) {p : Place} (hp : p ∈ self.places) :
    (self.createCollection fates name dim).2.storeAt p =
      ((fates p.1 p.2).outcome ((self.fleet Unit).machines p) ⟨name, dim, self.shardCount⟩).2.store :=
  congrArg ShardStateMachine.store (self.createCollection_machines Unit fates name dim hp)

/-- A replica's store survives a creation exactly when it holds the name or is not reached. -/
theorem storeAt_createCollection_eq_iff (self : ShardRouter F) (fates : ℕ → ℕ → CreateFate) (name : String)
    (dim : UInt32) {p : Place} (hp : p ∈ self.places) :
    (self.createCollection fates name dim).2.storeAt p = self.storeAt p ↔
      ((fates p.1 p.2).Arrives → (self.storeAt p).shape name ≠ none) := by
  rw [self.storeAt_createCollection fates name dim hp, storeAt, CreateFate.outcome_store_eq_iff, not_and]

/-- A creation leaves everything as it was or everything created exactly when it is
acknowledged everywhere or every replica that it reaches holds the name already. -/
theorem createCollection_all_or_nothing_iff (self : ShardRouter F) (fates : ℕ → ℕ → CreateFate)
    (name : String) (dim : UInt32) :
    (((∃ e, (self.createCollection fates name dim).1 = .error e) →
        ∀ p ∈ self.places, (self.createCollection fates name dim).2.storeAt p = self.storeAt p) ∧
      ((self.createCollection fates name dim).1 = .ok () →
        ∀ p ∈ self.places, ((self.createCollection fates name dim).2.storeAt p).collections[name]? =
          some ⟨dim.toNat, self.shardCount, ∅⟩)) ↔
      (∀ p ∈ self.places, fates p.1 p.2 = .delivered ∧ (self.storeAt p).shape name = none) ∨
        ∀ p ∈ self.places, (fates p.1 p.2).Arrives → (self.storeAt p).shape name ≠ none := by
  have hok := self.createCollection_ok_iff fates name dim
  constructor
  · intro h
    by_cases hall : (self.createCollection fates name dim).1 = .ok ()
    · exact Or.inl (hok.mp hall)
    · right
      have herr : ∃ e, (self.createCollection fates name dim).1 = .error e := by
        cases hresult : (self.createCollection fates name dim).1 with
        | error e => exact ⟨e, rfl⟩
        | ok _ => exact absurd hresult hall
      intro p hp
      exact (self.storeAt_createCollection_eq_iff fates name dim hp).mp (h.1 herr p hp)
  · intro h
    refine ⟨?_, ?_⟩
    · intro herr p hp
      obtain ⟨e, he⟩ := herr
      cases h with
      | inl hall =>
        rw [hok.mpr hall] at he
        cases he
      | inr htaken => exact (self.storeAt_createCollection_eq_iff fates name dim hp).mpr (htaken p hp)
    · intro hresult p hp
      obtain ⟨hfate, hfree⟩ := hok.mp hresult p hp
      rw [self.storeAt_createCollection fates name dim hp]
      have hfresh := CreateFate.collection_of_outcome_ok ⟨name, dim, self.shardCount⟩ hfate hfree
      rw [max_shardCount_one] at hfresh
      exact hfresh

/-- One of two replicas is not reached: the call fails and the other keeps the collection. -/
theorem createCollection_half_created :
    let shard : Shard ℤ := ⟨⟨["http://a", "http://b"], by decide, 0⟩, ShardGroup.fresh ℤ fun _ => 1⟩
    let router : ShardRouter ℤ := ⟨[shard], by decide, by decide⟩
    let fates : ℕ → ℕ → CreateFate :=
      fun _ idx => if idx = 0 then .delivered else .undelivered ⟨.unavailable, "connection refused"⟩
    (router.createCollection fates "docs" 2).1 = .error (.rpc ⟨.unavailable, "connection refused"⟩) ∧
      (router.storeAt (0, 0)).shape "docs" = none ∧
      ((router.createCollection fates "docs" 2).2.storeAt (0, 0)).shape "docs" = some (2, 1) := by
  decide

end ShardRouter

end RaftVec
