import RaftVec.Aggregator.AllOrNothing
import RaftVec.Aggregator.Service

/-!
# Retrying a creation

A creation that failed halfway can only be sent again. A replica keeps the first creation of a
name that reaches it and refuses the later ones, so what it holds is told by the first attempt
that reached it. An attempt is acknowledged only if no attempt before it reached any replica.
A retry that reaches all replicas completes the collection and is nevertheless reported as a
failure, because the name exists.
-/

namespace RaftVec

open Run

variable {F : Type*}

/-- Joining answers that are `Ok` or one and the same error gives `Ok` or that error. -/
theorem joinCreates_eq_of_one_error {results : List (Except Status CreateCollectionResponse)} {status : Status}
    (h : ∀ result ∈ results, (∃ response, result = .ok response) ∨ result = .error status) :
    joinCreates results = .ok () ∨ joinCreates results = .error (.rpc status) := by
  induction results with
  | nil => exact Or.inl rfl
  | cons result results ih =>
    cases h result List.mem_cons_self with
    | inl hok =>
      obtain ⟨response, rfl⟩ := hok
      exact ih fun later hlater => h later (List.mem_cons_of_mem _ hlater)
    | inr herror =>
      subst herror
      exact Or.inr rfl

namespace CreateFate

instance : DecidablePred Arrives
  | .delivered => isTrue (by simp [Arrives])
  | .replyLost _ => isTrue (by simp [Arrives])
  | .undelivered status => isFalse fun h => h status rfl

/-- A request that arrives leaves its collection unless the name is taken. -/
theorem outcome_collections (fate : CreateFate) (machine : ShardStateMachine F) (req : CreateCollectionRequest)
    (name : String) :
    (fate.outcome machine req).2.store.collections[name]? =
      machine.store.collections[name]?.or
        (if req.name = name ∧ fate.Arrives then some ⟨req.dim.toNat, max req.shardCount 1, ∅⟩ else none) := by
  have hcreated : (NodeService.createCollection machine.store req).2.collections[name]? =
      machine.store.collections[name]?.or
        (if req.name = name then some ⟨req.dim.toNat, max req.shardCount 1, ∅⟩ else none) := by
    rw [(NodeService.createCollection_store machine.store req).1, Store.createCollection_collections]
    split
    · rfl
    · rw [Option.or_none]
  cases fate with
  | delivered => simpa [outcome, Arrives] using hcreated
  | replyLost status => simpa [outcome, Arrives] using hcreated
  | undelivered status => simp [outcome, Arrives]

/-- A request that is delivered is accepted or told that the name exists. -/
theorem outcome_delivered (machine : ShardStateMachine F) (req : CreateCollectionRequest) :
    (∃ response, (delivered.outcome machine req).1 = .ok response) ∨
      (delivered.outcome machine req).1 = .error (StoreError.collectionExists req.name).toStatus := by
  change (∃ response, (NodeService.createCollection machine.store req).1 = _) ∨
    (NodeService.createCollection machine.store req).1 = _
  by_cases hmem : req.name ∈ machine.store.collections
  · right
    rw [NodeService.createCollection, Store.createCollection, if_pos hmem]
  · left
    rw [NodeService.createCollection, Store.createCollection, if_neg hmem]
    exact ⟨_, rfl⟩

end CreateFate

namespace ShardRouter

/-- A creation keeps the replicas where they are. -/
theorem places_createCollection (self : ShardRouter F) (fates : ℕ → ℕ → CreateFate) (name : String)
    (dim : UInt32) : (self.createCollection fates name dim).2.places = self.places := by
  change ((self.shards.mapIdx _).mapIdx _).flatten = _
  rw [List.mapIdx_mapIdx]
  rfl

/-- A creation keeps the number of shards. -/
theorem shardCount_createCollection (self : ShardRouter F) (fates : ℕ → ℕ → CreateFate) (name : String)
    (dim : UInt32) : (self.createCollection fates name dim).2.shardCount = self.shardCount := by
  change UInt32.ofNat (self.shards.mapIdx _).length = _
  rw [List.length_mapIdx]
  rfl

/-- A creation leaves its collection wherever it arrives and the name is not taken. -/
theorem collections_createCollection (self : ShardRouter F) (fates : ℕ → ℕ → CreateFate) (name : String)
    (dim : UInt32) {p : Place} (hp : p ∈ self.places) (other : String) :
    ((self.createCollection fates name dim).2.storeAt p).collections[other]? =
      (self.storeAt p).collections[other]?.or
        (if name = other ∧ (fates p.1 p.2).Arrives then some ⟨dim.toNat, self.shardCount, ∅⟩ else none) := by
  rw [self.storeAt_createCollection fates name dim hp, CreateFate.outcome_collections, max_shardCount_one]
  rfl

/-- A creation whose requests are all delivered is accepted or told that the name exists. -/
theorem createCollection_of_delivered (self : ShardRouter F) {fates : ℕ → ℕ → CreateFate}
    (name : String) (dim : UInt32) (h : ∀ p ∈ self.places, fates p.1 p.2 = .delivered) :
    (self.createCollection fates name dim).1 = .ok () ∨
      (self.createCollection fates name dim).1 =
        .error (.rpc (StoreError.collectionExists name).toStatus) := by
  rw [self.createCollection_joined Unit]
  apply joinCreates_eq_of_one_error
  rw [List.forall_mem_map]
  intro p hp
  rw [h p hp]
  exact CreateFate.outcome_delivered _ _

end ShardRouter

/-- A creation a client sends to the aggregator, and what becomes of its requests. -/
structure CreateAttempt where
  fates : ℕ → ℕ → CreateFate
  req : CreateCollectionRequest

namespace CreateAttempt

/-- The attempt brings a name to the replica at a place. -/
def Reaches (self : CreateAttempt) (name : String) (p : Place) : Prop :=
  self.req.name = name ∧ (self.fates p.1 p.2).Arrives

instance (self : CreateAttempt) (name : String) (p : Place) : Decidable (self.Reaches name p) :=
  inferInstanceAs (Decidable (_ ∧ _))

/-- The collection a replica creates: the shard count is the router's, not the client's. -/
def created (F : Type*) (shardCount : UInt32) (self : CreateAttempt) : Collection F :=
  ⟨self.req.dim.toNat, shardCount, ∅⟩

/-- The first of some attempts that brings a name to a place. -/
def first (attempts : List CreateAttempt) (name : String) (p : Place) : Option CreateAttempt :=
  attempts.find? fun attempt => attempt.Reaches name p

/-- The first of some attempts is the one at the head if it reaches the place. -/
theorem first_cons (attempt : CreateAttempt) (attempts : List CreateAttempt) (name : String) (p : Place) :
    first (attempt :: attempts) name p =
      (if attempt.Reaches name p then some attempt else none).or (first attempts name p) := by
  rw [first, List.find?_cons]
  by_cases hreach : attempt.Reaches name p <;> simp [hreach, first]

/-- No attempt is the first exactly when none reaches the place. -/
theorem first_eq_none_iff {attempts : List CreateAttempt} {name : String} {p : Place} :
    first attempts name p = none ↔ ∀ attempt ∈ attempts, ¬ attempt.Reaches name p := by
  simp [first]

/-- The router after one attempt. -/
def next (router : ShardRouter F) (self : CreateAttempt) : ShardRouter F :=
  (AggregatorService.createCollection self.fates self.req router).2

/-- An attempt keeps the replicas where they are. -/
theorem places_next (router : ShardRouter F) (self : CreateAttempt) : (self.next router).places = router.places :=
  router.places_createCollection self.fates self.req.name self.req.dim

/-- An attempt keeps the number of shards. -/
theorem shardCount_next (router : ShardRouter F) (self : CreateAttempt) :
    (self.next router).shardCount = router.shardCount :=
  router.shardCount_createCollection self.fates self.req.name self.req.dim

/-- An attempt leaves its collection at the places it reaches where the name is free. -/
theorem collections_next (router : ShardRouter F) (self : CreateAttempt) {p : Place} (hp : p ∈ router.places)
    (name : String) :
    ((self.next router).storeAt p).collections[name]? = (router.storeAt p).collections[name]?.or
      ((if self.Reaches name p then some self else none).map (created F router.shardCount)) := by
  refine (router.collections_createCollection self.fates self.req.name self.req.dim hp name).trans ?_
  change Option.or _ (if self.Reaches name p then _ else _) = _
  by_cases hreach : self.Reaches name p
  · rw [if_pos hreach, if_pos hreach]
    rfl
  · rw [if_neg hreach, if_neg hreach]
    rfl

/-- Attempts keep the replicas where they are. -/
theorem run_next_places (router : ShardRouter F) (attempts : List CreateAttempt) :
    (run next router attempts).places = router.places := by
  induction attempts generalizing router with
  | nil => rfl
  | cons attempt attempts ih => exact (ih _).trans (places_next router attempt)

/-- What a replica had stays, and a free name is left to the first attempt that reaches it. -/
theorem run_next_collections (router : ShardRouter F) (attempts : List CreateAttempt) {p : Place}
    (hp : p ∈ router.places) (name : String) :
    ((run next router attempts).storeAt p).collections[name]? =
      (router.storeAt p).collections[name]?.or
        ((first attempts name p).map (created F router.shardCount)) := by
  induction attempts generalizing router with
  | nil => exact Option.or_none.symm
  | cons attempt attempts ih =>
    have hrest := ih (attempt.next router) ((places_next router attempt).symm ▸ hp)
    rw [run_cons, hrest, collections_next router attempt hp, shardCount_next, first_cons, Option.map_or,
      Option.or_assoc]

/-- Once an attempt arrives, a name that was free is held as that attempt asked, if all attempts
before it asked for the same dimension. -/
theorem run_next_completed {router : ShardRouter F} {attempts : List CreateAttempt} {last : CreateAttempt}
    {p : Place} (hp : p ∈ router.places) (hfree : (router.storeAt p).collections[last.req.name]? = none)
    (harrives : (last.fates p.1 p.2).Arrives)
    (hdim : ∀ earlier ∈ attempts, earlier.req.name = last.req.name → earlier.req.dim = last.req.dim) :
    ((run next router (attempts ++ [last])).storeAt p).collections[last.req.name]? =
      some (last.created F router.shardCount) := by
  rw [run_next_collections router (attempts ++ [last]) hp, hfree, Option.none_or]
  cases hfirst : first (attempts ++ [last]) last.req.name p with
  | none => exact absurd ⟨rfl, harrives⟩ (first_eq_none_iff.mp hfirst last (by simp))
  | some winner =>
    have hreach : winner.Reaches last.req.name p := by simpa using List.find?_some hfirst
    have hsame : winner.req.dim = last.req.dim := by
      cases List.mem_append.mp (List.mem_of_find?_eq_some hfirst) with
      | inl hearlier => exact hdim winner hearlier hreach.1
      | inr hlast => rw [List.mem_singleton.mp hlast]
    rw [Option.map_some, created, created, hsame]

end CreateAttempt

namespace AggregatorService

open CreateAttempt

/-- The aggregator says `Ok` exactly when the router does. -/
theorem createCollection_ok_iff_router (fates : ℕ → ℕ → CreateFate) (req : CreateCollectionRequest)
    (router : ShardRouter F) :
    (createCollection fates req router).1 = .ok ⟨true⟩ ↔
      (router.createCollection fates req.name req.dim).1 = .ok () := by
  rw [createCollection]
  cases (router.createCollection fates req.name req.dim).1 <;> simp [Except.mapError, Except.map]

/-- A creation whose requests are all delivered is acknowledged or told that the name exists. -/
theorem createCollection_delivered {fates : ℕ → ℕ → CreateFate} (req : CreateCollectionRequest)
    {router : ShardRouter F} (h : ∀ p ∈ router.places, fates p.1 p.2 = .delivered) :
    (createCollection fates req router).1 = .ok ⟨true⟩ ∨
      (createCollection fates req router).1 =
        .error ⟨.alreadyExists, s!"collection '{req.name}' already exists"⟩ := by
  cases router.createCollection_of_delivered req.name req.dim h with
  | inl hok => exact Or.inl ((createCollection_ok_iff_router _ _ _).mpr hok)
  | inr herror =>
    right
    change ((router.createCollection _ _ _).1.mapError _).map _ = _
    rw [herror]
    rfl

/-- Creations sent one after the other, whatever becomes of their requests.

Every replica keeps what it had and gives each free name to the first attempt that reached it.
An attempt is acknowledged exactly when all its requests are delivered and its name is free
and reached no replica before. If all its requests are delivered it fails only because the
name exists, and it leaves the collection on every replica, in one shape if all attempts for
the name asked for one dimension. -/
theorem creations_account (router : ShardRouter F) (attempts : List CreateAttempt) (last : CreateAttempt) :
    let before := run next router attempts
    let answer := (createCollection last.fates last.req before).1
    (∀ p ∈ router.places, ∀ name, (before.storeAt p).collections[name]? =
        (router.storeAt p).collections[name]?.or
          ((first attempts name p).map (created F router.shardCount))) ∧
      (answer = .ok ⟨true⟩ ↔ ∀ p ∈ router.places, last.fates p.1 p.2 = .delivered ∧
        (router.storeAt p).collections[last.req.name]? = none ∧
        ∀ earlier ∈ attempts, ¬ earlier.Reaches last.req.name p) ∧
      ((∀ p ∈ router.places, last.fates p.1 p.2 = .delivered) →
        (answer = .ok ⟨true⟩ ∨
          answer = .error ⟨.alreadyExists, s!"collection '{last.req.name}' already exists"⟩) ∧
        ((∀ p ∈ router.places, (router.storeAt p).collections[last.req.name]? = none) →
          (∀ earlier ∈ attempts, earlier.req.name = last.req.name → earlier.req.dim = last.req.dim) →
          ∀ p ∈ router.places, ((last.next before).storeAt p).collections[last.req.name]? =
            some (last.created F router.shardCount))) := by
  intro before answer
  have hplaces : before.places = router.places := run_next_places router attempts
  refine ⟨fun p hp name => run_next_collections router attempts hp name, ?_, ?_⟩
  · rw [createCollection_ok_iff_router, ShardRouter.createCollection_ok_iff, hplaces]
    refine forall_congr' fun p => forall_congr' fun hp => and_congr_right fun _ => ?_
    rw [Store.shape, Option.map_eq_none_iff, run_next_collections router attempts hp, Option.or_eq_none_iff,
      Option.map_eq_none_iff, first_eq_none_iff]
  · intro hdelivered
    refine ⟨createCollection_delivered last.req (hplaces.symm ▸ hdelivered), ?_⟩
    intro hfree hdim p hp
    have harrives : (last.fates p.1 p.2).Arrives := by
      simp [CreateFate.Arrives, hdelivered p hp]
    have hdone := run_next_completed hp (hfree p hp) harrives hdim
    rw [run_append] at hdone
    exact hdone

/-- The first attempt misses one of two replicas; the second heals it and is told that the name exists. -/
example :
    let shard : Shard ℤ := ⟨⟨["http://a", "http://b"], by decide, 0⟩, ShardGroup.fresh ℤ fun _ => 1⟩
    let router : ShardRouter ℤ := ⟨[shard], by decide, by decide⟩
    let lost : CreateFate := .undelivered ⟨.unavailable, "connection refused"⟩
    let half : CreateAttempt := ⟨fun _ idx => if idx = 0 then .delivered else lost, ⟨"docs", 2, 9⟩⟩
    let again : CreateAttempt := ⟨fun _ _ => .delivered, ⟨"docs", 2, 9⟩⟩
    ((half.next router).storeAt (0, 1)).shape "docs" = none ∧
      (createCollection again.fates again.req (half.next router)).1 =
        .error ⟨.alreadyExists, "collection 'docs' already exists"⟩ ∧
      ((again.next (half.next router)).storeAt (0, 1)).shape "docs" = some (2, 1) := by
  decide

end AggregatorService

end RaftVec
