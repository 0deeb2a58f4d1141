import RaftVec.Aggregator.Refinement
import RaftVec.Aggregator.Service

/-!
# Aggregators keep no state that matters

All an aggregator holds between requests is a guess at the leader of every shard. Any number
of aggregators may stand in front of the same replicas, each with its own guesses, and any of
them may be killed and restarted: what the replicas hold is told by the calls alone, and a
search finds the same through each of them.

Two searches may still lose different shards. The one that loses more begins with the hits of
the other whose shards it did not lose, in the same order, and only then goes on to hits that
the other had no room for.
-/

namespace RaftVec

open Selection

variable {F : Type*}

/-! ## Losing more shards -/

section Hits

variable [FloatOps F]

/-- The scored ids of the records that satisfy a condition. -/
theorem scoredIds_scannedWhere (query : List F) (coll : Collection F) (p : UInt64 → Bool) :
    scoredIds query (coll.scannedWhere p) = (scoredIds query coll.scanned).filter fun hit => p hit.id = true := by
  rw [scoredIds, scoredIds, Multiset.filter_coe, List.filter_map, Collection.scannedWhere]
  simp only [Bool.decide_eq_true]
  rfl

/-- The hits of a slice begin with those hits of a larger slice that belong to it. -/
theorem filter_sliceHits_begins [LinearOrder F] (single : Store F) (coll : Collection F) (req : SearchRequest F)
    {p q : UInt64 → Bool} (h : ∀ id, q id = true → p id = true) :
    (sliceHits single coll req p).filter (fun hit => q hit.id) <+: sliceHits single coll req q := by
  have hsmaller : (scoredIds req.queryVector (coll.scannedWhere p)).filter (fun hit => q hit.id = true) =
      scoredIds req.queryVector (coll.scannedWhere q) := by
    rw [scoredIds_scannedWhere, scoredIds_scannedWhere, Multiset.filter_filter]
    apply Multiset.filter_congr
    intro hit _
    exact and_iff_left_of_imp (h hit.id)
  rw [sliceHits, sliceHits, List.filter_map, ← hsmaller]
  exact (filter_greatest_begins (fun hit : ScoredId F => q hit.id) _ _).map _

end Hits

namespace Mirrored

variable [FloatOps F]

/-- Whether the cluster is in slices depends on the replicas and not on the router's guesses. -/
theorem Refines.of_groups {fxhash : UInt64 → UInt64} {leads : ℕ → ℕ → Prop} {router : ShardRouter F}
    {mirrored other : Mirrored F} (h : mirrored.Refines fxhash leads router)
    (hsingle : other.single = mirrored.single)
    (hgroups : other.router.shards.map Shard.group = mirrored.router.shards.map Shard.group) :
    other.Refines fxhash leads router := by
  have hlength : other.router.shards.length = mirrored.router.shards.length := by
    simpa using congrArg List.length hgroups
  refine ⟨hlength.trans h.length_eq, hsingle ▸ h.wellFormed, ?_⟩
  intro s shard hshard
  have hgroup : (mirrored.router.shards.map Shard.group)[s]? = some shard.group := by
    rw [← hgroups, List.getElem?_map, hshard]
    rfl
  rw [List.getElem?_map, Option.map_eq_some_iff] at hgroup
  obtain ⟨same, hsame, hgroup⟩ := hgroup
  rw [hsingle, ← hgroup]
  exact h.sliced s same hsame

/-- A call keeps the number of shards. -/
theorem length_step (fxhash : UInt64 → UInt64) (mirrored : Mirrored F) (call : RouterCall F) :
    (mirrored.step fxhash call).router.shards.length = mirrored.router.shards.length := by
  cases call with
  | createCollection fates name dim =>
    exact List.length_mapIdx
  | insert fates collection records => exact List.length_mapIdx
  | delete fates collection ids => exact List.length_mapIdx

end Mirrored

/-! ## Several aggregators -/

/-- The replicas of one shard, and what every aggregator knows about them. -/
structure DeployedShard (F : Type*) where
  group : ShardGroup F
  replicaSets : ℕ → ShardReplicaSet

/-- Aggregators in front of the same shards. -/
structure Deployment (F : Type*) where
  shards : List (DeployedShard F)
  shards_pos : 0 < shards.length
  shards_lt : shards.length < 2 ^ 32

namespace Deployment

/-- The router of one aggregator. -/
def router (self : Deployment F) (a : ℕ) : ShardRouter F :=
  ⟨self.shards.map fun shard => ⟨shard.replicaSets a, shard.group⟩, by simpa using self.shards_pos,
    by simpa using self.shards_lt⟩

/-- Every shard is changed on its own. -/
def mapShards (self : Deployment F) (f : ℕ → DeployedShard F → DeployedShard F) : Deployment F :=
  ⟨self.shards.mapIdx f, by simpa using self.shards_pos, by simpa using self.shards_lt⟩

/-- A call of one aggregator is done: it has its guesses, and the replicas are as the call left them. -/
def adopt (self : Deployment F) (a : ℕ) (router : ShardRouter F) : Deployment F :=
  self.mapShards fun s shard =>
    match router.shards[s]? with
    | none => shard
    | some after => ⟨after.group, Function.update shard.replicaSets a after.replicaSet⟩

/-- The guesses of one aggregator become others. -/
def guess (self : Deployment F) (a : ℕ) (hints : ℕ → ℕ) : Deployment F :=
  self.mapShards fun s shard =>
    { shard with
      replicaSets := Function.update shard.replicaSets a { shard.replicaSets a with leaderHint := hints s } }

/-- The replicas of all shards. -/
def groups (self : Deployment F) : List (ShardGroup F) := self.shards.map DeployedShard.group

/-- All aggregators have the same replicas behind them. -/
theorem groups_router (self : Deployment F) (a : ℕ) : (self.router a).shards.map Shard.group = self.groups := by
  rw [router, List.map_map]
  rfl

/-- After a call the replicas are as the call left them. -/
theorem groups_adopt {self : Deployment F} {router : ShardRouter F}
    (h : router.shards.length = self.shards.length) (a : ℕ) :
    (self.adopt a router).groups = router.shards.map Shard.group := by
  apply List.ext_getElem
  · simp [groups, adopt, mapShards, h]
  · intro s hs _
    have hlt : s < router.shards.length := by simpa [groups, adopt, mapShards, h] using hs
    have hafter : router.shards[s]? = some router.shards[s] := List.getElem?_eq_getElem hlt
    simp [groups, adopt, mapShards, hafter]

/-- Guesses do not touch the replicas. -/
theorem groups_guess (self : Deployment F) (a : ℕ) (hints : ℕ → ℕ) : (self.guess a hints).groups = self.groups := by
  apply List.ext_getElem
  · simp [groups, guess, mapShards]
  · intro s _ _
    simp [groups, guess, mapShards]

end Deployment

/-- Something that happens at one aggregator: a call, or its guesses change. A restart sets them
to zero; a search, also one that is given up, may leave any. -/
inductive AggregatorEvent (F : Type*) where
  | call (a : ℕ) (call : RouterCall F)
  | guess (a : ℕ) (hints : ℕ → ℕ)

/-- The deployment, and a store that executes every call whole. -/
structure MirroredDeployment (F : Type*) where
  deployment : Deployment F
  single : Store F

namespace MirroredDeployment

variable [FloatOps F]

/-- One aggregator beside the single store. -/
def seenBy (self : MirroredDeployment F) (a : ℕ) : Mirrored F := ⟨self.deployment.router a, self.single⟩

/-- Let one event happen. -/
def step (fxhash : UInt64 → UInt64) (self : MirroredDeployment F) : AggregatorEvent F → MirroredDeployment F
  | .call a call =>
    let after := (self.seenBy a).step fxhash call
    ⟨self.deployment.adopt a after.router, after.single⟩
  | .guess a hints => { self with deployment := self.deployment.guess a hints }

/-- The replicas that may lead answer the call, and an inserted batch is not rejected. -/
def Served (fxhash : UInt64 → UInt64) (leads : ℕ → ℕ → Prop) (self : MirroredDeployment F) :
    AggregatorEvent F → Prop
  | .call a call => (self.seenBy a).Served fxhash leads call
  | .guess _ _ => True

/-- Every aggregator sees the single store in slices. -/
def Refines (fxhash : UInt64 → UInt64) (leads : ℕ → ℕ → Prop) (router : ShardRouter F)
    (self : MirroredDeployment F) : Prop :=
  ∀ a, (self.seenBy a).Refines fxhash leads router

/-- A step is one of the single-aggregator model, or changes nothing but guesses. -/
theorem refines_step {fxhash : UInt64 → UInt64} {leads : ℕ → ℕ → Prop} {router : ShardRouter F}
    (self : MirroredDeployment F) (event : AggregatorEvent F) (h : self.Refines fxhash leads router)
    (hserved : self.Served fxhash leads event) : (self.step fxhash event).Refines fxhash leads router := by
  intro b
  cases event with
  | call a call =>
    refine (Mirrored.refines_step (self.seenBy a) call (h a) hserved).of_groups rfl ?_
    have hlength : ((self.seenBy a).step fxhash call).router.shards.length = self.deployment.shards.length := by
      rw [Mirrored.length_step]
      exact List.length_map _
    exact (Deployment.groups_router _ b).trans (Deployment.groups_adopt hlength a)
  | guess a hints =>
    refine (h b).of_groups rfl ?_
    exact (Deployment.groups_router _ b).trans
      ((self.deployment.groups_guess a hints).trans (self.deployment.groups_router b).symm)

/-- Over any history of served calls, every aggregator sees the single store in slices. -/
theorem refines_run {fxhash : UInt64 → UInt64} {leads : ℕ → ℕ → Prop} {deployment : Deployment F}
    (hfresh : (deployment.router 0).Fresh) {events : List (AggregatorEvent F)}
    (hserved : Run.Guarded (Served fxhash leads) (step fxhash) ⟨deployment, .new⟩ events) :
    (Run.run (step fxhash) ⟨deployment, .new⟩ events).Refines fxhash leads (deployment.router 0) := by
  have hfirst : Mirrored.Refines fxhash leads (deployment.router 0) ⟨deployment.router 0, .new⟩ :=
    ⟨rfl, Store.wellFormed_new, hfresh.sliced _ leads⟩
  refine Run.invariant_of_guarded refines_step ?_ hserved
  intro a
  exact hfirst.of_groups rfl ((deployment.groups_router a).trans (deployment.groups_router 0).symm)

variable [LinearOrder F]

/-- A search through one of the aggregators, with what becomes of its messages. -/
structure Asked (F : Type*) where
  aggregator : ℕ
  fates : ℕ → ℕ → ℕ → AttemptFate (ReadFate F)
  inTime : ℕ → Bool

/-- What the aggregator answers. -/
def search (self : MirroredDeployment F) (asked : Asked F) (req : SearchRequest F) :
    Except Status (SearchResponse F) :=
  AggregatorService.search asked.fates asked.inTime req (self.deployment.router asked.aggregator)

/-- The shards the search loses. -/
def failedShards (self : MirroredDeployment F) (asked : Asked F) (req : SearchRequest F) : Finset ℕ :=
  (self.deployment.router asked.aggregator).failedShards asked.fates asked.inTime req

/-- Which aggregator is asked and what it guesses shows in the shards it loses and nowhere else. -/
theorem Refines.search_eq {fxhash : UInt64 → UInt64} {leads : ℕ → ℕ → Prop} {router : ShardRouter F}
    {self : MirroredDeployment F} (h : self.Refines fxhash leads router) {req : SearchRequest F}
    {coll : Collection F} (hcoll : self.single.collections[req.collection]? = some coll)
    (hquery : req.queryVector.length = coll.dim) {asked : Asked F}
    (hread : ∀ s, ReadBy (leads s) (asked.fates s)) :
    self.search asked req = .ok
      ⟨sliceHits self.single coll req fun id => router.owner fxhash id ∉ self.failedShards asked req,
        router.shardCount, UInt32.ofNat (self.failedShards asked req).card, ""⟩ := by
  have hfound := (h asked.aggregator).search_eq hcoll hquery hread asked.inTime
  change Except.ok (SearchResponse.mk _ _ _ _) = _
  rw [show (self.deployment.router asked.aggregator).search asked.fates asked.inTime req.collection
    req.queryVector req.k = _ from hfound]
  rfl

/-- Any aggregator answers as any other, and the worse it does the less it changes.

Over any history of served calls through any aggregators, with guesses lost or changed at any
time, two searches that lose the same shards get the same answer. One that loses more begins
with the hits of the other that are not on the shards it lost, in their order. One that loses
none finds what the single store finds. -/
theorem aggregators_interchangeable {fxhash : UInt64 → UInt64} {leads : ℕ → ℕ → Prop}
    {deployment : Deployment F} (hfresh : (deployment.router 0).Fresh) {events : List (AggregatorEvent F)}
    (hserved : Run.Guarded (Served fxhash leads) (step fxhash) ⟨deployment, .new⟩ events)
    {now : MirroredDeployment F} (hnow : now = Run.run (step fxhash) ⟨deployment, .new⟩ events)
    {req : SearchRequest F} {coll : Collection F} (hcoll : now.single.collections[req.collection]? = some coll)
    (hquery : req.queryVector.length = coll.dim) (asked other : Asked F)
    (hasked : ∀ s, ReadBy (leads s) (asked.fates s)) (hother : ∀ s, ReadBy (leads s) (other.fates s)) :
    let lost := now.failedShards other req
    ∃ answer answer', now.search asked req = .ok answer ∧ now.search other req = .ok answer' ∧
      (now.failedShards asked req = lost → answer = answer') ∧
      (now.failedShards asked req ⊆ lost →
        (answer.results.filter fun hit => (deployment.router 0).owner fxhash hit.id ∉ lost) <+: answer'.results) ∧
      (now.failedShards asked req = ∅ → ∀ schedule,
        now.single.search schedule req.collection req.queryVector req.k.toNat =
          .ok (answer.results.map ScoredRecord.scoredId)) := by
  intro lost
  have hrefines : now.Refines fxhash leads (deployment.router 0) := by
    rw [hnow]
    exact refines_run hfresh hserved
  refine ⟨_, _, hrefines.search_eq hcoll hquery hasked, hrefines.search_eq hcoll hquery hother, ?_, ?_, ?_⟩
  · intro hsame
    rw [hsame]
  · intro hmore
    refine filter_sliceHits_begins now.single coll req
      (q := fun id => (deployment.router 0).owner fxhash id ∉ now.failedShards other req) ?_
    intro id hkept
    rw [decide_eq_true_eq] at hkept ⊢
    exact fun hfailed => hkept (hmore hfailed)
  · intro hnone schedule
    refine Mirrored.search_eq_map_sliceHits hcoll hquery schedule ?_
    intro id
    rw [hnone]
    rfl

/-- Two shards and two aggregators. One creates, the other inserts, the first is restarted and
deletes; then a search through the second loses a shard and still begins with the first's hit. -/
theorem aggregators_interchangeable_two :
    let replicaSet : ShardReplicaSet := ⟨["http://a"], by decide, 0⟩
    let shard : DeployedShard ℤ := ⟨ShardGroup.fresh ℤ fun _ => 1, fun _ => replicaSet⟩
    let deployment : Deployment ℤ := ⟨[shard, shard], by decide, by decide⟩
    let write : ℕ → ℕ → ℕ → AttemptFate (RaftFate ℤ) :=
      fun _ _ _ => .reached (.committed [] ⟨⟨1, 1⟩, 0⟩) false
    let read : ℕ → ℕ → ℕ → AttemptFate (ReadFate ℤ) := fun _ _ _ =>
      .reached ⟨[], ⟨⟨some 1, .default⟩, .ok (), .ok (), .sequential _⟩, by simp [StoredMembership.default]⟩ false
    let now := Run.run (step fxHasher) ⟨deployment, .new⟩
      [.call 0 (.createCollection (fun _ _ => .delivered) "docs" 1),
        .call 1 (.insert write "docs" [⟨1, [3], ∅⟩, ⟨3, [5], ∅⟩, ⟨4, [7], ∅⟩, ⟨5, [9], ∅⟩]),
        .guess 0 fun _ => 0, .call 0 (.delete write "docs" [4])]
    let req : SearchRequest ℤ := ⟨"docs", [1], 2⟩
    ∃ answer answer', now.search ⟨0, read, fun _ => true⟩ req = .ok answer ∧
      now.search ⟨1, read, fun s => s == 0⟩ req = .ok answer' ∧
      (answer.results.filter fun hit => (deployment.router 0).owner fxHasher hit.id ∉
        now.failedShards ⟨1, read, fun s => s == 0⟩ req) <+: answer'.results := by
  intro replicaSet shard deployment write read now req
  have hfresh : (deployment.router 0).Fresh := by
    intro shard hshard
    obtain ⟨deployed, hdeployed, rfl⟩ := List.mem_map.mp hshard
    simp only [deployment, List.mem_cons, List.not_mem_nil, or_false, or_self] at hdeployed
    exact ⟨fun _ => 1, by rw [hdeployed]⟩
  have hled : ∀ s, LedBy (fun _ => True) (write s) := fun s => .of_alone (fun _ => trivial) _ _
  have hread : ∀ s, ReadBy (fun _ => True) (read s) := by
    intro s n idx fate replyLost hfate
    cases hfate
    exact ⟨rfl, fun _ => trivial⟩
  have hserved : Run.Guarded (Served fxHasher fun _ _ => True) (step fxHasher) ⟨deployment, .new⟩
      [.call 0 (.createCollection (fun _ _ => .delivered) "docs" 1),
        .call 1 (.insert write "docs" [⟨1, [3], ∅⟩, ⟨3, [5], ∅⟩, ⟨4, [7], ∅⟩, ⟨5, [9], ∅⟩]),
        .guess 0 fun _ => 0, .call 0 (.delete write "docs" [4])] :=
    ⟨fun _ _ _ => rfl, ⟨hled, ⟨4, by decide⟩, 4, by decide⟩, trivial, ⟨hled, 1, by decide⟩, trivial⟩
  have hcoll : now.single.collections[req.collection]? =
      some ((now.single.collections["docs"]?).getD ⟨0, 0, ∅⟩) := by
    decide
  obtain ⟨answer, answer', hanswer, hanswer', -, hbegins, -⟩ := aggregators_interchangeable hfresh hserved rfl
    hcoll (by decide) ⟨0, read, fun _ => true⟩ ⟨1, read, fun s => s == 0⟩ hread hread
  exact ⟨answer, answer', hanswer, hanswer', hbegins (by decide +kernel)⟩

end MirroredDeployment

end RaftVec
