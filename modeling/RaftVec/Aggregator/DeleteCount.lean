import RaftVec.Aggregator.Acknowledged
import RaftVec.Aggregator.Ownership

/-!
# What a delete reports

A store counts the records it removes, and `apply` hands that count to openraft, but the
service answers a delete with the number of ids in the request. The router adds those up,
so a delete reports how many ids it was given. It removes what it should: afterwards no
shard holds a requested id, and nothing else has changed.

What was held just before is read off the replica that first committed the call's entry
on each shard, right before it applied it. A later attempt of the same call finds the ids
gone already.
-/

namespace RaftVec

open Std

variable {F : Type*} [FloatOps F]

/-- The state machine of the replica that commits an attempt, right before it applies the entry. -/
def RetryState.committing (fates : ℕ → ℕ → AttemptFate (RaftFate F)) (self : RetryState (ShardGroup F)) :
    Option (ShardStateMachine F) :=
  match fates self.made self.idx with
  | .reached (.committed others _) _ => some (self.state.leaderMachine others self.idx)
  | _ => none

/-- The first of a call's attempts to be committed, seen right before its entry is applied. -/
def firstCommit {R : Type*} [CarriesLeaderHint R] (shard : ShardReplicaSet)
    (fates : ℕ → ℕ → AttemptFate (RaftFate F))
    (attempt : ℕ → ℕ → ShardGroup F → AttemptOutcome R × ShardGroup F) :
    ℕ → RetryState (ShardGroup F) → Option (ShardStateMachine F)
  | 0, _ => none
  | left + 1, current =>
    match current.committing fates with
    | some machine => some machine
    | none =>
      firstCommit shard fates attempt left
        (current.advance shard (attempt current.made current.idx current.state))

/-- A call whose answer was committed has a first commit. -/
theorem exists_firstCommit {R : Type*} [CarriesLeaderHint R] {shard : ShardReplicaSet}
    {fates : ℕ → ℕ → AttemptFate (RaftFate F)}
    {attempt : ℕ → ℕ → ShardGroup F → AttemptOutcome R × ShardGroup F} {left : ℕ}
    {current serving : RetryState (ShardGroup F)} {machine : ShardStateMachine F}
    (hserving : servingState shard attempt left current = some serving)
    (hcommit : serving.committing fates = some machine) :
    ∃ first, firstCommit shard fates attempt left current = some first := by
  induction left generalizing current with
  | zero => cases hserving
  | succ left ih =>
    simp only [servingState] at hserving
    simp only [firstCommit]
    cases hcurrent : current.committing fates with
    | some first => exact ⟨first, rfl⟩
    | none =>
      cases hserved : (attempt current.made current.idx current.state).1.served with
      | some answer =>
        simp only [hserved, Option.some.injEq] at hserving
        rw [hserving, hcommit] at hcurrent
        cases hcurrent
      | none =>
        simp only [hserved] at hserving
        exact ih hserving

/-! ## Requests that name what is not there -/

/-- How many entries of a request name an id that is not held, or that a later entry names again. -/
def idleEntries (held : UInt64 → Bool) : List UInt64 → ℕ
  | [] => 0
  | id :: ids => (if held id ∧ id ∉ ids then 0 else 1) + idleEntries held ids

/-- The entries of a request are the distinct ids held and the idle ones. -/
theorem idleEntries_add_card (held : UInt64 → Bool) (ids : List UInt64) :
    idleEntries held ids + (ids.toFinset.filter fun id => held id).card = ids.length := by
  induction ids with
  | nil => rfl
  | cons id ids ih =>
    rw [idleEntries, List.toFinset_cons, Finset.filter_insert, List.length_cons]
    by_cases hheld : held id
    · rw [if_pos hheld]
      by_cases hmem : id ∈ ids
      · have hin : id ∈ ids.toFinset.filter fun id => held id := by simp [hmem, hheld]
        rw [if_neg (fun h => h.2 hmem), Finset.insert_eq_of_mem hin]
        omega
      · have hout : id ∉ ids.toFinset.filter fun id => held id := by simp [hmem]
        rw [if_pos ⟨hheld, hmem⟩, Finset.card_insert_of_notMem hout]
        omega
    · rw [if_neg hheld, if_neg (fun h => hheld h.1)]
      omega

/-- A request has no idle entry exactly when its ids are held and pairwise different. -/
theorem idleEntries_eq_zero_iff (held : UInt64 → Bool) (ids : List UInt64) :
    idleEntries held ids = 0 ↔ ids.Nodup ∧ ∀ id ∈ ids, held id := by
  induction ids with
  | nil => simp [idleEntries]
  | cons id ids ih =>
    rw [idleEntries, Nat.add_eq_zero_iff, ih, List.nodup_cons, List.forall_mem_cons, ite_eq_left_iff]
    constructor
    · rintro ⟨hid, hnodup, hheld⟩
      have hboth : held id ∧ id ∉ ids := by
        by_contra h
        exact absurd (hid h) one_ne_zero
      exact ⟨⟨hboth.2, hnodup⟩, hboth.1, hheld⟩
    · rintro ⟨⟨hnew, hnodup⟩, hid, hheld⟩
      exact ⟨fun h => absurd ⟨hid, hnew⟩ h, hnodup, hheld⟩

/-- The number of entries, taken in 32 bits, is the number of distinct ids held exactly when
that fits and the idle entries make up whole turns of the counter. -/
theorem toNat_ofNat_length_eq_iff (held : UInt64 → Bool) (ids : List UInt64) :
    (UInt32.ofNat ids.length).toNat = (ids.toFinset.filter fun id => held id).card ↔
      2 ^ 32 ∣ idleEntries held ids ∧ (ids.toFinset.filter fun id => held id).card < 2 ^ 32 := by
  have hsplit := idleEntries_add_card held ids
  rw [UInt32.toNat_ofNat']
  omega

namespace ShardRouter

variable {fxhash : UInt64 → UInt64} {router : ShardRouter F} {fates : ℕ → ℕ → ℕ → AttemptFate (RaftFate F)}
  {collection : String} {ids : List UInt64} {n : UInt32}

/-- The state of a shard right before a delete was first applied there: at the replica that
committed it first, or at the cached leader if the shard owns none of the ids. -/
def beforeDelete (fxhash : UInt64 → UInt64) (self : ShardRouter F)
    (fates : ℕ → ℕ → ℕ → AttemptFate (RaftFate F)) (collection : String) (ids : List UInt64) (s : ℕ) :
    Option (ShardStateMachine F) :=
  let share := self.share fxhash ids (fun id => id) s
  self.shards[s]?.bind fun shard =>
    if share.isEmpty then some shard.leader.machine
    else
      firstCommit shard.replicaSet (fates s) (Shard.deleteAttempt (fates s) ⟨collection, share⟩) maxLeaderAttempts
        (.first shard.replicaSet shard.group)

/-- Whether some shard held the id right before the delete was applied. -/
def heldBeforeDelete (fxhash : UInt64 → UInt64) (self : ShardRouter F)
    (fates : ℕ → ℕ → ℕ → AttemptFate (RaftFate F)) (collection : String) (ids : List UInt64) (id : UInt64) : Bool :=
  (List.range self.shards.length).any fun s =>
    (self.beforeDelete fxhash fates collection ids s).any fun machine =>
      (machine.store.version collection id).isSome

/-- The state of the leader that answered a delete for a shard, right before it applied the entry. -/
def answeringDelete (fxhash : UInt64 → UInt64) (self : ShardRouter F)
    (fates : ℕ → ℕ → ℕ → AttemptFate (RaftFate F)) (collection : String) (ids : List UInt64) (s : ℕ) :
    Option (ShardStateMachine F) :=
  let share := self.share fxhash ids (fun id => id) s
  self.shards[s]?.bind fun shard =>
    if share.isEmpty then some shard.leader.machine
    else
      (servingState shard.replicaSet (Shard.deleteAttempt (fates s) ⟨collection, share⟩) maxLeaderAttempts
        (.first shard.replicaSet shard.group)).bind (RetryState.committing (fates s))

/-- A delete is answered with the number of its ids, modulo `2 ^ 32`. -/
theorem delete_count (hok : (router.delete fxhash fates collection ids).1 = .ok n) :
    n = UInt32.ofNat ids.length := by
  refine writeGroups_count ?_ hok
  intro s shard response hresponse
  obtain ⟨_, _, _, _, _, hanswer, _⟩ := Shard.call_write_of_ok (fun _ _ => rfl) hresponse
  rw [hanswer]

/-- On every shard a delete that succeeded was committed, first by some replica and last by
the one that answered, whose store has since executed it. -/
theorem delete_committed (hok : (router.delete fxhash fates collection ids).1 = .ok n) {s : ℕ} {shard : Shard F}
    (hshard : (router.delete fxhash fates collection ids).2.shards[s]? = some shard) :
    (∃ first, router.beforeDelete fxhash fates collection ids s = some first) ∧
      ∃ answering, router.answeringDelete fxhash fates collection ids s = some answering ∧
        shard.leader.machine.store =
          if router.share fxhash ids (fun id => id) s = [] then answering.store
          else (answering.store.execute (.delete collection (router.share fxhash ids (fun id => id) s))).2 := by
  have hs : s < router.shards.length := by
    have hlength := (List.getElem?_eq_some_iff.mp hshard).1
    simpa [delete, writeGroups, callGroups, mapShards] using hlength
  have hbefore : router.shards[s]? = some router.shards[s] := List.getElem?_eq_getElem hs
  by_cases hshare : router.share fxhash ids (fun id => id) s = []
  · have hsame : (router.delete fxhash fates collection ids).2.shards[s]? = some router.shards[s] :=
      writeGroups_shards_of_nil hbefore hshare
    obtain rfl : router.shards[s] = shard := Option.some.inj (hsame.symm.trans hshard)
    simp only [beforeDelete, answeringDelete, hbefore, hshare, Option.bind_some, List.isEmpty_nil, if_true]
    exact ⟨⟨_, rfl⟩, _, rfl, rfl⟩
  · obtain ⟨after, serving, others, logId, hafter, hserving, hfate, hstore⟩ :=
      writeGroups_served (.delete collection) DeleteResponse.mk (fun _ _ => rfl) hok hbefore hshare
    obtain rfl : after = shard := Option.some.inj (hafter.symm.trans hshard)
    have hcommit : serving.committing (fates s) = some (serving.state.leaderMachine others serving.idx) := by
      simp only [RetryState.committing, hfate]
    obtain ⟨first, hfirst⟩ := exists_firstCommit hserving hcommit
    simp only [beforeDelete, answeringDelete, hbefore, Option.bind_some, List.isEmpty_iff, hshare, if_false]
    refine ⟨⟨first, hfirst⟩, serving.state.leaderMachine others serving.idx, ?_, hstore⟩
    rw [Shard.deleteAttempt_eq_writeAttempt, hserving, Option.bind_some, hcommit]

omit [FloatOps F] in
/-- A shard is sent the ids of the request that it owns. -/
theorem mem_share_iff (router : ShardRouter F) (ids : List UInt64) (s : ℕ) (id : UInt64) :
    id ∈ router.share fxhash ids (fun id => id) s ↔ id ∈ ids ∧ router.owner fxhash id = s := by
  rw [share, List.mem_filter, decide_eq_true_eq]

/-- A delete that succeeded changes no record but those of its ids. -/
theorem delete_frame (hok : (router.delete fxhash fates collection ids).1 = .ok n) {s : ℕ} {shard : Shard F}
    (hshard : (router.delete fxhash fates collection ids).2.shards[s]? = some shard) :
    ∃ answering, router.answeringDelete fxhash fates collection ids s = some answering ∧
      ∀ name id, ¬(name = collection ∧ id ∈ ids) →
        shard.leader.machine.store.version name id = answering.store.version name id := by
  obtain ⟨-, answering, hanswering, hstore⟩ := delete_committed hok hshard
  refine ⟨answering, hanswering, ?_⟩
  intro name id hother
  rw [hstore]
  split
  · rfl
  · have hkept : ¬(collection = name ∧ id ∈ router.share fxhash ids (fun id => id) s) :=
      fun h => hother ⟨h.1.symm, ((mem_share_iff router ids s id).mp h.2).1⟩
    rw [Store.execute_delete_version, if_neg hkept]

/-- After a delete that succeeded, an id's owner does not hold it. -/
theorem delete_version_of_owner (hok : (router.delete fxhash fates collection ids).1 = .ok n) {id : UInt64}
    (hid : id ∈ ids) {shard : Shard F}
    (hshard : (router.delete fxhash fates collection ids).2.shards[router.owner fxhash id]? = some shard) :
    shard.leader.machine.store.version collection id = none := by
  have hmem := (mem_share_iff router ids (router.owner fxhash id) id).mpr ⟨hid, rfl⟩
  obtain ⟨-, answering, -, hstore⟩ := delete_committed hok hshard
  rw [hstore, if_neg (List.ne_nil_of_mem hmem), Store.execute_delete_version, if_pos ⟨rfl, hmem⟩]

end ShardRouter

namespace Cluster

variable {Bytes : Type*} [LinearOrder F] {fxhash : UInt64 → UInt64} {codec : Bincode F Bytes}
  {router : ShardRouter F} {self : Cluster F Bytes} {fates : ℕ → ℕ → ℕ → AttemptFate (RaftFate F)}
  {collection : String} {ids : List UInt64} {n : UInt32}

/-- After a delete that succeeded, no shard of a cluster whose shards hold their own ids holds
a requested one. -/
theorem Owned.version_after_delete
    (h : Owned codec (ownerAmong fxhash router.shardCount router.shardCount_pos) self) (hcodec : codec.RoundTrips)
    (hgroups : ∀ (s : ℕ) shard, router.shards[s]? = some shard → self.groups s = shard.group)
    (hothers : ∀ s, self.CommitsProposed s (fates s))
    (hok : (router.delete fxhash fates collection ids).1 = .ok n) {s : ℕ} {shard : Shard F}
    (hshard : (router.delete fxhash fates collection ids).2.shards[s]? = some shard) {id : UInt64} (hid : id ∈ ids) :
    shard.leader.machine.store.version collection id = none := by
  by_cases howner : router.owner fxhash id = s
  · subst howner
    exact ShardRouter.delete_version_of_owner hok hid hshard
  · -- the call is a run of the cluster, which leaves every shard to its own ids
    obtain ⟨events, hguard, hreached⟩ := exists_run_delete hgroups hothers collection ids
    have hholds := ((h.run hcodec hguard).groups s).stores shard.replicaSet.leaderHint
    rw [hreached s shard hshard] at hholds
    exact hholds.version_eq_none howner collection

/-- In every cluster that runs lead to, a delete that succeeds removes the requested ids and
changes nothing else. The count it reports is the number of distinct ids that were held
exactly when the entries that removed nothing make up whole turns of the 32-bit counter and
the number fits; below `2 ^ 32` entries, when all ids were held and none was repeated. -/
theorem delete_reports_removed_iff (fxhash : UInt64 → UInt64) {codec : Bincode F Bytes} (hcodec : codec.RoundTrips)
    (router : ShardRouter F) (nodeIds : ℕ → ℕ → NodeId) {events : List (ClusterEvent F Bytes)}
    (hguard : Run.Guarded (Permits router.shardCount) (step fxhash codec) (fresh F Bytes nodeIds) events)
    (hgroups : ∀ (s : ℕ) shard, router.shards[s]? = some shard →
      (Run.run (step fxhash codec) (fresh F Bytes nodeIds) events).groups s = shard.group)
    {fates : ℕ → ℕ → ℕ → AttemptFate (RaftFate F)}
    (hothers : ∀ s, (Run.run (step fxhash codec) (fresh F Bytes nodeIds) events).CommitsProposed s (fates s))
    {collection : String} {ids : List UInt64} {n : UInt32}
    (hok : (router.delete fxhash fates collection ids).1 = .ok n) :
    let held := router.heldBeforeDelete fxhash fates collection ids
    let removed := (ids.toFinset.filter fun id => held id).card
    let after := (router.delete fxhash fates collection ids).2
    (∀ s < router.shards.length, ∃ first, router.beforeDelete fxhash fates collection ids s = some first) ∧
    ((n.toNat = removed ∧
        (∀ (s : ℕ) shard, after.shards[s]? = some shard →
          ∀ id ∈ ids, shard.leader.machine.store.version collection id = none) ∧
        ∀ (s : ℕ) shard, after.shards[s]? = some shard →
          ∃ answering, router.answeringDelete fxhash fates collection ids s = some answering ∧
            ∀ name id, ¬(name = collection ∧ id ∈ ids) →
              shard.leader.machine.store.version name id = answering.store.version name id) ↔
      2 ^ 32 ∣ idleEntries held ids ∧ removed < 2 ^ 32) ∧
    (ids.length < 2 ^ 32 →
      (2 ^ 32 ∣ idleEntries held ids ∧ removed < 2 ^ 32 ↔ ids.Nodup ∧ ∀ id ∈ ids, held id)) := by
  intro held removed after
  have howned : Owned codec (ownerAmong fxhash router.shardCount router.shardCount_pos)
      (Run.run (step fxhash codec) (fresh F Bytes nodeIds) events) := (Owned.fresh nodeIds).run hcodec hguard
  have hsplit : idleEntries held ids + removed = ids.length := idleEntries_add_card held ids
  refine ⟨?_, ?_, ?_⟩
  · intro s hs
    have hlength : after.shards.length = router.shards.length := by
      simp [after, ShardRouter.delete, ShardRouter.writeGroups, ShardRouter.callGroups, ShardRouter.mapShards]
    exact (ShardRouter.delete_committed hok (List.getElem?_eq_getElem (hlength ▸ hs))).1
  · rw [ShardRouter.delete_count hok, ← toNat_ofNat_length_eq_iff held ids]
    apply and_iff_left
    exact ⟨fun s shard hshard id hid => howned.version_after_delete hcodec hgroups hothers hok hshard hid,
      fun s shard hshard => ShardRouter.delete_frame hok hshard⟩
  · intro hlength
    rw [← idleEntries_eq_zero_iff]
    omega

/-! ## Small clusters -/

/-- Every attempt is committed at once and answered. -/
def answeredFate : AttemptFate (RaftFate ℤ) := .reached (.committed [] ⟨⟨1, 1⟩, 0⟩) false

/-- Nothing that others proposed is committed beside an attempt. -/
theorem answeredFate_proposed (cluster : Cluster ℤ (StoreSnapshot ℤ)) (s : ℕ) {others : List (Entry ℤ)}
    {logId : LogId} {replyLost : Bool} (h : answeredFate = .reached (.committed others logId) replyLost) :
    cluster.Proposed s others := by
  rw [← (RaftFate.committed.inj (AttemptFate.reached.inj h).1).1]
  intro cmd hcmd
  cases hcmd

/-- A router over two shards with two replicas each, in the given states. -/
def pairRouter (first second : ShardGroup ℤ) : ShardRouter ℤ :=
  ⟨[⟨⟨["http://a", "http://b"], by decide, 0⟩, first⟩, ⟨⟨["http://c", "http://d"], by decide, 1⟩, second⟩],
    by simp, by simp⟩

/-- A collection is created on every replica, and three records are stored in it. -/
def pairEvents : List (ClusterEvent ℤ (StoreSnapshot ℤ)) :=
  [.create 0 0 .delivered ⟨"docs", 1, 2⟩, .create 0 1 .delivered ⟨"docs", 1, 2⟩,
    .create 1 0 .delivered ⟨"docs", 1, 2⟩, .create 1 1 .delivered ⟨"docs", 1, 2⟩,
    .insert (pairRouter (ShardGroup.fresh ℤ UInt64.ofNat) (ShardGroup.fresh ℤ UInt64.ofNat)) "docs"
      [⟨1, [3], ∅⟩, ⟨3, [5], ∅⟩, ⟨4, [7], ∅⟩],
    .attempt 0 0 answeredFate, .attempt 1 1 answeredFate]

/-- Of three records on two shards two are deleted, each shard's first attempt hanging. The call
reports two, and they are gone. -/
theorem delete_reports_removed_two_shards :
    let cluster := Run.run (step fxHasher (Bincode.identity ℤ)) (fresh ℤ (StoreSnapshot ℤ) fun _ => UInt64.ofNat)
      pairEvents
    let router := pairRouter (cluster.groups 0) (cluster.groups 1)
    let fates : ℕ → ℕ → ℕ → AttemptFate (RaftFate ℤ) := fun _ n _ => if n = 0 then .hung else answeredFate
    (router.delete fxHasher fates "docs" [3, 1]).1 = .ok 2 ∧
      (2 : UInt32).toNat = ([3, 1].toFinset.filter fun requested =>
        router.heldBeforeDelete fxHasher fates "docs" [3, 1] requested).card ∧
      ∀ (s : ℕ) shard, (router.delete fxHasher fates "docs" [3, 1]).2.shards[s]? = some shard →
        ∀ id ∈ [3, 1], shard.leader.machine.store.version "docs" id = none := by
  intro cluster router fates
  have hguard : Run.Guarded (Permits router.shardCount) (step fxHasher (Bincode.identity ℤ))
      (fresh ℤ (StoreSnapshot ℤ) fun _ => UInt64.ofNat) pairEvents :=
    ⟨trivial, trivial, trivial, trivial, rfl, fun _ _ _ hfate s _ _ => answeredFate_proposed _ s hfate,
      fun _ _ _ hfate s _ _ => answeredFate_proposed _ s hfate, trivial⟩
  have hgroups : ∀ (s : ℕ) shard, router.shards[s]? = some shard → cluster.groups s = shard.group := by
    intro s shard hshard
    match s with
    | 0 => exact congrArg Shard.group (Option.some.inj hshard)
    | 1 => exact congrArg Shard.group (Option.some.inj hshard)
  have hothers : ∀ s, cluster.CommitsProposed s (fates s) := by
    intro s n idx others logId replyLost hfate
    simp only [fates] at hfate
    split at hfate
    · cases hfate
    · exact answeredFate_proposed _ s hfate
  have hok : (router.delete fxHasher fates "docs" [3, 1]).1 = .ok 2 := by decide +kernel
  have hheld : ([3, 1] : List UInt64).all (router.heldBeforeDelete fxHasher fates "docs" [3, 1]) = true := by
    decide +kernel
  obtain ⟨-, hiff, hbelow⟩ := delete_reports_removed_iff fxHasher (Bincode.identity_roundTrips ℤ) router
    (fun _ => UInt64.ofNat) hguard hgroups hothers hok
  have hexact := hiff.mpr ((hbelow (by decide)).mpr ⟨by decide, List.all_eq_true.mp hheld⟩)
  exact ⟨hok, hexact.1, hexact.2.1⟩

/-- A router over one shard with one replica in the given state. -/
def soleRouter (group : ShardGroup ℤ) : ShardRouter ℤ :=
  ⟨[⟨⟨["http://a"], by decide, 0⟩, group⟩], by simp, by simp⟩

/-- A collection is created and a record stored in it. -/
def oneRecordEvents : List (ClusterEvent ℤ (StoreSnapshot ℤ)) :=
  [.create 0 0 .delivered ⟨"docs", 1, 1⟩,
    .insert (soleRouter (ShardGroup.fresh ℤ fun _ => 1)) "docs" [⟨7, [3], ∅⟩], .attempt 0 0 answeredFate]

/-- The cluster with that one record. -/
def oneRecord : Cluster ℤ (StoreSnapshot ℤ) :=
  Run.run (step fxHasher (Bincode.identity ℤ)) (fresh ℤ (StoreSnapshot ℤ) fun _ _ => 1) oneRecordEvents

/-- The steps that store the record are permitted. -/
theorem oneRecordEvents_guarded :
    Run.Guarded (Permits 1) (step fxHasher (Bincode.identity ℤ)) (fresh ℤ (StoreSnapshot ℤ) fun _ _ => 1)
      oneRecordEvents := by
  refine ⟨trivial, rfl, ?_, trivial⟩
  intro others logId replyLost hfate s cmd _
  exact answeredFate_proposed _ s hfate

/-- With one record held, a request that repeats its id and names an absent one reports three. -/
theorem delete_reports_idle_entries :
    let router := soleRouter (oneRecord.groups 0)
    Run.Guarded (Permits router.shardCount) (step fxHasher (Bincode.identity ℤ))
        (fresh ℤ (StoreSnapshot ℤ) fun _ _ => 1) oneRecordEvents ∧
      (router.delete fxHasher (fun _ _ _ => answeredFate) "docs" [7, 7, 8]).1 = .ok 3 ∧
      ([7, 7, 8].toFinset.filter fun requested =>
        router.heldBeforeDelete fxHasher (fun _ _ _ => answeredFate) "docs" [7, 7, 8] requested).card = 1 :=
  ⟨oneRecordEvents_guarded, by decide +kernel, by decide +kernel⟩

end Cluster

end RaftVec
