import RaftVec.Aggregator.Refinement
import RaftVec.Node.ClusterStatus

/-!
# What the router reports of the cluster

The status of the cluster is put together from one replica of each shard: the first of its
replicas, in their configured order, that answers at all. No leadership is asked for. The
names are collected without repetition and the numbers of records are added up in 32 bits;
a shard all of whose replicas fail is left out without notice. Replicas are asked one after
the other and without a timeout, so one that hangs keeps the call from returning.

Between the calls every replica applies the committed entries at its own pace. Beside a
single store that executed the same calls, the number is that of the single store's records
whose shards answered, as long as the replicas that answer have applied all that is committed.
Nothing is written while the status is put together.
-/

namespace RaftVec

open Std WriteHistory

variable {F : Type*}

/-- What becomes of a request for a replica's status. -/
inductive StatusFate where
  | answered
  | failed
  | hung
deriving DecidableEq

/-- Ask replicas one after the other for their status until one answers. -/
def firstStatus (fates : ℕ → StatusFate) (status : ℕ → ClusterStatusResponse) :
    List ℕ → Option (Option ClusterStatusResponse)
  | [] => some none
  | idx :: rest =>
    match fates idx with
    | .answered => some (some (status idx))
    | .failed => firstStatus fates status rest
    -- the replica is awaited for good
    | .hung => none

/-- The status of the first replica that answers, if the call returns. -/
def Shard.clusterStatus (fates : ℕ → StatusFate) (self : Shard F) : Option (Option ClusterStatusResponse) :=
  firstStatus fates (fun idx => NodeService.clusterStatus (self.group.replicas idx).machine.store)
    (List.range self.replicaSet.replicaCount)

/-- Take one shard's status into the cluster's. -/
def addStatus (acc : ExtTreeSet String × UInt32) (resp : ClusterStatusResponse) : ExtTreeSet String × UInt32 :=
  (acc.1.insertMany resp.collections, acc.2 + resp.vectorCount)

/-- Put the statuses of the shards together, once all shards' calls have returned. -/
def ShardRouter.clusterStatus (self : ShardRouter F) (fates : ℕ → ℕ → StatusFate) : Option (List String × UInt32) :=
  let calls := self.shards.mapIdx fun s shard => shard.clusterStatus (fates s)
  if calls.all Option.isSome then
    let counted := calls.reduceOption.reduceOption.foldl addStatus (∅, 0)
    some (counted.1.toList, counted.2)
  else none

/-- Statuses add up, and their names are collected. -/
theorem foldl_addStatus (responses : List ClusterStatusResponse) (names : ExtTreeSet String) (total : UInt32) :
    (responses.foldl addStatus (names, total)).2 = total + (responses.map (·.vectorCount)).sum ∧
      ∀ name, name ∈ (responses.foldl addStatus (names, total)).1 ↔
        name ∈ names ∨ ∃ resp ∈ responses, name ∈ resp.collections := by
  induction responses generalizing names total with
  | nil => simp
  | cons resp responses ih =>
    obtain ⟨hcount, hnames⟩ := ih (names.insertMany resp.collections) (total + resp.vectorCount)
    constructor
    · rw [List.foldl_cons, List.map_cons, List.sum_cons, ← add_assoc]
      exact hcount
    · intro name
      rw [List.foldl_cons]
      refine (hnames name).trans ?_
      rw [ExtTreeSet.mem_insertMany_list]
      simp [or_assoc]

/-- The replica whose status is reported was asked and answered. -/
theorem exists_of_firstStatus {fates : ℕ → StatusFate} {status : ℕ → ClusterStatusResponse} {replicas : List ℕ}
    {resp : ClusterStatusResponse} (h : firstStatus fates status replicas = some (some resp)) :
    ∃ idx ∈ replicas, fates idx = .answered ∧ resp = status idx := by
  induction replicas with
  | nil => cases h
  | cons idx rest ih =>
    unfold firstStatus at h
    split at h
    · next hanswered =>
      cases h
      exact ⟨idx, List.mem_cons_self, hanswered, rfl⟩
    · obtain ⟨other, hother, hresp⟩ := ih h
      exact ⟨other, List.mem_cons_of_mem idx hother, hresp⟩
    · cases h

/-- Without a replica that hangs, the asking ends. -/
theorem firstStatus_isSome {fates : ℕ → StatusFate} (hreturn : ∀ idx, fates idx ≠ .hung)
    (status : ℕ → ClusterStatusResponse) (replicas : List ℕ) : (firstStatus fates status replicas).isSome := by
  induction replicas with
  | nil => rfl
  | cons idx rest ih =>
    unfold firstStatus
    split
    · rfl
    · exact ih
    · next hhung => exact absurd hhung (hreturn idx)

variable [FloatOps F]

/-- A replica that may lead and has applied the whole log holds the shard's slice. -/
theorem SlicedGroup.version_eq {owner : UInt64 → ℕ} {leads : ℕ → Prop} {single : Store F} {s : ℕ}
    {group : ShardGroup F} (h : SlicedGroup owner leads single s group) {idx : ℕ} (hleads : leads idx)
    (hcurrent : (group.replicas idx).applied = group.log.length) (name : String) (id : UInt64) :
    (group.replicas idx).machine.store.version name id =
      if owner id = s then single.version name id else none := by
  have hreplays := (h.replays idx hleads).collections name
  rw [hcurrent, List.take_length] at hreplays
  rw [Store.version, hreplays, Store.version]
  cases hcoll : single.collections[name]? with
  | none => simp
  | some coll =>
    rw [Option.map_some, Option.bind_some, Option.bind_some, ← h.log.held name coll hcoll id]
    simp only [replayOf, Collection.write, getElem?_applyWrites, ExtTreeMap.getElem?_empty]

/-- It has the single store's collections. -/
theorem SlicedGroup.mem_keys {owner : UInt64 → ℕ} {leads : ℕ → Prop} {single : Store F} {s : ℕ}
    {group : ShardGroup F} (h : SlicedGroup owner leads single s group) {idx : ℕ} (hleads : leads idx)
    (name : String) :
    name ∈ (group.replicas idx).machine.store.clusterStatus.1 ↔ single.shape name ≠ none := by
  rw [Store.clusterStatus, ExtTreeMap.mem_keys, ExtTreeMap.mem_iff_isSome_getElem?,
    (h.replays idx hleads).collections name, Store.shape]
  cases single.collections[name]? <;> simp

/-- It counts the single store's records whose ids the shard owns. -/
theorem SlicedGroup.clusterStatus_count {owner : UInt64 → ℕ} {leads : ℕ → Prop} {single : Store F} {s : ℕ}
    {group : ShardGroup F} (h : SlicedGroup owner leads single s group) {idx : ℕ} (hleads : leads idx)
    (hcurrent : (group.replicas idx).applied = group.log.length) :
    (group.replicas idx).machine.store.clusterStatus.2 =
      UInt32.ofNat (single.heldKeys.filter fun key => owner key.2 = s).card := by
  rw [Store.clusterStatus_count]
  congr 2
  ext ⟨name, id⟩
  rw [Store.mem_heldKeys, h.version_eq hleads hcurrent, Finset.mem_filter, Store.mem_heldKeys]
  by_cases howner : owner id = s <;> simp [howner]

namespace ShardRouter

omit [FloatOps F] in
/-- The status of the shard at a place, if there is one. -/
def statusOf (self : ShardRouter F) (fates : ℕ → ℕ → StatusFate) (s : ℕ) : Option ClusterStatusResponse :=
  self.shards[s]?.bind fun shard => (shard.clusterStatus (fates s)).join

omit [FloatOps F] in
/-- The shards of which no replica answers. -/
def silentShards (self : ShardRouter F) (fates : ℕ → ℕ → StatusFate) : Finset ℕ :=
  (Finset.range self.shards.length).filter fun s => self.statusOf fates s = none

omit [FloatOps F] in
/-- The shards' statuses, shard after shard. -/
theorem responses_eq_filterMap (self : ShardRouter F) (fates : ℕ → ℕ → StatusFate) :
    (self.shards.mapIdx fun s shard => shard.clusterStatus (fates s)).reduceOption.reduceOption =
      (List.range self.shards.length).filterMap (self.statusOf fates) := by
  have hlist : ((self.shards.mapIdx fun s shard => shard.clusterStatus (fates s)).map Option.join) =
      (List.range self.shards.length).map (self.statusOf fates) := by
    apply List.ext_getElem?
    intro s
    rw [List.getElem?_map, List.getElem?_mapIdx, List.getElem?_map]
    by_cases hs : s < self.shards.length
    · simp [hs, statusOf]
    · simp [hs]
  calc (self.shards.mapIdx fun s shard => shard.clusterStatus (fates s)).reduceOption.reduceOption
      = ((self.shards.mapIdx fun s shard => shard.clusterStatus (fates s)).map Option.join).reduceOption := by
        simp only [List.reduceOption, List.filterMap_filterMap, List.filterMap_map]
        rfl
    _ = (List.range self.shards.length).filterMap (self.statusOf fates) := by
        rw [hlist, List.reduceOption, List.filterMap_map]
        rfl

/-- What a list of counts adds up to when each is known, those left out counting nothing. -/
theorem sum_filterMap_count {status : ℕ → Option ClusterStatusResponse} {count : ℕ → ℕ} (shards : List ℕ)
    (h : ∀ s ∈ shards, ∀ resp, status s = some resp → resp.vectorCount = UInt32.ofNat (count s)) :
    ((shards.filterMap status).map (·.vectorCount)).sum =
      UInt32.ofNat (shards.map fun s => if status s = none then 0 else count s).sum := by
  induction shards with
  | nil => rfl
  | cons s shards ih =>
    have hrest := ih fun other hother => h other (List.mem_cons_of_mem s hother)
    cases hstatus : status s with
    | none => simp [hstatus, hrest]
    | some resp =>
      rw [List.filterMap_cons, hstatus, List.map_cons, List.sum_cons, hrest, h s List.mem_cons_self resp hstatus,
        List.map_cons, List.sum_cons, hstatus, UInt32.ofNat_add]
      simp

omit [FloatOps F] in
/-- Without a replica that hangs, the call returns. -/
theorem clusterStatus_isSome (self : ShardRouter F) {fates : ℕ → ℕ → StatusFate}
    (hreturn : ∀ s idx, fates s idx ≠ .hung) : (self.clusterStatus fates).isSome := by
  have hall : (self.shards.mapIdx fun s shard => shard.clusterStatus (fates s)).all Option.isSome = true := by
    rw [List.all_eq_true]
    intro call hcall
    obtain ⟨s, hs, rfl⟩ := List.mem_mapIdx.mp hcall
    exact firstStatus_isSome (hreturn s) _ _
  simp only [clusterStatus, hall, if_true, Option.isSome_some]

omit [FloatOps F] in
/-- A status that was returned is put together from those of the shards. -/
theorem of_clusterStatus {self : ShardRouter F} {fates : ℕ → ℕ → StatusFate} {status : List String × UInt32}
    (h : self.clusterStatus fates = some status) :
    status.2 = (((List.range self.shards.length).filterMap (self.statusOf fates)).map (·.vectorCount)).sum ∧
      status.1.Nodup ∧ ∀ name, name ∈ status.1 ↔
        ∃ s < self.shards.length, ∃ resp, self.statusOf fates s = some resp ∧ name ∈ resp.collections := by
  simp only [clusterStatus, responses_eq_filterMap] at h
  split at h
  · cases h
    obtain ⟨hcount, hnames⟩ := foldl_addStatus
      ((List.range self.shards.length).filterMap (self.statusOf fates)) ∅ 0
    refine ⟨by rw [hcount, UInt32.zero_add], ?_, ?_⟩
    · refine List.Pairwise.imp ?_ (ExtTreeSet.distinct_toList (t := (List.foldl addStatus (∅, 0) _).1))
      intro a b hne heq
      exact hne (by rw [heq]; exact ReflCmp.compare_self)
    · intro name
      rw [ExtTreeSet.mem_toList, hnames name]
      simp only [ExtTreeSet.not_mem_empty, false_or, List.mem_filterMap, List.mem_range]
      constructor
      · rintro ⟨resp, ⟨s, hs, hstatus⟩, hname⟩
        exact ⟨s, hs, resp, hstatus, hname⟩
      · rintro ⟨s, hs, resp, hstatus, hname⟩
        exact ⟨resp, ⟨s, hs, hstatus⟩, hname⟩
  · cases h

end ShardRouter

namespace Mirrored

/-- The single store's records whose shards answered, counted shard by shard. -/
theorem sum_card_filter_owner (keys : Finset (String × UInt64)) {owner : UInt64 → ℕ} {shardCount : ℕ}
    (howner : ∀ id, owner id < shardCount) (silent : ℕ → Prop) [DecidablePred silent] :
    ((List.range shardCount).map fun s =>
      if silent s then 0 else (keys.filter fun key => owner key.2 = s).card).sum =
      (keys.filter fun key => ¬ silent (owner key.2)).card := by
  have hmaps : Set.MapsTo (fun key : String × UInt64 => owner key.2)
      ↑(keys.filter fun key => ¬ silent (owner key.2)) ↑(Finset.range shardCount) :=
    fun key _ => Finset.mem_coe.mpr (Finset.mem_range.mpr (howner key.2))
  rw [Finset.card_eq_sum_card_fiberwise hmaps, ← List.toFinset_range, List.sum_toFinset _ List.nodup_range]
  congr 1
  apply List.map_congr_left
  intro s _
  rw [Finset.filter_filter]
  split
  · next hsilent =>
    symm
    rw [Finset.card_eq_zero, Finset.filter_eq_empty_iff]
    rintro key _ ⟨hspoke, rfl⟩
    exact hspoke hsilent
  · next hspoke =>
    congr 1
    apply Finset.filter_congr
    intro key _
    constructor
    · rintro rfl
      exact ⟨hspoke, rfl⟩
    · exact fun h => h.2

/-! ## Replicas at their own pace -/

end Mirrored

/-- What happens to a cluster: a call, or a replica applies its next committed entry. -/
inductive MirroredEvent (F : Type*) where
  | call (call : RouterCall F)
  | apply (s idx : ℕ)

/-- A replica of a shard applies its next committed entry. -/
def ShardRouter.applyNext (self : ShardRouter F) (s idx : ℕ) : ShardRouter F :=
  self.mapShards fun i shard =>
    if i = s then
      { shard with group := shard.group.update idx ((shard.group.replicas idx).applyNext shard.group.log) }
    else shard

namespace Mirrored

/-- Both sides perform a call, or a replica of the cluster moves on. -/
def next (fxhash : UInt64 → UInt64) (self : Mirrored F) : MirroredEvent F → Mirrored F
  | .call call => self.step fxhash call
  | .apply s idx => { self with router := self.router.applyNext s idx }

/-- Calls are served, and creations reach every replica. -/
def Permitted (fxhash : UInt64 → UInt64) (self : Mirrored F) : MirroredEvent F → Prop
  | .call call => self.Served fxhash (fun _ _ => True) call
  | .apply _ _ => True

/-- Every event keeps the cluster the single store in slices, on every replica. -/
theorem refines_next {fxhash : UInt64 → UInt64} {router : ShardRouter F} (mirrored : Mirrored F)
    (event : MirroredEvent F) (h : mirrored.Refines fxhash (fun _ _ => True) router)
    (hpermitted : mirrored.Permitted fxhash event) :
    (mirrored.next fxhash event).Refines fxhash (fun _ _ => True) router := by
  cases event with
  | call call => exact refines_step mirrored call h hpermitted
  | apply s idx =>
    refine ⟨?_, h.wellFormed, ?_⟩
    · simpa [next, ShardRouter.applyNext, ShardRouter.mapShards] using h.length_eq
    · intro place after hafter
      simp only [next, ShardRouter.applyNext, ShardRouter.mapShards, List.getElem?_mapIdx,
        Option.map_eq_some_iff] at hafter
      obtain ⟨shard, hshard, rfl⟩ := hafter
      split
      · exact (h.sliced place shard hshard).applyNext idx
      · exact h.sliced place shard hshard

/-- What a shard that answers reports. -/
theorem Refines.status_eq {fxhash : UInt64 → UInt64} {router : ShardRouter F} {cluster : Mirrored F}
    (h : cluster.Refines fxhash (fun _ _ => True) router) {fates : ℕ → ℕ → StatusFate}
    (hcurrent : ∀ s shard idx, cluster.router.shards[s]? = some shard → idx < shard.replicaSet.replicaCount →
      fates s idx = .answered → (shard.group.replicas idx).applied = shard.group.log.length) {s : ℕ}
    {resp : ClusterStatusResponse} (hstatus : cluster.router.statusOf fates s = some resp) :
    resp.vectorCount = UInt32.ofNat
        (cluster.single.heldKeys.filter fun key => router.owner fxhash key.2 = s).card ∧
      ∀ name, name ∈ resp.collections ↔ cluster.single.shape name ≠ none := by
  obtain ⟨shard, hshard, hjoined⟩ := Option.bind_eq_some_iff.mp hstatus
  obtain ⟨idx, hidx, hanswered, rfl⟩ := exists_of_firstStatus (Option.join_eq_some_iff.mp hjoined)
  have hsliced := h.sliced s shard hshard
  have happlied := hcurrent s shard idx hshard (List.mem_range.mp hidx) hanswered
  exact ⟨hsliced.clusterStatus_count trivial happlied, hsliced.mem_keys trivial⟩

/-- After any served calls, with replicas applying the committed entries at their own pace, the
status of the cluster is that of the single store without the shards that are silent.

The replicas that answer, leaders or not, have applied all that is committed. Every record is
counted once, whichever replicas answer and whatever was retried, and the names are those of
the single store unless every shard is silent. -/
theorem clusterStatus_eq_single {fxhash : UInt64 → UInt64} {router : ShardRouter F} (hfresh : router.Fresh)
    {events : List (MirroredEvent F)}
    (hpermitted : Run.Guarded (Permitted fxhash) (next fxhash) ⟨router, .new⟩ events) {cluster : Mirrored F}
    (hcluster : cluster = Run.run (next fxhash) ⟨router, .new⟩ events) {fates : ℕ → ℕ → StatusFate}
    (hcurrent : ∀ s shard idx, cluster.router.shards[s]? = some shard → idx < shard.replicaSet.replicaCount →
      fates s idx = .answered → (shard.group.replicas idx).applied = shard.group.log.length) :
    let silent := cluster.router.silentShards fates
    ((∀ s idx, fates s idx ≠ .hung) → (cluster.router.clusterStatus fates).isSome) ∧
      ∀ status, cluster.router.clusterStatus fates = some status →
        status.2 = UInt32.ofNat
          (cluster.single.heldKeys.filter fun key => router.owner fxhash key.2 ∉ silent).card ∧
        (silent = ∅ → status.2 = cluster.single.clusterStatus.2) ∧
        status.1.Nodup ∧ ∀ name, name ∈ status.1 ↔
          (∃ s < router.shards.length, s ∉ silent) ∧ cluster.single.shape name ≠ none := by
  have hrefines : cluster.Refines fxhash (fun _ _ => True) router := by
    rw [hcluster]
    exact Run.invariant_of_guarded refines_next
      ⟨rfl, Store.wellFormed_new, hfresh.sliced (router.owner fxhash) _⟩ hpermitted
  intro silent
  refine ⟨cluster.router.clusterStatus_isSome, ?_⟩
  intro status hstatus
  obtain ⟨hcount, hnodup, hnames⟩ := ShardRouter.of_clusterStatus hstatus
  have hlength := hrefines.length_eq
  have hmem : ∀ s, s ∈ silent ↔ s < router.shards.length ∧ cluster.router.statusOf fates s = none := by
    intro s
    rw [← hlength]
    simp [silent, ShardRouter.silentShards]
  have htotal : status.2 =
      UInt32.ofNat (cluster.single.heldKeys.filter fun key => router.owner fxhash key.2 ∉ silent).card := by
    rw [hcount, ShardRouter.sum_filterMap_count _ fun s _ resp hresp => (hrefines.status_eq hcurrent hresp).1,
      hlength, sum_card_filter_owner _ (fun id => router.owner_lt fxhash id)]
    congr 2
    apply Finset.filter_congr
    intro key _
    rw [hmem, not_and]
    exact ⟨fun h _ => h, fun h => h (router.owner_lt fxhash key.2)⟩
  refine ⟨htotal, ?_, hnodup, ?_⟩
  · intro hnone
    rw [htotal, Store.clusterStatus_count, hnone]
    simp
  · intro name
    rw [hnames name, hlength]
    constructor
    · rintro ⟨s, hs, resp, hresp, hname⟩
      refine ⟨⟨s, hs, ?_⟩, ((hrefines.status_eq hcurrent hresp).2 name).mp hname⟩
      rw [hmem, hresp]
      simp
    · rintro ⟨⟨s, hs, hspoke⟩, hshape⟩
      rw [hmem, not_and] at hspoke
      obtain ⟨resp, hresp⟩ := Option.ne_none_iff_exists'.mp (hspoke hs)
      exact ⟨s, hs, resp, hresp, ((hrefines.status_eq hcurrent hresp).2 name).mpr hshape⟩

/-- Two shards of two replicas; the first replica of each takes a batch that repeats an id and a
deletion, and fails when the status is asked for. The second has applied both by then. -/
theorem clusterStatus_eq_single_follower :
    let shard : Shard ℤ := ⟨⟨["http://a", "http://b"], by decide, 0⟩, ShardGroup.fresh ℤ fun _ => 1⟩
    let router : ShardRouter ℤ := ⟨[shard, shard], by decide, by decide⟩
    let write : ℕ → ℕ → ℕ → AttemptFate (RaftFate ℤ) := fun _ _ _ =>
      .reached (.committed [] ⟨⟨1, 1⟩, 0⟩) false
    let events : List (MirroredEvent ℤ) :=
      [.call (.createCollection (fun _ _ => .delivered) "docs" 1),
        .call (.insert write "docs" [⟨1, [3], ∅⟩, ⟨3, [5], ∅⟩, ⟨5, [7], ∅⟩, ⟨1, [-4], ∅⟩]), .apply 0 1, .apply 1 1,
        .call (.delete write "docs" [3]), .apply 0 1, .apply 1 1, .apply 1 1]
    let cluster := Run.run (next fxHasher) ⟨router, .new⟩ events
    let fates : ℕ → ℕ → StatusFate := fun _ idx => if idx = 1 then .answered else .failed
    cluster.router.clusterStatus fates = some (["docs"], 2) ∧ cluster.single.clusterStatus.2 = 2 := by
  intro shard router write events cluster fates
  have hfresh : router.Fresh := .of_alike shard (by simp [router]) rfl
  have hled : ∀ s, LedBy (fun _ => True) (write s) := fun s => .of_alone (fun _ => trivial) _ _
  have hpermitted : Run.Guarded (Permitted fxHasher) (next fxHasher) ⟨router, .new⟩ events :=
    ⟨fun _ _ _ => rfl, ⟨hled, ⟨4, by decide +kernel⟩, 4, by decide +kernel⟩, trivial, trivial,
      ⟨hled, 1, by decide +kernel⟩, trivial, trivial, trivial, trivial⟩
  have hstatus : cluster.router.clusterStatus fates = some (["docs"], 2) := by decide +kernel
  have happlied : ∀ shard ∈ cluster.router.shards, (shard.group.replicas 1).applied = shard.group.log.length := by
    decide +kernel
  have hcurrent : ∀ s shard idx, cluster.router.shards[s]? = some shard → idx < shard.replicaSet.replicaCount →
      fates s idx = .answered → (shard.group.replicas idx).applied = shard.group.log.length := by
    intro s shard idx hshard _ hanswered
    have hidx : idx = 1 := by
      by_contra hne
      simp [fates, hne] at hanswered
    rw [hidx]
    exact happlied shard (List.mem_of_getElem? hshard)
  obtain ⟨-, hequal⟩ := clusterStatus_eq_single hfresh hpermitted rfl hcurrent
  exact ⟨hstatus, ((hequal _ hstatus).2.1 (by decide +kernel)).symm⟩

end Mirrored

end RaftVec
