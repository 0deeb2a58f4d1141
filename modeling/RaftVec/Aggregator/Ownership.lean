import RaftVec.Aggregator.Cluster
import RaftVec.Node.OwnedStore

/-!
# Records live on their owning shard only

Nothing in a node checks that a record belongs to its shard, and nothing in the merge that
an id comes from one shard only. Both rest on the router's grouping: every request it sends
stores ids of the shard it is sent to. From there the ids cannot spread: entries are
committed, applied, shipped and installed within one group, so all that belongs to a shard
concerns the ids it owns, and the answers of different shards have no id in common.
-/

namespace RaftVec

open Std

/-! ## What a shard's group holds -/

/-- A group whose log stores, and whose replicas hold, only ids with the property. -/
structure ShardGroup.HoldsOnly {F : Type*} [FloatOps F] (owned : UInt64 → Prop) (group : ShardGroup F) : Prop where
  log : LogStoresOnly owned group.log
  stores : ∀ idx, (group.replicas idx).machine.store.HoldsOnly owned

namespace ShardGroup.HoldsOnly

variable {F : Type*} [FloatOps F] {owned : UInt64 → Prop} {group : ShardGroup F}

/-- A group that has just started holds nothing. -/
theorem fresh (nodeIds : ℕ → NodeId) : (ShardGroup.fresh F nodeIds).HoldsOnly owned where
  log cmd hcmd := by cases hcmd
  stores _ := Store.HoldsOnly.new

/-- Committing entries that store only such ids. -/
theorem commit (h : group.HoldsOnly owned) {entries : List (Entry F)} (hentries : LogStoresOnly owned entries) :
    (group.commit entries).HoldsOnly owned := by
  refine ⟨fun cmd hcmd => ?_, h.stores⟩
  rw [ShardGroup.commit, logCommands_append, List.mem_append] at hcmd
  exact hcmd.elim (h.log cmd) (hentries cmd)

/-- Putting one replica in a state that holds only such ids. -/
theorem update (h : group.HoldsOnly owned) (idx : ℕ) {replica : GroupReplica F}
    (hreplica : replica.machine.store.HoldsOnly owned) : (group.update idx replica).HoldsOnly owned := by
  refine ⟨h.log, fun other => ?_⟩
  by_cases hidx : other = idx
  · subst hidx
    simp only [ShardGroup.update, Function.update_self]
    exact hreplica
  · simp only [ShardGroup.update, Function.update_of_ne hidx]
    exact h.stores other

/-- Committing a command at a replica, after what others committed. -/
theorem commitAt (h : group.HoldsOnly owned) (idx : ℕ) {others : List (Entry F)}
    (hothers : LogStoresOnly owned others) (logId : LogId) {cmd : ShardCommand F} (hcmd : cmd.StoresOnly owned) :
    (group.commitAt idx others logId cmd).HoldsOnly owned := by
  have hentry : LogStoresOnly owned [(⟨logId, .normal cmd⟩ : Entry F)] := by
    intro other hother
    cases List.mem_singleton.mp hother
    exact hcmd
  have hbefore := h.commit hothers
  have hleader : (group.leaderMachine others idx).store.HoldsOnly owned := by
    apply (h.stores idx).apply
    exact hbefore.log.of_mem fun entry hentry => List.mem_of_mem_drop hentry
  rw [ShardGroup.commitAt]
  refine (h.commit ?_).update idx (hleader.apply hentry)
  intro other hother
  rw [logCommands_append, List.mem_append] at hother
  exact hother.elim (hothers other) (hentry other)

end ShardGroup.HoldsOnly

/-! ## What the whole cluster holds -/

namespace Cluster

variable {F Bytes : Type*} [FloatOps F]

/-- An attempt changes nothing, or commits its command at the replica it reached. -/
theorem attemptAt_eq (fate : AttemptFate (RaftFate F)) (idx : ℕ) (group : ShardGroup F) (cmd : ShardCommand F) :
    attemptAt fate idx group cmd = group ∨ ∃ others logId replyLost,
      fate = .reached (.committed others logId) replyLost ∧
        attemptAt fate idx group cmd = group.commitAt idx others logId cmd := by
  cases cmd with
  | upsert collection records =>
    exact Shard.writeAttempt_state (fun _ _ => fate) (.upsert collection records) records.length InsertResponse.mk 0
      idx group
  | delete collection ids =>
    exact Shard.writeAttempt_state (fun _ _ => fate) (.delete collection ids) ids.length DeleteResponse.mk 0 idx group

/-- Everything that belongs to a shard concerns only the ids it owns. -/
structure Owned (codec : Bincode F Bytes) (owner : UInt64 → ℕ) (cluster : Cluster F Bytes) : Prop where
  groups : ∀ s, (cluster.groups s).HoldsOnly (owner · = s)
  shipped : ∀ s name shipped, (name, shipped) ∈ cluster.shipped s →
    ∃ coll : Collection F, coll.HoldsOnly (owner · = s) ∧ shipped = coll.snapshot
  snapshots : ∀ s, ∀ snapshot ∈ cluster.snapshots s, ∃ contents : StoreSnapshot F,
    codec.serialize contents = .ok snapshot.snapshot ∧ contents.ShipsOnly (owner · = s)
  writes : ∀ s cmd, (s, cmd) ∈ cluster.writes → cmd.StoresOnly (owner · = s)
  readers : ∀ reader ∈ cluster.readers, OwnedOnce (owner · = reader.shard) reader.phase.ids
  answers : ∀ call ∈ cluster.searches, ∀ s response, call.answers s = some response →
    OwnedOnce (owner · = s) (response.results.map ScoredRecord.id)

variable {codec : Bincode F Bytes} {owner : UInt64 → ℕ} {self : Cluster F Bytes}

/-- Proposed entries store only ids of the shard. -/
theorem Owned.proposed (h : Owned codec owner self) {s : ℕ} {entries : List (Entry F)}
    (hentries : self.Proposed s entries) : LogStoresOnly (owner · = s) entries :=
  fun cmd hcmd => h.writes s cmd (hentries cmd hcmd)

/-- A cluster just started owns nothing. -/
theorem Owned.fresh (nodeIds : ℕ → ℕ → NodeId) : Owned codec owner (Cluster.fresh F Bytes nodeIds) where
  groups s := .fresh (nodeIds s)
  shipped s name shipped hmem := by cases hmem
  snapshots s snapshot hmem := by cases hmem
  writes s cmd hmem := by cases hmem
  readers reader hmem := by cases hmem
  answers call hmem := by cases hmem

/-- One shard's group takes a state that concerns only its ids. -/
theorem Owned.setGroup (h : Owned codec owner self) {s : ℕ} {group : ShardGroup F}
    (hgroup : group.HoldsOnly (owner · = s)) : Owned codec owner (self.setGroup s group) := by
  refine { h with groups := fun t => ?_ }
  by_cases ht : t = s
  · subst ht
    simp only [Cluster.setGroup, Function.update_self]
    exact hgroup
  · simp only [Cluster.setGroup, Function.update_of_ne ht]
    exact h.groups t

/-- One replica's state machine takes a state that concerns only its shard's ids. -/
theorem Owned.setMachine (h : Owned codec owner self) {s idx : ℕ} {machine : ShardStateMachine F}
    (hmachine : machine.store.HoldsOnly (owner · = s)) : Owned codec owner (self.setMachine s idx machine) :=
  h.setGroup ((h.groups s).update idx hmachine)

/-- New requests that store only ids of their shards. -/
theorem Owned.addWrites (h : Owned codec owner self) {requests : List (ℕ × ShardCommand F)}
    (hrequests : ∀ s cmd, (s, cmd) ∈ requests → cmd.StoresOnly (owner · = s)) :
    Owned codec owner { self with writes := self.writes ++ requests } := by
  refine { h with writes := fun s cmd hmem => ?_ }
  rcases List.mem_append.mp hmem with hold | hnew
  · exact h.writes s cmd hold
  · exact hrequests s cmd hnew

omit [FloatOps F] in
/-- The request sent for a group carries that group. -/
theorem mem_groupRequests {A : Type*} {groups : List (List A)} {cmd : List A → ShardCommand F} {s : ℕ}
    {sent : ShardCommand F} (h : (s, sent) ∈ groupRequests groups cmd) :
    ∃ group, groups[s]? = some group ∧ sent = cmd group := by
  obtain ⟨⟨group, place⟩, hmem, hsent⟩ := List.mem_filterMap.mp h
  simp only [Option.ite_none_left_eq_some, Option.some.injEq, Prod.mk.injEq] at hsent
  obtain ⟨-, rfl, rfl⟩ := hsent
  exact ⟨group, List.mem_zipIdx_iff_getElem?.mp hmem, rfl⟩

omit [FloatOps F] in
/-- The request for a shard carries only items the shard owns. -/
theorem owner_of_mem_group {A : Type*} {fxhash : UInt64 → UInt64} {router : ShardRouter F} {items : List A}
    {key : A → UInt64} {s : ℕ} {group : List A} (h : (router.groupByShard fxhash items key)[s]? = some group)
    {item : A} (hitem : item ∈ group) : router.owner fxhash (key item) = s := by
  have hs : s < router.shards.length := by
    rw [← router.length_groupByShard fxhash items key]
    exact (List.getElem?_eq_some_iff.mp h).1
  rw [router.groupByShard_getElem? fxhash items key hs, Option.some.injEq] at h
  subst h
  simpa using (List.mem_filter.mp hitem).2

/-- The shard that owns an id among so many. -/
def ownerAmong (fxhash : UInt64 → UInt64) (shardCount : UInt32) (positive : 0 < shardCount) (id : UInt64) : ℕ :=
  (shardId fxhash id shardCount positive).toNat

omit [FloatOps F] in
/-- A router over so many shards sends an id to the shard that owns it among them. -/
theorem ownerAmong_eq {fxhash : UInt64 → UInt64} {router : ShardRouter F} {shardCount : UInt32}
    (hcount : router.shardCount = shardCount) (positive : 0 < shardCount) (id : UInt64) :
    ownerAmong fxhash shardCount positive id = router.owner fxhash id := by
  subst hcount
  rfl

variable [LinearOrder F]

/-- An attempt commits what its router sent, or nothing. -/
theorem Owned.attempt (h : Owned codec owner self) (fxhash : UInt64 → UInt64) {shardCount : UInt32} {n idx : ℕ}
    {fate : AttemptFate (RaftFate F)} (hpermits : self.Permits shardCount (.attempt n idx fate)) :
    Owned codec owner (self.step fxhash codec (.attempt n idx fate)) := by
  simp only [Cluster.step]
  cases hwrite : self.writes[n]? with
  | none => exact h
  | some request =>
    obtain ⟨s, cmd⟩ := request
    refine h.setGroup ?_
    rcases attemptAt_eq fate idx (self.groups s) cmd with hsame | ⟨others, logId, replyLost, hfate, hcommit⟩
    · rw [hsame]
      exact h.groups s
    · rw [hcommit]
      have hothers := h.proposed (hpermits others logId replyLost hfate s cmd hwrite)
      exact (h.groups s).commitAt idx hothers logId (h.writes s cmd (List.mem_of_getElem? hwrite))

/-- A creation adds an empty collection, or nothing. -/
theorem Owned.create (h : Owned codec owner self) (fxhash : UInt64 → UInt64) (s idx : ℕ) (fate : CreateFate)
    (req : CreateCollectionRequest) : Owned codec owner (self.step fxhash codec (.create s idx fate req)) := by
  refine h.setMachine ?_
  have hstore := (h.groups s).stores idx
  have hcreated : (NodeService.createCollection (self.machine s idx).store req).2.HoldsOnly (owner · = s) := by
    rw [(NodeService.createCollection_store _ req).1]
    exact hstore.createCollection req.name req.dim.toNat req.shardCount
  cases fate with
  | delivered => exact hcreated
  | replyLost status => exact hcreated
  | undelivered status => exact hstore

omit [FloatOps F] [LinearOrder F] in
/-- What one shard's list has gained. -/
theorem mem_update_append {A : Type*} {lists : ℕ → List A} {s t : ℕ} {new item : A}
    (h : item ∈ Function.update lists s (lists s ++ [new]) t) : item ∈ lists t ∨ t = s ∧ item = new := by
  by_cases ht : t = s
  · subst ht
    rw [Function.update_self] at h
    exact (List.mem_append.mp h).imp_right fun hnew => ⟨rfl, List.mem_singleton.mp hnew⟩
  · rw [Function.update_of_ne ht] at h
    exact Or.inl h

/-- A replica ships a collection it holds. -/
theorem Owned.ship (h : Owned codec owner self) (fxhash : UInt64 → UInt64) (s idx : ℕ) (name : String) :
    Owned codec owner (self.step fxhash codec (.ship s idx name)) := by
  simp only [Cluster.step]
  cases hcoll : (self.machine s idx).store.collections[name]? with
  | none => exact h
  | some coll =>
    refine { h with shipped := fun t other shipped hmem => ?_ }
    rcases mem_update_append hmem with hold | ⟨rfl, hnew⟩
    · exact h.shipped t other shipped hold
    · exact ⟨coll, (h.groups t).stores idx name coll hcoll, congrArg Prod.snd hnew⟩

/-- A snapshot is built of collections that were shipped. -/
theorem Owned.build (h : Owned codec owner self) (fxhash : UInt64 → UInt64) {shardCount : UInt32} {s idx : ℕ}
    {contents : StoreSnapshot F} (hpermits : self.Permits shardCount (.build s idx contents)) :
    Owned codec owner (self.step fxhash codec (.build s idx contents)) := by
  simp only [Cluster.step]
  cases hbytes : codec.serialize contents with
  | error e => exact h
  | ok bytes =>
    refine { h with snapshots := fun t snapshot hmem => ?_ }
    rcases mem_update_append hmem with hold | ⟨rfl, rfl⟩
    · exact h.snapshots t snapshot hold
    · exact ⟨contents, hbytes, fun name shipped hshipped => h.shipped t name shipped (hpermits name shipped hshipped)⟩

/-- An installed snapshot was built in the shard. -/
theorem Owned.install (h : Owned codec owner self) (fxhash : UInt64 → UInt64) (hcodec : codec.RoundTrips)
    {shardCount : UInt32} {s idx : ℕ} {snapshot : Snapshot Bytes}
    (hpermits : self.Permits shardCount (.install s idx snapshot)) :
    Owned codec owner (self.step fxhash codec (.install s idx snapshot)) := by
  obtain ⟨contents, hserialize, hships⟩ := h.snapshots s snapshot hpermits
  refine h.setMachine ?_
  simp only [ShardStateMachine.installSnapshot, hcodec _ _ hserialize]
  exact Store.HoldsOnly.restore hships _

/-- A search starts without answers. -/
theorem Owned.search (h : Owned codec owner self) (fxhash : UInt64 → UInt64) (req : SearchRequest F) :
    Owned codec owner (self.step fxhash codec (.search req)) := by
  refine { h with answers := fun call hmem s response hresponse => ?_ }
  rcases List.mem_append.mp hmem with hold | hnew
  · exact h.answers call hold s response hresponse
  · cases List.mem_singleton.mp hnew
    cases hresponse

/-- A handler starts without hits. -/
theorem Owned.handle (h : Owned codec owner self) (fxhash : UInt64 → UInt64) (n s idx : ℕ)
    (schedule : ScanSchedule (VectorRecord F × F)) :
    Owned codec owner (self.step fxhash codec (.handle n s idx schedule)) := by
  refine { h with readers := fun reader hmem => ?_ }
  rcases List.mem_append.mp hmem with hold | hnew
  · exact h.readers reader hold
  · cases List.mem_singleton.mp hnew
    exact ⟨List.nodup_nil, fun id hid => by cases hid⟩

/-- A step of a handler keeps the ids it found. -/
theorem Owned.read (h : Owned codec owner self) (fxhash : UInt64 → UInt64) (r : ℕ) :
    Owned codec owner (self.step fxhash codec (.read r)) := by
  simp only [step]
  split
  · next reader hreader =>
    split
    · next call hcall =>
      refine { h with readers := fun other hother => ?_ }
      rcases List.mem_or_eq_of_mem_set hother with hold | rfl
      · exact h.readers other hold
      · exact Store.HoldsOnly.searchStep ((h.groups reader.shard).stores reader.replica)
          (h.readers reader (List.mem_of_getElem? hreader)) reader.schedule call.req
    · exact h
  · exact h

/-- An answer that comes in has the ids of the handler that gave it. -/
theorem Owned.answer (h : Owned codec owner self) (fxhash : UInt64 → UInt64) (r : ℕ) :
    Owned codec owner (self.step fxhash codec (.answer r)) := by
  simp only [step]
  split
  · next n s idx schedule response hreader =>
    cases hcall : self.searches[n]? with
    | none => exact h
    | some call =>
      refine { h with answers := fun other hother t found hfound => ?_ }
      rcases List.mem_or_eq_of_mem_set hother with hold | rfl
      · exact h.answers other hold t found hfound
      · by_cases ht : t = s
        · subst ht
          simp only [Function.update_self, Option.some.injEq] at hfound
          subst hfound
          have hids := h.readers _ (List.mem_of_getElem? hreader)
          simpa [SearchPhase.ids, SearchPhase.hits, SearchPhase.pending] using hids
        · simp only [Function.update_of_ne ht] at hfound
          exact h.answers call (List.mem_of_getElem? hcall) t found hfound
  · exact h

/-- Every step the environment permits keeps all that belongs to a shard to its ids. -/
theorem Owned.step {fxhash : UInt64 → UInt64} {shardCount : UInt32} {positive : 0 < shardCount}
    (h : Owned codec (ownerAmong fxhash shardCount positive) self) (hcodec : codec.RoundTrips)
    {event : ClusterEvent F Bytes} (hevent : self.Permits shardCount event) :
    Owned codec (ownerAmong fxhash shardCount positive) (self.step fxhash codec event) := by
  cases event with
  | insert router collection records =>
    refine h.addWrites fun s cmd hmem => ?_
    obtain ⟨group, hgroup, rfl⟩ := mem_groupRequests hmem
    intro record hrecord
    rw [ownerAmong_eq hevent]
    exact owner_of_mem_group hgroup hrecord
  | delete router collection ids =>
    refine h.addWrites fun s cmd hmem => ?_
    obtain ⟨group, -, rfl⟩ := mem_groupRequests hmem
    trivial
  | attempt n idx fate => exact h.attempt fxhash hevent
  | commit s entries => exact h.setGroup ((h.groups s).commit (h.proposed hevent))
  | apply s idx entries =>
    exact h.setMachine (Store.HoldsOnly.apply ((h.groups s).stores idx) ((h.groups s).log.of_mem hevent))
  | create s idx fate req => exact h.create fxhash s idx fate req
  | restart s idx => exact h.setMachine Store.HoldsOnly.new
  | ship s idx name => exact h.ship fxhash s idx name
  | build s idx contents => exact h.build fxhash hevent
  | install s idx snapshot => exact h.install fxhash hcodec hevent
  | search req => exact h.search fxhash req
  | handle n s idx schedule => exact h.handle fxhash n s idx schedule
  | read r => exact h.read fxhash r
  | answer r => exact h.answer fxhash r

/-- In a permitted run all that belongs to a shard stays with its ids. -/
theorem Owned.run {fxhash : UInt64 → UInt64} {shardCount : UInt32} {positive : 0 < shardCount}
    (h : Owned codec (ownerAmong fxhash shardCount positive) self) (hcodec : codec.RoundTrips)
    {events : List (ClusterEvent F Bytes)}
    (hguard : Run.Guarded (Permits shardCount) (Cluster.step fxhash codec) self events) :
    Owned codec (ownerAmong fxhash shardCount positive) (Run.run (Cluster.step fxhash codec) self events) :=
  Run.invariant_of_guarded (fun _ _ hbefore hevent => hbefore.step hcodec hevent) h hguard

end Cluster

/-! ## What a search returns -/

namespace SearchCall

variable {F : Type*}

/-- The hits of one shard's answer, none while it has not come in. -/
def hits (self : SearchCall F) (s : ℕ) : List (ScoredRecord F) :=
  ((self.answers s).map SearchResponse.results).getD []

/-- The answers that came in together have the hits of all shards. -/
theorem flatten_answers (self : SearchCall F) (shards : List ℕ) :
    ((shards.map self.answers).reduceOption.map SearchResponse.results).flatten = shards.flatMap self.hits := by
  induction shards with
  | nil => rfl
  | cons s shards ih =>
    rw [List.map_cons, List.flatMap_cons, ← ih, hits]
    cases self.answers s with
    | none => rw [List.reduceOption_cons_of_none, Option.map_none, Option.getD_none, List.nil_append]
    | some response =>
      rw [List.reduceOption_cons_of_some, List.map_cons, List.flatten_cons, Option.map_some, Option.getD_some]

/-- The hits of an answer with ids of its shard only, each once. -/
theorem ownedOnce_hits {owner : UInt64 → ℕ} {self : SearchCall F}
    (h : ∀ s response, self.answers s = some response →
      OwnedOnce (owner · = s) (response.results.map ScoredRecord.id)) (s : ℕ) :
    OwnedOnce (owner · = s) ((self.hits s).map ScoredRecord.id) := by
  cases hanswer : self.answers s with
  | none =>
    rw [hits, hanswer]
    exact ⟨List.nodup_nil, fun id hid => by cases hid⟩
  | some response =>
    rw [hits, hanswer]
    exact h s response hanswer

/-- Answers with ids of their own shards are merged into distinct ids, each hit as its shard sent it. -/
theorem result_owned [LinearOrder F] {owner : UInt64 → ℕ} {self : SearchCall F}
    (h : ∀ s response, self.answers s = some response →
      OwnedOnce (owner · = s) (response.results.map ScoredRecord.id)) (shardCount : ℕ) :
    ((self.result shardCount).1.map ScoredRecord.id).Nodup ∧
      ∀ hit ∈ (self.result shardCount).1, hit ∈ self.hits (owner hit.id) := by
  have hlists : ((List.range shardCount).map self.answers).foldl ShardRouter.tally (0, []) =
      (0 + UInt32.ofNat (((List.range shardCount).map self.answers).countP Option.isNone),
        [] ++ ((List.range shardCount).map self.answers).reduceOption.map SearchResponse.results) :=
    ShardRouter.foldl_responses _ 0 []
  have hnodup : (((List.range shardCount).flatMap self.hits).map ScoredRecord.id).Nodup := by
    rw [List.map_flatMap, List.nodup_flatMap]
    refine ⟨fun s _ => (ownedOnce_hits h s).1, List.nodup_range.imp fun {s t} hne id hs ht => ?_⟩
    exact hne (((ownedOnce_hits h s).2 id hs).symm.trans ((ownedOnce_hits h t).2 id ht))
  rw [← flatten_answers] at hnodup
  obtain ⟨hids, hsent⟩ := mergeScoredRecords_sent self.req.k.toNat hnodup
  simp only [result, hlists, List.nil_append]
  refine ⟨hids, fun hit hhit => ?_⟩
  have hmem := hsent hit hhit
  rw [flatten_answers] at hmem
  obtain ⟨s, -, hs⟩ := List.mem_flatMap.mp hmem
  have howner : owner hit.id = s := (ownedOnce_hits h s).2 hit.id (List.mem_map_of_mem hs)
  rw [howner]
  exact hs

end SearchCall

namespace Cluster

variable {F Bytes : Type*} [FloatOps F] [LinearOrder F]

/-- In every run of a cluster of `N` shards in which clients write through routers over
these shards: a record held by a replica of a shard has an id the shard owns, no id is held
by two shards, and every search returns distinct ids, each hit as its owning shard sent it. -/
theorem records_on_owning_shard (fxhash : UInt64 → UInt64) {codec : Bincode F Bytes} (hcodec : codec.RoundTrips)
    {shardCount : UInt32} (positive : 0 < shardCount) (nodeIds : ℕ → ℕ → NodeId)
    {events : List (ClusterEvent F Bytes)}
    (hguard : Run.Guarded (Permits shardCount) (step fxhash codec) (fresh F Bytes nodeIds) events) :
    let final := Run.run (step fxhash codec) (fresh F Bytes nodeIds) events
    (∀ s idx name (id : UInt64) stored, (final.machine s idx).store.version name id = some stored →
      stored.record.id = id ∧ (shardId fxhash id shardCount positive).toNat = s) ∧
    (∀ s t idx other name name' (id : UInt64) stored stored',
      (final.machine s idx).store.version name id = some stored →
      (final.machine t other).store.version name' id = some stored' → s = t) ∧
    ∀ call ∈ final.searches,
      ((call.result shardCount.toNat).1.map ScoredRecord.id).Nodup ∧
      ∀ hit ∈ (call.result shardCount.toNat).1, ∃ response,
        call.answers (shardId fxhash hit.id shardCount positive).toNat = some response ∧
        hit ∈ response.results ∧ ∀ sent ∈ response.results, sent.id = hit.id → sent = hit := by
  intro final
  have hfinal : Owned codec (ownerAmong fxhash shardCount positive) final :=
    (Owned.fresh nodeIds).run hcodec hguard
  have hheld : ∀ s idx name (id : UInt64) stored, (final.machine s idx).store.version name id = some stored →
      stored.record.id = id ∧ (shardId fxhash id shardCount positive).toNat = s := by
    intro s idx name id stored hversion
    obtain ⟨coll, hcoll, hstored⟩ := Option.bind_eq_some_iff.mp hversion
    have hholds := (hfinal.groups s).stores idx name coll hcoll
    exact ⟨hholds.wellFormed.keyed id stored hstored, hholds.owned id stored hstored⟩
  refine ⟨hheld, ?_, ?_⟩
  · intro s t idx other name name' id stored stored' hs ht
    rw [← (hheld s idx name id stored hs).2, ← (hheld t other name' id stored' ht).2]
  · intro call hcall
    have hanswers := hfinal.answers call hcall
    obtain ⟨hnodup, hsent⟩ := SearchCall.result_owned hanswers shardCount.toNat
    refine ⟨hnodup, fun hit hhit => ?_⟩
    have hmem := hsent hit hhit
    rw [SearchCall.hits] at hmem
    cases hanswer : call.answers (ownerAmong fxhash shardCount positive hit.id) with
    | none =>
      rw [hanswer] at hmem
      cases hmem
    | some response =>
      rw [hanswer] at hmem
      refine ⟨response, hanswer, hmem, fun sent hsentMem hid => ?_⟩
      exact List.inj_on_of_nodup_map (hanswers _ response hanswer).1 hsentMem hmem hid

/-- Two shards, a batch with a record for each whose replies are lost, one record sent again, and a
search that the first shard answers. -/
theorem records_on_owning_shard_two_shards :
    let shard : Shard ℤ := ⟨⟨["http://a"], by decide, 0⟩, ShardGroup.fresh ℤ fun _ => 1⟩
    let router : ShardRouter ℤ := ⟨[shard, shard], by decide, by decide⟩
    let fate : AttemptFate (RaftFate ℤ) := .reached (.committed [] ⟨⟨1, 1⟩, 0⟩) true
    let events : List (ClusterEvent ℤ (StoreSnapshot ℤ)) :=
      [.create 0 0 .delivered ⟨"docs", 1, 2⟩, .create 1 0 .delivered ⟨"docs", 1, 2⟩,
        .insert router "docs" [⟨3, [3], ∅⟩, ⟨1, [5], ∅⟩], .attempt 0 0 fate, .attempt 1 0 fate, .attempt 0 0 fate,
        .search ⟨"docs", [1], 2⟩, .handle 0 0 0 (.sequential _), .read 0, .read 0, .read 0, .answer 0]
    let final := Run.run (step fxHasher (Bincode.identity ℤ)) (fresh ℤ (StoreSnapshot ℤ) fun _ _ => 1) events
    (final.machine 0 0).store.version "docs" 3 = some (StoredVector.ofRecord ⟨3, [3], ∅⟩) ∧
      (shardId fxHasher 3 2 (by decide)).toNat = 0 ∧
      (final.searches.map fun call => (call.result 2).1.map ScoredRecord.id) = [[3]] ∧
      ∀ call ∈ final.searches, ((call.result (2 : UInt32).toNat).1.map ScoredRecord.id).Nodup := by
  intro shard router fate events final
  have hattempt : ∀ (self : Cluster ℤ (StoreSnapshot ℤ)) n idx, self.Permits 2 (.attempt n idx fate) := by
    intro self n idx others logId replyLost hfate s cmd hwrite other hother
    rw [← (RaftFate.committed.inj (AttemptFate.reached.inj hfate).1).1] at hother
    cases hother
  have hguard : Run.Guarded (Permits 2) (step fxHasher (Bincode.identity ℤ))
      (fresh ℤ (StoreSnapshot ℤ) fun _ _ => 1) events :=
    ⟨trivial, trivial, rfl, hattempt _ 0 0, hattempt _ 1 0, hattempt _ 0 0, trivial, trivial, trivial, trivial,
      trivial, trivial, trivial⟩
  have hheld : (final.machine 0 0).store.version "docs" 3 = some (StoredVector.ofRecord ⟨3, [3], ∅⟩) := by
    decide +kernel
  have hsearches : (final.searches.map fun call => (call.result 2).1.map ScoredRecord.id) = [[3]] := by
    decide +kernel
  have positive : (0 : UInt32) < 2 := by decide
  obtain ⟨howner, -, hfound⟩ :=
    records_on_owning_shard fxHasher (Bincode.identity_roundTrips ℤ) positive (fun _ _ => 1) hguard
  refine ⟨hheld, ?_, hsearches, ?_⟩
  · exact (howner 0 0 "docs" 3 _ hheld).2
  · intro call hcall
    exact (hfound call hcall).1

end Cluster

end RaftVec
