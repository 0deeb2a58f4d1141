import RaftVec.Aggregator.Merge
import RaftVec.Node.HitVersions

/-!
# A cluster under many routers

A run of a cluster under any number of routers and clients. A write is cut into groups as
the router cuts it, and from then on a group's request may reach any replica of its shard
any number of times, be redirected, fail, lose its reply, or be committed after its caller
gave up. Replicas apply any committed entries, again if need be, create collections,
restart, ship their collections and install what others of their shard shipped. A search
is answered by handlers that run step by step beside all that.

Openraft commits and applies nothing but what was proposed in its group, and ships
snapshots within a group only. Nothing else is asked of it here.

The calls of a router are such runs: an insert and a delete of `ShardRouter` leave every
group as the attempts that their retry loops make, and its search is the search call with
the answers that its shards gave.
-/

namespace RaftVec

open Std

/-- A handler at work on a search at one replica. -/
structure Reader (F : Type*) where
  search : ℕ
  shard : ℕ
  replica : ℕ
  schedule : ScanSchedule (VectorRecord F × F)
  phase : SearchPhase F

/-- A search with the answers that have come in, by shard. -/
structure SearchCall (F : Type*) where
  req : SearchRequest F
  answers : ℕ → Option (SearchResponse F)

/-- The shards' groups, what has been shipped within them, and the requests under way. -/
structure Cluster (F Bytes : Type*) where
  groups : ℕ → ShardGroup F
  shipped : ℕ → List (String × CollectionSnapshot F)
  snapshots : ℕ → List (Snapshot Bytes)
  writes : List (ℕ × ShardCommand F)
  searches : List (SearchCall F)
  readers : List (Reader F)

/-- What can happen in a cluster. -/
inductive ClusterEvent (F Bytes : Type*) where
  | insert (router : ShardRouter F) (collection : String) (records : List (VectorRecord F))
  | delete (router : ShardRouter F) (collection : String) (ids : List UInt64)
  | attempt (n idx : ℕ) (fate : AttemptFate (RaftFate F))
  | commit (s : ℕ) (entries : List (Entry F))
  | apply (s idx : ℕ) (entries : List (Entry F))
  | create (s idx : ℕ) (fate : CreateFate) (req : CreateCollectionRequest)
  | restart (s idx : ℕ)
  | ship (s idx : ℕ) (name : String)
  | build (s idx : ℕ) (contents : StoreSnapshot F)
  | install (s idx : ℕ) (snapshot : Snapshot Bytes)
  | search (req : SearchRequest F)
  | handle (n s idx : ℕ) (schedule : ScanSchedule (VectorRecord F × F))
  | read (r : ℕ)
  | answer (r : ℕ)

/-- The requests of a write, one for each group that is not empty. -/
def groupRequests {α F : Type*} (groups : List (List α)) (cmd : List α → ShardCommand F) :
    List (ℕ × ShardCommand F) :=
  groups.zipIdx.filterMap fun (group, s) => if group.isEmpty then none else some (s, cmd group)

namespace SearchCall

variable {F : Type*} [LinearOrder F]

/-- What the call returns once no more answers are waited for: the merged hits, and how many
shards were asked and failed. -/
def result (self : SearchCall F) (shardCount : ℕ) : List (ScoredRecord F) × UInt32 × UInt32 :=
  let responses := (List.range shardCount).map self.answers
  let counted := responses.foldl ShardRouter.tally (0, [])
  (mergeScoredRecords counted.2 self.req.k.toNat, UInt32.ofNat responses.length, counted.1)

end SearchCall

namespace Cluster

variable {F Bytes : Type*}

/-- A cluster just started, over empty stores. -/
def fresh (F Bytes : Type*) (nodeIds : ℕ → ℕ → NodeId) : Cluster F Bytes :=
  ⟨fun s => ShardGroup.fresh F (nodeIds s), fun _ => [], fun _ => [], [], [], []⟩

/-- Put one shard's group in a new state. -/
def setGroup (self : Cluster F Bytes) (s : ℕ) (group : ShardGroup F) : Cluster F Bytes :=
  { self with groups := Function.update self.groups s group }

/-- Put one replica's state machine in a new state. -/
def setMachine (self : Cluster F Bytes) (s idx : ℕ) (machine : ShardStateMachine F) : Cluster F Bytes :=
  self.setGroup s ((self.groups s).update idx { (self.groups s).replicas idx with machine := machine })

/-- A replica's state machine. -/
def machine (self : Cluster F Bytes) (s idx : ℕ) : ShardStateMachine F :=
  ((self.groups s).replicas idx).machine

/-- The commands among the entries were sent to the shard by a router. -/
def Proposed (self : Cluster F Bytes) (s : ℕ) (entries : List (Entry F)) : Prop :=
  ∀ cmd ∈ logCommands entries, (s, cmd) ∈ self.writes

/-- Routers have `N` shards; openraft commits what was proposed to the shard, applies what
was committed there, and ships and installs what replicas of the shard held. -/
def Permits (shardCount : UInt32) (self : Cluster F Bytes) : ClusterEvent F Bytes → Prop
  | .insert router _ _ => router.shardCount = shardCount
  | .delete router _ _ => router.shardCount = shardCount
  | .attempt n _ fate => ∀ others logId replyLost, fate = .reached (.committed others logId) replyLost →
      ∀ s cmd, self.writes[n]? = some (s, cmd) → self.Proposed s others
  | .commit s entries => self.Proposed s entries
  | .apply s _ entries => ∀ entry ∈ entries, entry ∈ (self.groups s).log
  | .build s _ contents => ∀ (name : String) shipped, contents.collections[name]? = some shipped →
      (name, shipped) ∈ self.shipped s
  | .install s _ snapshot => snapshot ∈ self.snapshots s
  | _ => True

variable [FloatOps F]

/-- One attempt to have a command committed at one replica. -/
def attemptAt (fate : AttemptFate (RaftFate F)) (idx : ℕ) (group : ShardGroup F) :
    ShardCommand F → ShardGroup F
  | .upsert collection records => (Shard.insertAttempt (fun _ _ => fate) ⟨collection, records⟩ 0 idx group).2
  | .delete collection ids => (Shard.deleteAttempt (fun _ _ => fate) ⟨collection, ids⟩ 0 idx group).2

variable [LinearOrder F]

/-- Take one step. -/
def step (fxhash : UInt64 → UInt64) (codec : Bincode F Bytes) (self : Cluster F Bytes) :
    ClusterEvent F Bytes → Cluster F Bytes
  | .insert router collection records =>
    { self with
      writes := self.writes ++
        groupRequests (router.groupByShard fxhash records VectorRecord.id) (.upsert collection) }
  | .delete router collection ids =>
    { self with
      writes := self.writes ++ groupRequests (router.groupByShard fxhash ids fun id => id) (.delete collection) }
  | .attempt n idx fate =>
    match self.writes[n]? with
    | some (s, cmd) => self.setGroup s (attemptAt fate idx (self.groups s) cmd)
    | none => self
  | .commit s entries => self.setGroup s ((self.groups s).commit entries)
  | .apply s idx entries => self.setMachine s idx ((self.machine s idx).apply entries).2
  | .create s idx fate req => self.setMachine s idx (fate.outcome (self.machine s idx) req).2
  | .restart s idx => self.setMachine s idx (.new .new)
  | .ship s idx name =>
    match (self.machine s idx).store.collections[name]? with
    | some coll =>
      { self with shipped := Function.update self.shipped s (self.shipped s ++ [(name, coll.snapshot)]) }
    | none => self
  | .build s idx contents =>
    match codec.serialize contents with
    | .ok bytes =>
      { self with
        snapshots := Function.update self.snapshots s (self.snapshots s ++
          [⟨⟨(self.machine s idx).lastAppliedLog, (self.machine s idx).lastMembership⟩, bytes⟩]) }
    | .error _ => self
  | .install s idx snapshot =>
    self.setMachine s idx ((self.machine s idx).installSnapshot codec snapshot.covers snapshot.snapshot).2
  | .search req => { self with searches := self.searches ++ [⟨req, fun _ => none⟩] }
  | .handle n s idx schedule => { self with readers := self.readers ++ [⟨n, s, idx, schedule, .scanning⟩] }
  | .read r =>
    match self.readers[r]? with
    | some reader =>
      match self.searches[reader.search]? with
      | some call =>
        let inFlight := SearchInFlight.step reader.schedule call.req
          ⟨(self.machine reader.shard reader.replica).store, [], reader.phase⟩ .search
        { self with readers := self.readers.set r { reader with phase := inFlight.phase } }
      | none => self
    | none => self
  | .answer r =>
    match self.readers[r]? with
    | some ⟨n, s, _, _, .finished (.ok response)⟩ =>
      match self.searches[n]? with
      | some call =>
        { self with
          searches := self.searches.set n { call with answers := Function.update call.answers s (some response) } }
      | none => self
    | _ => self

/-! ## The router's calls are runs -/

omit [FloatOps F] [LinearOrder F] in
/-- A request is sent for every group that is not empty. -/
theorem mem_groupRequests_of_ne_nil {A : Type*} {groups : List (List A)} (cmd : List A → ShardCommand F) {s : ℕ}
    {group : List A} (hgroup : groups[s]? = some group) (hne : group ≠ []) :
    (s, cmd group) ∈ groupRequests groups cmd := by
  refine List.mem_filterMap.mpr ⟨(group, s), List.mem_zipIdx_iff_getElem?.mpr hgroup, ?_⟩
  simp [hne]

omit [FloatOps F] [LinearOrder F] in
/-- A group put in its own state stays as it is. -/
theorem setGroup_self (self : Cluster F Bytes) (s : ℕ) : self.setGroup s (self.groups s) = self := by
  rw [setGroup, Function.update_eq_self]

omit [FloatOps F] [LinearOrder F] in
/-- Of two states of a group the later one stays. -/
theorem setGroup_setGroup (self : Cluster F Bytes) (s : ℕ) (before after : ShardGroup F) :
    (self.setGroup s before).setGroup s after = self.setGroup s after := by
  simp only [setGroup, Function.update_idem]

/-- What others have committed during the attempts at a shard was proposed to it too. -/
def CommitsProposed (self : Cluster F Bytes) (s : ℕ) (fates : ℕ → ℕ → AttemptFate (RaftFate F)) : Prop :=
  ∀ made idx others logId replyLost, fates made idx = .reached (.committed others logId) replyLost →
    self.Proposed s others

omit [FloatOps F] [LinearOrder F] in
/-- More requests leave it proposed. -/
theorem CommitsProposed.of_subset {self other : Cluster F Bytes} {s : ℕ}
    {fates : ℕ → ℕ → AttemptFate (RaftFate F)} (h : self.CommitsProposed s fates)
    (hwrites : self.writes ⊆ other.writes) : other.CommitsProposed s fates :=
  fun made idx others logId replyLost hfate cmd hcmd => hwrites (h made idx others logId replyLost hfate cmd hcmd)

/-- The retry loop of a call is a run of attempts of one request. -/
theorem exists_run_retryLoop {R : Type*} [CarriesLeaderHint R] (fxhash : UInt64 → UInt64) (codec : Bincode F Bytes)
    (shardCount : UInt32) {self : Cluster F Bytes} {n s : ℕ} {cmd : ShardCommand F}
    (hwrite : self.writes[n]? = some (s, cmd)) {fates : ℕ → ℕ → AttemptFate (RaftFate F)}
    (hothers : self.CommitsProposed s fates)
    {attempt : ℕ → ℕ → ShardGroup F → AttemptOutcome R × ShardGroup F}
    (hattempt : ∀ made idx group, (attempt made idx group).2 = attemptAt (fates made idx) idx group cmd)
    (replicas : ShardReplicaSet) (left : ℕ) {current : RetryState (ShardGroup F)}
    (hcurrent : self.groups s = current.state) :
    ∃ events, Run.Guarded (Permits shardCount) (step fxhash codec) self events ∧
      Run.run (step fxhash codec) self events =
        self.setGroup s (retryLoop replicas attempt left current).2.state := by
  induction left generalizing self current with
  | zero =>
    refine ⟨[], trivial, ?_⟩
    rw [retryLoop, ← hcurrent, setGroup_self]
    rfl
  | succ left ih =>
    have hpermits : self.Permits shardCount (.attempt n current.idx (fates current.made current.idx)) := by
      intro others logId replyLost hfate t other hother
      rw [hwrite, Option.some.injEq, Prod.mk.injEq] at hother
      obtain ⟨rfl, rfl⟩ := hother
      exact hothers _ _ others logId replyLost hfate
    have hstep : self.step fxhash codec (.attempt n current.idx (fates current.made current.idx)) =
        self.setGroup s (attempt current.made current.idx current.state).2 := by
      simp only [step, hwrite, hattempt, hcurrent]
    simp only [retryLoop]
    cases hserved : (attempt current.made current.idx current.state).1.served with
    | some response => exact ⟨[_], ⟨hpermits, trivial⟩, hstep⟩
    | none =>
      have hsent : (self.setGroup s (attempt current.made current.idx current.state).2).writes[n]? = some (s, cmd) :=
        hwrite
      have hnext : (self.setGroup s (attempt current.made current.idx current.state).2).groups s =
          (current.advance replicas (attempt current.made current.idx current.state)).state :=
        Function.update_self s _ self.groups
      obtain ⟨events, hguard, hrun⟩ := ih hsent hothers hnext
      refine ⟨_ :: events, ⟨hpermits, ?_⟩, ?_⟩
      · rw [hstep]
        exact hguard
      · rw [Run.run_cons, hstep, hrun, setGroup_setGroup]

/-- The call a router makes to one shard is a run that moves this shard's group only. -/
theorem exists_run_call {R : Type*} [CarriesLeaderHint R] (fxhash : UInt64 → UInt64) (codec : Bincode F Bytes)
    (shardCount : UInt32) {self : Cluster F Bytes} {s : ℕ} {cmd : ShardCommand F} (hsent : (s, cmd) ∈ self.writes)
    {fates : ℕ → ℕ → AttemptFate (RaftFate F)} (hothers : self.CommitsProposed s fates)
    {attempt : ℕ → ℕ → ShardGroup F → AttemptOutcome R × ShardGroup F}
    (hattempt : ∀ made idx group, (attempt made idx group).2 = attemptAt (fates made idx) idx group cmd)
    {shard : Shard F} (hgroup : self.groups s = shard.group) :
    ∃ events, Run.Guarded (Permits shardCount) (step fxhash codec) self events ∧
      Run.run (step fxhash codec) self events = self.setGroup s (shard.call attempt).2.group := by
  obtain ⟨n, hn⟩ := List.mem_iff_getElem?.mp hsent
  have hfirst : self.groups s = (RetryState.first shard.replicaSet shard.group).state := hgroup
  exact exists_run_retryLoop fxhash codec shardCount hn hothers hattempt shard.replicaSet maxLeaderAttempts hfirst

/-- The groups below a shard are as a router's calls leave them, the others as they were. -/
structure CalledUpTo (upTo : ℕ) (router called : ShardRouter F) (start reached : Cluster F Bytes) : Prop where
  writes : reached.writes = start.writes
  groups : ∀ (s : ℕ) before after, router.shards[s]? = some before → called.shards[s]? = some after →
    reached.groups s = if s < upTo then after.group else before.group

omit [FloatOps F] [LinearOrder F] in
/-- The next shard's call moves this shard's group only. -/
theorem CalledUpTo.setGroup {upTo : ℕ} {router called : ShardRouter F} {start self : Cluster F Bytes}
    (h : CalledUpTo upTo router called start self) {after : Shard F} (hafter : called.shards[upTo]? = some after) :
    CalledUpTo (upTo + 1) router called start (self.setGroup upTo after.group) := by
  refine ⟨h.writes, fun s before final hbefore hfinal => ?_⟩
  by_cases hs : s = upTo
  · subst hs
    cases hafter.symm.trans hfinal
    rw [if_pos (Nat.lt_succ_self s)]
    exact Function.update_self s _ _
  · have hbound : s < upTo + 1 ↔ s < upTo := by omega
    simp only [Cluster.setGroup, Function.update_of_ne hs, hbound]
    exact h.groups s before final hbefore hfinal

omit [FloatOps F] [LinearOrder F] in
/-- A shard that is not called stays as it was. -/
theorem CalledUpTo.skip {upTo : ℕ} {router called : ShardRouter F} {start self : Cluster F Bytes}
    (h : CalledUpTo upTo router called start self)
    (hsame : ∀ shard, router.shards[upTo]? = some shard → called.shards[upTo]? = some shard) :
    CalledUpTo (upTo + 1) router called start self := by
  refine ⟨h.writes, fun s before after hbefore hafter => ?_⟩
  rw [h.groups s before after hbefore hafter]
  by_cases hs : s = upTo
  · subst hs
    cases (hsame before hbefore).symm.trans hafter
    rw [ite_self, ite_self]
  · have hbound : s < upTo + 1 ↔ s < upTo := by omega
    simp only [hbound]

/-- The calls a router makes for the groups of a write are a run of attempts of the requests
it sends for them: up to any shard, the groups are as the router leaves them. -/
theorem exists_run_callGroups {A R : Type*} [CarriesLeaderHint R] {fxhash : UInt64 → UInt64} (codec : Bincode F Bytes)
    {router : ShardRouter F} {items : List A} {key : A → UInt64} {cmd : List A → ShardCommand F}
    {self : Cluster F Bytes}
    (hsent : groupRequests (router.groupByShard fxhash items key) cmd ⊆ self.writes)
    (hgroups : ∀ (s : ℕ) shard, router.shards[s]? = some shard → self.groups s = shard.group)
    {fates : ℕ → ℕ → ℕ → AttemptFate (RaftFate F)} (hothers : ∀ s, self.CommitsProposed s (fates s))
    {attempt : ℕ → List A → ℕ → ℕ → ShardGroup F → AttemptOutcome R × ShardGroup F}
    (hattempt : ∀ s group made idx before,
      (attempt s group made idx before).2 = attemptAt (fates s made idx) idx before (cmd group)) (upTo : ℕ) :
    ∃ events, Run.Guarded (Permits router.shardCount) (step fxhash codec) self events ∧
      CalledUpTo upTo router (router.callGroups (router.groupByShard fxhash items key) fun s group shard =>
        shard.call (attempt s group)).2 self (Run.run (step fxhash codec) self events) := by
  induction upTo with
  | zero => exact ⟨[], trivial, rfl, fun s before after hbefore _ => hgroups s before hbefore⟩
  | succ upTo ih =>
    obtain ⟨events, hguard, hreached⟩ := ih
    by_cases hcall : ∃ shard, router.shards[upTo]? = some shard ∧ router.share fxhash items key upTo ≠ []
    · obtain ⟨shard, hshard, hshare⟩ := hcall
      have hcalled := (ShardRouter.callGroups_shards_of_ne_nil (fun s group shard => shard.call (attempt s group))
        hshard hshare).1
      have hrequest : (upTo, cmd (router.share fxhash items key upTo)) ∈
          (Run.run (step fxhash codec) self events).writes := by
        have hgroup := router.groupByShard_getElem? fxhash items key (List.getElem?_eq_some_iff.mp hshard).1
        rw [hreached.writes]
        exact hsent (mem_groupRequests_of_ne_nil cmd hgroup hshare)
      have hwaiting : (Run.run (step fxhash codec) self events).groups upTo = shard.group := by
        rw [hreached.groups upTo shard _ hshard hcalled, if_neg (lt_irrefl upTo)]
      have hproposed : (Run.run (step fxhash codec) self events).CommitsProposed upTo (fates upTo) := by
        refine (hothers upTo).of_subset fun request hmem => ?_
        rw [hreached.writes]
        exact hmem
      obtain ⟨more, hmore, hrun⟩ := exists_run_call fxhash codec router.shardCount hrequest hproposed
        (hattempt upTo _) hwaiting
      refine ⟨events ++ more, hguard.append hmore, ?_⟩
      rw [Run.run_append, hrun]
      exact hreached.setGroup hcalled
    · refine ⟨events, hguard, hreached.skip fun shard hshard => ?_⟩
      have hnil : router.share fxhash items key upTo = [] := by
        by_contra hshare
        exact hcall ⟨shard, hshard, hshare⟩
      exact ShardRouter.callGroups_shards_of_nil (fun s group shard => shard.call (attempt s group)) hshard hnil

/-- A write of the router is a run that starts with its event and leaves every group as the
router does. -/
theorem exists_run_writeGroups {A R : Type*} [CarriesLeaderHint R] {fxhash : UInt64 → UInt64}
    {codec : Bincode F Bytes} {router : ShardRouter F} {items : List A} {key : A → UInt64}
    {cmd : List A → ShardCommand F} {self : Cluster F Bytes} {event : ClusterEvent F Bytes}
    (hevent : self.Permits router.shardCount event)
    (hstep : self.step fxhash codec event =
      { self with writes := self.writes ++ groupRequests (router.groupByShard fxhash items key) cmd })
    (hgroups : ∀ (s : ℕ) shard, router.shards[s]? = some shard → self.groups s = shard.group)
    {fates : ℕ → ℕ → ℕ → AttemptFate (RaftFate F)} (hothers : ∀ s, self.CommitsProposed s (fates s))
    {attempt : ℕ → List A → ℕ → ℕ → ShardGroup F → AttemptOutcome R × ShardGroup F}
    (hattempt : ∀ s group made idx before,
      (attempt s group made idx before).2 = attemptAt (fates s made idx) idx before (cmd group))
    (count : R → UInt32) :
    ∃ events, Run.Guarded (Permits router.shardCount) (step fxhash codec) self (event :: events) ∧
      ∀ (s : ℕ) after, (router.writeGroups fxhash items key count attempt).2.shards[s]? = some after →
        (Run.run (step fxhash codec) self (event :: events)).groups s = after.group := by
  have hwrites : (self.step fxhash codec event).writes =
      self.writes ++ groupRequests (router.groupByShard fxhash items key) cmd := by
    rw [hstep]
  have hsent : groupRequests (router.groupByShard fxhash items key) cmd ⊆ (self.step fxhash codec event).writes := by
    rw [hwrites]
    exact List.subset_append_right _ _
  have hproposed : ∀ s, (self.step fxhash codec event).CommitsProposed s (fates s) := by
    refine fun s => (hothers s).of_subset ?_
    rw [hwrites]
    exact List.subset_append_left _ _
  have hkept : ∀ (s : ℕ) shard, router.shards[s]? = some shard →
      (self.step fxhash codec event).groups s = shard.group := by
    rw [hstep]
    exact hgroups
  obtain ⟨events, hguard, hreached⟩ :=
    exists_run_callGroups codec hsent hkept hproposed hattempt router.shards.length
  refine ⟨events, ⟨hevent, hguard⟩, fun s after hafter => ?_⟩
  have hlt : s < router.shards.length := by
    have hlength := (List.getElem?_eq_some_iff.mp hafter).1
    simpa [ShardRouter.writeGroups, ShardRouter.callGroups, ShardRouter.mapShards] using hlength
  rw [Run.run_cons, hreached.groups s _ after (List.getElem?_eq_getElem hlt) hafter, if_pos hlt]

/-- The router's insert is a run of the cluster. -/
theorem exists_run_insert {fxhash : UInt64 → UInt64} {codec : Bincode F Bytes} {router : ShardRouter F}
    {self : Cluster F Bytes}
    (hgroups : ∀ (s : ℕ) shard, router.shards[s]? = some shard → self.groups s = shard.group)
    {fates : ℕ → ℕ → ℕ → AttemptFate (RaftFate F)} (hothers : ∀ s, self.CommitsProposed s (fates s))
    (collection : String) (records : List (VectorRecord F)) :
    ∃ events, Run.Guarded (Permits router.shardCount) (step fxhash codec) self
        (.insert router collection records :: events) ∧
      ∀ (s : ℕ) after, (router.insert fxhash fates collection records).2.shards[s]? = some after →
        (Run.run (step fxhash codec) self (.insert router collection records :: events)).groups s = after.group := by
  have hevent : self.Permits router.shardCount (.insert router collection records) := rfl
  exact exists_run_writeGroups hevent rfl hgroups hothers (fun _ _ _ _ _ => rfl) InsertResponse.inserted

/-- The router's delete is a run of the cluster. -/
theorem exists_run_delete {fxhash : UInt64 → UInt64} {codec : Bincode F Bytes} {router : ShardRouter F}
    {self : Cluster F Bytes}
    (hgroups : ∀ (s : ℕ) shard, router.shards[s]? = some shard → self.groups s = shard.group)
    {fates : ℕ → ℕ → ℕ → AttemptFate (RaftFate F)} (hothers : ∀ s, self.CommitsProposed s (fates s))
    (collection : String) (ids : List UInt64) :
    ∃ events, Run.Guarded (Permits router.shardCount) (step fxhash codec) self
        (.delete router collection ids :: events) ∧
      ∀ (s : ℕ) after, (router.delete fxhash fates collection ids).2.shards[s]? = some after →
        (Run.run (step fxhash codec) self (.delete router collection ids :: events)).groups s = after.group := by
  have hevent : self.Permits router.shardCount (.delete router collection ids) := rfl
  exact exists_run_writeGroups hevent rfl hgroups hothers (fun _ _ _ _ _ => rfl) DeleteResponse.deleted

end Cluster

/-- The router's search is the search call whose answers its shards gave. -/
theorem ShardRouter.search_eq_result {F : Type*} [FloatOps F] [LinearOrder F] (self : ShardRouter F)
    (fates : ℕ → ℕ → ℕ → AttemptFate (ReadFate F)) (inTime : ℕ → Bool) (req : SearchRequest F) :
    self.search fates inTime req.collection req.queryVector req.k =
      (SearchCall.mk req (self.answer fates inTime req)).result self.shards.length := by
  simp only [search, SearchCall.result, responses_eq]

end RaftVec
