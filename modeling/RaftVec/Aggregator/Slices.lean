import RaftVec.Aggregator.Router

/-!
# Shards as slices of a single store

The abstract view of a cluster is one store that executed every request whole. A shard's
committed log makes of each collection the slice whose ids the shard owns, and a replica
that may lead has replayed a beginning of that log. Both are kept when the shard commits
its share of a request, and committing it twice is the same as once, so lost replies and
retries do not matter.
-/

namespace RaftVec

open Std WriteHistory

variable {F : Type*} [FloatOps F]

/-- The collection a list of commands makes of a shape. -/
def replayOf (coll : Collection F) (cmds : List (ShardCommand F)) (name : String) : Collection F :=
  (⟨coll.dim, coll.shardCount, ∅⟩ : Collection F).write (effectOn name coll.dim cmds)

/-- The replica has the single store's collections, as far as it has applied the log. -/
structure Replays (single : Store F) (log : List (Entry F)) (replica : GroupReplica F) : Prop where
  applied_le : replica.applied ≤ log.length
  collections : ∀ name : String, replica.machine.store.collections[name]? =
    (single.collections[name]?).map fun coll =>
      replayOf coll (logCommands (log.take replica.applied)) name

/-- What the log makes of the single store's collections is the slice owned by one shard.

A name the single store does not know has only been deleted from. -/
structure SlicedLog (owner : UInt64 → ℕ) (single : Store F) (s : ℕ) (log : List (Entry F)) : Prop where
  held : ∀ (name : String) coll, single.collections[name]? = some coll → ∀ id : UInt64,
    (lastWrite (effectOn name coll.dim (logCommands log)) id).getD none =
      if owner id = s then coll.vectors[id]? else none
  unheld : ∀ name : String, single.collections[name]? = none →
    ∀ dim, ∀ w ∈ effectOn name dim (logCommands log), w.2 = none

/-- A shard's group holds its slice, on every replica that may lead. -/
structure SlicedGroup (owner : UInt64 → ℕ) (leads : ℕ → Prop) (single : Store F) (s : ℕ)
    (group : ShardGroup F) : Prop where
  log : SlicedLog owner single s group.log
  replays : ∀ idx, leads idx → Replays single group.log (group.replicas idx)

/-- A command is one shard's share of a whole request. -/
structure ShareOf (owner : UInt64 → ℕ) (single : Store F) (s : ℕ) (cmd whole : ShardCommand F) : Prop where
  collection_eq : cmd.collection = whole.collection
  effect_eq : ∀ coll, single.collections[whole.collection]? = some coll → ∀ id : UInt64,
    lastWrite (cmd.effect coll.dim) id =
      if owner id = s then lastWrite (whole.effect coll.dim) id else none
  deletes : single.collections[whole.collection]? = none → ∀ dim, ∀ w ∈ cmd.effect dim, w.2 = none

omit [FloatOps F] in
/-- The commands of consecutive logs. -/
theorem logCommands_append (before after : List (Entry F)) :
    logCommands (before ++ after) = logCommands before ++ logCommands after :=
  List.filterMap_append

/-- Executing a command twice in a row is executing it once. -/
theorem Store.execute_idem (store : Store F) (cmd : ShardCommand F) :
    ((store.execute cmd).2.execute cmd).2 = (store.execute cmd).2 := by
  apply Store.ext_collections
  intro name
  rw [Store.execute_collections, Store.execute_collections]
  by_cases hname : cmd.collection = name
  · simp only [hname, if_true, Option.map_map]
    cases store.collections[name]? with
    | none => rfl
    | some coll =>
      simp only [Option.map_some, Function.comp_apply, Collection.write_dim, Option.some.injEq]
      simp only [Collection.write, applyWrites_idem]
  · simp only [hname, if_false]

/-! ## Replicas that may lead -/

/-- A longer log does not concern what was applied before. -/
theorem Replays.extend {single : Store F} {log : List (Entry F)} {replica : GroupReplica F}
    (h : Replays single log replica) (more : List (Entry F)) : Replays single (log ++ more) replica := by
  refine ⟨?_, ?_⟩
  · rw [List.length_append]
    exact Nat.le_add_right_of_le h.applied_le
  · intro name
    rw [List.take_append_of_le_length h.applied_le]
    exact h.collections name

/-- A replica that catches up has replayed the whole log. -/
theorem Replays.catchUp {single : Store F} {log : List (Entry F)} {replica : GroupReplica F}
    (h : Replays single log replica) : Replays single log (replica.catchUp log) := by
  refine ⟨Nat.le_refl _, ?_⟩
  intro name
  have hcommands : logCommands log =
      logCommands (log.take replica.applied) ++ logCommands (log.drop replica.applied) := by
    rw [← logCommands_append, List.take_append_drop]
  simp only [GroupReplica.catchUp, ShardStateMachine.apply_store, Store.executeAll_collections,
    h.collections, Option.map_map, List.take_length, hcommands]
  cases single.collections[name]? with
  | none => rfl
  | some coll =>
    simp only [Option.map_some, Function.comp_apply, replayOf, effectOn_append, Collection.write_append,
      Collection.write_dim]

/-- A replica that applies one more entry has replayed the log as far as that entry. -/
theorem Replays.applyNext {single : Store F} {log : List (Entry F)} {replica : GroupReplica F}
    (h : Replays single log replica) : Replays single log (replica.applyNext log) := by
  cases hentry : log[replica.applied]? with
  | none => simpa only [GroupReplica.applyNext, hentry] using h
  | some entry =>
    have hlt := (List.getElem?_eq_some_iff.mp hentry).1
    have hshorter : Replays single (log.take (replica.applied + 1)) replica := by
      refine ⟨?_, ?_⟩
      · rw [List.length_take]
        omega
      · intro name
        rw [List.take_take, Nat.min_eq_left (Nat.le_succ _)]
        exact h.collections name
    have hextended := hshorter.catchUp.extend (log.drop (replica.applied + 1))
    rw [List.take_append_drop] at hextended
    rw [GroupReplica.applyNext_eq_catchUp hentry]
    exact hextended

/-- A replica's replay depends on the single store's shapes alone. -/
theorem Replays.of_shape {single single' : Store F} {log : List (Entry F)} {replica : GroupReplica F}
    (h : Replays single log replica)
    (hshape : ∀ name : String, single'.shape name = single.shape name) :
    Replays single' log replica := by
  refine ⟨h.applied_le, ?_⟩
  intro name
  rw [h.collections name]
  have hname := hshape name
  rw [Store.shape, Store.shape] at hname
  cases hnew : single'.collections[name]? with
  | none =>
    rw [hnew, Option.map_none, eq_comm, Option.map_eq_none_iff] at hname
    rw [hname]
  | some new =>
    rw [hnew, Option.map_some, eq_comm, Option.map_eq_some_iff] at hname
    obtain ⟨old, hold, hsame⟩ := hname
    obtain ⟨hdim, hcount⟩ := Prod.mk.inj hsame
    rw [hold, Option.map_some, Option.map_some, replayOf, replayOf, hdim, hcount]

/-! ## Committing a share -/

/-- After a commit, the replica that took the command has caught up with the new log. -/
theorem commitAt_replica {group : ShardGroup F} {idx : ℕ} {others : List (Entry F)} {logId : LogId}
    {cmd : ShardCommand F} (happlied : (group.replicas idx).applied ≤ group.log.length) :
    (group.commitAt idx others logId cmd).replicas idx =
      (group.replicas idx).catchUp (group.log ++ (others ++ [⟨logId, .normal cmd⟩])) := by
  have hdrop : (group.log ++ (others ++ [(⟨logId, .normal cmd⟩ : Entry F)])).drop
      (group.replicas idx).applied =
      (group.log ++ others).drop (group.replicas idx).applied ++ [⟨logId, .normal cmd⟩] := by
    rw [← List.append_assoc, List.drop_append_of_le_length]
    rw [List.length_append]
    exact Nat.le_add_right_of_le happlied
  simp only [ShardGroup.commitAt, ShardGroup.update, ShardGroup.commit, Function.update_self,
    GroupReplica.catchUp, hdrop, ShardGroup.leaderMachine, ShardStateMachine.apply_append]
  rfl

/-- Committing entries without commands changes no slice. -/
theorem SlicedLog.others {owner : UInt64 → ℕ} {single : Store F} {s : ℕ} {log : List (Entry F)}
    (h : SlicedLog owner single s log) {more : List (Entry F)} (hmore : logCommands more = []) :
    SlicedLog owner single s (log ++ more) := by
  have hcommands : logCommands (log ++ more) = logCommands log := by
    rw [logCommands_append, hmore, List.append_nil]
  exact ⟨by rw [hcommands]; exact h.held, by rw [hcommands]; exact h.unheld⟩

/-- A committed command adds its effect. -/
theorem effectOn_logCommands_commit (log : List (Entry F)) (logId : LogId) (cmd : ShardCommand F) (name : String)
    (dim : ℕ) : effectOn name dim (logCommands (log ++ [⟨logId, .normal cmd⟩])) =
      effectOn name dim (logCommands log) ++ if cmd.collection = name then cmd.effect dim else [] := by
  have hcommands : logCommands (log ++ [⟨logId, .normal cmd⟩]) = logCommands log ++ [cmd] :=
    logCommands_append log _
  rw [hcommands, effectOn_append, effectOn_singleton]

/-- Under every id the log with a share holds the shard's slice of what the request leaves there. -/
theorem SlicedLog.getD_lastWrite_share {owner : UInt64 → ℕ} {single : Store F} {s : ℕ} {log : List (Entry F)}
    (h : SlicedLog owner single s log) {cmd whole : ShardCommand F} (hshare : ShareOf owner single s cmd whole)
    {coll : Collection F} (hcoll : single.collections[whole.collection]? = some coll) (id : UInt64) :
    ((lastWrite (cmd.effect coll.dim) id).or
        (lastWrite (effectOn whole.collection coll.dim (logCommands log)) id)).getD none =
      if owner id = s then (lastWrite (whole.effect coll.dim) id).getD coll.vectors[id]? else none := by
  have hheld := h.held whole.collection coll hcoll id
  rw [hshare.effect_eq coll hcoll id]
  by_cases howner : owner id = s
  · rw [if_pos howner] at hheld ⊢
    rw [if_pos howner]
    cases lastWrite (whole.effect coll.dim) id with
    | none => exact hheld
    | some value => rfl
  · rw [if_neg howner] at hheld ⊢
    rw [if_neg howner, Option.none_or]
    exact hheld

/-- Committing a share turns the slice of a store into the slice of the store after the request. -/
theorem SlicedLog.commit {owner : UInt64 → ℕ} {single : Store F} {s : ℕ} {log : List (Entry F)}
    (h : SlicedLog owner single s log) {cmd whole : ShardCommand F} (hshare : ShareOf owner single s cmd whole)
    (logId : LogId) : SlicedLog owner (single.execute whole).2 s (log ++ [⟨logId, .normal cmd⟩]) := by
  refine ⟨?_, ?_⟩
  · intro name coll hcoll id
    rw [Store.execute_collections] at hcoll
    rw [effectOn_logCommands_commit, lastWrite_append]
    by_cases hname : whole.collection = name
    · subst hname
      rw [if_pos rfl] at hcoll
      obtain ⟨old, hold, rfl⟩ := Option.map_eq_some_iff.mp hcoll
      rw [if_pos hshare.collection_eq]
      simp only [Collection.write, getElem?_applyWrites]
      exact h.getD_lastWrite_share hshare hold id
    · rw [if_neg hname] at hcoll
      rw [if_neg (fun heq => hname (hshare.collection_eq.symm.trans heq)), lastWrite_nil, Option.none_or]
      exact h.held name coll hcoll id
  · intro name hnone dim w hw
    rw [Store.execute_collections] at hnone
    have hold : single.collections[name]? = none := by
      split at hnone
      · exact Option.map_eq_none_iff.mp hnone
      · exact hnone
    rw [effectOn_logCommands_commit] at hw
    cases List.mem_append.mp hw with
    | inl hbefore => exact h.unheld name hold dim w hbefore
    | inr hnew =>
      split at hnew
      · next hname =>
        refine hshare.deletes ?_ dim w hnew
        rw [← hshare.collection_eq, hname]
        exact hold
      · cases hnew

/-- A shard without a share keeps its slice when the request is executed elsewhere. -/
theorem SlicedLog.untouched {owner : UInt64 → ℕ} {single : Store F} {s : ℕ} {log : List (Entry F)}
    (h : SlicedLog owner single s log) {whole : ShardCommand F}
    (hshare : ∀ coll, single.collections[whole.collection]? = some coll → ∀ id : UInt64, owner id = s →
      lastWrite (whole.effect coll.dim) id = none) :
    SlicedLog owner (single.execute whole).2 s log := by
  refine ⟨?_, ?_⟩
  · intro name coll hcoll id
    rw [Store.execute_collections] at hcoll
    by_cases hname : whole.collection = name
    · rw [if_pos hname] at hcoll
      obtain ⟨old, hold, rfl⟩ := Option.map_eq_some_iff.mp hcoll
      rw [Collection.write_dim, h.held name old hold id]
      by_cases howner : owner id = s
      · rw [if_pos howner, if_pos howner]
        simp only [Collection.write, getElem?_applyWrites]
        rw [hshare old (hname ▸ hold) id howner]
        rfl
      · rw [if_neg howner, if_neg howner]
    · rw [if_neg hname] at hcoll
      exact h.held name coll hcoll id
  · intro name hnone
    rw [Store.execute_collections] at hnone
    apply h.unheld name
    split at hnone
    · exact Option.map_eq_none_iff.mp hnone
    · exact hnone

/-- A share of a request is still one after the request, which changes no shape. -/
theorem ShareOf.execute {owner : UInt64 → ℕ} {single : Store F} {s : ℕ} {cmd whole : ShardCommand F}
    (h : ShareOf owner single s cmd whole) : ShareOf owner (single.execute whole).2 s cmd whole := by
  refine ⟨h.collection_eq, ?_, ?_⟩
  · intro coll hcoll
    rw [Store.execute_collections, if_pos rfl] at hcoll
    obtain ⟨old, hold, rfl⟩ := Option.map_eq_some_iff.mp hcoll
    exact h.effect_eq old hold
  · intro hnone
    rw [Store.execute_collections, if_pos rfl, Option.map_eq_none_iff] at hnone
    exact h.deletes hnone

/-! ## Creating a collection -/

/-- A collection that is created has an empty slice, whatever was deleted from its name before. -/
theorem SlicedLog.createCollection {owner : UInt64 → ℕ} {single : Store F} {s : ℕ} {log : List (Entry F)}
    (h : SlicedLog owner single s log) (name : String) (dim : ℕ) (shardCount : UInt32) :
    SlicedLog owner (single.createCollection name dim shardCount).2 s log := by
  refine ⟨?_, ?_⟩
  · intro other coll hcoll id
    cases hsingle : single.collections[other]? with
    | some old =>
      rw [Store.createCollection_of_present hsingle, Option.some.injEq] at hcoll
      subst hcoll
      exact h.held other old hsingle id
    | none =>
      rw [Store.createCollection_collections, hsingle, Option.none_or] at hcoll
      split at hcoll
      · cases hcoll
        have hempty := getElem?_applyWrites (∅ : ExtTreeMap UInt64 (StoredVector F))
          (effectOn other dim (logCommands log)) id
        rw [applyWrites_deletions (h.unheld other hsingle dim), ExtTreeMap.getElem?_empty] at hempty
        rw [ExtTreeMap.getElem?_empty, ite_self]
        exact hempty.symm
      · cases hcoll
  · intro other hnone
    apply h.unheld other
    cases hsingle : single.collections[other]? with
    | none => rfl
    | some old =>
      rw [Store.createCollection_of_present hsingle] at hnone
      cases hnone

/-- A replica that creates the collection too has replayed it as far as the log. -/
theorem Replays.createCollection {owner : UInt64 → ℕ} {single : Store F} {s : ℕ} {log : List (Entry F)}
    {replica : GroupReplica F} (h : Replays single log replica) (hsliced : SlicedLog owner single s log)
    (name : String) (dim : ℕ) (shardCount : UInt32) :
    Replays (single.createCollection name dim shardCount).2 log
      { replica with machine := { replica.machine with
          store := (replica.machine.store.createCollection name dim shardCount).2 } } := by
  refine ⟨h.applied_le, ?_⟩
  intro other
  rw [Store.createCollection_collections, Store.createCollection_collections, h.collections other]
  cases hsingle : single.collections[other]? with
  | some coll => simp
  | none =>
    by_cases hname : name = other
    · have hdeletes : ∀ w ∈ effectOn other dim (logCommands (log.take replica.applied)), w.2 = none := by
        intro w hw
        apply hsliced.unheld other hsingle dim w
        rw [← List.take_append_drop replica.applied log, logCommands_append, effectOn_append]
        exact List.mem_append_left _ hw
      simp only [Option.map_none, hname, if_true, Option.none_or, Option.map_some, replayOf,
        Collection.write, applyWrites_deletions hdeletes]
    · simp [hname]

namespace SlicedGroup

/-- A shard without a share keeps its slice when the request is executed elsewhere. -/
theorem untouched {owner : UInt64 → ℕ} {leads : ℕ → Prop} {single : Store F} {s : ℕ}
    {group : ShardGroup F} (h : SlicedGroup owner leads single s group) {whole : ShardCommand F}
    (hshare : ∀ coll, single.collections[whole.collection]? = some coll → ∀ id : UInt64, owner id = s →
      lastWrite (whole.effect coll.dim) id = none) :
    SlicedGroup owner leads (single.execute whole).2 s group :=
  ⟨h.log.untouched hshare, fun idx hidx => (h.replays idx hidx).of_shape (single.executeAll_shape [whole])⟩

/-- Committing a share at a replica that may lead makes the slice of the store after the request. -/
theorem commitAt {owner : UInt64 → ℕ} {leads : ℕ → Prop} {single : Store F} {s : ℕ}
    {group : ShardGroup F} (h : SlicedGroup owner leads single s group) {cmd whole : ShardCommand F}
    (hshare : ShareOf owner single s cmd whole) {idx : ℕ} (hidx : leads idx) {others : List (Entry F)}
    (hothers : logCommands others = []) (logId : LogId) :
    SlicedGroup owner leads (single.execute whole).2 s (group.commitAt idx others logId cmd) := by
  refine ⟨?_, ?_⟩
  · change SlicedLog owner (single.execute whole).2 s (group.log ++ (others ++ [⟨logId, .normal cmd⟩]))
    rw [← List.append_assoc]
    exact (h.log.others hothers).commit hshare logId
  · intro other hother
    have hreplays := ((h.replays other hother).extend (others ++ [⟨logId, .normal cmd⟩])).of_shape
      (single.executeAll_shape [whole])
    by_cases hsame : other = idx
    · subst hsame
      rw [commitAt_replica (h.replays other hother).applied_le]
      exact hreplays.catchUp
    · have hreplica : (group.commitAt idx others logId cmd).replicas other = group.replicas other :=
        Function.update_of_ne hsame _ _
      rw [hreplica]
      exact hreplays

/-- Serving a read at a replica that may lead changes no slice. -/
theorem search [LinearOrder F] {owner : UInt64 → ℕ} {leads : ℕ → Prop} {single : Store F} {s : ℕ}
    {group : ShardGroup F} (h : SlicedGroup owner leads single s group) {fate : ReadFate F}
    (hothers : logCommands fate.others = []) (idx : ℕ) (req : SearchRequest F) :
    SlicedGroup owner leads single s (group.search fate idx req).2 := by
  have hlog : SlicedLog owner single s (group.log ++ fate.others) := h.log.others hothers
  unfold ShardGroup.search
  split
  · refine ⟨hlog, ?_⟩
    intro other hother
    have hreplays := (h.replays other hother).extend fate.others
    by_cases hsame : other = idx
    · subst hsame
      simp only [ShardGroup.update, Function.update_self]
      exact hreplays.catchUp
    · simp only [ShardGroup.update, Function.update_of_ne hsame]
      exact hreplays
  · exact ⟨hlog, fun other hother => (h.replays other hother).extend fate.others⟩

/-- A replica that applies one more entry changes no slice. -/
theorem applyNext {owner : UInt64 → ℕ} {leads : ℕ → Prop} {single : Store F} {s : ℕ} {group : ShardGroup F}
    (h : SlicedGroup owner leads single s group) (idx : ℕ) :
    SlicedGroup owner leads single s (group.update idx ((group.replicas idx).applyNext group.log)) := by
  refine ⟨h.log, ?_⟩
  intro other hother
  by_cases hsame : other = idx
  · subst hsame
    simp only [ShardGroup.update, Function.update_self]
    exact (h.replays other hother).applyNext
  · simp only [ShardGroup.update, Function.update_of_ne hsame]
    exact h.replays other hother

/-- Creating a collection on every replica that may lead creates its slice. -/
theorem createCollection {owner : UInt64 → ℕ} {leads : ℕ → Prop} {single : Store F} {s : ℕ}
    {shard : Shard F} (h : SlicedGroup owner leads single s shard.group) {fates : ℕ → CreateFate}
    (hdelivered : ∀ idx, leads idx → fates idx = .delivered) (req : CreateCollectionRequest) :
    SlicedGroup owner leads (single.createCollection req.name req.dim.toNat req.shardCount).2 s
      (shard.createCollection fates req).2.group := by
  refine ⟨h.log.createCollection req.name req.dim.toNat req.shardCount, ?_⟩
  intro idx hidx
  have hcreated := (h.replays idx hidx).createCollection h.log req.name req.dim.toNat req.shardCount
  rw [← (NodeService.createCollection_store (shard.group.replicas idx).machine.store req).1] at hcreated
  simp only [Shard.createCollection, hdelivered idx hidx]
  exact hcreated

end SlicedGroup

/-! ## Calls to a shard -/

/-- Only replicas that may lead commit, and what others commit meanwhile carries no command. -/
def LedBy (leads : ℕ → Prop) (fates : ℕ → ℕ → AttemptFate (RaftFate F)) : Prop :=
  ∀ n idx others logId replyLost, fates n idx = .reached (.committed others logId) replyLost →
    leads idx ∧ logCommands others = []

omit [FloatOps F] in
/-- Where every replica may lead, commits with nothing of others between them are such. -/
theorem LedBy.of_alone {leads : ℕ → Prop} (hleads : ∀ idx, leads idx) (logId : LogId) (replyLost : Bool) :
    LedBy leads fun _ _ => (.reached (.committed [] logId) replyLost : AttemptFate (RaftFate F)) := by
  intro n idx others logId replyLost hfate
  cases hfate
  exact ⟨hleads idx, rfl⟩

/-- Committing a share again, after an attempt whose reply was lost, changes nothing more. -/
theorem SlicedGroup.commitAt_retried {owner : UInt64 → ℕ} {leads : ℕ → Prop} {single : Store F} {s : ℕ}
    {cmd whole : ShardCommand F} (hshare : ShareOf owner single s cmd whole) {group : ShardGroup F}
    (h : SlicedGroup owner leads single s group ∨ SlicedGroup owner leads (single.execute whole).2 s group)
    {idx : ℕ} (hidx : leads idx) {others : List (Entry F)} (hothers : logCommands others = []) (logId : LogId) :
    SlicedGroup owner leads (single.execute whole).2 s (group.commitAt idx others logId cmd) := by
  cases h with
  | inl hbefore => exact hbefore.commitAt hshare hidx hothers logId
  | inr hafter =>
    have hagain := hafter.commitAt hshare.execute hidx hothers logId
    rw [Store.execute_idem] at hagain
    exact hagain

/-- A shard that answered a write holds its slice of the store after the request. -/
theorem SlicedGroup.call_write {R : Type*} [CarriesLeaderHint R] {owner : UInt64 → ℕ} {leads : ℕ → Prop}
    {single : Store F} {s : ℕ} {shard : Shard F} (h : SlicedGroup owner leads single s shard.group)
    {cmd whole : ShardCommand F} (hshare : ShareOf owner single s cmd whole)
    {fates : ℕ → ℕ → AttemptFate (RaftFate F)} (hled : LedBy leads fates) {count : ℕ}
    {response : UInt32 → String → R}
    (hresponse : ∀ n addr, CarriesLeaderHint.leaderHint (response n addr) = addr) {answer : R}
    (hok : (shard.call (Shard.writeAttempt fates cmd count response)).1 = .ok answer) :
    SlicedGroup owner leads (single.execute whole).2 s
      (shard.call (Shard.writeAttempt fates cmd count response)).2.group := by
  have hkeep : ∀ n idx group,
      (SlicedGroup owner leads single s group ∨ SlicedGroup owner leads (single.execute whole).2 s group) →
      (SlicedGroup owner leads single s (Shard.writeAttempt fates cmd count response n idx group).2 ∨
        SlicedGroup owner leads (single.execute whole).2 s
          (Shard.writeAttempt fates cmd count response n idx group).2) := by
    intro n idx group hgroup
    rcases Shard.writeAttempt_state fates cmd count response n idx group with
      hsame | ⟨others, logId, replyLost, hfate, hstate⟩
    · rw [hsame]
      exact hgroup
    · rw [hstate]
      obtain ⟨hidx, hothers⟩ := hled n idx others logId replyLost hfate
      exact Or.inr (commitAt_retried hshare hgroup hidx hothers logId)
  obtain ⟨serving, others, logId, hserving, hfate, _, hcall⟩ := Shard.call_write_of_ok hresponse hok
  obtain ⟨hidx, hothers⟩ := hled _ _ _ _ _ hfate
  rw [hcall]
  exact commitAt_retried hshare (servingState_invariant hkeep (Or.inl h) hserving) hidx hothers logId

end RaftVec
