import RaftVec.Aggregator.Acknowledged
import RaftVec.Aggregator.Refinement

/-!
# Batches with a wrong dimension

A store checks a whole batch before it takes any of it. The router cuts the batch first,
so every shard checks its own part, and what the check says never comes back: `apply`
counts a rejection as zero records and the service acknowledges the entry. An insert fails
for want of an acknowledgement only, and the parts of the batch that fit are stored
wherever their entries are committed.

What openraft and the network do to an attempt is told by its fate alone, and so is where
the next one goes: which fates a call meets has nothing to do with what is in the batch.
-/

namespace RaftVec

open Std WriteHistory

variable {F : Type*} [FloatOps F]

/-- What a shard's committed log holds under an id, in a collection of the given dimension. -/
def ShardGroup.recordAt (self : ShardGroup F) (name : String) (dim : ℕ) (id : UInt64) :
    Option (StoredVector F) :=
  (lastWrite (effectOn name dim (logCommands self.log)) id).getD none

/-! ## The fates that a call meets -/

namespace AttemptFate

variable {F : Type*}

/-- The attempt's command was committed. -/
def commits : AttemptFate (RaftFate F) → Bool
  | .reached (.committed _ _) _ => true
  | _ => false

/-- The attempt's command was committed and the caller told so. -/
def acknowledges : AttemptFate (RaftFate F) → Bool
  | .reached (.committed _ _) replyLost => !replyLost
  | _ => false

/-- What the caller of an insert sees of the attempt. -/
def insertReply (req : InsertRequest F) : AttemptFate (RaftFate F) → AttemptOutcome InsertResponse
  | .disconnected status => .refused status
  | .hung => .elapsed
  | .reached _ true => .elapsed
  | .reached (.committed _ _) false => .answered ⟨UInt32.ofNat req.records.length, ""⟩
  | .reached (.forwarded (some peer)) false => .answered ⟨0, peer.addr⟩
  | .reached (.forwarded none) false => .refused ⟨.unavailable, "no leader currently known for this shard"⟩
  | .reached (.failed message) false => .refused ⟨.internal, message⟩

/-- The caller takes an attempt for an answer exactly when it is acknowledged. -/
theorem served_insertReply (fate : AttemptFate (RaftFate F)) (req : InsertRequest F) :
    (fate.insertReply req).served = none ↔ fate.acknowledges = false := by
  cases fate with
  | disconnected status => exact iff_of_true rfl rfl
  | hung => exact iff_of_true rfl rfl
  | reached raft replyLost =>
    cases raft with
    | committed others logId =>
      cases replyLost with
      | true => exact iff_of_true rfl rfl
      | false =>
        have hserved : (insertReply req (.reached (.committed others logId) false)).served =
            some ⟨UInt32.ofNat req.records.length, ""⟩ := rfl
        rw [hserved]
        exact iff_of_false (Option.some_ne_none _) (Bool.noConfusion)
    | failed message => cases replyLost <;> exact iff_of_true rfl rfl
    | forwarded leader =>
      cases replyLost with
      | true => exact iff_of_true rfl rfl
      | false =>
        cases leader with
        | none => exact iff_of_true rfl rfl
        | some peer => exact iff_of_true (if_neg peer.addr_ne_empty) rfl

end AttemptFate

/-- Make an attempt and write its fate down. -/
def recordFate {F : Type*} (fates : ℕ → ℕ → AttemptFate (RaftFate F)) (req : InsertRequest F) (n idx : ℕ)
    (met : List (AttemptFate (RaftFate F))) : AttemptOutcome InsertResponse × List (AttemptFate (RaftFate F)) :=
  ((fates n idx).insertReply req, met ++ [fates n idx])

/-- The fates that the attempts of an insert at a shard meet. -/
def Shard.metFates {F : Type*} (self : Shard F) (fates : ℕ → ℕ → AttemptFate (RaftFate F)) (req : InsertRequest F) :
    List (AttemptFate (RaftFate F)) :=
  (callWithRetry self.replicaSet (recordFate fates req) []).2.2

/-- A loop meets only fates of attempts. -/
theorem mem_retryLoop_recordFate {F : Type*} {replicas : ShardReplicaSet}
    {fates : ℕ → ℕ → AttemptFate (RaftFate F)} {req : InsertRequest F} {left : ℕ}
    {current : RetryState (List (AttemptFate (RaftFate F)))} {fate : AttemptFate (RaftFate F)}
    (h : fate ∈ (retryLoop replicas (recordFate fates req) left current).2.state) :
    fate ∈ current.state ∨ ∃ n idx, fate = fates n idx := by
  induction left generalizing current with
  | zero => exact Or.inl h
  | succ left ih =>
    have hmet : ∀ met, met ∈ (recordFate fates req current.made current.idx current.state).2 →
        met ∈ current.state ∨ ∃ n idx, met = fates n idx := fun met hmem =>
      (List.mem_append.mp hmem).imp_right fun hnew => ⟨_, _, List.mem_singleton.mp hnew⟩
    simp only [retryLoop] at h
    cases hserved : (recordFate fates req current.made current.idx current.state).1.served with
    | some response =>
      rw [hserved] at h
      exact hmet fate h
    | none =>
      rw [hserved] at h
      exact (ih h).elim (hmet fate) Or.inr

/-- None of the fates commits. -/
theorem any_commits_eq_false_iff {F : Type*} (met : List (AttemptFate (RaftFate F))) :
    met.any AttemptFate.commits = false ↔ ∀ fate ∈ met, fate.commits = false := by
  simp only [List.any_eq_false, Bool.not_eq_true]

/-- A loop fails exactly when none of the fates it meets is an acknowledgement. -/
theorem retryLoop_recordFate {F : Type*} (replicas : ShardReplicaSet) (fates : ℕ → ℕ → AttemptFate (RaftFate F))
    (req : InsertRequest F) (left : ℕ) {current : RetryState (List (AttemptFate (RaftFate F)))}
    (hcurrent : ∀ fate ∈ current.state, fate.acknowledges = false) :
    (∃ e, (retryLoop replicas (recordFate fates req) left current).1 = .error e) ↔
      ∀ fate ∈ (retryLoop replicas (recordFate fates req) left current).2.state, fate.acknowledges = false := by
  induction left generalizing current with
  | zero => exact iff_of_true ⟨_, rfl⟩ hcurrent
  | succ left ih =>
    simp only [retryLoop]
    cases hserved : (recordFate fates req current.made current.idx current.state).1.served with
    | some response =>
      refine iff_of_false ?_ ?_
      · rintro ⟨e, he⟩
        cases he
      · intro hnone
        have hunserved := (AttemptFate.served_insertReply (fates current.made current.idx) req).mpr
          (hnone _ (List.mem_append_right _ (List.mem_singleton_self _)))
        cases hserved.symm.trans hunserved
    | none =>
      refine ih fun fate hfate => ?_
      rcases List.mem_append.mp hfate with hold | hnew
      · exact hcurrent fate hold
      · rw [List.mem_singleton.mp hnew]
        exact (AttemptFate.served_insertReply (fates current.made current.idx) req).mp hserved

/-! ## What a call does to the records of a shard -/

/-- A committed command writes its records over what the log held. -/
theorem ShardGroup.recordAt_commitAt (group : ShardGroup F) (idx : ℕ) {others : List (Entry F)}
    (hothers : logCommands others = []) (logId : LogId) (cmd : ShardCommand F) (name : String) (dim : ℕ)
    (id : UInt64) :
    (group.commitAt idx others logId cmd).recordAt name dim id =
      (lastWrite (effectOn name dim [cmd]) id).getD (group.recordAt name dim id) := by
  have hcommands : logCommands (group.commitAt idx others logId cmd).log = logCommands group.log ++ [cmd] := by
    change logCommands (group.log ++ (others ++ [⟨logId, .normal cmd⟩])) = _
    rw [logCommands_append, logCommands_append, hothers]
    rfl
  rw [recordAt, hcommands, effectOn_append, lastWrite_append, recordAt]
  cases lastWrite (effectOn name dim [cmd]) id <;> rfl

/-- The group holds what it held before, under the command's writes if it was committed. -/
def ShardGroup.WrittenIf (before : ShardGroup F) (cmd : ShardCommand F) (group : ShardGroup F)
    (committed : Bool) : Prop :=
  ∀ name dim id, group.recordAt name dim id =
    if committed then (lastWrite (effectOn name dim [cmd]) id).getD (before.recordAt name dim id)
    else before.recordAt name dim id

/-- No entry of another client is committed during the attempts. -/
def Undisturbed (fates : ℕ → ℕ → AttemptFate (RaftFate F)) : Prop :=
  ∀ n idx others logId replyLost, fates n idx = .reached (.committed others logId) replyLost →
    logCommands others = []

/-- An attempt is answered as its fate says and writes exactly when that commits. -/
theorem Shard.insertAttempt_recordFate {fates : ℕ → ℕ → AttemptFate (RaftFate F)} (halone : Undisturbed fates)
    (req : InsertRequest F) (before : ShardGroup F) (n idx : ℕ) (group : ShardGroup F)
    (met : List (AttemptFate (RaftFate F)))
    (h : before.WrittenIf (.upsert req.collection req.records) group (met.any AttemptFate.commits)) :
    (Shard.insertAttempt fates req n idx group).1 = (recordFate fates req n idx met).1 ∧
      before.WrittenIf (.upsert req.collection req.records) (Shard.insertAttempt fates req n idx group).2
        ((recordFate fates req n idx met).2.any AttemptFate.commits) := by
  simp only [recordFate, List.any_append, List.any_cons, List.any_nil, Bool.or_false]
  have hkept : before.WrittenIf (.upsert req.collection req.records) group
      (met.any AttemptFate.commits || false) := by
    rw [Bool.or_false]
    exact h
  unfold Shard.insertAttempt
  cases hfate : fates n idx with
  | disconnected status => exact ⟨rfl, hkept⟩
  | hung => exact ⟨rfl, hkept⟩
  | reached fate replyLost =>
    cases fate with
    | forwarded leader => cases leader <;> cases replyLost <;> exact ⟨rfl, hkept⟩
    | failed message => cases replyLost <;> exact ⟨rfl, hkept⟩
    | committed others logId =>
      refine ⟨by cases replyLost <;> rfl, ?_⟩
      change before.WrittenIf _ _ (met.any AttemptFate.commits || true)
      rw [Bool.or_true]
      intro name dim id
      have hothers := halone n idx others logId replyLost hfate
      change (group.commitAt idx others logId (.upsert req.collection req.records)).recordAt name dim id = _
      rw [ShardGroup.recordAt_commitAt group idx hothers, h name dim id, if_pos rfl]
      -- a second commit of the same batch writes the same records
      cases met.any AttemptFate.commits with
      | false => rfl
      | true =>
        rw [if_pos rfl]
        cases lastWrite (effectOn name dim [.upsert req.collection req.records]) id <;> rfl

/-- A call fails exactly when no fate it meets is an acknowledgement, and writes exactly when
one of them commits. -/
theorem Shard.call_insert_metFates (shard : Shard F) {fates : ℕ → ℕ → AttemptFate (RaftFate F)}
    (halone : Undisturbed fates) (req : InsertRequest F) :
    ((∃ e, (shard.call (Shard.insertAttempt fates req)).1 = .error e) ↔
        ∀ fate ∈ shard.metFates fates req, fate.acknowledges = false) ∧
      shard.group.WrittenIf (.upsert req.collection req.records)
        (shard.call (Shard.insertAttempt fates req)).2.group
        ((shard.metFates fates req).any AttemptFate.commits) := by
  have hfirst : shard.group.WrittenIf (.upsert req.collection req.records) shard.group
      (([] : List (AttemptFate (RaftFate F))).any AttemptFate.commits) := fun _ _ _ => rfl
  obtain ⟨hresult, hwritten⟩ := retryLoop_simulates (Shard.insertAttempt_recordFate halone req shard.group)
    maxLeaderAttempts (shard.replicaSet.leaderHint % shard.replicaSet.replicaCount) 0 none hfirst
  have hnone : ∀ fate ∈ (RetryState.first shard.replicaSet ([] : List (AttemptFate (RaftFate F)))).state,
      fate.acknowledges = false := fun fate hfate => by cases hfate
  have hcall : (shard.call (Shard.insertAttempt fates req)).1 =
      (retryLoop shard.replicaSet (recordFate fates req) maxLeaderAttempts (.first shard.replicaSet [])).1 := hresult
  rw [hcall]
  exact ⟨retryLoop_recordFate shard.replicaSet fates req maxLeaderAttempts hnone, hwritten⟩

omit [FloatOps F] in
/-- The last record that carries an id is one of the batch. -/
theorem mem_of_lastRecord {records : List (VectorRecord F)} {id : UInt64} {record : VectorRecord F}
    (h : lastRecord records id = some record) : record ∈ records ∧ record.id = id := by
  have hmem := List.mem_filter.mp (List.mem_of_getLast? h)
  exact ⟨hmem.1, by simpa using hmem.2⟩

/-- A committed part of a batch writes its last records if it fits the collection, and else nothing. -/
theorem lastWrite_effectOn_upsert (name : String) (dim : ℕ) (collection : String) (share : List (VectorRecord F))
    (id : UInt64) :
    lastWrite (effectOn name dim [.upsert collection share]) id =
      if collection = name ∧ ∀ record ∈ share, record.embedding.length = dim then
        (lastRecord share id).map fun record => some (StoredVector.ofRecord record)
      else none := by
  rw [effectOn_singleton]
  change lastWrite (if collection = name then
    if ∀ record ∈ share, record.embedding.length = dim then upsertWrites share else [] else []) id = _
  by_cases hname : collection = name
  · rw [if_pos hname]
    by_cases hfits : ∀ record ∈ share, record.embedding.length = dim
    · rw [if_pos hfits, if_pos ⟨hname, hfits⟩, lastWrite_upsertWrites]
    · rw [if_neg hfits, if_neg (mt And.right hfits), lastWrite_nil]
  · rw [if_neg hname, if_neg (mt And.left hname), lastWrite_nil]

/-- Under an id it owns a shard's log holds what the single store does. -/
theorem SlicedLog.recordAt_eq_version {owner : UInt64 → ℕ} {single : Store F} {s : ℕ} {group : ShardGroup F}
    (h : SlicedLog owner single s group.log) {collection : String} {coll : Collection F}
    (hcoll : single.collections[collection]? = some coll) {id : UInt64} (hid : owner id = s) :
    group.recordAt collection coll.dim id = single.version collection id := by
  rw [ShardGroup.recordAt, h.held collection coll hcoll, if_pos hid, Store.version, hcoll, Option.bind_some]

/-- A shard's records survive a call exactly when nothing is committed, the part of the
batch does not fit the collection, or the collection holds it already. -/
theorem SlicedLog.unchanged_iff {owner : UInt64 → ℕ} {single : Store F} {s : ℕ} {before after : ShardGroup F}
    (h : SlicedLog owner single s before.log) {collection : String} {coll : Collection F}
    (hcoll : single.collections[collection]? = some coll) {share : List (VectorRecord F)}
    (hshare : ∀ record ∈ share, owner record.id = s) {committed : Bool}
    (hafter : before.WrittenIf (.upsert collection share) after committed) :
    (∀ name held, single.collections[name]? = some held → ∀ id,
        after.recordAt name held.dim id = before.recordAt name held.dim id) ↔
      (coll.Admits share → committed = false ∨ single.Holds collection share) := by
  cases committed with
  | false => exact iff_of_true (fun name held _ id => hafter name held.dim id) (fun _ => Or.inl rfl)
  | true =>
    have hwritten : ∀ name dim id, after.recordAt name dim id =
        (lastWrite (effectOn name dim [.upsert collection share]) id).getD (before.recordAt name dim id) :=
      hafter
    have hheld : ∀ id record, lastRecord share id = some record →
        before.recordAt collection coll.dim id = single.version collection id := by
      intro id record hlast
      obtain ⟨hmem, rfl⟩ := mem_of_lastRecord hlast
      exact h.recordAt_eq_version hcoll (hshare record hmem)
    simp only [hwritten, lastWrite_effectOn_upsert]
    constructor
    · intro hsame hadmits
      refine Or.inr fun id record hlast => ?_
      have hid := hsame collection coll hcoll id
      rw [if_pos ⟨rfl, hadmits⟩, hlast, hheld id record hlast] at hid
      exact hid.symm
    · intro hholds name held hname id
      by_cases hfits : collection = name ∧ ∀ record ∈ share, record.embedding.length = held.dim
      · obtain ⟨rfl, hadmits⟩ := hfits
        cases hcoll.symm.trans hname
        have hsame := (hholds hadmits).resolve_left (by decide)
        rw [if_pos ⟨rfl, hadmits⟩]
        cases hlast : lastRecord share id with
        | none => rfl
        | some record => rw [hheld id record hlast, hsame id record hlast, Option.map_some, Option.getD_some]
      · rw [if_neg hfits, Option.getD_none]

namespace ShardRouter

/-- Every shard's committed log holds the records it held before. -/
def SameRecords (single : Store F) (before after : ShardRouter F) : Prop :=
  ∀ (s : ℕ) old new, before.shards[s]? = some old → after.shards[s]? = some new →
    ∀ (name : String) coll, single.collections[name]? = some coll → ∀ id,
      new.group.recordAt name coll.dim id = old.group.recordAt name coll.dim id

/-- The shard owns part of a batch. -/
def Addressed (fxhash : UInt64 → UInt64) (self : ShardRouter F) (records : List (VectorRecord F)) (s : ℕ)
    (shard : Shard F) : Prop :=
  self.shards[s]? = some shard ∧ self.share fxhash records VectorRecord.id s ≠ []

/-- The request a shard gets. -/
def insertRequest (fxhash : UInt64 → UInt64) (self : ShardRouter F) (collection : String)
    (records : List (VectorRecord F)) (s : ℕ) : InsertRequest F :=
  ⟨collection, self.share fxhash records VectorRecord.id s⟩

/-- An insert fails exactly when some shard that owns part of the batch meets no acknowledgement. -/
theorem insert_error_iff (fxhash : UInt64 → UInt64) (self : ShardRouter F)
    {fates : ℕ → ℕ → ℕ → AttemptFate (RaftFate F)} (halone : ∀ s, Undisturbed (fates s)) (collection : String)
    (records : List (VectorRecord F)) :
    (∃ e, (self.insert fxhash fates collection records).1 = .error e) ↔
      ∃ s shard, self.Addressed fxhash records s shard ∧
        ∀ fate ∈ shard.metFates (fates s) (self.insertRequest fxhash collection records s),
          fate.acknowledges = false := by
  constructor
  · intro herr
    obtain ⟨e, he⟩ := herr
    by_contra hnone
    have hall : ∀ result ∈ (self.callGroups (self.groupByShard fxhash records VectorRecord.id)
        fun s group shard => shard.call (Shard.insertAttempt (fates s) ⟨collection, group⟩)).1,
        ∃ response, result = .ok response := by
      intro result hresult
      obtain ⟨s, shard, hshard, hshare, rfl⟩ := exists_shard_of_mem_callGroups hresult
      cases hcall : (shard.call
          (Shard.insertAttempt (fates s) (self.insertRequest fxhash collection records s))).1 with
      | ok response => exact ⟨response, hcall⟩
      | error e =>
        have hmet := (shard.call_insert_metFates (halone s) (self.insertRequest fxhash collection records s)).1
        exact absurd ⟨s, shard, ⟨hshard, hshare⟩, hmet.mp ⟨e, hcall⟩⟩ hnone
    obtain ⟨n, hn⟩ : ∃ n, (self.insert fxhash fates collection records).1 = .ok n :=
      sumCounts_of_all_ok hall 0
    cases hn.symm.trans he
  · intro hfailed
    obtain ⟨s, shard, ⟨hshard, hshare⟩, hmet⟩ := hfailed
    obtain ⟨e, he⟩ :=
      (shard.call_insert_metFates (halone s) (self.insertRequest fxhash collection records s)).1.mpr hmet
    cases hresult : (self.insert fxhash fates collection records).1 with
    | error e => exact ⟨e, rfl⟩
    | ok n =>
      obtain ⟨_, response, hok⟩ := writeGroups_of_ok hresult hshard hshare
      cases hok.symm.trans he

/-- An insert leaves all records as they were exactly when every part of the batch that
fits is committed nowhere or held already. -/
theorem insert_sameRecords_iff {fxhash : UInt64 → UInt64} {self : ShardRouter F} {single : Store F}
    (hsame : ∀ (s : ℕ) shard, self.shards[s]? = some shard →
      SlicedLog (self.owner fxhash) single s shard.group.log)
    {fates : ℕ → ℕ → ℕ → AttemptFate (RaftFate F)} (halone : ∀ s, Undisturbed (fates s)) {collection : String}
    {coll : Collection F} (hcoll : single.collections[collection]? = some coll)
    (records : List (VectorRecord F)) :
    self.SameRecords single (self.insert fxhash fates collection records).2 ↔
      ∀ s shard, self.Addressed fxhash records s shard →
        coll.Admits (self.share fxhash records VectorRecord.id s) →
        (∀ fate ∈ shard.metFates (fates s) (self.insertRequest fxhash collection records s), fate.commits = false) ∨
          single.Holds collection (self.share fxhash records VectorRecord.id s) := by
  have hshare : ∀ s, ∀ record ∈ self.share fxhash records VectorRecord.id s, self.owner fxhash record.id = s := by
    intro s record hrecord
    simpa using (List.mem_filter.mp hrecord).2
  have hcalled : ∀ s shard, self.Addressed fxhash records s shard →
      (self.insert fxhash fates collection records).2.shards[s]? =
        some (shard.call (Shard.insertAttempt (fates s) (self.insertRequest fxhash collection records s))).2 :=
    fun s shard h => (callGroups_shards_of_ne_nil _ h.1 h.2).1
  constructor
  · intro hkept s shard haddressed
    have hwritten := (shard.call_insert_metFates (halone s) (self.insertRequest fxhash collection records s)).2
    have hunchanged := ((hsame s shard haddressed.1).unchanged_iff hcoll (hshare s) hwritten).mp
      (hkept s shard _ haddressed.1 (hcalled s shard haddressed))
    rw [any_commits_eq_false_iff] at hunchanged
    exact hunchanged
  · intro hheld s old new hold hnew
    by_cases hnil : self.share fxhash records VectorRecord.id s = []
    · cases (writeGroups_shards_of_nil hold hnil).symm.trans hnew
      intro name held _ id
      rfl
    · cases (hcalled s old ⟨hold, hnil⟩).symm.trans hnew
      have hwritten := (old.call_insert_metFates (halone s) (self.insertRequest fxhash collection records s)).2
      refine ((hsame s old hold).unchanged_iff hcoll (hshare s) hwritten).mpr ?_
      rw [any_commits_eq_false_iff]
      exact hheld s old ⟨hold, hnil⟩

/-- A batch with a wrong dimension, which one store rejects whole, fails at the router and
leaves no trace exactly when some shard's attempts meet no acknowledgement, and every part
that fits meets no commit or is held already. -/
theorem invalid_batch_rejected_iff {fxhash : UInt64 → UInt64} {router : ShardRouter F} {single : Store F}
    (hsame : ∀ (s : ℕ) shard, router.shards[s]? = some shard →
      SlicedLog (router.owner fxhash) single s shard.group.log)
    {fates : ℕ → ℕ → ℕ → AttemptFate (RaftFate F)} (halone : ∀ s, Undisturbed (fates s)) {collection : String}
    {coll : Collection F} (hcoll : single.collections[collection]? = some coll)
    {records : List (VectorRecord F)} (hwrong : ∃ record ∈ records, record.embedding.length ≠ coll.dim) :
    (∃ actual, single.insert collection records = (.error (.dimensionMismatch coll.dim actual), single)) ∧
      (((∃ e, (router.insert fxhash fates collection records).1 = .error e) ∧
          router.SameRecords single (router.insert fxhash fates collection records).2) ↔
        (∃ s shard, router.Addressed fxhash records s shard ∧
          ∀ fate ∈ shard.metFates (fates s) (router.insertRequest fxhash collection records s),
            fate.acknowledges = false) ∧
        ∀ s shard, router.Addressed fxhash records s shard →
          coll.Admits (router.share fxhash records VectorRecord.id s) →
          (∀ fate ∈ shard.metFates (fates s) (router.insertRequest fxhash collection records s),
            fate.commits = false) ∨
            single.Holds collection (router.share fxhash records VectorRecord.id s)) := by
  refine ⟨?_, ?_⟩
  · obtain ⟨record, hrecord, hlength⟩ := hwrong
    exact Store.insert_of_not_admits hcoll fun hadmits => hlength (hadmits record hrecord)
  · rw [router.insert_error_iff fxhash halone collection records, insert_sameRecords_iff hsame halone hcoll records]

/-- A batch of two parts on a cluster that no request reaches is rejected and leaves no trace. -/
theorem invalid_batch_rejected_unreachable :
    let shard : Shard ℤ := ⟨⟨["http://a"], by decide, 0⟩, ShardGroup.fresh ℤ fun _ => 1⟩
    let empty : ShardRouter ℤ := ⟨[shard, shard], by decide, by decide⟩
    let router := (empty.createCollection (fun _ _ => .delivered) "docs" 1).2
    let single := (Store.new.createCollection "docs" 1 empty.shardCount).2
    let fates : ℕ → ℕ → ℕ → AttemptFate (RaftFate ℤ) := fun _ _ _ => .hung
    (∃ e, (router.insert fxHasher fates "docs" [⟨3, [3], ∅⟩, ⟨1, [], ∅⟩]).1 = .error e) ∧
      router.SameRecords single (router.insert fxHasher fates "docs" [⟨3, [3], ∅⟩, ⟨1, [], ∅⟩]).2 := by
  intro shard empty router single fates
  have hfresh : empty.Fresh := .of_alike shard (by simp [empty]) rfl
  have hsliced : router.Sliced (empty.owner fxHasher) (fun _ _ => True) single :=
    (hfresh.sliced (empty.owner fxHasher) fun _ _ => True).createCollection (fun _ _ _ => rfl) "docs" 1
  have hcoll : single.collections["docs"]? = some ⟨1, 2, ∅⟩ := by decide
  have hwrong : ∃ record ∈ [(⟨3, [3], ∅⟩ : VectorRecord ℤ), ⟨1, [], ∅⟩], record.embedding.length ≠ 1 := by decide
  refine (invalid_batch_rejected_iff (fun s shard hshard => (hsliced s shard hshard).log)
    (fun s n idx others logId replyLost hfate => by cases hfate) hcoll hwrong).2.mpr ⟨?_, ?_⟩
  · exact ⟨0, _, ⟨rfl, by decide⟩, by decide⟩
  · intro s shard _ _
    refine Or.inl fun fate hfate => ?_
    rcases mem_retryLoop_recordFate hfate with hnone | ⟨n, idx, rfl⟩
    · cases hnone
    · rfl

/-- With every part acknowledged the same batch succeeds, and the part that fits is stored: id 3
is owned by the first of two shards, id 1 by the second. -/
theorem invalid_batch_half_stored :
    let shard : Shard ℤ := ⟨⟨["http://a"], by decide, 0⟩, ShardGroup.fresh ℤ fun _ => 1⟩
    let empty : ShardRouter ℤ := ⟨[shard, shard], by decide, by decide⟩
    let router := (empty.createCollection (fun _ _ => .delivered) "docs" 1).2
    let single := (Store.new.createCollection "docs" 1 empty.shardCount).2
    let fates : ℕ → ℕ → ℕ → AttemptFate (RaftFate ℤ) := fun _ _ _ => .reached (.committed [] ⟨⟨1, 1⟩, 0⟩) false
    let batch : List (VectorRecord ℤ) := [⟨3, [3], ∅⟩, ⟨1, [], ∅⟩]
    single.insert "docs" batch = (.error (.dimensionMismatch 1 0), single) ∧
      (router.insert fxHasher fates "docs" batch).1 = .ok 2 ∧
      ∀ shard ∈ (router.insert fxHasher fates "docs" batch).2.shards[0]?,
        shard.leader.machine.store.version "docs" 3 = some (StoredVector.ofRecord ⟨3, [3], ∅⟩) := by
  decide

end ShardRouter

end RaftVec
