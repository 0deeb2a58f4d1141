import RaftVec.Library.Linearizability
import RaftVec.Library.Run
import RaftVec.Node.HitVersions
import RaftVec.Node.LeaderHint

/-!
# Concurrent requests to one shard

Any number of inserts, deletes and searches are in flight at the replicas of one shard
while openraft commits entries and every replica applies them at its own pace. A write is
committed at most once and is acknowledged after the replica that took it has applied it.
A search scans its replica's store some time after `ensure_linearizable` let it pass, so
after every entry committed before the request came in was applied there, and looks up its
hits' metadata one by one while more entries are applied. A caller may be refused or lost
at any time, and a write nobody waits for any more may still be committed.

The shard then behaves as one store that serves the requests one at a time, in an order
that agrees with real time. Only the hits' metadata is left out of the comparison: it is
looked up after the scan.

All replicas start with the same collections. Collections created later, restarts and
snapshots are not part of these runs.
-/

namespace RaftVec

open Std Run Linearizability

/-! ## One store, one request at a time -/

section Serving

variable {F : Type*}

/-- The command a request submits to the log; a search submits none. -/
def Rpc.command : Rpc F → Option (ShardCommand F)
  | .insert req => some (.upsert req.collection req.records)
  | .delete req => some (.delete req.collection req.ids)
  | .search _ => none

/-- What a replica answers once `client_write` has returned; a search does not wait for that. -/
def Rpc.acknowledgement (response : ShardCommandResponse) : Rpc F → Option (Except Status (RpcResponse F))
  | .insert req => some ((NodeService.insert (fun _ _ => (.ok response, ())) req ()).1.map .inserted)
  | .delete req => some ((NodeService.delete (F := F) (fun _ _ => (.ok response, ())) req ()).1.map .deleted)
  | .search _ => none

/-- A response with the metadata of its hits left out. -/
def RpcResponse.forgetMetadata : RpcResponse F → RpcResponse F
  | .searched response =>
    .searched { response with results := response.results.map fun hit => { hit with metadata := ∅ } }
  | response => response

/-- An answer with the metadata of its hits left out. -/
def forgetMetadata (answer : Except Status (RpcResponse F)) : Except Status (RpcResponse F) :=
  answer.map RpcResponse.forgetMetadata

variable [FloatOps F]

/-- Execute a command at once. -/
def Store.clientWrite (cmd : ShardCommand F) (store : Store F) :
    Except ClientWriteError ShardCommandResponse × Store F :=
  let result := store.execute cmd
  (.ok ⟨result.1⟩, result.2)

variable [LinearOrder F]

/-- Answer one request from a store that no other request uses. -/
def Store.serve (schedule : ScanSchedule (VectorRecord F × F)) (store : Store F) :
    Rpc F → Except Status (RpcResponse F) × Store F
  | .insert req =>
    let served := NodeService.insert Store.clientWrite req store
    (served.1.map .inserted, served.2)
  | .delete req =>
    let served := NodeService.delete Store.clientWrite req store
    (served.1.map .deleted, served.2)
  | .search req =>
    match store.search schedule req.collection req.queryVector req.k.toNat with
    | .error err => (.error err.toStatus, store)
    | .ok scored => (.ok (.searched ⟨scored.map (store.attachMetadata req.collection), 1, 0, ""⟩), store)

/-- Answer one request, the metadata of the hits left out. -/
def Store.serveRanking (schedule : ScanSchedule (VectorRecord F × F)) (store : Store F) (rpc : Rpc F) :
    Except Status (RpcResponse F) × Store F :=
  (forgetMetadata (store.serve schedule rpc).1, (store.serve schedule rpc).2)

/-- A write is acknowledged as a store that executes it at once acknowledges it. -/
theorem Rpc.acknowledgement_eq_serve {rpc : Rpc F} {response : ShardCommandResponse}
    {answer : Except Status (RpcResponse F)} (h : rpc.acknowledgement response = some answer)
    (schedule : ScanSchedule (VectorRecord F × F)) (store : Store F) : answer = (store.serve schedule rpc).1 := by
  cases rpc with
  | insert req => exact (Option.some.inj h).symm
  | delete req => exact (Option.some.inj h).symm
  | search req => cases h

/-- What a search finds does not depend on how the scan is cut up. -/
theorem Store.search_schedule (schedule schedule' : ScanSchedule (VectorRecord F × F)) (store : Store F)
    (collection : String) (query : List F) (k : ℕ) :
    store.search schedule collection query k = store.search schedule' collection query k := by
  cases hcoll : store.collections[collection]? with
  | none => simp only [search, hcoll]
  | some coll =>
    by_cases hquery : query.length = coll.dim
    · rw [search_eq_greatest schedule k hcoll hquery, search_eq_greatest schedule' k hcoll hquery]
    · simp only [search, hcoll, ne_eq, hquery, not_false_eq_true, if_true]

end Serving

/-! ## Requests in flight -/

/-- What the caller of a request has got so far. -/
inductive Caller (F : Type*) where
  | waiting
  | gone
  | answered (moment : ℕ) (answer : Except Status (RpcResponse F))

instance {F : Type*} (caller : Caller F) : Decidable (caller = .waiting) :=
  match caller with
  | .waiting => .isTrue rfl
  | .gone => .isFalse (by simp)
  | .answered _ _ => .isFalse (by simp)

instance {F : Type*} (phase : SearchPhase F) : Decidable (phase = .scanning) :=
  match phase with
  | .scanning => .isTrue rfl
  | .reading _ _ => .isFalse (by simp)
  | .finished _ => .isFalse (by simp)

/-- A request at one replica.

`place` is where it took effect: the position of a write's entry in the log, or the number
of entries applied when a search scanned the store. -/
structure ShardRequest (F : Type*) where
  rpc : Rpc F
  replica : ℕ
  invoked : ℕ
  committedBefore : ℕ
  place : Option ℕ
  progress : SearchPhase F
  caller : Caller F

/-- A shard's replicas, the requests that ever came in, and the number of events so far. -/
structure ConcurrentShard (F : Type*) where
  group : ShardGroup F
  requests : List (ShardRequest F)
  moment : ℕ

/-- What can happen next at a shard. -/
inductive ShardEvent (F : Type*) where
  | invoke (rpc : Rpc F) (replica : ℕ)
  | commit (n : ℕ) (logId : LogId) (cmd : ShardCommand F)
  | commitOther (entry : Entry F)
  | apply (replica : ℕ)
  | acknowledge (n : ℕ) (response : ShardCommandResponse)
  | search (n : ℕ) (schedule : ScanSchedule (VectorRecord F × F))
  | abandon (n : ℕ)

namespace ShardRequest

variable {F : Type*}

/-- A request that has just come in. -/
def arrived (rpc : Rpc F) (replica moment committedBefore : ℕ) : ShardRequest F :=
  ⟨rpc, replica, moment, committedBefore, none, .scanning, .waiting⟩

/-- Take a write's place in the log. -/
def commitAt (position : ℕ) (self : ShardRequest F) : ShardRequest F := { self with place := some position }

/-- Answer a write. -/
def acknowledge (moment : ℕ) (response : ShardCommandResponse) (self : ShardRequest F) : ShardRequest F :=
  match self.rpc.acknowledgement response with
  | some answer => { self with caller := .answered moment answer }
  | none => self

/-- Leave the caller without an answer. -/
def abandon (self : ShardRequest F) : ShardRequest F := { self with caller := .gone }

variable [FloatOps F] [LinearOrder F]

/-- Take a search's next locked step at its replica: scan, look one hit up, or answer. -/
def search (moment : ℕ) (schedule : ScanSchedule (VectorRecord F × F)) (replicas : ℕ → GroupReplica F)
    (self : ShardRequest F) : ShardRequest F :=
  match self.rpc with
  | .search req =>
    let replica := replicas self.replica
    let next := ((⟨replica.machine.store, [], self.progress⟩ : SearchInFlight F).step schedule req .search).phase
    { self with
      place := match self.progress with
        | .scanning => some replica.applied
        | _ => self.place
      progress := next
      caller := match next with
        | .finished response => .answered moment (response.map .searched)
        | _ => self.caller }
  | _ => self

/-- The request as a call of a shared object. -/
def call (self : ShardRequest F) : Call (Rpc F) (Except Status (RpcResponse F)) :=
  ⟨self.rpc, self.invoked,
    match self.caller with
    | .answered moment answer => some (moment, forgetMetadata answer)
    | _ => none⟩

end ShardRequest

namespace ConcurrentShard

variable {F : Type*} [FloatOps F] [LinearOrder F]

/-- Replicas that all hold the same collections and have applied nothing yet. -/
def start (store : Store F) (nodeIds : ℕ → NodeId) : ConcurrentShard F :=
  ⟨⟨[], fun idx => ⟨nodeIds idx, .new store, 0⟩⟩, [], 0⟩

/-- Take one step. -/
def step (self : ConcurrentShard F) (event : ShardEvent F) : ConcurrentShard F :=
  match event with
  | .invoke rpc replica =>
    ⟨self.group, self.requests ++ [.arrived rpc replica self.moment self.group.log.length], self.moment + 1⟩
  | .commit n logId cmd =>
    ⟨self.group.commit [⟨logId, .normal cmd⟩], self.requests.modify n (.commitAt self.group.log.length),
      self.moment + 1⟩
  | .commitOther entry => ⟨self.group.commit [entry], self.requests, self.moment + 1⟩
  | .apply replica =>
    ⟨self.group.update replica ((self.group.replicas replica).applyNext self.group.log), self.requests,
      self.moment + 1⟩
  | .acknowledge n response =>
    ⟨self.group, self.requests.modify n (.acknowledge self.moment response), self.moment + 1⟩
  | .search n schedule =>
    ⟨self.group, self.requests.modify n (.search self.moment schedule self.group.replicas), self.moment + 1⟩
  | .abandon n => ⟨self.group, self.requests.modify n .abandon, self.moment + 1⟩

/-- What openraft and the handlers allow.

A request's command is committed once. A write is answered after its replica has applied
it, and a search scans after its replica has applied all that was committed before it. -/
def Permits (self : ConcurrentShard F) : ShardEvent F → Prop
  | .commit n _ cmd => ∃ r, self.requests[n]? = some r ∧ r.rpc.command = some cmd ∧ r.place = none
  | .commitOther entry => logCommands [entry] = []
  | .acknowledge n _ => ∃ r position, self.requests[n]? = some r ∧ r.place = some position ∧
      position < (self.group.replicas r.replica).applied
  | .search n _ => ∃ r, self.requests[n]? = some r ∧ r.caller = .waiting ∧
      (r.progress = .scanning → r.committedBefore ≤ (self.group.replicas r.replica).applied)
  | _ => True

/-- The requests as calls of a shared object, in the order in which they came in. -/
def history (self : ConcurrentShard F) : List (Call (Rpc F) (Except Status (RpcResponse F))) :=
  self.requests.map ShardRequest.call

end ConcurrentShard

end RaftVec
