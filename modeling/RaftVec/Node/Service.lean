import RaftVec.Node.StateMachine

/-!
# The gRPC service of one replica

Writes go through `raft.client_write`, collection creation goes straight to the store,
and reads are served once a quorum has confirmed the leadership. What openraft answers is
a parameter of each handler: the state `S` is whatever openraft and the store share, and
a handler threads it through.

A write is acknowledged with the number of records in the request. The count that
`apply` reports for the entry is dropped.
-/

namespace RaftVec

open Std

/-- The status codes of gRPC. -/
inductive Code where
  | ok | cancelled | unknown | invalidArgument | deadlineExceeded | notFound | alreadyExists
  | permissionDenied | resourceExhausted | failedPrecondition | aborted | outOfRange | unimplemented
  | internal | unavailable | dataLoss | unauthenticated
deriving DecidableEq

/-- A failed call's code and message. -/
structure Status where
  code : Code
  message : String
deriving DecidableEq

/-- The text of a store error. -/
def StoreError.toString : StoreError → String
  | .collectionExists name => s!"collection '{name}' already exists"
  | .collectionNotFound name => s!"collection '{name}' not found"
  | .dimensionMismatch expected actual => s!"embedding has dimension {actual}, expected {expected}"

/-- The status a store error is reported as. -/
def StoreError.toStatus (err : StoreError) : Status :=
  match err with
  | .collectionExists _ => ⟨.alreadyExists, err.toString⟩
  | .collectionNotFound _ => ⟨.notFound, err.toString⟩
  | .dimensionMismatch _ _ => ⟨.invalidArgument, err.toString⟩

/-- Ask for a collection of a given shape. -/
structure CreateCollectionRequest where
  name : String
  dim : UInt32
  shardCount : UInt32
deriving DecidableEq

/-- Whether the collection was created. -/
structure CreateCollectionResponse where
  created : Bool
deriving DecidableEq

/-- A batch of records to store. -/
structure InsertRequest (F : Type*) where
  collection : String
  records : List (VectorRecord F)

/-- How many records were accepted, or where the leader is. -/
structure InsertResponse where
  inserted : UInt32
  leaderHint : String
deriving DecidableEq

/-- A batch of ids to remove. -/
structure DeleteRequest where
  collection : String
  ids : List UInt64

/-- How many ids were accepted, or where the leader is. -/
structure DeleteResponse where
  deleted : UInt32
  leaderHint : String
deriving DecidableEq

/-- A query for the best `k` records. -/
structure SearchRequest (F : Type*) where
  collection : String
  queryVector : List F
  k : UInt32

/-- One hit with the metadata found under its id. -/
structure ScoredRecord (F : Type*) where
  id : UInt64
  score : F
  metadata : Metadata
deriving DecidableEq

/-- The hits of one or more shards, or where the leader is. -/
structure SearchResponse (F : Type*) where
  results : List (ScoredRecord F)
  shardsQueried : UInt32
  shardsFailed : UInt32
  leaderHint : String

/-- Attach the metadata stored under the hit's id, empty when nothing is stored there. -/
def Store.attachMetadata {F : Type*} (store : Store F) (collection : String) (hit : ScoredId F) :
    ScoredRecord F :=
  ⟨hit.id, hit.score, (store.getMetadata collection hit.id).getD ∅⟩

/-- Why `client_write` failed. -/
inductive ClientWriteError where
  | forwardToLeader (leaderNode : Option BasicNode)
  | other (message : String)
deriving DecidableEq

/-- What a replica believes about the leadership of its group. -/
structure RaftMetrics where
  currentLeader : Option NodeId
  membershipConfig : StoredMembership

/-- Who a replica believes to be leader. -/
inductive Leadership where
  | iAmLeader
  | redirect (addr : String)
  | unknown
deriving DecidableEq

namespace NodeService

/-- Resolve the believed leader to itself, an address, or nothing. -/
def leadership (nodeId : NodeId) (metrics : RaftMetrics) : Leadership :=
  match metrics.currentLeader with
  | some id =>
    if id = nodeId then .iAmLeader
    else
      match metrics.membershipConfig.membership.nodes[id]? with
      | some node => .redirect node.addr
      | none => .unknown
  | none => .unknown

/-- Turn a failed write into the leader's address, or an error when none is known. -/
def writeErrorToHint : ClientWriteError → Except Status String
  | .forwardToLeader (some node) => .ok node.addr
  | .forwardToLeader none => .error ⟨.unavailable, "no leader currently known for this shard"⟩
  | .other message => .error ⟨.internal, message⟩

variable {F S : Type*}

/-- Create the collection in the local store. -/
def createCollection (store : Store F) (req : CreateCollectionRequest) :
    Except Status CreateCollectionResponse × Store F :=
  match store.createCollection req.name req.dim.toNat req.shardCount with
  | (.error err, store) => (.error err.toStatus, store)
  | (.ok (), store) => (.ok ⟨true⟩, store)

/-- The service creates what the store creates, and says `Ok` exactly when the store does. -/
theorem createCollection_store (store : Store F) (req : CreateCollectionRequest) :
    (createCollection store req).2 = (store.createCollection req.name req.dim.toNat req.shardCount).2 ∧
      ((∃ response, (createCollection store req).1 = .ok response) ↔ store.shape req.name = none) := by
  rw [← Store.createCollection_ok_iff store req.name req.dim.toNat req.shardCount]
  unfold createCollection
  split
  · next err after hcreate => simp [hcreate]
  · next after hcreate => simp [hcreate]

/-- Submit one command and acknowledge `count` items once it is applied, whatever it did. -/
def write {R : Type*} (clientWrite : ShardCommand F → S → Except ClientWriteError ShardCommandResponse × S)
    (cmd : ShardCommand F) (count : ℕ) (response : UInt32 → String → R) (state : S) :
    Except Status R × S :=
  match clientWrite cmd state with
  | (.ok _, state) => (.ok (response (UInt32.ofNat count) ""), state)
  | (.error e, state) =>
    match writeErrorToHint e with
    | .ok hint => (.ok (response 0 hint), state)
    | .error status => (.error status, state)

/-- Submit the batch as one log entry and acknowledge its length. -/
def insert (clientWrite : ShardCommand F → S → Except ClientWriteError ShardCommandResponse × S)
    (req : InsertRequest F) : S → Except Status InsertResponse × S :=
  write clientWrite (.upsert req.collection req.records) req.records.length InsertResponse.mk

/-- Submit the ids as one log entry and acknowledge their number. -/
def delete (clientWrite : ShardCommand F → S → Except ClientWriteError ShardCommandResponse × S)
    (req : DeleteRequest) : S → Except Status DeleteResponse × S :=
  write clientWrite (.delete req.collection req.ids) req.ids.length DeleteResponse.mk

variable [FloatOps F] [LinearOrder F]

/-- What the runtime contributes to one read: openraft's belief, its quorum check, and the scan. -/
structure ReadConditions (F : Type*) where
  metrics : RaftMetrics
  ensureLinearizable : Except String Unit
  joined : Except String Unit
  schedule : ScanSchedule (VectorRecord F × F)

/-- Scan the store once, then look up each hit's metadata. -/
def searchStore (conditions : ReadConditions F) (store : Store F) (req : SearchRequest F) :
    Except Status (SearchResponse F) :=
  match conditions.joined with
  | .error e => .error ⟨.internal, e⟩
  | .ok () =>
    match store.search conditions.schedule req.collection req.queryVector req.k.toNat with
    | .error err => .error err.toStatus
    | .ok scored => .ok ⟨scored.map (store.attachMetadata req.collection), 1, 0, ""⟩

/-- Serve a read only as the leader a quorum confirms; others point to the leader they know. -/
def search (nodeId : NodeId) (conditions : ReadConditions F) (store : Store F) (req : SearchRequest F) :
    Except Status (SearchResponse F) :=
  match leadership nodeId conditions.metrics with
  | .redirect hint => .ok ⟨[], 0, 0, hint⟩
  | .unknown => .error ⟨.unavailable, "no leader currently known for this shard"⟩
  | .iAmLeader =>
    match conditions.ensureLinearizable with
    | .error e => .error ⟨.unavailable, s!"cannot confirm current leadership (lost quorum?): {e}"⟩
    | .ok () => searchStore conditions store req

end NodeService

end RaftVec
