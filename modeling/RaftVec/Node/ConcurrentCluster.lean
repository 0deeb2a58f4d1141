import RaftVec.Library.Locality
import RaftVec.Node.LinearizableShard

/-!
# Concurrent requests to all shards of a cluster

The shards run side by side and share nothing but the clock: while one takes a step, time
passes at the others. Every shard's history is linearizable by itself, and so the requests
to all of them are explained by one array of stores that serves them one at a time, in an
order that agrees with real time across shards. A search of one shard that begins after an
insert at another was acknowledged is served after it.

This is about requests to the replicas. A batch that the aggregator splits up becomes one
request per shard, and a search of the whole cluster one search per shard.
-/

namespace RaftVec

open Std Run Linearizability

/-- The shards of a cluster with their requests in flight. -/
structure ConcurrentCluster (F : Type*) (count : ℕ) where
  shards : Fin count → ConcurrentShard F

/-- Time passes at a shard that takes no step. -/
def ConcurrentShard.wait {F : Type*} (self : ConcurrentShard F) : ConcurrentShard F :=
  { self with moment := self.moment + 1 }

namespace ConcurrentCluster

variable {F : Type*} [FloatOps F] [LinearOrder F] {count : ℕ}

/-- Shards whose replicas have applied nothing yet. -/
def start (stores : Fin count → Store F) (nodeIds : Fin count → ℕ → NodeId) : ConcurrentCluster F count :=
  ⟨fun s => .start (stores s) (nodeIds s)⟩

/-- Take one step at one shard. -/
def step (self : ConcurrentCluster F count) (event : Fin count × ShardEvent F) : ConcurrentCluster F count :=
  ⟨fun s => if s = event.1 then (self.shards s).step event.2 else (self.shards s).wait⟩

/-- The shard permits the step. -/
def Permits (self : ConcurrentCluster F count) (event : Fin count × ShardEvent F) : Prop :=
  (self.shards event.1).Permits event.2

/-- The requests to all shards as calls of one array of stores. -/
def history (self : ConcurrentCluster F count) :
    Fin count × ℕ → Option (Call (Fin count × Rpc F) (Except Status (RpcResponse F))) :=
  together fun s n => (self.shards s).history[n]?

/-- Every shard is valid. -/
def Valid (schedule : ScanSchedule (VectorRecord F × F)) (stores : Fin count → Store F)
    (self : ConcurrentCluster F count) : Prop :=
  ∀ s, (self.shards s).Valid schedule (stores s)

variable {schedule : ScanSchedule (VectorRecord F × F)} {stores : Fin count → Store F}

/-- A step at one shard keeps all of them valid. -/
theorem Valid.step (cluster : ConcurrentCluster F count) (event : Fin count × ShardEvent F)
    (h : cluster.Valid schedule stores) (hpermits : cluster.Permits event) :
    (cluster.step event).Valid schedule stores := by
  intro s
  simp only [ConcurrentCluster.step]
  by_cases hs : s = event.1
  · subst hs
    rw [if_pos rfl]
    exact ConcurrentShard.Valid.step _ event.2 (h event.1) hpermits
  · rw [if_neg hs]
    exact (h s).idle (List.append_nil _).symm rfl (h s).replica

end ConcurrentCluster

end RaftVec
