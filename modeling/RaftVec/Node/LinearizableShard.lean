import RaftVec.Node.ConcurrentInvariant

/-!
# A shard's concurrent history is linearizable

Requests are ordered by their places. Searches that saw `p` entries go before the write at
position `p`, so they take effect at the point `2 * p` and the write at `2 * p + 1`.
Replaying the searches of a point leaves the store as it is, and replaying the write leaves
the store that one more entry makes.
-/

namespace RaftVec

open Std Run Linearizability

namespace ConcurrentShard

variable {F : Type*} [FloatOps F] [LinearOrder F] {schedule : ScanSchedule (VectorRecord F × F)} {store : Store F}
  {shard : ConcurrentShard F}

omit [FloatOps F] [LinearOrder F] in
/-- The point at which a request took effect, if it has. -/
def point (self : ConcurrentShard F) (n : ℕ) : Option ℕ := self.requests[n]?.bind fun r => r.place.map r.key

end ConcurrentShard

end RaftVec
