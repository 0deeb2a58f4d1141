import RaftVec.Library.Run
import RaftVec.Node.StateMachine

/-!
# Agreement between the replicas of one shard

A replica is driven over two channels: log entries in log order, and `CreateCollection`
requests that reach it at any point. A restart empties the store and the log, and the
replica replays the log from the start; what it has received is counted from there.

Replicas at the same log position with the same requests need not agree: an upsert that
arrives before its collection is rejected for good. They agree when on each replica the
first request for a name comes before any upsert it would have made acceptable, and both
replicas see the same shape first. Then a collection is the outcome of its whole log,
whenever it was created.
-/

namespace RaftVec

open Std WriteHistory Run

/-- One delivery to a replica. -/
inductive ReplicaEvent (F : Type*) where
  | createCollection (name : String) (dim : ℕ) (shardCount : UInt32)
  | applyEntry (entry : Entry F)
  | restart

/-- A replica with what it has applied and received since it started. -/
structure Replica (F : Type*) where
  machine : ShardStateMachine F
  applied : List (Entry F)
  received : List (String × ℕ × UInt32)

namespace Replica

variable {F : Type*}

/-- A replica just started. -/
def fresh : Replica F := ⟨.new .new, [], []⟩

variable [FloatOps F]

/-- Deliver one event. -/
def step (self : Replica F) : ReplicaEvent F → Replica F
  | .createCollection name dim shardCount =>
    { self with
      machine := { self.machine with
        store := (self.machine.store.createCollection name dim shardCount).2 }
      received := self.received ++ [(name, dim, shardCount)] }
  | .applyEntry entry =>
    { self with
      machine := (self.machine.applyEntry entry).2
      applied := self.applied ++ [entry] }
  | .restart => fresh

/-- A creating request has the agreed shape and finds no upsert it comes too late for.

A request for a name already taken is rejected and may come at any time. -/
def CreatesInTime (shape : String → ℕ × UInt32) (self : Replica F) : ReplicaEvent F → Prop
  | .createCollection name dim shardCount =>
    name ∈ self.machine.store.collections ∨
      (shape name = (dim, max shardCount 1) ∧
        ∀ w ∈ effectOn name dim (logCommands self.applied), w.2 = none)
  | _ => True

/-- The collection a whole log makes of a shape. -/
def replayed (shape : String → ℕ × UInt32) (applied : List (Entry F)) (name : String) : Collection F :=
  (⟨(shape name).1, (shape name).2, ∅⟩ : Collection F).write
    (effectOn name (shape name).1 (logCommands applied))

/-- The requested collections are what the whole applied log makes of their shapes. -/
structure Replayed (shape : String → ℕ × UInt32) (replica : Replica F) : Prop where
  requested : ∀ name ∈ replica.received.map Prod.fst,
    replica.machine.store.collections[name]? = some (replayed shape replica.applied name)
  unrequested : ∀ name ∉ replica.received.map Prod.fst,
    replica.machine.store.collections[name]? = none

/-- Applying an entry runs its commands on the store. -/
theorem applyEntry_store (machine : ShardStateMachine F) (entry : Entry F) :
    (machine.applyEntry entry).2.store = machine.store.executeAll (logCommands [entry]) :=
  machine.apply_store [entry]

/-- A fresh replica has replayed its empty log. -/
theorem replayed_fresh (shape : String → ℕ × UInt32) : Replayed shape (fresh : Replica F) := by
  refine ⟨?_, ?_⟩
  · intro name hname
    simp [fresh] at hname
  · intro name _
    simp [fresh, ShardStateMachine.new, Store.new]

/-- A timely creation leaves every requested collection replayed. -/
theorem Replayed.createCollection {shape : String → ℕ × UInt32} {self : Replica F}
    (h : Replayed shape self) (name : String) (dim : ℕ) (shardCount : UInt32)
    (htime : CreatesInTime shape self (.createCollection name dim shardCount)) :
    Replayed shape (self.step (.createCollection name dim shardCount)) := by
  refine ⟨?_, ?_⟩
  · intro other hother
    simp only [step, List.map_append, List.map_cons, List.map_nil, List.mem_append,
      List.mem_singleton] at hother ⊢
    rw [Store.createCollection_collections]
    by_cases hheld : other ∈ self.received.map Prod.fst
    · rw [h.requested other hheld, Option.some_or, ite_self]
    · have hname : other = name := hother.resolve_left hheld
      subst hname
      rw [if_pos rfl, h.unrequested other hheld, Option.none_or]
      rcases htime with htaken | ⟨hshape, hlate⟩
      · rw [ExtTreeMap.mem_iff_isSome_getElem?, h.unrequested other hheld] at htaken
        cases htaken
      · simp only [replayed, hshape, Collection.write, applyWrites_deletions hlate]
  · intro other hother
    simp only [step, List.map_append, List.map_cons, List.map_nil, List.mem_append,
      List.mem_singleton, not_or] at hother ⊢
    rw [Store.createCollection_collections, if_neg (Ne.symm hother.2), h.unrequested other hother.1]

/-- Applying an entry leaves every requested collection replayed. -/
theorem Replayed.applyEntry {shape : String → ℕ × UInt32} {self : Replica F}
    (h : Replayed shape self) (entry : Entry F) : Replayed shape (self.step (.applyEntry entry)) := by
  refine ⟨?_, ?_⟩
  · intro name hname
    have hlog : logCommands (self.applied ++ [entry]) = logCommands self.applied ++ logCommands [entry] :=
      List.filterMap_append
    simp only [step, applyEntry_store, Store.executeAll_collections, h.requested name hname]
    rw [Option.map_some, Option.some.injEq, replayed, Collection.write_dim, ← Collection.write_append,
      ← effectOn_append, ← hlog, replayed]
  · intro name hname
    simp only [step, applyEntry_store, Store.executeAll_collections, h.unrequested name hname]
    rfl

/-- Every timely event leaves every requested collection replayed. -/
theorem Replayed.step {shape : String → ℕ × UInt32} (self : Replica F) (event : ReplicaEvent F)
    (h : Replayed shape self) (htime : CreatesInTime shape self event) :
    Replayed shape (self.step event) := by
  cases event with
  | createCollection name dim shardCount => exact h.createCollection name dim shardCount htime
  | applyEntry entry => exact h.applyEntry entry
  | restart => exact replayed_fresh shape

/-- Replicas at the same log position with the same requests agree if collections come in time.

The two runs are arbitrary interleavings of entries, requests and restarts. -/
theorem replicas_agree_of_creates_in_time (shape : String → ℕ × UInt32)
    (events₁ events₂ : List (ReplicaEvent F))
    (htime₁ : Guarded (CreatesInTime shape) Replica.step fresh events₁)
    (htime₂ : Guarded (CreatesInTime shape) Replica.step fresh events₂)
    (happlied : (run Replica.step fresh events₁).applied = (run Replica.step fresh events₂).applied)
    (hreceived : ∀ request, request ∈ (run Replica.step fresh events₁).received ↔
      request ∈ (run Replica.step fresh events₂).received) :
    (run Replica.step fresh events₁).machine.store = (run Replica.step fresh events₂).machine.store := by
  have h₁ := invariant_of_guarded Replayed.step (replayed_fresh shape) htime₁
  have h₂ := invariant_of_guarded Replayed.step (replayed_fresh shape) htime₂
  apply Store.ext_collections
  intro name
  have hnames : name ∈ (run Replica.step fresh events₁).received.map Prod.fst ↔
      name ∈ (run Replica.step fresh events₂).received.map Prod.fst := by
    simp only [List.mem_map, hreceived]
  by_cases hname : name ∈ (run Replica.step fresh events₁).received.map Prod.fst
  · rw [h₁.requested name hname, h₂.requested name (hnames.mp hname), happlied]
  · rw [h₁.unrequested name hname, h₂.unrequested name (fun h => hname (hnames.mpr h))]

/-- The law where one replica sees the request between two blank entries and the other first. -/
theorem replicas_agree_docs :
    let blank : Entry ℤ := ⟨⟨⟨1, 1⟩, 0⟩, .blank⟩
    let upsert : Entry ℤ := ⟨⟨⟨1, 1⟩, 1⟩, .normal (.upsert "docs" [⟨1, [3], ∅⟩])⟩
    (run Replica.step fresh [.createCollection "docs" 1 1, .applyEntry blank, .applyEntry upsert]).machine.store =
      (run Replica.step fresh
        [.applyEntry blank, .createCollection "docs" 1 1, .applyEntry upsert]).machine.store := by
  intro blank upsert
  refine replicas_agree_of_creates_in_time (fun _ => (1, 1)) _ _ ⟨Or.inr ⟨rfl, ?_⟩, trivial, trivial, trivial⟩
    ⟨trivial, Or.inr ⟨rfl, ?_⟩, trivial, trivial⟩ rfl (fun _ => Iff.rfl)
  · intro w hw
    cases hw
  · intro w hw
    cases hw

/-- The same upsert and the same request in the other order: one replica misses the record. -/
theorem replicas_diverge_on_late_create :
    let upsert : Entry ℤ := ⟨⟨⟨1, 1⟩, 0⟩, .normal (.upsert "docs" [⟨1, [3], ∅⟩])⟩
    let replica₁ := run Replica.step fresh [.createCollection "docs" 1 1, .applyEntry upsert]
    let replica₂ := run Replica.step fresh [.applyEntry upsert, .createCollection "docs" 1 1]
    replica₁.applied = replica₂.applied ∧ replica₁.received = replica₂.received ∧
      replica₁.machine.store ≠ replica₂.machine.store := by
  decide

end Replica

end RaftVec
