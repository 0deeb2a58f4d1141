import RaftVec.Aggregator.FanOut

/-!
# Whether all replicas agree on a collection's shape

Each replica takes the first request for a name that reaches it. Two creations of one
name with different dimensions can reach two replicas in different orders, and then the
replicas keep different shapes for good, although both creations report an error. With
more than one replica this is the only way to disagree: replicas agree in every reachable
state exactly when the creations of one name all ask for one dimension.
-/

namespace RaftVec

namespace Fleet

open Std Run

variable {F Bytes : Type*}

/-- Any two replicas that hold a name hold it in the same shape. -/
def ShapesAgree (places : List Place) (fleet : Fleet F Bytes) : Prop :=
  ∀ p ∈ places, ∀ q ∈ places, ∀ (name : String) coll coll',
    (fleet.machines p).store.collections[name]? = some coll →
    (fleet.machines q).store.collections[name]? = some coll' →
      coll.dim = coll'.dim ∧ coll.shardCount = coll'.shardCount

/-- A shape some creation asked for. -/
def RequestedShape (requests : List (String × UInt32)) (shardCount : UInt32) (name : String)
    (shape : ℕ × UInt32) : Prop :=
  ∃ dim, (name, dim) ∈ requests ∧ shape = (dim.toNat, max shardCount 1)

/-- Every shape on a replica or in a snapshot is one that some creation asked for. -/
structure Requested (codec : Bincode F Bytes) (requests : List (String × UInt32)) (shardCount : UInt32)
    (fleet : Fleet F Bytes) : Prop where
  calls : ∀ call ∈ fleet.calls, (call.req.name, call.req.dim) ∈ requests ∧ call.req.shardCount = shardCount
  replicas : ∀ p name shape, fleet.shapeAt p name = some shape → RequestedShape requests shardCount name shape
  snapshots : ∀ entry ∈ fleet.snapshots, ∀ stored, codec.deserialize entry.2.snapshot = .ok stored →
    ∀ name shape, stored.shape name = some shape → RequestedShape requests shardCount name shape

/-- The creations of a run are among the given ones. -/
def CallsAmong (requests : List (String × UInt32)) (_fleet : Fleet F Bytes) : FleetEvent F → Prop
  | .call name dim => (name, dim) ∈ requests
  | _ => True

variable [FloatOps F]

omit [FloatOps F] in
/-- Replicas just started have no shapes at all. -/
theorem requested_fresh (codec : Bincode F Bytes) (requests : List (String × UInt32)) (shardCount : UInt32) :
    (fresh : Fleet F Bytes).Requested codec requests shardCount := by
  refine ⟨?_, ?_, ?_⟩
  · intro call hcall
    cases hcall
  · intro p name shape hshape
    simp [shapeAt, fresh, ShardStateMachine.new, Store.new, Store.shape] at hshape
  · intro entry hentry
    cases hentry

/-- A creation that is started is among the given ones, and going on with one changes no request. -/
theorem Requested.calls_step {codec : Bincode F Bytes} {requests : List (String × UInt32)}
    {shardCount : UInt32} {self : Fleet F Bytes} {event : FleetEvent F}
    (h : self.Requested codec requests shardCount) (hguard : self.CallsAmong requests event)
    {call : CreateCall} (hcall : call ∈ (self.step codec shardCount event).calls) :
    (call.req.name, call.req.dim) ∈ requests ∧ call.req.shardCount = shardCount := by
  cases (self.step_effect codec shardCount event).calls hcall with
  | inl hbefore => exact h.calls call hbefore
  | inr hchanged =>
    cases hchanged with
    | inl hstarted =>
      obtain ⟨name, dim, rfl, rfl⟩ := hstarted
      exact ⟨hguard, rfl⟩
    | inr hended =>
      obtain ⟨old, hold, place, result, _, rfl, _⟩ := hended
      exact h.calls old hold

/-- A replica gets new shapes from requests and snapshots only. -/
theorem Requested.replicas_step {codec : Bincode F Bytes} {requests : List (String × UInt32)}
    {shardCount : UInt32} {self : Fleet F Bytes} (h : self.Requested codec requests shardCount)
    (event : FleetEvent F) {p : Place} {name : String} {shape : ℕ × UInt32}
    (hshape : (self.step codec shardCount event).shapeAt p name = some shape) :
    RequestedShape requests shardCount name shape := by
  cases (self.step_effect codec shardCount event).shapeAt p with
  | inl hsame =>
    rw [hsame] at hshape
    exact h.replicas p name shape hshape
  | inr hchanged =>
    cases hchanged with
    | inl hdelivered =>
      obtain ⟨call, hcall, hafter⟩ := hdelivered
      obtain ⟨hrequest, hcount⟩ := h.calls call hcall
      rw [hafter] at hshape
      cases hbefore : self.shapeAt p name with
      | some old =>
        rw [hbefore, Option.some_or, ite_self] at hshape
        exact h.replicas p name shape (hbefore.trans hshape)
      | none =>
        rw [hbefore, Option.none_or, Option.ite_none_right_eq_some] at hshape
        obtain ⟨hname, hshape⟩ := hshape
        exact ⟨call.req.dim, hname ▸ hrequest, by rw [← hcount]; exact (Option.some.inj hshape).symm⟩
    | inr hinstalled =>
      obtain ⟨n, snapshot, stored, _, hsnapshot, hstored, hafter⟩ := hinstalled
      rw [hafter] at hshape
      exact h.snapshots _ (List.mem_of_getElem? hsnapshot) stored hstored name shape hshape

/-- A snapshot that is built ships the shapes of its replica. -/
theorem Requested.snapshots_step {codec : Bincode F Bytes} (hcodec : codec.RoundTrips)
    {requests : List (String × UInt32)} {shardCount : UInt32} {self : Fleet F Bytes}
    (h : self.Requested codec requests shardCount) (event : FleetEvent F) {entry : ℕ × Snapshot Bytes}
    (hentry : entry ∈ (self.step codec shardCount event).snapshots) {stored : StoreSnapshot F}
    (hstored : codec.deserialize entry.2.snapshot = .ok stored) {name : String} {shape : ℕ × UInt32}
    (hshape : stored.shape name = some shape) : RequestedShape requests shardCount name shape := by
  cases (self.step_effect codec shardCount event).snapshots hentry with
  | inl hbefore => exact h.snapshots entry hbefore stored hstored name shape hshape
  | inr hbuilt =>
    obtain ⟨place, hbuild⟩ := hbuilt
    unfold ShardStateMachine.buildSnapshot at hbuild
    split at hbuild
    · cases hbuild
    · next bytes hserialize =>
      rw [← Except.ok.inj hbuild, hcodec _ _ hserialize] at hstored
      rw [← Except.ok.inj hstored, Store.snapshot_shape] at hshape
      exact h.replicas place name shape hshape

/-- No event makes a shape that nobody asked for. -/
theorem requested_step {codec : Bincode F Bytes} (hcodec : codec.RoundTrips)
    (requests : List (String × UInt32)) (shardCount : UInt32) (self : Fleet F Bytes) (event : FleetEvent F)
    (h : self.Requested codec requests shardCount) (hguard : self.CallsAmong requests event) :
    (self.step codec shardCount event).Requested codec requests shardCount where
  calls := fun _ hcall => h.calls_step hguard hcall
  replicas := fun _ _ _ hshape => h.replicas_step event hshape
  snapshots := fun _ hentry _ hstored _ _ hshape => h.snapshots_step hcodec event hentry hstored hshape

omit [FloatOps F] in
/-- Replicas whose shapes were all asked for agree if one name means one dimension. -/
theorem Requested.shapesAgree {codec : Bincode F Bytes} {requests : List (String × UInt32)}
    {shardCount : UInt32} {fleet : Fleet F Bytes} (h : fleet.Requested codec requests shardCount)
    (hdims : ∀ a ∈ requests, ∀ b ∈ requests, a.1 = b.1 → a.2 = b.2) (places : List Place) :
    fleet.ShapesAgree places := by
  intro p _ q _ name coll coll' hcoll hcoll'
  have hshape : ∀ r part, (fleet.machines r).store.collections[name]? = some part →
      RequestedShape requests shardCount name (part.dim, part.shardCount) := by
    intro r part hpart
    apply h.replicas r name
    rw [shapeAt, Store.shape, hpart, Option.map_some]
  obtain ⟨dim, hdim, hp⟩ := hshape p coll hcoll
  obtain ⟨dim', hdim', hq⟩ := hshape q coll' hcoll'
  have hsame : dim = dim' := hdims _ hdim _ hdim' rfl
  rw [hsame, ← hq] at hp
  exact Prod.mk.inj hp

/-- Two creations of one name that reach two replicas in different orders leave two dimensions. -/
theorem dims_of_crossed_creations (codec : Bincode F Bytes) (shardCount : UInt32) (name : String)
    (dim dim' : UInt32) {p q : Place} (hne : p ≠ q) :
    let fleet := run (step codec shardCount) (fresh : Fleet F Bytes)
      [.call name dim, .call name dim', .request 0 p .delivered, .request 1 q .delivered]
    (fleet.machines p).store.collections[name]? = some ⟨dim.toNat, max shardCount 1, ∅⟩ ∧
      (fleet.machines q).store.collections[name]? = some ⟨dim'.toNat, max shardCount 1, ∅⟩ := by
  simp [step, settle, fresh, update, CreateCall.start, CreateFate.outcome, NodeService.createCollection,
    Store.createCollection, Store.new, ShardStateMachine.new, hne, hne.symm]

/-- All replicas agree in every reachable state exactly when one name means one dimension, or there is one replica.

The creations may be started at any time, by any routers over the same shards and any
number of times each, and their requests may arrive in any order, be lost, or go
unanswered, while replicas apply entries and build and install snapshots. -/
theorem shapes_agree_iff_one_dim {codec : Bincode F Bytes} (hcodec : codec.RoundTrips)
    (shardCount : UInt32) (places : List Place) (requests : List (String × UInt32)) :
    (∀ events : List (FleetEvent F), Guarded (CallsAmong requests) (step codec shardCount) fresh events →
        (run (step codec shardCount) fresh events).ShapesAgree places) ↔
      (∀ p ∈ places, ∀ q ∈ places, p = q) ∨
        ∀ a ∈ requests, ∀ b ∈ requests, a.1 = b.1 → a.2 = b.2 := by
  constructor
  · intro hagree
    by_cases hplaces : ∀ p ∈ places, ∀ q ∈ places, p = q
    · exact Or.inl hplaces
    · refine Or.inr ?_
      push Not at hplaces
      obtain ⟨p, hp, q, hq, hne⟩ := hplaces
      intro a ha b hb hname
      have hb' : (a.1, b.2) ∈ requests := hname ▸ hb
      have hdims := hagree [.call a.1 a.2, .call a.1 b.2, .request 0 p .delivered, .request 1 q .delivered]
        ⟨ha, hb', trivial, trivial, trivial⟩ p hp q hq a.1 _ _
        (dims_of_crossed_creations codec shardCount a.1 a.2 b.2 hne).1
        (dims_of_crossed_creations codec shardCount a.1 a.2 b.2 hne).2
      exact UInt32.toNat_inj.mp hdims.1
  · intro hone events hguard
    cases hone with
    | inl hplaces =>
      intro p hp q hq name coll coll' hcoll hcoll'
      rw [hplaces p hp q hq, hcoll', Option.some.injEq] at hcoll
      rw [hcoll]
      exact ⟨rfl, rfl⟩
    | inr hdims =>
      have hrequested := invariant_of_guarded (requested_step hcodec requests shardCount)
        (requested_fresh codec requests shardCount) hguard
      exact hrequested.shapesAgree hdims places

/-- Two shards agree under creations of one dimension, and need not under creations of two. -/
theorem shapes_agree_docs :
    (∀ events : List (FleetEvent ℤ),
        Guarded (CallsAmong [("docs", 2)]) (step (Bincode.identity ℤ) 2) fresh events →
          (run (step (Bincode.identity ℤ) 2) fresh events).ShapesAgree [(0, 0), (1, 0)]) ∧
      ¬ ∀ events : List (FleetEvent ℤ),
        Guarded (CallsAmong [("docs", 2), ("docs", 3)]) (step (Bincode.identity ℤ) 2) fresh events →
          (run (step (Bincode.identity ℤ) 2) fresh events).ShapesAgree [(0, 0), (1, 0)] := by
  rw [shapes_agree_iff_one_dim (Bincode.identity_roundTrips ℤ),
    shapes_agree_iff_one_dim (Bincode.identity_roundTrips ℤ)]
  decide

/-- Two routers creating one name with dimensions 2 and 3 leave one shard with each.

Both creations report an error, and both shapes stay. -/
theorem shapes_disagree_after_crossed_creations :
    let events : List (FleetEvent ℤ) :=
      [.call "docs" 2, .call "docs" 3, .request 0 (0, 0) .delivered, .request 1 (1, 0) .delivered,
        .request 1 (0, 0) .delivered, .request 0 (1, 0) .delivered]
    let fleet := run (step (Bincode.identity ℤ) 2) fresh events
    (fleet.calls.map fun call => (call.returned [(0, 0), (1, 0)]).map Except.isOk) =
        [some false, some false] ∧
      ¬ fleet.ShapesAgree [(0, 0), (1, 0)] := by
  intro events fleet
  refine ⟨by decide, ?_⟩
  intro hagree
  have hdims := hagree (0, 0) (by decide) (1, 0) (by decide) "docs" ⟨2, 2, ∅⟩ ⟨3, 2, ∅⟩ (by decide) (by decide)
  exact absurd hdims.1 (by decide)

end Fleet

end RaftVec
