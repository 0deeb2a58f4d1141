import RaftVec.Aggregator.FanOut

/-!
# Whether an acknowledged collection stays

A creation is acknowledged once every replica has created the collection. Installing a
snapshot clears the store, so a snapshot built before the creation takes the collection
away again, and no log entry brings it back. Collections stay as long as a replica
installs only snapshots that hold what it has accepted.
-/

namespace RaftVec

namespace Fleet

open Std Run

variable {F Bytes : Type*} [FloatOps F]

/-- A snapshot is installed only where it holds every collection accepted there, with its dimension.

Creations that have failed somewhere do not count: they are never acknowledged. -/
def KeepsAccepted (codec : Bincode F Bytes) (places : List Place) (self : Fleet F Bytes) :
    FleetEvent F → Prop
  | .installSnapshot place n => ∀ snapshot, self.snapshots[n]? = some (place.1, snapshot) →
    ∀ stored, codec.deserialize snapshot.snapshot = .ok stored →
      ∀ call ∈ self.calls, ¬ call.Failed places → call.Accepted place →
        (stored.shape call.req.name).map Prod.fst = some call.req.dim.toNat
  | _ => True

/-- Every collection a replica accepted is there, unless its creation has failed. -/
def HoldsAccepted (places : List Place) (fleet : Fleet F Bytes) : Prop :=
  ∀ call ∈ fleet.calls, ¬ call.Failed places → ∀ p, call.Accepted p →
    (fleet.shapeAt p call.req.name).map Prod.fst = some call.req.dim.toNat

/-- An event keeps a dimension that was accepted before it. -/
theorem dim_step {codec : Bincode F Bytes} {shardCount : UInt32} {places : List Place}
    {self : Fleet F Bytes} {event : FleetEvent F} (hguard : self.KeepsAccepted codec places event)
    {call : CreateCall} (hcall : call ∈ self.calls) (hlive : ¬ call.Failed places) {p : Place}
    (haccepted : call.Accepted p)
    (hheld : (self.shapeAt p call.req.name).map Prod.fst = some call.req.dim.toNat) :
    ((self.step codec shardCount event).shapeAt p call.req.name).map Prod.fst = some call.req.dim.toNat := by
  cases (self.step_effect codec shardCount event).shapeAt p with
  | inl hsame =>
    rw [hsame]
    exact hheld
  | inr hchanged =>
    cases hchanged with
    | inl hdelivered =>
      obtain ⟨other, _, hshape⟩ := hdelivered
      obtain ⟨shape, hbefore, hdim⟩ := Option.map_eq_some_iff.mp hheld
      rw [hshape, hbefore, Option.some_or, ite_self, Option.map_some, hdim]
    | inr hinstalled =>
      obtain ⟨n, snapshot, stored, rfl, hsnapshot, hstored, hshape⟩ := hinstalled
      rw [hshape]
      exact hguard snapshot hsnapshot stored hstored call hcall hlive haccepted

/-- Every event that installs no older snapshot keeps the accepted collections. -/
theorem holdsAccepted_step (codec : Bincode F Bytes) (shardCount : UInt32) (places : List Place)
    (self : Fleet F Bytes) (event : FleetEvent F) (h : self.HoldsAccepted places)
    (hguard : self.KeepsAccepted codec places event) :
    (self.step codec shardCount event).HoldsAccepted places := by
  intro call hcall hlive p haccepted
  cases (self.step_effect codec shardCount event).calls hcall with
  | inl hbefore => exact dim_step hguard hbefore hlive haccepted (h call hbefore hlive p haccepted)
  | inr hchanged =>
    cases hchanged with
    | inl hstarted =>
      obtain ⟨name, dim, _, rfl⟩ := hstarted
      obtain ⟨response, hresponse⟩ := haccepted
      cases hresponse
    | inr hended =>
      obtain ⟨old, hold, place, result, hopen, rfl, hshape⟩ := hended
      by_cases hp : p = place
      · subst hp
        obtain ⟨response, hresponse⟩ := haccepted
        rw [CreateCall.answer_results_self, Option.some.injEq] at hresponse
        exact congrArg (Option.map Prod.fst) (hshape response hresponse)
      · have hold_accepted : old.Accepted p := by
          obtain ⟨response, hresponse⟩ := haccepted
          exact ⟨response, (old.answer_results_of_ne result hp).symm.trans hresponse⟩
        have hold_live : ¬ old.Failed places := fun hfailed => hlive (hfailed.answer hopen result)
        exact dim_step hguard hold hold_live hold_accepted (h old hold hold_live p hold_accepted)

omit [FloatOps F] in
/-- A snapshot holds what its target accepted if it was built where and when all of that had been
accepted. -/
theorem keepsAccepted_of_built_after {codec : Bincode F Bytes} (hcodec : codec.RoundTrips) {places : List Place}
    {self later : Fleet F Bytes} (hholds : self.HoldsAccepted places) {source target : Place}
    {snapshot : Snapshot Bytes} (hbuilt : (self.machines source).buildSnapshot codec = .ok snapshot) {n : ℕ}
    (hshipped : later.snapshots[n]? = some (target.1, snapshot))
    (haccepted : ∀ call ∈ later.calls, ¬ call.Failed places → call.Accepted target →
      ∃ old ∈ self.calls, old.req = call.req ∧ ¬ old.Failed places ∧ old.Accepted source) :
    later.KeepsAccepted codec places (.installSnapshot target n) := by
  intro installed hinstalled stored hstored call hcall hlive htarget
  cases hshipped.symm.trans hinstalled
  obtain ⟨old, hold, hreq, holdLive, hsource⟩ := haccepted call hcall hlive htarget
  have hdim := hholds old hold holdLive source hsource
  unfold ShardStateMachine.buildSnapshot at hbuilt
  split at hbuilt
  · cases hbuilt
  · next bytes hbytes =>
    cases hbuilt
    cases (hcodec _ bytes hbytes).symm.trans hstored
    rw [Store.snapshot_shape, ← hreq]
    exact hdim

/-- As long as snapshots hold what their target accepted, acknowledged collections stay everywhere.

Any number of creations, deliveries in any order, lost requests and replies, applied
entries and snapshots may be interleaved. -/
theorem acknowledged_collection_kept_of_keepsAccepted (codec : Bincode F Bytes) (shardCount : UInt32)
    (places : List Place) {start : Fleet F Bytes} (hstart : start.calls = []) {events : List (FleetEvent F)}
    (hguard : Guarded (KeepsAccepted codec places) (step codec shardCount) start events) :
    ∀ call ∈ (run (step codec shardCount) start events).calls, call.returned places = some (.ok ()) →
      ∀ p ∈ places, ∃ coll,
        ((run (step codec shardCount) start events).machines p).store.collections[call.req.name]? = some coll ∧
          coll.dim = call.req.dim.toNat := by
  have hholds : (run (step codec shardCount) start events).HoldsAccepted places := by
    refine invariant_of_guarded (holdsAccepted_step codec shardCount places) ?_ hguard
    intro call hcall
    rw [hstart] at hcall
    cases hcall
  intro call hcall hreturned p hp
  have haccepted := (call.returned_ok_iff places).mp hreturned
  have hdim := hholds call hcall (CreateCall.not_failed_of_accepted haccepted) p (haccepted p hp)
  rw [shapeAt, Store.shape, Option.map_map, Option.map_eq_some_iff] at hdim
  exact hdim

/-- A follower that installs a snapshot built after the creation keeps the collection. -/
theorem acknowledged_collection_kept_docs :
    let events : List (FleetEvent ℤ) :=
      [.call "docs" 1, .request 0 (0, 0) .delivered, .request 0 (0, 1) .delivered,
        .apply (0, 0) [⟨⟨⟨1, 1⟩, 1⟩, .blank⟩], .buildSnapshot (0, 0), .installSnapshot (0, 1) 0]
    let fleet := run (step (Bincode.identity ℤ) 1) fresh events
    ∀ p ∈ [((0, 0) : Place), (0, 1)], ∃ coll,
      (fleet.machines p).store.collections["docs"]? = some coll ∧ coll.dim = 1 := by
  intro events fleet
  -- the leader has accepted the creation when it builds the snapshot
  let created : Fleet ℤ (StoreSnapshot ℤ) := run (step (Bincode.identity ℤ) 1) fresh (events.take 4)
  have hholds : created.HoldsAccepted [(0, 0), (0, 1)] := by
    refine invariant_of_guarded (holdsAccepted_step (Bincode.identity ℤ) 1 [(0, 0), (0, 1)]) ?_
      ⟨trivial, trivial, trivial, trivial, trivial⟩
    intro call hcall
    cases hcall
  have haccepted : ∀ call ∈ created.calls, call.results (0, 0) = some (.ok ⟨true⟩) := by decide
  have hbuilt : (created.machines (0, 0)).buildSnapshot (Bincode.identity ℤ) = .ok _ := rfl
  have hguard : Guarded (KeepsAccepted (Bincode.identity ℤ) [(0, 0), (0, 1)]) (step (Bincode.identity ℤ) 1)
      fresh events := by
    refine ⟨trivial, trivial, trivial, trivial, trivial, ?_, trivial⟩
    refine keepsAccepted_of_built_after (Bincode.identity_roundTrips ℤ) hholds hbuilt rfl ?_
    exact fun call hcall hlive _ => ⟨call, hcall, rfl, hlive, ⟨true⟩, haccepted call hcall⟩
  exact acknowledged_collection_kept_of_keepsAccepted _ 1 [(0, 0), (0, 1)] rfl hguard
    ((run (step (Bincode.identity ℤ) 1) fresh events).calls.head (by decide)) (List.head_mem _) (by decide)

/-- A snapshot built before an acknowledged creation takes the collection away from the follower. -/
theorem acknowledged_collection_lost :
    let events : List (FleetEvent ℤ) :=
      [.apply (0, 0) [⟨⟨⟨1, 1⟩, 1⟩, .blank⟩], .buildSnapshot (0, 0), .call "docs" 1,
        .request 0 (0, 0) .delivered, .request 0 (0, 1) .delivered]
    let acknowledged := run (step (Bincode.identity ℤ) 1) fresh events
    let installed := acknowledged.step (Bincode.identity ℤ) 1 (.installSnapshot (0, 1) 0)
    acknowledged.calls.map (CreateCall.returned [(0, 0), (0, 1)]) = [some (.ok ())] ∧
      installed.calls.map (CreateCall.returned [(0, 0), (0, 1)]) = [some (.ok ())] ∧
      (installed.machines (0, 1)).store.collections["docs"]? = none := by
  decide

end Fleet

end RaftVec
