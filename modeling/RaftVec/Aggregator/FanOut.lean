import RaftVec.Aggregator.Router
import RaftVec.Library.Run
import RaftVec.Node.Snapshot

/-!
# Collection creations in flight

A creation is not in any log. The router sends one request to every replica of every
shard and joins the answers, and each replica decides by itself, first come first served.
Here the requests of any number of creations, by any number of routers over the same
shards, are separate events, beside the entries the replicas apply and the snapshots they
build and install.

A snapshot travels within its shard. Which replica leads does not matter here, so any
replica may build and any may install. A request is over once its caller has an answer or an
error; one that reaches its replica after that is not represented. A creation whose events
all happen in a row is `ShardRouter.createCollection`.
-/

namespace RaftVec

open Std Run

/-- A replica's shard and its place within the shard. -/
abbrev Place := ℕ × ℕ

/-- A creation the router has started, with what the replicas have answered so far. -/
structure CreateCall where
  req : CreateCollectionRequest
  results : Place → Option (Except Status CreateCollectionResponse)

namespace CreateCall

/-- All requests are under way. -/
def start (req : CreateCollectionRequest) : CreateCall := ⟨req, fun _ => none⟩

/-- One replica's request is done. -/
def answer (self : CreateCall) (place : Place) (result : Except Status CreateCollectionResponse) :
    CreateCall :=
  { self with results := Function.update self.results place (some result) }

/-- The request that ended has its answer. -/
@[simp] theorem answer_results_self (self : CreateCall) (place : Place)
    (result : Except Status CreateCollectionResponse) :
    (self.answer place result).results place = some result :=
  Function.update_self _ _ _

/-- The other requests are as before. -/
theorem answer_results_of_ne (self : CreateCall) {place p : Place}
    (result : Except Status CreateCollectionResponse) (h : p ≠ place) :
    (self.answer place result).results p = self.results p :=
  Function.update_of_ne h _ _

/-- What the call returns, once all its requests are done. -/
def returned (places : List Place) (self : CreateCall) : Option (Except RouterError Unit) :=
  if ∀ p ∈ places, (self.results p).isSome then some (joinCreates (places.filterMap self.results)) else none

/-- The replica created the collection and said so. -/
def Accepted (self : CreateCall) (p : Place) : Prop := ∃ response, self.results p = some (.ok response)

/-- Some replica's request ended in an error, so the call will. -/
def Failed (places : List Place) (self : CreateCall) : Prop :=
  ∃ p ∈ places, ∃ status, self.results p = some (.error status)

/-- A failed call stays failed when an open request ends. -/
theorem Failed.answer {places : List Place} {self : CreateCall} (h : self.Failed places) {place : Place}
    (hopen : self.results place = none) (result : Except Status CreateCollectionResponse) :
    (self.answer place result).Failed places := by
  obtain ⟨p, hp, status, hstatus⟩ := h
  refine ⟨p, hp, status, ?_⟩
  have hne : p ≠ place := by
    intro heq
    rw [heq, hopen] at hstatus
    cases hstatus
  rw [answer_results_of_ne self result hne]
  exact hstatus

end CreateCall

/-- Joining succeeds exactly when every replica did. -/
theorem joinCreates_ok_iff (results : List (Except Status CreateCollectionResponse)) :
    joinCreates results = .ok () ↔ ∀ result ∈ results, ∃ response, result = .ok response := by
  induction results with
  | nil => simp [joinCreates]
  | cons result results ih =>
    cases result with
    | error status => simp [joinCreates]
    | ok response => simp [joinCreates, ih]

/-- A creation is acknowledged exactly when every replica has accepted it. -/
theorem CreateCall.returned_ok_iff (places : List Place) (self : CreateCall) :
    self.returned places = some (.ok ()) ↔ ∀ p ∈ places, self.Accepted p := by
  constructor
  · intro h p hp
    unfold returned at h
    split at h
    · next hdone =>
      rw [Option.some.injEq, joinCreates_ok_iff] at h
      obtain ⟨result, hresult⟩ := Option.isSome_iff_exists.mp (hdone p hp)
      obtain ⟨response, rfl⟩ := h result (List.mem_filterMap.mpr ⟨p, hp, hresult⟩)
      exact ⟨response, hresult⟩
    · cases h
  · intro h
    have hdone : ∀ p ∈ places, (self.results p).isSome := by
      intro p hp
      obtain ⟨response, hresponse⟩ := h p hp
      rw [hresponse]
      rfl
    rw [returned, if_pos hdone, Option.some.injEq, joinCreates_ok_iff]
    intro result hresult
    obtain ⟨p, hp, hanswer⟩ := List.mem_filterMap.mp hresult
    obtain ⟨response, hresponse⟩ := h p hp
    exact ⟨response, Option.some.inj (hanswer.symm.trans hresponse)⟩

/-- An acknowledged call has not failed anywhere. -/
theorem CreateCall.not_failed_of_accepted {places : List Place} {self : CreateCall}
    (h : ∀ p ∈ places, self.Accepted p) : ¬ self.Failed places := by
  intro hfailed
  obtain ⟨p, hp, status, hstatus⟩ := hfailed
  obtain ⟨response, hresponse⟩ := h p hp
  cases hstatus.symm.trans hresponse

/-- Something that happens at one replica or to one creation. -/
inductive FleetEvent (F : Type*) where
  | call (name : String) (dim : UInt32)
  | request (n : ℕ) (place : Place) (fate : CreateFate)
  | apply (place : Place) (entries : List (Entry F))
  | buildSnapshot (place : Place)
  | installSnapshot (place : Place) (n : ℕ)

/-- All replicas, the creations started and the snapshots built, each for its shard. -/
structure Fleet (F Bytes : Type*) where
  machines : Place → ShardStateMachine F
  calls : List CreateCall
  snapshots : List (ℕ × Snapshot Bytes)

namespace Fleet

variable {F Bytes : Type*}

/-- Replicas just started. -/
def fresh : Fleet F Bytes := ⟨fun _ => .new .new, [], []⟩

/-- The shape a replica has for a name. -/
def shapeAt (self : Fleet F Bytes) (p : Place) (name : String) : Option (ℕ × UInt32) :=
  (self.machines p).store.shape name

/-- Put one replica in a new state. -/
def update (self : Fleet F Bytes) (place : Place) (machine : ShardStateMachine F) : Fleet F Bytes :=
  { self with machines := Function.update self.machines place machine }

/-- End the request of the `n`-th creation to one replica, unless it has ended. -/
def settle (self : Fleet F Bytes) (n : ℕ) (place : Place) (fate : CreateFate) : Fleet F Bytes :=
  match self.calls[n]? with
  | none => self
  | some call =>
    if (call.results place).isSome then self
    else
      let outcome := fate.outcome (self.machines place) call.req
      { self.update place outcome.2 with calls := self.calls.set n (call.answer place outcome.1) }

variable [FloatOps F]

/-- Let one event happen. -/
def step (codec : Bincode F Bytes) (shardCount : UInt32) (self : Fleet F Bytes) :
    FleetEvent F → Fleet F Bytes
  | .call name dim => { self with calls := self.calls ++ [.start ⟨name, dim, shardCount⟩] }
  | .request n place fate => self.settle n place fate
  | .apply place entries => self.update place ((self.machines place).apply entries).2
  | .buildSnapshot place =>
    match (self.machines place).buildSnapshot codec with
    | .error _ => self
    | .ok snapshot => { self with snapshots := self.snapshots ++ [(place.1, snapshot)] }
  | .installSnapshot place n =>
    match self.snapshots[n]? with
    | none => self
    | some (shard, snapshot) =>
      if shard = place.1 then
        self.update place
          ((self.machines place).installSnapshot codec snapshot.covers snapshot.snapshot).2
      else self

/-! ## What one event can do -/

/-- What an event can make of the replicas, the creations and the snapshots. -/
inductive Effect (codec : Bincode F Bytes) (shardCount : UInt32) (fleet : Fleet F Bytes) :
    FleetEvent F → Fleet F Bytes → Prop
  | unchanged (event : FleetEvent F) : Effect codec shardCount fleet event fleet
  | started (name : String) (dim : UInt32) : Effect codec shardCount fleet (.call name dim)
      { fleet with calls := fleet.calls ++ [.start ⟨name, dim, shardCount⟩] }
  | ended {n : ℕ} {place : Place} {fate : CreateFate} {call : CreateCall} (hcall : fleet.calls[n]? = some call)
      (hopen : call.results place = none) : Effect codec shardCount fleet (.request n place fate)
      { fleet.update place (fate.outcome (fleet.machines place) call.req).2 with
        calls := fleet.calls.set n (call.answer place (fate.outcome (fleet.machines place) call.req).1) }
  | applied (place : Place) (entries : List (Entry F)) : Effect codec shardCount fleet (.apply place entries)
      (fleet.update place ((fleet.machines place).apply entries).2)
  | built {place : Place} {snapshot : Snapshot Bytes}
      (hbuild : (fleet.machines place).buildSnapshot codec = .ok snapshot) :
      Effect codec shardCount fleet (.buildSnapshot place)
        { fleet with snapshots := fleet.snapshots ++ [(place.1, snapshot)] }
  | installed {place : Place} {n : ℕ} {snapshot : Snapshot Bytes} {stored : StoreSnapshot F}
      (hsnapshot : fleet.snapshots[n]? = some (place.1, snapshot))
      (hstored : codec.deserialize snapshot.snapshot = .ok stored) :
      Effect codec shardCount fleet (.installSnapshot place n)
        (fleet.update place ⟨(fleet.machines place).store.restore stored, snapshot.covers.lastLogId,
          snapshot.covers.lastMembership⟩)

omit [FloatOps F] in
/-- Putting a replica in the state it has changes nothing. -/
theorem update_self (self : Fleet F Bytes) (place : Place) : self.update place (self.machines place) = self := by
  rw [update, Function.update_eq_self]

/-- Ending a request does so if it is open. -/
theorem settle_effect (codec : Bincode F Bytes) (shardCount : UInt32) (self : Fleet F Bytes) (n : ℕ)
    (place : Place) (fate : CreateFate) :
    Effect codec shardCount self (.request n place fate) (self.settle n place fate) := by
  cases hcall : self.calls[n]? with
  | none =>
    simp only [settle, hcall]
    exact .unchanged _
  | some call =>
    cases hresult : call.results place with
    | some result =>
      simp only [settle, hcall, hresult, Option.isSome_some, if_true]
      exact .unchanged _
    | none =>
      simp only [settle, hcall, hresult, Option.isSome_none, Bool.false_eq_true, if_false]
      exact .ended hcall hresult

/-- A snapshot of the shard that can be read is installed. -/
theorem installSnapshot_effect (codec : Bincode F Bytes) (shardCount : UInt32) {self : Fleet F Bytes} {n : ℕ}
    {place : Place} {snapshot : Snapshot Bytes} (hsnapshot : self.snapshots[n]? = some (place.1, snapshot)) :
    Effect codec shardCount self (.installSnapshot place n)
      (self.update place
        ((self.machines place).installSnapshot codec snapshot.covers snapshot.snapshot).2) := by
  cases hstored : codec.deserialize snapshot.snapshot with
  | error source =>
    -- the snapshot cannot be read, so the replica keeps its state
    simp only [ShardStateMachine.installSnapshot, hstored, update_self]
    exact .unchanged _
  | ok stored =>
    simp only [ShardStateMachine.installSnapshot, hstored]
    exact .installed hsnapshot hstored

/-- An event does one of these things. -/
theorem step_effect (codec : Bincode F Bytes) (shardCount : UInt32) (self : Fleet F Bytes)
    (event : FleetEvent F) : Effect codec shardCount self event (self.step codec shardCount event) := by
  cases event with
  | call name dim => exact .started name dim
  | request n place fate => exact self.settle_effect codec shardCount n place fate
  | apply place entries => exact .applied place entries
  | buildSnapshot place =>
    cases hbuild : (self.machines place).buildSnapshot codec with
    | error e =>
      simp only [step, hbuild]
      exact .unchanged _
    | ok snapshot =>
      simp only [step, hbuild]
      exact .built hbuild
  | installSnapshot place n =>
    cases hsnapshot : self.snapshots[n]? with
    | none =>
      simp only [step, hsnapshot]
      exact .unchanged _
    | some entry =>
      obtain ⟨shard, snapshot⟩ := entry
      by_cases hshard : shard = place.1
      · subst hshard
        simp only [step, hsnapshot, if_true]
        exact installSnapshot_effect codec shardCount hsnapshot
      · simp only [step, hsnapshot, hshard, if_false]
        exact .unchanged _

omit [FloatOps F] in
/-- Updating one replica frames the others. -/
theorem shapeAt_update (self : Fleet F Bytes) (place : Place) (machine : ShardStateMachine F) (p : Place)
    (name : String) :
    (self.update place machine).shapeAt p name =
      if p = place then machine.store.shape name else self.shapeAt p name := by
  by_cases hp : p = place
  · subst hp
    simp [shapeAt, update]
  · simp [shapeAt, update, hp]

omit [FloatOps F] in
/-- A replica that keeps its shapes keeps every shape in place. -/
theorem shapeAt_update_of_same {self : Fleet F Bytes} {place : Place} {machine : ShardStateMachine F}
    {name : String} (h : machine.store.shape name = self.shapeAt place name) (p : Place) :
    (self.update place machine).shapeAt p name = self.shapeAt p name := by
  rw [shapeAt_update]
  split
  · next hp => rw [hp, h]
  · rfl

end Fleet

/-- The shape a request leaves under its name, if the name was free. -/
def CreateCollectionRequest.shape (req : CreateCollectionRequest) : ℕ × UInt32 :=
  (req.dim.toNat, max req.shardCount 1)

namespace CreateFate

variable {F : Type*}

/-- A request that arrives adds its shape unless the name is taken, and one that does not changes nothing. -/
theorem outcome_shape (fate : CreateFate) (machine : ShardStateMachine F) (req : CreateCollectionRequest) :
    (∀ name, (fate.outcome machine req).2.store.shape name = machine.store.shape name) ∨
      ∀ name, (fate.outcome machine req).2.store.shape name =
        if req.name = name then (machine.store.shape name).or (some req.shape)
        else machine.store.shape name := by
  have hcreated : ∀ name, (NodeService.createCollection machine.store req).2.shape name =
      if req.name = name then (machine.store.shape name).or (some req.shape)
      else machine.store.shape name := by
    intro name
    rw [(NodeService.createCollection_store machine.store req).1, Store.createCollection_shape]
    rfl
  cases fate with
  | delivered => exact Or.inr hcreated
  | replyLost status => exact Or.inr hcreated
  | undelivered status => exact Or.inl fun _ => rfl

/-- A replica that says `Ok` has the collection in the requested shape. -/
theorem shape_of_outcome_ok {fate : CreateFate} {machine : ShardStateMachine F}
    {req : CreateCollectionRequest} {response : CreateCollectionResponse}
    (h : (fate.outcome machine req).1 = .ok response) :
    (fate.outcome machine req).2.store.shape req.name = some req.shape := by
  cases fate with
  | delivered =>
    obtain ⟨hstore, hok⟩ := NodeService.createCollection_store machine.store req
    change (NodeService.createCollection machine.store req).2.shape req.name = _
    rw [hstore, Store.createCollection_shape, if_pos rfl, hok.mp ⟨response, h⟩, Option.none_or]
    rfl
  | replyLost status => cases h
  | undelivered status => cases h

end CreateFate

namespace Fleet

variable {F Bytes : Type*} [FloatOps F] {codec : Bincode F Bytes} {shardCount : UInt32}
  {fleet after : Fleet F Bytes} {event : FleetEvent F}

/-- What one event can make of the shapes of a replica.

It keeps them and adds at most the shape of a creation that reached it, or it replaces
them by those of a snapshot of the replica's shard. -/
theorem Effect.shapeAt (h : Effect codec shardCount fleet event after) (p : Place) :
    (∀ name, after.shapeAt p name = fleet.shapeAt p name) ∨
      (∃ call ∈ fleet.calls, ∀ name, after.shapeAt p name =
        if call.req.name = name then (fleet.shapeAt p name).or (some call.req.shape)
        else fleet.shapeAt p name) ∨
      ∃ n snapshot stored, event = .installSnapshot p n ∧ fleet.snapshots[n]? = some (p.1, snapshot) ∧
        codec.deserialize snapshot.snapshot = .ok stored ∧
        ∀ name, after.shapeAt p name = stored.shape name := by
  cases h with
  | unchanged => exact Or.inl fun _ => rfl
  | started name dim => exact Or.inl fun _ => rfl
  | @ended n place fate call hcall hopen =>
    by_cases hp : p = place
    · subst hp
      cases fate.outcome_shape (fleet.machines p) call.req with
      | inl hsame => exact Or.inl fun name => shapeAt_update_of_same (hsame name) p
      | inr hadded =>
        refine Or.inr (Or.inl ⟨call, List.mem_of_getElem? hcall, ?_⟩)
        intro name
        exact ((fleet.shapeAt_update p _ p name).trans (if_pos rfl)).trans (hadded name)
    · exact Or.inl fun name => (fleet.shapeAt_update place _ p name).trans (if_neg hp)
  | applied place entries =>
    refine Or.inl fun name => shapeAt_update_of_same ?_ p
    rw [ShardStateMachine.apply_store, Store.executeAll_shape]
    rfl
  | built hbuild => exact Or.inl fun _ => rfl
  | @installed place n snapshot stored hsnapshot hstored =>
    by_cases hp : p = place
    · subst hp
      refine Or.inr (Or.inr ⟨n, snapshot, stored, rfl, hsnapshot, hstored, ?_⟩)
      intro name
      rw [shapeAt_update, if_pos rfl, Store.restore_shape]
    · exact Or.inl fun name => (fleet.shapeAt_update place _ p name).trans (if_neg hp)

/-- What one event can make of the creations.

A creation is new, as before, or has one more request ended; the replica of a request
that ended well has the collection in the requested shape. -/
theorem Effect.calls (h : Effect codec shardCount fleet event after) {call : CreateCall}
    (hcall : call ∈ after.calls) :
    call ∈ fleet.calls ∨ (∃ name dim, event = .call name dim ∧ call = .start ⟨name, dim, shardCount⟩) ∨
      ∃ old ∈ fleet.calls, ∃ place result, old.results place = none ∧ call = old.answer place result ∧
        ∀ response, result = .ok response → after.shapeAt place old.req.name = some old.req.shape := by
  cases h with
  | unchanged => exact Or.inl hcall
  | started name dim =>
    cases List.mem_append.mp hcall with
    | inl hold => exact Or.inl hold
    | inr hnew => exact Or.inr (Or.inl ⟨name, dim, rfl, List.mem_singleton.mp hnew⟩)
  | @ended n place fate old hold hopen =>
    cases List.mem_or_eq_of_mem_set hcall with
    | inl hbefore => exact Or.inl hbefore
    | inr hanswered =>
      refine Or.inr (Or.inr ⟨old, List.mem_of_getElem? hold, place, _, hopen, hanswered, ?_⟩)
      intro response hok
      exact ((fleet.shapeAt_update place _ place _).trans (if_pos rfl)).trans
        (CreateFate.shape_of_outcome_ok hok)
  | applied place entries => exact Or.inl hcall
  | built hbuild => exact Or.inl hcall
  | installed hsnapshot hstored => exact Or.inl hcall

/-- A snapshot there is after an event was there before or is built by it. -/
theorem Effect.snapshots (h : Effect codec shardCount fleet event after) {entry : ℕ × Snapshot Bytes}
    (hentry : entry ∈ after.snapshots) :
    entry ∈ fleet.snapshots ∨ ∃ place, (fleet.machines place).buildSnapshot codec = .ok entry.2 := by
  cases h with
  | @built place snapshot hbuild =>
    cases List.mem_append.mp hentry with
    | inl hbefore => exact Or.inl hbefore
    | inr hbuilt =>
      rw [List.mem_singleton.mp hbuilt]
      exact Or.inr ⟨place, hbuild⟩
  | unchanged => exact Or.inl hentry
  | started name dim => exact Or.inl hentry
  | ended hcall hopen => exact Or.inl hentry
  | applied place entries => exact Or.inl hentry
  | installed hsnapshot hstored => exact Or.inl hentry

end Fleet

/-! ## A creation with nothing in between -/

section Undisturbed

variable {F Bytes : Type*} [FloatOps F]

namespace Fleet

omit [FloatOps F] in
/-- Ending a request of the only creation answers it and updates the replica, if it is open. -/
theorem settle_only {self : Fleet F Bytes} {call : CreateCall} (hcalls : self.calls = [call]) (p : Place)
    (fate : CreateFate) :
    ∃ next, (self.settle 0 p fate).calls = [next] ∧ next.req = call.req ∧
      (∀ q, next.results q =
        (call.results q).or (if q = p then some (fate.outcome (self.machines q) call.req).1 else none)) ∧
      ∀ q, (self.settle 0 p fate).machines q =
        if q = p ∧ call.results q = none then (fate.outcome (self.machines q) call.req).2 else self.machines q := by
  cases hresult : call.results p with
  | some result =>
    -- a request that has ended is not sent again, so the event changes nothing
    have hsame : self.settle 0 p fate = self := by simp [settle, hcalls, hresult]
    rw [hsame]
    refine ⟨call, hcalls, rfl, ?_, ?_⟩ <;> intro q <;> by_cases hq : q = p <;> simp [hq, hresult]
  | none =>
    refine ⟨call.answer p (fate.outcome (self.machines p) call.req).1, by simp [settle, hcalls, hresult], rfl, ?_, ?_⟩
    · intro q
      by_cases hq : q = p
      · subst hq
        simp [hresult, CreateCall.answer]
      · simp [hq, CreateCall.answer]
    · intro q
      by_cases hq : q = p
      · subst hq
        simp [settle, hcalls, hresult, update]
      · simp [settle, hcalls, hresult, update, hq]

/-- Ending requests one after the other gives each open one its outcome at its own replica. -/
theorem run_events (codec : Bincode F Bytes) (shardCount : UInt32) (fates : Place → CreateFate)
    (places : List Place) {self : Fleet F Bytes} {call : CreateCall} (hcalls : self.calls = [call]) :
    ∃ done, (run (step codec shardCount) self (places.map fun p => .request 0 p (fates p))).calls = [done] ∧
      (∀ q, done.results q = (call.results q).or
        (if q ∈ places then some ((fates q).outcome (self.machines q) call.req).1 else none)) ∧
      ∀ q, (run (step codec shardCount) self (places.map fun p => .request 0 p (fates p))).machines q =
        if q ∈ places ∧ call.results q = none then ((fates q).outcome (self.machines q) call.req).2
        else self.machines q := by
  induction places generalizing self call with
  | nil => exact ⟨call, hcalls, by simp, by simp⟩
  | cons p places ih =>
    obtain ⟨next, hnext, hreq, hanswered, hupdated⟩ := settle_only hcalls p (fates p)
    obtain ⟨done, hdone, hresults, hmachines⟩ := ih hnext
    refine ⟨done, hdone, ?_, ?_⟩
    · intro q
      rw [hresults q, hanswered q, hupdated q, hreq]
      by_cases hq : q = p
      · subst hq
        cases hresult : call.results q <;> simp
      · simp [hq]
    · intro q
      change (run (step codec shardCount) (self.settle 0 p (fates p)) _).machines q = _
      rw [hmachines q, hanswered q, hupdated q, hreq]
      by_cases hq : q = p
      · subst hq
        cases hresult : call.results q <;> simp
      · simp [hq]

end Fleet

namespace ShardRouter

/-- The places of all replicas, in the order the router asks them. -/
def places (self : ShardRouter F) : List Place :=
  (self.shards.mapIdx fun s shard => (List.range shard.replicaSet.replicaCount).map fun idx => (s, idx)).flatten

/-- The replicas behind the router, with nothing under way. -/
def fleet (Bytes : Type*) (self : ShardRouter F) : Fleet F Bytes :=
  ⟨fun p => self.shards[p.1]?.elim (.new .new) fun shard => (shard.group.replicas p.2).machine, [], []⟩

omit [FloatOps F] in
/-- The replica at a place within a shard. -/
theorem fleet_machines {self : ShardRouter F} {s : ℕ} {shard : Shard F} (hshard : self.shards[s]? = some shard)
    (idx : ℕ) : (self.fleet Bytes).machines (s, idx) = (shard.group.replicas idx).machine := by
  simp only [fleet, hshard, Option.elim_some]

omit [FloatOps F] in
/-- The router joins the outcomes of all its requests. -/
theorem createCollection_joined (Bytes : Type*) (self : ShardRouter F) (fates : ℕ → ℕ → CreateFate)
    (name : String) (dim : UInt32) :
    (self.createCollection fates name dim).1 = joinCreates (self.places.map fun p =>
      ((fates p.1 p.2).outcome ((self.fleet Bytes).machines p) ⟨name, dim, self.shardCount⟩).1) := by
  rw [createCollection, places, List.map_flatten]
  refine congrArg (fun rows => joinCreates (List.flatten rows)) ?_
  apply List.ext_getElem
  · simp
  · intro s hs _
    have hlt : s < self.shards.length := by simpa using hs
    have hshard : self.shards[s]? = some self.shards[s] := List.getElem?_eq_getElem hlt
    rw [List.getElem_map, List.getElem_mapIdx, List.getElem_mapIdx, List.map_map]
    apply List.map_congr_left
    intro idx _
    rw [Function.comp_apply, fleet_machines hshard]

omit [FloatOps F] in
/-- The router leaves every replica as its own request did. -/
theorem createCollection_machines (Bytes : Type*) (self : ShardRouter F) (fates : ℕ → ℕ → CreateFate)
    (name : String) (dim : UInt32) {p : Place} (hp : p ∈ self.places) :
    ((self.createCollection fates name dim).2.fleet Bytes).machines p =
      ((fates p.1 p.2).outcome ((self.fleet Bytes).machines p) ⟨name, dim, self.shardCount⟩).2 := by
  obtain ⟨row, hrow, hp⟩ := List.mem_flatten.mp hp
  obtain ⟨s, hs, rfl⟩ := List.mem_mapIdx.mp hrow
  obtain ⟨idx, _, rfl⟩ := List.mem_map.mp hp
  have hshard : self.shards[s]? = some self.shards[s] := List.getElem?_eq_getElem hs
  have hafter : (self.createCollection fates name dim).2.shards[s]? =
      some (self.shards[s].createCollection (fates s) ⟨name, dim, self.shardCount⟩).2 := by
    simp [createCollection, mapShards, hshard]
  rw [fleet_machines hafter, fleet_machines hshard]
  rfl

/-- A creation is its requests sent one by one, if nothing comes in between. -/
theorem createCollection_eq_run (codec : Bincode F Bytes) (self : ShardRouter F)
    (fates : ℕ → ℕ → CreateFate) (name : String) (dim : UInt32) :
    let after := run (Fleet.step codec self.shardCount) (self.fleet Bytes)
      (.call name dim :: self.places.map fun p => .request 0 p (fates p.1 p.2))
    after.calls.map (CreateCall.returned self.places) = [some (self.createCollection fates name dim).1] ∧
      ∀ p ∈ self.places, after.machines p =
        ((self.createCollection fates name dim).2.fleet Bytes).machines p := by
  intro after
  have hstarted : ((self.fleet Bytes).step codec self.shardCount (.call name dim)).calls =
      [.start ⟨name, dim, self.shardCount⟩] := rfl
  obtain ⟨done, hdone, hresults, hmachines⟩ :=
    Fleet.run_events codec self.shardCount (fun p => fates p.1 p.2) self.places hstarted
  have hanswered : ∀ p ∈ self.places, done.results p = some
      ((fates p.1 p.2).outcome ((self.fleet Bytes).machines p) ⟨name, dim, self.shardCount⟩).1 := by
    intro p hp
    rw [hresults p, if_pos hp]
    rfl
  refine ⟨?_, ?_⟩
  · have hall : ∀ p ∈ self.places, (done.results p).isSome := fun p hp => by rw [hanswered p hp]; rfl
    change after.calls = _ at hdone
    rw [hdone, List.map_singleton, CreateCall.returned, if_pos hall, self.createCollection_joined Bytes,
      List.filterMap_congr hanswered, ← List.filterMap_eq_map]
    rfl
  · intro p hp
    change ∀ q, after.machines q = _ at hmachines
    rw [hmachines p, if_pos ⟨hp, rfl⟩, self.createCollection_machines Bytes fates name dim hp]
    rfl

end ShardRouter

end Undisturbed

end RaftVec
