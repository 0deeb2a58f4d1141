import RaftVec.Library.Run
import RaftVec.Node.Service
import RaftVec.Node.Snapshot

/-!
# Searching while entries are applied

A search takes the store's locks once for the scan and then anew for every hit whose
metadata it looks up, so committed entries can be applied in between. A hit is then put
together from two moments: its score is that of the scanned version and its metadata is
whatever the id holds later, or empty if it holds nothing.

As long as an entry applied between the scan and a lookup keeps what that lookup will
find, or leaves a record that scores the same, every hit is one version of one record.
-/

namespace RaftVec

open Std Run Selection

/-- How far a search has got. -/
inductive SearchPhase (F : Type*) where
  | scanning
  | reading (pending : List (ScoredId F)) (done : List (ScoredRecord F))
  | finished (response : Except Status (SearchResponse F))

/-- The hits whose metadata is still to be looked up. -/
def SearchPhase.pending {F : Type*} : SearchPhase F → List (ScoredId F)
  | .reading pending _ => pending
  | _ => []

/-- The hits already put together. -/
def SearchPhase.hits {F : Type*} : SearchPhase F → List (ScoredRecord F)
  | .scanning => []
  | .reading _ done => done
  | .finished (.ok response) => response.results
  | .finished (.error _) => []

/-- A store under a search, with every content it had since the request came in. -/
structure SearchInFlight (F : Type*) where
  store : Store F
  since : List (Store F)
  phase : SearchPhase F

/-- Either an entry's command is applied or the search takes its next locked step. -/
inductive SearchEvent (F : Type*) where
  | apply (cmd : ShardCommand F)
  | search

variable {F : Type*} [FloatOps F]

/-- The store holds, under the hit's id, a record that has the hit's score. -/
def Store.Scores (store : Store F) (req : SearchRequest F) (hit : ScoredId F) : Prop :=
  ∃ stored ∈ store.version req.collection hit.id,
    scoreRecord req.queryVector (stored.record, stored.normSq) = hit

/-- The store holds a record from which the hit's id, score and metadata are all taken. -/
def Store.HoldsVersion (store : Store F) (req : SearchRequest F) (hit : ScoredRecord F) : Prop :=
  ∃ stored ∈ store.version req.collection hit.id,
    scoreRecord req.queryVector (stored.record, stored.normSq) = ⟨hit.id, hit.score⟩ ∧
      stored.record.metadata = hit.metadata

instance [LinearOrder F] (store : Store F) (req : SearchRequest F) (hit : ScoredRecord F) :
    Decidable (store.HoldsVersion req hit) :=
  inferInstanceAs (Decidable (∃ stored ∈ store.version req.collection hit.id, _ ∧ _))

/-- A record that scores as the hit makes one version with its own metadata. -/
theorem Store.Scores.holdsVersion {store : Store F} {req : SearchRequest F} {hit : ScoredId F}
    (h : store.Scores req hit) : store.HoldsVersion req (store.attachMetadata req.collection hit) := by
  obtain ⟨stored, hstored, hscore⟩ := h
  refine ⟨stored, hstored, hscore, ?_⟩
  rw [attachMetadata, getMetadata_eq_version, Option.mem_def.mp hstored, Option.map_some, Option.getD_some]

namespace SearchInFlight

/-- A request that has just come in. -/
def arrived (store : Store F) : SearchInFlight F := ⟨store, [store], .scanning⟩

/-- An applied entry keeps what each pending lookup will find, or leaves a record of its score. -/
def KeepsPendingHits (req : SearchRequest F) (self : SearchInFlight F) : SearchEvent F → Prop
  | .apply cmd =>
    ∀ hit ∈ self.phase.pending,
      (self.store.execute cmd).2.attachMetadata req.collection hit =
          self.store.attachMetadata req.collection hit ∨
        (self.store.execute cmd).2.Scores req hit
  | .search => True

variable [LinearOrder F]

/-- Take one step. -/
def step (schedule : ScanSchedule (VectorRecord F × F)) (req : SearchRequest F) (self : SearchInFlight F) :
    SearchEvent F → SearchInFlight F
  | .apply cmd =>
    { self with
      store := (self.store.execute cmd).2
      since := (self.store.execute cmd).2 :: self.since }
  | .search =>
    match self.phase with
    | .scanning =>
      match self.store.search schedule req.collection req.queryVector req.k.toNat with
      | .error err => { self with phase := .finished (.error err.toStatus) }
      | .ok scored => { self with phase := .reading scored [] }
    | .reading (hit :: pending) done =>
      { self with phase := .reading pending (done ++ [self.store.attachMetadata req.collection hit]) }
    | .reading [] done => { self with phase := .finished (.ok ⟨done, 1, 0, ""⟩) }
    | .finished response => { self with phase := .finished response }

/-- Every hit, found or about to be found, is one version held since the request came in. -/
structure OneVersion (req : SearchRequest F) (inFlight : SearchInFlight F) : Prop where
  wellFormed : inFlight.store.WellFormed
  current : inFlight.store ∈ inFlight.since
  pending : ∀ hit ∈ inFlight.phase.pending,
    ∃ store ∈ inFlight.since,
      store.HoldsVersion req (inFlight.store.attachMetadata req.collection hit)
  hits : ∀ hit ∈ inFlight.phase.hits, ∃ store ∈ inFlight.since, store.HoldsVersion req hit

omit [LinearOrder F] in
/-- A request that has just come in has no hits yet. -/
theorem oneVersion_arrived (req : SearchRequest F) {store : Store F} (hwell : store.WellFormed) :
    OneVersion req (arrived store) := by
  refine ⟨hwell, List.mem_singleton_self store, ?_, ?_⟩
  · intro hit hhit
    cases hhit
  · intro hit hhit
    cases hhit

/-- A hit of the scan is the score of the record held under its id. -/
theorem scores_of_mem_search {store : Store F} (hwell : store.WellFormed)
    {schedule : ScanSchedule (VectorRecord F × F)} {req : SearchRequest F} {scored : List (ScoredId F)}
    (hsearch : store.search schedule req.collection req.queryVector req.k.toNat = .ok scored)
    {hit : ScoredId F} (hhit : hit ∈ scored) : store.Scores req hit := by
  cases hcoll : store.collections[req.collection]? with
  | none =>
    simp only [Store.search, hcoll] at hsearch
    cases hsearch
  | some coll =>
    by_cases hquery : req.queryVector.length = coll.dim
    · rw [Store.search_eq_greatest schedule _ hcoll hquery, Except.ok.injEq] at hsearch
      rw [← hsearch] at hhit
      have hmem := mem_of_mem_greatest hhit
      simp only [scoredIds, Collection.scanned, List.map_map, Multiset.mem_coe, List.mem_map] at hmem
      obtain ⟨item, hitem, hscore⟩ := hmem
      have hstored := ExtTreeMap.mem_toList_iff_getElem?_eq_some.mp hitem
      have hid : hit.id = item.1 := by
        rw [← hscore]
        exact (hwell _ coll hcoll).keyed item.1 item.2 hstored
      refine ⟨item.2, ?_, hscore⟩
      rw [Option.mem_def, Store.version, hcoll, Option.bind_some, hid, hstored]
    · simp only [Store.search, hcoll, ne_eq, hquery, not_false_eq_true, if_true] at hsearch
      cases hsearch

/-- Applying an entry that keeps the pending hits keeps every hit one version. -/
theorem OneVersion.apply {schedule : ScanSchedule (VectorRecord F × F)} {req : SearchRequest F}
    {self : SearchInFlight F} (h : OneVersion req self) (cmd : ShardCommand F)
    (hkeeps : self.KeepsPendingHits req (.apply cmd)) :
    OneVersion req (self.step schedule req (.apply cmd)) := by
  refine ⟨h.wellFormed.execute cmd, List.mem_cons_self, ?_, ?_⟩
  · intro hit hhit
    cases hkeeps hit hhit with
    | inl hsame =>
      obtain ⟨store, hstore, hversion⟩ := h.pending hit hhit
      refine ⟨store, List.mem_cons_of_mem _ hstore, ?_⟩
      change store.HoldsVersion req ((self.store.execute cmd).2.attachMetadata req.collection hit)
      rw [hsame]
      exact hversion
    | inr hscores => exact ⟨_, List.mem_cons_self, hscores.holdsVersion⟩
  · intro hit hhit
    obtain ⟨store, hstore, hversion⟩ := h.hits hit hhit
    exact ⟨store, List.mem_cons_of_mem _ hstore, hversion⟩

/-- The scan starts from records the store holds. -/
theorem OneVersion.scan {schedule : ScanSchedule (VectorRecord F × F)} {req : SearchRequest F}
    {self : SearchInFlight F} (h : OneVersion req self) (hphase : self.phase = .scanning) :
    OneVersion req (self.step schedule req .search) := by
  simp only [step, hphase]
  split
  · exact ⟨h.wellFormed, h.current, fun hit hhit => (by cases hhit), fun hit hhit => (by cases hhit)⟩
  · next scored hsearch =>
    refine ⟨h.wellFormed, h.current, ?_, fun hit hhit => (by cases hhit)⟩
    intro hit hhit
    exact ⟨self.store, h.current, (scores_of_mem_search h.wellFormed hsearch hhit).holdsVersion⟩

/-- A lookup completes the first pending hit with what the store then holds. -/
theorem OneVersion.lookup {schedule : ScanSchedule (VectorRecord F × F)} {req : SearchRequest F}
    {self : SearchInFlight F} (h : OneVersion req self) {pending : List (ScoredId F)}
    {done : List (ScoredRecord F)} (hphase : self.phase = .reading pending done) :
    OneVersion req (self.step schedule req .search) := by
  obtain ⟨hwell, hcurrent, hpending, hhits⟩ := h
  rw [hphase] at hpending hhits
  cases pending with
  | nil =>
    simp only [step, hphase]
    exact ⟨hwell, hcurrent, fun hit hhit => (by cases hhit), hhits⟩
  | cons first pending =>
    simp only [step, hphase]
    refine ⟨hwell, hcurrent, fun hit hhit => hpending hit (List.mem_cons_of_mem _ hhit), ?_⟩
    intro hit hhit
    cases List.mem_append.mp hhit with
    | inl hdone => exact hhits hit hdone
    | inr hnew =>
      rw [List.mem_singleton.mp hnew]
      exact hpending first List.mem_cons_self

/-- Every step that keeps the pending hits keeps every hit one version. -/
theorem OneVersion.step (schedule : ScanSchedule (VectorRecord F × F)) {req : SearchRequest F}
    (self : SearchInFlight F) (event : SearchEvent F) (h : OneVersion req self)
    (hkeeps : self.KeepsPendingHits req event) : OneVersion req (self.step schedule req event) := by
  cases event with
  | apply cmd => exact h.apply cmd hkeeps
  | search =>
    cases hphase : self.phase with
    | scanning => exact h.scan hphase
    | reading pending done => exact h.lookup hphase
    | finished response =>
      obtain ⟨hwell, hcurrent, hpending, hhits⟩ := h
      rw [hphase] at hpending hhits
      simp only [SearchInFlight.step, hphase]
      exact ⟨hwell, hcurrent, hpending, hhits⟩

/-- A finished search stays finished. -/
theorem run_finished (schedule : ScanSchedule (VectorRecord F × F)) (req : SearchRequest F)
    (store : Store F) (since : List (Store F)) (response : Except Status (SearchResponse F)) (extra : ℕ) :
    run (step schedule req) ⟨store, since, .finished response⟩ (List.replicate extra .search) =
      ⟨store, since, .finished response⟩ := by
  induction extra with
  | zero => rfl
  | succ extra ih => exact ih

/-- Once the scan is done, the search's own steps look up every hit and finish. -/
theorem run_reading (schedule : ScanSchedule (VectorRecord F × F)) (req : SearchRequest F)
    (store : Store F) (since : List (Store F)) (pending : List (ScoredId F))
    (done : List (ScoredRecord F)) (extra : ℕ) :
    (run (step schedule req) ⟨store, since, .reading pending done⟩
      (List.replicate (pending.length + 1 + extra) .search)).phase =
      .finished (.ok ⟨done ++ pending.map (store.attachMetadata req.collection), 1, 0, ""⟩) := by
  induction pending generalizing done with
  | nil =>
    rw [List.length_nil, Nat.zero_add, Nat.add_comm, List.replicate_succ, run_cons]
    simp only [step, List.map_nil, List.append_nil]
    exact congrArg phase (run_finished schedule req store since _ extra)
  | cons hit pending ih =>
    have hlength : (hit :: pending).length + 1 + extra = (pending.length + 1 + extra) + 1 := by
      rw [List.length_cons]
      omega
    rw [hlength, List.replicate_succ, run_cons]
    simp only [step]
    rw [ih]
    simp

/-- With no entry applied beside it, the search answers what the service computes in one go. -/
theorem undisturbed_eq_searchStore (conditions : NodeService.ReadConditions F)
    (hjoined : conditions.joined = .ok ()) (req : SearchRequest F) (store : Store F) :
    ∃ steps, ∀ extra,
      (run (step conditions.schedule req) (arrived store) (List.replicate (steps + extra) .search)).phase =
        .finished (NodeService.searchStore conditions store req) := by
  cases hsearch : store.search conditions.schedule req.collection req.queryVector req.k.toNat with
  | error err =>
    refine ⟨1, ?_⟩
    intro extra
    rw [Nat.add_comm, List.replicate_succ, run_cons]
    simp only [step, arrived, hsearch, NodeService.searchStore, hjoined]
    exact congrArg phase (run_finished conditions.schedule req store [store] _ extra)
  | ok scored =>
    refine ⟨scored.length + 2, ?_⟩
    intro extra
    have hsteps : scored.length + 2 + extra = (scored.length + 1 + extra) + 1 := by omega
    rw [hsteps, List.replicate_succ, run_cons]
    simp only [step, arrived, hsearch, NodeService.searchStore, hjoined]
    exact run_reading conditions.schedule req store [store] scored [] extra

/-- Hits are versions held during the request if no applied entry disturbs a pending lookup.

The run is any interleaving of the search's steps with applied commands. -/
theorem hits_are_versions_of_keeps_pending (schedule : ScanSchedule (VectorRecord F × F))
    (req : SearchRequest F) (store : Store F) (hwell : store.WellFormed)
    (events : List (SearchEvent F))
    (hkeeps : Guarded (KeepsPendingHits req) (step schedule req) (arrived store) events) :
    let reached := run (step schedule req) (arrived store) events
    ∀ hit ∈ reached.phase.hits, ∃ moment ∈ reached.since, moment.HoldsVersion req hit :=
  (invariant_of_guarded (OneVersion.step schedule) (oneVersion_arrived req hwell) hkeeps).hits

/-- The law for a search beside which another record is stored. -/
theorem hits_are_versions_beside_other_insert :
    let store : Store ℤ := ((Store.new.createCollection "docs" 1 1).2.execute
      (.upsert "docs" [⟨1, [3], .ofList [("v", "old")]⟩])).2
    let req : SearchRequest ℤ := ⟨"docs", [3], 1⟩
    let events : List (SearchEvent ℤ) := [.search, .apply (.upsert "docs" [⟨2, [4], ∅⟩]), .search, .search]
    let reached := run (step (.sequential _) req) (arrived store) events
    ∀ hit ∈ reached.phase.hits, ∃ moment ∈ reached.since, moment.HoldsVersion req hit := by
  intro store req events
  refine hits_are_versions_of_keeps_pending (.sequential _) req store
    ((Store.wellFormed_new.createCollection "docs" 1 1).execute _) events
    ⟨trivial, ?_, trivial, trivial, trivial⟩
  have hsame : ∀ hit ∈ ((arrived store).step (.sequential _) req .search).phase.pending,
      (((arrived store).step (.sequential _) req .search).store.execute
          (.upsert "docs" [⟨2, [4], ∅⟩])).2.attachMetadata "docs" hit =
        ((arrived store).step (.sequential _) req .search).store.attachMetadata "docs" hit := by
    decide +kernel
  exact fun hit hhit => Or.inl (hsame hit hhit)

/-- A record is overwritten between the scan and the lookup: the old score meets new metadata. -/
theorem hit_mixes_two_versions :
    let store : Store ℤ := ((Store.new.createCollection "docs" 1 1).2.execute
      (.upsert "docs" [⟨1, [3], .ofList [("v", "old")]⟩])).2
    let req : SearchRequest ℤ := ⟨"docs", [3], 1⟩
    let events : List (SearchEvent ℤ) :=
      [.search, .apply (.upsert "docs" [⟨1, [-3], .ofList [("v", "new")]⟩]), .search, .search]
    let reached := run (step (.sequential _) req) (arrived store) events
    ∃ hit ∈ reached.phase.hits, ∀ moment ∈ reached.since, ¬ moment.HoldsVersion req hit := by
  decide +kernel

end SearchInFlight

end RaftVec
