import RaftVec.Node.ConcurrentRequests

/-!
# What holds of a request in flight

Every request that took effect has a place: a write's position in the log, or the length
of the log's beginning that a search saw. The place is tied to what was committed when the
request came in, and the answer to the store that the log's beginning makes. A request
stays that way while other entries are committed, and through every step of its own.
-/

namespace RaftVec

open Std Run Linearizability

variable {F : Type*} [FloatOps F]

/-- The store that the first entries of a log make. -/
def storeAt (store : Store F) (log : List (Entry F)) (p : ℕ) : Store F :=
  store.executeAll (logCommands (log.take p))

/-- A longer log does not concern the store that its beginning makes. -/
theorem storeAt_append (store : Store F) {log : List (Entry F)} {p : ℕ} (hp : p ≤ log.length)
    (more : List (Entry F)) : storeAt store (log ++ more) p = storeAt store log p := by
  rw [storeAt, List.take_append_of_le_length hp, storeAt]

/-- One more entry executes its command, if it has one. -/
theorem storeAt_succ (store : Store F) {log : List (Entry F)} {p : ℕ} {entry : Entry F}
    (hentry : log[p]? = some entry) :
    storeAt store log (p + 1) = (storeAt store log p).executeAll (logCommands [entry]) := by
  rw [storeAt, List.take_add_one, hentry, Option.toList_some, logCommands, List.filterMap_append,
    Store.executeAll_append]
  rfl

/-- A replica that has applied the beginning of the log holds the store it makes. -/
structure GroupReplica.Follows (store : Store F) (log : List (Entry F)) (replica : GroupReplica F) : Prop where
  applied_le : replica.applied ≤ log.length
  store_eq : replica.machine.store = storeAt store log replica.applied

/-- More committed entries do not concern what a replica holds. -/
theorem GroupReplica.Follows.append {store : Store F} {log : List (Entry F)} {replica : GroupReplica F}
    (h : replica.Follows store log) (more : List (Entry F)) : replica.Follows store (log ++ more) := by
  constructor
  · rw [List.length_append]
    exact Nat.le_add_right_of_le h.applied_le
  · rw [storeAt_append store h.applied_le]
    exact h.store_eq

/-- Applying the next entry goes one entry further. -/
theorem GroupReplica.Follows.applyNext {store : Store F} {log : List (Entry F)} {replica : GroupReplica F}
    (h : replica.Follows store log) : (replica.applyNext log).Follows store log := by
  unfold GroupReplica.applyNext
  split
  · next entry hentry =>
    obtain ⟨hlt, -⟩ := List.getElem?_eq_some_iff.mp hentry
    constructor
    · exact hlt
    · change (replica.machine.applyEntry entry).2.store = storeAt store log (replica.applied + 1)
      rw [storeAt_succ store hentry, ← h.store_eq]
      exact replica.machine.apply_store [entry]
  · exact h

namespace ShardRequest

variable [LinearOrder F] {schedule : ScanSchedule (VectorRecord F × F)} {store : Store F} {log : List (Entry F)}
  {moment : ℕ} {request : ShardRequest F}

/-- The point at which a request with a given place took effect. -/
def key (self : ShardRequest F) (p : ℕ) : ℕ := if self.rpc.command.isSome then 2 * p + 1 else 2 * p

/-- How far a search has got: its hits, looked up or not, are those of the store its place makes. -/
def Found (self : ShardRequest F) (schedule : ScanSchedule (VectorRecord F × F)) (store : Store F)
    (log : List (Entry F)) (req : SearchRequest F) : Prop :=
  match self.progress with
  | .scanning => self.place = none
  | .reading pending done => ∃ p scored, self.place = some p ∧
      (storeAt store log p).search schedule req.collection req.queryVector req.k.toNat = .ok scored ∧
      done.map (fun hit => (⟨hit.id, hit.score⟩ : ScoredId F)) ++ pending = scored
  | .finished _ => self.caller ≠ .waiting

/-- What holds of every request at every moment. -/
structure Valid (schedule : ScanSchedule (VectorRecord F × F)) (store : Store F) (log : List (Entry F))
    (moment : ℕ) (request : ShardRequest F) : Prop where
  invoked_lt : request.invoked < moment
  before_le : request.committedBefore ≤ log.length
  before_le_place : ∀ p, request.place = some p → request.committedBefore ≤ p
  written : ∀ p cmd, request.place = some p → request.rpc.command = some cmd →
    ∃ logId, log[p]? = some ⟨logId, .normal cmd⟩
  read : ∀ p, request.place = some p → request.rpc.command = none → p ≤ log.length
  found : ∀ req, request.rpc = .search req → request.Found schedule store log req
  answered : ∀ t answer, request.caller = .answered t answer → request.invoked ≤ t ∧ t < moment ∧
    ∃ p, request.place = some p ∧
      forgetMetadata answer = ((storeAt store log p).serveRanking schedule request.rpc).1

/-- A placed request lies within the log. -/
theorem Valid.key_le (h : request.Valid schedule store log moment) {p : ℕ}
    (hp : request.place = some p) : p ≤ log.length ∧ request.key p ≤ 2 * log.length := by
  unfold key
  cases hcmd : request.rpc.command with
  | none =>
    have hle := h.read p hp hcmd
    simp only [Option.isSome_none, Bool.false_eq_true, if_false]
    omega
  | some cmd =>
    obtain ⟨logId, hentry⟩ := h.written p cmd hp hcmd
    obtain ⟨hlt, -⟩ := List.getElem?_eq_some_iff.mp hentry
    simp only [Option.isSome_some, if_true]
    omega

/-- A request stays as it is while entries are committed and time passes. -/
theorem Valid.later (h : request.Valid schedule store log moment)
    (more : List (Entry F)) : request.Valid schedule store (log ++ more) (moment + 1) := by
  have hstore : ∀ p, request.place = some p → storeAt store (log ++ more) p = storeAt store log p :=
    fun p hp => storeAt_append store (h.key_le hp).1 more
  constructor
  · exact Nat.lt_succ_of_lt h.invoked_lt
  · rw [List.length_append]
    exact Nat.le_add_right_of_le h.before_le
  · exact h.before_le_place
  · intro p cmd hp hcmd
    obtain ⟨logId, hentry⟩ := h.written p cmd hp hcmd
    obtain ⟨hlt, -⟩ := List.getElem?_eq_some_iff.mp hentry
    exact ⟨logId, by rw [List.getElem?_append_left hlt, hentry]⟩
  · intro p hp hcmd
    rw [List.length_append]
    exact Nat.le_add_right_of_le (h.read p hp hcmd)
  · intro req hreq
    have hfound := h.found req hreq
    unfold Found at hfound ⊢
    cases hprogress : request.progress with
    | reading pending done =>
      rw [hprogress] at hfound
      obtain ⟨p, scored, hp, hsearch, hhits⟩ := hfound
      exact ⟨p, scored, hp, by rw [hstore p hp, hsearch], hhits⟩
    | scanning =>
      rw [hprogress] at hfound
      exact hfound
    | finished response =>
      rw [hprogress] at hfound
      exact hfound
  · intro t answer hanswer
    obtain ⟨hinvoked, hlt, p, hp, hserve⟩ := h.answered t answer hanswer
    exact ⟨hinvoked, Nat.lt_succ_of_lt hlt, p, hp, by rw [hstore p hp, hserve]⟩

/-- A request stays as it is while time passes. -/
theorem Valid.tick (h : request.Valid schedule store log moment) :
    request.Valid schedule store log (moment + 1) := by
  have hlater := h.later []
  rw [List.append_nil] at hlater
  exact hlater

/-- What a step may do to a request: it keeps its place, and is answered now or not at all. -/
structure Advances (moment : ℕ) (before after : ShardRequest F) : Prop where
  rpc_eq : after.rpc = before.rpc
  invoked_eq : after.invoked = before.invoked
  committedBefore_eq : after.committedBefore = before.committedBefore
  place_eq : ∀ p, before.place = some p → after.place = some p
  answered : ∀ t answer, after.caller = .answered t answer →
    before.caller = .answered t answer ∨ t = moment

omit [FloatOps F] [LinearOrder F] in
/-- A request that is left alone. -/
theorem Advances.refl (moment : ℕ) (request : ShardRequest F) : request.Advances moment request :=
  ⟨rfl, rfl, rfl, fun _ h => h, fun _ _ h => Or.inl h⟩

omit [FloatOps F] [LinearOrder F] in
/-- A request keeps its point. -/
theorem Advances.key_eq {moment : ℕ} {before after : ShardRequest F} (h : before.Advances moment after) (p : ℕ) :
    after.key p = before.key p := by
  rw [key, key, h.rpc_eq]

omit [FloatOps F] [LinearOrder F] in
/-- A write that was not committed yet takes its place. -/
theorem advances_commitAt {request : ShardRequest F} (hplace : request.place = none) (moment position : ℕ) :
    request.Advances moment (request.commitAt position) := by
  refine ⟨rfl, rfl, rfl, ?_, fun _ _ h => Or.inl h⟩
  intro p hp
  rw [hplace] at hp
  cases hp

omit [FloatOps F] [LinearOrder F] in
/-- A write is answered now. -/
theorem advances_acknowledge (request : ShardRequest F) (moment : ℕ) (response : ShardCommandResponse) :
    request.Advances moment (request.acknowledge moment response) := by
  unfold acknowledge
  split
  · refine ⟨rfl, rfl, rfl, fun _ h => h, ?_⟩
    intro t answer hanswer
    cases hanswer
    exact Or.inr rfl
  · exact .refl moment request

omit [FloatOps F] [LinearOrder F] in
/-- A caller that is gone is not answered. -/
theorem advances_abandon (request : ShardRequest F) (moment : ℕ) : request.Advances moment request.abandon := by
  refine ⟨rfl, rfl, rfl, fun _ h => h, ?_⟩
  intro t answer hanswer
  cases hanswer

/-- A search that has no place yet is placed by its scan, and is answered now or not at all. -/
theorem advances_search {request : ShardRequest F}
    (hplace : ∀ req, request.rpc = .search req → request.progress = .scanning → request.place = none) (moment : ℕ)
    (schedule : ScanSchedule (VectorRecord F × F)) (replicas : ℕ → GroupReplica F) :
    request.Advances moment (request.search moment schedule replicas) := by
  unfold search
  split
  · next req hreq =>
    refine ⟨rfl, rfl, rfl, ?_, ?_⟩
    · intro p hp
      dsimp only
      split
      · next hprogress =>
        rw [hplace req hreq hprogress] at hp
        cases hp
      · exact hp
    · intro t answer hanswer
      dsimp only at hanswer
      split at hanswer
      · cases hanswer
        exact Or.inr rfl
      · exact Or.inl hanswer
  · exact .refl moment request

/-- A search that has not scanned has no place. -/
theorem Valid.place_of_scanning (h : request.Valid schedule store log moment)
    {req : SearchRequest F} (hreq : request.rpc = .search req) (hprogress : request.progress = .scanning) :
    request.place = none := by
  have hfound := h.found req hreq
  simp only [Found, hprogress] at hfound
  exact hfound

/-- A command committed now takes the end of the log as its place. -/
theorem Valid.commitAt (h : request.Valid schedule store log moment) {cmd : ShardCommand F}
    (hcmd : request.rpc.command = some cmd) (hplace : request.place = none) (logId : LogId) :
    (request.commitAt log.length).Valid schedule store (log ++ [⟨logId, .normal cmd⟩]) (moment + 1) := by
  have hlater := h.later [⟨logId, .normal cmd⟩]
  refine ⟨hlater.invoked_lt, hlater.before_le, ?_, ?_, ?_, ?_, ?_⟩
  · intro p hp
    cases hp
    exact h.before_le
  · intro p other hp hother
    cases hp
    cases hcmd.symm.trans hother
    exact ⟨logId, by rw [List.getElem?_append_right le_rfl, Nat.sub_self]; rfl⟩
  · intro p _ hnone
    cases hcmd.symm.trans hnone
  · intro req hreq
    change request.rpc = .search req at hreq
    rw [hreq] at hcmd
    cases hcmd
  · intro t answer hanswer
    obtain ⟨-, -, p, hp, -⟩ := h.answered t answer hanswer
    cases hplace.symm.trans hp

/-- A committed write is answered as the store at its place answers it. -/
theorem Valid.acknowledge (h : request.Valid schedule store log moment) {position : ℕ}
    (hplace : request.place = some position) (response : ShardCommandResponse) :
    (request.acknowledge moment response).Valid schedule store log (moment + 1) := by
  have hlater := h.tick
  unfold ShardRequest.acknowledge
  split
  · next answer hanswer =>
    refine ⟨hlater.invoked_lt, hlater.before_le, hlater.before_le_place, hlater.written, hlater.read, ?_, ?_⟩
    · intro req hreq
      change request.rpc = .search req at hreq
      rw [hreq] at hanswer
      cases hanswer
    · intro t given hgiven
      cases hgiven
      refine ⟨Nat.le_of_lt h.invoked_lt, Nat.lt_succ_self moment, position, hplace, ?_⟩
      rw [Rpc.acknowledgement_eq_serve hanswer schedule (storeAt store log position)]
      rfl
  · exact hlater

/-- Losing the caller changes nothing else. -/
theorem Valid.abandon (h : request.Valid schedule store log moment) :
    request.abandon.Valid schedule store log (moment + 1) := by
  have hlater := h.tick
  refine ⟨hlater.invoked_lt, hlater.before_le, hlater.before_le_place, hlater.written, hlater.read, ?_, ?_⟩
  · intro req hreq
    have hfound := hlater.found req hreq
    unfold Found at hfound ⊢
    change match request.progress with | .scanning => _ | .reading _ _ => _ | .finished _ => _
    cases hprogress : request.progress with
    | finished response => exact fun hcaller => by cases hcaller
    | scanning =>
      rw [hprogress] at hfound
      exact hfound
    | reading pending done =>
      rw [hprogress] at hfound
      exact hfound
  · intro t answer hanswer
    cases hanswer

/-- A search's answer, its metadata left out, is the ranking of the store. -/
theorem serveRanking_of_ok {schedule : ScanSchedule (VectorRecord F × F)} {store : Store F} {req : SearchRequest F}
    {scored : List (ScoredId F)}
    (h : store.search schedule req.collection req.queryVector req.k.toNat = .ok scored) :
    (store.serveRanking schedule (.search req)).1 =
      .ok (.searched ⟨scored.map fun hit => ⟨hit.id, hit.score, ∅⟩, 1, 0, ""⟩) := by
  simp only [Store.serveRanking, Store.serve, h, forgetMetadata, Except.map, RpcResponse.forgetMetadata,
    List.map_map]
  rfl

/-- A search that goes on at its place, and is answered now if at all, stays valid. -/
theorem Valid.progressed (h : request.Valid schedule store log moment) {req : SearchRequest F}
    (hreq : request.rpc = .search req) {p : ℕ} (hbefore : request.committedBefore ≤ p) (hp : p ≤ log.length)
    {progress : SearchPhase F} {caller : Caller F}
    (hfound : ({ request with place := some p, progress := progress, caller := caller } :
      ShardRequest F).Found schedule store log req)
    (hanswered : ∀ t answer, caller = .answered t answer → t = moment ∧
      forgetMetadata answer = ((storeAt store log p).serveRanking schedule (.search req)).1) :
    ({ request with place := some p, progress := progress, caller := caller } :
      ShardRequest F).Valid schedule store log (moment + 1) := by
  refine ⟨Nat.lt_succ_of_lt h.invoked_lt, h.before_le, ?_, ?_, ?_, ?_, ?_⟩
  · intro q hq
    cases hq
    exact hbefore
  · intro q cmd _ hcmd
    change request.rpc.command = some cmd at hcmd
    rw [hreq] at hcmd
    cases hcmd
  · intro q hq _
    cases hq
    exact hp
  · intro other hother
    change request.rpc = .search other at hother
    cases hreq.symm.trans hother
    exact hfound
  · intro t answer hanswer
    obtain ⟨rfl, hserve⟩ := hanswered t answer hanswer
    refine ⟨Nat.le_of_lt h.invoked_lt, Nat.lt_succ_self t, p, rfl, ?_⟩
    change forgetMetadata answer = ((storeAt store log p).serveRanking schedule request.rpc).1
    rw [hreq]
    exact hserve

/-- The scan places a search at what its replica has applied. -/
theorem Valid.scan (h : request.Valid schedule store log moment) {req : SearchRequest F}
    (hreq : request.rpc = .search req) (hprogress : request.progress = .scanning)
    (hcaller : request.caller = .waiting) {replicas : ℕ → GroupReplica F}
    (hreplica : (replicas request.replica).Follows store log)
    (hbefore : request.committedBefore ≤ (replicas request.replica).applied)
    (schedule' : ScanSchedule (VectorRecord F × F)) :
    (request.search moment schedule' replicas).Valid schedule store log (moment + 1) := by
  have hscan := Store.search_schedule schedule' schedule (replicas request.replica).machine.store req.collection
    req.queryVector req.k.toNat
  rw [hreplica.store_eq] at hscan
  cases hsearch : (storeAt store log (replicas request.replica).applied).search schedule req.collection
      req.queryVector req.k.toNat with
  | error err =>
    have hnext : request.search moment schedule' replicas = { request with
        place := some (replicas request.replica).applied
        progress := .finished (.error err.toStatus)
        caller := .answered moment (.error err.toStatus) } := by
      simp only [ShardRequest.search, hreq, hprogress, SearchInFlight.step, hreplica.store_eq, hscan, hsearch]
      rfl
    rw [hnext]
    refine h.progressed hreq hbefore hreplica.applied_le (fun hwaiting => by cases hwaiting) ?_
    intro t answer hanswer
    cases hanswer
    refine ⟨rfl, ?_⟩
    simp only [Store.serveRanking, Store.serve, hsearch]
  | ok scored =>
    have hnext : request.search moment schedule' replicas = { request with
        place := some (replicas request.replica).applied
        progress := .reading scored []
        caller := .waiting } := by
      simp only [ShardRequest.search, hreq, hprogress, SearchInFlight.step, hreplica.store_eq, hscan, hsearch,
        hcaller]
    rw [hnext]
    refine h.progressed hreq hbefore hreplica.applied_le ⟨_, scored, rfl, hsearch, rfl⟩ ?_
    intro t answer hanswer
    cases hanswer

/-- A lookup moves one hit, and the last one is followed by the answer. -/
theorem Valid.lookup (h : request.Valid schedule store log moment) {req : SearchRequest F}
    (hreq : request.rpc = .search req) {pending : List (ScoredId F)} {done : List (ScoredRecord F)}
    (hprogress : request.progress = .reading pending done) (hcaller : request.caller = .waiting)
    (replicas : ℕ → GroupReplica F) (schedule' : ScanSchedule (VectorRecord F × F)) :
    (request.search moment schedule' replicas).Valid schedule store log (moment + 1) := by
  have hfound := h.found req hreq
  simp only [Found, hprogress] at hfound
  obtain ⟨p, scored, hp, hsearch, hhits⟩ := hfound
  cases pending with
  | cons hit pending =>
    have hnext : request.search moment schedule' replicas = { request with
        place := some p
        progress := .reading pending (done ++
          [(replicas request.replica).machine.store.attachMetadata req.collection hit])
        caller := .waiting } := by
      simp only [ShardRequest.search, hreq, hprogress, SearchInFlight.step, hcaller, hp]
    rw [hnext]
    refine h.progressed hreq (h.before_le_place p hp) (h.key_le hp).1 ⟨p, scored, rfl, hsearch, ?_⟩ ?_
    · rw [List.map_append, List.append_assoc]
      exact hhits
    · intro t answer hanswer
      cases hanswer
  | nil =>
    have hnext : request.search moment schedule' replicas = { request with
        place := some p
        progress := .finished (.ok ⟨done, 1, 0, ""⟩)
        caller := .answered moment (.ok (.searched ⟨done, 1, 0, ""⟩)) } := by
      simp only [ShardRequest.search, hreq, hprogress, SearchInFlight.step, hp]
      rfl
    rw [hnext]
    refine h.progressed hreq (h.before_le_place p hp) (h.key_le hp).1 (fun hwaiting => by cases hwaiting) ?_
    intro t answer hanswer
    cases hanswer
    refine ⟨rfl, ?_⟩
    rw [List.append_nil] at hhits
    rw [serveRanking_of_ok hsearch, ← hhits, List.map_map]
    rfl

/-- Every step of a search that its replica may take keeps it valid. -/
theorem Valid.search (h : request.Valid schedule store log moment)
    (hcaller : request.caller = .waiting) {replicas : ℕ → GroupReplica F}
    (hreplica : (replicas request.replica).Follows store log)
    (hbefore : request.progress = .scanning → request.committedBefore ≤ (replicas request.replica).applied)
    (schedule' : ScanSchedule (VectorRecord F × F)) :
    (request.search moment schedule' replicas).Valid schedule store log (moment + 1) := by
  have hlater := h.tick
  cases hreq : request.rpc with
  | insert req =>
    simp only [ShardRequest.search, hreq]
    exact hlater
  | delete req =>
    simp only [ShardRequest.search, hreq]
    exact hlater
  | search req =>
    cases hprogress : request.progress with
    | scanning => exact h.scan hreq hprogress hcaller hreplica (hbefore hprogress) schedule'
    | reading pending done => exact h.lookup hreq hprogress hcaller replicas schedule'
    | finished response =>
      have hfound := h.found req hreq
      simp only [Found, hprogress] at hfound
      exact absurd hcaller hfound

end ShardRequest

end RaftVec
