import RaftVec.Aggregator.LeaderSearch
import RaftVec.Library.Transducer

/-!
# The retry loop cut at its awaits

`connect` dials every replica of every shard and keeps the clients beside the addresses.
A call touches the shared cache once before its first await and once after each later one,
so it is run here in pieces that end where the call waits for an attempt: other calls may
run in between, and a caller may drop the call there.

An index past the clients and a remainder by no clients at all panic in the source, and
are a phase of their own here. Run alone and to its end a call is `callWithRetry`.
-/

namespace RaftVec

/-- One shard as `connect` leaves it: a client and an address per replica, and the guess. -/
structure ConnectedShard (C : Type*) where
  clients : List C
  addrs : List String
  leaderHint : ℕ

/-- How often `connect` dials one replica. -/
def connectMaxAttempts : ℕ := 10

/-- How long a read waits for one replica, in milliseconds. -/
def readAttemptTimeout : ℕ := 400

/-- Dial until a connection stands or no attempt is left after this one. -/
def dialFrom {C : Type*} (addr : String) (dial : ℕ → Except String C) : ℕ → ℕ → Except RouterError C
  | left, attempt =>
    match dial attempt with
    | .ok client => .ok client
    | .error source =>
      match left with
      | 0 => .error (.connect addr source)
      | left + 1 => dialFrom addr dial left (attempt + 1)

/-- Dial one replica ten times at most. -/
def connectWithRetry {C : Type*} (addr : String) (dial : ℕ → Except String C) : Except RouterError C :=
  dialFrom addr dial (connectMaxAttempts - 1) 0

/-- Connect to every replica of every shard, or fail with the first that cannot be reached. -/
def connect {C : Type*} (dial : ℕ → ℕ → ℕ → Except String C) (shardReplicaAddrs : List (List String)) :
    Except RouterError (List (ConnectedShard C)) :=
  shardReplicaAddrs.zipIdx.mapM fun (addrs, s) => do
    let clients ← addrs.zipIdx.mapM fun (addr, idx) => connectWithRetry addr (dial s idx)
    pure ⟨clients, addrs, 0⟩

/-- Where a call stands. -/
inductive CallPhase (C R : Type*) where
  | awaiting (client : C) (idx left : ℕ) (lastErr : Option RouterError)
  | returned (result : Except RouterError R)
  | cancelled
  | panicked

/-- How long an attempt keeps its caller waiting: only one that hangs takes time. -/
def AttemptOutcome.duration {R : Type*} (attemptTimeout : ℕ) : AttemptOutcome R → ℕ
  | .elapsed => attemptTimeout
  | _ => 0

namespace ConnectedShard

variable {C R S : Type*}

/-- Send the next attempt, or give up when none is left. -/
def sendAttempt (shard : ConnectedShard C) (idx : ℕ) (lastErr : Option RouterError) : ℕ → CallPhase C R
  | 0 => .returned (.error (lastErr.getD .shardUnreachable))
  | left + 1 =>
    match shard.clients[idx]? with
    | some client => .awaiting client idx left lastErr
    | none => .panicked

/-- The statements before the first await. -/
def beginCall (shard : ConnectedShard C) : CallPhase C R :=
  if shard.clients.length = 0 then .panicked
  else shard.sendAttempt (shard.leaderHint % shard.clients.length) none maxLeaderAttempts

variable [CarriesLeaderHint R]

/-- Where to go after an attempt that was not answered. -/
def nextIdx (shard : ConnectedShard C) (idx : ℕ) : AttemptOutcome R → ℕ
  | .answered response =>
    (shard.addrs.findIdx? fun addr => addr = CarriesLeaderHint.leaderHint response).getD
      ((idx + 1) % shard.clients.length)
  | _ => (idx + 1) % shard.clients.length

/-- The statements between the end of an attempt and the next await. -/
def attemptEnded (shard : ConnectedShard C) (idx left : ℕ) (lastErr : Option RouterError)
    (outcome : AttemptOutcome R) : ConnectedShard C × CallPhase C R :=
  match outcome.served with
  | some response => ({ shard with leaderHint := idx }, .returned (.ok response))
  | none =>
    let idx := shard.nextIdx idx outcome
    ({ shard with leaderHint := idx }, shard.sendAttempt idx (outcome.errorAfter lastErr) left)

/-- Run a call alone until it is over, or until its caller's deadline, if any, is used up. -/
def runCall (attemptTimeout : ℕ) (deadline : Option ℕ) (attempt : ℕ → ℕ → S → AttemptOutcome R × S) :
    ℕ → ℕ → ConnectedShard C → CallPhase C R → S → ConnectedShard C × CallPhase C R × S
  | fuel + 1, spent, shard, .awaiting _ idx left lastErr, state =>
    let made := attempt (maxLeaderAttempts - (left + 1)) idx state
    let spent := spent + made.1.duration attemptTimeout
    if deadline.all fun limit => spent < limit then
      let next := shard.attemptEnded idx left lastErr made.1
      runCall attemptTimeout deadline attempt fuel spent next.1 next.2 made.2
    else (shard, .cancelled, made.2)
  | _, _, shard, phase, state => (shard, phase, state)

omit [CarriesLeaderHint R] in
/-- What `connect` builds and every call keeps: a client for each address, and a guess among them. -/
structure WellFormed (shard : ConnectedShard C) : Prop where
  paired : shard.clients.length = shard.addrs.length
  hint_lt : shard.leaderHint < shard.clients.length

omit [CarriesLeaderHint R] in
/-- A shard that `connect` built over some replicas is well formed. -/
theorem WellFormed.of_connect {dial : ℕ → ℕ → ℕ → Except String C} {shardReplicaAddrs : List (List String)}
    {shards : List (ConnectedShard C)} (hconnect : connect dial shardReplicaAddrs = .ok shards)
    {shard : ConnectedShard C} (hshard : shard ∈ shards) (hsome : shard.addrs ≠ []) : shard.WellFormed := by
  obtain ⟨⟨addrs, s⟩, -, hbuilt⟩ := (Transducer.mapM_of_ok hconnect).2 shard hshard
  cases hclients : addrs.zipIdx.mapM fun (addr, idx) => connectWithRetry addr (dial s idx) with
  | error e =>
    simp only [hclients] at hbuilt
    cases hbuilt
  | ok clients =>
    simp only [hclients] at hbuilt
    cases hbuilt
    have hpaired : clients.length = addrs.length := by
      rw [(Transducer.mapM_of_ok hclients).1, List.length_zipIdx]
    exact ⟨hpaired, hpaired ▸ List.length_pos_iff.mpr hsome⟩

/-- The replica set that a connected shard is, its clients apart. -/
def WellFormed.replicaSet {shard : ConnectedShard C} (h : shard.WellFormed) : ShardReplicaSet :=
  ⟨shard.addrs, by have := h.hint_lt; have := h.paired; omega, shard.leaderHint⟩

/-- A well-formed shard goes on where the replica set of its addresses does. -/
theorem WellFormed.nextIdx_eq {shard : ConnectedShard C} (h : shard.WellFormed) {replicas : ShardReplicaSet}
    (haddrs : replicas.addrs = shard.addrs) (idx : ℕ) (outcome : AttemptOutcome R) :
    shard.nextIdx idx outcome = outcome.nextIdx replicas idx := by
  cases outcome <;> simp only [nextIdx, AttemptOutcome.nextIdx, ShardReplicaSet.replicaCount, haddrs, h.paired]

/-- Every next index is one of the clients. -/
theorem WellFormed.nextIdx_lt {shard : ConnectedShard C} (h : shard.WellFormed) (idx : ℕ)
    (outcome : AttemptOutcome R) : shard.nextIdx idx outcome < shard.clients.length := by
  have haddrs : h.replicaSet.addrs = shard.addrs := rfl
  rw [h.nextIdx_eq haddrs, h.paired]
  exact outcome.nextIdx_lt h.replicaSet idx

omit [CarriesLeaderHint R] in
/-- The guess may be moved to any of the clients. -/
theorem WellFormed.move {shard : ConnectedShard C} (h : shard.WellFormed) {idx : ℕ}
    (hidx : idx < shard.clients.length) : WellFormed { shard with leaderHint := idx } :=
  ⟨h.paired, hidx⟩

omit [CarriesLeaderHint R] in
/-- An attempt at one of the clients is sent. -/
theorem sendAttempt_of_lt {shard : ConnectedShard C} {idx : ℕ} (hidx : idx < shard.clients.length)
    (lastErr : Option RouterError) (left : ℕ) :
    shard.sendAttempt idx lastErr (left + 1) = (.awaiting shard.clients[idx] idx left lastErr : CallPhase C R) := by
  simp only [sendAttempt, List.getElem?_eq_getElem hidx]

omit [CarriesLeaderHint R] in
/-- A well-formed shard's call starts at the cached guess. -/
theorem WellFormed.beginCall_eq {shard : ConnectedShard C} (h : shard.WellFormed) :
    shard.beginCall = (shard.sendAttempt shard.leaderHint none maxLeaderAttempts : CallPhase C R) := by
  have hpos : shard.clients.length ≠ 0 := by
    have := h.hint_lt
    omega
  rw [beginCall, if_neg hpos, Nat.mod_eq_of_lt h.hint_lt]

omit [CarriesLeaderHint R] in
/-- Sending an attempt does not look at the guess. -/
theorem sendAttempt_move (shard : ConnectedShard C) (hint idx : ℕ) (lastErr : Option RouterError) (left : ℕ) :
    sendAttempt { shard with leaderHint := hint } idx lastErr left =
      (shard.sendAttempt idx lastErr left : CallPhase C R) := by
  cases left <;> rfl

/-- Without a deadline the pieces run as the retry loop does. -/
theorem WellFormed.runCall_eq_retryLoop {shard : ConnectedShard C} (h : shard.WellFormed)
    {replicas : ShardReplicaSet} (haddrs : replicas.addrs = shard.addrs) (attemptTimeout : ℕ)
    (attempt : ℕ → ℕ → S → AttemptOutcome R × S) {left fuel : ℕ} (hleft : left ≤ maxLeaderAttempts)
    (hfuel : left ≤ fuel) (spent : ℕ) (lastErr : Option RouterError) (state : S) :
    let loop := retryLoop replicas attempt left ⟨shard.leaderHint, lastErr, maxLeaderAttempts - left, state⟩
    runCall attemptTimeout none attempt fuel spent shard (shard.sendAttempt shard.leaderHint lastErr left) state =
      ({ shard with leaderHint := loop.2.idx }, .returned loop.1, loop.2.state) := by
  induction left generalizing shard fuel spent lastErr state with
  | zero => cases fuel <;> rfl
  | succ left ih =>
    obtain ⟨fuel, rfl⟩ : ∃ n, fuel = n + 1 := ⟨fuel - 1, by omega⟩
    have hleft' : left ≤ maxLeaderAttempts := by omega
    have hfuel' : left ≤ fuel := by omega
    have hmade : maxLeaderAttempts - (left + 1) + 1 = maxLeaderAttempts - left := by omega
    rw [sendAttempt_of_lt h.hint_lt]
    simp only [runCall, Option.all_none, if_true, attemptEnded, retryLoop]
    cases hserved : (attempt (maxLeaderAttempts - (left + 1)) shard.leaderHint state).1.served with
    | some response => cases fuel <;> rfl
    | none =>
      have hnext := h.nextIdx_lt shard.leaderHint
        (attempt (maxLeaderAttempts - (left + 1)) shard.leaderHint state).1
      have hrest := ih (h.move hnext) haddrs hleft' hfuel'
        (spent + (attempt (maxLeaderAttempts - (left + 1)) shard.leaderHint state).1.duration attemptTimeout)
        ((attempt (maxLeaderAttempts - (left + 1)) shard.leaderHint state).1.errorAfter lastErr)
        (attempt (maxLeaderAttempts - (left + 1)) shard.leaderHint state).2
      rw [sendAttempt_move] at hrest
      simp only [RetryState.advance, hmade, ← h.nextIdx_eq haddrs]
      exact hrest

/-- Run alone and to its end, a call returns what `callWithRetry` returns and leaves its guess. -/
theorem WellFormed.runCall_eq_callWithRetry {shard : ConnectedShard C} (h : shard.WellFormed) (attemptTimeout : ℕ)
    (attempt : ℕ → ℕ → S → AttemptOutcome R × S) (state : S) :
    runCall attemptTimeout none attempt maxLeaderAttempts 0 shard shard.beginCall state =
      ({ shard with leaderHint := (callWithRetry h.replicaSet attempt state).2.1.leaderHint },
        .returned (callWithRetry h.replicaSet attempt state).1, (callWithRetry h.replicaSet attempt state).2.2) := by
  have hfirst : h.replicaSet.leaderHint % h.replicaSet.replicaCount = shard.leaderHint := by
    change shard.leaderHint % shard.addrs.length = _
    rw [← h.paired, Nat.mod_eq_of_lt h.hint_lt]
  have haddrs : h.replicaSet.addrs = shard.addrs := rfl
  rw [h.beginCall_eq, h.runCall_eq_retryLoop haddrs attemptTimeout attempt le_rfl le_rfl 0 none state]
  simp only [callWithRetry, RetryState.first, hfirst, Nat.sub_self]

end ConnectedShard

end RaftVec
