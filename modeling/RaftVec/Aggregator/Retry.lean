import RaftVec.Node.Service

/-!
# Finding a shard's leader by retrying

`call_with_retry` starts at the cached guess, follows the hint of a replica that is not
the leader, and goes on to the next replica after an error or a timeout, four attempts in
all. The cache ends at the replica that answered, or at the one to try next.

What an attempt meets is a function of its number, the replica tried and the state behind
the replicas, so the loop is proved about for every behaviour of the network, with one
exception: a request takes effect during its own attempt or never. One that a replica serves
after the attempt was given up is not represented here; runs of a `Cluster` have it.
-/

namespace RaftVec

/-- Why a routed call failed. -/
inductive RouterError where
  | connect (addr source : String)
  | rpc (status : Status)
  | shardUnreachable
deriving DecidableEq

/-- A response that may point to the leader instead of answering. -/
class CarriesLeaderHint (R : Type*) where
  leaderHint : R → String

instance : CarriesLeaderHint InsertResponse := ⟨InsertResponse.leaderHint⟩

instance : CarriesLeaderHint DeleteResponse := ⟨DeleteResponse.leaderHint⟩

instance (F : Type*) : CarriesLeaderHint (SearchResponse F) := ⟨SearchResponse.leaderHint⟩

/-- One shard's replica addresses and the cached guess at its leader. -/
structure ShardReplicaSet where
  addrs : List String
  addrs_pos : 0 < addrs.length
  leaderHint : ℕ

/-- How many replicas the shard has. -/
def ShardReplicaSet.replicaCount (self : ShardReplicaSet) : ℕ := self.addrs.length

/-- One attempt per replica plus one extra. -/
def maxLeaderAttempts : ℕ := 4

/-- What came of one time-bounded attempt. -/
inductive AttemptOutcome (R : Type*) where
  | answered (response : R)
  | refused (status : Status)
  | elapsed

/-- What the caller gets when the reply arrives in time. -/
def AttemptOutcome.ofResult {R : Type*} : Except Status R → AttemptOutcome R
  | .ok response => .answered response
  | .error status => .refused status

/-- What the network does to one attempt whose handler depends on an `A` from the runtime. A
request that takes effect after its caller gave the attempt up is not among these. -/
inductive AttemptFate (A : Type*) where
  | reached (answer : A) (replyLost : Bool)
  | disconnected (status : Status)
  | hung

/-- Run one attempt: the handler may have run although its reply never came. -/
def runAttempt {A R S : Type*} (fate : AttemptFate A) (handler : A → S → Except Status R × S)
    (state : S) : AttemptOutcome R × S :=
  match fate with
  | .disconnected status => (.refused status, state)
  | .hung => (.elapsed, state)
  | .reached answer replyLost =>
    let result := handler answer state
    (if replyLost then .elapsed else .ofResult result.1, result.2)

/-- The loop's variables before an attempt. -/
structure RetryState (S : Type*) where
  idx : ℕ
  lastErr : Option RouterError
  made : ℕ
  state : S

variable {R S : Type*} [CarriesLeaderHint R]

/-- The answer, if this was one. -/
def AttemptOutcome.served : AttemptOutcome R → Option R
  | .answered response => if CarriesLeaderHint.leaderHint response = "" then some response else none
  | _ => none

/-- Where to go after an attempt that was not answered: the hinted replica or the next one. -/
def AttemptOutcome.nextIdx (shard : ShardReplicaSet) (idx : ℕ) : AttemptOutcome R → ℕ
  | .answered response =>
    (shard.addrs.findIdx? fun addr => addr = CarriesLeaderHint.leaderHint response).getD
      ((idx + 1) % shard.replicaCount)
  | _ => (idx + 1) % shard.replicaCount

omit [CarriesLeaderHint R] in
/-- The error to report if no later attempt is answered. -/
def AttemptOutcome.errorAfter (lastErr : Option RouterError) : AttemptOutcome R → Option RouterError
  | .answered _ => lastErr
  | .refused status => some (.rpc status)
  | .elapsed => some .shardUnreachable

/-- Go on after an attempt that was not answered. -/
def RetryState.advance (shard : ShardReplicaSet) (self : RetryState S) (made : AttemptOutcome R × S) :
    RetryState S :=
  ⟨made.1.nextIdx shard self.idx, made.1.errorAfter self.lastErr, self.made + 1, made.2⟩

/-- Try until an attempt is answered or none is left. -/
def retryLoop (shard : ShardReplicaSet) (attempt : ℕ → ℕ → S → AttemptOutcome R × S) :
    ℕ → RetryState S → Except RouterError R × RetryState S
  | 0, current => (.error (current.lastErr.getD .shardUnreachable), current)
  | left + 1, current =>
    let made := attempt current.made current.idx current.state
    match made.1.served with
    | some response => (.ok response, { current with state := made.2 })
    | none => retryLoop shard attempt left (current.advance shard made)

/-- The loop's variables before the attempt that is answered. -/
def servingState (shard : ShardReplicaSet) (attempt : ℕ → ℕ → S → AttemptOutcome R × S) :
    ℕ → RetryState S → Option (RetryState S)
  | 0, _ => none
  | left + 1, current =>
    let made := attempt current.made current.idx current.state
    match made.1.served with
    | some _ => some current
    | none => servingState shard attempt left (current.advance shard made)

/-- The loop's variables before the first attempt. -/
def RetryState.first (shard : ShardReplicaSet) (state : S) : RetryState S :=
  ⟨shard.leaderHint % shard.replicaCount, none, 0, state⟩

/-- Call a shard, leaving the cache where the loop ended. -/
def callWithRetry (shard : ShardReplicaSet) (attempt : ℕ → ℕ → S → AttemptOutcome R × S) (state : S) :
    Except RouterError R × ShardReplicaSet × S :=
  let final := retryLoop shard attempt maxLeaderAttempts (.first shard state)
  (final.1, { shard with leaderHint := final.2.idx }, final.2.state)

/-- An answered loop ends with the answer of the attempt made in its serving state. -/
theorem retryLoop_of_ok {shard : ShardReplicaSet} {attempt : ℕ → ℕ → S → AttemptOutcome R × S}
    {left : ℕ} {current final : RetryState S} {response : R}
    (h : retryLoop shard attempt left current = (.ok response, final)) :
    ∃ serving, servingState shard attempt left current = some serving ∧
      (attempt serving.made serving.idx serving.state).1.served = some response ∧
      final = { serving with state := (attempt serving.made serving.idx serving.state).2 } := by
  induction left generalizing current with
  | zero => cases h
  | succ left ih =>
    simp only [retryLoop, servingState] at h ⊢
    cases hserved : (attempt current.made current.idx current.state).1.served with
    | some answer =>
      simp only [hserved, Prod.mk.injEq, Except.ok.injEq] at h
      obtain ⟨rfl, rfl⟩ := h
      exact ⟨current, rfl, hserved, rfl⟩
    | none =>
      simp only [hserved] at h
      exact ih h

/-- A loop whose first attempt is answered returns that answer. -/
theorem retryLoop_of_first {shard : ShardReplicaSet} {attempt : ℕ → ℕ → S → AttemptOutcome R × S}
    {left : ℕ} {current : RetryState S} {response : R}
    (h : (attempt current.made current.idx current.state).1.served = some response) :
    (retryLoop shard attempt (left + 1) current).1 = .ok response := by
  simp only [retryLoop, h]

/-- What every unanswered attempt keeps still holds when the answered one is made. -/
theorem servingState_invariant {shard : ShardReplicaSet} {attempt : ℕ → ℕ → S → AttemptOutcome R × S}
    {Inv : S → Prop} (hkeep : ∀ n idx state, Inv state → Inv (attempt n idx state).2) {left : ℕ}
    {current serving : RetryState S} (hcurrent : Inv current.state)
    (h : servingState shard attempt left current = some serving) : Inv serving.state := by
  induction left generalizing current with
  | zero => cases h
  | succ left ih =>
    simp only [servingState] at h
    cases hserved : (attempt current.made current.idx current.state).1.served with
    | some answer =>
      simp only [hserved, Option.some.injEq] at h
      subst h
      exact hcurrent
    | none =>
      simp only [hserved] at h
      exact ih (hkeep _ _ _ hcurrent) h

/-- Two loops whose attempts meet the same outcomes return the same and end in related states. -/
theorem retryLoop_simulates {T : Type*} {shard : ShardReplicaSet}
    {attempt : ℕ → ℕ → S → AttemptOutcome R × S} {probe : ℕ → ℕ → T → AttemptOutcome R × T} {Rel : S → T → Prop}
    (hstep : ∀ n idx s t, Rel s t → (attempt n idx s).1 = (probe n idx t).1 ∧
      Rel (attempt n idx s).2 (probe n idx t).2) (left idx made : ℕ) (lastErr : Option RouterError) {s : S} {t : T}
    (h : Rel s t) :
    (retryLoop shard attempt left ⟨idx, lastErr, made, s⟩).1 =
        (retryLoop shard probe left ⟨idx, lastErr, made, t⟩).1 ∧
      Rel (retryLoop shard attempt left ⟨idx, lastErr, made, s⟩).2.state
        (retryLoop shard probe left ⟨idx, lastErr, made, t⟩).2.state := by
  induction left generalizing idx made lastErr s t with
  | zero => exact ⟨rfl, h⟩
  | succ left ih =>
    obtain ⟨houtcome, hstate⟩ := hstep made idx s t h
    simp only [retryLoop, RetryState.advance, houtcome]
    cases hserved : (probe made idx t).1.served with
    | some response => exact ⟨rfl, hstate⟩
    | none => exact ih _ _ _ hstate

/-- An answer to a caller is a response without a hint whose reply was not lost. -/
theorem runAttempt_served {A : Type*} {fate : AttemptFate A} {handler : A → S → Except Status R × S}
    {state : S} {response : R} (h : (runAttempt fate handler state).1.served = some response) :
    ∃ answer, fate = .reached answer false ∧ (handler answer state).1 = .ok response ∧
      CarriesLeaderHint.leaderHint response = "" ∧
      (runAttempt fate handler state).2 = (handler answer state).2 := by
  cases fate with
  | disconnected status => cases h
  | hung => cases h
  | reached answer replyLost =>
    cases replyLost with
    | true => cases h
    | false =>
      cases hresult : (handler answer state).1 with
      | error status =>
        simp only [runAttempt, hresult, Bool.false_eq_true, if_false, AttemptOutcome.ofResult,
          AttemptOutcome.served] at h
        cases h
      | ok answered =>
        simp only [runAttempt, hresult, Bool.false_eq_true, if_false, AttemptOutcome.ofResult,
          AttemptOutcome.served, Option.ite_none_right_eq_some, Option.some.injEq] at h
        obtain ⟨hhint, rfl⟩ := h
        exact ⟨answer, rfl, hresult, hhint, rfl⟩

omit [CarriesLeaderHint R] in
/-- An attempt leaves the state alone or runs its handler on it. -/
theorem runAttempt_state {A : Type*} (fate : AttemptFate A) (handler : A → S → Except Status R × S)
    (state : S) :
    (runAttempt fate handler state).2 = state ∨
      ∃ answer replyLost, fate = .reached answer replyLost ∧
        (runAttempt fate handler state).2 = (handler answer state).2 := by
  cases fate with
  | disconnected status => exact Or.inl rfl
  | hung => exact Or.inl rfl
  | reached answer replyLost =>
    exact Or.inr ⟨answer, replyLost, rfl, rfl⟩

end RaftVec
