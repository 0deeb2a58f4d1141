import RaftVec.Aggregator.Retry
import RaftVec.Library.Run

/-!
# When the retry loop reaches a live leader

A redirect jumps to the replica it names and a failure steps to the next one, so the loop
walks from replica to replica along what they reply. With one attempt more than replicas
it cannot avoid a leader that answers, unless the replies of the others lead in a circle:
a follower that still names a dead leader, and the dead leader's timeout that steps back
to the follower, use up all four attempts.
-/

namespace RaftVec

open Relation

variable {R S : Type*} [CarriesLeaderHint R]

/-- Every next index is one of the shard's replicas. -/
theorem AttemptOutcome.nextIdx_lt (shard : ShardReplicaSet) (idx : ℕ) (outcome : AttemptOutcome R) :
    outcome.nextIdx shard idx < shard.replicaCount := by
  have hstep : (idx + 1) % shard.replicaCount < shard.replicaCount := Nat.mod_lt _ shard.addrs_pos
  cases outcome with
  | refused status => exact hstep
  | elapsed => exact hstep
  | answered response =>
    simp only [nextIdx]
    cases hfound : shard.addrs.findIdx? fun addr => addr = CarriesLeaderHint.leaderHint response with
    | none => exact hstep
    | some found =>
      obtain ⟨hlt, -⟩ := List.findIdx?_eq_some_iff_getElem.mp hfound
      exact hlt

namespace ShardReplicaSet

/-- The leader answers every request, and every other replica only as it is allowed to. -/
structure Conforms (shard : ShardReplicaSet) (leader : ℕ) (allowed : ℕ → Set (AttemptOutcome R))
    (attempt : ℕ → ℕ → S → AttemptOutcome R × S) : Prop where
  served : ∀ n state, ∃ response, (attempt n leader state).1.served = some response
  others : ∀ n idx state, idx < shard.replicaCount → idx ≠ leader → (attempt n idx state).1 ∈ allowed idx

/-- A reply the replica is allowed sends the loop from it to another that does not lead. -/
def Sends (shard : ShardReplicaSet) (leader : ℕ) (allowed : ℕ → Set (AttemptOutcome R)) (idx next : ℕ) : Prop :=
  idx ≠ leader ∧ next ≠ leader ∧
    ∃ outcome ∈ allowed idx, outcome.served = none ∧ outcome.nextIdx shard idx = next

variable {shard : ShardReplicaSet} {leader : ℕ} {allowed : ℕ → Set (AttemptOutcome R)}

/-- A loop that fails has walked past the leader with each of its attempts. -/
theorem exists_walk_of_error {attempt : ℕ → ℕ → S → AttemptOutcome R × S}
    (hattempt : shard.Conforms leader allowed attempt) {left : ℕ} {current : RetryState S}
    (hidx : current.idx < shard.replicaCount) {e : RouterError}
    (h : (retryLoop shard attempt left current).1 = .error e) :
    ∃ walk : List ℕ, walk.length = left ∧ walk.IsChain (shard.Sends leader allowed) ∧
      (∀ idx ∈ walk, idx < shard.replicaCount ∧ idx ≠ leader) ∧ ∀ idx ∈ walk.head?, idx = current.idx := by
  induction left generalizing current with
  | zero => exact ⟨[], rfl, .nil, by simp, by simp⟩
  | succ left ih =>
    simp only [retryLoop] at h
    cases hserved : (attempt current.made current.idx current.state).1.served with
    | some response =>
      rw [hserved] at h
      cases h
    | none =>
      rw [hserved] at h
      have hother : current.idx ≠ leader := by
        intro heq
        obtain ⟨response, hresponse⟩ := hattempt.served current.made current.state
        rw [heq, hresponse] at hserved
        cases hserved
      obtain ⟨walk, hlength, hchain, hmem, hhead⟩ := ih (AttemptOutcome.nextIdx_lt shard current.idx _) h
      refine ⟨current.idx :: walk, by rw [List.length_cons, hlength], hchain.cons ?_, ?_, by simp⟩
      · intro next hnext
        exact ⟨hother, (hmem next (List.mem_of_mem_head? hnext)).2, _,
          hattempt.others _ _ _ hidx hother, hserved, (hhead next hnext).symm⟩
      · intro idx hmemIdx
        rcases List.mem_cons.mp hmemIdx with rfl | hlater
        · exact ⟨hidx, hother⟩
        · exact hmem idx hlater

/-- A loop that stays where no attempt is served fails. -/
theorem retryLoop_error_of_stays {attempt : ℕ → ℕ → S → AttemptOutcome R × S} {Stays : ℕ → Prop}
    (hstays : ∀ n idx state, Stays idx → (attempt n idx state).1.served = none ∧
      Stays ((attempt n idx state).1.nextIdx shard idx)) {left : ℕ} {current : RetryState S}
    (h : Stays current.idx) : ∃ e, (retryLoop shard attempt left current).1 = .error e := by
  induction left generalizing current with
  | zero => exact ⟨_, rfl⟩
  | succ left ih =>
    obtain ⟨hserved, hnext⟩ := hstays current.made current.idx current.state h
    simp only [retryLoop, hserved]
    exact ih hnext

/-- Replicas whose replies can lead in a circle may all the time lead in that circle. -/
theorem exists_conforming_circle (hallowed : ∀ idx < shard.replicaCount, idx ≠ leader → (allowed idx).Nonempty)
    {answer : R} (hanswer : CarriesLeaderHint.leaderHint answer = "") :
    ∃ reply : ℕ → AttemptOutcome R,
      shard.Conforms leader allowed (fun _ idx (state : S) => (reply idx, state)) ∧
        ∀ idx, TransGen (shard.Sends leader allowed) idx idx → (reply idx).served = none ∧
          TransGen (shard.Sends leader allowed) ((reply idx).nextIdx shard idx) ((reply idx).nextIdx shard idx) := by
  have hreply : ∀ idx, ∃ outcome : AttemptOutcome R,
      (idx = leader → outcome.served = some answer) ∧
      (idx < shard.replicaCount → idx ≠ leader → outcome ∈ allowed idx) ∧
      (TransGen (shard.Sends leader allowed) idx idx → outcome.served = none ∧
        TransGen (shard.Sends leader allowed) (outcome.nextIdx shard idx) (outcome.nextIdx shard idx)) := by
    intro idx
    by_cases hcircle : TransGen (shard.Sends leader allowed) idx idx
    · obtain ⟨next, ⟨hother, -, outcome, hmem, hserved, rfl⟩, hnext⟩ := Walk.exists_next_of_circle hcircle
      exact ⟨outcome, fun heq => absurd heq hother, fun _ _ => hmem, fun _ => ⟨hserved, hnext⟩⟩
    · by_cases hleads : idx < shard.replicaCount ∧ idx ≠ leader
      · obtain ⟨outcome, hmem⟩ := hallowed idx hleads.1 hleads.2
        exact ⟨outcome, fun heq => absurd heq hleads.2, fun _ _ => hmem, fun h => absurd h hcircle⟩
      · exact ⟨.answered answer, fun _ => if_pos hanswer, fun hlt hne => absurd ⟨hlt, hne⟩ hleads,
          fun h => absurd h hcircle⟩
  choose reply hleader hothers hcircle using hreply
  exact ⟨reply, ⟨fun _ _ => ⟨answer, hleader leader rfl⟩, fun _ idx _ => hothers idx⟩, hcircle⟩

/-- A call that starts in a circle of replies past the leader may fail. -/
theorem exists_error_of_circle (hallowed : ∀ idx < shard.replicaCount, idx ≠ leader → (allowed idx).Nonempty)
    {answer : R} (hanswer : CarriesLeaderHint.leaderHint answer = "") (state : S) {idx : ℕ}
    (hidx : TransGen (shard.Sends leader allowed) idx idx) :
    ∃ attempt : ℕ → ℕ → S → AttemptOutcome R × S, shard.Conforms leader allowed attempt ∧
      ∃ e, (callWithRetry { shard with leaderHint := idx } attempt state).1 = .error e := by
  obtain ⟨reply, hconforms, hcircle⟩ := exists_conforming_circle (S := S) hallowed hanswer
  have hlt : idx < shard.replicaCount := by
    obtain ⟨prior, -, -, -, outcome, -, -, rfl⟩ := TransGen.tail'_iff.mp hidx
    exact outcome.nextIdx_lt shard prior
  have hfirst : (RetryState.first { shard with leaderHint := idx } state).idx = idx := Nat.mod_eq_of_lt hlt
  have hstart : TransGen (shard.Sends leader allowed)
      (RetryState.first { shard with leaderHint := idx } state).idx
      (RetryState.first { shard with leaderHint := idx } state).idx := by
    rw [hfirst]
    exact hidx
  exact ⟨_, hconforms, retryLoop_error_of_stays (fun _ idx _ hstays => hcircle idx hstays) hstart⟩

/-- A call with more attempts than other replicas fails only in a circle of replies. -/
theorem exists_circle_of_error (hattempts : shard.replicaCount + 1 ≤ maxLeaderAttempts)
    (hleader : leader < shard.replicaCount) {hint : ℕ} {attempt : ℕ → ℕ → S → AttemptOutcome R × S} {state : S}
    (hconforms : shard.Conforms leader allowed attempt) {e : RouterError}
    (hcall : (callWithRetry { shard with leaderHint := hint } attempt state).1 = .error e) :
    ∃ idx, TransGen (shard.Sends leader allowed) idx idx := by
  have hstart : (RetryState.first { shard with leaderHint := hint } state).idx < shard.replicaCount :=
    Nat.mod_lt _ shard.addrs_pos
  obtain ⟨walk, hlength, hchain, hmem, -⟩ := exists_walk_of_error
    (⟨hconforms.served, hconforms.others⟩ : Conforms { shard with leaderHint := hint } leader allowed attempt)
    hstart hcall
  have hplaces : ∀ idx ∈ walk, idx ∈ (Finset.range shard.replicaCount).erase leader := fun idx hidx =>
    Finset.mem_erase.mpr ⟨(hmem idx hidx).2, Finset.mem_range.mpr (hmem idx hidx).1⟩
  refine Walk.exists_circle_of_long hchain hplaces ?_
  rw [Finset.card_erase_of_mem (Finset.mem_range.mpr hleader), Finset.card_range, hlength]
  omega

/-- With one attempt more than replicas, the leader is reached from every cached guess and
whatever the others reply exactly when their replies cannot lead in a circle past it. -/
theorem leader_reached_iff (hattempts : shard.replicaCount + 1 ≤ maxLeaderAttempts)
    (hleader : leader < shard.replicaCount)
    (hallowed : ∀ idx < shard.replicaCount, idx ≠ leader → (allowed idx).Nonempty) {answer : R}
    (hanswer : CarriesLeaderHint.leaderHint answer = "") (state : S) :
    (∀ hint (attempt : ℕ → ℕ → S → AttemptOutcome R × S), shard.Conforms leader allowed attempt →
      ∃ response, (callWithRetry { shard with leaderHint := hint } attempt state).1 = .ok response) ↔
      ¬∃ idx, TransGen (shard.Sends leader allowed) idx idx := by
  constructor
  · rintro hreached ⟨idx, hidx⟩
    obtain ⟨attempt, hconforms, e, he⟩ := exists_error_of_circle hallowed hanswer state hidx
    obtain ⟨response, hresponse⟩ := hreached idx attempt hconforms
    cases hresponse.symm.trans he
  · intro hnone hint attempt hconforms
    cases hcall : (callWithRetry { shard with leaderHint := hint } attempt state).1 with
    | ok response => exact ⟨response, rfl⟩
    | error e => exact absurd (exists_circle_of_error hattempts hleader hconforms hcall) hnone

/-- Of two replicas one hangs, and the loop reaches the other from the one that hangs. -/
theorem leader_reached_past_hanging :
    ∃ response, (callWithRetry ⟨["http://a", "http://b"], by decide, 0⟩
      (fun _ idx (_ : Unit) => (if idx = 1 then .answered (⟨3, ""⟩ : InsertResponse) else .elapsed, ())) ()).1 =
        .ok response := by
  let shard : ShardReplicaSet := ⟨["http://a", "http://b"], by decide, 0⟩
  let allowed : ℕ → Set (AttemptOutcome InsertResponse) := fun _ => {.elapsed}
  have hnone : ¬∃ idx, TransGen (shard.Sends 1 allowed) idx idx := by
    rintro ⟨idx, hidx⟩
    obtain ⟨prior, -, hprior, hother, outcome, houtcome, -, hnext⟩ := TransGen.tail'_iff.mp hidx
    obtain ⟨next, ⟨-, hnextOther, outcome', houtcome', -, hnext'⟩, -⟩ := TransGen.head'_iff.mp hidx
    cases houtcome
    cases houtcome'
    change (prior + 1) % 2 = idx at hnext
    change (idx + 1) % 2 = next at hnext'
    omega
  have hallowed : ∀ idx < shard.replicaCount, idx ≠ 1 → (allowed idx).Nonempty := fun _ _ _ => ⟨.elapsed, rfl⟩
  have hanswer : CarriesLeaderHint.leaderHint (⟨0, ""⟩ : InsertResponse) = "" := rfl
  exact (leader_reached_iff (by decide) (by decide) hallowed hanswer ()).mpr hnone 0 _
    ⟨fun _ _ => ⟨_, rfl⟩, fun _ _ _ _ hidx => if_neg hidx⟩

/-- A follower that redirects to a dead leader keeps the loop from the live one. -/
theorem leader_missed_in_circle :
    let shard : ShardReplicaSet := ⟨["http://a", "http://b", "http://c"], by decide, 1⟩
    let attempt : ℕ → ℕ → Unit → AttemptOutcome InsertResponse × Unit := fun _ idx _ =>
      (if idx = 0 then .answered ⟨3, ""⟩ else if idx = 1 then .elapsed else .answered ⟨0, "http://b"⟩, ())
    shard.replicaCount + 1 ≤ maxLeaderAttempts ∧ (∀ n, (attempt n 0 ()).1.served = some ⟨3, ""⟩) ∧
      (callWithRetry shard attempt ()).1 = .error .shardUnreachable :=
  ⟨by decide, fun _ => rfl, rfl⟩

end ShardReplicaSet

end RaftVec
