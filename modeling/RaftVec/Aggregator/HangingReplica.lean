import RaftVec.Aggregator.RetrySteps

/-!
# Searches that start at a replica that hangs

The guess moves only when an attempt has ended, and an attempt at a replica that hangs
ends after `READ_ATTEMPT_TIMEOUT`. A search whose own deadline is used up by then is
dropped before the guess moves, and so is every later one: nothing compares the deadline
of the command line with the time of an attempt. With a longer deadline the first search
finds the leader and leaves the guess there.
-/

namespace RaftVec

namespace ConnectedShard

variable {C R : Type*} [CarriesLeaderHint R]

/-- One shard's part of a search: read attempts until the router's deadline. -/
def searchShard (deadline : ℕ) (replies : ℕ → ℕ → AttemptOutcome R) (shard : ConnectedShard C) :
    ConnectedShard C × CallPhase C R :=
  let final := runCall readAttemptTimeout (some deadline) (fun n idx (_ : Unit) => (replies n idx, ()))
    maxLeaderAttempts 0 shard shard.beginCall ()
  (final.1, final.2.1)

/-- The shard after some searches, one after the other. -/
def afterSearches (deadline : ℕ) (replies : ℕ → ℕ → ℕ → AttemptOutcome R) (shard : ConnectedShard C) :
    ℕ → ConnectedShard C
  | 0 => shard
  | count + 1 => (searchShard deadline (replies count) (afterSearches deadline replies shard count)).1

/-- One replica hangs, one answers as leader, and the others redirect to it. -/
structure Hangs (addrs : List String) (hanging leader : ℕ) (replies : ℕ → ℕ → AttemptOutcome R) : Prop where
  hangs : ∀ n, replies n hanging = .elapsed
  leads : ∀ n, ∃ response, (replies n leader).served = some response
  redirects : ∀ n idx, idx < addrs.length → idx ≠ hanging → idx ≠ leader →
    ∃ response, replies n idx = .answered response ∧ CarriesLeaderHint.leaderHint response ≠ "" ∧
      (addrs.findIdx? fun addr => addr = CarriesLeaderHint.leaderHint response) = some leader

variable (shard : ConnectedShard C) {hanging leader deadline spent : ℕ} {replies : ℕ → ℕ → AttemptOutcome R}

/-- The leader is not the replica that hangs. -/
theorem Hangs.leader_ne {addrs : List String} (h : Hangs addrs hanging leader replies) : leader ≠ hanging := by
  rintro rfl
  obtain ⟨response, hresponse⟩ := h.leads 0
  rw [h.hangs 0] at hresponse
  cases hresponse

/-- An answer takes no time. -/
theorem duration_of_served {outcome : AttemptOutcome R} {response : R} (h : outcome.served = some response)
    (attemptTimeout : ℕ) : outcome.duration attemptTimeout = 0 := by
  cases outcome with
  | answered answer => rfl
  | refused status => cases h
  | elapsed => cases h

/-- An attempt that ends in time lets the call go on. -/
theorem runCall_in_time {idx left fuel : ℕ} (hidx : idx < shard.clients.length)
    (htime : spent + (replies (maxLeaderAttempts - (left + 1)) idx).duration readAttemptTimeout < deadline)
    (lastErr : Option RouterError) :
    let outcome := replies (maxLeaderAttempts - (left + 1)) idx
    runCall readAttemptTimeout (some deadline) (fun n idx (_ : Unit) => (replies n idx, ())) (fuel + 1) spent shard
        (shard.sendAttempt idx lastErr (left + 1)) () =
      runCall readAttemptTimeout (some deadline) (fun n idx (_ : Unit) => (replies n idx, ())) fuel
        (spent + outcome.duration readAttemptTimeout) (shard.attemptEnded idx left lastErr outcome).1
        (shard.attemptEnded idx left lastErr outcome).2 () := by
  rw [sendAttempt_of_lt hidx]
  simp only [runCall, Option.all_some, decide_eq_true htime, if_true]

/-- At the leader the call is answered and the guess stays there. -/
theorem Hangs.runCall_leader (h : Hangs shard.addrs hanging leader replies) (hleader : leader < shard.clients.length)
    (htime : spent < deadline) (fuel left : ℕ) (lastErr : Option RouterError) :
    (runCall readAttemptTimeout (some deadline) (fun n idx (_ : Unit) => (replies n idx, ())) (fuel + 1) spent shard
      (shard.sendAttempt leader lastErr (left + 1)) ()).1 = { shard with leaderHint := leader } := by
  obtain ⟨response, hresponse⟩ := h.leads (maxLeaderAttempts - (left + 1))
  have hduration := duration_of_served hresponse readAttemptTimeout
  rw [runCall_in_time shard hleader (by rw [hduration]; exact htime)]
  simp only [attemptEnded, hresponse]
  cases fuel <;> rfl

/-- At any other replica but the one that hangs, the call finds the leader in two attempts. -/
theorem Hangs.runCall_other (h : Hangs shard.addrs hanging leader replies)
    (hpaired : shard.clients.length = shard.addrs.length) (hleader : leader < shard.clients.length) {idx : ℕ}
    (hidx : idx < shard.clients.length) (hother : idx ≠ hanging) (htime : spent < deadline) (fuel left : ℕ)
    (lastErr : Option RouterError) :
    (runCall readAttemptTimeout (some deadline) (fun n idx (_ : Unit) => (replies n idx, ())) (fuel + 2) spent shard
      (shard.sendAttempt idx lastErr (left + 2)) ()).1 = { shard with leaderHint := leader } := by
  by_cases hleads : idx = leader
  · subst hleads
    exact h.runCall_leader shard hleader htime (fuel + 1) (left + 1) lastErr
  · obtain ⟨response, hreply, hhint, hfound⟩ :=
      h.redirects (maxLeaderAttempts - (left + 1 + 1)) idx (hpaired ▸ hidx) hother hleads
    rw [runCall_in_time shard hidx (by rw [hreply]; exact htime), hreply]
    have hended : shard.attemptEnded idx (left + 1) lastErr (.answered response) =
        ({ shard with leaderHint := leader }, shard.sendAttempt leader lastErr (left + 1)) := by
      simp only [attemptEnded, AttemptOutcome.served, if_neg hhint, nextIdx, hfound, Option.getD_some,
        AttemptOutcome.errorAfter]
    rw [hended, ← sendAttempt_move shard leader]
    exact Hangs.runCall_leader { shard with leaderHint := leader } h hleader htime fuel left lastErr

/-- A search that starts at the leader stays there. -/
theorem Hangs.searchShard_leader (h : Hangs shard.addrs hanging leader replies) (hshard : shard.WellFormed)
    (hhint : shard.leaderHint = leader) (hdeadline : 1 ≤ deadline) :
    (searchShard deadline replies shard).1 = { shard with leaderHint := leader } := by
  subst hhint
  simp only [searchShard, hshard.beginCall_eq]
  exact h.runCall_leader shard hshard.hint_lt hdeadline 3 3 none

/-- A search that has time left after the attempt that hangs moves the guess to the leader. -/
theorem Hangs.searchShard_hanging (h : Hangs shard.addrs hanging leader replies) (hshard : shard.WellFormed)
    (hhint : shard.leaderHint = hanging) (hleader : leader < shard.clients.length)
    (hdeadline : readAttemptTimeout < deadline) :
    (searchShard deadline replies shard).1 = { shard with leaderHint := leader } := by
  subst hhint
  have hhangs : replies (maxLeaderAttempts - (3 + 1)) shard.leaderHint = .elapsed := h.hangs _
  have hdistinct := h.leader_ne
  have hlt := hshard.hint_lt
  have hnext : (shard.leaderHint + 1) % shard.clients.length ≠ shard.leaderHint := by
    by_cases hlast : shard.leaderHint + 1 = shard.clients.length
    · rw [hlast, Nat.mod_self]
      omega
    · rw [Nat.mod_eq_of_lt (by omega)]
      omega
  have hnext_lt : (shard.leaderHint + 1) % shard.clients.length < shard.clients.length :=
    Nat.mod_lt _ (Nat.zero_lt_of_lt hlt)
  have htime : 0 + readAttemptTimeout < deadline := by omega
  simp only [searchShard, hshard.beginCall_eq]
  change (runCall readAttemptTimeout (some deadline) _ (3 + 1) 0 shard
    (shard.sendAttempt shard.leaderHint none (3 + 1)) ()).1 = _
  rw [runCall_in_time shard hlt (by rw [hhangs]; exact htime), hhangs]
  have hended : shard.attemptEnded shard.leaderHint 3 none (.elapsed : AttemptOutcome R) =
      ({ shard with leaderHint := (shard.leaderHint + 1) % shard.clients.length },
        sendAttempt { shard with leaderHint := (shard.leaderHint + 1) % shard.clients.length }
          ((shard.leaderHint + 1) % shard.clients.length) (some .shardUnreachable) 3) := rfl
  rw [hended]
  exact Hangs.runCall_other { shard with leaderHint := (shard.leaderHint + 1) % shard.clients.length } h
    hshard.paired hleader hnext_lt hnext htime 1 1 (some .shardUnreachable)

/-- A search whose deadline is used up by the attempt that hangs is dropped with the guess unmoved. -/
theorem Hangs.searchShard_cancelled (h : Hangs shard.addrs hanging leader replies) (hshard : shard.WellFormed)
    (hhint : shard.leaderHint = hanging) (hdeadline : deadline ≤ readAttemptTimeout) :
    searchShard deadline replies shard = (shard, .cancelled) := by
  subst hhint
  have hhangs : replies (maxLeaderAttempts - (3 + 1)) shard.leaderHint = .elapsed := h.hangs _
  have hspent : ¬0 + readAttemptTimeout < deadline := by omega
  simp only [searchShard, hshard.beginCall_eq, maxLeaderAttempts] at hhangs ⊢
  rw [sendAttempt_of_lt hshard.hint_lt]
  simp only [runCall, maxLeaderAttempts, hhangs, AttemptOutcome.duration, Option.all_some, decide_eq_false hspent,
    Bool.false_eq_true, if_false]

/-- However many searches have run, the guess has left the replica that hangs exactly when
a search outlasts one read attempt. -/
theorem hint_leaves_hanging_iff {shard : ConnectedShard C} (hshard : shard.WellFormed) {hanging leader deadline : ℕ}
    (hhint : shard.leaderHint = hanging) (hleader : leader < shard.clients.length) (hdeadline : 1 ≤ deadline)
    {replies : ℕ → ℕ → ℕ → AttemptOutcome R} (h : ∀ count, Hangs shard.addrs hanging leader (replies count))
    (count : ℕ) :
    (afterSearches deadline replies shard (count + 1)).leaderHint ≠ hanging ↔ readAttemptTimeout < deadline := by
  constructor
  · intro hmoved
    by_contra hshort
    have hstuck : ∀ count, afterSearches deadline replies shard count = shard := by
      intro count
      induction count with
      | zero => rfl
      | succ count ih =>
        simp only [afterSearches, ih, (h count).searchShard_cancelled shard hshard hhint (Nat.not_lt.mp hshort)]
    rw [hstuck] at hmoved
    exact hmoved hhint
  · intro hlong
    have hfound : ∀ count,
        afterSearches deadline replies shard (count + 1) = { shard with leaderHint := leader } := by
      intro count
      induction count with
      | zero => exact (h 0).searchShard_hanging shard hshard hhint hleader hlong
      | succ count ih =>
        rw [afterSearches, ih]
        exact Hangs.searchShard_leader { shard with leaderHint := leader } (h (count + 1))
          (hshard.move hleader) rfl hdeadline
    rw [hfound]
    exact (h 0).leader_ne

/-- Two seconds are enough to leave the first of two replicas behind for good. -/
theorem hint_leaves_hanging_default_deadline :
    let replies : ℕ → ℕ → ℕ → AttemptOutcome (SearchResponse ℤ) := fun _ _ idx =>
      if idx = 0 then .elapsed else .answered ⟨[], 1, 0, ""⟩
    (afterSearches 2000 replies ⟨[10, 11], ["http://a", "http://b"], 0⟩ 3).leaderHint ≠ 0 := by
  intro replies
  have hhangs : ∀ count, Hangs ["http://a", "http://b"] 0 1 (replies count) := fun count =>
    { hangs := fun _ => rfl
      leads := fun _ => ⟨_, rfl⟩
      redirects := fun _ idx hidx hfirst hsecond => by
        rw [List.length_cons, List.length_singleton] at hidx
        omega }
  exact (hint_leaves_hanging_iff ⟨rfl, by decide⟩ rfl (by decide) (by decide) hhangs 2).mpr (by decide)

/-- With a deadline of 300 milliseconds every search starts at the replica that hangs. -/
theorem hint_captured_short_deadline :
    let replies : ℕ → ℕ → ℕ → AttemptOutcome (SearchResponse ℤ) := fun _ _ idx =>
      if idx = 0 then .elapsed else .answered ⟨[], 1, 0, ""⟩
    let shard : ConnectedShard ℕ := ⟨[10, 11], ["http://a", "http://b"], 0⟩
    ∀ count, (afterSearches 300 replies shard count).leaderHint = 0 ∧
      searchShard 300 (replies count) (afterSearches 300 replies shard count) = (shard, .cancelled) := by
  intro replies shard count
  have hsearch : ∀ count, searchShard 300 (replies count) shard = (shard, .cancelled) := fun _ => rfl
  have hstuck : afterSearches 300 replies shard count = shard := by
    induction count with
    | zero => rfl
    | succ count ih => rw [afterSearches, ih, hsearch count]
  rw [hstuck]
  exact ⟨rfl, hsearch count⟩

end ConnectedShard

end RaftVec
