import RaftVec.Node.RequestInvariant

/-!
# What holds of all requests in flight together

Commands stand in the log once and belong to one request each. Requests are numbered in the
order in which they came in, and one that was answered before another came in lies before
everything that is committed later. Every permitted event takes at most one request on and
keeps this.
-/

namespace RaftVec

open Std Run Linearizability

namespace ConcurrentShard

variable {F : Type*} [FloatOps F] [LinearOrder F] {schedule : ScanSchedule (VectorRecord F × F)} {store : Store F}
  {shard : ConcurrentShard F}

/-- What holds of a shard at every moment of a run. -/
structure Valid (schedule : ScanSchedule (VectorRecord F × F)) (store : Store F) (shard : ConcurrentShard F) :
    Prop where
  replica : ∀ idx, (shard.group.replicas idx).Follows store shard.group.log
  request : ∀ (n : ℕ) r, shard.requests[n]? = some r → r.Valid schedule store shard.group.log shard.moment
  owned : ∀ (p : ℕ) logId cmd, shard.group.log[p]? = some ⟨logId, .normal cmd⟩ →
    ∃ (n : ℕ) (r : ShardRequest F), shard.requests[n]? = some r ∧ r.rpc.command = some cmd ∧ r.place = some p
  unique : ∀ (m n : ℕ) a b p, shard.requests[m]? = some a → shard.requests[n]? = some b →
    a.rpc.command ≠ none → b.rpc.command ≠ none → a.place = some p → b.place = some p → m = n
  began : ∀ (m n : ℕ) a b, m ≤ n → shard.requests[m]? = some a → shard.requests[n]? = some b → a.invoked ≤ b.invoked
  realTime : ∀ (m n : ℕ) a b t answer p, shard.requests[m]? = some a → shard.requests[n]? = some b →
    a.caller = .answered t answer → t < b.invoked → a.place = some p → a.key p ≤ 2 * b.committedBefore

/-- A committed write lies within the log. -/
theorem Valid.place_lt (h : shard.Valid schedule store) {m : ℕ} {r : ShardRequest F}
    (hr : shard.requests[m]? = some r) (hcmd : r.rpc.command ≠ none) {p : ℕ} (hp : r.place = some p) :
    p < shard.group.log.length := by
  obtain ⟨cmd, hcmd⟩ := Option.ne_none_iff_exists'.mp hcmd
  obtain ⟨logId, hentry⟩ := (h.request m r hr).written p cmd hp hcmd
  exact (List.getElem?_eq_some_iff.mp hentry).1

omit [FloatOps F] [LinearOrder F] in
/-- A modified request comes from the one that stood there. -/
theorem exists_of_modify {requests : List (ShardRequest F)} {n m : ℕ} {f : ShardRequest F → ShardRequest F}
    {r : ShardRequest F} (h : (requests.modify n f)[m]? = some r) :
    ∃ old, requests[m]? = some old ∧ r = if n = m then f old else old := by
  rw [List.getElem?_modify, Option.map_eq_map, Option.map_eq_some_iff] at h
  obtain ⟨old, hold, rfl⟩ := h
  exact ⟨old, hold, rfl⟩

omit [FloatOps F] [LinearOrder F] in
/-- When one request advances, every request does. -/
theorem exists_advances_of_modify {requests : List (ShardRequest F)} {n m moment : ℕ}
    {f : ShardRequest F → ShardRequest F} (hadvances : ∀ r, requests[n]? = some r → r.Advances moment (f r))
    {r : ShardRequest F} (h : (requests.modify n f)[m]? = some r) :
    ∃ old, requests[m]? = some old ∧ old.Advances moment r := by
  obtain ⟨old, hold, rfl⟩ := exists_of_modify h
  refine ⟨old, hold, ?_⟩
  split
  · next hm =>
    subst hm
    exact hadvances old hold
  · exact .refl moment old

omit [FloatOps F] [LinearOrder F] in
/-- A write's place is its old one, or the end of the log for the request that took the step. -/
theorem place_of_modify {shard : ConcurrentShard F} {n m p : ℕ} {f : ShardRequest F → ShardRequest F}
    (hadvances : ∀ r, shard.requests[n]? = some r → r.Advances shard.moment (f r))
    (hfresh : ∀ r p, shard.requests[n]? = some r → r.rpc.command ≠ none → (f r).place = some p →
      r.place = some p ∨ p = shard.group.log.length)
    {r : ShardRequest F} (hr : (shard.requests.modify n f)[m]? = some r) (hcmd : r.rpc.command ≠ none)
    (hp : r.place = some p) :
    ∃ old, shard.requests[m]? = some old ∧ old.rpc.command ≠ none ∧
      (old.place = some p ∨ n = m ∧ p = shard.group.log.length) := by
  obtain ⟨old, hold, hnew⟩ := exists_of_modify hr
  by_cases hm : n = m
  · subst hm
    rw [if_pos rfl] at hnew
    subst hnew
    rw [(hadvances old hold).rpc_eq] at hcmd
    exact ⟨old, hold, hcmd, (hfresh old p hold hcmd hp).imp_right fun hlen => ⟨rfl, hlen⟩⟩
  · rw [if_neg hm] at hnew
    subst hnew
    exact ⟨r, hold, hcmd, Or.inl hp⟩

/-- A step that takes one request on, and may commit an entry for it, keeps the shard valid. -/
theorem Valid.modify (h : shard.Valid schedule store) {group : ShardGroup F} {more : List (Entry F)}
    (hlog : group.log = shard.group.log ++ more)
    (hreplica : ∀ idx, (group.replicas idx).Follows store group.log) {n : ℕ} {f : ShardRequest F → ShardRequest F}
    (hadvances : ∀ r, shard.requests[n]? = some r → r.Advances shard.moment (f r))
    (hvalid : ∀ r, shard.requests[n]? = some r → (f r).Valid schedule store group.log (shard.moment + 1))
    (hfresh : ∀ r p, shard.requests[n]? = some r → r.rpc.command ≠ none → (f r).place = some p →
      r.place = some p ∨ p = shard.group.log.length)
    (howned : ∀ (p : ℕ) logId cmd, shard.group.log.length ≤ p → group.log[p]? = some ⟨logId, .normal cmd⟩ →
      ∃ r, shard.requests[n]? = some r ∧ r.rpc.command = some cmd ∧ (f r).place = some p) :
    (⟨group, shard.requests.modify n f, shard.moment + 1⟩ : ConcurrentShard F).Valid schedule store := by
  refine ⟨hreplica, ?_, ?_, ?_, ?_, ?_⟩
  · intro m r hr
    obtain ⟨old, hold, rfl⟩ := exists_of_modify hr
    split
    · next hm =>
      subst hm
      exact hvalid old hold
    · change old.Valid schedule store group.log (shard.moment + 1)
      rw [hlog]
      exact (h.request m old hold).later more
  · intro p logId cmd hentry
    by_cases hp : p < shard.group.log.length
    · change group.log[p]? = _ at hentry
      rw [hlog, List.getElem?_append_left hp] at hentry
      obtain ⟨m, old, hold, hcmd, hplace⟩ := h.owned p logId cmd hentry
      by_cases hm : n = m
      · subst hm
        have hadv := hadvances old hold
        exact ⟨n, f old, by simp [hold], by rw [hadv.rpc_eq, hcmd], hadv.place_eq p hplace⟩
      · exact ⟨m, old, by simp [hm, hold], hcmd, hplace⟩
    · obtain ⟨r, hr, hcmd, hplace⟩ := howned p logId cmd (by omega) hentry
      exact ⟨n, f r, by simp [hr], by rw [(hadvances r hr).rpc_eq, hcmd], hplace⟩
  · intro m l a b p ha hb hacmd hbcmd hpa hpb
    obtain ⟨olda, holda, hacmd, hplacea⟩ := place_of_modify hadvances hfresh ha hacmd hpa
    obtain ⟨oldb, holdb, hbcmd, hplaceb⟩ := place_of_modify hadvances hfresh hb hbcmd hpb
    rcases hplacea with hplacea | ⟨rfl, hlena⟩
    · have hlt := h.place_lt holda hacmd hplacea
      rcases hplaceb with hplaceb | ⟨rfl, hlenb⟩
      · exact h.unique m l olda oldb p holda holdb hacmd hbcmd hplacea hplaceb
      · omega
    · rcases hplaceb with hplaceb | ⟨rfl, hlenb⟩
      · have hlt := h.place_lt holdb hbcmd hplaceb
        omega
      · rfl
  · intro m l a b hle ha hb
    obtain ⟨olda, holda, hadva⟩ := exists_advances_of_modify hadvances ha
    obtain ⟨oldb, holdb, hadvb⟩ := exists_advances_of_modify hadvances hb
    rw [hadva.invoked_eq, hadvb.invoked_eq]
    exact h.began m l olda oldb hle holda holdb
  · intro m l a b t answer p ha hb hanswer hlt hplace
    obtain ⟨olda, holda, hadva⟩ := exists_advances_of_modify hadvances ha
    obtain ⟨oldb, holdb, hadvb⟩ := exists_advances_of_modify hadvances hb
    rw [hadvb.invoked_eq] at hlt
    rw [hadva.key_eq, hadvb.committedBefore_eq]
    rcases hadva.answered t answer hanswer with hbefore | hnow
    · obtain ⟨-, -, q, hq, -⟩ := (h.request m olda holda).answered t answer hbefore
      have heq : q = p := Option.some.inj ((hadva.place_eq q hq).symm.trans hplace)
      subst heq
      exact h.realTime m l olda oldb t answer q holda holdb hbefore hlt hq
    · have hbegan := (h.request l oldb holdb).invoked_lt
      omega

/-- A new request begins after everything that was answered. -/
theorem Valid.invoke (h : shard.Valid schedule store) (rpc : Rpc F) (replica : ℕ) :
    (shard.step (.invoke rpc replica)).Valid schedule store := by
  have hcases : ∀ (m : ℕ) (r : ShardRequest F),
      (shard.requests ++ [.arrived rpc replica shard.moment shard.group.log.length])[m]? = some r →
      shard.requests[m]? = some r ∨ m = shard.requests.length ∧
        r = .arrived rpc replica shard.moment shard.group.log.length := by
    intro m r hr
    exact getElem?_concat_cases hr
  refine ⟨h.replica, ?_, ?_, ?_, ?_, ?_⟩
  · intro m r hr
    rcases hcases m r hr with hold | ⟨-, rfl⟩
    · exact (h.request m r hold).tick
    · refine ⟨Nat.lt_succ_self _, le_rfl, ?_, ?_, ?_, fun _ _ => rfl, ?_⟩
      · intro p hp
        cases hp
      · intro p cmd hp
        cases hp
      · intro p hp
        cases hp
      · intro t answer hanswer
        cases hanswer
  · intro p logId cmd hentry
    obtain ⟨m, r, hr, hcmd, hplace⟩ := h.owned p logId cmd hentry
    exact ⟨m, r, getElem?_concat_of_some _ hr, hcmd, hplace⟩
  · intro m l a b p ha hb hacmd hbcmd hpa hpb
    rcases hcases m a ha with holda | ⟨-, rfl⟩
    · rcases hcases l b hb with holdb | ⟨-, rfl⟩
      · exact h.unique m l a b p holda holdb hacmd hbcmd hpa hpb
      · cases hpb
    · cases hpa
  · intro m l a b hle ha hb
    rcases hcases m a ha with holda | ⟨hm, rfl⟩
    · rcases hcases l b hb with holdb | ⟨-, rfl⟩
      · exact h.began m l a b hle holda holdb
      · exact Nat.le_of_lt (h.request m a holda).invoked_lt
    · rcases hcases l b hb with holdb | ⟨-, rfl⟩
      · obtain ⟨hlt, -⟩ := List.getElem?_eq_some_iff.mp holdb
        omega
      · exact le_rfl
  · intro m l a b t answer p ha hb hanswer hlt hplace
    rcases hcases m a ha with holda | ⟨-, rfl⟩
    · rcases hcases l b hb with holdb | ⟨-, rfl⟩
      · exact h.realTime m l a b t answer p holda holdb hanswer hlt hplace
      · exact ((h.request m a holda).key_le hplace).2
    · cases hanswer

/-- Replicas that apply, and entries without commands, concern no request. -/
theorem Valid.idle (h : shard.Valid schedule store) {group : ShardGroup F} {more : List (Entry F)}
    (hlog : group.log = shard.group.log ++ more) (hmore : logCommands more = [])
    (hreplica : ∀ idx, (group.replicas idx).Follows store group.log) :
    (⟨group, shard.requests, shard.moment + 1⟩ : ConcurrentShard F).Valid schedule store := by
  have hvalid : (⟨group, shard.requests.modify 0 id, shard.moment + 1⟩ : ConcurrentShard F).Valid schedule store := by
    refine h.modify hlog hreplica (fun r _ => .refl _ r) ?_ (fun r p _ _ hp => Or.inl hp) ?_
    · intro r hr
      rw [hlog]
      exact (h.request 0 r hr).later more
    · intro p logId cmd hp hentry
      rw [hlog, List.getElem?_append_right hp] at hentry
      have hcmd : cmd ∈ logCommands more := List.mem_filterMap.mpr ⟨_, List.mem_of_getElem? hentry, rfl⟩
      rw [hmore] at hcmd
      cases hcmd
  rw [List.modify_id] at hvalid
  exact hvalid

/-- A step within one replica's log takes one request on. -/
theorem Valid.advance (h : shard.Valid schedule store) {n : ℕ} {f : ShardRequest F → ShardRequest F}
    (hadvances : ∀ r, shard.requests[n]? = some r → r.Advances shard.moment (f r))
    (hvalid : ∀ r, shard.requests[n]? = some r → (f r).Valid schedule store shard.group.log (shard.moment + 1))
    (hplace : ∀ r, shard.requests[n]? = some r → r.rpc.command ≠ none → (f r).place = r.place) :
    (⟨shard.group, shard.requests.modify n f, shard.moment + 1⟩ : ConcurrentShard F).Valid schedule store := by
  refine h.modify (List.append_nil _).symm h.replica hadvances hvalid ?_ ?_
  · intro r p hr hcmd hp
    rw [hplace r hr hcmd] at hp
    exact Or.inl hp
  · intro p logId cmd hp hentry
    rw [List.getElem?_eq_none hp] at hentry
    cases hentry

/-- Every permitted step keeps the shard valid. -/
theorem Valid.step (shard : ConcurrentShard F)
    (event : ShardEvent F) (h : shard.Valid schedule store) (hpermits : shard.Permits event) :
    (shard.step event).Valid schedule store := by
  cases event with
  | invoke rpc replica => exact h.invoke rpc replica
  | commit n logId cmd =>
    obtain ⟨r, hr, hcmd, hplace⟩ := hpermits
    have hsame : ∀ other, shard.requests[n]? = some other → other = r :=
      fun other hother => Option.some.inj (hother.symm.trans hr)
    refine h.modify rfl (fun idx => (h.replica idx).append _) ?_ ?_ ?_ ?_
    · intro other hother
      rw [hsame other hother]
      exact ShardRequest.advances_commitAt hplace _ _
    · intro other hother
      rw [hsame other hother]
      exact (h.request n r hr).commitAt hcmd hplace logId
    · intro other p _ _ hp
      exact Or.inr (Option.some.inj hp).symm
    · intro p otherId other hp hentry
      change (shard.group.log ++ [⟨logId, .normal cmd⟩])[p]? = _ at hentry
      rcases getElem?_concat_cases hentry with hold | ⟨heq, hnew⟩
      · exact absurd (List.getElem?_eq_some_iff.mp hold).1 (Nat.not_lt.mpr hp)
      · cases hnew
        exact ⟨r, hr, hcmd, congrArg some heq.symm⟩
  | commitOther entry => exact h.idle rfl hpermits fun idx => (h.replica idx).append _
  | apply replica =>
    refine h.idle (List.append_nil _).symm rfl ?_
    intro idx
    change GroupReplica.Follows store shard.group.log (Function.update shard.group.replicas replica _ idx)
    by_cases hidx : idx = replica
    · subst hidx
      rw [Function.update_self]
      exact (h.replica idx).applyNext
    · rw [Function.update_of_ne hidx]
      exact h.replica idx
  | acknowledge n response =>
    obtain ⟨r, position, hr, hplace, -⟩ := hpermits
    refine h.advance (fun other _ => other.advances_acknowledge _ _) ?_ ?_
    · intro other hother
      cases hother.symm.trans hr
      exact (h.request n r hr).acknowledge hplace response
    · intro other _ _
      unfold ShardRequest.acknowledge
      split <;> rfl
  | search n schedule' =>
    obtain ⟨r, hr, hcaller, hbefore⟩ := hpermits
    refine h.advance ?_ ?_ ?_
    · intro other hother
      exact ShardRequest.advances_search
        (fun req hreq hprogress => (h.request n other hother).place_of_scanning hreq hprogress) _ _ _
    · intro other hother
      cases hother.symm.trans hr
      exact (h.request n r hr).search hcaller (h.replica r.replica) hbefore schedule'
    · intro other _ hcmd
      cases hrpc : other.rpc with
      | insert req => simp only [ShardRequest.search, hrpc]
      | delete req => simp only [ShardRequest.search, hrpc]
      | search req =>
        rw [hrpc] at hcmd
        exact absurd rfl hcmd
  | abandon n =>
    exact h.advance (fun other _ => other.advances_abandon _)
      (fun other hother => (h.request n other hother).abandon) (fun _ _ _ => rfl)

/-- A shard just started has no requests. -/
theorem valid_start (schedule : ScanSchedule (VectorRecord F × F)) (store : Store F) (nodeIds : ℕ → NodeId) :
    (start store nodeIds).Valid schedule store := by
  refine ⟨fun idx => ⟨le_rfl, rfl⟩, ?_, ?_, ?_, ?_, ?_⟩
  · intro n r hr
    cases hr
  · intro p logId cmd hentry
    cases hentry
  · intro m n a b p ha
    cases ha
  · intro m n a b hle ha
    cases ha
  · intro m n a b t answer p ha
    cases ha

end ConcurrentShard

end RaftVec
