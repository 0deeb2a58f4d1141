import RaftVec.Aggregator.SharedRetry
import RaftVec.Library.FiniteMap
import RaftVec.Library.Transducer
import RaftVec.Node.LeaderHint

/-!
# Starting up from the command line

The aggregator is told the replicas of each shard as addresses, a replica is told those of its
group as `id=addr` pairs. Both give every address a scheme, so the same list written down for
both is read as the same addresses: a replica that points to the leader points to a place in
the aggregator's list.

The aggregator dials every replica up to ten times before it serves anything. It starts when
each of them accepted one of the dials, and otherwise names the first that did not.
-/

namespace RaftVec

/-! ## Reading addresses -/

/-- Split an argument at its commas. -/
def splitCommas (text : String) : List String := (text.toList.splitOn ',').map String.ofList

/-- The addresses of each shard's replicas, as the aggregator reads them. -/
def shardReplicaAddrs (shards : List String) : List (List String) :=
  shards.map fun shard => (splitCommas shard).map normalize

/-- A list of arguments, as it is written down. -/
def joinCommas (pieces : List String) : String := .ofList ([','].intercalate (pieces.map String.toList))

/-- A peer, as it is written down. -/
def peerText (id : NodeId) (addr : String) : String := toString id ++ "=" ++ addr

/-- What is joined by commas is split into the same pieces, if no piece has a comma itself. -/
theorem splitCommas_joinCommas {pieces : List String} (hsome : pieces ≠ [])
    (hcommas : ∀ piece ∈ pieces, ',' ∉ piece.toList) : splitCommas (joinCommas pieces) = pieces := by
  have hpieces : ∀ piece ∈ pieces.map String.toList, ',' ∉ piece := by
    intro piece hpiece
    obtain ⟨text, htext, rfl⟩ := List.mem_map.mp hpiece
    exact hcommas text htext
  rw [splitCommas, joinCommas, String.toList_ofList,
    List.splitOn_intercalate ',' hpieces (by simpa using hsome), List.map_map]
  simp

/-- The digits of a number that fits are read back as the number. -/
theorem foldlM_pushDigit_toDigits {n : ℕ} (hn : n < 2 ^ 64) : (Nat.toDigits 10 n).foldlM pushDigit 0 = some n := by
  induction n using Nat.strongRecOn with
  | ind n ih =>
    have hdigit : ∀ d < 10, (Nat.digitChar d).isDigit = true ∧ (Nat.digitChar d).toNat - '0'.toNat = d := by decide
    by_cases hsmall : n < 10
    · obtain ⟨hisDigit, hvalue⟩ := hdigit n hsmall
      rw [Nat.toDigits_of_lt_base hsmall]
      simp only [List.foldlM_cons, List.foldlM_nil, pushDigit, hisDigit, hvalue, Nat.zero_mul, Nat.zero_add, hn,
        and_self, if_true]
      rfl
    · obtain ⟨hisDigit, hvalue⟩ := hdigit (n % 10) (Nat.mod_lt n (by decide))
      have hrest : n / 10 * 10 + n % 10 = n := Nat.div_add_mod' n 10
      rw [Nat.toDigits_of_base_le (by decide) (not_lt.mp hsmall), List.foldlM_append,
        ih (n / 10) (by omega) (by omega)]
      simp only [Option.bind_eq_bind, Option.bind_some, List.foldlM_cons, List.foldlM_nil, pushDigit, hisDigit,
        hvalue, hrest, hn, and_self, if_true]
      rfl

/-- A node id is written with its decimal digits. -/
theorem toList_toString_nodeId (id : NodeId) : (toString id).toList = Nat.toDigits 10 id.toNat := by
  change (Nat.repr id.toNat).toList = _
  rw [Nat.repr_eq_ofList_toDigits, String.toList_ofList]

/-- A node id has digits only. -/
theorem isDigit_of_mem_nodeId {id : NodeId} {c : Char} (h : c ∈ (toString id).toList) : c.isDigit = true := by
  rw [toList_toString_nodeId] at h
  exact Nat.isDigit_of_mem_toDigits (by decide) (by decide) h

/-- A node id is read back from its digits. -/
theorem parseNodeId_toString (id : NodeId) : parseNodeId (toString id) = some id := by
  have hsign : ∀ digits, (toString id).toList ≠ '+' :: digits := by
    intro digits hplus
    have hdigit := isDigit_of_mem_nodeId (hplus ▸ List.mem_cons_self : '+' ∈ (toString id).toList)
    exact absurd hdigit (by decide)
  unfold parseNodeId
  extract_lets digits
  have hdigits : digits = Nat.toDigits 10 id.toNat := by
    rw [← toList_toString_nodeId]
    simp only [digits]
  have hsome : digits ≠ [] := hdigits ▸ Nat.toDigits_ne_nil
  rw [if_neg hsome, hdigits, foldlM_pushDigit_toDigits id.toNat_lt, Option.map_some, UInt64.ofNat_toNat]

/-- A peer is cut into its id and its address. -/
theorem splitOnce_peerText (id : NodeId) (addr : String) :
    splitOnce (peerText id addr) = some (toString id, addr) := by
  have htext : (peerText id addr).toList = (toString id).toList ++ '=' :: addr.toList := by
    simp [peerText, String.toList_append]
  have hid : ∀ c ∈ (toString id).toList, decide (c ≠ '=') = true := by
    intro c hc
    have hdigit := isDigit_of_mem_nodeId hc
    rw [decide_eq_true_eq]
    rintro rfl
    exact absurd hdigit (by decide)
  rw [splitOnce, htext, List.span_eq_takeWhile_dropWhile, List.takeWhile_append_of_pos hid,
    List.dropWhile_append_of_pos hid]
  simp

/-- The members of a group, by id. -/
def membersOf (replicas : List (NodeId × String)) : Std.ExtTreeMap NodeId BasicNode :=
  replicas.foldl (fun members replica => members.insert replica.1 ⟨normalize replica.2⟩) ∅

/-- Peers that are written down are read back. -/
theorem parsePeers_peerText (replicas : List (NodeId × String)) :
    parsePeers (replicas.map fun replica => peerText replica.1 replica.2) = .ok (membersOf replicas) := by
  have hfold : ∀ members : Std.ExtTreeMap NodeId BasicNode,
      (replicas.map fun replica => peerText replica.1 replica.2).foldlM insertPeer members =
        .ok (replicas.foldl (fun members replica => members.insert replica.1 ⟨normalize replica.2⟩) members) := by
    induction replicas with
    | nil => exact fun _ => rfl
    | cons replica replicas ih =>
      intro members
      have hinsert : insertPeer members (peerText replica.1 replica.2) =
          .ok (members.insert replica.1 ⟨normalize replica.2⟩) := by
        simp only [insertPeer, splitOnce_peerText, parseNodeId_toString]
      rw [List.map_cons, List.foldlM_cons, hinsert]
      exact ih _
  exact hfold ∅

/-- No comma is written between an id and an address that has none. -/
theorem comma_not_mem_peerText {id : NodeId} {addr : String} (h : ',' ∉ addr.toList) :
    ',' ∉ (peerText id addr).toList := by
  have hid : ',' ∉ (toString id).toList := fun hmem => absurd (isDigit_of_mem_nodeId hmem) (by decide)
  simpa [peerText, String.toList_append] using ⟨hid, h⟩

/-- A group's arguments, written down and read again. -/
theorem parsePeers_joinCommas {replicas : List (NodeId × String)} (hsome : replicas ≠ [])
    (hcommas : ∀ replica ∈ replicas, ',' ∉ replica.2.toList) :
    parsePeers (splitCommas (joinCommas (replicas.map fun replica => peerText replica.1 replica.2))) =
        .ok (membersOf replicas) ∧
      (splitCommas (joinCommas (replicas.map Prod.snd))).map normalize =
        replicas.map fun replica => normalize replica.2 := by
  constructor
  · rw [splitCommas_joinCommas (by simpa using hsome), parsePeers_peerText]
    intro piece hpiece
    obtain ⟨replica, hreplica, rfl⟩ := List.mem_map.mp hpiece
    exact comma_not_mem_peerText (hcommas replica hreplica)
  · rw [splitCommas_joinCommas (by simpa using hsome), List.map_map]
    · rfl
    · intro piece hpiece
      obtain ⟨replica, hreplica, rfl⟩ := List.mem_map.mp hpiece
      exact hcommas replica hreplica

/-! ## Following a redirect -/

/-- The member with an id that is listed once. -/
theorem membersOf_getElem? {replicas : List (NodeId × String)} (hids : (replicas.map Prod.fst).Nodup) {i : ℕ}
    {id : NodeId} {addr : String} (hi : replicas[i]? = some (id, addr)) :
    (membersOf replicas)[id]? = some ⟨normalize addr⟩ := by
  have hmem : (id, addr) ∈ replicas := List.mem_of_getElem? hi
  have hfind : replicas.find? (fun replica => replica.1 = id) = some (id, addr) := by
    cases hfirst : replicas.find? fun replica => replica.1 = id with
    | none => simpa using List.find?_eq_none.mp hfirst _ hmem
    | some replica =>
      have hid : replica.1 = id := by simpa using List.find?_some hfirst
      rw [List.inj_on_of_nodup_map hids (List.mem_of_find?_eq_some hfirst) hmem hid]
  have hfold := FiniteMap.getElem?_foldl_insert hids (fun addr => (⟨normalize addr⟩ : BasicNode)) ∅ id
  rw [hfind, Option.map_some, Option.some_or] at hfold
  exact hfold

/-- The place of an address that is listed once. -/
theorem findIdx?_of_nodup {addrs : List String} (hnodup : addrs.Nodup) {i : ℕ} {addr : String}
    (hi : addrs[i]? = some addr) : addrs.findIdx? (fun other => other = addr) = some i := by
  obtain ⟨hlt, hget⟩ := List.getElem?_eq_some_iff.mp hi
  rw [List.findIdx?_eq_some_iff_getElem]
  refine ⟨hlt, by simpa using hget, ?_⟩
  intro j hj
  have hne : addrs[j] ≠ addrs[i] := fun hsame => absurd ((hnodup.getElem_inj_iff).mp hsame) (by omega)
  simpa [hget] using hne

variable {F : Type*} [FloatOps F] [LinearOrder F]

/-- What a replica that takes another for the leader says to every request: the leader's address. -/
theorem ReplicaView.handle_of_follower {view : ReplicaView F} {leader : NodeId} {node : BasicNode}
    (hother : view.nodeId ≠ leader)
    (hwrite : view.clientWrite = .error (.forwardToLeader (some node)))
    (hread : view.conditions.metrics.currentLeader = some leader ∧
      view.conditions.metrics.membershipConfig.membership.nodes[leader]? = some node) (rpc : Rpc F) :
    ∃ response, view.handle rpc = .ok response ∧ response.leaderHint = node.addr := by
  cases rpc with
  | insert req =>
    refine ⟨.inserted ⟨0, node.addr⟩, ?_, rfl⟩
    simp only [handle, NodeService.insert, NodeService.write, raft, hwrite, NodeService.writeErrorToHint]
    rfl
  | delete req =>
    refine ⟨.deleted ⟨0, node.addr⟩, ?_, rfl⟩
    simp only [handle, NodeService.delete, NodeService.write, raft, hwrite, NodeService.writeErrorToHint]
    rfl
  | search req =>
    refine ⟨.searched ⟨[], 0, 0, node.addr⟩, ?_, rfl⟩
    have hleadership : NodeService.leadership view.nodeId view.conditions.metrics = .redirect node.addr := by
      simp only [NodeService.leadership, hread.1, hread.2, Ne.symm hother, if_false]
    simp only [handle, NodeService.search, hleadership]
    rfl

/-- A redirect leads to the leader's place in the aggregator's list.

The replicas of a group are written down twice, with their ids for the replicas and without
them for the aggregator, where the group is one shard of several. Both read the same addresses
at the same places. Whenever a replica takes the one at some place for the leader, every
request it answers sends the caller to that place. -/
theorem redirect_leads_to_named_replica {replicas : List (NodeId × String)} (hsome : replicas ≠ [])
    (hids : (replicas.map Prod.fst).Nodup) (hcommas : ∀ replica ∈ replicas, ',' ∉ replica.2.toList)
    (haddrs : (replicas.map fun replica => normalize replica.2).Nodup) :
    ∃ members addrs,
      parsePeers (splitCommas (joinCommas (replicas.map fun replica => peerText replica.1 replica.2))) =
          .ok members ∧
        (∀ (shards : List String) (s : ℕ), shards[s]? = some (joinCommas (replicas.map Prod.snd)) →
          (shardReplicaAddrs shards)[s]? = some addrs) ∧
        (∀ (i : ℕ) id addr, replicas[i]? = some (id, addr) →
          members[id]? = some ⟨normalize addr⟩ ∧ addrs[i]? = some (normalize addr)) ∧
        ∀ (shard : ShardReplicaSet) (i : ℕ) leader addr (view : ReplicaView F), shard.addrs = addrs →
          replicas[i]? = some (leader, addr) → view.nodeId ≠ leader →
          view.clientWrite = .error (.forwardToLeader members[leader]?) →
          view.conditions.metrics.currentLeader = some leader →
          view.conditions.metrics.membershipConfig.membership.nodes = members → ∀ (rpc : Rpc F) (idx : ℕ),
            ∃ response, view.handle rpc = .ok response ∧
              (AttemptOutcome.answered response).nextIdx shard idx = i := by
  obtain ⟨hparse, hsplit⟩ := parsePeers_joinCommas hsome hcommas
  have hplaces : ∀ (i : ℕ) id addr, replicas[i]? = some (id, addr) →
      (membersOf replicas)[id]? = some ⟨normalize addr⟩ ∧
        (replicas.map fun replica => normalize replica.2)[i]? = some (normalize addr) := by
    intro i id addr hi
    refine ⟨membersOf_getElem? hids hi, ?_⟩
    rw [List.getElem?_map, hi]
    rfl
  refine ⟨membersOf replicas, replicas.map fun replica => normalize replica.2, hparse, ?_, ?_, ?_⟩
  · intro shards s hs
    rw [shardReplicaAddrs, List.getElem?_map, hs, Option.map_some, hsplit]
  · exact hplaces
  · intro shard i leader addr view hshard hi hother hwrite hleader hnodes rpc idx
    obtain ⟨hnode, hplace⟩ := hplaces i leader addr hi
    rw [hnode] at hwrite
    rw [← hshard] at haddrs hplace
    obtain ⟨response, hanswer, hhint⟩ :=
      ReplicaView.handle_of_follower hother hwrite ⟨hleader, by rw [hnodes, hnode]⟩ rpc
    refine ⟨response, hanswer, ?_⟩
    change (shard.addrs.findIdx? fun addr => addr = response.leaderHint).getD _ = i
    rw [hhint, findIdx?_of_nodup haddrs hplace, Option.getD_some]

/-- Three replicas, one with a scheme, as the second shard of two: the third takes the second for
the leader. -/
theorem redirect_leads_to_named_replica_three :
    ∃ members, parsePeers (splitCommas "1=a:1,2=https://b:2,30=c:3") = .ok members ∧
      ∀ (shard : ShardReplicaSet) (view : ReplicaView ℤ),
        (shardReplicaAddrs ["d:4", "a:1,https://b:2,c:3"])[1]? = some shard.addrs → view.nodeId = 30 →
        view.clientWrite = .error (.forwardToLeader members[(2 : NodeId)]?) →
        view.conditions.metrics.currentLeader = some 2 →
        view.conditions.metrics.membershipConfig.membership.nodes = members →
          ∃ response, view.handle (.delete ⟨"docs", [7]⟩) = .ok response ∧
            (AttemptOutcome.answered response).nextIdx shard 2 = 1 := by
  let replicas : List (NodeId × String) := [(1, "a:1"), (2, "https://b:2"), (30, "c:3")]
  have hsome : replicas ≠ [] := by simp [replicas]
  have hids : (replicas.map Prod.fst).Nodup := by decide
  have hcommas : ∀ replica ∈ replicas, ',' ∉ replica.2.toList := by decide +kernel
  have haddrs : (replicas.map fun replica => normalize replica.2).Nodup := by decide +kernel
  have hpeers : joinCommas (replicas.map fun replica => peerText replica.1 replica.2) =
      "1=a:1,2=https://b:2,30=c:3" := by
    decide +kernel
  have hshards : joinCommas (replicas.map Prod.snd) = "a:1,https://b:2,c:3" := by decide +kernel
  obtain ⟨members, addrs, hmembers, hlisted, -, hredirect⟩ :=
    redirect_leads_to_named_replica (F := ℤ) hsome hids hcommas haddrs
  rw [hpeers] at hmembers
  rw [hshards] at hlisted
  refine ⟨members, hmembers, ?_⟩
  intro shard view hshard hnode hwrite hleader hnodes
  have hsame : shard.addrs = addrs := Option.some.inj (hshard.symm.trans (hlisted ["d:4", _] 1 rfl))
  have hother : view.nodeId ≠ 2 := by
    rw [hnode]
    decide
  exact hredirect shard 1 2 "https://b:2" view hsame rfl hother hwrite hleader hnodes _ 2

/-! ## Connecting -/

section Connect

variable {C : Type*}

/-- A replica accepts one of the first ten dials, after rejecting those before it. -/
def Accepts (dial : ℕ → Except String C) (client : C) : Prop :=
  ∃ n < connectMaxAttempts, dial n = .ok client ∧ ∀ m < n, ∃ source, dial m = .error source

/-- A replica rejects the first ten dials, the last of them with this error. -/
def Rejects (dial : ℕ → Except String C) (source : String) : Prop :=
  (∀ n < connectMaxAttempts, ∃ other, dial n = .error other) ∧ dial (connectMaxAttempts - 1) = .error source

/-- Dialling ends with the first success, or with the last error when there is none. -/
theorem dialFrom_cases (addr : String) (dial : ℕ → Except String C) (left attempt : ℕ) :
    (∃ n ≤ left, ∃ client, dial (attempt + n) = .ok client ∧
        (∀ m < n, ∃ source, dial (attempt + m) = .error source) ∧ dialFrom addr dial left attempt = .ok client) ∨
      ∃ source, (∀ n ≤ left, ∃ other, dial (attempt + n) = .error other) ∧
        dial (attempt + left) = .error source ∧ dialFrom addr dial left attempt = .error (.connect addr source) := by
  induction left generalizing attempt with
  | zero =>
    cases hdial : dial attempt with
    | ok client =>
      exact Or.inl ⟨0, Nat.le_refl 0, client, hdial, fun m hm => absurd hm (Nat.not_lt_zero m),
        by simp only [dialFrom, hdial]⟩
    | error source =>
      refine Or.inr ⟨source, ?_, rfl, by simp only [dialFrom, hdial]⟩
      intro n hn
      rw [Nat.le_zero.mp hn]
      exact ⟨source, hdial⟩
  | succ left ih =>
    have hshift : ∀ n, attempt + 1 + n = attempt + (n + 1) := fun n => by omega
    cases hdial : dial attempt with
    | ok client =>
      exact Or.inl ⟨0, Nat.zero_le _, client, hdial, fun m hm => absurd hm (Nat.not_lt_zero m),
        by rw [dialFrom, hdial]⟩
    | error first =>
      have hnext : dialFrom addr dial (left + 1) attempt = dialFrom addr dial left (attempt + 1) := by
        rw [dialFrom, hdial]
      rw [hnext]
      rcases ih (attempt + 1) with ⟨n, hn, client, hok, hbefore, hresult⟩ | ⟨source, hall, hlast, hresult⟩
      · refine Or.inl ⟨n + 1, Nat.succ_le_succ hn, client, hshift n ▸ hok, ?_, hresult⟩
        intro m hm
        cases m with
        | zero => exact ⟨first, hdial⟩
        | succ m => exact hshift m ▸ hbefore m (Nat.lt_of_succ_lt_succ hm)
      · refine Or.inr ⟨source, ?_, hshift left ▸ hlast, hresult⟩
        intro n hn
        cases n with
        | zero => exact ⟨first, hdial⟩
        | succ n => exact hshift n ▸ hall n (Nat.le_of_succ_le_succ hn)

/-- A replica is connected, or given up after ten dials. -/
theorem connectWithRetry_cases (addr : String) (dial : ℕ → Except String C) :
    (∃ client, Accepts dial client ∧ connectWithRetry addr dial = .ok client) ∨
      ∃ source, Rejects dial source ∧ connectWithRetry addr dial = .error (.connect addr source) := by
  rcases dialFrom_cases addr dial (connectMaxAttempts - 1) 0 with
    ⟨n, hn, client, hok, hbefore, hresult⟩ | ⟨source, hall, hlast, hresult⟩
  · simp only [Nat.zero_add] at hok hbefore
    exact Or.inl ⟨client, ⟨n, Nat.lt_succ_of_le hn, hok, hbefore⟩, hresult⟩
  · simp only [Nat.zero_add] at hall hlast
    exact Or.inr ⟨source, ⟨fun n hn => hall n (Nat.le_of_lt_succ hn), hlast⟩, hresult⟩

/-- Dial the replicas of one shard in their order. -/
def connectShard (dial : ℕ → ℕ → Except String C) (addrs : List String) : Except RouterError (List C) :=
  addrs.zipIdx.mapM fun (addr, idx) => connectWithRetry addr (dial idx)

/-- Dial the replicas of a numbered shard and keep the clients beside the addresses. -/
def connectNumbered (dial : ℕ → ℕ → ℕ → Except String C) (numbered : List String × ℕ) :
    Except RouterError (ConnectedShard C) :=
  (connectShard (dial numbered.2) numbered.1).map fun clients => ⟨clients, numbered.1, 0⟩

/-- `connect` goes from shard to shard. -/
theorem connect_eq_mapM (dial : ℕ → ℕ → ℕ → Except String C) (addrs : List (List String)) :
    connect dial addrs = addrs.zipIdx.mapM (connectNumbered dial) := rfl

/-- All replicas of a shard are connected, or the first that rejects every dial is named. -/
theorem connectShard_cases (dial : ℕ → ℕ → Except String C) (addrs : List String) :
    (∃ clients, connectShard dial addrs = .ok clients ∧ clients.length = addrs.length ∧
        ∀ (idx : ℕ) client, clients[idx]? = some client → Accepts (dial idx) client) ∨
      ∃ (idx : ℕ) (addr source : String), addrs[idx]? = some addr ∧ Rejects (dial idx) source ∧
        connectShard dial addrs = .error (.connect addr source) ∧ ∀ j < idx, ∃ client, Accepts (dial j) client := by
  -- one replica's result tells whether it accepted
  have haccepts : ∀ addr idx client, connectWithRetry addr (dial idx) = .ok client → Accepts (dial idx) client := by
    intro addr idx client hok
    rcases connectWithRetry_cases addr (dial idx) with ⟨other, haccepts, hresult⟩ | ⟨source, -, hresult⟩
    · cases hok.symm.trans hresult
      exact haccepts
    · cases hok.symm.trans hresult
  rcases Transducer.mapM_zipIdx_cases (fun (addr, idx) => connectWithRetry addr (dial idx)) addrs with
    ⟨clients, hmap, hlength, hall⟩ | ⟨idx, addr, e, haddr, herror, hmap, hbefore⟩
  · refine Or.inl ⟨clients, hmap, hlength, ?_⟩
    intro idx client hclient
    obtain ⟨addr, -, hok⟩ := hall idx client hclient
    exact haccepts addr idx client hok
  · rcases connectWithRetry_cases addr (dial idx) with ⟨other, -, hresult⟩ | ⟨source, hrejects, hresult⟩
    · cases herror.symm.trans hresult
    · cases herror.symm.trans hresult
      refine Or.inr ⟨idx, addr, source, haddr, hrejects, hmap, ?_⟩
      intro j hj
      have hj' : j < addrs.length := hj.trans (List.getElem?_eq_some_iff.mp haddr).1
      obtain ⟨client, hok⟩ := hbefore j hj _ (List.getElem?_eq_getElem hj')
      exact ⟨client, haccepts _ j client hok⟩

/-- The aggregator connects to all replicas, or names the first that rejected ten dials.

Shards are dialled in their order and replicas in theirs. When all accept, every shard has its
addresses, a client for each of them and a guess at the first. Otherwise nothing is served:
the error has the address of the first replica that never accepted, and its last answer. -/
theorem connect_cases (dial : ℕ → ℕ → ℕ → Except String C) (addrs : List (List String)) :
    (∃ shards, connect dial addrs = .ok shards ∧ shards.length = addrs.length ∧
        ∀ (s : ℕ) shard, shards[s]? = some shard → addrs[s]? = some shard.addrs ∧ shard.leaderHint = 0 ∧
          shard.clients.length = shard.addrs.length ∧
          ∀ (idx : ℕ) client, shard.clients[idx]? = some client → Accepts (dial s idx) client) ∨
      ∃ (s idx : ℕ) (replicas : List String) (addr source : String), addrs[s]? = some replicas ∧
        replicas[idx]? = some addr ∧ Rejects (dial s idx) source ∧
        connect dial addrs = .error (.connect addr source) ∧ (∀ j < idx, ∃ client, Accepts (dial s j) client) ∧
        ∀ t < s, ∀ earlier, addrs[t]? = some earlier → ∀ j < earlier.length, ∃ client, Accepts (dial t j) client := by
  rw [connect_eq_mapM]
  rcases Transducer.mapM_zipIdx_cases (connectNumbered dial) addrs with
    ⟨shards, hmap, hlength, hall⟩ | ⟨s, replicas, e, hreplicas, herror, hmap, hbefore⟩
  · refine Or.inl ⟨shards, hmap, hlength, ?_⟩
    intro s shard hget
    obtain ⟨replicas, hreplicas, hok⟩ := hall s shard hget
    rcases connectShard_cases (dial s) replicas with
      ⟨clients, hclients, hcount, haccepts⟩ | ⟨idx, addr, source, -, -, hresult, -⟩
    · rw [connectNumbered, hclients] at hok
      cases hok
      exact ⟨hreplicas, rfl, hcount, haccepts⟩
    · rw [connectNumbered, hresult] at hok
      cases hok
  · rcases connectShard_cases (dial s) replicas with
      ⟨clients, hclients, -, -⟩ | ⟨idx, addr, source, haddr, hrejects, hresult, hearlier⟩
    · rw [connectNumbered, hclients] at herror
      cases herror
    · rw [connectNumbered, hresult] at herror
      cases herror
      refine Or.inr ⟨s, idx, replicas, addr, source, hreplicas, haddr, hrejects, hmap, hearlier, ?_⟩
      intro t ht earlier hget j hj
      obtain ⟨shard, hok⟩ := hbefore t ht earlier hget
      rcases connectShard_cases (dial t) earlier with
        ⟨clients, hclients, hcount, haccepts⟩ | ⟨_, _, _, -, -, hfailed, -⟩
      · have hclient := List.getElem?_eq_getElem (hcount.symm ▸ hj : j < clients.length)
        exact ⟨_, haccepts j _ hclient⟩
      · rw [connectNumbered, hfailed] at hok
        cases hok

end Connect

end RaftVec
