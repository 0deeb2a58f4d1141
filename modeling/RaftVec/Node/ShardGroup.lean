import RaftVec.Node.Service

/-!
# The replicas of one shard behind openraft

Openraft is assumed and not modelled: a group has one committed log, every replica
applies it in order, `client_write` returns `Ok` only after the entry was committed and
applied by the replica that took it, and a replica that passes `ensure_linearizable` has
applied everything committed before. What openraft decides is handed in: whether a
replica leads, what it knows of the leader, and which entries others committed meanwhile.

Addresses come from the configured membership, whose entries `parse_peers` normalises.
-/

namespace RaftVec

open Std

/-- Give an address a scheme unless it has one. -/
def normalize (addr : String) : String :=
  if "http://".toList.isPrefixOf addr.toList || "https://".toList.isPrefixOf addr.toList then addr
  else "http://" ++ addr

/-- A normalised address is not empty. -/
theorem normalize_ne_empty (addr : String) : normalize addr ≠ "" := by
  unfold normalize
  split
  · next hscheme =>
    intro hempty
    subst hempty
    simp at hscheme
  · intro hempty
    have hlength := congrArg String.length hempty
    rw [String.length_append] at hlength
    simp at hlength

/-- An address a replica was configured with. -/
structure PeerAddr where
  addr : String
  normalized : ∃ raw, addr = normalize raw

/-- A configured address is not empty. -/
theorem PeerAddr.addr_ne_empty (peer : PeerAddr) : peer.addr ≠ "" := by
  obtain ⟨raw, hraw⟩ := peer.normalized
  rw [hraw]
  exact normalize_ne_empty raw

/-- What openraft does with one `client_write`. -/
inductive RaftFate (F : Type*) where
  | committed (others : List (Entry F)) (logId : LogId)
  | forwarded (leader : Option PeerAddr)
  | failed (message : String)

/-- What openraft and the runtime contribute to one read. -/
structure ReadFate (F : Type*) where
  others : List (Entry F)
  conditions : NodeService.ReadConditions F
  normalized : ∀ (id : NodeId) node,
    conditions.metrics.membershipConfig.membership.nodes[id]? = some node → ∃ raw, node.addr = normalize raw

/-- A replica with how many entries of its group's log it has applied. -/
structure GroupReplica (F : Type*) where
  nodeId : NodeId
  machine : ShardStateMachine F
  applied : ℕ

/-- One shard's committed log and its replicas, by their place in the configuration. -/
structure ShardGroup (F : Type*) where
  log : List (Entry F)
  replicas : ℕ → GroupReplica F

/-- Replicas just started, over empty stores. -/
def ShardGroup.fresh (F : Type*) (nodeIds : ℕ → NodeId) : ShardGroup F :=
  ⟨[], fun idx => ⟨nodeIds idx, ⟨.new, none, .default⟩, 0⟩⟩

variable {F : Type*} [FloatOps F]

/-- Apply the part of the log a replica has not applied yet. -/
def GroupReplica.catchUp (self : GroupReplica F) (log : List (Entry F)) : GroupReplica F :=
  { self with machine := (self.machine.apply (log.drop self.applied)).2, applied := log.length }

/-- Apply the next entry of the log, if there is one. -/
def GroupReplica.applyNext (self : GroupReplica F) (log : List (Entry F)) : GroupReplica F :=
  match log[self.applied]? with
  | some entry => { self with machine := (self.machine.applyEntry entry).2, applied := self.applied + 1 }
  | none => self

/-- Applying the next entry is catching up with the log as far as that entry. -/
theorem GroupReplica.applyNext_eq_catchUp {replica : GroupReplica F} {log : List (Entry F)} {entry : Entry F}
    (h : log[replica.applied]? = some entry) :
    replica.applyNext log = replica.catchUp (log.take (replica.applied + 1)) := by
  obtain ⟨hlt, rfl⟩ := List.getElem?_eq_some_iff.mp h
  have hdrop : (log.take (replica.applied + 1)).drop replica.applied = [log[replica.applied]] := by
    rw [List.drop_take, Nat.add_sub_cancel_left, List.take_one_drop_eq_of_lt_length hlt]
    rfl
  simp only [applyNext, h, catchUp, hdrop, List.length_take, Nat.min_eq_left (Nat.succ_le_of_lt hlt)]
  rfl

namespace ShardGroup

omit [FloatOps F] in
/-- Put one replica in a new state. -/
def update (self : ShardGroup F) (idx : ℕ) (replica : GroupReplica F) : ShardGroup F :=
  { self with replicas := Function.update self.replicas idx replica }

omit [FloatOps F] in
/-- Commit entries that others proposed. -/
def commit (self : ShardGroup F) (entries : List (Entry F)) : ShardGroup F :=
  { self with log := self.log ++ entries }

/-- The state machine a replica reaches by applying all that is committed. -/
def leaderMachine (self : ShardGroup F) (others : List (Entry F)) (idx : ℕ) : ShardStateMachine F :=
  ((self.replicas idx).catchUp (self.log ++ others)).machine

/-- Commit a command after what others committed, and apply all of it at the replica that took it. -/
def commitAt (self : ShardGroup F) (idx : ℕ) (others : List (Entry F)) (logId : LogId)
    (cmd : ShardCommand F) : ShardGroup F :=
  let committed := self.commit (others ++ [⟨logId, .normal cmd⟩])
  committed.update idx ⟨(self.replicas idx).nodeId,
    ((self.leaderMachine others idx).applyEntry ⟨logId, .normal cmd⟩).2, committed.log.length⟩

/-- Submit a command to one replica's Raft handle. -/
def clientWrite (fate : RaftFate F) (idx : ℕ) (cmd : ShardCommand F) (self : ShardGroup F) :
    Except ClientWriteError ShardCommandResponse × ShardGroup F :=
  match fate with
  | .forwarded leader => (.error (.forwardToLeader (leader.map fun peer => ⟨peer.addr⟩)), self)
  | .failed message => (.error (.other message), self)
  | .committed others logId =>
    (.ok ((self.leaderMachine others idx).applyEntry ⟨logId, .normal cmd⟩).1,
      self.commitAt idx others logId cmd)

/-- A write answered without a hint was committed here and acknowledges the whole batch. -/
theorem write_of_ok {R : Type*} {fate : RaftFate F} {idx : ℕ} {cmd : ShardCommand F} {count : ℕ}
    {response : UInt32 → String → R} {group : ShardGroup F} {answer : R} (hint : R → String)
    (hresponse : ∀ n addr, hint (response n addr) = addr)
    (h : (NodeService.write (clientWrite fate idx) cmd count response group).1 = .ok answer)
    (hhint : hint answer = "") :
    ∃ others logId, fate = .committed others logId ∧ answer = response (UInt32.ofNat count) "" ∧
      (NodeService.write (clientWrite fate idx) cmd count response group).2 =
        group.commitAt idx others logId cmd := by
  cases fate with
  | committed others logId =>
    cases h
    exact ⟨others, logId, rfl, rfl, rfl⟩
  | failed message => cases h
  | forwarded leader =>
    cases leader with
    | none => cases h
    | some peer =>
      cases h
      rw [hresponse] at hhint
      exact absurd hhint peer.addr_ne_empty

/-- A write leaves the group alone unless it was committed. -/
theorem write_state {R : Type*} (fate : RaftFate F) (idx : ℕ) (cmd : ShardCommand F) (count : ℕ)
    (response : UInt32 → String → R) (group : ShardGroup F) :
    (NodeService.write (clientWrite fate idx) cmd count response group).2 = group ∨
      ∃ others logId, fate = .committed others logId ∧
        (NodeService.write (clientWrite fate idx) cmd count response group).2 =
          group.commitAt idx others logId cmd := by
  cases fate with
  | committed others logId => exact Or.inr ⟨others, logId, rfl, rfl⟩
  | failed message => exact Or.inl rfl
  | forwarded leader => cases leader <;> exact Or.inl rfl

variable [LinearOrder F]

/-- Serve a read at one replica, which has applied all that is committed if the quorum confirms it. -/
def search (fate : ReadFate F) (idx : ℕ) (req : SearchRequest F) (self : ShardGroup F) :
    Except Status (SearchResponse F) × ShardGroup F :=
  let committed := self.commit fate.others
  let replica := self.replicas idx
  match fate.conditions.ensureLinearizable with
  | .ok () =>
    let replica := replica.catchUp committed.log
    (NodeService.search replica.nodeId fate.conditions replica.machine.store req,
      committed.update idx replica)
  | .error _ =>
    (NodeService.search replica.nodeId fate.conditions replica.machine.store req, committed)

end ShardGroup

end RaftVec
