import RaftVec.Node.ShardGroup

/-!
# Where a leader hint comes from

A response without a leader's address says that the replica served the request itself.
The address is a string, and the empty one stands for none, so this rests on no replica
ever naming a leader by the empty string: `parse_peers` gives every address a scheme, and
openraft is assumed to report leaders from that configuration only.
-/

namespace RaftVec

open Std

/-- Cut a text at its first `=`. -/
def splitOnce (text : String) : Option (String × String) :=
  match text.toList.span fun c => c ≠ '=' with
  | (_, []) => none
  | (before, _ :: after) => some (.ofList before, .ofList after)

/-- Put one more decimal digit at the end of a number, if it still fits 64 bits. -/
def pushDigit (n : ℕ) (c : Char) : Option ℕ :=
  if c.isDigit ∧ n * 10 + (c.toNat - '0'.toNat) < 2 ^ 64 then some (n * 10 + (c.toNat - '0'.toNat)) else none

/-- Read a node id: decimal digits, at least one, after an optional plus sign. -/
def parseNodeId (text : String) : Option NodeId :=
  let digits := match text.toList with
    | '+' :: digits => digits
    | digits => digits
  if digits = [] then none else (digits.foldlM pushDigit 0).map UInt64.ofNat

/-- Add one peer of the command line to the members. -/
def insertPeer (members : ExtTreeMap NodeId BasicNode) (p : String) :
    Except String (ExtTreeMap NodeId BasicNode) :=
  match splitOnce p with
  | none => .error s!"peer '{p}' must be in id=addr form"
  | some (idStr, addr) =>
    match parseNodeId idStr with
    | none => .error s!"bad peer id in '{p}'"
    | some id => .ok (members.insert id ⟨normalize addr⟩)

/-- Read the members of a shard's group from the command line. -/
def parsePeers (peers : List String) : Except String (ExtTreeMap NodeId BasicNode) :=
  peers.foldlM insertPeer ∅

/-- Every address of the members is normalised. -/
def NormalizedPeers (members : ExtTreeMap NodeId BasicNode) : Prop :=
  ∀ (id : NodeId) (node : BasicNode), members[id]? = some node → ∃ raw, node.addr = normalize raw

/-- One more peer adds one normalised address. -/
theorem NormalizedPeers.insertPeer {members after : ExtTreeMap NodeId BasicNode} {p : String}
    (hmembers : NormalizedPeers members) (h : insertPeer members p = .ok after) : NormalizedPeers after := by
  intro id node hnode
  unfold RaftVec.insertPeer at h
  split at h
  · cases h
  · next idStr addr _ =>
    split at h
    · cases h
    · next added _ =>
      cases h
      rw [ExtTreeMap.getElem?_insert] at hnode
      split at hnode
      · cases hnode
        exact ⟨addr, rfl⟩
      · exact hmembers id node hnode

/-- Peers added to normalised members leave them normalised. -/
theorem NormalizedPeers.foldlM {peers : List String} {members after : ExtTreeMap NodeId BasicNode}
    (hmembers : NormalizedPeers members) (h : peers.foldlM RaftVec.insertPeer members = .ok after) :
    NormalizedPeers after := by
  induction peers generalizing members with
  | nil =>
    cases h
    exact hmembers
  | cons p peers ih =>
    rw [List.foldlM_cons] at h
    cases hinsert : RaftVec.insertPeer members p with
    | error e =>
      rw [hinsert] at h
      cases h
    | ok next =>
      rw [hinsert] at h
      exact ih (hmembers.insertPeer hinsert) h

/-- Every address that `parse_peers` accepts is normalised. -/
theorem NormalizedPeers.of_parsePeers {peers : List String} {members : ExtTreeMap NodeId BasicNode}
    (h : parsePeers peers = .ok members) : NormalizedPeers members := by
  have hempty : NormalizedPeers ∅ := by
    intro id node hnode
    rw [ExtTreeMap.getElem?_empty] at hnode
    cases hnode
  exact hempty.foldlM h

example : (parsePeers ["1=a:1", "+2=https://b=c", "1=d"]).map ExtTreeMap.toList =
    .ok [(1, ⟨"http://d"⟩), (2, ⟨"https://b=c"⟩)] := by decide

/-- A request of the client-facing service that may be redirected. -/
inductive Rpc (F : Type*) where
  | insert (req : InsertRequest F)
  | delete (req : DeleteRequest)
  | search (req : SearchRequest F)

/-- What such a request is answered with. -/
inductive RpcResponse (F : Type*) where
  | inserted (response : InsertResponse)
  | deleted (response : DeleteResponse)
  | searched (response : SearchResponse F)

/-- The leader's address in a response, empty when the replica served the request. -/
def RpcResponse.leaderHint {F : Type*} : RpcResponse F → String
  | .inserted response => response.leaderHint
  | .deleted response => response.leaderHint
  | .searched response => response.leaderHint

/-- What a replica's handler meets: its store, and what openraft and the runtime tell it. -/
structure ReplicaView (F : Type*) where
  nodeId : NodeId
  clientWrite : Except ClientWriteError ShardCommandResponse
  conditions : NodeService.ReadConditions F
  store : Store F

namespace ReplicaView

variable {F : Type*}

/-- Openraft names leaders only from a membership that `parse_peers` accepted. -/
def Configured (self : ReplicaView F) : Prop :=
  ∃ peers members, parsePeers peers = .ok members ∧
    (∀ node, self.clientWrite = .error (.forwardToLeader (some node)) → ∃ id : NodeId, members[id]? = some node) ∧
    ∀ (id : NodeId) node, self.conditions.metrics.membershipConfig.membership.nodes[id]? = some node →
      ∃ id : NodeId, members[id]? = some node

/-- The replica served the request as leader: it committed the write, or a quorum confirmed
its leadership for the read. -/
def ServedAsLeader (self : ReplicaView F) : Rpc F → Prop
  | .search _ => NodeService.leadership self.nodeId self.conditions.metrics = .iAmLeader ∧
      self.conditions.ensureLinearizable = .ok ()
  | _ => ∃ response, self.clientWrite = .ok response

/-- Submit a command to the replica's Raft handle. -/
def raft (self : ReplicaView F) (_ : ShardCommand F) (_ : Unit) :
    Except ClientWriteError ShardCommandResponse × Unit :=
  (self.clientWrite, ())

variable [FloatOps F] [LinearOrder F]

/-- Answer a request. -/
def handle (self : ReplicaView F) : Rpc F → Except Status (RpcResponse F)
  | .insert req => (NodeService.insert self.raft req ()).1.map .inserted
  | .delete req => (NodeService.delete self.raft req ()).1.map .deleted
  | .search req => (NodeService.search self.nodeId self.conditions self.store req).map .searched

omit [FloatOps F] [LinearOrder F] in
/-- A configured replica names no leader by the empty string. -/
theorem Configured.addr_ne_empty {self : ReplicaView F} (h : self.Configured) :
    (∀ node, self.clientWrite = .error (.forwardToLeader (some node)) → node.addr ≠ "") ∧
      ∀ addr, NodeService.leadership self.nodeId self.conditions.metrics = .redirect addr → addr ≠ "" := by
  obtain ⟨peers, members, hparse, hforward, hmetrics⟩ := h
  have hmember : ∀ (id : NodeId) node, members[id]? = some node → node.addr ≠ "" := by
    intro id node hnode
    obtain ⟨raw, hraw⟩ := NormalizedPeers.of_parsePeers hparse id node hnode
    rw [hraw]
    exact normalize_ne_empty raw
  constructor
  · intro node herror
    obtain ⟨id, hid⟩ := hforward node herror
    exact hmember id node hid
  · intro addr hredirect
    unfold NodeService.leadership at hredirect
    split at hredirect
    · next leader _ =>
      split at hredirect
      · cases hredirect
      · split at hredirect
        · next node hnode =>
          cases hredirect
          obtain ⟨id, hid⟩ := hmetrics leader node hnode
          exact hmember id node hid
        · cases hredirect
    · cases hredirect

omit [FloatOps F] [LinearOrder F] in
/-- A write answered without a hint was committed. -/
theorem Configured.write_served {self : ReplicaView F} (h : self.Configured) {R : Type*} {cmd : ShardCommand F}
    {count : ℕ} {response : UInt32 → String → R} {answer : R} (hint : R → String)
    (hresponse : ∀ n addr, hint (response n addr) = addr)
    (hwrite : (NodeService.write self.raft cmd count response ()).1 = .ok answer)
    (hhint : hint answer = "") : ∃ response, self.clientWrite = .ok response := by
  cases hclient : self.clientWrite with
  | ok response => exact ⟨response, rfl⟩
  | error e =>
    cases e with
    | other message =>
      simp only [NodeService.write, raft, hclient, NodeService.writeErrorToHint] at hwrite
      cases hwrite
    | forwardToLeader leader =>
      cases leader with
      | none =>
        simp only [NodeService.write, raft, hclient, NodeService.writeErrorToHint] at hwrite
        cases hwrite
      | some node =>
        simp only [NodeService.write, raft, hclient, NodeService.writeErrorToHint, Except.ok.injEq] at hwrite
        rw [← hwrite, hresponse] at hhint
        exact absurd hhint (h.addr_ne_empty.1 node hclient)

/-- A read answered without a hint was served by the leader a quorum confirmed. -/
theorem Configured.search_served {self : ReplicaView F} (h : self.Configured) {req : SearchRequest F}
    {response : SearchResponse F}
    (hsearch : NodeService.search self.nodeId self.conditions self.store req = .ok response)
    (hhint : response.leaderHint = "") : self.ServedAsLeader (.search req) := by
  unfold NodeService.search at hsearch
  split at hsearch
  · next addr hredirect =>
    cases hsearch
    exact absurd hhint (h.addr_ne_empty.2 addr hredirect)
  · cases hsearch
  · next hleads =>
    split at hsearch
    · cases hsearch
    · next hquorum => exact ⟨hleads, hquorum⟩

omit [FloatOps F] [LinearOrder F] in
/-- A wrapped result is a wrapped answer. -/
theorem exists_of_map_ok {R : Type*} {wrap : R → RpcResponse F} {result : Except Status R} {response : RpcResponse F}
    (h : result.map wrap = .ok response) : ∃ answer, result = .ok answer ∧ wrap answer = response := by
  cases result with
  | error status => cases h
  | ok answer => exact ⟨answer, rfl, Except.ok.inj h⟩

/-- A response without a hint is produced on the served path only. -/
theorem Configured.handle_served {self : ReplicaView F} (h : self.Configured) {rpc : Rpc F}
    {response : RpcResponse F} (hhandle : self.handle rpc = .ok response) (hhint : response.leaderHint = "") :
    self.ServedAsLeader rpc := by
  cases rpc with
  | insert req =>
    obtain ⟨answer, hwrite, rfl⟩ := exists_of_map_ok hhandle
    exact h.write_served InsertResponse.leaderHint (fun _ _ => rfl) hwrite hhint
  | delete req =>
    obtain ⟨answer, hwrite, rfl⟩ := exists_of_map_ok hhandle
    exact h.write_served DeleteResponse.leaderHint (fun _ _ => rfl) hwrite hhint
  | search req =>
    obtain ⟨answer, hsearch, rfl⟩ := exists_of_map_ok hhandle
    exact h.search_served hsearch hhint

end ReplicaView

end RaftVec
