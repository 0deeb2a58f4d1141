import RaftVec.Node.Service

/-!
# Raft messages between the replicas of one shard

A replica sends its peers openraft's requests as opaque bytes, and a peer's reply carries
the whole result of its local Raft call. What openraft's requests, responses and errors are
is a parameter, as is `bincode`; a call of the local Raft is one step of it.

Any number of calls to one peer are in flight, cut here where a task waits: for the
connection, and for the response. A request stays on its way for any time, also when its
caller has got an error or was dropped meanwhile; it may then reach the peer after later
ones, or never. Of the transport it is assumed that it hands a request to the peer's handler
at most once and unaltered, and a reply to the call whose request it answers.
-/

namespace RaftVec

/-- The calls that replicas make to one another. -/
inductive RaftRpc where
  | appendEntries | vote | installSnapshot
deriving DecidableEq

/-- Openraft's types for each call. -/
structure RaftTypes where
  Request : RaftRpc → Type
  Response : RaftRpc → Type
  Error : RaftRpc → Type

/-- `bincode` for one type. -/
structure Codec (A Bytes : Type*) where
  serialize : A → Except String Bytes
  deserialize : Bytes → Except String A

/-- Deserializing undoes serializing. -/
def Codec.RoundTrips {A Bytes : Type*} (codec : Codec A Bytes) : Prop :=
  ∀ a bytes, codec.serialize a = .ok bytes → codec.deserialize bytes = .ok a

/-- `bincode` for the requests and the results of every call. -/
structure RaftCodec (T : RaftTypes) (Bytes : Type*) where
  request : (rpc : RaftRpc) → Codec (T.Request rpc) Bytes
  result : (rpc : RaftRpc) → Codec (Except (T.Error rpc) (T.Response rpc)) Bytes

/-- Every request and every result arrives as it was sent. -/
structure RaftCodec.RoundTrips {T : RaftTypes} {Bytes : Type*} (codec : RaftCodec T Bytes) : Prop where
  request : ∀ rpc, (codec.request rpc).RoundTrips
  result : ∀ rpc, (codec.result rpc).RoundTrips

/-- One message, in either direction. -/
structure RaftMessage (Bytes : Type*) where
  payload : Bytes

/-- What went wrong below Raft. -/
inductive CallFailure where
  | codec (message : String)
  | connect (message : String)
  | status (status : Status)
deriving DecidableEq

/-- Why a call returned no response. -/
inductive RPCError (E : Type*) where
  | unreachable (source : CallFailure)
  | network (source : CallFailure)
  | remoteError (target : NodeId) (source : E)

/-- The failure is the transport's and not the peer's. -/
def RPCError.transport {E : Type*} : RPCError E → Bool
  | .remoteError _ _ => false
  | _ => true

/-- A replica's Raft handle: what each call answers and does. -/
abbrev LocalRaft (T : RaftTypes) (S : Type*) :=
  (rpc : RaftRpc) → T.Request rpc → S → Except (T.Error rpc) (T.Response rpc) × S

/-- Pack a result into a reply. -/
def encode {A Bytes : Type*} (codec : Codec A Bytes) (result : A) : Except Status (RaftMessage Bytes) :=
  match codec.serialize result with
  | .error e => .error ⟨.internal, e⟩
  | .ok payload => .ok ⟨payload⟩

/-- Unpack a request. -/
def decode {A Bytes : Type*} (codec : Codec A Bytes) (request : RaftMessage Bytes) : Except Status A :=
  match codec.deserialize request.payload with
  | .error e => .error ⟨.invalidArgument, s!"bad Raft message payload: {e}"⟩
  | .ok req => .ok req

variable {T : RaftTypes} {Bytes S : Type*}

namespace ShardRaftService

/-- Hand a request to the local Raft and send its result back. -/
def relay (codec : RaftCodec T Bytes) (raft : LocalRaft T S) (rpc : RaftRpc) (request : RaftMessage Bytes)
    (state : S) : Except Status (RaftMessage Bytes) × S :=
  match decode (codec.request rpc) request with
  | .error status => (.error status, state)
  | .ok req =>
    let result := raft rpc req state
    (encode (codec.result rpc) result.1, result.2)

/-- Serve `AppendEntries`. -/
def appendEntries (codec : RaftCodec T Bytes) (raft : LocalRaft T S) :
    RaftMessage Bytes → S → Except Status (RaftMessage Bytes) × S :=
  relay codec raft .appendEntries

/-- Serve `Vote`. -/
def vote (codec : RaftCodec T Bytes) (raft : LocalRaft T S) :
    RaftMessage Bytes → S → Except Status (RaftMessage Bytes) × S :=
  relay codec raft .vote

/-- Serve `InstallSnapshot`. -/
def installSnapshot (codec : RaftCodec T Bytes) (raft : LocalRaft T S) :
    RaftMessage Bytes → S → Except Status (RaftMessage Bytes) × S :=
  relay codec raft .installSnapshot

/-- The handler a call is sent to. -/
def handler (codec : RaftCodec T Bytes) (raft : LocalRaft T S) :
    RaftRpc → RaftMessage Bytes → S → Except Status (RaftMessage Bytes) × S
  | .appendEntries => appendEntries codec raft
  | .vote => vote codec raft
  | .installSnapshot => installSnapshot codec raft

/-- Every call reaches the handler that decodes its own requests. -/
theorem handler_eq_relay (codec : RaftCodec T Bytes) (raft : LocalRaft T S) (rpc : RaftRpc) :
    handler codec raft rpc = relay codec raft rpc := by
  cases rpc <;> rfl

end ShardRaftService

namespace GrpcConnection

/-- How a failed request is reported: only an unavailable peer counts as unreachable. -/
def statusError {E : Type*} (status : Status) : RPCError E :=
  if status.code = .unavailable then .unreachable (.status status) else .network (.status status)

/-- The beginning of `call`: pack the request. -/
def pack (codec : RaftCodec T Bytes) (rpc : RaftRpc) (req : T.Request rpc) :
    Except (RPCError (T.Error rpc)) (RaftMessage Bytes) :=
  match (codec.request rpc).serialize req with
  | .error e => .error (.network (.codec e))
  | .ok payload => .ok ⟨payload⟩

/-- The end of `call`: unpack what the peer sent back. -/
def unpack (codec : RaftCodec T Bytes) (target : NodeId) (rpc : RaftRpc) :
    Except Status (RaftMessage Bytes) → Except (RPCError (T.Error rpc)) (T.Response rpc)
  | .error status => .error (statusError status)
  | .ok response =>
    match (codec.result rpc).deserialize response.payload with
    | .error e => .error (.network (.codec e))
    | .ok (.error e) => .error (.remoteError target e)
    | .ok (.ok resp) => .ok resp

/-- The peer's own result, as its caller sees it. -/
def relayed {E R : Type*} (target : NodeId) : Except E R → Except (RPCError E) R
  | .ok response => .ok response
  | .error e => .error (.remoteError target e)

/-- The result is the peer's and not the transport's. -/
def answered {E R : Type*} : Except (RPCError E) R → Bool
  | .ok _ => true
  | .error e => !e.transport

/-- A status is reported as a failure of the transport. -/
theorem not_answered_statusError {E R : Type*} (status : Status) :
    answered (.error (statusError status) : Except (RPCError E) R) = false := by
  unfold statusError
  split <;> rfl

/-- A request that reaches the peer is handed to its Raft as it was sent. -/
theorem handler_of_pack {codec : RaftCodec T Bytes} (hcodec : codec.RoundTrips) (raft : LocalRaft T S)
    {rpc : RaftRpc} {req : T.Request rpc} {message : RaftMessage Bytes}
    (hmessage : pack codec rpc req = .ok message) (state : S) :
    ShardRaftService.handler codec raft rpc message state =
      (encode (codec.result rpc) (raft rpc req state).1, (raft rpc req state).2) := by
  unfold pack at hmessage
  split at hmessage
  · cases hmessage
  · next payload hpayload =>
    cases hmessage
    rw [ShardRaftService.handler_eq_relay]
    simp only [ShardRaftService.relay, decode, hcodec.request rpc req payload hpayload]

/-- What a call makes of the peer's reply is the peer's own result, or a failure of the
transport. -/
theorem unpack_encode {codec : RaftCodec T Bytes} (hcodec : codec.RoundTrips) (target : NodeId) (rpc : RaftRpc)
    (result : Except (T.Error rpc) (T.Response rpc))
    (hanswered : answered (unpack codec target rpc (encode (codec.result rpc) result)) = true) :
    unpack codec target rpc (encode (codec.result rpc) result) = relayed target result := by
  unfold encode at hanswered ⊢
  cases hreply : (codec.result rpc).serialize result with
  | error e =>
    simp only [hreply, unpack, not_answered_statusError] at hanswered
    cases hanswered
  | ok reply =>
    simp only [unpack, hcodec.result rpc result reply hreply]
    cases result with
    | ok response => rfl
    | error e => rfl

end GrpcConnection

/-! ## Calls in flight -/

/-- Where a call's caller stands. -/
inductive RaftCallPhase (T : RaftTypes) (Bytes : Type*) (rpc : RaftRpc) where
  | connecting (message : RaftMessage Bytes)
  | awaiting
  | returned (moment : ℕ) (result : Except (RPCError (T.Error rpc)) (T.Response rpc))
  | dropped

/-- Where a call's message is: not sent, on its way to the peer, or served, with the reply on its
way back. -/
inductive Transit (Bytes : Type*) where
  | unsent
  | request (message : RaftMessage Bytes)
  | reply (response : Except Status (RaftMessage Bytes))

/-- One call of `GrpcConnection::call`. -/
structure RaftCall (T : RaftTypes) (Bytes : Type*) where
  rpc : RaftRpc
  req : T.Request rpc
  invoked : ℕ
  phase : RaftCallPhase T Bytes rpc
  transit : Transit Bytes

namespace RaftCall

/-- Pack the request and ask for a connection, or fail at once. -/
def begin (codec : RaftCodec T Bytes) (now : ℕ) (rpc : RaftRpc) (req : T.Request rpc) : RaftCall T Bytes :=
  match GrpcConnection.pack codec rpc req with
  | .error e => ⟨rpc, req, now, .returned now (.error e), .unsent⟩
  | .ok message => ⟨rpc, req, now, .connecting message, .unsent⟩

/-- The connection stands and the request is sent, or there is none. -/
def connect (now : ℕ) (connected : Except String Unit) (self : RaftCall T Bytes) : RaftCall T Bytes :=
  match self.phase, connected with
  | .connecting message, .ok () => { self with phase := .awaiting, transit := .request message }
  | .connecting _, .error e => { self with phase := .returned now (.error (.unreachable (.connect e))) }
  | _, _ => self

/-- The reply arrives while the caller waits for it. -/
def answer (codec : RaftCodec T Bytes) (target : NodeId) (now : ℕ) (self : RaftCall T Bytes) : RaftCall T Bytes :=
  match self.phase, self.transit with
  | .awaiting, .reply response =>
    { self with phase := .returned now (GrpcConnection.unpack codec target self.rpc response) }
  | _, _ => self

/-- The transport gives up on the response, wherever the message is. -/
def fail (now : ℕ) (status : Status) (self : RaftCall T Bytes) : RaftCall T Bytes :=
  match self.phase with
  | .awaiting => { self with phase := .returned now (.error (GrpcConnection.statusError status)) }
  | _ => self

/-- The caller gives up on the call, wherever the message is. -/
def drop (self : RaftCall T Bytes) : RaftCall T Bytes :=
  match self.phase with
  | .connecting _ | .awaiting => { self with phase := .dropped }
  | _ => self

end RaftCall

/-- What a peer's Raft does: serve a call, or act by itself (its timers, its own clients). -/
inductive PeerOp (T : RaftTypes) (A : Type*) where
  | rpc (rpc : RaftRpc) (req : T.Request rpc)
  | own (action : A)

/-- A peer's Raft, all calls to it and its own actions so far, and what it did and when: it served
the call, or took the own action, of that number. -/
structure RaftLink (T : RaftTypes) (Bytes S A : Type*) where
  peer : S
  clock : ℕ
  calls : List (RaftCall T Bytes)
  actions : List (ℕ × A)
  done : List (ℕ × (ℕ ⊕ ℕ))

/-- What can happen next. -/
inductive LinkEvent (T : RaftTypes) (A : Type*) where
  | call (rpc : RaftRpc) (req : T.Request rpc)
  | connect (n : ℕ) (connected : Except String Unit)
  | serve (n : ℕ)
  | answer (n : ℕ)
  | fail (n : ℕ) (status : Status)
  | drop (n : ℕ)
  | own (action : A)

/-- What the peer's Raft answers a call with; its own actions have no answer. -/
abbrev PeerAnswer (T : RaftTypes) := Option (Sigma fun rpc => Except (RPCError (T.Error rpc)) (T.Response rpc))

namespace RaftLink

variable {A : Type*}

/-- No call yet. -/
def start (peer : S) : RaftLink T Bytes S A := ⟨peer, 0, [], [], []⟩

/-- The peer's handler takes a request that is on its way. -/
def serve (codec : RaftCodec T Bytes) (raft : LocalRaft T S) (self : RaftLink T Bytes S A) (n : ℕ) :
    RaftLink T Bytes S A :=
  match self.calls[n]? with
  | none => self
  | some call =>
    match call.transit with
    | .request message =>
      let served := ShardRaftService.handler codec raft call.rpc message self.peer
      { self with
        peer := served.2
        calls := self.calls.set n { call with transit := .reply served.1 }
        done := self.done ++ [(self.clock, .inl n)] }
    | _ => self

/-- Take one step. -/
def act (codec : RaftCodec T Bytes) (target : NodeId) (raft : LocalRaft T S) (own : A → S → S)
    (self : RaftLink T Bytes S A) : LinkEvent T A → RaftLink T Bytes S A
  | .call rpc req => { self with calls := self.calls ++ [.begin codec self.clock rpc req] }
  | .connect n connected => { self with calls := self.calls.modify n (.connect self.clock connected) }
  | .serve n => self.serve codec raft n
  | .answer n => { self with calls := self.calls.modify n (.answer codec target self.clock) }
  | .fail n status => { self with calls := self.calls.modify n (.fail self.clock status) }
  | .drop n => { self with calls := self.calls.modify n .drop }
  | .own action => { self with
      peer := own action self.peer
      actions := self.actions ++ [(self.clock, action)]
      done := self.done ++ [(self.clock, .inr self.actions.length)] }

/-- Take one step and let time pass. -/
def step (codec : RaftCodec T Bytes) (target : NodeId) (raft : LocalRaft T S) (own : A → S → S)
    (self : RaftLink T Bytes S A) (event : LinkEvent T A) : RaftLink T Bytes S A :=
  { self.act codec target raft own event with clock := self.clock + 1 }

end RaftLink

end RaftVec
