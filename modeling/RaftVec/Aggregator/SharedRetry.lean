import RaftVec.Aggregator.RetrySteps
import RaftVec.Library.Run
import RaftVec.Node.LeaderHint

/-!
# Calls that share one shard's cached guess

Any number of calls run on one shard at once. They share nothing but the guess, and each
piece of a call between two awaits loads or stores it once, so pieces are steps: a call
starts, an attempt some call waits for ends, or a call is dropped where it waits.

Whatever the replicas reply and in whatever order, the guess stays among the clients, no
index is out of range, and a call that returns `Ok` returns what the replica it waited for
served as leader.
-/

namespace RaftVec

instance (F : Type*) : CarriesLeaderHint (RpcResponse F) := ⟨RpcResponse.leaderHint⟩

/-- A shard with the calls made on it so far, each with its request and where it stands. -/
structure SharedShard (C F : Type*) where
  shard : ConnectedShard C
  calls : List (Rpc F × CallPhase C (RpcResponse F))

/-- What can happen on a shard: a call starts, the attempt a call waits for ends as the
replica behind its client has it, or a call is dropped. -/
inductive CallEvent (C F : Type*) where
  | call (rpc : Rpc F)
  | ended (n : ℕ) (reply : C → AttemptFate (ReplicaView F))
  | cancel (n : ℕ)

/-- Openraft tells every replica that is reached only of leaders in its configuration. -/
def CallEvent.Configured {C F : Type*} : CallEvent C F → Prop
  | .ended _ reply => ∀ client view replyLost, reply client = .reached view replyLost → view.Configured
  | _ => True

namespace SharedShard

variable {C F : Type*}

/-- A shard on which no call was made. -/
def start (shard : ConnectedShard C) : SharedShard C F := ⟨shard, []⟩

variable [FloatOps F] [LinearOrder F]

/-- What a caller sees of an attempt. -/
def attemptOutcome (fate : AttemptFate (ReplicaView F)) (rpc : Rpc F) : AttemptOutcome (RpcResponse F) :=
  (runAttempt fate (fun view (_ : Unit) => (view.handle rpc, ())) ()).1

/-- Take one step. -/
def step (self : SharedShard C F) : CallEvent C F → SharedShard C F
  | .call rpc => ⟨self.shard, self.calls ++ [(rpc, self.shard.beginCall)]⟩
  | .ended n reply =>
    match self.calls[n]? with
    | some (rpc, .awaiting client idx left lastErr) =>
      let after := self.shard.attemptEnded idx left lastErr (attemptOutcome (reply client) rpc)
      ⟨after.1, self.calls.set n (rpc, after.2)⟩
    | _ => self
  | .cancel n =>
    match self.calls[n]? with
    | some (rpc, .awaiting _ _ _ _) => ⟨self.shard, self.calls.set n (rpc, .cancelled)⟩
    | _ => self

/-- The call waited for a replica of the shard, which served the request as leader and
answered it with this response. -/
def Served (shard : ConnectedShard C) (past : List (CallEvent C F)) (n : ℕ) (rpc : Rpc F)
    (response : RpcResponse F) : Prop :=
  ∃ before reply later, past = before ++ .ended n reply :: later ∧
    ∃ client idx left lastErr view,
      (Run.run step (start shard) before).calls[n]? = some (rpc, .awaiting client idx left lastErr) ∧
      shard.clients[idx]? = some client ∧ reply client = .reached view false ∧
      view.handle rpc = .ok response ∧ view.ServedAsLeader rpc

/-- Where a call may stand: waiting for the client at its index, over, but never panicked. -/
def PhaseSafe (shard : ConnectedShard C) (past : List (CallEvent C F)) (n : ℕ) (rpc : Rpc F) :
    CallPhase C (RpcResponse F) → Prop
  | .awaiting client idx _ _ => shard.clients[idx]? = some client
  | .returned (.ok response) => Served shard past n rpc response
  | .panicked => False
  | _ => True

/-- What holds after any sequence of steps. -/
structure Safe (shard : ConnectedShard C) (past : List (CallEvent C F)) (state : SharedShard C F) : Prop where
  reached : state = Run.run step (start shard) past
  clients : state.shard.clients = shard.clients
  wellFormed : state.shard.WellFormed
  phases : ∀ n rpc phase, state.calls[n]? = some (rpc, phase) → PhaseSafe shard past n rpc phase

variable {shard : ConnectedShard C} {past : List (CallEvent C F)} {self : SharedShard C F}

/-- A response once served stays served. -/
theorem Served.snoc {n : ℕ} {rpc : Rpc F} {response : RpcResponse F} (h : Served shard past n rpc response)
    (event : CallEvent C F) : Served shard (past ++ [event]) n rpc response := by
  obtain ⟨before, reply, later, hpast, hserved⟩ := h
  refine ⟨before, reply, later ++ [event], ?_, hserved⟩
  rw [hpast, List.append_assoc, List.cons_append]

/-- A call that does not move stays safe. -/
theorem PhaseSafe.snoc {n : ℕ} {rpc : Rpc F} {phase : CallPhase C (RpcResponse F)}
    (h : PhaseSafe shard past n rpc phase) (event : CallEvent C F) :
    PhaseSafe shard (past ++ [event]) n rpc phase := by
  cases phase with
  | awaiting client idx left lastErr => exact h
  | cancelled => trivial
  | panicked => exact h
  | returned result =>
    cases result with
    | error e => trivial
    | ok response => exact Served.snoc h event

/-- Sending an attempt to one of the clients is safe. -/
theorem phaseSafe_sendAttempt {current : ConnectedShard C} (hclients : current.clients = shard.clients) {idx : ℕ}
    (hidx : idx < current.clients.length) (past : List (CallEvent C F)) (n : ℕ) (rpc : Rpc F)
    (lastErr : Option RouterError) (left : ℕ) :
    PhaseSafe shard past n rpc (current.sendAttempt idx lastErr left) := by
  cases left with
  | zero => trivial
  | succ left =>
    rw [ConnectedShard.sendAttempt_of_lt hidx]
    change shard.clients[idx]? = _
    rw [← hclients, List.getElem?_eq_getElem hidx]

/-- One step more is a run with its event at the end. -/
theorem Safe.reached_snoc (h : Safe shard past self) (event : CallEvent C F) :
    step self event = Run.run step (start shard) (past ++ [event]) := by
  rw [Run.run_append, ← h.reached]
  rfl

/-- A step that changes nothing keeps every call safe. -/
theorem Safe.unchanged (h : Safe shard past self) {event : CallEvent C F} (hstep : step self event = self) :
    Safe shard (past ++ [event]) (step self event) where
  reached := h.reached_snoc _
  clients := by
    rw [hstep]
    exact h.clients
  wellFormed := by
    rw [hstep]
    exact h.wellFormed
  phases n rpc phase hcall := by
    rw [hstep] at hcall
    exact (h.phases n rpc phase hcall).snoc event

/-- One call takes a step, and the others stay where they are. -/
theorem Safe.set (h : Safe shard past self) {event : CallEvent C F} {current : ConnectedShard C} {n : ℕ}
    {rpc : Rpc F} {phase : CallPhase C (RpcResponse F)}
    (hstep : step self event = ⟨current, self.calls.set n (rpc, phase)⟩)
    (hclients : current.clients = shard.clients) (hcurrent : current.WellFormed)
    (hphase : PhaseSafe shard (past ++ [event]) n rpc phase) : Safe shard (past ++ [event]) (step self event) where
  reached := h.reached_snoc _
  clients := by
    rw [hstep]
    exact hclients
  wellFormed := by
    rw [hstep]
    exact hcurrent
  phases m other phase' hcall := by
    rw [hstep] at hcall
    by_cases hsame : n = m
    · subst hsame
      rw [List.getElem?_set, if_pos rfl] at hcall
      split at hcall
      · cases hcall
        exact hphase
      · cases hcall
    · rw [List.getElem?_set_ne hsame] at hcall
      exact (h.phases m other phase' hcall).snoc event

/-- A call that starts waits for the client at the cached guess. -/
theorem Safe.call (h : Safe shard past self) (rpc : Rpc F) :
    Safe shard (past ++ [.call rpc]) (step self (.call rpc)) where
  reached := h.reached_snoc _
  clients := h.clients
  wellFormed := h.wellFormed
  phases n other phase hcall := by
    change (self.calls ++ [(rpc, self.shard.beginCall)])[n]? = _ at hcall
    rcases Run.getElem?_concat_cases hcall with hold | ⟨-, hnew⟩
    · exact (h.phases n other phase hold).snoc _
    · cases hnew
      rw [h.wellFormed.beginCall_eq]
      exact phaseSafe_sendAttempt h.clients h.wellFormed.hint_lt _ n rpc none maxLeaderAttempts

/-- The end of an attempt leaves the guess among the clients and the call safe. -/
theorem Safe.attemptEnded (h : Safe shard past self) {n : ℕ} {rpc : Rpc F} {client : C} {idx left : ℕ}
    {lastErr : Option RouterError} (hcall : self.calls[n]? = some (rpc, .awaiting client idx left lastErr))
    {reply : C → AttemptFate (ReplicaView F)} (hreply : (CallEvent.ended n reply).Configured) :
    let after := self.shard.attemptEnded idx left lastErr (attemptOutcome (reply client) rpc)
    after.1.clients = shard.clients ∧ after.1.WellFormed ∧
      PhaseSafe shard (past ++ [.ended n reply]) n rpc after.2 := by
  have hclient : shard.clients[idx]? = some client := h.phases n rpc _ hcall
  have hidx : idx < self.shard.clients.length := by
    rw [h.clients]
    exact (List.getElem?_eq_some_iff.mp hclient).1
  have hnext := h.wellFormed.nextIdx_lt idx (attemptOutcome (reply client) rpc)
  simp only [ConnectedShard.attemptEnded]
  cases hserved : (attemptOutcome (reply client) rpc).served with
  | none =>
    exact ⟨h.clients, h.wellFormed.move hnext, phaseSafe_sendAttempt h.clients hnext _ n rpc _ left⟩
  | some response =>
    obtain ⟨view, hview, hhandle, hhint, -⟩ := runAttempt_served hserved
    have hleader : view.ServedAsLeader rpc := (hreply client view false hview).handle_served hhandle hhint
    refine ⟨h.clients, h.wellFormed.move hidx, past, reply, [], rfl, client, idx, left, lastErr, view, ?_, hclient,
      hview, hhandle, hleader⟩
    rw [← h.reached]
    exact hcall

/-- Nothing ends or drops a call that does not wait. -/
theorem step_of_not_awaiting {n : ℕ}
    (h : ¬∃ rpc client idx left lastErr, self.calls[n]? = some (rpc, .awaiting client idx left lastErr)) :
    (∀ reply, step self (.ended n reply) = self) ∧ step self (.cancel n) = self := by
  simp only [step]
  constructor
  · intro reply
    split
    · next rpc client idx left lastErr hcall => exact absurd ⟨rpc, client, idx, left, lastErr, hcall⟩ h
    · rfl
  · split
    · next rpc client idx left lastErr hcall => exact absurd ⟨rpc, client, idx, left, lastErr, hcall⟩ h
    · rfl

/-- Every step keeps every call safe. -/
theorem Safe.step (h : Safe shard past self) {event : CallEvent C F} (hevent : event.Configured) :
    Safe shard (past ++ [event]) (step self event) := by
  cases event with
  | call rpc => exact h.call rpc
  | ended n reply =>
    by_cases hcall : ∃ rpc client idx left lastErr, self.calls[n]? = some (rpc, .awaiting client idx left lastErr)
    · obtain ⟨rpc, client, idx, left, lastErr, hcall⟩ := hcall
      obtain ⟨hclients, hcurrent, hphase⟩ := h.attemptEnded hcall hevent
      exact h.set (by simp only [SharedShard.step, hcall]) hclients hcurrent hphase
    · exact h.unchanged ((step_of_not_awaiting hcall).1 reply)
  | cancel n =>
    by_cases hcall : ∃ rpc client idx left lastErr, self.calls[n]? = some (rpc, .awaiting client idx left lastErr)
    · obtain ⟨rpc, client, idx, left, lastErr, hcall⟩ := hcall
      have hstep : SharedShard.step self (.cancel n) = ⟨self.shard, self.calls.set n (rpc, .cancelled)⟩ := by
        simp only [SharedShard.step, hcall]
      exact h.set hstep h.clients h.wellFormed trivial
    · exact h.unchanged (step_of_not_awaiting hcall).2

/-- On a shard that `connect` built over some replicas, whatever calls are made on it, in
whatever order their attempts end and wherever they are dropped: the guess is one of the
clients, no call has panicked, a call that waits does so for the client at its index, and
a call that returned `Ok` returned what a replica of the shard served as leader. -/
theorem shared_calls_safe {dial : ℕ → ℕ → ℕ → Except String C} {shardReplicaAddrs : List (List String)}
    {shards : List (ConnectedShard C)} (hconnect : connect dial shardReplicaAddrs = .ok shards)
    {shard : ConnectedShard C} (hshard : shard ∈ shards) (hsome : shard.addrs ≠ []) {events : List (CallEvent C F)}
    (hguard : Run.Guarded (fun _ event => event.Configured) SharedShard.step (start shard) events) :
    let final := Run.run SharedShard.step (start shard) events
    final.shard.clients = shard.clients ∧ final.shard.leaderHint < shard.clients.length ∧
      ∀ n rpc phase, final.calls[n]? = some (rpc, phase) →
        phase ≠ .panicked ∧
        (∀ client idx left lastErr, phase = .awaiting client idx left lastErr → shard.clients[idx]? = some client) ∧
        ∀ response, phase = .returned (.ok response) → Served shard events n rpc response := by
  intro final
  have hstart : Safe shard [] (start shard : SharedShard C F) :=
    ⟨rfl, rfl, ConnectedShard.WellFormed.of_connect hconnect hshard hsome, fun n rpc phase hcall => by cases hcall⟩
  have hfinal : Safe shard events final :=
    Run.invariant_of_history (fun _ _ _ h hevent => h.step hevent) hstart hguard
  refine ⟨hfinal.clients, hfinal.clients ▸ hfinal.wellFormed.hint_lt, ?_⟩
  intro n rpc phase hcall
  have hphase := hfinal.phases n rpc phase hcall
  refine ⟨?_, ?_, ?_⟩
  · rintro rfl
    exact hphase
  · rintro client idx left lastErr rfl
    exact hphase
  · rintro response rfl
    exact hphase

/-- Of two calls one is redirected and answered and the other is dropped. -/
theorem shared_calls_safe_redirected :
    let view : Except ClientWriteError ShardCommandResponse → ReplicaView ℤ := fun written =>
      ⟨1, written, ⟨⟨none, .default⟩, .error "", .ok (), .sequential _⟩, .new⟩
    let reply : ℕ → AttemptFate (ReplicaView ℤ) := fun client =>
      .reached (view (if client = 0 then .error (.forwardToLeader (some ⟨"http://b"⟩)) else .ok ⟨1⟩)) false
    let events : List (CallEvent ℕ ℤ) :=
      [.call (.delete ⟨"docs", [7]⟩), .call (.delete ⟨"docs", [8]⟩), .ended 0 reply, .cancel 1, .ended 0 reply]
    let shard : ConnectedShard ℕ := ⟨[0, 1], ["http://a", "http://b"], 0⟩
    (Run.run SharedShard.step (start shard) events).shard.leaderHint < 2 ∧
      Served shard events 0 (.delete ⟨"docs", [7]⟩) (.deleted ⟨1, ""⟩) := by
  intro view reply events shard
  have hconnect : connect (fun _ idx _ => .ok idx) [["http://a", "http://b"]] = .ok [shard] := rfl
  have hview : ∀ client view replyLost, reply client = .reached view replyLost → view.Configured := by
    intro client answer replyLost hreply
    cases hreply
    refine ⟨["1=a", "2=b"], _, rfl, ?_, ?_⟩
    · intro node hnode
      refine ⟨2, ?_⟩
      change (if client = 0 then .error (.forwardToLeader (some ⟨"http://b"⟩)) else .ok ⟨1⟩ :
        Except ClientWriteError ShardCommandResponse) = _ at hnode
      split at hnode
      · cases hnode
        decide
      · cases hnode
    · intro id node hnode
      change (∅ : Std.ExtTreeMap NodeId BasicNode)[id]? = some node at hnode
      rw [Std.ExtTreeMap.getElem?_empty] at hnode
      cases hnode
  have hguard : Run.Guarded (fun _ event => event.Configured) SharedShard.step (start shard) events :=
    ⟨trivial, trivial, hview, trivial, hview, trivial⟩
  obtain ⟨-, hhint, hcalls⟩ := shared_calls_safe hconnect List.mem_cons_self (by decide) hguard
  exact ⟨hhint, (hcalls 0 _ _ rfl).2.2 _ rfl⟩

end SharedShard

end RaftVec
