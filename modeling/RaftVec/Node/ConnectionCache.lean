import RaftVec.Library.Run
import RaftVec.Node.StateMachine

/-!
# The cache of connections to peers

All of a replica's connections to its peers share one map of clients behind a lock.
`get_or_connect` takes the lock to look the target up, gives it back, connects without it,
and takes it again to store the new client. Any number of calls are in flight, for any
targets and addresses, and are cut here at every place where a task can be suspended.

A client that is cached or returned for a target was connected for that target, and once one
is there no later call for the target connects.
-/

namespace RaftVec

open Std Run

/-- An open connection: for which target and to which address, and which connect opened it. -/
structure Client where
  target : NodeId
  addr : String
  opened : ℕ
deriving DecidableEq

/-- Where a call of `get_or_connect` stands. -/
inductive ConnectPhase where
  | lookup
  | looking
  | connecting
  | connected (client : Client)
  | storing (client : Client)
  | returned (result : Except String Client)
deriving DecidableEq

/-- The call has the lock. -/
def ConnectPhase.locked : ConnectPhase → Bool
  | .looking | .storing _ => true
  | _ => false

/-- One call of `get_or_connect`. -/
structure ConnectCall where
  target : NodeId
  addr : String
  phase : ConnectPhase
deriving DecidableEq

/-- The shared map, who has its lock, every call so far and how many connects succeeded. -/
structure GrpcNetwork where
  clients : ExtTreeMap NodeId Client
  lock : Option ℕ
  calls : List ConnectCall
  opened : ℕ

/-- What can happen next. -/
inductive ConnectEvent where
  | call (target : NodeId) (addr : String)
  | acquire (n : ℕ)
  | release (n : ℕ)
  | connect (n : ℕ)
  | refuse (n : ℕ) (error : String)
deriving DecidableEq

namespace GrpcNetwork

/-- No connection yet. -/
def default : GrpcNetwork := ⟨∅, none, [], 0⟩

/-- Put one call in a new phase. -/
def move (self : GrpcNetwork) (n : ℕ) (phase : ConnectPhase) : List ConnectCall :=
  self.calls.modify n fun call => { call with phase := phase }

/-- What a call does with the lock, before it gives it back: look the target up and return
what it finds, or store its own client and return it. -/
def release (self : GrpcNetwork) (n : ℕ) : GrpcNetwork :=
  match self.calls[n]? with
  | some ⟨target, _, .looking⟩ =>
    match self.clients[target]? with
    | some client => { self with lock := none, calls := self.move n (.returned (.ok client)) }
    | none => { self with lock := none, calls := self.move n .connecting }
  | some ⟨target, _, .storing client⟩ =>
    { self with
      clients := self.clients.insert target client
      lock := none
      calls := self.move n (.returned (.ok client)) }
  | _ => self

/-- Take the lock to look up, or to store. -/
def acquire (self : GrpcNetwork) (n : ℕ) : GrpcNetwork :=
  match self.calls[n]? with
  | some ⟨_, _, .lookup⟩ => { self with lock := some n, calls := self.move n .looking }
  | some ⟨_, _, .connected client⟩ => { self with lock := some n, calls := self.move n (.storing client) }
  | _ => self

/-- A connect succeeds. -/
def connect (self : GrpcNetwork) (n : ℕ) : GrpcNetwork :=
  match self.calls[n]? with
  | some ⟨target, addr, .connecting⟩ =>
    { self with calls := self.move n (.connected ⟨target, addr, self.opened⟩), opened := self.opened + 1 }
  | _ => self

/-- A connect fails, or the address is malformed. -/
def refuse (self : GrpcNetwork) (n : ℕ) (error : String) : GrpcNetwork :=
  match self.calls[n]? with
  | some ⟨_, _, .connecting⟩ => { self with calls := self.move n (.returned (.error error)) }
  | _ => self

/-- Take one step. The lock is granted only while it is free. -/
def step (self : GrpcNetwork) : ConnectEvent → GrpcNetwork
  | .call target addr => { self with calls := self.calls ++ [⟨target, addr, .lookup⟩] }
  | .acquire n => if self.lock = none then self.acquire n else self
  | .release n => self.release n
  | .connect n => self.connect n
  | .refuse n error => self.refuse n error

/-- Everything that can happen to a call: one case per piece of `get_or_connect`. -/
inductive Moves (self : GrpcNetwork) (n : ℕ) (call : ConnectCall) : GrpcNetwork → Prop where
  | look (phase : call.phase = .lookup) (free : self.lock = none) :
      Moves self n call ⟨self.clients, some n, self.move n .looking, self.opened⟩
  | hit {client : Client} (phase : call.phase = .looking) (found : self.clients[call.target]? = some client) :
      Moves self n call ⟨self.clients, none, self.move n (.returned (.ok client)), self.opened⟩
  | miss (phase : call.phase = .looking) (absent : self.clients[call.target]? = none) :
      Moves self n call ⟨self.clients, none, self.move n .connecting, self.opened⟩
  | opened (phase : call.phase = .connecting) :
      Moves self n call ⟨self.clients, self.lock,
        self.move n (.connected ⟨call.target, call.addr, self.opened⟩), self.opened + 1⟩
  | refused (error : String) (phase : call.phase = .connecting) :
      Moves self n call ⟨self.clients, self.lock, self.move n (.returned (.error error)), self.opened⟩
  | store {client : Client} (phase : call.phase = .connected client) (free : self.lock = none) :
      Moves self n call ⟨self.clients, some n, self.move n (.storing client), self.opened⟩
  | stored {client : Client} (phase : call.phase = .storing client) :
      Moves self n call ⟨self.clients.insert call.target client, none,
        self.move n (.returned (.ok client)), self.opened⟩

/-- A step adds a call, moves one, or does nothing. -/
theorem step_cases (self : GrpcNetwork) (event : ConnectEvent) :
    self.step event = self ∨
      (∃ target addr, self.step event = { self with calls := self.calls ++ [⟨target, addr, .lookup⟩] }) ∨
      ∃ (n : ℕ) (call : ConnectCall), self.calls[n]? = some call ∧ self.Moves n call (self.step event) := by
  cases event with
  | call target addr => exact Or.inr (Or.inl ⟨target, addr, rfl⟩)
  | acquire n =>
    simp only [step]
    split
    · next hfree =>
      unfold acquire
      split
      · next target addr hcall => exact Or.inr (Or.inr ⟨n, _, hcall, .look rfl hfree⟩)
      · next target addr client hcall => exact Or.inr (Or.inr ⟨n, _, hcall, .store rfl hfree⟩)
      · exact Or.inl rfl
    · exact Or.inl rfl
  | release n =>
    simp only [step]
    unfold release
    split
    · next target addr hcall =>
      split
      · next client hfound => exact Or.inr (Or.inr ⟨n, _, hcall, .hit rfl hfound⟩)
      · next habsent => exact Or.inr (Or.inr ⟨n, _, hcall, .miss rfl habsent⟩)
    · next target addr client hcall => exact Or.inr (Or.inr ⟨n, _, hcall, .stored rfl⟩)
    · exact Or.inl rfl
  | connect n =>
    simp only [step]
    unfold connect
    split
    · next target addr hcall => exact Or.inr (Or.inr ⟨n, _, hcall, .opened rfl⟩)
    · exact Or.inl rfl
  | refuse n error =>
    simp only [step]
    unfold refuse
    split
    · next target addr hcall => exact Or.inr (Or.inr ⟨n, _, hcall, .refused error rfl⟩)
    · exact Or.inl rfl

/-- A moved call keeps its target and address, and the others are left alone. -/
theorem move_getElem? (self : GrpcNetwork) (n m : ℕ) (phase : ConnectPhase) :
    (self.move n phase)[m]? =
      self.calls[m]?.map fun call => if n = m then { call with phase := phase } else call := by
  rw [move, List.getElem?_modify, Option.map_eq_map]

/-- A call after a move is the call that stood there, in its new phase if it is the one that moved. -/
theorem exists_of_move {self : GrpcNetwork} {n m : ℕ} {phase : ConnectPhase} {call : ConnectCall}
    (h : (self.move n phase)[m]? = some call) :
    ∃ old, self.calls[m]? = some old ∧ call.target = old.target ∧ call.addr = old.addr ∧
      call.phase = if n = m then phase else old.phase := by
  rw [move_getElem?, Option.map_eq_some_iff] at h
  obtain ⟨old, hold, rfl⟩ := h
  refine ⟨old, hold, ?_⟩
  split <;> exact ⟨rfl, rfl, rfl⟩

/-- Some call connected to the client's address for the client's target. -/
def Asked (calls : List ConnectCall) (client : Client) : Prop :=
  ∃ (m : ℕ) (call : ConnectCall), calls[m]? = some call ∧ call.target = client.target ∧ call.addr = client.addr

/-- Moving a call keeps what was asked for. -/
theorem Asked.move {self : GrpcNetwork} {client : Client} (h : Asked self.calls client) (n : ℕ)
    (phase : ConnectPhase) : Asked (self.move n phase) client := by
  obtain ⟨m, call, hcall, htarget, haddr⟩ := h
  refine ⟨m, _, by rw [move_getElem?, hcall, Option.map_some], ?_⟩
  split <;> exact ⟨htarget, haddr⟩

end GrpcNetwork

/-- The client a call has in hand. -/
def ConnectPhase.client? : ConnectPhase → Option Client
  | .connected client | .storing client | .returned (.ok client) => some client
  | _ => none

namespace GrpcNetwork

/-- What holds after any steps. -/
structure Valid (network : GrpcNetwork) : Prop where
  lock_iff : ∀ n : ℕ, network.lock = some n ↔
    ∃ call, network.calls[n]? = some call ∧ call.phase.locked = true
  cached : ∀ (target : NodeId) client, network.clients[target]? = some client →
    client.target = target ∧ Asked network.calls client
  carried : ∀ (n : ℕ) call client, network.calls[n]? = some call → call.phase.client? = some client →
    client.target = call.target ∧ Asked network.calls client
  stored : ∀ (n : ℕ) call client, network.calls[n]? = some call → call.phase = .returned (.ok client) →
    network.clients[call.target]? ≠ none

/-- A new call waits to look its target up. -/
theorem Valid.call {network : GrpcNetwork} (h : network.Valid) (target : NodeId) (addr : String) :
    Valid { network with calls := network.calls ++ [⟨target, addr, .lookup⟩] } := by
  have hcases : ∀ (m : ℕ) (call : ConnectCall), (network.calls ++ [⟨target, addr, .lookup⟩])[m]? = some call →
      network.calls[m]? = some call ∨ call = ⟨target, addr, .lookup⟩ := by
    intro m call hcall
    exact (getElem?_concat_cases hcall).imp_right And.right
  have hkept : ∀ (m : ℕ) (call : ConnectCall), network.calls[m]? = some call →
      (network.calls ++ [⟨target, addr, .lookup⟩])[m]? = some call :=
    fun m call hcall => getElem?_concat_of_some _ hcall
  have hasked : ∀ client, Asked network.calls client →
      Asked (network.calls ++ [⟨target, addr, .lookup⟩]) client := by
    rintro client ⟨m, call, hcall, hsame⟩
    exact ⟨m, call, hkept m call hcall, hsame⟩
  refine ⟨?_, ?_, ?_, ?_⟩
  · intro n
    rw [show ({ network with calls := network.calls ++ [⟨target, addr, .lookup⟩] } : GrpcNetwork).lock =
      network.lock from rfl, h.lock_iff n]
    constructor
    · rintro ⟨call, hcall, hphase⟩
      exact ⟨call, hkept n call hcall, hphase⟩
    · rintro ⟨call, hcall, hphase⟩
      rcases hcases n call hcall with hold | rfl
      · exact ⟨call, hold, hphase⟩
      · cases hphase
  · intro other client hclient
    exact (h.cached other client hclient).imp_right (hasked client)
  · intro n call client hcall hclient
    rcases hcases n call hcall with hold | rfl
    · exact (h.carried n call client hold hclient).imp_right (hasked client)
    · cases hclient
  · intro n call client hcall hphase
    rcases hcases n call hcall with hold | rfl
    · exact h.stored n call client hold hphase
    · cases hphase

/-- What a call that moves has to see to. -/
theorem Valid.moved {network : GrpcNetwork} (h : network.Valid) {n : ℕ} {call : ConnectCall}
    (hcall : network.calls[n]? = some call) {clients : ExtTreeMap NodeId Client} {lock : Option ℕ}
    {phase : ConnectPhase} (opened : ℕ)
    (hlock : ∀ m, lock = some m ↔ if n = m then phase.locked = true else network.lock = some m)
    (hclients : ∀ (target : NodeId) client, clients[target]? = some client →
      network.clients[target]? = some client ∨ target = call.target ∧ call.phase.client? = some client)
    (hkept : ∀ target : NodeId, network.clients[target]? ≠ none → clients[target]? ≠ none)
    (hclient : ∀ client, phase.client? = some client → client.target = call.target ∧ Asked network.calls client)
    (hstored : ∀ client, phase = .returned (.ok client) → clients[call.target]? ≠ none) :
    Valid ⟨clients, lock, network.move n phase, opened⟩ := by
  refine ⟨?_, ?_, ?_, ?_⟩
  · intro m
    rw [show (⟨clients, lock, network.move n phase, opened⟩ : GrpcNetwork).lock = lock from rfl, hlock m]
    change _ ↔ ∃ call, (network.move n phase)[m]? = some call ∧ _
    rw [move_getElem?]
    by_cases hm : n = m
    · subst hm
      simp [hcall]
    · simp [hm, h.lock_iff m]
  · intro target client hfound
    rcases hclients target client hfound with hold | ⟨rfl, hown⟩
    · exact (h.cached target client hold).imp_right fun hasked => hasked.move n phase
    · exact (h.carried n call client hcall hown).imp_right fun hasked => hasked.move n phase
  · intro m moved client hmoved hphase
    obtain ⟨old, hold, htarget, -, hnow⟩ := exists_of_move hmoved
    rw [htarget]
    rw [hnow] at hphase
    split at hphase
    · next hm =>
      subst hm
      cases hcall.symm.trans hold
      exact (hclient client hphase).imp_right fun hasked => hasked.move n phase
    · exact (h.carried m old client hold hphase).imp_right fun hasked => hasked.move n phase
  · intro m moved client hmoved hphase
    obtain ⟨old, hold, htarget, -, hnow⟩ := exists_of_move hmoved
    rw [htarget]
    rw [hnow] at hphase
    split at hphase
    · next hm =>
      subst hm
      cases hcall.symm.trans hold
      exact hstored client hphase
    · exact hkept old.target (h.stored m old client hold hphase)

/-- A call that has the lock gives it back. -/
theorem Valid.released {network : GrpcNetwork} (h : network.Valid) {n : ℕ} {call : ConnectCall}
    (hcall : network.calls[n]? = some call) (hlocked : call.phase.locked = true) {phase : ConnectPhase}
    (hphase : phase.locked = false) (m : ℕ) :
    none = some m ↔ if n = m then phase.locked = true else network.lock = some m := by
  rw [(h.lock_iff n).mpr ⟨call, hcall, hlocked⟩, hphase]
  simp

/-- A call without the lock does not change who has it. -/
theorem Valid.unlocked {network : GrpcNetwork} (h : network.Valid) {n : ℕ} {call : ConnectCall}
    (hcall : network.calls[n]? = some call) (hunlocked : call.phase.locked = false) {phase : ConnectPhase}
    (hphase : phase.locked = false) (m : ℕ) :
    network.lock = some m ↔ if n = m then phase.locked = true else network.lock = some m := by
  by_cases hm : n = m
  · subst hm
    rw [if_pos rfl, hphase, h.lock_iff n, hcall]
    simp [hunlocked]
  · rw [if_neg hm]

/-- A call takes the free lock. -/
theorem acquired {network : GrpcNetwork} (hfree : network.lock = none) {n : ℕ} {phase : ConnectPhase}
    (hphase : phase.locked = true) (m : ℕ) :
    some n = some m ↔ if n = m then phase.locked = true else network.lock = some m := by
  rw [hfree, hphase]
  simp

/-- Every step keeps the invariant. -/
theorem Valid.step (network : GrpcNetwork) (event : ConnectEvent) (h : network.Valid) :
    (network.step event).Valid := by
  rcases network.step_cases event with hsame | ⟨target, addr, hnew⟩ | ⟨n, call, hcall, hmoves⟩
  · rw [hsame]
    exact h
  · rw [hnew]
    exact h.call target addr
  · have hown : Asked network.calls ⟨call.target, call.addr, network.opened⟩ := ⟨n, call, hcall, rfl, rfl⟩
    generalize network.step event = next at hmoves
    cases hmoves with
    | look hphase hfree =>
      exact h.moved hcall _ (acquired hfree rfl) (fun _ _ => Or.inl) (fun _ => id) (fun _ hclient => by cases hclient)
        (fun _ hreturned => by cases hreturned)
    | hit hphase hfound =>
      refine h.moved hcall _ (h.released hcall (by rw [hphase]; rfl) rfl) (fun _ _ => Or.inl) (fun _ => id) ?_ ?_
      · intro client hclient
        cases hclient
        exact h.cached call.target _ hfound
      · intro client _
        rw [hfound]
        simp
    | miss hphase habsent =>
      exact h.moved hcall _ (h.released hcall (by rw [hphase]; rfl) rfl) (fun _ _ => Or.inl) (fun _ => id)
        (fun _ hclient => by cases hclient) (fun _ hreturned => by cases hreturned)
    | opened hphase =>
      refine h.moved hcall _ (h.unlocked hcall (by rw [hphase]; rfl) rfl) (fun _ _ => Or.inl) (fun _ => id) ?_
        (fun _ hreturned => by cases hreturned)
      intro client hclient
      cases hclient
      exact ⟨rfl, hown⟩
    | refused error hphase =>
      exact h.moved hcall _ (h.unlocked hcall (by rw [hphase]; rfl) rfl) (fun _ _ => Or.inl) (fun _ => id)
        (fun _ hclient => by cases hclient) (fun _ hreturned => by cases hreturned)
    | store hphase hfree =>
      refine h.moved hcall _ (acquired hfree rfl) (fun _ _ => Or.inl) (fun _ => id) ?_
        (fun _ hreturned => by cases hreturned)
      intro client hclient
      cases hclient
      exact h.carried n call _ hcall (by rw [hphase]; rfl)
    | @stored client hphase =>
      have hcarried : call.phase.client? = some client := by
        rw [hphase]
        rfl
      refine h.moved hcall _ (h.released hcall (by rw [hphase]; rfl) rfl) ?_ ?_ ?_ ?_
      · intro target other hfound
        rw [ExtTreeMap.getElem?_insert] at hfound
        split at hfound
        · next htarget =>
          cases hfound
          exact Or.inr ⟨(Std.compare_eq_iff_eq.mp htarget).symm, hcarried⟩
        · exact Or.inl hfound
      · intro target hheld
        rw [ExtTreeMap.getElem?_insert]
        split
        · simp
        · exact hheld
      · intro other hother
        cases hother
        exact h.carried n call client hcall hcarried
      · intro other _
        rw [ExtTreeMap.getElem?_insert_self]
        simp

/-- No connection yet, nothing to hold. -/
theorem valid_default : default.Valid := by
  refine ⟨?_, ?_, ?_, ?_⟩
  · intro n
    simp [default]
  · intro target client hclient
    simp [default] at hclient
  · intro n call client hcall
    cases hcall
  · intro n call client hcall
    cases hcall

/-! ## Reuse -/

/-- Calls made since some moment for a target that was cached then have not connected, and
have not failed. -/
structure Reuses (target : NodeId) (since : ℕ) (network : GrpcNetwork) : Prop where
  valid : network.Valid
  cached : network.clients[target]? ≠ none
  since_le : since ≤ network.calls.length
  reused : ∀ (m : ℕ) call, since ≤ m → network.calls[m]? = some call → call.target = target →
    call.phase = .lookup ∨ call.phase = .looking ∨ ∃ client, call.phase = .returned (.ok client)

/-- A new call for a cached target has not connected. -/
theorem Reuses.call {target : NodeId} {since : ℕ} {network : GrpcNetwork} (h : network.Reuses target since)
    (other : NodeId) (addr : String) :
    Reuses target since { network with calls := network.calls ++ [⟨other, addr, .lookup⟩] } := by
  refine ⟨h.valid.call other addr, h.cached, ?_, ?_⟩
  · change since ≤ (network.calls ++ [_]).length
    rw [List.length_append]
    exact Nat.le_add_right_of_le h.since_le
  · intro m call hm hcall htarget
    change (network.calls ++ [_])[m]? = _ at hcall
    rcases getElem?_concat_cases hcall with hold | ⟨-, rfl⟩
    · exact h.reused m call hm hold htarget
    · exact Or.inl rfl

/-- Every step of a call for a cached target stays short of connecting. -/
theorem Reuses.step {target : NodeId} {since : ℕ} (network : GrpcNetwork) (event : ConnectEvent)
    (h : network.Reuses target since) : (network.step event).Reuses target since := by
  have hvalid := Valid.step network event h.valid
  rcases network.step_cases event with hsame | ⟨other, addr, hnew⟩ | ⟨n, moving, hmoving, hmoves⟩
  · rw [hsame]
    exact h
  · rw [hnew]
    exact h.call other addr
  · generalize network.step event = next at hmoves hvalid
    -- the moving call, if it is one of those meant, was looking up and found its target
    have hphase : ∀ phase, next.calls = network.move n phase → (since ≤ n → moving.target = target →
        phase = .lookup ∨ phase = .looking ∨ ∃ client, phase = .returned (.ok client)) →
        next.clients[target]? ≠ none → next.Reuses target since := by
      intro phase hcalls hown hcached
      refine ⟨hvalid, hcached, ?_, ?_⟩
      · rw [hcalls, move, List.length_modify]
        exact h.since_le
      · intro m call hm hcall htarget
        rw [hcalls] at hcall
        obtain ⟨old, hold, hsame, -, hnow⟩ := exists_of_move hcall
        rw [hsame] at htarget
        rw [hnow]
        split
        · next heq =>
          subst heq
          cases hmoving.symm.trans hold
          exact hown hm htarget
        · exact h.reused m old hm hold htarget
    have hbefore : since ≤ n → moving.target = target → moving.phase = .lookup ∨ moving.phase = .looking ∨
        ∃ client, moving.phase = .returned (.ok client) := fun hn => h.reused n moving hn hmoving
    cases hmoves with
    | look hlookup _ => exact hphase _ rfl (fun _ _ => Or.inr (Or.inl rfl)) h.cached
    | hit hlooking hfound => exact hphase _ rfl (fun _ _ => Or.inr (Or.inr ⟨_, rfl⟩)) h.cached
    | miss hlooking habsent =>
      refine hphase _ rfl ?_ h.cached
      rintro _ rfl
      exact absurd habsent h.cached
    | opened hconnecting =>
      refine hphase _ rfl ?_ h.cached
      intro hn htarget
      rcases hbefore hn htarget with hwas | hwas | ⟨client, hwas⟩ <;> cases hconnecting.symm.trans hwas
    | refused error hconnecting =>
      refine hphase _ rfl ?_ h.cached
      intro hn htarget
      rcases hbefore hn htarget with hwas | hwas | ⟨client, hwas⟩ <;> cases hconnecting.symm.trans hwas
    | store hconnected _ =>
      refine hphase _ rfl ?_ h.cached
      intro hn htarget
      rcases hbefore hn htarget with hwas | hwas | ⟨client, hwas⟩ <;> cases hconnected.symm.trans hwas
    | stored hstoring =>
      refine hphase _ rfl (fun _ _ => Or.inr (Or.inr ⟨_, rfl⟩)) ?_
      rw [ExtTreeMap.getElem?_insert]
      split
      · simp
      · exact h.cached

/-- Once a call has returned a client for a target, no later call for that target connects or
fails, and what it returns was connected for that target, to an address asked for with it. -/
theorem later_calls_reuse_connection (before after : List ConnectEvent) {n m : ℕ} {call later : ConnectCall}
    {client : Client} (hcall : (run step default before).calls[n]? = some call)
    (hreturned : call.phase = .returned (.ok client)) (hm : (run step default before).calls.length ≤ m)
    (hlater : (run step default (before ++ after)).calls[m]? = some later) (htarget : later.target = call.target) :
    (later.phase = .lookup ∨ later.phase = .looking ∨ ∃ client, later.phase = .returned (.ok client)) ∧
      ∀ client, later.phase = .returned (.ok client) → client.target = call.target ∧
        Asked (run step default (before ++ after)).calls client := by
  have hvalid : (run step default before).Valid := invariant_of_step Valid.step valid_default before
  have hstart : (run step default before).Reuses call.target (run step default before).calls.length := by
    refine ⟨hvalid, hvalid.stored n call client hcall hreturned, le_rfl, ?_⟩
    intro k other hk hother
    rw [List.getElem?_eq_none hk] at hother
    cases hother
  have hend := invariant_of_step Reuses.step hstart after
  rw [run_append] at hlater ⊢
  refine ⟨hend.reused m later hm hlater htarget, ?_⟩
  intro found hfound
  obtain ⟨hfor, hasked⟩ := hend.valid.carried m later found hlater (by rw [hfound]; rfl)
  exact ⟨hfor.trans htarget, hasked⟩

/-- A second call for a connected peer, with another address, gets the first one's connection. -/
theorem later_calls_reuse_connection_once :
    let before : List ConnectEvent := [.call 2 "http://b", .acquire 0, .release 0, .connect 0, .acquire 0, .release 0]
    let after : List ConnectEvent := [.call 2 "http://moved", .acquire 1, .release 1]
    ((run step default (before ++ after)).calls[1]?.map fun call => call.phase) =
        some (.returned (.ok ⟨2, "http://b", 0⟩)) ∧
      Asked (run step default (before ++ after)).calls ⟨2, "http://b", 0⟩ := by
  intro before after
  refine ⟨by decide +kernel, ?_⟩
  have hreuse := @later_calls_reuse_connection before after 0 1 ⟨2, "http://b", .returned (.ok ⟨2, "http://b", 0⟩)⟩
    ⟨2, "http://moved", .returned (.ok ⟨2, "http://b", 0⟩)⟩ ⟨2, "http://b", 0⟩ (by decide +kernel) rfl
    (by decide +kernel) (by decide +kernel) rfl
  exact (hreuse.2 _ rfl).2

end GrpcNetwork

end RaftVec
