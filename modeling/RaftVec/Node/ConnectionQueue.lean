import RaftVec.Node.ConnectionCache

/-!
# Waiting for the lock of the connection cache

The lock is tokio's `Mutex`, which serves first come first served: a call that finds the lock
held joins the end of a queue, and whoever gives the lock back hands it to the head of the
queue. A call that is given up while it waits leaves the queue; one that was handed the lock
and is given up before it ran hands it on without having looked up or stored anything.

The lock is never held across a connect. How long a lookup takes is therefore a matter of the
calls before it in the line and of nobody else: a peer that does not answer delays only the
calls that connect to it.
-/

namespace RaftVec

open Run

/-- The call is to look its target up, or is at it. -/
def ConnectPhase.looksUp : ConnectPhase → Bool
  | .lookup | .looking => true
  | _ => false

/-- The call cannot go on without the lock. -/
def ConnectPhase.wantsLock : ConnectPhase → Bool
  | .lookup | .connected _ => true
  | _ => false

/-- The lock is only ever held to look up or to store. -/
theorem ConnectPhase.locked_iff {phase : ConnectPhase} :
    phase.locked = true ↔ phase = .looking ∨ ∃ client, phase = .storing client := by
  cases phase <;> simp [locked]

/-- The call whose own step an event is. -/
def ConnectEvent.caller : ConnectEvent → Option ℕ
  | .call _ _ => none
  | .acquire n | .release n | .connect n | .refuse n _ => some n

namespace GrpcNetwork

/-- Give the lock back without having used it. -/
def putBack (self : GrpcNetwork) (n : ℕ) : GrpcNetwork :=
  match self.calls[n]? with
  | some ⟨_, _, .looking⟩ => { self with lock := none, calls := self.move n .lookup }
  | some ⟨_, _, .storing client⟩ => { self with lock := none, calls := self.move n (.connected client) }
  | _ => self

/-- A move changes no other call. -/
theorem move_getElem?_of_ne (self : GrpcNetwork) {n m : ℕ} (phase : ConnectPhase) (hm : m ≠ n) :
    (self.move n phase)[m]? = self.calls[m]? := by
  rw [move_getElem?]
  simp [hm.symm]

/-- The call that moved is in its new phase. -/
theorem move_getElem?_self {self : GrpcNetwork} {n : ℕ} {call : ConnectCall} (hcall : self.calls[n]? = some call)
    (phase : ConnectPhase) : (self.move n phase)[n]? = some { call with phase := phase } := by
  rw [move_getElem?, hcall]
  simp

/-- An event changes no call but its own. -/
theorem step_calls_of_ne (self : GrpcNetwork) {event : ConnectEvent} {m : ℕ} {call : ConnectCall}
    (hcall : self.calls[m]? = some call) (hother : event.caller ≠ some m) :
    (self.step event).calls[m]? = some call := by
  have hmoved : ∀ {n : ℕ} phase, (some n ≠ some m) → (self.move n phase)[m]? = some call := by
    intro n phase hn
    rw [self.move_getElem?_of_ne phase fun h => hn (congrArg some h.symm), hcall]
  cases event with
  | call target addr => exact getElem?_concat_of_some _ hcall
  | acquire n =>
    simp only [step]
    split
    · unfold acquire
      split
      · exact hmoved _ hother
      · exact hmoved _ hother
      · exact hcall
    · exact hcall
  | release n =>
    simp only [step]
    unfold release
    split
    · split
      · exact hmoved _ hother
      · exact hmoved _ hother
    · exact hmoved _ hother
    · exact hcall
  | connect n =>
    simp only [step]
    unfold connect
    split
    · exact hmoved _ hother
    · exact hcall
  | refuse n error =>
    simp only [step]
    unfold refuse
    split
    · exact hmoved _ hother
    · exact hcall

/-- A call that wants the lock does nothing before it asks for it. -/
theorem step_calls_of_wantsLock (self : GrpcNetwork) {event : ConnectEvent} {m : ℕ} {call : ConnectCall}
    (hcall : self.calls[m]? = some call) (hwants : call.phase.wantsLock = true) (hasks : event ≠ .acquire m) :
    (self.step event).calls[m]? = some call := by
  by_cases hown : event.caller = some m
  · obtain ⟨target, addr, phase⟩ := call
    cases event with
    | call target addr => cases hown
    | acquire n =>
      cases hown
      exact absurd rfl hasks
    | release n =>
      cases hown
      cases phase <;> simp_all [step, release, ConnectPhase.wantsLock]
    | connect n =>
      cases hown
      cases phase <;> simp_all [step, connect, ConnectPhase.wantsLock]
    | refuse n error =>
      cases hown
      cases phase <;> simp_all [step, refuse, ConnectPhase.wantsLock]
  · exact self.step_calls_of_ne hcall hown

/-- No step takes a call back to its lookup. -/
theorem looksUp_of_step (self : GrpcNetwork) (event : ConnectEvent) {n : ℕ} {call : ConnectCall}
    (hcall : self.calls[n]? = some call) :
    ∃ later, (self.step event).calls[n]? = some later ∧
      (later.phase.looksUp = true → call.phase.looksUp = true) := by
  rcases self.step_cases event with hsame | ⟨target, addr, hnew⟩ | ⟨m, moving, hmoving, hmoves⟩
  · rw [hsame]
    exact ⟨call, hcall, id⟩
  · rw [hnew]
    exact ⟨call, getElem?_concat_of_some _ hcall, id⟩
  · generalize self.step event = next at hmoves
    have hkept : ∀ phase, next.calls = self.move m phase →
        (phase.looksUp = true → moving.phase.looksUp = true) →
        ∃ later, next.calls[n]? = some later ∧ (later.phase.looksUp = true → call.phase.looksUp = true) := by
      intro phase hcalls hback
      by_cases hn : n = m
      · subst hn
        cases hcall.symm.trans hmoving
        exact ⟨_, by rw [hcalls, move_getElem?_self hcall], hback⟩
      · exact ⟨call, by rw [hcalls, self.move_getElem?_of_ne phase hn, hcall], id⟩
    cases hmoves with
    | look hphase => exact hkept _ rfl fun _ => by rw [hphase]; rfl
    | hit => exact hkept _ rfl (fun hlooks => by cases hlooks)
    | miss => exact hkept _ rfl (fun hlooks => by cases hlooks)
    | opened => exact hkept _ rfl (fun hlooks => by cases hlooks)
    | refused => exact hkept _ rfl (fun hlooks => by cases hlooks)
    | store => exact hkept _ rfl (fun hlooks => by cases hlooks)
    | stored => exact hkept _ rfl (fun hlooks => by cases hlooks)

/-- A connect needs no lock. -/
theorem lock_connect (self : GrpcNetwork) (n : ℕ) : (self.step (.connect n)).lock = self.lock := by
  simp only [step]
  unfold connect
  split <;> rfl

/-- A connect that fails needs no lock. -/
theorem lock_refuse (self : GrpcNetwork) (n : ℕ) (error : String) :
    (self.step (.refuse n error)).lock = self.lock := by
  simp only [step]
  unfold refuse
  split <;> rfl

/-- A call that wants the free lock gets it. -/
theorem lock_of_acquire {self : GrpcNetwork} (hfree : self.lock = none) {n : ℕ} {call : ConnectCall}
    (hcall : self.calls[n]? = some call) (hwants : call.phase.wantsLock = true) :
    (self.step (.acquire n)).lock = some n := by
  obtain ⟨target, addr, phase⟩ := call
  cases phase <;> simp_all [step, acquire, ConnectPhase.wantsLock]

/-- The call that has the lock gives it back in one step, and is then past its lookup. -/
theorem Valid.release_spec {self : GrpcNetwork} (h : self.Valid) {n : ℕ} (hlock : self.lock = some n) :
    (self.step (.release n)).lock = none ∧
      ∀ later, (self.step (.release n)).calls[n]? = some later → later.phase.looksUp = false := by
  obtain ⟨⟨target, addr, phase⟩, hcall, hlocked⟩ := (h.lock_iff n).mp hlock
  have hpast : ∀ phase later, phase.looksUp = false → (self.move n phase)[n]? = some later →
      later.phase.looksUp = false := by
    intro phase later hphase hlater
    rw [move_getElem?_self hcall] at hlater
    cases hlater
    exact hphase
  cases phase with
  | looking =>
    simp only [GrpcNetwork.step, GrpcNetwork.release, hcall]
    split
    · exact ⟨rfl, fun later => hpast _ later rfl⟩
    · exact ⟨rfl, fun later => hpast _ later rfl⟩
  | storing client =>
    simp only [GrpcNetwork.step, GrpcNetwork.release, hcall]
    exact ⟨trivial, fun later => hpast _ later rfl⟩
  | lookup => cases hlocked
  | connecting => cases hlocked
  | connected client => cases hlocked
  | returned result => cases hlocked

/-- Giving the lock back unused leaves the other calls alone and the invariant standing. -/
theorem Valid.putBack_spec {self : GrpcNetwork} (h : self.Valid) {n : ℕ} (hlock : self.lock = some n) :
    (self.putBack n).Valid ∧ (self.putBack n).lock = none ∧
      ∀ (m : ℕ) call, m ≠ n → self.calls[m]? = some call → (self.putBack n).calls[m]? = some call := by
  obtain ⟨⟨target, addr, phase⟩, hcall, hlocked⟩ := (h.lock_iff n).mp hlock
  have hothers : ∀ phase (m : ℕ) call, m ≠ n → self.calls[m]? = some call →
      (self.move n phase)[m]? = some call := by
    intro phase m call hm hother
    rw [self.move_getElem?_of_ne phase hm, hother]
  cases phase with
  | looking =>
    simp only [GrpcNetwork.putBack, hcall]
    refine ⟨?_, trivial, hothers _⟩
    exact h.moved hcall _ (h.released hcall rfl rfl) (fun _ _ => Or.inl) (fun _ => id)
      (fun _ hclient => by cases hclient) (fun _ hreturned => by cases hreturned)
  | storing client =>
    simp only [GrpcNetwork.putBack, hcall]
    refine ⟨?_, trivial, hothers _⟩
    refine h.moved hcall _ (h.released hcall rfl rfl) (fun _ _ => Or.inl) (fun _ => id) ?_
      (fun _ hreturned => by cases hreturned)
    intro carried hcarried
    exact h.carried n _ carried hcall hcarried
  | lookup => cases hlocked
  | connecting => cases hlocked
  | connected client => cases hlocked
  | returned result => cases hlocked

end GrpcNetwork

/-- The cache and the calls that wait for its lock, in the order in which they came. -/
structure QueuedNetwork where
  network : GrpcNetwork
  queue : List ℕ

/-- What can happen next: a step of the cache, or a call is given up. -/
inductive QueuedEvent where
  | network (event : ConnectEvent)
  | drop (n : ℕ)
deriving DecidableEq

namespace QueuedNetwork

/-- No connection and no call yet. -/
def default : QueuedNetwork := ⟨.default, []⟩

/-- The call wants the lock. -/
def wantsLock (self : QueuedNetwork) (n : ℕ) : Bool :=
  self.network.calls[n]?.any fun call => call.phase.wantsLock

/-- Ask for the lock: take it if it is free, and otherwise wait behind all who wait. -/
def acquire (self : QueuedNetwork) (n : ℕ) : QueuedNetwork :=
  if n ∈ self.queue ∨ self.wantsLock n = false then self
  else if self.network.lock = none then { self with network := self.network.step (.acquire n) }
  else { self with queue := self.queue ++ [n] }

/-- The lock, given back by its holder, goes to the head of the queue. -/
def handOver (self : QueuedNetwork) (freed : GrpcNetwork) : QueuedNetwork :=
  match self.queue with
  | [] => ⟨freed, []⟩
  | next :: rest => ⟨freed.step (.acquire next), rest⟩

/-- Take one step. Nothing more is heard of a call that is given up; here it may ask again, which
only adds runs. -/
def step (self : QueuedNetwork) : QueuedEvent → QueuedNetwork
  | .network (.acquire n) => self.acquire n
  | .network (.release n) =>
    if self.network.lock = some n then self.handOver (self.network.step (.release n)) else self
  | .network event => { self with network := self.network.step event }
  | .drop n =>
    if self.network.lock = some n then self.handOver (self.network.putBack n)
    else { self with queue := self.queue.filter (· ≠ n) }

/-- The calls in line for the lock: who has it, then who waits. -/
def line (self : QueuedNetwork) : List ℕ := self.network.lock.toList ++ self.queue

/-- The event makes the holder give the lock back. -/
def givesBack (self : QueuedNetwork) : QueuedEvent → Bool
  | .network (.release n) | .drop n => self.network.lock = some n
  | _ => false

/-- How often the lock is given back in a run. -/
def uses : QueuedNetwork → List QueuedEvent → ℕ
  | _, [] => 0
  | self, event :: events => (self.givesBack event).toNat + uses (self.step event) events

/-- The queue only says when the lock is granted: a step of a call is one of the cache, and the
next call's turn with it. -/
theorem exists_run_step (self : QueuedNetwork) (event : ConnectEvent) :
    ∃ events, (self.step (.network event)).network = run GrpcNetwork.step self.network events := by
  cases event with
  | acquire n =>
    simp only [step, acquire]
    split
    · exact ⟨[], rfl⟩
    · split
      · exact ⟨[.acquire n], rfl⟩
      · exact ⟨[], rfl⟩
  | release n =>
    simp only [step, handOver]
    split
    · split
      · exact ⟨[.release n], rfl⟩
      · next next rest _ => exact ⟨[.release n, .acquire next], rfl⟩
    · exact ⟨[], rfl⟩
  | call target addr => exact ⟨[.call target addr], rfl⟩
  | connect n => exact ⟨[.connect n], rfl⟩
  | refuse n error => exact ⟨[.refuse n error], rfl⟩

/-- Without calls that are given up, the cache behind its queue is the cache. -/
theorem exists_run (self : QueuedNetwork) (events : List ConnectEvent) :
    ∃ steps, (run step self (events.map .network)).network = run GrpcNetwork.step self.network steps := by
  induction events generalizing self with
  | nil => exact ⟨[], rfl⟩
  | cons event events ih =>
    obtain ⟨first, hfirst⟩ := self.exists_run_step event
    obtain ⟨rest, hrest⟩ := ih (self.step (.network event))
    refine ⟨first ++ rest, ?_⟩
    rw [List.map_cons, run_cons, hrest, hfirst, run_append]

/-- What holds after any steps: whoever waits wants the lock, waits once, and for a reason. -/
structure Orderly (queued : QueuedNetwork) : Prop where
  valid : queued.network.Valid
  waiting : ∀ n ∈ queued.queue, ∃ call, queued.network.calls[n]? = some call ∧ call.phase.wantsLock = true
  nodup : queued.queue.Nodup
  busy : queued.network.lock = none → queued.queue = []

/-- Nobody waits at first. -/
theorem orderly_default : default.Orderly := by
  refine ⟨GrpcNetwork.valid_default, ?_, List.nodup_nil, fun _ => rfl⟩
  intro n hn
  cases hn

/-- Steps that leave the lock and the queue alone keep the order. -/
theorem Orderly.aside {queued : QueuedNetwork} (h : queued.Orderly) {event : ConnectEvent}
    (hlock : (queued.network.step event).lock = queued.network.lock) (hasks : ∀ n, event ≠ .acquire n) :
    Orderly { queued with network := queued.network.step event } := by
  refine ⟨GrpcNetwork.Valid.step queued.network event h.valid, ?_, h.nodup, fun hfree => h.busy (hlock ▸ hfree)⟩
  intro n hn
  obtain ⟨call, hcall, hwants⟩ := h.waiting n hn
  exact ⟨call, queued.network.step_calls_of_wantsLock hcall hwants (hasks n), hwants⟩

/-- Asking for the lock keeps the order. -/
theorem Orderly.acquire {queued : QueuedNetwork} (h : queued.Orderly) (n : ℕ) : (queued.acquire n).Orderly := by
  unfold QueuedNetwork.acquire
  split
  · exact h
  · next hasks =>
    obtain ⟨hnew, hwants⟩ := not_or.mp hasks
    split
    · next hfree =>
      have hnone : queued.queue = [] := h.busy hfree
      refine ⟨GrpcNetwork.Valid.step queued.network (.acquire n) h.valid, ?_, h.nodup, fun _ => hnone⟩
      intro m hm
      rw [hnone] at hm
      cases hm
    · next hheld =>
      refine ⟨h.valid, ?_, List.concat_eq_append ▸ h.nodup.concat hnew, fun hfree => absurd hfree hheld⟩
      intro m hm
      rcases List.mem_append.mp hm with hold | hlast
      · exact h.waiting m hold
      · rw [List.mem_singleton.mp hlast]
        exact (Option.any_eq_true _ _).mp (eq_true_of_ne_false hwants)

/-- Handing the lock over keeps the order. -/
theorem Orderly.handOver {queued : QueuedNetwork} (h : queued.Orderly) {freed : GrpcNetwork} (hvalid : freed.Valid)
    (hfree : freed.lock = none)
    (hwaiting : ∀ n ∈ queued.queue, ∃ call, freed.calls[n]? = some call ∧ call.phase.wantsLock = true) :
    (queued.handOver freed).Orderly ∧ (queued.handOver freed).line = queued.queue := by
  obtain ⟨network, queue⟩ := queued
  cases queue with
  | nil =>
    refine ⟨⟨hvalid, hwaiting, List.nodup_nil, fun _ => rfl⟩, ?_⟩
    simp [QueuedNetwork.handOver, line, hfree]
  | cons next rest =>
    obtain ⟨call, hcall, hwants⟩ := hwaiting next List.mem_cons_self
    have hlock : (freed.step (.acquire next)).lock = some next := GrpcNetwork.lock_of_acquire hfree hcall hwants
    obtain ⟨hnext, hrest⟩ := List.nodup_cons.mp h.nodup
    refine ⟨⟨GrpcNetwork.Valid.step freed (.acquire next) hvalid, ?_, hrest, ?_⟩, ?_⟩
    · intro n hn
      obtain ⟨other, hother, hwants⟩ := hwaiting n (List.mem_cons_of_mem next hn)
      refine ⟨other, freed.step_calls_of_wantsLock hother hwants ?_, hwants⟩
      intro hsame
      cases hsame
      exact hnext hn
    · intro hnone
      cases hlock.symm.trans hnone
    · simp [QueuedNetwork.handOver, line, hlock]

/-- The calls that wait when the holder gives the lock back used still wait. -/
theorem Orderly.release {queued : QueuedNetwork} (h : queued.Orderly) (holder : ℕ) :
    ∀ n ∈ queued.queue, ∃ call, (queued.network.step (.release holder)).calls[n]? = some call ∧
      call.phase.wantsLock = true := by
  intro n hn
  obtain ⟨call, hcall, hwants⟩ := h.waiting n hn
  exact ⟨call, queued.network.step_calls_of_wantsLock hcall hwants (by simp), hwants⟩

/-- The calls that wait when the holder gives the lock back unused still wait. -/
theorem Orderly.putBack {queued : QueuedNetwork} (h : queued.Orderly) {holder : ℕ}
    (hlock : queued.network.lock = some holder) :
    ∀ n ∈ queued.queue, ∃ call, (queued.network.putBack holder).calls[n]? = some call ∧
      call.phase.wantsLock = true := by
  intro n hn
  obtain ⟨call, hcall, hwants⟩ := h.waiting n hn
  refine ⟨call, (h.valid.putBack_spec hlock).2.2 n call ?_ hcall, hwants⟩
  -- whoever has the lock does not want it
  rintro rfl
  obtain ⟨current, hcurrent, hlocked⟩ := (h.valid.lock_iff n).mp hlock
  cases hcall.symm.trans hcurrent
  revert hwants hlocked
  cases call.phase <;> simp [ConnectPhase.locked, ConnectPhase.wantsLock]

/-- What a step does to the line: nothing, or a call joins its end, or one that waits leaves it,
or its first has the lock no more. -/
inductive LineStep (queued : QueuedNetwork) (event : QueuedEvent) : List ℕ → Prop where
  | kept (held : queued.givesBack event = false) : LineStep queued event queued.line
  | joined (n : ℕ) (held : queued.givesBack event = false) : LineStep queued event (queued.line ++ [n])
  | left (n : ℕ) (dropped : event = .drop n) (held : queued.givesBack event = false) :
      LineStep queued event (queued.line.filter (· ≠ n))
  | served (back : queued.givesBack event = true) : LineStep queued event queued.line.tail

/-- A call that asks for the lock joins the end of the line. -/
theorem Orderly.line_acquire {queued : QueuedNetwork} (h : queued.Orderly) (n : ℕ) :
    queued.LineStep (.network (.acquire n)) (queued.acquire n).line := by
  unfold QueuedNetwork.acquire
  split
  · exact .kept rfl
  · next hasks =>
    split
    · next hfree =>
      obtain ⟨call, hcall, hwants⟩ := (Option.any_eq_true _ _).mp (eq_true_of_ne_false (not_or.mp hasks).2)
      have hline : line { queued with network := queued.network.step (.acquire n) } = queued.line ++ [n] := by
        simp [line, GrpcNetwork.lock_of_acquire hfree hcall hwants, h.busy hfree, hfree]
      rw [hline]
      exact .joined n rfl
    · rw [show line { queued with queue := queued.queue ++ [n] } = queued.line ++ [n] by simp [line]]
      exact .joined n rfl

/-- After any step the calls are in order, and the line is as it was but for that step. -/
theorem Orderly.step_spec {queued : QueuedNetwork} (h : queued.Orderly) (event : QueuedEvent) :
    (queued.step event).Orderly ∧ queued.LineStep event (queued.step event).line := by
  have haside : ∀ {inner : ConnectEvent}, (queued.network.step inner).lock = queued.network.lock →
      (∀ n, inner ≠ .acquire n) → queued.givesBack event = false →
      Orderly { queued with network := queued.network.step inner } ∧
        queued.LineStep event (line { queued with network := queued.network.step inner }) := by
    intro inner hlock hasks hheld
    refine ⟨h.aside hlock hasks, ?_⟩
    have hline : line { queued with network := queued.network.step inner } = queued.line := by
      simp only [line, hlock]
    rw [hline]
    exact .kept hheld
  have hserved : ∀ {holder : ℕ} {freed : GrpcNetwork}, queued.network.lock = some holder → freed.Valid →
      freed.lock = none → (∀ n ∈ queued.queue, ∃ call, freed.calls[n]? = some call ∧ call.phase.wantsLock = true) →
      queued.givesBack event = true →
      (queued.handOver freed).Orderly ∧ queued.LineStep event (queued.handOver freed).line := by
    intro holder freed hlock hvalid hfree hwaiting hback
    obtain ⟨horder, hline⟩ := h.handOver hvalid hfree hwaiting
    refine ⟨horder, ?_⟩
    have htail : queued.line.tail = queued.queue := by simp [line, hlock]
    rw [hline, ← htail]
    exact .served hback
  cases event with
  | network inner =>
    cases inner with
    | call target addr => exact haside rfl (by simp) rfl
    | connect n => exact haside (queued.network.lock_connect n) (by simp) rfl
    | refuse n error => exact haside (queued.network.lock_refuse n error) (by simp) rfl
    | acquire n => exact ⟨h.acquire n, h.line_acquire n⟩
    | release n =>
      by_cases hlock : queued.network.lock = some n
      · simp only [step, if_pos hlock]
        exact hserved hlock (GrpcNetwork.Valid.step queued.network (.release n) h.valid)
          (h.valid.release_spec hlock).1 (h.release n) (decide_eq_true hlock)
      · simp only [step, if_neg hlock]
        exact ⟨h, .kept (decide_eq_false hlock)⟩
  | drop n =>
    by_cases hlock : queued.network.lock = some n
    · simp only [step, if_pos hlock]
      obtain ⟨hvalid, hfree, -⟩ := h.valid.putBack_spec hlock
      exact hserved hlock hvalid hfree (h.putBack hlock) (decide_eq_true hlock)
    · simp only [step, if_neg hlock]
      refine ⟨⟨h.valid, fun m hm => h.waiting m (List.mem_of_mem_filter hm), h.nodup.filter _, ?_⟩, ?_⟩
      · intro hfree
        rw [h.busy hfree, List.filter_nil]
      · have hline : line { queued with queue := queued.queue.filter (· ≠ n) } = queued.line.filter (· ≠ n) := by
          simp only [line, List.filter_append]
          congr 1
          cases hholder : queued.network.lock with
          | none => rfl
          | some holder =>
            have hne : holder ≠ n := fun heq => hlock (heq ▸ hholder)
            simp [hne]
        rw [hline]
        exact .left n rfl (decide_eq_false hlock)

/-- Handing over takes no call back to its lookup. -/
theorem looksUp_of_handOver (queued : QueuedNetwork) {freed : GrpcNetwork} {n : ℕ} {call : ConnectCall}
    (hcall : freed.calls[n]? = some call) :
    ∃ later, (queued.handOver freed).network.calls[n]? = some later ∧
      (later.phase.looksUp = true → call.phase.looksUp = true) := by
  unfold handOver
  split
  · exact ⟨call, hcall, id⟩
  · next next rest _ => exact freed.looksUp_of_step (.acquire next) hcall

/-- No step takes a call back to its lookup, and giving the lock back ends the holder's. -/
theorem Orderly.looksUp_step {queued : QueuedNetwork} (h : queued.Orderly) {event : QueuedEvent} {n : ℕ}
    {call : ConnectCall} (hcall : queued.network.calls[n]? = some call) (hstays : event ≠ .drop n) :
    ∃ later, (queued.step event).network.calls[n]? = some later ∧
      (later.phase.looksUp = true → call.phase.looksUp = true ∧
        (queued.givesBack event = true → queued.network.lock ≠ some n)) := by
  have hplain : ∀ inner : ConnectEvent, queued.givesBack event = false →
      ∃ later, (queued.network.step inner).calls[n]? = some later ∧
        (later.phase.looksUp = true → call.phase.looksUp = true ∧
          (queued.givesBack event = true → queued.network.lock ≠ some n)) := by
    intro inner hheld
    obtain ⟨later, hlater, hback⟩ := queued.network.looksUp_of_step inner hcall
    exact ⟨later, hlater, fun hlooks => ⟨hback hlooks, fun hgiven => by rw [hheld] at hgiven; cases hgiven⟩⟩
  have hsame : queued.givesBack event = false → ∃ later, queued.network.calls[n]? = some later ∧
      (later.phase.looksUp = true → call.phase.looksUp = true ∧
        (queued.givesBack event = true → queued.network.lock ≠ some n)) :=
    fun hheld => ⟨call, hcall, fun hlooks => ⟨hlooks, fun hgiven => by rw [hheld] at hgiven; cases hgiven⟩⟩
  cases event with
  | network inner =>
    cases inner with
    | call target addr => exact hplain _ rfl
    | connect m => exact hplain _ rfl
    | refuse m error => exact hplain _ rfl
    | acquire m =>
      simp only [step, QueuedNetwork.acquire]
      split
      · exact hsame rfl
      · split
        · exact hplain _ rfl
        · exact hsame rfl
    | release m =>
      by_cases hlock : queued.network.lock = some m
      · simp only [step, if_pos hlock]
        obtain ⟨after, hafter, hback⟩ := queued.network.looksUp_of_step (.release m) hcall
        obtain ⟨later, hlater, hstill⟩ := queued.looksUp_of_handOver hafter
        refine ⟨later, hlater, fun hlooks => ⟨hback (hstill hlooks), ?_⟩⟩
        rintro - hown
        cases hlock.symm.trans hown
        have hpast := (h.valid.release_spec hlock).2 after hafter
        rw [hstill hlooks] at hpast
        cases hpast
      · simp only [step, if_neg hlock]
        exact hsame (decide_eq_false hlock)
  | drop m =>
    by_cases hlock : queued.network.lock = some m
    · simp only [step, if_pos hlock]
      have hne : n ≠ m := fun heq => hstays (heq ▸ rfl)
      obtain ⟨later, hlater, hstill⟩ :=
        queued.looksUp_of_handOver ((h.valid.putBack_spec hlock).2.2 n call hne hcall)
      refine ⟨later, hlater, fun hlooks => ⟨hstill hlooks, ?_⟩⟩
      rintro - hown
      cases hlock.symm.trans hown
      exact hne rfl
    · simp only [step, if_neg hlock]
      exact hsame (decide_eq_false hlock)

/-- A call stands in line behind some others. -/
def Behind (queued : QueuedNetwork) (n places : ℕ) : Prop :=
  ∃ ahead behind, queued.line = ahead ++ n :: behind ∧ ahead.length ≤ places

/-- Nobody stands in line for a free lock. -/
theorem Orderly.lock_of_behind {queued : QueuedNetwork} (h : queued.Orderly) {n places : ℕ}
    (hbehind : queued.Behind n places) : ∃ holder, queued.network.lock = some holder := by
  obtain ⟨ahead, behind, hline, -⟩ := hbehind
  cases hlock : queued.network.lock with
  | none => simp [line, hlock, h.busy hlock] at hline
  | some holder => exact ⟨holder, rfl⟩

/-- One step moves a call in line forward by what it makes of the lock, until its turn is over. -/
theorem Behind.step {queued : QueuedNetwork} (h : queued.Orderly) {event : QueuedEvent} {n places : ℕ}
    (hbehind : queued.Behind n places) (hstays : event ≠ .drop n)
    (hturn : queued.givesBack event = true → queued.network.lock ≠ some n) :
    ∃ fewer, fewer + (queued.givesBack event).toNat ≤ places ∧ (queued.step event).Behind n fewer := by
  obtain ⟨ahead, behind, hline, hlength⟩ := hbehind
  have hstep := (h.step_spec event).2
  generalize hnew : (queued.step event).line = new at hstep
  cases hstep with
  | kept hheld => exact ⟨places, by simp [hheld], ahead, behind, hnew.trans hline, hlength⟩
  | joined m hheld =>
    refine ⟨places, by simp [hheld], ahead, behind ++ [m], ?_, hlength⟩
    rw [hnew, hline, List.append_assoc, List.cons_append]
  | left m hdropped hheld =>
    have hne : n ≠ m := fun heq => hstays (heq ▸ hdropped)
    refine ⟨places, by simp [hheld], ahead.filter (· ≠ m), behind.filter (· ≠ m), ?_,
      (List.length_filter_le _ _).trans hlength⟩
    rw [hnew, hline, List.filter_append, List.filter_cons_of_pos (by simpa using hne)]
  | served hback =>
    cases ahead with
    | nil =>
      -- the first in line is the holder, and its turn is not over
      obtain ⟨holder, hlock⟩ := h.lock_of_behind ⟨[], behind, hline, hlength⟩
      simp only [line, hlock, Option.toList_some, List.cons_append, List.nil_append, List.cons.injEq] at hline
      exact absurd (hline.1 ▸ hlock) (hturn hback)
    | cons first ahead =>
      rw [List.length_cons] at hlength
      refine ⟨places - 1, by simp only [hback, Bool.toNat_true]; omega, ahead, behind, ?_, by omega⟩
      rw [hnew, hline]
      rfl

/-- In a run a call in line moves forward each time the lock is given back, until its lookup is over. -/
theorem Orderly.lookup_run {queued : QueuedNetwork} (h : queued.Orderly) {n places : ℕ} {call : ConnectCall}
    (hcall : queued.network.calls[n]? = some call) (hbehind : call.phase.looksUp = true → queued.Behind n places)
    {events : List QueuedEvent} (hstays : .drop n ∉ events) :
    let reached := run step queued events
    reached.Orderly ∧ ∃ later, reached.network.calls[n]? = some later ∧
      (later.phase.looksUp = true → call.phase.looksUp = true ∧
        ∃ fewer, fewer + queued.uses events ≤ places ∧ reached.Behind n fewer) := by
  induction events generalizing queued call places with
  | nil => exact ⟨h, call, hcall, fun hlooks => ⟨hlooks, places, le_rfl, hbehind hlooks⟩⟩
  | cons event events ih =>
    obtain ⟨hevent, hevents⟩ := not_or.mp (List.mem_cons.not.mp hstays)
    obtain ⟨next, hnext, hback⟩ := h.looksUp_step hcall (Ne.symm hevent)
    have horder := (h.step_spec event).1
    by_cases hlooks : next.phase.looksUp = true
    · obtain ⟨hlooked, hturn⟩ := hback hlooks
      obtain ⟨fewer, hfewer, hplace⟩ := (hbehind hlooked).step h (Ne.symm hevent) hturn
      obtain ⟨hreached, later, hlater, hrest⟩ := ih horder hnext (fun _ => hplace) hevents
      refine ⟨hreached, later, hlater, fun hstill => ⟨hlooked, ?_⟩⟩
      obtain ⟨-, last, hlast, hend⟩ := hrest hstill
      exact ⟨last, by rw [uses]; omega, hend⟩
    · -- the lookup is over and stays over
      have hnot : next.phase.looksUp = true → (queued.step event).Behind n 0 := fun hlook => absurd hlook hlooks
      obtain ⟨hreached, later, hlater, hrest⟩ := ih horder hnext hnot hevents
      exact ⟨hreached, later, hlater, fun hstill => absurd (hrest hstill).1 hlooks⟩

/-- A lookup with some calls before it in line is over once the lock was given back by each of
them and by itself, and until then the lock is with a call that looks up or stores, and needs
one step of its own to give it back. -/
theorem lookup_waits_for_no_connect (before after : List QueuedEvent) {n : ℕ} {call : ConnectCall}
    (hcall : (run step default before).network.calls[n]? = some call) {ahead behind : List ℕ}
    (hline : (run step default before).line = ahead ++ n :: behind) (hstays : .drop n ∉ after) :
    let reached := run step default (before ++ after)
    ∃ later, reached.network.calls[n]? = some later ∧
      (later.phase.looksUp = true →
        (run step default before).uses after ≤ ahead.length ∧
          ∃ holder current, reached.network.calls[holder]? = some current ∧
            (current.phase = .looking ∨ ∃ client, current.phase = .storing client) ∧
            reached.givesBack (.network (.release holder)) = true) := by
  have horder : (run step default before).Orderly :=
    invariant_of_step (fun queued event h => (h.step_spec event).1) orderly_default before
  intro reached
  obtain ⟨hreached, later, hlater, hwait⟩ :=
    horder.lookup_run hcall (fun _ => ⟨ahead, behind, hline, le_rfl⟩) hstays
  rw [← run_append] at hreached hlater hwait
  refine ⟨later, hlater, fun hlooks => ?_⟩
  obtain ⟨-, fewer, huses, hbehind⟩ := hwait hlooks
  obtain ⟨holder, hlock⟩ := hreached.lock_of_behind hbehind
  obtain ⟨current, hcurrent, hlocked⟩ := (hreached.valid.lock_iff holder).mp hlock
  exact ⟨by omega, holder, current, hcurrent, ConnectPhase.locked_iff.mp hlocked, decide_eq_true hlock⟩

/-- Three calls are in line for the lock while another connects to a peer that does not answer.
Once the three have had it, the last of them has looked its target up. -/
theorem lookup_waits_for_no_connect_in_line :
    let before : List QueuedEvent := [.network (.call 2 "http://dead"), .network (.acquire 0), .network (.release 0),
      .network (.call 3 "http://b"), .network (.call 4 "http://c"), .network (.call 5 "http://d"),
      .network (.acquire 1), .network (.acquire 2), .network (.acquire 3)]
    let after : List QueuedEvent := [.network (.release 1), .network (.call 6 "http://e"), .network (.acquire 4),
      .network (.release 2), .network (.release 3)]
    let reached := run step default (before ++ after)
    reached.network.calls[0]? = some ⟨2, "http://dead", .connecting⟩ ∧
      ∃ later, reached.network.calls[3]? = some later ∧ later.phase.looksUp = false := by
  intro before after reached
  refine ⟨by decide +kernel, ?_⟩
  obtain ⟨later, hlater, hwait⟩ := @lookup_waits_for_no_connect before after 3 ⟨5, "http://d", .lookup⟩
    (by decide +kernel) [1, 2] [] (by decide +kernel) (by decide)
  refine ⟨later, hlater, eq_false_of_ne_true fun hlooks => ?_⟩
  have huses : (run step default before).uses after = 3 := by decide +kernel
  have hfew := (hwait hlooks).1
  rw [huses] at hfew
  exact absurd hfew (by decide)

end QueuedNetwork

end RaftVec
