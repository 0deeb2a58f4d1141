import RaftVec.Library.Linearizability
import RaftVec.Library.Run
import RaftVec.Node.RaftNetwork

/-!
# What becomes of the Raft messages in flight

The calls that were answered, and some of the others, are calls of the peer's Raft in one
order that agrees with real time. Whether a failed call acted, or will, cannot be told from
its error.
-/

namespace RaftVec

open Run Linearizability

variable {T : RaftTypes} {Bytes S : Type*}

/-! ## What a call can see -/

namespace RaftCall

/-- What holds of a call at any moment: it was begun, it sends what it packed, and an answer it
returned is what it made of the peer's reply. -/
structure Valid (codec : RaftCodec T Bytes) (target : NodeId) (now : ℕ) (call : RaftCall T Bytes) : Prop where
  begun : call.invoked < now
  packed : ∀ message, call.phase = .connecting message →
    GrpcConnection.pack codec call.rpc call.req = .ok message ∧ call.transit = .unsent
  sent : ∀ message, call.transit = .request message → GrpcConnection.pack codec call.rpc call.req = .ok message
  returned : ∀ moment result, call.phase = .returned moment result → GrpcConnection.answered result = true →
    ∃ response, call.transit = .reply response ∧ result = GrpcConnection.unpack codec target call.rpc response

/-- A call takes a step of its own: it may return, now, or send its request. -/
structure Moves (codec : RaftCodec T Bytes) (target : NodeId) (now : ℕ) (before after : RaftCall T Bytes) :
    Prop where
  valid : after.Valid codec target (now + 1)
  kept : ∃ phase transit, after = { before with phase := phase, transit := transit } ∧
    (phase = before.phase ∨ ∀ moment result, phase = .returned moment result → moment = now) ∧
    (transit = before.transit ∨ before.transit = .unsent ∧ ∀ response, transit ≠ .reply response)

variable {codec : RaftCodec T Bytes} {target : NodeId} {now : ℕ} {call : RaftCall T Bytes}

/-- Time passes. -/
theorem Valid.later (h : call.Valid codec target now) : call.Valid codec target (now + 1) :=
  ⟨Nat.lt_succ_of_lt h.begun, h.packed, h.sent, h.returned⟩

/-- A call that does nothing. -/
theorem Valid.stays (h : call.Valid codec target now) : Moves codec target now call call :=
  ⟨h.later, call.phase, call.transit, rfl, Or.inl rfl, Or.inl rfl⟩

/-- A call that ends without an answer. -/
theorem Valid.ends (h : call.Valid codec target now) {phase : RaftCallPhase T Bytes call.rpc}
    (hphase : phase = .dropped ∨ ∃ result, phase = .returned now result ∧ GrpcConnection.answered result = false) :
    Moves codec target now call { call with phase := phase } := by
  rcases hphase with rfl | ⟨result, rfl, hfailed⟩
  · refine ⟨⟨Nat.lt_succ_of_lt h.begun, by simp, h.sent, by simp⟩, _, call.transit, rfl, Or.inr (by simp), Or.inl rfl⟩
  · refine ⟨⟨Nat.lt_succ_of_lt h.begun, by simp, h.sent, ?_⟩, _, call.transit, rfl, Or.inr ?_, Or.inl rfl⟩
    · rintro moment other ⟨⟩ hanswered
      rw [hfailed] at hanswered
      cases hanswered
    · rintro moment other ⟨⟩
      rfl

/-- The connection stands or does not. -/
theorem Valid.connect (h : call.Valid codec target now) (connected : Except String Unit) :
    Moves codec target now call (call.connect now connected) := by
  unfold RaftCall.connect
  split
  · next message hphase =>
    obtain ⟨hpacked, hunsent⟩ := h.packed message hphase
    refine ⟨⟨Nat.lt_succ_of_lt h.begun, by simp, ?_, by simp⟩, _, _, rfl, Or.inr (by simp),
      Or.inr ⟨hunsent, by simp⟩⟩
    rintro sent ⟨⟩
    exact hpacked
  · exact h.ends (Or.inr ⟨_, rfl, rfl⟩)
  · exact h.stays

/-- The reply arrives. -/
theorem Valid.answer (h : call.Valid codec target now) :
    Moves codec target now call (call.answer codec target now) := by
  unfold RaftCall.answer
  split
  · next response hphase hreply =>
    refine ⟨⟨Nat.lt_succ_of_lt h.begun, by simp, h.sent, ?_⟩, _, call.transit, rfl, Or.inr ?_, Or.inl rfl⟩
    · rintro moment result ⟨⟩ -
      exact ⟨response, hreply, rfl⟩
    · rintro moment result ⟨⟩
      rfl
  · exact h.stays

/-- The transport gives up. -/
theorem Valid.fail (h : call.Valid codec target now) (status : Status) :
    Moves codec target now call (call.fail now status) := by
  unfold RaftCall.fail
  split
  · exact h.ends (Or.inr ⟨_, rfl, GrpcConnection.not_answered_statusError status⟩)
  · exact h.stays

/-- The caller gives up. -/
theorem Valid.drop (h : call.Valid codec target now) : Moves codec target now call call.drop := by
  unfold RaftCall.drop
  split
  · exact h.ends (Or.inl rfl)
  · exact h.ends (Or.inl rfl)
  · exact h.stays

/-- A call whose request is still on its way has no answer. -/
theorem Valid.unanswered (h : call.Valid codec target now) {message : RaftMessage Bytes}
    (hrequest : call.transit = .request message) {ended : ℕ}
    {result : Except (RPCError (T.Error call.rpc)) (T.Response call.rpc)}
    (hphase : call.phase = .returned ended result) :
    GrpcConnection.answered result = false := by
  by_contra hanswered
  obtain ⟨response, hreply, -⟩ := h.returned ended result hphase (eq_true_of_ne_false hanswered)
  cases hrequest.symm.trans hreply

/-- The request arrives, and the reply is on its way. -/
theorem Valid.served (h : call.Valid codec target now) {message : RaftMessage Bytes}
    (hrequest : call.transit = .request message) (response : Except Status (RaftMessage Bytes)) :
    ({ call with transit := .reply response } : RaftCall T Bytes).Valid codec target (now + 1) := by
  refine ⟨Nat.lt_succ_of_lt h.begun, ?_, by simp, ?_⟩
  · intro packed hphase
    cases (h.packed packed hphase).2.symm.trans hrequest
  · intro moment result hphase hanswered
    rw [h.unanswered hrequest hphase] at hanswered
    cases hanswered

/-- A new call has sent nothing and has no answer. -/
theorem valid_begin (codec : RaftCodec T Bytes) (target : NodeId) (now : ℕ) (rpc : RaftRpc) (req : T.Request rpc) :
    (RaftCall.begin codec now rpc req).Valid codec target (now + 1) ∧
      (RaftCall.begin codec now rpc req).transit = .unsent := by
  unfold RaftCall.begin
  split
  · next e herror =>
    refine ⟨⟨Nat.lt_succ_self now, by simp, by simp, ?_⟩, rfl⟩
    rintro moment result ⟨⟩ hanswered
    have hcodec : e.transport = true := by
      unfold GrpcConnection.pack at herror
      split at herror
      · cases herror
        rfl
      · cases herror
    simp [GrpcConnection.answered, hcodec] at hanswered
  · next message hmessage =>
    refine ⟨⟨Nat.lt_succ_self now, ?_, by simp, by simp⟩, rfl⟩
    rintro packed ⟨⟩
    exact ⟨hmessage, rfl⟩

end RaftCall

/-! ## What the peer did -/

namespace RaftLink

variable {A : Type*}

/-- Calls and own actions done in this order take the peer from one state to another, and every
reply carries the result of its call in the state in which it was served. -/
inductive Replied (codec : RaftCodec T Bytes) (raft : LocalRaft T S) (own : A → S → S)
    (link : RaftLink T Bytes S A) : S → List (ℕ ⊕ ℕ) → S → Prop where
  | nil (state : S) : Replied codec raft own link state [] state
  | served {state final : S} {n : ℕ} {call : RaftCall T Bytes} {rest : List (ℕ ⊕ ℕ)}
      (called : link.calls[n]? = some call)
      (reply : call.transit = .reply (encode (codec.result call.rpc) (raft call.rpc call.req state).1))
      (later : Replied codec raft own link (raft call.rpc call.req state).2 rest final) :
      Replied codec raft own link state (.inl n :: rest) final
  | acted {state final : S} {m moment : ℕ} {action : A} {rest : List (ℕ ⊕ ℕ)}
      (acted : link.actions[m]? = some (moment, action))
      (later : Replied codec raft own link (own action state) rest final) :
      Replied codec raft own link state (.inr m :: rest) final

/-- Served calls keep all but their phase, and own actions stay. -/
structure Keeps (before after : RaftLink T Bytes S A) : Prop where
  calls : ∀ (n : ℕ) call response, before.calls[n]? = some call → call.transit = .reply response →
    ∃ phase, after.calls[n]? = some { call with phase := phase } ∧
      (phase = call.phase ∨ ∀ moment result, phase = .returned moment result → moment = before.clock)
  actions : ∀ (m : ℕ) action, before.actions[m]? = some action → after.actions[m]? = some action

variable {codec : RaftCodec T Bytes} {target : NodeId} {raft : LocalRaft T S} {own : A → S → S}
  {before after link : RaftLink T Bytes S A} {init : S}

/-- What was done stays done. -/
theorem Replied.keeps {state final : S} {order : List (ℕ ⊕ ℕ)} (h : Replied codec raft own before state order final)
    (hkeeps : before.Keeps after) : Replied codec raft own after state order final := by
  induction h with
  | nil state => exact .nil state
  | served called reply _ ih =>
    obtain ⟨phase, hcall, -⟩ := hkeeps.calls _ _ _ called reply
    exact .served hcall reply ih
  | acted acted _ ih => exact .acted (hkeeps.actions _ _ acted) ih

/-- What is done next is done in the state that was reached. -/
theorem Replied.append {state middle final : S} {first second : List (ℕ ⊕ ℕ)}
    (hfirst : Replied codec raft own link state first middle)
    (hsecond : Replied codec raft own link middle second final) :
    Replied codec raft own link state (first ++ second) final := by
  induction hfirst with
  | nil state => exact hsecond
  | served called reply _ ih => exact .served called reply (ih hsecond)
  | acted acted _ ih => exact .acted acted (ih hsecond)

/-- Only calls with a reply were served, and only own actions were taken. -/
theorem Replied.of_mem {state final : S} {order : List (ℕ ⊕ ℕ)} (h : Replied codec raft own link state order final) :
    (∀ n, .inl n ∈ order → ∃ call response, link.calls[n]? = some call ∧ call.transit = .reply response) ∧
      ∀ m, .inr m ∈ order → ∃ action, link.actions[m]? = some action := by
  induction h with
  | nil state => simp
  | served called reply _ ih =>
    constructor
    · intro m hm
      rcases List.mem_cons.mp hm with heq | hrest
      · cases heq
        exact ⟨_, _, called, reply⟩
      · exact ih.1 m hrest
    · intro m hm
      rcases List.mem_cons.mp hm with heq | hrest
      · cases heq
      · exact ih.2 m hrest
  | acted acted _ ih =>
    constructor
    · intro n hn
      rcases List.mem_cons.mp hn with heq | hrest
      · cases heq
      · exact ih.1 n hrest
    · intro n hn
      rcases List.mem_cons.mp hn with heq | hrest
      · cases heq
        exact ⟨_, acted⟩
      · exact ih.2 n hrest

/-- What holds at any moment. -/
structure Valid (codec : RaftCodec T Bytes) (target : NodeId) (raft : LocalRaft T S) (own : A → S → S) (init : S)
    (link : RaftLink T Bytes S A) : Prop where
  calls : ∀ (n : ℕ) call, link.calls[n]? = some call → call.Valid codec target link.clock
  replied : Replied codec raft own link init (link.done.map Prod.snd) link.peer
  nodup : (link.done.map Prod.snd).Nodup
  served : ∀ (n : ℕ) call response, link.calls[n]? = some call → call.transit = .reply response →
    .inl n ∈ link.done.map Prod.snd
  acted : ∀ (m : ℕ) action, link.actions[m]? = some action → .inr m ∈ link.done.map Prod.snd
  ordered : link.done.Pairwise fun a b => a.1 ≤ b.1
  past : ∀ effect ∈ link.done, effect.1 < link.clock
  within : ∀ (moment n : ℕ) call, (moment, .inl n) ∈ link.done → link.calls[n]? = some call →
    call.invoked ≤ moment ∧ ∀ ended result, call.phase = .returned ended result →
      GrpcConnection.answered result = true → moment ≤ ended
  actedAt : ∀ (moment m : ℕ) action, (moment, .inr m) ∈ link.done → link.actions[m]? = some action →
    action.1 = moment

/-- A step that keeps what was done, and may have the peer do something more. -/
theorem Valid.next (h : before.Valid codec target raft own init) (fresh : List (ℕ ⊕ ℕ))
    (hkeeps : before.Keeps after) (hclock : after.clock = before.clock + 1)
    (hdone : after.done = before.done ++ fresh.map (before.clock, ·)) (hnodup : fresh.Nodup)
    (hnew : ∀ name ∈ fresh, name ∉ before.done.map Prod.snd)
    (hcalls : ∀ (n : ℕ) call, after.calls[n]? = some call → call.Valid codec target (before.clock + 1))
    (hreplied : Replied codec raft own after before.peer fresh after.peer)
    (hserved : ∀ (n : ℕ) call response, after.calls[n]? = some call → call.transit = .reply response →
      .inl n ∈ fresh ∨ ∃ old, before.calls[n]? = some old ∧ old.transit = .reply response)
    (hunanswered : ∀ (n : ℕ) call, .inl n ∈ fresh → after.calls[n]? = some call → ∀ ended result,
      call.phase = .returned ended result → GrpcConnection.answered result = false)
    (hacted : ∀ (m : ℕ) action, after.actions[m]? = some action →
      .inr m ∈ fresh ∧ action.1 = before.clock ∨ before.actions[m]? = some action) :
    after.Valid codec target raft own init := by
  have hnames : after.done.map Prod.snd = before.done.map Prod.snd ++ fresh := by
    rw [hdone, List.map_append, List.map_map]
    congr 1
    exact List.map_id fresh
  have hcases : ∀ effect ∈ after.done, effect ∈ before.done ∨ effect.1 = before.clock ∧ effect.2 ∈ fresh := by
    intro effect heffect
    rw [hdone] at heffect
    rcases List.mem_append.mp heffect with hold | hfresh
    · exact Or.inl hold
    · obtain ⟨name, hname, rfl⟩ := List.mem_map.mp hfresh
      exact Or.inr ⟨rfl, hname⟩
  refine ⟨?_, ?_, ?_, ?_, ?_, ?_, ?_, ?_, ?_⟩
  · rw [hclock]
    exact hcalls
  · rw [hnames]
    exact (h.replied.keeps hkeeps).append hreplied
  · rw [hnames]
    refine h.nodup.append hnodup ?_
    intro name hold hfresh
    exact hnew name hfresh hold
  · intro n call response hcall hreply
    rw [hnames, List.mem_append]
    rcases hserved n call response hcall hreply with hfresh | ⟨old, hold, hwas⟩
    · exact Or.inr hfresh
    · exact Or.inl (h.served n old response hold hwas)
  · intro m action haction
    rw [hnames, List.mem_append]
    rcases hacted m action haction with ⟨hfresh, -⟩ | hold
    · exact Or.inr hfresh
    · exact Or.inl (h.acted m action hold)
  · rw [hdone, List.pairwise_append]
    refine ⟨h.ordered, ?_, ?_⟩
    · rw [List.pairwise_map]
      exact List.pairwise_of_forall fun _ _ => le_rfl
    · intro effect heffect other hother
      obtain ⟨name, -, rfl⟩ := List.mem_map.mp hother
      exact (h.past effect heffect).le
  · intro effect heffect
    rw [hclock]
    rcases hcases effect heffect with hold | ⟨hnow, -⟩
    · exact Nat.lt_succ_of_lt (h.past effect hold)
    · omega
  · intro moment n call heffect hcall
    rcases hcases _ heffect with hold | ⟨hnow, hfresh⟩
    · -- it was served before, so only its phase may have changed, and now
      obtain ⟨old, response, hwas, hreply⟩ := h.replied.of_mem.1 n (List.mem_map_of_mem hold)
      obtain ⟨phase, hkept, hphase⟩ := hkeeps.calls n old response hwas hreply
      cases hkept.symm.trans hcall
      obtain ⟨hbegan, hended⟩ := h.within moment n old hold hwas
      refine ⟨hbegan, fun ended result hreturned hanswered => ?_⟩
      rcases hphase with hsame | hmoved
      · exact hended ended result (hsame ▸ hreturned) hanswered
      · rw [hmoved ended result hreturned]
        exact (h.past _ hold).le
    · cases hnow
      refine ⟨Nat.lt_succ_iff.mp (hcalls n call hcall).begun, fun ended result hreturned hanswered => ?_⟩
      rw [hunanswered n call hfresh hcall ended result hreturned] at hanswered
      cases hanswered
  · intro moment m action heffect haction
    rcases hcases _ heffect with hold | ⟨hnow, hfresh⟩
    · rcases hacted m action haction with ⟨hfresh, -⟩ | hwas
      · exact absurd (List.mem_map_of_mem hold) (hnew _ hfresh)
      · exact h.actedAt moment m action hold hwas
    · cases hnow
      rcases hacted m action haction with ⟨-, hmoment⟩ | hwas
      · exact hmoment
      · exact absurd (h.acted m action hwas) (hnew _ hfresh)

/-- A call takes a step of its own. -/
theorem Valid.modified (h : link.Valid codec target raft own init) (n : ℕ)
    (move : RaftCall T Bytes → RaftCall T Bytes)
    (hmove : ∀ call : RaftCall T Bytes, call.Valid codec target link.clock →
      call.Moves codec target link.clock (move call)) :
    Valid codec target raft own init { link with clock := link.clock + 1, calls := link.calls.modify n move } := by
  have hmoves : ∀ (m : ℕ) old, link.calls[m]? = some old → ∃ call, (link.calls.modify n move)[m]? = some call ∧
      old.Moves codec target link.clock call := by
    intro m old hold
    rw [List.getElem?_modify, hold]
    by_cases hm : n = m
    · exact ⟨move old, by simp [hm], hmove old (h.calls m old hold)⟩
    · exact ⟨old, by simp [hm], (h.calls m old hold).stays⟩
  have hback : ∀ (m : ℕ) call, (link.calls.modify n move)[m]? = some call →
      ∃ old, link.calls[m]? = some old ∧ old.Moves codec target link.clock call := by
    intro m call hcall
    cases hold : link.calls[m]? with
    | none => simp [List.getElem?_modify, hold] at hcall
    | some old =>
      obtain ⟨moved, hmoved, hmoves⟩ := hmoves m old hold
      cases hmoved.symm.trans hcall
      exact ⟨old, rfl, hmoves⟩
  refine h.next [] ⟨?_, fun _ _ => id⟩ rfl (by simp) List.nodup_nil (by simp) ?_ (.nil _) ?_ (by simp)
    fun _ _ => Or.inr
  · intro m call response hcall hreply
    obtain ⟨moved, hmoved, hmoves⟩ := hmoves m call hcall
    obtain ⟨phase, transit, rfl, hphase, rfl | ⟨hunsent, -⟩⟩ := hmoves.kept
    · exact ⟨phase, hmoved, hphase⟩
    · cases hreply.symm.trans hunsent
  · intro m call hcall
    obtain ⟨old, -, hmoves⟩ := hback m call hcall
    exact hmoves.valid
  · intro m call response hcall hreply
    obtain ⟨old, hold, hmoves⟩ := hback m call hcall
    obtain ⟨phase, transit, rfl, -, rfl | ⟨-, hnot⟩⟩ := hmoves.kept
    · exact Or.inr ⟨old, hold, hreply⟩
    · exact absurd hreply (hnot response)

/-- A new call. -/
theorem Valid.called (h : link.Valid codec target raft own init) (rpc : RaftRpc) (req : T.Request rpc) :
    Valid codec target raft own init
      { link with clock := link.clock + 1, calls := link.calls ++ [.begin codec link.clock rpc req] } := by
  have hcases : ∀ (m : ℕ) call, (link.calls ++ [.begin codec link.clock rpc req])[m]? = some call →
      link.calls[m]? = some call ∨ call = .begin codec link.clock rpc req := by
    intro m call hcall
    exact (getElem?_concat_cases hcall).imp_right And.right
  obtain ⟨hvalid, hunsent⟩ := RaftCall.valid_begin codec target link.clock rpc req
  refine h.next [] ⟨?_, fun _ _ => id⟩ rfl (by simp) List.nodup_nil (by simp) ?_ (.nil _) ?_ (by simp)
    fun _ _ => Or.inr
  · intro m call response hcall _
    exact ⟨call.phase, getElem?_concat_of_some _ hcall, Or.inl rfl⟩
  · intro m call hcall
    rcases hcases m call hcall with hold | rfl
    · exact (h.calls m call hold).later
    · exact hvalid
  · intro m call response hcall hreply
    rcases hcases m call hcall with hold | rfl
    · exact Or.inr ⟨call, hold, hreply⟩
    · cases hunsent.symm.trans hreply

/-- Nothing but time. -/
theorem Valid.idle (h : link.Valid codec target raft own init) :
    Valid codec target raft own init { link with clock := link.clock + 1 } := by
  have hsame := h.modified 0 id fun call hcall => hcall.stays
  rwa [List.modify_id] at hsame

/-- The peer serves a request. -/
theorem Valid.serve (hcodec : codec.RoundTrips) (h : link.Valid codec target raft own init) (n : ℕ) :
    Valid codec target raft own init { link.serve codec raft n with clock := link.clock + 1 } := by
  unfold RaftLink.serve
  split
  · exact h.idle
  · next call hcall =>
    split
    · next message hrequest =>
      have hvalid := h.calls n call hcall
      rw [GrpcConnection.handler_of_pack hcodec raft (hvalid.sent message hrequest)]
      obtain ⟨hlt, -⟩ := List.getElem?_eq_some_iff.mp hcall
      have hset : ∀ (m : ℕ) (now : RaftCall T Bytes),
          (link.calls.set n now)[m]? = if n = m then some now else link.calls[m]? := by
        intro m now
        rw [List.getElem?_set]
        split <;> simp_all
      refine h.next [.inl n] ⟨?_, fun _ _ => id⟩ rfl rfl (List.nodup_singleton _) ?_ ?_ ?_ ?_ ?_ fun _ _ => Or.inr
      · intro m other response hother hreply
        have hne : n ≠ m := by
          rintro rfl
          cases hcall.symm.trans hother
          cases hrequest.symm.trans hreply
        exact ⟨other.phase, by rw [hset, if_neg hne, hother], Or.inl rfl⟩
      · intro name hname hdone
        cases List.mem_singleton.mp hname
        obtain ⟨other, response, hother, hreply⟩ := h.replied.of_mem.1 n hdone
        cases hcall.symm.trans hother
        cases hrequest.symm.trans hreply
      · intro m now hnow
        rw [hset] at hnow
        split at hnow
        · cases hnow
          exact hvalid.served hrequest _
        · exact (h.calls m now hnow).later
      · exact .served ((hset n _).trans (if_pos rfl)) rfl (.nil _)
      · intro m now response hnow hreply
        rw [hset] at hnow
        split at hnow
        · next heq =>
          subst heq
          exact Or.inl List.mem_cons_self
        · exact Or.inr ⟨now, hnow, hreply⟩
      · intro m now hname hnow ended result hphase
        cases List.mem_singleton.mp hname
        rw [hset, if_pos rfl] at hnow
        cases hnow
        exact hvalid.unanswered hrequest hphase
    · exact h.idle

/-- The peer acts by itself. -/
theorem Valid.acts (h : link.Valid codec target raft own init) (action : A) :
    Valid codec target raft own init { link with
      clock := link.clock + 1
      peer := own action link.peer
      actions := link.actions ++ [(link.clock, action)]
      done := link.done ++ [(link.clock, .inr link.actions.length)] } := by
  refine h.next [.inr link.actions.length] ⟨?_, ?_⟩ rfl rfl (List.nodup_singleton _) ?_ ?_ ?_ ?_ (by simp) ?_
  · exact fun m call _ hcall _ => ⟨call.phase, hcall, Or.inl rfl⟩
  · exact fun m old hold => getElem?_concat_of_some _ hold
  · intro name hname hdone
    cases List.mem_singleton.mp hname
    obtain ⟨old, hold⟩ := h.replied.of_mem.2 _ hdone
    rw [List.getElem?_eq_none le_rfl] at hold
    cases hold
  · exact fun m call hcall => (h.calls m call hcall).later
  · exact .acted List.getElem?_concat_length (.nil _)
  · exact fun m call response hcall hreply => Or.inr ⟨call, hcall, hreply⟩
  · intro m taken htaken
    rcases getElem?_concat_cases htaken with hold | ⟨rfl, rfl⟩
    · exact Or.inr hold
    · exact Or.inl ⟨List.mem_cons_self, rfl⟩

/-- Every step keeps the invariant. -/
theorem Valid.step (hcodec : codec.RoundTrips) (link : RaftLink T Bytes S A) (event : LinkEvent T A)
    (h : link.Valid codec target raft own init) :
    (link.step codec target raft own event).Valid codec target raft own init := by
  cases event with
  | call rpc req => exact h.called rpc req
  | connect n connected => exact h.modified n _ fun call hcall => hcall.connect connected
  | serve n => exact h.serve hcodec n
  | answer n => exact h.modified n _ fun call hcall => hcall.answer
  | fail n status => exact h.modified n _ fun call hcall => hcall.fail status
  | drop n => exact h.modified n _ fun call hcall => hcall.drop
  | own action => exact h.acts action

/-- Nothing was done at first. -/
theorem valid_start (init : S) : (start init : RaftLink T Bytes S A).Valid codec target raft own init := by
  refine ⟨?_, .nil init, List.nodup_nil, ?_, ?_, List.Pairwise.nil, ?_, ?_, ?_⟩ <;> simp [start]

/-! ## The calls are calls of the peer's Raft -/

/-- The peer's Raft, called without a network. -/
def localStep (target : NodeId) (raft : LocalRaft T S) (own : A → S → S) (state : S) :
    PeerOp T A → PeerAnswer T × S
  | .rpc rpc req => (some ⟨rpc, GrpcConnection.relayed target (raft rpc req state).1⟩, (raft rpc req state).2)
  | .own action => (none, own action state)

end RaftLink

/-- A call as the peer's Raft could have been called directly. One that failed in the transport
counts as one that never returned: it may take effect at any time, or never. -/
def RaftCall.call {A : Type*} (self : RaftCall T Bytes) : Call (PeerOp T A) (PeerAnswer T) where
  op := .rpc self.rpc self.req
  invoked := self.invoked
  returned :=
    match self.phase with
    | .returned moment result =>
      if GrpcConnection.answered result then some (moment, some ⟨self.rpc, result⟩) else none
    | _ => none

namespace RaftLink

variable {A : Type*} {codec : RaftCodec T Bytes} {target : NodeId} {raft : LocalRaft T S} {own : A → S → S}
  {link : RaftLink T Bytes S A} {init : S}

/-- All that the peer's Raft was asked to do, and did by itself. -/
def history (link : RaftLink T Bytes S A) : ℕ ⊕ ℕ → Option (Call (PeerOp T A) (PeerAnswer T))
  | .inl n => link.calls[n]?.map RaftCall.call
  | .inr m => link.actions[m]?.map fun action => ⟨.own action.2, action.1, some (action.1, none)⟩

/-- Only answered calls count as returned. -/
theorem of_returned {call : RaftCall T Bytes} {r : ℕ × PeerAnswer T} (h : r ∈ (call.call (A := A)).returned) :
    ∃ result, call.phase = .returned r.1 result ∧ GrpcConnection.answered result = true ∧
      r.2 = some ⟨call.rpc, result⟩ := by
  simp only [RaftCall.call] at h
  split at h
  · next moment result hphase =>
    split at h
    · next hanswered =>
      cases Option.mem_some.mp h
      exact ⟨result, hphase, hanswered, rfl⟩
    · cases h
  · cases h

/-- In the order of what the peer did, every answer is the peer's own. -/
theorem Replied.legal (hcodec : codec.RoundTrips) {state final : S} {order : List (ℕ ⊕ ℕ)}
    (h : Replied codec raft own link state order final)
    (hcalls : ∀ (n : ℕ) call, link.calls[n]? = some call → call.Valid codec target link.clock) :
    Legal (localStep target raft own) state (order.filterMap link.history) ∧
      replay (localStep target raft own) state (order.filterMap link.history) = final := by
  induction h with
  | nil state => exact ⟨trivial, rfl⟩
  | @served state final n call rest called reply _ ih =>
    have hcall : link.history (.inl n) = some call.call := by
      rw [history, called, Option.map_some]
    rw [List.filterMap_cons, hcall]
    refine ⟨⟨?_, ih.1⟩, ih.2⟩
    intro r hr
    obtain ⟨result, hphase, hanswered, hresult⟩ := of_returned hr
    obtain ⟨response, hreply, hunpacked⟩ := (hcalls n call called).returned r.1 result hphase hanswered
    cases reply.symm.trans hreply
    rw [hunpacked] at hanswered
    rw [hresult, hunpacked, GrpcConnection.unpack_encode hcodec target call.rpc _ hanswered]
    rfl
  | @acted state final m moment action rest acted _ ih =>
    have hcall : link.history (.inr m) = some ⟨.own action, moment, some (moment, none)⟩ := by
      rw [history, acted, Option.map_some]
    rw [List.filterMap_cons, hcall]
    refine ⟨⟨?_, ih.1⟩, ih.2⟩
    intro r hr
    cases Option.mem_some.mp hr
    rfl

/-- However long messages are on their way and whatever is given up meanwhile, the answered calls
and some of the others are calls of the peer's Raft, each once and with the request that was
sent, in one order that agrees with real time, and the peer's state is where they lead. -/
theorem calls_linearizable (hcodec : codec.RoundTrips) (target : NodeId) (raft : LocalRaft T S) (own : A → S → S)
    (init : S) (events : List (LinkEvent T A)) :
    let link : RaftLink T Bytes S A := run (step codec target raft own) (start init) events
    ∃ order, Linearizes (localStep target raft own) init link.history order ∧
      replay (localStep target raft own) init (order.filterMap link.history) = link.peer := by
  intro link
  have h : link.Valid codec target raft own init :=
    invariant_of_step (fun link event => Valid.step hcodec link event) (valid_start init) events
  obtain ⟨hlegal, hreplay⟩ := h.replied.legal hcodec h.calls
  refine ⟨_, linearizes_of_effects h.nodup h.ordered ?_ ?_ ?_ hlegal, hreplay⟩
  · rintro ⟨moment, n | m⟩ heffect
    · obtain ⟨call, -, hcall, -⟩ := h.replied.of_mem.1 n (List.mem_map_of_mem heffect)
      simp [history, hcall]
    · obtain ⟨action, haction⟩ := h.replied.of_mem.2 m (List.mem_map_of_mem heffect)
      simp [history, haction]
  · rintro (n | m) call hcall hreturned
    · obtain ⟨made, hmade, rfl⟩ := Option.map_eq_some_iff.mp hcall
      obtain ⟨r, hr⟩ := Option.ne_none_iff_exists'.mp hreturned
      obtain ⟨result, hphase, hanswered, -⟩ := of_returned (Option.mem_def.mpr hr)
      obtain ⟨response, hreply, -⟩ := (h.calls n made hmade).returned r.1 result hphase hanswered
      exact h.served n made response hmade hreply
    · obtain ⟨action, haction, -⟩ := Option.map_eq_some_iff.mp hcall
      exact h.acted m action haction
  · rintro ⟨moment, n | m⟩ heffect call hcall
    · obtain ⟨made, hmade, rfl⟩ := Option.map_eq_some_iff.mp hcall
      obtain ⟨hbegan, hended⟩ := h.within moment n made heffect hmade
      refine ⟨hbegan, fun r hr => ?_⟩
      obtain ⟨result, hphase, hanswered, -⟩ := of_returned hr
      exact hended r.1 result hphase hanswered
    · obtain ⟨action, haction, rfl⟩ := Option.map_eq_some_iff.mp hcall
      have hmoment := h.actedAt moment m action heffect haction
      refine ⟨hmoment.le, fun r hr => ?_⟩
      cases Option.mem_some.mp hr
      exact hmoment.ge

/-- Numbers sent unencoded to a peer that adds them up. The caller of the first gets an error while
its request is still on its way, and the peer takes it after the second was answered. -/
theorem calls_linearizable_late :
    let T : RaftTypes := ⟨fun _ => ℕ, fun _ => ℕ, fun _ => Unit⟩
    let codec : RaftCodec T (ℕ ⊕ Except Unit ℕ) :=
      ⟨fun _ => ⟨fun n => .ok (.inl n), fun bytes => bytes.elim .ok fun _ => .error "not a request"⟩,
        fun _ => ⟨fun r => .ok (.inr r), fun bytes => bytes.elim (fun _ => .error "not a result") .ok⟩⟩
    let raft : LocalRaft T ℕ := fun _ n total => (.ok (total + n), total + n)
    let own : ℕ → ℕ → ℕ := fun n total => total + n
    let events : List (LinkEvent T ℕ) :=
      [.call .appendEntries (1 : ℕ), .connect 0 (.ok ()), .fail 0 ⟨.unavailable, "gone"⟩, .own 16,
        .call .vote (2 : ℕ), .connect 1 (.ok ()), .serve 1, .answer 1, .serve 0]
    let link := run (step codec 7 raft own) (start 0) events
    (∃ order, Linearizes (localStep 7 raft own) 0 link.history order ∧
        replay (localStep 7 raft own) 0 (order.filterMap link.history) = link.peer) ∧
      link.peer = 19 ∧ link.done.map Prod.snd = [.inr 0, .inl 1, .inl 0] := by
  intro T codec raft own events link
  have hcodec : codec.RoundTrips := by
    constructor
    · rintro rpc req bytes ⟨⟩
      rfl
    · rintro rpc result bytes ⟨⟩
      rfl
  exact ⟨calls_linearizable hcodec 7 raft own 0 events, rfl, rfl⟩

end RaftLink

end RaftVec
