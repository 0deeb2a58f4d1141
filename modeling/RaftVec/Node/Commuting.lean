import RaftVec.Library.Transducer
import RaftVec.Node.StateMachine

/-!
# Commands that commute

A command reads and writes the records of its own ids in its own collection, and besides
those only the collection's dimension, which no command changes. Two commands that
address different collections or have no id in common therefore commute: both orders
leave the same store and give each command the same response. The state machine is a
transducer over payloads, so a command can be moved along a log past any commands that
are independent of it.
-/

namespace RaftVec

open Std WriteHistory

variable {F : Type*}

namespace ShardCommand

/-- The ids a command names, with repeats. -/
def ids : ShardCommand F → List UInt64
  | .upsert _ records => records.map VectorRecord.id
  | .delete _ ids => ids

/-- Two commands address different collections or have no id in common. -/
def Independent (a b : ShardCommand F) : Prop :=
  a.collection ≠ b.collection ∨ List.Disjoint a.ids b.ids

/-- Independence does not depend on the order. -/
theorem Independent.symm {a b : ShardCommand F} (h : a.Independent b) : b.Independent a :=
  h.imp Ne.symm List.Disjoint.symm

variable [FloatOps F]

/-- A command writes to its own ids. -/
theorem mem_ids_of_mem_effect {cmd : ShardCommand F} {dim : ℕ} {write : UInt64 × Option (StoredVector F)}
    (h : write ∈ cmd.effect dim) : write.1 ∈ cmd.ids := by
  cases cmd with
  | upsert collection records =>
    rw [effect] at h
    split at h
    · obtain ⟨record, hrecord, rfl⟩ := List.mem_map.mp h
      exact List.mem_map_of_mem hrecord
    · cases h
  | delete collection ids =>
    obtain ⟨id, hid, rfl⟩ := List.mem_map.mp h
    exact hid

/-- A command leaves the ids it does not name alone. -/
theorem lastWrite_effect_of_notMem {cmd : ShardCommand F} {id : UInt64} (h : id ∉ cmd.ids) (dim : ℕ) :
    lastWrite (cmd.effect dim) id = none := by
  cases hlast : lastWrite (cmd.effect dim) id with
  | none => rfl
  | some value => exact absurd (mem_ids_of_mem_effect (mem_of_lastWrite hlast)) h

/-- The number of records a command counts as applied in a collection: the size of a batch
that fits, or the number of distinct ids found. -/
def appliedTo (coll : Collection F) : ShardCommand F → ℕ
  | .upsert _ records => if coll.Admits records then records.length else 0
  | .delete _ ids => (ids.toFinset.filter (· ∈ coll.vectors)).card

end ShardCommand

/-- The deletion loop counts each id it finds once. -/
theorem foldl_delete_count (ids : List UInt64) (vectors : ExtTreeMap UInt64 (StoredVector F)) (deleted : ℕ) :
    (ids.foldl (fun acc id => if id ∈ acc.1 then (acc.1.erase id, acc.2 + 1) else acc) (vectors, deleted)).2 =
      deleted + (ids.toFinset.filter (· ∈ vectors)).card := by
  induction ids generalizing vectors deleted with
  | nil => rfl
  | cons id ids ih =>
    rw [List.foldl_cons, List.toFinset_cons, Finset.filter_insert]
    by_cases hmem : id ∈ vectors
    · -- once removed, a repeat of the id is not found again
      have herase : ids.toFinset.filter (· ∈ vectors.erase id) =
          (ids.toFinset.filter (· ∈ vectors)).erase id := by
        ext other
        simp only [Finset.mem_filter, Finset.mem_erase, ExtTreeMap.mem_erase, Std.compare_eq_iff_eq, ne_eq,
          eq_comm (a := id)]
        tauto
      rw [if_pos hmem, if_pos hmem, ih, herase, ← Finset.erase_insert_eq_erase, add_assoc, add_comm 1,
        Finset.card_erase_add_one (Finset.mem_insert_self _ _)]
    · rw [if_neg hmem, if_neg hmem, ih]

variable [FloatOps F]

/-- A command is answered with the number of records it was applied to, or with zero. -/
theorem Store.execute_count (self : Store F) (cmd : ShardCommand F) :
    (self.execute cmd).1 =
      UInt32.ofNat ((self.collections[cmd.collection]?.map fun coll => cmd.appliedTo coll).getD 0) := by
  cases cmd with
  | upsert collection records =>
    simp only [execute, ShardCommand.collection]
    cases hcoll : self.collections[collection]? with
    | none => rw [insert_of_absent hcoll]; rfl
    | some coll =>
      by_cases hadmits : coll.Admits records
      · simp [insert_of_admits hcoll hadmits, ShardCommand.appliedTo, hadmits, Except.toOption]
      · obtain ⟨actual, hreject⟩ := insert_of_not_admits hcoll hadmits
        simp [hreject, ShardCommand.appliedTo, hadmits, Except.toOption]
  | delete collection ids =>
    simp only [execute, ShardCommand.collection]
    cases hcoll : self.collections[collection]? with
    | none => rw [delete_of_absent hcoll]; rfl
    | some coll => simp [delete, hcoll, foldl_delete_count, ShardCommand.appliedTo, Except.toOption]

namespace ShardCommand.Independent

variable {a b : ShardCommand F}

/-- Where two commands address one collection, an id is left alone by one of them. -/
theorem lastWrite_none (h : a.Independent b) (hsame : a.collection = b.collection) (dim : ℕ) (id : UInt64) :
    lastWrite (a.effect dim) id = none ∨ lastWrite (b.effect dim) id = none := by
  have hdisjoint := h.resolve_left (not_not_intro hsame)
  by_cases hid : id ∈ a.ids
  · exact Or.inr (lastWrite_effect_of_notMem (fun hb => hdisjoint hid hb) dim)
  · exact Or.inl (lastWrite_effect_of_notMem hid dim)

/-- A command finds as many records whether or not an independent one was there before it. -/
theorem appliedTo_write (h : a.Independent b) (hsame : a.collection = b.collection) (coll : Collection F) :
    a.appliedTo (coll.write (b.effect coll.dim)) = a.appliedTo coll := by
  cases a with
  | upsert collection records => rfl
  | delete collection ids =>
    rw [appliedTo, appliedTo]
    congr 1
    apply Finset.filter_congr
    intro id hid
    have hb : id ∉ b.ids := fun hb => (h.resolve_left (not_not_intro hsame)) (List.mem_toFinset.mp hid) hb
    rw [ExtTreeMap.mem_iff_isSome_getElem?, ExtTreeMap.mem_iff_isSome_getElem?, Collection.write,
      getElem?_applyWrites, lastWrite_effect_of_notMem hb, Option.getD_none]

/-- A command is answered the same whether or not an independent one was executed before it. -/
theorem execute_count (h : a.Independent b) (store : Store F) :
    ((store.execute b).2.execute a).1 = (store.execute a).1 := by
  rw [Store.execute_count, Store.execute_count, Store.execute_collections]
  by_cases hsame : b.collection = a.collection
  · rw [if_pos hsame, Option.map_map]
    congr 2
    apply congrFun
    congr 1
    funext coll
    exact h.appliedTo_write hsame.symm coll
  · rw [if_neg hsame]

/-- Independent commands leave the same store in either order. -/
theorem execute_store (h : a.Independent b) (store : Store F) :
    ((store.execute a).2.execute b).2 = ((store.execute b).2.execute a).2 := by
  apply Store.ext_collections
  intro name
  simp only [Store.execute_collections]
  by_cases ha : a.collection = name <;> by_cases hb : b.collection = name <;> simp only [ha, hb, if_true, if_false]
  rw [Option.map_map, Option.map_map]
  congr 1
  funext coll
  exact congrArg (fun vectors => { coll with vectors := vectors })
    (applyWrites_comm coll.vectors (h.lastWrite_none (ha.trans hb.symm) coll.dim))

end ShardCommand.Independent

/-! ## Moving a command along a log -/

/-- What applying a payload does to the store, and its response. -/
def Store.respond (self : Store F) : EntryPayload F → ShardCommandResponse × Store F
  | .normal cmd => (⟨(self.execute cmd).1⟩, (self.execute cmd).2)
  | _ => (⟨0⟩, self)

/-- Applying an entry responds to its payload. -/
theorem ShardStateMachine.applyEntry_eq_respond (self : ShardStateMachine F) (entry : Entry F) :
    self.store.respond entry.payload = ((self.applyEntry entry).1, (self.applyEntry entry).2.store) := by
  obtain ⟨logId, payload⟩ := entry
  cases payload with
  | blank => rfl
  | normal cmd => rfl
  | membership mem => rfl

/-- Responses and store depend on the payloads of a log alone. -/
theorem ShardStateMachine.apply_eq_run (self : ShardStateMachine F) (entries : List (Entry F)) :
    ((self.apply entries).1, (self.apply entries).2.store) =
      Transducer.run Store.respond self.store (entries.map Entry.payload) := by
  induction entries generalizing self with
  | nil => rfl
  | cons entry entries ih =>
    simp only [List.map_cons, Transducer.run, self.applyEntry_eq_respond entry, ← ih]
    rfl

/-- A command commutes with every payload that carries no command in conflict with it. -/
theorem commute_respond {cmd : ShardCommand F} {payload : EntryPayload F}
    (h : ∀ other, payload = .normal other → cmd.Independent other) :
    Transducer.Commute Store.respond (.normal cmd) payload := by
  cases payload with
  | normal other =>
    have hother := h other rfl
    exact ⟨fun store => congrArg ShardCommandResponse.mk (hother.execute_count store),
      fun store => congrArg ShardCommandResponse.mk (hother.symm.execute_count store),
      fun store => hother.execute_store store⟩
  | blank => exact ⟨fun _ => rfl, fun _ => rfl, fun _ => rfl⟩
  | membership mem => exact ⟨fun _ => rfl, fun _ => rfl, fun _ => rfl⟩

/-- Independent commands give the same store and the same responses in either order, and a
command moved along a log past commands independent of it changes neither the final store
nor any response, whatever the log ids. -/
theorem ShardStateMachine.apply_independent (self : ShardStateMachine F) :
    (∀ a b : ShardCommand F, a.Independent b → ∀ first second first' second' : LogId, ∃ ra rb,
      (self.apply [⟨first, .normal a⟩, ⟨second, .normal b⟩]).1 = [ra, rb] ∧
      (self.apply [⟨first', .normal b⟩, ⟨second', .normal a⟩]).1 = [rb, ra] ∧
      (self.apply [⟨first, .normal a⟩, ⟨second, .normal b⟩]).2.store =
        (self.apply [⟨first', .normal b⟩, ⟨second', .normal a⟩]).2.store) ∧
    ∀ (cmd : ShardCommand F) (before between after : List (EntryPayload F)) (log moved : List (Entry F)),
      (∀ other, .normal other ∈ between → cmd.Independent other) →
      log.map Entry.payload = before ++ .normal cmd :: (between ++ after) →
      moved.map Entry.payload = before ++ (between ++ .normal cmd :: after) →
      ∃ rs r qs ps, (self.apply log).1 = rs ++ r :: (qs ++ ps) ∧ (self.apply moved).1 = rs ++ (qs ++ r :: ps) ∧
        rs.length = before.length ∧ qs.length = between.length ∧
        (self.apply log).2.store = (self.apply moved).2.store := by
  constructor
  · intro a b h first second first' second'
    refine ⟨⟨(self.store.execute a).1⟩, ⟨(self.store.execute b).1⟩, ?_, ?_, h.execute_store self.store⟩
    · exact congrArg (fun count => [_, ShardCommandResponse.mk count]) (h.symm.execute_count self.store)
    · exact congrArg (fun count => [_, ShardCommandResponse.mk count]) (h.execute_count self.store)
  · intro cmd before between after log moved h hlog hmoved
    have hcommute : ∀ payload ∈ between, Transducer.Commute Store.respond (.normal cmd) payload := by
      rintro payload hmem
      exact commute_respond fun other hother => h other (hother ▸ hmem)
    obtain ⟨rs, r, qs, ps, store, hrun, hrunMoved, hrs, hqs⟩ :=
      Transducer.run_move hcommute self.store before after
    rw [← hlog, ← self.apply_eq_run, Prod.mk.injEq] at hrun
    rw [← hmoved, ← self.apply_eq_run, Prod.mk.injEq] at hrunMoved
    exact ⟨rs, r, qs, ps, hrun.1, hrunMoved.1, hrs, hqs, hrun.2.trans hrunMoved.2.symm⟩

/-- A deletion with a repeated id is moved past a write to another id and a rejected command. -/
theorem ShardStateMachine.apply_independent_docs :
    let docs : Store ℤ := ((Store.new.createCollection "docs" 1 1).2.insert "docs" [⟨7, [1], ∅⟩]).2
    let machine := ShardStateMachine.new docs
    let delete : EntryPayload ℤ := .normal (.delete "docs" [7, 7])
    let upsert : EntryPayload ℤ := .normal (.upsert "docs" [⟨8, [2], ∅⟩])
    let rejected : EntryPayload ℤ := .normal (.upsert "none" [⟨7, [2], ∅⟩])
    let log : List (Entry ℤ) := [⟨⟨⟨1, 1⟩, 1⟩, delete⟩, ⟨⟨⟨1, 1⟩, 2⟩, upsert⟩, ⟨⟨⟨1, 1⟩, 3⟩, rejected⟩]
    let moved : List (Entry ℤ) := [⟨⟨⟨1, 1⟩, 1⟩, upsert⟩, ⟨⟨⟨1, 1⟩, 2⟩, rejected⟩, ⟨⟨⟨1, 1⟩, 3⟩, delete⟩]
    (machine.apply log).2.store = (machine.apply moved).2.store ∧
      (machine.apply log).1 = [⟨1⟩, ⟨1⟩, ⟨0⟩] := by
  intro docs machine delete upsert rejected log moved
  have hindependent : ∀ other, .normal other ∈ [upsert, rejected] →
      (ShardCommand.delete "docs" [7, 7] : ShardCommand ℤ).Independent other := by
    intro other hother
    simp only [List.mem_cons, upsert, rejected, EntryPayload.normal.injEq, List.not_mem_nil, or_false] at hother
    rcases hother with rfl | rfl
    · exact Or.inr (by simp [ShardCommand.ids])
    · exact Or.inl (by decide)
  obtain ⟨rs, r, qs, ps, -, -, -, -, hstore⟩ := machine.apply_independent.2 (.delete "docs" [7, 7]) []
    [upsert, rejected] [] log moved hindependent rfl rfl
  exact ⟨hstore, by decide +kernel⟩

end RaftVec
