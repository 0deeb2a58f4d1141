import RaftVec.Node.Store

/-!
# The replicated state machine of one shard replica

Committed log entries reach the store here and nowhere else. `apply` works entry by
entry and in two steps each: it publishes the entry's log id as last applied, and only
then executes the payload. The two halves are separate definitions because a snapshot
can be taken between them.

A command acts on the collection it names through `ShardCommand.effect`, a history of
writes that depends on the collection's dimension alone. Rejected commands have an
empty effect.
-/

namespace RaftVec

open Std WriteHistory

/-- A replica's Raft id. -/
abbrev NodeId := UInt64

/-- The leader under which an entry was proposed. -/
structure LeaderId where
  term : ℕ
  nodeId : NodeId
deriving DecidableEq

/-- The position of a log entry. -/
structure LogId where
  leaderId : LeaderId
  index : ℕ
deriving DecidableEq

/-- A member's address. -/
structure BasicNode where
  addr : String
deriving DecidableEq

/-- The voting configurations and the nodes known by id. -/
structure Membership where
  configs : List (List NodeId)
  nodes : ExtTreeMap NodeId BasicNode
deriving DecidableEq

/-- A membership with the log entry that set it. -/
structure StoredMembership where
  logId : Option LogId
  membership : Membership
deriving DecidableEq

/-- No entry has set a membership yet. -/
def StoredMembership.default : StoredMembership := ⟨none, ⟨[], ∅⟩⟩

/-- The unit of replication: a whole batch for one collection. -/
inductive ShardCommand (F : Type*) where
  | upsert (collection : String) (records : List (VectorRecord F))
  | delete (collection : String) (ids : List UInt64)
deriving DecidableEq

/-- What applying an entry reports to the proposer. -/
structure ShardCommandResponse where
  appliedCount : UInt32
deriving DecidableEq

/-- What a log entry carries. -/
inductive EntryPayload (F : Type*) where
  | blank
  | normal (cmd : ShardCommand F)
  | membership (mem : Membership)
deriving DecidableEq

/-- One entry of a shard's Raft log. -/
structure Entry (F : Type*) where
  logId : LogId
  payload : EntryPayload F
deriving DecidableEq

/-- The collection a command addresses. -/
def ShardCommand.collection {F : Type*} : ShardCommand F → String
  | .upsert collection _ => collection
  | .delete collection _ => collection

variable {F : Type*} [FloatOps F]

/-- The writes a command performs on a collection of the given dimension. -/
def ShardCommand.effect (dim : ℕ) : ShardCommand F → List (UInt64 × Option (StoredVector F))
  | .upsert _ records => if ∀ record ∈ records, record.embedding.length = dim then upsertWrites records else []
  | .delete _ ids => deleteWrites ids

/-- Run a command, a rejection counting as zero applied records. -/
def Store.execute (self : Store F) : ShardCommand F → UInt32 × Store F
  | .upsert collection records =>
    let result := self.insert collection records
    (UInt32.ofNat (result.1.toOption.getD 0), result.2)
  | .delete collection ids =>
    let result := self.delete collection ids
    (UInt32.ofNat (result.1.toOption.getD 0), result.2)

omit [FloatOps F] in
/-- Writing to a collection that exists, seen from every name. -/
theorem Store.getElem?_insert_write {self : Store F} {collection : String} {coll : Collection F}
    (hcoll : self.collections[collection]? = some coll)
    (writes : ℕ → List (UInt64 × Option (StoredVector F))) (name : String) :
    (self.collections.insert collection (coll.write (writes coll.dim)))[name]? =
      if collection = name then self.collections[name]?.map fun held => held.write (writes held.dim)
      else self.collections[name]? := by
  by_cases hname : collection = name
  · subst name
    rw [ExtTreeMap.getElem?_insert_self, if_pos rfl, hcoll, Option.map_some]
  · simp [ExtTreeMap.getElem?_insert, hname]

omit [FloatOps F] in
/-- A store that stays as it is counts as written to where the writes would change nothing. -/
theorem Store.getElem?_unwritten {self : Store F} {collection : String} {f : Collection F → Collection F}
    (h : self.collections[collection]?.map f = self.collections[collection]?) (name : String) :
    self.collections[name]? =
      if collection = name then self.collections[name]?.map f else self.collections[name]? := by
  by_cases hname : collection = name
  · subst name
    rw [if_pos rfl, h]
  · rw [if_neg hname]

/-- A command writes to the collection it names, if that exists, and frames every other one. -/
theorem Store.execute_collections (self : Store F) (cmd : ShardCommand F) (name : String) :
    (self.execute cmd).2.collections[name]? =
      if cmd.collection = name then
        self.collections[name]?.map fun coll => coll.write (cmd.effect coll.dim)
      else self.collections[name]? := by
  cases cmd with
  | upsert collection records =>
    simp only [execute, ShardCommand.collection]
    cases hcoll : self.collections[collection]? with
    | none =>
      rw [insert_of_absent hcoll]
      exact getElem?_unwritten (by rw [hcoll, Option.map_none]) name
    | some coll =>
      by_cases hadmits : coll.Admits records
      · have heffect : (ShardCommand.upsert collection records).effect coll.dim = upsertWrites records :=
          if_pos hadmits
        rw [insert_of_admits hcoll hadmits, ← heffect]
        exact getElem?_insert_write hcoll (ShardCommand.upsert collection records).effect name
      · have heffect : (ShardCommand.upsert collection records).effect coll.dim = [] := if_neg hadmits
        obtain ⟨actual, hreject⟩ := insert_of_not_admits hcoll hadmits
        rw [hreject]
        exact getElem?_unwritten (by rw [hcoll, Option.map_some, heffect, Collection.write_nil]) name
  | delete collection ids =>
    simp only [execute, ShardCommand.collection]
    cases hcoll : self.collections[collection]? with
    | none =>
      rw [delete_of_absent hcoll]
      exact getElem?_unwritten (by rw [hcoll, Option.map_none]) name
    | some coll =>
      rw [delete_of_present hcoll]
      exact getElem?_insert_write hcoll (fun _ => deleteWrites ids) name

/-- A delete removes its ids from its collection and leaves every other record alone. -/
theorem Store.execute_delete_version (store : Store F) (collection : String) (ids : List UInt64)
    (name : String) (id : UInt64) :
    (store.execute (.delete collection ids)).2.version name id =
      if collection = name ∧ id ∈ ids then none else store.version name id := by
  rw [version, execute_collections, version]
  by_cases hname : collection = name
  · simp only [ShardCommand.collection, hname, if_true, true_and]
    cases store.collections[name]? with
    | none => simp
    | some coll =>
      change (applyWrites coll.vectors (deleteWrites ids))[id]? = _
      rw [getElem?_applyWrites, lastWrite_deleteWrites]
      by_cases hid : id ∈ ids <;> simp [hid]
  · simp [ShardCommand.collection, hname]

/-- A replica's applied state: the store, and how far and under which membership it got. -/
structure ShardStateMachine (F : Type*) where
  store : Store F
  lastAppliedLog : Option LogId
  lastMembership : StoredMembership
deriving DecidableEq

namespace ShardStateMachine

/-- A fresh state machine over a store. -/
def new (store : Store F) : ShardStateMachine F := ⟨store, none, .default⟩

/-- First half of applying an entry: record it as applied. -/
def publish (self : ShardStateMachine F) (entry : Entry F) : ShardStateMachine F :=
  { self with lastAppliedLog := some entry.logId }

/-- Second half of applying an entry: let its payload act. -/
def perform (self : ShardStateMachine F) (entry : Entry F) :
    ShardCommandResponse × ShardStateMachine F :=
  match entry.payload with
  | .blank => (⟨0⟩, self)
  | .normal cmd =>
    let result := self.store.execute cmd
    (⟨result.1⟩, { self with store := result.2 })
  | .membership mem => (⟨0⟩, { self with lastMembership := ⟨some entry.logId, mem⟩ })

/-- Apply one entry. -/
def applyEntry (self : ShardStateMachine F) (entry : Entry F) :
    ShardCommandResponse × ShardStateMachine F :=
  (self.publish entry).perform entry

/-- Apply a batch of entries in order, one response each. -/
def apply (self : ShardStateMachine F) :
    List (Entry F) → List ShardCommandResponse × ShardStateMachine F
  | [] => ([], self)
  | entry :: entries =>
    let first := self.applyEntry entry
    let rest := first.2.apply entries
    (first.1 :: rest.1, rest.2)

/-- Cutting a log into batches changes neither the responses nor the state. -/
theorem apply_append (self : ShardStateMachine F) (before after : List (Entry F)) :
    self.apply (before ++ after) =
      ((self.apply before).1 ++ ((self.apply before).2.apply after).1,
        ((self.apply before).2.apply after).2) := by
  induction before generalizing self with
  | nil => rfl
  | cons entry before ih =>
    simp only [List.cons_append, apply, ih]

end ShardStateMachine

/-! ## The store after a log -/

/-- The commands a log carries. -/
def logCommands {F : Type*} (entries : List (Entry F)) : List (ShardCommand F) :=
  entries.filterMap fun entry =>
    match entry.payload with
    | .normal cmd => some cmd
    | _ => none

/-- Run commands in order, keeping only the store. -/
def Store.executeAll (self : Store F) (cmds : List (ShardCommand F)) : Store F :=
  cmds.foldl (fun store cmd => (store.execute cmd).2) self

/-- The writes a list of commands performs on one collection of the given dimension. -/
def effectOn (name : String) (dim : ℕ) (cmds : List (ShardCommand F)) :
    List (UInt64 × Option (StoredVector F)) :=
  cmds.flatMap fun cmd => if cmd.collection = name then cmd.effect dim else []

/-- The first command's effect comes first. -/
theorem effectOn_cons (name : String) (dim : ℕ) (cmd : ShardCommand F) (cmds : List (ShardCommand F)) :
    effectOn name dim (cmd :: cmds) =
      (if cmd.collection = name then cmd.effect dim else []) ++ effectOn name dim cmds :=
  List.flatMap_cons

/-- The effect of a single command. -/
theorem effectOn_singleton (name : String) (dim : ℕ) (cmd : ShardCommand F) :
    effectOn name dim [cmd] = if cmd.collection = name then cmd.effect dim else [] :=
  List.flatMap_singleton _ _

/-- Effects of consecutive lists of commands are performed one after the other. -/
theorem effectOn_append (name : String) (dim : ℕ) (before after : List (ShardCommand F)) :
    effectOn name dim (before ++ after) = effectOn name dim before ++ effectOn name dim after :=
  List.flatMap_append

/-- Consecutive lists of commands compose. -/
theorem Store.executeAll_append (self : Store F) (before after : List (ShardCommand F)) :
    self.executeAll (before ++ after) = (self.executeAll before).executeAll after :=
  List.foldl_append

/-- After any commands a collection holds its old records under the writes that concern it. -/
theorem Store.executeAll_collections (self : Store F) (cmds : List (ShardCommand F)) (name : String) :
    (self.executeAll cmds).collections[name]? =
      self.collections[name]?.map fun coll => coll.write (effectOn name coll.dim cmds) := by
  induction cmds generalizing self with
  | nil => simp [executeAll, effectOn]
  | cons cmd cmds ih =>
    change ((self.execute cmd).2.executeAll cmds).collections[name]? = _
    rw [ih, execute_collections]
    cases self.collections[name]? with
    | none => simp
    | some coll =>
      by_cases hname : cmd.collection = name
      · simp [hname, effectOn, Collection.write_append]
      · simp [hname, effectOn]

/-- Commands keep the shape of every collection. -/
theorem Store.executeAll_shape (self : Store F) (cmds : List (ShardCommand F)) (name : String) :
    (self.executeAll cmds).shape name = self.shape name := by
  rw [shape, executeAll_collections, Option.map_map]
  rfl

/-- Applying a log runs exactly its commands on the store. -/
theorem ShardStateMachine.apply_store (self : ShardStateMachine F) (entries : List (Entry F)) :
    (self.apply entries).2.store = self.store.executeAll (logCommands entries) := by
  induction entries generalizing self with
  | nil => rfl
  | cons entry entries ih =>
    obtain ⟨logId, payload⟩ := entry
    simp only [apply, ih]
    cases payload with
    | blank => rfl
    | normal cmd => rfl
    | membership mem => rfl

end RaftVec
