import RaftVec.Node.StateMachine

/-!
# A write that was committed more than once

`call_with_retry` re-sends a write whose attempt timed out, although that attempt may
have been committed. The shard's log then holds the same command several times, with
other clients' commands in between. Dropping all copies but the first changes nothing
exactly when no copy overrules a write made since: this is decided id by id, from the
last writes before and after the last copy.
-/

namespace RaftVec

open Std WriteHistory

variable {F : Type*} [FloatOps F]

/-- The log with every copy of the request; a missing command stands for a re-sent copy. -/
def retriedLog (request : ShardCommand F) (before : List (ShardCommand F))
    (between : List (Option (ShardCommand F))) (after : List (ShardCommand F)) :
    List (ShardCommand F) :=
  before ++ request :: between.map (·.getD request) ++ request :: after

/-- The same log with only the first copy of the request kept. -/
def firstOnlyLog (request : ShardCommand F) (before : List (ShardCommand F))
    (between : List (Option (ShardCommand F))) (after : List (ShardCommand F)) :
    List (ShardCommand F) :=
  before ++ request :: between.reduceOption ++ after

/-- No copy overrules a later write of another client.

For every id that the request writes and that nobody writes after the last copy, the
commands between the copies leave the id alone or leave it as the request does. -/
def NoOverruledWrite (store : Store F) (request : ShardCommand F)
    (between : List (Option (ShardCommand F))) (after : List (ShardCommand F)) : Prop :=
  ∀ coll, store.collections[request.collection]? = some coll →
    ∀ (id : UInt64) value, lastWrite (request.effect coll.dim) id = some value →
      lastWrite (effectOn request.collection coll.dim after) id = none →
      (lastWrite (effectOn request.collection coll.dim between.reduceOption) id).getD value = value

/-- Re-sent copies concern only the ids of the request. -/
theorem lastWrite_effectOn_copies (request : ShardCommand F) (dim : ℕ)
    (between : List (Option (ShardCommand F))) (id : UInt64)
    (h : lastWrite (request.effect dim) id = none) :
    lastWrite (effectOn request.collection dim (between.map (·.getD request))) id =
      lastWrite (effectOn request.collection dim between.reduceOption) id := by
  induction between with
  | nil => rfl
  | cons command between ih =>
    cases command with
    | none =>
      rw [List.map_cons, effectOn_cons, lastWrite_append, ih, Option.getD_none, if_pos rfl, h,
        Option.or_none, List.reduceOption_cons_of_none]
    | some cmd =>
      rw [List.map_cons, effectOn_cons, lastWrite_append, ih, List.reduceOption_cons_of_some,
        effectOn_cons, lastWrite_append, Option.getD_some]

/-- The last write to an id once every copy has been applied. -/
theorem lastWrite_retried (request : ShardCommand F) (dim : ℕ)
    (between : List (Option (ShardCommand F))) (after : List (ShardCommand F)) (id : UInt64) :
    lastWrite (effectOn request.collection dim
        (request :: between.map (·.getD request) ++ request :: after)) id =
      ((lastWrite (effectOn request.collection dim after) id).or
        (lastWrite (request.effect dim) id)).or
          (lastWrite (effectOn request.collection dim between.reduceOption) id) := by
  rw [List.cons_append, effectOn_cons, effectOn_append, effectOn_cons, if_pos rfl]
  simp only [lastWrite_append]
  cases hrequest : lastWrite (request.effect dim) id with
  | some value => simp
  | none =>
    rw [lastWrite_effectOn_copies request dim between id hrequest]
    simp

/-- The last write to an id when only the first copy is applied. -/
theorem lastWrite_firstOnly (request : ShardCommand F) (dim : ℕ)
    (between : List (Option (ShardCommand F))) (after : List (ShardCommand F)) (id : UInt64) :
    lastWrite (effectOn request.collection dim (request :: between.reduceOption ++ after)) id =
      ((lastWrite (effectOn request.collection dim after) id).or
        (lastWrite (effectOn request.collection dim between.reduceOption) id)).or
          (lastWrite (request.effect dim) id) := by
  rw [List.cons_append, effectOn_cons, effectOn_append, if_pos rfl]
  simp only [lastWrite_append]

/-- An id ends up the same with and without the copies when its last write outlives them. -/
theorem lastWrite_retried_eq_iff (request : ShardCommand F) (dim : ℕ)
    (between : List (Option (ShardCommand F))) (after : List (ShardCommand F)) (id : UInt64)
    (old : Option (StoredVector F)) :
    (lastWrite (effectOn request.collection dim
        (request :: between.map (·.getD request) ++ request :: after)) id).getD old =
        (lastWrite (effectOn request.collection dim
          (request :: between.reduceOption ++ after)) id).getD old ↔
      ∀ value, lastWrite (request.effect dim) id = some value →
        lastWrite (effectOn request.collection dim after) id = none →
        (lastWrite (effectOn request.collection dim between.reduceOption) id).getD value = value := by
  rw [lastWrite_retried, lastWrite_firstOnly]
  cases hafter : lastWrite (effectOn request.collection dim after) id with
  | some later => simp
  | none =>
    cases hrequest : lastWrite (request.effect dim) id with
    | none => simp
    | some value =>
      cases hbetween : lastWrite (effectOn request.collection dim between.reduceOption) id with
      | none => simp
      | some other => simp [eq_comm]

/-- Copies of a request leave other collections alone. -/
theorem effectOn_copies_of_ne (request : ShardCommand F) {name : String}
    (hname : request.collection ≠ name) (dim : ℕ) (between : List (Option (ShardCommand F)))
    (after : List (ShardCommand F)) :
    effectOn name dim (request :: between.map (·.getD request) ++ request :: after) =
      effectOn name dim (request :: between.reduceOption ++ after) := by
  have hcopies : effectOn name dim (between.map (·.getD request)) =
      effectOn name dim between.reduceOption := by
    induction between with
    | nil => rfl
    | cons command between ih =>
      cases command with
      | none => simp [effectOn_cons, hname, ih, List.reduceOption_cons_of_none]
      | some cmd => simp [effectOn_cons, ih, List.reduceOption_cons_of_some]
  simp [effectOn_cons, effectOn_append, hname, hcopies]

/-- The exact condition, for a log that starts with the request. -/
theorem executeAll_retried_iff (store : Store F) (request : ShardCommand F)
    (between : List (Option (ShardCommand F))) (after : List (ShardCommand F)) :
    store.executeAll (request :: between.map (·.getD request) ++ request :: after) =
        store.executeAll (request :: between.reduceOption ++ after) ↔
      NoOverruledWrite store request between after := by
  constructor
  · intro heq coll hcoll id
    have hcollection := congrArg (fun s : Store F => s.collections[request.collection]?) heq
    simp only [Store.executeAll_collections, hcoll, Option.map_some, Option.some.injEq] at hcollection
    have hvectors := congrArg (fun c : Collection F => c.vectors[id]?) hcollection
    simp only [Collection.write, getElem?_applyWrites] at hvectors
    exact (lastWrite_retried_eq_iff request coll.dim between after id _).mp hvectors
  · intro hnone
    apply Store.ext_collections
    intro name
    rw [Store.executeAll_collections, Store.executeAll_collections]
    cases hcoll : store.collections[name]? with
    | none => rfl
    | some coll =>
      rw [Option.map_some, Option.map_some, Option.some.injEq]
      by_cases hname : request.collection = name
      · subst name
        have hvectors : applyWrites coll.vectors (effectOn request.collection coll.dim
            (request :: between.map (·.getD request) ++ request :: after)) =
            applyWrites coll.vectors (effectOn request.collection coll.dim
              (request :: between.reduceOption ++ after)) := by
          apply ExtTreeMap.ext_getElem?
          intro id
          rw [getElem?_applyWrites, getElem?_applyWrites]
          exact (lastWrite_retried_eq_iff request coll.dim between after id _).mpr (hnone coll hcoll id)
        rw [Collection.write, hvectors]
        rfl
      · rw [effectOn_copies_of_ne request hname]

/-- Earlier commands do not change a collection's dimension, and so not the condition. -/
theorem noOverruledWrite_executeAll (store : Store F) (request : ShardCommand F)
    (before : List (ShardCommand F)) (between : List (Option (ShardCommand F)))
    (after : List (ShardCommand F)) :
    NoOverruledWrite (store.executeAll before) request between after ↔
      NoOverruledWrite store request between after := by
  simp only [NoOverruledWrite, Store.executeAll_collections, Option.map_eq_some_iff]
  constructor
  · intro h coll hcoll
    exact h (coll.write (effectOn request.collection coll.dim before)) ⟨coll, hcoll, rfl⟩
  · intro h coll hwritten
    obtain ⟨old, hold, rfl⟩ := hwritten
    exact h old hold

/-- A retried write has the effect of one write exactly when no copy overrules another write. -/
theorem retried_write_eq_first_only_iff (store : Store F) (request : ShardCommand F)
    (before : List (ShardCommand F)) (between : List (Option (ShardCommand F)))
    (after : List (ShardCommand F)) :
    store.executeAll (retriedLog request before between after) =
        store.executeAll (firstOnlyLog request before between after) ↔
      NoOverruledWrite store request between after := by
  rw [retriedLog, firstOnlyLog, List.append_assoc, List.append_assoc,
    Store.executeAll_append store before, Store.executeAll_append store before,
    executeAll_retried_iff, noOverruledWrite_executeAll]

/-- Another client overwrites the record between two copies; the second copy takes it back. -/
theorem retried_write_overrules_other_client :
    let store : Store ℤ := (Store.new.createCollection "docs" 1 1).2
    let request : ShardCommand ℤ := .upsert "docs" [⟨1, [5], ∅⟩]
    let other : ShardCommand ℤ := .upsert "docs" [⟨1, [6], ∅⟩]
    store.executeAll (retriedLog request [] [some other] []) ≠
      store.executeAll (firstOnlyLog request [] [some other] []) := by
  decide

end RaftVec
