import RaftVec.Library.FiniteMap
import RaftVec.Node.Commuting
import RaftVec.Node.Service

/-!
# What a replica reports of itself

`cluster_status` lists the collections and adds up the number of records in each, in 32
bits. The number is that of the ids held, each counted once per collection, and a log moves
it by exactly what its entries do: up by the ids of an accepted batch not held just before it,
down by what the responses to deletions report.

The collections are counted one after the other under their own locks; entries applied in
between are not part of this model.
-/

namespace RaftVec

open Std WriteHistory FiniteMap

/-- The names of the collections and the number of records. -/
structure ClusterStatusResponse where
  collections : List String
  vectorCount : UInt32
deriving DecidableEq

section Counting

variable {F : Type*}

/-- List the collections and count the records. -/
def Store.clusterStatus (self : Store F) : List String × UInt32 :=
  (self.collections.keys, (self.collections.toList.map fun entry => UInt32.ofNat entry.2.vectors.size).sum)

/-- Report the local store, leader or not. -/
def NodeService.clusterStatus (store : Store F) : ClusterStatusResponse :=
  ⟨store.clusterStatus.1, store.clusterStatus.2⟩

/-- The ids held, with the names of their collections. -/
def Store.heldKeys (self : Store F) : Finset (String × UInt64) :=
  (self.collections.toList.flatMap fun entry => entry.2.vectors.keys.map fun id => (entry.1, id)).toFinset

/-- An id is held when a version is stored under it. -/
theorem Store.mem_heldKeys (self : Store F) (name : String) (id : UInt64) :
    (name, id) ∈ self.heldKeys ↔ self.version name id ≠ none := by
  simp only [heldKeys, List.mem_toFinset, List.mem_flatMap, List.mem_map, Prod.mk.injEq, version]
  constructor
  · rintro ⟨entry, hentry, held, hheld, rfl, rfl⟩
    rw [ExtTreeMap.mem_toList_iff_getElem?_eq_some.mp hentry, Option.bind_some]
    rw [ExtTreeMap.mem_keys, ExtTreeMap.mem_iff_isSome_getElem?] at hheld
    exact Option.isSome_iff_ne_none.mp hheld
  · intro hversion
    cases hcoll : self.collections[name]? with
    | none =>
      rw [hcoll] at hversion
      exact absurd rfl hversion
    | some coll =>
      rw [hcoll, Option.bind_some] at hversion
      refine ⟨(name, coll), ExtTreeMap.mem_toList_iff_getElem?_eq_some.mpr hcoll, id, ?_, rfl, rfl⟩
      rw [ExtTreeMap.mem_keys, ExtTreeMap.mem_iff_isSome_getElem?]
      exact Option.isSome_iff_ne_none.mpr hversion

/-- The count is the number of ids held, in 32 bits. -/
theorem Store.clusterStatus_count (self : Store F) :
    self.clusterStatus.2 = UInt32.ofNat self.heldKeys.card := by
  have hsum : ∀ entries : List (String × Collection F),
      (entries.map fun entry => UInt32.ofNat entry.2.vectors.size).sum =
        UInt32.ofNat (entries.flatMap fun entry => entry.2.vectors.keys.map fun id => (entry.1, id)).length := by
    intro entries
    induction entries with
    | nil => rfl
    | cons entry entries ih =>
      rw [List.map_cons, List.sum_cons, ih, List.flatMap_cons, List.length_append, List.length_map,
        ← ExtTreeMap.map_fst_toList_eq_keys, List.length_map, ExtTreeMap.length_toList, UInt32.ofNat_add]
  have hnodup : (self.collections.toList.flatMap fun entry =>
      entry.2.vectors.keys.map fun id => (entry.1, id)).Nodup := by
    rw [List.nodup_flatMap]
    constructor
    · intro entry _
      exact ExtTreeMap.nodup_keys.map fun a b heq => (Prod.mk.inj heq).2
    · have hnames : (self.collections.toList.map Prod.fst).Nodup := by
        rw [ExtTreeMap.map_fst_toList_eq_keys]
        exact ExtTreeMap.nodup_keys
      apply (List.pairwise_map.mp hnames).imp
      intro a b hne pair ha hb
      obtain ⟨id, -, rfl⟩ := List.mem_map.mp ha
      obtain ⟨other, -, heq⟩ := List.mem_map.mp hb
      exact hne (Prod.mk.inj heq).1.symm
  change (self.collections.toList.map fun entry => UInt32.ofNat entry.2.vectors.size).sum = _
  rw [hsum, heldKeys, List.toFinset_card_of_nodup hnodup]

end Counting

/-! ## The account of a log -/

section Account

variable {F : Type*} [FloatOps F]

omit [FloatOps F] in
/-- The ids a command names, in its collection. -/
def ShardCommand.keys (cmd : ShardCommand F) : Finset (String × UInt64) :=
  cmd.ids.toFinset.image fun id => (cmd.collection, id)

omit [FloatOps F] in
/-- A key of a command is one of its ids in its collection. -/
theorem ShardCommand.mem_keys {cmd : ShardCommand F} {name : String} {id : UInt64} :
    (name, id) ∈ cmd.keys ↔ cmd.collection = name ∧ id ∈ cmd.ids := by
  simp only [keys, Finset.mem_image, List.mem_toFinset, Prod.mk.injEq]
  constructor
  · rintro ⟨other, hother, hname, rfl⟩
    exact ⟨hname, hother⟩
  · rintro ⟨hname, hid⟩
    exact ⟨id, hid, hname, rfl⟩

omit [FloatOps F] in
/-- The batch is one the store takes. -/
def Store.takes (self : Store F) (collection : String) (records : List (VectorRecord F)) : Bool :=
  self.collections[collection]?.any fun coll => decide (coll.Admits records)

omit [FloatOps F] in
/-- The ids a command makes the store hold that it did not hold just before. -/
def Store.firstHeld (self : Store F) : ShardCommand F → Finset (String × UInt64)
  | .upsert collection records =>
    if self.takes collection records then (ShardCommand.upsert collection records).keys \ self.heldKeys else ∅
  | .delete _ _ => ∅

omit [FloatOps F] in
/-- The ids a command makes the store hold no longer. -/
def Store.removed (self : Store F) : ShardCommand F → Finset (String × UInt64)
  | .upsert _ _ => ∅
  | .delete collection ids => (ShardCommand.delete (F := F) collection ids).keys ∩ self.heldKeys

/-- After a batch that is taken, its ids are held beside the others. -/
theorem Store.execute_upsert_version {self : Store F} {collection : String} {records : List (VectorRecord F)}
    (htakes : self.takes collection records = true) (name : String) (id : UInt64) :
    (self.execute (.upsert collection records)).2.version name id ≠ none ↔
      (collection = name ∧ id ∈ records.map VectorRecord.id) ∨ self.version name id ≠ none := by
  obtain ⟨coll, hcoll, hadmits⟩ : ∃ coll, self.collections[collection]? = some coll ∧ coll.Admits records := by
    rw [takes, Option.any_eq_true] at htakes
    obtain ⟨coll, hcoll, hadmits⟩ := htakes
    exact ⟨coll, hcoll, of_decide_eq_true hadmits⟩
  rw [version, execute_collections, version]
  by_cases hname : collection = name
  · subst hname
    have heffect : (ShardCommand.upsert collection records).effect coll.dim = upsertWrites records := if_pos hadmits
    simp only [ShardCommand.collection, if_true, hcoll, Option.map_some, Option.bind_some, heffect, Collection.write,
      getElem?_applyWrites, lastWrite_upsertWrites, true_and]
    cases hlast : lastRecord records id with
    | none =>
      have hnotMem : id ∉ records.map VectorRecord.id := by
        intro hmem
        obtain ⟨record, hrecord, rfl⟩ := List.mem_map.mp hmem
        rw [lastRecord, List.getLast?_eq_none_iff, List.filter_eq_nil_iff] at hlast
        exact hlast record hrecord (by simp)
      simp [hnotMem]
    | some record =>
      have hmem : id ∈ records.map VectorRecord.id := by
        have hfound := List.mem_filter.mp (List.mem_of_getLast? hlast)
        exact List.mem_map.mpr ⟨record, hfound.1, of_decide_eq_true hfound.2⟩
      simp [hmem]
  · simp [ShardCommand.collection, hname]

/-- A batch that is not taken leaves the store alone. -/
theorem Store.execute_upsert_of_not_takes {self : Store F} {collection : String} {records : List (VectorRecord F)}
    (htakes : self.takes collection records = false) : (self.execute (.upsert collection records)).2 = self := by
  change (self.insert collection records).2 = self
  cases hcoll : self.collections[collection]? with
  | none => rw [insert_of_absent hcoll]
  | some coll =>
    have hrejects : ¬ coll.Admits records := by
      intro hadmits
      simp [takes, hcoll, hadmits] at htakes
    obtain ⟨actual, hinsert⟩ := insert_of_not_admits hcoll hrejects
    rw [hinsert]

/-- A command adds the ids it makes the store hold and takes away those it removes. -/
theorem Store.heldKeys_execute (self : Store F) (cmd : ShardCommand F) :
    (self.execute cmd).2.heldKeys = (self.heldKeys ∪ self.firstHeld cmd) \ self.removed cmd := by
  ext ⟨name, id⟩
  cases cmd with
  | upsert collection records =>
    simp only [removed, Finset.sdiff_empty, Finset.mem_union, firstHeld]
    cases htakes : self.takes collection records with
    | true =>
      rw [mem_heldKeys, execute_upsert_version htakes, if_pos rfl, Finset.mem_sdiff, ShardCommand.mem_keys,
        mem_heldKeys]
      change (collection = name ∧ id ∈ records.map VectorRecord.id) ∨ _ ↔
        _ ∨ (collection = name ∧ id ∈ records.map VectorRecord.id) ∧ _
      tauto
    | false =>
      rw [execute_upsert_of_not_takes htakes]
      simp
  | delete collection ids =>
    simp only [firstHeld, Finset.union_empty, removed, Finset.mem_sdiff, Finset.mem_inter, ShardCommand.mem_keys,
      mem_heldKeys, execute_delete_version]
    change (if collection = name ∧ id ∈ ids then none else _) ≠ none ↔
      _ ∧ ¬ ((collection = name ∧ id ∈ ids) ∧ _)
    by_cases hnamed : collection = name ∧ id ∈ ids
    · simp [hnamed]
    · simp only [hnamed, if_false, false_and, not_false_eq_true, and_true]

omit [FloatOps F] in
/-- What a command adds was not held, and what it removes was. -/
theorem Store.card_execute (self : Store F) (cmd : ShardCommand F) :
    ((self.heldKeys ∪ self.firstHeld cmd) \ self.removed cmd).card + (self.removed cmd).card =
      self.heldKeys.card + (self.firstHeld cmd).card := by
  have hfresh : Disjoint self.heldKeys (self.firstHeld cmd) := by
    cases cmd with
    | delete collection ids => exact Finset.disjoint_empty_right _
    | upsert collection records =>
      rw [firstHeld]
      split
      · exact Finset.disjoint_sdiff
      · exact Finset.disjoint_empty_right _
  have hheld : self.removed cmd ⊆ self.heldKeys ∪ self.firstHeld cmd := by
    cases cmd with
    | upsert collection records => exact Finset.empty_subset _
    | delete collection ids => exact Finset.inter_subset_right.trans Finset.subset_union_left
  rw [Finset.card_sdiff_add_card_eq_card hheld, Finset.card_union_of_disjoint hfresh]

/-- The response to a deletion is the number of ids it removed, in 32 bits. -/
theorem Store.execute_delete_count (self : Store F) (collection : String) (ids : List UInt64) :
    (self.execute (.delete collection ids)).1 =
      UInt32.ofNat (self.removed (.delete collection ids : ShardCommand F)).card := by
  have hremoved : self.removed (.delete collection ids : ShardCommand F) =
      (ids.toFinset.filter fun id => self.version collection id ≠ none).image fun id => (collection, id) := by
    ext ⟨name, id⟩
    simp only [removed, Finset.mem_inter, ShardCommand.mem_keys, mem_heldKeys, Finset.mem_image, Finset.mem_filter,
      List.mem_toFinset, Prod.mk.injEq]
    constructor
    · rintro ⟨⟨hname, hid⟩, hheld⟩
      change collection = name at hname
      subst hname
      exact ⟨id, ⟨hid, hheld⟩, rfl, rfl⟩
    · rintro ⟨other, ⟨hid, hheld⟩, rfl, rfl⟩
      exact ⟨⟨rfl, hid⟩, hheld⟩
  rw [hremoved, Finset.card_image_of_injective _ fun a b heq => (Prod.mk.inj heq).2, execute_count]
  congr 1
  change (self.collections[collection]?.map fun coll => _).getD 0 = _
  cases hcoll : self.collections[collection]? with
  | none => simp [version, hcoll]
  | some coll =>
    simp only [Option.map_some, Option.getD_some, ShardCommand.appliedTo, version, hcoll, Option.bind_some]
    congr 1
    apply Finset.filter_congr
    intro id _
    rw [ExtTreeMap.mem_iff_isSome_getElem?, Option.isSome_iff_ne_none]

/-- How many ids the batches of a log make the store hold that it did not hold just before, entry
by entry. -/
def Store.idsGained (self : Store F) : List (Entry F) → ℕ
  | [] => 0
  | entry :: entries =>
    (match entry.payload with
      | .normal cmd => (self.firstHeld cmd).card
      | _ => 0) + (self.respond entry.payload).2.idsGained entries

omit [FloatOps F] in
/-- What the responses to the deletions of a log add up to. -/
def deletionsReported : List (Entry F) → List ShardCommandResponse → UInt32
  | entry :: entries, response :: responses =>
    (match entry.payload with
      | .normal (.delete _ _) => response.appliedCount
      | _ => 0) + deletionsReported entries responses
  | _, _ => 0

/-- One command's part of the account. -/
theorem Store.count_execute (self : Store F) (cmd : ShardCommand F) :
    (self.execute cmd).2.clusterStatus.2 +
        (match cmd with | .delete _ _ => (self.execute cmd).1 | .upsert _ _ => 0) =
      self.clusterStatus.2 + UInt32.ofNat (self.firstHeld cmd).card := by
  have hreported : (match cmd with | .delete _ _ => (self.execute cmd).1 | .upsert _ _ => 0) =
      UInt32.ofNat (self.removed cmd).card := by
    cases cmd with
    | upsert collection records => rfl
    | delete collection ids => exact self.execute_delete_count collection ids
  rw [hreported, clusterStatus_count, clusterStatus_count, heldKeys_execute, ← UInt32.ofNat_add, card_execute,
    UInt32.ofNat_add]

/-- The number of records a replica reports moves by what the log it applies does.

It goes up by the ids of accepted batches that were not held just before the batch and down by
what the responses to deletions report, whatever is overwritten, repeated, rejected or missing. -/
theorem ShardStateMachine.vectorCount_account (self : ShardStateMachine F) (entries : List (Entry F)) :
    (self.apply entries).2.store.clusterStatus.2 + deletionsReported entries (self.apply entries).1 =
      self.store.clusterStatus.2 + UInt32.ofNat (self.store.idsGained entries) := by
  induction entries generalizing self with
  | nil => rfl
  | cons entry entries ih =>
    have hrest := ih (self.applyEntry entry).2
    have hentry := self.applyEntry_eq_respond entry
    have hstore : (self.store.respond entry.payload).2 = (self.applyEntry entry).2.store := congrArg Prod.snd hentry
    have hresponse : (self.store.respond entry.payload).1 = (self.applyEntry entry).1 := congrArg Prod.fst hentry
    have hown : (self.applyEntry entry).2.store.clusterStatus.2 +
        (match entry.payload with | .normal (.delete _ _) => (self.applyEntry entry).1.appliedCount | _ => 0) =
        self.store.clusterStatus.2 + UInt32.ofNat
          (match entry.payload with | .normal cmd => (self.store.firstHeld cmd).card | _ => 0) := by
      rw [← hstore, ← hresponse]
      cases hpayload : entry.payload with
      | blank => rfl
      | membership mem => rfl
      | normal cmd =>
        have hcmd := self.store.count_execute cmd
        cases cmd with
        | upsert collection records => exact hcmd
        | delete collection ids => exact hcmd
    simp only [apply, deletionsReported, Store.idsGained, hstore, UInt32.ofNat_add]
    rw [add_left_comm, hrest, add_left_comm, ← add_assoc, hown, add_assoc]

end Account

end RaftVec
