import RaftVec.Library.FiniteMap
import RaftVec.Node.Commuting
import RaftVec.Node.Snapshot

/-!
# Bringing the hits of a search up to date

A log names some ids of a collection and leaves the other records alone. So the hits of a
search after the log can be had from the hits of a search before it, if that one asked for
as many more as the log names ids: drop the hits the log names, score the named records that
are held now, and merge the two lists. Without a log in between, fewer hits are the front of
more hits.
-/

namespace RaftVec

open Std WriteHistory Selection FiniteMap

variable {F : Type*}

/-- The ids of a collection that commands name, each once. -/
def touchedIds (collection : String) (cmds : List (ShardCommand F)) : List UInt64 :=
  ((cmds.filter fun cmd => cmd.collection = collection).flatMap ShardCommand.ids).dedup

/-- The records held under some ids, listed by the ids, are those entries of the collection. -/
theorem Collection.filter_mem_perm (coll : Collection F) {ids : List UInt64} (hnodup : ids.Nodup) :
    (coll.vectors.toList.filter fun entry => entry.1 ∈ ids).Perm
      (ids.filterMap fun id => coll.vectors[id]?.map fun stored => (id, stored)) := by
  have hlisted : (ids.filterMap fun id => coll.vectors[id]?.map fun stored => (id, stored)).Nodup := by
    apply hnodup.filterMap
    rintro id other entry hid hother
    obtain ⟨stored, -, rfl⟩ := Option.map_eq_some_iff.mp hid
    obtain ⟨stored', -, heq⟩ := Option.map_eq_some_iff.mp hother
    exact (congrArg Prod.fst heq).symm
  rw [List.perm_ext_iff_of_nodup ((nodup_toList _).filter _) hlisted]
  intro entry
  rw [List.mem_filter, ExtTreeMap.mem_toList_iff_getElem?_eq_some, decide_eq_true_iff, List.mem_filterMap]
  constructor
  · rintro ⟨hheld, hid⟩
    exact ⟨entry.1, hid, by rw [hheld]; rfl⟩
  · rintro ⟨id, hid, hentry⟩
    obtain ⟨stored, hheld, rfl⟩ := Option.map_eq_some_iff.mp hentry
    exact ⟨hheld, hid⟩

/-- Collections that agree on the ids outside a list have the same entries there. -/
theorem Collection.filter_notMem_perm {coll other : Collection F} {ids : List UInt64}
    (h : ∀ id ∉ ids, coll.vectors[id]? = other.vectors[id]?) :
    (coll.vectors.toList.filter fun entry => entry.1 ∉ ids).Perm
      (other.vectors.toList.filter fun entry => entry.1 ∉ ids) := by
  rw [List.perm_ext_iff_of_nodup ((nodup_toList _).filter _) ((nodup_toList _).filter _)]
  intro entry
  rw [List.mem_filter, List.mem_filter, ExtTreeMap.mem_toList_iff_getElem?_eq_some,
    ExtTreeMap.mem_toList_iff_getElem?_eq_some, decide_eq_true_iff]
  constructor
  · rintro ⟨hheld, hid⟩
    exact ⟨by rw [← h entry.1 hid, hheld], hid⟩
  · rintro ⟨hheld, hid⟩
    exact ⟨by rw [h entry.1 hid, hheld], hid⟩

variable [FloatOps F]

/-- Score the records that a collection holds for some ids. -/
def Store.scoreIds (self : Store F) (collection : String) (query : List F) (ids : List UInt64) :
    List (ScoredId F) :=
  ids.filterMap fun id =>
    (self.version collection id).map fun stored => scoreRecord query (stored.record, stored.normSq)

/-- Commands leave the records they do not name as they are. -/
theorem lastWrite_effectOn_of_untouched {collection : String} {cmds : List (ShardCommand F)} {id : UInt64}
    (h : id ∉ touchedIds collection cmds) (dim : ℕ) : lastWrite (effectOn collection dim cmds) id = none := by
  cases hlast : lastWrite (effectOn collection dim cmds) id with
  | none => rfl
  | some value =>
    obtain ⟨cmd, hcmd, hwrite⟩ := List.mem_flatMap.mp (mem_of_lastWrite hlast)
    split at hwrite
    · next hname =>
      refine absurd (List.mem_dedup.mpr (List.mem_flatMap.mpr ⟨cmd, ?_, ShardCommand.mem_ids_of_mem_effect hwrite⟩)) h
      exact List.mem_filter.mpr ⟨hcmd, decide_eq_true hname⟩
    · cases hwrite

/-- What a scan makes of one entry of the map. -/
def scoreEntry (query : List F) (entry : UInt64 × StoredVector F) : ScoredId F :=
  scoreRecord query (entry.2.record, entry.2.normSq)

/-- A scan scores the entries of the map. -/
theorem scoredIds_scanned (query : List F) (coll : Collection F) :
    scoredIds query coll.scanned = ((coll.vectors.toList.map (scoreEntry query) : List (ScoredId F)) :
      Multiset (ScoredId F)) := by
  rw [scoredIds, Collection.scanned, List.map_map]
  rfl

/-- The score of an entry has the entry's id. -/
theorem Collection.WellFormed.scoreEntry_id {coll : Collection F} (h : coll.WellFormed) {query : List F}
    {entry : UInt64 × StoredVector F} (hentry : entry ∈ coll.vectors.toList) :
    (scoreEntry query entry).id = entry.1 :=
  h.keyed entry.1 entry.2 (ExtTreeMap.mem_toList_iff_getElem?_eq_some.mp hentry)

/-- The scores after some writes are the untouched ones of before and those of the touched
records held now. -/
theorem Collection.WellFormed.scoredIds_touched {coll written : Collection F} (hcoll : coll.WellFormed)
    (query : List F) {ids : List UInt64} (hnodup : ids.Nodup)
    (hrest : ∀ id ∉ ids, written.vectors[id]? = coll.vectors[id]?) :
    scoredIds query written.scanned =
      (scoredIds query coll.scanned).filter (fun hit => decide (hit.id ∉ ids) = true) +
        ((ids.filterMap fun id => written.vectors[id]?.map fun stored => (id, stored)).map (scoreEntry query) :
          List (ScoredId F)) := by
  have huntouched : (coll.vectors.toList.map (scoreEntry query)).filter (fun hit => hit.id ∉ ids) =
      (coll.vectors.toList.filter fun entry => entry.1 ∉ ids).map (scoreEntry query) := by
    rw [List.filter_map]
    congr 1
    apply List.filter_congr
    intro entry hentry
    simp only [Function.comp_apply, hcoll.scoreEntry_id hentry]
  have hsplit : written.vectors.toList.Perm
      ((coll.vectors.toList.filter fun entry => entry.1 ∉ ids) ++
        ids.filterMap fun id => written.vectors[id]?.map fun stored => (id, stored)) := by
    have hboth := List.filter_append_perm (fun entry => entry.1 ∉ ids) written.vectors.toList
    have htouched : (written.vectors.toList.filter fun entry => !decide (entry.1 ∉ ids)) =
        written.vectors.toList.filter fun entry => entry.1 ∈ ids := by
      apply List.filter_congr
      intro entry _
      by_cases hid : entry.1 ∈ ids <;> simp [hid]
    rw [htouched] at hboth
    exact hboth.symm.trans ((Collection.filter_notMem_perm hrest).append (written.filter_mem_perm hnodup))
  rw [scoredIds_scanned, scoredIds_scanned, Multiset.filter_coe, Multiset.coe_add, Multiset.coe_eq_coe]
  simp only [Bool.decide_eq_true]
  rw [huntouched, ← List.map_append]
  exact hsplit.map _

/-- No more hits are touched than ids are named. -/
theorem Collection.WellFormed.countP_touched_le {coll : Collection F} (h : coll.WellFormed) (query : List F)
    (ids : List UInt64) :
    (scoredIds query coll.scanned).countP (fun hit => (!decide (hit.id ∉ ids)) = true) ≤ ids.length := by
  rw [scoredIds_scanned, Multiset.coe_countP, List.countP_eq_length_filter, ← List.length_map ScoredId.id]
  apply List.Subperm.length_le
  apply List.subperm_of_subset
  · have hids : (coll.vectors.toList.map (scoreEntry query)).map ScoredId.id = coll.vectors.toList.map Prod.fst := by
      rw [List.map_map]
      apply List.map_congr_left
      intro entry hentry
      exact h.scoreEntry_id hentry
    have hnodup : coll.vectors.keys.Nodup := ExtTreeMap.nodup_keys
    rw [← ExtTreeMap.map_fst_toList_eq_keys, ← hids] at hnodup
    exact hnodup.sublist ((List.filter_sublist).map ScoredId.id)
  · intro id hid
    obtain ⟨hit, hhit, rfl⟩ := List.mem_map.mp hid
    simpa using (List.mem_filter.mp hhit).2

/-- The hits after a log are those before it, of which as many more were asked for as the log
names ids: without the hits the log names, merged with the scores of the named records that
are held now. -/
theorem ShardStateMachine.search_after_apply [LinearOrder F] {machine : ShardStateMachine F}
    (hwell : machine.store.WellFormed) (entries : List (Entry F))
    (schedule schedule' : ScanSchedule (VectorRecord F × F)) {collection : String} {query : List F} {k : ℕ}
    {hits : List (ScoredId F)}
    (hhits : machine.store.search schedule collection query
      (k + (touchedIds collection (logCommands entries)).length) = .ok hits) :
    let touched := touchedIds collection (logCommands entries)
    let store := (machine.apply entries).2.store
    store.search schedule' collection query k =
      .ok (mergeTopK [hits.filter fun hit => hit.id ∉ touched, store.scoreIds collection query touched] k) := by
  intro touched store
  cases hcoll : machine.store.collections[collection]? with
  | none => simp [Store.search, hcoll] at hhits
  | some coll =>
    by_cases hquery : query.length = coll.dim
    · rw [Store.search_eq_greatest schedule _ hcoll hquery] at hhits
      cases hhits
      have hwritten : store.collections[collection]? =
          some (coll.write (effectOn collection coll.dim (logCommands entries))) := by
        change (machine.apply entries).2.store.collections[collection]? = _
        rw [ShardStateMachine.apply_store, Store.executeAll_collections, hcoll]
        rfl
      have hscored : store.scoreIds collection query touched =
          (touched.filterMap fun id =>
            (coll.write (effectOn collection coll.dim (logCommands entries))).vectors[id]?.map
              fun stored => (id, stored)).map (scoreEntry query) := by
        rw [Store.scoreIds, List.map_filterMap]
        simp only [Store.version, hwritten, Option.bind_some, Option.map_map]
        rfl
      have hrest : ∀ id ∉ touched,
          (coll.write (effectOn collection coll.dim (logCommands entries))).vectors[id]? = coll.vectors[id]? := by
        intro id hid
        rw [Collection.write, getElem?_applyWrites, lastWrite_effectOn_of_untouched hid]
        rfl
      have hcollWell := hwell collection coll hcoll
      have hnodup : touched.Nodup := List.nodup_dedup _
      rw [Store.search_eq_greatest schedule' k hwritten hquery,
        hcollWell.scoredIds_touched query hnodup hrest,
        greatest_filter_absorb (hcollWell.countP_touched_le query touched) k, mergeTopK_eq_greatest, hscored]
      simp only [List.flatten_cons, List.flatten_nil, List.append_nil, Multiset.coe_add]
      rfl
    · simp [Store.search, hcoll, hquery] at hhits

/-- A log replaces the best hit by a worse record, removes another one and adds a third. -/
theorem ShardStateMachine.search_after_apply_three_ids :
    let machine : ShardStateMachine ℤ := .new (((Store.new.createCollection "docs" 1 1).2.insert "docs"
      [⟨1, [9], ∅⟩, ⟨2, [8], ∅⟩, ⟨3, [7], ∅⟩, ⟨4, [-6], ∅⟩]).2)
    let entries : List (Entry ℤ) := [⟨⟨⟨1, 1⟩, 0⟩, .normal (.upsert "docs" [⟨1, [-9], ∅⟩, ⟨5, [5], ∅⟩])⟩,
      ⟨⟨⟨1, 1⟩, 1⟩, .normal (.delete "docs" [2, 2])⟩]
    let store := (machine.apply entries).2.store
    ∃ hits, machine.store.search (.sequential _) "docs" [1] (2 + 3) = .ok hits ∧
      store.search (.sequential _) "docs" [1] 2 = .ok (mergeTopK [hits.filter fun hit => hit.id ∉ [1, 5, 2],
        store.scoreIds "docs" [1] [1, 5, 2]] 2) := by
  intro machine entries store
  have hwell : machine.store.WellFormed :=
    (Store.wellFormed_new.createCollection "docs" 1 1).execute (.upsert "docs" _)
  have hdim : ∃ coll, machine.store.collections["docs"]? = some coll ∧ coll.dim = 1 := by
    refine ⟨_, rfl, ?_⟩
    decide +kernel
  obtain ⟨coll, hcoll, hdim⟩ := hdim
  have hhits : machine.store.search (.sequential _) "docs" [1] (2 + 3) =
      .ok (greatest (2 + 3) (scoredIds [1] coll.scanned)) :=
    Store.search_eq_greatest (.sequential _) (2 + 3) hcoll hdim.symm
  have htouched : touchedIds "docs" (logCommands entries) = [1, 5, 2] := by decide +kernel
  refine ⟨_, hhits, ?_⟩
  rw [← htouched]
  apply search_after_apply hwell entries (.sequential _) (.sequential _)
  rw [htouched]
  exact hhits

end RaftVec
