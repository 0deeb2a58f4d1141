import RaftVec.Core.Direction
import RaftVec.Node.Snapshot

/-!
# Finding a record by its own embedding

A search for the embedding of a record, or for any positive multiple of it, lists a record
that points in the same direction first, with score one: the one with the lowest id among
them. So a record is found by its own embedding unless a record of a lower id is parallel to
it. Arithmetic is exact here.

Nothing depends on magnitudes. A log whose embeddings were scaled before they were sent, each
by its own positive factor, gives every later search the same hits.
-/

namespace RaftVec

open WriteHistory Selection

namespace Store

variable {store : Store ℝ}

/-- The store holds a record under this id whose embedding points in the given direction. -/
def HoldsDirection (self : Store ℝ) (collection : String) (direction : List ℝ) (id : UInt64) : Prop :=
  ∃ stored, self.version collection id = some stored ∧ SameDirection direction stored.record.embedding

/-- What a search scores: every record held, under its id, by its similarity to the query. -/
theorem WellFormed.mem_scoredIds_iff (hwell : store.WellFormed) {collection : String} {coll : Collection ℝ}
    (hcoll : store.collections[collection]? = some coll) {query : List ℝ} {hit : ScoredId ℝ} :
    hit ∈ scoredIds query coll.scanned ↔ ∃ stored, store.version collection hit.id = some stored ∧
      stored.record.embedding.length = coll.dim ∧
      hit.score = cosineSimilarity stored.record.embedding query := by
  have hversion : ∀ id : UInt64, store.version collection id = coll.vectors[id]? := by
    intro id
    rw [version, hcoll, Option.bind_some]
  have hcollWell := hwell collection coll hcoll
  have hscore : ∀ (id : UInt64) stored, coll.vectors[id]? = some stored →
      scoreRecord query (stored.record, stored.normSq) = ⟨id, cosineSimilarity stored.record.embedding query⟩ := by
    intro id stored hheld
    have hnorm : stored.normSq = RaftVec.normSq stored.record.embedding :=
      congrArg StoredVector.normSq (hcollWell.normed id stored hheld)
    rw [scoreRecord, hcollWell.keyed id stored hheld, hnorm]
    rfl
  rw [hversion]
  constructor
  · intro hhit
    obtain ⟨record, hrecord, rfl⟩ := exists_of_mem_scoredIds hhit
    obtain ⟨entry, hentry, rfl⟩ := List.mem_map.mp hrecord
    have hheld := Std.ExtTreeMap.mem_toList_iff_getElem?_eq_some.mp hentry
    rw [hscore entry.1 entry.2 hheld]
    exact ⟨entry.2, hheld, hcollWell.sized entry.1 entry.2 hheld, rfl⟩
  · rintro ⟨stored, hheld, -, hequal⟩
    rw [scoredIds, Multiset.mem_coe, List.mem_map]
    refine ⟨(stored.record, stored.normSq), ?_, ?_⟩
    · exact List.mem_map.mpr ⟨(hit.id, stored), Std.ExtTreeMap.mem_toList_iff_getElem?_eq_some.mpr hheld, rfl⟩
    · rw [hscore hit.id stored hheld, ← hequal]

/-- A search for a record's own embedding, or a positive multiple of it, has score one at the
top, at the record of the lowest id that points in this direction, and no score below minus
one or above one. -/
theorem search_own_embedding (hwell : store.WellFormed) (schedule : ScanSchedule (VectorRecord ℝ × ℝ))
    {collection : String} {id : UInt64} {stored : StoredVector ℝ} (hheld : store.version collection id = some stored)
    (hnorm : normSq stored.record.embedding ≠ 0) {c : ℝ} (hc : 0 < c) (k : ℕ) :
    ∃ first rest, store.search schedule collection (scale c stored.record.embedding) (k + 1) =
        .ok (⟨first, 1⟩ :: rest) ∧
      store.HoldsDirection collection stored.record.embedding first ∧
      (∀ other, store.HoldsDirection collection stored.record.embedding other → first ≤ other) ∧
      ∀ hit ∈ rest, |hit.score| ≤ 1 := by
  cases hcoll : store.collections[collection]? with
  | none => simp [version, hcoll] at hheld
  | some coll =>
    have hquery : (scale c stored.record.embedding).length = coll.dim := by
      rw [length_scale]
      rw [version, hcoll, Option.bind_some] at hheld
      exact (hwell collection coll hcoll).sized id stored hheld
    have hmem : ∀ hit, hit ∈ scoredIds (scale c stored.record.embedding) coll.scanned ↔ _ :=
      fun hit => hwell.mem_scoredIds_iff hcoll
    have hbound : ∀ hit ∈ scoredIds (scale c stored.record.embedding) coll.scanned, |hit.score| ≤ 1 := by
      intro hit hhit
      obtain ⟨other, -, hdim, hscore⟩ := (hmem hit).mp hhit
      rw [hscore]
      exact abs_cosineSimilarity_le_one (hdim.trans hquery.symm)
    -- every record of the direction scores one
    have hone : ∀ other, store.HoldsDirection collection stored.record.embedding other →
        (⟨other, 1⟩ : ScoredId ℝ) ∈ scoredIds (scale c stored.record.embedding) coll.scanned := by
      rintro other ⟨found, hfound, hdirection⟩
      refine (hmem _).mpr ⟨found, hfound, ?_, ?_⟩
      · rw [hdirection.length_eq, ← length_scale c, hquery]
      · have hself := (cosineSimilarity_eq_one_iff rfl hnorm hnorm).mpr (.refl stored.record.embedding)
        rw [SameDirection.cosineSimilarity_eq hdirection ⟨c, hc, rfl⟩, hself]
    obtain ⟨best, hbest, hmax⟩ : ∃ best ∈ scoredIds (scale c stored.record.embedding) coll.scanned,
        ∀ hit ∈ scoredIds (scale c stored.record.embedding) coll.scanned, hit ≤ best := by
      have hnonempty := hone id ⟨stored, hheld, .refl _⟩
      have hfinite : (scoredIds (scale c stored.record.embedding) coll.scanned).toFinset.Nonempty :=
        ⟨_, Multiset.mem_toFinset.mpr hnonempty⟩
      refine ⟨_, Multiset.mem_toFinset.mp (Finset.max'_mem _ hfinite), ?_⟩
      intro hit hhit
      exact Finset.le_max' _ _ (Multiset.mem_toFinset.mpr hhit)
    have hleast : ∀ other, store.HoldsDirection collection stored.record.embedding other →
        best.score = 1 ∧ best.id ≤ other := by
      intro other hother
      have hnot := (hmax _ (hone other hother)).not_gt
      rw [ScoredId.lt_iff] at hnot
      have hequal : best.score = 1 :=
        le_antisymm (abs_le.mp (hbound best hbest)).2 (le_of_not_gt fun hlt => hnot (Or.inl hlt))
      exact ⟨hequal, UInt64.not_lt.mp fun hlt => hnot (Or.inr ⟨hequal, hlt⟩)⟩
    have hscore : best.score = 1 := (hleast id ⟨stored, hheld, .refl _⟩).1
    have hfirst : best = ⟨best.id, 1⟩ := by rw [← hscore]
    refine ⟨best.id, greatest k ((scoredIds (scale c stored.record.embedding) coll.scanned).erase best), ?_, ?_,
      fun other hother => (hleast other hother).2, ?_⟩
    · rw [search_eq_greatest schedule (k + 1) hcoll hquery, greatest_succ_of_max hbest hmax, ← hfirst]
    · -- a record that scores one is not zero, so it points in the direction
      obtain ⟨found, hfound, hdim, hsimilar⟩ := (hmem best).mp hbest
      rw [hscore] at hsimilar
      have hscaled : normSq (scale c stored.record.embedding) ≠ 0 := by
        rw [normSq_scale]
        exact mul_ne_zero (mul_self_ne_zero.mpr hc.ne') hnorm
      have hfoundNorm : normSq found.record.embedding ≠ 0 := by
        intro hzero
        rw [cosineSimilarity, cosineFromNormSq_eq, if_pos (Or.inl hzero)] at hsimilar
        exact one_ne_zero hsimilar
      have hdirection := (cosineSimilarity_eq_one_iff (hdim.trans hquery.symm) hfoundNorm hscaled).mp hsimilar.symm
      exact ⟨found, hfound, SameDirection.trans ⟨c, hc, rfl⟩ hdirection.symm⟩
    · intro hit hhit
      exact hbound hit (Multiset.mem_of_mem_erase (mem_of_mem_greatest hhit))

/-- A record whose direction a lower id shares is not found before that one. -/
theorem search_own_embedding_shared :
    let records : List (VectorRecord ℝ) := [⟨2, [5], ∅⟩, ⟨7, [3], ∅⟩]
    let store : Store ℝ := ((Store.new.createCollection "docs" 1 1).2.insert "docs" records).2
    ∃ first rest,
      store.search (.sequential _) "docs" (scale 4 [3]) (1 + 1) = .ok (⟨first, 1⟩ :: rest) ∧ first ≤ 2 := by
  intro records store
  have hwell : store.WellFormed := (wellFormed_new.createCollection "docs" 1 1).execute (.upsert "docs" records)
  have hseven : store.version "docs" 7 = some (.ofRecord ⟨7, [3], ∅⟩) := by
    simp [store, records, version, insert, createCollection, new]
  have htwo : store.version "docs" 2 = some (.ofRecord ⟨2, [5], ∅⟩) := by
    simp [store, records, version, insert, createCollection, new, Std.ExtTreeMap.getElem_insert]
  have hnorm : normSq ([3] : List ℝ) ≠ 0 := by norm_num [normSq_eq_sum]
  obtain ⟨first, rest, hsearch, -, hleast, -⟩ :=
    search_own_embedding hwell (.sequential _) hseven hnorm (show (0 : ℝ) < 4 by norm_num) 1
  refine ⟨first, rest, hsearch, hleast 2 ⟨_, htwo, 5 / 3, by norm_num, ?_⟩⟩
  norm_num [StoredVector.ofRecord, scale]

end Store

/-! ## Magnitudes -/

/-- The second record has the first one's id and points in its direction. -/
def VectorRecord.Rescaled (record other : VectorRecord ℝ) : Prop :=
  record.id = other.id ∧ SameDirection record.embedding other.embedding

/-- The second command differs from the first in the magnitudes and metadata of its records. -/
inductive ShardCommand.Rescaled : ShardCommand ℝ → ShardCommand ℝ → Prop where
  | upsert (collection : String) {records others : List (VectorRecord ℝ)}
      (rescaled : List.Forall₂ VectorRecord.Rescaled records others) :
      Rescaled (.upsert collection records) (.upsert collection others)
  | delete (collection : String) (ids : List UInt64) : Rescaled (.delete collection ids) (.delete collection ids)

/-- Rescaling can be undone. -/
theorem ShardCommand.Rescaled.symm {cmd other : ShardCommand ℝ} (h : cmd.Rescaled other) : other.Rescaled cmd := by
  cases h with
  | upsert collection rescaled =>
    exact .upsert collection (rescaled.flip.imp fun _ _ hrecord => ⟨hrecord.1.symm, hrecord.2.symm⟩)
  | delete collection ids => exact .delete collection ids

/-- Two stored vectors point in the same direction. -/
def StoredVector.Aligned (stored other : StoredVector ℝ) : Prop :=
  SameDirection stored.record.embedding other.record.embedding

/-- Two writes to one id store vectors of one direction, or both remove it. -/
def AlignedWrites (write other : UInt64 × Option (StoredVector ℝ)) : Prop :=
  write.1 = other.1 ∧ Option.Rel StoredVector.Aligned write.2 other.2

/-- Rescaled records fit the same dimensions. -/
theorem admits_of_rescaled {records others : List (VectorRecord ℝ)} {dim : ℕ}
    (h : List.Forall₂ VectorRecord.Rescaled records others) :
    (∀ record ∈ records, record.embedding.length = dim) ↔ ∀ other ∈ others, other.embedding.length = dim := by
  induction h with
  | nil => simp
  | cons hrecord _ ih => simp only [List.forall_mem_cons, ih, hrecord.2.length_eq]

/-- A rescaled command writes aligned vectors to the same ids. -/
theorem ShardCommand.Rescaled.effect {cmd other : ShardCommand ℝ} (h : cmd.Rescaled other) (dim : ℕ) :
    List.Forall₂ AlignedWrites (cmd.effect dim) (other.effect dim) := by
  cases h with
  | upsert collection rescaled =>
    rename_i records others
    by_cases hadmits : ∀ record ∈ records, record.embedding.length = dim
    · rw [ShardCommand.effect, if_pos hadmits, ShardCommand.effect, if_pos ((admits_of_rescaled rescaled).mp hadmits),
        upsertWrites, upsertWrites, List.forall₂_map_left_iff, List.forall₂_map_right_iff]
      exact rescaled.imp fun record other hrecord => ⟨hrecord.1, .some hrecord.2⟩
    · rw [ShardCommand.effect, if_neg hadmits, ShardCommand.effect,
        if_neg (mt (admits_of_rescaled rescaled).mpr hadmits)]
      exact .nil
  | delete collection ids =>
    rw [List.forall₂_same]
    intro write hwrite
    obtain ⟨id, -, rfl⟩ := List.mem_map.mp hwrite
    exact ⟨rfl, .none⟩

/-- Rescaled commands write aligned vectors to the same ids of a collection. -/
theorem effectOn_of_rescaled {cmds others : List (ShardCommand ℝ)}
    (h : List.Forall₂ ShardCommand.Rescaled cmds others) (name : String) (dim : ℕ) :
    List.Forall₂ AlignedWrites (effectOn name dim cmds) (effectOn name dim others) := by
  induction h with
  | nil => exact .nil
  | @cons cmd other cmds others hcmd _ ih =>
    have hname : other.collection = cmd.collection := by cases hcmd <;> rfl
    rw [effectOn_cons, effectOn_cons, hname]
    refine List.rel_append ?_ ih
    split
    · exact hcmd.effect dim
    · exact .nil

/-- The records that rescaled commands leave under an id point in one direction. -/
theorem Collection.aligned_of_rescaled (coll : Collection ℝ) {cmds others : List (ShardCommand ℝ)}
    (h : List.Forall₂ ShardCommand.Rescaled cmds others) (name : String) (id : UInt64) :
    Option.Rel StoredVector.Aligned (coll.write (effectOn name coll.dim cmds)).vectors[id]?
      (coll.write (effectOn name coll.dim others)).vectors[id]? := by
  have hlast := lastWrite_rel (effectOn_of_rescaled h name coll.dim) id
  simp only [Collection.write, getElem?_applyWrites]
  generalize lastWrite (effectOn name coll.dim cmds) id = first at hlast ⊢
  generalize lastWrite (effectOn name coll.dim others) id = second at hlast ⊢
  cases hlast with
  | some hrel => exact hrel
  | none =>
    cases coll.vectors[id]? with
    | none => exact .none
    | some stored => exact .some (.refl _)

/-- The scores of one store are scores of another whose records point in the same directions. -/
theorem mem_scoredIds_of_aligned {store other : Store ℝ} (hwell : store.WellFormed) (hother : other.WellFormed)
    {collection : String} {coll written : Collection ℝ} (hcoll : store.collections[collection]? = some coll)
    (hwritten : other.collections[collection]? = some written) (hdim : written.dim = coll.dim)
    (haligned : ∀ id : UInt64, Option.Rel StoredVector.Aligned coll.vectors[id]? written.vectors[id]?)
    {query query' : List ℝ} (hquery : SameDirection query query') {hit : ScoredId ℝ}
    (hhit : hit ∈ scoredIds query coll.scanned) : hit ∈ scoredIds query' written.scanned := by
  obtain ⟨stored, hheld, hlength, hscore⟩ := (hwell.mem_scoredIds_iff hcoll).mp hhit
  have hrel := haligned hit.id
  rw [Store.version, hcoll, Option.bind_some] at hheld
  rw [hheld] at hrel
  cases hfound : written.vectors[hit.id]? with
  | none =>
    rw [hfound] at hrel
    cases hrel
  | some found =>
    rw [hfound] at hrel
    cases hrel with
    | some hdirection =>
      refine (hother.mem_scoredIds_iff hwritten).mpr ⟨found, ?_, ?_, ?_⟩
      · rw [Store.version, hwritten, Option.bind_some, hfound]
      · rw [hdirection.length_eq, hlength, hdim]
      · rw [hscore, SameDirection.cosineSimilarity_eq hdirection hquery]

/-- Scored ids are listed once. -/
theorem Collection.WellFormed.nodup_scoredIds {coll : Collection ℝ} (h : coll.WellFormed) (query : List ℝ) :
    (scoredIds query coll.scanned).Nodup := by
  rw [scoredIds, Multiset.coe_nodup]
  apply List.Nodup.of_map ScoredId.id
  rw [List.map_map]
  exact h.nodup_scanned

/-- Scaling the embeddings of a log before it is applied, each by its own positive factor, and
scaling the query by another one, changes no hit and no score. -/
theorem ShardStateMachine.search_after_rescaled_log {machine : ShardStateMachine ℝ} (hwell : machine.store.WellFormed)
    {entries others : List (Entry ℝ)}
    (hlog : List.Forall₂ ShardCommand.Rescaled (logCommands entries) (logCommands others))
    (schedule schedule' : ScanSchedule (VectorRecord ℝ × ℝ)) (collection : String) {query query' : List ℝ}
    (hquery : SameDirection query query') (k : ℕ) :
    (machine.apply others).2.store.search schedule' collection query' k =
      (machine.apply entries).2.store.search schedule collection query k := by
  rw [ShardStateMachine.apply_store, ShardStateMachine.apply_store]
  have hleft := hwell.executeAll (logCommands entries)
  have hright := hwell.executeAll (logCommands others)
  have hleftColl := machine.store.executeAll_collections (logCommands entries) collection
  have hrightColl := machine.store.executeAll_collections (logCommands others) collection
  cases hcoll : machine.store.collections[collection]? with
  | none =>
    rw [hcoll] at hleftColl hrightColl
    simp only [Store.search, hleftColl, hrightColl, Option.map_none]
  | some coll =>
    rw [hcoll, Option.map_some] at hleftColl hrightColl
    by_cases hlength : query.length = coll.dim
    · have haligned := coll.aligned_of_rescaled hlog collection
      have hback := coll.aligned_of_rescaled (hlog.flip.imp fun _ _ hcmd => hcmd.symm) collection
      rw [Store.search_eq_greatest schedule k hleftColl hlength,
        Store.search_eq_greatest schedule' k hrightColl (hquery.length_eq.trans hlength)]
      congr 2
      rw [Multiset.Nodup.ext ((hright _ _ hrightColl).nodup_scoredIds _) ((hleft _ _ hleftColl).nodup_scoredIds _)]
      intro hit
      constructor
      · exact mem_scoredIds_of_aligned hright hleft hrightColl hleftColl rfl hback hquery.symm
      · exact mem_scoredIds_of_aligned hleft hright hleftColl hrightColl rfl haligned hquery
    · simp only [Store.search, hleftColl, hrightColl, Collection.write_dim, ne_eq, hlength,
        not_false_eq_true, if_true, hquery.length_eq]

/-- A log whose second record was sent with ten times its magnitude. -/
theorem ShardStateMachine.search_after_rescaled_log_tenfold :
    let machine : ShardStateMachine ℝ := .new (Store.new.createCollection "docs" 2 1).2
    let log (second : List ℝ) : List (Entry ℝ) :=
      [⟨⟨⟨1, 1⟩, 0⟩, .blank⟩, ⟨⟨⟨1, 1⟩, 1⟩, .normal (.upsert "docs" [⟨1, [1, 0], ∅⟩, ⟨2, second, ∅⟩])⟩]
    (machine.apply (log [30, 40])).2.store.search (.sequential _) "docs" [2, 2] 5 =
      (machine.apply (log [3, 4])).2.store.search (.sequential _) "docs" [1, 1] 5 := by
  intro machine log
  have hwell : machine.store.WellFormed := Store.wellFormed_new.createCollection "docs" 2 1
  have htenfold : SameDirection [3, 4] [30, 40] := ⟨10, by norm_num, by norm_num [scale]⟩
  have hquery : SameDirection [1, 1] [2, 2] := ⟨2, by norm_num, by norm_num [scale]⟩
  have hrescaled : ShardCommand.Rescaled (.upsert "docs" [⟨1, [1, 0], ∅⟩, ⟨2, [3, 4], ∅⟩])
      (.upsert "docs" [⟨1, [1, 0], ∅⟩, ⟨2, [30, 40], ∅⟩]) :=
    .upsert "docs" (.cons ⟨rfl, .refl _⟩ (.cons ⟨rfl, htenfold⟩ .nil))
  have hlog : List.Forall₂ ShardCommand.Rescaled (logCommands (log [3, 4])) (logCommands (log [30, 40])) :=
    .cons hrescaled .nil
  exact search_after_rescaled_log hwell hlog (.sequential _) (.sequential _) "docs" hquery 5

end RaftVec
