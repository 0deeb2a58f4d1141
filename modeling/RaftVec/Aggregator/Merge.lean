import RaftVec.Aggregator.SlicedSearch

/-!
# Merging the shards' answers

The merge strips the metadata off the hits, ranks the scored ids and takes each
survivor's metadata back out of a map. With every id sent once that returns to each hit
what was sent with it. For the slices of a single store the merged ranking is then the
ranking of all records whose shards answered.
-/

namespace RaftVec

open Std Selection Grouping

variable {F : Type*}

/-- Taking metadata out of the map hit by hit, each id once, finds what the map held at first. -/
theorem foldl_takeMetadata (hits : List (ScoredId F)) (metadata : ExtTreeMap UInt64 Metadata)
    (done : List (ScoredRecord F)) (hnodup : (hits.map ScoredId.id).Nodup) :
    (hits.foldl (fun acc s =>
      (acc.1 ++ [(⟨s.id, s.score, acc.2[s.id]?.getD ∅⟩ : ScoredRecord F)], acc.2.erase s.id))
      (done, metadata)).1 =
      done ++ hits.map fun s => ⟨s.id, s.score, metadata[s.id]?.getD ∅⟩ := by
  induction hits generalizing metadata done with
  | nil => simp
  | cons hit hits ih =>
    rw [List.map_cons, List.nodup_cons] at hnodup
    rw [List.foldl_cons, ih _ _ hnodup.2, List.append_assoc, List.map_cons, List.singleton_append]
    congr 2
    apply List.map_congr_left
    intro other hother
    have hne : hit.id ≠ other.id := by
      intro heq
      exact hnodup.1 (heq ▸ List.mem_map_of_mem hother)
    simp [ExtTreeMap.getElem?_erase, hne]

/-- The map of what was sent holds the metadata of every id sent. -/
theorem getElem?_foldl_metadata {metadataOf : UInt64 → Metadata} (sent : List (ScoredRecord F))
    (metadata : ExtTreeMap UInt64 Metadata) (hsent : ∀ r ∈ sent, r.metadata = metadataOf r.id) (id : UInt64) :
    (sent.foldl (fun metadata r => metadata.insert r.id r.metadata) metadata)[id]? =
      if id ∈ sent.map ScoredRecord.id then some (metadataOf id) else metadata[id]? := by
  induction sent generalizing metadata with
  | nil => simp
  | cons r sent ih =>
    rw [List.foldl_cons, ih _ (fun other hother => hsent other (List.mem_cons_of_mem _ hother))]
    by_cases hlater : id ∈ sent.map ScoredRecord.id
    · rw [if_pos hlater, List.map_cons, if_pos (List.mem_cons_of_mem _ hlater)]
    · rw [if_neg hlater, List.map_cons, ExtTreeMap.getElem?_insert]
      by_cases hid : r.id = id
      · subst hid
        simp [hsent r List.mem_cons_self]
      · simp [hid, hlater, Ne.symm hid]

/-- The scored id of a hit. -/
def ScoredRecord.scoredId (r : ScoredRecord F) : ScoredId F := ⟨r.id, r.score⟩

/-- With every id sent once, the merge ranks the hits and keeps their metadata. -/
theorem mergeScoredRecords_eq_greatest [LinearOrder F] (metadataOf : UInt64 → Metadata)
    {shardLists : List (List (ScoredRecord F))} (k : ℕ)
    (hnodup : (shardLists.flatten.map ScoredRecord.id).Nodup)
    (hsent : ∀ r ∈ shardLists.flatten, r.metadata = metadataOf r.id) :
    mergeScoredRecords shardLists k =
      (greatest k (shardLists.flatten.map ScoredRecord.scoredId : Multiset (ScoredId F))).map
        fun s => ⟨s.id, s.score, metadataOf s.id⟩ := by
  have hscored : (shardLists.map fun list => list.map fun r => (⟨r.id, r.score⟩ : ScoredId F)).flatten =
      shardLists.flatten.map ScoredRecord.scoredId :=
    List.map_flatten.symm
  have hids : ((greatest k (shardLists.flatten.map ScoredRecord.scoredId :
      Multiset (ScoredId F))).map ScoredId.id).Nodup := by
    apply nodup_map_greatest
    rw [Multiset.map_coe, Multiset.coe_nodup, List.map_map]
    exact hnodup
  rw [mergeScoredRecords]
  simp only [mergeTopK_eq_greatest, hscored]
  rw [foldl_takeMetadata _ _ _ hids, List.nil_append]
  apply List.map_congr_left
  intro hit hhit
  have hmem := mem_of_mem_greatest hhit
  rw [Multiset.mem_coe, List.mem_map] at hmem
  obtain ⟨r, hr, rfl⟩ := hmem
  have hid : r.scoredId.id ∈ shardLists.flatten.map ScoredRecord.id := List.mem_map_of_mem hr
  rw [getElem?_foldl_metadata _ _ hsent, if_pos hid, Option.getD_some]

/-- Records with distinct ids are told their metadata by their ids. -/
theorem exists_metadataOf {sent : List (ScoredRecord F)} (hnodup : (sent.map ScoredRecord.id).Nodup) :
    ∃ metadataOf : UInt64 → Metadata, ∀ r ∈ sent, r.metadata = metadataOf r.id := by
  refine ⟨fun id => ((sent.find? fun r => r.id = id).map ScoredRecord.metadata).getD ∅, fun r hr => ?_⟩
  cases hfind : sent.find? fun other => other.id = r.id with
  | none => simpa using List.find?_eq_none.mp hfind r hr
  | some other =>
    have hid : other.id = r.id := by simpa using List.find?_some hfind
    have hsame : other = r := List.inj_on_of_nodup_map hnodup (List.mem_of_find?_eq_some hfind) hr hid
    change r.metadata = ((sent.find? fun other => other.id = r.id).map ScoredRecord.metadata).getD ∅
    rw [hfind, hsame, Option.map_some, Option.getD_some]

/-- With every id sent once, each id is returned once, and every hit returned is one that was sent. -/
theorem mergeScoredRecords_sent [LinearOrder F] {shardLists : List (List (ScoredRecord F))} (k : ℕ)
    (hnodup : (shardLists.flatten.map ScoredRecord.id).Nodup) :
    ((mergeScoredRecords shardLists k).map ScoredRecord.id).Nodup ∧
      ∀ hit ∈ mergeScoredRecords shardLists k, hit ∈ shardLists.flatten := by
  obtain ⟨metadataOf, hsent⟩ := exists_metadataOf hnodup
  rw [mergeScoredRecords_eq_greatest metadataOf k hnodup hsent]
  constructor
  · rw [List.map_map]
    apply nodup_map_greatest
    rw [Multiset.map_coe, Multiset.coe_nodup, List.map_map]
    exact hnodup
  · intro hit hhit
    obtain ⟨scored, hscored, rfl⟩ := List.mem_map.mp hhit
    obtain ⟨r, hr, rfl⟩ := List.mem_map.mp (Multiset.mem_coe.mp (mem_of_mem_greatest hscored))
    change (⟨r.id, r.score, metadataOf r.id⟩ : ScoredRecord F) ∈ _
    rw [← hsent r hr]
    exact hr

/-! ## The answers that came in -/

variable [FloatOps F] [LinearOrder F]

namespace ShardRouter

/-- One shard's answer, by its place. -/
def answer (self : ShardRouter F) (fates : ℕ → ℕ → ℕ → AttemptFate (ReadFate F)) (inTime : ℕ → Bool)
    (req : SearchRequest F) (s : ℕ) : Option (SearchResponse F) :=
  self.shards[s]?.bind fun shard => searchShard shard (fates s) (inTime s) req

/-- The shards whose search call fails. -/
def failedShards (self : ShardRouter F) (fates : ℕ → ℕ → ℕ → AttemptFate (ReadFate F)) (inTime : ℕ → Bool)
    (req : SearchRequest F) : Finset ℕ :=
  (Finset.range self.shards.length).filter fun s => (self.answer fates inTime req s).isNone

/-- The responses, one per shard in order. -/
theorem responses_eq (self : ShardRouter F) (fates : ℕ → ℕ → ℕ → AttemptFate (ReadFate F))
    (inTime : ℕ → Bool) (req : SearchRequest F) :
    (self.shards.mapIdx fun s shard => searchShard shard (fates s) (inTime s) req) =
      (List.range self.shards.length).map (self.answer fates inTime req) := by
  apply List.ext_getElem
  · simp
  · intro s hs hrange
    have hlt : s < self.shards.length := by simpa using hs
    simp [answer, List.getElem?_eq_getElem hlt]

omit [FloatOps F] [LinearOrder F] in
/-- Going through the responses collects the answers and counts the failures. -/
theorem foldl_responses (responses : List (Option (SearchResponse F))) (failed : UInt32)
    (lists : List (List (ScoredRecord F))) :
    responses.foldl tally (failed, lists) =
      (failed + UInt32.ofNat (responses.countP Option.isNone),
        lists ++ responses.reduceOption.map SearchResponse.results) := by
  induction responses generalizing failed lists with
  | nil => simp
  | cons response responses ih =>
    cases response with
    | some resp => simp [tally, ih, List.reduceOption_cons_of_some]
    | none =>
      simp only [List.foldl_cons, tally, ih, List.reduceOption_cons_of_none, List.countP_cons, Option.isNone_none,
        if_true, UInt32.ofNat_add]
      rw [UInt32.add_assoc, UInt32.add_comm 1]
      rfl

/-- A search merges the answers and reports how many shards were asked and how many failed. -/
theorem search_eq (self : ShardRouter F) (fates : ℕ → ℕ → ℕ → AttemptFate (ReadFate F))
    (inTime : ℕ → Bool) (req : SearchRequest F) :
    self.search fates inTime req.collection req.queryVector req.k =
      (mergeScoredRecords (((List.range self.shards.length).filterMap
          (self.answer fates inTime req)).map SearchResponse.results) req.k.toNat,
        self.shardCount, UInt32.ofNat (self.failedShards fates inTime req).card) := by
  have hfailed : ((List.range self.shards.length).map (self.answer fates inTime req)).countP Option.isNone =
      (self.failedShards fates inTime req).card := by
    rw [List.countP_map, List.countP_eq_length_filter, failedShards, Finset.card_def, Finset.filter_val,
      Finset.range_val, Multiset.range, Multiset.filter_coe, Multiset.coe_card]
    congr 1
    apply List.filter_congr
    intro s _
    exact Bool.decide_eq_true.symm
  simp only [search, responses_eq, foldl_responses, hfailed, List.nil_append, UInt32.zero_add,
    List.length_map, List.length_range, List.reduceOption, List.filterMap_map]
  rfl

end ShardRouter

/-! ## Merging slices -/

omit [LinearOrder F] in
/-- The slices of distinct shards together score as the records those shards own. -/
theorem sum_scoredIds_slices (coll : Collection F) (query : List F) (owner : UInt64 → ℕ) (shards : List ℕ)
    (hnodup : shards.Nodup) :
    (shards.map fun s => scoredIds query (coll.scannedWhere fun id => owner id = s)).sum =
      scoredIds query (coll.scannedWhere fun id => owner id ∈ shards) := by
  induction shards with
  | nil => simp [Collection.scannedWhere, scoredIds]
  | cons s shards ih =>
    obtain ⟨hs, hrest⟩ := List.nodup_cons.mp hnodup
    rw [List.map_cons, List.sum_cons, ih hrest, scoredIds, scoredIds, Multiset.coe_add, ← List.map_append,
      scoredIds, Multiset.coe_eq_coe]
    apply List.Perm.map
    have hsplit := filter_append_perm_of_disjoint coll.scanned
      (p := fun record => decide (owner record.1.id = s))
      (q := fun record => decide (owner record.1.id ∈ shards)) ?_
    · simpa [Collection.scannedWhere] using hsplit
    · intro record hrecord
      simp only [decide_eq_true_eq, decide_eq_false_iff_not] at hrecord ⊢
      exact hrecord ▸ hs

/-- The hits of a slice are told apart by their ids. -/
theorem nodup_sliceHits (single : Store F) {coll : Collection F} (hwell : coll.WellFormed)
    (req : SearchRequest F) (p : UInt64 → Bool) : ((sliceHits single coll req p).map ScoredRecord.id).Nodup := by
  rw [sliceHits, List.map_map]
  apply nodup_map_greatest
  rw [scoredIds, Multiset.map_coe, Multiset.coe_nodup, List.map_map]
  exact hwell.nodup_scanned.sublist (List.filter_sublist.map _)

/-- Every hit of a slice has an id of the slice. -/
theorem mem_slice_of_mem_sliceHits {single : Store F} {coll : Collection F} {req : SearchRequest F}
    {p : UInt64 → Bool} {r : ScoredRecord F} (h : r ∈ sliceHits single coll req p) : p r.id = true := by
  obtain ⟨hit, hhit, rfl⟩ := List.mem_map.mp h
  exact mem_slice_of_mem_greatest hhit

/-- The hits of distinct slices are told apart by their ids. -/
theorem nodup_flatten_sliceHits (single : Store F) {coll : Collection F} (hwell : coll.WellFormed)
    (req : SearchRequest F) (owner : UInt64 → ℕ) {shards : List ℕ} (hnodup : shards.Nodup) :
    ((shards.map fun s => sliceHits single coll req fun id => owner id = s).flatten.map
      ScoredRecord.id).Nodup := by
  rw [List.map_flatten, List.nodup_flatten, List.map_map]
  constructor
  · intro ids hmem
    obtain ⟨s, _, rfl⟩ := List.mem_map.mp hmem
    exact nodup_sliceHits single hwell req _
  · refine List.Pairwise.map _ ?_ hnodup
    intro s t hne id hs ht
    obtain ⟨r, hr, rfl⟩ := List.mem_map.mp hs
    obtain ⟨r', hr', hsame⟩ := List.mem_map.mp ht
    have hownerS := mem_slice_of_mem_sliceHits hr
    have hownerT := mem_slice_of_mem_sliceHits hr'
    rw [hsame] at hownerT
    simp only [decide_eq_true_eq] at hownerS hownerT
    exact hne (hownerS.symm.trans hownerT)

/-- The hits of several slices are scored as each slice ranks them. -/
theorem coe_flatten_sliceHits (single : Store F) (coll : Collection F) (req : SearchRequest F)
    (owner : UInt64 → ℕ) (shards : List ℕ) :
    ((shards.map fun s => sliceHits single coll req fun id => owner id = s).flatten.map
        ScoredRecord.scoredId : Multiset (ScoredId F)) =
      ((shards.map fun s => scoredIds req.queryVector (coll.scannedWhere fun id => owner id = s)).map
        fun part => (greatest req.k.toNat part : Multiset (ScoredId F))).sum := by
  rw [List.map_flatten, List.map_map, List.map_map, ← Multiset.coe_join, Multiset.join, Multiset.sum_coe,
    List.map_map]
  congr 1
  apply List.map_congr_left
  intro s _
  simp only [Function.comp_apply, sliceHits, List.map_map]
  congr 1
  exact List.map_id _

/-- Merging the hits of distinct slices ranks all the records in them. -/
theorem mergeScoredRecords_slices {single : Store F} {coll : Collection F} (hwell : coll.WellFormed)
    (req : SearchRequest F) (owner : UInt64 → ℕ) {shards : List ℕ} (hnodup : shards.Nodup) :
    mergeScoredRecords (shards.map fun s => sliceHits single coll req fun id => owner id = s) req.k.toNat =
      sliceHits single coll req fun id => owner id ∈ shards := by
  have hsent : ∀ r ∈ (shards.map fun s => sliceHits single coll req fun id => owner id = s).flatten,
      r.metadata = (single.getMetadata req.collection r.id).getD ∅ := by
    intro r hr
    obtain ⟨hits, hhits, hmem⟩ := List.mem_flatten.mp hr
    obtain ⟨s, _, rfl⟩ := List.mem_map.mp hhits
    obtain ⟨hit, _, rfl⟩ := List.mem_map.mp hmem
    rfl
  rw [mergeScoredRecords_eq_greatest (fun id => (single.getMetadata req.collection id).getD ∅) req.k.toNat
      (nodup_flatten_sliceHits single hwell req owner hnodup) hsent,
    coe_flatten_sliceHits, greatest_sum_absorb,
    sum_scoredIds_slices coll req.queryVector owner shards hnodup]
  rfl

end RaftVec
