import RaftVec.Core.Search

/-!
# Where vectors of zero magnitude rank

A vector of zero magnitude scores zero. With exact arithmetic every other record's score
has the sign of its dot product with the query, so such a vector ranks above every record
that points away from the query, and below the others except for ties broken by the id.
Whether it stays behind every other record is therefore a matter of how many records
point towards the query, and `bruteForceTopK_zero_last_iff` says exactly how many.
-/

namespace RaftVec

open Selection

/-- Exact real arithmetic. -/
noncomputable instance : FloatOps ℝ where
  zero := 0
  add := (· + ·)
  mul := (· * ·)
  div := (· / ·)
  sqrt := Real.sqrt
  feq := fun a b => decide (a = b)

/-- The sum of the products of the components, as far as both vectors reach. -/
def dotProduct (a b : List ℝ) : ℝ := (List.zipWith (· * ·) a b).sum

/-- An accumulating loop adds the sum of its terms to what it started from. -/
theorem foldl_add_eq_add_sum {α : Type*} (term : α → ℝ) (items : List α) (start : ℝ) :
    items.foldl (fun acc item => FloatOps.add acc (term item)) start = start + (items.map term).sum := by
  induction items generalizing start with
  | nil => simp
  | cons item items ih =>
    rw [List.foldl_cons, ih, List.map_cons, List.sum_cons, ← add_assoc]
    rfl

/-- The squared norm is the sum of the squares. -/
theorem normSq_eq_sum (v : List ℝ) : normSq v = (v.map fun x => x * x).sum := by
  have hfold := foldl_add_eq_add_sum (fun x : ℝ => x * x) v 0
  rw [zero_add] at hfold
  exact hfold

/-- Squared norms are not negative. -/
theorem normSq_nonneg (v : List ℝ) : 0 ≤ normSq v := by
  rw [normSq_eq_sum]
  apply List.sum_nonneg
  intro y hy
  obtain ⟨x, _, rfl⟩ := List.mem_map.mp hy
  exact mul_self_nonneg x

/-- The dot product with a vector of zero magnitude is zero. -/
theorem dotProduct_of_normSq_eq_zero {a : List ℝ} (h : normSq a = 0) (b : List ℝ) : dotProduct a b = 0 := by
  induction a generalizing b with
  | nil => rfl
  | cons x a ih =>
    rw [normSq_eq_sum, List.map_cons, List.sum_cons, ← normSq_eq_sum] at h
    have hsquare := mul_self_nonneg x
    have hrest := normSq_nonneg a
    have hx : x = 0 := mul_self_eq_zero.mp (by linarith)
    cases b with
    | nil => rfl
    | cons y b =>
      have htail : dotProduct a b = 0 := ih (by linarith) b
      rw [dotProduct, List.zipWith_cons_cons, List.sum_cons, ← dotProduct, htail, hx, zero_mul, add_zero]

/-- The similarity is the dot product scaled by the norms, and zero when a norm is. -/
theorem cosineFromNormSq_eq (a b : List ℝ) (aNormSq bNormSq : ℝ) :
    cosineFromNormSq a b aNormSq bNormSq =
      if aNormSq = 0 ∨ bNormSq = 0 then 0 else dotProduct a b / (√aNormSq * √bNormSq) := by
  have hdot := foldl_add_eq_add_sum (fun xy : ℝ × ℝ => xy.1 * xy.2) (a.zip b) 0
  rw [zero_add, List.map_zip_eq_zipWith] at hdot
  rw [cosineFromNormSq]
  change (if decide (aNormSq = 0) || decide (bNormSq = 0) then (0 : ℝ)
    else ((a.zip b).foldl (fun dot xy => FloatOps.add dot (xy.1 * xy.2)) 0) / (√aNormSq * √bNormSq)) = _
  rw [hdot]
  simp only [Bool.or_eq_true, decide_eq_true_eq]
  rfl

/-- Whether an embedding has zero magnitude. -/
def VectorRecord.ZeroMagnitude (record : VectorRecord ℝ) : Prop := normSq record.embedding = 0

noncomputable instance : DecidablePred VectorRecord.ZeroMagnitude :=
  fun record => inferInstanceAs (Decidable (normSq record.embedding = 0))

/-- A record paired with its squared norm, as the store caches it. -/
noncomputable def VectorRecord.withNorm (record : VectorRecord ℝ) : VectorRecord ℝ × ℝ :=
  (record, normSq record.embedding)

/-- The record points towards the query, or is orthogonal to it and has the lower id. -/
def Outranks (query : List ℝ) (record other : VectorRecord ℝ) : Prop :=
  0 < dotProduct record.embedding query ∨
    dotProduct record.embedding query = 0 ∧ record.id < other.id

noncomputable instance (query : List ℝ) (record other : VectorRecord ℝ) :
    Decidable (Outranks query record other) :=
  inferInstanceAs (Decidable (_ ∨ _))

section Ranking

variable {query : List ℝ} {record zero : VectorRecord ℝ}

/-- A vector of zero magnitude scores zero. -/
theorem score_of_zeroMagnitude (hzero : zero.ZeroMagnitude) : (scoreRecord query zero.withNorm).score = 0 := by
  change cosineFromNormSq zero.embedding query (normSq zero.embedding) (normSq query) = 0
  have hnorm : normSq zero.embedding = 0 := hzero
  rw [cosineFromNormSq_eq, if_pos (Or.inl hnorm)]

/-- Against a query of non-zero norm, scores and dot products have the same sign. -/
theorem score_sign (hquery : normSq query ≠ 0) :
    (0 < (scoreRecord query record.withNorm).score ↔ 0 < dotProduct record.embedding query) ∧
      ((scoreRecord query record.withNorm).score = 0 ↔ dotProduct record.embedding query = 0) := by
  by_cases hrecord : record.ZeroMagnitude
  · rw [score_of_zeroMagnitude hrecord, dotProduct_of_normSq_eq_zero hrecord]
    exact ⟨Iff.rfl, Iff.rfl⟩
  · have hnorm : normSq record.embedding ≠ 0 := hrecord
    have hscore : (scoreRecord query record.withNorm).score =
        dotProduct record.embedding query / (√(normSq record.embedding) * √(normSq query)) := by
      change cosineFromNormSq record.embedding query (normSq record.embedding) (normSq query) = _
      rw [cosineFromNormSq_eq, if_neg (not_or.mpr ⟨hnorm, hquery⟩)]
    have hscale : 0 < √(normSq record.embedding) * √(normSq query) :=
      mul_pos (Real.sqrt_pos.mpr (lt_of_le_of_ne' (normSq_nonneg _) hnorm))
        (Real.sqrt_pos.mpr (lt_of_le_of_ne' (normSq_nonneg _) hquery))
    rw [hscore]
    exact ⟨div_pos_iff_of_pos_right hscale, div_eq_zero_iff.trans (or_iff_left hscale.ne')⟩

/-- Against a vector of zero magnitude only the sign of the dot product and the ids matter. -/
theorem score_lt_iff_outranks (hquery : normSq query ≠ 0) (hzero : zero.ZeroMagnitude) :
    scoreRecord query zero.withNorm < scoreRecord query record.withNorm ↔ Outranks query record zero := by
  rw [ScoredId.lt_iff, score_of_zeroMagnitude hzero, (score_sign hquery).1, eq_comm, (score_sign hquery).2]
  rfl

end Ranking

section Contents

variable {query : List ℝ} {records : List (VectorRecord ℝ)}

/-- The scored ids of records paired with their norms. -/
noncomputable def scores (query : List ℝ) (records : List (VectorRecord ℝ)) : Multiset (ScoredId ℝ) :=
  scoredIds query (records.map VectorRecord.withNorm)

/-- Every record is scored. -/
theorem score_mem_scores {record : VectorRecord ℝ} (h : record ∈ records) :
    scoreRecord query record.withNorm ∈ scores query records := by
  rw [scores, scoredIds, List.map_map, Multiset.mem_coe]
  exact List.mem_map_of_mem (f := scoreRecord query ∘ VectorRecord.withNorm) h

/-- With distinct ids no scored id is listed twice. -/
theorem scores_nodup (hids : (records.map VectorRecord.id).Nodup) : (scores query records).Nodup := by
  rw [scores, scoredIds, Multiset.coe_nodup, List.map_map]
  apply List.Nodup.of_map ScoredId.id
  rw [List.map_map]
  exact hids

/-- Counting scored ids counts records. -/
theorem countP_scores (p : ScoredId ℝ → Prop) [DecidablePred p] :
    (scores query records).countP p = records.countP fun record => p (scoreRecord query record.withNorm) := by
  rw [scores, scoredIds, List.map_map, Multiset.coe_countP, List.countP_map]
  rfl

/-- With distinct ids the scored id of a record is known by its id. -/
theorem eq_score_of_id_eq (hids : (records.map VectorRecord.id).Nodup) {record : VectorRecord ℝ}
    (h : record ∈ records) {hit : ScoredId ℝ} (hhit : hit ∈ scores query records) (hid : hit.id = record.id) :
    hit = scoreRecord query record.withNorm := by
  obtain ⟨pair, hpair, rfl⟩ := exists_of_mem_scoredIds hhit
  obtain ⟨other, hother, rfl⟩ := List.mem_map.mp hpair
  rw [List.inj_on_of_nodup_map hids hother h hid]

/-- A record's id is among the selected ids when its scored id is selected. -/
theorem id_mem_greatest_iff (hids : (records.map VectorRecord.id).Nodup) {record : VectorRecord ℝ}
    (h : record ∈ records) (k : ℕ) :
    record.id ∈ (greatest k (scores query records)).map ScoredId.id ↔
      scoreRecord query record.withNorm ∈ greatest k (scores query records) := by
  constructor
  · intro hmem
    obtain ⟨hit, hhit, hid⟩ := List.mem_map.mp hmem
    rw [← eq_score_of_id_eq hids h (mem_of_mem_greatest hhit) hid]
    exact hhit
  · exact fun hmem => List.mem_map_of_mem (f := ScoredId.id) hmem

/-- Two ids are listed in this order when the scored ids of their records are. -/
theorem id_pair_sublist_iff (hids : (records.map VectorRecord.id).Nodup) {first second : VectorRecord ℝ}
    (hfirst : first ∈ records) (hsecond : second ∈ records) (k : ℕ) :
    [first.id, second.id].Sublist ((greatest k (scores query records)).map ScoredId.id) ↔
      [scoreRecord query first.withNorm, scoreRecord query second.withNorm].Sublist
        (greatest k (scores query records)) := by
  constructor
  · intro hsub
    obtain ⟨hits, hhits, heq⟩ := List.sublist_map_iff.mp hsub
    obtain ⟨a, rest, rfl, ha, hrest⟩ := List.map_eq_cons_iff.mp heq.symm
    obtain ⟨b, last, rfl, hb, hlast⟩ := List.map_eq_cons_iff.mp hrest
    obtain rfl := List.map_eq_nil_iff.mp hlast
    rw [← eq_score_of_id_eq hids hfirst (mem_of_mem_greatest (hhits.mem (by simp))) ha,
      ← eq_score_of_id_eq hids hsecond (mem_of_mem_greatest (hhits.mem (by simp))) hb]
    exact hhits
  · exact fun hsub => hsub.map ScoredId.id

/-- Some vector of zero magnitude ranks first among those, if there is one. -/
theorem exists_best_zero (query : List ℝ) {zero : VectorRecord ℝ} (hmem : zero ∈ records)
    (hzero : zero.ZeroMagnitude) :
    ∃ best ∈ records, best.ZeroMagnitude ∧ ∀ other ∈ records, other.ZeroMagnitude →
      scoreRecord query other.withNorm ≤ scoreRecord query best.withNorm := by
  have hfinite : {record | record ∈ records ∧ record.ZeroMagnitude}.Finite :=
    (List.finite_toSet records).subset fun _ h => h.1
  obtain ⟨best, hbest, hmax⟩ := Set.exists_max_image _ (fun record => scoreRecord query record.withNorm)
    hfinite ⟨zero, hmem, hzero⟩
  exact ⟨best, hbest.1, hbest.2, fun other hother hz => hmax other ⟨hother, hz⟩⟩

/-- The record has non-zero magnitude and outranks every vector of zero magnitude. -/
def LeadsZeros (query : List ℝ) (records : List (VectorRecord ℝ)) (record : VectorRecord ℝ) : Prop :=
  ¬record.ZeroMagnitude ∧ ∀ zero ∈ records, zero.ZeroMagnitude → Outranks query record zero

noncomputable instance : DecidablePred (LeadsZeros query records) :=
  fun _ => inferInstanceAs (Decidable (_ ∧ _))

/-- The records above the first vector of zero magnitude are those that outrank all of them. -/
theorem score_best_lt_iff (hquery : normSq query ≠ 0) {best : VectorRecord ℝ} (hmem : best ∈ records)
    (hbest : best.ZeroMagnitude)
    (hmax : ∀ other ∈ records, other.ZeroMagnitude →
      scoreRecord query other.withNorm ≤ scoreRecord query best.withNorm)
    {record : VectorRecord ℝ} (h : record ∈ records) :
    scoreRecord query best.withNorm < scoreRecord query record.withNorm ↔
      LeadsZeros query records record := by
  constructor
  · intro hlt
    refine ⟨fun hzero => (hmax record h hzero).not_gt hlt, ?_⟩
    intro zero hmemZero hzero
    rw [← score_lt_iff_outranks hquery hzero]
    exact (hmax zero hmemZero hzero).trans_lt hlt
  · intro hleads
    rw [score_lt_iff_outranks hquery hbest]
    exact hleads.2 best hmem hbest

/-- When as many records lead the zero vectors as have non-zero magnitude, all of those lead. -/
theorem leadsZeros_of_countP_le
    (hcount : records.countP (fun record => ¬record.ZeroMagnitude) ≤ records.countP (LeadsZeros query records))
    {record : VectorRecord ℝ} (h : record ∈ records) (hrecord : ¬record.ZeroMagnitude) :
    LeadsZeros query records record := by
  have hsub : (records.filter (LeadsZeros query records)).Sublist
      (records.filter fun record => ¬record.ZeroMagnitude) := by
    apply List.monotone_filter_right
    intro other hother
    simpa using (of_decide_eq_true hother).1
  rw [List.countP_eq_length_filter, List.countP_eq_length_filter] at hcount
  have hmem : record ∈ records.filter (LeadsZeros query records) := by
    rw [hsub.eq_of_length_le hcount, List.mem_filter]
    exact ⟨h, decide_eq_true hrecord⟩
  exact of_decide_eq_true (List.mem_filter.mp hmem).2

/-- A vector of zero magnitude comes after every other record when those all exceed it. -/
theorem ids_zero_last_iff (hids : (records.map VectorRecord.id).Nodup) (k : ℕ) :
    (∀ zero ∈ records, zero.ZeroMagnitude →
        zero.id ∈ (greatest k (scores query records)).map ScoredId.id →
        ∀ record ∈ records, ¬record.ZeroMagnitude →
          [record.id, zero.id].Sublist ((greatest k (scores query records)).map ScoredId.id)) ↔
      ∀ zero ∈ records, zero.ZeroMagnitude →
        scoreRecord query zero.withNorm ∈ greatest k (scores query records) →
        ∀ record ∈ records, ¬record.ZeroMagnitude →
          scoreRecord query zero.withNorm < scoreRecord query record.withNorm := by
  have hnodup : (scores query records).Nodup := scores_nodup hids
  refine forall₃_congr fun zero hmem hzero => ?_
  rw [id_mem_greatest_iff hids hmem]
  refine forall_congr' fun hin => forall₃_congr fun record hrecord _ => ?_
  rw [id_pair_sublist_iff hids hrecord hmem,
    pair_sublist_greatest_iff hnodup (score_mem_scores hrecord) (score_mem_scores hmem)]
  exact and_iff_right hin

/-- As many lead the zero vectors as exceed the first of these. -/
theorem countP_above_best (hquery : normSq query ≠ 0) {best : VectorRecord ℝ} (hmem : best ∈ records)
    (hbest : best.ZeroMagnitude)
    (hmax : ∀ other ∈ records, other.ZeroMagnitude →
      scoreRecord query other.withNorm ≤ scoreRecord query best.withNorm) :
    (scores query records).countP (scoreRecord query best.withNorm < ·) =
      records.countP (LeadsZeros query records) := by
  rw [countP_scores]
  apply List.countP_congr
  intro record hrecord
  rw [decide_eq_true_eq, decide_eq_true_eq]
  exact score_best_lt_iff hquery hmem hbest hmax hrecord

/-- If zero vectors come only after all others, enough records lead them. -/
theorem countP_leadsZeros_of_last (hids : (records.map VectorRecord.id).Nodup) (hquery : normSq query ≠ 0) {k : ℕ}
    (hlast : ∀ zero ∈ records, zero.ZeroMagnitude →
      scoreRecord query zero.withNorm ∈ greatest k (scores query records) →
      ∀ record ∈ records, ¬record.ZeroMagnitude →
        scoreRecord query zero.withNorm < scoreRecord query record.withNorm) :
    min k (records.countP fun record => ¬record.ZeroMagnitude) ≤ records.countP (LeadsZeros query records) := by
  by_cases hany : ∃ zero ∈ records, zero.ZeroMagnitude
  · obtain ⟨zero, hmemZero, hzero⟩ := hany
    obtain ⟨best, hmem, hbest, hmax⟩ := exists_best_zero query hmemZero hzero
    by_cases hin : scoreRecord query best.withNorm ∈ greatest k (scores query records)
    · apply (min_le_right _ _).trans
      apply List.countP_mono_left
      intro record hrecord hnonzero
      have hlt := hlast best hmem hbest hin record hrecord (of_decide_eq_true hnonzero)
      exact decide_eq_true ((score_best_lt_iff hquery hmem hbest hmax hrecord).mp hlt)
    · -- the best vector of zero magnitude is left out, so `k` records exceed it
      rw [mem_greatest_iff (scores_nodup hids) (score_mem_scores hmem), not_lt,
        countP_above_best hquery hmem hbest hmax] at hin
      exact (min_le_left _ _).trans hin
  · apply (min_le_right _ _).trans
    apply List.countP_mono_left
    intro record hrecord hnonzero
    exact decide_eq_true ⟨of_decide_eq_true hnonzero, fun zero hmem hzero => absurd ⟨zero, hmem, hzero⟩ hany⟩

/-- If enough records lead the zero vectors, all others exceed a zero vector that is selected. -/
theorem score_lt_of_countP_leadsZeros (hids : (records.map VectorRecord.id).Nodup) (hquery : normSq query ≠ 0)
    {k : ℕ}
    (hcount : min k (records.countP fun record => ¬record.ZeroMagnitude) ≤
      records.countP (LeadsZeros query records))
    {zero : VectorRecord ℝ} (hmem : zero ∈ records) (hzero : zero.ZeroMagnitude)
    (hin : scoreRecord query zero.withNorm ∈ greatest k (scores query records)) {record : VectorRecord ℝ}
    (hrecord : record ∈ records) (hnonzero : ¬record.ZeroMagnitude) :
    scoreRecord query zero.withNorm < scoreRecord query record.withNorm := by
  rw [mem_greatest_iff (scores_nodup hids) (score_mem_scores hmem), countP_scores] at hin
  have habove : records.countP (LeadsZeros query records) ≤ records.countP fun record =>
      scoreRecord query zero.withNorm < scoreRecord query record.withNorm := by
    apply List.countP_mono_left
    intro other _ hleads
    exact decide_eq_true ((score_lt_iff_outranks hquery hzero).mpr
      ((of_decide_eq_true hleads).2 zero hmem hzero))
  have hleads : LeadsZeros query records record := leadsZeros_of_countP_le (by omega) hrecord hnonzero
  exact (score_lt_iff_outranks hquery hzero).mpr (hleads.2 zero hmem hzero)

/-- Vectors of zero magnitude come after every other record, and only with all of those in
the result, exactly when enough records lead them: `k`, or else all of non-zero magnitude. -/
theorem bruteForceTopK_zero_last_iff (hids : (records.map VectorRecord.id).Nodup)
    (cut : List (VectorRecord ℝ × ℝ) → ReduceTree (VectorRecord ℝ × ℝ))
    (hcut : (cut (records.map VectorRecord.withNorm)).items = records.map VectorRecord.withNorm)
    (hquery : normSq query ≠ 0) (k : ℕ) :
    (∀ zero ∈ records, zero.ZeroMagnitude →
        zero.id ∈ (bruteForceTopK cut (records.map VectorRecord.withNorm) query k).map ScoredId.id →
        ∀ record ∈ records, ¬record.ZeroMagnitude →
          [record.id, zero.id].Sublist
            ((bruteForceTopK cut (records.map VectorRecord.withNorm) query k).map ScoredId.id)) ↔
      min k (records.countP fun record => ¬record.ZeroMagnitude) ≤
        records.countP (LeadsZeros query records) := by
  rw [bruteForceTopK_of_cut hcut, ← scores, ids_zero_last_iff hids]
  constructor
  · exact countP_leadsZeros_of_last hids hquery
  · intro hcount zero hmem hzero hin record hrecord hnonzero
    exact score_lt_of_countP_leadsZeros hids hquery hcount hmem hzero hin hrecord hnonzero

end Contents

/-- A record pointing towards the query keeps the zero vector behind it. -/
theorem bruteForceTopK_zero_last_towards :
    let zero : VectorRecord ℝ := ⟨1, [0], ∅⟩
    let towards : VectorRecord ℝ := ⟨2, [1], ∅⟩
    normSq [(1 : ℝ)] ≠ 0 ∧ zero.ZeroMagnitude ∧ ¬towards.ZeroMagnitude ∧
      (1 ∈ (bruteForceTopK .fold ([zero, towards].map VectorRecord.withNorm) [1] 2).map ScoredId.id →
        [2, 1].Sublist
          ((bruteForceTopK .fold ([zero, towards].map VectorRecord.withNorm) [1] 2).map ScoredId.id)) := by
  intro zero towards
  have hquery : normSq [(1 : ℝ)] ≠ 0 := by simp [normSq_eq_sum]
  have hzero : zero.ZeroMagnitude := by simp [VectorRecord.ZeroMagnitude, normSq_eq_sum, zero]
  have htowards : ¬towards.ZeroMagnitude := by simp [VectorRecord.ZeroMagnitude, normSq_eq_sum, towards]
  have hleads : LeadsZeros [1] [zero, towards] towards := by
    refine ⟨htowards, fun other _ _ => Or.inl ?_⟩
    simp [dotProduct, towards]
  have hids : ([zero, towards].map VectorRecord.id).Nodup := by decide
  have hlast := (bruteForceTopK_zero_last_iff hids .fold rfl hquery 2).mpr
    (by simp [List.countP_cons, hzero, htowards, hleads])
  exact ⟨hquery, hzero, htowards, fun hin =>
    hlast zero (by simp) hzero hin towards (by simp) htowards⟩

/-- A zero vector takes the only place in the result from a record pointing away from the query. -/
theorem bruteForceTopK_zero_first :
    let zero : VectorRecord ℝ := ⟨1, [0], ∅⟩
    let away : VectorRecord ℝ := ⟨2, [-1], ∅⟩
    normSq [(1 : ℝ)] ≠ 0 ∧ zero.ZeroMagnitude ∧ ¬away.ZeroMagnitude ∧
      (bruteForceTopK .fold ([zero, away].map VectorRecord.withNorm) [1] 1).map ScoredId.id = [1] := by
  intro zero away
  have hquery : normSq [(1 : ℝ)] ≠ 0 := by simp [normSq_eq_sum]
  have hzero : zero.ZeroMagnitude := by simp [VectorRecord.ZeroMagnitude, normSq_eq_sum, zero]
  have haway : ¬away.ZeroMagnitude := by simp [VectorRecord.ZeroMagnitude, normSq_eq_sum, away]
  have hbehind : ¬Outranks [1] away zero := by
    rw [Outranks]
    norm_num [dotProduct, away]
  rw [← score_lt_iff_outranks hquery hzero, not_lt] at hbehind
  have hsorted : [scoreRecord [1] zero.withNorm, scoreRecord [1] away.withNorm].Pairwise (· ≥ ·) := by
    simpa using hbehind
  have hfirst : greatest 1 (scoredIds [1] ([zero, away].map VectorRecord.withNorm)) =
      [scoreRecord [1] zero.withNorm] := greatest_eq_take 1 hsorted rfl
  refine ⟨hquery, hzero, haway, ?_⟩
  rw [bruteForceTopK_of_cut rfl, hfirst]
  rfl

end RaftVec
