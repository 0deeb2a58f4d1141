import RaftVec.Core.ZeroVectors

/-!
# Scores measure direction

With exact arithmetic a score lies between minus one and one, is one exactly for vectors
that point in the same direction, and does not change when either vector is scaled by a
positive factor. The bound and the equality case come from one sum of squares: the distance
from one vector to a multiple of the other.
-/

namespace RaftVec

/-- Multiply every component by a factor. -/
noncomputable def scale (c : ℝ) (v : List ℝ) : List ℝ := v.map (c * ·)

/-- The second vector is a positive multiple of the first. -/
def SameDirection (a b : List ℝ) : Prop := ∃ c > 0, b = scale c a

/-- Scaling keeps the dimension. -/
@[simp] theorem length_scale (c : ℝ) (v : List ℝ) : (scale c v).length = v.length := List.length_map _

/-- Scaling twice multiplies the factors. -/
theorem scale_scale (c d : ℝ) (v : List ℝ) : scale c (scale d v) = scale (c * d) v := by
  rw [scale, scale, scale, List.map_map]
  apply List.map_congr_left
  intro x _
  exact (mul_assoc c d x).symm

/-- The factor one changes nothing. -/
theorem scale_one (v : List ℝ) : scale 1 v = v := by
  rw [scale]
  simp

namespace SameDirection

theorem refl (a : List ℝ) : SameDirection a a := ⟨1, one_pos, (scale_one a).symm⟩

theorem symm {a b : List ℝ} (h : SameDirection a b) : SameDirection b a := by
  obtain ⟨c, hc, rfl⟩ := h
  refine ⟨c⁻¹, inv_pos.mpr hc, ?_⟩
  rw [scale_scale, inv_mul_cancel₀ hc.ne', scale_one]

theorem trans {a b d : List ℝ} (hab : SameDirection a b) (hbd : SameDirection b d) : SameDirection a d := by
  obtain ⟨c, hc, rfl⟩ := hab
  obtain ⟨e, he, rfl⟩ := hbd
  exact ⟨e * c, mul_pos he hc, scale_scale e c a⟩

/-- Vectors of one direction have one dimension. -/
theorem length_eq {a b : List ℝ} (h : SameDirection a b) : b.length = a.length := by
  obtain ⟨c, -, rfl⟩ := h
  exact length_scale c a

end SameDirection

/-! ## Products of scaled vectors -/

/-- The squared norm of a longer vector adds the square of its first component. -/
theorem normSq_cons (x : ℝ) (v : List ℝ) : normSq (x :: v) = x * x + normSq v := by
  rw [normSq_eq_sum, List.map_cons, List.sum_cons, ← normSq_eq_sum]

/-- The dot product of longer vectors adds the product of their first components. -/
theorem dotProduct_cons (x y : ℝ) (a b : List ℝ) : dotProduct (x :: a) (y :: b) = x * y + dotProduct a b := by
  rw [dotProduct, List.zipWith_cons_cons, List.sum_cons, ← dotProduct]

/-- A factor enters the squared norm twice. -/
theorem normSq_scale (c : ℝ) (v : List ℝ) : normSq (scale c v) = c * c * normSq v := by
  induction v with
  | nil => simp [scale, normSq_eq_sum]
  | cons x v ih =>
    change normSq (c * x :: scale c v) = _
    rw [normSq_cons, ih, normSq_cons]
    ring

/-- A factor of the second vector enters the dot product once. -/
theorem dotProduct_scale (c : ℝ) (a b : List ℝ) : dotProduct a (scale c b) = c * dotProduct a b := by
  induction a generalizing b with
  | nil => simp [dotProduct]
  | cons x a ih =>
    cases b with
    | nil => simp [dotProduct, scale]
    | cons y b =>
      change dotProduct (x :: a) (c * y :: scale c b) = _
      rw [dotProduct_cons, ih, dotProduct_cons]
      ring

/-- The dot product does not depend on the order of the vectors. -/
theorem dotProduct_comm (a b : List ℝ) : dotProduct a b = dotProduct b a := by
  rw [dotProduct, List.zipWith_comm, dotProduct]
  congr 2
  funext x y
  exact mul_comm y x

/-- The squared distance from a vector to a multiple of another one. -/
noncomputable def residual (t : ℝ) (a b : List ℝ) : ℝ := (List.zipWith (fun x y => (t * x - y) ^ 2) a b).sum

/-- The squared distance is a quadratic polynomial of the factor. -/
theorem residual_eq (t : ℝ) {a b : List ℝ} (hlength : a.length = b.length) :
    residual t a b = t * t * normSq a - 2 * t * dotProduct a b + normSq b := by
  induction a generalizing b with
  | nil =>
    obtain rfl : b = [] := List.length_eq_zero_iff.mp hlength.symm
    simp [residual, normSq_eq_sum, dotProduct]
  | cons x a ih =>
    cases b with
    | nil => cases hlength
    | cons y b =>
      rw [residual, List.zipWith_cons_cons, List.sum_cons, ← residual, ih (Nat.succ.inj hlength), normSq_cons,
        normSq_cons, dotProduct_cons]
      ring

/-- A squared distance is not negative, and is zero only to the multiple itself. -/
theorem residual_nonneg (t : ℝ) {a b : List ℝ} (hlength : a.length = b.length) :
    0 ≤ residual t a b ∧ (residual t a b = 0 → b = scale t a) := by
  induction a generalizing b with
  | nil =>
    obtain rfl : b = [] := List.length_eq_zero_iff.mp hlength.symm
    exact ⟨le_rfl, fun _ => rfl⟩
  | cons x a ih =>
    cases b with
    | nil => cases hlength
    | cons y b =>
      obtain ⟨hrest, hzero⟩ := ih (Nat.succ.inj hlength)
      have hfirst := sq_nonneg (t * x - y)
      rw [residual, List.zipWith_cons_cons, List.sum_cons, ← residual]
      refine ⟨add_nonneg hfirst hrest, ?_⟩
      intro hsum
      have hx : t * x - y = 0 := pow_eq_zero_iff two_ne_zero |>.mp (by linarith)
      have hb : b = scale t a := hzero (by linarith)
      change y :: b = t * x :: scale t a
      rw [← hb, sub_eq_zero.mp hx]

/-- The Cauchy-Schwarz inequality. -/
theorem dotProduct_sq_le {a b : List ℝ} (hlength : a.length = b.length) :
    dotProduct a b ^ 2 ≤ normSq a * normSq b := by
  by_cases ha : normSq a = 0
  · rw [dotProduct_of_normSq_eq_zero ha, ha]
    simp
  · have hpos : 0 < normSq a := lt_of_le_of_ne' (normSq_nonneg a) ha
    have hresidual := (residual_nonneg (dotProduct a b / normSq a) hlength).1
    rw [residual_eq _ hlength] at hresidual
    have hscaled := mul_nonneg hpos.le hresidual
    have hexpand : normSq a * (dotProduct a b / normSq a * (dotProduct a b / normSq a) * normSq a -
        2 * (dotProduct a b / normSq a) * dotProduct a b + normSq b) = normSq a * normSq b - dotProduct a b ^ 2 := by
      field_simp
      ring
    linarith

/-! ## Scores -/

/-- A score that is not zero by definition is a quotient with a positive denominator. -/
theorem cosineSimilarity_eq_div {a b : List ℝ} (ha : normSq a ≠ 0) (hb : normSq b ≠ 0) :
    cosineSimilarity a b = dotProduct a b / (√(normSq a) * √(normSq b)) ∧ 0 < √(normSq a) * √(normSq b) := by
  constructor
  · rw [cosineSimilarity, cosineFromNormSq_eq, if_neg (not_or.mpr ⟨ha, hb⟩)]
  · exact mul_pos (Real.sqrt_pos.mpr (lt_of_le_of_ne' (normSq_nonneg a) ha))
      (Real.sqrt_pos.mpr (lt_of_le_of_ne' (normSq_nonneg b) hb))

/-- Scores lie between minus one and one. -/
theorem abs_cosineSimilarity_le_one {a b : List ℝ} (hlength : a.length = b.length) : |cosineSimilarity a b| ≤ 1 := by
  by_cases hzero : normSq a = 0 ∨ normSq b = 0
  · rw [cosineSimilarity, cosineFromNormSq_eq, if_pos hzero, abs_zero]
    exact zero_le_one
  · obtain ⟨ha, hb⟩ := not_or.mp hzero
    obtain ⟨hscore, hpos⟩ := cosineSimilarity_eq_div ha hb
    rw [hscore, abs_div, abs_of_pos hpos, div_le_one hpos, ← Real.sqrt_mul (normSq_nonneg a)]
    exact Real.abs_le_sqrt (dotProduct_sq_le hlength)

/-- Scaling the query by a positive factor leaves the score alone. -/
theorem cosineSimilarity_scale_right {c : ℝ} (hc : 0 < c) (a b : List ℝ) :
    cosineSimilarity a (scale c b) = cosineSimilarity a b := by
  have hzero : normSq (scale c b) = 0 ↔ normSq b = 0 := by
    rw [normSq_scale]
    simp [hc.ne']
  rw [cosineSimilarity, cosineFromNormSq_eq, cosineSimilarity, cosineFromNormSq_eq]
  apply if_congr (or_congr_right hzero) rfl
  rw [dotProduct_scale, normSq_scale, Real.sqrt_mul (mul_self_nonneg c), Real.sqrt_mul_self hc.le, mul_left_comm,
    mul_div_mul_left _ _ hc.ne']

/-- The score does not depend on which vector is the query. -/
theorem cosineSimilarity_comm (a b : List ℝ) : cosineSimilarity a b = cosineSimilarity b a := by
  rw [cosineSimilarity, cosineFromNormSq_eq, cosineSimilarity, cosineFromNormSq_eq, dotProduct_comm a b,
    mul_comm (√(normSq a))]
  exact if_congr or_comm rfl rfl

/-- Vectors of the same directions score the same. -/
theorem SameDirection.cosineSimilarity_eq {a a' b b' : List ℝ} (ha : SameDirection a a') (hb : SameDirection b b') :
    cosineSimilarity a' b' = cosineSimilarity a b := by
  obtain ⟨c, hc, rfl⟩ := ha
  obtain ⟨d, hd, rfl⟩ := hb
  rw [cosineSimilarity_scale_right hd, cosineSimilarity_comm, cosineSimilarity_scale_right hc, cosineSimilarity_comm]

/-- Vectors that are not zero score one exactly when they point in the same direction. -/
theorem cosineSimilarity_eq_one_iff {a b : List ℝ} (hlength : a.length = b.length) (ha : normSq a ≠ 0)
    (hb : normSq b ≠ 0) : cosineSimilarity a b = 1 ↔ SameDirection a b := by
  obtain ⟨hscore, hpos⟩ := cosineSimilarity_eq_div ha hb
  rw [hscore, div_eq_one_iff_eq hpos.ne']
  constructor
  · intro hdot
    have hapos : 0 < normSq a := lt_of_le_of_ne' (normSq_nonneg a) ha
    have hsq : dotProduct a b ^ 2 = normSq a * normSq b := by
      rw [hdot, mul_pow, Real.sq_sqrt (normSq_nonneg a), Real.sq_sqrt (normSq_nonneg b)]
    refine ⟨dotProduct a b / normSq a, div_pos (hdot ▸ hpos) hapos, (residual_nonneg _ hlength).2 ?_⟩
    rw [residual_eq _ hlength]
    field_simp
    linarith
  · rintro ⟨c, hc, rfl⟩
    have hdot : dotProduct a a = normSq a := by
      rw [dotProduct, normSq_eq_sum, List.zipWith_self]
    rw [dotProduct_scale, hdot, normSq_scale, Real.sqrt_mul (mul_self_nonneg c), Real.sqrt_mul_self hc.le,
      mul_left_comm, Real.mul_self_sqrt (normSq_nonneg a)]

end RaftVec
