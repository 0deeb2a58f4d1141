import RaftVec.Core.Record

/-!
# Scores as bit patterns

Everywhere else scores are values of a linearly ordered type whose equality is that of the
bits. Here they are the `f32` values themselves: a bit pattern with the class and the exact
value that IEEE 754 reads off its fields, `total_cmp` as the standard library computes it
on the bits, and `==` as equality of values, which no NaN has and the two zeros share.

`total_cmp` is a linear order on the bit patterns, so every result about scored ids holds
at this type. The `==` that is derived for scored ids is not the equality of that order.
-/

namespace RaftVec

/-- An `f32`, told by its bits. -/
structure F32 where
  bits : BitVec 32
deriving DecidableEq

namespace F32

/-! ## What the bits stand for -/

/-- The sign bit. -/
def sign (x : F32) : Bool := x.bits.msb

/-- The biased exponent field. -/
def exponent (x : F32) : ℕ := x.bits.toNat / 2 ^ 23 % 2 ^ 8

/-- The trailing significand field. -/
def mantissa (x : F32) : ℕ := x.bits.toNat % 2 ^ 23

/-- The absolute value as a multiple of `2 ^ -149`, the least positive number.

An infinity is read as the first number beyond the finite ones. -/
def magnitude (x : F32) : ℕ :=
  if x.exponent = 0 then x.mantissa else (2 ^ 23 + x.mantissa) * 2 ^ (x.exponent - 1)

/-- The value as a multiple of `2 ^ -149`. -/
def value (x : F32) : ℤ := if x.sign then -(x.magnitude : ℤ) else x.magnitude

/-- Not a number. -/
def isNan (x : F32) : Bool := x.exponent = 255 ∧ x.mantissa ≠ 0

/-- A zero of either sign. -/
def isZero (x : F32) : Bool := x.exponent = 0 ∧ x.mantissa = 0

/-- `==`: the values are numbers and the same. -/
def feq (x y : F32) : Bool := !x.isNan && !y.isNan && x.value == y.value

/-- The bits with those of a negative number flipped below the sign. -/
def totalKey (x : F32) : BitVec 32 := x.bits ^^^ (x.bits.sshiftRight 31 >>> 1)

/-- `total_cmp`: the signed comparison of the flipped bits. -/
def totalCmp (x y : F32) : Ordering := compare x.totalKey.toInt y.totalKey.toInt

/-- The sign bit is the top one. -/
theorem sign_eq (x : F32) : x.sign = decide (2 ^ 31 ≤ x.bits.toNat) := BitVec.msb_eq_decide x.bits

/-- The other two fields are the bits below the sign. -/
theorem exponent_mantissa (x : F32) : x.exponent * 2 ^ 23 + x.mantissa = x.bits.toNat % 2 ^ 31 := by
  unfold exponent mantissa
  omega

/-- Sign and lower bits make the number. -/
theorem ext_fields {x y : F32} (hsign : x.sign = y.sign) (hlow : x.bits.toNat % 2 ^ 31 = y.bits.toNat % 2 ^ 31) :
    x = y := by
  have hx := x.bits.isLt
  have hy := y.bits.isLt
  rw [sign_eq, sign_eq, decide_eq_decide] at hsign
  have hbits : x.bits = y.bits := by
    apply BitVec.eq_of_toNat_eq
    omega
  cases x
  cases y
  exact congrArg F32.mk hbits

/-- The mantissa has 23 bits. -/
theorem mantissa_lt (x : F32) : x.mantissa < 2 ^ 23 := Nat.mod_lt _ (Nat.two_pow_pos 23)

/-- The exponent bounds the absolute value from above. -/
theorem magnitude_lt_pow (x : F32) : x.magnitude < 2 ^ 23 * 2 ^ x.exponent := by
  have hmantissa := x.mantissa_lt
  unfold magnitude
  split
  · next hzero =>
    rw [hzero]
    omega
  · next hpos =>
    have hpow : 2 ^ x.exponent = 2 * 2 ^ (x.exponent - 1) := by
      rw [← Nat.pow_succ']
      congr 1
      omega
    rw [hpow, ← Nat.mul_assoc]
    exact Nat.mul_lt_mul_of_pos_right (by omega) (Nat.two_pow_pos _)

/-- An exponent above another bounds the absolute value from below by the other's bound. -/
theorem pow_le_magnitude {x : F32} {exponent : ℕ} (h : exponent < x.exponent) :
    2 ^ 23 * 2 ^ exponent ≤ x.magnitude := by
  unfold magnitude
  rw [if_neg (by omega)]
  exact Nat.mul_le_mul (by omega) (Nat.pow_le_pow_right (by decide) (by omega))

/-- More below the sign is more in absolute value. -/
theorem magnitude_lt {x y : F32} (h : x.bits.toNat % 2 ^ 31 < y.bits.toNat % 2 ^ 31) :
    x.magnitude < y.magnitude := by
  have hmx := x.mantissa_lt
  have hmy := y.mantissa_lt
  rw [← exponent_mantissa, ← exponent_mantissa] at h
  have hle : x.exponent ≤ y.exponent := by omega
  rcases Nat.eq_or_lt_of_le hle with heq | hlt
  · have hm : x.mantissa < y.mantissa := by
      rw [heq] at h
      omega
    unfold magnitude
    rw [heq]
    split
    · exact hm
    · exact Nat.mul_lt_mul_of_pos_right (by omega) (Nat.two_pow_pos _)
  · exact x.magnitude_lt_pow.trans_le (pow_le_magnitude hlt)

/-- Equal absolute values have the same bits below the sign. -/
theorem low_eq_of_magnitude_eq {x y : F32} (h : x.magnitude = y.magnitude) :
    x.bits.toNat % 2 ^ 31 = y.bits.toNat % 2 ^ 31 := by
  rcases Nat.lt_trichotomy (x.bits.toNat % 2 ^ 31) (y.bits.toNat % 2 ^ 31) with hlt | heq | hgt
  · exact absurd h (Nat.ne_of_lt (magnitude_lt hlt))
  · exact heq
  · exact absurd h.symm (Nat.ne_of_lt (magnitude_lt hgt))

/-- The zeros are the numbers without absolute value. -/
theorem isZero_iff (x : F32) : x.isZero = true ↔ x.magnitude = 0 := by
  unfold isZero
  rw [decide_eq_true_eq]
  constructor
  · intro h
    rw [magnitude, if_pos h.1, h.2]
  · intro h
    have hzero : (⟨0⟩ : F32).magnitude = 0 := by decide
    have hlow := low_eq_of_magnitude_eq (h.trans hzero.symm)
    have hfields := x.exponent_mantissa
    rw [hlow] at hfields
    have hnone : (⟨0⟩ : F32).bits.toNat % 2 ^ 31 = 0 := by decide
    omega

/-- The values of two numbers are the same when their bits are, or when both are zeros. -/
theorem value_eq_iff (x y : F32) : x.value = y.value ↔ x = y ∨ x.isZero = true ∧ y.isZero = true := by
  constructor
  · intro h
    by_cases hsign : x.sign = y.sign
    · have hmagnitude : x.magnitude = y.magnitude := by
        unfold value at h
        rw [hsign] at h
        split at h <;> omega
      exact Or.inl (ext_fields hsign (low_eq_of_magnitude_eq hmagnitude))
    · right
      rw [isZero_iff, isZero_iff]
      unfold value at h
      cases hx : x.sign <;> cases hy : y.sign <;> simp only [hx, hy] at h hsign <;> grind
  · intro h
    rcases h with rfl | ⟨hx, hy⟩
    · rfl
    · rw [isZero_iff] at hx hy
      simp [value, hx, hy]

/-- `==` holds of a number and itself, and of the two zeros. -/
theorem feq_iff (x y : F32) :
    x.feq y = true ↔ x.isNan = false ∧ y.isNan = false ∧ (x = y ∨ x.isZero = true ∧ y.isZero = true) := by
  unfold feq
  rw [Bool.and_eq_true, Bool.and_eq_true, Bool.not_eq_true', Bool.not_eq_true', beq_iff_eq, value_eq_iff, and_assoc]

/-! ## The order of `total_cmp` -/

/-- Flipping all bits of a number counts it down from the greatest one. -/
theorem xor_mask {n w : ℕ} (h : n < 2 ^ w) : n ^^^ (2 ^ w - 1) = 2 ^ w - 1 - n := by
  have hnot : (~~~BitVec.ofNat w n).toNat = 2 ^ w - 1 - (BitVec.ofNat w n).toNat := BitVec.toNat_not
  rw [← BitVec.xor_allOnes, BitVec.toNat_xor, BitVec.toNat_allOnes, BitVec.toNat_ofNat, Nat.mod_eq_of_lt h] at hnot
  exact hnot

/-- Without a sign the bits are compared as they are. -/
theorem totalKey_of_not_sign {x : F32} (h : x.bits.toNat < 2 ^ 31) : x.totalKey.toNat = x.bits.toNat := by
  have hkey : x.totalKey = x.bits := by
    unfold totalKey
    grind
  rw [hkey]

/-- With a sign the bits below it are flipped. -/
theorem totalKey_of_sign {x : F32} (h : 2 ^ 31 ≤ x.bits.toNat) :
    x.totalKey.toNat = 2 ^ 32 + 2 ^ 31 - 1 - x.bits.toNat := by
  have hx := x.bits.isLt
  have hmask : x.bits.sshiftRight 31 >>> 1 = BitVec.ofNat 32 (2 ^ 31 - 1) := by
    have hmsb : x.bits.msb = true := by
      rw [BitVec.msb_eq_decide, decide_eq_true_eq]
      exact h
    have hnone : ~~~x.bits >>> 31 = 0#32 := by
      apply BitVec.eq_of_toNat_eq
      rw [BitVec.toNat_ushiftRight, BitVec.toNat_not, Nat.shiftRight_eq_div_pow]
      exact Nat.div_eq_of_lt (by omega)
    rw [BitVec.sshiftRight_eq_of_msb_true hmsb, hnone]
    rfl
  have hlow := xor_mask (Nat.mod_lt x.bits.toNat (Nat.two_pow_pos 31))
  have hdiv := Nat.xor_div_two_pow (a := x.bits.toNat) (b := 2 ^ 31 - 1) (n := 31)
  have hmod := Nat.xor_mod_two_pow (a := x.bits.toNat) (b := 2 ^ 31 - 1) (n := 31)
  have hzero : (2 ^ 31 - 1) / 2 ^ 31 = 0 := by decide
  have hself : (2 ^ 31 - 1) % 2 ^ 31 = 2 ^ 31 - 1 := by decide
  have hone : x.bits.toNat / 2 ^ 31 = 1 := by omega
  rw [hzero, Nat.xor_zero, hone] at hdiv
  rw [hself, hlow] at hmod
  rw [totalKey, hmask, BitVec.toNat_xor, BitVec.toNat_ofNat, Nat.mod_eq_of_lt (by decide)]
  omega

/-- Numbers without sign keep their bits, the others are counted downwards. -/
theorem totalKey_toInt (x : F32) :
    x.totalKey.toInt = if x.bits.toNat < 2 ^ 31 then (x.bits.toNat : ℤ) else 2 ^ 31 - 1 - (x.bits.toNat : ℤ) := by
  have hx := x.bits.isLt
  rw [BitVec.toInt_eq_toNat_cond]
  by_cases h : x.bits.toNat < 2 ^ 31
  · rw [if_pos h, totalKey_of_not_sign h, if_pos (by omega)]
  · rw [if_neg h, totalKey_of_sign (Nat.not_lt.mp h), if_neg (by omega)]
    omega

/-- Distinct bits are never compared as equal. -/
theorem totalKey_injective : Function.Injective fun x : F32 => x.totalKey.toInt := by
  intro x y h
  have hx := x.bits.isLt
  have hy := y.bits.isLt
  simp only [totalKey_toInt] at h
  have hbits : x.bits = y.bits := by
    apply BitVec.eq_of_toNat_eq
    split at h <;> split at h <;> omega
  cases x
  cases y
  exact congrArg F32.mk hbits

instance : LinearOrder F32 := LinearOrder.lift' (fun x => x.totalKey.toInt) totalKey_injective

/-- The order's comparison is `total_cmp`. -/
theorem compare_eq_totalCmp (x y : F32) : compare x y = x.totalCmp y := by
  have hlt : x < y ↔ x.totalKey.toInt < y.totalKey.toInt := Iff.rfl
  have hinj : x = y ↔ x.totalKey.toInt = y.totalKey.toInt := totalKey_injective.eq_iff.symm
  rcases lt_trichotomy x.totalKey.toInt y.totalKey.toInt with h | h | h
  · rw [totalCmp, compare_lt_iff_lt.mpr h, compare_lt_iff_lt.mpr (hlt.mpr h)]
  · rw [totalCmp, compare_eq_iff_eq.mpr h, compare_eq_iff_eq.mpr (hinj.mpr h)]
  · rw [totalCmp, compare_gt_iff_gt.mpr h]
    exact compare_gt_iff_gt.mpr h

end F32

namespace ScoredId

/-- The derived `PartialEq::eq`: field by field. -/
def eq (a b : ScoredId F32) : Bool := a.id == b.id && a.score.feq b.score

/-- Scored ids are compared by `total_cmp` first. -/
theorem cmp_eq_totalCmp (a b : ScoredId F32) :
    cmp a b = (a.score.totalCmp b.score).then (compare b.id a.id) := by
  rw [cmp, F32.compare_eq_totalCmp]

/-- What `==` says of two scored ids. -/
theorem eq_iff (a b : ScoredId F32) :
    a.eq b = true ↔ a.id = b.id ∧ a.score.isNan = false ∧ b.score.isNan = false ∧
      (a.score = b.score ∨ a.score.isZero = true ∧ b.score.isZero = true) := by
  rw [eq, Bool.and_eq_true, beq_iff_eq, F32.feq_iff]

/-- The scores in use are numbers, and an id is not used with both zeros. -/
structure Comparable (used : Set (ScoredId F32)) : Prop where
  numbers : ∀ a ∈ used, a.score.isNan = false
  zeros : ∀ a ∈ used, ∀ b ∈ used, a.id = b.id → a.score.isZero = true → b.score.isZero = true → a.score = b.score

/-- On such scored ids `==` is equality of bits. -/
theorem Comparable.eq_iff_eq {used : Set (ScoredId F32)} (h : Comparable used) {a b : ScoredId F32}
    (ha : a ∈ used) (hb : b ∈ used) : a.eq b = true ↔ a = b := by
  rw [eq_iff]
  constructor
  · intro heq
    obtain ⟨hid, -, -, hscore⟩ := heq
    have hsame : a.score = b.score := by
      rcases hscore with hbits | ⟨hzero, hzero'⟩
      · exact hbits
      · exact h.zeros a ha b hb hid hzero hzero'
    cases a
    cases b
    simp_all
  · rintro rfl
    exact ⟨rfl, h.numbers a ha, h.numbers a ha, Or.inl rfl⟩

/-- On such scored ids `==` is an equivalence. -/
theorem Comparable.equivalence {used : Set (ScoredId F32)} (h : Comparable used) :
    Equivalence fun a b : used => a.1.eq b.1 = true := by
  constructor
  · intro a
    exact (h.eq_iff_eq a.2 a.2).mpr rfl
  · intro a b hab
    rw [h.eq_iff_eq a.2 b.2] at hab
    exact (h.eq_iff_eq b.2 a.2).mpr hab.symm
  · intro a b c hab hbc
    rw [h.eq_iff_eq a.2 b.2] at hab
    rw [h.eq_iff_eq b.2 c.2] at hbc
    exact (h.eq_iff_eq a.2 c.2).mpr (hab.trans hbc)

/-- Where `==` is reflexive and agrees with the comparison, there are no NaNs and not both zeros. -/
theorem comparable_of_agrees {used : Set (ScoredId F32)} (hrefl : ∀ a ∈ used, a.eq a = true)
    (hagrees : ∀ a ∈ used, ∀ b ∈ used, (a.eq b = true ↔ cmp a b = .eq)) : Comparable used := by
  have hnumber : ∀ a ∈ used, a.score.isNan = false := fun a ha => ((eq_iff a a).mp (hrefl a ha)).2.1
  refine ⟨hnumber, ?_⟩
  intro a ha b hb hid hzero hzero'
  have heq : a.eq b = true :=
    (eq_iff a b).mpr ⟨hid, hnumber a ha, hnumber b hb, Or.inr ⟨hzero, hzero'⟩⟩
  rw [(cmp_eq_eq_iff a b).mp ((hagrees a ha b hb).mp heq)]

/-- The comparison of scored ids, by `total_cmp` and then by id, is a total order on ids and
bits. Among those in use `==` is an equivalence that agrees with it exactly when no score is
a NaN and no id occurs with both zeros. -/
theorem eq_ord_contract_iff (used : Set (ScoredId F32)) :
    ((∀ a b : ScoredId F32, cmp a b = (a.score.totalCmp b.score).then (compare b.id a.id)) ∧
      (∀ a b : ScoredId F32, cmp b a = (cmp a b).swap) ∧
      (∀ a b : ScoredId F32, (cmp a b).isLE ∨ (cmp b a).isLE) ∧
      (∀ a b : ScoredId F32, (cmp a b).isLE → (cmp b a).isLE → a.id = b.id ∧ a.score.bits = b.score.bits) ∧
      ∀ a b c : ScoredId F32, (cmp a b).isLE → (cmp b c).isLE → (cmp a c).isLE) ∧
    ((Equivalence (fun a b : used => a.1.eq b.1 = true) ∧
        ∀ a ∈ used, ∀ b ∈ used, (a.eq b = true ↔ cmp a b = .eq)) ↔
      (∀ a ∈ used, a.score.isNan = false) ∧
        ∀ a ∈ used, ∀ b ∈ used, a.id = b.id → a.score.isZero = true → b.score.isZero = true →
          a.score = b.score) := by
  refine ⟨⟨cmp_eq_totalCmp, fun a b => (cmp_swap a b).symm, ?_, ?_, ?_⟩, ?_, ?_⟩
  · intro a b
    rw [cmp_isLE_iff, cmp_isLE_iff]
    exact le_total a b
  · intro a b hab hba
    rw [cmp_isLE_iff] at hab hba
    cases le_antisymm hab hba
    exact ⟨rfl, rfl⟩
  · intro a b c hab hbc
    rw [cmp_isLE_iff] at hab hbc ⊢
    exact hab.trans hbc
  · intro h
    have hused := comparable_of_agrees (fun a ha => h.1.refl ⟨a, ha⟩) h.2
    exact ⟨hused.numbers, hused.zeros⟩
  · intro h
    have hused : Comparable used := ⟨h.1, h.2⟩
    refine ⟨hused.equivalence, ?_⟩
    intro a ha b hb
    rw [hused.eq_iff_eq ha hb, cmp_eq_eq_iff]

/-- A NaN is compared as equal to itself and is not `==` to itself; the zeros are `==` and
compared as different. -/
theorem eq_disagrees_with_cmp :
    let nan : ScoredId F32 := ⟨1, ⟨0x7fc00000⟩⟩
    let zero : ScoredId F32 := ⟨1, ⟨0⟩⟩
    let negZero : ScoredId F32 := ⟨1, ⟨0x80000000⟩⟩
    nan.eq nan = false ∧ cmp nan nan = .eq ∧ negZero.eq zero = true ∧ cmp negZero zero = .lt := by
  decide

end ScoredId

end RaftVec
