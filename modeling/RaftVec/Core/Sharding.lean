import RaftVec.Core.Record

/-!
# Static hash sharding

A record lives on the shard its id hashes to. The assertion `shard_count > 0` is the
hypothesis of `shardId`, so a call that would panic cannot be written. The hash is a parameter
of `shardId`, since the router needs nothing of it; `fxHasher` is the one in use. It is a
bijection of the 64-bit words, so no shard owns more than one id more than another, whatever
the number of shards.
-/

namespace RaftVec

/-- The shard owning an id. -/
def shardId (fxhash : UInt64 → UInt64) (vectorId : UInt64) (shardCount : UInt32)
    (_positive : 0 < shardCount) : UInt32 :=
  (fxhash vectorId % shardCount.toUInt64).toUInt32

/-- `FxHasher` of the locked `rustc-hash` 2.1.3, on a 64-bit target, after one `u64`: the initial
hash is zero, writing a word adds it and multiplies, `finish` rotates. -/
def fxHasher (word : UInt64) : UInt64 :=
  let hash : UInt64 := (0 + word) * 0xf1357aea2e62a9c5
  .ofBitVec (hash.toBitVec.rotateLeft 26)

section Owner

variable (fxhash : UInt64 → UInt64) (vectorId : UInt64) (shardCount : UInt32) (positive : 0 < shardCount)

/-- The shard of an id is the remainder of its hash. -/
theorem toNat_shardId :
    (shardId fxhash vectorId shardCount positive).toNat = (fxhash vectorId).toNat % shardCount.toNat := by
  have hpos : 0 < shardCount.toNat := UInt32.lt_iff_toNat_lt.mp positive
  have hmod := Nat.mod_lt (fxhash vectorId).toNat hpos
  have hbound : shardCount.toNat < 2 ^ 32 := shardCount.toNat_lt
  simp only [shardId, UInt64.toNat_toUInt32, UInt64.toNat_mod, UInt32.toNat_toUInt64]
  exact Nat.mod_eq_of_lt (by omega)

/-- Every id is owned by a shard in range. -/
theorem shardId_lt : shardId fxhash vectorId shardCount positive < shardCount := by
  rw [UInt32.lt_iff_toNat_lt, toNat_shardId]
  exact Nat.mod_lt _ (UInt32.lt_iff_toNat_lt.mp positive)

end Owner

/-! ## The hash loses nothing -/

/-- Multiplication by an invertible word loses nothing. -/
theorem mul_word_injective {multiplier inverse : UInt64} (hunit : multiplier * inverse = 1) :
    Function.Injective fun word : UInt64 => word * multiplier := by
  refine Function.LeftInverse.injective (g := fun word => word * inverse) fun word => ?_
  change word * multiplier * inverse = word
  rw [UInt64.mul_assoc, hunit, UInt64.mul_one]

/-- Turning back undoes a rotation. -/
theorem rotateRight_rotateLeft (word : BitVec 64) {places : ℕ} (hplaces : places < 64) :
    (word.rotateLeft places).rotateRight places = word := by
  ext i hi
  rw [BitVec.getElem_rotateRight]
  simp only [BitVec.getElem_rotateLeft, Nat.mod_eq_of_lt hplaces]
  -- the bits that the rotation pushed out at the top have come in at the bottom
  grind

/-- No two words have one hash. -/
theorem fxHasher_injective : Function.Injective fxHasher := by
  intro left right hsame
  have hrotated : ((0 + left) * 0xf1357aea2e62a9c5).toBitVec.rotateLeft 26 =
      ((0 + right) * 0xf1357aea2e62a9c5).toBitVec.rotateLeft 26 := congrArg UInt64.toBitVec hsame
  have hbits := congrArg (BitVec.rotateRight · 26) hrotated
  simp only [rotateRight_rotateLeft _ (by decide : 26 < 64), UInt64.toBitVec_inj, UInt64.zero_add] at hbits
  exact mul_word_injective (show (0xf1357aea2e62a9c5 : UInt64) * 0x781494a55daaed0d = 1 by decide) hbits

/-- Every word is the hash of one word. -/
theorem fxHasher_bijective : Function.Bijective fxHasher := Finite.injective_iff_bijective.mp fxHasher_injective

/-! ## How evenly the ids are spread -/

/-- As many words as numbers below `2 ^ 64` have a property of numbers. -/
theorem card_words_eq_count (p : ℕ → Prop) [DecidablePred p] :
    Nat.card {word : UInt64 // p word.toNat} = Nat.count p (2 ^ 64) := by
  have hwords : Nat.card {word : UInt64 // p word.toNat} = Nat.card {n : ℕ // n < 2 ^ 64 ∧ p n} := by
    apply Nat.card_congr
    refine ⟨fun word => ⟨word.1.toNat, word.1.toNat_lt, word.2⟩,
      fun n => ⟨UInt64.ofNatLT n.1 n.2.1, by simpa using n.2.2⟩, ?_, ?_⟩
    · intro word
      simp
    · intro n
      simp
  rw [hwords, Nat.count_eq_card_filter_range]
  apply Nat.subtype_card
  intro n
  rw [Finset.mem_filter, Finset.mem_range]

/-- The ids of a shard are as many as the words that leave the shard as remainder. -/
theorem card_ids_eq_card_words {fxhash : UInt64 → UInt64} (hbijective : Function.Bijective fxhash)
    (shardCount : UInt32) (positive : 0 < shardCount) {s : UInt32} (hs : s < shardCount) :
    Nat.card {id : UInt64 // shardId fxhash id shardCount positive = s} =
      Nat.card {word : UInt64 // word.toNat ≡ s.toNat [MOD shardCount.toNat]} := by
  apply Nat.card_congr
  refine (Equiv.ofBijective fxhash hbijective).subtypeEquiv fun id => ?_
  rw [← UInt32.toNat_inj, toNat_shardId, Nat.ModEq, Nat.mod_eq_of_lt (UInt32.lt_iff_toNat_lt.mp hs)]
  rfl

/-- Every shard owns an equal part of the ids, and one more if it is among the first for which
some are left. -/
theorem card_ids_of_shard (shardCount : UInt32) (positive : 0 < shardCount) {s : UInt32} (hs : s < shardCount) :
    Nat.card {id : UInt64 // shardId fxHasher id shardCount positive = s} =
      2 ^ 64 / shardCount.toNat + if s.toNat < 2 ^ 64 % shardCount.toNat then 1 else 0 := by
  rw [card_ids_eq_card_words fxHasher_bijective shardCount positive hs,
    card_words_eq_count fun n => n ≡ s.toNat [MOD shardCount.toNat],
    Nat.count_modEq_card _ (UInt32.lt_iff_toNat_lt.mp positive),
    Nat.mod_eq_of_lt (UInt32.lt_iff_toNat_lt.mp hs)]

/-- Three shards: the one id left over is the first shard's. -/
theorem card_ids_of_shard_three :
    Nat.card {id : UInt64 // shardId fxHasher id 3 (by decide) = 0} = 6148914691236517206 ∧
      Nat.card {id : UInt64 // shardId fxHasher id 3 (by decide) = 2} = 6148914691236517205 := by
  constructor
  · exact (card_ids_of_shard 3 (by decide) (by decide)).trans (by decide)
  · exact (card_ids_of_shard 3 (by decide) (by decide)).trans (by decide)

end RaftVec
